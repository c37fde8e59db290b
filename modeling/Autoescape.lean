import Autoescape.Json.Printer
import Autoescape.Main
import Autoescape.Proofs.Merging
import Autoescape.Proofs.Sharing
import Autoescape.Proofs.Disk
import Autoescape.Proofs.Codes
import Autoescape.Proofs.Run
import Autoescape.Proofs.Line
import Autoescape.Proofs.Strip
import Autoescape.Proofs.Printable
import Autoescape.Proofs.BlockLines
import Autoescape.Proofs.Names
import Autoescape.Proofs.BlockNames
import Autoescape.Proofs.Regeneration
import Autoescape.Proofs.Directory
import Autoescape.Proofs.Validation
import Autoescape.Proofs.Provenance
import Autoescape.Proofs.PatternToken
import Autoescape.Proofs.Labels
import Autoescape.Proofs.Symbols
import Autoescape.Proofs.Contents
import Autoescape.Proofs.QuotedReader
import Autoescape.Proofs.Unambiguous
import Autoescape.Proofs.Places
import Autoescape.Proofs.EscapeOrder
import Autoescape.Proofs.Ascii
import Autoescape.Proofs.Documents
import Autoescape.Proofs.CharClass.Canonical
import Autoescape.Proofs.QuotedValue
import Autoescape.Proofs.InputAnchors
import Autoescape.Proofs.PatternPieces
import Autoescape.Proofs.Quotations
import Autoescape.Proofs.Delimiters
import Autoescape.Proofs.NormalForm
import Autoescape.Proofs.QuotedText
import Autoescape.Proofs.FirstFault
import Autoescape.Proofs.Globs
import Autoescape.Proofs.Interning
import Autoescape.Proofs.Blocks
import Autoescape.Proofs.Vetting
import Autoescape.Proofs.StripAgain
import Autoescape.Proofs.FormerBlocks
import Autoescape.Proofs.StringToken
import Autoescape.Proofs.Spellings
import Autoescape.Proofs.EscapeFaults
import Autoescape.Proofs.PercentEncoding
