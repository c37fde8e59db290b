import Autoescape.Fault
import Autoescape.Storage.Path

/-!
# The file system

Files, directories and devices at their locations; nothing lies at two locations, and no location
points to another one. A path is walked segment by segment, and every segment asks that what was
reached before it is a directory. Whoever runs the program may read and write everything: a file or
directory that is marked read-only says so, but refuses nothing. What the medium below refuses is
part of the state, so that every operation on it may fail.
-/
namespace Autoescape.Storage

abbrev Location := List String

/-- Devices that can be opened for writing but do not keep what is written. -/
inductive Device where
  | full
  | null
deriving DecidableEq

inductive Node where
  | directory (readOnly : Bool)
  | file (contents : ByteArray) (readOnly : Bool)
  | device (d : Device)

namespace Node

def isReadOnly : Node → Bool
  | .directory readOnly => readOnly
  | .file _ readOnly => readOnly
  | .device _ => false

def isDirectory : Node → Bool
  | .directory _ => true
  | _ => false

def isFile : Node → Bool
  | .file _ _ => true
  | _ => false

end Node

inductive Hindrance where
  /-- It is not opened. -/
  | closed (refusal : Refusal)
  /-- It is opened, but its contents do not come. -/
  | withheld (refusal : Refusal)
deriving DecidableEq

/-- What the medium refuses, and why: to let a location be read, to open it for writing, to store a
text there. -/
structure Medium where
  reading : Location → Option Hindrance
  opening : Location → Option Refusal
  storing : Location → String → Option Refusal

def Medium.sound : Medium := ⟨fun _ => none, fun _ => none, fun _ _ => none⟩

structure Disk where
  here : Location
  nodes : List (Location × Node)
  medium : Medium

namespace Disk

/-- What lies at a location; at the root there is always a directory. -/
def node? (d : Disk) (l : Location) : Option Node :=
  (d.nodes.lookup l).or (if l = [] then some (.directory false) else none)

def erase (d : Disk) (l : Location) : Disk := { d with nodes := d.nodes.filter (·.1 ≠ l) }

def put (d : Disk) (l : Location) (n : Node) : Disk :=
  { d with nodes := (l, n) :: d.nodes.filter (·.1 ≠ l) }

def nameLimit : Nat := 255

def pathLimit : Nat := 4095

def checkPath (path : String) : Except Refusal Unit :=
  if path.toList.contains '\x00' then .error .nulInPath
  else if path = "" then .error .notFound
  else if path.utf8ByteSize > pathLimit then .error .nameTooLong
  else .ok ()

/-- Where one more segment leads. The location need not hold anything. -/
def enter (d : Disk) (l : Location) (segment : String) : Except Refusal Location :=
  match d.node? l with
  | none => .error .notFound
  | some (.directory _) =>
    if segment = "" ∨ segment = "." then .ok l
    else if segment = ".." then .ok l.dropLast
    else if segment.utf8ByteSize > nameLimit then .error .nameTooLong
    else .ok (l ++ [segment])
  | some _ => .error .notDirectory

def walk (d : Disk) (l : Location) (segments : List String) : Except Refusal Location :=
  segments.foldlM d.enter l

def origin (d : Disk) (path : String) : Location := if Path.isAbsolute path then [] else d.here

def locate (d : Disk) (path : String) : Except Refusal (Location × Node) := do
  checkPath path
  let l ← d.walk (d.origin path) (Path.segments path)
  match d.node? l with
  | some n => return (l, n)
  | none => throw .notFound

def holds (d : Disk) (path : String) (p : Node → Bool) : Bool :=
  match d.locate path with
  | .ok (_, n) => p n
  | .error _ => false

def isDirectory (d : Disk) (path : String) : Bool := d.holds path Node.isDirectory

def isFile (d : Disk) (path : String) : Bool := d.holds path Node.isFile

def isThere (d : Disk) (path : String) : Bool := d.holds path fun _ => true

def isReadOnly (d : Disk) (path : String) : Bool := d.holds path Node.isReadOnly

def openForReading (d : Disk) (path : String) : Except Refusal (Location × Node) := do
  let (l, n) ← d.locate path
  match d.medium.reading l with
  | some (.closed refusal) => throw refusal
  | _ => return (l, n)

/-- The text of a file. The null device has none, and the full one gives zeros as long as there is
memory for them. -/
def read (d : Disk) (path : String) : Except Refusal String := do
  let (l, n) ← d.openForReading path
  match d.medium.reading l, n with
  | some (.closed refusal), _ | some (.withheld refusal), _ => throw refusal
  | none, .directory _ => throw .isDirectory
  | none, .device .null => return ""
  | none, .device .full => throw .outOfMemory
  | none, .file contents _ =>
    match String.fromUTF8? contents with
    | some text => return text
    | none => throw .notText

/-- The location that a path names for writing. A path that ends in a slash or in dots names a
directory. -/
def target (d : Disk) (path : String) : Except Refusal Location := do
  checkPath path
  let segments := Path.segments path
  let named := (segments.reverse.dropWhile (· = "")).reverse
  match named.getLast? with
  | none => throw .isDirectory
  | some name =>
    let parent ← d.walk (d.origin path) named.dropLast
    let _ ← d.enter parent "."
    if named.length < segments.length ∨ name = "." ∨ name = ".." then throw .isDirectory
    d.enter parent name

/-- Opens a location for writing: a file is emptied, or made where nothing is. -/
def truncate (d : Disk) (l : Location) : Except Refusal Disk :=
  match d.medium.opening l, d.node? l with
  | some refusal, _ => .error refusal
  | none, some (.directory _) => .error .isDirectory
  | none, some (.file _ readOnly) => .ok (d.put l (.file .empty readOnly))
  | none, some (.device _) => .ok d
  | none, none => .ok (d.put l (.file .empty false))

/-- Opens a path for writing, and says where it leads. -/
def create (d : Disk) (path : String) : Except Refusal (Location × Disk) := do
  let l ← d.target path
  return (l, ← d.truncate l)

/-- Writes a text to what was opened and waits until it is stored. Devices never store. -/
def store (d : Disk) (l : Location) (text : String) : Except Refusal Disk :=
  match d.medium.storing l text, d.node? l with
  | some refusal, _ => .error refusal
  | none, some (.device .full) => .error (if text = "" then .invalidArgument else .noSpace)
  | none, some (.device .null) => .error .invalidArgument
  | none, some n => .ok (d.put l (.file text.toUTF8 n.isReadOnly))
  | none, none => .ok (d.put l (.file text.toUTF8 false))

/-- Writes a text to a path. Nothing half written is left: when storing fails, what was opened is
removed. -/
def write (d : Disk) (path text : String) : Except Refusal Unit × Disk :=
  match d.create path with
  | .error refusal => (.error refusal, d)
  | .ok (l, opened) =>
    match opened.store l text with
    | .ok d => (.ok (), d)
    | .error refusal => (.error refusal, opened.erase l)

end Disk
end Autoescape.Storage
