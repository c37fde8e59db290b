import Autoescape.Directive.Name
import Autoescape.Fault
import Autoescape.Table.Basic

/-!
# The table of a directive

A directive that escapes nothing has no table. Otherwise its escapes are taken in order: each has
to be a single code unit, and no character may come twice, not even with the same text.
-/
namespace Autoescape.Directive

def addEscape (ident : String) (t : Table) (e : Escape) : Except Fault Table :=
  if e.plain.toNat > 0xFFFF then .error (.astral ident e.plain)
  else if (t.get? e.plain).isSome then .error (.ambiguous ident e.plain e.escaped)
  else .ok (t.insert e.plain e.escaped)

def table? (d : Directive) : Except Fault (Option Table) :=
  if d.escapes.isEmpty then .ok none
  else some <$> d.escapes.foldlM (addEscape d.identifier) Table.empty

end Autoescape.Directive
