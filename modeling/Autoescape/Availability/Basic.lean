import Autoescape.Availability.Glob

/-!
# Available functions

A function without a dot in its name is part of the language and always there. A qualified one is
there when one of the given globs matches its name.
-/
namespace Autoescape

structure Availability where
  patterns : List Regex.Compiled

namespace Availability

def builtin : Availability := ⟨[]⟩

/-- What some globs name; the first one that is refused ends the work. -/
def ofGlobs [Regex.Engine] (globs : List String) : Except Fault Availability := do
  return ⟨← globs.mapM Glob.compile⟩

def has (a : Availability) (name : String) : Bool :=
  !name.toList.contains '.' || a.patterns.any (·.isMatch name)

end Availability
end Autoescape
