import Autoescape.Resources

/-!
# Plans

What is to be generated: one helper for each directive, and the resources that they share.
-/
namespace Autoescape

/-- A helper that hands its value on to an existing function. -/
structure Forwarding where
  directive : String
  function : String
deriving DecidableEq

/-- A helper that works with shared resources, given by their places. -/
structure Wiring where
  directive : String
  table : Option Nat
  matcher : Option Nat
  filter : Option Nat
  innocuous : String
deriving DecidableEq

inductive Helper where
  | forwarding (f : Forwarding)
  | wiring (w : Wiring)
deriving DecidableEq

def Helper.directive : Helper → String
  | .forwarding f => f.directive
  | .wiring w => w.directive

/-- The shared resources and the helpers, in the order of the directives. -/
structure Plan where
  resources : Resources
  helpers : List Helper

namespace Plan

def empty : Plan := ⟨Resources.empty, []⟩

instance : Inhabited Plan := ⟨empty⟩

def forwardings (p : Plan) : List Forwarding :=
  p.helpers.filterMap fun
    | .forwarding f => some f
    | .wiring _ => none

def wirings (p : Plan) : List Wiring :=
  p.helpers.filterMap fun
    | .forwarding _ => none
    | .wiring w => some w

def helper? (p : Plan) (directive : String) : Option Helper :=
  p.helpers.find? (·.directive = directive)

end Plan
end Autoescape
