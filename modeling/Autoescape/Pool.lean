/-!
# Shared values

A pool holds values that several owners use. Whoever brings a value joins the first entry that it
fits, and is given a new last entry when it fits none; the place of an entry never changes.
-/
namespace Autoescape

/-- A value with those who use it, in the order in which they came. -/
structure Shared (α : Type) where
  owners : List String
  value : α
deriving DecidableEq

def Shared.label {α : Type} (s : Shared α) : String := "__AND__".intercalate s.owners

abbrev Pool (α : Type) := List (Shared α)

namespace Pool

variable {α : Type}

/-- Lets an owner join the first entry whose value `fits`, changing that value by `join`, or puts
`value` at the end; gives the pool after that and the place of the entry. -/
def place (fits : α → Bool) (join : α → α) (value : α) (owner : String) : Pool α → Pool α × Nat
  | [] => ([⟨[owner], value⟩], 0)
  | s :: rest =>
    if fits s.value then (⟨s.owners ++ [owner], join s.value⟩ :: rest, 0)
    else
      let (rest, i) := place fits join value owner rest
      (s :: rest, i + 1)

def share [BEq α] (value : α) (owner : String) (pool : Pool α) : Pool α × Nat :=
  pool.place (· == value) id value owner

end Pool
end Autoescape
