/-!
# Escape tables

A table gives characters the texts that stand for them, in the order of their numbers and each
once. It is seen through `get?`; `get?_insert` and `get?_merge` say what the operations do.
-/
namespace Autoescape

def Ascending (entries : List (Char × String)) : Prop := entries.Pairwise (·.1 < ·.1)

structure Table where
  entries : List (Char × String)
  ascending : Ascending entries

namespace Table

/-- Puts an entry in its place, instead of one for the same character. -/
def put (c : Char) (text : String) : List (Char × String) → List (Char × String)
  | [] => [(c, text)]
  | e :: rest =>
    if c < e.1 then (c, text) :: e :: rest
    else if c = e.1 then (c, text) :: rest
    else e :: put c text rest

def find? (c : Char) : List (Char × String) → Option String
  | [] => none
  | e :: rest => if c = e.1 then some e.2 else find? c rest

theorem fst_of_mem_put {c : Char} {text : String} {entries : List (Char × String)} {e : Char × String}
    (h : e ∈ put c text entries) : e.1 = c ∨ ∃ d ∈ entries, d.1 = e.1 := by
  induction entries with
  | nil => simp_all [put]
  | cons d rest ih =>
    unfold put at h
    split at h
    · rcases List.mem_cons.mp h with rfl | h
      · exact .inl rfl
      · exact .inr ⟨e, h, rfl⟩
    · split at h
      · rcases List.mem_cons.mp h with rfl | h
        · exact .inl rfl
        · exact .inr ⟨e, List.mem_cons_of_mem _ h, rfl⟩
      · rcases List.mem_cons.mp h with rfl | h
        · exact .inr ⟨e, List.mem_cons_self, rfl⟩
        · rcases ih h with h | ⟨x, hx, he⟩
          · exact .inl h
          · exact .inr ⟨x, List.mem_cons_of_mem _ hx, he⟩

theorem ascending_put {c : Char} {text : String} {entries : List (Char × String)}
    (h : Ascending entries) : Ascending (put c text entries) := by
  induction entries with
  | nil => simp [put, Ascending]
  | cons d rest ih =>
    obtain ⟨hd, hrest⟩ := List.pairwise_cons.mp h
    unfold put
    split
    · next hlt =>
      refine List.pairwise_cons.mpr ⟨fun e he => ?_, h⟩
      rcases List.mem_cons.mp he with rfl | he
      · exact hlt
      · exact Char.lt_trans hlt (hd e he)
    · next hle =>
      split
      · next heq =>
        refine List.pairwise_cons.mpr ⟨fun e he => ?_, hrest⟩
        rw [heq]
        exact hd e he
      · next hne =>
        refine List.pairwise_cons.mpr ⟨fun e he => ?_, ih hrest⟩
        rcases fst_of_mem_put he with heq | ⟨x, hx, heq⟩
        · rw [heq]
          exact Char.not_le.mp fun h => hne (Char.le_antisymm h (Char.not_lt.mp hle))
        · rw [← heq]
          exact hd x hx

def empty : Table := ⟨[], .nil⟩

instance : Inhabited Table := ⟨empty⟩

def get? (t : Table) (c : Char) : Option String := find? c t.entries

def keys (t : Table) : List Char := t.entries.map (·.1)

/-- Gives a character a text, instead of any that it had. -/
def insert (t : Table) (c : Char) (text : String) : Table :=
  ⟨put c text t.entries, ascending_put t.ascending⟩

def merge (t added : Table) : Table := added.entries.foldl (fun t e => t.insert e.1 e.2) t

/-- The table of some pairs; of two for one character the later counts. -/
def ofPairs (pairs : List (Char × String)) : Table :=
  pairs.foldl (fun t e => t.insert e.1 e.2) empty

theorem find?_put (c d : Char) (text : String) (entries : List (Char × String)) :
    find? d (put c text entries) = if d = c then some text else find? d entries := by
  induction entries with
  | nil => simp [put, find?]
  | cons e rest ih => grind [put, find?]

@[simp] theorem get?_empty (c : Char) : empty.get? c = none := rfl

@[simp] theorem get?_insert (t : Table) (c d : Char) (text : String) :
    (t.insert c text).get? d = if d = c then some text else t.get? d :=
  find?_put c d text t.entries

theorem find?_eq_none {c : Char} {entries : List (Char × String)} (h : ∀ e ∈ entries, c < e.1) :
    find? c entries = none := by
  induction entries with
  | nil => rfl
  | cons e rest ih =>
    have hne : c ≠ e.1 := fun heq => Char.lt_irrefl _ (heq ▸ h e List.mem_cons_self)
    simp [find?, hne, ih fun x hx => h x (List.mem_cons_of_mem _ hx)]

theorem get?_foldl_insert {entries : List (Char × String)} (h : Ascending entries) (t : Table) (c : Char) :
    (entries.foldl (fun t e => t.insert e.1 e.2) t).get? c = (find? c entries).or (t.get? c) := by
  induction entries generalizing t with
  | nil => rfl
  | cons e rest ih =>
    obtain ⟨he, hrest⟩ := List.pairwise_cons.mp h
    rw [List.foldl_cons, ih hrest, get?_insert, find?]
    by_cases hc : c = e.1
    · simp [hc, find?_eq_none fun x hx => he x hx]
    · simp [hc]

/-- What is put in counts; the rest stays. -/
@[simp] theorem get?_merge (t added : Table) (c : Char) :
    (t.merge added).get? c = (added.get? c).or (t.get? c) :=
  get?_foldl_insert added.ascending t c

/-- Looks entries up in a table, up to the first one that has another text there. -/
def agreesFrom (t : Table) (overlap : Bool) : List (Char × String) → Bool
  | [] => overlap
  | e :: rest =>
    match t.get? e.1 with
    | some text => if text = e.2 then agreesFrom t true rest else false
    | none => agreesFrom t overlap rest

/-- Two tables belong together when they share a character and agree on all they share. The entries
of the smaller one are looked up in the other. -/
def agrees (t u : Table) : Bool :=
  if t.entries.length ≤ u.entries.length then u.agreesFrom false t.entries
  else t.agreesFrom false u.entries

end Table
end Autoescape
