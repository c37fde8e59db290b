import Autoescape.Pool
import Mathlib.Data.List.Basic

/-!
# Placing values in a pool

Placing looks for the first entry that fits (`place_snd`) and changes nothing but the entry at
that place (`getElem?_place`). Everything else about pools is read off these two, above all that
entries keep their places and owners.
-/
namespace Autoescape.Pool

variable {α : Type} (fits : α → Bool) (join : α → α) (value : α) (owner : String)

def joined : Option (Shared α) → Shared α
  | none => ⟨[owner], value⟩
  | some s => ⟨s.owners ++ [owner], join s.value⟩

theorem place_snd (pool : Pool α) :
    (pool.place fits join value owner).2 = pool.findIdx fun s => fits s.value := by
  induction pool with
  | nil => rfl
  | cons s rest ih =>
    rw [place, List.findIdx_cons]
    by_cases hs : fits s.value = true
    · simp [hs]
    · simp [hs, ih]

theorem getElem?_place (pool : Pool α) (i : Nat) :
    (pool.place fits join value owner).1[i]? =
      if i = (pool.place fits join value owner).2 then some (joined join value owner pool[i]?)
      else pool[i]? := by
  induction pool generalizing i with
  | nil => cases i <;> simp [place, joined]
  | cons s rest ih =>
    by_cases hs : fits s.value = true
    · cases i <;> simp [place, hs, joined]
    · cases i with
      | zero => simp [place, hs]
      | succ i => simp [place, hs, ih]

theorem fits_of_getElem?_place {pool : Pool α} {s : Shared α}
    (h : pool[(pool.place fits join value owner).2]? = some s) : fits s.value = true := by
  rw [place_snd] at h
  obtain ⟨hlt, rfl⟩ := List.getElem?_eq_some_iff.mp h
  exact List.findIdx_getElem (w := hlt)

theorem not_fits_of_lt_place {pool : Pool α} {i : Nat} {s : Shared α}
    (hi : i < (pool.place fits join value owner).2) (h : pool[i]? = some s) :
    fits s.value = false := by
  rw [place_snd] at hi
  obtain ⟨hlt, rfl⟩ := List.getElem?_eq_some_iff.mp h
  simpa using List.not_of_lt_findIdx hi

theorem place_le_length (pool : Pool α) :
    (pool.place fits join value owner).2 ≤ pool.length := by
  rw [place_snd]
  exact List.findIdx_le_length

theorem length_place (pool : Pool α) :
    (pool.place fits join value owner).1.length =
      max pool.length ((pool.place fits join value owner).2 + 1) := by
  induction pool with
  | nil => rfl
  | cons s rest ih =>
    by_cases hs : fits s.value = true
    · simp [place, hs]
    · simp [place, hs, ih, Nat.succ_max_succ]

/-- What a new entry has and joining keeps, all entries have after placing. -/
theorem forall_place {p : Shared α → Prop} {pool : Pool α} (hnew : p ⟨[owner], value⟩)
    (hjoin : ∀ s, p s → p ⟨s.owners ++ [owner], join s.value⟩) (h : ∀ s ∈ pool, p s) :
    ∀ s ∈ (pool.place fits join value owner).1, p s := by
  intro s hs
  rcases List.mem_iff_getElem?.mp hs with ⟨i, hi⟩
  rw [getElem?_place] at hi
  split at hi
  · cases hi
    cases hold : pool[i]? with
    | none => exact hnew
    | some old => exact hjoin old (h old (List.mem_of_getElem? hold))
  · exact h s (List.mem_of_getElem? hi)

/-- Every entry is still at its place, with its owners first and its value kept. -/
def Grows (keeps : α → α → Prop) (old new : Pool α) : Prop :=
  ∀ (i : Nat) (s : Shared α), old[i]? = some s →
    ∃ t, new[i]? = some t ∧ s.owners <+: t.owners ∧ keeps s.value t.value

namespace Grows

variable {keeps : α → α → Prop} {old mid new : Pool α}

theorem refl (hkeeps : ∀ v, keeps v v) (pool : Pool α) : Grows keeps pool pool :=
  fun _ s hs => ⟨s, hs, List.prefix_refl _, hkeeps _⟩

theorem trans (hkeeps : ∀ u v w, keeps u v → keeps v w → keeps u w) (h : Grows keeps old mid)
    (h' : Grows keeps mid new) : Grows keeps old new := by
  intro i s hs
  obtain ⟨t, ht, howners, hvalue⟩ := h i s hs
  obtain ⟨u, hu, howners', hvalue'⟩ := h' i t ht
  exact ⟨u, hu, howners.trans howners', hkeeps _ _ _ hvalue hvalue'⟩

theorem length_le (h : Grows keeps old new) : old.length ≤ new.length := by
  by_contra hlt
  obtain ⟨t, ht, -⟩ := h new.length old[new.length] (List.getElem?_eq_getElem (by omega))
  simp at ht

end Grows

variable {fits join}

/-- Placing keeps every entry when joining keeps every value that fits. -/
theorem grows_place {keeps : α → α → Prop} (hrefl : ∀ v, keeps v v)
    (hjoin : ∀ v, fits v = true → keeps v (join v)) (pool : Pool α) :
    Grows keeps pool (pool.place fits join value owner).1 := by
  intro i s hs
  rw [getElem?_place]
  split
  · next hi =>
    subst hi
    rw [hs]
    exact ⟨_, rfl, List.prefix_append _ _, hjoin _ (fits_of_getElem?_place fits join value owner hs)⟩
  · exact ⟨s, hs, List.prefix_refl _, hrefl _⟩

section Share

variable [BEq α]

theorem grows_share (pool : Pool α) : Grows (· = ·) pool (pool.share value owner).1 :=
  grows_place value owner (fun _ => rfl) (fun _ _ => rfl) pool

theorem getElem?_share [LawfulBEq α] (pool : Pool α) :
    ∃ s, (pool.share value owner).1[(pool.share value owner).2]? = some s ∧ s.value = value := by
  unfold share
  refine ⟨_, (getElem?_place _ _ value owner pool _).trans (if_pos rfl), ?_⟩
  cases hs : pool[(pool.place (· == value) id value owner).2]? with
  | none => rfl
  | some s => exact beq_iff_eq.mp (fits_of_getElem?_place _ _ value owner hs)

end Share

end Autoescape.Pool
