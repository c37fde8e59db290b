import Mathlib.Data.List.Forall2
import Mathlib.Data.List.Induction

/-!
# Computations that may fail

How a computation that succeeded came to its result: every step of it succeeded too. And how one
can have failed: a step of it did.
-/
namespace Autoescape

variable {ε α β : Type}

theorem Except.pure_eq_ok (a : α) : (pure a : Except ε α) = .ok a := rfl

@[simp] theorem Except.throw_eq_error (e : ε) : (throw e : Except ε α) = .error e := rfl

@[simp] theorem Except.ok_bind (a : α) (f : α → Except ε β) : (.ok a : Except ε α) >>= f = f a := rfl

@[simp] theorem Except.error_bind (e : ε) (f : α → Except ε β) :
    (.error e : Except ε α) >>= f = .error e := rfl

theorem Except.bind_eq_ok {x : Except ε α} {f : α → Except ε β} {b : β} :
    x >>= f = .ok b ↔ ∃ a, x = .ok a ∧ f a = .ok b := by
  cases x with
  | error e => simp
  | ok a => simp

theorem Except.bind_eq_error {x : Except ε α} {f : α → Except ε β} {e : ε} :
    x >>= f = .error e ↔ x = .error e ∨ ∃ a, x = .ok a ∧ f a = .error e := by
  cases x with
  | error e' => simp
  | ok a => simp

theorem Except.exists_ok_iff {x : Except ε α} : (∃ a, x = .ok a) ↔ ∀ e, x ≠ .error e := by
  cases x with
  | error e => simp
  | ok a => simp

theorem Except.map_eq_ok {x : Except ε α} {f : α → β} {b : β} :
    f <$> x = .ok b ↔ ∃ a, x = .ok a ∧ f a = b := by
  cases x with
  | error e => simp
  | ok a => simp

/-- What holds at the start of a successful fold and is kept by every step of it holds at its end,
of the elements taken by then. -/
theorem Except.foldlM_induction {f : β → α → Except ε β} {motive : List α → β → Prop} {b : β}
    (nil : motive [] b)
    (snoc : ∀ l a c c', motive l c → f c a = .ok c' → motive (l ++ [a]) c') {l : List α} {b' : β}
    (h : l.foldlM f b = .ok b') : motive l b' := by
  induction l using List.reverseRecOn generalizing b' with
  | nil =>
    obtain rfl : b = b' := by simpa [Except.pure_eq_ok] using h
    exact nil
  | append_singleton l a ih =>
    rw [List.foldlM_append] at h
    obtain ⟨c, hc, hlast⟩ := Except.bind_eq_ok.mp h
    refine snoc l a c b' (ih hc) ?_
    simpa using hlast

/-- A fold fails when one of its steps does after all steps before it succeeded, and with that failure. -/
theorem Except.foldlM_eq_error {f : β → α → Except ε β} {l : List α} {b : β} {e : ε} :
    l.foldlM f b = .error e ↔ ∃ before a after c,
      l = before ++ a :: after ∧ before.foldlM f b = .ok c ∧ f c a = .error e := by
  induction l generalizing b with
  | nil =>
    simp only [List.foldlM_nil, Except.pure_eq_ok, reduceCtorEq, false_iff]
    rintro ⟨before, a, after, c, hl, -⟩
    simp at hl
  | cons x rest ih =>
    rw [List.foldlM_cons, Except.bind_eq_error]
    constructor
    · rintro (hfirst | ⟨b', hfirst, hrest⟩)
      · exact ⟨[], x, rest, b, rfl, rfl, hfirst⟩
      · obtain ⟨before, a, after, c, rfl, hbefore, ha⟩ := ih.mp hrest
        exact ⟨x :: before, a, after, c, rfl, Except.bind_eq_ok.mpr ⟨b', hfirst, hbefore⟩, ha⟩
    · rintro ⟨before, a, after, c, hl, hbefore, ha⟩
      cases before with
      | nil =>
        cases hl
        cases hbefore
        exact .inl ha
      | cons y before =>
        cases hl
        obtain ⟨b', hfirst, hbefore⟩ := Except.bind_eq_ok.mp hbefore
        exact .inr ⟨b', hfirst, ih.mpr ⟨before, a, after, c, rfl, hbefore, ha⟩⟩

theorem Except.forall₂_of_mapM {f : α → Except ε β} {l : List α} {l' : List β}
    (h : l.mapM f = .ok l') : List.Forall₂ (fun a b => f a = .ok b) l l' := by
  induction l generalizing l' with
  | nil =>
    cases h
    exact .nil
  | cons a rest ih =>
    rw [List.mapM_cons] at h
    rcases Except.bind_eq_ok.mp h with ⟨b, hb, h⟩
    rcases Except.bind_eq_ok.mp h with ⟨others, hothers, h⟩
    cases h
    exact .cons hb (ih hothers)

theorem Except.forM_eq_ok {f : α → Except ε Unit} {l : List α} :
    l.forM f = .ok () ↔ ∀ a ∈ l, f a = .ok () := by
  induction l with
  | nil => simp [Except.pure_eq_ok]
  | cons a rest ih =>
    rw [List.forM_eq_forM, List.forM_cons, Except.bind_eq_ok, List.forall_mem_cons, ← ih]
    constructor
    · rintro ⟨⟨⟩, hfirst, hrest⟩
      exact ⟨hfirst, hrest⟩
    · rintro ⟨hfirst, hrest⟩
      exact ⟨(), hfirst, hrest⟩

theorem Except.forM_eq_error {f : α → Except ε Unit} {l : List α} {e : ε} :
    l.forM f = .error e ↔ ∃ before a after,
      l = before ++ a :: after ∧ (∀ earlier ∈ before, f earlier = .ok ()) ∧ f a = .error e := by
  induction l with
  | nil => simp [Except.pure_eq_ok]
  | cons x rest ih =>
    rw [List.forM_eq_forM, List.forM_cons, Except.bind_eq_error, ← List.forM_eq_forM, ih]
    constructor
    · rintro (hfirst | ⟨⟨⟩, hfirst, before, a, after, rfl, hbefore, ha⟩)
      · exact ⟨[], x, rest, rfl, nofun, hfirst⟩
      · exact ⟨x :: before, a, after, rfl, List.forall_mem_cons.mpr ⟨hfirst, hbefore⟩, ha⟩
    · rintro ⟨before, a, after, hl, hbefore, ha⟩
      cases before with
      | nil =>
        cases hl
        exact .inl ha
      | cons y before =>
        cases hl
        obtain ⟨hfirst, hbefore⟩ := List.forall_mem_cons.mp hbefore
        exact .inr ⟨(), hfirst, before, a, after, rfl, hbefore, ha⟩

theorem Except.mapM_eq_error {f : α → Except ε β} {l : List α} {e : ε} :
    l.mapM f = .error e ↔ ∃ before a after,
      l = before ++ a :: after ∧ (∀ earlier ∈ before, ∃ b, f earlier = .ok b) ∧ f a = .error e := by
  induction l with
  | nil => simp [Except.pure_eq_ok]
  | cons x rest ih =>
    rw [List.mapM_cons, Except.bind_eq_error]
    constructor
    · rintro (hfirst | ⟨b, hfirst, hrest⟩)
      · exact ⟨[], x, rest, rfl, nofun, hfirst⟩
      · obtain hrest | ⟨others, -, hpure⟩ := Except.bind_eq_error.mp hrest
        · obtain ⟨before, a, after, rfl, hbefore, ha⟩ := ih.mp hrest
          exact ⟨x :: before, a, after, rfl, List.forall_mem_cons.mpr ⟨⟨b, hfirst⟩, hbefore⟩, ha⟩
        · cases hpure
    · rintro ⟨before, a, after, hl, hbefore, ha⟩
      cases before with
      | nil =>
        cases hl
        exact .inl ha
      | cons y before =>
        cases hl
        obtain ⟨⟨b, hfirst⟩, hbefore⟩ := List.forall_mem_cons.mp hbefore
        have hrest := ih.mpr ⟨before, a, after, rfl, hbefore, ha⟩
        exact .inr ⟨b, hfirst, Except.bind_eq_error.mpr (.inl hrest)⟩

theorem Option.forall₂_of_mapM {f : α → Option β} {l : List α} {l' : List β}
    (h : l.mapM f = some l') : List.Forall₂ (fun a b => f a = some b) l l' := by
  induction l generalizing l' with
  | nil =>
    cases h
    exact .nil
  | cons a rest ih =>
    rw [List.mapM_cons] at h
    rcases Option.bind_eq_some_iff.mp h with ⟨b, hb, h⟩
    rcases Option.bind_eq_some_iff.mp h with ⟨others, hothers, h⟩
    cases h
    exact .cons hb (ih hothers)

theorem Option.mapM_of_forall₂ {f : α → Option β} {l : List α} {l' : List β}
    (h : List.Forall₂ (fun a b => f a = some b) l l') : l.mapM f = some l' := by
  induction h with
  | nil => rfl
  | cons hfirst _ ih => simp [List.mapM_cons, hfirst, ih]

theorem Option.exists_mapM {f : α → Option β} {l : List α} (h : ∀ a ∈ l, ∃ b, f a = some b) :
    ∃ l', l.mapM f = some l' := by
  induction l with
  | nil => exact ⟨[], rfl⟩
  | cons a rest ih =>
    obtain ⟨⟨b, hb⟩, hrest⟩ := List.forall_mem_cons.mp h
    obtain ⟨others, hothers⟩ := ih hrest
    exact ⟨b :: others, by simp [List.mapM_cons, hb, hothers]⟩

theorem exists_of_forall₂ {r : α → β → Prop} {l : List α} {l' : List β} {b : β}
    (h : List.Forall₂ r l l') (hb : b ∈ l') : ∃ a ∈ l, r a b := by
  induction h with
  | nil => exact absurd hb List.not_mem_nil
  | @cons first result rest results hfirst hrest ih =>
    rcases List.mem_cons.mp hb with rfl | hb
    · exact ⟨first, List.mem_cons_self, hfirst⟩
    · rcases ih hb with ⟨a, ha, hr⟩
      exact ⟨a, List.mem_cons_of_mem first ha, hr⟩

theorem map_eq_map_of_forall₂ {γ : Type} {r : α → β → Prop} {f : α → γ} {g : β → γ} {l : List α}
    {l' : List β} (h : List.Forall₂ r l l') (hr : ∀ a b, r a b → f a = g b) : l.map f = l'.map g := by
  induction h with
  | nil => rfl
  | cons hfirst hrest ih => rw [List.map_cons, List.map_cons, hr _ _ hfirst, ih]

/-- The computation succeeds, or it fails in a way that `p` knows. -/
def Except.FailsOnly (p : ε → Prop) : Except ε α → Prop
  | .error e => p e
  | .ok _ => True

namespace Except.FailsOnly

variable {p : ε → Prop}

@[simp] theorem error_iff {e : ε} : FailsOnly p (.error e : Except ε α) ↔ p e := Iff.rfl

theorem mono {q : ε → Prop} {x : Except ε α} (h : FailsOnly p x) (hpq : ∀ e, p e → q e) :
    FailsOnly q x := by
  cases x with
  | error e => exact hpq e h
  | ok a => trivial

theorem bind_of_ok {x : Except ε α} {f : α → Except ε β} (hx : FailsOnly p x)
    (hf : ∀ a, x = .ok a → FailsOnly p (f a)) : FailsOnly p (x >>= f) := by
  cases x with
  | error e => exact hx
  | ok a => exact hf a rfl

theorem bind {x : Except ε α} {f : α → Except ε β} (hx : FailsOnly p x)
    (hf : ∀ a, FailsOnly p (f a)) : FailsOnly p (x >>= f) :=
  bind_of_ok hx fun a _ => hf a

theorem map {x : Except ε α} {f : α → β} (hx : FailsOnly p x) : FailsOnly p (f <$> x) := by
  cases x with
  | error e => exact hx
  | ok a => trivial

theorem foldlM {f : β → α → Except ε β} (hf : ∀ b a, FailsOnly p (f b a)) (l : List α) (b : β) :
    FailsOnly p (l.foldlM f b) := by
  induction l generalizing b with
  | nil => trivial
  | cons a rest ih =>
    rw [List.foldlM_cons]
    exact (hf b a).bind ih

theorem mapM {f : α → Except ε β} {l : List α} (hf : ∀ a ∈ l, FailsOnly p (f a)) :
    FailsOnly p (l.mapM f) := by
  induction l with
  | nil => trivial
  | cons a rest ih =>
    rcases List.forall_mem_cons.mp hf with ⟨hfirst, hrest⟩
    rw [List.mapM_cons]
    exact hfirst.bind fun b => (ih hrest).bind fun _ => trivial

theorem forM {f : α → Except ε PUnit} (hf : ∀ a, FailsOnly p (f a)) (l : List α) :
    FailsOnly p (l.forM f) := by
  induction l with
  | nil => trivial
  | cons a rest ih => exact (hf a).bind fun _ => ih

end Except.FailsOnly
end Autoescape
