import Autoescape.Json.Record
import Autoescape.Proofs.Except
import Autoescape.Proofs.Json.Grammar

/-!
# The forms of a record

A record with declared fields is given with its fields by name, in any order and among others that
nobody declared, or as the list of its values. A field with a default may be left out while it
holds that default. The readers take exactly what has one of these forms.
-/
namespace Autoescape

/-- The two units of a pair are those of the character that the pair stands for. -/
theorem Text.Units.ofChar_ofPair {high low : UInt16} (hhigh : isHigh high = true) (hlow : isLow low = true) :
    ofChar (ofPair high low) = [high, low] := by
  simp only [isHigh, isLow, Bool.and_eq_true, decide_eq_true_eq] at hhigh hlow
  have hvalid : (0x10000 + (high.toNat - 0xD800) * 0x400 + (low.toNat - 0xDC00)).isValidChar := by
    simp only [Nat.isValidChar]
    omega
  have hnumber : (ofPair high low).toNat = 0x10000 + (high.toNat - 0xD800) * 0x400 + (low.toNat - 0xDC00) := by
    rw [ofPair, Char.ofNat, dif_pos hvalid]
    rfl
  have hfirst : 0xD7C0 + (ofPair high low).toNat / 0x400 = high.toNat := by omega
  have hsecond : 0xDC00 + (ofPair high low).toNat % 0x400 = low.toNat := by omega
  rw [ofChar, if_neg (by omega), hfirst, hsecond]
  simp

/-- Only the units of a text are read as that text. -/
theorem Text.Units.decode?_eq_some_iff {units : List UInt16} {s : List Char} :
    decode? units = some s ↔ units = encode s := by
  constructor
  · intro h
    induction units using decode?.induct generalizing s with
    | case1 =>
      cases h
      rfl
    | case2 u hhigh v rest hlow ih =>
      rw [decode?_pair rest hhigh hlow, Option.map_eq_some_iff] at h
      obtain ⟨s, hs, rfl⟩ := h
      rw [encode_cons, ofChar_ofPair hhigh hlow, ← ih hs]
      rfl
    | case3 u hhigh v rest hlow => simp [decode?, hhigh, hlow] at h
    | case4 u hhigh => simp [decode?, hhigh] at h
    | case5 u rest hhigh hlow => cases rest <;> simp [decode?, hhigh, hlow] at h
    | case6 u rest hhigh hlow ih =>
      have hhigh : isHigh u = false := by simpa using hhigh
      have hlow : isLow u = false := by simpa using hlow
      rw [decode?_single rest hhigh hlow, Option.map_eq_some_iff] at h
      obtain ⟨s, hs, rfl⟩ := h
      have hvalid : u.toNat.isValidChar := by
        have hlt := u.toNat_lt
        simp only [isHigh, Bool.and_eq_false_iff, decide_eq_false_iff_not] at hhigh
        simp only [isLow, Bool.and_eq_false_iff, decide_eq_false_iff_not] at hlow
        simp only [Nat.isValidChar]
        omega
      rw [encode_cons, Json.ofChar_ofNat hvalid, ← ih hs]
      rfl
  · rintro rfl
    exact decode?_encode s

namespace Json

variable {α : Type} {read : Json → Option α} {given : α → Json → Prop} {v : Json}

/-- What `read` takes as `a` is exactly what gives `a`. -/
def Reads (read : Json → Option α) (given : α → Json → Prop) : Prop :=
  ∀ v a, read v = some a ↔ given a v

/-! ### Values -/

/-- A value that is given as it is written, and in no other way. -/
def IsWritten (write : α → Json) (a : α) (v : Json) : Prop := v = write a

theorem isWritten (write : α → Json) (a : α) : IsWritten write a (write a) := rfl

theorem reads_text : Reads text? (IsWritten text) := by
  intro v s
  cases v with
  | string units =>
    simp only [text?, IsWritten, text, Option.map_eq_some_iff, Text.Units.decode?_eq_some_iff, string.injEq]
    constructor
    · rintro ⟨chars, rfl, rfl⟩
      rw [String.toList_ofList]
    · rintro rfl
      exact ⟨s.toList, rfl, String.ofList_toList⟩
  | _ => simp [text?, IsWritten, text]

theorem reads_char : Reads char? (IsWritten char) := by
  intro v c
  constructor
  · intro h
    obtain ⟨s, hs, hc⟩ := Option.bind_eq_some_iff.mp h
    obtain rfl : v = text s := (reads_text v s).mp hs
    split at hc
    · next c' hlist =>
      obtain rfl : c' = c := by simpa using hc
      simp [IsWritten, text, char, hlist]
    · cases hc
  · rintro rfl
    exact char?_char c

theorem reads_bool : Reads bool? (IsWritten bool) := by
  intro v b
  cases v <;> simp [bool?, IsWritten]

def IsListOf (given : α → Json → Prop) (l : List α) (v : Json) : Prop :=
  ∃ items, v = .list items ∧ List.Forall₂ given l items

theorem Reads.listOf (hread : Reads read given) : Reads (listOf read) (IsListOf given) := by
  intro v l
  constructor
  · intro h
    obtain ⟨items, hitems, hmapM⟩ := Option.bind_eq_some_iff.mp h
    have hv : v = .list items := by
      cases v <;> simp_all [list?]
    exact ⟨items, hv, (Option.forall₂_of_mapM hmapM).flip.imp fun a item => (hread item a).mp⟩
  · rintro ⟨items, rfl, hitems⟩
    exact Option.mapM_of_forall₂ (hitems.flip.imp fun item a => (hread item a).mpr)

def IsOptional (given : α → Json → Prop) : Option α → Json → Prop
  | none, v => v = .null
  | some a, v => given a v

theorem Reads.nullable (hread : Reads read given) (hnull : read .null = none) :
    Reads (nullable read) (IsOptional given) := by
  intro v o
  cases o with
  | none => cases v <;> simp [Json.nullable, IsOptional]
  | some a =>
    rw [IsOptional, ← hread]
    cases v <;> simp [Json.nullable, hnull]

/-! ### Fields -/

/-- How a declared field may be given, and whether it may be left out. -/
structure Field where
  Given : Json → Prop
  Omissible : Prop

def Field.required (given : Json → Prop) : Field := ⟨given, False⟩

/-- A field that may be left out while it holds its default. -/
def Field.withDefault (given : α → Json → Prop) (absent a : α) : Field := ⟨given a, a = absent⟩

/-- The field is there and given, or it is rightly left out. -/
def Field.Holds (f : Field) : Option Json → Prop
  | none => f.Omissible
  | some v => f.Given v

theorem Reads.required (hread : Reads read given) {slot : Option Json} {a : α} :
    required read slot = some a ↔ (Field.required (given a)).Holds slot := by
  cases slot with
  | none => simp [Json.required, Field.Holds, Field.required]
  | some v => exact hread v a

theorem Reads.orElse (hread : Reads read given) {absent : α} {slot : Option Json} {a : α} :
    orElse read absent slot = some a ↔ (Field.withDefault given absent a).Holds slot := by
  cases slot with
  | none => simp [Json.orElse, Field.Holds, Field.withDefault, eq_comm]
  | some v => exact hread v a

/-! ### Records -/

/-- The declared fields that are there, in declared order. -/
def present : List String → List (Option Json) → List (String × Json)
  | name :: names, slot :: slots => (slot.map (name, ·)).toList ++ present names slots
  | _, _ => []

/-- The forms of a record whose declared fields hold the values in `slots`. -/
inductive Laid (names : List String) (slots : List (Option Json)) : Json → Prop where
  /-- By name: in any order, and with any fields besides that have other names. -/
  | named {fields others : List (String × Json)} (hothers : ∀ f ∈ others, f.1 ∉ names)
      (hperm : fields.Perm (present names slots ++ others)) : Laid names slots (.object fields)
  /-- As a list in declared order, of which the last values may be missing. -/
  | listed (items : List Json) (missing : Nat)
      (hslots : slots = items.map some ++ List.replicate missing none) : Laid names slots (.list items)

/-- A record of the declared `fields`. -/
def IsRecord (names : List String) (fields : List Field) (v : Json) : Prop :=
  ∃ slots, List.Forall₂ Field.Holds fields slots ∧ Laid names slots v

theorem fst_mem_of_mem_present {names : List String} {slots : List (Option Json)} {f : String × Json}
    (h : f ∈ present names slots) : f.1 ∈ names := by
  induction names generalizing slots with
  | nil => cases h
  | cons name names ih =>
    cases slots with
    | nil => cases h
    | cons slot slots =>
      rcases List.mem_append.mp h with h | h
      · obtain ⟨v, -, rfl⟩ : ∃ v, slot = some v ∧ (name, v) = f := by simpa using h
        exact List.mem_cons_self
      · exact List.mem_cons_of_mem name (ih h)

theorem single?_eq_some_iff {fields : List (String × Json)} {name : String} {slot : Option Json} :
    single? fields name = some slot ↔ fields.filter (·.1 = name) = (slot.map (name, ·)).toList := by
  have hname : ∀ f ∈ fields.filter (·.1 = name), f.1 = name := fun f hf => by
    simpa using (List.mem_filter.mp hf).2
  unfold single?
  generalize fields.filter (·.1 = name) = found at hname ⊢
  rcases found with _ | ⟨⟨name', v⟩, _ | ⟨g, rest⟩⟩
  · cases slot <;> simp
  · obtain rfl : name' = name := hname _ List.mem_cons_self
    cases slot <;> simp [eq_comm]
  · cases slot <;> simp

theorem filter_fst_eq_nil {fields : List (String × Json)} {name : String} (h : ∀ f ∈ fields, f.1 ≠ name) :
    fields.filter (·.1 = name) = [] :=
  List.filter_eq_nil_iff.mpr fun f hf => by simpa using h f hf

/-- The declared fields of a record by name, told by all its fields in any order. -/
theorem forall₂_single?_iff {names : List String} (hnames : names.Nodup) {fields : List (String × Json)}
    {slots : List (Option Json)} :
    List.Forall₂ (fun name slot => single? fields name = some slot) names slots ↔
      slots.length = names.length ∧
        ∃ others, (∀ f ∈ others, f.1 ∉ names) ∧ fields.Perm (present names slots ++ others) := by
  induction names generalizing slots with
  | nil =>
    constructor
    · rintro ⟨⟩
      exact ⟨rfl, fields, by simp, .refl _⟩
    · rintro ⟨hlength, -⟩
      obtain rfl : slots = [] := by simpa using hlength
      exact .nil
  | cons name names ih =>
    obtain ⟨hname, hnames⟩ := List.nodup_cons.mp hnames
    have hnone (slots : List (Option Json)) : (present names slots).filter (·.1 = name) = [] :=
      filter_fst_eq_nil fun f hf heq => hname (heq ▸ fst_mem_of_mem_present hf)
    cases slots with
    | nil => simp
    | cons slot slots =>
      rw [List.forall₂_cons, ih hnames, single?_eq_some_iff]
      constructor
      · rintro ⟨hfirst, hlength, others, hothers, hperm⟩
        -- the field of this name is among the others that the later names leave
        have hfound : others.filter (·.1 = name) = (slot.map (name, ·)).toList := by
          have h := hperm.filter (·.1 = name)
          rw [hfirst, List.filter_append, hnone, List.nil_append] at h
          cases slot with
          | none => simpa using h.symm
          | some v => simpa using h.symm
        have hsplit := (List.filter_append_perm (·.1 = name) others).symm
        rw [hfound] at hsplit
        refine ⟨by simpa using hlength, others.filter fun f => !decide (f.1 = name), ?_, ?_⟩
        · intro f hf
          obtain ⟨hmem, hne⟩ := List.mem_filter.mp hf
          simpa using ⟨by simpa using hne, hothers f hmem⟩
        · refine hperm.trans ((hsplit.append_left _).trans ?_)
          rw [present, ← List.append_assoc]
          exact List.perm_append_comm.append_right _
      · rintro ⟨hlength, others, hothers, hperm⟩
        have hrest : ∀ f ∈ others, f.1 ≠ name ∧ f.1 ∉ names := fun f hf => by
          simpa using hothers f hf
        refine ⟨?_, by simpa using hlength, (slot.map (name, ·)).toList ++ others, ?_, ?_⟩
        · have h := hperm.filter (·.1 = name)
          rw [present, List.filter_append, List.filter_append, hnone,
            filter_fst_eq_nil fun f hf => (hrest f hf).1, List.append_nil, List.append_nil] at h
          cases slot with
          | none => simpa using h
          | some v => simpa using h
        · intro f hf
          rcases List.mem_append.mp hf with hf | hf
          · obtain ⟨v, -, rfl⟩ : ∃ v, slot = some v ∧ (name, v) = f := by simpa using hf
            exact hname
          · exact (hrest f hf).2
        · rw [present] at hperm
          refine hperm.trans ?_
          rw [← List.append_assoc]
          exact List.perm_append_comm.append_right _

theorem named?_eq_some_iff {raw : List (List UInt16 × Json)} {fields : List (String × Json)} :
    named? raw = some fields ↔ record raw = object fields := by
  have hfield (r : List UInt16 × Json) (f : String × Json) :
      (do return (String.ofList (← Text.Units.decode? r.1), r.2) : Option (String × Json)) = some f ↔
        r = (Text.Units.encode f.1.toList, f.2) := by
    obtain ⟨units, v⟩ := r
    obtain ⟨name, v'⟩ := f
    have hunits : (Text.Units.decode? units).map String.ofList = some name ↔
        units = Text.Units.encode name.toList := by
      simpa [text?, text, IsWritten] using reads_text (.string units) name
    rw [Prod.mk.injEq, ← hunits]
    cases Text.Units.decode? units <;> simp
  rw [object, record.injEq]
  constructor
  · intro h
    have hforall := Option.forall₂_of_mapM h
    simp only [hfield] at hforall
    rw [← List.forall₂_eq_eq_eq]
    exact List.forall₂_map_right_iff.mpr hforall
  · rintro rfl
    refine Option.mapM_of_forall₂ ?_
    simp only [hfield]
    simp

theorem slots?_eq_some_iff {names : List String} (hnames : names.Nodup) {slots : List (Option Json)} :
    v.slots? names = some slots ↔ slots.length = names.length ∧ Laid names slots v := by
  constructor
  · intro h
    cases v with
    | record raw =>
      obtain ⟨fields, hfields, hmapM⟩ := Option.bind_eq_some_iff.mp h
      obtain ⟨hlength, others, hothers, hperm⟩ :=
        (forall₂_single?_iff hnames).mp (Option.forall₂_of_mapM hmapM)
      rw [named?_eq_some_iff.mp hfields]
      exact ⟨hlength, .named hothers hperm⟩
    | list items =>
      rw [slots?] at h
      split at h
      · next hle =>
        cases h
        refine ⟨?_, .listed _ _ rfl⟩
        simp
        omega
      · cases h
    | _ => cases h
  · rintro ⟨hlength, hlaid⟩
    cases hlaid with
    | @named fields others hothers hperm =>
      have hforall := (forall₂_single?_iff hnames).mpr ⟨hlength, others, hothers, hperm⟩
      rw [object, slots?, named?_eq_some_iff.mpr rfl]
      exact Option.mapM_of_forall₂ hforall
    | listed items missing hslots =>
      subst hslots
      have hmissing : names.length - items.length = missing := by
        simp at hlength
        omega
      have hle : items.length ≤ names.length := by
        simp at hlength
        omega
      rw [slots?, if_pos hle, hmissing]

/-- A record is read as soon as its fields are. -/
theorem reads_record {names : List String} (hnames : names.Nodup) {fields : α → List Field}
    (hlength : ∀ a, (fields a).length = names.length) {readSlots : List (Option Json) → Option α}
    (hread : ∀ slots a, readSlots slots = some a ↔ List.Forall₂ Field.Holds (fields a) slots) :
    Reads (fun v => do readSlots (← v.slots? names)) fun a => IsRecord names (fields a) := by
  intro v a
  refine Option.bind_eq_some_iff.trans ⟨?_, ?_⟩
  · rintro ⟨slots, hslots, hfields⟩
    exact ⟨slots, (hread slots a).mp hfields, ((slots?_eq_some_iff hnames).mp hslots).2⟩
  · rintro ⟨slots, hfields, hlaid⟩
    have hslots : slots.length = names.length := hfields.length_eq ▸ hlength a
    exact ⟨slots, (slots?_eq_some_iff hnames).mpr ⟨hslots, hlaid⟩, (hread slots a).mpr hfields⟩

/-! ### The written form -/

theorem present_map_some (names : List String) (values : List Json) :
    present names (values.map some) = names.zip values := by
  induction names generalizing values with
  | nil => rfl
  | cons name names ih =>
    cases values with
    | nil => rfl
    | cons v values => simp [present, ih]

theorem isRecord_object {names : List String} {fields : List Field} (values : List Json)
    (hvalues : List.Forall₂ Field.Given fields values) :
    IsRecord names fields (.object (names.zip values)) := by
  have hperm : (names.zip values).Perm (present names (values.map some) ++ []) := by
    rw [List.append_nil, present_map_some]
  exact ⟨values.map some, List.forall₂_map_right_iff.mpr hvalues, .named (by simp) hperm⟩

theorem isListOf_map {write : α → Json} (hwrite : ∀ a, given a (write a)) (l : List α) :
    IsListOf given l (.list (l.map write)) :=
  ⟨_, rfl, List.forall₂_map_right_iff.mpr (List.forall₂_same.mpr fun a _ => hwrite a)⟩

theorem isOptional_optional {write : α → Json} (hwrite : ∀ a, given a (write a)) (o : Option α) :
    IsOptional given o (optional write o) := by
  cases o with
  | none => rfl
  | some a => exact hwrite a

end Json
end Autoescape
