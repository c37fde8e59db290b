import Autoescape.Directive.Builtin
import Autoescape.Proofs.EscapeFaults
import Autoescape.Proofs.Hex
import Mathlib.Data.Char
import Mathlib.Data.List.Destutter

/-!
# Percent-encoded escapes

A percent-encoded text stands for bytes, and the one of a character for the bytes of its UTF-8 form.
So different characters have different texts. The escapes of some characters by percent encoding are
sorted before repeats that stand side by side are left out, so each character is left once and a table
can always be made of them, as far as the characters are single units.
-/
namespace Autoescape.Text.Percent

def IsUpperHex (c : Char) : Prop := ('0' ≤ c ∧ c ≤ '9') ∨ ('A' ≤ c ∧ c ≤ 'F')

/-- Nothing but percent signs with two digits behind each. -/
inductive Triplets : List Char → Prop where
  | nil : Triplets []
  | cons {high low : Char} {rest : List Char} (hhigh : IsUpperHex high) (hlow : IsUpperHex low)
      (hrest : Triplets rest) : Triplets ('%' :: high :: low :: rest)

/-- The bytes that a text stands for. A percent sign and two hexadecimal digits, in either case, are
one byte, and every other character is those of its UTF-8 form. A percent sign without two digits
behind it stands for nothing. -/
def decode? : List Char → Option (List UInt8)
  | [] => some []
  | '%' :: high :: low :: rest => do
    let h ← Json.hexDigit? high
    let l ← Json.hexDigit? low
    let bytes ← decode? rest
    return (16 * h + l).toUInt8 :: bytes
  | c :: rest =>
    if c = '%' then none
    else (decode? rest).map (String.utf8EncodeChar c ++ ·)

theorem isUpperHex_toUpper_digitChar {n : Nat} (h : n < 16) : IsUpperHex (Nat.digitChar n).toUpper := by
  have hall : ∀ n < 16, ('0' ≤ (Nat.digitChar n).toUpper ∧ (Nat.digitChar n).toUpper ≤ '9') ∨
      ('A' ≤ (Nat.digitChar n).toUpper ∧ (Nat.digitChar n).toUpper ≤ 'F') := by decide
  exact hall n h

theorem ofByte_eq (b : UInt8) :
    ofByte b = ['%', (Nat.digitChar (b.toNat / 16)).toUpper, (Nat.digitChar (b.toNat % 16)).toUpper] := by
  have hb : b.toNat < 16 ^ 2 := b.toNat_lt
  have hdiv : b.toNat / 16 % 16 = b.toNat / 16 := Nat.mod_eq_of_lt (by omega)
  simp [ofByte, Hex.paddedUpper, Hex.padded_eq_lastDigits 1 hb, Hex.lastDigits, hdiv]

theorem decode?_ofByte_append (b : UInt8) (rest : List Char) :
    decode? (ofByte b ++ rest) = (decode? rest).map (b :: ·) := by
  have hb : b.toNat < 256 := b.toNat_lt
  have hhigh := Hex.hexDigit?_toUpper_digitChar (n := b.toNat / 16) (by omega)
  have hlow := Hex.hexDigit?_toUpper_digitChar (n := b.toNat % 16) (by omega)
  have hvalue : (16 * (b.toNat / 16) + b.toNat % 16).toUInt8 = b := by
    rw [Nat.div_add_mod]
    exact UInt8.ofNat_toNat
  rw [ofByte_eq, List.cons_append, List.cons_append, List.cons_append, List.nil_append, decode?, hhigh, hlow]
  simp only [Option.bind_eq_bind, Option.bind_some, Option.pure_def, hvalue, Option.map_eq_bind,
    Function.comp_def]

theorem decode?_flatMap_ofByte (bytes : List UInt8) : decode? (bytes.flatMap ofByte) = some bytes := by
  induction bytes with
  | nil => rfl
  | cons b bytes ih => rw [List.flatMap_cons, decode?_ofByte_append, ih, Option.map_some]

theorem triplets_flatMap_ofByte (bytes : List UInt8) : Triplets (bytes.flatMap ofByte) := by
  induction bytes with
  | nil => exact .nil
  | cons b bytes ih =>
    have hb : b.toNat < 256 := b.toNat_lt
    rw [List.flatMap_cons, ofByte_eq]
    exact .cons (isUpperHex_toUpper_digitChar (by omega)) (isUpperHex_toUpper_digitChar (by omega)) ih

theorem decode?_ofChar (c : Char) : decode? (ofChar c) = some (String.utf8EncodeChar c) :=
  decode?_flatMap_ofByte (String.utf8EncodeChar c)

theorem utf8EncodeChar_injective : Function.Injective String.utf8EncodeChar := by
  intro c d h
  have hread (c : Char) :
      ((String.utf8EncodeChar c).toByteArray ++ ByteArray.empty).utf8DecodeChar? 0 = some c :=
    ByteArray.utf8DecodeChar?_utf8EncodeChar_append
  have hc := hread c
  rw [h, hread d] at hc
  exact (Option.some.inj hc).symm

theorem ofChar_injective : Function.Injective ofChar := by
  intro c d h
  have hbytes := decode?_ofChar c
  rw [h, decode?_ofChar d] at hbytes
  exact utf8EncodeChar_injective (Option.some.inj hbytes).symm

end Autoescape.Text.Percent

namespace Autoescape.Directive.Builtin
open Text

theorem eraseRepsBy_loop_eq {α : Type} (same : α → α → Bool) (last : α) (l kept : List α) :
    List.eraseRepsBy.loop same last l kept =
      kept.reverse ++ List.destutter' (fun a b => same a b = false) last l := by
  induction l generalizing last kept with
  | nil => simp [List.eraseRepsBy.loop]
  | cons b l ih => cases h : same last b <;> simp [List.eraseRepsBy.loop, List.destutter', h, ih]

/-- Leaving out repeats keeps each element that differs from the one kept last. -/
theorem eraseRepsBy_eq_destutter {α : Type} (same : α → α → Bool) (l : List α) :
    l.eraseRepsBy same = l.destutter (fun a b => same a b = false) := by
  cases l with
  | nil => rfl
  | cons a l => exact eraseRepsBy_loop_eq same a l []

variable {chars : List Char} {c : Char} {e : Escape}

theorem pairwise_sortedEscapes (chars : List Char) :
    (sortedEscapes chars).Pairwise fun e f => e.plain ≤ f.plain := by
  have hsorted : (sortedEscapes chars).Pairwise fun e f => decide (e.plain ≤ f.plain) = true :=
    List.pairwise_mergeSort
      (fun _ _ _ h h' => decide_eq_true ((of_decide_eq_true h).trans (of_decide_eq_true h')))
      (fun e f => by simpa using le_total e.plain f.plain) _
  exact hsorted.imp fun h => of_decide_eq_true h

theorem mem_sortedEscapes : e ∈ sortedEscapes chars ↔ ∃ c ∈ chars, percentEscape c = e := by
  rw [sortedEscapes, List.mem_mergeSort, List.mem_map]

theorem percentEncoded_eq_destutter (chars : List Char) : percentEncoded chars =
    (sortedEscapes chars).destutter fun e f => decide (e.plain = f.plain) = false :=
  eraseRepsBy_eq_destutter _ _

/-- In sorted escapes all repeats stand side by side, so the characters that are left are those without
any repeats. -/
theorem map_plain_percentEncoded (chars : List Char) :
    (percentEncoded chars).map (·.plain) = ((sortedEscapes chars).map (·.plain)).dedup := by
  have hsorted : ((sortedEscapes chars).map (·.plain)).Pairwise (· ≤ ·) :=
    List.pairwise_map.mpr (pairwise_sortedEscapes chars)
  rw [← hsorted.destutter_eq_dedup, percentEncoded_eq_destutter]
  exact List.map_destutter (by simp)

theorem mem_map_plain_percentEncoded : c ∈ (percentEncoded chars).map (·.plain) ↔ c ∈ chars := by
  rw [map_plain_percentEncoded, List.mem_dedup]
  simp [mem_sortedEscapes, percentEscape]

/-- Every escape that is left is the one of its character. -/
theorem eq_percentEscape_of_mem (h : e ∈ percentEncoded chars) : e = percentEscape e.plain := by
  rw [percentEncoded_eq_destutter] at h
  obtain ⟨c, -, rfl⟩ := mem_sortedEscapes.mp ((List.destutter_sublist _ _).subset h)
  rfl

theorem nodup_percentEncoded (chars : List Char) : ((percentEncoded chars).map (·.plain)).Nodup := by
  rw [map_plain_percentEncoded]
  exact List.nodup_dedup _

theorem pairwise_percentEncoded (chars : List Char) :
    (percentEncoded chars).Pairwise (·.plain < ·.plain) := by
  have hsorted : (percentEncoded chars).Pairwise fun e f => e.plain ≤ f.plain := by
    rw [percentEncoded_eq_destutter]
    exact (pairwise_sortedEscapes chars).sublist (List.destutter_sublist _ _)
  have honce : (percentEncoded chars).Pairwise fun e f => e.plain ≠ f.plain :=
    List.pairwise_map.mp (nodup_percentEncoded chars)
  exact (hsorted.and honce).imp fun h => lt_of_le_of_ne h.1 h.2

theorem tabular_percentEncoded (h : ∀ c ∈ chars, c.toNat ≤ 0xFFFF) : Tabular (percentEncoded chars) where
  units _ he := h _ (mem_map_plain_percentEncoded.mp (List.mem_map_of_mem he))
  once := nodup_percentEncoded chars

theorem percentEncoded_eq_nil : percentEncoded chars = [] ↔ chars = [] := by
  rw [← List.map_eq_nil_iff (f := fun e : Escape => e.plain)]
  simp only [List.eq_nil_iff_forall_not_mem, mem_map_plain_percentEncoded]

/-- The escapes of some characters by percent encoding are one for each character, in the order of the
characters, and each is written in triplets that stand for the UTF-8 form of its character. When all
characters are single units, a directive with these escapes is never at fault, and its table gives each
of the characters a text of its own. -/
theorem percentEncoded_well_formed (chars : List Char) :
    (percentEncoded chars).Pairwise (·.plain < ·.plain) ∧
    (∀ c, c ∈ (percentEncoded chars).map (·.plain) ↔ c ∈ chars) ∧
    (∀ e ∈ percentEncoded chars, Percent.Triplets e.escaped.toList ∧
      Percent.decode? e.escaped.toList = some (String.utf8EncodeChar e.plain)) ∧
    ((∀ c ∈ chars, c.toNat ≤ 0xFFFF) → ∀ d : Directive, d.escapes = percentEncoded chars →
      ∃ found, d.table? = .ok found ∧ (found = none ↔ chars = []) ∧
        ∀ t, found = some t → (∀ c, c ∈ t.keys ↔ c ∈ chars) ∧
          ∀ c c' text, t.get? c = some text → t.get? c' = some text → c = c') := by
  refine ⟨pairwise_percentEncoded chars, fun _ => mem_map_plain_percentEncoded, fun e he => ?_, ?_⟩
  · rw [eq_percentEscape_of_mem he, percentEscape, String.toList_ofList]
    exact ⟨Percent.triplets_flatMap_ofByte _, Percent.decode?_ofChar _⟩
  · intro hunits d hescapes
    by_cases hnone : chars = []
    · refine ⟨none, table?_eq_ok_iff.mpr (.inl ⟨?_, rfl⟩), by simp [hnone], nofun⟩
      rw [hescapes, percentEncoded_eq_nil.mpr hnone]
    · have hsome : d.escapes ≠ [] := by rwa [hescapes, ne_eq, percentEncoded_eq_nil]
      obtain ⟨t, ht⟩ := exists_table?_iff.mpr ⟨hsome, hescapes ▸ tabular_percentEncoded hunits⟩
      refine ⟨some t, ht, by simp [hnone], ?_⟩
      rintro _ ⟨⟩
      obtain ⟨-, ⟨⟩⟩ | ⟨_, ⟨⟩, -, -, hget⟩ := table?_eq_ok_iff.mp ht
      rw [hescapes] at hget
      refine ⟨fun c => ?_, fun c c' text hc hc' => ?_⟩
      · rw [Table.mem_keys_iff, ← Option.isSome_iff_exists, isSome_get?_iff hget, mem_map_plain_percentEncoded]
      · have htext {c : Char} (hc : t.get? c = some text) : text = String.ofList (Percent.ofChar c) :=
          congrArg Escape.escaped (eq_percentEscape_of_mem ((hget c text).mp hc))
        exact Percent.ofChar_injective (String.ofList_injective ((htext hc).symm.trans (htext hc')))

/-- The space twice among characters of one, two and three bytes. -/
theorem percentEncoded_well_formed_for_repeated_space :
    let chars := [' ', '\u2028', '<', ' ', '\u00a0']
    let uri := escaping "normalizeUri" (percentEncoded chars)
    (∀ c ∈ chars, c.toNat ≤ 0xFFFF) ∧ uri.escapes = percentEncoded chars ∧
    ∃ t, uri.table? = .ok (some t) ∧ (∀ c, c ∈ t.keys ↔ c ∈ chars) ∧
      ∀ c c' text, t.get? c = some text → t.get? c' = some text → c = c' := by
  intro chars uri
  have hunits : ∀ c ∈ chars, c.toNat ≤ 0xFFFF := by simp [chars]
  obtain ⟨-, -, -, htable⟩ := percentEncoded_well_formed chars
  obtain ⟨found, hfound, hnone, hkeys⟩ := htable hunits uri rfl
  cases found with
  | none => exact absurd (hnone.mp rfl) (by decide)
  | some t => exact ⟨hunits, rfl, t, hfound, hkeys t rfl⟩

end Autoescape.Directive.Builtin
