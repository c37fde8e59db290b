import Autoescape.Proofs.Json.Reader

/-!
# Texts that are read

Only texts of a value are read as that value. The lexer's mode tells what has been read of the token
that it is in, and the parser's state tells all tokens that it has taken; each step adds to these what
it reads.
-/
namespace Autoescape.Json

variable {c : Char}

/-! ### Numerals -/

theorem eq_digitChar_of_digit? {k : Fin 10} (h : digit? c = some k) : c = Nat.digitChar k.val := by
  unfold digit? at h
  split at h
  · next hc =>
    obtain ⟨hlower, hupper⟩ := hc
    simp only [Char.le_def, UInt32.le_iff_toNat_le] at hlower hupper
    have hlower : 48 ≤ c.toNat := hlower
    have hupper : c.toNat ≤ 57 := hupper
    have hk : c.toNat - 48 = k.val := congrArg Fin.val (Option.some.inj h)
    have hall : ∀ k : Fin 10, (Nat.digitChar k.val).toNat = 48 + k.val := by decide
    exact Char.toNat_inj.mp (by rw [hall]; omega)
  · cases h

namespace Numeral

/-- The texts of which a numeral has been read so far. -/
inductive ReadFrom : Numeral → List Char → Prop where
  | minus : ReadFrom ⟨.minus, true, 0, [], false, 0⟩ ['-']
  | mantissa (d : Decimal) : ReadFrom (ofMantissa d) (mantissaText d)
  | point {d : Decimal} (hwhole : d.fraction = []) :
      ReadFrom { ofMantissa d with part := .point } (mantissaText d ++ ['.'])
  | mark (d : Decimal) {mark : Char} (hmark : mark = 'e' ∨ mark = 'E') :
      ReadFrom { ofMantissa d with part := .mark } (mantissaText d ++ [mark])
  | markSign (d : Decimal) {mark : Char} {sign : List Char} {factor : Int}
      (hmark : mark = 'e' ∨ mark = 'E') (hsign : (sign, factor) ∈ signs) :
      ReadFrom { ofMantissa d with part := .markSign, shrinks := factor = -1 }
        (mantissaText d ++ mark :: sign)
  | power (d : Decimal) {mark : Char} {sign : List Char} {factor : Int}
      (hmark : mark = 'e' ∨ mark = 'E') (hsign : (sign, factor) ∈ signs) (zeros power : Nat) :
      ReadFrom ((ofMantissa d).withPower factor power)
        (mantissaText d ++ mark :: (sign ++ (List.replicate zeros '0' ++ Nat.toDigits 10 power)))

theorem toDigits_append_digit {n : Nat} (hn : 0 < n) (k : Fin 10) :
    Nat.toDigits 10 n ++ [Nat.digitChar k.val] = Nat.toDigits 10 (n * 10 + k.val) := by
  rw [Nat.toDigits_of_base_le (n := n * 10 + k.val) (by decide) (by omega)]
  have hdiv : (n * 10 + k.val) / 10 = n := by omega
  have hmod : (n * 10 + k.val) % 10 = k.val := by omega
  rw [hdiv, hmod]

theorem readFrom_of_start? {n : Numeral} (h : start? c = some n) : n.ReadFrom [c] := by
  unfold start? at h
  split at h
  · next hc =>
    cases h
    rw [hc]
    exact .minus
  · obtain ⟨k, hk, rfl⟩ := Option.map_eq_some_iff.mp h
    have htext := ReadFrom.mantissa ⟨false, k.val, [], 0⟩
    rw [eq_digitChar_of_digit? hk]
    simpa [mantissaText, ofMantissa, ofWhole, Nat.toDigits_of_lt_base k.isLt] using htext

theorem ReadFrom.digit_mantissa (d : Decimal) {n : Numeral} {k : Fin 10} (hdigit : digit? c = some k)
    (hnext : (ofMantissa d).next? c = some n) :
    n.ReadFrom (mantissaText d ++ [Nat.digitChar k.val]) := by
  obtain ⟨negative, whole, fraction, exponent⟩ := d
  by_cases hfraction : fraction = []
  · subst hfraction
    have hwhole : 0 < whole := by
      by_contra hzero
      obtain rfl : whole = 0 := by omega
      simp [next?, ofMantissa, ofWhole, hdigit] at hnext
    have htext := ReadFrom.mantissa ⟨negative, whole * 10 + k.val, [], exponent⟩
    have hn := next?_ofWhole negative hwhole k
    rw [← eq_digitChar_of_digit? hdigit] at hn
    obtain rfl : ofWhole negative (whole * 10 + k.val) = n := by
      rw [ofMantissa, if_pos rfl, hn] at hnext
      exact Option.some.inj hnext
    simpa [mantissaText, ofMantissa, ← toDigits_append_digit hwhole k] using htext
  · have htext := ReadFrom.mantissa ⟨negative, whole, fraction ++ [k], exponent⟩
    obtain rfl : ofMantissa ⟨negative, whole, fraction ++ [k], exponent⟩ = n := by
      simpa [next?, ofMantissa, hfraction, hdigit] using hnext
    simpa [mantissaText, hfraction] using htext

theorem ReadFrom.mark_mantissa (d : Decimal) {n : Numeral} (hdigit : digit? c = none)
    (hnext : (ofMantissa d).next? c = some n) : n.ReadFrom (mantissaText d ++ [c]) := by
  have hmark (h : next?.mark? (ofMantissa d) c = some n) : n.ReadFrom (mantissaText d ++ [c]) := by
    unfold next?.mark? at h
    split at h
    · next hc =>
      cases h
      exact .mark d hc
    · cases h
  by_cases hfraction : d.fraction = []
  · have hnext : (if c = '.' then some { ofMantissa d with part := .point }
        else next?.mark? (ofMantissa d) c) = some n := by
      rw [← hnext]
      by_cases hwhole : d.whole = 0 <;> simp [next?, ofMantissa, ofWhole, hfraction, hwhole, hdigit]
    split at hnext
    · next hpoint =>
      cases hnext
      rw [hpoint]
      exact .point hfraction
    · exact hmark hnext
  · exact hmark (by simpa [next?, ofMantissa, hfraction, hdigit] using hnext)

theorem ReadFrom.digit {n n' : Numeral} {p : List Char} (h : n.ReadFrom p) {k : Fin 10}
    (hdigit : digit? c = some k) (hnext : n.next? c = some n') : n'.ReadFrom (p ++ [c]) := by
  obtain rfl := eq_digitChar_of_digit? hdigit
  have hone : Nat.toDigits 10 k.val = [Nat.digitChar k.val] := Nat.toDigits_of_lt_base k.isLt
  cases h with
  | minus =>
    obtain rfl : ofMantissa ⟨true, k.val, [], 0⟩ = n' := by
      simpa [Numeral.next?, hdigit, ofMantissa, ofWhole] using hnext
    simpa [mantissaText, hone] using ReadFrom.mantissa ⟨true, k.val, [], 0⟩
  | mantissa d => exact .digit_mantissa d hdigit hnext
  | @point d hwhole =>
    obtain rfl : ofMantissa { d with fraction := [k] } = n' := by
      simpa [Numeral.next?, hdigit, ofMantissa, hwhole, ofWhole] using hnext
    simpa [mantissaText, hwhole] using ReadFrom.mantissa { d with fraction := [k] }
  | mark d hmark =>
    have hgrows : (ofMantissa d).shrinks = false := (awaitsMark_ofMantissa d).grows
    obtain rfl : (ofMantissa d).withPower 1 k.val = n' := by
      simpa [Numeral.next?, hdigit, withPower, hgrows] using hnext
    simpa [hone] using ReadFrom.power d hmark (show ([], 1) ∈ signs by decide) 0 k.val
  | @markSign d mark sign factor hmark hsign =>
    obtain rfl : (ofMantissa d).withPower factor k.val = n' := by
      simpa [Numeral.next?, hdigit, withPower] using hnext
    simpa [hone] using ReadFrom.power d hmark hsign 0 k.val
  | @power d mark sign factor hmark hsign zeros power =>
    obtain rfl : (ofMantissa d).withPower factor (power * 10 + k.val) = n' := by
      simpa [Numeral.next?, hdigit, withPower] using hnext
    -- a power that is zero so far was read from zeros, which the next digit leaves in front of it
    by_cases hpower : power = 0
    · subst hpower
      simpa [hone, List.replicate_succ'] using ReadFrom.power d hmark hsign (zeros + 1) k.val
    · have htext := ReadFrom.power d hmark hsign zeros (power * 10 + k.val)
      rw [← toDigits_append_digit (by omega) k] at htext
      simpa using htext

theorem ReadFrom.sign {n n' : Numeral} {p : List Char} (h : n.ReadFrom p) (hdigit : digit? c = none)
    (hnext : n.next? c = some n') : n'.ReadFrom (p ++ [c]) := by
  cases h with
  | mantissa d => exact .mark_mantissa d hdigit hnext
  | mark d hmark =>
    have hgrows : (ofMantissa d).shrinks = false := (awaitsMark_ofMantissa d).grows
    simp only [Numeral.next?, hdigit] at hnext
    split at hnext
    · next hplus =>
      cases hnext
      simpa [hplus, hgrows] using ReadFrom.markSign d hmark (show (['+'], 1) ∈ signs by decide)
    split at hnext
    · next hminus =>
      cases hnext
      simpa [hminus] using ReadFrom.markSign d hmark (show (['-'], -1) ∈ signs by decide)
    · cases hnext
  | minus | point | markSign => simp [Numeral.next?, hdigit] at hnext
  | power => simp [Numeral.next?, hdigit, withPower] at hnext

theorem ReadFrom.next? {n n' : Numeral} {p : List Char} (h : n.ReadFrom p)
    (hnext : n.next? c = some n') : n'.ReadFrom (p ++ [c]) := by
  cases hdigit : digit? c with
  | some k => exact h.digit hdigit hnext
  | none => exact h.sign hdigit hnext

theorem ReadFrom.spelled {n : Numeral} {p : List Char} (h : n.ReadFrom p) {d : Decimal}
    (hfinish : n.finish? = some d) : (Token.number d).Spelled p := by
  cases h with
  | mantissa d =>
    have htext : (Token.number { d with exponent := 0 }).Spelled (mantissaText d) :=
      ⟨[], .absent, by simp [mantissaText]⟩
    have hd : (ofMantissa d).finish? = some { d with exponent := 0 } :=
      finish?_ofMantissa (d := { d with exponent := 0 }) rfl
    rw [hd] at hfinish
    cases hfinish
    exact htext
  | power d hmark hsign zeros power =>
    have hd : ((ofMantissa d).withPower _ power).finish? = some { d with exponent := _ * power } :=
      finish?_withPower (d := { d with exponent := _ * power }) hsign rfl
    rw [hd] at hfinish
    cases hfinish
    exact ⟨_, .present hmark hsign zeros power, rfl⟩
  | _ => simp [finish?] at hfinish

end Numeral

/-! ### Strings -/

theorem hexDigit_of_hexDigit? {k : Nat} (h : hexDigit? c = some k) : HexDigit c k := by
  have hle {first last : Char} (hc : first ≤ c ∧ c ≤ last) : c.toNat ≤ last.toNat :=
    UInt32.le_iff_toNat_le.mp hc.2
  have hascii : c.toNat < 103 := by
    unfold hexDigit? at h
    split at h
    · next hc => exact (hle hc).trans_lt (by decide)
    split at h
    · next hc => exact (hle hc).trans_lt (by decide)
    split at h
    · next hc => exact (hle hc).trans_lt (by decide)
    · cases h
  have hall : ∀ n < 103, (hexDigit? (Char.ofNat n)).all (fun k => k < 16 ∧
      (Char.ofNat n = Nat.digitChar k ∨ Char.ofNat n = (Nat.digitChar k).toUpper)) = true := by decide
  have hk := hall c.toNat hascii
  rw [Char.ofNat_toNat, h, Option.all_some, decide_eq_true_eq] at hk
  exact hk

theorem mem_of_escaped? {u : UInt16} (h : escaped? c = some u) : (c, u) ∈ letterEscapes := by
  unfold escaped? at h
  split at h <;> cases h <;> decide

theorem StringText.append {s s' : List Char} {units units' : List UInt16} (h : StringText s units)
    (h' : StringText s' units') : StringText (s ++ s') (units ++ units') := by
  induction h with
  | nil => exact h'
  | plain hprintable hquote hslash hrest ih =>
    rw [List.cons_append, List.append_assoc]
    exact .plain hprintable hquote hslash ih
  | letter hletter hrest ih => exact .letter hletter ih
  | hex hdigits hfour hrest ih =>
    rw [List.cons_append, List.cons_append, List.append_assoc]
    exact .hex hdigits hfour ih

/-! ### Tokens -/

/-- The texts of which a mode has read the last token so far. -/
inductive Mode.ReadFrom : Mode → List Char → Prop where
  | between : ReadFrom .between []
  | word {t : Token} {p missing : List Char} (htext : p ++ missing = t.text) :
      ReadFrom (.word t missing) p
  | number {n : Numeral} {p : List Char} (hnumeral : n.ReadFrom p) : ReadFrom (.number n) p
  | string {units : List UInt16} {inner : List Char} (hinner : StringText inner units.reverse) :
      ReadFrom (.string units) ('\"' :: inner)
  | escape {units : List UInt16} {inner : List Char} (hinner : StringText inner units.reverse) :
      ReadFrom (.escape units) ('\"' :: (inner ++ ['\\']))
  | hex {units : List UInt16} {inner digits : List Char} {values : List Nat} {missing : Nat}
      (hinner : StringText inner units.reverse) (hdigits : List.Forall₂ HexDigit digits values)
      (hfour : values.length + (missing + 1) = 4) :
      ReadFrom (.hex units (missing + 1) (hexValue values)) ('\"' :: (inner ++ '\\' :: 'u' :: digits))

/-- A text is one of the tokens `done`, and behind them of what the mode has read since. -/
def Completes (p : List Char) (done : List Token) (m : Mode) : Prop :=
  ∃ p', m.ReadFrom p' ∧ ∀ ts s, Written ts (p' ++ s) → Written (done ++ ts) (p ++ s)

theorem Completes.of_readFrom {p : List Char} {m : Mode} (h : m.ReadFrom p) : Completes p [] m :=
  ⟨p, h, fun _ _ hs => hs⟩

theorem Completes.of_spelled {p : List Char} {t : Token} (h : t.Spelled p) : Completes p [t] .between :=
  ⟨[], .between, fun _ _ hs => .token h hs⟩

theorem Completes.of_spelled_append {p p' : List Char} {t : Token} {done : List Token} {m : Mode}
    (h : Completes p' done m) (ht : t.Spelled p) : Completes (p ++ p') (t :: done) m := by
  obtain ⟨later, hlater, hdone⟩ := h
  refine ⟨later, hlater, fun ts s hs => ?_⟩
  rw [List.append_assoc, List.cons_append]
  exact .token ht (hdone ts s hs)

theorem completes_stepBetween {m : Mode} {done : List Token} (h : stepBetween c = some (done, m)) :
    Completes [c] done m := by
  have hblank {c : Char} (hc : c ∈ blanks) : Completes [c] [] .between :=
    ⟨[], .between, fun _ _ hs => .blank hc hs⟩
  unfold stepBetween at h
  split at h
  case h_1 | h_2 | h_3 | h_4 =>
    cases h
    exact hblank (by decide)
  case h_11 =>
    cases h
    exact .of_readFrom (.string .nil)
  case h_12 | h_13 | h_14 =>
    cases h
    exact .of_readFrom (.word rfl)
  case h_15 =>
    obtain ⟨n, hn, hm⟩ := Option.map_eq_some_iff.mp h
    cases hm
    exact .of_readFrom (.number (Numeral.readFrom_of_start? hn))
  all_goals
    cases h
    exact .of_spelled rfl

theorem Mode.ReadFrom.step {m m' : Mode} {p : List Char} {done : List Token} (h : m.ReadFrom p)
    (hstep : step m c = some (done, m')) : Completes (p ++ [c]) done m' := by
  cases h with
  | between => exact completes_stepBetween hstep
  | @word t p missing htext =>
    rcases missing with _ | ⟨d, _ | ⟨e, missing⟩⟩
    · cases hstep
    · obtain ⟨rfl, hm⟩ : c = d ∧ ([t], Mode.between) = (done, m') := by simpa [Json.step] using hstep
      cases hm
      exact .of_spelled (htext ▸ t.spelled_text)
    · obtain ⟨rfl, hm⟩ : c = d ∧ ([], Mode.word t (e :: missing)) = (done, m') := by
        simpa [Json.step] using hstep
      cases hm
      exact .of_readFrom (.word (by simpa using htext))
  | @number n p hnumeral =>
    simp only [Json.step] at hstep
    split at hstep
    · next n' hn =>
      cases hstep
      exact .of_readFrom (.number (hnumeral.next? hn))
    · obtain ⟨d, hd, hstep⟩ := Option.bind_eq_some_iff.mp hstep
      obtain ⟨⟨later, m⟩, hlater, hstep⟩ := Option.bind_eq_some_iff.mp hstep
      cases hstep
      exact (completes_stepBetween hlater).of_spelled_append (hnumeral.spelled hd)
  | @string units inner hinner =>
    simp only [Json.step] at hstep
    split at hstep
    · next hquote =>
      cases hstep
      exact .of_spelled ⟨inner, hinner, by rw [hquote]; rfl⟩
    split at hstep
    · next hslash =>
      cases hstep
      rw [hslash]
      exact .of_readFrom (.escape hinner)
    split at hstep
    · cases hstep
    · next hquote hslash hprintable =>
      cases hstep
      have hlast := StringText.plain (Char.not_lt.mp hprintable) hquote hslash .nil
      exact .of_readFrom (.string (by simpa using hinner.append hlast))
  | @escape units inner hinner =>
    simp only [Json.step] at hstep
    split at hstep
    · next hu =>
      cases hstep
      have hstart : (Mode.hex units 4 0).ReadFrom ('\"' :: (inner ++ '\\' :: 'u' :: [])) :=
        .hex hinner .nil rfl
      exact .of_readFrom (by simpa [hu] using hstart)
    · obtain ⟨u, hu, hm⟩ := Option.map_eq_some_iff.mp hstep
      cases hm
      have hlonger : StringText (inner ++ ['\\', c]) (u :: units).reverse := by
        simpa using hinner.append (.letter (mem_of_escaped? hu) .nil)
      exact .of_readFrom (by simpa using Mode.ReadFrom.string hlonger)
  | @hex units inner digits values missing hinner hdigits hfour =>
    obtain ⟨k, hk, hstep⟩ := Option.bind_eq_some_iff.mp hstep
    have hmore : List.Forall₂ HexDigit (digits ++ [c]) (values ++ [k]) :=
      List.rel_append hdigits (.cons (hexDigit_of_hexDigit? hk) .nil)
    rw [← hexValue_append_singleton] at hstep
    cases missing with
    | zero =>
      cases hstep
      have hlonger : StringText (inner ++ '\\' :: 'u' :: (digits ++ [c]))
          ((hexValue (values ++ [k])).toUInt16 :: units).reverse := by
        simpa using hinner.append (.hex hmore (by simpa using hfour) .nil)
      exact .of_readFrom (by simpa using Mode.ReadFrom.string hlonger)
    | succ missing =>
      cases hstep
      have hcount : (values ++ [k]).length + (missing + 1) = 4 := by
        rw [List.length_append, List.length_singleton]
        omega
      exact .of_readFrom (by simpa using Mode.ReadFrom.hex hinner hmore hcount)

theorem Mode.ReadFrom.written {m : Mode} {p : List Char} (h : m.ReadFrom p) {s : List Char}
    {ts : List Token} (hread : tokensFrom? m s = some ts) : Written ts (p ++ s) := by
  induction s generalizing m p ts with
  | nil =>
    cases h with
    | between =>
      cases hread
      exact .nil
    | number hnumeral =>
      obtain ⟨d, hd, rfl⟩ := Option.map_eq_some_iff.mp hread
      exact .token (hnumeral.spelled hd) .nil
    | _ => cases hread
  | cons c s ih =>
    obtain ⟨⟨done, m'⟩, hstep, hrest⟩ := Option.bind_eq_some_iff.mp hread
    obtain ⟨later, hlater, hts⟩ := Option.bind_eq_some_iff.mp hrest
    cases hts
    obtain ⟨p', hp', hdone⟩ := h.step hstep
    have hwritten := hdone later s (ih hp' hlater)
    rwa [List.append_assoc, List.singleton_append] at hwritten

theorem written_of_tokens? {s : List Char} {ts : List Token} (h : tokens? s = some ts) : Written ts s :=
  Mode.ReadFrom.between.written h

/-! ### Values -/

/-- The comma that stands behind elements or fields when more of them follow. -/
def separator {α : Type} : List α → List Token
  | [] => []
  | _ => [.comma]

theorem itemTokens_append_singleton (items : List Json) (v : Json) :
    itemTokens (items ++ [v]) = itemTokens items ++ separator items ++ v.tokens := by
  have hafter (items : List Json) : itemsAfter (items ++ [v]) = itemsAfter items ++ .comma :: v.tokens := by
    induction items with
    | nil => simp [itemsAfter]
    | cons w items ih => simp [itemsAfter, ih]
  cases items with
  | nil => simp [itemTokens, itemsAfter, separator]
  | cons w items => simp [itemTokens, separator, hafter]

theorem fieldTokens_append_singleton (fields : List (List UInt16 × Json)) (key : List UInt16) (v : Json) :
    fieldTokens (fields ++ [(key, v)]) =
      fieldTokens fields ++ separator fields ++ .string key :: .colon :: v.tokens := by
  have hafter (fields : List (List UInt16 × Json)) : fieldsAfter (fields ++ [(key, v)]) =
      fieldsAfter fields ++ .comma :: .string key :: .colon :: v.tokens := by
    induction fields with
    | nil => simp [fieldsAfter]
    | cons f fields ih => simp [fieldsAfter, ih]
  cases fields with
  | nil => simp [fieldTokens, fieldsAfter, separator]
  | cons f fields => simp [fieldTokens, separator, hafter]

theorem separator_of_ne_nil {α : Type} {l : List α} (h : l ≠ []) : separator l = [.comma] := by
  cases l with
  | nil => exact absurd rfl h
  | cons a l => rfl

def openItems (items : List Json) : List Token := .openList :: (itemTokens items ++ separator items)

def openFields (fields : List (List UInt16 × Json)) : List Token :=
  .openRecord :: (fieldTokens fields ++ separator fields)

def Frame.taken : Frame → List Token
  | .list items => openItems items.reverse
  | .record fields key => openFields fields.reverse ++ [.string key, .colon]

/-- The tokens that have been taken since the innermost open container, and with them of it. -/
def Phase.taken : Phase → List Token
  | .value _ => []
  | .key fields _ => openFields fields.reverse
  | .colon fields name => openFields fields.reverse ++ [.string name]
  | .afterItem items => .openList :: itemTokens items.reverse
  | .afterField fields => .openRecord :: fieldTokens fields.reverse
  | .done v => v.tokens

namespace State

def taken (s : State) : List Token := s.stack.reverse.flatMap Frame.taken ++ s.phase.taken

/-- What only some states that can be built are: an end is allowed only where a container is empty,
separators stand only behind something, and a complete value is in no container. -/
def Fits (s : State) : Prop :=
  match s.phase with
  | .value mayClose => mayClose = true → ∃ stack, s.stack = .list [] :: stack
  | .key fields mayClose => mayClose = true ↔ fields = []
  | .colon .. => True
  | .afterItem items => items ≠ []
  | .afterField fields => fields ≠ []
  | .done _ => s.stack = []

theorem taken_place (v : Json) (stack : List Frame) :
    (place v stack).taken = stack.reverse.flatMap Frame.taken ++ v.tokens := by
  rcases stack with _ | ⟨items | ⟨fields, key⟩, stack⟩
  · simp [place, taken, Phase.taken]
  · simp [place, taken, Phase.taken, Frame.taken, openItems, itemTokens_append_singleton]
  · simp [place, taken, Phase.taken, Frame.taken, openFields, fieldTokens_append_singleton]

theorem fits_place (v : Json) (stack : List Frame) : (place v stack).Fits := by
  rcases stack with _ | ⟨items | ⟨fields, key⟩, stack⟩ <;> simp [place, Fits]

theorem Fits.take? {s s' : State} {t : Token} (hs : s.Fits) (h : s.take? t = some s') :
    s'.Fits ∧ s'.taken = s.taken ++ [t] := by
  obtain ⟨stack, phase⟩ := s
  have hplace {v : Json} {stack : List Frame} {ts : List Token}
      (hts : stack.reverse.flatMap Frame.taken ++ v.tokens = ts) :
      (place v stack).Fits ∧ (place v stack).taken = ts :=
    ⟨fits_place v stack, (taken_place v stack).trans hts⟩
  cases phase with
  | value mayClose =>
    cases t with
    | null | bool b | number d | string units =>
      cases h
      exact hplace (by simp [taken, Phase.taken, tokens])
    | openList =>
      cases h
      exact ⟨fun _ => ⟨stack, rfl⟩,
        by simp [taken, Phase.taken, Frame.taken, openItems, itemTokens, separator]⟩
    | openRecord =>
      cases h
      exact ⟨by simp [Fits], by simp [taken, Phase.taken, openFields, fieldTokens, separator]⟩
    | closeList =>
      cases mayClose with
      | false => cases h
      | true =>
        obtain ⟨stack, rfl⟩ := hs rfl
        cases h
        exact hplace (by simp [taken, Phase.taken, Frame.taken, openItems, itemTokens, separator, tokens])
    | _ => cases mayClose <;> cases h
  | key fields mayClose =>
    cases t with
    | string units =>
      cases h
      exact ⟨trivial, by simp [taken, Phase.taken]⟩
    | closeRecord =>
      cases mayClose with
      | false => cases h
      | true =>
        obtain rfl : fields = [] := hs.mp rfl
        cases h
        exact hplace (by simp [taken, Phase.taken, openFields, fieldTokens, separator, tokens])
    | _ => cases mayClose <;> cases h
  | colon fields key =>
    cases t with
    | colon =>
      cases h
      exact ⟨by simp [Fits], by simp [taken, Phase.taken, Frame.taken]⟩
    | _ => cases h
  | afterItem items =>
    have hsome : items.reverse ≠ [] := by simpa [Fits] using hs
    cases t with
    | comma =>
      cases h
      exact ⟨by simp [Fits], by simp [taken, Phase.taken, Frame.taken, openItems, separator_of_ne_nil hsome]⟩
    | closeList =>
      cases h
      exact hplace (by simp [taken, Phase.taken, tokens])
    | _ => cases h
  | afterField fields =>
    have hsome : fields.reverse ≠ [] := by simpa [Fits] using hs
    cases t with
    | comma =>
      cases h
      exact ⟨by simpa [Fits] using hs, by simp [taken, Phase.taken, openFields, separator_of_ne_nil hsome]⟩
    | closeRecord =>
      cases h
      exact hplace (by simp [taken, Phase.taken, tokens])
    | _ => cases h
  | done v => cases t <;> cases h

theorem Fits.takeAll? {s s' : State} {ts : List Token} (hs : s.Fits) (h : s.takeAll? ts = some s') :
    s'.Fits ∧ s'.taken = s.taken ++ ts := by
  induction ts generalizing s with
  | nil =>
    cases h
    exact ⟨hs, (List.append_nil _).symm⟩
  | cons t ts ih =>
    obtain ⟨mid, hmid, hrest⟩ := Option.bind_eq_some_iff.mp h
    obtain ⟨hfits, htaken⟩ := hs.take? hmid
    obtain ⟨hfits', htaken'⟩ := ih hfits hrest
    exact ⟨hfits', by rw [htaken', htaken, List.append_assoc, List.singleton_append]⟩

end State

theorem eq_tokens_of_ofTokens? {ts : List Token} {v : Json} (h : ofTokens? ts = some v) : ts = v.tokens := by
  obtain ⟨⟨stack, phase⟩, hs, hphase⟩ := Option.bind_eq_some_iff.mp h
  cases phase with
  | done w =>
    cases hphase
    have hstart : State.Fits ⟨[], .value false⟩ := by simp [State.Fits]
    obtain ⟨hfits, htaken⟩ := hstart.takeAll? hs
    obtain rfl : stack = [] := hfits
    simpa [State.taken, Phase.taken] using htaken.symm
  | _ => cases hphase

/-- A text is read as a value exactly when it denotes that value. -/
theorem parse?_eq_some_iff {text : String} {v : Json} : Json.parse? text = some v ↔ Denotes text v := by
  refine ⟨fun h => ?_, Denotes.parse?⟩
  obtain ⟨ts, hts, hv⟩ := Option.bind_eq_some_iff.mp h
  rw [Denotes, ← eq_tokens_of_ofTokens? hv]
  exact written_of_tokens? hts

end Autoescape.Json
