import Autoescape.Json.Parser
import Autoescape.Proofs.Json.Grammar
import Mathlib.Tactic.IntervalCases

/-!
# Reading JSON texts

Every text of a value is read as that value. The tokens are read off one by one; only a numeral
needs to know what follows it, and in the tokens of a value nothing can follow that it would swallow.
-/
namespace Autoescape.Json

variable {m q : Mode} {c : Char} {t : Token}

theorem tokensFrom?_cons (h : step m c = some ([], q)) (rest : List Char) :
    tokensFrom? m (c :: rest) = tokensFrom? q rest := by
  simp [tokensFrom?, h]

theorem tokensFrom?_cons_token (h : step m c = some ([t], q)) (rest : List Char) :
    tokensFrom? m (c :: rest) = (tokensFrom? q rest).map (t :: ·) := by
  simp [tokensFrom?, h, Option.map_eq_bind]

/-! ### Strings -/

theorem hexDigit?_of_hexDigit {k : Nat} (h : HexDigit c k) : hexDigit? c = some k := by
  obtain ⟨hk, rfl | rfl⟩ := h
  · exact Text.Hex.hexDigit?_digitChar hk
  · exact Text.Hex.hexDigit?_toUpper_digitChar hk

theorem tokensFrom?_hex {digits : List Char} {values : List Nat}
    (hdigits : List.Forall₂ HexDigit digits values) {missing : Nat} (hlength : values.length = missing + 1)
    (units : List UInt16) (value : Nat) (rest : List Char) :
    tokensFrom? (.hex units (missing + 1) value) (digits ++ rest) =
      tokensFrom? (.string ((values.foldl (fun n k => n * 16 + k) value).toUInt16 :: units)) rest := by
  induction hdigits generalizing missing value with
  | nil => simp at hlength
  | @cons d k digits values hd hdigits ih =>
    have hk := hexDigit?_of_hexDigit hd
    cases missing with
    | zero =>
      obtain rfl : values = [] := by simpa using hlength
      obtain rfl : digits = [] := by simpa using hdigits.length_eq
      exact tokensFrom?_cons (by simp [step, hk]) rest
    | succ missing =>
      rw [List.cons_append, tokensFrom?_cons (q := .hex units (missing + 1) (value * 16 + k))
        (by simp [step, hk]), ih (by simpa using hlength), List.foldl_cons]

theorem escaped?_of_mem {u : UInt16} (h : (c, u) ∈ letterEscapes) :
    c ≠ 'u' ∧ escaped? c = some u := by
  have hall : ∀ e ∈ letterEscapes, e.1 ≠ 'u' ∧ escaped? e.1 = some e.2 := by decide
  exact hall (c, u) h

theorem tokensFrom?_string {inner : List Char} {units : List UInt16} (h : StringText inner units)
    (before : List UInt16) (rest : List Char) :
    tokensFrom? (.string before) (inner ++ '\"' :: rest) =
      (tokensFrom? .between rest).map (.string (before.reverse ++ units) :: ·) := by
  induction h generalizing before with
  | nil => simpa using tokensFrom?_cons_token (m := .string before) rfl rest
  | @plain c s units hprintable hquote hslash hrest ih =>
    have hstep : step (.string before) c = some ([], .string ((Text.Units.ofChar c).reverse ++ before)) := by
      rw [step, if_neg hquote, if_neg hslash, if_neg (Char.not_lt.mpr hprintable)]
    rw [List.cons_append, tokensFrom?_cons hstep, ih]
    simp
  | @letter c u s units hletter hrest ih =>
    obtain ⟨hu, hunit⟩ := escaped?_of_mem hletter
    have hstep : step (.escape before) c = some ([], .string (u :: before)) := by
      rw [step, if_neg hu, hunit]
      rfl
    rw [List.cons_append, List.cons_append, tokensFrom?_cons (q := .escape before) rfl,
      tokensFrom?_cons hstep, ih]
    simp
  | @hex digits values s units hdigits hfour hrest ih =>
    rw [List.cons_append, List.cons_append, tokensFrom?_cons (q := .escape before) rfl,
      tokensFrom?_cons (q := .hex before 4 0) rfl, List.append_assoc,
      tokensFrom?_hex hdigits hfour, ih]
    simp [hexValue]

/-! ### Numerals -/

theorem digit?_digitChar (k : Fin 10) : digit? (Nat.digitChar k.val) = some k := by
  revert k
  decide

/-- A mode that goes on from digit to digit reads a decimal numeral. -/
theorem tokensFrom?_toDigits (reached : Nat → Mode)
    (hfirst : ∀ k : Fin 10, step m (Nat.digitChar k.val) = some ([], reached k.val))
    (hnext : ∀ n, 0 < n → ∀ k : Fin 10,
      step (reached n) (Nat.digitChar k.val) = some ([], reached (n * 10 + k.val)))
    (n : Nat) (rest : List Char) :
    tokensFrom? m (Nat.toDigits 10 n ++ rest) = tokensFrom? (reached n) rest := by
  induction n using Nat.strongRecOn generalizing rest with
  | ind n ih =>
    by_cases hn : n < 10
    · rw [Nat.toDigits_of_lt_base hn]
      exact tokensFrom?_cons (hfirst ⟨n, hn⟩) rest
    · have hdiv : 0 < n / 10 := Nat.div_pos (by omega) (by decide)
      rw [Nat.toDigits_of_base_le (by decide) (by omega), List.append_assoc, ih (n / 10) (by omega)]
      rw [List.singleton_append, tokensFrom?_cons (hnext (n / 10) hdiv ⟨n % 10, Nat.mod_lt n (by decide)⟩)]
      rw [Nat.div_add_mod' n 10]

namespace Numeral

def ofWhole (negative : Bool) (n : Nat) : Numeral :=
  ⟨if n = 0 then .zero else .whole, negative, n, [], false, 0⟩

/-- The numeral of which everything before the exponent has been read. -/
def ofMantissa (d : Decimal) : Numeral :=
  if d.fraction = [] then ofWhole d.negative d.whole
  else ⟨.fraction, d.negative, d.whole, d.fraction.reverse, false, 0⟩

theorem next?_ofWhole (negative : Bool) {n : Nat} (hn : 0 < n) (k : Fin 10) :
    (ofWhole negative n).next? (Nat.digitChar k.val) = some (ofWhole negative (n * 10 + k.val)) := by
  have hne : n ≠ 0 := by omega
  have hmore : n * 10 + k.val ≠ 0 := by omega
  simp only [next?, ofWhole, digit?_digitChar, if_neg hne, if_neg hmore]

end Numeral

theorem step_number {n n' : Numeral} (h : n.next? c = some n') :
    step (.number n) c = some ([], .number n') := by
  simp [step, h]

theorem tokensFrom?_whole (negative : Bool) (n : Nat) (rest : List Char) :
    tokensFrom? .between ((if negative then ['-'] else []) ++ (Nat.toDigits 10 n ++ rest)) =
      tokensFrom? (.number (.ofWhole negative n)) rest := by
  have hnext (n : Nat) (hn : 0 < n) (k : Fin 10) := step_number (Numeral.next?_ofWhole negative hn k)
  cases negative with
  | false =>
    refine tokensFrom?_toDigits _ (fun k => ?_) hnext n rest
    obtain ⟨k, hk⟩ := k
    interval_cases k <;> rfl
  | true =>
    rw [if_pos rfl, List.singleton_append,
      tokensFrom?_cons (q := .number ⟨.minus, true, 0, [], false, 0⟩) rfl]
    refine tokensFrom?_toDigits _ (fun k => ?_) hnext n rest
    obtain ⟨k, hk⟩ := k
    interval_cases k <;> rfl

theorem tokensFrom?_fraction {n : Numeral} (hn : n.part = .fraction) (digits : List (Fin 10))
    (rest : List Char) :
    tokensFrom? (.number n) (digits.map (fun k => Nat.digitChar k.val) ++ rest) =
      tokensFrom? (.number { n with fraction := digits.reverse ++ n.fraction }) rest := by
  induction digits generalizing n with
  | nil => rfl
  | cons k digits ih =>
    have hnext : n.next? (Nat.digitChar k.val) = some { n with fraction := k :: n.fraction } := by
      simp [Numeral.next?, hn, digit?_digitChar]
    rw [List.map_cons, List.cons_append, tokensFrom?_cons (step_number hnext), ih (by exact hn)]
    simp

theorem tokensFrom?_mantissa (d : Decimal) (rest : List Char) :
    tokensFrom? .between (mantissaText d ++ rest) = tokensFrom? (.number (.ofMantissa d)) rest := by
  rw [mantissaText, List.append_assoc, List.append_assoc, tokensFrom?_whole, Numeral.ofMantissa]
  cases hfraction : d.fraction with
  | nil => simp
  | cons k digits =>
    have hpoint : (Numeral.ofWhole d.negative d.whole).next? '.' =
        some { Numeral.ofWhole d.negative d.whole with part := .point } := by
      have hdigit : digit? '.' = none := by decide
      unfold Numeral.ofWhole
      split <;> simp [Numeral.next?, hdigit]
    have hfirst : Numeral.next? { Numeral.ofWhole d.negative d.whole with part := .point }
        (Nat.digitChar k.val) = some ⟨.fraction, d.negative, d.whole, [k], false, 0⟩ := by
      simp [Numeral.next?, digit?_digitChar, Numeral.ofWhole]
    rw [if_neg (by simp), if_neg (by simp), List.cons_append, tokensFrom?_cons (step_number hpoint),
      List.map_cons, List.cons_append, tokensFrom?_cons (step_number hfirst), tokensFrom?_fraction rfl]
    simp

/-- A numeral that may go on with the digits of its exponent, of which none counts so far. -/
def Numeral.AwaitsPower (n : Numeral) : Prop :=
  (n.part = .mark ∨ n.part = .markSign ∨ n.part = .power) ∧ n.power = 0

theorem tokensFrom?_power {n : Numeral} (hn : n.AwaitsPower) (zeros power : Nat) (rest : List Char) :
    tokensFrom? (.number n) (List.replicate zeros '0' ++ (Nat.toDigits 10 power ++ rest)) =
      tokensFrom? (.number { n with part := .power, power := power }) rest := by
  have hfirst {n : Numeral} (hn : n.AwaitsPower) (k : Fin 10) :
      n.next? (Nat.digitChar k.val) = some { n with part := .power, power := k.val } := by
    obtain ⟨hpart, hpower⟩ := hn
    rcases hpart with hpart | hpart | hpart <;> simp [Numeral.next?, hpart, hpower, digit?_digitChar]
  induction zeros generalizing n with
  | zero =>
    refine tokensFrom?_toDigits (fun p => .number { n with part := .power, power := p })
      (fun k => step_number (hfirst hn k)) (fun p _ k => step_number ?_) power rest
    simp [Numeral.next?, digit?_digitChar]
  | succ zeros ih =>
    have hzero : n.next? '0' = some { n with part := .power, power := 0 } := hfirst hn 0
    have hawaits : Numeral.AwaitsPower { n with part := .power, power := 0 } := ⟨.inr (.inr rfl), rfl⟩
    rw [List.replicate_succ, List.cons_append, tokensFrom?_cons (step_number hzero), ih hawaits]

/-- A numeral that may go on with the mark of its exponent. -/
structure Numeral.AwaitsMark (n : Numeral) : Prop where
  part : n.part = .zero ∨ n.part = .whole ∨ n.part = .fraction
  grows : n.shrinks = false
  power : n.power = 0

theorem Numeral.awaitsMark_ofMantissa (d : Decimal) : (ofMantissa d).AwaitsMark := by
  unfold ofMantissa ofWhole
  by_cases hfraction : d.fraction = []
  · rw [if_pos hfraction]
    refine ⟨?_, rfl, rfl⟩
    by_cases hwhole : d.whole = 0 <;> simp [hwhole]
  · rw [if_neg hfraction]
    exact ⟨.inr (.inr rfl), rfl, rfl⟩

theorem Numeral.next?_mark {n : Numeral} (hn : n.AwaitsMark) {mark : Char} (hmark : mark = 'e' ∨ mark = 'E') :
    n.next? mark = some { n with part := .mark } := by
  have hdigit : digit? 'e' = none ∧ digit? 'E' = none := by decide
  rcases hmark with rfl | rfl <;> rcases hn.part with hn | hn | hn <;>
    simp [next?, next?.mark?, hn, hdigit]

theorem tokensFrom?_sign {n : Numeral} (hmark : n.part = .mark) (hgrows : n.shrinks = false)
    {sign : List Char} {factor : Int} (hsign : (sign, factor) ∈ signs) (rest : List Char) :
    ∃ part, (part = .mark ∨ part = .markSign) ∧ tokensFrom? (.number n) (sign ++ rest) =
      tokensFrom? (.number { n with part := part, shrinks := factor = -1 }) rest := by
  have hdigit : digit? '+' = none ∧ digit? '-' = none := by decide
  simp only [signs, List.mem_cons, Prod.mk.injEq, List.not_mem_nil, or_false] at hsign
  rcases hsign with ⟨rfl, rfl⟩ | ⟨rfl, rfl⟩ | ⟨rfl, rfl⟩
  · exact ⟨.mark, .inl rfl, by simp [← hmark, ← hgrows]⟩
  · refine ⟨.markSign, .inr rfl, tokensFrom?_cons (step_number ?_) rest⟩
    simp [Numeral.next?, hmark, hgrows, hdigit]
  · refine ⟨.markSign, .inr rfl, tokensFrom?_cons (step_number ?_) rest⟩
    simp [Numeral.next?, hmark, hdigit]

def Numeral.withPower (n : Numeral) (factor : Int) (power : Nat) : Numeral :=
  { n with part := .power, shrinks := factor = -1, power := power }

theorem tokensFrom?_exponent {n : Numeral} (hn : n.AwaitsMark) {mark : Char} (hmark : mark = 'e' ∨ mark = 'E')
    {sign : List Char} {factor : Int} (hsign : (sign, factor) ∈ signs) (zeros power : Nat)
    (rest : List Char) :
    tokensFrom? (.number n)
        (mark :: (sign ++ (List.replicate zeros '0' ++ (Nat.toDigits 10 power ++ rest)))) =
      tokensFrom? (.number (n.withPower factor power)) rest := by
  obtain ⟨part, hpart, hread⟩ := tokensFrom?_sign (n := { n with part := .mark }) rfl hn.grows hsign
    (List.replicate zeros '0' ++ (Nat.toDigits 10 power ++ rest))
  have hawaits : Numeral.AwaitsPower { n with part := part, shrinks := factor = -1 } :=
    ⟨by rcases hpart with rfl | rfl <;> simp, hn.power⟩
  rw [tokensFrom?_cons (step_number (Numeral.next?_mark hn hmark)), hread, tokensFrom?_power hawaits]
  rfl

def followers : List Char := blanks ++ [',', ']', '\x7d']

theorem Numeral.next?_follower (n : Numeral) (hc : c ∈ followers) : n.next? c = none := by
  have hall : (followers.all fun c => digit? c = none ∧ c ≠ '.' ∧ c ≠ 'e' ∧ c ≠ 'E' ∧ c ≠ '+' ∧ c ≠ '-') =
      true := by decide
  obtain ⟨hdigit, hpoint, hlower, hupper, hplus, hminus⟩ : digit? c = none ∧ c ≠ '.' ∧ c ≠ 'e' ∧ c ≠ 'E' ∧
      c ≠ '+' ∧ c ≠ '-' := by
    simpa using List.all_eq_true.mp hall c hc
  obtain ⟨part, _, _, _, _, _⟩ := n
  cases part <;> simp [next?, next?.mark?, hdigit, hpoint, hlower, hupper, hplus, hminus]

theorem tokensFrom?_finish {n : Numeral} {d : Decimal} (hn : n.finish? = some d) {rest : List Char}
    (hrest : ∀ c ∈ rest.head?, c ∈ followers) :
    tokensFrom? (.number n) rest = (tokensFrom? .between rest).map (.number d :: ·) := by
  cases rest with
  | nil => simp [tokensFrom?, atEnd, hn]
  | cons c rest =>
    have hstop := n.next?_follower (hrest c rfl)
    simp only [tokensFrom?, step, hstop, hn]
    cases stepBetween c with
    | none => rfl
    | some read => cases hread : tokensFrom? read.2 rest <;> simp [hread]

theorem Numeral.finish?_ofMantissa {d : Decimal} (hd : d.exponent = 0) : (ofMantissa d).finish? = some d := by
  obtain ⟨negative, whole, fraction, exponent⟩ := d
  obtain rfl : exponent = 0 := hd
  unfold ofMantissa ofWhole
  split
  · next hfraction =>
    obtain rfl : fraction = [] := hfraction
    by_cases hwhole : whole = 0 <;> simp [finish?, hwhole]
  · simp [finish?]

theorem Numeral.finish?_withPower {d : Decimal} {sign : List Char} {factor : Int}
    (hsign : (sign, factor) ∈ signs) {power : Nat} (hd : d.exponent = factor * power) :
    ((ofMantissa d).withPower factor power).finish? = some d := by
  obtain ⟨negative, whole, fraction, exponent⟩ := d
  obtain rfl : exponent = factor * power := hd
  have hfactor : (if factor = -1 then -(power : Int) else power) = factor * power := by
    simp only [signs, List.mem_cons, Prod.mk.injEq, List.not_mem_nil, or_false] at hsign
    rcases hsign with ⟨-, rfl⟩ | ⟨-, rfl⟩ | ⟨-, rfl⟩ <;> simp
  unfold ofMantissa ofWhole withPower
  by_cases hfraction : fraction = []
  · simp [finish?, hfraction, hfactor]
  · simp [finish?, hfraction, hfactor]

theorem tokensFrom?_number {d : Decimal} {r : List Char} (h : (Token.number d).Spelled r)
    {rest : List Char} (hrest : ∀ c ∈ rest.head?, c ∈ followers) :
    tokensFrom? .between (r ++ rest) = (tokensFrom? .between rest).map (.number d :: ·) := by
  obtain ⟨exponent, hexponent, rfl⟩ := h
  rw [List.append_assoc, tokensFrom?_mantissa]
  generalize hd : d.exponent = e at hexponent
  cases hexponent with
  | absent => exact tokensFrom?_finish (Numeral.finish?_ofMantissa hd) hrest
  | present hmark hsign zeros power =>
    rw [List.cons_append, List.append_assoc, List.append_assoc,
      tokensFrom?_exponent (Numeral.awaitsMark_ofMantissa d) hmark hsign]
    exact tokensFrom?_finish (Numeral.finish?_withPower hsign hd) hrest

/-! ### Tokens -/

def closers : List Token := [.comma, .closeList, .closeRecord]

theorem tokensFrom?_word {missing : List Char} (hmissing : missing ≠ []) (rest : List Char) :
    tokensFrom? (.word t missing) (missing ++ rest) = (tokensFrom? .between rest).map (t :: ·) := by
  induction missing with
  | nil => exact absurd rfl hmissing
  | cons c missing ih =>
    cases missing with
    | nil => exact tokensFrom?_cons_token (by simp [step]) rest
    | cons d missing =>
      have hstep : step (.word t (c :: d :: missing)) c = some ([], .word t (d :: missing)) := by
        simp [step]
      exact (tokensFrom?_cons hstep _).trans (ih (List.cons_ne_nil d missing))

theorem tokensFrom?_token {r : List Char} (h : t.Spelled r) {rest : List Char}
    (hrest : (∃ d, t = .number d) → ∀ c ∈ rest.head?, c ∈ followers) :
    tokensFrom? .between (r ++ rest) = (tokensFrom? .between rest).map (t :: ·) := by
  cases t with
  | string units =>
    obtain ⟨inner, hinner, rfl⟩ := h
    rw [List.cons_append, List.append_assoc, tokensFrom?_cons (q := .string []) rfl]
    exact tokensFrom?_string hinner [] rest
  | number d => exact tokensFrom?_number h (hrest ⟨d, rfl⟩)
  | bool b =>
    obtain rfl := h
    cases b with
    | true => exact (tokensFrom?_cons rfl _).trans (tokensFrom?_word (by decide) rest)
    | false => exact (tokensFrom?_cons rfl _).trans (tokensFrom?_word (by decide) rest)
  | null =>
    obtain rfl := h
    exact (tokensFrom?_cons rfl _).trans (tokensFrom?_word (by decide) rest)
  | _ =>
    obtain rfl := h
    exact tokensFrom?_cons_token rfl rest

theorem Written.head_mem_followers {ts : List Token} {s : List Char} (h : Written ts s)
    (hts : ∀ t ∈ ts.head?, t ∈ closers) : ∀ c ∈ s.head?, c ∈ followers := by
  cases h with
  | nil => simp
  | blank hblank => simpa [followers] using Or.inl hblank
  | @token t r ts s htoken hrest =>
    have ht : t ∈ closers := hts t rfl
    simp only [closers, List.mem_cons, List.not_mem_nil, or_false] at ht
    rcases ht with rfl | rfl | rfl <;> obtain rfl := htoken <;> simp [Token.text, followers]

namespace State

theorem take?_number {s s' : State} {d : Decimal} (h : s.take? (.number d) = some s') :
    s' = place (.number d) s.stack := by
  obtain ⟨stack, phase⟩ := s
  cases phase <;> simp_all [take?]

/-- Behind a complete value, the parser takes a separator or an end. -/
theorem head_mem_closers {v : Json} {stack : List Frame} {ts : List Token} {s : State}
    (h : (place v stack).takeAll? ts = some s) : ∀ t ∈ ts.head?, t ∈ closers := by
  cases ts with
  | nil => simp
  | cons t ts =>
    obtain ⟨mid, hmid, -⟩ := Option.bind_eq_some_iff.mp h
    rintro t ⟨⟩
    rcases stack with _ | ⟨_ | _, stack⟩ <;> cases t <;> simp_all [place, take?, closers]

end State

/-- Texts of tokens that the parser takes are read as these tokens: it takes no number before
anything that the numeral could go on with. -/
theorem Written.tokens? {ts : List Token} {s : List Char} (h : Written ts s) {state state' : State}
    (htaken : state.takeAll? ts = some state') : tokens? s = some ts := by
  induction h generalizing state with
  | nil => rfl
  | @blank c ts s hblank hrest ih =>
    have hall : ∀ c ∈ blanks, step .between c = some ([], .between) := by
      simp [blanks, step, stepBetween]
    exact (tokensFrom?_cons (hall c hblank) s).trans (ih htaken)
  | @token t r ts s htoken hrest ih =>
    obtain ⟨mid, hmid, hlater⟩ := Option.bind_eq_some_iff.mp htaken
    have hfollow : (∃ d, t = .number d) → ∀ c ∈ s.head?, c ∈ followers := by
      rintro ⟨d, rfl⟩
      rw [State.take?_number hmid] at hlater
      exact hrest.head_mem_followers (State.head_mem_closers hlater)
    have hread : tokensFrom? .between s = some ts := ih hlater
    exact (tokensFrom?_token htoken hfollow).trans (by rw [hread]; rfl)

/-! ### Values -/

theorem State.takeAll?_cons {s s' : State} (h : s.take? t = some s') (ts : List Token) :
    s.takeAll? (t :: ts) = s'.takeAll? ts := by
  simp [takeAll?, h]

mutual

/-- The tokens of a value put that value where one is expected. -/
theorem State.takeAll?_tokens (v : Json) (stack : List Frame) (mayClose : Bool) (rest : List Token) :
    (State.mk stack (.value mayClose)).takeAll? (v.tokens ++ rest) = (place v stack).takeAll? rest := by
  match v with
  | .null => rfl
  | .bool b => rfl
  | .number d => rfl
  | .string units => rfl
  | .list [] => rfl
  | .list (v :: items) =>
    rw [tokens, itemTokens, List.cons_append, takeAll?_cons rfl, List.append_assoc, List.append_assoc,
      takeAll?_tokens v (.list [] :: stack) true]
    exact takeAll?_itemsAfter items [v] stack rest
  | .record [] => rfl
  | .record ((key, v) :: fields) =>
    rw [tokens, fieldTokens, List.cons_append, takeAll?_cons rfl, List.append_assoc, List.cons_append,
      takeAll?_cons rfl, List.cons_append, takeAll?_cons rfl, List.append_assoc,
      takeAll?_tokens v (.record [] key :: stack) false]
    exact takeAll?_fieldsAfter fields [(key, v)] stack rest

theorem State.takeAll?_itemsAfter (items before : List Json) (stack : List Frame) (rest : List Token) :
    (State.mk stack (.afterItem before)).takeAll? (itemsAfter items ++ ([.closeList] ++ rest)) =
      (place (.list (before.reverse ++ items)) stack).takeAll? rest := by
  match items with
  | [] => rw [List.append_nil]; rfl
  | v :: items =>
    rw [itemsAfter, List.cons_append, takeAll?_cons rfl, List.append_assoc,
      takeAll?_tokens v (.list before :: stack) false]
    refine (takeAll?_itemsAfter items (v :: before) stack rest).trans ?_
    rw [List.reverse_cons, List.append_assoc, List.singleton_append]

theorem State.takeAll?_fieldsAfter (fields before : List (List UInt16 × Json)) (stack : List Frame)
    (rest : List Token) :
    (State.mk stack (.afterField before)).takeAll? (fieldsAfter fields ++ ([.closeRecord] ++ rest)) =
      (place (.record (before.reverse ++ fields)) stack).takeAll? rest := by
  match fields with
  | [] => rw [List.append_nil]; rfl
  | (key, v) :: fields =>
    rw [fieldsAfter, List.cons_append, takeAll?_cons rfl, List.cons_append, takeAll?_cons rfl,
      List.cons_append, takeAll?_cons rfl, List.append_assoc,
      takeAll?_tokens v (.record before key :: stack) false]
    refine (takeAll?_fieldsAfter fields ((key, v) :: before) stack rest).trans ?_
    rw [List.reverse_cons, List.append_assoc, List.singleton_append]

end

theorem Denotes.parse? {text : String} {v : Json} (h : Denotes text v) : parse? text = some v := by
  have htaken : State.takeAll? ⟨[], .value false⟩ v.tokens = some ⟨[], .done v⟩ := by
    have h := State.takeAll?_tokens v [] false []
    rwa [List.append_nil] at h
  rw [Json.parse?, Written.tokens? h htaken]
  simp [ofTokens?, htaken]

theorem parse?_render (v : Json) : Json.parse? (render v) = some v := (denotes_render v).parse?

end Autoescape.Json
