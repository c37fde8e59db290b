import Autoescape.Proofs.Names
import Autoescape.Proofs.PatternStep
import Autoescape.Proofs.PatternToken

/-!
# Anchors at the ends of the input

Patterns of letters, escaped signs and the two anchors that hold at the ends of the input only,
whatever the host's modes are. The emitted language has no such anchors: what is written for them
holds at the ends of lines too when the literal carries the letter of the multiline mode.
`anchors_kept_iff` says for which patterns a search comes to the same all the same.
-/
namespace Autoescape.Pattern

/-- What a pattern without choices and repetitions asks for at a place of a value. -/
inductive Demand where
  | unit (u : UInt16)
  /-- The start of the input or, by line, of any line of it. -/
  | start (byLine : Bool)
  /-- The end of the input or, by line, of any line of it. -/
  | stop (byLine : Bool)
deriving DecidableEq

def endsLine (u : UInt16) : Bool := u ∈ [0x0A, 0x0D, 0x2028, 0x2029]

/-- Nothing stands on this side of a place or, by line, what ends a line does. -/
def AtEdge (byLine : Bool) (side : List UInt16) : Prop :=
  side = [] ∨ byLine = true ∧ ∃ u rest, side = u :: rest ∧ endsLine u = true

/-- Whether demands are met one after the other from a place on. What is before the place is given
from there backwards. -/
def Met : List Demand → List UInt16 → List UInt16 → Prop
  | [], _, _ => True
  | .unit u :: demands, before, after => ∃ behind, after = u :: behind ∧ Met demands (u :: before) behind
  | .start byLine :: demands, before, after => AtEdge byLine before ∧ Met demands before after
  | .stop byLine :: demands, before, after => AtEdge byLine after ∧ Met demands before after

def Found (demands : List Demand) (value : List UInt16) : Prop :=
  ∃ before after, value = before.reverse ++ after ∧ Met demands before after

/-- A part of a host's pattern: a letter for itself, a sign for itself behind a backslash, or an
anchor. -/
inductive Item where
  | letter (c : Char) (h : c.isAlpha = true)
  | sign (c : Char) (h : isSpecial c = true)
  | begins
  | ends
deriving DecidableEq

namespace Item

def source : Item → List Char
  | .letter c _ => [c]
  | .sign c _ => ['\\', c]
  | .begins => ['\\', 'A']
  | .ends => ['\\', 'z']

def written : Item → List Char
  | .letter c _ => [c]
  | .sign c _ => ['\\', c]
  | .begins => ['^']
  | .ends => ['$']

def unit? : Item → Option UInt16
  | .letter c _ | .sign c _ => some c.toNat.toUInt16
  | .begins | .ends => none

def demand (byLine : Bool) : Item → Demand
  | .letter c _ | .sign c _ => .unit c.toNat.toUInt16
  | .begins => .start byLine
  | .ends => .stop byLine

end Item

/-- Whether the host finds some items in a value. Its anchors hold at the ends of the input in every
mode. -/
def FoundByHost (items : List Item) (value : List UInt16) : Prop :=
  Found (items.map (Item.demand false)) value

/-- What the body of a literal asks for, as far as it holds nothing but letters, escaped signs and
anchors. -/
def demands? (byLine : Bool) : List Char → Option (List Demand)
  | [] => some []
  | c :: rest =>
    if c = '\\' then
      match rest with
      | d :: rest => if isSpecial d then (demands? byLine rest).map (.unit d.toNat.toUInt16 :: ·) else none
      | [] => none
    else if c = '^' then (demands? byLine rest).map (.start byLine :: ·)
    else if c = '$' then (demands? byLine rest).map (.stop byLine :: ·)
    else if c.isAlpha then (demands? byLine rest).map (.unit c.toNat.toUInt16 :: ·)
    else none

/-- What a literal asks for. Its anchors hold by line when it has the multiline flag; no other flag
is known. -/
def Token.demands? (t : Token) : Option (List Demand) :=
  if t.flags = [] then Pattern.demands? false t.body
  else if t.flags = ['m'] then Pattern.demands? true t.body
  else none

/-- Whether a search of a value with a literal succeeds. A text that is no literal finds nothing. -/
def FoundByLiteral (literal : String) (value : List UInt16) : Prop :=
  ∃ t demands, IsToken literal t ∧ t.demands? = some demands ∧ Found demands value

def ofItems (items : List Item) (multiline : Bool) : Pattern :=
  ⟨String.ofList (items.flatMap Item.source), { Modes.plain with multiline }⟩

/-- Items in which no `\A` stands behind a unit, and no unit behind a `\z`. -/
def Ordered (items : List Item) : Prop :=
  items.Pairwise fun i j => (i.unit?.isSome → j ≠ .begins) ∧ (i = .ends → j.unit? = none)

/-- Items whose anchors tell the ends of the input from those of a line: they can be found, there is an
anchor, and they are more than one anchor over and over. -/
structure TellsLines (items : List Item) : Prop where
  ordered : Ordered items
  anchored : .begins ∈ items ∨ .ends ∈ items
  not_begins : ∃ i ∈ items, i ≠ .begins
  not_ends : ∃ i ∈ items, i ≠ .ends

theorem isSpecial_of_isAlpha {c : Char} (h : c.isAlpha = true) :
    isSpecial c = false ∧ lineEnd? c = none ∧ endsLine c.toNat.toUInt16 = false := by
  have hpart : Registry.isIdentPart c = true := by simp [Registry.isIdentPart, Registry.isIdentStart, h]
  exact Registry.forall_isIdentPart (p := fun c => c.isAlpha = true →
    isSpecial c = false ∧ lineEnd? c = none ∧ endsLine c.toNat.toUInt16 = false) (by decide) hpart h

theorem forall_isSpecial {p : Char → Bool}
    (h : ['\\', '^', '$', '.', '|', '?', '*', '+', '(', ')', '[', ']', '\x7b', '\x7d', '/', '-'].all p = true)
    {c : Char} (hc : isSpecial c = true) : p c = true :=
  List.all_eq_true.mp h c (by simpa only [isSpecial, decide_eq_true_eq] using hc)

section Items

variable {i : Item} {items : List Item} {byLine : Bool} {before after side : List UInt16} {u : UInt16}

theorem Item.demand_of_unit? (h : i.unit? = some u) : i.demand byLine = .unit u := by
  cases i <;> cases h <;> rfl

theorem Item.endsLine_unit? (h : i.unit? = some u) : endsLine u = false := by
  cases i with
  | letter c hc =>
    cases h
    exact (isSpecial_of_isAlpha hc).2.2
  | sign c hc =>
    cases h
    simpa using forall_isSpecial (p := fun c => !endsLine c.toNat.toUInt16) (by decide) hc
  | begins => cases h
  | ends => cases h

theorem atEdge_nil : AtEdge byLine [] := .inl rfl

theorem not_atEdge_cons (h : endsLine u = false) : ¬AtEdge byLine (u :: side) := by
  rintro (hnil | ⟨-, v, rest, heq, hv⟩)
  · cases hnil
  · obtain ⟨rfl, -⟩ := List.cons.inj heq
    rw [h] at hv
    cases hv

theorem ordered_cons : Ordered (i :: items) ↔
    (∀ j ∈ items, (i.unit?.isSome → j ≠ .begins) ∧ (i = .ends → j.unit? = none)) ∧ Ordered items :=
  List.pairwise_cons

/-- Where some items are found: their order makes sense, their units follow the place, and an anchor
among them holds in front of the first unit or behind the last one. -/
theorem met_iff (items : List Item) (before after : List UInt16) :
    Met (items.map (Item.demand byLine)) before after ↔ Ordered items ∧
      ∃ tail, after = items.filterMap Item.unit? ++ tail ∧
        (.begins ∈ items → AtEdge byLine before) ∧ (.ends ∈ items → AtEdge byLine tail) := by
  induction items generalizing before after with
  | nil => simp [Met, Ordered]
  | cons i items ih =>
    rw [List.map_cons, ordered_cons, List.filterMap_cons, List.mem_cons, List.mem_cons]
    cases hi : i.unit? with
    | some u =>
      have hbegins : Item.begins ≠ i := by
        rintro rfl
        cases hi
      have hends : Item.ends ≠ i := by
        rintro rfl
        cases hi
      rw [Item.demand_of_unit? hi, Met]
      simp only [ih, hbegins, hends, hends.symm, false_or, Option.isSome_some, forall_const,
        List.cons_append, false_implies, and_true]
      constructor
      · rintro ⟨behind, rfl, hordered, tail, rfl, hstart, hstop⟩
        have hnone : ∀ j ∈ items, j ≠ .begins := by
          rintro j hj rfl
          exact not_atEdge_cons (Item.endsLine_unit? hi) (hstart hj)
        exact ⟨⟨hnone, hordered⟩, tail, rfl, fun hmem => absurd rfl (hnone _ hmem), hstop⟩
      · rintro ⟨⟨hnone, hordered⟩, tail, rfl, -, hstop⟩
        exact ⟨_, rfl, hordered, tail, rfl, fun hmem => absurd rfl (hnone _ hmem), hstop⟩
    | none =>
      cases i with
      | letter => cases hi
      | sign => cases hi
      | begins =>
        rw [Item.demand, Met, ih]
        simp only [reduceCtorEq, false_or, true_or, forall_const, Option.isSome_none, Bool.false_eq_true,
          false_implies, and_self, implies_true, true_and]
        constructor
        · rintro ⟨hedge, hordered, tail, rfl, -, hstop⟩
          exact ⟨hordered, tail, rfl, hedge, hstop⟩
        · rintro ⟨hordered, tail, rfl, hedge, hstop⟩
          exact ⟨hedge, hordered, tail, rfl, fun _ => hedge, hstop⟩
      | ends =>
        rw [Item.demand, Met, ih]
        simp only [reduceCtorEq, false_or, true_or, forall_const, Option.isSome_none, Bool.false_eq_true,
          false_implies, true_and]
        -- behind an end there is no unit, so what is left of the value is the same in front of it
        constructor
        · rintro ⟨hedge, hordered, tail, rfl, hstart, -⟩
          have hnone : items.filterMap Item.unit? = [] := by
            cases hunits : items.filterMap Item.unit? with
            | nil => rfl
            | cons u units =>
              obtain ⟨j, -, hj⟩ := List.mem_filterMap.mp (hunits ▸ List.mem_cons_self (a := u) (l := units))
              rw [hunits, List.cons_append] at hedge
              exact absurd hedge (not_atEdge_cons (Item.endsLine_unit? hj))
          rw [hnone, List.nil_append] at hedge
          exact ⟨⟨List.filterMap_eq_nil_iff.mp hnone, hordered⟩, tail, rfl, hstart, hedge⟩
        · rintro ⟨⟨hnone, hordered⟩, tail, rfl, hstart, hedge⟩
          rw [List.filterMap_eq_nil_iff.mpr hnone, List.nil_append]
          exact ⟨hedge, hordered, tail, rfl, hstart, fun _ => hedge⟩

theorem found_iff (items : List Item) (value : List UInt16) :
    Found (items.map (Item.demand byLine)) value ↔ Ordered items ∧
      ∃ before tail, value = before.reverse ++ (items.filterMap Item.unit? ++ tail) ∧
        (.begins ∈ items → AtEdge byLine before) ∧ (.ends ∈ items → AtEdge byLine tail) := by
  simp only [Found, met_iff]
  constructor
  · rintro ⟨before, after, rfl, hordered, tail, rfl, hedges⟩
    exact ⟨hordered, before, tail, rfl, hedges⟩
  · rintro ⟨hordered, before, tail, rfl, hedges⟩
    exact ⟨before, _, rfl, hordered, tail, rfl, hedges⟩

theorem atEdge_false_iff : AtEdge false side ↔ side = [] := by simp [AtEdge]

theorem AtEdge.of_input (h : AtEdge false side) : AtEdge true side := .inl (atEdge_false_iff.mp h)

theorem atEdge_lineFeed : AtEdge true [0x0A] := .inr ⟨rfl, 0x0A, [], rfl, by decide⟩

theorem eq_nil_of_lineFeed_append {units tail : List UInt16} (hunits : ∀ u ∈ units, endsLine u = false)
    (h : 0x0A :: units = units ++ tail) : units = [] := by
  cases units with
  | nil => rfl
  | cons u units =>
    obtain ⟨rfl, -⟩ := List.cons.inj h
    exact absurd (hunits _ List.mem_cons_self) (by decide)

/-- The units of items on lines of their own, as far as an anchor asks for an edge. -/
def framed (items : List Item) : List UInt16 :=
  (if .begins ∈ items then [0x0A] else [])
    ++ (items.filterMap Item.unit? ++ if .ends ∈ items then [0x0A] else [])

theorem found_framed (h : Ordered items) : Found (items.map (Item.demand true)) (framed items) := by
  rw [found_iff]
  refine ⟨h, if .begins ∈ items then [0x0A] else [], if .ends ∈ items then [0x0A] else [], ?_, ?_, ?_⟩
  · rw [framed]
    split <;> rfl
  · intro hbegins
    rw [if_pos hbegins]
    exact atEdge_lineFeed
  · intro hends
    rw [if_pos hends]
    exact atEdge_lineFeed

theorem Item.eq_of_unit?_eq_none (h : i.unit? = none) : i = .begins ∨ i = .ends := by
  cases i with
  | letter | sign => cases h
  | begins => exact .inl rfl
  | ends => exact .inr rfl

theorem not_found_framed (h : TellsLines items) : ¬Found (items.map (Item.demand false)) (framed items) := by
  rw [found_iff]
  rintro ⟨-, before, tail, hvalue, hstart, hstop⟩
  simp only [atEdge_false_iff] at hstart hstop
  have hunits : ∀ u ∈ items.filterMap Item.unit?, endsLine u = false := by
    intro u hu
    obtain ⟨i, -, hi⟩ := List.mem_filterMap.mp hu
    exact Item.endsLine_unit? hi
  rw [framed] at hvalue
  by_cases hbegins : .begins ∈ items
  · obtain rfl := hstart hbegins
    by_cases hends : .ends ∈ items
    · -- the line feeds on both sides are too much
      obtain rfl := hstop hends
      have hlength := congrArg List.length hvalue
      simp [hbegins, hends] at hlength
      omega
    · rw [if_pos hbegins, if_neg hends, List.append_nil] at hvalue
      have hnil := eq_nil_of_lineFeed_append hunits hvalue
      obtain ⟨i, hi, hne⟩ := h.not_begins
      rcases Item.eq_of_unit?_eq_none (List.filterMap_eq_nil_iff.mp hnil i hi) with rfl | rfl
      · exact hne rfl
      · exact hends hi
  · have hends := h.anchored.resolve_left hbegins
    obtain rfl := hstop hends
    rw [if_neg hbegins, if_pos hends, List.nil_append, List.append_nil] at hvalue
    -- backwards this is the same as before
    have hback := congrArg List.reverse hvalue
    rw [List.reverse_append, List.reverse_append, List.reverse_reverse, List.reverse_singleton,
      List.singleton_append] at hback
    have hnil := eq_nil_of_lineFeed_append (fun u hu => hunits u (List.mem_reverse.mp hu)) hback
    rw [List.reverse_eq_nil_iff] at hnil
    obtain ⟨i, hi, hne⟩ := h.not_ends
    rcases Item.eq_of_unit?_eq_none (List.filterMap_eq_nil_iff.mp hnil i hi) with rfl | rfl
    · exact hbegins hi
    · exact hne rfl

theorem filterMap_unit?_eq_nil {anchor : Item} (hanchor : anchor.unit? = none)
    (h : ∀ i ∈ items, i = anchor) : items.filterMap Item.unit? = [] :=
  List.filterMap_eq_nil_iff.mpr fun i hi => by rw [h i hi, hanchor]

/-- Looking by line finds items where looking at the whole input does not, or finds them nowhere, but
for items that tell lines. -/
theorem found_byLine_iff (items : List Item) :
    (∀ value, Found (items.map (Item.demand false)) value ↔ Found (items.map (Item.demand true)) value) ↔
      ¬TellsLines items := by
  constructor
  · intro hsame htells
    exact not_found_framed htells ((hsame _).mpr (found_framed htells.ordered))
  · intro hnot value
    rw [found_iff, found_iff]
    constructor
    · rintro ⟨hordered, before, tail, rfl, hstart, hstop⟩
      exact ⟨hordered, before, tail, rfl, fun h => (hstart h).of_input, fun h => (hstop h).of_input⟩
    · rintro ⟨hordered, before, tail, rfl, hstart, hstop⟩
      refine ⟨hordered, ?_⟩
      -- if the host did not find them, the items would tell lines
      by_contra hnone
      refine hnot ⟨hordered, ?_, ?_, ?_⟩
      · by_contra hfree
        obtain ⟨hbegins, hends⟩ := not_or.mp hfree
        exact hnone ⟨before, tail, rfl, fun h => absurd h hbegins, fun h => absurd h hends⟩
      · by_contra hall
        have hall : ∀ i ∈ items, i = .begins := by simpa using hall
        have hnil := filterMap_unit?_eq_nil rfl hall
        refine hnone ⟨[], before.reverse ++ tail, ?_, fun _ => atEdge_nil, fun h => ?_⟩
        · rw [hnil]
          rfl
        · cases hall _ h
      · by_contra hall
        have hall : ∀ i ∈ items, i = .ends := by simpa using hall
        have hnil := filterMap_unit?_eq_nil rfl hall
        refine hnone ⟨tail.reverse ++ before, [], ?_, fun h => ?_, fun _ => atEdge_nil⟩
        · simp [hnil]
        · cases hall _ h

theorem step_letter {c : Char} (h : c.isAlpha = true) (rest : List Char) :
    step (.plain .outside) c rest = .ok ([c], .plain .outside) := by
  obtain ⟨hspecial, hend, -⟩ := isSpecial_of_isAlpha h
  simp only [isSpecial, decide_eq_false_iff_not, List.mem_cons, List.not_mem_nil, or_false, not_or] at hspecial
  simp [step, stepOutside, kept, hend, hspecial]

theorem stepEscaped_sign {c : Char} (h : isSpecial c = true) :
    stepEscaped .outside c = .ok (['\\', c], .plain .outside) :=
  of_decide_eq_true
    (forall_isSpecial (p := fun c => stepEscaped .outside c = .ok (['\\', c], .plain .outside)) (by decide) h)

theorem read_escape {c : Char} {written : List Char} (h : stepEscaped .outside c = .ok (written, .plain .outside))
    (rest : List Char) :
    bodyFrom (.plain .outside) ('\\' :: c :: rest) = (written ++ ·) <$> bodyFrom (.plain .outside) rest ∧
      finalFrom (.plain .outside) ('\\' :: c :: rest) = finalFrom (.plain .outside) rest := by
  have hfirst : step (.plain .outside) '\\' (c :: rest) = .ok ([], .escaped .outside) := rfl
  have hsecond : step (.escaped .outside) c rest = .ok (written, .plain .outside) := h
  constructor
  · rw [bodyFrom_of_step hfirst, bodyFrom_of_step hsecond]
    simp
  · rw [finalFrom_of_step hfirst, finalFrom_of_step hsecond]

theorem read_source (i : Item) (rest : List Char) :
    bodyFrom (.plain .outside) (i.source ++ rest) = (i.written ++ ·) <$> bodyFrom (.plain .outside) rest ∧
      finalFrom (.plain .outside) (i.source ++ rest) = finalFrom (.plain .outside) rest := by
  cases i with
  | letter c h =>
    exact ⟨bodyFrom_of_step (step_letter h rest), finalFrom_of_step (step_letter h rest)⟩
  | sign c h => exact read_escape (stepEscaped_sign h) rest
  | begins => exact read_escape rfl rest
  | ends => exact read_escape rfl rest

theorem body_items (items : List Item) :
    body (items.flatMap Item.source) = .ok (items.flatMap Item.written) := by
  rw [body]
  induction items with
  | nil => rfl
  | cons i items ih =>
    rw [List.flatMap_cons, (read_source i _).1, ih]
    rfl

theorem closes_items (items : List Item) (multiline : Bool) : (ofItems items multiline).closes = true := by
  rw [closes, ofItems, String.toList_ofList]
  induction items with
  | nil => rfl
  | cons i items ih =>
    rw [List.flatMap_cons, (read_source i _).2]
    exact ih

theorem demands?_written (items : List Item) :
    demands? byLine (items.flatMap Item.written) = some (items.map (Item.demand byLine)) := by
  induction items with
  | nil => rfl
  | cons i items ih =>
    rw [List.flatMap_cons, List.map_cons]
    cases i with
    | letter c h =>
      have hspecial := (isSpecial_of_isAlpha h).1
      simp only [isSpecial, decide_eq_false_iff_not, List.mem_cons, List.not_mem_nil, or_false,
        not_or] at hspecial
      rw [Item.written, List.singleton_append, demands?.eq_def]
      simp [Item.demand, hspecial, h, ih]
    | sign c h => simp [Item.written, Item.demand, demands?, h, ih]
    | begins =>
      rw [Item.written, List.singleton_append, demands?.eq_def]
      simp [Item.demand, ih]
    | ends =>
      rw [Item.written, List.singleton_append, demands?.eq_def]
      simp [Item.demand, ih]

theorem head?_written_ne (items : List Item) : (items.flatMap Item.written).head? ≠ some '*' := by
  cases items with
  | nil => simp
  | cons i items =>
    cases i with
    | letter c h =>
      simp only [List.flatMap_cons, Item.written, List.singleton_append, List.head?_cons, ne_eq,
        Option.some.injEq]
      rintro rfl
      exact absurd h (by decide)
    | sign | begins | ends => simp [Item.written]

theorem body_source_ofItems (items : List Item) (multiline : Bool) :
    body (ofItems items multiline).source.toList = .ok (items.flatMap Item.written) := by
  rw [ofItems, String.toList_ofList, body_items]

theorem literal_items (items : List Item) (multiline : Bool) (directive : String) :
    (ofItems items multiline).literal directive = .ok (String.ofList ('/' ::
      (items.flatMap Item.written ++ '/' :: modeLetters (ofItems items multiline).modes))) := by
  rw [Pattern.literal, literalChars, body_source_ofItems]
  rfl

theorem token_demands? (items : List Item) (multiline : Bool) :
    Token.demands? ⟨items.flatMap Item.written, modeLetters (ofItems items multiline).modes⟩ =
      some (items.map (Item.demand multiline)) := by
  cases multiline with
  | false => exact demands?_written items
  | true => exact demands?_written items

theorem isToken_items {multiline : Bool} {directive literal : String} (hitems : items ≠ [])
    (h : (ofItems items multiline).literal directive = .ok literal) :
    IsToken literal ⟨items.flatMap Item.written, modeLetters (ofItems items multiline).modes⟩ := by
  obtain ⟨written, hbody, -, htoken⟩ := isToken_literal_iff h
  obtain rfl : items.flatMap Item.written = written :=
    Except.ok.inj ((body_source_ofItems items multiline).symm.trans hbody)
  apply htoken.mpr
  refine ⟨?_, head?_written_ne items, closes_items items multiline⟩
  rw [ne_eq, List.flatMap_eq_nil_iff]
  obtain ⟨i, hi⟩ := List.exists_mem_of_ne_nil items hitems
  intro hnil
  have hwritten := hnil i hi
  cases i <;> cases hwritten

/-- A search with the literal of items looks for them, by line in the multiline mode. Without items
there is no literal. -/
theorem foundByLiteral_iff {multiline : Bool} {directive literal : String}
    (h : (ofItems items multiline).literal directive = .ok literal) (value : List UInt16) :
    FoundByLiteral literal value ↔ items ≠ [] ∧ Found (items.map (Item.demand multiline)) value := by
  constructor
  · rintro ⟨t, demands, ht, hdemands, hfound⟩
    have hitems : items ≠ [] := by
      rintro rfl
      -- two slashes begin a comment
      obtain rfl := Except.ok.inj ((literal_items [] multiline directive).symm.trans h)
      have hnone := ht.2 []
      rw [String.toList_ofList] at hnone
      cases hnone
    have hown := isToken_items hitems h
    obtain rfl := congrArg Prod.fst (Option.some.inj ((ht.2 []).symm.trans (hown.2 [])))
    rw [token_demands?, Option.some.injEq] at hdemands
    exact ⟨hitems, hdemands ▸ hfound⟩
  · rintro ⟨hitems, hfound⟩
    exact ⟨_, _, isToken_items hitems h, token_demands? items multiline, hfound⟩

/-- The host and the literal find the same values exactly when there is an item and, in the multiline
mode, the items do not tell lines. -/
theorem anchors_kept_iff (items : List Item) (multiline : Bool) (directive : String) : ∃ literal,
    (ofItems items multiline).literal directive = .ok literal ∧
      ((∀ value, FoundByHost items value ↔ FoundByLiteral literal value) ↔
        items ≠ [] ∧ (multiline = true → ¬TellsLines items)) := by
  refine ⟨_, literal_items items multiline directive, ?_⟩
  simp only [foundByLiteral_iff (literal_items items multiline directive), FoundByHost]
  by_cases hitems : items = []
  · -- nothing is found everywhere, but there is no literal for it
    subst hitems
    have hfound : Found [] [] := ⟨[], [], rfl, trivial⟩
    simpa using ⟨[], hfound⟩
  · simp only [ne_eq, hitems, not_false_eq_true, true_and]
    cases multiline with
    | false => simp
    | true => simpa using found_byLine_iff items

end Items

/-- In the multiline mode an `\A` is written as `^`, which finds an `a` behind a line feed. -/
theorem start_found_behind_lineFeed :
    let items := [.begins, .letter 'a' (by decide)]
    (ofItems items true).source = "\\Aa" ∧ (ofItems items true).literal "filterName" = .ok "/^a/m" ∧
      FoundByLiteral "/^a/m" [0x0A, 0x61] ∧ ¬FoundByHost items [0x0A, 0x61] := by
  intro items
  have hliteral : (ofItems items true).literal "filterName" = .ok "/^a/m" :=
    literal_items items true "filterName"
  have hfound : Found (items.map (Item.demand true)) [0x0A, 0x61] :=
    ⟨[0x0A], [0x61], rfl, atEdge_lineFeed, [], rfl, trivial⟩
  refine ⟨rfl, hliteral, (foundByLiteral_iff hliteral _).mpr ⟨List.cons_ne_nil _ _, hfound⟩, ?_⟩
  rintro ⟨before, after, hvalue, hedge, behind, rfl, -⟩
  rw [atEdge_false_iff.mp hedge] at hvalue
  cases hvalue

end Autoescape.Pattern
