import Autoescape.Proofs.BlockNames
import Autoescape.Proofs.Labels

/-!
# The symbols of a block

A symbol tells what it stands for: helpers end otherwise than all other symbols, and these begin
otherwise for each kind. So symbols differ as soon as the names of the directives and the labels of
each kind do, and what a helper refers to is assigned once, before the helper.
-/
namespace Autoescape

namespace Block

inductive Kind where
  | helper
  | table
  | replacer
  | matcher
  | filter
  | tagPattern
  | openPattern
  | safeTags
deriving DecidableEq

namespace Kind

def front : Kind → String
  | .helper => ""
  | .table => "ESCAPE_MAP_FOR_"
  | .replacer => "REPLACER_FOR_"
  | .matcher => "MATCHER_FOR_"
  | .filter => "FILTER_FOR_"
  | .tagPattern => "HTML_TAG_REGEX"
  | .openPattern => "LT_REGEX"
  | .safeTags => "SAFE_TAG_WHITELIST"

def back : Kind → String
  | .helper => "Helper"
  | _ => "_"

def initial : Kind → Option Char
  | .helper => none
  | .table => some 'E'
  | .replacer => some 'R'
  | .matcher => some 'M'
  | .filter => some 'F'
  | .tagPattern => some 'H'
  | .openPattern => some 'L'
  | .safeTags => some 'S'

theorem initial_injective : Function.Injective initial := by
  intro k k' h
  cases k <;> cases k' <;> first | rfl | simp [initial] at h

end Kind

/-- What a symbol stands for: its kind, with the name of a directive or a label where there is one. -/
structure Subject where
  kind : Kind
  name : String
deriving DecidableEq

def Subject.symbol (s : Subject) : String := s.kind.front ++ s.name ++ s.kind.back

/-- The kind that a symbol has by its last and its first letter. -/
def initialOf (symbol : String) : Option Char :=
  if symbol.toList.getLast? = some 'r' then none else symbol.toList.head?

theorem initialOf_symbol (s : Subject) : initialOf s.symbol = s.kind.initial := by
  rcases s with ⟨kind, name⟩
  cases kind <;>
    simp [initialOf, Subject.symbol, Kind.initial, Kind.front, Kind.back, List.getLast?_cons]

theorem Subject.symbol_injective : Function.Injective symbol := by
  rintro ⟨kind, name⟩ ⟨kind', name'⟩ h
  have hkind : kind = kind' := by
    apply Kind.initial_injective
    rw [← initialOf_symbol ⟨kind, name⟩, h, initialOf_symbol]
  subst hkind
  simpa [symbol] using h

def Statement.subject : Statement → Subject
  | .forwarding f => ⟨.helper, f.directive⟩
  | .table label _ => ⟨.table, label⟩
  | .replacer label => ⟨.replacer, label⟩
  | .matcher label _ => ⟨.matcher, label⟩
  | .filter label _ => ⟨.filter, label⟩
  | .helper directive _ _ => ⟨.helper, directive⟩
  | .tagPattern => ⟨.tagPattern, ""⟩
  | .openPattern => ⟨.openPattern, ""⟩
  | .safeTags => ⟨.safeTags, ""⟩

theorem Statement.symbol_subject (s : Statement) : s.subject.symbol = s.symbol := by
  cases s with
  | forwarding f => exact congrArg (· ++ "Helper") (String.empty_append)
  | helper directive check replacing => exact congrArg (· ++ "Helper") (String.empty_append)
  | _ => rfl

/-- The symbol that a line assigns: it stands between the namespace and a blank. -/
def assigned? (line : String) : Option String :=
  if scope.toList.isPrefixOf line.toList then
    some (String.ofList ((line.toList.drop scope.toList.length).takeWhile (· ≠ ' ')))
  else none

def assigned (text : String) : List String :=
  ((Text.Line.lines text.toList).map String.ofList).filterMap assigned?

theorem assigned?_eq_none {line : String} (h : Aside line) : assigned? line = none := by
  apply if_neg
  intro hscope
  rcases List.isPrefixOf_iff_prefix.mp hscope with ⟨rest, hrest⟩
  rw [Aside, ← hrest] at h
  exact Bool.false_ne_true h

theorem assigned?_assignment {symbol : String} (h : ' ' ∉ symbol.toList) (rest : String) :
    assigned? (scope ++ symbol ++ " = " ++ rest) = some symbol := by
  have hblank : ∀ c ∈ symbol.toList, (decide (c ≠ ' ')) = true := by
    intro c hc
    rw [decide_eq_true_eq]
    rintro rfl
    exact h hc
  have htext : (scope ++ symbol ++ " = " ++ rest).toList =
      scope.toList ++ (symbol.toList ++ ' ' :: ('=' :: ' ' :: rest.toList)) := by simp
  rw [assigned?, htext, if_pos (List.isPrefixOf_iff_prefix.mpr (List.prefix_append _ _)), List.drop_left,
    List.takeWhile_append_of_pos hblank, List.takeWhile_cons_of_neg (by simp), List.append_nil,
    String.ofList_toList]

namespace Statement

variable {s : Statement}

theorem plain_symbol (h : s.Named) : Plain s.symbol := by
  cases s with
  | forwarding f => exact h.1.append (.ofList (by decide))
  | helper directive check replacing => exact h.1.append (.ofList (by decide))
  | table label t => exact .append (.append (.ofList (by decide)) h) (.ofList (by decide))
  | replacer label => exact .append (.append (.ofList (by decide)) h) (.ofList (by decide))
  | matcher label literal => exact .append (.append (.ofList (by decide)) h.1) (.ofList (by decide))
  | filter label literal => exact .append (.append (.ofList (by decide)) h.1) (.ofList (by decide))
  | tagPattern | openPattern | safeTags => exact .ofList (by decide)

theorem filterMap_assigned?_lines (h : s.Named) : s.lines.filterMap assigned? = [s.symbol] := by
  have hcomment : s.comment.filterMap assigned? = [] := by
    rw [List.filterMap_eq_nil_iff]
    intro line hline
    exact assigned?_eq_none (inner_comment h.oneLine line hline).aside
  have hvalue : s.value.2.filterMap assigned? = [] := by
    rw [List.filterMap_eq_nil_iff]
    intro line hline
    exact assigned?_eq_none (inner_value h.oneLine line hline).aside
  have hempty : assigned? "" = none := by decide
  have hopen : assigned? "/**" = none := assigned?_eq_none (.ofList rfl)
  have hclose : assigned? " */" = none := assigned?_eq_none (.ofList rfl)
  have hsymbol := assigned?_assignment (plain_symbol h).blank_notMem s.value.1
  rw [lines, List.filterMap_cons_none hempty, List.filterMap_cons_none hopen, List.filterMap_append,
    List.filterMap_append, hcomment, hvalue, List.filterMap_cons_none hclose,
    List.filterMap_cons_some hsymbol]
  rfl

end Statement

theorem assigned_textOfLines {statements : List Statement} (h : ∀ s ∈ statements, s.Named) :
    assigned (Plan.textOfLines (Plan.blockLines statements)) = statements.map Statement.symbol := by
  have hlines : (Text.Line.lines (Plan.textOfLines (Plan.blockLines statements)).toList).map String.ofList =
      Plan.blockLines statements := by
    rw [lines_textOfLines fun s hs => (h s hs).oneLine, List.map_map]
    exact (List.map_congr_left fun line _ => String.ofList_toList).trans (List.map_id _)
  have hstatements : (statements.flatMap Statement.lines).filterMap assigned? =
      statements.map Statement.symbol := by
    rw [List.filterMap_flatMap, ← List.flatMap_pure_eq_map]
    exact List.flatMap_congr fun s hs => Statement.filterMap_assigned?_lines (h s hs)
  have hstart : assigned? startMarker = none := assigned?_eq_none (.ofList rfl)
  have hempty : assigned? "" = none := by decide
  have hend : assigned? endMarker = none := assigned?_eq_none (.ofList rfl)
  rw [assigned, hlines, Plan.blockLines, List.filterMap_cons_none hstart, List.filterMap_append,
    hstatements, List.filterMap_cons_none hempty, List.filterMap_cons_none hend, List.filterMap_nil,
    List.append_nil]

/-- A statement is the only one that assigns its symbol, and it stands before another one. -/
structure AssignedBefore (statements : List Statement) (user s : Statement) : Prop where
  once : statements.filter (·.symbol = s.symbol) = [s]
  before : [s, user].Sublist statements

theorem filter_symbol_eq {statements : List Statement} {s : Statement}
    (hnodup : (statements.map Statement.symbol).Nodup) (hs : s ∈ statements) :
    statements.filter (·.symbol = s.symbol) = [s] := by
  induction statements with
  | nil => simp at hs
  | cons first rest ih =>
    rw [List.map_cons, List.nodup_cons] at hnodup
    rcases List.mem_cons.mp hs with rfl | hs
    · have hrest : rest.filter (·.symbol = s.symbol) = [] := by
        rw [List.filter_eq_nil_iff]
        intro t ht heq
        exact hnodup.1 (of_decide_eq_true heq ▸ List.mem_map_of_mem ht)
      rw [List.filter_cons_of_pos (by simp), hrest]
    · have hne : first.symbol ≠ s.symbol := fun heq => hnodup.1 (heq ▸ List.mem_map_of_mem hs)
      rw [List.filter_cons_of_neg (by simpa using hne), ih hnodup.2 hs]

end Block

namespace Plan
open Block

variable {available : String → Bool} {directives : List Directive} {p : Plan} {r : Resources}
  {reports : Bool} {statements : List Statement}

def resourceSubjects (r : Resources) : List Subject :=
  r.tables.flatMap (fun s => [⟨.table, s.label⟩, ⟨.replacer, s.label⟩])
    ++ r.matchers.map (fun s => ⟨.matcher, s.label⟩) ++ r.filters.map fun s => ⟨.filter, s.label⟩

def constantSubjects : List Subject := [⟨.tagPattern, ""⟩, ⟨.openPattern, ""⟩, ⟨.safeTags, ""⟩]

theorem subjects_resourceStatements (r : Resources) :
    (resourceStatements r).map Statement.subject = resourceSubjects r := by
  simp [resourceStatements, resourceSubjects, Statement.subject, List.map_flatMap, Function.comp_def]

theorem kind_resourceSubjects {k : Subject} (h : k ∈ resourceSubjects r) :
    k.kind ∈ [Kind.table, .replacer, .matcher, .filter] := by
  simp only [resourceSubjects, List.mem_append, List.mem_flatMap, List.mem_map, List.mem_pair] at h
  rcases h with (⟨s, -, rfl | rfl⟩ | ⟨m, -, rfl⟩) | ⟨f, -, rfl⟩ <;> simp

theorem nodup_map_subject {α : Type} {pool : Pool α} (kind : Kind) (h : (pool.map Shared.label).Nodup) :
    (pool.map fun s => (⟨kind, s.label⟩ : Subject)).Nodup := by
  rw [List.Nodup, List.pairwise_map] at h ⊢
  exact h.imp fun hne heq => hne (Subject.mk.inj heq).2

theorem nodup_append_of_kind {l l' : List Subject} (hl : l.Nodup) (hl' : l'.Nodup)
    (h : ∀ k ∈ l, ∀ k' ∈ l', k.kind ≠ k'.kind) : (l ++ l').Nodup :=
  List.nodup_append.mpr ⟨hl, hl', fun k hk k' hk' heq => h k hk k' hk' (congrArg Subject.kind heq)⟩

theorem nodup_resourceSubjects (h : Labelled r) : (resourceSubjects r).Nodup := by
  have htables : (r.tables.flatMap fun s => [(⟨.table, s.label⟩ : Subject), ⟨.replacer, s.label⟩]).Nodup := by
    refine List.nodup_flatMap.mpr ⟨fun s _ => by simp, ?_⟩
    refine (List.pairwise_map.mp h.tables).imp fun hne => ?_
    simp [List.Disjoint, hne, hne.symm]
  refine nodup_append_of_kind (nodup_append_of_kind htables (nodup_map_subject _ h.matchers) ?_)
    (nodup_map_subject _ h.filters) ?_
  · simp only [List.mem_flatMap, List.mem_map, List.mem_pair]
    rintro _ ⟨s, -, rfl | rfl⟩ _ ⟨m, -, rfl⟩ <;> simp
  · simp only [List.mem_append, List.mem_flatMap, List.mem_map, List.mem_pair]
    rintro _ (⟨s, -, rfl | rfl⟩ | ⟨m, -, rfl⟩) _ ⟨f, -, rfl⟩ <;> simp

theorem subjects_helpers {helpers : List Statement}
    (h : p.wirings.mapM (p.helperStatement? reports) = some helpers) :
    helpers.map Statement.subject = p.wirings.map fun w => ⟨.helper, w.directive⟩ := by
  refine (map_eq_map_of_forall₂ (Option.forall₂_of_mapM h) fun w s hs => ?_).symm
  rcases helperStatement?_eq_some.mp hs with ⟨check, -, replacing, -, rfl⟩
  rfl

/-- What the symbols of a block stand for: first all helpers, then the resources and the constants. -/
theorem subjects_perm (h : p.statements? reports = some statements) :
    (statements.map Statement.subject).Perm
      ((p.helpers.map Helper.directive).map (Subject.mk .helper) ++ resourceSubjects p.resources
        ++ constantSubjects) := by
  rcases statements?_eq_some.mp h with ⟨helpers, hmapM, rfl⟩
  have hforwardings : (p.forwardings.map Statement.forwarding).map Statement.subject =
      (p.forwardings.map (·.directive)).map (Subject.mk .helper) := by
    simp [Statement.subject, Function.comp_def]
  have hwirings : helpers.map Statement.subject =
      (p.wirings.map (·.directive)).map (Subject.mk .helper) := by
    rw [subjects_helpers hmapM, List.map_map]
    rfl
  rw [List.map_append, List.map_append, List.map_append, hforwardings, hwirings,
    subjects_resourceStatements]
  refine .append_right _ ?_
  calc
    _ = (p.forwardings.map (·.directive)).map (Subject.mk .helper)
        ++ (resourceSubjects p.resources ++ (p.wirings.map (·.directive)).map (Subject.mk .helper)) :=
      List.append_assoc ..
    _ |>.Perm ((p.forwardings.map (·.directive)).map (Subject.mk .helper)
        ++ ((p.wirings.map (·.directive)).map (Subject.mk .helper) ++ resourceSubjects p.resources)) :=
      .append_left _ List.perm_append_comm
    _ = (p.forwardings.map (·.directive) ++ p.wirings.map (·.directive)).map (Subject.mk .helper)
        ++ resourceSubjects p.resources := by simp
    _ |>.Perm _ := .append_right _ ((directives_perm p).map _)

theorem nodup_subjects (hlabelled : Labelled p.resources) (hhelpers : (p.helpers.map Helper.directive).Nodup)
    (h : p.statements? reports = some statements) : (statements.map Statement.subject).Nodup := by
  have hnames : ((p.helpers.map Helper.directive).map (Subject.mk .helper)).Nodup :=
    hhelpers.map fun _ _ heq => (Subject.mk.inj heq).2
  refine (subjects_perm h).nodup_iff.mpr (nodup_append_of_kind (nodup_append_of_kind hnames
    (nodup_resourceSubjects hlabelled) ?_) (by decide) ?_)
  · intro k hk k' hk' heq
    rcases List.mem_map.mp hk with ⟨name, -, rfl⟩
    exact absurd (heq ▸ kind_resourceSubjects hk') (by simp)
  · intro k hk k' hk' heq
    have hconstant : k'.kind ∈ [Kind.tagPattern, .openPattern, .safeTags] := by
      have hall : ∀ k' ∈ constantSubjects, k'.kind ∈ [Kind.tagPattern, .openPattern, .safeTags] := by
        simp [constantSubjects]
      exact hall k' hk'
    rcases List.mem_append.mp hk with hk | hk
    · rcases List.mem_map.mp hk with ⟨name, -, rfl⟩
      exact absurd (heq ▸ hconstant) (by simp)
    · have hkind := kind_resourceSubjects hk
      rw [heq] at hkind
      simp only [List.mem_cons, List.not_mem_nil, or_false] at hkind hconstant
      rcases hconstant with hc | hc | hc <;> simp [hc] at hkind

theorem sublist_flatMap_of_mem {α β : Type} {l : List α} {a : α} (f : α → List β) (h : a ∈ l) :
    (f a).Sublist (l.flatMap f) := by
  rw [List.flatMap_def]
  exact List.sublist_flatten_of_mem (List.mem_map_of_mem h)

/-- What a helper refers to is what its wiring points to: each symbol is assigned once, before the
helper, and by the value at the place in the wiring. The replacer is one of the table at that place. -/
structure Resolves (statements : List Statement) (r : Resources) (reports : Bool) (w : Wiring)
    (check : Option Check) (replacing : Option Replacing) : Prop where
  filter : (w.filter = none ∧ check = none) ∨ ∃ i s, w.filter = some i ∧ r.filters[i]? = some s ∧
    check = some ⟨s.label, w.innocuous, reports⟩ ∧
    AssignedBefore statements (.helper w.directive check replacing) (.filter s.label s.value)
  replacing : (w.table = none ∧ w.matcher = none ∧ replacing = none) ∨ ∃ i j s m,
    w.table = some i ∧ w.matcher = some j ∧ r.tables[i]? = some s ∧ r.matchers[j]? = some m ∧
    replacing = some ⟨m.label, s.label⟩ ∧
    AssignedBefore statements (.helper w.directive check replacing) (.matcher m.label m.value) ∧
    AssignedBefore statements (.helper w.directive check replacing) (.replacer s.label) ∧
    AssignedBefore statements (.replacer s.label) (.table s.label s.value)

/-- In statements that assign each symbol once, every wiring has its helper, and what the helper refers
to is resolved. -/
theorem exists_resolves {w : Wiring} (hnodup : (statements.map Statement.symbol).Nodup)
    (h : p.statements? reports = some statements) (hw : w ∈ p.wirings)
    (hboth : w.table.isSome = w.matcher.isSome) : ∃ check replacing,
      .helper w.directive check replacing ∈ statements ∧
      Resolves statements p.resources reports w check replacing := by
  rcases statements?_eq_some.mp h with ⟨helpers, hmapM, heq⟩
  rcases exists_of_forall₂ (Option.forall₂_of_mapM hmapM).flip hw with ⟨user, huser, hstatement⟩
  rcases helperStatement?_eq_some.mp hstatement with ⟨check, hcheck, replacing, hreplacing, rfl⟩
  have hsublist : (resourceStatements p.resources ++ helpers).Sublist statements := by
    rw [← heq, List.append_assoc _ (resourceStatements _)]
    exact (List.sublist_append_right _ _).trans (List.sublist_append_left _ _)
  -- resources come before helpers
  have hbefore {s : Statement} (hs : s ∈ resourceStatements p.resources) :
      AssignedBefore statements (.helper w.directive check replacing) s := by
    refine ⟨filter_symbol_eq hnodup (hsublist.subset (List.mem_append_left _ hs)), ?_⟩
    exact ((List.singleton_sublist.mpr hs).append (List.singleton_sublist.mpr huser)).trans hsublist
  refine ⟨check, replacing, hsublist.subset (List.mem_append_right _ huser), ⟨?_, ?_⟩⟩
  · rcases check?_eq_some.mp hcheck with ⟨hnone, rfl⟩ | ⟨i, hi, s, hs, rfl⟩
    · exact .inl ⟨hnone, rfl⟩
    · refine .inr ⟨i, s, hi, hs, rfl, hbefore ?_⟩
      exact List.mem_append_right _ (List.mem_map.mpr ⟨s, List.mem_of_getElem? hs, rfl⟩)
  · rcases (replacing?_eq_some hboth).mp hreplacing with ⟨htable, hmatcher, rfl⟩ | ⟨i, j, hi, hj, s, hs, m, hm, rfl⟩
    · exact .inl ⟨htable, hmatcher, rfl⟩
    · have hmatcher : Statement.matcher m.label m.value ∈ resourceStatements p.resources :=
        List.mem_append_left _ (List.mem_append_right _ (List.mem_map.mpr ⟨m, List.mem_of_getElem? hm, rfl⟩))
      have htables : [Statement.table s.label s.value, .replacer s.label].Sublist
          (resourceStatements p.resources) :=
        (sublist_flatMap_of_mem (fun s => [Statement.table s.label s.value, .replacer s.label])
          (List.mem_of_getElem? hs)).trans
          ((List.sublist_append_left _ _).trans (List.sublist_append_left _ _))
      have hpair := htables.trans ((List.sublist_append_left _ _).trans hsublist)
      refine .inr ⟨i, j, s, m, hi, hj, hs, hm, rfl, hbefore hmatcher, hbefore (htables.subset (by simp)), ?_⟩
      exact ⟨filter_symbol_eq hnodup (hpair.subset (by simp)), hpair⟩

end Plan

end Autoescape
