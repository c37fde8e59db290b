import Autoescape.Availability.Basic
import Autoescape.Proofs.Except
import Autoescape.Proofs.Regex

/-!
# What a glob stands for

The expression of a glob is written piece by piece (`Glob.expression_eq_text`), and what it matches is
told by its parts: a whole name, cut into the pieces of the glob and a word for each star.
-/
namespace Autoescape.Availability
open Regex

namespace Glob

variable {before mid after : List Char} {first : String} {rest : List String} {glob : String}

/-- The pieces of a glob between its stars form the name, with a word in the place of each star. -/
def Forms (glob name : List Char) : Prop :=
  ∃ first rest words, glob.splitOn '*' = first :: rest ∧ words.length = rest.length ∧
    (∀ w ∈ words, IsWord w) ∧ name = first ++ (List.zipWith (· ++ ·) words rest).flatten

/-! ### The expression of a glob -/

def joined : List String → Expr
  | [] => .literal ""
  | [piece] => .literal piece
  | piece :: next :: rest => .append (.literal piece) (.append .word (joined (next :: rest)))

def expr (glob : String) : Expr :=
  .append .start (.append (.group (joined ((glob.toList.splitOn '*').map String.ofList))) .finish)

theorem text_joined [Engine] (first : String) (rest : List String) :
    (joined (first :: rest)).text = word.intercalate ((first :: rest).map Engine.escape) := by
  induction rest generalizing first with
  | nil => simp [joined, Expr.text]
  | cons next rest ih =>
    change Engine.escape first ++ (word ++ (joined (next :: rest)).text) = _
    rw [ih, List.map_cons, List.map_cons, List.map_cons, String.intercalate_cons_cons, String.append_assoc]

theorem expression_eq_text [Engine] (glob : String) : expression glob = (expr glob).text := by
  obtain ⟨first, rest, hpieces⟩ := List.exists_cons_of_ne_nil (List.splitOn_ne_nil '*' glob.toList)
  have hends : "^(?:" = "^" ++ "(?:" ∧ ")$" = ")" ++ "$" := by decide
  simp only [expression, expr, hpieces, Expr.text, List.map_cons, text_joined, hends, String.append_assoc]

theorem depth_joined (pieces : List String) : (joined pieces).depth ≤ 4 := by
  induction pieces using joined.induct with
  | case1 => simp [joined, Expr.depth]
  | case2 piece => simp [joined, Expr.depth]
  | case3 piece next rest ih => simpa [joined, Expr.depth] using ih

theorem depth_expr (glob : String) : (expr glob).depth ≤ nestLimit := by
  have hjoined := depth_joined ((glob.toList.splitOn '*').map String.ofList)
  simp only [expr, Expr.depth, nestLimit]
  omega

/-! ### What it matches -/

theorem matches_joined : (joined (first :: rest)).Matches before mid after ↔
    ∃ words : List (List Char), words.length = rest.length ∧ (∀ w ∈ words, IsWord w) ∧
      mid = first.toList ++ (List.zipWith (· ++ ·) words (rest.map String.toList)).flatten := by
  induction rest generalizing first before mid with
  | nil => simp [joined, Expr.Matches]
  | cons next rest ih =>
    simp only [joined, Expr.Matches, ih]
    constructor
    · rintro ⟨_, _, rfl, rfl, w, _, rfl, hw, words, hlength, hwords, rfl⟩
      exact ⟨w :: words, by simpa using hlength, List.forall_mem_cons.mpr ⟨hw, hwords⟩, by simp⟩
    · rintro ⟨words, hlength, hwords, rfl⟩
      obtain ⟨w, words, rfl⟩ := List.exists_cons_of_length_eq_add_one hlength
      obtain ⟨hw, hwords⟩ := List.forall_mem_cons.mp hwords
      refine ⟨_, _, rfl, rfl, w, _, ?_, hw, words, by simpa using hlength, hwords, rfl⟩
      simp

/-- The anchors hold at the ends only, so the expression matches whole names. -/
theorem found_expr {name : String} : (expr glob).Found name ↔ Forms glob.toList name.toList := by
  obtain ⟨first, rest, hpieces⟩ := List.exists_cons_of_ne_nil (List.splitOn_ne_nil '*' glob.toList)
  have hwhole : (expr glob).Found name ↔
      (joined ((first :: rest).map String.ofList)).Matches [] name.toList [] := by
    rw [expr, hpieces]
    constructor
    · rintro ⟨_, _, _, hname, _, _, rfl, ⟨rfl, rfl⟩, mid, _, rfl, hmid, rfl, rfl⟩
      simpa [hname, Expr.Matches] using hmid
    · intro h
      refine ⟨[], name.toList, [], (List.append_nil _).symm, [], _, rfl, ⟨rfl, rfl⟩, name.toList, [],
        (List.append_nil _).symm, ?_, rfl, rfl⟩
      simpa [Expr.Matches] using h
  have hrest : (rest.map String.ofList).map String.toList = rest := by simp
  rw [hwhole, List.map_cons, matches_joined, hrest, String.toList_ofList, List.length_map]
  constructor
  · rintro ⟨words, hlength, hwords, hname⟩
    exact ⟨first, rest, words, hpieces, hlength, hwords, hname⟩
  · rintro ⟨_, _, words, hcut, hlength, hwords, hname⟩
    obtain ⟨rfl, rfl⟩ := List.cons.inj (hpieces.symm.trans hcut)
    exact ⟨words, hlength, hwords, hname⟩

/-! ### Taking a glob -/

/-- The glob is not empty, and its expression is not too big for the engine. -/
def Accepted [Engine] (glob : String) : Prop :=
  glob ≠ "" ∧ ∀ limit, Engine.compile (expression glob) ≠ .error (.tooBig limit)

inductive Refused [Engine] : String → Fault → Prop where
  | empty : Refused "" .emptyGlob
  | tooBig {glob : String} {limit : Nat} (hne : glob ≠ "")
    (hbig : Engine.compile (expression glob) = .error (.tooBig limit)) :
    Refused glob (.badGlob glob (.tooBig limit))

theorem not_accepted_of_refused [Engine] {fault : Fault} (h : Refused glob fault) : ¬Accepted glob := by
  rintro ⟨hne, hsmall⟩
  cases h with
  | empty => exact hne rfl
  | tooBig _ hbig => exact hsmall _ hbig

theorem compile_of_ne [Engine] (hne : glob ≠ "") :
    compile glob = (Engine.compile (expr glob).text).mapError (.badGlob glob) := by
  rw [compile, if_neg hne, expression_eq_text]

theorem refused_of_compile [Engine] (hengine : Engine.Documented) {fault : Fault}
    (h : compile glob = .error fault) : Refused glob fault := by
  by_cases hne : glob = ""
  · subst hne
    cases h
    exact .empty
  · rw [compile_of_ne hne] at h
    cases hcompile : Engine.compile (expr glob).text with
    | ok compiled => simp [hcompile, Except.mapError] at h
    | error error =>
      obtain ⟨limit, rfl⟩ := hengine.refused _ _ (depth_expr glob) hcompile
      obtain rfl : Fault.badGlob glob (.tooBig limit) = fault := by simpa [hcompile, Except.mapError] using h
      exact .tooBig hne (by rwa [expression_eq_text])

theorem accepted_of_compile [Engine] {compiled : Compiled} (h : compile glob = .ok compiled) :
    Accepted glob ∧ Engine.compile (expr glob).text = .ok compiled := by
  by_cases hne : glob = ""
  · simp [compile, hne] at h
  · rw [compile_of_ne hne] at h
    cases hcompile : Engine.compile (expr glob).text with
    | error error => simp [hcompile, Except.mapError] at h
    | ok own =>
      obtain rfl : own = compiled := by simpa [hcompile, Except.mapError] using h
      refine ⟨⟨hne, fun limit => ?_⟩, rfl⟩
      rw [expression_eq_text, hcompile]
      nofun

end Glob

variable {globs : List String} {patterns : List Compiled}

theorem ofGlobs_eq_ok [Engine] {a : Availability} :
    ofGlobs globs = .ok a ↔ globs.mapM Glob.compile = .ok a.patterns := by
  rw [ofGlobs, Except.bind_eq_ok]
  constructor
  · rintro ⟨patterns, hpatterns, h⟩
    cases h
    exact hpatterns
  · exact fun h => ⟨_, h, rfl⟩

theorem ofGlobs_eq_error [Engine] {fault : Fault} :
    ofGlobs globs = .error fault ↔ globs.mapM Glob.compile = .error fault := by
  rw [ofGlobs, Except.bind_eq_error]
  constructor
  · rintro (h | ⟨patterns, -, h⟩)
    · exact h
    · cases h
  · exact .inl

theorem any_isMatch [Engine] (hengine : Engine.Documented) {name : String}
    (h : List.Forall₂ (fun glob compiled => Glob.compile glob = .ok compiled) globs patterns) :
    patterns.any (·.isMatch name) = true ↔ ∃ glob ∈ globs, Glob.Forms glob.toList name.toList := by
  induction h with
  | nil => simp
  | @cons glob compiled globs patterns hcompile _ ih =>
    have hmatch := hengine.found _ _ (Glob.accepted_of_compile hcompile).2 name
    rw [Glob.found_expr] at hmatch
    rw [List.any_cons, Bool.or_eq_true, hmatch, ih, List.exists_mem_cons_iff]

/-- Globs are taken exactly when none of them is empty and no expression of theirs is too big for the
engine; otherwise the first one that is says what is wrong. With them a name is available exactly when
it has no dot, or one of the globs forms it: its pieces as they stand, and a word in the place of each
star. -/
theorem available_iff_formed [Engine] (hengine : Engine.Documented) (globs : List String) :
    match ofGlobs globs with
    | .error fault => ∃ before glob after, globs = before ++ glob :: after ∧
        (∀ earlier ∈ before, Glob.Accepted earlier) ∧ ¬Glob.Accepted glob ∧ Glob.Refused glob fault
    | .ok a => (∀ glob ∈ globs, Glob.Accepted glob) ∧ ∀ name, a.has name = true ↔
        '.' ∉ name.toList ∨ ∃ glob ∈ globs, Glob.Forms glob.toList name.toList := by
  cases hglobs : ofGlobs globs with
  | error fault =>
    obtain ⟨before, glob, after, hcut, hbefore, hglob⟩ := Except.mapM_eq_error.mp (ofGlobs_eq_error.mp hglobs)
    have hrefused := Glob.refused_of_compile hengine hglob
    refine ⟨before, glob, after, hcut, fun earlier hearlier => ?_,
      Glob.not_accepted_of_refused hrefused, hrefused⟩
    obtain ⟨compiled, hcompiled⟩ := hbefore earlier hearlier
    exact (Glob.accepted_of_compile hcompiled).1
  | ok a =>
    have hpatterns := Except.forall₂_of_mapM (ofGlobs_eq_ok.mp hglobs)
    refine ⟨fun glob hglob => ?_, fun name => ?_⟩
    · obtain ⟨compiled, hcompiled⟩ := exists_of_forall₂ hpatterns.flip hglob
      exact (Glob.accepted_of_compile hcompiled.2).1
    · rw [has, Bool.or_eq_true, any_isMatch hengine hpatterns]
      simp

/-- A first star that took all it can would leave nothing for the second one. -/
theorem available_iff_formed_for_two_stars :
    ∃ a, ofGlobs ["goog.*an*"] = .ok a ∧ a.has "goog.banana" = true ∧ a.has "goog.an" = false := by
  have hspec := available_iff_formed Automaton.documented ["goog.*an*"]
  obtain ⟨a, ha⟩ : ∃ a, ofGlobs ["goog.*an*"] = .ok a := ⟨_, rfl⟩
  rw [ha] at hspec
  have hforms : Glob.Forms "goog.*an*".toList "goog.banana".toList :=
    ⟨"goog.".toList, ["an".toList, []], ["ban".toList, "a".toList], by decide, rfl,
      by simp [IsWord, wordCharacters], by decide⟩
  refine ⟨a, ha, (hspec.2 _).mpr (.inr ⟨_, .head _, hforms⟩), ?_⟩
  cases ha
  decide +kernel

theorem le_size_characters (text : List Char) (items : List Automaton.Item) :
    32 * text.length ≤ Automaton.size (text.map .character ++ items) := by
  induction text with
  | nil => exact Nat.zero_le _
  | cons c text ih =>
    have hsize : 32 ≤ (Automaton.Item.character c).size := Nat.le_mul_of_pos_right 32 c.utf8Size_pos
    rw [List.map_cons, List.cons_append, Automaton.size_cons, List.length_cons]
    omega

/-- The automaton refuses long globs: a character compiles to 32 bytes or more. -/
theorem ofGlobs_of_long {glob : String} (hstar : '*' ∉ glob.toList)
    (hlong : Automaton.sizeLimit < 32 * glob.toList.length) :
    ofGlobs [glob] = .error (.badGlob glob (.tooBig Automaton.sizeLimit)) := by
  have hne : glob ≠ "" := by
    rintro rfl
    cases hlong
  have hitems : (Glob.expr glob).items = .start :: (glob.toList.map .character ++ [.finish]) := by
    rw [Glob.expr, List.splitOn_eq_singleton hstar]
    simp [Glob.joined, Expr.items]
  have hsize : Automaton.sizeLimit < Automaton.size (Glob.expr glob).items := by
    rw [hitems, Automaton.size_cons]
    exact (hlong.trans_le (le_size_characters _ _)).trans_le (Nat.le_add_left _ _)
  have hcompile : Engine.compile (Glob.expr glob).text = .error (.tooBig Automaton.sizeLimit) :=
    (Automaton.compile_text _).trans (if_pos hsize)
  refine ofGlobs_eq_error.mpr ?_
  rw [List.mapM_cons, Glob.compile_of_ne hne, hcompile]
  rfl

/-- A glob of half a million letters is not empty, and yet it is refused. -/
theorem long_glob_refused :
    let glob := String.ofList (List.replicate 500000 'a')
    "" ∉ [glob] ∧ ofGlobs [glob] = .error (.badGlob glob (.tooBig 10485760)) := by
  intro glob
  have hletters : glob.toList = List.replicate 500000 'a' := String.toList_ofList
  refine ⟨fun h => ?_, ofGlobs_of_long ?_ ?_⟩
  · have hlength := congrArg (fun s => s.toList.length) (List.mem_singleton.mp h)
    rw [hletters, List.length_replicate] at hlength
    exact absurd hlength (by decide)
  · rw [hletters, List.mem_replicate]
    exact fun h => absurd h.2 (by decide)
  · rw [hletters, List.length_replicate]
    decide

end Autoescape.Availability
