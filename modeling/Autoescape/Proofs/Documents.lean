import Autoescape.Proofs.Json.Reader
import Autoescape.Proofs.Json.Record
import Autoescape.Registry

/-!
# Documents of directives

Which documents give an escape, modes, a pattern or a directive, field by field. They are exactly
the documents that are read as it, and every text of one of them is read as it too.
-/
namespace Autoescape

open Json (Field IsRecord IsWritten IsListOf IsOptional Reads)

namespace Escape

/-- The documents of an escape. Both fields have to be there. -/
def Given (e : Escape) : Json → Prop :=
  IsRecord fieldNames
    [.required (IsWritten .char e.plain), .required (IsWritten .text e.escaped)]

theorem reads_ofJson? : Reads ofJson? Given := by
  refine Json.reads_record (by decide) (fun _ => rfl) fun slots e => ?_
  constructor
  · intro h
    split at h
    · simp only [Option.bind_eq_bind, Option.bind_eq_some_iff, Option.pure_def, Option.some.injEq,
        Json.reads_char.required, Json.reads_text.required] at h
      obtain ⟨plain, hplain, escaped, hescaped, rfl⟩ := h
      exact .cons hplain (.cons hescaped .nil)
    · cases h
  · intro h
    simp only [List.forall₂_cons_left_iff, List.forall₂_nil_left_iff, ← Json.reads_char.required,
      ← Json.reads_text.required] at h
    obtain ⟨plain, _, hplain, ⟨escaped, _, hescaped, rfl, rfl⟩, rfl⟩ := h
    simp [hplain, hescaped]

theorem given_toJson (e : Escape) : e.Given e.toJson :=
  Json.isRecord_object [.char e.plain, .text e.escaped] (.cons rfl (.cons rfl .nil))

end Escape

namespace Modes

/-- The documents of modes. Each may be left out while it is off. -/
def Given (m : Modes) : Json → Prop :=
  IsRecord fieldNames
    [.withDefault (IsWritten .bool) false m.caseInsensitive,
      .withDefault (IsWritten .bool) false m.multiline,
      .withDefault (IsWritten .bool) false m.dotAll]

theorem reads_ofJson? : Reads ofJson? Given := by
  refine Json.reads_record (by decide) (fun _ => rfl) fun slots m => ?_
  constructor
  · intro h
    split at h
    · simp only [Option.bind_eq_bind, Option.bind_eq_some_iff, Option.pure_def, Option.some.injEq,
        Json.reads_bool.orElse] at h
      obtain ⟨caseInsensitive, hcase, multiline, hmultiline, dotAll, hdot, rfl⟩ := h
      exact .cons hcase (.cons hmultiline (.cons hdot .nil))
    · cases h
  · intro h
    simp only [List.forall₂_cons_left_iff, List.forall₂_nil_left_iff, ← Json.reads_bool.orElse] at h
    obtain ⟨_, _, hcase, ⟨_, _, hmultiline, ⟨_, _, hdot, rfl, rfl⟩, rfl⟩, rfl⟩ := h
    simp [hcase, hmultiline, hdot]

theorem given_toJson (m : Modes) : m.Given m.toJson :=
  Json.isRecord_object [.bool m.caseInsensitive, .bool m.multiline, .bool m.dotAll]
    (.cons rfl (.cons rfl (.cons rfl .nil)))

end Modes

namespace Pattern

/-- The documents of a pattern. Plain modes may be left out. -/
def Given (p : Pattern) : Json → Prop :=
  IsRecord fieldNames
    [.required (IsWritten .text p.source), .withDefault Modes.Given Modes.plain p.modes]

theorem reads_ofJson? : Reads ofJson? Given := by
  refine Json.reads_record (by decide) (fun _ => rfl) fun slots p => ?_
  constructor
  · intro h
    split at h
    · simp only [Option.bind_eq_bind, Option.bind_eq_some_iff, Option.pure_def, Option.some.injEq,
        Json.reads_text.required, Modes.reads_ofJson?.orElse] at h
      obtain ⟨source, hsource, modes, hmodes, rfl⟩ := h
      exact .cons hsource (.cons hmodes .nil)
    · cases h
  · intro h
    simp only [List.forall₂_cons_left_iff, List.forall₂_nil_left_iff, ← Json.reads_text.required,
      ← Modes.reads_ofJson?.orElse] at h
    obtain ⟨_, _, hsource, ⟨_, _, hmodes, rfl, rfl⟩, rfl⟩ := h
    simp [hsource, hmodes]

theorem given_toJson (p : Pattern) : p.Given p.toJson :=
  Json.isRecord_object [.text p.source, p.modes.toJson]
    (.cons rfl (.cons p.modes.given_toJson .nil))

end Pattern

namespace Directive

/-- The documents of a directive. Everything but the name may be left out while it is empty. -/
def Given (d : Directive) : Json → Prop :=
  IsRecord fieldNames
    [.required (IsWritten .text d.name),
      .withDefault (IsListOf Escape.Given) [] d.escapes,
      .withDefault (IsOptional Pattern.Given) none d.filter,
      .withDefault (IsOptional (IsWritten .text)) none d.nonAsciiLead,
      .withDefault (IsWritten .text) "" d.innocuous,
      .withDefault (IsListOf (IsWritten .text)) [] d.functions]

theorem reads_ofJson? : Reads ofJson? Given := by
  refine Json.reads_record (by decide) (fun _ => rfl) fun slots d => ?_
  have hescapes := Escape.reads_ofJson?.listOf
  have hfilter := Pattern.reads_ofJson?.nullable rfl
  have hlead := Json.reads_text.nullable rfl
  have hfunctions : Reads Json.texts? _ := Json.reads_text.listOf
  constructor
  · intro h
    split at h
    · simp only [Option.bind_eq_bind, Option.bind_eq_some_iff, Option.pure_def, Option.some.injEq,
        Json.reads_text.required, hescapes.orElse, hfilter.orElse, hlead.orElse, Json.reads_text.orElse,
        hfunctions.orElse] at h
      obtain ⟨name, hname, escapes, hescapes, filter, hfilter, lead, hlead, innocuous, hinnocuous,
        functions, hfunctions, rfl⟩ := h
      exact .cons hname (.cons hescapes (.cons hfilter (.cons hlead (.cons hinnocuous
        (.cons hfunctions .nil)))))
    · cases h
  · intro h
    simp only [List.forall₂_cons_left_iff, List.forall₂_nil_left_iff, ← Json.reads_text.required,
      ← hescapes.orElse, ← hfilter.orElse, ← hlead.orElse, ← Json.reads_text.orElse,
      ← hfunctions.orElse] at h
    obtain ⟨_, _, hname, ⟨_, _, hescapes, ⟨_, _, hfilter, ⟨_, _, hlead, ⟨_, _, hinnocuous,
      ⟨_, _, hfunctions, rfl, rfl⟩, rfl⟩, rfl⟩, rfl⟩, rfl⟩, rfl⟩ := h
    simp [hname, hescapes, hfilter, hlead, hinnocuous, hfunctions]

theorem given_toJson (d : Directive) : d.Given d.toJson := by
  have hescapes := Json.isListOf_map Escape.given_toJson d.escapes
  have hfilter := Json.isOptional_optional Pattern.given_toJson d.filter
  have hlead := Json.isOptional_optional (Json.isWritten .text) d.nonAsciiLead
  have hfunctions := Json.isListOf_map (Json.isWritten .text) d.functions
  exact Json.isRecord_object
    [.text d.name, .list (d.escapes.map Escape.toJson), .optional Pattern.toJson d.filter,
      .optional .text d.nonAsciiLead, .text d.innocuous, .texts d.functions]
    (.cons rfl (.cons hescapes (.cons hfilter (.cons hlead (.cons rfl (.cons hfunctions .nil))))))

end Directive

namespace Registry

/-- The documents of a list of directives. -/
def Given : List Directive → Json → Prop := IsListOf Directive.Given

theorem parse?_of_denotes {directives : List Directive} {v : Json} (hv : Given directives v)
    {text : String} (htext : Json.Denotes text v) : parse? text = some directives := by
  rw [parse?, htext.parse?]
  exact (Directive.reads_ofJson?.listOf v directives).mpr hv

/-- Directives survive JSON. Written with every field, they are read back as they were. So is every
text of every other document that gives them: with the fields of any record in another order, without
fields that hold their default, with further fields of any value, or with a record as the list of its
values. No other document is read as these directives. -/
theorem directives_survive_json (directives : List Directive) :
    parse? (Json.render (.list (directives.map Directive.toJson))) = some directives ∧
      (∀ v, Json.listOf Directive.ofJson? v = some directives ↔ Given directives v) ∧
      ∀ v text, Given directives v → Json.Denotes text v → parse? text = some directives := by
  have hwritten : Given directives (.list (directives.map Directive.toJson)) :=
    Json.isListOf_map Directive.given_toJson directives
  exact ⟨parse?_of_denotes hwritten (Json.denotes_render _),
    fun v => Directive.reads_ofJson?.listOf v directives, fun _ _ hv htext => parse?_of_denotes hv htext⟩

/-- Two directives from one text: the first by name with its fields out of order, among them one that
nobody declared, and its name partly in escapes; the second as a list, and so is its escape. -/
theorem directives_survive_json_for_forms :
    let directives := [{ Directive.ofName "|é" with filter := some ⟨"^a", .plain⟩ },
      (Directive.ofName "b").escape '<' "&lt;"]
    let x := ("x", Json.number ⟨true, 1, [], 2⟩)
    let valueFilter := ("valueFilter", Json.object [("pattern", .text "^a")])
    let directiveName := ("directiveName", Json.text "|é")
    let v := Json.list [.object [x, valueFilter, directiveName],
      .list [.text "b", .list [.list [.char '<', .text "&lt;"]]]]
    let text := "[\x7b\"x\": -1E+02, \"valueFilter\":\x7b\"pattern\":\"^a\"\x7d, " ++
      "\"directiveName\":\"\\u007Cé\"\x7d, [\"b\", [[\"<\", \"&lt;\"]]]]\n"
    Given directives v ∧ Json.Denotes text v ∧ parse? text = some directives := by
  intro directives x valueFilter directiveName v text
  have hfilter : Pattern.Given ⟨"^a", .plain⟩ (.object [("pattern", .text "^a")]) :=
    ⟨[some (.text "^a"), none], .cons rfl (.cons rfl .nil), .named (by simp) (.refl ([_] ++ []))⟩
  have hfirst : Directive.Given { Directive.ofName "|é" with filter := some ⟨"^a", .plain⟩ }
      (.object [x, valueFilter, directiveName]) := by
    have hperm : [x, valueFilter, directiveName].Perm ([directiveName, valueFilter] ++ [x]) :=
      List.reverse_perm [directiveName, valueFilter, x]
    exact ⟨[some (.text "|é"), none, some valueFilter.2, none, none, none],
      .cons rfl (.cons rfl (.cons hfilter (.cons rfl (.cons rfl (.cons rfl .nil))))),
      .named (by decide) hperm⟩
  have hescape : Escape.Given ⟨'<', "&lt;"⟩ (.list [.char '<', .text "&lt;"]) :=
    ⟨[some (.char '<'), some (.text "&lt;")], .cons rfl (.cons rfl .nil), .listed _ 0 rfl⟩
  have hsecond : Directive.Given ((Directive.ofName "b").escape '<' "&lt;")
      (.list [.text "b", .list [.list [.char '<', .text "&lt;"]]]) :=
    ⟨[some (.text "b"), some (.list [.list [.char '<', .text "&lt;"]]), none, none, none, none],
      .cons rfl (.cons ⟨_, rfl, .cons hescape .nil⟩ (.cons rfl (.cons rfl (.cons rfl (.cons rfl .nil))))),
      .listed _ 4 rfl⟩
  have hgiven : Given directives v := ⟨_, rfl, .cons hfirst (.cons hsecond .nil)⟩
  have hdenotes : Json.Denotes text v := by
    have hspace {ts : List Json.Token} {s : List Char} (h : Json.Written ts s) : Json.Written ts (' ' :: s) :=
      .blank (by decide) h
    have hbar : List.Forall₂ Json.HexDigit ['0', '0', '7', 'C'] [0, 0, 7, 12] :=
      .cons ⟨by decide, .inl rfl⟩ (.cons ⟨by decide, .inl rfl⟩ (.cons ⟨by decide, .inl rfl⟩
        (.cons ⟨by decide, .inr rfl⟩ .nil)))
    dsimp only [v, text, x, valueFilter, directiveName, Json.Denotes]
    rw [String.toList_append]
    refine .append_flatMap_text [.openList, .openRecord, .string _, .colon] (hspace ?_)
    refine .token (r := ['-', '1', 'E', '+', '0', '2'])
      ⟨_, .present (.inr rfl) (show (['+'], 1) ∈ Json.signs by decide) 1 2, rfl⟩ ?_
    refine .append_flatMap_text [.comma] (hspace ?_)
    refine .append_flatMap_text [.string _, .colon, .openRecord, .string _, .colon, .string _,
      .closeRecord, .comma] (hspace ?_)
    refine .append_flatMap_text [.string _, .colon] ?_
    refine .token (r := ['\"', '\\', 'u', '0', '0', '7', 'C', 'é', '\"'])
      ⟨_, .hex hbar rfl (.plain (by decide) (by decide) (by decide) .nil), rfl⟩ ?_
    refine .append_flatMap_text [.closeRecord, .comma] (hspace ?_)
    refine .append_flatMap_text [.openList, .string _, .comma] (hspace ?_)
    refine .append_flatMap_text [.openList, .openList, .string _, .comma] (hspace ?_)
    exact .append_flatMap_text [.string _, .closeList, .closeList, .closeList, .closeList]
      (.blank (by decide) .nil)
  exact ⟨hgiven, hdenotes, (directives_survive_json directives).2.2 v text hgiven hdenotes⟩

end Registry
end Autoescape
