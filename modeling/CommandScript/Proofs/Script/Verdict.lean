import CommandScript.Proofs.Script.Layout
import CommandScript.Proofs.Script.Loading

/-! What loading a function file comes to: its procedure, or the first fault in it. -/
namespace CommandScript.Script
open Template Text

/-- A line without placeholders that is refused, with `$$` read as a dollar sign. A line with
placeholders has no verdict as long as nothing is given. -/
def Refused (ctx : Context) (line : Line) : Prop := ∃ cause, Verdict .empty ctx line (.error cause)

/-- What the lines of a function file come to. A dollar sign out of place goes before a refused
line, wherever the two are; of each kind, the first one counts. -/
inductive LoadsTo (t : TemplateProcedure) (ctx : Context) : Except LoadError Procedure → Prop
  | malformed {index : Nat} {reason : MarkerError} (fault : t.FirstFault index reason) :
      LoadsTo t ctx (.error (.expansion (.malformedPlaceholder t.id index reason)))
  | refused {index : Nat} {line : Line} {cause : Rejection} (clean : t.Clean)
      (found : t.lines[index]? = some line) (refused : Verdict .empty ctx line (.error cause))
      (earlier : ∀ line' ∈ t.lines.take index, ¬Refused ctx line') :
      LoadsTo t ctx (.error (.invalidCommand t.id line.number cause))
  | template (clean : t.Clean) (accepted : ∀ line ∈ t.lines, ¬Refused ctx line)
      (placeholders : ∃ line ∈ t.lines, ∃ name, .placeholder name ∈ (scan line.text).segments) :
      LoadsTo t ctx (.ok (.template t))
  | expanded {actions : List Action}
      (accepted : List.Forall₂ (fun line action => Verdict .empty ctx line (.ok action))
        t.lines actions) :
      LoadsTo t ctx (.ok (.expanded ⟨t.id, actions⟩))

/-- With nothing given, the lines that have a verdict are those without faults and placeholders. -/
theorem verdict_empty_iff {line : Line} {ctx : Context} {r : Except Rejection Action} :
    Verdict .empty ctx line r ↔
      ∃ text, literalText? line = some text ∧ ctx.validate text ctx.source = r := by
  constructor
  · intro h
    obtain ⟨out, hfills, -⟩ := id h
    obtain ⟨herror, hvalues⟩ := scanFrom_of_fills 0 ⟨out, hfills⟩
    have hno : ∀ name, .placeholder name ∉ (scan line.text).segments := by
      intro name hname
      obtain ⟨v, hv⟩ := hvalues name hname
      cases hv
    have htext := literalText?_eq_some_iff.mpr ⟨herror, hno, rfl⟩
    exact ⟨_, htext, (verdict_iff_of_literalText? .empty ctx r htext).mp h⟩
  · rintro ⟨text, htext, hverdict⟩
    exact (verdict_iff_of_literalText? .empty ctx r htext).mpr hverdict

theorem not_refused_iff {line : Line} {ctx : Context} :
    ¬Refused ctx line ↔ ∀ text, literalText? line = some text →
      ∃ action, ctx.validate text ctx.source = .ok action := by
  simp only [Refused, verdict_empty_iff]
  constructor
  · intro h text htext
    cases hverdict : ctx.validate text ctx.source with
    | error cause => exact absurd ⟨cause, text, htext, hverdict⟩ h
    | ok action => exact ⟨action, rfl⟩
  · rintro h ⟨cause, text, htext, hverdict⟩
    obtain ⟨action, haction⟩ := h text htext
    rw [hverdict] at haction
    cases haction

/-- A line that is not refused is accepted, unless it has faults or placeholders. -/
theorem exists_accepted_iff {t : TemplateProcedure} {ctx : Context} {line : Line} (clean : t.Clean)
    (hnone : t.occurrences = []) (hline : line ∈ t.lines) :
    (∃ action, Verdict .empty ctx line (.ok action)) ↔ ¬Refused ctx line := by
  have hno : ∀ name, .placeholder name ∉ (scan line.text).segments := by
    intro name hname
    have hmem := TemplateProcedure.mem_occurrences_iff.mpr ⟨line, hline, hname⟩
    rw [hnone] at hmem
    cases hmem
  have htext := literalText?_eq_some_iff.mpr ⟨clean line hline, hno, rfl⟩
  simp [not_refused_iff, verdict_empty_iff, htext]

theorem loadsTo_of_expandsTo {t : TemplateProcedure} {ctx : Context}
    {r : Except ExpansionError ExpandedProcedure} (hnone : t.occurrences = [])
    (h : t.ExpandsTo none ctx r) :
    LoadsTo t ctx ((r.mapError (LoadError.ofExpansion t.lines)).map Procedure.expanded) := by
  cases h with
  | malformed fault => exact .malformed fault
  | missing clean firsts absent =>
    obtain ⟨name, hname, -⟩ := absent
    have hmem := (firsts.mem_iff name).mp hname
    rw [hnone] at hmem
    cases hmem
  | @rejected index line reason fillable found earlier refused =>
    have hnumber : (t.lines[index]?.map Line.number).getD 0 = line.number := by
      rw [found]
      rfl
    have hrefused : LoadsTo t ctx (.error (.invalidCommand t.id line.number reason)) := by
      refine .refused fillable.clean found refused ?_
      intro line' hline'
      have hmem := List.mem_of_mem_take hline'
      exact (exists_accepted_iff fillable.clean hnone hmem).mp (earlier line' hline')
    rw [← hnumber] at hrefused
    exact hrefused
  | expanded fillable accepted => exact .expanded accepted

theorem loadsTo_parseFunction (id : Identifier) (source : String) (ctx : Context) :
    LoadsTo (rawTemplate id source) ctx (parseFunction id source ctx) := by
  rcases (rawTemplate id source).clean_or_firstFault with clean | ⟨index, reason, fault⟩
  · by_cases hnone : (rawTemplate id source).occurrences = []
    · rw [parseFunction_of_literal ctx clean hnone]
      exact loadsTo_of_expandsTo hnone (TemplateProcedure.expandsTo_expand _ none ctx)
    · rw [parseFunction_of_template ctx clean hnone]
      cases hcheck : checkLiterals id ctx (logicalLines source) with
      | error e =>
        obtain ⟨index, line, text, cause, found, htext, hcause, hearlier, rfl⟩ :=
          checkLiterals_eq_error_iff.mp hcheck
        refine .refused clean found (verdict_empty_iff.mpr ⟨text, htext, hcause⟩) ?_
        intro line' hline'
        exact not_refused_iff.mpr (hearlier line' hline')
      | ok u =>
        refine .template clean ?_ (TemplateProcedure.occurrences_ne_nil_iff.mp hnone)
        intro line hline
        exact not_refused_iff.mpr (checkLiterals_eq_ok_iff.mp hcheck line hline)
  · rw [parseFunction_of_firstFault ctx fault]
    exact .malformed fault

/-- Lines that all have a verdict with nothing given have neither faults nor placeholders. -/
theorem literal_of_forall₂ {t : TemplateProcedure} {ctx : Context} {actions : List Action}
    (accepted : List.Forall₂ (fun line action => Verdict .empty ctx line (.ok action))
      t.lines actions) : t.Clean ∧ t.occurrences = [] := by
  have hline : ∀ line ∈ t.lines, ∃ text, literalText? line = some text := by
    intro line hline
    obtain ⟨action, -, haction⟩ := exists_rel_of_mem_left accepted hline
    obtain ⟨text, htext, -⟩ := verdict_empty_iff.mp haction
    exact ⟨text, htext⟩
  constructor
  · intro line hmem
    obtain ⟨text, htext⟩ := hline line hmem
    exact (literalText?_eq_some_iff.mp htext).1
  · by_contra hsome
    obtain ⟨line, hmem, name, hname⟩ := TemplateProcedure.occurrences_ne_nil_iff.mp hsome
    obtain ⟨text, htext⟩ := hline line hmem
    exact (literalText?_eq_some_iff.mp htext).2.1 name hname

theorem parseFunction_of_loadsTo {id : Identifier} {source : String} {ctx : Context}
    {r : Except LoadError Procedure} (h : LoadsTo (rawTemplate id source) ctx r) :
    parseFunction id source ctx = r := by
  cases h with
  | malformed fault => exact parseFunction_of_firstFault ctx fault
  | @refused index line cause clean found refused earlier =>
    by_cases hnone : (rawTemplate id source).occurrences = []
    · have hearlier : ∀ line' ∈ (rawTemplate id source).lines.take index,
          ∃ action, Verdict .empty ctx line' (.ok action) := by
        intro line' hline'
        have hmem := List.mem_of_mem_take hline'
        exact (exists_accepted_iff clean hnone hmem).mpr (earlier line' hline')
      have hfillable := TemplateProcedure.fillable_of_no_placeholders clean hnone .empty
      have hexpand : (rawTemplate id source).expand none ctx =
          .error (.invalidExpansion id index cause) :=
        TemplateProcedure.expand_of_expandsTo (.rejected hfillable found hearlier refused)
      have hnumber : ((logicalLines source)[index]?.map Line.number).getD 0 = line.number := by
        rw [show (logicalLines source)[index]? = some line from found]
        rfl
      rw [parseFunction_of_literal ctx clean hnone, hexpand, ← hnumber]
      rfl
    · obtain ⟨text, htext, hcause⟩ := verdict_empty_iff.mp refused
      have hearlier : ∀ line' ∈ (logicalLines source).take index, ∀ text',
          literalText? line' = some text' → ∃ action, ctx.validate text' ctx.source = .ok action :=
        fun line' hline' => not_refused_iff.mp (earlier line' hline')
      have hcheck : checkLiterals id ctx (logicalLines source) =
          .error (.invalidCommand id line.number cause) :=
        checkLiterals_eq_error_iff.mpr
          ⟨index, line, text, cause, found, htext, hcause, hearlier, rfl⟩
      rw [parseFunction_of_template ctx clean hnone, hcheck]
      rfl
  | template clean accepted placeholders =>
    have hsome := TemplateProcedure.occurrences_ne_nil_iff.mpr placeholders
    have hcheck : checkLiterals id ctx (logicalLines source) = .ok () :=
      checkLiterals_eq_ok_iff.mpr fun line hline => not_refused_iff.mp (accepted line hline)
    rw [parseFunction_of_template ctx clean hsome, hcheck]
    rfl
  | @expanded actions accepted =>
    obtain ⟨clean, hnone⟩ := literal_of_forall₂ accepted
    have hfillable := TemplateProcedure.fillable_of_no_placeholders clean hnone .empty
    have hexpand : (rawTemplate id source).expand none ctx = .ok ⟨id, actions⟩ :=
      TemplateProcedure.expand_of_expandsTo (.expanded hfillable accepted)
    rw [parseFunction_of_literal ctx clean hnone, hexpand]
    rfl

/-- What loads is a template if it has placeholders. -/
theorem LoadsTo.isTemplate_iff {t : TemplateProcedure} {ctx : Context} {p : Procedure}
    (h : LoadsTo t ctx (.ok p)) : p.isTemplate = true ↔
      ∃ line ∈ t.lines, ∃ name, .placeholder name ∈ (scan line.text).segments := by
  cases h with
  | template clean accepted placeholders => simp [Procedure.isTemplate, placeholders]
  | expanded accepted =>
    have hnone := (literal_of_forall₂ accepted).2
    rw [← TemplateProcedure.occurrences_ne_nil_iff]
    simp [Procedure.isTemplate, hnone]

/-- The logical lines of a function file are laid out over its physical lines, from the first one
on. Loading the file comes to what these lines come to, and no other error is possible. -/
theorem parseFunction_eq_iff_loadsTo (id : Identifier) (source : String) (ctx : Context) :
    Layout 1 (lines source.toList) (logicalLines source) ∧
    (∀ r, parseFunction id source ctx = r ↔ LoadsTo (rawTemplate id source) ctx r) ∧
    (∀ p, parseFunction id source ctx = .ok p → (p.isTemplate = true ↔
      ∃ line ∈ logicalLines source, ∃ name, .placeholder name ∈ (scan line.text).segments)) ∧
    (∀ procedure names, parseFunction id source ctx ≠
      .error (.expansion (.missingArguments procedure names))) ∧
    (∀ procedure index reason, parseFunction id source ctx ≠
      .error (.expansion (.invalidExpansion procedure index reason))) ∧
    (∀ procedure cause, parseFunction id source ctx ≠
      .error (.invalidCommand procedure 0 cause)) := by
  have hlayout : Layout 1 (lines source.toList) (logicalLines source) := layout_iff.mpr rfl
  have hload : ∀ r, parseFunction id source ctx = r ↔ LoadsTo (rawTemplate id source) ctx r := by
    intro r
    constructor
    · rintro rfl
      exact loadsTo_parseFunction id source ctx
    · exact parseFunction_of_loadsTo
  refine ⟨hlayout, hload, ?_, ?_, ?_, ?_⟩
  · intro p hp
    exact ((hload _).mp hp).isTemplate_iff
  · intro procedure names h
    nomatch (hload _).mp h
  · intro procedure index reason h
    nomatch (hload _).mp h
  · intro procedure cause h
    generalize hzero : 0 = number at h
    cases (hload _).mp h with
    | refused clean found refused earlier =>
      have hnumber := hlayout.le_number _ (List.mem_of_getElem? found)
      omega

/-- A line is refused behind another one with a placeholder. It begins on the fourth physical line
and goes on in the fifth. -/
theorem parseFunction_eq_iff_loadsTo_morning :
    ∃ (v : GrammarValidator) (id : Identifier),
      (∃ p, parseFunction id "say $name$" ⟨.default, v.validate⟩ = .ok p ∧
        p.isTemplate = true) ∧
      ∃ cause, LoadsTo (rawTemplate id "# Greets.\n\nsay $name$\nsay good \\\n  morning")
        ⟨.default, v.validate⟩ (.error (.invalidCommand id 4 cause)) := by
  let id : Identifier := ⟨"demo", "hello", ⟨by decide, List.all_eq_true.mp (by decide)⟩,
    ⟨by decide, List.all_eq_true.mp (by decide)⟩⟩
  let v : GrammarValidator := ⟨⟨.cons (.literal "say") false
    (.cons (.argument "message" .greedy) true .nil .nil) .nil, ["say <message:greedy>"]⟩, 12⟩
  have hload : parseFunction id "say $name$" ⟨.default, v.validate⟩ =
      .ok (.template ⟨id, [⟨"say $name$", 1⟩]⟩) := by decide +kernel
  have hrefused : parseFunction id "# Greets.\n\nsay $name$\nsay good \\\n  morning"
      ⟨.default, v.validate⟩ = .error (.invalidCommand id 4 (GrammarValidator.tooLong 16 12)) := by
    decide +kernel
  obtain ⟨-, -, htemplate, -⟩ :=
    parseFunction_eq_iff_loadsTo id "say $name$" ⟨.default, v.validate⟩
  obtain ⟨-, hrefuses, -⟩ := parseFunction_eq_iff_loadsTo id
    "# Greets.\n\nsay $name$\nsay good \\\n  morning" ⟨.default, v.validate⟩
  refine ⟨v, id, ⟨_, hload, (htemplate _ hload).mpr ?_⟩, _, (hrefuses _).mp hrefused⟩
  exact ⟨⟨"say $name$", 1⟩, by decide +kernel, "name", by decide +kernel⟩

end CommandScript.Script
