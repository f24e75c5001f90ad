import CommandScript.Proofs.Template.Expansion
import CommandScript.Script.Function

/-! Loading a function file against the later expansion of its lines. -/
namespace CommandScript.Script
open Template

/-- A line without faults and placeholders has the text that any arguments fill it in with. -/
theorem literalText?_eq_some_iff {line : Line} {text : String} :
    literalText? line = some text ↔
      (scan line.text).error = none ∧
      (∀ name, .placeholder name ∉ (scan line.text).segments) ∧
      text = Segment.renderAll (fun _ => none) (scan line.text).segments := by
  have hnames : ((scan line.text).segments.filterMap Segment.name?).isEmpty = true ↔
      ∀ name, .placeholder name ∉ (scan line.text).segments := by
    rw [List.isEmpty_iff, List.eq_nil_iff_forall_not_mem]
    simp only [Segment.mem_filterMap_name?]
  unfold literalText?
  simp only
  split_ifs with h
  · rw [Bool.and_eq_true, Option.isNone_iff_eq_none, hnames] at h
    simp [h, eq_comm]
  · rw [Bool.and_eq_true, Option.isNone_iff_eq_none, hnames] at h
    constructor
    · nofun
    · rintro ⟨herror, hno, -⟩
      exact absurd ⟨herror, hno⟩ h

/-- The verdict on a line without placeholders is that on its text, whatever the arguments are. -/
theorem verdict_iff_of_literalText? {line : Line} {text : String} (given : Compound)
    (ctx : Context) (r : Except Rejection Action) (h : literalText? line = some text) :
    Verdict given ctx line r ↔ ctx.validate text ctx.source = r := by
  obtain ⟨herror, hno, htext⟩ := literalText?_eq_some_iff.mp h
  have hfills : Fills given line.text.toList text.toList := by
    rw [htext]
    exact fills_of_scanFrom herror fun name hname => absurd hname (hno name)
  constructor
  · rintro ⟨text', htext', hverdict⟩
    rwa [htext'.unique hfills, String.ofList_toList] at hverdict
  · intro hverdict
    exact ⟨_, hfills, by rwa [String.ofList_toList]⟩

/-- Has a line accepted if it has no placeholders. -/
def checkLine (id : Identifier) (ctx : Context) (line : Line) : Except LoadError Unit :=
  match literalText? line with
  | none => .ok ()
  | some text =>
    match ctx.validate text ctx.source with
    | .error cause => .error (.invalidCommand id line.number cause)
    | .ok _ => .ok ()

theorem checkLine_eq_ok_iff {id : Identifier} {ctx : Context} {line : Line} :
    checkLine id ctx line = .ok () ↔ ∀ text, literalText? line = some text →
      ∃ action, ctx.validate text ctx.source = .ok action := by
  unfold checkLine
  cases literalText? line with
  | none => simp
  | some text =>
    cases hv : ctx.validate text ctx.source with
    | error cause => simp [hv]
    | ok action => simp [hv]

theorem checkLine_eq_error_iff {id : Identifier} {ctx : Context} {line : Line} {e : LoadError} :
    checkLine id ctx line = .error e ↔ ∃ text cause, literalText? line = some text ∧
      ctx.validate text ctx.source = .error cause ∧
      e = .invalidCommand id line.number cause := by
  unfold checkLine
  cases literalText? line with
  | none => simp
  | some text =>
    cases hv : ctx.validate text ctx.source with
    | error cause => simp [hv, eq_comm]
    | ok action => simp [hv]

theorem checkLiterals_eq_eachFrom (id : Identifier) (ctx : Context) (index : Nat)
    (lines : List Line) :
    checkLiterals id ctx lines =
      (eachFrom (checkLine id ctx) (fun _ e => e) index lines).map fun _ => () := by
  induction lines generalizing index with
  | nil => rfl
  | cons line rest ih =>
    rw [checkLiterals, eachFrom, ih (index + 1), checkLine]
    have hrest : ∀ x : Except LoadError (List Unit),
        x.map (fun _ => ()) = (x.map fun units => () :: units).map fun _ => () := by
      intro x
      cases x with
      | error e => rfl
      | ok units => rfl
    cases literalText? line with
    | none => exact hrest _
    | some text =>
      dsimp only
      cases ctx.validate text ctx.source with
      | error cause => rfl
      | ok action => exact hrest _

theorem checkLiterals_eq_ok_iff {id : Identifier} {ctx : Context} {lines : List Line} :
    checkLiterals id ctx lines = .ok () ↔ ∀ line ∈ lines, ∀ text,
      literalText? line = some text → ∃ action, ctx.validate text ctx.source = .ok action := by
  have hline : ∀ line, checkLine id ctx line = .ok () ↔ _ := fun line => checkLine_eq_ok_iff
  simp only [← hline]
  rw [checkLiterals_eq_eachFrom id ctx 0, map_eq_ok_iff]
  constructor
  · rintro ⟨units, hunits, -⟩ line hmem
    obtain ⟨⟨⟩, hok⟩ := exists_ok_of_mem_of_eachFrom hunits hmem
    exact hok
  · intro h
    refine ⟨lines.map fun _ => (), eachFrom_eq_ok_iff.mpr ?_, rfl⟩
    rw [List.forall₂_map_right_iff, List.forall₂_same]
    exact h

/-- The check fails at the first line without placeholders that is refused. -/
theorem checkLiterals_eq_error_iff {id : Identifier} {ctx : Context} {lines : List Line}
    {e : LoadError} :
    checkLiterals id ctx lines = .error e ↔ ∃ index line text cause,
      lines[index]? = some line ∧ literalText? line = some text ∧
      ctx.validate text ctx.source = .error cause ∧
      (∀ line' ∈ lines.take index, ∀ text', literalText? line' = some text' →
        ∃ action, ctx.validate text' ctx.source = .ok action) ∧
      e = .invalidCommand id line.number cause := by
  rw [checkLiterals_eq_eachFrom id ctx 0, map_eq_error_iff, eachFrom_eq_error_iff]
  constructor
  · rintro ⟨index, line, d, hfound, hline, hearlier, rfl⟩
    obtain ⟨text, cause, htext, hcause, rfl⟩ := checkLine_eq_error_iff.mp hline
    refine ⟨index, line, text, cause, hfound, htext, hcause, ?_, rfl⟩
    intro line' hline'
    obtain ⟨⟨⟩, hok⟩ := hearlier line' hline'
    exact checkLine_eq_ok_iff.mp hok
  · rintro ⟨index, line, text, cause, hfound, htext, hcause, hearlier, rfl⟩
    refine ⟨index, line, _, hfound, checkLine_eq_error_iff.mpr ⟨text, cause, htext, hcause, rfl⟩,
      ?_, rfl⟩
    intro line' hline'
    exact ⟨(), checkLine_eq_ok_iff.mpr (hearlier line' hline')⟩

/-- The template that the lines of a text make up. -/
def rawTemplate (id : Identifier) (source : String) : TemplateProcedure :=
  ⟨id, logicalLines source⟩

theorem parseFunction_of_firstFault {id : Identifier} {source : String} {index : Nat}
    {reason : MarkerError} (ctx : Context) (h : (rawTemplate id source).FirstFault index reason) :
    parseFunction id source ctx = .error (.expansion (.malformedPlaceholder id index reason)) := by
  have hnames := TemplateProcedure.requiredNames_of_firstFault h
  unfold parseFunction Procedure.ofLines
  simp only
  rw [rawTemplate] at hnames
  rw [hnames]
  rfl

/-- Without placeholders, a text is expanded when it is loaded. -/
theorem parseFunction_of_literal {id : Identifier} {source : String} (ctx : Context)
    (clean : (rawTemplate id source).Clean)
    (h : (rawTemplate id source).occurrences = []) :
    parseFunction id source ctx = (((rawTemplate id source).expand none ctx).mapError
      (LoadError.ofExpansion (logicalLines source))).map Procedure.expanded := by
  have hnames := TemplateProcedure.requiredNames_of_clean clean
  rw [h] at hnames
  unfold parseFunction Procedure.ofLines
  simp only
  rw [rawTemplate] at hnames ⊢
  rw [hnames]
  cases TemplateProcedure.expand ⟨id, logicalLines source⟩ none ctx with
  | error e => rfl
  | ok e => rfl

/-- With placeholders, a text stays a template, of which the other lines are checked. -/
theorem parseFunction_of_template {id : Identifier} {source : String} (ctx : Context)
    (clean : (rawTemplate id source).Clean)
    (h : (rawTemplate id source).occurrences ≠ []) :
    parseFunction id source ctx = (checkLiterals id ctx (logicalLines source)).map
      fun _ => .template (rawTemplate id source) := by
  have hnames := TemplateProcedure.requiredNames_of_clean clean
  have hsome : (rawTemplate id source).occurrences.eraseDups.isEmpty = false :=
    List.isEmpty_eq_false_iff.mpr fun hempty => h (eraseDups_eq_nil_iff.mp hempty)
  unfold parseFunction Procedure.ofLines
  rw [rawTemplate] at hnames hsome ⊢
  simp only
  rw [hnames]
  simp only [Except.bind, bind, hsome]
  cases checkLiterals id ctx (logicalLines source) with
  | error e => rfl
  | ok u => rfl

/-- A text loads as its expansion if it has no placeholders, and as a template if it has some. In
either case the lines without placeholders are accepted. -/
theorem parseFunction_eq_ok_iff {id : Identifier} {source : String} {ctx : Context}
    {p : Procedure} :
    parseFunction id source ctx = .ok p ↔ (rawTemplate id source).Clean ∧
      ((rawTemplate id source).occurrences = [] ∧
          (∃ e, (rawTemplate id source).expand none ctx = .ok e ∧ p = .expanded e) ∨
        (rawTemplate id source).occurrences ≠ [] ∧ p = .template (rawTemplate id source) ∧
          ∀ line ∈ logicalLines source, ∀ text, literalText? line = some text →
            ∃ action, ctx.validate text ctx.source = .ok action) := by
  rcases (rawTemplate id source).clean_or_firstFault with clean | ⟨index, reason, fault⟩
  · by_cases hnone : (rawTemplate id source).occurrences = []
    · rw [parseFunction_of_literal ctx clean hnone, map_eq_ok_iff]
      constructor
      · rintro ⟨e, he, rfl⟩
        exact ⟨clean, .inl ⟨hnone, e, mapError_eq_ok_iff.mp he, rfl⟩⟩
      · rintro ⟨-, ⟨-, e, he, rfl⟩ | ⟨hsome, -⟩⟩
        · exact ⟨e, mapError_eq_ok_iff.mpr he, rfl⟩
        · exact absurd hnone hsome
    · have hcheck := @checkLiterals_eq_ok_iff id ctx (logicalLines source)
      rw [parseFunction_of_template ctx clean hnone, map_eq_ok_iff]
      constructor
      · rintro ⟨⟨⟩, hok, rfl⟩
        exact ⟨clean, .inr ⟨hnone, rfl, hcheck.mp hok⟩⟩
      · rintro ⟨-, ⟨hnone', -⟩ | ⟨-, rfl, hok⟩⟩
        · exact absurd hnone' hnone
        · exact ⟨(), hcheck.mpr hok, rfl⟩
  · rw [parseFunction_of_firstFault ctx fault]
    constructor
    · nofun
    · rintro ⟨clean, -⟩
      exact absurd clean fault.not_clean

theorem exists_parseFunction_of_expand {id : Identifier} {source : String} {ctx : Context}
    {arguments : Option Compound} {e : ExpandedProcedure}
    (h : (rawTemplate id source).expand arguments ctx = .ok e) :
    ∃ p, parseFunction id source ctx = .ok p := by
  obtain ⟨fillable, haccepted⟩ := TemplateProcedure.accepted_of_expand h
  by_cases hnone : (rawTemplate id source).occurrences = []
  · rw [TemplateProcedure.expand_of_no_placeholders ctx fillable.clean hnone arguments none] at h
    exact ⟨_, parseFunction_eq_ok_iff.mpr ⟨fillable.clean, .inl ⟨hnone, _, h, rfl⟩⟩⟩
  · refine ⟨_, parseFunction_eq_ok_iff.mpr ⟨fillable.clean, .inr ⟨hnone, rfl, ?_⟩⟩⟩
    intro line hline text htext
    obtain ⟨action, haction⟩ := haccepted line hline
    exact ⟨action, (verdict_iff_of_literalText? _ ctx _ htext).mp haction⟩

/-- Whether a text is expanded when it is loaded or later makes no difference, and what does not
load does not expand. -/
theorem expand_of_parseFunction_agrees (id : Identifier) (source : String) (ctx : Context)
    (arguments : Option Compound) :
    match parseFunction id source ctx with
    | .ok p => p.expand arguments ctx = (rawTemplate id source).expand arguments ctx
    | .error _ => ∃ e, (rawTemplate id source).expand arguments ctx = .error e := by
  cases hload : parseFunction id source ctx with
  | error e =>
    cases hexpand : (rawTemplate id source).expand arguments ctx with
    | error e' => exact ⟨e', rfl⟩
    | ok expanded =>
      obtain ⟨p, hp⟩ := exists_parseFunction_of_expand hexpand
      rw [hload] at hp
      cases hp
  | ok p =>
    obtain ⟨clean, ⟨hnone, e, he, rfl⟩ | ⟨-, rfl, -⟩⟩ := parseFunction_eq_ok_iff.mp hload
    · have hsame := TemplateProcedure.expand_of_no_placeholders ctx clean hnone arguments none
      exact (hsame.trans he).symm
    · rfl

/-- The verdict on a line does not depend on who runs it. -/
theorem validate_under (v : GrammarValidator) (line : String) (source source' : Source) :
    v.validate line source' =
      (v.validate line source).map fun action => { action with source := source' } := by
  unfold GrammarValidator.validate
  split_ifs with hlong
  · rfl
  · cases v.tree.parse line with
    | error e => rfl
    | ok command => rfl

/-- What has loaded fails only through its arguments: through those that are missing, and through
the values in a line with placeholders. The source need not be the one it was loaded under. -/
theorem faults_of_loaded {v : GrammarValidator} {id : Identifier} {text : String}
    {loader : Source} {p : Procedure} (h : parseFunction id text ⟨loader, v.validate⟩ = .ok p)
    (arguments : Option Compound) (invoker : Source) :
    (∀ procedure index reason, p.expand arguments ⟨invoker, v.validate⟩ ≠
      .error (.malformedPlaceholder procedure index reason)) ∧
    ((∃ procedure names, p.expand arguments ⟨invoker, v.validate⟩ =
        .error (.missingArguments procedure names)) ↔
      ∃ t, p = .template t ∧
        ∃ name ∈ t.occurrences, (arguments.getD .empty).contains name = false) ∧
    (∀ procedure index reason, p.expand arguments ⟨invoker, v.validate⟩ =
        .error (.invalidExpansion procedure index reason) →
      ∃ line, (logicalLines text)[index]? = some line ∧
        ∃ name, .placeholder name ∈ (scan line.text).segments) ∧
    (∀ e, p = .expanded e → p.expand arguments ⟨invoker, v.validate⟩ = .ok e) := by
  obtain ⟨clean, ⟨-, e, -, rfl⟩ | ⟨-, rfl, haccepted⟩⟩ := parseFunction_eq_ok_iff.mp h
  · simp [Procedure.expand]
  · refine ⟨?_, ?_, ?_, nofun⟩
    · exact TemplateProcedure.expand_ne_malformed clean
    · constructor
      · intro hmissing
        exact ⟨_, rfl, (TemplateProcedure.exists_expand_eq_missing_iff clean).mp hmissing⟩
      · rintro ⟨t, ht, habsent⟩
        cases ht
        exact (TemplateProcedure.exists_expand_eq_missing_iff clean).mpr habsent
    · intro procedure index reason hrefused
      obtain ⟨line, hline, hverdict⟩ := TemplateProcedure.exists_refused_of_expand hrefused
      refine ⟨line, hline, ?_⟩
      by_contra hno
      have hmem : line ∈ logicalLines text := List.mem_of_getElem? hline
      have hliteral : literalText? line =
          some (Segment.renderAll (fun _ => none) (scan line.text).segments) :=
        literalText?_eq_some_iff.mpr ⟨clean line hmem, not_exists.mp hno, rfl⟩
      -- A line without placeholders was accepted when it was loaded, whoever runs it now.
      obtain ⟨action, haction⟩ := haccepted line hmem _ hliteral
      have hreason := (verdict_iff_of_literalText? _ _ _ hliteral).mp hverdict
      dsimp only at haction hreason
      rw [validate_under v _ loader invoker, haction] at hreason
      cases hreason

/-- A greeting loads. It wants a name, and is refused in its first line if the name is long. -/
theorem faults_of_loaded_greeting :
    ∃ (v : GrammarValidator) (id : Identifier) (p : Procedure),
      parseFunction id "say Hello $name$\nsay 5$$" ⟨.default, v.validate⟩ = .ok p ∧
      (∃ procedure names, p.expand none ⟨⟨"guest", 0⟩, v.validate⟩ =
        .error (.missingArguments procedure names)) ∧
      ∃ procedure reason, p.expand (some ⟨[("name", .string "everybody else")]⟩)
          ⟨⟨"guest", 0⟩, v.validate⟩ = .error (.invalidExpansion procedure 0 reason) ∧
        ∃ line, (logicalLines "say Hello $name$\nsay 5$$")[0]? = some line ∧
          ∃ name, .placeholder name ∈ (scan line.text).segments := by
  let id : Identifier := ⟨"demo", "hello", ⟨by decide, List.all_eq_true.mp (by decide)⟩,
    ⟨by decide, List.all_eq_true.mp (by decide)⟩⟩
  let v : GrammarValidator := ⟨⟨.cons (.literal "say") false
    (.cons (.argument "message" .greedy) true .nil .nil) .nil, ["say <message:greedy>"]⟩, 20⟩
  have hload : parseFunction id "say Hello $name$\nsay 5$$" ⟨.default, v.validate⟩ = .ok
      (.template ⟨id, [⟨"say Hello $name$", 1⟩, ⟨"say 5$$", 2⟩]⟩) := by decide +kernel
  obtain ⟨-, hmissing, -⟩ := faults_of_loaded hload none ⟨"guest", 0⟩
  obtain ⟨-, -, hrefused, -⟩ :=
    faults_of_loaded hload (some ⟨[("name", .string "everybody else")]⟩) ⟨"guest", 0⟩
  have htoo : Procedure.expand (.template ⟨id, [⟨"say Hello $name$", 1⟩, ⟨"say 5$$", 2⟩]⟩)
      (some ⟨[("name", .string "everybody else")]⟩) ⟨⟨"guest", 0⟩, v.validate⟩ =
      .error (.invalidExpansion id 0 (GrammarValidator.tooLong 24 20)) := by decide +kernel
  refine ⟨v, id, _, hload, hmissing.mpr ⟨_, rfl, "name", ?_, rfl⟩, _, _, htoo, ?_⟩
  · decide +kernel
  · exact hrefused _ _ _ htoo

end CommandScript.Script
