import CommandScript.Proofs.Stages
import CommandScript.Proofs.Template.Filling
import CommandScript.Proofs.Template.Names

/-! What the expansion of a template comes to: the accepted actions, or one of three errors. -/
namespace CommandScript
open Template

namespace Template

theorem Scan.toExcept_eq_error_iff {r : Scan} {e : MarkerError} :
    r.toExcept = .error e ↔ r.error = some e := by
  unfold toExcept
  cases r.error with
  | none => simp
  | some e' => simp

theorem Scan.toExcept_eq_ok_iff {r : Scan} {segments : List Segment} :
    r.toExcept = .ok segments ↔ r.error = none ∧ r.segments = segments := by
  unfold toExcept
  cases r.error with
  | none => simp
  | some e => simp

theorem Segment.mem_filterMap_name? {name : String} {segments : List Segment} :
    name ∈ segments.filterMap name? ↔ placeholder name ∈ segments := by
  rw [List.mem_filterMap]
  constructor
  · rintro ⟨s, hs, hname⟩
    cases s with
    | literal text => cases hname
    | placeholder name' =>
      cases hname
      exact hs
  · intro h
    exact ⟨_, h, rfl⟩

theorem resolve_of_missing {procedure : Identifier} {required : List String}
    {arguments : Option Compound}
    (h : ∃ name ∈ required, (arguments.getD .empty).contains name = false) :
    resolve procedure required arguments = .error (.missingArguments procedure
      (required.filter fun name => !(arguments.getD .empty).contains name)) := by
  obtain ⟨name, hmem, hname⟩ := h
  have hmissing : name ∈ required.filter fun name => !(arguments.getD .empty).contains name :=
    List.mem_filter.mpr ⟨hmem, by rw [hname]; rfl⟩
  unfold resolve
  rw [if_neg]
  intro hempty
  rw [List.isEmpty_iff.mp hempty] at hmissing
  cases hmissing

theorem lookup_filterMap_of_mem (value? : String → Option String) {name text : String}
    {names : List String} (h : name ∈ names) (htext : value? name = some text) :
    (names.filterMap fun n => (value? n).map fun t => (n, t)).lookup name = some text := by
  induction names with
  | nil => cases h
  | cons n rest ih =>
    by_cases hn : name = n
    · subst hn
      rw [List.filterMap_cons_some (by rw [htext]; rfl), List.lookup_cons_self]
    · have hrest := ih ((List.mem_cons.mp h).resolve_left hn)
      have hne : (name == n) = false := beq_eq_false_iff_ne.mpr hn
      cases hv : value? n with
      | none => rw [List.filterMap_cons_none (by rw [hv]; rfl), hrest]
      | some v =>
        rw [List.filterMap_cons_some (by rw [hv]; rfl), List.lookup_cons, hne, hrest]

/-- Every required name that is given has the text of its value. -/
theorem resolve_of_given (procedure : Identifier) {required : List String}
    {arguments : Option Compound}
    (h : ∀ name ∈ required, (arguments.getD .empty).contains name = true) :
    ∃ values, resolve procedure required arguments = .ok values ∧
      ∀ name ∈ required, ∃ v, (arguments.getD .empty).get? name = some v ∧
        values.get? name = some v.text := by
  refine ⟨⟨required.eraseDups.filterMap fun name =>
    ((arguments.getD .empty).get? name).map fun v => (name, v.text)⟩, ?_, ?_⟩
  · unfold resolve
    rw [if_pos]
    rw [List.isEmpty_iff, List.filter_eq_nil_iff]
    intro name hname
    rw [h name hname]
    decide
  · intro name hname
    obtain ⟨v, hv⟩ := Option.isSome_iff_exists.mp (h name hname)
    refine ⟨v, hv, ?_⟩
    have htext : ((arguments.getD .empty).get? name).map Value.text = some v.text := by
      rw [hv]
      rfl
    have hlookup := lookup_filterMap_of_mem
      (fun n => ((arguments.getD .empty).get? n).map Value.text)
      (List.mem_eraseDups.mpr hname) htext
    simpa only [Resolution.get?, Option.map_map, Function.comp_def] using hlookup

end Template

namespace TemplateProcedure

/-- The names of the placeholders of a template, with their repetitions. -/
def occurrences (t : TemplateProcedure) : List String :=
  t.lines.flatMap fun line => (scan line.text).segments.filterMap Segment.name?

theorem mem_occurrences_iff {t : TemplateProcedure} {name : String} :
    name ∈ t.occurrences ↔ ∃ line ∈ t.lines, .placeholder name ∈ (scan line.text).segments := by
  simp only [occurrences, List.mem_flatMap, Segment.mem_filterMap_name?]

theorem occurrences_ne_nil_iff {t : TemplateProcedure} :
    t.occurrences ≠ [] ↔
      ∃ line ∈ t.lines, ∃ name, .placeholder name ∈ (scan line.text).segments := by
  constructor
  · intro h
    obtain ⟨name, hname⟩ := List.exists_mem_of_ne_nil _ h
    obtain ⟨line, hline, hsegment⟩ := mem_occurrences_iff.mp hname
    exact ⟨line, hline, name, hsegment⟩
  · rintro ⟨line, hline, name, hname⟩
    exact List.ne_nil_of_mem (mem_occurrences_iff.mpr ⟨line, hline, hname⟩)

/-- No dollar sign of a template is out of place. -/
def Clean (t : TemplateProcedure) : Prop := ∀ line ∈ t.lines, (scan line.text).error = none

/-- The line at an index is the first one that is not clean. -/
structure FirstFault (t : TemplateProcedure) (index : Nat) (reason : MarkerError) : Prop where
  fault : ∃ line, t.lines[index]? = some line ∧ (scan line.text).error = some reason
  earlier : ∀ line ∈ t.lines.take index, (scan line.text).error = none

/-- A clean template all of whose placeholders have a value. -/
structure Fillable (t : TemplateProcedure) (given : Compound) : Prop where
  clean : t.Clean
  complete : ∀ name ∈ t.occurrences, given.contains name = true

theorem fillable_of_no_placeholders {t : TemplateProcedure} (clean : t.Clean)
    (hnone : t.occurrences = []) (given : Compound) : t.Fillable given :=
  ⟨clean, by simp [hnone]⟩

theorem FirstFault.not_clean {t : TemplateProcedure} {index : Nat} {reason : MarkerError}
    (h : t.FirstFault index reason) : ¬t.Clean := by
  intro clean
  obtain ⟨line, hline, hfault⟩ := h.fault
  rw [clean line (List.mem_of_getElem? hline)] at hfault
  cases hfault

end TemplateProcedure

/-- What a context says to a line that is filled in. -/
def Verdict (given : Compound) (ctx : Context) (line : Line) (r : Except Rejection Action) : Prop :=
  ∃ text, Fills given line.text.toList text ∧ ctx.validate (String.ofList text) ctx.source = r

namespace TemplateProcedure

/-- What a template comes to: faults of its placeholders go before missing arguments, and those go
before refused lines. Among the faults, and among the refused lines, the first one counts. -/
inductive ExpandsTo (t : TemplateProcedure) (arguments : Option Compound) (ctx : Context) :
    Except ExpansionError ExpandedProcedure → Prop
  | malformed {index : Nat} {reason : MarkerError} (fault : t.FirstFault index reason) :
      ExpandsTo t arguments ctx (.error (.malformedPlaceholder t.id index reason))
  | missing {required : List String} (clean : t.Clean)
      (firsts : FirstOccurrences t.occurrences required)
      (absent : ∃ name ∈ required, (arguments.getD .empty).contains name = false) :
      ExpandsTo t arguments ctx (.error (.missingArguments t.id
        (required.filter fun name => !(arguments.getD .empty).contains name)))
  | rejected {index : Nat} {line : Line} {reason : Rejection}
      (fillable : t.Fillable (arguments.getD .empty)) (found : t.lines[index]? = some line)
      (earlier : ∀ line' ∈ t.lines.take index,
        ∃ action, Verdict (arguments.getD .empty) ctx line' (.ok action))
      (refused : Verdict (arguments.getD .empty) ctx line (.error reason)) :
      ExpandsTo t arguments ctx (.error (.invalidExpansion t.id index reason))
  | expanded {actions : List Action} (fillable : t.Fillable (arguments.getD .empty))
      (accepted : List.Forall₂
        (fun line action => Verdict (arguments.getD .empty) ctx line (.ok action))
        t.lines actions) :
      ExpandsTo t arguments ctx (.ok ⟨t.id, actions⟩)

theorem segmentsFrom_eq_eachFrom (id : Identifier) (index : Nat) (lines : List Line) :
    segmentsFrom id index lines =
      eachFrom (fun line => (scan line.text).toExcept.map fun segments => segments)
        (.malformedPlaceholder id) index lines := by
  induction lines generalizing index with
  | nil => rfl
  | cons line rest ih =>
    rw [segmentsFrom, eachFrom, ih]
    cases (scan line.text).toExcept with
    | error reason => rfl
    | ok segments => rfl

theorem namesFrom_eq_eachFrom (id : Identifier) (index : Nat) (lines : List Line) :
    namesFrom id index lines =
      (eachFrom (fun line => (scan line.text).toExcept.map Segment.names)
        (ExpansionError.malformedPlaceholder id) index lines).map List.flatten := by
  induction lines generalizing index with
  | nil => rfl
  | cons line rest ih =>
    rw [namesFrom, eachFrom, ih, placeholderNames, Scan.toExcept]
    cases (scan line.text).error with
    | some reason => rfl
    | none =>
      cases eachFrom (fun line => (scan line.text).toExcept.map Segment.names)
        (ExpansionError.malformedPlaceholder id) (index + 1) rest with
      | error e => rfl
      | ok names => rfl

theorem acceptFrom_eq_eachFrom (id : Identifier) (ctx : Context) (index : Nat)
    (texts : List String) :
    acceptFrom id ctx index texts =
      eachFrom (fun text => ctx.validate text ctx.source) (.invalidExpansion id) index texts := by
  induction texts generalizing index with
  | nil => rfl
  | cons text rest ih =>
    rw [acceptFrom, eachFrom, ih]
    cases ctx.validate text ctx.source with
    | error reason => rfl
    | ok action => rfl

/-- A stage that scans each line fails with the first fault of a template. -/
theorem eachFrom_scan_eq_error_iff {β : Type} (t : TemplateProcedure) (f : List Segment → β)
    (e : ExpansionError) :
    eachFrom (fun line => (scan line.text).toExcept.map f) (.malformedPlaceholder t.id) 0 t.lines =
      .error e ↔
    ∃ index reason, t.FirstFault index reason ∧ e = .malformedPlaceholder t.id index reason := by
  rw [eachFrom_eq_error_iff]
  simp only [map_eq_error_iff, map_eq_ok_iff, Scan.toExcept_eq_error_iff,
    Scan.toExcept_eq_ok_iff, Nat.zero_add]
  constructor
  · rintro ⟨index, line, reason, hline, hfault, hearlier, rfl⟩
    refine ⟨index, reason, ⟨⟨line, hline, hfault⟩, ?_⟩, rfl⟩
    intro line' hline'
    obtain ⟨_, _, ⟨hclean, -⟩, -⟩ := hearlier line' hline'
    exact hclean
  · rintro ⟨index, reason, ⟨⟨line, hline, hfault⟩, hearlier⟩, rfl⟩
    refine ⟨index, line, reason, hline, hfault, ?_, rfl⟩
    intro line' hline'
    exact ⟨_, _, ⟨hearlier line' hline', rfl⟩, rfl⟩

theorem eachFrom_scan_of_clean {β : Type} {t : TemplateProcedure} (clean : t.Clean)
    (f : List Segment → β) :
    eachFrom (fun line => (scan line.text).toExcept.map f)
      (ExpansionError.malformedPlaceholder t.id) 0 t.lines =
      .ok (t.lines.map fun line => f (scan line.text).segments) := by
  rw [eachFrom_eq_ok_iff, List.forall₂_map_right_iff, List.forall₂_same]
  intro line hline
  rw [Scan.toExcept_eq_ok_iff.mpr ⟨clean line hline, rfl⟩]
  rfl

theorem clean_or_firstFault (t : TemplateProcedure) :
    t.Clean ∨ ∃ index reason, t.FirstFault index reason := by
  cases h : segmentsFrom t.id 0 t.lines with
  | error e =>
    rw [segmentsFrom_eq_eachFrom, eachFrom_scan_eq_error_iff] at h
    obtain ⟨index, reason, hfault, -⟩ := h
    exact .inr ⟨index, reason, hfault⟩
  | ok segments =>
    left
    intro line hline
    rw [segmentsFrom_eq_eachFrom] at h
    obtain ⟨_, hok⟩ := exists_ok_of_mem_of_eachFrom h hline
    obtain ⟨_, hscan, -⟩ := map_eq_ok_iff.mp hok
    exact (Scan.toExcept_eq_ok_iff.mp hscan).1

/-- Without faults, the required names are all names, each where it first comes. -/
theorem requiredNames_of_clean {t : TemplateProcedure} (clean : t.Clean) :
    t.requiredNames = .ok t.occurrences.eraseDups := by
  have hparts := eraseDups_flatMap_eraseDups
    (t.lines.map fun line => (scan line.text).segments.filterMap Segment.name?)
  rw [List.flatMap_map] at hparts
  rw [requiredNames, namesFrom_eq_eachFrom, eachFrom_scan_of_clean clean]
  exact congrArg Except.ok hparts

/-- The required names are refused with the fault with which the expansion is. -/
theorem requiredNames_of_firstFault {t : TemplateProcedure} {index : Nat} {reason : MarkerError}
    (h : t.FirstFault index reason) :
    t.requiredNames = .error (.malformedPlaceholder t.id index reason) := by
  rw [requiredNames, map_eq_error_iff, namesFrom_eq_eachFrom, map_eq_error_iff,
    eachFrom_scan_eq_error_iff]
  exact ⟨index, reason, h, rfl⟩

/-- The first line with a fault decides, whatever the arguments are. -/
theorem expand_of_firstFault {t : TemplateProcedure} {index : Nat} {reason : MarkerError}
    (arguments : Option Compound) (ctx : Context) (h : t.FirstFault index reason) :
    t.expand arguments ctx = .error (.malformedPlaceholder t.id index reason) := by
  have hsegments : segmentsFrom t.id 0 t.lines =
      .error (.malformedPlaceholder t.id index reason) := by
    rw [segmentsFrom_eq_eachFrom, eachFrom_scan_eq_error_iff]
    exact ⟨index, reason, h, rfl⟩
  unfold expand
  rw [hsegments]
  rfl

theorem names_flatten_segments (t : TemplateProcedure) :
    Segment.names (t.lines.map fun line => (scan line.text).segments).flatten =
      t.occurrences.eraseDups := by
  rw [Segment.names, List.filterMap_flatten, List.map_map, occurrences, List.flatMap_def]
  rfl

/-- Without faults, the arguments are looked at next. -/
theorem expand_of_clean {t : TemplateProcedure} (arguments : Option Compound) (ctx : Context)
    (clean : t.Clean) :
    t.expand arguments ctx = (do
      let values ← resolve t.id t.occurrences.eraseDups arguments
      let texts := t.lines.map fun line => Segment.renderAll values.get? (scan line.text).segments
      let actions ← acceptFrom t.id ctx 0 texts
      return ⟨t.id, actions⟩) := by
  unfold expand
  rw [segmentsFrom_eq_eachFrom, eachFrom_scan_of_clean clean]
  show (resolve t.id _ arguments >>= _) = _
  rw [names_flatten_segments]
  simp only [List.map_map, Function.comp_def]

theorem expand_of_no_placeholders {t : TemplateProcedure} (ctx : Context) (clean : t.Clean)
    (h : t.occurrences = []) (arguments arguments' : Option Compound) :
    t.expand arguments ctx = t.expand arguments' ctx := by
  rw [expand_of_clean arguments ctx clean, expand_of_clean arguments' ctx clean, h]
  rfl

theorem expand_of_missing {t : TemplateProcedure} {arguments : Option Compound} (ctx : Context)
    (clean : t.Clean)
    (absent : ∃ name ∈ t.occurrences.eraseDups, (arguments.getD .empty).contains name = false) :
    t.expand arguments ctx = .error (.missingArguments t.id
      (t.occurrences.eraseDups.filter fun name => !(arguments.getD .empty).contains name)) := by
  rw [expand_of_clean arguments ctx clean, resolve_of_missing absent]
  rfl

/-- Without faults and missing arguments, each line is sent through a stage that gives the verdict
on it. -/
theorem expand_of_fillable {t : TemplateProcedure} {arguments : Option Compound} (ctx : Context)
    (h : t.Fillable (arguments.getD .empty)) :
    ∃ stage : Line → Except Rejection Action,
      (∀ line ∈ t.lines, ∀ r, Verdict (arguments.getD .empty) ctx line r ↔ stage line = r) ∧
      t.expand arguments ctx = (eachFrom stage (ExpansionError.invalidExpansion t.id) 0
        t.lines).map fun actions => ⟨t.id, actions⟩ := by
  have hgiven : ∀ name ∈ t.occurrences.eraseDups,
      (arguments.getD .empty).contains name = true :=
    fun name hname => h.complete name (List.mem_eraseDups.mp hname)
  obtain ⟨values, hresolve, hvalues⟩ := resolve_of_given t.id hgiven
  let fill := fun line : Line => Segment.renderAll values.get? (scan line.text).segments
  refine ⟨fun line => ctx.validate (fill line) ctx.source, ?_, ?_⟩
  · intro line hline r
    have hfill : Fills (arguments.getD .empty) line.text.toList (fill line).toList := by
      apply fills_of_scanFrom (h.clean line hline)
      intro name hname
      exact hvalues name (List.mem_eraseDups.mpr (mem_occurrences_iff.mpr ⟨line, hline, hname⟩))
    constructor
    · rintro ⟨text, htext, hverdict⟩
      rwa [htext.unique hfill, String.ofList_toList] at hverdict
    · intro hverdict
      exact ⟨_, hfill, by rwa [String.ofList_toList]⟩
  · rw [expand_of_clean arguments ctx h.clean, hresolve]
    show (acceptFrom t.id ctx 0 (t.lines.map fill) >>= _) = _
    rw [acceptFrom_eq_eachFrom, eachFrom_map]
    cases eachFrom (fun line => ctx.validate (fill line) ctx.source)
      (ExpansionError.invalidExpansion t.id) 0 t.lines with
    | error e => rfl
    | ok actions => rfl

theorem expand_of_expandsTo {t : TemplateProcedure} {arguments : Option Compound} {ctx : Context}
    {r : Except ExpansionError ExpandedProcedure} (h : ExpandsTo t arguments ctx r) :
    t.expand arguments ctx = r := by
  cases h with
  | malformed fault => exact expand_of_firstFault arguments ctx fault
  | missing clean firsts absent =>
    have hrequired := firsts.unique (firstOccurrences_eraseDups t.occurrences)
    subst hrequired
    exact expand_of_missing ctx clean absent
  | @rejected index line reason fillable found earlier refused =>
    obtain ⟨stage, hstage, hexpand⟩ := expand_of_fillable ctx fillable
    rw [hexpand, map_eq_error_iff, eachFrom_eq_error_iff]
    refine ⟨index, line, reason, found, ?_, ?_, by rw [Nat.zero_add]⟩
    · exact (hstage line (List.mem_of_getElem? found) _).mp refused
    · intro line' hline'
      obtain ⟨action, haction⟩ := earlier line' hline'
      exact ⟨action, (hstage line' (List.mem_of_mem_take hline') _).mp haction⟩
  | @expanded actions fillable accepted =>
    obtain ⟨stage, hstage, hexpand⟩ := expand_of_fillable ctx fillable
    rw [hexpand, map_eq_ok_iff]
    refine ⟨actions, eachFrom_eq_ok_iff.mpr ?_, rfl⟩
    refine ((List.forall₂_and_left _ _).mpr ⟨hstage, accepted⟩).imp ?_
    rintro line action ⟨hline, haction⟩
    exact (hline _).mp haction

theorem exists_expandsTo (t : TemplateProcedure) (arguments : Option Compound) (ctx : Context) :
    ∃ r, ExpandsTo t arguments ctx r := by
  rcases t.clean_or_firstFault with clean | ⟨index, reason, fault⟩
  · by_cases habsent : ∃ name ∈ t.occurrences.eraseDups,
        (arguments.getD .empty).contains name = false
    · exact ⟨_, .missing clean (firstOccurrences_eraseDups t.occurrences) habsent⟩
    · have fillable : t.Fillable (arguments.getD .empty) := by
        refine ⟨clean, ?_⟩
        intro name hname
        by_contra hnot
        exact habsent ⟨name, List.mem_eraseDups.mpr hname, Bool.eq_false_iff.mpr hnot⟩
      obtain ⟨stage, hstage, -⟩ := expand_of_fillable ctx fillable
      cases haccept : eachFrom stage (ExpansionError.invalidExpansion t.id) 0 t.lines with
      | error e =>
        rw [eachFrom_eq_error_iff] at haccept
        obtain ⟨index, line, reason, found, hrefused, hearlier, -⟩ := haccept
        have hline := (hstage line (List.mem_of_getElem? found) _).mpr hrefused
        refine ⟨_, .rejected fillable found ?_ hline⟩
        intro line' hline'
        obtain ⟨action, haction⟩ := hearlier line' hline'
        exact ⟨action, (hstage line' (List.mem_of_mem_take hline') _).mpr haction⟩
      | ok actions =>
        have hall := (List.forall₂_and_left _ _).mpr ⟨hstage, eachFrom_eq_ok_iff.mp haccept⟩
        refine ⟨_, .expanded fillable (hall.imp ?_)⟩
        rintro line action ⟨hline, haction⟩
        exact (hline _).mpr haction
  · exact ⟨_, .malformed fault⟩

theorem expandsTo_expand (t : TemplateProcedure) (arguments : Option Compound) (ctx : Context) :
    ExpandsTo t arguments ctx (t.expand arguments ctx) := by
  obtain ⟨r, hr⟩ := exists_expandsTo t arguments ctx
  rw [expand_of_expandsTo hr]
  exact hr

theorem expand_ne_malformed {t : TemplateProcedure} {arguments : Option Compound} {ctx : Context}
    (clean : t.Clean) (procedure : Identifier) (index : Nat) (reason : MarkerError) :
    t.expand arguments ctx ≠ .error (.malformedPlaceholder procedure index reason) := by
  intro h
  have hto := expandsTo_expand t arguments ctx
  rw [h] at hto
  cases hto with
  | malformed fault => exact fault.not_clean clean

theorem exists_expand_eq_missing_iff {t : TemplateProcedure} {arguments : Option Compound}
    {ctx : Context} (clean : t.Clean) :
    (∃ procedure names, t.expand arguments ctx = .error (.missingArguments procedure names)) ↔
      ∃ name ∈ t.occurrences, (arguments.getD .empty).contains name = false := by
  constructor
  · rintro ⟨procedure, names, h⟩
    have hto := expandsTo_expand t arguments ctx
    rw [h] at hto
    cases hto with
    | missing clean firsts absent =>
      obtain ⟨name, hname, habsent⟩ := absent
      exact ⟨name, (firsts.mem_iff name).mp hname, habsent⟩
  · rintro ⟨name, hname, habsent⟩
    exact ⟨_, _, expand_of_missing ctx clean ⟨name, List.mem_eraseDups.mpr hname, habsent⟩⟩

/-- An action that is refused is a line that is refused when it is filled in. -/
theorem exists_refused_of_expand {t : TemplateProcedure} {arguments : Option Compound}
    {ctx : Context} {procedure : Identifier} {index : Nat} {reason : Rejection}
    (h : t.expand arguments ctx = .error (.invalidExpansion procedure index reason)) :
    ∃ line, t.lines[index]? = some line ∧
      Verdict (arguments.getD .empty) ctx line (.error reason) := by
  have hto := expandsTo_expand t arguments ctx
  rw [h] at hto
  cases hto with
  | rejected fillable found earlier refused => exact ⟨_, found, refused⟩

/-- What expands has all of its lines accepted when they are filled in. -/
theorem accepted_of_expand {t : TemplateProcedure} {arguments : Option Compound} {ctx : Context}
    {e : ExpandedProcedure} (h : t.expand arguments ctx = .ok e) :
    t.Fillable (arguments.getD .empty) ∧ ∀ line ∈ t.lines,
      ∃ action, Verdict (arguments.getD .empty) ctx line (.ok action) := by
  have hto := expandsTo_expand t arguments ctx
  rw [h] at hto
  cases hto with
  | expanded fillable accepted =>
    refine ⟨fillable, ?_⟩
    intro line hline
    obtain ⟨action, -, haction⟩ := exists_rel_of_mem_left accepted hline
    exact ⟨action, haction⟩

theorem exists_validate_of_mem_actions {t : TemplateProcedure} {arguments : Option Compound}
    {ctx : Context} {e : ExpandedProcedure} (h : t.expand arguments ctx = .ok e) {action : Action}
    (haction : action ∈ e.actions) : ∃ text, ctx.validate text ctx.source = .ok action := by
  have hto := expandsTo_expand t arguments ctx
  rw [h] at hto
  cases hto with
  | expanded fillable accepted =>
    obtain ⟨line, -, text, -, hverdict⟩ := exists_rel_of_mem_right accepted haction
    exact ⟨_, hverdict⟩

/-- The expansion of a template is exactly what it comes to. -/
theorem expand_eq_iff_expandsTo (t : TemplateProcedure) (arguments : Option Compound)
    (ctx : Context) (r : Except ExpansionError ExpandedProcedure) :
    t.expand arguments ctx = r ↔ ExpandsTo t arguments ctx r := by
  constructor
  · intro h
    rw [← h]
    exact expandsTo_expand t arguments ctx
  · exact expand_of_expandsTo

end TemplateProcedure
end CommandScript
