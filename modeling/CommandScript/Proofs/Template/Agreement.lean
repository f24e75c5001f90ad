import CommandScript.Procedure
import CommandScript.Proofs.Template.Expansion

/-! Whoever looks for placeholders finds the same ones, and the same fault first. -/
namespace CommandScript
open Template

namespace Template

/-- The names of a text stand in front of the error that ends it. -/
theorem firstOccurrences_placeholderNames (text : String) :
    FirstOccurrences ((scan text).segments.filterMap Segment.name?) (placeholderNames text).1 ∧
      (placeholderNames text).2 = (scan text).error :=
  ⟨firstOccurrences_eraseDups _, rfl⟩

theorem hasPlaceholders_eq_true_iff (text : String) :
    hasPlaceholders text = .ok true ↔
      (scan text).error = none ∧ ∃ name, .placeholder name ∈ (scan text).segments := by
  have hsome : ∀ names, Segment.names (scan text).segments = names →
      (names ≠ [] ↔ ∃ name, .placeholder name ∈ (scan text).segments) := by
    rintro names rfl
    simp only [ne_eq, List.eq_nil_iff_forall_not_mem, not_forall, not_not, Segment.names,
      List.mem_eraseDups, Segment.mem_filterMap_name?]
  unfold hasPlaceholders
  split
  · next names e hscan =>
    have herror : (scan text).error = some e := congrArg Prod.snd hscan
    simp [herror]
  · next names hscan =>
    have herror : (scan text).error = none := congrArg Prod.snd hscan
    rw [← hsome names (congrArg Prod.fst hscan)]
    simp [herror]

end Template

namespace TemplateProcedure

variable {t : TemplateProcedure}

theorem requiredNames_eq_error_iff {e : ExpansionError} :
    t.requiredNames = .error e ↔
      ∃ index reason, t.FirstFault index reason ∧ e = .malformedPlaceholder t.id index reason := by
  constructor
  · intro h
    rcases t.clean_or_firstFault with clean | ⟨index, reason, fault⟩
    · rw [requiredNames_of_clean clean] at h
      cases h
    · rw [requiredNames_of_firstFault fault] at h
      cases h
      exact ⟨index, reason, fault, rfl⟩
  · rintro ⟨index, reason, fault, rfl⟩
    exact requiredNames_of_firstFault fault

theorem requiredNames_eq_ok_iff {names : List String} :
    t.requiredNames = .ok names ↔ t.Clean ∧ FirstOccurrences t.occurrences names := by
  constructor
  · intro h
    rcases t.clean_or_firstFault with clean | ⟨index, reason, fault⟩
    · rw [requiredNames_of_clean clean] at h
      cases h
      exact ⟨clean, firstOccurrences_eraseDups t.occurrences⟩
    · rw [requiredNames_of_firstFault fault] at h
      cases h
  · rintro ⟨clean, firsts⟩
    rw [requiredNames_of_clean clean, firsts.unique (firstOccurrences_eraseDups t.occurrences)]

theorem expand_eq_malformed_iff {arguments : Option Compound} {ctx : Context}
    {procedure : Identifier} {index : Nat} {reason : MarkerError} :
    t.expand arguments ctx = .error (.malformedPlaceholder procedure index reason) ↔
      t.FirstFault index reason ∧ procedure = t.id := by
  constructor
  · intro h
    have hto := expandsTo_expand t arguments ctx
    rw [h] at hto
    cases hto with
    | malformed fault => exact ⟨fault, rfl⟩
  · rintro ⟨fault, rfl⟩
    exact expand_of_firstFault arguments ctx fault

/-- Without arguments all of the names are missing. -/
theorem expand_none_of_firstOccurrences {names : List String} (ctx : Context) (clean : t.Clean)
    (firsts : FirstOccurrences t.occurrences names) (hne : names ≠ []) :
    t.expand none ctx = .error (.missingArguments t.id names) := by
  have habsent : ∀ name : String, ((none : Option Compound).getD .empty).contains name = false :=
    fun _ => rfl
  have hall : (names.filter fun name => !((none : Option Compound).getD .empty).contains name) =
      names := List.filter_eq_self.mpr fun _ _ => rfl
  obtain ⟨name, hname⟩ := List.exists_mem_of_ne_nil names hne
  have hto : t.ExpandsTo none ctx (.error (.missingArguments t.id
      (names.filter fun name => !((none : Option Compound).getD .empty).contains name))) :=
    .missing clean firsts ⟨name, hname, habsent name⟩
  rw [expand_of_expandsTo hto, hall]

theorem ofLines_of_requiredNames_nil (ctx : Context) (h : t.requiredNames = .ok []) :
    Procedure.ofLines t.id t.lines ctx = (t.expand none ctx).map Procedure.expanded := by
  unfold Procedure.ofLines
  simp only
  rw [h]
  cases t.expand none ctx with
  | error e => rfl
  | ok e => rfl

theorem ofLines_of_requiredNames_ne_nil {names : List String} (ctx : Context)
    (h : t.requiredNames = .ok names) (hne : names ≠ []) :
    Procedure.ofLines t.id t.lines ctx = .ok (.template t) := by
  have hsome : names.isEmpty = false := List.isEmpty_eq_false_iff.mpr hne
  unfold Procedure.ofLines
  simp only
  rw [h]
  simp only [Except.bind, bind, hsome]
  rfl

/-- Lines make up a template if and only if they ask for a name. -/
theorem exists_template_iff {names : List String} (ctx : Context)
    (h : t.requiredNames = .ok names) :
    (∃ p, Procedure.ofLines t.id t.lines ctx = .ok p ∧ p.isTemplate = true) ↔ names ≠ [] := by
  constructor
  · rintro ⟨p, hp, htemplate⟩ rfl
    rw [ofLines_of_requiredNames_nil ctx h, map_eq_ok_iff] at hp
    obtain ⟨e, -, rfl⟩ := hp
    cases htemplate
  · intro hne
    exact ⟨_, ofLines_of_requiredNames_ne_nil ctx h hne, rfl⟩

theorem exists_hasPlaceholders_iff {names : List String} (clean : t.Clean)
    (firsts : FirstOccurrences t.occurrences names) :
    (∃ line ∈ t.lines, hasPlaceholders line.text = .ok true) ↔ names ≠ [] := by
  have hnames : names = t.occurrences.eraseDups :=
    firsts.unique (firstOccurrences_eraseDups t.occurrences)
  rw [hnames, ne_eq, eraseDups_eq_nil_iff, ← ne_eq, occurrences_ne_nil_iff]
  constructor
  · rintro ⟨line, hline, hhas⟩
    exact ⟨line, hline, ((hasPlaceholders_eq_true_iff line.text).mp hhas).2⟩
  · rintro ⟨line, hline, hname⟩
    exact ⟨line, hline, (hasPlaceholders_eq_true_iff line.text).mpr ⟨clean line hline, hname⟩⟩

/-- The names that a template asks for are refused where its expansion finds a fault of a
placeholder, with that fault. Otherwise they are the names of all lines, each where it first comes,
and they are what an expansion without arguments misses, what a line has that has placeholders, and
what makes lines a template. The names of a single text are found in the same way. -/
theorem scans_agree :
    (∀ (t : TemplateProcedure) (arguments : Option Compound) (ctx : Context) (e : ExpansionError),
      t.requiredNames = .error e ↔ t.expand arguments ctx = .error e ∧
        ∃ procedure index reason, e = .malformedPlaceholder procedure index reason) ∧
    (∀ (t : TemplateProcedure) (names : List String), t.requiredNames = .ok names →
      FirstOccurrences t.occurrences names ∧
      (names ≠ [] → ∀ ctx, t.expand none ctx = .error (.missingArguments t.id names)) ∧
      (names ≠ [] ↔ ∃ line ∈ t.lines, hasPlaceholders line.text = .ok true) ∧
      ∀ ctx, names ≠ [] ↔
        ∃ p, Procedure.ofLines t.id t.lines ctx = .ok p ∧ p.isTemplate = true) ∧
    ∀ text : String,
      FirstOccurrences ((scan text).segments.filterMap Segment.name?) (placeholderNames text).1 ∧
        (placeholderNames text).2 = (scan text).error := by
  refine ⟨?_, ?_, firstOccurrences_placeholderNames⟩
  · intro t arguments ctx e
    rw [requiredNames_eq_error_iff]
    constructor
    · rintro ⟨index, reason, fault, rfl⟩
      exact ⟨expand_of_firstFault arguments ctx fault, t.id, index, reason, rfl⟩
    · rintro ⟨hexpand, procedure, index, reason, rfl⟩
      obtain ⟨fault, rfl⟩ := expand_eq_malformed_iff.mp hexpand
      exact ⟨index, reason, fault, rfl⟩
  · intro t names hnames
    obtain ⟨clean, firsts⟩ := requiredNames_eq_ok_iff.mp hnames
    refine ⟨firsts, ?_, (exists_hasPlaceholders_iff clean firsts).symm, ?_⟩
    · intro hne ctx
      exact expand_none_of_firstOccurrences ctx clean firsts hne
    · intro ctx
      exact (exists_template_iff ctx hnames).symm

/-- A name that two lines share is asked for once, and the dollar sign of a price is no marker. -/
theorem scans_agree_shared_name :
    ∃ t : TemplateProcedure, t.requiredNames = .ok ["who", "what"] ∧
      FirstOccurrences t.occurrences ["who", "what"] ∧
      (∀ ctx, t.expand none ctx = .error (.missingArguments t.id ["who", "what"])) ∧
      ∀ ctx, ∃ p, Procedure.ofLines t.id t.lines ctx = .ok p ∧ p.isTemplate = true := by
  let id : Identifier := ⟨"demo", "shop", ⟨by decide, List.all_eq_true.mp (by decide)⟩,
    ⟨by decide, List.all_eq_true.mp (by decide)⟩⟩
  let t : TemplateProcedure :=
    ⟨id, [⟨"tell $who$ $what$", 1⟩, ⟨"give $who$ change for $$5", 2⟩]⟩
  have hnames : t.requiredNames = .ok ["who", "what"] := by decide +kernel
  have hsome : ["who", "what"] ≠ [] := by decide
  obtain ⟨firsts, hmissing, -, htemplate⟩ := scans_agree.2.1 t _ hnames
  exact ⟨t, hnames, firsts, hmissing hsome, fun ctx => (htemplate ctx).mp hsome⟩

end TemplateProcedure
end CommandScript
