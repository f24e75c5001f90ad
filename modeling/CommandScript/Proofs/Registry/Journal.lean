import Mathlib.Logic.Function.Basic
import CommandScript.Proofs.Registry.Contents
import CommandScript.Proofs.Template.Expansion

/-! Runs of operations on numbered registries against journals of what has been stored. Whatever the
run, a registry answers as its journal says: the procedure stored last under an identifier
counts. -/
namespace CommandScript

theorem Procedure.id_of_expand {p : Procedure} {arguments : Option Compound} {ctx : Context}
    {e : ExpandedProcedure} (h : p.expand arguments ctx = .ok e) : e.id = p.id := by
  cases p with
  | template t =>
    have hto := TemplateProcedure.expandsTo_expand t arguments ctx
    rw [show t.expand arguments ctx = .ok e from h] at hto
    cases hto with
    | expanded => rfl
  | expanded e' =>
    cases h
    rfl

/-- The order of identifiers: by namespace, then by path. -/
theorem Identifier.compare_eq_lt_iff (a b : Identifier) :
    compare a b = .lt ↔ a.space < b.space ∨ (a.space = b.space ∧ a.path < b.path) := by
  have hlex : compare a b = (compare a.space b.space).then (compare a.path b.path) := rfl
  have hlt : ∀ s t : String, compare s t = .lt ↔ s < t := fun s t => compareOfLessAndEq_eq_lt
  rw [hlex, Ordering.then_eq_lt, hlt, hlt, Std.LawfulEqCmp.compare_eq_iff_eq]

namespace Registry

theorem mem_ids_iff (r : Registry) (id : Identifier) :
    id ∈ r.ids ↔ ∃ p, r.get? id = some p := by
  unfold ids get?
  rw [Std.TreeMap.mem_keys, Std.TreeMap.mem_iff_isSome_getElem?, Option.isSome_iff_exists]

theorem pairwise_ids (r : Registry) : r.ids.Pairwise fun a b => compare a b = .lt :=
  Std.TreeMap.ordered_keys

theorem length_ids (r : Registry) : r.ids.length = r.size := Std.TreeMap.length_keys

theorem invoke_of_none {r : Registry} {id : Identifier} (arguments : Option Compound)
    (ctx : Context) (h : r.get? id = none) :
    r.invoke id arguments ctx = .error (.unknownProcedure id) := by
  rw [invoke, h]

theorem invoke_of_some {r : Registry} {id : Identifier} {p : Procedure}
    (arguments : Option Compound) (ctx : Context) (h : r.get? id = some p) :
    r.invoke id arguments ctx = (p.expand arguments ctx).mapError .expansion := by
  rw [invoke, h]

/-- An operation on numbered registries. -/
inductive Operation
  | add (number : Nat) (p : Procedure)
  | merge (number other : Nat)
  | addSourceFile (number : Nat) (path : String)
  | get (number : Nat) (id : Identifier)
  | invoke (number : Nat) (id : Identifier) (arguments : Option Compound) (ctx : Context)

/-- What an operation answers. -/
inductive Answer
  | nothing
  | procedure (p : Option Procedure)
  | outcome (r : Except InvocationError ExpandedProcedure)

/-- The answer of an operation, and the registries after it. -/
def Operation.perform (registries : Nat → Registry) : Operation → Answer × (Nat → Registry)
  | add number p =>
    let (replaced, r) := (registries number).add p
    (.procedure replaced, Function.update registries number r)
  | merge number other =>
    (.nothing,
      Function.update registries number ((registries number).merge (registries other)))
  | addSourceFile number path =>
    (.nothing, Function.update registries number ((registries number).addSourceFile path))
  | get number id => (.procedure ((registries number).get? id), registries)
  | invoke number id arguments ctx =>
    (.outcome ((registries number).invoke id arguments ctx), registries)

/-- The registries after a run that starts with empty ones. -/
def run (operations : List Operation) : Nat → Registry :=
  operations.foldl (fun registries o => (o.perform registries).2) fun _ => empty

/-- What has been stored in a registry, the latest first, and the files recorded, in order. -/
structure Journal where
  stored : List Procedure
  files : List String

namespace Journal

/-- The procedure that was stored last under an identifier. -/
def latest? (j : Journal) (id : Identifier) : Option Procedure :=
  j.stored.find? fun p => p.id = id

/-- What is still to be found, and not hidden by a later procedure. -/
def current (j : Journal) : List Procedure :=
  j.stored.filter fun p => j.latest? p.id = some p

/-- The answer that an operation has to give, by the journals alone. -/
def expected (journals : Nat → Journal) : Operation → Answer
  | .add number p => .procedure ((journals number).latest? p.id)
  | .merge _ _ => .nothing
  | .addSourceFile _ _ => .nothing
  | .get number id => .procedure ((journals number).latest? id)
  | .invoke number id arguments ctx =>
    .outcome <|
      match (journals number).latest? id with
      | none => .error (.unknownProcedure id)
      | some p => (p.expand arguments ctx).mapError .expansion

/-- The journals after an operation. A merge stores again what is to be found in the other registry,
and records its files behind those recorded before. -/
def note (journals : Nat → Journal) : Operation → (Nat → Journal)
  | .add number p =>
    let j := journals number
    Function.update journals number { j with stored := p :: j.stored }
  | .merge number other =>
    let j := journals number
    let k := journals other
    Function.update journals number ⟨k.current ++ j.stored, j.files ++ k.files⟩
  | .addSourceFile number path =>
    let j := journals number
    Function.update journals number { j with files := j.files ++ [path] }
  | .get _ _ => journals
  | .invoke _ _ _ _ => journals

/-- The journals of a run that starts with empty registries. -/
def ofRun (operations : List Operation) : Nat → Journal :=
  operations.foldl note fun _ => ⟨[], []⟩

theorem latest?_eq_some {j : Journal} {id : Identifier} {p : Procedure}
    (h : j.latest? id = some p) : p.id = id := by
  have hid := List.find?_some h
  exact of_decide_eq_true hid

theorem latest?_eq_none_iff (j : Journal) (id : Identifier) :
    j.latest? id = none ↔ ∀ p ∈ j.stored, p.id ≠ id := by
  simp [latest?]

/-- What a later procedure hides is not to be found, so that leaving it out changes nothing. -/
theorem find?_current (j : Journal) (id : Identifier) :
    j.current.find? (fun p => p.id = id) = j.latest? id := by
  unfold current
  rw [List.find?_filter]
  cases hlatest : j.latest? id with
  | none =>
    have hnone := (j.latest?_eq_none_iff id).mp hlatest
    rw [List.find?_eq_none]
    intro p hp
    simp [hnone p hp]
  | some p =>
    obtain ⟨hp, before, behind, hstored, hbefore⟩ := List.find?_eq_some_iff_append.mp hlatest
    have hid := latest?_eq_some hlatest
    rw [List.find?_eq_some_iff_append]
    refine ⟨by simp [hid, hlatest], before, behind, hstored, ?_⟩
    intro q hq
    have hne : q.id ≠ id := by simpa using hbefore q hq
    simp [hne]

end Journal

/-- The registry holds what the journal says. -/
structure Keeps (r : Registry) (j : Journal) : Prop where
  get?_eq : ∀ id, r.get? id = j.latest? id
  sourceFiles_eq : r.sourceFiles = j.files

namespace Keeps

theorem empty : Keeps .empty ⟨[], []⟩ := ⟨get?_empty, rfl⟩

variable {r other : Registry} {j k : Journal}

theorem add (h : Keeps r j) (p : Procedure) : Keeps (r.add p).2 ⟨p :: j.stored, j.files⟩ := by
  refine ⟨?_, h.sourceFiles_eq⟩
  intro id
  rw [get?_add, h.get?_eq, Journal.latest?, Journal.latest?, List.find?_cons]
  by_cases hid : p.id = id
  · simp [hid]
  · simp [hid]

theorem merge (h : Keeps r j) (hother : Keeps other k) :
    Keeps (r.merge other) ⟨k.current ++ j.stored, j.files ++ k.files⟩ := by
  refine ⟨?_, congrArg₂ (· ++ ·) h.sourceFiles_eq hother.sourceFiles_eq⟩
  intro id
  have hsplit : Journal.latest? ⟨k.current ++ j.stored, j.files ++ k.files⟩ id =
      (k.latest? id).or (j.latest? id) := by
    rw [Journal.latest?, List.find?_append, k.find?_current]
    rfl
  rw [get?_merge, h.get?_eq, hother.get?_eq, hsplit]

theorem addSourceFile (h : Keeps r j) (path : String) :
    Keeps (r.addSourceFile path) ⟨j.stored, j.files ++ [path]⟩ := by
  refine ⟨?_, congrArg (· ++ [path]) h.sourceFiles_eq⟩
  intro id
  rw [get?_addSourceFile]
  exact h.get?_eq id

end Keeps

section
variable {registries : Nat → Registry} {journals : Nat → Journal}

theorem keeps_update (h : ∀ n, Keeps (registries n) (journals n)) {r : Registry} {j : Journal}
    (hr : Keeps r j) (number n : Nat) :
    Keeps (Function.update registries number r n) (Function.update journals number j n) := by
  by_cases hn : n = number
  · subst hn
    simpa using hr
  · simpa [Function.update_of_ne hn] using h n

/-- An operation answers as the journals say, and they go on saying what the registries hold. -/
theorem keeps_perform (h : ∀ n, Keeps (registries n) (journals n)) (o : Operation) :
    (o.perform registries).1 = Journal.expected journals o ∧
      ∀ n, Keeps ((o.perform registries).2 n) (Journal.note journals o n) := by
  cases o with
  | add number p =>
    exact ⟨congrArg Answer.procedure ((h number).get?_eq p.id),
      keeps_update h ((h number).add p) number⟩
  | merge number other => exact ⟨rfl, keeps_update h ((h number).merge (h other)) number⟩
  | addSourceFile number path => exact ⟨rfl, keeps_update h ((h number).addSourceFile path) number⟩
  | get number id => exact ⟨congrArg Answer.procedure ((h number).get?_eq id), h⟩
  | invoke number id arguments ctx =>
    have hget := (h number).get?_eq id
    refine ⟨congrArg Answer.outcome ?_, h⟩
    cases hlatest : (journals number).latest? id with
    | none => exact invoke_of_none arguments ctx (hget.trans hlatest)
    | some p => exact invoke_of_some arguments ctx (hget.trans hlatest)

end

theorem keeps_run (operations : List Operation) (n : Nat) :
    Keeps (run operations n) (Journal.ofRun operations n) := by
  induction operations using List.reverseRecOn generalizing n with
  | nil => exact .empty
  | append_singleton operations o ih =>
    unfold run Journal.ofRun at ih ⊢
    rw [List.foldl_append, List.foldl_append]
    exact (keeps_perform ih o).2 n

theorem invoke_eq_unknown_iff (r : Registry) (id : Identifier) (arguments : Option Compound)
    (ctx : Context) :
    (∃ unknown, r.invoke id arguments ctx = .error (.unknownProcedure unknown)) ↔
      r.get? id = none := by
  cases hget : r.get? id with
  | none => simp [invoke_of_none arguments ctx hget]
  | some p =>
    rw [invoke_of_some arguments ctx hget]
    cases p.expand arguments ctx with
    | ok e => simp [Except.mapError]
    | error e => simp [Except.mapError]

theorem id_of_invoke {r : Registry} (hkeys : ∀ id p, r.get? id = some p → p.id = id)
    {id : Identifier} {arguments : Option Compound} {ctx : Context} {e : ExpandedProcedure}
    (h : r.invoke id arguments ctx = .ok e) : e.id = id := by
  cases hget : r.get? id with
  | none =>
    rw [invoke_of_none arguments ctx hget] at h
    cases h
  | some p =>
    rw [invoke_of_some arguments ctx hget] at h
    exact (Procedure.id_of_expand (mapError_eq_ok_iff.mp h)).trans (hkeys id p hget)

/-- After any run, whatever operation comes next answers as the journals say. A registry has under
each identifier what was stored there last, and it is found under its own identifier; adding gives
back what stood there; the identifiers come in ascending order, each of them once; the files are
those recorded; and only an identifier that nothing was stored under is unknown to an invocation,
which otherwise gives a procedure with that identifier if it gives one. -/
theorem answers_of_run (operations : List Operation) :
    (∀ next : Operation, (next.perform (run operations)).1 =
      Journal.expected (Journal.ofRun operations) next) ∧
    ∀ n, let r := run operations n; let j := Journal.ofRun operations n
      (∀ id, r.get? id = j.latest? id) ∧
      (∀ p, (r.add p).1 = r.get? p.id) ∧
      (∀ id p, r.get? id = some p → p.id = id) ∧
      (r.ids.Pairwise fun a b => a.space < b.space ∨ (a.space = b.space ∧ a.path < b.path)) ∧
      (∀ id, id ∈ r.ids ↔ ∃ p ∈ j.stored, p.id = id) ∧
      r.ids.length = r.size ∧
      r.sourceFiles = j.files ∧
      ∀ id arguments ctx,
        ((∃ unknown, r.invoke id arguments ctx = .error (.unknownProcedure unknown)) ↔
          ∀ p ∈ j.stored, p.id ≠ id) ∧
        ∀ e, r.invoke id arguments ctx = .ok e → e.id = id := by
  refine ⟨fun next => (keeps_perform (keeps_run operations) next).1, ?_⟩
  intro n r j
  have hkeeps : Keeps r j := keeps_run operations n
  have hkeys : ∀ id p, r.get? id = some p → p.id = id := by
    intro id p h
    rw [hkeeps.get?_eq] at h
    exact Journal.latest?_eq_some h
  have hstored : ∀ id, r.get? id = none ↔ ∀ p ∈ j.stored, p.id ≠ id := by
    intro id
    rw [hkeeps.get?_eq]
    exact j.latest?_eq_none_iff id
  refine ⟨hkeeps.get?_eq, fun p => rfl, hkeys, ?_, ?_, r.length_ids, hkeeps.sourceFiles_eq, ?_⟩
  · exact r.pairwise_ids.imp fun h => (Identifier.compare_eq_lt_iff _ _).mp h
  · intro id
    rw [r.mem_ids_iff, ← Option.ne_none_iff_exists', Ne, hstored id]
    simp
  · intro id arguments ctx
    have hunknown := (r.invoke_eq_unknown_iff id arguments ctx).trans (hstored id)
    exact ⟨hunknown, fun e => id_of_invoke hkeys⟩

end Registry
end CommandScript
