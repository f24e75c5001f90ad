import Mathlib.Data.List.Basic
import Mathlib.Data.List.Induction
import CommandScript.Proofs.Registry.Contents
import CommandScript.Script.Directory

/-! What came of some function files, and what the registry and the report make of it. -/
namespace CommandScript

/-- Stores a procedure, and records the file that it comes from. -/
def Registry.install (r : Registry) (loaded : String × Procedure) : Registry :=
  (r.add loaded.2).2.addSourceFile loaded.1

theorem Registry.sourceFiles_foldl_install (r : Registry) (loaded : List (String × Procedure)) :
    (loaded.foldl install r).sourceFiles = r.sourceFiles ++ loaded.map Prod.fst := by
  induction loaded generalizing r with
  | nil => simp
  | cons first rest ih =>
    rw [List.foldl_cons, ih, List.map_cons, List.append_cons]
    rfl

/-- Only the procedures with an identifier have a say in what is found under it. -/
theorem Registry.get?_foldl_install (r : Registry) (loaded : List (String × Procedure))
    (id : Identifier) :
    (loaded.foldl install r).get? id =
      (((loaded.filter fun l => l.2.id = id).getLast?.map Prod.snd).or (r.get? id)) := by
  induction loaded using List.reverseRecOn with
  | nil => rfl
  | append_singleton loaded last ih =>
    rw [List.foldl_append, List.foldl_cons, List.foldl_nil, install, get?_addSourceFile, get?_add,
      ih, List.filter_append]
    by_cases hid : last.2.id = id
    · simp [hid]
    · simp [hid]

namespace Script

/-- What came of the files at some paths. -/
abbrev Outcomes := List (String × Except LoadError Procedure)

namespace Outcomes

/-- The files that make up procedures, with these. -/
def loaded (outcomes : Outcomes) : List (String × Procedure) :=
  outcomes.filterMap fun o =>
    match o.2 with
    | .ok p => some (o.1, p)
    | .error _ => none

/-- The other files, with what is wrong with them. -/
def failed (outcomes : Outcomes) : List (String × LoadError) :=
  outcomes.filterMap fun o =>
    match o.2 with
    | .ok _ => none
    | .error e => some (o.1, e)

variable {outcomes outcomes' : Outcomes} {path : String}

theorem mem_loaded_iff {p : Procedure} :
    (path, p) ∈ outcomes.loaded ↔ (path, .ok p) ∈ outcomes := by
  unfold loaded
  rw [List.mem_filterMap]
  constructor
  · rintro ⟨⟨path', r⟩, hmem, h⟩
    cases r with
    | ok p' =>
      cases h
      exact hmem
    | error e => cases h
  · intro hmem
    exact ⟨_, hmem, rfl⟩

theorem mem_failed_iff {e : LoadError} :
    (path, e) ∈ outcomes.failed ↔ (path, .error e) ∈ outcomes := by
  unfold failed
  rw [List.mem_filterMap]
  constructor
  · rintro ⟨⟨path', r⟩, hmem, h⟩
    cases r with
    | ok p => cases h
    | error e' =>
      cases h
      exact hmem
  · intro hmem
    exact ⟨_, hmem, rfl⟩

theorem loaded_append (outcomes outcomes' : Outcomes) :
    loaded (outcomes ++ outcomes') = outcomes.loaded ++ outcomes'.loaded := List.filterMap_append

theorem failed_append (outcomes outcomes' : Outcomes) :
    failed (outcomes ++ outcomes') = outcomes.failed ++ outcomes'.failed := List.filterMap_append

/-- A registry and a report that know of the outcomes as well. -/
def enter (outcomes : Outcomes) (s : Registry × Report) : Registry × Report :=
  (outcomes.loaded.foldl Registry.install s.1,
    ⟨s.2.loaded + outcomes.loaded.length, s.2.failures ++ outcomes.failed⟩)

theorem enter_append (outcomes outcomes' : Outcomes) (s : Registry × Report) :
    enter (outcomes ++ outcomes') s = outcomes'.enter (outcomes.enter s) := by
  simp only [enter, loaded_append, failed_append, List.foldl_append, List.length_append,
    Nat.add_assoc, List.append_assoc]

/-- The registry of the procedures, stored one after the other. -/
def registry (outcomes : Outcomes) : Registry := outcomes.loaded.foldl Registry.install .empty

theorem sourceFiles_registry (outcomes : Outcomes) :
    outcomes.registry.sourceFiles = outcomes.loaded.map Prod.fst :=
  Registry.sourceFiles_foldl_install .empty outcomes.loaded

theorem mem_sourceFiles_iff :
    path ∈ outcomes.registry.sourceFiles ↔ ∃ p, (path, .ok p) ∈ outcomes := by
  rw [sourceFiles_registry, List.mem_map]
  constructor
  · rintro ⟨⟨path', p⟩, hmem, rfl⟩
    exact ⟨p, mem_loaded_iff.mp hmem⟩
  · rintro ⟨p, hmem⟩
    exact ⟨(path, p), mem_loaded_iff.mpr hmem, rfl⟩

/-- Every file is loaded, or else it fails. -/
theorem perm_paths (outcomes : Outcomes) :
    (outcomes.loaded.map Prod.fst ++ outcomes.failed.map Prod.fst).Perm
      (outcomes.map Prod.fst) := by
  induction outcomes with
  | nil => exact .nil
  | cons o rest ih =>
    obtain ⟨path, r⟩ := o
    cases r with
    | ok p => exact ih.cons path
    | error e => exact (List.perm_middle).trans (ih.cons path)

/-- The outcomes without that of the file at a path. -/
def others (outcomes : Outcomes) (path : String) : Outcomes :=
  outcomes.filter fun o => o.1 ≠ path

theorem others_append (outcomes outcomes' : Outcomes) (path : String) :
    others (outcomes ++ outcomes') path = outcomes.others path ++ outcomes'.others path :=
  List.filter_append outcomes outcomes'

theorem others_cons_of_eq {r : Except LoadError Procedure} {path' : String} (h : path' = path) :
    others ((path', r) :: outcomes) path = outcomes.others path := by
  simp [others, h]

theorem loaded_others (outcomes : Outcomes) (path : String) :
    (outcomes.others path).loaded = outcomes.loaded.filter fun l => l.1 ≠ path := by
  unfold others loaded
  rw [List.filterMap_filter, List.filter_filterMap]
  refine List.filterMap_congr ?_
  rintro ⟨path', r⟩ -
  cases r with
  | ok p => by_cases h : path' = path <;> simp [Option.filter, h]
  | error e => by_cases h : path' = path <;> simp [h]

theorem mem_iff_of_others_eq (h : outcomes.others path = outcomes'.others path) {path' : String}
    (hne : path' ≠ path) (r : Except LoadError Procedure) :
    (path', r) ∈ outcomes ↔ (path', r) ∈ outcomes' := by
  have hmem : ∀ outcomes : Outcomes, (path', r) ∈ outcomes.others path ↔ (path', r) ∈ outcomes := by
    intro outcomes
    simp [others, hne]
  rw [← hmem outcomes, ← hmem outcomes', h]

theorem fates_of_others_eq (h : outcomes.others path = outcomes'.others path) {path' : String}
    (hne : path' ≠ path) :
    (path' ∈ outcomes.registry.sourceFiles ↔ path' ∈ outcomes'.registry.sourceFiles) ∧
      ∀ e, (path', e) ∈ outcomes.failed ↔ (path', e) ∈ outcomes'.failed := by
  have hmem := mem_iff_of_others_eq h hne
  constructor
  · rw [mem_sourceFiles_iff, mem_sourceFiles_iff]
    exact exists_congr fun p => hmem (.ok p)
  · intro e
    rw [mem_failed_iff, mem_failed_iff]
    exact hmem (.error e)

/-- Under an identifier that the file at a path does not have, that file makes no difference. -/
theorem get?_of_others_eq (h : outcomes.others path = outcomes'.others path) {id : Identifier}
    (hid : ∀ p, (path, .ok p) ∈ outcomes → p.id ≠ id)
    (hid' : ∀ p, (path, .ok p) ∈ outcomes' → p.id ≠ id) :
    outcomes.registry.get? id = outcomes'.registry.get? id := by
  have hsame : ∀ outcomes : Outcomes, (∀ p, (path, .ok p) ∈ outcomes → p.id ≠ id) →
      outcomes.loaded.filter (fun l => l.2.id = id) =
        (outcomes.others path).loaded.filter fun l => l.2.id = id := by
    intro outcomes hid
    rw [loaded_others, List.filter_filter]
    refine List.filter_congr ?_
    rintro ⟨path', p⟩ hmem
    by_cases hpath : path' = path
    · subst hpath
      simp [hid p (mem_loaded_iff.mp hmem)]
    · simp [hpath]
  unfold registry
  rw [Registry.get?_foldl_install, Registry.get?_foldl_install, hsame outcomes hid,
    hsame outcomes' hid', h]

end Outcomes

variable {root : String} {ctx : Context}

/-- One file more: it goes on one list or the other. -/
theorem loadNext_eq (s : Registry × Report) (c : Candidate) :
    loadNext root ctx s c = Outcomes.enter [(c.path, loadCandidate root ctx c)] s := by
  unfold loadNext
  cases loadCandidate root ctx c with
  | ok p => simp [Outcomes.enter, Outcomes.loaded, Outcomes.failed, Registry.install]
  | error e => simp [Outcomes.enter, Outcomes.loaded, Outcomes.failed]

theorem foldl_loadNext (cs : List Candidate) (s : Registry × Report) :
    cs.foldl (loadNext root ctx) s =
      Outcomes.enter (cs.map fun c => (c.path, loadCandidate root ctx c)) s := by
  induction cs generalizing s with
  | nil => simp [Outcomes.enter, Outcomes.loaded, Outcomes.failed]
  | cons c rest ih =>
    rw [List.foldl_cons, ih, loadNext_eq, ← Outcomes.enter_append]
    rfl

end Script
end CommandScript
