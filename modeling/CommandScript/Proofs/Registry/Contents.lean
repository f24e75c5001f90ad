import Std.Data.TreeMap.Lemmas
import CommandScript.Registry

/-! What stands in a registry after a procedure has been added, or another registry merged in. -/
namespace CommandScript.Registry

theorem get?_empty (id : Identifier) : empty.get? id = none := Std.TreeMap.getElem?_emptyc

theorem getElem?_insert_eq (m : Std.TreeMap Identifier Procedure) (id id' : Identifier)
    (p : Procedure) : (m.insert id p)[id']? = if id = id' then some p else m[id']? := by
  rw [Std.TreeMap.getElem?_insert]
  simp only [Std.LawfulEqCmp.compare_eq_iff_eq]

/-- A procedure is found under its identifier, and the others where they were. -/
theorem get?_add (r : Registry) (p : Procedure) (id : Identifier) :
    (r.add p).2.get? id = if p.id = id then some p else r.get? id :=
  getElem?_insert_eq r.procedures p.id id p

theorem get?_addSourceFile (r : Registry) (path : String) (id : Identifier) :
    (r.addSourceFile path).get? id = r.get? id := rfl

private theorem getElem?_foldl_of_forall_ne {entries : List (Identifier × Procedure)}
    {id : Identifier} (h : ∀ entry ∈ entries, entry.1 ≠ id)
    (m : Std.TreeMap Identifier Procedure) :
    (entries.foldl (fun m entry => m.insert entry.1 entry.2) m)[id]? = m[id]? := by
  induction entries generalizing m with
  | nil => rfl
  | cons entry rest ih =>
    rw [List.foldl_cons, ih fun e he => h e (List.mem_cons_of_mem entry he), getElem?_insert_eq,
      if_neg (h entry List.mem_cons_self)]

/-- No identifier comes twice, so what is inserted first stays. -/
private theorem getElem?_foldl_of_mem {entries : List (Identifier × Procedure)}
    (hdistinct : entries.Pairwise fun a b => a.1 ≠ b.1) {id : Identifier} {p : Procedure}
    (h : (id, p) ∈ entries) (m : Std.TreeMap Identifier Procedure) :
    (entries.foldl (fun m entry => m.insert entry.1 entry.2) m)[id]? = some p := by
  induction entries generalizing m with
  | nil => cases h
  | cons entry rest ih =>
    obtain ⟨hfirst, hrest⟩ := List.pairwise_cons.mp hdistinct
    rw [List.foldl_cons]
    rcases List.mem_cons.mp h with rfl | hmem
    · have hothers := fun e he => (hfirst e he).symm
      rw [getElem?_foldl_of_forall_ne hothers, getElem?_insert_eq, if_pos rfl]
    · exact ih hrest hmem _

/-- The procedures of the other registry win. -/
theorem get?_merge (r other : Registry) (id : Identifier) :
    (r.merge other).get? id = (other.get? id).or (r.get? id) := by
  have hdistinct : other.procedures.toList.Pairwise fun a b => a.1 ≠ b.1 := by
    refine Std.TreeMap.distinct_keys_toList.imp ?_
    intro a b hab heq
    exact hab (Std.LawfulEqCmp.compare_eq_iff_eq.mpr heq)
  unfold merge get?
  rw [Std.TreeMap.foldl_eq_foldl_toList]
  cases hother : other.procedures[id]? with
  | some p =>
    exact getElem?_foldl_of_mem hdistinct (Std.TreeMap.mem_toList_iff_getElem?_eq_some.mpr hother) _
  | none =>
    refine getElem?_foldl_of_forall_ne ?_ _
    rintro ⟨id', p⟩ hmem rfl
    rw [Std.TreeMap.mem_toList_iff_getElem?_eq_some.mp hmem] at hother
    cases hother

end CommandScript.Registry
