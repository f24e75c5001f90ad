import Mathlib.Data.List.Induction
import CommandScript.Proofs.Grammar.UsageLines
import CommandScript.Proofs.Stages

/-! The paths of a command tree are the usage lines registered in it, up to elements that count as
the same. -/
namespace CommandScript.Grammar
namespace Forest

theorem mem_paths_cons {e : Element} {executable : Bool} {children siblings : Forest}
    {p : List Element} :
    p ∈ (cons e executable children siblings).paths ↔
      (executable = true ∧ p = [e]) ∨ (∃ q ∈ children.paths, p = e :: q) ∨ p ∈ siblings.paths := by
  cases executable with
  | false => simp [paths, eq_comm]
  | true => simp [paths, eq_comm]

theorem paths_branch (e : Element) (rest : List Element) :
    (branch e rest).paths = [e :: rest] := by
  induction rest generalizing e with
  | nil => rfl
  | cons e' rest ih => simp [branch, paths, ih e']

theorem ne_nil_of_mem_paths {f : Forest} {p : List Element} (h : p ∈ f.paths) : p ≠ [] := by
  induction f with
  | nil => cases h
  | cons e executable children siblings _ ih =>
    rcases mem_paths_cons.mp h with ⟨-, rfl⟩ | ⟨q, -, rfl⟩ | hs
    · exact List.cons_ne_nil _ _
    · exact List.cons_ne_nil _ _
    · exact ih hs

theorem mem_paths_insert_of_mem {f : Forest} {p : List Element} (h : p ∈ f.paths) (e : Element)
    (rest : List Element) : p ∈ (f.insert e rest).paths := by
  fun_induction insert f e rest generalizing p with
  | case1 => cases h
  | case2 e₀ executable children siblings e _ =>
    rcases mem_paths_cons.mp h with ⟨-, hp⟩ | hp
    · exact mem_paths_cons.mpr (Or.inl ⟨rfl, hp⟩)
    · exact mem_paths_cons.mpr (Or.inr hp)
  | case3 e₀ executable children siblings e _ e' rest ih =>
    rcases mem_paths_cons.mp h with hp | ⟨q, hq, hp⟩ | hp
    · exact mem_paths_cons.mpr (Or.inl hp)
    · exact mem_paths_cons.mpr (Or.inr (Or.inl ⟨q, ih hq, hp⟩))
    · exact mem_paths_cons.mpr (Or.inr (Or.inr hp))
  | case4 e₀ executable children siblings e rest _ ih =>
    rcases mem_paths_cons.mp h with hp | hp | hp
    · exact mem_paths_cons.mpr (Or.inl hp)
    · exact mem_paths_cons.mpr (Or.inr (Or.inl hp))
    · exact mem_paths_cons.mpr (Or.inr (Or.inr (ih hp)))

/-- Insertion adds no other path than the usage line, which may run over elements that were there
before and count as the same. -/
theorem mem_or_same_of_mem_paths_insert {f : Forest} {e : Element} {rest : List Element}
    (hself : ∀ x ∈ e :: rest, x.same x = true) {p : List Element}
    (h : p ∈ (f.insert e rest).paths) : p ∈ f.paths ∨ SameElements p (e :: rest) := by
  fun_induction insert f e rest generalizing p with
  | case1 e rest =>
    rw [paths_branch, List.mem_singleton] at h
    rw [h]
    exact Or.inr (List.forall₂_same.mpr hself)
  | case2 e₀ executable children siblings e hsame =>
    rcases mem_paths_cons.mp h with ⟨-, rfl⟩ | hp
    · exact Or.inr (.cons hsame .nil)
    · exact Or.inl (mem_paths_cons.mpr (Or.inr hp))
  | case3 e₀ executable children siblings e hsame e' rest ih =>
    rcases mem_paths_cons.mp h with hp | ⟨q, hq, rfl⟩ | hp
    · exact Or.inl (mem_paths_cons.mpr (Or.inl hp))
    · rcases ih (fun x hx => hself x (List.mem_cons_of_mem e hx)) hq with hold | hnew
      · exact Or.inl (mem_paths_cons.mpr (Or.inr (Or.inl ⟨q, hold, rfl⟩)))
      · exact Or.inr (.cons hsame hnew)
    · exact Or.inl (mem_paths_cons.mpr (Or.inr (Or.inr hp)))
  | case4 e₀ executable children siblings e rest _ ih =>
    rcases mem_paths_cons.mp h with hp | hp | hp
    · exact Or.inl (mem_paths_cons.mpr (Or.inl hp))
    · exact Or.inl (mem_paths_cons.mpr (Or.inr (Or.inl hp)))
    · rcases ih hself hp with hold | hnew
      · exact Or.inl (mem_paths_cons.mpr (Or.inr (Or.inr hold)))
      · exact Or.inr hnew

/-- After insertion there is a path for the usage line. -/
theorem exists_same_mem_paths_insert (f : Forest) {e : Element} {rest : List Element}
    (hself : ∀ x ∈ e :: rest, x.same x = true) :
    ∃ p ∈ (f.insert e rest).paths, SameElements p (e :: rest) := by
  fun_induction insert f e rest with
  | case1 e rest =>
    refine ⟨e :: rest, ?_, List.forall₂_same.mpr hself⟩
    rw [paths_branch]
    exact List.mem_singleton_self _
  | case2 e₀ executable children siblings e hsame =>
    exact ⟨[e₀], mem_paths_cons.mpr (Or.inl ⟨rfl, rfl⟩), .cons hsame .nil⟩
  | case3 e₀ executable children siblings e hsame e' rest ih =>
    obtain ⟨q, hq, hnew⟩ := ih fun x hx => hself x (List.mem_cons_of_mem e hx)
    exact ⟨e₀ :: q, mem_paths_cons.mpr (Or.inr (Or.inl ⟨q, hq, rfl⟩)), .cons hsame hnew⟩
  | case4 e₀ executable children siblings e rest _ ih =>
    obtain ⟨p, hp, hnew⟩ := ih hself
    exact ⟨p, mem_paths_cons.mpr (Or.inr (Or.inr hp)), hnew⟩

end Forest

namespace Tree

/-- What holds of the empty tree and is kept by each usage line holds of the tree of any list of
usage lines. -/
@[elab_as_elim]
theorem ofUsages_induction {P : List String → Tree → Prop} (empty : P [] .empty)
    (add : ∀ lines t line u, P lines t → Usage.parse line = .ok u →
      P (lines ++ [line]) (t.add line u))
    {lines : List String} {t : Tree} (h : ofUsages lines = .ok t) : P lines t := by
  induction lines using List.reverseRecOn generalizing t with
  | nil =>
    cases h
    exact empty
  | append_singleton lines line ih =>
    unfold ofUsages at h
    rw [List.foldlM_append] at h
    obtain ⟨t', ht', hline⟩ := bind_eq_ok_iff.mp h
    rw [List.foldlM_cons] at hline
    obtain ⟨t'', hregister, hnil⟩ := bind_eq_ok_iff.mp hline
    obtain ⟨u, hu, rfl⟩ := map_eq_ok_iff.mp hregister
    cases hnil
    exact add lines t' line u (ih ht') hu

/-- Every path of a tree stands for one of its usage lines. -/
theorem exists_usage_of_mem_paths {lines : List String} {t : Tree} (h : ofUsages lines = .ok t) :
    ∀ p ∈ t.roots.paths, ∃ line ∈ lines, ∃ u, Usage.parse line = .ok u ∧
      SameElements p u.elements := by
  refine ofUsages_induction ?_ ?_ h
  · intro p hp
    cases hp
  · intro lines t line u ih hu p hp
    rcases Forest.mem_or_same_of_mem_paths_insert
      (fun x hx => Usage.same_self_of_mem_elements hu hx) hp with hold | hnew
    · obtain ⟨line', hline', u', hu', hsame⟩ := ih p hold
      exact ⟨line', List.mem_append_left _ hline', u', hu', hsame⟩
    · exact ⟨line, List.mem_append_right _ (List.mem_singleton_self line), u, hu, hnew⟩

/-- Every usage line of a tree has a path that stands for it. -/
theorem exists_mem_paths_of_usage {lines : List String} {t : Tree} (h : ofUsages lines = .ok t) :
    ∀ line ∈ lines, ∃ u, Usage.parse line = .ok u ∧ ∃ p ∈ t.roots.paths,
      SameElements p u.elements := by
  refine ofUsages_induction ?_ ?_ h
  · intro line hline
    cases hline
  · intro lines t line' u ih hu line hline
    rcases List.mem_append.mp hline with hold | hnew
    · obtain ⟨u', hu', p, hp, hsame⟩ := ih line hold
      exact ⟨u', hu', p, Forest.mem_paths_insert_of_mem hp _ _, hsame⟩
    · rw [List.mem_singleton.mp hnew]
      exact ⟨u, hu, Forest.exists_same_mem_paths_insert _ fun x hx =>
        Usage.same_self_of_mem_elements hu hx⟩

/-- No literal of a path is empty. -/
theorem literal_ne_nil_of_mem_paths {lines : List String} {t : Tree} (h : ofUsages lines = .ok t)
    {p : List Element} (hp : p ∈ t.roots.paths) {text : String} (htext : .literal text ∈ p) :
    text.toList ≠ [] := by
  obtain ⟨line, -, u, hu, hsame⟩ := exists_usage_of_mem_paths h p hp
  obtain ⟨e, he, hliteral⟩ := exists_rel_of_mem_left hsame htext
  rcases Element.eq_or_arguments_of_same hliteral with rfl | ⟨name, j, k, hargument, -, -⟩
  · obtain ⟨word, hword⟩ := Usage.exists_word_of_mem_elements hu he
    exact (Element.literal_of_parse? hword).1
  · cases hargument

end Tree
end CommandScript.Grammar
