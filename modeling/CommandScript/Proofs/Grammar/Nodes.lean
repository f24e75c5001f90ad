import CommandScript.Proofs.Grammar.Deepest

/-! The nodes on the top level of a forest. In a tree of usage lines siblings are distinct and what
has no children is executable, so that the paths say all about the nodes. -/
namespace CommandScript.Grammar
namespace Forest

/-- A node on the top level of a forest. -/
inductive HasNode : Forest → Element → Bool → Forest → Prop
  | first {e : Element} {executable : Bool} {children siblings : Forest} :
      HasNode (cons e executable children siblings) e executable children
  | later {e e' : Element} {executable executable' : Bool} {children children' siblings : Forest}
      (node : HasNode siblings e executable children) :
      HasNode (cons e' executable' children' siblings) e executable children

/-- No two siblings count as the same, and a node without children is executable. -/
inductive Trim : Forest → Prop
  | nil : Trim nil
  | cons {e : Element} {executable : Bool} {children siblings : Forest} (self : e.same e = true)
      (distinct : ∀ e' ∈ siblings.tops, e.same e' = false)
      (useful : executable = true ∨ children ≠ nil) (below : Trim children)
      (others : Trim siblings) : Trim (cons e executable children siblings)

theorem ne_of_distinct {e e' : Element} {siblings : Forest} (self : e.same e = true)
    (distinct : ∀ e' ∈ siblings.tops, e.same e' = false) (h : e' ∈ siblings.tops) : e' ≠ e := by
  rintro rfl
  rw [distinct e' h] at self
  cases self

section
variable {f : Forest} {e : Element} {executable : Bool} {children : Forest}

theorem HasNode.mem_tops (h : f.HasNode e executable children) : e ∈ f.tops := by
  induction h with
  | first => exact List.mem_cons_self
  | later _ ih => exact List.mem_cons_of_mem _ ih

theorem exists_node_of_mem_tops (h : e ∈ f.tops) :
    ∃ executable children, f.HasNode e executable children := by
  induction f with
  | nil => cases h
  | cons e' executable' children' siblings _ ih =>
    rcases List.mem_cons.mp h with rfl | h
    · exact ⟨_, _, .first⟩
    · obtain ⟨executable, children, hnode⟩ := ih h
      exact ⟨executable, children, .later hnode⟩

theorem exists_node_of_mem_paths {q : List Element} (h : e :: q ∈ f.paths) :
    ∃ executable children, f.HasNode e executable children := by
  induction f with
  | nil => cases h
  | cons e' executable' children' siblings _ ih =>
    rcases mem_paths_cons.mp h with ⟨-, heq⟩ | ⟨q', -, heq⟩ | h
    · cases heq
      exact ⟨_, _, .first⟩
    · cases heq
      exact ⟨_, _, .first⟩
    · obtain ⟨executable, children, hnode⟩ := ih h
      exact ⟨executable, children, .later hnode⟩

theorem mem_tops_of_mem_paths {q : List Element} (h : e :: q ∈ f.paths) : e ∈ f.tops := by
  obtain ⟨_, _, hnode⟩ := exists_node_of_mem_paths h
  exact hnode.mem_tops

namespace Trim

theorem node (hf : f.Trim) (h : f.HasNode e executable children) :
    (executable = true ∨ children ≠ Forest.nil) ∧ children.Trim := by
  induction h with
  | first =>
    cases hf with
    | cons self distinct useful below others => exact ⟨useful, below⟩
  | later _ ih =>
    cases hf with
    | cons self distinct useful below others => exact ih others

theorem exists_mem_paths (hf : f.Trim) (h : f ≠ Forest.nil) : ∃ p, p ∈ f.paths := by
  induction hf with
  | nil => exact absurd rfl h
  | @cons e executable children siblings _ _ useful _ _ ihb _ =>
    rcases useful with rfl | hchildren
    · exact ⟨[e], mem_paths_cons.mpr (Or.inl ⟨rfl, rfl⟩)⟩
    · obtain ⟨q, hq⟩ := ihb hchildren
      exact ⟨e :: q, mem_paths_cons.mpr (Or.inr (Or.inl ⟨q, hq, rfl⟩))⟩

/-- The paths that begin with the element of a node are those that go through it. -/
theorem mem_paths_node_iff (hf : f.Trim) (h : f.HasNode e executable children) (q : List Element) :
    e :: q ∈ f.paths ↔ (executable = true ∧ q = []) ∨ q ∈ children.paths := by
  induction h with
  | @first e executable children siblings =>
    cases hf with
    | cons self distinct useful below others =>
      have hsiblings : e :: q ∉ siblings.paths := fun hq =>
        ne_of_distinct self distinct (mem_tops_of_mem_paths hq) rfl
      rw [mem_paths_cons]
      simp [hsiblings]
  | @later e e' _ executable' _ children' siblings node ih =>
    cases hf with
    | cons self distinct useful below others =>
      have hne : e ≠ e' := ne_of_distinct self distinct node.mem_tops
      rw [mem_paths_cons, ← ih others]
      simp [hne]

/-- Every node is on a path. -/
theorem exists_mem_paths_of_mem_tops (hf : f.Trim) (h : e ∈ f.tops) : ∃ q, e :: q ∈ f.paths := by
  obtain ⟨executable, children, hnode⟩ := exists_node_of_mem_tops h
  obtain ⟨useful, below⟩ := hf.node hnode
  rcases useful with hexecutable | hchildren
  · exact ⟨[], (hf.mem_paths_node_iff hnode []).mpr (Or.inl ⟨hexecutable, rfl⟩)⟩
  · obtain ⟨q, hq⟩ := below.exists_mem_paths hchildren
    exact ⟨q, (hf.mem_paths_node_iff hnode q).mpr (Or.inr hq)⟩

/-- Forests with the same paths have the same nodes, with the same paths below them. -/
theorem exists_node_of_paths {g : Forest} (hf : f.Trim) (hg : g.Trim)
    (hpaths : ∀ p, p ∈ f.paths ↔ p ∈ g.paths) (h : f.HasNode e executable children) :
    ∃ children', g.HasNode e executable children' ∧
      ∀ q, q ∈ children.paths ↔ q ∈ children'.paths := by
  obtain ⟨q, hq⟩ := hf.exists_mem_paths_of_mem_tops h.mem_tops
  obtain ⟨executable', children', h'⟩ := exists_node_of_mem_paths ((hpaths _).mp hq)
  have hiff : ∀ q, ((executable = true ∧ q = []) ∨ q ∈ children.paths) ↔
      ((executable' = true ∧ q = []) ∨ q ∈ children'.paths) := by
    intro q
    rw [← hf.mem_paths_node_iff h, ← hg.mem_paths_node_iff h', hpaths]
  have hnil : ∀ c : Forest, [] ∉ c.paths := fun c hc => ne_nil_of_mem_paths hc rfl
  have hexecutable : executable = executable' := by
    rw [Bool.eq_iff_iff]
    simpa [hnil] using hiff []
  subst hexecutable
  refine ⟨children', h', ?_⟩
  intro q
  by_cases hq : q = []
  · subst hq
    exact iff_of_false (hnil _) (hnil _)
  · simpa [hq] using hiff q

theorem eq_nil_iff (hf : f.Trim) : f = Forest.nil ↔ ∀ p, p ∉ f.paths := by
  constructor
  · rintro rfl p hp
    cases hp
  · intro h
    by_contra hne
    obtain ⟨p, hp⟩ := hf.exists_mem_paths hne
    exact h p hp

end Trim
end

theorem insert_ne_nil (f : Forest) (e : Element) (rest : List Element) : f.insert e rest ≠ nil := by
  fun_cases insert f e rest with
  | case1 =>
    cases rest with
    | nil => exact nofun
    | cons e' rest => exact nofun
  | case2 => exact nofun
  | case3 => exact nofun
  | case4 => exact nofun

theorem trim_branch {e : Element} {rest : List Element} (h : ∀ x ∈ e :: rest, x.same x = true) :
    (branch e rest).Trim := by
  induction rest generalizing e with
  | nil => exact .cons (h e List.mem_cons_self) nofun (Or.inl rfl) .nil .nil
  | cons e' rest ih =>
    have hbelow := ih fun x hx => h x (List.mem_cons_of_mem e hx)
    have hchildren : branch e' rest ≠ nil := by
      intro hnil
      have hpaths := paths_branch e' rest
      rw [hnil] at hpaths
      cases hpaths
    exact .cons (h e List.mem_cons_self) nofun (Or.inr hchildren) hbelow .nil

theorem Trim.insert {f : Forest} (hf : f.Trim) {e : Element} {rest : List Element}
    (h : ∀ x ∈ e :: rest, x.same x = true) : (f.insert e rest).Trim := by
  fun_induction Forest.insert f e rest with
  | case1 e rest => exact trim_branch h
  | case2 e₀ executable children siblings e hsame =>
    cases hf with
    | cons self distinct useful below others => exact .cons self distinct (Or.inl rfl) below others
  | case3 e₀ executable children siblings e hsame e' rest ih =>
    cases hf with
    | cons self distinct useful below others =>
      have hbelow := ih below fun x hx => h x (List.mem_cons_of_mem e hx)
      exact .cons self distinct (Or.inr (insert_ne_nil _ _ _)) hbelow others
  | case4 e₀ executable children siblings e rest hsame ih =>
    cases hf with
    | cons self distinct useful below others =>
      refine .cons self ?_ useful below (ih others h)
      intro x hx
      rcases mem_tops_insert hx with hold | ⟨rfl, -⟩
      · exact distinct x hold
      · simpa using hsame

end Forest

theorem Tree.trim_of_usages {lines : List String} {t : Tree} (h : ofUsages lines = .ok t) :
    t.roots.Trim := by
  refine ofUsages_induction .nil ?_ h
  intro lines t line u ih hu
  exact ih.insert fun x hx => Usage.same_self_of_mem_elements hu hx

end CommandScript.Grammar
