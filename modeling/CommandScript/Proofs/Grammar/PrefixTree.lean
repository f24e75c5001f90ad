import CommandScript.Proofs.Grammar.Nodes

/-! A command tree is the exact prefix tree of the usage lines that were registered in it, after any
calls, of which some may have failed. -/
namespace CommandScript.Grammar
namespace Forest

/-- At the place to which the path `before` leads, a node with the element `a` stands in front of
one with the element `b`. -/
inductive Precedes : Forest → List Element → Element → Element → Prop
  | here {a b : Element} {executable : Bool} {children siblings : Forest} (h : b ∈ siblings.tops) :
      Precedes (cons a executable children siblings) [] a b
  | deeper {e a b : Element} {executable : Bool} {children siblings : Forest}
      {before : List Element} (inner : Precedes children before a b) :
      Precedes (cons e executable children siblings) (e :: before) a b
  | later {e a b : Element} {executable : Bool} {children siblings : Forest}
      {before : List Element} (others : Precedes siblings before a b) :
      Precedes (cons e executable children siblings) before a b

/-- The path `p` leads to a node, which may be executable and may have children. -/
inductive NodeAt : Forest → List Element → Bool → Forest → Prop
  | here {e : Element} {executable : Bool} {children siblings : Forest} :
      NodeAt (cons e executable children siblings) [e] executable children
  | deeper {e : Element} {executable executable' : Bool} {children siblings inner : Forest}
      {p : List Element} (node : NodeAt children p executable' inner) :
      NodeAt (cons e executable children siblings) (e :: p) executable' inner
  | later {e : Element} {executable executable' : Bool} {children siblings inner : Forest}
      {p : List Element} (node : NodeAt siblings p executable' inner) :
      NodeAt (cons e executable children siblings) p executable' inner

section
variable {f : Forest} {p : List Element} {executable : Bool} {children : Forest}

/-- What follows on a path below a node goes on with the path to the node. -/
theorem NodeAt.append_mem_paths (h : f.NodeAt p executable children) {q : List Element}
    (hq : q ∈ children.paths) : p ++ q ∈ f.paths := by
  induction h with
  | here => exact mem_paths_cons.mpr (Or.inr (Or.inl ⟨q, hq, rfl⟩))
  | deeper node ih => exact mem_paths_cons.mpr (Or.inr (Or.inl ⟨_, ih hq, rfl⟩))
  | later node ih => exact mem_paths_cons.mpr (Or.inr (Or.inr (ih hq)))

theorem NodeAt.trim (h : f.NodeAt p executable children) (hf : f.Trim) :
    (executable = true ∨ children ≠ nil) ∧ children.Trim := by
  induction h with
  | here => exact hf.node .first
  | deeper node ih => exact ih (hf.node .first).2
  | later node ih =>
    cases hf with
    | cons self distinct useful below others => exact ih others

/-- The paths of a forest are those from the top to its executable nodes. -/
theorem mem_paths_iff_nodeAt : p ∈ f.paths ↔ ∃ children, f.NodeAt p true children := by
  constructor
  · intro h
    induction f generalizing p with
    | nil => cases h
    | cons e executable children siblings ihc ihs =>
      rcases mem_paths_cons.mp h with ⟨rfl, rfl⟩ | ⟨q, hq, rfl⟩ | hs
      · exact ⟨children, .here⟩
      · obtain ⟨inner, hnode⟩ := ihc hq
        exact ⟨inner, .deeper hnode⟩
      · obtain ⟨inner, hnode⟩ := ihs hs
        exact ⟨inner, .later hnode⟩
  · rintro ⟨children, h⟩
    generalize hexecutable : true = executable at h
    induction h with
    | here =>
      subst hexecutable
      exact mem_paths_cons.mpr (Or.inl ⟨rfl, rfl⟩)
    | deeper node ih => exact mem_paths_cons.mpr (Or.inr (Or.inl ⟨_, ih hexecutable, rfl⟩))
    | later node ih => exact mem_paths_cons.mpr (Or.inr (Or.inr (ih hexecutable)))

/-- Every node lies on a path. -/
theorem NodeAt.exists_mem_paths (h : f.NodeAt p executable children) (hf : f.Trim) :
    ∃ q, p ++ q ∈ f.paths := by
  obtain ⟨rfl | hne, hchildren⟩ := h.trim hf
  · exact ⟨[], by simpa using mem_paths_iff_nodeAt.mpr ⟨children, h⟩⟩
  · obtain ⟨q, hq⟩ := hchildren.exists_mem_paths hne
    exact ⟨q, h.append_mem_paths hq⟩

namespace Trim

theorem not_same_of_precedes (hf : f.Trim) {a b : Element} (h : f.Precedes p a b) :
    a.same b = false := by
  induction h with
  | here h =>
    cases hf with
    | cons self distinct useful below others => exact distinct _ h
  | deeper inner ih => exact ih (hf.node .first).2
  | later others' ih =>
    cases hf with
    | cons self distinct useful below others => exact ih others

/-- A path among the siblings of a node differs from every list that begins with the element of the
node, or with one that counts as the same. -/
theorem not_sameElements_of_siblings {e e' : Element} {siblings : Forest} {q rest : List Element}
    (distinct : ∀ x ∈ siblings.tops, e.same x = false) (hsame : e.same e' = true)
    (hq : q ∈ siblings.paths) : ¬SameElements q (e' :: rest) := by
  intro h
  cases h with
  | cons hxe' hrest =>
    have hex := Element.same_trans hsame (Element.same_symm hxe')
    rw [distinct _ (mem_tops_of_mem_paths hq)] at hex
    cases hex

/-- No two paths count as the same, not even at different places of the list. -/
theorem pairwise_paths (hf : f.Trim) : f.paths.Pairwise fun p q => ¬SameElements p q := by
  induction hf with
  | nil => exact .nil
  | @cons e executable children siblings self distinct useful below others ihb iho =>
    have hbelow : (children.paths.map (e :: ·)).Pairwise fun p q => ¬SameElements p q := by
      refine List.pairwise_map.mpr (ihb.imp ?_)
      intro p q hpq h
      cases h with
      | cons hee hrest => exact hpq hrest
    have hsiblings : ∀ q ∈ siblings.paths, ∀ rest, ¬SameElements (e :: rest) q := by
      intro q hq rest h
      exact not_sameElements_of_siblings distinct self hq h.symm
    have hleaf : ∀ q ∈ children.paths, ¬SameElements [e] (e :: q) := by
      intro q hq h
      cases h with
      | cons hee hrest =>
        cases hrest
        exact ne_nil_of_mem_paths hq rfl
    have hnode : ((if executable then [[e]] else []) ++ children.paths.map (e :: ·)).Pairwise
        fun p q => ¬SameElements p q := by
      cases executable with
      | false => simpa using hbelow
      | true => simpa using ⟨hleaf, hbelow⟩
    refine List.pairwise_append.mpr ⟨hnode, iho, ?_⟩
    intro p hp q hq
    have hrest : ∃ rest, p = e :: rest := by
      rcases List.mem_append.mp hp with hp | hp
      · cases executable with
        | false => cases hp
        | true => exact ⟨[], List.mem_singleton.mp hp⟩
      · obtain ⟨rest, -, rfl⟩ := List.mem_map.mp hp
        exact ⟨rest, rfl⟩
    obtain ⟨rest, rfl⟩ := hrest
    exact hsiblings q hq rest

/-- A usage line for which there is a path adds nothing. -/
theorem insert_eq_self (hf : f.Trim) {e : Element} {rest : List Element} (hp : p ∈ f.paths)
    (hsame : SameElements p (e :: rest)) : f.insert e rest = f := by
  fun_induction Forest.insert f e rest generalizing p with
  | case1 => cases hp
  | case2 e₀ executable children siblings e he =>
    cases hf with
    | cons self distinct useful below others =>
      rcases mem_paths_cons.mp hp with ⟨rfl, -⟩ | ⟨q, hq, rfl⟩ | hs
      · rfl
      · cases hsame with
        | cons hee hrest =>
          cases hrest
          exact absurd rfl (ne_nil_of_mem_paths hq)
      · exact absurd hsame (not_sameElements_of_siblings distinct he hs)
  | case3 e₀ executable children siblings e he e' rest ih =>
    cases hf with
    | cons self distinct useful below others =>
      rcases mem_paths_cons.mp hp with ⟨-, rfl⟩ | ⟨q, hq, rfl⟩ | hs
      · cases hsame with
        | cons hee hrest => cases hrest
      · cases hsame with
        | cons hee hrest => rw [ih below hq hrest]
      · exact absurd hsame (not_sameElements_of_siblings distinct he hs)
  | case4 e₀ executable children siblings e rest he ih =>
    cases hf with
    | cons self distinct useful below others =>
      rcases mem_paths_cons.mp hp with ⟨-, rfl⟩ | ⟨q, -, rfl⟩ | hs
      · cases hsame with
        | cons hee hrest => exact absurd hee he
      · cases hsame with
        | cons hee hrest => exact absurd hee he
      · rw [ih others hs hsame]

end Trim
end
end Forest

namespace Tree

/-- The tree is the prefix tree of its usage lines: siblings differ, every root is a command word,
a greedy argument has nothing below it, every leaf is executable, and the paths to executable nodes
are the usage lines, each once. -/
structure IsTrie (t : Tree) : Prop where
  distinct : ∀ before a b, t.roots.Precedes before a b → a.same b = false
  commandWords : ∀ e ∈ t.roots.tops, ∃ text, e = .literal text
  greedyLast : ∀ before name executable children,
    t.roots.NodeAt (before ++ [.argument name .greedy]) executable children → children = .nil
  leaves : ∀ p executable, t.roots.NodeAt p executable .nil → executable = true
  executable_sound : ∀ p children, t.roots.NodeAt p true children →
    ∃ line ∈ t.usages, ∃ u, Usage.parse line = .ok u ∧ SameElements p u.elements
  executable_complete : ∀ line ∈ t.usages, ∃ u, Usage.parse line = .ok u ∧
    ∃ p children, t.roots.NodeAt p true children ∧ SameElements p u.elements
  paths_once : t.roots.paths.Pairwise fun p q => ¬SameElements p q

theorem usages_of_usages {lines : List String} {t : Tree} (h : ofUsages lines = .ok t) :
    t.usages = lines := by
  refine ofUsages_induction rfl ?_ h
  intro lines t line u ih _
  exact congrArg (· ++ [line]) ih

/-- On a path, only the last element can be greedy. -/
theorem not_isGreedy_of_mem_dropLast {lines : List String} {t : Tree} (h : ofUsages lines = .ok t)
    {p : List Element} (hp : p ∈ t.roots.paths) : ∀ e ∈ p.dropLast, e.isGreedy = false := by
  intro e he
  obtain ⟨line, -, u, hu, hsame⟩ := exists_usage_of_mem_paths h p hp
  obtain ⟨e', he', hee'⟩ := exists_rel_of_mem_left hsame.dropLast he
  rw [Element.isGreedy_eq_of_same hee']
  exact Usage.not_isGreedy_of_mem_dropLast hu e' he'

theorem isTrie_of_usages {lines : List String} {t : Tree} (h : ofUsages lines = .ok t) :
    t.IsTrie := by
  have htrim := trim_of_usages h
  have husages := usages_of_usages h
  refine ⟨fun _ _ _ => htrim.not_same_of_precedes, ?_, ?_, ?_, ?_, ?_, htrim.pairwise_paths⟩
  · intro e he
    obtain ⟨text, htext, -⟩ := hasCommandWords_of_usages h e he
    exact ⟨text, htext⟩
  · intro before name executable children hnode
    by_contra hne
    obtain ⟨q, hq⟩ := (hnode.trim htrim).2.exists_mem_paths hne
    have hpath := hnode.append_mem_paths hq
    have hlast : Element.argument name .greedy ∈
        (before ++ [Element.argument name .greedy] ++ q).dropLast := by
      rw [List.dropLast_append_of_ne_nil (Forest.ne_nil_of_mem_paths hq)]
      simp
    have hgreedy := not_isGreedy_of_mem_dropLast h hpath _ hlast
    cases hgreedy
  · intro p executable hnode
    rcases (hnode.trim htrim).1 with hexecutable | hne
    · exact hexecutable
    · exact absurd rfl hne
  · intro p children hnode
    rw [husages]
    exact exists_usage_of_mem_paths h p (Forest.mem_paths_iff_nodeAt.mpr ⟨children, hnode⟩)
  · intro line hline
    rw [husages] at hline
    obtain ⟨u, hu, p, hp, hsame⟩ := exists_mem_paths_of_usage h line hline
    obtain ⟨children, hnode⟩ := Forest.mem_paths_iff_nodeAt.mp hp
    exact ⟨u, hu, p, children, hnode, hsame⟩

/-- The tree after calls that register lines, one after another; those that fail leave it as it
is. -/
def afterCalls (lines : List String) : Tree :=
  lines.foldl (fun t line => (t.register line).toOption.getD t) empty

theorem afterCalls_append_singleton (lines : List String) (line : String) :
    afterCalls (lines ++ [line]) =
      ((afterCalls lines).register line).toOption.getD (afterCalls lines) := by
  rw [afterCalls, List.foldl_append]
  rfl

theorem ofUsages_append_singleton {lines : List String} {t : Tree} (h : ofUsages lines = .ok t)
    (line : String) : ofUsages (lines ++ [line]) = t.register line := by
  unfold ofUsages at h ⊢
  rw [List.foldlM_append, h]
  cases hregister : t.register line with
  | error e => simp [bind, Except.bind, hregister]
  | ok t' => simp [bind, Except.bind, hregister, pure, Except.pure]

/-- After any calls the tree is the one of the lines that it has accepted. -/
theorem ofUsages_afterCalls (lines : List String) :
    ofUsages (afterCalls lines).usages = .ok (afterCalls lines) := by
  induction lines using List.reverseRecOn with
  | nil => rfl
  | append_singleton lines line ih =>
    rw [afterCalls_append_singleton]
    cases hregister : (afterCalls lines).register line with
    | error e => exact ih
    | ok t =>
      obtain ⟨u, -, rfl⟩ := map_eq_ok_iff.mp hregister
      have happend := ofUsages_append_singleton ih line
      rwa [hregister] at happend

/-- After any calls the tree is the prefix tree of the lines registered so far. A call that fails
changes nothing, one that succeeds puts its line behind the others, and a line that is there already
changes nothing else. -/
theorem isTrie_afterCalls (lines : List String) :
    let t := afterCalls lines
    t.IsTrie ∧ ∀ line,
      (∀ e, t.register line = .error e → afterCalls (lines ++ [line]) = t) ∧
      (∀ t', t.register line = .ok t' →
        afterCalls (lines ++ [line]) = t' ∧ t'.usages = t.usages ++ [line]) ∧
      (line ∈ t.usages → t.register line = .ok ⟨t.roots, t.usages ++ [line]⟩) := by
  intro t
  have ht : ofUsages t.usages = .ok t := ofUsages_afterCalls lines
  refine ⟨isTrie_of_usages ht, ?_⟩
  intro line
  have hcall : afterCalls (lines ++ [line]) = (t.register line).toOption.getD t :=
    afterCalls_append_singleton lines line
  refine ⟨?_, ?_, ?_⟩
  · intro e he
    rw [hcall, he]
    rfl
  · intro t' ht'
    obtain ⟨u, -, rfl⟩ := map_eq_ok_iff.mp ht'
    rw [hcall, ht']
    exact ⟨rfl, rfl⟩
  · intro hline
    obtain ⟨u, hu, p, hp, hsame⟩ := exists_mem_paths_of_usage ht line hline
    have hinsert : t.roots.insert (.literal u.command) u.parameters = t.roots :=
      (trim_of_usages ht).insert_eq_self hp hsame
    refine map_eq_ok_iff.mpr ⟨u, hu, ?_⟩
    rw [add, hinsert]

/-- After a line and one that fails, a line without a command word fails too, and the first line can
come again. -/
theorem isTrie_afterCalls_kill :
    let t := afterCalls ["kill <n:word>", "kill <n:nope>"]
    t.IsTrie ∧ t.register "<n:word>" = .error ⟨"<n:word>", .noCommandWord⟩ ∧
      afterCalls ["kill <n:word>", "kill <n:nope>", "<n:word>"] = t ∧
      t.register "kill <n:word>" = .ok ⟨t.roots, t.usages ++ ["kill <n:word>"]⟩ := by
  intro t
  obtain ⟨htrie, hcalls⟩ := isTrie_afterCalls ["kill <n:word>", "kill <n:nope>"]
  have herror : t.register "<n:word>" = .error ⟨"<n:word>", .noCommandWord⟩ := by decide +kernel
  have husages : t.usages = ["kill <n:word>"] := by decide +kernel
  have hmem : "kill <n:word>" ∈ t.usages := by
    rw [husages]
    exact List.mem_singleton_self _
  exact ⟨htrie, herror, (hcalls "<n:word>").1 _ herror, (hcalls "kill <n:word>").2.2 hmem⟩

/-- A line that fails in between, a line that comes again, and one that extends another. -/
example : (afterCalls ["kill", "kill <n:nope>", "kill", "kill <n:word>"]).roots.paths =
    [[.literal "kill"], [.literal "kill", .argument "n" .word]] := by decide +kernel

end Tree
end CommandScript.Grammar
