import CommandScript.Proofs.Grammar.Extent
import CommandScript.Proofs.Grammar.Offsets
import CommandScript.Proofs.Grammar.PrefixTree
import CommandScript.Proofs.Grammar.Reordering

/-! What the search at one node leaves behind. If it fails, the trail is what it was before; if it
succeeds, the nodes of the match have come on top of it. The failure kept so far gives way to deeper
ones only, and no attempt fails in front of the node, nor at its start once it has been matched. -/
namespace CommandScript.Grammar
open Text

/-- An element takes some text, unless it is an empty literal. -/
theorem Element.word_ne_nil_of_takes {e : Element} {word rest : List Char} {value : Argument}
    (h : e.Takes word rest value) (hliteral : ∀ text, e = .literal text → text.toList ≠ []) :
    word ≠ [] := by
  cases h with
  | literal => exact hliteral _ rfl
  | argument reads =>
    obtain ⟨part, hsplit, hspans⟩ := Kind.spans_of_read reads
    rw [List.append_cancel_right hsplit]
    exact hspans.ne_nil

theorem Matches.map_name {es : List Element} {cs : List Char} {nodes : List Node}
    (h : Matches es cs nodes) : nodes.map Node.name = es.map Element.name := by
  induction h with
  | last => rfl
  | step takes others ih => rw [List.map_cons, List.map_cons, ih]

namespace Forest

section
variable {e : Element} {executable : Bool} {children : Forest} {rank : Rank}

theorem explore_node (hrank : rank.admits e = true) (first : Bool) (cursor : Nat)
    (cs : List Char) :
    (cons e executable children nil).explore rank first cursor cs =
      attempt e executable children first cursor cs := by
  rw [explore_cons_of_admits hrank, explore, Exploration.orElse_nothing]

theorem walk_node (hrank : rank.admits e = true) (cursor : Nat) (cs : List Char) (s : Search) :
    (cons e executable children nil).walk rank cursor cs s =
      s.after (attempt e executable children s.trail.isEmpty cursor cs) := by
  rw [walk_eq_after_explore, explore_node hrank]

/-- The search of a forest goes on behind a node from the state in which it has failed there. -/
theorem walk_cons_eq (hrank : rank.admits e = true) (siblings : Forest) (cursor : Nat)
    (cs : List Char) (s : Search) :
    let r := (cons e executable children nil).walk rank cursor cs s
    (cons e executable children siblings).walk rank cursor cs s =
      if r.1 then r else siblings.walk rank cursor cs r.2 := by
  intro r
  have hr : r = s.after (attempt e executable children s.trail.isEmpty cursor cs) :=
    walk_node hrank cursor cs s
  rw [hr, walk_eq_after_explore, explore_cons_of_admits hrank, Search.after_orElse]
  rcases hnode : s.after (attempt e executable children s.trail.isEmpty cursor cs) with ⟨answer, s'⟩
  cases answer with
  | true => rfl
  | false =>
    have htrail := Search.trail_of_after_eq_false hnode
    dsimp only
    rw [if_neg Bool.false_ne_true, walk_eq_after_explore, htrail]

end
end Forest

namespace Tree

/-- The words of the literals in a tree are not empty, so that every node takes some text. -/
theorem word_ne_nil_of_nodeAt {lines : List String} {t : Tree} (ht : ofUsages lines = .ok t)
    {before : List Element} {e : Element} {executable : Bool} {children : Forest}
    (hnode : t.roots.NodeAt (before ++ [e]) executable children) {word rest : List Char}
    {value : Argument} (htakes : e.Takes word rest value) : word ≠ [] := by
  refine Element.word_ne_nil_of_takes htakes ?_
  rintro text rfl
  obtain ⟨q, hq⟩ := hnode.exists_mem_paths (trim_of_usages ht)
  exact literal_ne_nil_of_mem_paths ht hq (by simp)

/-- The search at a node of a tree, with any trail and any failure kept so far. If it fails, the
trail is as before, and the search goes on at the next node; if it succeeds, there are one or more
nodes on top of the trail, one for each level down to an executable node. A failure kept before
gives way to a deeper one only. No attempt fails in front of the node, and once it has been matched,
none fails at its start. -/
theorem walk_restores {lines : List String} {t : Tree} (ht : ofUsages lines = .ok t)
    {before : List Element} {e : Element} {executable : Bool} {children : Forest}
    (hnode : t.roots.NodeAt (before ++ [e]) executable children) {rank : Rank}
    (hrank : rank.admits e = true) (cursor : Nat) (cs : List Char) (s : Search) :
    let node := Forest.cons e executable children .nil
    let r := node.walk rank cursor cs s
    let attempts := (Forest.attempt e executable children s.trail.isEmpty cursor cs).failures
    (∀ siblings, (Forest.cons e executable children siblings).walk rank cursor cs s =
      if r.1 then r else siblings.walk rank cursor cs r.2) ∧
    (∀ input, textFrom? cursor input = some cs →
      node.walkByOffsets input rank cursor s = some r) ∧
    (r.1 = false → r.2.trail = s.trail) ∧
    (r.1 = true → ∃ p inner nodes, node.NodeAt p true inner ∧ Matches p cs nodes ∧ nodes ≠ [] ∧
      nodes.map Node.name = p.map Element.name ∧
      r.2.trail.reverse = s.trail.reverse ++ nodes) ∧
    r.2.deepest = attempts.foldl keepDeeper s.deepest ∧
    (r.2.deepest = s.deepest ∨
      ∃ f ∈ attempts, r.2.deepest = some f ∧ ∀ kept ∈ s.deepest, kept.cursor < f.cursor) ∧
    (∀ f ∈ attempts, cursor ≤ f.cursor) ∧
    ∀ value rest, e.read s.trail.isEmpty cs = .ok (value, rest) →
      ∀ f ∈ attempts, cursor < f.cursor := by
  intro node r attempts
  have hr : r = s.after (Forest.attempt e executable children s.trail.isEmpty cursor cs) :=
    Forest.walk_node hrank cursor cs s
  have hdeepest : r.2.deepest = attempts.foldl keepDeeper s.deepest := by
    rw [hr]
    rfl
  refine ⟨fun siblings => Forest.walk_cons_eq hrank siblings cursor cs s, ?_, ?_, ?_, hdeepest, ?_,
    ?_, ?_⟩
  · intro input hcs
    exact node.walkByOffsets_eq rank cursor cs s hcs
  · intro hfalse
    exact Search.trail_of_after_eq_false (hr.symm.trans (Prod.ext hfalse rfl))
  · intro htrue
    rw [hr] at htrue ⊢
    obtain ⟨nodes, hfound⟩ := Option.isSome_iff_exists.mp htrue
    have hexplore := hfound
    rw [← Forest.explore_node hrank] at hexplore
    obtain ⟨p, hp, -, hmatches⟩ := Forest.exists_path_of_found hexplore
    obtain ⟨inner, hinner⟩ := Forest.mem_paths_iff_nodeAt.mp hp
    have hnames := hmatches.map_name
    have hne : nodes ≠ [] := by
      rintro rfl
      exact Forest.ne_nil_of_mem_paths hp (List.map_eq_nil_iff.mp hnames.symm)
    refine ⟨p, inner, nodes, hinner, hmatches, hne, hnames, ?_⟩
    simp [Search.after, hfound]
  · rw [hdeepest]
    exact foldl_keepDeeper_cases attempts s.deepest
  · intro f hf
    exact Forest.cursor_le_of_mem_attempt hf
  · intro value rest hread f hf
    obtain ⟨word, hcs, htakes⟩ := (e.read_eq_ok_iff _ _ _ _).mp hread
    exact Forest.cursor_lt_of_mem_attempt hread hcs (word_ne_nil_of_nodeAt ht hnode htakes) hf

/-- Behind a name that has been read, a number is missing: the name is taken off the trail again,
and a failure behind it takes the place of the one kept before. -/
theorem walk_restores_missing_number :
    let number := Forest.cons (.argument "x" (.integer .free)) true .nil .nil
    let s : Search := ⟨[⟨"tp", .literal "tp"⟩], some ⟨3, .incorrectArgument⟩⟩
    ∃ t r, ofUsages ["tp all", "tp <who:word> <x:integer>"] = .ok t ∧
      t.roots.NodeAt ([.literal "tp"] ++ [.argument "who" .word]) false number ∧
      Rank.arguments.admits (.argument "who" .word) = true ∧
      (Forest.cons (.argument "who" .word) false number .nil).walk .arguments 3 "bob east".toList
        s = r ∧
      r.1 = false ∧ r.2.deepest = some ⟨7, .invalidInteger "east"⟩ ∧ r.2.trail = s.trail ∧
      ∀ f ∈ (Forest.attempt (.argument "who" .word) false number s.trail.isEmpty 3
        "bob east".toList).failures, 3 < f.cursor := by
  intro number s
  have ht : ofUsages ["tp all", "tp <who:word> <x:integer>"] = .ok
      ⟨.cons (.literal "tp") false (.cons (.literal "all") true .nil
        (.cons (.argument "who" .word) false number .nil)) .nil,
        ["tp all", "tp <who:word> <x:integer>"]⟩ := by decide +kernel
  have hnode : (Forest.cons (.literal "tp") false (.cons (.literal "all") true .nil
      (.cons (.argument "who" .word) false number .nil)) .nil).NodeAt
        ([.literal "tp"] ++ [.argument "who" .word]) false number := .deeper (.later .here)
  have hrank : Rank.arguments.admits (.argument "who" .word) = true := rfl
  have hr : (Forest.cons (.argument "who" .word) false number .nil).walk .arguments 3
      "bob east".toList s = (false, ⟨s.trail, some ⟨7, .invalidInteger "east"⟩⟩) := by
    decide +kernel
  have hread : (Element.argument "who" .word).read s.trail.isEmpty "bob east".toList =
      .ok (.word "bob", " east".toList) := by decide +kernel
  obtain ⟨-, -, htrail, -, -, -, -, hbehind⟩ :=
    walk_restores ht hnode hrank 3 "bob east".toList s
  rw [hr] at htrail
  exact ⟨_, _, ht, hnode, hrank, hr, rfl, rfl, htrail rfl, hbehind _ _ hread⟩

end Tree
end CommandScript.Grammar
