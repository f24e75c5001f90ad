import CommandScript.Proofs.Grammar.Trie

/-! The search of a command tree without its state: which attempts fail, in which order, and which
match is found. The search that keeps a trail and the deepest failure comes to the same. -/
namespace CommandScript.Grammar
open Text

/-- What an exploration comes to: the failures of its attempts, in order, and the nodes of the match
that ended it, if one did. -/
structure Exploration where
  failures : List Failure
  found? : Option (List Node)

namespace Exploration

def nothing : Exploration := ⟨[], none⟩

def failed (cursor : Nat) (fault : Fault) : Exploration := ⟨[⟨cursor, fault⟩], none⟩

def found (nodes : List Node) : Exploration := ⟨[], some nodes⟩

/-- Goes on with a second exploration if the first one has found nothing. -/
def orElse (x y : Exploration) : Exploration :=
  match x.found? with
  | some nodes => ⟨x.failures, some nodes⟩
  | none => ⟨x.failures ++ y.failures, y.found?⟩

/-- An exploration below a node that has been matched. -/
def below (n : Node) (x : Exploration) : Exploration := ⟨x.failures, x.found?.map (n :: ·)⟩

end Exploration

/-- Explores the nodes of one rank on the top level in order, each with all that is below it. -/
def Forest.explore : Forest → Rank → Bool → Nat → List Char → Exploration
  | nil, _, _, _, _ => .nothing
  | cons e executable children siblings, rank, first, cursor, cs =>
    let others := siblings.explore rank first cursor cs
    if rank.admits e then
      match e.read first cs with
      | .error fault => (Exploration.failed cursor fault).orElse others
      | .ok (value, rest) =>
        let next := cursor + (byteSize cs - byteSize rest)
        let inside : Exploration :=
          match rest with
          | [] => if executable then .found [] else .failed next .incompleteCommand
          | ' ' :: rest =>
            if children = nil then .failed next .trailingData
            else (children.explore .literals false (next + 1) rest).orElse
              (children.explore .arguments false (next + 1) rest)
          | _ => .failed next .expectedWhitespace
        (inside.below ⟨e.name, value⟩).orElse others
    else others

namespace Forest

/-- The exploration behind a node that has been matched up to the offset `next`. -/
def inside (executable : Bool) (children : Forest) (next : Nat) : List Char → Exploration
  | [] => if executable then .found [] else .failed next .incompleteCommand
  | ' ' :: rest =>
    if children = nil then .failed next .trailingData
    else (children.explore .literals false (next + 1) rest).orElse
      (children.explore .arguments false (next + 1) rest)
  | _ => .failed next .expectedWhitespace

section
variable {e : Element} {rank : Rank} {first : Bool} {cs : List Char}
variable (executable : Bool) (children siblings : Forest) (cursor : Nat)

theorem explore_cons_of_not_admits (h : rank.admits e = false) :
    (cons e executable children siblings).explore rank first cursor cs =
      siblings.explore rank first cursor cs := by
  simp only [explore, h, Bool.false_eq_true, if_false]

theorem explore_cons_of_error (h : rank.admits e = true) {fault : Fault}
    (hread : e.read first cs = .error fault) :
    (cons e executable children siblings).explore rank first cursor cs =
      (Exploration.failed cursor fault).orElse (siblings.explore rank first cursor cs) := by
  simp only [explore, h, if_true]
  rw [hread]

theorem explore_cons_of_ok (h : rank.admits e = true) {value : Argument} {rest : List Char}
    (hread : e.read first cs = .ok (value, rest)) :
    (cons e executable children siblings).explore rank first cursor cs =
      ((inside executable children (cursor + (byteSize cs - byteSize rest)) rest).below
        ⟨e.name, value⟩).orElse (siblings.explore rank first cursor cs) := by
  simp only [explore, h, if_true]
  rw [hread]
  unfold inside
  rfl

end

theorem inside_space_cons {children : Forest} (h : children ≠ nil) (executable : Bool) (next : Nat)
    (rest : List Char) :
    inside executable children next (' ' :: rest) =
      (children.explore .literals false (next + 1) rest).orElse
        (children.explore .arguments false (next + 1) rest) := if_neg h

theorem inside_of_not_space {rest : List Char} (hne : rest ≠ []) (hspace : ∀ r, rest ≠ ' ' :: r)
    (executable : Bool) (children : Forest) (next : Nat) :
    inside executable children next rest = .failed next .expectedWhitespace := by
  unfold inside
  split
  · exact absurd rfl hne
  · exact absurd rfl (hspace _)
  · rfl

end Forest

/-- Of the failure kept so far and one more, the deeper one; of equally deep ones the earlier. -/
def keepDeeper (kept : Option Failure) (f : Failure) : Option Failure :=
  match kept with
  | some g => if g.cursor < f.cursor then some f else some g
  | none => some f

namespace Search

/-- The answer and the state in which an exploration leaves a search. -/
def after (s : Search) (x : Exploration) : Bool × Search :=
  (x.found?.isSome, ⟨(x.found?.getD []).reverse ++ s.trail, x.failures.foldl keepDeeper s.deepest⟩)

theorem fail_eq (s : Search) (cursor : Nat) (fault : Fault) :
    s.fail cursor fault = ⟨s.trail, keepDeeper s.deepest ⟨cursor, fault⟩⟩ := by
  unfold fail keepDeeper
  cases hd : s.deepest with
  | none => rfl
  | some g =>
    dsimp only
    split
    · rfl
    · rw [← hd]

theorem pop_fail_push_trail (s : Search) (n : Node) (cursor : Nat) (fault : Fault) :
    ((s.push n).fail cursor fault).pop.trail = s.trail := by
  rw [fail_eq]
  rfl

theorem fail_trail (s : Search) (cursor : Nat) (fault : Fault) :
    (s.fail cursor fault).trail = s.trail := by
  rw [fail_eq]

theorem after_failed (s : Search) (cursor : Nat) (fault : Fault) :
    s.after (.failed cursor fault) = (false, s.fail cursor fault) := by
  rw [fail_eq]
  rfl

/-- A second exploration starts from the state in which the first one has found nothing. -/
theorem after_orElse (s : Search) (x y : Exploration) :
    s.after (x.orElse y) =
      match s.after x with
      | (true, s') => (true, s')
      | (false, s') => s'.after y := by
  cases hx : x.found? with
  | none => simp [after, Exploration.orElse, hx, List.foldl_append]
  | some nodes => simp [after, Exploration.orElse, hx]

/-- Below a node the trail has this node in front, until nothing is found there. -/
theorem after_below (s : Search) (n : Node) (x : Exploration) :
    s.after (x.below n) =
      match (s.push n).after x with
      | (true, s') => (true, s')
      | (false, s') => (false, s'.pop) := by
  cases hx : x.found? with
  | none => simp [after, Exploration.below, hx, push, pop]
  | some nodes => simp [after, Exploration.below, hx, push]

theorem trail_of_after_eq_false {s s' : Search} {x : Exploration} (h : s.after x = (false, s')) :
    s'.trail = s.trail := by
  obtain ⟨hanswer, hs⟩ := Prod.mk.inj h
  have hnone : x.found? = none :=
    Option.isNone_iff_eq_none.mp (Option.isSome_eq_false_iff.mp hanswer)
  rw [← hs, hnone]
  rfl

end Search

/-- The search of a forest answers and ends as its exploration says. -/
theorem Forest.walk_eq_after_explore (f : Forest) (rank : Rank) (cursor : Nat) (cs : List Char)
    (s : Search) :
    f.walk rank cursor cs s = s.after (f.explore rank s.trail.isEmpty cursor cs) := by
  fun_induction walk f rank cursor cs s with
  | case1 => rfl
  | case2 e executable children siblings rank cursor cs s hrank ih =>
    rw [explore_cons_of_not_admits _ _ _ _ (by simpa using hrank)]
    exact ih
  | case3 e executable children siblings rank cursor cs s hrank fault hread ih =>
    rw [explore_cons_of_error _ _ _ _ (by simpa using hrank) hread, Search.after_orElse,
      Search.after_failed, ih, Search.fail_trail]
  | case4 e children siblings rank cursor cs s hrank value matched hread =>
    rw [explore_cons_of_ok _ _ _ _ (by simpa using hrank) hread, Search.after_orElse,
      Search.after_below]
    rfl
  | case5 e executable children siblings rank cursor cs s hrank value matched hexec hread next ih =>
    rw [explore_cons_of_ok _ _ _ _ (by simpa using hrank) hread, Search.after_orElse,
      Search.after_below, inside, if_neg hexec, Search.after_failed, ih,
      Search.pop_fail_push_trail]
  | case6 e executable siblings rank cursor cs s hrank value matched rest hread next ih =>
    rw [explore_cons_of_ok _ _ _ _ (by simpa using hrank) hread, Search.after_orElse,
      Search.after_below, inside, if_pos rfl, Search.after_failed, ih, Search.pop_fail_push_trail]
  | case7 e executable siblings rank cursor cs s hrank value matched rest children hne s₁ hread next
      hlit ihlit =>
    rw [explore_cons_of_ok _ _ _ _ (by simpa using hrank) hread, Search.after_orElse,
      Search.after_below, inside_space_cons hne, Search.after_orElse]
    -- An empty trail stands for the first word; below a node the trail is never empty.
    have hfirst : matched.trail.isEmpty = false := rfl
    rw [hlit, hfirst] at ihlit
    rw [← ihlit]
  | case8 e executable siblings rank cursor cs s hrank value matched rest children hne s₁ s₂ hread
      next hlit harg ihlit iharg =>
    rw [explore_cons_of_ok _ _ _ _ (by simpa using hrank) hread, Search.after_orElse,
      Search.after_below, inside_space_cons hne, Search.after_orElse]
    have hfirst : matched.trail.isEmpty = false := rfl
    rw [hlit, hfirst] at ihlit
    have hsecond : s₁.trail.isEmpty = false := by
      rw [Search.trail_of_after_eq_false ihlit.symm, hfirst]
    rw [harg, hsecond] at iharg
    rw [← ihlit]
    dsimp only
    rw [← iharg]
  | case9 e executable siblings rank cursor cs s hrank value matched rest children hne s₁ s₂ hread
      next hlit harg ihlit iharg ih =>
    rw [explore_cons_of_ok _ _ _ _ (by simpa using hrank) hread, Search.after_orElse,
      Search.after_below, inside_space_cons hne, Search.after_orElse]
    have hfirst : matched.trail.isEmpty = false := rfl
    rw [hlit, hfirst] at ihlit
    have htrail₁ := Search.trail_of_after_eq_false ihlit.symm
    rw [harg, htrail₁, hfirst] at iharg
    have htrail₂ := Search.trail_of_after_eq_false iharg.symm
    have hpop : s₂.pop.trail = s.trail := by
      rw [Search.pop, htrail₂, htrail₁]
      rfl
    rw [← ihlit]
    dsimp only
    rw [← iharg]
    dsimp only
    rw [ih, hpop]
  | case10 e executable children siblings rank cursor cs s hrank value rest hread next matched hnil
      hspace ih =>
    rw [explore_cons_of_ok _ _ _ _ (by simpa using hrank) hread, Search.after_orElse,
      Search.after_below, inside_of_not_space hnil hspace, Search.after_failed, ih,
      Search.pop_fail_push_trail]

end CommandScript.Grammar
