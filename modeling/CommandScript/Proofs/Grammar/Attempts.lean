import CommandScript.Proofs.Grammar.Dispatch

/-! The failed attempts of a search: words are taken along nodes of the tree, and then the text does
not go on as the tree does. A search that finds nothing lists all of them. -/
namespace CommandScript.Grammar
open Text

namespace Forest

/-- Why an attempt ends behind a node that has been matched, in front of the rest of the text. -/
inductive Stops (executable : Bool) (children : Forest) : List Char → Fault → Prop
  | incomplete (unfinished : executable = false) : Stops executable children [] .incompleteCommand
  | trailing {behind : List Char} (leaf : children = nil) :
      Stops executable children (' ' :: behind) .trailingData
  | unseparated {rest : List Char} (more : rest ≠ []) (noSpace : ∀ behind, rest ≠ ' ' :: behind) :
      Stops executable children rest .expectedWhitespace

/-- An attempt at one of the nodes of a rank, and at nodes below it, takes `taken` at the start of a
text and fails there. -/
inductive Fails : Forest → Rank → Bool → List Char → List Char → Fault → Prop
  | mismatch {e : Element} {executable : Bool} {children siblings : Forest} {rank : Rank}
      {first : Bool} {cs : List Char} {fault : Fault} (admits : rank.admits e = true)
      (refuses : e.read first cs = .error fault) :
      Fails (cons e executable children siblings) rank first cs [] fault
  | stopped {e : Element} {executable : Bool} {children siblings : Forest} {rank : Rank}
      {first : Bool} {word rest : List Char} {value : Argument} {fault : Fault}
      (admits : rank.admits e = true) (takes : e.Takes word rest value)
      (stops : Stops executable children rest fault) :
      Fails (cons e executable children siblings) rank first (word ++ rest) word fault
  | deeper {e : Element} {executable : Bool} {children siblings : Forest} {rank inner : Rank}
      {first : Bool} {word behind taken : List Char} {value : Argument} {fault : Fault}
      (admits : rank.admits e = true) (takes : e.Takes word (' ' :: behind) value)
      (fails : Fails children inner false behind taken fault) :
      Fails (cons e executable children siblings) rank first (word ++ ' ' :: behind)
        (word ++ ' ' :: taken) fault
  | sibling {e : Element} {executable : Bool} {children siblings : Forest} {rank : Rank}
      {first : Bool} {cs taken : List Char} {fault : Fault}
      (fails : Fails siblings rank first cs taken fault) :
      Fails (cons e executable children siblings) rank first cs taken fault

/-- Along a path of nodes from the top, words with one space between neighbours take `taken` in
front of `rest`. -/
inductive Consumes : Forest → List Char → List Char → Prop
  | node {e : Element} {executable : Bool} {children siblings : Forest} {word rest : List Char}
      {value : Argument} (takes : e.Takes word rest value) :
      Consumes (cons e executable children siblings) word rest
  | deeper {e : Element} {executable : Bool} {children siblings : Forest}
      {word taken rest : List Char} {value : Argument}
      (takes : e.Takes word (' ' :: (taken ++ rest)) value) (inner : Consumes children taken rest) :
      Consumes (cons e executable children siblings) (word ++ ' ' :: taken) rest
  | sibling {e : Element} {executable : Bool} {children siblings : Forest}
      {taken rest : List Char} (others : Consumes siblings taken rest) :
      Consumes (cons e executable children siblings) taken rest

/-- The text up to a point is what nodes take, with or without the space behind it; in front of the
first word it is nothing. -/
def Reaches (f : Forest) (taken rest : List Char) : Prop :=
  taken = [] ∨ f.Consumes taken rest ∨
    ∃ words, taken = words ++ [' '] ∧ f.Consumes words (' ' :: rest)

theorem Fails.exists_reaches {f : Forest} {rank : Rank} {first : Bool} {cs taken : List Char}
    {fault : Fault} (h : f.Fails rank first cs taken fault) :
    ∃ rest, cs = taken ++ rest ∧ f.Reaches taken rest := by
  induction h with
  | @mismatch _ _ _ _ _ _ cs => exact ⟨cs, rfl, Or.inl rfl⟩
  | @stopped _ _ _ _ _ _ _ rest _ _ admits takes stops =>
    exact ⟨rest, rfl, Or.inr (Or.inl (.node takes))⟩
  | @deeper _ _ _ _ _ _ _ word behind taken _ _ admits takes fails ih =>
    obtain ⟨rest, rfl, hreaches⟩ := ih
    refine ⟨rest, by simp, Or.inr ?_⟩
    rcases hreaches with rfl | hconsumes | ⟨words, rfl, hconsumes⟩
    · exact Or.inr ⟨word, rfl, .node takes⟩
    · exact Or.inl (.deeper takes hconsumes)
    · rw [List.append_assoc] at takes
      exact Or.inr ⟨word ++ ' ' :: words, by simp, .deeper takes hconsumes⟩
  | sibling fails ih =>
    obtain ⟨rest, hcs, hreaches⟩ := ih
    refine ⟨rest, hcs, ?_⟩
    rcases hreaches with hnil | hconsumes | ⟨words, hwords, hconsumes⟩
    · exact Or.inl hnil
    · exact Or.inr (Or.inl (.sibling hconsumes))
    · exact Or.inr (Or.inr ⟨words, hwords, .sibling hconsumes⟩)

end Forest

namespace Exploration

theorem found?_orElse_eq_none {x y : Exploration} :
    (x.orElse y).found? = none ↔ x.found? = none ∧ y.found? = none := by
  rw [found?_orElse, Option.or_eq_none_iff]

theorem failures_orElse {x : Exploration} (h : x.found? = none) (y : Exploration) :
    (x.orElse y).failures = x.failures ++ y.failures := by
  unfold orElse
  rw [h]

theorem mem_failures_of_orElse {x y : Exploration} {g : Failure}
    (h : g ∈ (x.orElse y).failures) : g ∈ x.failures ∨ g ∈ y.failures := by
  cases hx : x.found? with
  | none =>
    rw [failures_orElse hx] at h
    exact List.mem_append.mp h
  | some nodes =>
    unfold orElse at h
    rw [hx] at h
    exact Or.inl h

theorem failures_below (n : Node) (x : Exploration) : (x.below n).failures = x.failures := rfl

theorem mem_failures_failed {cursor : Nat} {fault : Fault} {g : Failure} :
    g ∈ (failed cursor fault).failures ↔ g.fault = fault ∧ g.cursor = cursor := by
  rw [failed, List.mem_singleton]
  constructor
  · rintro rfl
    exact ⟨rfl, rfl⟩
  · rintro ⟨rfl, rfl⟩
    rfl

theorem found?_below_eq_none {n : Node} {x : Exploration} :
    (x.below n).found? = none ↔ x.found? = none := by
  rw [found?_below, Option.map_eq_none_iff]

end Exploration

namespace Forest

section
variable {executable : Bool} {children : Forest} {rest : List Char} {fault : Fault}

theorem stops_nil_iff :
    Stops executable children [] fault ↔ executable = false ∧ fault = .incompleteCommand := by
  constructor
  · intro h
    cases h with
    | incomplete unfinished => exact ⟨unfinished, rfl⟩
    | unseparated more => exact absurd rfl more
  · rintro ⟨unfinished, rfl⟩
    exact .incomplete unfinished

theorem stops_space_iff {behind : List Char} :
    Stops executable children (' ' :: behind) fault ↔ children = nil ∧ fault = .trailingData := by
  constructor
  · intro h
    cases h with
    | trailing leaf => exact ⟨leaf, rfl⟩
    | unseparated more noSpace => exact absurd rfl (noSpace behind)
  · rintro ⟨leaf, rfl⟩
    exact .trailing leaf

theorem stops_other_iff (hne : rest ≠ []) (hspace : ∀ behind, rest ≠ ' ' :: behind) :
    Stops executable children rest fault ↔ fault = .expectedWhitespace := by
  constructor
  · intro h
    cases h with
    | incomplete => exact absurd rfl hne
    | trailing => exact absurd rfl (hspace _)
    | unseparated => rfl
  · rintro rfl
    exact .unseparated hne hspace

end

section
variable {e : Element} {executable : Bool} {children siblings : Forest} {rank : Rank} {first : Bool}
variable {cs taken : List Char} {fault : Fault}

theorem fails_cons_of_not_admits (hrank : rank.admits e = false) :
    (cons e executable children siblings).Fails rank first cs taken fault ↔
      siblings.Fails rank first cs taken fault := by
  have hnot : rank.admits e ≠ true := Bool.eq_false_iff.mp hrank
  constructor
  · intro h
    cases h with
    | mismatch admits => exact absurd admits hnot
    | stopped admits => exact absurd admits hnot
    | deeper admits => exact absurd admits hnot
    | sibling fails => exact fails
  · exact .sibling

theorem fails_cons_of_error (hrank : rank.admits e = true) {refusal : Fault}
    (hread : e.read first cs = .error refusal) :
    (cons e executable children siblings).Fails rank first cs taken fault ↔
      (taken = [] ∧ fault = refusal) ∨ siblings.Fails rank first cs taken fault := by
  have hno : ∀ {word rest : List Char} {value : Argument}, cs = word ++ rest →
      ¬ e.Takes word rest value := by
    intro word rest value hcs htakes
    rw [(e.read_eq_ok_iff first cs rest value).mpr ⟨word, hcs, htakes⟩] at hread
    cases hread
  constructor
  · intro h
    cases h with
    | mismatch admits refuses =>
      rw [hread] at refuses
      cases refuses
      exact Or.inl ⟨rfl, rfl⟩
    | stopped admits takes => exact absurd takes (hno rfl)
    | deeper admits takes => exact absurd takes (hno rfl)
    | sibling fails => exact Or.inr fails
  · rintro (⟨rfl, rfl⟩ | hsiblings)
    · exact .mismatch hrank hread
    · exact .sibling hsiblings

/-- Behind the word that a node takes, an attempt stops or fails below the node. -/
theorem fails_cons_of_takes (hrank : rank.admits e = true) {word rest : List Char}
    {value : Argument} (htakes : e.Takes word rest value) :
    (cons e executable children siblings).Fails rank first (word ++ rest) taken fault ↔
      (taken = word ∧ Stops executable children rest fault) ∨
      (∃ behind inner more, rest = ' ' :: behind ∧ taken = word ++ ' ' :: more ∧
        children.Fails inner false behind more fault) ∨
      siblings.Fails rank first (word ++ rest) taken fault := by
  have hread := (e.read_eq_ok_iff first _ rest value).mpr ⟨word, rfl, htakes⟩
  constructor
  · intro h
    generalize hcs : word ++ rest = cs at h hread
    -- Reading is a function, so that another word in front of the same text is the same one.
    have hsame : ∀ {word' rest' : List Char} {value' : Argument}, cs = word' ++ rest' →
        e.Takes word' rest' value' → rest' = rest ∧ word' = word := by
      intro word' rest' value' hcs' htakes'
      rw [(e.read_eq_ok_iff first cs rest' value').mpr ⟨word', hcs', htakes'⟩] at hread
      cases hread
      exact ⟨rfl, List.append_cancel_right (hcs'.symm.trans hcs.symm)⟩
    cases h with
    | mismatch admits refuses =>
      rw [hread] at refuses
      cases refuses
    | stopped admits takes stops =>
      obtain ⟨rfl, rfl⟩ := hsame rfl takes
      exact Or.inl ⟨rfl, stops⟩
    | deeper admits takes fails =>
      obtain ⟨rfl, rfl⟩ := hsame rfl takes
      exact Or.inr (Or.inl ⟨_, _, _, rfl, rfl, fails⟩)
    | sibling fails => exact Or.inr (Or.inr fails)
  · rintro (⟨rfl, hstops⟩ | ⟨behind, inner, more, rfl, rfl, hfails⟩ | hsiblings)
    · exact .stopped hrank htakes hstops
    · exact .deeper hrank htakes hfails
    · exact .sibling hsiblings

end

theorem found?_below_of_inside {executable : Bool} {children : Forest} {next : Nat}
    {behind : List Char} (h : (inside executable children next (' ' :: behind)).found? = none)
    (rank : Rank) : (children.explore rank false (next + 1) behind).found? = none := by
  rw [found?_inside_space, Option.or_eq_none_iff] at h
  cases rank with
  | literals => exact h.1
  | arguments => exact h.2

/-- Where nothing is found behind a matched node, the text stops there, or fails below it behind one
space. -/
theorem mem_failures_inside_iff {executable : Bool} {children : Forest} {next : Nat}
    {rest : List Char} (h : (inside executable children next rest).found? = none) (g : Failure) :
    g ∈ (inside executable children next rest).failures ↔
      (Stops executable children rest g.fault ∧ g.cursor = next) ∨
      ∃ behind rank, rest = ' ' :: behind ∧
        g ∈ (children.explore rank false (next + 1) behind).failures := by
  by_cases hnil : rest = []
  · subst hnil
    rw [found?_inside_nil] at h
    cases executable with
    | true => cases h
    | false => simp [inside, Exploration.mem_failures_failed, stops_nil_iff]
  by_cases hspace : ∃ behind, rest = ' ' :: behind
  · obtain ⟨behind, rfl⟩ := hspace
    rw [stops_space_iff]
    by_cases hleaf : children = nil
    · subst hleaf
      have hnone : ∀ rank, g ∉ (explore nil rank false (next + 1) behind).failures := by
        intro rank hmem
        cases hmem
      simp [inside, Exploration.mem_failures_failed, hnone]
    · rw [inside_space_cons hleaf,
        Exploration.failures_orElse (found?_below_of_inside h .literals), List.mem_append]
      constructor
      · rintro (hmem | hmem)
        · exact Or.inr ⟨behind, .literals, rfl, hmem⟩
        · exact Or.inr ⟨behind, .arguments, rfl, hmem⟩
      · rintro (⟨⟨hnil, -⟩, -⟩ | ⟨_, rank, hbehind, hmem⟩)
        · exact absurd hnil hleaf
        · cases hbehind
          cases rank with
          | literals => exact Or.inl hmem
          | arguments => exact Or.inr hmem
  · have hnone : ∀ behind, rest ≠ ' ' :: behind := fun behind hb => hspace ⟨behind, hb⟩
    rw [inside_of_not_space hnil hnone, Exploration.mem_failures_failed,
      stops_other_iff hnil hnone]
    simp [hnone]

theorem utf8Size_space : ' '.utf8Size = 1 := rfl

/-- The failures that a search lists when it finds nothing are those of all attempts. -/
theorem mem_failures_iff {f : Forest} {rank : Rank} {first : Bool} {cursor : Nat} {cs : List Char}
    (h : (f.explore rank first cursor cs).found? = none) (g : Failure) :
    g ∈ (f.explore rank first cursor cs).failures ↔
      ∃ taken, f.Fails rank first cs taken g.fault ∧ g.cursor = cursor + byteSize taken := by
  induction f generalizing rank first cursor cs with
  | nil =>
    constructor
    · intro hmem
      cases hmem
    · rintro ⟨taken, hfails, -⟩
      cases hfails
  | cons e executable children siblings ihc ihs =>
    cases hrank : rank.admits e with
    | false =>
      rw [explore_cons_of_not_admits _ _ _ _ hrank] at h ⊢
      simp only [fails_cons_of_not_admits hrank]
      exact ihs h
    | true =>
      cases hread : e.read first cs with
      | error fault =>
        rw [explore_cons_of_error _ _ _ _ hrank hread] at h ⊢
        obtain ⟨-, hsiblings⟩ := Exploration.found?_orElse_eq_none.mp h
        rw [Exploration.failures_orElse rfl, List.mem_append, Exploration.mem_failures_failed,
          ihs hsiblings]
        simp only [fails_cons_of_error hrank hread]
        constructor
        · rintro (⟨hfault, hcursor⟩ | ⟨taken, hfails, hcursor⟩)
          · exact ⟨[], Or.inl ⟨rfl, hfault⟩, hcursor⟩
          · exact ⟨taken, Or.inr hfails, hcursor⟩
        · rintro ⟨taken, ⟨rfl, hfault⟩ | hfails, hcursor⟩
          · exact Or.inl ⟨hfault, hcursor⟩
          · exact Or.inr ⟨taken, hfails, hcursor⟩
      | ok r =>
        obtain ⟨value, rest⟩ := r
        obtain ⟨word, rfl, htakes⟩ := (e.read_eq_ok_iff first cs rest value).mp hread
        rw [explore_cons_of_ok _ _ _ _ hrank hread] at h ⊢
        obtain ⟨hinside, hsiblings⟩ := Exploration.found?_orElse_eq_none.mp h
        rw [Exploration.found?_below_eq_none] at hinside
        rw [Exploration.failures_orElse (Exploration.found?_below_eq_none.mpr hinside),
          Exploration.failures_below, List.mem_append, ihs hsiblings,
          mem_failures_inside_iff hinside]
        rw [byteSize_append_sub] at hinside ⊢
        simp only [fails_cons_of_takes hrank htakes]
        constructor
        · rintro ((⟨hstops, hcursor⟩ | ⟨behind, inner, rfl, hmem⟩) | ⟨taken, hfails, hcursor⟩)
          · exact ⟨word, Or.inl ⟨rfl, hstops⟩, hcursor⟩
          · obtain ⟨more, hfails, hcursor⟩ := (ihc (found?_below_of_inside hinside inner)).mp hmem
            refine ⟨word ++ ' ' :: more,
              Or.inr (Or.inl ⟨behind, inner, more, rfl, rfl, hfails⟩), ?_⟩
            rw [hcursor, byteSize_append, byteSize_cons, utf8Size_space]
            omega
          · exact ⟨taken, Or.inr (Or.inr hfails), hcursor⟩
        · rintro ⟨taken, ⟨rfl, hstops⟩ | ⟨behind, inner, more, rfl, rfl, hfails⟩ | hfails, hcursor⟩
          · exact Or.inl (Or.inl ⟨hstops, hcursor⟩)
          · have hmem := (ihc (found?_below_of_inside hinside inner)).mpr ⟨more, hfails, by
              rw [hcursor, byteSize_append, byteSize_cons, utf8Size_space]
              omega⟩
            exact Or.inl (Or.inr ⟨behind, inner, rfl, hmem⟩)
          · exact Or.inr ⟨taken, hfails, hcursor⟩

/-- Whatever it finds, an exploration of the forest lists no failure in front of its start. -/
def FailsBehind (f : Forest) : Prop :=
  ∀ rank first cursor cs, ∀ g ∈ (f.explore rank first cursor cs).failures, cursor ≤ g.cursor

theorem cursor_le_of_mem_failed {cursor : Nat} {fault : Fault} {g : Failure}
    (h : g ∈ (Exploration.failed cursor fault).failures) : cursor ≤ g.cursor :=
  Nat.le_of_eq (Exploration.mem_failures_failed.mp h).2.symm

/-- Behind a matched node, no failure lies in front of the point up to which it has been matched. -/
theorem FailsBehind.inside {children : Forest} (hbelow : children.FailsBehind)
    {executable : Bool} {next : Nat} {rest : List Char} {g : Failure}
    (h : g ∈ (inside executable children next rest).failures) : next ≤ g.cursor := by
  unfold Forest.inside at h
  split at h
  · split_ifs at h
    · cases h
    · exact cursor_le_of_mem_failed h
  · split_ifs at h
    · exact cursor_le_of_mem_failed h
    · rcases Exploration.mem_failures_of_orElse h with hliteral | hargument
      · exact Nat.le_of_succ_le (hbelow _ _ _ _ g hliteral)
      · exact Nat.le_of_succ_le (hbelow _ _ _ _ g hargument)
  · exact cursor_le_of_mem_failed h

theorem failsBehind (f : Forest) : f.FailsBehind := by
  induction f with
  | nil =>
    intro rank first cursor cs g h
    cases h
  | cons e executable children siblings ihc ihs =>
    intro rank first cursor cs g h
    cases hrank : rank.admits e with
    | false =>
      rw [explore_cons_of_not_admits _ _ _ _ hrank] at h
      exact ihs rank first cursor cs g h
    | true =>
      cases hread : e.read first cs with
      | error fault =>
        rw [explore_cons_of_error _ _ _ _ hrank hread] at h
        rcases Exploration.mem_failures_of_orElse h with hnode | hsiblings
        · exact cursor_le_of_mem_failed hnode
        · exact ihs rank first cursor cs g hsiblings
      | ok r =>
        obtain ⟨value, rest⟩ := r
        rw [explore_cons_of_ok _ _ _ _ hrank hread] at h
        rcases Exploration.mem_failures_of_orElse h with hnode | hsiblings
        · rw [Exploration.failures_below] at hnode
          exact Nat.le_trans (Nat.le_add_right _ _) (ihc.inside hnode)
        · exact ihs rank first cursor cs g hsiblings

end Forest
end CommandScript.Grammar
