import CommandScript.Proofs.Grammar.Exploration

/-! A command tree reads an input if and only if one of its usage lines matches it as a whole. -/
namespace CommandScript.Grammar
open Text

/-- A path on which the nodes of a rank are tried first. -/
def Rank.Leads (rank : Rank) (p : List Element) : Prop := ∀ e ∈ p.head?, rank.admits e = true

theorem Rank.leads_cons {rank : Rank} {e : Element} {es : List Element} :
    rank.Leads (e :: es) ↔ rank.admits e = true := by
  simp [Leads]

theorem Rank.exists_leads (p : List Element) : ∃ rank : Rank, rank.Leads p := by
  cases p with
  | nil => exact ⟨.literals, nofun⟩
  | cons e es =>
    cases he : e.isLiteral with
    | true => exact ⟨.literals, leads_cons.mpr he⟩
    | false => exact ⟨.arguments, leads_cons.mpr (by simp [admits, he])⟩

/-- A match begins with one element that is read, and goes on behind one space unless the text ends
there. -/
theorem matches_cons_iff (first : Bool) (e : Element) (es : List Element) (cs : List Char)
    (nodes : List Node) :
    Matches (e :: es) cs nodes ↔ ∃ value rest others, e.read first cs = .ok (value, rest) ∧
      nodes = ⟨e.name, value⟩ :: others ∧
      ((es = [] ∧ rest = [] ∧ others = []) ∨
        ∃ behind, rest = ' ' :: behind ∧ Matches es behind others) := by
  constructor
  · intro h
    cases h with
    | last takes =>
      have hread := (e.read_eq_ok_iff first _ _ _).mpr ⟨_, (List.append_nil _).symm, takes⟩
      exact ⟨_, [], [], hread, rfl, Or.inl ⟨rfl, rfl, rfl⟩⟩
    | step takes others =>
      have hread := (e.read_eq_ok_iff first _ _ _).mpr ⟨_, rfl, takes⟩
      exact ⟨_, _, _, hread, rfl, Or.inr ⟨_, rfl, others⟩⟩
  · rintro ⟨value, rest, others, hread, rfl, hrest⟩
    obtain ⟨word, rfl, htakes⟩ := (e.read_eq_ok_iff first cs rest value).mp hread
    rcases hrest with ⟨rfl, rfl, rfl⟩ | ⟨behind, rfl, hothers⟩
    · rw [List.append_nil]
      exact .last htakes
    · exact .step htakes hothers

namespace Exploration

theorem found?_orElse (x y : Exploration) : (x.orElse y).found? = x.found?.or y.found? := by
  unfold orElse
  cases x.found? with
  | none => rfl
  | some nodes => rfl

theorem found?_below (n : Node) (x : Exploration) :
    (x.below n).found? = x.found?.map (n :: ·) := rfl

end Exploration

namespace Forest

theorem found?_inside_nil (executable : Bool) (children : Forest) (next : Nat) :
    (inside executable children next []).found? = if executable then some [] else none := by
  cases executable with
  | false => rfl
  | true => rfl

theorem found?_inside_space (executable : Bool) (children : Forest) (next : Nat)
    (behind : List Char) :
    (inside executable children next (' ' :: behind)).found? =
      (children.explore .literals false (next + 1) behind).found?.or
        (children.explore .arguments false (next + 1) behind).found? := by
  by_cases h : children = nil
  · rw [h]
    rfl
  · rw [inside_space_cons h, Exploration.found?_orElse]

/-- Behind a matched node either the text ends at an executable one, or a match of the children
follows behind one space. -/
theorem cases_of_found_inside {executable : Bool} {children : Forest} {next : Nat}
    {rest : List Char} {nodes : List Node}
    (h : (inside executable children next rest).found? = some nodes) :
    (rest = [] ∧ executable = true ∧ nodes = []) ∨ ∃ behind, rest = ' ' :: behind ∧
      ∃ rank, (children.explore rank false (next + 1) behind).found? = some nodes := by
  by_cases hnil : rest = []
  · subst hnil
    rw [found?_inside_nil] at h
    cases executable with
    | false => cases h
    | true =>
      cases h
      exact Or.inl ⟨rfl, rfl, rfl⟩
  · by_cases hspace : ∃ behind, rest = ' ' :: behind
    · obtain ⟨behind, rfl⟩ := hspace
      rw [found?_inside_space, Option.or_eq_some_iff] at h
      rcases h with hlit | ⟨-, harg⟩
      · exact Or.inr ⟨behind, rfl, .literals, hlit⟩
      · exact Or.inr ⟨behind, rfl, .arguments, harg⟩
    · rw [inside_of_not_space hnil fun r hr => hspace ⟨r, hr⟩] at h
      cases h

/-- The nodes that an exploration finds are a match of one of the paths that it tries. -/
theorem exists_path_of_found {f : Forest} {rank : Rank} {first : Bool} {cursor : Nat}
    {cs : List Char} {nodes : List Node}
    (h : (f.explore rank first cursor cs).found? = some nodes) :
    ∃ p ∈ f.paths, rank.Leads p ∧ Matches p cs nodes := by
  induction f generalizing rank first cursor cs nodes with
  | nil => cases h
  | cons e executable children siblings ihc ihs =>
    have hsiblings : (siblings.explore rank first cursor cs).found? = some nodes →
        ∃ p ∈ (cons e executable children siblings).paths, rank.Leads p ∧ Matches p cs nodes := by
      intro hs
      obtain ⟨p, hp, hrank, hm⟩ := ihs hs
      exact ⟨p, mem_paths_cons.mpr (Or.inr (Or.inr hp)), hrank, hm⟩
    cases hrank : rank.admits e with
    | false =>
      rw [explore_cons_of_not_admits _ _ _ _ hrank] at h
      exact hsiblings h
    | true =>
      cases hread : e.read first cs with
      | error fault =>
        rw [explore_cons_of_error _ _ _ _ hrank hread, Exploration.found?_orElse] at h
        exact hsiblings h
      | ok r =>
        obtain ⟨value, rest⟩ := r
        rw [explore_cons_of_ok _ _ _ _ hrank hread, Exploration.found?_orElse,
          Option.or_eq_some_iff] at h
        rcases h with hhere | ⟨-, hs⟩
        · obtain ⟨others, hinside, rfl⟩ := Option.map_eq_some_iff.mp hhere
          rcases cases_of_found_inside hinside with
            ⟨rfl, hexec, rfl⟩ | ⟨behind, rfl, rank', hbelow⟩
          · exact ⟨[e], mem_paths_cons.mpr (Or.inl ⟨hexec, rfl⟩), Rank.leads_cons.mpr hrank,
              (matches_cons_iff first _ _ _ _).mpr
                ⟨value, [], [], hread, rfl, Or.inl ⟨rfl, rfl, rfl⟩⟩⟩
          · obtain ⟨q, hq, -, hm⟩ := ihc hbelow
            exact ⟨e :: q, mem_paths_cons.mpr (Or.inr (Or.inl ⟨q, hq, rfl⟩)),
              Rank.leads_cons.mpr hrank, (matches_cons_iff first _ _ _ _).mpr
                ⟨value, _, others, hread, rfl, Or.inr ⟨behind, rfl, hm⟩⟩⟩
        · exact hsiblings hs

theorem found_cons_of_siblings {e : Element} {executable : Bool} {children siblings : Forest}
    {rank : Rank} {first : Bool} {cursor : Nat} {cs : List Char}
    (h : (siblings.explore rank first cursor cs).found?.isSome = true) :
    ((cons e executable children siblings).explore rank first cursor cs).found?.isSome = true := by
  cases hrank : rank.admits e with
  | false =>
    rw [explore_cons_of_not_admits _ _ _ _ hrank]
    exact h
  | true =>
    cases hread : e.read first cs with
    | error fault =>
      rw [explore_cons_of_error _ _ _ _ hrank hread, Exploration.found?_orElse, Option.isSome_or, h,
        Bool.or_true]
    | ok r =>
      obtain ⟨value, rest⟩ := r
      rw [explore_cons_of_ok _ _ _ _ hrank hread, Exploration.found?_orElse, Option.isSome_or, h,
        Bool.or_true]

/-- An exploration finds a match if a path that it tries has one. -/
theorem found_of_matches {f : Forest} {p : List Element} (hp : p ∈ f.paths) {rank : Rank}
    (hrank : rank.Leads p) {cs : List Char} {nodes : List Node} (hm : Matches p cs nodes)
    (first : Bool) (cursor : Nat) : (f.explore rank first cursor cs).found?.isSome = true := by
  induction f generalizing p rank first cursor cs nodes with
  | nil => cases hp
  | cons e executable children siblings ihc ihs =>
    -- If the path goes through this node, its rest is found under the rank that leads it.
    have hhere : ∀ es, p = e :: es → (es = [] → executable = true) →
        (es ≠ [] → es ∈ children.paths) →
        ((cons e executable children siblings).explore rank first cursor cs).found?.isSome
          = true := by
      rintro es rfl hleaf hinner
      obtain ⟨value, rest, others, hread, -, hrest⟩ := (matches_cons_iff first _ _ _ _).mp hm
      rw [explore_cons_of_ok _ _ _ _ (Rank.leads_cons.mp hrank) hread, Exploration.found?_orElse,
        Option.isSome_or, Exploration.found?_below, Option.isSome_map]
      rcases hrest with ⟨hnil, rfl, -⟩ | ⟨behind, rfl, hothers⟩
      · rw [found?_inside_nil, hleaf hnil]
        rfl
      · have hne : es ≠ [] := by
          rintro rfl
          cases hothers
        obtain ⟨rank', hrank'⟩ := Rank.exists_leads es
        have hfound := ihc (hinner hne) hrank' hothers false
          (cursor + (byteSize cs - byteSize (' ' :: behind)) + 1)
        rw [found?_inside_space, Option.isSome_or]
        cases rank' with
        | literals => rw [hfound, Bool.true_or, Bool.true_or]
        | arguments => rw [hfound, Bool.or_true, Bool.true_or]
    rcases mem_paths_cons.mp hp with ⟨hexec, rfl⟩ | ⟨q, hq, rfl⟩ | hs
    · exact hhere [] rfl (fun _ => hexec) (fun h => absurd rfl h)
    · exact hhere q rfl (fun h => absurd h (ne_nil_of_mem_paths hq)) (fun _ => hq)
    · exact found_cons_of_siblings (ihs hs hrank hm first cursor)

end Forest

theorem toNat_of_isAlphanum {c : Char} (h : c.isAlphanum = true) :
    48 ≤ c.toNat ∧ c.toNat ≤ 122 := by
  have hcodes : (65 ≤ c.toNat ∧ c.toNat ≤ 90) ∨ (97 ≤ c.toNat ∧ c.toNat ≤ 122) ∨
      (48 ≤ c.toNat ∧ c.toNat ≤ 57) := (isAlphanum_iff c).mp h
  omega

theorem isBlank_eq_false_of_isLiteralChar {c : Char} (h : isLiteralChar c = true) :
    isBlank c = false := by
  have hrange : 45 ≤ c.toNat ∧ c.toNat ≤ 122 := by
    simp only [isLiteralChar, Bool.or_eq_true, beq_iff_eq] at h
    rcases h with ((h | rfl) | rfl) | rfl
    · have := toNat_of_isAlphanum h
      omega
    · decide
    · decide
    · decide
  simp [isBlank]
  omega

/-- No usage line matches a blank text: its command word has a character that is no blank. -/
theorem all_isBlank_eq_false_of_matches {line : String} {u : Usage}
    (hu : Usage.parse line = .ok u) {cs : List Char} {nodes : List Node}
    (h : Matches u.elements cs nodes) : cs.all isBlank = false := by
  obtain ⟨hne, hchars⟩ := Usage.command_of_parse hu
  obtain ⟨c, word, hword⟩ := List.exists_cons_of_ne_nil hne
  have hc : isBlank c = false := by
    apply isBlank_eq_false_of_isLiteralChar
    apply hchars
    rw [hword]
    exact List.mem_cons_self
  obtain ⟨value, rest, others, hread, -, -⟩ := (matches_cons_iff true _ _ _ _).mp h
  obtain ⟨taken, rfl, htakes⟩ := (Element.read_eq_ok_iff _ _ _ _ _).mp hread
  have hmem : c ∈ taken ++ rest := by
    cases htakes with
    | literal hspace hends =>
      rw [hword]
      exact List.mem_cons_self
  exact List.all_eq_false.mpr ⟨c, hmem, by simp [hc]⟩

namespace Tree

/-- Every path of a tree begins with a command word. -/
theorem leads_literals_of_mem_paths {lines : List String} {t : Tree} (h : ofUsages lines = .ok t)
    {p : List Element} (hp : p ∈ t.roots.paths) : Rank.literals.Leads p := by
  obtain ⟨line, -, u, -, hsame⟩ := exists_usage_of_mem_paths h p hp
  cases hsame with
  | cons hab hrest => exact Rank.leads_cons.mpr (Element.isLiteral_eq_of_same hab)

/-- A tree reads an input if the exploration of its roots finds a match; blank inputs are refused
before that. -/
theorem parse_eq_ok_iff (t : Tree) (input : String) (c : Command) :
    t.parse input = .ok c ↔ input.toList.all isBlank = false ∧ c.text = input ∧
      (t.roots.explore .literals true 0 input.toList).found? = some c.nodes := by
  have hwalk := t.roots.walk_eq_after_explore .literals 0 input.toList .start
  have htrail : Search.start.trail.isEmpty = true := rfl
  rw [htrail] at hwalk
  simp only [parse]
  split_ifs with hblank
  · simp [hblank]
  · rw [hwalk]
    cases hfound : (t.roots.explore .literals true 0 input.toList).found? with
    | none => simp [Search.after, hfound]
    | some nodes =>
      obtain ⟨text, nodes'⟩ := c
      simp [Search.after, hfound, Search.start, hblank, eq_comm]

end Tree

/-- A command tree reads exactly the inputs that one of its usage lines matches as a whole, and the
nodes of the command are such a match. -/
theorem parse_iff_usage_matches {lines : List String} {t : Tree} (ht : Tree.ofUsages lines = .ok t)
    (input : String) :
    ((∃ c, t.parse input = .ok c) ↔ ∃ line ∈ lines, ∃ nodes, UsageMatches line input nodes) ∧
      ∀ c, t.parse input = .ok c →
        c.text = input ∧ ∃ line ∈ lines, UsageMatches line input c.nodes := by
  have hsound : ∀ c, t.parse input = .ok c →
      c.text = input ∧ ∃ line ∈ lines, UsageMatches line input c.nodes := by
    intro c hc
    obtain ⟨-, htext, hfound⟩ := (t.parse_eq_ok_iff input c).mp hc
    obtain ⟨p, hp, -, hm⟩ := Forest.exists_path_of_found hfound
    obtain ⟨line, hline, u, hu, hsame⟩ := Tree.exists_usage_of_mem_paths ht p hp
    exact ⟨htext, line, hline, u, hu, (matches_of_same hsame _ _).mp hm⟩
  refine ⟨⟨?_, ?_⟩, hsound⟩
  · rintro ⟨c, hc⟩
    obtain ⟨-, line, hline, hm⟩ := hsound c hc
    exact ⟨line, hline, c.nodes, hm⟩
  · rintro ⟨line, hline, nodes, u, hu, hm⟩
    obtain ⟨u', hu', p, hp, hsame⟩ := Tree.exists_mem_paths_of_usage ht line hline
    rw [hu] at hu'
    cases hu'
    have hblank := all_isBlank_eq_false_of_matches hu hm
    have hfound := Forest.found_of_matches hp (Tree.leads_literals_of_mem_paths ht hp)
      ((matches_of_same hsame _ _).mpr hm) true 0
    obtain ⟨found, hfound⟩ := Option.isSome_iff_exists.mp hfound
    exact ⟨⟨input, found⟩, (t.parse_eq_ok_iff input _).mpr ⟨hblank, rfl, hfound⟩⟩

/-- The word `all` alone is a command, but with more behind it a target of the other usage. -/
theorem parse_iff_usage_matches_shared_word :
    ∃ t, Tree.ofUsages ["tp all", "tp <who:word> <x:integer>"] = .ok t ∧
      (∃ c, t.parse "tp all 7" = .ok c) ∧ ∀ c, t.parse "tp all 7" = .ok c → c.text = "tp all 7" ∧
        ∃ line ∈ ["tp all", "tp <who:word> <x:integer>"], UsageMatches line "tp all 7" c.nodes := by
  have ht : Tree.ofUsages ["tp all", "tp <who:word> <x:integer>"] = .ok
      ⟨.cons (.literal "tp") false
        (.cons (.literal "all") true .nil
          (.cons (.argument "who" .word) false
            (.cons (.argument "x" (.integer .free)) true .nil .nil) .nil)) .nil,
        ["tp all", "tp <who:word> <x:integer>"]⟩ := by decide +kernel
  obtain ⟨-, hsound⟩ := parse_iff_usage_matches ht "tp all 7"
  refine ⟨_, ht, ?_, hsound⟩
  exact ⟨⟨"tp all 7", [⟨"tp", .literal "tp"⟩, ⟨"who", .word "all"⟩, ⟨"x", .integer 7⟩]⟩,
    by decide +kernel⟩

end CommandScript.Grammar
