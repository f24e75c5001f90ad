import CommandScript.Proofs.Grammar.Attempts

/-! The failure that a rejected command line is reported with: of all failed attempts the one that
came furthest, and of several such ones the first. -/
namespace CommandScript.Grammar
open Text

/-- No failure of the list is deeper, and none before it is as deep. -/
def FirstDeepest (failures : List Failure) (f : Failure) : Prop :=
  ∃ earlier later, failures = earlier ++ f :: later ∧
    (∀ g ∈ earlier, g.cursor < f.cursor) ∧ ∀ g ∈ later, g.cursor ≤ f.cursor

namespace FirstDeepest

variable {failures : List Failure} {f : Failure}

theorem mem (h : FirstDeepest failures f) : f ∈ failures := by
  obtain ⟨earlier, later, rfl, -, -⟩ := h
  exact List.mem_append_right _ List.mem_cons_self

theorem cursor_le (h : FirstDeepest failures f) {g : Failure} (hg : g ∈ failures) :
    g.cursor ≤ f.cursor := by
  obtain ⟨earlier, later, rfl, hearlier, hlater⟩ := h
  rcases List.mem_append.mp hg with hbefore | hg
  · exact Nat.le_of_lt (hearlier g hbefore)
  · rcases List.mem_cons.mp hg with rfl | hbehind
    · exact Nat.le_refl _
    · exact hlater g hbehind

end FirstDeepest

/-- What is kept of a list of failures is the first deepest of them. -/
theorem exists_foldl_keepDeeper {failures : List Failure} (h : failures ≠ []) :
    ∃ f, failures.foldl keepDeeper none = some f ∧ FirstDeepest failures f := by
  induction failures using List.reverseRecOn with
  | nil => exact absurd rfl h
  | append_singleton failures g ih =>
    rw [List.foldl_append]
    by_cases hnil : failures = []
    · subst hnil
      exact ⟨g, rfl, [], [], rfl, nofun, nofun⟩
    · obtain ⟨f, hf, earlier, later, hsplit, hearlier, hlater⟩ := ih hnil
      rw [hf]
      by_cases hdeeper : f.cursor < g.cursor
      · have hfirst : FirstDeepest failures f := ⟨earlier, later, hsplit, hearlier, hlater⟩
        have hbefore : ∀ g' ∈ failures, g'.cursor < g.cursor := fun g' hg' =>
          Nat.lt_of_le_of_lt (hfirst.cursor_le hg') hdeeper
        exact ⟨g, if_pos hdeeper, failures, [], rfl, hbefore, nofun⟩
      · refine ⟨f, if_neg hdeeper, earlier, later ++ [g], by simp [hsplit], hearlier, ?_⟩
        intro g' hg'
        rcases List.mem_append.mp hg' with hold | hnew
        · exact hlater g' hold
        · rw [List.mem_singleton.mp hnew]
          exact Nat.not_lt.mp hdeeper

/-- Reading an argument never finds a command unknown or incomplete. -/
theorem Kind.fault_of_read {k : Kind} {cs : List Char} {fault : Fault}
    (h : k.read cs = .error fault) : fault ≠ .unknownCommand ∧ fault ≠ .incompleteCommand := by
  have htoken : ∀ token, k.readToken token = .error fault →
      fault ≠ .unknownCommand ∧ fault ≠ .incompleteCommand := by
    intro token htoken
    unfold readToken Bounds.checkInteger Bounds.checkFloat at htoken
    dsimp only at htoken
    repeat' split at htoken
    all_goals cases htoken
    all_goals exact ⟨nofun, nofun⟩
  unfold read readWord at h
  dsimp only at h
  split at h
  · cases h
    exact ⟨nofun, nofun⟩
  · cases h
  · split at h
    · cases h
    · cases h
      exact ⟨nofun, nofun⟩
  · split_ifs at h
    · cases h
      exact ⟨nofun, nofun⟩
    · exact htoken _ (map_eq_error_iff.mp h)

/-- Only a wrong literal as the first word makes a command unknown. -/
theorem Element.fault_of_read {e : Element} {first : Bool} {cs : List Char} {fault : Fault}
    (h : e.read first cs = .error fault) :
    fault ≠ .incompleteCommand ∧
      (fault = .unknownCommand ↔ e.isLiteral = true ∧ first = true) := by
  cases e with
  | literal text =>
    simp only [read] at h
    split_ifs at h with hword hfirst
    · cases h
      simp [isLiteral, hfirst]
    · cases h
      simp [isLiteral, hfirst]
  | argument name kind =>
    obtain ⟨hunknown, hincomplete⟩ := Kind.fault_of_read h
    simp [hunknown, hincomplete, isLiteral]

namespace Forest

theorem Stops.ne_unknown {executable : Bool} {children : Forest} {rest : List Char} {fault : Fault}
    (h : Stops executable children rest fault) : fault ≠ .unknownCommand := by
  cases h with
  | incomplete => nofun
  | trailing => nofun
  | unseparated => nofun

/-- A command is found incomplete only at the end of the text. -/
theorem Fails.taken_eq_of_incomplete {f : Forest} {rank : Rank} {first : Bool}
    {cs taken : List Char} (h : f.Fails rank first cs taken .incompleteCommand) : taken = cs := by
  generalize hfault : Fault.incompleteCommand = fault at h
  induction h with
  | mismatch admits refuses => exact absurd hfault.symm (Element.fault_of_read refuses).1
  | stopped admits takes stops =>
    subst hfault
    cases stops with
    | incomplete => rw [List.append_nil]
  | deeper admits takes fails ih => rw [ih hfault]
  | sibling fails ih => exact ih hfault

theorem Fails.taken_eq_nil_of_unknown {f : Forest} {rank : Rank} {first : Bool}
    {cs taken : List Char} (h : f.Fails rank first cs taken .unknownCommand) :
    taken = [] ∧ first = true := by
  generalize hfault : Fault.unknownCommand = fault at h
  induction h with
  | mismatch admits refuses =>
    exact ⟨rfl, ((Element.fault_of_read refuses).2.mp hfault.symm).2⟩
  | stopped admits takes stops => exact absurd hfault.symm stops.ne_unknown
  | deeper admits takes fails ih => cases (ih hfault).2
  | sibling fails ih => exact ih hfault

/-- On the top level of a tree there are only words to be written as they are. -/
def HasCommandWords (f : Forest) : Prop :=
  ∀ e ∈ f.tops, ∃ text, e = .literal text ∧ text.toList ≠ []

section
variable {f : Forest} {cs taken : List Char} {fault : Fault}

theorem Fails.unknown_of_taken_eq_nil (hwords : f.HasCommandWords)
    (h : f.Fails .literals true cs [] fault) : fault = .unknownCommand := by
  generalize hnil : [] = taken, hrank : Rank.literals = rank, hfirst : true = first at h
  induction h with
  | mismatch admits refuses =>
    subst hrank
    exact (Element.fault_of_read refuses).2.mpr ⟨admits, hfirst.symm⟩
  | stopped admits takes stops =>
    obtain ⟨text, rfl, htext⟩ := hwords _ List.mem_cons_self
    cases takes with
    | literal => exact absurd hnil.symm htext
  | deeper admits takes fails ih => cases (List.append_eq_nil_iff.mp hnil.symm).2
  | sibling fails ih =>
    have hsiblings := fun e he => hwords e (List.mem_cons_of_mem _ he)
    exact ih hsiblings hnil hrank hfirst

/-- Without the right word on the top level, an attempt takes nothing. -/
theorem Fails.taken_eq_nil
    (hno : ∀ text, .literal text ∈ f.tops → text.toList ≠ cs.takeWhile isTokenChar)
    (h : f.Fails .literals true cs taken fault) : taken = [] := by
  have hwrong : ∀ {e : Element} {word rest : List Char} {value : Argument},
      Rank.literals.admits e = true → e.Takes word rest value →
      ∃ text, e = .literal text ∧ text.toList = (word ++ rest).takeWhile isTokenChar := by
    intro e word rest value hadmits htakes
    cases htakes with
    | literal noSpace ends =>
      exact ⟨_, rfl, ((splits_word_iff _ _ _).mpr ⟨rfl, noSpace, ends⟩).1.symm⟩
    | argument => cases hadmits
  generalize hrank : Rank.literals = rank, hfirst : true = first at h
  induction h with
  | mismatch => rfl
  | stopped admits takes =>
    subst hrank
    obtain ⟨text, rfl, htext⟩ := hwrong admits takes
    exact absurd htext (hno text List.mem_cons_self)
  | deeper admits takes =>
    subst hrank
    obtain ⟨text, rfl, htext⟩ := hwrong admits takes
    exact absurd htext (hno text List.mem_cons_self)
  | sibling fails ih => exact ih (fun text ht => hno text (List.mem_cons_of_mem _ ht)) hrank hfirst

end

theorem exists_stops {executable : Bool} {children : Forest} {next : Nat} {rest : List Char}
    (h : (inside executable children next rest).found? = none)
    (hspace : ∀ behind, rest ≠ ' ' :: behind) : ∃ fault, Stops executable children rest fault := by
  by_cases hnil : rest = []
  · subst hnil
    rw [found?_inside_nil] at h
    cases executable with
    | false => exact ⟨_, .incomplete rfl⟩
    | true => cases h
  · exact ⟨_, .unseparated hnil hspace⟩

theorem exists_admits {f : Forest} (h : f ≠ nil) :
    ∃ rank : Rank, ∃ e ∈ f.tops, rank.admits e = true := by
  cases f with
  | nil => exact absurd rfl h
  | cons e executable children siblings =>
    obtain ⟨rank, hrank⟩ := Rank.exists_leads [e]
    exact ⟨rank, e, List.mem_cons_self, Rank.leads_cons.mp hrank⟩

/-- Where nothing is found, each node of the rank fails, and not before the end of the word that it
takes. -/
theorem exists_fails {f : Forest} {rank : Rank} {first : Bool} {cursor : Nat} {cs : List Char}
    (h : (f.explore rank first cursor cs).found? = none) {e : Element} (he : e ∈ f.tops)
    (hrank : rank.admits e = true) :
    ∃ taken fault, f.Fails rank first cs taken fault ∧
      ∀ value rest, e.read first cs = .ok (value, rest) →
        ∃ word, cs = word ++ rest ∧ word <+: taken := by
  induction f generalizing rank first cursor cs e with
  | nil => cases he
  | cons e' executable children siblings ihc ihs =>
    rcases List.mem_cons.mp he with rfl | he
    · cases hread : e.read first cs with
      | error fault =>
        refine ⟨[], fault, .mismatch hrank hread, ?_⟩
        intro value rest hok
        cases hok
      | ok r =>
        obtain ⟨value, rest⟩ := r
        obtain ⟨word, rfl, htakes⟩ := (e.read_eq_ok_iff first cs rest value).mp hread
        rw [explore_cons_of_ok _ _ _ _ hrank hread] at h
        have hinside :=
          Exploration.found?_below_eq_none.mp (Exploration.found?_orElse_eq_none.mp h).1
        have hfails : ∃ more fault, (cons e executable children siblings).Fails rank first
            (word ++ rest) (word ++ more) fault := by
          by_cases hspace : ∃ behind, rest = ' ' :: behind
          · obtain ⟨behind, rfl⟩ := hspace
            by_cases hleaf : children = nil
            · exact ⟨[], _, by simpa using .stopped hrank htakes (.trailing hleaf)⟩
            · obtain ⟨inner, child, hchild, hadmits⟩ := exists_admits hleaf
              obtain ⟨more, fault, hmore, -⟩ :=
                ihc (found?_below_of_inside hinside inner) hchild hadmits
              exact ⟨' ' :: more, fault, .deeper hrank htakes hmore⟩
          · obtain ⟨fault, hstops⟩ :=
              exists_stops hinside fun behind hbehind => hspace ⟨behind, hbehind⟩
            exact ⟨[], fault, by simpa using .stopped hrank htakes hstops⟩
        obtain ⟨more, fault, hfails⟩ := hfails
        refine ⟨_, fault, hfails, ?_⟩
        intro value' rest' hok
        cases hok
        exact ⟨word, rfl, List.prefix_append word more⟩
    · have hsiblings : (siblings.explore rank first cursor cs).found? = none := by
        by_contra hsome
        have hfound : ((cons e' executable children siblings).explore rank first cursor
            cs).found?.isSome = true :=
          found_cons_of_siblings (Option.isSome_iff_ne_none.mpr hsome)
        rw [h] at hfound
        cases hfound
      obtain ⟨taken, fault, hfails, hword⟩ := ihs hsiblings he hrank
      exact ⟨taken, fault, .sibling hfails, hword⟩

/-- A usage line adds its first element to the top level only if no other counts as the same. -/
theorem mem_tops_insert {f : Forest} {e : Element} {rest : List Element} {x : Element}
    (h : x ∈ (f.insert e rest).tops) :
    x ∈ f.tops ∨ (x = e ∧ ∀ e' ∈ f.tops, e'.same e = false) := by
  fun_induction insert f e rest with
  | case1 e rest =>
    have hnone : ∀ e' ∈ nil.tops, e'.same e = false := by
      intro e' he'
      cases he'
    cases rest with
    | nil => exact Or.inr ⟨List.mem_singleton.mp h, hnone⟩
    | cons e' rest => exact Or.inr ⟨List.mem_singleton.mp h, hnone⟩
  | case2 => exact Or.inl h
  | case3 => exact Or.inl h
  | case4 e₀ executable children siblings e rest he ih =>
    rcases List.mem_cons.mp h with rfl | hs
    · exact Or.inl List.mem_cons_self
    · rcases ih hs with hold | ⟨rfl, hnew⟩
      · exact Or.inl (List.mem_cons_of_mem _ hold)
      · exact Or.inr ⟨rfl, List.forall_mem_cons.mpr ⟨Bool.eq_false_iff.mpr he, hnew⟩⟩

end Forest

namespace Tree

theorem hasCommandWords_of_usages {lines : List String} {t : Tree} (h : ofUsages lines = .ok t) :
    t.roots.HasCommandWords := by
  refine ofUsages_induction ?_ ?_ h
  · intro e he
    cases he
  · intro lines t line u ih hu e he
    rcases Forest.mem_tops_insert he with hold | ⟨rfl, -⟩
    · exact ih e hold
    · exact ⟨u.command, rfl, (Usage.command_of_parse hu).1⟩

theorem exists_mem_tops_of_usages {lines : List String} {t : Tree} (h : ofUsages lines = .ok t)
    (hlines : lines ≠ []) : ∃ e, e ∈ t.roots.tops := by
  obtain ⟨line, hline⟩ := List.exists_mem_of_ne_nil lines hlines
  obtain ⟨-, -, p, hp, -⟩ := exists_mem_paths_of_usage h line hline
  cases hroots : t.roots with
  | nil =>
    rw [hroots] at hp
    cases hp
  | cons e executable children siblings => exact ⟨e, List.mem_cons_self⟩

theorem parse_of_blank (t : Tree) {input : String} (h : input.toList.all isBlank = true) :
    t.parse input = .error ⟨.emptyCommand, input, 0⟩ := if_pos h

/-- A line that is not blank is rejected when the exploration of the roots finds nothing; it is
reported with what is kept of the failures. -/
theorem parse_eq_error_iff (t : Tree) {input : String} (hblank : input.toList.all isBlank = false)
    (e : SyntaxError) :
    t.parse input = .error e ↔
      (t.roots.explore .literals true 0 input.toList).found? = none ∧
      e.input = input ∧
      ⟨e.cursor, e.fault⟩ = ((t.roots.explore .literals true 0 input.toList).failures.foldl
        keepDeeper none).getD ⟨0, .unknownCommand⟩ := by
  have hwalk := t.roots.walk_eq_after_explore .literals 0 input.toList .start
  have htrail : Search.start.trail.isEmpty = true := rfl
  rw [htrail] at hwalk
  simp only [parse]
  rw [if_neg (by simp [hblank]), hwalk]
  cases hfound : (t.roots.explore .literals true 0 input.toList).found? with
  | some nodes => simp [Search.after, hfound]
  | none =>
    obtain ⟨fault, input', cursor⟩ := e
    generalize hkept : (t.roots.explore .literals true 0 input.toList).failures.foldl keepDeeper
      none = kept
    rcases hdeepest : kept.getD ⟨0, .unknownCommand⟩ with ⟨cursor', fault'⟩
    simp only [Search.after, hfound, Search.start, hkept, hdeepest, Option.isSome_none,
      Except.error.injEq, SyntaxError.mk.injEq, Failure.mk.injEq, true_and]
    constructor
    · rintro ⟨rfl, rfl, rfl⟩
      exact ⟨rfl, rfl, rfl⟩
    · rintro ⟨rfl, rfl, rfl⟩
      exact ⟨rfl, rfl, rfl⟩

end Tree

/-- What a failed attempt at the roots of a tree says about its cursor and its fault. -/
theorem Forest.Fails.report {f : Forest} (hwords : f.HasCommandWords) {cs taken : List Char}
    {fault : Fault} (h : f.Fails .literals true cs taken fault) :
    (fault = .unknownCommand ↔ byteSize taken = 0) ∧
    (fault = .incompleteCommand → byteSize taken = byteSize cs) ∧
    ∃ rest, cs = taken ++ rest ∧ f.Reaches taken rest := by
  refine ⟨?_, ?_, h.exists_reaches⟩
  · rw [byteSize_eq_zero]
    constructor
    · rintro rfl
      exact h.taken_eq_nil_of_unknown.1
    · rintro rfl
      exact h.unknown_of_taken_eq_nil hwords
  · rintro rfl
    rw [h.taken_eq_of_incomplete]

/-- A literal at the roots that equals the first word is taken, so that some attempt fails behind
it. -/
theorem Tree.exists_attempt_behind_command {lines : List String} {t : Tree}
    (ht : ofUsages lines = .ok t) {cs : List Char}
    (hnone : (t.roots.explore .literals true 0 cs).found? = none) {name : String}
    (hname : name ∈ t.commands) (hword : name.toList = cs.takeWhile isTokenChar) :
    ∃ taken fault, t.roots.Fails .literals true cs taken fault ∧ byteSize taken ≠ 0 := by
  obtain ⟨e, he, rfl⟩ := List.mem_map.mp hname
  obtain ⟨text, rfl, htext⟩ := hasCommandWords_of_usages ht e he
  have hread : (Element.literal text).read true cs =
      .ok (.literal text, cs.dropWhile isTokenChar) := if_pos hword.symm
  obtain ⟨taken, fault, hfails, hbehind⟩ := Forest.exists_fails hnone he rfl
  obtain ⟨word, hcs, more, rfl⟩ := hbehind _ _ hread
  have hsplit : word = text.toList := by
    have hall := List.takeWhile_append_dropWhile (p := isTokenChar) (l := cs)
    rw [← hword] at hall
    exact List.append_cancel_right (hcs.symm.trans hall.symm)
  refine ⟨_, fault, hfails, ?_⟩
  rw [Ne, byteSize_eq_zero, List.append_eq_nil_iff]
  rintro ⟨hnil, -⟩
  exact htext (hsplit.symm.trans hnil)

/-- A line that is rejected is reported with the first deepest of all failed attempts. It is an
unknown command, with the cursor in front, if no command begins with its first word; it is an
incomplete one only with the cursor behind it; and the text before the cursor is what nodes have
taken. Without usage lines there is no attempt. -/
theorem error_of_parse {lines : List String} {t : Tree} (ht : Tree.ofUsages lines = .ok t)
    {input : String} (hblank : input.toList.all isBlank = false) {e : SyntaxError}
    (he : t.parse input = .error e) :
    let attempts := (t.roots.explore .literals true 0 input.toList).failures
    e.input = input ∧
    (∀ f, f ∈ attempts ↔ ∃ taken, t.roots.Fails .literals true input.toList taken f.fault ∧
      f.cursor = byteSize taken) ∧
    (lines ≠ [] → FirstDeepest attempts ⟨e.cursor, e.fault⟩) ∧
    (e.fault = .unknownCommand ↔ e.cursor = 0) ∧
    (e.cursor = 0 ↔ ∀ name ∈ t.commands, name.toList ≠ input.toList.takeWhile isTokenChar) ∧
    (e.fault = .incompleteCommand → e.cursor = byteSize input.toList) ∧
    ∃ before behind, input.toList = before ++ behind ∧ e.cursor = byteSize before ∧
      t.roots.Reaches before behind := by
  intro attempts
  obtain ⟨hnone, hinput, hkept⟩ := (t.parse_eq_error_iff hblank e).mp he
  have hattempts : ∀ f, f ∈ attempts ↔
      ∃ taken, t.roots.Fails .literals true input.toList taken f.fault ∧
        f.cursor = byteSize taken := by
    intro f
    simpa using Forest.mem_failures_iff hnone f
  refine ⟨hinput, hattempts, ?_⟩
  by_cases hlines : lines = []
  · subst hlines
    cases ht
    obtain ⟨hcursor, hfault⟩ := Failure.mk.inj hkept
    rw [hcursor, hfault]
    exact ⟨absurd rfl, ⟨fun _ => rfl, fun _ => rfl⟩, ⟨fun _ => nofun, fun _ => rfl⟩, nofun,
      [], input.toList, rfl, rfl, Or.inl rfl⟩
  · have hwords := Tree.hasCommandWords_of_usages ht
    have hsome : attempts ≠ [] := by
      obtain ⟨e₀, he₀⟩ := Tree.exists_mem_tops_of_usages ht hlines
      obtain ⟨text, rfl, -⟩ := hwords e₀ he₀
      obtain ⟨taken, fault, hfails, -⟩ := Forest.exists_fails hnone he₀ rfl
      exact List.ne_nil_of_mem ((hattempts ⟨byteSize taken, fault⟩).mpr ⟨taken, hfails, rfl⟩)
    obtain ⟨f, hf, hfirst⟩ := exists_foldl_keepDeeper hsome
    have hreported : (⟨e.cursor, e.fault⟩ : Failure) = f := by
      rw [hkept, hf]
      rfl
    rw [← hreported] at hfirst
    obtain ⟨taken, hfails, hcursor⟩ := (hattempts _).mp hfirst.mem
    dsimp only at hfails hcursor
    obtain ⟨hunknown, hincomplete, rest, hrest, hreaches⟩ := hfails.report hwords
    rw [← hcursor] at hunknown hincomplete
    refine ⟨fun _ => hfirst, hunknown, ⟨?_, ?_⟩, hincomplete, taken, rest, hrest, hcursor, hreaches⟩
    · intro hzero name hname hword
      obtain ⟨taken', fault', hfails', hpos⟩ :=
        Tree.exists_attempt_behind_command ht hnone hname hword
      have hattempt := (hattempts ⟨byteSize taken', fault'⟩).mpr ⟨taken', hfails', rfl⟩
      have hle := hfirst.cursor_le hattempt
      dsimp only at hle
      omega
    · intro hno
      have hnil : taken = [] := by
        refine hfails.taken_eq_nil fun text htext => hno text ?_
        exact List.mem_map.mpr ⟨_, htext, rfl⟩
      rw [hcursor, hnil]
      rfl

/-- Of two usages, the one that takes the name came further, and misses a number. -/
theorem error_of_parse_unfinished :
    ∃ t e, Tree.ofUsages ["tp all", "tp <who:word> <x:integer>"] = .ok t ∧
      t.parse "tp bob" = .error e ∧ e.fault = .incompleteCommand ∧
      FirstDeepest (t.roots.explore .literals true 0 "tp bob".toList).failures
        ⟨e.cursor, .incompleteCommand⟩ ∧
      e.cursor = byteSize "tp bob".toList := by
  have ht : Tree.ofUsages ["tp all", "tp <who:word> <x:integer>"] = .ok
      ⟨.cons (.literal "tp") false
        (.cons (.literal "all") true .nil
          (.cons (.argument "who" .word) false
            (.cons (.argument "x" (.integer .free)) true .nil .nil) .nil)) .nil,
        ["tp all", "tp <who:word> <x:integer>"]⟩ := by decide +kernel
  have he : Tree.parse ⟨.cons (.literal "tp") false
        (.cons (.literal "all") true .nil
          (.cons (.argument "who" .word) false
            (.cons (.argument "x" (.integer .free)) true .nil .nil) .nil)) .nil,
        ["tp all", "tp <who:word> <x:integer>"]⟩ "tp bob" =
      .error ⟨.incompleteCommand, "tp bob", 6⟩ := by decide +kernel
  obtain ⟨-, -, hfirst, -, -, hend, -⟩ := error_of_parse ht (by decide +kernel) he
  exact ⟨_, _, ht, he, rfl, hfirst (by decide), hend rfl⟩

end CommandScript.Grammar
