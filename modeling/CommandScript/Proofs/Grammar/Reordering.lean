import CommandScript.Proofs.Grammar.Nodes

/-! Usage lines in another order. If no two of them call for different arguments in the same place,
a command line is read in the same way, and rejected with the same failure. -/
namespace CommandScript.Grammar
open Text

section
variable {kept kept' : Option Failure} {f g : Failure} {failures : List Failure}

theorem keepDeeper_of_lt (h : ∀ f ∈ kept, f.cursor < g.cursor) : keepDeeper kept g = some g := by
  cases kept with
  | none => rfl
  | some f => exact if_pos (h f rfl)

theorem keepDeeper_of_le (h : g.cursor ≤ f.cursor) : keepDeeper (some f) g = some f :=
  if_neg (Nat.not_lt.mpr h)

theorem keepDeeper_cases (kept : Option Failure) (g : Failure) :
    keepDeeper kept g = kept ∨
      (keepDeeper kept g = some g ∧ ∀ f ∈ kept, f.cursor < g.cursor) := by
  cases kept with
  | none => exact Or.inr ⟨rfl, nofun⟩
  | some f =>
    by_cases h : f.cursor < g.cursor
    · exact Or.inr ⟨if_pos h, by simpa using h⟩
    · exact Or.inl (if_neg h)

/-- What is kept in the end is what was kept before, or one of the failures that is deeper. -/
theorem foldl_keepDeeper_cases (failures : List Failure) (kept : Option Failure) :
    failures.foldl keepDeeper kept = kept ∨
      ∃ f ∈ failures, failures.foldl keepDeeper kept = some f ∧
        ∀ g ∈ kept, g.cursor < f.cursor := by
  induction failures generalizing kept with
  | nil => exact Or.inl rfl
  | cons g failures ih =>
    rw [List.foldl_cons]
    rcases keepDeeper_cases kept g with hkept | ⟨hdeeper, hless⟩
    · rw [hkept]
      rcases ih kept with hsame | ⟨f, hf, hfold, hlt⟩
      · exact Or.inl hsame
      · exact Or.inr ⟨f, List.mem_cons_of_mem g hf, hfold, hlt⟩
    · rw [hdeeper]
      rcases ih (some g) with hsame | ⟨f, hf, hfold, hlt⟩
      · exact Or.inr ⟨g, List.mem_cons_self, hsame, hless⟩
      · refine Or.inr ⟨f, List.mem_cons_of_mem g hf, hfold, ?_⟩
        intro k hk
        exact Nat.lt_trans (hless k hk) (hlt g rfl)

theorem exists_foldl_keepDeeper_ge (f : Failure) (failures : List Failure) :
    ∃ h, failures.foldl keepDeeper (some f) = some h ∧ f.cursor ≤ h.cursor := by
  rcases foldl_keepDeeper_cases failures (some f) with hsame | ⟨g, -, hfold, hlt⟩
  · exact ⟨f, hsame, Nat.le_refl _⟩
  · exact ⟨g, hfold, Nat.le_of_lt (hlt f rfl)⟩

theorem exists_foldl_keepDeeper_ge_of_mem (hg : g ∈ failures) (kept : Option Failure) :
    ∃ h, failures.foldl keepDeeper kept = some h ∧ g.cursor ≤ h.cursor := by
  obtain ⟨before, behind, rfl⟩ := List.append_of_mem hg
  rw [List.foldl_append, List.foldl_cons]
  cases hbefore : before.foldl keepDeeper kept with
  | none => exact exists_foldl_keepDeeper_ge g behind
  | some f =>
    by_cases hlt : f.cursor < g.cursor
    · rw [keepDeeper_of_lt (by simpa using hlt)]
      exact exists_foldl_keepDeeper_ge g behind
    · rw [keepDeeper_of_le (Nat.not_lt.mp hlt)]
      obtain ⟨h, hfold, hle⟩ := exists_foldl_keepDeeper_ge f behind
      exact ⟨h, hfold, by omega⟩

/-- What was kept before makes no difference if a deeper failure comes. -/
theorem foldl_keepDeeper_eq (hg : g ∈ failures) (h : ∀ f ∈ kept, f.cursor < g.cursor)
    (h' : ∀ f ∈ kept', f.cursor < g.cursor) :
    failures.foldl keepDeeper kept = failures.foldl keepDeeper kept' := by
  induction failures generalizing kept kept' with
  | nil => cases hg
  | cons g' failures ih =>
    rw [List.foldl_cons, List.foldl_cons]
    by_cases hlt : g'.cursor < g.cursor
    · have hmem : g ∈ failures := by
        rcases List.mem_cons.mp hg with rfl | hmem
        · exact absurd hlt (Nat.lt_irrefl _)
        · exact hmem
      have hstep : ∀ {k : Option Failure}, (∀ f ∈ k, f.cursor < g.cursor) →
          ∀ f ∈ keepDeeper k g', f.cursor < g.cursor := by
        intro k hk f hf
        rcases keepDeeper_cases k g' with heq | ⟨heq, -⟩
        · rw [heq] at hf
          exact hk f hf
        · rw [heq] at hf
          cases hf
          exact hlt
      exact ih hmem (hstep h) (hstep h')
    · have hle := Nat.not_lt.mp hlt
      rw [keepDeeper_of_lt fun f hf => Nat.lt_of_lt_of_le (h f hf) hle,
        keepDeeper_of_lt fun f hf => Nat.lt_of_lt_of_le (h' f hf) hle]

end

namespace Exploration

/-- The explorations find the same, and if they find nothing, the same failure is kept of both. -/
structure Agrees (x y : Exploration) : Prop where
  found : x.found? = y.found?
  kept : x.found? = none →
    ∀ kept, x.failures.foldl keepDeeper kept = y.failures.foldl keepDeeper kept

theorem Agrees.refl (x : Exploration) : x.Agrees x := ⟨rfl, fun _ _ => rfl⟩

theorem Agrees.symm {x y : Exploration} (h : x.Agrees y) : y.Agrees x :=
  ⟨h.found.symm, fun hnone kept => (h.kept (h.found.trans hnone) kept).symm⟩

theorem Agrees.trans {x y z : Exploration} (h : x.Agrees y) (h' : y.Agrees z) : x.Agrees z :=
  ⟨h.found.trans h'.found,
    fun hnone kept => (h.kept hnone kept).trans (h'.kept (h.found.symm.trans hnone) kept)⟩

theorem Agrees.below {x y : Exploration} (h : x.Agrees y) (n : Node) :
    (x.below n).Agrees (y.below n) := by
  refine ⟨congrArg (Option.map (n :: ·)) h.found, ?_⟩
  intro hnone
  exact h.kept (found?_below_eq_none.mp hnone)

theorem Agrees.orElse {x x' y y' : Exploration} (h : x.Agrees x') (h' : y.Agrees y') :
    (x.orElse y).Agrees (x'.orElse y') := by
  refine ⟨by rw [found?_orElse, found?_orElse, h.found, h'.found], ?_⟩
  intro hnone kept
  obtain ⟨hx, hy⟩ := found?_orElse_eq_none.mp hnone
  rw [failures_orElse hx, failures_orElse (h.found.symm.trans hx), List.foldl_append,
    List.foldl_append, h.kept hx, h'.kept hy]

theorem orElse_nothing (x : Exploration) : x.orElse nothing = x := by
  obtain ⟨failures, _ | nodes⟩ := x
  · simp [orElse, nothing]
  · rfl

theorem orElse_assoc (x y z : Exploration) : (x.orElse y).orElse z = x.orElse (y.orElse z) := by
  obtain ⟨failures, _ | nodes⟩ := x
  · obtain ⟨failures', _ | nodes'⟩ := y
    · simp [orElse]
    · rfl
  · rfl

/-- A failure next to the exploration, in front of it or behind it, changes nothing. -/
structure Absorbs (x : Exploration) (cursor : Nat) (fault : Fault) : Prop where
  before : ((failed cursor fault).orElse x).Agrees x
  behind : (x.orElse (failed cursor fault)).Agrees x

theorem absorbs_of_deeper {x : Exploration} {cursor : Nat}
    (h : x.found? = none → ∃ g ∈ x.failures, cursor < g.cursor) (fault : Fault) :
    x.Absorbs cursor fault := by
  constructor
  · refine ⟨by rw [found?_orElse]; rfl, ?_⟩
    intro hnone kept
    obtain ⟨-, hx⟩ := found?_orElse_eq_none.mp hnone
    obtain ⟨g, hg, hdeeper⟩ := h hx
    rw [failures_orElse rfl, List.foldl_append]
    rcases keepDeeper_cases kept ⟨cursor, fault⟩ with heq | ⟨heq, hless⟩
    · exact congrArg (x.failures.foldl keepDeeper) heq
    · refine foldl_keepDeeper_eq hg ?_ fun f hf => Nat.lt_trans (hless f hf) hdeeper
      intro f hf
      have hf' : f ∈ keepDeeper kept ⟨cursor, fault⟩ := hf
      rw [heq] at hf'
      cases hf'
      exact hdeeper
  · refine ⟨by rw [found?_orElse]; exact Option.or_none, ?_⟩
    intro hnone kept
    obtain ⟨hx, -⟩ := found?_orElse_eq_none.mp hnone
    rw [failures_orElse hx, List.foldl_append]
    obtain ⟨g, hg, hdeeper⟩ := h hx
    obtain ⟨k, hk, hle⟩ := exists_foldl_keepDeeper_ge_of_mem hg kept
    rw [hk]
    exact keepDeeper_of_le (Nat.le_of_lt (Nat.lt_of_lt_of_le hdeeper hle))

theorem absorbs_failed (cursor : Nat) (fault : Fault) :
    (failed cursor fault).Absorbs cursor fault := by
  have htwice : ((failed cursor fault).orElse (failed cursor fault)).Agrees
      (failed cursor fault) := by
    refine ⟨rfl, ?_⟩
    intro _ kept
    obtain ⟨k, hk, hle⟩ :=
      exists_foldl_keepDeeper_ge_of_mem (g := ⟨cursor, fault⟩) List.mem_cons_self kept
    rw [failures_orElse rfl, List.foldl_append, failed, hk]
    exact keepDeeper_of_le hle
  exact ⟨htwice, htwice⟩

end Exploration

namespace Forest

/-- The exploration of one node and of all that is below it. -/
def attempt (e : Element) (executable : Bool) (children : Forest) (first : Bool) (cursor : Nat)
    (cs : List Char) : Exploration :=
  match e.read first cs with
  | .error fault => .failed cursor fault
  | .ok (value, rest) =>
    (inside executable children (cursor + (byteSize cs - byteSize rest)) rest).below
      ⟨e.name, value⟩

section
variable {e : Element} {rank : Rank} {first : Bool} {cs : List Char}
variable {executable : Bool} {children siblings : Forest} {cursor : Nat}

theorem attempt_of_error {fault : Fault} (h : e.read first cs = .error fault) :
    attempt e executable children first cursor cs = .failed cursor fault := by
  unfold attempt
  rw [h]

theorem attempt_of_ok {value : Argument} {rest : List Char}
    (h : e.read first cs = .ok (value, rest)) :
    attempt e executable children first cursor cs =
      (inside executable children (cursor + (byteSize cs - byteSize rest)) rest).below
        ⟨e.name, value⟩ := by
  unfold attempt
  rw [h]

theorem cursor_le_of_mem_attempt {g : Failure}
    (h : g ∈ (attempt e executable children first cursor cs).failures) : cursor ≤ g.cursor := by
  cases hread : e.read first cs with
  | error fault =>
    rw [attempt_of_error hread] at h
    exact cursor_le_of_mem_failed h
  | ok r =>
    rw [attempt_of_ok hread] at h
    exact Nat.le_trans (Nat.le_add_right _ _) (children.failsBehind.inside h)

/-- Once a node has been matched by some text, all attempts fail behind its start. -/
theorem cursor_lt_of_mem_attempt {word rest : List Char} {value : Argument}
    (hread : e.read first cs = .ok (value, rest)) (hcs : cs = word ++ rest) (hword : word ≠ [])
    {g : Failure} (h : g ∈ (attempt e executable children first cursor cs).failures) :
    cursor < g.cursor := by
  rw [attempt_of_ok hread] at h
  have hnext := children.failsBehind.inside h
  have hpos := byteSize_pos hword
  rw [hcs, byteSize_append_sub] at hnext
  omega

theorem explore_cons_of_admits (h : rank.admits e = true) :
    (cons e executable children siblings).explore rank first cursor cs =
      (attempt e executable children first cursor cs).orElse
        (siblings.explore rank first cursor cs) := by
  cases hread : e.read first cs with
  | error fault => rw [explore_cons_of_error _ _ _ _ h hread, attempt_of_error hread]
  | ok r => rw [explore_cons_of_ok _ _ _ _ h hread, attempt_of_ok hread]

theorem explore_eq_nothing {f : Forest} (h : ∀ e ∈ f.tops, rank.admits e = false) :
    f.explore rank first cursor cs = .nothing := by
  induction f with
  | nil => rfl
  | cons e executable children siblings _ ih =>
    rw [explore_cons_of_not_admits _ _ _ _ (h e List.mem_cons_self)]
    exact ih fun e' he' => h e' (List.mem_cons_of_mem e he')

/-- If the rank admits the element, it is refused, and this failure makes no difference next to
`x`. -/
def Outdone (x : Exploration) (rank : Rank) (first : Bool) (cursor : Nat) (cs : List Char)
    (e : Element) : Prop :=
  rank.admits e = true → ∃ fault, e.read first cs = .error fault ∧ x.Absorbs cursor fault

theorem agrees_of_outdone {x : Exploration} {f : Forest}
    (h : ∀ e ∈ f.tops, Outdone x rank first cursor cs e) :
    (x.orElse (f.explore rank first cursor cs)).Agrees x := by
  induction f with
  | nil =>
    rw [explore, Exploration.orElse_nothing]
    exact .refl x
  | cons e executable children siblings _ ih =>
    have hsiblings := ih fun e' he' => h e' (List.mem_cons_of_mem e he')
    cases hrank : rank.admits e with
    | false =>
      rw [explore_cons_of_not_admits _ _ _ _ hrank]
      exact hsiblings
    | true =>
      obtain ⟨fault, hread, habsorbs⟩ := h e List.mem_cons_self hrank
      rw [explore_cons_of_error _ _ _ _ hrank hread, ← Exploration.orElse_assoc]
      exact (habsorbs.behind.orElse (.refl _)).trans hsiblings

/-- Where all other nodes of a rank fail and make no difference, one node decides. -/
theorem explore_agrees_attempt {f : Forest} (hf : f.Trim) (h : f.HasNode e executable children)
    (hrank : rank.admits e = true)
    (hothers : ∀ e' ∈ f.tops, e' ≠ e →
      Outdone (attempt e executable children first cursor cs) rank first cursor cs e') :
    (f.explore rank first cursor cs).Agrees (attempt e executable children first cursor cs) := by
  induction h with
  | first =>
    cases hf with
    | cons self distinct useful below others =>
      rw [explore_cons_of_admits hrank]
      exact agrees_of_outdone fun e' he' =>
        hothers e' (List.mem_cons_of_mem _ he') (ne_of_distinct self distinct he')
  | @later e e' _ executable' _ children' siblings node ih =>
    cases hf with
    | cons self distinct useful below others =>
      have hsiblings := ih others hrank fun x hx => hothers x (List.mem_cons_of_mem e' hx)
      have hne : e' ≠ e := (ne_of_distinct self distinct node.mem_tops).symm
      cases hrank' : rank.admits e' with
      | false =>
        rw [explore_cons_of_not_admits _ _ _ _ hrank']
        exact hsiblings
      | true =>
        obtain ⟨fault, hread, habsorbs⟩ := hothers e' List.mem_cons_self hne hrank'
        rw [explore_cons_of_error _ _ _ _ hrank' hread]
        exact ((Exploration.Agrees.refl _).orElse hsiblings).trans habsorbs.before

end

theorem exists_failure_of_inside {executable : Bool} {children : Forest} {next : Nat}
    {rest : List Char} (h : (inside executable children next rest).found? = none) :
    ∃ g, g ∈ (inside executable children next rest).failures := by
  by_cases hspace : ∃ behind, rest = ' ' :: behind
  · obtain ⟨behind, rfl⟩ := hspace
    by_cases hleaf : children = nil
    · exact ⟨⟨next, .trailingData⟩,
        (mem_failures_inside_iff h _).mpr (Or.inl ⟨.trailing hleaf, rfl⟩)⟩
    · obtain ⟨rank, e, he, hadmits⟩ := exists_admits hleaf
      have hbelow := found?_below_of_inside h rank
      obtain ⟨taken, fault, hfails, -⟩ := exists_fails hbelow he hadmits
      have hmem := (mem_failures_iff hbelow ⟨next + 1 + byteSize taken, fault⟩).mpr
        ⟨taken, hfails, rfl⟩
      exact ⟨_, (mem_failures_inside_iff h _).mpr (Or.inr ⟨behind, rank, rfl, hmem⟩)⟩
  · obtain ⟨fault, hstops⟩ := exists_stops h fun behind hbehind => hspace ⟨behind, hbehind⟩
    exact ⟨⟨next, fault⟩, (mem_failures_inside_iff h _).mpr (Or.inl ⟨hstops, rfl⟩)⟩

section
variable {e : Element} {first : Bool} {cs : List Char} {executable : Bool} {children : Forest}

/-- A node that takes something fails further on than one that is refused. -/
theorem absorbs_attempt_of_ok {word rest : List Char} {value : Argument}
    (hread : e.read first cs = .ok (value, rest)) (hcs : cs = word ++ rest) (hword : word ≠ [])
    (cursor : Nat) (fault : Fault) :
    (attempt e executable children first cursor cs).Absorbs cursor fault := by
  refine Exploration.absorbs_of_deeper ?_ fault
  intro hnone
  rw [attempt_of_ok hread] at hnone
  obtain ⟨g, hg⟩ := exists_failure_of_inside (Exploration.found?_below_eq_none.mp hnone)
  have hmem : g ∈ (attempt e executable children first cursor cs).failures := by
    rw [attempt_of_ok hread]
    exact hg
  exact ⟨g, hmem, cursor_lt_of_mem_attempt hread hcs hword hmem⟩

/-- Attempts at nodes with the same element agree if the explorations below them do. -/
theorem attempt_agrees {children' : Forest} (hnil : children = nil ↔ children' = nil)
    (hbelow : ∀ rank cursor cs,
      (children.explore rank false cursor cs).Agrees (children'.explore rank false cursor cs))
    (cursor : Nat) :
    (attempt e executable children first cursor cs).Agrees
      (attempt e executable children' first cursor cs) := by
  cases hread : e.read first cs with
  | error fault =>
    rw [attempt_of_error hread, attempt_of_error hread]
    exact .refl _
  | ok r =>
    obtain ⟨value, rest⟩ := r
    rw [attempt_of_ok hread, attempt_of_ok hread]
    refine Exploration.Agrees.below ?_ _
    generalize cursor + (byteSize cs - byteSize rest) = next
    by_cases hspace : ∃ behind, rest = ' ' :: behind
    · obtain ⟨behind, rfl⟩ := hspace
      by_cases hleaf : children = nil
      · rw [hleaf, hnil.mp hleaf]
        exact .refl _
      · rw [inside_space_cons hleaf, inside_space_cons fun h => hleaf (hnil.mpr h)]
        exact (hbelow _ _ _).orElse (hbelow _ _ _)
    · by_cases hend : rest = []
      · rw [hend]
        exact .refl _
      · have hno : ∀ behind, rest ≠ ' ' :: behind := fun behind hb => hspace ⟨behind, hb⟩
        rw [inside_of_not_space hend hno, inside_of_not_space hend hno]
        exact .refl _

end
end Forest

/-- Wherever the lists have been the same and both go on with an argument, it is the same one. -/
def Compatible (p p' : List Element) : Prop :=
  ∀ before e e' rest rest', p = before ++ e :: rest → p' = before ++ e' :: rest' →
    e.isLiteral = false → e'.isLiteral = false → e = e'

theorem compatible_nil_left (p : List Element) : Compatible [] p := by
  intro before e e' rest rest' h
  simp at h

theorem compatible_nil_right (p : List Element) : Compatible p [] := by
  intro before e e' rest rest' _ h
  simp at h

theorem compatible_cons_iff {e e' : Element} {p p' : List Element} :
    Compatible (e :: p) (e' :: p') ↔
      (e.isLiteral = false → e'.isLiteral = false → e = e') ∧ (e = e' → Compatible p p') := by
  constructor
  · intro h
    refine ⟨h [] e e' p p' rfl rfl, ?_⟩
    rintro rfl before a a' rest rest' rfl rfl
    exact h (e :: before) a a' rest rest' rfl rfl
  · rintro ⟨hhead, htail⟩ before a a' rest rest' hp hp'
    cases before with
    | nil =>
      cases hp
      cases hp'
      exact hhead
    | cons b before =>
      cases hp
      cases hp'
      exact htail rfl before a a' rest rest' rfl rfl

/-- No two of the lines go on with different arguments where they have been the same. -/
def Unambiguous (lines : List String) : Prop :=
  ∀ line ∈ lines, ∀ line' ∈ lines, ∀ u u', Usage.parse line = .ok u → Usage.parse line' = .ok u' →
    Compatible u.elements u'.elements

namespace Forest

/-- A forest in which siblings are distinct, at most one of them is an argument, and no literal is
empty. -/
structure Definite (f : Forest) : Prop where
  trim : f.Trim
  compatible : ∀ p ∈ f.paths, ∀ p' ∈ f.paths, Compatible p p'
  words : ∀ p ∈ f.paths, ∀ text, .literal text ∈ p → text.toList ≠ []

namespace Definite

variable {f : Forest} {e : Element} {executable : Bool} {children : Forest}

theorem node (h : f.Definite) (hnode : f.HasNode e executable children) : children.Definite := by
  have hpaths : ∀ q ∈ children.paths, e :: q ∈ f.paths := fun q hq =>
    (h.trim.mem_paths_node_iff hnode q).mpr (Or.inr hq)
  refine ⟨(h.trim.node hnode).2, ?_, ?_⟩
  · intro q hq q' hq'
    exact (compatible_cons_iff.mp (h.compatible _ (hpaths q hq) _ (hpaths q' hq'))).2 rfl
  · intro q hq text htext
    exact h.words _ (hpaths q hq) text (List.mem_cons_of_mem e htext)

theorem eq_of_arguments (h : f.Definite) {e' : Element} (he : e ∈ f.tops) (he' : e' ∈ f.tops)
    (hargument : e.isLiteral = false) (hargument' : e'.isLiteral = false) : e = e' := by
  obtain ⟨q, hq⟩ := h.trim.exists_mem_paths_of_mem_tops he
  obtain ⟨q', hq'⟩ := h.trim.exists_mem_paths_of_mem_tops he'
  exact (compatible_cons_iff.mp (h.compatible _ hq _ hq')).1 hargument hargument'

theorem literal_ne_nil (h : f.Definite) {text : String} (htext : .literal text ∈ f.tops) :
    text.toList ≠ [] := by
  obtain ⟨q, hq⟩ := h.trim.exists_mem_paths_of_mem_tops htext
  exact h.words _ hq text List.mem_cons_self

/-- Under each rank one node outdoes the others: the literal that the text begins with, or any if
there is none, and the only argument. -/
theorem exists_outdoing (h : f.Definite) {rank : Rank} (first : Bool) (cursor : Nat)
    (cs : List Char) (hsome : ∃ e ∈ f.tops, rank.admits e = true) :
    ∃ e ∈ f.tops, rank.admits e = true ∧ ∀ executable children, ∀ e' ∈ f.tops, e' ≠ e →
      Outdone (attempt e executable children first cursor cs) rank first cursor cs e' := by
  obtain ⟨e, he, hrank⟩ := hsome
  cases rank with
  | literals =>
    have hliteral : ∀ e' : Element, Rank.literals.admits e' = true →
        ∃ text, e' = .literal text := by
      intro e' he'
      cases e' with
      | literal text => exact ⟨text, rfl⟩
      | argument name kind => cases he'
    have hrefused : ∀ text : String, text.toList ≠ cs.takeWhile isTokenChar →
        (Element.literal text).read first cs =
          .error (if first then .unknownCommand else .incorrectArgument) :=
      fun text hne => if_neg hne.symm
    by_cases hword : ∃ text, .literal text ∈ f.tops ∧ text.toList = cs.takeWhile isTokenChar
    · obtain ⟨text, htext, hword⟩ := hword
      have hsplit : cs = text.toList ++ cs.dropWhile isTokenChar := by
        rw [hword]
        exact List.takeWhile_append_dropWhile.symm
      have hread : (Element.literal text).read first cs =
          .ok (.literal text, cs.dropWhile isTokenChar) := if_pos hword.symm
      refine ⟨_, htext, rfl, ?_⟩
      intro executable children e' _ hne hadmits
      obtain ⟨text', rfl⟩ := hliteral e' hadmits
      have hne' : text'.toList ≠ cs.takeWhile isTokenChar := by
        rw [← hword, Ne, String.toList_inj]
        rintro rfl
        exact hne rfl
      exact ⟨_, hrefused text' hne',
        absorbs_attempt_of_ok hread hsplit (h.literal_ne_nil htext) cursor _⟩
    · have hno : ∀ text, .literal text ∈ f.tops → text.toList ≠ cs.takeWhile isTokenChar :=
        fun text htext hw => hword ⟨text, htext, hw⟩
      refine ⟨e, he, hrank, ?_⟩
      intro executable children e' he' _ hadmits
      obtain ⟨text, rfl⟩ := hliteral e hrank
      obtain ⟨text', rfl⟩ := hliteral e' hadmits
      refine ⟨_, hrefused text' (hno text' he'), ?_⟩
      rw [attempt_of_error (hrefused text (hno text he))]
      exact Exploration.absorbs_failed cursor _
  | arguments =>
    have hargument : ∀ e' : Element, Rank.arguments.admits e' = true → e'.isLiteral = false := by
      intro e' he'
      simpa [Rank.admits] using he'
    refine ⟨e, he, hrank, ?_⟩
    intro executable children e' he' hne hadmits
    exact absurd (h.eq_of_arguments he' he (hargument e' hadmits) (hargument e hrank)) hne

/-- Forests with the same paths are explored to the same effect if those below their nodes are. -/
theorem explore_agrees_of_below {g : Forest} (hf : f.Definite) (hg : g.Definite)
    (hpaths : ∀ p, p ∈ f.paths ↔ p ∈ g.paths)
    (hbelow : ∀ e executable children children', f.HasNode e executable children →
      g.HasNode e executable children' → (∀ q, q ∈ children.paths ↔ q ∈ children'.paths) →
      ∀ rank cursor cs, (children.explore rank false cursor cs).Agrees
        (children'.explore rank false cursor cs))
    (rank : Rank) (first : Bool) (cursor : Nat) (cs : List Char) :
    (f.explore rank first cursor cs).Agrees (g.explore rank first cursor cs) := by
  have htops : ∀ e, e ∈ f.tops ↔ e ∈ g.tops := by
    intro e
    constructor
    · intro he
      obtain ⟨q, hq⟩ := hf.trim.exists_mem_paths_of_mem_tops he
      exact mem_tops_of_mem_paths ((hpaths _).mp hq)
    · intro he
      obtain ⟨q, hq⟩ := hg.trim.exists_mem_paths_of_mem_tops he
      exact mem_tops_of_mem_paths ((hpaths _).mpr hq)
  by_cases hsome : ∃ e ∈ f.tops, rank.admits e = true
  · obtain ⟨e, he, hrank, houtdone⟩ := hf.exists_outdoing first cursor cs hsome
    obtain ⟨executable, children, hnode⟩ := exists_node_of_mem_tops he
    obtain ⟨children', hnode', hchildren⟩ := hf.trim.exists_node_of_paths hg.trim hpaths hnode
    have hnil : children = nil ↔ children' = nil := by
      rw [(hf.node hnode).trim.eq_nil_iff, (hg.node hnode').trim.eq_nil_iff]
      simp only [hchildren]
    have hleft := explore_agrees_attempt hf.trim hnode hrank (houtdone executable children)
    have hright := explore_agrees_attempt hg.trim hnode' hrank fun e' he' =>
      houtdone executable children' e' ((htops e').mpr he')
    have hmiddle : (attempt e executable children first cursor cs).Agrees
        (attempt e executable children' first cursor cs) :=
      attempt_agrees hnil (hbelow e executable children children' hnode hnode' hchildren) cursor
    exact hleft.trans (hmiddle.trans hright.symm)
  · have hnone : ∀ e ∈ f.tops, rank.admits e = false := by
      intro e he
      by_contra hne
      exact hsome ⟨e, he, by simpa using hne⟩
    rw [explore_eq_nothing hnone, explore_eq_nothing fun e he => hnone e ((htops e).mpr he)]
    exact .refl _

/-- Forests with the same paths are explored to the same effect, whatever the order of their
nodes. -/
theorem explore_agrees {g : Forest} (hf : f.Definite) (hg : g.Definite)
    (hpaths : ∀ p, p ∈ f.paths ↔ p ∈ g.paths) (rank : Rank) (first : Bool) (cursor : Nat)
    (cs : List Char) :
    (f.explore rank first cursor cs).Agrees (g.explore rank first cursor cs) := by
  -- The nodes of the two forests come in different orders, so that the induction is on the first
  -- forest, over what is below all of its nodes.
  have hnodes : ∀ e executable children, f.HasNode e executable children → ∀ g : Forest,
      children.Definite → g.Definite → (∀ q, q ∈ children.paths ↔ q ∈ g.paths) →
      ∀ rank first cursor cs,
        (children.explore rank first cursor cs).Agrees (g.explore rank first cursor cs) := by
    clear hf hpaths
    induction f with
    | nil =>
      intro e executable children hnode
      cases hnode
    | cons e₀ executable₀ children₀ siblings ihc ihs =>
      intro e executable children hnode
      cases hnode with
      | first =>
        intro g hchildren hg hpaths
        exact explore_agrees_of_below hchildren hg hpaths
          fun e' executable' below below' hnode hnode' hq rank =>
            ihc e' executable' below hnode below' (hchildren.node hnode) (hg.node hnode') hq rank
              false
      | later hnode => exact ihs e executable children hnode
  exact explore_agrees_of_below hf hg hpaths
    (fun e executable children children' hnode hnode' hq rank =>
      hnodes e executable children hnode children' (hf.node hnode) (hg.node hnode') hq rank false)
    rank first cursor cs

end Definite

theorem eq_of_same_of_compatible {e e' : Element} {p p' : List Element} (hsame : e.same e' = true)
    (h : Compatible (e :: p) (e' :: p')) : e = e' := by
  have hkind := Element.isLiteral_eq_of_same hsame
  cases hliteral : e.isLiteral with
  | false => exact (compatible_cons_iff.mp h).1 hliteral (hkind.symm.trans hliteral)
  | true =>
    rcases Element.eq_or_arguments_of_same hsame with heq | ⟨name, j, k, rfl, -, -⟩
    · exact heq
    · cases hliteral

/-- A usage line that is compatible with all paths is one path more. -/
theorem mem_paths_insert_iff {f : Forest} (hf : f.Trim) {e : Element} {rest : List Element}
    (h : ∀ p ∈ f.paths, Compatible p (e :: rest)) (p : List Element) :
    p ∈ (f.insert e rest).paths ↔ p ∈ f.paths ∨ p = e :: rest := by
  fun_induction insert f e rest generalizing p with
  | case1 e rest =>
    rw [paths_branch, List.mem_singleton]
    simp [paths]
  | case2 e₀ executable children siblings e hsame =>
    obtain ⟨q, hq⟩ := hf.exists_mem_paths_of_mem_tops List.mem_cons_self
    have heq := eq_of_same_of_compatible hsame (h _ hq)
    subst heq
    rw [mem_paths_cons, mem_paths_cons]
    constructor
    · rintro (⟨-, rfl⟩ | hp)
      · exact Or.inr rfl
      · exact Or.inl (Or.inr hp)
    · rintro ((⟨-, rfl⟩ | hp) | rfl)
      · exact Or.inl ⟨rfl, rfl⟩
      · exact Or.inr hp
      · exact Or.inl ⟨rfl, rfl⟩
  | case3 e₀ executable children siblings e hsame e' rest ih =>
    obtain ⟨q, hq⟩ := hf.exists_mem_paths_of_mem_tops List.mem_cons_self
    have heq := eq_of_same_of_compatible hsame (h _ hq)
    subst heq
    have hbelow : ∀ q ∈ children.paths, Compatible q (e' :: rest) := fun q hq =>
      (compatible_cons_iff.mp (h _ ((hf.mem_paths_node_iff .first q).mpr (Or.inr hq)))).2 rfl
    have hinsert := ih (hf.node .first).2 hbelow
    rw [mem_paths_cons, mem_paths_cons]
    constructor
    · rintro (hp | ⟨q, hq, rfl⟩ | hp)
      · exact Or.inl (Or.inl hp)
      · rcases (hinsert q).mp hq with hold | rfl
        · exact Or.inl (Or.inr (Or.inl ⟨q, hold, rfl⟩))
        · exact Or.inr rfl
      · exact Or.inl (Or.inr (Or.inr hp))
    · rintro ((hp | ⟨q, hq, rfl⟩ | hp) | rfl)
      · exact Or.inl hp
      · exact Or.inr (Or.inl ⟨q, (hinsert q).mpr (Or.inl hq), rfl⟩)
      · exact Or.inr (Or.inr hp)
      · exact Or.inr (Or.inl ⟨_, (hinsert _).mpr (Or.inr rfl), rfl⟩)
  | case4 e₀ executable children siblings e rest hsame ih =>
    cases hf with
    | cons self distinct useful below others =>
      have hinsert := ih others fun q hq => h q (mem_paths_cons.mpr (Or.inr (Or.inr hq)))
      rw [mem_paths_cons, mem_paths_cons, hinsert]
      simp only [or_assoc]

end Forest

namespace Tree

/-- Without ambiguities the paths of a tree are exactly its usage lines. -/
theorem mem_paths_iff_of_unambiguous {lines : List String} {t : Tree} (ht : ofUsages lines = .ok t)
    (hlines : Unambiguous lines) (p : List Element) :
    p ∈ t.roots.paths ↔ ∃ line ∈ lines, ∃ u, Usage.parse line = .ok u ∧ p = u.elements := by
  have hboth : t.roots.Trim ∧ (Unambiguous lines → ∀ p, p ∈ t.roots.paths ↔
      ∃ line ∈ lines, ∃ u, Usage.parse line = .ok u ∧ p = u.elements) := by
    refine ofUsages_induction ⟨.nil, ?_⟩ ?_ ht
    · intro _ p
      simp [empty, Forest.paths]
    · rintro lines t line u ⟨htrim, ih⟩ hu
      refine ⟨htrim.insert fun x hx => Usage.same_self_of_mem_elements hu hx, ?_⟩
      intro hlines p
      have hpaths := ih fun line hline line' hline' =>
        hlines line (List.mem_append_left _ hline) line' (List.mem_append_left _ hline')
      have hcompatible : ∀ q ∈ t.roots.paths, Compatible q u.elements := by
        intro q hq
        obtain ⟨line', hline', u', hu', rfl⟩ := (hpaths q).mp hq
        exact hlines line' (List.mem_append_left _ hline') line (by simp) u' u hu' hu
      have hinsert := Forest.mem_paths_insert_iff htrim hcompatible p
      constructor
      · intro hp
        rcases hinsert.mp hp with hold | rfl
        · obtain ⟨line', hline', u', hu', rfl⟩ := (hpaths p).mp hold
          exact ⟨line', List.mem_append_left _ hline', u', hu', rfl⟩
        · exact ⟨line, by simp, u, hu, rfl⟩
      · rintro ⟨line', hline', u', hu', rfl⟩
        refine hinsert.mpr ?_
        rcases List.mem_append.mp hline' with hold | hnew
        · exact Or.inl ((hpaths _).mpr ⟨line', hold, u', hu', rfl⟩)
        · rw [List.mem_singleton.mp hnew, hu] at hu'
          cases hu'
          exact Or.inr rfl
  exact hboth.2 hlines p

theorem exists_ofUsages_iff (lines : List String) :
    (∃ t, ofUsages lines = .ok t) ↔ ∀ line ∈ lines, ∃ u, Usage.parse line = .ok u := by
  constructor
  · rintro ⟨t, ht⟩ line hline
    obtain ⟨u, hu, -⟩ := exists_mem_paths_of_usage ht line hline
    exact ⟨u, hu⟩
  · intro h
    induction lines using List.reverseRecOn with
    | nil => exact ⟨_, rfl⟩
    | append_singleton lines line ih =>
      obtain ⟨t, ht⟩ := ih fun line' hline' => h line' (List.mem_append_left _ hline')
      obtain ⟨u, hu⟩ := h line (List.mem_append_right _ (List.mem_singleton_self line))
      have hregister : t.register line = .ok (t.add line u) := map_eq_ok_iff.mpr ⟨u, hu, rfl⟩
      refine ⟨t.add line u, ?_⟩
      unfold ofUsages
      rw [List.foldlM_append]
      refine bind_eq_ok_iff.mpr ⟨t, ht, ?_⟩
      rw [List.foldlM_cons]
      exact bind_eq_ok_iff.mpr ⟨_, hregister, rfl⟩

/-- Trees whose roots are explored to the same effect read every line in the same way. -/
theorem parse_eq_of_agrees {t t' : Tree} {input : String}
    (h : (t.roots.explore .literals true 0 input.toList).Agrees
      (t'.roots.explore .literals true 0 input.toList)) : t.parse input = t'.parse input := by
  cases hblank : input.toList.all isBlank with
  | true => rw [t.parse_of_blank hblank, t'.parse_of_blank hblank]
  | false =>
    cases hparse : t'.parse input with
    | ok c =>
      obtain ⟨-, htext, hfound⟩ := (t'.parse_eq_ok_iff input c).mp hparse
      exact (t.parse_eq_ok_iff input c).mpr ⟨hblank, htext, h.found.trans hfound⟩
    | error e =>
      obtain ⟨hnone, hinput, hkept⟩ := (t'.parse_eq_error_iff hblank e).mp hparse
      have hnone' := h.found.trans hnone
      exact (t.parse_eq_error_iff hblank e).mpr ⟨hnone', hinput, by rw [hkept, h.kept hnone' none]⟩

end Tree

theorem Unambiguous.of_perm {lines lines' : List String} (h : Unambiguous lines)
    (hperm : lines'.Perm lines) : Unambiguous lines' := fun line hline line' hline' =>
  h line (hperm.mem_iff.mp hline) line' (hperm.mem_iff.mp hline')

theorem Tree.definite_of_unambiguous {lines : List String} {t : Tree}
    (ht : Tree.ofUsages lines = .ok t) (hlines : Unambiguous lines) : t.roots.Definite := by
  have hpaths := Tree.mem_paths_iff_of_unambiguous ht hlines
  refine ⟨Tree.trim_of_usages ht, ?_, ?_⟩
  · intro p hp p' hp'
    obtain ⟨line, hline, u, hu, rfl⟩ := (hpaths p).mp hp
    obtain ⟨line', hline', u', hu', rfl⟩ := (hpaths p').mp hp'
    exact hlines line hline line' hline' u u' hu hu'
  · intro p hp text htext
    exact Tree.literal_ne_nil_of_mem_paths ht hp htext

/-- In any order, usage lines without ambiguities make up trees that give the same answers. -/
theorem parse_of_perm {lines lines' : List String} {t : Tree} (ht : Tree.ofUsages lines = .ok t)
    (hlines : Unambiguous lines) (hperm : lines'.Perm lines) :
    ∃ t', Tree.ofUsages lines' = .ok t' ∧ ∀ input, t'.parse input = t.parse input := by
  have hread := (Tree.exists_ofUsages_iff lines).mp ⟨t, ht⟩
  obtain ⟨t', ht'⟩ := (Tree.exists_ofUsages_iff lines').mpr fun line hline =>
    hread line (hperm.mem_iff.mp hline)
  refine ⟨t', ht', ?_⟩
  have hlines' := hlines.of_perm hperm
  have hpaths : ∀ p, p ∈ t'.roots.paths ↔ p ∈ t.roots.paths := by
    intro p
    rw [Tree.mem_paths_iff_of_unambiguous ht hlines, Tree.mem_paths_iff_of_unambiguous ht' hlines']
    simp only [hperm.mem_iff]
  intro input
  have hagrees := (Tree.definite_of_unambiguous ht' hlines').explore_agrees
    (Tree.definite_of_unambiguous ht hlines) hpaths .literals true 0 input.toList
  exact Tree.parse_eq_of_agrees hagrees

/-- A word and an argument in the same place, in either order: the trees differ, the answers do
not. -/
theorem parse_of_perm_shared_place :
    let lines := ["tp all", "tp <who:word> <x:integer>"]
    ∃ t t', Tree.ofUsages lines = .ok t ∧ Unambiguous lines ∧ lines.reverse.Perm lines ∧
      Tree.ofUsages lines.reverse = .ok t' ∧ t'.roots ≠ t.roots ∧
      ∀ input, t'.parse input = t.parse input := by
  intro lines
  let all : Usage := ⟨"tp", [.literal "all"]⟩
  let who : Usage := ⟨"tp", [.argument "who" .word, .argument "x" (.integer .free)]⟩
  let child : Forest := .cons (.argument "x" (.integer .free)) true .nil .nil
  let t : Tree := ⟨.cons (.literal "tp") false
    (.cons (.literal "all") true .nil (.cons (.argument "who" .word) false child .nil)) .nil, lines⟩
  have ht : Tree.ofUsages lines = .ok t := by decide +kernel
  have hall : Usage.parse "tp all" = .ok all := by decide +kernel
  have hwho : Usage.parse "tp <who:word> <x:integer>" = .ok who := by decide +kernel
  have hread : ∀ line ∈ lines, ∀ u, Usage.parse line = .ok u → u = all ∨ u = who := by
    intro line hline u hu
    rcases List.mem_pair.mp hline with rfl | rfl
    · rw [hall] at hu
      cases hu
      exact Or.inl rfl
    · rw [hwho] at hu
      cases hu
      exact Or.inr rfl
  have hlines : Unambiguous lines := by
    intro line hline line' hline' u u' hu hu'
    rcases hread line hline u hu with rfl | rfl
    · rcases hread line' hline' u' hu' with rfl | rfl
      · simp [all, Usage.elements, compatible_cons_iff, compatible_nil_left]
      · simp [all, who, Usage.elements, compatible_cons_iff, compatible_nil_left, Element.isLiteral]
    · rcases hread line' hline' u' hu' with rfl | rfl
      · simp [all, who, Usage.elements, compatible_cons_iff, compatible_nil_right,
          Element.isLiteral]
      · simp [who, Usage.elements, compatible_cons_iff, compatible_nil_left]
  have hperm := List.reverse_perm lines
  obtain ⟨t', ht', hparse⟩ := parse_of_perm ht hlines hperm
  refine ⟨t, t', ht, hlines, hperm, ht', ?_, hparse⟩
  have ht'' : Tree.ofUsages lines.reverse = .ok ⟨.cons (.literal "tp") false
      (.cons (.argument "who" .word) false child (.cons (.literal "all") true .nil .nil)) .nil,
      lines.reverse⟩ := by decide +kernel
  rw [ht'] at ht''
  cases ht''
  decide

end CommandScript.Grammar
