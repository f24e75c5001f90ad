import CommandScript.Proofs.Grammar.Foremost

/-! Which usage a command line is read with if several match it: the one that is preferred to each
other at the first element in which the two differ. -/
namespace CommandScript.Grammar
open Text

/-- The usage of a line begins with elements that count as the same as `p`. -/
def Begins (line : String) (p : List Element) : Prop :=
  ∃ u, Usage.parse line = .ok u ∧ ∃ q, q <+: u.elements ∧ SameElements q p

/-- In the order of registration, there is a line that begins with `p` before there is one that
begins with `q`. -/
def Earlier (lines : List String) (p q : List Element) : Prop :=
  ∃ before line behind, lines = before ++ line :: behind ∧ Begins line p ∧
    ∀ line' ∈ before ++ [line], ¬Begins line' q

/-- At the first element in which the usages differ, `es` has a literal and `es'` an argument, or
both have arguments and the prefix up to that of `es` occurs first. -/
def Prefers (lines : List String) (es es' : List Element) : Prop :=
  ∃ before e rest before' e' rest', es = before ++ e :: rest ∧ es' = before' ++ e' :: rest' ∧
    SameElements before before' ∧ e.same e' = false ∧ e'.isLiteral = false ∧
    (e.isLiteral = true ∨
      e.isLiteral = false ∧ Earlier lines (before ++ [e]) (before' ++ [e']))

/-- A usage line matches the input as `nodes`, and is preferred to all others that match it but
those that count as the same. -/
def PreferredReading (lines : List String) (input : String) (nodes : List Node) : Prop :=
  ∃ line ∈ lines, ∃ u, Usage.parse line = .ok u ∧ Matches u.elements input.toList nodes ∧
    ∀ line' ∈ lines, ∀ u', Usage.parse line' = .ok u' → ∀ nodes',
      Matches u'.elements input.toList nodes' →
      SameElements u.elements u'.elements ∨ Prefers lines u.elements u'.elements

/-- What lies on a prefix of a list has a partner on a prefix of one that counts as the same. -/
theorem SameElements.exists_prefix {es es' q : List Element} (h : SameElements es es')
    (hq : q <+: es) : ∃ q', q' <+: es' ∧ SameElements q q' := by
  refine ⟨es'.take q.length, List.take_prefix _ _, ?_⟩
  have htake := h.take q.length
  rwa [← List.prefix_iff_eq_take.mp hq] at htake

theorem SameElements.exists_split {before : List Element} {e : Element} {rest es : List Element}
    (h : SameElements (before ++ e :: rest) es) :
    ∃ before' e' rest', es = before' ++ e' :: rest' ∧ SameElements before before' ∧
      e.same e' = true := by
  induction before generalizing es with
  | nil =>
    cases h with
    | cons hee hrest => exact ⟨[], _, _, rfl, .nil, hee⟩
  | cons x before ih =>
    cases h with
    | cons hxx hrest =>
      obtain ⟨before', e', rest', rfl, hbefore, hee⟩ := ih hrest
      exact ⟨_ :: before', e', rest', rfl, .cons hxx hbefore, hee⟩

theorem SameElements.append_singleton {before before' : List Element} {e e' : Element}
    (h : SameElements before before') (hee : e.same e' = true) :
    SameElements (before ++ [e]) (before' ++ [e']) := by
  induction h with
  | nil => exact .cons hee .nil
  | cons hab hrest ih => exact .cons hab ih

theorem Begins.of_same {line : String} {p p' : List Element} (hsame : SameElements p p')
    (h : Begins line p) : Begins line p' := by
  obtain ⟨u, hu, q, hq, hqp⟩ := h
  exact ⟨u, hu, q, hq, hqp.trans hsame⟩

theorem Earlier.of_same {lines : List String} {p p' q q' : List Element}
    (hp : SameElements p p') (hq : SameElements q q') (h : Earlier lines p q) :
    Earlier lines p' q' := by
  obtain ⟨before, line, behind, hlines, hline, hnone⟩ := h
  refine ⟨before, line, behind, hlines, hline.of_same hp, ?_⟩
  intro line' hline' hbegins
  exact hnone line' hline' (hbegins.of_same hq.symm)

theorem Earlier.append {lines : List String} {p q : List Element} (h : Earlier lines p q)
    (more : List String) : Earlier (lines ++ more) p q := by
  obtain ⟨before, line, behind, rfl, hline, hnone⟩ := h
  exact ⟨before, line, behind ++ more, by simp, hline, hnone⟩

theorem Earlier.asymm {lines : List String} {p q : List Element} (h : Earlier lines p q) :
    ¬Earlier lines q p := by
  rintro ⟨before', line', behind', hlines', hline', hnone'⟩
  obtain ⟨before, line, behind, hlines, hline, hnone⟩ := h
  rw [hlines, List.append_eq_append_iff] at hlines'
  rcases hlines' with ⟨between, rfl, hbetween⟩ | ⟨between, rfl, hbetween⟩
  · cases between with
    | nil =>
      rw [List.nil_append, List.cons.injEq] at hbetween
      exact hnone' line (by simp [hbetween.1]) hline
    | cons x between =>
      rw [List.cons_append, List.cons.injEq] at hbetween
      exact hnone' line (by simp [hbetween.1]) hline
  · cases between with
    | nil =>
      rw [List.nil_append, List.cons.injEq] at hbetween
      exact hnone' line (by simp [hbetween.1]) hline
    | cons x between =>
      rw [List.cons_append, List.cons.injEq] at hbetween
      exact hnone line' (by simp [hbetween.1]) hline'

/-- Two lists have at most one place up to which they count as the same and at which they differ. -/
theorem SameElements.split_unique {before before' : List Element} {e e' : Element}
    {rest rest' : List Element} (h : SameElements before before') (hne : e.same e' = false)
    {first first' : List Element} {x x' : Element} {others others' : List Element}
    (h' : SameElements first first') (hne' : x.same x' = false)
    (hleft : before ++ e :: rest = first ++ x :: others)
    (hright : before' ++ e' :: rest' = first' ++ x' :: others') :
    before = first ∧ e = x ∧ before' = first' ∧ e' = x' := by
  induction h generalizing first first' with
  | nil =>
    cases h' with
    | nil =>
      cases hleft
      cases hright
      exact ⟨rfl, rfl, rfl, rfl⟩
    | cons hab hrest =>
      cases hleft
      cases hright
      rw [hab] at hne
      cases hne
  | cons hab hrest ih =>
    cases h' with
    | nil =>
      cases hleft
      cases hright
      rw [hab] at hne'
      cases hne'
    | cons hab' hrest' =>
      rw [List.cons_append, List.cons_append, List.cons.injEq] at hleft hright
      obtain ⟨rfl, rfl, rfl, rfl⟩ := ih hrest' hleft.2 hright.2
      exact ⟨congrArg (· :: _) hleft.1, rfl, congrArg (· :: _) hright.1, rfl⟩

theorem Prefers.asymm {lines : List String} {es es' : List Element} (h : Prefers lines es es') :
    ¬Prefers lines es' es := by
  rintro ⟨first', x', others', first, x, others, hes', hes, hsame', hne', hargument', hwhy'⟩
  obtain ⟨before, e, rest, before', e', rest', rfl, rfl, hsame, hne, hargument, hwhy⟩ := h
  rw [Element.same_comm] at hne'
  obtain ⟨rfl, rfl, rfl, rfl⟩ := hsame.split_unique hne hsame'.symm hne' hes hes'
  rcases hwhy with hliteral | ⟨-, hearlier⟩
  · rw [hliteral] at hargument'
    cases hargument'
  · rcases hwhy' with hliteral' | ⟨-, hearlier'⟩
    · rw [hliteral'] at hargument
      cases hargument
    · exact hearlier.asymm hearlier'

/-- Elements match a text in at most one way. -/
theorem Matches.nodes_eq {es : List Element} {cs : List Char} {nodes nodes' : List Node}
    (h : Matches es cs nodes) (h' : Matches es cs nodes') : nodes = nodes' := by
  induction es generalizing cs nodes nodes' with
  | nil => cases h
  | cons e es ih =>
    obtain ⟨value, rest, others, hread, rfl, hrest⟩ := (matches_cons_iff true _ _ _ _).mp h
    obtain ⟨value', rest', others', hread', rfl, hrest'⟩ := (matches_cons_iff true _ _ _ _).mp h'
    rw [hread] at hread'
    cases hread'
    rcases hrest with ⟨rfl, rfl, rfl⟩ | ⟨behind, rfl, hothers⟩
    · rcases hrest' with ⟨-, -, rfl⟩ | ⟨behind', hbehind, -⟩
      · rfl
      · cases hbehind
    · rcases hrest' with ⟨-, hnil, -⟩ | ⟨behind', hbehind, hothers'⟩
      · cases hnil
      · cases hbehind
        rw [ih hothers hothers']

/-- At most one reading is preferred. -/
theorem PreferredReading.unique {lines : List String} {input : String} {nodes nodes' : List Node}
    (h : PreferredReading lines input nodes) (h' : PreferredReading lines input nodes') :
    nodes = nodes' := by
  obtain ⟨line, hline, u, hu, hm, hbest⟩ := h
  obtain ⟨line', hline', u', hu', hm', hbest'⟩ := h'
  rcases hbest line' hline' u' hu' nodes' hm' with hsame | hprefers
  · exact ((matches_of_same hsame _ _).mp hm).nodes_eq hm'
  · rcases hbest' line hline u hu nodes hm with hsame | hprefers'
    · exact hm.nodes_eq ((matches_of_same hsame _ _).mp hm')
    · exact absurd hprefers' hprefers.asymm

namespace Forest

/-- A path begins with elements that count as the same as `p`. -/
def Through (f : Forest) (p : List Element) : Prop :=
  ∃ path ∈ f.paths, ∃ q, q <+: path ∧ SameElements q p

theorem through_cons_iff {e b : Element} {executable : Bool} {children siblings : Forest}
    {p : List Element} :
    (cons e executable children siblings).Through (b :: p) ↔
      (e.same b = true ∧ ((executable = true ∧ p = []) ∨ children.Through p)) ∨
        siblings.Through (b :: p) := by
  constructor
  · rintro ⟨path, hpath, q, hq, hsame⟩
    cases hsame with
    | @cons x _ q _ hxb hrest =>
      rcases mem_paths_cons.mp hpath with ⟨hexecutable, rfl⟩ | ⟨inner, hinner, rfl⟩ | hs
      · obtain ⟨rfl, hnil⟩ := List.cons_prefix_cons.mp hq
        rw [List.prefix_nil.mp hnil] at hrest
        cases hrest
        exact Or.inl ⟨hxb, Or.inl ⟨hexecutable, rfl⟩⟩
      · obtain ⟨rfl, hinnerq⟩ := List.cons_prefix_cons.mp hq
        exact Or.inl ⟨hxb, Or.inr ⟨inner, hinner, q, hinnerq, hrest⟩⟩
      · exact Or.inr ⟨path, hs, x :: q, hq, .cons hxb hrest⟩
  · rintro (⟨hsame, ⟨rfl, rfl⟩ | ⟨path, hpath, q, hq, hrest⟩⟩ | ⟨path, hpath, hq⟩)
    · exact ⟨[e], mem_paths_cons.mpr (Or.inl ⟨rfl, rfl⟩), [e], List.prefix_rfl, .cons hsame .nil⟩
    · exact ⟨e :: path, mem_paths_cons.mpr (Or.inr (Or.inl ⟨path, hpath, rfl⟩)), e :: q,
        List.cons_prefix_cons.mpr ⟨rfl, hq⟩, .cons hsame hrest⟩
    · exact ⟨path, mem_paths_cons.mpr (Or.inr (Or.inr hpath)), hq⟩

theorem not_through_of_tops {f : Forest} {b : Element} (h : ∀ e ∈ f.tops, e.same b = false)
    (p : List Element) : ¬f.Through (b :: p) := by
  rintro ⟨path, hpath, q, hq, hsame⟩
  cases hsame with
  | cons hxb hrest =>
    obtain ⟨rest, rfl⟩ := hq
    rw [h _ (mem_tops_of_mem_paths hpath)] at hxb
    cases hxb

/-- The way to a node begins with an element of the top level. -/
theorem Precedes.exists_cons {f : Forest} {before : List Element} {a b : Element}
    (h : f.Precedes before a b) (x : Element) (hx : x = a ∨ x = b) :
    ∃ e p, before ++ [x] = e :: p ∧ e ∈ f.tops := by
  induction h with
  | here h =>
    refine ⟨x, [], rfl, ?_⟩
    rcases hx with rfl | rfl
    · exact List.mem_cons_self
    · exact List.mem_cons_of_mem _ h
  | deeper inner ih => exact ⟨_, _, rfl, List.mem_cons_self⟩
  | later others ih =>
    obtain ⟨e, p, heq, he⟩ := ih hx
    exact ⟨e, p, heq, List.mem_cons_of_mem _ he⟩

theorem not_precedes_branch (e : Element) (rest before : List Element) (a b : Element) :
    ¬(branch e rest).Precedes before a b := by
  induction rest generalizing e before with
  | nil =>
    intro h
    cases h with
    | here h => cases h
    | deeper inner => cases inner
    | later others => cases others
  | cons e' rest ih =>
    intro h
    cases h with
    | here h => cases h
    | deeper inner => exact ih e' _ inner
    | later others => cases others

/-- Insertion keeps the order of the nodes. One that is new stands behind those that were there
before, and no path began as the one to it does. -/
theorem Precedes.of_insert {f : Forest} (hf : f.Trim) {e : Element} {rest : List Element}
    (hself : ∀ x ∈ e :: rest, x.same x = true) {before : List Element} {a b : Element}
    (h : (f.insert e rest).Precedes before a b) :
    f.Precedes before a b ∨ (f.Through (before ++ [a]) ∧ ¬f.Through (before ++ [b])) := by
  fun_induction insert f e rest generalizing before with
  | case1 e rest => exact absurd h (not_precedes_branch e rest before a b)
  | case2 e₀ executable children siblings e he =>
    cases h with
    | here h => exact Or.inl (.here h)
    | deeper inner => exact Or.inl (.deeper inner)
    | later others => exact Or.inl (.later others)
  | case3 e₀ executable children siblings e he e' rest ih =>
    cases hf with
    | cons self distinct useful below others =>
      cases h with
      | here h => exact Or.inl (.here h)
      | later h => exact Or.inl (.later h)
      | @deeper _ _ _ _ _ _ before inner =>
        rcases ih below (fun x hx => hself x (List.mem_cons_of_mem e hx)) inner with
          hold | ⟨ha, hb⟩
        · exact Or.inl (.deeper hold)
        · refine Or.inr ⟨through_cons_iff.mpr (Or.inl ⟨self, Or.inr ha⟩), ?_⟩
          intro hthrough
          rcases through_cons_iff.mp hthrough with ⟨-, ⟨-, hnil⟩ | hb'⟩ | hsiblings
          · simp at hnil
          · exact hb hb'
          · have hother : ∀ x ∈ siblings.tops, x.same e₀ = false := by
              intro x hx
              rw [Element.same_comm, distinct x hx]
            exact not_through_of_tops hother _ hsiblings
  | case4 e₀ executable children siblings e rest he ih =>
    have htrim : (cons e₀ executable children (siblings.insert e rest)).Trim := by
      cases hf with
      | cons self distinct useful below others =>
        refine .cons self ?_ useful below (others.insert hself)
        intro x hx
        rcases mem_tops_insert hx with hold | ⟨rfl, -⟩
        · exact distinct x hold
        · exact Bool.eq_false_iff.mpr he
    cases htrim with
    | cons self distinct useful below _ =>
      cases h with
      | deeper inner => exact Or.inl (.deeper inner)
      | here h =>
        rcases mem_tops_insert h with hold | ⟨rfl, hnew⟩
        · exact Or.inl (.here hold)
        · obtain ⟨q, hq⟩ := hf.exists_mem_paths_of_mem_tops List.mem_cons_self
          have hthrough : SameElements [a] [a] := .cons self .nil
          refine Or.inr ⟨⟨_, hq, [a], ⟨q, rfl⟩, hthrough⟩, ?_⟩
          refine not_through_of_tops ?_ []
          exact List.forall_mem_cons.mpr ⟨Bool.eq_false_iff.mpr he, hnew⟩
      | later inner =>
        cases hf with
        | cons _ _ _ _ others =>
          rcases ih others hself inner with hold | ⟨ha, hb⟩
          · exact Or.inl (.later hold)
          · obtain ⟨x, p, hx, -⟩ := inner.exists_cons a (Or.inl rfl)
            obtain ⟨y, q, hy, hmem⟩ := inner.exists_cons b (Or.inr rfl)
            rw [hx] at ha ⊢
            rw [hy] at hb ⊢
            refine Or.inr ⟨through_cons_iff.mpr (Or.inr ha), ?_⟩
            intro hthrough
            rcases through_cons_iff.mp hthrough with ⟨hsame, -⟩ | hsiblings
            · rw [distinct y hmem] at hsame
              cases hsame
            · exact hb hsiblings

end Forest

namespace Tree

theorem through_iff_begins {lines : List String} {t : Tree} (h : ofUsages lines = .ok t)
    (p : List Element) : t.roots.Through p ↔ ∃ line ∈ lines, Begins line p := by
  constructor
  · rintro ⟨path, hpath, q, hq, hsame⟩
    obtain ⟨line, hline, u, hu, hpathu⟩ := exists_usage_of_mem_paths h path hpath
    obtain ⟨q', hq', hqq'⟩ := hpathu.exists_prefix hq
    exact ⟨line, hline, u, hu, q', hq', hqq'.symm.trans hsame⟩
  · rintro ⟨line, hline, u, hu, q, hq, hsame⟩
    obtain ⟨u', hu', path, hpath, hpathu⟩ := exists_mem_paths_of_usage h line hline
    rw [hu] at hu'
    cases hu'
    obtain ⟨q', hq', hqq'⟩ := hpathu.symm.exists_prefix hq
    exact ⟨path, hpath, q', hq', hqq'.symm.trans hsame⟩

/-- Siblings stand in the order in which the prefixes up to them were registered. -/
theorem earlier_of_precedes {lines : List String} {t : Tree} (h : ofUsages lines = .ok t)
    {before : List Element} {a b : Element} (hab : t.roots.Precedes before a b) :
    Earlier lines (before ++ [a]) (before ++ [b]) := by
  have hboth : ofUsages lines = .ok t ∧ ∀ before a b, t.roots.Precedes before a b →
      Earlier lines (before ++ [a]) (before ++ [b]) := by
    refine ofUsages_induction ⟨rfl, nofun⟩ ?_ h
    rintro lines t line u ⟨ht, ih⟩ hu
    have hregister : t.register line = .ok (t.add line u) := map_eq_ok_iff.mpr ⟨u, hu, rfl⟩
    refine ⟨(ofUsages_append_singleton ht line).trans hregister, ?_⟩
    intro before a b hprecedes
    have hself : ∀ x ∈ u.elements, x.same x = true := fun x hx =>
      Usage.same_self_of_mem_elements hu hx
    rcases hprecedes.of_insert (trim_of_usages ht) hself with hold | ⟨ha, hb⟩
    · exact (ih before a b hold).append [line]
    · obtain ⟨line', hline', hbegins⟩ := (through_iff_begins ht _).mp ha
      obtain ⟨first, behind, rfl⟩ := List.append_of_mem hline'
      refine ⟨first, line', behind ++ [line], by simp, hbegins, ?_⟩
      intro line'' hline'' hbegins''
      have hmem : line'' ∈ first ++ line' :: behind := by
        rw [List.append_cons]
        exact List.mem_append_left behind hline''
      exact hb ((through_iff_begins ht _).mpr ⟨line'', hmem, hbegins''⟩)
  exact hboth.2 before a b hab

/-- Where a path is ahead of another one, the two have elements that differ. -/
theorem not_same_of_ahead {f : Forest} (hf : f.Trim) {before : List Element} {e e' : Element}
    (hargument : e'.isLiteral = false)
    (h : e.isLiteral = true ∨ e.isLiteral = false ∧ f.Precedes before e e') :
    e.same e' = false := by
  rcases h with hliteral | ⟨-, hprecedes⟩
  · apply Bool.eq_false_iff.mpr
    intro hsame
    have hkinds := Element.isLiteral_eq_of_same hsame
    rw [hliteral, hargument] at hkinds
    cases hkinds
  · exact hf.not_same_of_precedes hprecedes

/-- A usage whose path is ahead of that of another one is preferred to it. -/
theorem prefers_of_ahead {lines : List String} {t : Tree} (h : ofUsages lines = .ok t)
    {p q es es' : List Element} (hpq : t.roots.Ahead p q) (hes : SameElements p es)
    (hes' : SameElements q es') : Prefers lines es es' := by
  obtain ⟨before, e, e', rest, rest', rfl, rfl, hargument, hwhy⟩ := hpq
  have hne := not_same_of_ahead (trim_of_usages h) hargument hwhy
  obtain ⟨before₁, e₁, rest₁, rfl, hbefore₁, he₁⟩ := hes.exists_split
  obtain ⟨before₂, e₂, rest₂, rfl, hbefore₂, he₂⟩ := hes'.exists_split
  have hne' : e₁.same e₂ = false := by
    apply Bool.eq_false_iff.mpr
    intro hsame
    have hee' := Element.same_trans he₁ (Element.same_trans hsame (Element.same_symm he₂))
    rw [hne] at hee'
    cases hee'
  have hargument' : e₂.isLiteral = false := (Element.isLiteral_eq_of_same he₂).symm.trans hargument
  refine ⟨before₁, e₁, rest₁, before₂, e₂, rest₂, rfl, rfl, hbefore₁.symm.trans hbefore₂, hne',
    hargument', ?_⟩
  rcases hwhy with hliteral | ⟨hargument₁, hprecedes⟩
  · exact Or.inl ((Element.isLiteral_eq_of_same he₁).symm.trans hliteral)
  · have hearlier := earlier_of_precedes h hprecedes
    refine Or.inr ⟨(Element.isLiteral_eq_of_same he₁).symm.trans hargument₁, ?_⟩
    exact hearlier.of_same (hbefore₁.append_singleton he₁) (hbefore₂.append_singleton he₂)

/-- What a tree reads an input as is the preferred reading. -/
theorem preferredReading_of_parse {lines : List String} {t : Tree} (h : ofUsages lines = .ok t)
    {input : String} {c : Command} (hc : t.parse input = .ok c) :
    PreferredReading lines input c.nodes := by
  obtain ⟨-, -, hfound⟩ := (t.parse_eq_ok_iff input c).mp hc
  obtain ⟨p, hp, -, hm, hbest⟩ := Forest.foremost_of_found (trim_of_usages h) hfound
  obtain ⟨line, hline, u, hu, hpu⟩ := exists_usage_of_mem_paths h p hp
  refine ⟨line, hline, u, hu, (matches_of_same hpu _ _).mp hm, ?_⟩
  intro line' hline' u' hu' nodes' hm'
  obtain ⟨u'', hu'', q, hq, hqu⟩ := exists_mem_paths_of_usage h line' hline'
  rw [hu'] at hu''
  cases hu''
  have hqm := (matches_of_same hqu _ _).mpr hm'
  rcases hbest q hq (leads_literals_of_mem_paths h hq) nodes' hqm with rfl | hahead
  · exact Or.inl (hpu.symm.trans hqu)
  · exact Or.inr (prefers_of_ahead h hahead hpu hqu)

/-- A tree reads every input that one of its usage lines matches. -/
theorem exists_parse_of_matches {lines : List String} {t : Tree} (h : ofUsages lines = .ok t)
    {line input : String} (hline : line ∈ lines) {nodes : List Node}
    (hm : UsageMatches line input nodes) : ∃ c, t.parse input = .ok c := by
  obtain ⟨u, hu, hmatches⟩ := hm
  obtain ⟨u', hu', p, hp, hsame⟩ := exists_mem_paths_of_usage h line hline
  rw [hu] at hu'
  cases hu'
  have hfound := Forest.found_of_matches hp (leads_literals_of_mem_paths h hp)
    ((matches_of_same hsame _ _).mpr hmatches) true 0
  obtain ⟨found, hfound⟩ := Option.isSome_iff_exists.mp hfound
  have hblank := all_isBlank_eq_false_of_matches hu hmatches
  exact ⟨⟨input, found⟩, (t.parse_eq_ok_iff input _).mpr ⟨hblank, rfl, hfound⟩⟩

end Tree

/-- An input that usage lines match is read, and its nodes are the reading that is preferred to all
others: a literal to an argument, and of two arguments the one that was registered first behind the
same elements. -/
theorem parse_eq_preferred {lines : List String} {t : Tree} (ht : Tree.ofUsages lines = .ok t)
    {input : String} (hm : ∃ line ∈ lines, ∃ nodes, UsageMatches line input nodes) :
    ∃ c, t.parse input = .ok c ∧ c.text = input ∧
      ∀ nodes, PreferredReading lines input nodes ↔ nodes = c.nodes := by
  obtain ⟨line, hline, nodes, hmatches⟩ := hm
  obtain ⟨c, hc⟩ := Tree.exists_parse_of_matches ht hline hmatches
  have hpreferred := Tree.preferredReading_of_parse ht hc
  obtain ⟨-, htext, -⟩ := (t.parse_eq_ok_iff input c).mp hc
  refine ⟨c, hc, htext, ?_⟩
  intro nodes
  constructor
  · intro h
    exact h.unique hpreferred
  · rintro rfl
    exact hpreferred

/-- The word `x` is tried first and given up. Of the two lines that match, the one that was
registered last is preferred: the argument that it begins with was there before that of the
other. -/
theorem parse_eq_preferred_shared_argument :
    let lines := ["go <a:word> <n:integer>", "go x <k:integer>", "go <b:word> now",
      "go <a:word> now"]
    let nodes := fun name => [⟨"go", .literal "go"⟩, ⟨name, .word "x"⟩, ⟨"now", .literal "now"⟩]
    ∃ t, Tree.ofUsages lines = .ok t ∧ UsageMatches "go <b:word> now" "go x now" (nodes "b") ∧
      UsageMatches "go <a:word> now" "go x now" (nodes "a") ∧
      t.parse "go x now" = .ok ⟨"go x now", nodes "a"⟩ ∧
      ∀ ns, PreferredReading lines "go x now" ns ↔ ns = nodes "a" := by
  intro lines nodes
  have hmatches : ∀ name, Matches [.literal "go", .argument name .word, .literal "now"]
      "go x now".toList (nodes name) := by
    intro name
    have hnow : Matches [.literal "now"] "now".toList [⟨"now", .literal "now"⟩] :=
      .last (.literal (by simp) (Or.inl rfl))
    have hx : Matches [.argument name .word, .literal "now"] ("x".toList ++ ' ' :: "now".toList)
        [⟨name, .word "x"⟩, ⟨"now", .literal "now"⟩] := .step (.argument (by decide)) hnow
    have hgo : Matches [.literal "go", .argument name .word, .literal "now"]
        ("go".toList ++ ' ' :: ("x".toList ++ ' ' :: "now".toList)) (nodes name) :=
      .step (.literal (by simp) (Or.inr ⟨_, rfl⟩)) hx
    exact hgo
  have hb : UsageMatches "go <b:word> now" "go x now" (nodes "b") :=
    ⟨⟨"go", [.argument "b" .word, .literal "now"]⟩, by decide +kernel, hmatches "b"⟩
  have ha : UsageMatches "go <a:word> now" "go x now" (nodes "a") :=
    ⟨⟨"go", [.argument "a" .word, .literal "now"]⟩, by decide +kernel, hmatches "a"⟩
  let now : Forest := .cons (.literal "now") true .nil .nil
  let number := fun name => Element.argument name (.integer .free)
  let t : Tree := ⟨.cons (.literal "go") false
    (.cons (.argument "a" .word) false (.cons (number "n") true .nil now)
      (.cons (.literal "x") false (.cons (number "k") true .nil .nil)
        (.cons (.argument "b" .word) false now .nil))) .nil, lines⟩
  have ht : Tree.ofUsages lines = .ok t := by decide +kernel
  obtain ⟨c, hc, -, hpreferred⟩ :=
    parse_eq_preferred ht ⟨"go <a:word> now", by decide, nodes "a", ha⟩
  have hparse : t.parse "go x now" = .ok ⟨"go x now", nodes "a"⟩ := by decide +kernel
  rw [hparse] at hc
  cases hc
  exact ⟨t, ht, hb, ha, hparse, hpreferred⟩

end CommandScript.Grammar
