import CommandScript.Proofs.Grammar.PrefixTree

/-! What a search of a forest finds: the match of the path that is ahead of all others that match,
where literals go before arguments and otherwise the node that stands in front. -/
namespace CommandScript.Grammar
namespace Forest

/-- At the first element in which the paths differ, `p` has a literal and `q` an argument, or both
have arguments and that of `p` stands in front. -/
def Ahead (f : Forest) (p q : List Element) : Prop :=
  ∃ before e e' rest rest', p = before ++ e :: rest ∧ q = before ++ e' :: rest' ∧
    e'.isLiteral = false ∧
    (e.isLiteral = true ∨ e.isLiteral = false ∧ f.Precedes before e e')

section
variable {e : Element} {executable : Bool} {children siblings : Forest} {p q : List Element}

theorem Ahead.deeper (h : children.Ahead p q) :
    (cons e executable children siblings).Ahead (e :: p) (e :: q) := by
  obtain ⟨before, x, x', rest, rest', rfl, rfl, hargument, hwhy⟩ := h
  exact ⟨e :: before, x, x', rest, rest', rfl, rfl, hargument,
    hwhy.imp_right fun ⟨hx, hprecedes⟩ => ⟨hx, .deeper hprecedes⟩⟩

theorem Ahead.later (h : siblings.Ahead p q) :
    (cons e executable children siblings).Ahead p q := by
  obtain ⟨before, x, x', rest, rest', rfl, rfl, hargument, hwhy⟩ := h
  exact ⟨before, x, x', rest, rest', rfl, rfl, hargument,
    hwhy.imp_right fun ⟨hx, hprecedes⟩ => ⟨hx, .later hprecedes⟩⟩

end

/-- The elements lead on from a node to the end of a path. -/
def Continues (executable : Bool) (children : Forest) (es : List Element) : Prop :=
  (es = [] ∧ executable = true) ∨ es ∈ children.paths

/-- The elements match what stands behind the word of a node. -/
def Follows (es : List Element) (rest : List Char) (nodes : List Node) : Prop :=
  (es = [] ∧ rest = [] ∧ nodes = []) ∨ ∃ behind, rest = ' ' :: behind ∧ Matches es behind nodes

/-- The nodes are the match of a path that is ahead of all others that match the text, among those
on which the nodes of a rank come first. -/
def Foremost (f : Forest) (rank : Rank) (cs : List Char) (nodes : List Node) : Prop :=
  ∃ p ∈ f.paths, rank.Leads p ∧ Matches p cs nodes ∧
    ∀ q ∈ f.paths, rank.Leads q → ∀ nodes', Matches q cs nodes' → q = p ∨ f.Ahead p q

section
variable {e : Element} {executable : Bool} {children siblings : Forest} {rank : Rank}
variable {cs : List Char} {nodes : List Node}

theorem mem_paths_cons_iff_continues {p : List Element} :
    p ∈ (cons e executable children siblings).paths ↔
      (∃ es, p = e :: es ∧ Continues executable children es) ∨ p ∈ siblings.paths := by
  rw [mem_paths_cons]
  constructor
  · rintro (⟨hexecutable, rfl⟩ | ⟨es, hes, rfl⟩ | hs)
    · exact Or.inl ⟨[], rfl, Or.inl ⟨rfl, hexecutable⟩⟩
    · exact Or.inl ⟨es, rfl, Or.inr hes⟩
    · exact Or.inr hs
  · rintro (⟨es, rfl, ⟨rfl, hexecutable⟩ | hes⟩ | hs)
    · exact Or.inl ⟨hexecutable, rfl⟩
    · exact Or.inr (Or.inl ⟨es, hes, rfl⟩)
    · exact Or.inr (Or.inr hs)

theorem Continues.matches_of_follows_space {es : List Element} {behind : List Char}
    (hes : Continues executable children es) (h : Follows es (' ' :: behind) nodes) :
    es ∈ children.paths ∧ Matches es behind nodes := by
  rcases h with ⟨-, hnil, -⟩ | ⟨behind', hbehind, hm⟩
  · cases hnil
  · cases hbehind
    rcases hes with ⟨rfl, -⟩ | hes
    · cases hm
    · exact ⟨hes, hm⟩

/-- Nodes of arguments are tried behind those of literals, so that a path with a literal is ahead of
one with an argument in the same place. -/
theorem ahead_of_ranks {f : Forest} {p q : List Element} (hp : Rank.literals.Leads p)
    (hq : Rank.arguments.Leads q) (hpne : p ≠ []) (hqne : q ≠ []) : f.Ahead p q := by
  obtain ⟨e, es, rfl⟩ := List.exists_cons_of_ne_nil hpne
  obtain ⟨e', es', rfl⟩ := List.exists_cons_of_ne_nil hqne
  have he : e.isLiteral = true := Rank.leads_cons.mp hp
  have he' : e'.isLiteral = false := by
    simpa [Rank.admits] using Rank.leads_cons.mp hq
  exact ⟨[], e, e', es, es', rfl, rfl, he', Or.inl he⟩

/-- If the children of a node are searched for the foremost match, so is what is inside it. -/
theorem exists_ahead_inside {next : Nat} {rest : List Char}
    (hchildren : ∀ rank cursor cs nodes,
      (children.explore rank false cursor cs).found? = some nodes →
      children.Foremost rank cs nodes)
    (h : (inside executable children next rest).found? = some nodes) :
    ∃ p, Continues executable children p ∧ Follows p rest nodes ∧
      ∀ q, Continues executable children q → ∀ nodes', Follows q rest nodes' →
        q = p ∨ children.Ahead p q := by
  by_cases hnil : rest = []
  · subst hnil
    rw [found?_inside_nil] at h
    cases executable with
    | false => cases h
    | true =>
      cases h
      refine ⟨[], Or.inl ⟨rfl, rfl⟩, Or.inl ⟨rfl, rfl, rfl⟩, ?_⟩
      rintro q - nodes' (⟨rfl, -, -⟩ | ⟨behind, hbehind, -⟩)
      · exact Or.inl rfl
      · cases hbehind
  by_cases hspace : ∃ behind, rest = ' ' :: behind
  · obtain ⟨behind, rfl⟩ := hspace
    rw [found?_inside_space, Option.or_eq_some_iff] at h
    rcases h with hliteral | ⟨hnone, hargument⟩
    · obtain ⟨p, hp, hleads, hm, hbest⟩ := hchildren _ _ _ _ hliteral
      refine ⟨p, Or.inr hp, Or.inr ⟨behind, rfl, hm⟩, ?_⟩
      intro q hq nodes' hfollows
      obtain ⟨hqpath, hqm⟩ := hq.matches_of_follows_space hfollows
      obtain ⟨rank, hrank⟩ := Rank.exists_leads q
      cases rank with
      | literals => exact hbest q hqpath hrank nodes' hqm
      | arguments =>
        exact Or.inr (ahead_of_ranks hleads hrank (ne_nil_of_mem_paths hp)
          (ne_nil_of_mem_paths hqpath))
    · obtain ⟨p, hp, hleads, hm, hbest⟩ := hchildren _ _ _ _ hargument
      refine ⟨p, Or.inr hp, Or.inr ⟨behind, rfl, hm⟩, ?_⟩
      intro q hq nodes' hfollows
      obtain ⟨hqpath, hqm⟩ := hq.matches_of_follows_space hfollows
      obtain ⟨rank, hrank⟩ := Rank.exists_leads q
      cases rank with
      | literals =>
        have hfound := found_of_matches hqpath hrank hqm false (next + 1)
        rw [hnone] at hfound
        cases hfound
      | arguments => exact hbest q hqpath hrank nodes' hqm
  · rw [inside_of_not_space hnil fun behind hb => hspace ⟨behind, hb⟩] at h
    cases h

/-- Where nothing matches through the first node, the foremost match of its siblings is the one of
all nodes. -/
theorem Foremost.later (h : siblings.Foremost rank cs nodes)
    (hnone : rank.admits e = true → ∀ es, Continues executable children es → ∀ nodes',
      ¬Matches (e :: es) cs nodes') :
    (cons e executable children siblings).Foremost rank cs nodes := by
  obtain ⟨p, hp, hleads, hm, hbest⟩ := h
  refine ⟨p, mem_paths_cons_iff_continues.mpr (Or.inr hp), hleads, hm, ?_⟩
  intro q hq hqleads nodes' hqm
  rcases mem_paths_cons_iff_continues.mp hq with ⟨es, rfl, hes⟩ | hqs
  · exact absurd hqm (hnone (Rank.leads_cons.mp hqleads) es hes nodes')
  · exact (hbest q hqs hqleads nodes' hqm).imp_right Ahead.later

/-- Of two literals only one is read from a text. -/
theorem eq_of_read_literals {e' : Element} {first : Bool} {r r' : Argument × List Char}
    (he : e.isLiteral = true) (he' : e'.isLiteral = true) (h : e.read first cs = .ok r)
    (h' : e'.read first cs = .ok r') : e = e' := by
  cases e with
  | argument name kind => cases he
  | literal text =>
    cases e' with
    | argument name kind => cases he'
    | literal text' =>
      simp only [Element.read] at h h'
      split_ifs at h with htext
      split_ifs at h' with htext'
      rw [String.toList_inj.mp (htext.symm.trans htext')]

/-- A node that is tried first is ahead of its siblings, of which none has a literal that matches
too. -/
theorem ahead_of_siblings {first : Bool} {r : Argument × List Char} (hrank : rank.admits e = true)
    (hread : e.read first cs = .ok r) (distinct : ∀ x ∈ siblings.tops, e.same x = false)
    (self : e.same e = true) {es q : List Element} (hq : q ∈ siblings.paths) (hleads : rank.Leads q)
    (hm : Matches q cs nodes) : (cons e executable children siblings).Ahead (e :: es) q := by
  obtain ⟨e', es', rfl⟩ := List.exists_cons_of_ne_nil (ne_nil_of_mem_paths hq)
  have htop : e' ∈ siblings.tops := mem_tops_of_mem_paths hq
  have hrank' : rank.admits e' = true := Rank.leads_cons.mp hleads
  cases rank with
  | literals =>
    obtain ⟨value', rest', -, hread', -, -⟩ := (matches_cons_iff first _ _ _ _).mp hm
    have heq : e = e' := eq_of_read_literals hrank hrank' hread hread'
    exact absurd heq.symm (ne_of_distinct self distinct htop)
  | arguments =>
    have he : e.isLiteral = false := by simpa [Rank.admits] using hrank
    have he' : e'.isLiteral = false := by simpa [Rank.admits] using hrank'
    exact ⟨[], e, e', es, es', rfl, rfl, he', Or.inr ⟨he, .here htop⟩⟩

end

/-- What a search finds is the foremost match. -/
theorem foremost_of_found {f : Forest} (hf : f.Trim) {rank : Rank} {first : Bool} {cursor : Nat}
    {cs : List Char} {nodes : List Node}
    (h : (f.explore rank first cursor cs).found? = some nodes) : f.Foremost rank cs nodes := by
  induction f generalizing rank first cursor cs nodes with
  | nil => cases h
  | cons e executable children siblings ihc ihs =>
    cases hf with
    | cons self distinct useful below others =>
      cases hrank : rank.admits e with
      | false =>
        rw [explore_cons_of_not_admits _ _ _ _ hrank] at h
        refine (ihs others h).later ?_
        intro htrue
        rw [hrank] at htrue
        cases htrue
      | true =>
        cases hread : e.read first cs with
        | error fault =>
          rw [explore_cons_of_error _ _ _ _ hrank hread, Exploration.found?_orElse] at h
          refine (ihs others h).later ?_
          intro _ es _ nodes' hm
          obtain ⟨value, rest, -, hok, -, -⟩ := (matches_cons_iff first _ _ _ _).mp hm
          rw [hread] at hok
          cases hok
        | ok r =>
          obtain ⟨value, rest⟩ := r
          rw [explore_cons_of_ok _ _ _ _ hrank hread, Exploration.found?_orElse,
            Option.or_eq_some_iff] at h
          rcases h with hhere | ⟨hnone, hsiblings⟩
          · obtain ⟨found, hinside, rfl⟩ := Option.map_eq_some_iff.mp hhere
            obtain ⟨p, hp, hfollows, hbest⟩ := exists_ahead_inside
              (fun rank cursor cs nodes hfound => ihc below hfound) hinside
            refine ⟨e :: p, mem_paths_cons_iff_continues.mpr (Or.inl ⟨p, rfl, hp⟩),
              Rank.leads_cons.mpr hrank,
              (matches_cons_iff first _ _ _ _).mpr ⟨value, rest, found, hread, rfl, hfollows⟩, ?_⟩
            intro q hq hleads nodes' hm
            rcases mem_paths_cons_iff_continues.mp hq with ⟨es, rfl, hes⟩ | hqs
            · obtain ⟨value', rest', found', hread', -, hfollows'⟩ :=
                (matches_cons_iff first _ _ _ _).mp hm
              rw [hread] at hread'
              cases hread'
              rcases hbest es hes found' hfollows' with rfl | hahead
              · exact Or.inl rfl
              · exact Or.inr hahead.deeper
            · exact Or.inr (ahead_of_siblings hrank hread distinct self hqs hleads hm)
          · refine (ihs others hsiblings).later ?_
            intro _ es hes nodes' hm
            -- A match through this node would have been found in it alone.
            have hpath : e :: es ∈ (cons e executable children nil).paths :=
              mem_paths_cons_iff_continues.mpr (Or.inl ⟨es, rfl, hes⟩)
            have hfound := found_of_matches hpath (Rank.leads_cons.mpr hrank) hm first cursor
            rw [explore_cons_of_ok _ _ _ _ hrank hread, Exploration.found?_orElse, hnone] at hfound
            cases hfound

end Forest
end CommandScript.Grammar
