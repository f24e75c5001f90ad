import Mathlib.Tactic.SplitIfs
import CommandScript.Proofs.Grammar.Sameness

/-! Usage lines that are read: their command word is a plain word, and each of their elements counts
as the same as itself. -/
namespace CommandScript.Grammar
open Numeric

theorem numEq_self_of_readFloat (cs : List Char) (x : Binary64) (rest : List Char)
    (h : readFloat cs = some (x, rest)) : x.numEq x = true := by
  unfold readFloat at h
  dsimp only at h
  split at h
  · cases h
    exact Binary.numEq_self_ofRatio _ _ _ _
  · split_ifs at h
    cases h
    exact Binary.numEq_self_ofRatio _ _ _ _

theorem readOptional_forall {α : Type} {read : List Char → Option (α × List Char)} {P : α → Prop}
    (hread : ∀ cs x rest, read cs = some (x, rest) → P x) (cs : List Char) :
    ∀ x ∈ (readOptional read cs).1, P x := by
  intro x hx
  unfold readOptional at hx
  split at hx
  · next y rest hy =>
    cases hx
    exact hread _ _ _ hy
  · cases hx

theorem readBounds_forall {α : Type} {read : List Char → Option (α × List Char)} {P : α → Prop}
    (hread : ∀ cs x rest, read cs = some (x, rest) → P x) {cs rest : List Char} {b : Bounds α}
    (h : readBounds read cs = some (b, rest)) : (∀ x ∈ b.min, P x) ∧ ∀ x ∈ b.max, P x := by
  unfold readBounds at h
  split at h
  · next body =>
    split at h
    · next min behind hmin =>
      split at h
      · next max after hmax =>
        cases h
        have h₁ := readOptional_forall hread body
        have h₂ := readOptional_forall hread behind
        rw [hmin] at h₁
        rw [hmax] at h₂
        exact ⟨h₁, h₂⟩
      · cases h
    · cases h
  · cases h
    exact ⟨nofun, nofun⟩

theorem Bounds.same_self {b : Bounds Binary64} (hmin : ∀ x ∈ b.min, x.numEq x = true)
    (hmax : ∀ x ∈ b.max, x.numEq x = true) : b.same Binary.numEq b = true := by
  have hrel : ∀ {u : Option Binary64}, (∀ x ∈ u, x.numEq x = true) →
      Option.Rel (fun x y => Binary.numEq x y = true) u u := by
    intro u hu
    cases u with
    | none => exact .none
    | some x => exact .some (hu x rfl)
  exact (same_iff _ b b).mpr ⟨hrel hmin, hrel hmax⟩

theorem Kind.same_self {k : Kind} (h : ∀ b, k = .float b → b.same Binary.numEq b = true) :
    k.same k = true := by
  cases k with
  | float b => exact h b rfl
  | _ => simp [Kind.same]

theorem Kind.same_self_of_readKind {cs rest : List Char} {k : Kind}
    (h : readKind cs = some (k, rest)) : k.same k = true := by
  apply Kind.same_self
  rintro b rfl
  unfold readKind at h
  dsimp only at h
  split at h
  -- only the keyword of a number gives a kind of numbers
  case h_6 =>
    obtain ⟨r, -, he⟩ := Option.map_eq_some_iff.mp h
    cases he
  case h_7 =>
    obtain ⟨r, hr, he⟩ := Option.map_eq_some_iff.mp h
    cases he
    obtain ⟨hmin, hmax⟩ := readBounds_forall numEq_self_of_readFloat hr
    exact Bounds.same_self hmin hmax
  all_goals cases h

theorem Element.same_self_of_parse? {cs : List Char} {e : Element}
    (h : Element.parse? cs = some e) : e.same e = true := by
  unfold Element.parse? at h
  split at h
  · dsimp only at h
    split at h
    · split at h
      · next kind hkind =>
        split_ifs at h
        cases h
        exact (Bool.and_eq_true _ _).mpr ⟨beq_self_eq_true _, Kind.same_self_of_readKind hkind⟩
      · cases h
    · cases h
  · split_ifs at h
    cases h
    exact beq_self_eq_true _

theorem Element.literal_of_parse? {cs : List Char} {text : String}
    (h : Element.parse? cs = some (.literal text)) :
    text.toList ≠ [] ∧ ∀ c ∈ text.toList, isLiteralChar c = true := by
  unfold Element.parse? at h
  split at h
  · dsimp only at h
    split at h
    · split at h
      · split_ifs at h
        cases h
      · cases h
    · cases h
  · split_ifs at h with hcs
    cases h
    obtain ⟨hne, hall⟩ := (Bool.and_eq_true _ _).mp hcs
    rw [String.toList_ofList]
    exact ⟨by simpa using hne, List.all_eq_true.mp hall⟩

/-- A list is mapped to the partners of its items if each of them has one. -/
theorem mapM_eq_some_iff_forall₂ {α β : Type} (f : α → Option β) (xs : List α) (ys : List β) :
    xs.mapM f = some ys ↔ List.Forall₂ (fun x y => f x = some y) xs ys := by
  induction xs generalizing ys with
  | nil =>
    rw [List.forall₂_nil_left_iff, List.mapM_nil]
    exact ⟨fun h => (Option.some.inj h).symm, fun h => congrArg some h.symm⟩
  | cons x xs ih =>
    rw [List.forall₂_cons_left_iff, List.mapM_cons]
    constructor
    · intro h
      obtain ⟨y, hy, h⟩ := Option.bind_eq_some_iff.mp h
      obtain ⟨rest, hrest, h⟩ := Option.bind_eq_some_iff.mp h
      exact ⟨y, rest, hy, (ih rest).mp hrest, (Option.some.inj h).symm⟩
    · rintro ⟨y, rest, hy, hrest, rfl⟩
      have hxs := (ih rest).mpr hrest
      simp [hy, hxs]

/-- The elements of a usage are what the words of its line denote. -/
theorem Usage.words_denote_of_parse {line : String} {u : Usage} (h : Usage.parse line = .ok u) :
    List.Forall₂ (fun word e => Element.parse? word = some e) (line.toList.splitOn ' ')
      u.elements := by
  unfold Usage.parse at h
  split at h
  · next command parameters hwords =>
    split_ifs at h
    cases h
    exact (mapM_eq_some_iff_forall₂ _ _ _).mp hwords
  · cases h
  · cases h

theorem any_isGreedy_eq_false_iff (command : String) (parameters : List Element) :
    parameters.dropLast.any Element.isGreedy = false ↔
      ∀ e ∈ (Element.literal command :: parameters).dropLast, e.isGreedy = false := by
  cases parameters with
  | nil => simp
  | cons x rest => simp [Element.isGreedy]

/-- In a usage, only the last element can be greedy. -/
theorem Usage.not_isGreedy_of_mem_dropLast {line : String} {u : Usage}
    (h : Usage.parse line = .ok u) : ∀ e ∈ u.elements.dropLast, e.isGreedy = false := by
  unfold Usage.parse at h
  split at h
  · next command parameters hwords =>
    split_ifs at h with hgreedy
    cases h
    exact (any_isGreedy_eq_false_iff _ _).mp (Bool.eq_false_iff.mpr hgreedy)
  · cases h
  · cases h

theorem Usage.exists_word_of_mem_elements {line : String} {u : Usage}
    (h : Usage.parse line = .ok u) {e : Element} (he : e ∈ u.elements) :
    ∃ word, Element.parse? word = some e := by
  obtain ⟨i, hi, rfl⟩ := List.mem_iff_getElem.mp he
  have hwords := words_denote_of_parse h
  exact ⟨_, hwords.get (hwords.length_eq ▸ hi) hi⟩

theorem Usage.same_self_of_mem_elements {line : String} {u : Usage}
    (h : Usage.parse line = .ok u) {e : Element} (he : e ∈ u.elements) : e.same e = true := by
  obtain ⟨word, hword⟩ := exists_word_of_mem_elements h he
  exact Element.same_self_of_parse? hword

/-- The command word of a usage line is not empty and has only characters of literals. -/
theorem Usage.command_of_parse {line : String} {u : Usage} (h : Usage.parse line = .ok u) :
    u.command.toList ≠ [] ∧ ∀ c ∈ u.command.toList, isLiteralChar c = true := by
  obtain ⟨word, hword⟩ := exists_word_of_mem_elements h (List.mem_cons_self ..)
  exact Element.literal_of_parse? hword

end CommandScript.Grammar
