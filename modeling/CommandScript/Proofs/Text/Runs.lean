import Mathlib.Data.List.TakeWhile

/-! Runs of characters of one class, and how the first run is split off a text. The classes of
letters and digits are ranges of ASCII. -/
namespace CommandScript.Text

theorem isUpper_iff (c : Char) : c.isUpper = true ↔ 'A' ≤ c ∧ c ≤ 'Z' := decide_eq_true_iff

theorem isLower_iff (c : Char) : c.isLower = true ↔ 'a' ≤ c ∧ c ≤ 'z' := by
  have hlower : c.isLower = (decide ('a' ≤ c) && decide (c ≤ 'z')) := rfl
  rw [hlower, Bool.and_eq_true, decide_eq_true_iff, decide_eq_true_iff]

theorem isDigit_iff (c : Char) : c.isDigit = true ↔ '0' ≤ c ∧ c ≤ '9' := by
  have hdigit : c.isDigit = (decide ('0' ≤ c) && decide (c ≤ '9')) := rfl
  rw [hdigit, Bool.and_eq_true, decide_eq_true_iff, decide_eq_true_iff]

theorem isAlpha_iff (c : Char) :
    c.isAlpha = true ↔ ('A' ≤ c ∧ c ≤ 'Z') ∨ ('a' ≤ c ∧ c ≤ 'z') := by
  have halpha : c.isAlpha = (c.isUpper || c.isLower) := rfl
  rw [halpha, Bool.or_eq_true, isUpper_iff, isLower_iff]

theorem isAlphanum_iff (c : Char) :
    c.isAlphanum = true ↔
      ('A' ≤ c ∧ c ≤ 'Z') ∨ ('a' ≤ c ∧ c ≤ 'z') ∨ ('0' ≤ c ∧ c ≤ '9') := by
  have halphanum : c.isAlphanum = (c.isAlpha || c.isDigit) := rfl
  rw [halphanum, Bool.or_eq_true, isAlpha_iff, isDigit_iff, or_assoc]

variable {p : Char → Bool} {cs rest : List Char}

/-- A text splits in one way only into characters of a class and a text that begins with none. -/
theorem splits_iff (p : Char → Bool) (cs front rest : List Char) :
    cs.takeWhile p = front ∧ cs.dropWhile p = rest ↔
      cs = front ++ rest ∧ (∀ c ∈ front, p c = true) ∧ ∀ c ∈ rest.head?, p c = false := by
  constructor
  · rintro ⟨rfl, rfl⟩
    refine ⟨List.takeWhile_append_dropWhile.symm, List.all_eq_true.mp List.all_takeWhile, ?_⟩
    intro c hc
    have hnot := List.head?_dropWhile_not p cs
    rw [Option.mem_def.mp hc] at hnot
    exact hnot
  · rintro ⟨rfl, hfront, hrest⟩
    rw [List.takeWhile_append_of_pos hfront, List.dropWhile_append_of_pos hfront]
    cases rest with
    | nil => simp
    | cons c rest => simp [hrest c rfl]

/-- One or more characters of a class. -/
structure IsRun (p : Char → Bool) (cs : List Char) : Prop where
  nonempty : cs ≠ []
  all : ∀ c ∈ cs, p c = true

theorem isRun_iff : (!cs.isEmpty && cs.all p) = true ↔ IsRun p cs := by
  rw [Bool.and_eq_true, Bool.not_eq_true', List.isEmpty_eq_false_iff, List.all_eq_true]
  exact ⟨fun h => ⟨h.1, h.2⟩, fun h => ⟨h.nonempty, h.all⟩⟩

theorem IsRun.not_mem (h : IsRun p cs) {c : Char} (hc : p c = false) : c ∉ cs := by
  intro hmem
  rw [h.all c hmem] at hc
  cases hc

theorem IsRun.head_ne (h : IsRun p cs) {c : Char} (hc : p c = false) (rest : List Char) :
    ∀ d ∈ (cs ++ rest).head?, d ≠ c := by
  obtain ⟨c', cs', rfl⟩ := List.exists_cons_of_ne_nil h.nonempty
  rintro d hd rfl
  cases hd
  exact h.not_mem hc List.mem_cons_self

theorem IsRun.isEmpty_eq_false (h : IsRun p cs) : cs.isEmpty = false := by
  simpa using h.nonempty

theorem IsRun.split_append (h : IsRun p cs) (hrest : ∀ c ∈ rest.head?, p c = false) :
    (cs ++ rest).takeWhile p = cs ∧ (cs ++ rest).dropWhile p = rest :=
  (splits_iff _ _ _ _).mpr ⟨rfl, h.all, hrest⟩

/-- The run at the start of a text, if there is one. -/
theorem exists_isRun (h : ¬(cs.takeWhile p).isEmpty) :
    ∃ run rest, cs = run ++ rest ∧ IsRun p run ∧ (∀ c ∈ rest.head?, p c = false) ∧
      cs.takeWhile p = run ∧ cs.dropWhile p = rest := by
  obtain ⟨hcs, hall, hrest⟩ := (splits_iff p cs _ _).mp ⟨rfl, rfl⟩
  have hne : cs.takeWhile p ≠ [] := fun hnil => h (List.isEmpty_iff.mpr hnil)
  exact ⟨_, _, hcs, ⟨hne, hall⟩, hrest, rfl, rfl⟩

end CommandScript.Text
