import Mathlib.Tactic.Common
import CommandScript.Script.Lines

/-! Which physical lines a logical line is made of. -/
namespace CommandScript.Script
open Text

/-- A physical line stands for nothing if nothing is left of it when it is trimmed, or if what is
left begins with a number sign. -/
def StandsForNothing (physical : List Char) : Prop :=
  trim physical = [] ∨ (trim physical).head? = some '#'

instance (physical : List Char) : Decidable (StandsForNothing physical) :=
  inferInstanceAs (Decidable (_ ∨ _))

theorem isSkipped_trim_iff (physical : List Char) :
    isSkipped (trim physical) = true ↔ StandsForNothing physical := by
  rw [isSkipped, StandsForNothing, Bool.or_eq_true, List.isEmpty_iff, beq_iff_eq]

/-- A physical line goes on in the next one if it ends in a backslash when it is trimmed. -/
def GoesOn (physical : List Char) : Prop := (trim physical).getLast? = some '\\'

instance (physical : List Char) : Decidable (GoesOn physical) :=
  inferInstanceAs (Decidable (_ = _))

/-- The text of physical lines that go on: without the backslashes. -/
def joined (continued : List (List Char)) : List Char :=
  continued.flatMap fun physical => (trim physical).dropLast

/-- The logical lines of a text, given its physical lines and the number of the first of them. A
logical line begins at a physical line that stands for something, goes on up to one that does not
go on, and has the number of the one at which it begins. At the end of the text, a line that should
go on is cut off; if nothing is left of it, it is none. -/
inductive Layout : Nat → List (List Char) → List Line → Prop
  | done {number : Nat} : Layout number [] []
  | skip {number : Nat} {physical : List Char} {rest : List (List Char)} {lines : List Line}
      (nothing : StandsForNothing physical) (behind : Layout (number + 1) rest lines) :
      Layout number (physical :: rest) lines
  | line {number : Nat} {continued : List (List Char)} {last : List Char}
      {rest : List (List Char)} {lines : List Line}
      (begins : ∀ first ∈ (continued ++ [last]).head?, ¬StandsForNothing first)
      (goesOn : ∀ physical ∈ continued, GoesOn physical) (ends : ¬GoesOn last)
      (behind : Layout (number + continued.length + 1) rest lines) :
      Layout number (continued ++ last :: rest)
        (⟨String.ofList (joined continued ++ trim last), number⟩ :: lines)
  | cut {number : Nat} {continued : List (List Char)} (nonempty : continued ≠ [])
      (begins : ∀ first ∈ continued.head?, ¬StandsForNothing first)
      (goesOn : ∀ physical ∈ continued, GoesOn physical) :
      Layout number continued (if trimEnd (joined continued) = [] then []
        else [⟨String.ofList (trimEnd (joined continued)), number⟩])

theorem joinLines_of_skipped {number : Nat} {physical : List Char} (rest : List (List Char))
    (h : StandsForNothing physical) :
    joinLines number none (physical :: rest) = joinLines (number + 1) none rest := by
  have hskipped := (isSkipped_trim_iff physical).mpr h
  rw [joinLines, if_pos (by rw [hskipped]; rfl)]

/-- A line that stands for something begins a logical line. -/
theorem joinLines_of_begins (number : Nat) {block : List (List Char)} (rest : List (List Char))
    (nonempty : block ≠ []) (begins : ∀ first ∈ block.head?, ¬StandsForNothing first) :
    joinLines number none (block ++ rest) =
      joinLines number (some ⟨number, []⟩) (block ++ rest) := by
  obtain ⟨first, block, rfl⟩ := List.exists_cons_of_ne_nil nonempty
  have hfirst : isSkipped (trim first) = false :=
    Bool.eq_false_iff.mpr (mt (isSkipped_trim_iff first).mp (begins first rfl))
  simp only [List.cons_append, joinLines, hfirst, Bool.and_false, Option.getD]

theorem joinLines_of_goesOn {number : Nat} {p : Pending} {physical : List Char}
    (rest : List (List Char)) (h : GoesOn physical) :
    joinLines number (some p) (physical :: rest) =
      joinLines (number + 1) (some ⟨p.number, p.text ++ (trim physical).dropLast⟩) rest := by
  rw [joinLines, if_neg (by simp)]
  exact if_pos h

theorem joinLines_of_ends {number : Nat} {p : Pending} {physical : List Char}
    (rest : List (List Char)) (h : ¬GoesOn physical) :
    joinLines number (some p) (physical :: rest) =
      ⟨String.ofList (p.text ++ trim physical), p.number⟩ :: joinLines (number + 1) none rest := by
  rw [joinLines, if_neg (by simp)]
  exact if_neg h

/-- Lines that go on are added to the text that is pending. -/
theorem joinLines_append {continued : List (List Char)}
    (goesOn : ∀ physical ∈ continued, GoesOn physical) (number : Nat) (p : Pending)
    (rest : List (List Char)) :
    joinLines number (some p) (continued ++ rest) =
      joinLines (number + continued.length) (some ⟨p.number, p.text ++ joined continued⟩) rest := by
  induction continued generalizing number p with
  | nil => simp [joined]
  | cons physical continued ih =>
    have hphysical := goesOn physical List.mem_cons_self
    have hrest := ih fun physical' h => goesOn physical' (List.mem_cons_of_mem physical h)
    have hnumber : number + 1 + continued.length = number + (physical :: continued).length := by
      rw [List.length_cons]
      omega
    have htext : p.text ++ (trim physical).dropLast ++ joined continued =
        p.text ++ joined (physical :: continued) := by
      rw [joined, joined, List.flatMap_cons, List.append_assoc]
    rw [List.cons_append, joinLines_of_goesOn _ hphysical, hrest, hnumber, htext]

/-- Physical lines that are laid out as logical lines are joined to those. -/
theorem joinLines_of_layout {number : Nat} {physical : List (List Char)} {lines : List Line}
    (h : Layout number physical lines) : joinLines number none physical = lines := by
  induction h with
  | done => rfl
  | skip nothing behind ih => rw [joinLines_of_skipped _ nothing, ih]
  | @line number continued last rest lines begins goesOn ends behind ih =>
    have hbegins := joinLines_of_begins number rest (by simp) begins
    rw [List.append_assoc, List.singleton_append] at hbegins
    rw [hbegins, joinLines_append goesOn, joinLines_of_ends _ ends, ih, List.nil_append]
  | @cut number continued nonempty begins goesOn =>
    have hbegins := joinLines_of_begins number [] nonempty begins
    have hjoined := joinLines_append goesOn number ⟨number, []⟩ []
    rw [List.append_nil] at hbegins hjoined
    rw [hbegins, hjoined, joinLines]
    simp only [List.nil_append, List.isEmpty_iff]

/-- Physical lines up to the first one that does not go on. -/
theorem exists_continued (physical : List (List Char)) :
    ∃ continued behind, physical = continued ++ behind ∧ (∀ l ∈ continued, GoesOn l) ∧
      ∀ last ∈ behind.head?, ¬GoesOn last := by
  refine ⟨physical.takeWhile fun l => decide (GoesOn l),
    physical.dropWhile fun l => decide (GoesOn l), List.takeWhile_append_dropWhile.symm, ?_, ?_⟩
  · intro l hl
    exact of_decide_eq_true (List.all_eq_true.mp List.all_takeWhile l hl)
  · intro last hlast
    have hnot := List.head?_dropWhile_not (fun l => decide (GoesOn l)) physical
    rw [Option.mem_def.mp hlast] at hnot
    exact of_decide_eq_false hnot

/-- All physical lines can be laid out. -/
theorem exists_layout (number : Nat) (physical : List (List Char)) :
    ∃ lines, Layout number physical lines := by
  induction hlength : physical.length using Nat.strongRecOn generalizing number physical with
  | _ n ih =>
    subst hlength
    cases hskipped : physical with
    | nil => exact ⟨_, .done⟩
    | cons first rest =>
      by_cases hfirst : StandsForNothing first
      · obtain ⟨lines, hrest⟩ := ih rest.length (by simp [hskipped]) (number + 1) rest rfl
        exact ⟨lines, .skip hfirst hrest⟩
      · have hbegins : ∀ line ∈ physical.head?, ¬StandsForNothing line := by
          rintro line hline
          rw [hskipped] at hline
          cases hline
          exact hfirst
        rw [← hskipped]
        obtain ⟨continued, behind, rfl, hgoesOn, hends⟩ := exists_continued physical
        cases behind with
        | nil =>
          rw [List.append_nil] at hskipped hbegins ⊢
          exact ⟨_, .cut (by rw [hskipped]; exact List.cons_ne_nil first rest) hbegins hgoesOn⟩
        | cons last behind =>
          obtain ⟨lines, hbehind⟩ :=
            ih behind.length (by simp; omega) (number + continued.length + 1) behind rfl
          refine ⟨_, .line ?_ hgoesOn (hends last rfl) hbehind⟩
          simpa only [List.head?_append, List.head?_cons] using hbegins

/-- The logical lines of a text are those that it is laid out as. -/
theorem layout_iff {number : Nat} {physical : List (List Char)} {lines : List Line} :
    Layout number physical lines ↔ joinLines number none physical = lines := by
  constructor
  · exact joinLines_of_layout
  · rintro rfl
    obtain ⟨lines, h⟩ := exists_layout number physical
    rwa [joinLines_of_layout h]

example : Layout 1 (lines "# Greets.\nsay good \\\n  morning".toList)
    [⟨"say good morning", 2⟩] := layout_iff.mpr (by decide +kernel)

theorem Layout.le_number {number : Nat} {physical : List (List Char)} {lines : List Line}
    (h : Layout number physical lines) : ∀ line ∈ lines, number ≤ line.number := by
  induction h with
  | done => nofun
  | skip nothing behind ih =>
    intro line hline
    have := ih line hline
    omega
  | line begins goesOn ends behind ih =>
    intro line hline
    rcases List.mem_cons.mp hline with rfl | hline
    · exact Nat.le_refl _
    · have := ih line hline
      omega
  | cut nonempty begins goesOn =>
    intro line hline
    split_ifs at hline with hempty
    · cases hline
    · obtain rfl := List.mem_singleton.mp hline
      exact Nat.le_refl _

end CommandScript.Script
