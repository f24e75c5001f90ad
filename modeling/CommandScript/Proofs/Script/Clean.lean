import Mathlib.Data.List.DropRight
import CommandScript.Proofs.Script.Layout

/-! Which logical lines are clean command lines. None begins with a blank; only a line that a blank
physical line closes can be empty or end in a blank. -/
namespace CommandScript.Script
open Text

/-- A text that does not begin with a blank. -/
def Flush (cs : List Char) : Prop := ∀ c ∈ cs.head?, isBlank c = false

/-- A text that has characters, and blanks neither at its start nor at its end. -/
structure Clean (cs : List Char) : Prop where
  nonempty : cs ≠ []
  flush : Flush cs
  trimmed : ∀ c ∈ cs.getLast?, isBlank c = false

theorem flush_nil : Flush [] := nofun

theorem Flush.of_isPrefix {cs cs' : List Char} (hpre : cs <+: cs') (h : Flush cs') : Flush cs := by
  obtain ⟨rest, rfl⟩ := hpre
  cases cs with
  | nil => exact flush_nil
  | cons c cs => exact h

theorem Flush.append {cs cs' : List Char} (h : Flush cs) (h' : Flush cs') : Flush (cs ++ cs') := by
  cases cs with
  | nil => exact h'
  | cons c cs => exact h

theorem trimEnd_isPrefix (cs : List Char) : trimEnd cs <+: cs := List.rdropWhile_prefix isBlank cs

theorem isBlank_of_getLast?_trimEnd {cs : List Char} {c : Char} (h : c ∈ (trimEnd cs).getLast?) :
    isBlank c = false := by
  have hne : trimEnd cs ≠ [] := by
    intro hnil
    rw [hnil] at h
    cases h
  have hlast : (trimEnd cs).getLast hne = c := List.getLast_of_mem_getLast? h
  have hnot : ¬isBlank ((trimEnd cs).getLast hne) = true :=
    List.rdropWhile_last_not isBlank cs hne
  rw [hlast] at hnot
  exact Bool.eq_false_iff.mpr hnot

theorem flush_trim (cs : List Char) : Flush (trim cs) := by
  have hdropped : Flush (cs.dropWhile isBlank) := by
    intro c hc
    have hnot := List.head?_dropWhile_not isBlank cs
    rw [Option.mem_def.mp hc] at hnot
    exact hnot
  exact hdropped.of_isPrefix (trimEnd_isPrefix _)

theorem flush_joined (continued : List (List Char)) : Flush (joined continued) := by
  induction continued with
  | nil => exact flush_nil
  | cons physical continued ih =>
    have hfirst : Flush (trim physical).dropLast :=
      (flush_trim physical).of_isPrefix (List.dropLast_prefix _)
    exact hfirst.append ih

theorem clean_append_trim {cs physical : List Char} (h : Flush cs) (hne : trim physical ≠ []) :
    Clean (cs ++ trim physical) := by
  refine ⟨?_, h.append (flush_trim physical), ?_⟩
  · simp [hne]
  · intro c hc
    rw [List.getLast?_append_of_ne_nil _ hne] at hc
    exact isBlank_of_getLast?_trimEnd hc

/-- Physical lines that go on are followed by a blank one. This ends the logical line, which has
the text of the lines that go on as it stands. -/
def ClosedByBlank (number : Nat) (physical : List (List Char)) (line : Line) : Prop :=
  ∃ before continued blank behind, physical = before ++ (continued ++ blank :: behind) ∧
    continued ≠ [] ∧ (∀ p ∈ continued, GoesOn p) ∧ trim blank = [] ∧
    line.number = number + before.length ∧ line.text.toList = joined continued

theorem ClosedByBlank.behind {number : Nat} {skipped physical : List (List Char)} {line : Line}
    (h : ClosedByBlank (number + skipped.length) physical line) :
    ClosedByBlank number (skipped ++ physical) line := by
  obtain ⟨before, continued, blank, behind, rfl, hne, hgoesOn, hblank, hnumber, htext⟩ := h
  refine ⟨skipped ++ before, continued, blank, behind, ?_, hne, hgoesOn, hblank, ?_, htext⟩
  · rw [List.append_assoc]
  · rw [hnumber, List.length_append]
    omega

theorem Layout.clean_or_closedByBlank {number : Nat} {physical : List (List Char)}
    {lines : List Line} (h : Layout number physical lines) :
    ∀ line ∈ lines, Flush line.text.toList ∧
      (Clean line.text.toList ∨ ClosedByBlank number physical line) := by
  induction h with
  | done => nofun
  | @skip number physical rest lines nothing behind ih =>
    intro line hline
    obtain ⟨hflush, hclean | hclosed⟩ := ih line hline
    · exact ⟨hflush, Or.inl hclean⟩
    · have hbehind : ClosedByBlank number ([physical] ++ rest) line := hclosed.behind
      exact ⟨hflush, Or.inr hbehind⟩
  | @line number continued last rest lines begins goesOn ends behind ih =>
    intro line hline
    rcases List.mem_cons.mp hline with rfl | hline
    · rw [String.toList_ofList]
      have hflush : Flush (joined continued ++ trim last) :=
        (flush_joined continued).append (flush_trim last)
      refine ⟨hflush, ?_⟩
      by_cases hblank : trim last = []
      · have hcontinued : continued ≠ [] := by
          intro hnil
          subst hnil
          exact begins last rfl (Or.inl hblank)
        refine Or.inr ⟨[], continued, last, rest, rfl, hcontinued, goesOn, hblank, rfl, ?_⟩
        rw [String.toList_ofList, hblank, List.append_nil]
      · exact Or.inl (clean_append_trim (flush_joined continued) hblank)
    · obtain ⟨hflush, hclean | hclosed⟩ := ih line hline
      · exact ⟨hflush, Or.inl hclean⟩
      · refine ⟨hflush, Or.inr ?_⟩
        have hlength : number + continued.length + 1 = number + (continued ++ [last]).length := by
          rw [List.length_append, List.length_singleton]
          omega
        rw [hlength] at hclosed
        have hbehind := hclosed.behind
        rwa [List.append_assoc, List.singleton_append] at hbehind
  | @cut number continued nonempty begins goesOn =>
    intro line hline
    by_cases hempty : trimEnd (joined continued) = []
    · rw [if_pos hempty] at hline
      cases hline
    · rw [if_neg hempty] at hline
      obtain rfl := List.mem_singleton.mp hline
      rw [String.toList_ofList]
      have hflush := (flush_joined continued).of_isPrefix (trimEnd_isPrefix _)
      exact ⟨hflush, Or.inl ⟨hempty, hflush, fun c hc => isBlank_of_getLast?_trimEnd hc⟩⟩

/-- No logical line begins with a blank, and all are clean but those that a blank line closes. Of
those nothing is trimmed: one is empty or ends in a blank if the text in front of its last
backslashes is or does. -/
theorem logicalLines_clean_or_closed (source : String) :
    ∀ line ∈ logicalLines source, Flush line.text.toList ∧
      (Clean line.text.toList ∨ ClosedByBlank 1 (lines source.toList) line) :=
  (layout_iff.mpr rfl).clean_or_closedByBlank

/-- The blank in front of the backslash stays, since the line is closed by a blank one. -/
theorem logicalLines_clean_or_closed_say :
    let source := "say hi \\\n \nkill"
    let line : Line := ⟨"say hi ", 1⟩
    line ∈ logicalLines source ∧ ClosedByBlank 1 (lines source.toList) line := by
  intro source line
  have hlines : logicalLines source = [line, ⟨"kill", 3⟩] := by decide +kernel
  have hline : line ∈ logicalLines source := by
    rw [hlines]
    exact List.mem_cons_self
  obtain ⟨-, hclean | hclosed⟩ := logicalLines_clean_or_closed source line hline
  · have hlast := hclean.trimmed ' ' (by decide)
    cases hlast
  · exact ⟨hline, hclosed⟩

/-- Behind a backslash, a blank line leaves an empty line or a blank at the end of a line. -/
theorem exists_logicalLine_not_clean :
    let source := "\\\n\nsay hi \\\n\nkill"
    logicalLines source = [⟨"", 1⟩, ⟨"say hi ", 3⟩, ⟨"kill", 5⟩] ∧
      ¬Clean "".toList ∧ ¬Clean "say hi ".toList ∧ Clean "kill".toList := by
  refine ⟨by decide +kernel, fun h => h.nonempty rfl, ?_, ?_⟩
  · intro h
    have hlast := h.trimmed ' ' (by decide)
    exact absurd hlast (by decide)
  · refine ⟨by decide, ?_, ?_⟩
    · intro c hc
      cases hc
      rfl
    · intro c hc
      cases hc
      rfl

end CommandScript.Script
