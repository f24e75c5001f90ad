import Mathlib.Data.List.DropRight
import Mathlib.Data.List.Forall2
import CommandScript.Script.Function

/-! Function files whose lines end in a carriage return and a line feed. They are read like those
whose lines end in a line feed alone, whatever carriage returns the lines have besides. -/
namespace CommandScript.Script
open Text

/-- The text with a carriage return in front of every line feed. -/
def returned (cs : List Char) : List Char :=
  cs.flatMap fun c => if c = '\n' then ['\r', '\n'] else [c]

/-- The text without the carriage returns that stand right in front of a line feed. -/
def unreturned : List Char → List Char
  | [] => []
  | c :: cs => if c = '\r' ∧ cs.head? = some '\n' then unreturned cs else c :: unreturned cs

def withReturns (source : String) : String := String.ofList (returned source.toList)

def withoutReturns (source : String) : String := String.ofList (unreturned source.toList)

theorem unreturned_newline (cs : List Char) : unreturned ('\n' :: cs) = '\n' :: unreturned cs := by
  rw [unreturned, if_neg (by simp)]

theorem unreturned_return (cs : List Char) :
    unreturned ('\r' :: '\n' :: cs) = '\n' :: unreturned cs := by
  rw [unreturned, if_pos ⟨rfl, rfl⟩, unreturned_newline]

theorem head?_of_unreturned {cs : List Char} (h : (unreturned cs).head? = some '\n') :
    cs.head? = some '\n' ∨ ∃ behind, cs = '\r' :: '\n' :: behind := by
  cases cs with
  | nil => cases h
  | cons c cs =>
    by_cases hreturn : c = '\r' ∧ cs.head? = some '\n'
    · obtain ⟨rfl, hhead⟩ := hreturn
      obtain ⟨behind, rfl⟩ := List.head?_eq_some_iff.mp hhead
      exact Or.inr ⟨behind, rfl⟩
    · rw [unreturned, if_neg hreturn] at h
      exact Or.inl h

theorem trimEnd_append_blank (cs : List Char) {c : Char} (hc : isBlank c = true) :
    trimEnd (cs ++ [c]) = trimEnd cs := List.rdropWhile_concat_pos isBlank cs c hc

/-- A blank behind a line does not count. -/
theorem trim_append_blank (cs : List Char) {c : Char} (hc : isBlank c = true) :
    trim (cs ++ [c]) = trim cs := by
  rw [trim, List.dropWhile_append]
  split_ifs with h
  · have hall : cs.dropWhile isBlank = [] := List.isEmpty_iff.mp h
    rw [List.dropWhile_cons_of_pos hc, trim, hall]
    rfl
  · exact trimEnd_append_blank _ hc

/-- A line is another one, or that one with a carriage return behind it. -/
def ReturnBehind (l l' : List Char) : Prop := l' = l ∨ l' = l ++ ['\r']

theorem lines_cons_returnBehind {c : Char} {cs cs' : List Char} (hc : c ≠ '\n')
    (hreturn : ¬(c = '\r' ∧ cs.head? = some '\n'))
    (hreturn' : ¬(c = '\r' ∧ cs'.head? = some '\n'))
    (h : List.Forall₂ ReturnBehind (lines cs) (lines cs')) :
    List.Forall₂ ReturnBehind (lines (c :: cs)) (lines (c :: cs')) := by
  rw [lines, lines, if_neg hc, if_neg hc, if_neg hreturn, if_neg hreturn']
  generalize lines cs = ls, lines cs' = ls' at h ⊢
  cases h with
  | nil => exact .cons (Or.inl rfl) .nil
  | cons hline hrest =>
    obtain rfl | rfl := hline
    · exact .cons (Or.inl rfl) hrest
    · exact .cons (Or.inr rfl) hrest

/-- Each line is the same as without the carriage returns, or has one behind it: where there are two
in front of a line feed, only the second belongs to the end of the line. -/
theorem lines_unreturned (cs : List Char) :
    List.Forall₂ ReturnBehind (lines (unreturned cs)) (lines cs) := by
  induction cs with
  | nil => exact .nil
  | cons c cs ih =>
    by_cases hreturn : c = '\r' ∧ cs.head? = some '\n'
    · rw [unreturned, if_pos hreturn, lines_cons_of_return hreturn]
      exact ih
    · rw [unreturned, if_neg hreturn]
      by_cases hc : c = '\n'
      · rw [hc, lines_newline, lines_newline]
        exact .cons (Or.inl rfl) ih
      · by_cases hleft : c = '\r' ∧ (unreturned cs).head? = some '\n'
        · -- The return behind this one is left out, so that here this one ends the line.
          obtain ⟨rfl, hhead⟩ := hleft
          obtain hfeed | ⟨behind, rfl⟩ := head?_of_unreturned hhead
          · exact absurd ⟨rfl, hfeed⟩ hreturn
          · rw [unreturned_return] at ih ⊢
            rw [lines_newline, lines_return] at ih
            rw [lines_return, lines_cons_of_ne hc hreturn (lines_return behind)]
            cases ih with
            | cons _ hrest => exact .cons (Or.inr rfl) hrest
        · exact lines_cons_returnBehind hc hleft hreturn ih

theorem head?_returned_ne (cs : List Char) : (returned cs).head? ≠ some '\n' := by
  cases cs with
  | nil => simp [returned]
  | cons c cs =>
    rw [returned, List.flatMap_cons]
    split_ifs with hc
    · simp
    · simpa using hc

/-- Carriage returns that have been put in are taken out again, and no others. -/
theorem unreturned_returned (cs : List Char) : unreturned (returned cs) = cs := by
  induction cs with
  | nil => rfl
  | cons c cs ih =>
    have hother : ¬(c = '\r' ∧ (returned cs).head? = some '\n') :=
      fun h => head?_returned_ne cs h.2
    rw [returned, List.flatMap_cons, ← returned]
    split_ifs with hc
    · rw [List.cons_append, List.singleton_append, unreturned_return, ih, hc]
    · rw [List.singleton_append, unreturned, if_neg hother, ih]

/-- Of a physical line, only what trimming leaves of it matters. -/
theorem joinLines_congr {physical physical' : List (List Char)}
    (h : List.Forall₂ (fun l l' => trim l = trim l') physical physical') (number : Nat)
    (pending : Option Pending) :
    joinLines number pending physical = joinLines number pending physical' := by
  induction h generalizing number pending with
  | nil => rfl
  | cons htrim _ ih => simp only [joinLines, htrim, ih]

/-- The carriage returns in front of line feeds do not count: one belongs to the end of the line,
and one more is a blank behind the line, which is trimmed away. -/
theorem logicalLines_withoutReturns (source : String) :
    logicalLines (withoutReturns source) = logicalLines source := by
  rw [logicalLines, logicalLines, withoutReturns, String.toList_ofList]
  refine joinLines_congr ((lines_unreturned source.toList).imp ?_) 1 none
  rintro l l' (rfl | rfl)
  · rfl
  · exact (trim_append_blank l (by decide)).symm

/-- The ends of the lines do not matter: a file with carriage returns has the same logical lines,
with the same numbers, and makes up the same procedure or is refused for the same reason. -/
theorem logicalLines_withReturns (source : String) :
    logicalLines (withReturns source) = logicalLines source ∧
      ∀ id ctx, parseFunction id (withReturns source) ctx = parseFunction id source ctx := by
  have hsource : withoutReturns (withReturns source) = source := by
    rw [withoutReturns, withReturns, String.toList_ofList, unreturned_returned,
      String.ofList_toList]
  have hlines : logicalLines (withReturns source) = logicalLines source := by
    rw [← logicalLines_withoutReturns, hsource]
  refine ⟨hlines, fun id ctx => ?_⟩
  rw [parseFunction, parseFunction, hlines]

-- The backslash of a line that goes on stays in front of the end of the line.
example : withReturns "say good \\\nmorning\n" = "say good \\\r\nmorning\r\n" := by decide +kernel

end CommandScript.Script
