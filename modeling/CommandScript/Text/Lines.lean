/-! Physical lines of a text. -/
namespace CommandScript.Text

/-- The lines of a text. A line ends in a line feed, or in a carriage return and a line feed;
nothing after the last one is no line, and a carriage return alone ends none. -/
def lines : List Char → List (List Char)
  | [] => []
  | c :: cs =>
    if c = '\n' then [] :: lines cs
    else if c = '\r' ∧ cs.head? = some '\n' then lines cs
    else match lines cs with
      | [] => [[c]]
      | l :: ls => (c :: l) :: ls

theorem lines_newline (cs : List Char) : lines ('\n' :: cs) = [] :: lines cs := by
  rw [lines, if_pos rfl]

/-- A carriage return in front of a line feed belongs to the end of the line. -/
theorem lines_cons_of_return {c : Char} {cs : List Char} (h : c = '\r' ∧ cs.head? = some '\n') :
    lines (c :: cs) = lines cs := by
  have hc : c ≠ '\n' := by
    rw [h.1]
    decide
  rw [lines, if_neg hc, if_pos h]

theorem lines_return (cs : List Char) : lines ('\r' :: '\n' :: cs) = [] :: lines cs := by
  rw [lines_cons_of_return ⟨rfl, rfl⟩, lines_newline]

theorem lines_cons_of_ne {c : Char} {cs l : List Char} {ls : List (List Char)} (hc : c ≠ '\n')
    (hreturn : ¬(c = '\r' ∧ cs.head? = some '\n')) (h : lines cs = l :: ls) :
    lines (c :: cs) = (c :: l) :: ls := by
  rw [lines, if_neg hc, if_neg hreturn, h]

-- One carriage return belongs to the end of a line, and the last line has no end.
example : lines "a\r\nb\r\r\nc\r".toList = ["a".toList, "b\r".toList, "c\r".toList] := by
  decide +kernel

theorem lines_ne_nil {cs : List Char} (h : cs ≠ []) : lines cs ≠ [] := by
  induction cs with
  | nil => exact absurd rfl h
  | cons c cs ih =>
    rw [lines]
    split
    · exact List.cons_ne_nil _ _
    · split
      · next hreturn =>
        apply ih
        rintro rfl
        cases hreturn.2
      · split
        · exact List.cons_ne_nil _ _
        · exact List.cons_ne_nil _ _

/-- Behind a line feed, the lines of a text are those of the rest alone. -/
theorem lines_append {a : List Char} (b : List Char) (h : ∀ c ∈ a.getLast?, c = '\n') :
    lines (a ++ b) = lines a ++ lines b := by
  induction a with
  | nil => rfl
  | cons c a ih =>
    cases a with
    | nil =>
      obtain rfl := h c rfl
      rw [lines_newline]
      exact lines_newline b
    | cons d a =>
      rw [List.getLast?_cons_cons] at h
      by_cases hc : c = '\n'
      · subst hc
        rw [List.cons_append, lines_newline, lines_newline, ih h, List.cons_append]
      · by_cases hreturn : c = '\r' ∧ (d :: a).head? = some '\n'
        · have hreturn' : c = '\r' ∧ (d :: a ++ b).head? = some '\n' := hreturn
          rw [List.cons_append, lines_cons_of_return hreturn, lines_cons_of_return hreturn', ih h]
        · have hreturn' : ¬(c = '\r' ∧ (d :: a ++ b).head? = some '\n') := hreturn
          obtain ⟨l, ls, hlines⟩ :=
            List.exists_cons_of_ne_nil (lines_ne_nil (List.cons_ne_nil d a))
          have happend : lines (d :: a ++ b) = l :: (ls ++ lines b) := by
            rw [ih h, hlines, List.cons_append]
          rw [List.cons_append, lines_cons_of_ne hc hreturn' happend,
            lines_cons_of_ne hc hreturn hlines, List.cons_append]

end CommandScript.Text
