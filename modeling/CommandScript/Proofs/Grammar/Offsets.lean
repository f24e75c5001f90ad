import CommandScript.Proofs.Grammar.Deepest
import CommandScript.Proofs.Text.Boundaries

/-! The offsets of a search. Wherever a search of a command tree looks at its input, and wherever it
reports a failure, the offset lies between two characters of the input. -/
namespace CommandScript.Grammar
open Text

/-- The number of bytes that an element takes up in front of `rest`. A literal has a length of its
own; behind an argument, the bytes that are left are subtracted, and there may not be too many. -/
def Element.width? (cs rest : List Char) : Element → Option Nat
  | literal text => some (byteSize text.toList)
  | argument _ _ => if byteSize rest ≤ byteSize cs then some (byteSize cs - byteSize rest) else none

/-- The search of a forest by offsets alone. Nothing of the text is handed on from node to node;
each time it is cut out of the input, and the search breaks off where this is impossible. -/
def Forest.walkByOffsets (input : List Char) :
    Forest → Rank → Nat → Search → Option (Bool × Search)
  | nil, _, _, s => some (false, s)
  | cons e executable children siblings, rank, cursor, s =>
    if rank.admits e then do
      let cs ← textFrom? cursor input
      match e.read s.trail.isEmpty cs with
      | .error fault => siblings.walkByOffsets input rank cursor (s.fail cursor fault)
      | .ok (value, rest) =>
        let width ← e.width? cs rest
        let next := cursor + width
        let matched := s.push ⟨e.name, value⟩
        if next = byteSize input then
          if executable then some (true, matched)
          else siblings.walkByOffsets input rank cursor (matched.fail next .incompleteCommand).pop
        else do
          let behind ← textFrom? next input
          if behind.head? ≠ some ' ' then
            siblings.walkByOffsets input rank cursor (matched.fail next .expectedWhitespace).pop
          else if children = nil then
            siblings.walkByOffsets input rank cursor (matched.fail next .trailingData).pop
          else do
            match ← children.walkByOffsets input .literals (next + 1) matched with
            | (true, s) => some (true, s)
            | (false, s) =>
              match ← children.walkByOffsets input .arguments (next + 1) s with
              | (true, s) => some (true, s)
              | (false, s) => siblings.walkByOffsets input rank cursor s.pop
    else siblings.walkByOffsets input rank cursor s

section
variable {input cs rest : List Char} {cursor : Nat} {e : Element} {value : Argument}

/-- Behind an element that has been read, the offset has moved on by the width of the element. -/
theorem Element.offsets_of_read {first : Bool} (hcs : textFrom? cursor input = some cs)
    (hread : e.read first cs = .ok (value, rest)) :
    e.width? cs rest = some (byteSize cs - byteSize rest) ∧
      textFrom? (cursor + (byteSize cs - byteSize rest)) input = some rest := by
  obtain ⟨word, rfl, htakes⟩ := (e.read_eq_ok_iff first cs rest value).mp hread
  have hword : byteSize (word ++ rest) - byteSize rest = byteSize word :=
    byteSize_append_sub word rest
  have hle : byteSize rest ≤ byteSize (word ++ rest) := by
    rw [byteSize_append]
    exact Nat.le_add_left _ _
  refine ⟨?_, hword ▸ textFrom?_add hcs⟩
  cases htakes with
  | literal => rw [width?, hword]
  | argument => rw [width?, if_pos hle]

end

/-- Behind a space there is text from the next offset on. -/
theorem textFrom?_space {n : Nat} {cs behind : List Char}
    (h : textFrom? n cs = some (' ' :: behind)) :
    textFrom? (n + 1) cs = some behind :=
  textFrom?_add (show textFrom? n cs = some ([' '] ++ behind) from h)

namespace Forest

section
variable {input cs : List Char} {e : Element} {rank : Rank} {cursor : Nat} {s : Search}
variable {executable : Bool} {children siblings : Forest}

theorem walkByOffsets_cons_of_not_admits (hrank : rank.admits e = false) :
    (cons e executable children siblings).walkByOffsets input rank cursor s =
      siblings.walkByOffsets input rank cursor s := by
  rw [walkByOffsets, if_neg (Bool.eq_false_iff.mp hrank)]

variable (hrank : rank.admits e = true) (hcs : textFrom? cursor input = some cs)
include hrank hcs

theorem walkByOffsets_cons_of_error {fault : Fault}
    (hread : e.read s.trail.isEmpty cs = .error fault) :
    (cons e executable children siblings).walkByOffsets input rank cursor s =
      siblings.walkByOffsets input rank cursor (s.fail cursor fault) := by
  rw [walkByOffsets, if_pos hrank, hcs, Option.bind_eq_bind, Option.bind_some, hread]

variable {value : Argument}

theorem walkByOffsets_cons_of_end (hread : e.read s.trail.isEmpty cs = .ok (value, [])) :
    (cons e executable children siblings).walkByOffsets input rank cursor s =
      let next := cursor + (byteSize cs - byteSize [])
      let matched := s.push ⟨e.name, value⟩
      if executable then some (true, matched)
      else siblings.walkByOffsets input rank cursor (matched.fail next .incompleteCommand).pop := by
  obtain ⟨hwidth, hnext⟩ := Element.offsets_of_read hcs hread
  have hend := (eq_byteSize_iff_of_textFrom? hnext).mpr rfl
  rw [walkByOffsets, if_pos hrank, hcs, Option.bind_eq_bind, Option.bind_some, hread]
  dsimp only
  rw [hwidth, Option.bind_eq_bind, Option.bind_some, if_pos hend]

theorem walkByOffsets_cons_of_other {rest : List Char} (hne : rest ≠ [])
    (hspace : ∀ behind, rest ≠ ' ' :: behind)
    (hread : e.read s.trail.isEmpty cs = .ok (value, rest)) :
    (cons e executable children siblings).walkByOffsets input rank cursor s =
      let next := cursor + (byteSize cs - byteSize rest)
      siblings.walkByOffsets input rank cursor
        ((s.push ⟨e.name, value⟩).fail next .expectedWhitespace).pop := by
  obtain ⟨hwidth, hnext⟩ := Element.offsets_of_read hcs hread
  have hmore := mt (eq_byteSize_iff_of_textFrom? hnext).mp hne
  have hhead : rest.head? ≠ some ' ' := by
    intro h
    obtain ⟨behind, hbehind⟩ := List.head?_eq_some_iff.mp h
    exact hspace behind hbehind
  rw [walkByOffsets, if_pos hrank, hcs, Option.bind_eq_bind, Option.bind_some, hread]
  dsimp only
  rw [hwidth, Option.bind_eq_bind, Option.bind_some, if_neg hmore, hnext, Option.bind_eq_bind,
    Option.bind_some, if_pos hhead]

theorem walkByOffsets_cons_of_space {behind : List Char} {next : Nat} {matched : Search}
    (hread : e.read s.trail.isEmpty cs = .ok (value, ' ' :: behind))
    (hnext : next = cursor + (byteSize cs - byteSize (' ' :: behind)))
    (hmatched : matched = s.push ⟨e.name, value⟩) :
    (cons e executable children siblings).walkByOffsets input rank cursor s =
      if children = nil then
        siblings.walkByOffsets input rank cursor (matched.fail next .trailingData).pop
      else (do
        match ← children.walkByOffsets input .literals (next + 1) matched with
        | (true, s) => some (true, s)
        | (false, s) =>
          match ← children.walkByOffsets input .arguments (next + 1) s with
          | (true, s) => some (true, s)
          | (false, s) => siblings.walkByOffsets input rank cursor s.pop) := by
  obtain ⟨hwidth, hspace⟩ := Element.offsets_of_read hcs hread
  have hmore := mt (eq_byteSize_iff_of_textFrom? hspace).mp (List.cons_ne_nil _ _)
  have hhead : ¬(' ' :: behind).head? ≠ some ' ' := not_not.mpr rfl
  subst hnext hmatched
  rw [walkByOffsets, if_pos hrank, hcs, Option.bind_eq_bind, Option.bind_some, hread]
  dsimp only
  rw [hwidth, Option.bind_eq_bind, Option.bind_some, if_neg hmore, hspace, Option.bind_eq_bind,
    Option.bind_some, if_neg hhead]

end

/-- Every offset that a search comes to is one from which there is text, so that the search by
offsets never breaks off; and it ends like the search that is handed the text. -/
theorem walkByOffsets_eq {input : List Char} (f : Forest) (rank : Rank) (cursor : Nat)
    (cs : List Char) (s : Search) (hcs : textFrom? cursor input = some cs) :
    f.walkByOffsets input rank cursor s = some (f.walk rank cursor cs s) := by
  -- The cases are those of the search that is handed the text; in each, the text behind the element
  -- is the text from the next offset on, which keeps the two searches in step.
  fun_induction walk f rank cursor cs s with
  | case1 => rfl
  | case2 e executable children siblings rank cursor cs s hrank ih =>
    rw [walkByOffsets_cons_of_not_admits (by simpa using hrank)]
    exact ih hcs
  | case3 e executable children siblings rank cursor cs s hrank fault hread ih =>
    rw [walkByOffsets_cons_of_error (by simpa using hrank) hcs hread]
    exact ih hcs
  | case4 e children siblings rank cursor cs s hrank value matched hread =>
    rw [walkByOffsets_cons_of_end (by simpa using hrank) hcs hread]
    exact if_pos rfl
  | case5 e executable children siblings rank cursor cs s hrank value matched hexec hread next ih =>
    rw [walkByOffsets_cons_of_end (by simpa using hrank) hcs hread]
    dsimp only
    rw [if_neg hexec]
    exact ih hcs
  | case6 e executable siblings rank cursor cs s hrank value matched rest hread next ih =>
    rw [walkByOffsets_cons_of_space (by simpa using hrank) hcs hread rfl rfl, if_pos rfl]
    exact ih hcs
  | case7 e executable siblings rank cursor cs s hrank value matched rest children hne s₁ hread next
      hlit ihlit =>
    have hbehind := textFrom?_space (Element.offsets_of_read hcs hread).2
    rw [walkByOffsets_cons_of_space (by simpa using hrank) hcs hread (rfl : next = _)
      (rfl : matched = _), if_neg hne, ihlit hbehind, hlit]
    simp only [Option.bind_eq_bind, Option.bind_some]
  | case8 e executable siblings rank cursor cs s hrank value matched rest children hne s₁ s₂ hread
      next hlit harg ihlit iharg =>
    have hbehind := textFrom?_space (Element.offsets_of_read hcs hread).2
    rw [walkByOffsets_cons_of_space (by simpa using hrank) hcs hread (rfl : next = _)
      (rfl : matched = _), if_neg hne, ihlit hbehind, hlit]
    simp only [Option.bind_eq_bind, Option.bind_some, iharg hbehind, harg]
  | case9 e executable siblings rank cursor cs s hrank value matched rest children hne s₁ s₂ hread
      next hlit harg ihlit iharg ih =>
    have hbehind := textFrom?_space (Element.offsets_of_read hcs hread).2
    rw [walkByOffsets_cons_of_space (by simpa using hrank) hcs hread (rfl : next = _)
      (rfl : matched = _), if_neg hne, ihlit hbehind, hlit]
    simp only [Option.bind_eq_bind, Option.bind_some, iharg hbehind, harg]
    exact ih hcs
  | case10 e executable children siblings rank cursor cs s hrank value rest hread next matched hnil
      hspace ih =>
    rw [walkByOffsets_cons_of_other (by simpa using hrank) hcs hnil hspace hread]
    exact ih hcs

end Forest

namespace SyntaxError

theorem shorten_of_le {cs : List Char} (h : cs.length ≤ 10) : shorten cs = cs :=
  if_neg (Nat.not_lt.mpr h)

theorem shorten_of_lt {cs : List Char} (h : 10 < cs.length) :
    shorten cs = "...".toList ++ cs.drop (cs.length - 10) := if_pos h

/-- The context of an error whose cursor lies between two parts of its input. -/
theorem context_of_split {e : SyntaxError} {before behind : String}
    (hinput : e.input = before ++ behind) (hcursor : before.utf8ByteSize = e.cursor) :
    e.context = String.ofList (shorten before.toList) := by
  have hle : e.cursor ≤ byteSize e.input.toList := by
    rw [hinput, byteSize_toList, String.utf8ByteSize_append, ← hcursor]
    exact Nat.le_add_right _ _
  have htake : takeBytes? e.cursor e.input.toList = some before.toList := by
    refine takeBytes?_eq_some_iff.mpr ⟨⟨behind.toList, ?_⟩, ?_⟩
    · rw [hinput, String.toList_append]
    · rw [byteSize_toList, hcursor]
  rw [context, Nat.min_eq_left hle, htake, Option.getD_some]

end SyntaxError

/-- The cursor of a rejected line lies between two parts of the line. -/
theorem Tree.exists_split_of_parse {t : Tree} {input : String} {e : SyntaxError}
    (h : t.parse input = .error e) :
    e.input = input ∧
      ∃ before behind, input = before ++ behind ∧ before.utf8ByteSize = e.cursor := by
  cases hblank : input.toList.all isBlank with
  | true =>
    rw [t.parse_of_blank hblank] at h
    cases h
    exact ⟨rfl, "", input, by simp, rfl⟩
  | false =>
    obtain ⟨hnone, hinput, hkept⟩ := (t.parse_eq_error_iff hblank e).mp h
    refine ⟨hinput, ?_⟩
    by_cases hfailures : (t.roots.explore .literals true 0 input.toList).failures = []
    · rw [hfailures] at hkept
      exact ⟨"", input, by simp, (Failure.mk.inj hkept).1.symm⟩
    · obtain ⟨f, hf, hfirst⟩ := exists_foldl_keepDeeper hfailures
      rw [hf, Option.getD_some] at hkept
      obtain ⟨taken, hfails, hcursor⟩ := (Forest.mem_failures_iff hnone f).mp hfirst.mem
      obtain ⟨rest, hrest, -⟩ := hfails.exists_reaches
      rw [← hkept, Nat.zero_add] at hcursor
      refine ⟨String.ofList taken, String.ofList rest, ?_, ?_⟩
      · rw [← String.ofList_append, ← hrest, String.ofList_toList]
      · rw [← byteSize_toList, String.toList_ofList]
        exact hcursor.symm

/-- The search that reads a line only ever cuts the line at positions that it has, so that it never
breaks off. The cursor of a rejected line is such a position too, and the context of the error is
the text in front of it, or dots and the last ten characters of that. -/
theorem Tree.offsets_of_parse (t : Tree) (input : String) :
    (∀ n, (textFrom? n input.toList).isSome = true ↔
      n ≤ input.utf8ByteSize ∧ String.Pos.Raw.IsValid input ⟨n⟩) ∧
    t.roots.walkByOffsets input.toList .literals 0 .start =
      some (t.roots.walk .literals 0 input.toList .start) ∧
    ∀ e, t.parse input = .error e →
      e.cursor ≤ input.utf8ByteSize ∧ String.Pos.Raw.IsValid input ⟨e.cursor⟩ ∧
      ∃ before behind, input = before ++ behind ∧ before.utf8ByteSize = e.cursor ∧
        (before.length ≤ 10 → e.context = before) ∧
        (10 < before.length → ∃ front last, before = front ++ last ∧ last.length = 10 ∧
          e.context = "..." ++ last) := by
  refine ⟨?_, t.roots.walkByOffsets_eq _ _ _ _ (textFrom?_zero _), ?_⟩
  · intro n
    rw [isSome_textFrom?_iff]
    exact ⟨fun h => ⟨h.le_utf8ByteSize, h⟩, And.right⟩
  · intro e he
    obtain ⟨hinput, before, behind, hsplit, hcursor⟩ := exists_split_of_parse he
    have hvalid : String.Pos.Raw.IsValid input ⟨e.cursor⟩ := isValid_iff.mpr ⟨_, _, hsplit, hcursor⟩
    have hcontext := SyntaxError.context_of_split (hinput.trans hsplit) hcursor
    refine ⟨hvalid.le_utf8ByteSize, hvalid, before, behind, hsplit, hcursor, ?_, ?_⟩
    · intro hshort
      rw [hcontext, SyntaxError.shorten_of_le hshort, String.ofList_toList]
    · intro hlong
      refine ⟨String.ofList (before.toList.take (before.length - 10)),
        String.ofList (before.toList.drop (before.length - 10)), ?_, ?_, ?_⟩
      · rw [← String.ofList_append, List.take_append_drop, String.ofList_toList]
      · rw [String.length_ofList, List.length_drop, String.length_toList]
        omega
      · rw [hcontext, SyntaxError.shorten_of_lt hlong, String.ofList_append, String.ofList_toList,
          String.length_toList]

/-- In front of the cursor there are fourteen characters, one of which takes two bytes. -/
theorem Tree.offsets_of_parse_accent :
    ∃ t e, ofUsages ["tell <who:word> <count:integer>"] = .ok t ∧
      t.parse "tell Zoë-Anna drei" = .error e ∧ e.cursor = 15 ∧
      String.Pos.Raw.IsValid "tell Zoë-Anna drei" ⟨15⟩ ∧ e.context = "... Zoë-Anna " := by
  have ht : ofUsages ["tell <who:word> <count:integer>"] = .ok
      ⟨.cons (.literal "tell") false
        (.cons (.argument "who" .word) false
          (.cons (.argument "count" (.integer .free)) true .nil .nil) .nil) .nil,
        ["tell <who:word> <count:integer>"]⟩ := by decide +kernel
  have he : Tree.parse ⟨.cons (.literal "tell") false
        (.cons (.argument "who" .word) false
          (.cons (.argument "count" (.integer .free)) true .nil .nil) .nil) .nil,
        ["tell <who:word> <count:integer>"]⟩ "tell Zoë-Anna drei" =
      .error ⟨.invalidInteger "drei", "tell Zoë-Anna drei", 15⟩ := by decide +kernel
  obtain ⟨-, -, herror⟩ := offsets_of_parse _ "tell Zoë-Anna drei"
  obtain ⟨-, hvalid, before, behind, hsplit, hcursor, -, hlong⟩ := herror _ he
  have htake : takeBytes? 15 "tell Zoë-Anna drei".toList = some before.toList :=
    takeBytes?_eq_some_iff.mpr
      ⟨⟨behind.toList, by rw [hsplit, String.toList_append]⟩, by rw [byteSize_toList, hcursor]⟩
  have hbefore : before = "tell Zoë-Anna " := by
    have hvalue : takeBytes? 15 "tell Zoë-Anna drei".toList = some "tell Zoë-Anna ".toList := by
      decide +kernel
    exact String.toList_inj.mp (Option.some.inj (htake.symm.trans hvalue))
  obtain ⟨front, last, happend, hlast, hcontext⟩ := hlong (by rw [hbefore]; decide)
  have hten : last = " Zoë-Anna " := by
    have hchars : "tell".toList ++ " Zoë-Anna ".toList = front.toList ++ last.toList := calc
      _ = "tell Zoë-Anna ".toList := by decide
      _ = front.toList ++ last.toList := by rw [← hbefore, happend, String.toList_append]
    have hlength : " Zoë-Anna ".toList.length = last.toList.length := by
      rw [String.length_toList, String.length_toList, hlast]
      decide
    exact String.toList_inj.mp (List.append_inj_right' hchars hlength).symm
  exact ⟨_, _, ht, he, rfl, hvalid, hcontext.trans (by rw [hten]; decide)⟩

end CommandScript.Grammar
