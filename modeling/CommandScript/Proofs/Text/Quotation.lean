import CommandScript.Text.Quoted
import Mathlib.Data.List.DropRight
import Mathlib.Data.List.Induction

/-! Quoted text has one written form: what is read is exactly what is written, and what follows. It
ends at the first quote that no backslash escapes. The reader is the same as one that goes by
stages: a quote, perhaps a text with escapes, a quote. -/
namespace CommandScript.Text.Quoted

/-- A backslash stands before each quote and each backslash of the text. -/
theorem encodeBody_eq_flatMap (s : List Char) :
    encodeBody s = s.flatMap fun c => if c = '"' ∨ c = '\\' then ['\\', c] else [c] := by
  induction s with
  | nil => rfl
  | cons c s ih =>
    rw [encodeBody, List.flatMap_cons, ih]
    by_cases h : c = '"' ∨ c = '\\'
    · have hescaped : isEscaped c = true := by simpa [isEscaped] using h
      rw [if_pos h, if_pos hescaped]
      rfl
    · have hescaped : ¬isEscaped c = true := by simpa [isEscaped] using h
      rw [if_neg h, if_neg hescaped]
      rfl

theorem eq_encodeBody_of_decodeBody {cs s rest : List Char}
    (h : decodeBody cs = some (s, rest)) : cs = encodeBody s ++ '"' :: rest := by
  fun_induction decodeBody cs generalizing s with
  | case1 => cases h
  | case2 rest' =>
    cases h
    rfl
  | case3 => cases h
  | case4 c cs hescaped ih =>
    obtain ⟨read, hread, heq⟩ := Option.map_eq_some_iff.mp h
    cases heq
    rw [ih hread, encodeBody, if_pos hescaped]
    rfl
  | case5 => cases h
  | case6 c cs hquote hbackslash ih =>
    obtain ⟨read, hread, heq⟩ := Option.map_eq_some_iff.mp h
    cases heq
    have hplain : ¬isEscaped c = true := by
      simp only [isEscaped, Bool.or_eq_true, beq_iff_eq]
      rintro (rfl | rfl)
      · exact hquote rfl
      · exact hbackslash rfl
    rw [ih hread, encodeBody, if_neg hplain]
    rfl

/-- A text and a rest are read from exactly the quoted form of the text in front of the rest. -/
theorem decode_eq_some_iff (cs s rest : List Char) :
    decode cs = some (s, rest) ↔ cs = encode s ++ rest := by
  constructor
  · intro h
    unfold decode at h
    split at h
    · next body => simp [eq_encodeBody_of_decodeBody h, encode]
    · cases h
  · rintro rfl
    exact decode_encode s rest

/-- How many backslashes stand at the end of a text. -/
def backslashesAtEnd (cs : List Char) : Nat := (cs.rtakeWhile (· == '\\')).length

/-- The text begins with a quote and ends at a later one that closes it: the backslashes in front of
that one are in pairs, so that none of them escapes it. -/
def EndsAtClosingQuote (cs : List Char) : Prop :=
  ∃ body, cs = '"' :: (body ++ ['"']) ∧ backslashesAtEnd body % 2 = 0

theorem backslashesAtEnd_append_backslash (cs : List Char) :
    backslashesAtEnd (cs ++ ['\\']) = backslashesAtEnd cs + 1 := by
  rw [backslashesAtEnd, List.rtakeWhile_concat_pos _ _ _ rfl, List.length_append]
  rfl

theorem backslashesAtEnd_append_of_ne {c : Char} (hc : c ≠ '\\') (cs : List Char) :
    backslashesAtEnd (cs ++ [c]) = 0 := by
  rw [backslashesAtEnd, List.rtakeWhile_concat_neg _ _ _ (by simpa using hc)]
  rfl

theorem encodeBody_append_singleton (s : List Char) (c : Char) :
    encodeBody (s ++ [c]) = encodeBody s ++ if c = '"' ∨ c = '\\' then ['\\', c] else [c] := by
  rw [encodeBody_eq_flatMap, encodeBody_eq_flatMap, List.flatMap_append, List.flatMap_singleton]

/-- At the end of a body the backslashes are in pairs. -/
theorem even_backslashesAtEnd_encodeBody (s : List Char) :
    backslashesAtEnd (encodeBody s) % 2 = 0 := by
  induction s using List.reverseRecOn with
  | nil => rfl
  | append_singleton s c ih =>
    rw [encodeBody_append_singleton]
    by_cases hbackslash : c = '\\'
    · subst hbackslash
      have hpair : encodeBody s ++ ['\\', '\\'] = encodeBody s ++ ['\\'] ++ ['\\'] := by simp
      rw [if_pos (Or.inr rfl), hpair, backslashesAtEnd_append_backslash,
        backslashesAtEnd_append_backslash]
      omega
    by_cases hquote : c = '"'
    · subst hquote
      have hpair : encodeBody s ++ ['\\', '"'] = encodeBody s ++ ['\\'] ++ ['"'] := by simp
      rw [if_pos (Or.inl rfl), hpair, backslashesAtEnd_append_of_ne hbackslash]
    · rw [if_neg (not_or.mpr ⟨hquote, hbackslash⟩), backslashesAtEnd_append_of_ne hbackslash]

/-- Inside a body each quote has a backslash in front of it, which no other escapes. -/
theorem exists_of_quote_in_encodeBody {body s : List Char} (h : body ++ ['"'] <+: encodeBody s) :
    ∃ t, body = encodeBody t ++ ['\\'] := by
  induction s generalizing body with
  | nil => simp [encodeBody] at h
  | cons c s ih =>
    by_cases hescaped : isEscaped c = true
    · rw [encodeBody, if_pos hescaped] at h
      cases body with
      | nil => simp at h
      | cons x body =>
        rw [List.cons_append, List.cons_prefix_cons] at h
        obtain ⟨rfl, hbehind⟩ := h
        cases body with
        | nil => exact ⟨[], rfl⟩
        | cons y body =>
          rw [List.cons_append, List.cons_prefix_cons] at hbehind
          obtain ⟨rfl, hrest⟩ := hbehind
          obtain ⟨t, rfl⟩ := ih hrest
          exact ⟨y :: t, by rw [encodeBody, if_pos hescaped]; rfl⟩
    · rw [encodeBody, if_neg hescaped] at h
      cases body with
      | nil =>
        rw [List.nil_append, List.cons_prefix_cons] at h
        obtain ⟨rfl, -⟩ := h
        exact absurd rfl hescaped
      | cons x body =>
        rw [List.cons_append, List.cons_prefix_cons] at h
        obtain ⟨rfl, hrest⟩ := h
        obtain ⟨t, rfl⟩ := ih hrest
        exact ⟨x :: t, by rw [encodeBody, if_neg hescaped]; rfl⟩

theorem endsAtClosingQuote_encode (s : List Char) : EndsAtClosingQuote (encode s) :=
  ⟨encodeBody s, rfl, even_backslashesAtEnd_encodeBody s⟩

/-- The quoted form of a text ends at the first quote that can close it. -/
theorem length_encode_le_of_endsAtClosingQuote {s rest cs : List Char}
    (hstart : cs <+: encode s ++ rest) (h : EndsAtClosingQuote cs) :
    (encode s).length ≤ cs.length := by
  obtain ⟨body, rfl, heven⟩ := h
  by_contra hshorter
  have hlength : (encode s).length = (encodeBody s).length + 2 := by simp [encode]
  have hbody : body ++ ['"'] <+: encodeBody s ++ ('"' :: rest) := by
    simpa [encode] using hstart
  have hinside : body ++ ['"'] <+: encodeBody s := by
    refine List.prefix_of_prefix_length_le hbody (List.prefix_append _ _) ?_
    simp only [List.length_cons, List.length_append, List.length_nil] at hshorter ⊢
    omega
  obtain ⟨t, rfl⟩ := exists_of_quote_in_encodeBody hinside
  have hpairs := even_backslashesAtEnd_encodeBody t
  rw [backslashesAtEnd_append_backslash] at heven
  omega

/-- The text up to the next quote or the end, if its backslashes stand before quotes and
backslashes. -/
def escaped? : List Char → Option (List Char × List Char)
  | [] => some ([], [])
  | '"' :: rest => some ([], '"' :: rest)
  | '\\' :: rest =>
    match rest with
    | [] => none
    | c :: rest => if isEscaped c then (escaped? rest).map fun r => (c :: r.1, r.2) else none
  | c :: rest => (escaped? rest).map fun r => (c :: r.1, r.2)

/-- Takes off a closing quote. -/
def close? : List Char × List Char → Option (List Char × List Char)
  | (s, '"' :: rest) => some (s, rest)
  | _ => none

theorem bind_close?_of_cons (c : Char) (read : Option (List Char × List Char)) :
    (read.map fun r => (c :: r.1, r.2)).bind close? =
      (read.bind close?).map fun r => (c :: r.1, r.2) := by
  cases read with
  | none => rfl
  | some r =>
    obtain ⟨s, rest⟩ := r
    simp only [Option.map_some, Option.bind_some]
    unfold close?
    split
    · next h =>
      cases h
      rfl
    · next h =>
      split
      · next h' =>
        cases h'
        exact absurd rfl (h _ _)
      · rfl

theorem decodeBody_eq_bind (cs : List Char) : decodeBody cs = (escaped? cs).bind close? := by
  fun_induction decodeBody cs with
  | case1 => rfl
  | case2 rest => rfl
  | case3 => rfl
  | case4 c cs hescaped ih =>
    have hread : escaped? ('\\' :: c :: cs) = (escaped? cs).map fun r => (c :: r.1, r.2) := by
      rw [escaped?, if_pos hescaped]
    rw [hread, bind_close?_of_cons, ← ih]
  | case5 c cs hescaped =>
    rw [escaped?, if_neg hescaped]
    rfl
  | case6 c cs hquote hbackslash ih =>
    have hread : escaped? (c :: cs) = (escaped? cs).map fun r => (c :: r.1, r.2) := by
      rw [escaped?]
      · exact hquote
      · exact hbackslash
    rw [hread, bind_close?_of_cons, ← ih]

/-- The reader by stages: an opening quote, a text with escapes or nothing, a closing quote. A bad
escape takes back all of the text, so that no closing quote is found in its place. -/
theorem decode_eq_close? (cs : List Char) :
    decode ('"' :: cs) = close? ((escaped? cs).getD ([], cs)) := by
  have hdecode : decode ('"' :: cs) = (escaped? cs).bind close? := decodeBody_eq_bind cs
  rw [hdecode]
  cases hescaped : escaped? cs with
  | some read => rfl
  | none =>
    have hnone : close? ([], cs) = none := by
      unfold close?
      split
      · next h =>
        cases h
        cases hescaped
      · rfl
    exact hnone.symm

example : decode ['"', 'a', '\\', 'x', '"', ' ', 'b'] = none := rfl

end CommandScript.Text.Quoted
