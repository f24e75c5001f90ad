import CommandScript.Proofs.Data.Atoms
import CommandScript.Proofs.Grammar.Matching
import CommandScript.Proofs.Text.Quotation

/-! Values that are written into a command and read there again: a string through its SNBT, and
numbers and words through the text that a placeholder is replaced with. -/
namespace CommandScript.Grammar
open Numeric Text

namespace Kind

theorem read_string_quote (body : List Char) :
    string.read ('"' :: body) =
      match Quoted.decode ('"' :: body) with
      | some (s, rest) => .ok (.string (String.ofList s), rest)
      | none => .error .invalidQuotedString := rfl

theorem read_string_of_head_ne {cs : List Char} (h : ∀ c ∈ cs.head?, c ≠ '"') :
    string.read cs = string.readWord cs := by
  unfold read
  split
  · next hkind => cases hkind
  · next hkind _ => cases hkind
  · exact absurd rfl (h '"' rfl)
  · rfl

/-- A word in front of its end is read as a whole. -/
theorem readWord_append (k : Kind) {word rest : List Char} (hne : word ≠ [])
    (hspace : ' ' ∉ word) (hrest : EndsWord rest) :
    k.readWord (word ++ rest) = (k.readToken word).map (·, rest) := by
  have hchars : ∀ c ∈ word, c ≠ ' ' := by
    rintro c hc rfl
    exact hspace hc
  obtain ⟨htake, hdrop⟩ := (splits_word_iff (word ++ rest) word rest).mpr ⟨rfl, hchars, hrest⟩
  have hempty : ¬word.isEmpty = true := by simpa using hne
  simp only [readWord, htake, hdrop, if_neg hempty]

/-- A text that begins with a quote is a quoted form and what follows, or it is refused. -/
theorem read_string_quote_cases (body : List Char) :
    (∃ s rest, '"' :: body = Quoted.encode s ++ rest ∧
      string.read ('"' :: body) = .ok (.string (String.ofList s), rest)) ∨
    (∀ s rest, '"' :: body ≠ Quoted.encode s ++ rest) ∧
      string.read ('"' :: body) = .error .invalidQuotedString := by
  rw [read_string_quote]
  cases hdecode : Quoted.decode ('"' :: body) with
  | some read =>
    obtain ⟨s, rest⟩ := read
    exact Or.inl ⟨s, rest, (Quoted.decode_eq_some_iff _ _ _).mp hdecode, rfl⟩
  | none =>
    refine Or.inr ⟨?_, rfl⟩
    intro s rest hquoted
    rw [(Quoted.decode_eq_some_iff _ _ _).mpr hquoted] at hdecode
    cases hdecode

theorem read_string_encode (s rest : List Char) :
    string.read (Quoted.encode s ++ rest) = .ok (.string (String.ofList s), rest) := by
  have hread := read_string_quote (Quoted.encodeBody s ++ ['"'] ++ rest)
  have hencode : '"' :: (Quoted.encodeBody s ++ ['"'] ++ rest) = Quoted.encode s ++ rest := rfl
  rw [hencode, Quoted.decode_encode] at hread
  exact hread

theorem read_integer_intChars (n : Int64) {rest : List Char} (hrest : EndsWord rest) :
    (integer .free).read (intChars n.toInt ++ rest) = .ok (.integer n, rest) := by
  have htext := integerText_intChars n
  have hne := (isNumeral_intChars n.toInt).ne_nil
  have hinteger := (readAll_readInteger_eq_some_iff _ n).mpr htext
  have hread : (integer .free).read (intChars n.toInt ++ rest) =
      (integer .free).readWord (intChars n.toInt ++ rest) := rfl
  rw [hread, readWord_append _ hne htext.space_not_mem hrest, readToken, hinteger]
  rfl

theorem read_float_chars {x : Binary64} (h : x.isFinite = true) {rest : List Char}
    (hrest : EndsWord rest) :
    (float .free).read (x.chars .plain ++ rest) = .ok (.float x, rest) := by
  have htext := floatText_chars h
  have hne := (isNumeral_chars h).ne_nil
  have hfloat := (readAll_readFloat_eq_some_iff _ x).mpr htext
  have hread : (float .free).read (x.chars .plain ++ rest) =
      (float .free).readWord (x.chars .plain ++ rest) := rfl
  rw [hread, readWord_append _ hne htext.space_not_mem hrest, readToken, hfloat]
  rfl

/-- A word is read back if it is one: it has characters, and no spaces. -/
theorem read_word_eq_ok_iff (s : String) {rest : List Char} (hrest : EndsWord rest) :
    word.read (s.toList ++ rest) = .ok (.word s, rest) ↔ s ≠ "" ∧ ' ' ∉ s.toList := by
  have hread : word.read (s.toList ++ rest) = word.readWord (s.toList ++ rest) := rfl
  rw [hread]
  constructor
  · intro h
    obtain ⟨hne, htoken, -⟩ := (readWord_eq_ok_iff word _ _ _).mp h
    have hs : String.ofList ((s.toList ++ rest).takeWhile isTokenChar) = s :=
      Argument.word.inj (Except.ok.inj htoken)
    have htake : (s.toList ++ rest).takeWhile isTokenChar = s.toList := by
      rw [← String.toList_ofList (l := (s.toList ++ rest).takeWhile isTokenChar), hs]
    obtain ⟨-, hchars, -⟩ := (splits_word_iff (s.toList ++ rest) _ _).mp ⟨htake, rfl⟩
    refine ⟨?_, fun hspace => hchars ' ' hspace rfl⟩
    rintro rfl
    exact hne htake
  · rintro ⟨hne, hspace⟩
    have hchars : s.toList ≠ [] := by simpa using hne
    rw [readWord_append word hchars hspace hrest, readToken, String.ofList_toList]
    rfl

/-- The SNBT of a string is read as that string, whether it is quoted or a plain word. -/
theorem read_string_snbt (s : String) {rest : List Char} (hrest : EndsWord rest) :
    string.read ((Value.string s).snbt.toList ++ rest) = .ok (.string s, rest) := by
  rw [Value.snbt, String.toList_ofList]
  by_cases hword : isPlainWord s.toList = true
  · have hrun := isRun_of_isPlainWord hword
    rw [Value.snbtChars_string_of_isPlainWord hword,
      read_string_of_head_ne (hrun.head_ne (c := '"') rfl rest),
      readWord_append string hrun.nonempty (hrun.not_mem (c := ' ') rfl) hrest,
      readToken, String.ofList_toList]
    rfl
  · rw [Value.snbtChars_string_of_not_isPlainWord hword, read_string_encode, String.ofList_toList]

/-- A string argument takes exactly the quoted forms of strings where a quote begins it, and the
written form of a string in front of the end of a word. -/
theorem read_string_inverts_quotation :
    (∀ s : List Char, Quoted.encode s =
      '"' :: (s.flatMap fun c => if c = '"' ∨ c = '\\' then ['\\', c] else [c]) ++ ['"']) ∧
    (∀ (s : String) (rest : List Char),
      string.read (Quoted.encode s.toList ++ rest) = .ok (.string s, rest)) ∧
    (∀ body : List Char,
      (∃ (s : String) (rest : List Char), '"' :: body = Quoted.encode s.toList ++ rest ∧
        string.read ('"' :: body) = .ok (.string s, rest)) ∨
      (∀ (s : String) (rest : List Char), '"' :: body ≠ Quoted.encode s.toList ++ rest) ∧
        string.read ('"' :: body) = .error .invalidQuotedString) ∧
    ∀ (s : String) (rest : List Char), EndsWord rest →
      string.read ((Value.string s).snbt.toList ++ rest) = .ok (.string s, rest) := by
  refine ⟨?_, ?_, ?_, fun s rest hrest => read_string_snbt s hrest⟩
  · intro s
    rw [Quoted.encode, Quoted.encodeBody_eq_flatMap]
  · intro s rest
    rw [read_string_encode, String.ofList_toList]
  · intro body
    rcases read_string_quote_cases body with ⟨s, rest, hbody, hread⟩ | ⟨hbody, hread⟩
    · refine Or.inl ⟨String.ofList s, rest, ?_, hread⟩
      rw [String.toList_ofList, hbody]
    · exact Or.inr ⟨fun s rest => hbody s.toList rest, hread⟩

/-- Quotes and backslashes in a string come back, and the rest of the line is left. -/
theorem read_string_inverts_quotation_greeting :
    let s := "say \"hi\"\\"
    let rest := " all".toList
    EndsWord rest ∧ string.read ((Value.string s).snbt.toList ++ rest) = .ok (.string s, rest) := by
  intro s rest
  have hrest : EndsWord rest := Or.inr ⟨"all".toList, rfl⟩
  exact ⟨hrest, read_string_inverts_quotation.2.2.2 s rest hrest⟩

/-- The text that a placeholder is replaced with is read as the value it came from: a number of each
integer type, a finite double, and a string if and only if it is a word. -/
theorem read_text_of_scalar :
    (∀ (n : Int8) (rest : List Char), EndsWord rest →
      (integer .free).read ((Value.byte n).text.toList ++ rest) =
        .ok (.integer n.toInt64, rest)) ∧
    (∀ (n : Int16) (rest : List Char), EndsWord rest →
      (integer .free).read ((Value.short n).text.toList ++ rest) =
        .ok (.integer n.toInt64, rest)) ∧
    (∀ (n : Int32) (rest : List Char), EndsWord rest →
      (integer .free).read ((Value.int n).text.toList ++ rest) =
        .ok (.integer n.toInt64, rest)) ∧
    (∀ (n : Int64) (rest : List Char), EndsWord rest →
      (integer .free).read ((Value.long n).text.toList ++ rest) = .ok (.integer n, rest)) ∧
    (∀ (x : Binary64) (rest : List Char), x.isFinite = true → EndsWord rest →
      (float .free).read ((Value.double x).text.toList ++ rest) = .ok (.float x, rest)) ∧
    ∀ (s : String) (rest : List Char), EndsWord rest →
      (word.read ((Value.string s).text.toList ++ rest) = .ok (.word s, rest) ↔
        s ≠ "" ∧ ' ' ∉ s.toList) := by
  have htext : ∀ i : Int, (intText i).toList = intChars i := fun i => String.toList_ofList
  refine ⟨?_, ?_, ?_, ?_, ?_, ?_⟩
  · intro n rest hrest
    rw [Value.text, htext, ← Int8.toInt_toInt64]
    exact read_integer_intChars n.toInt64 hrest
  · intro n rest hrest
    rw [Value.text, htext, ← Int16.toInt_toInt64]
    exact read_integer_intChars n.toInt64 hrest
  · intro n rest hrest
    rw [Value.text, htext, ← Int32.toInt_toInt64]
    exact read_integer_intChars n.toInt64 hrest
  · intro n rest hrest
    rw [Value.text, htext]
    exact read_integer_intChars n hrest
  · intro x rest hfinite hrest
    rw [Value.text, Binary.text, String.toList_ofList]
    exact read_float_chars hfinite hrest
  · intro s rest hrest
    exact read_word_eq_ok_iff s hrest

/-- Minus zero keeps its sign. -/
theorem read_text_of_scalar_minus_zero :
    let x : Binary64 := ⟨true, 0, by decide⟩
    let rest := " run".toList
    x.isFinite = true ∧ EndsWord rest ∧
      (float .free).read ((Value.double x).text.toList ++ rest) = .ok (.float x, rest) := by
  intro x rest
  have hfinite : x.isFinite = true := by decide
  have hrest : EndsWord rest := Or.inr ⟨"run".toList, rfl⟩
  exact ⟨hfinite, hrest, read_text_of_scalar.2.2.2.2.1 x rest hfinite hrest⟩

end Kind
end CommandScript.Grammar
