import CommandScript.Proofs.Grammar.Rereading

/-! What a word is read as by the kinds with typed values: integers and decimal numbers, which may
have bounds, and truth values. -/
namespace CommandScript.Grammar
open Numeric

/-- The texts of an integer of any size: an optional minus sign, and digits. -/
inductive IntegerNumeral : List Char → Int → Prop
  | number {negative : Bool} {digits : List Char} (isDigits : IsDigits digits) :
      IntegerNumeral (signChars negative ++ digits) (signed negative (ofDigits digits))

theorem integerText_iff (word : List Char) (n : Int64) :
    IntegerText word n ↔ IntegerNumeral word n.toInt := by
  constructor
  · intro h
    cases h with
    | number isDigits value =>
      rw [value]
      exact .number isDigits
  · intro h
    generalize hvalue : n.toInt = i at h
    cases h with
    | number isDigits => exact .number isDigits hvalue

/-- No word is too long to be read: what it denotes is out of the range of 64 bits, or it denotes no
integer. -/
theorem readAll_readInteger_eq_none_iff (word : List Char) :
    readAll readInteger word = none ↔
      ∀ i, IntegerNumeral word i → i < -9223372036854775808 ∨ 9223372036854775807 < i := by
  constructor
  · intro hnone i hi
    by_contra hrange
    obtain ⟨hmin, hmax⟩ := not_or.mp hrange
    have hi' : IntegerText word (Int64.ofInt i) := by
      rwa [integerText_iff, Int64.toInt_ofInt_of_le (by omega) (by omega)]
    rw [(readAll_readInteger_eq_some_iff word _).mpr hi'] at hnone
    cases hnone
  · intro houtside
    cases hread : readAll readInteger word with
    | none => rfl
    | some n =>
      have hmin := n.le_toInt
      have hmax := n.toInt_lt
      have htext := (readAll_readInteger_eq_some_iff word n).mp hread
      have hn := houtside _ ((integerText_iff word n).mp htext)
      omega

namespace Bounds

variable {α : Type} {lt : α → α → Prop} {accept : α → Argument} {low high : α → α → Fault}

/-- What comes of a number under bounds: it is admitted, or it lies below the lower bound, or else
above the upper one. -/
inductive Judges (lt : α → α → Prop) (accept : α → Argument) (low high : α → α → Fault)
    (b : Bounds α) (x : α) : Except Fault Argument → Prop
  | within (notLow : ∀ min ∈ b.min, ¬lt x min) (notHigh : ∀ max ∈ b.max, ¬lt max x) :
      Judges lt accept low high b x (.ok (accept x))
  | tooLow {min : α} (isMin : b.min = some min) (below : lt x min) :
      Judges lt accept low high b x (.error (low x min))
  | tooHigh {max : α} (notLow : ∀ min ∈ b.min, ¬lt x min) (isMax : b.max = some max)
      (above : lt max x) : Judges lt accept low high b x (.error (high x max))

theorem Judges.unique {b : Bounds α} {x : α} {r r' : Except Fault Argument}
    (h : b.Judges lt accept low high x r) (h' : b.Judges lt accept low high x r') : r = r' := by
  cases h with
  | within notLow notHigh =>
    cases h' with
    | within => rfl
    | tooLow isMin below => exact absurd below (notLow _ isMin)
    | tooHigh _ isMax above => exact absurd above (notHigh _ isMax)
  | tooLow isMin below =>
    cases h' with
    | within notLow => exact absurd below (notLow _ isMin)
    | tooLow isMin' => rw [Option.some.inj (isMin.symm.trans isMin')]
    | tooHigh notLow => exact absurd below (notLow _ isMin)
  | tooHigh notLow isMax above =>
    cases h' with
    | within _ notHigh => exact absurd above (notHigh _ isMax)
    | tooLow isMin below => exact absurd below (notLow _ isMin)
    | tooHigh _ isMax' => rw [Option.some.inj (isMax.symm.trans isMax')]

abbrev JudgesInteger : Bounds Int64 → Int64 → Except Fault Argument → Prop :=
  Judges (· < ·) .integer .integerTooLow .integerTooHigh

abbrev JudgesFloat : Bounds Binary64 → Binary64 → Except Fault Argument → Prop :=
  Judges (fun x y => x.lt y = true) .float .floatTooLow .floatTooHigh

theorem judges_checkInteger (b : Bounds Int64) (n : Int64) :
    b.JudgesInteger n (b.checkInteger n) := by
  unfold checkInteger
  cases hmin : b.min.filter (n < ·) with
  | some min =>
    obtain ⟨isMin, below⟩ := Option.filter_eq_some_iff.mp hmin
    exact .tooLow isMin (of_decide_eq_true below)
  | none =>
    have notLow : ∀ min ∈ b.min, ¬n < min := by simpa using hmin
    cases hmax : b.max.filter (· < n) with
    | some max =>
      obtain ⟨isMax, above⟩ := Option.filter_eq_some_iff.mp hmax
      exact .tooHigh notLow isMax (of_decide_eq_true above)
    | none => exact .within notLow (by simpa using hmax)

theorem judges_checkFloat (b : Bounds Binary64) (x : Binary64) :
    b.JudgesFloat x (b.checkFloat x) := by
  unfold checkFloat
  cases hmin : b.min.filter x.lt with
  | some min =>
    obtain ⟨isMin, below⟩ := Option.filter_eq_some_iff.mp hmin
    exact .tooLow isMin below
  | none =>
    have notLow : ∀ min ∈ b.min, ¬x.lt min = true := by simpa using hmin
    cases hmax : b.max.filter (·.lt x) with
    | some max =>
      obtain ⟨isMax, above⟩ := Option.filter_eq_some_iff.mp hmax
      exact .tooHigh notLow isMax above
    | none => exact .within notLow (by simpa using hmax)

end Bounds

/-- The kinds whose values are not texts. -/
inductive Kind.IsTyped : Kind → Prop
  | integer (b : Bounds Int64) : IsTyped (.integer b)
  | float (b : Bounds Binary64) : IsTyped (.float b)
  | bool : IsTyped .bool

/-- What a word is to a typed kind: the text of one of its values, which bounds may refuse, or a
text that is refused as it stands. -/
inductive Kind.Judges : Kind → List Char → Except Fault Argument → Prop
  | integer {b : Bounds Int64} {word : List Char} {n : Int64} {r : Except Fault Argument}
      (numeral : IntegerNumeral word n.toInt) (judged : b.JudgesInteger n r) :
      Judges (.integer b) word r
  | invalidInteger {b : Bounds Int64} {word : List Char}
      (outside : ∀ i, IntegerNumeral word i →
        i < -9223372036854775808 ∨ 9223372036854775807 < i) :
      Judges (.integer b) word (.error (.invalidInteger (String.ofList word)))
  | float {b : Bounds Binary64} {word : List Char} {x : Binary64} {r : Except Fault Argument}
      (numeral : FloatText word x) (judged : b.JudgesFloat x r) : Judges (.float b) word r
  | invalidFloat {b : Bounds Binary64} {word : List Char} (noNumeral : ∀ x, ¬FloatText word x) :
      Judges (.float b) word (.error (.invalidFloat (String.ofList word)))
  | true : Judges .bool "true".toList (.ok (.bool true))
  | false : Judges .bool "false".toList (.ok (.bool false))
  | invalidBool {word : List Char} (notTrue : word ≠ "true".toList)
      (notFalse : word ≠ "false".toList) :
      Judges .bool word (.error (.invalidBool (String.ofList word)))

/-- What a kind makes of a word and the text behind it. Where there is no word, an argument is
missing. -/
inductive Kind.Answers (k : Kind) (word rest : List Char) :
    Except Fault (Argument × List Char) → Prop
  | missing (isNil : word = []) : Answers k word rest (.error (.expectedArgument k.description))
  | accepted {value : Argument} (nonempty : word ≠ []) (judged : k.Judges word (.ok value)) :
      Answers k word rest (.ok (value, rest))
  | refused {fault : Fault} (nonempty : word ≠ []) (judged : k.Judges word (.error fault)) :
      Answers k word rest (.error fault)

namespace Kind

theorem readToken_bool_of_ne {word : List Char} (hne : word ≠ "true".toList)
    (hne' : word ≠ "false".toList) :
    bool.readToken word = .error (.invalidBool (String.ofList word)) := by
  have htext : ∀ s : String, word ≠ s.toList → String.ofList word ≠ s := by
    rintro s h rfl
    exact h String.toList_ofList.symm
  rw [readToken]
  split
  · next heq => exact absurd heq (htext "true" hne)
  · next heq => exact absurd heq (htext "false" hne')
  · rfl

theorem judges_readToken {k : Kind} (typed : k.IsTyped) (word : List Char) :
    k.Judges word (k.readToken word) := by
  cases typed with
  | integer b =>
    rw [readToken]
    cases hread : readAll readInteger word with
    | some n =>
      have htext := (readAll_readInteger_eq_some_iff word n).mp hread
      exact .integer ((integerText_iff word n).mp htext) (b.judges_checkInteger n)
    | none => exact .invalidInteger ((readAll_readInteger_eq_none_iff word).mp hread)
  | float b =>
    rw [readToken]
    cases hread : readAll readFloat word with
    | some x =>
      exact .float ((readAll_readFloat_eq_some_iff word x).mp hread) (b.judges_checkFloat x)
    | none =>
      refine .invalidFloat ?_
      intro x hx
      rw [(readAll_readFloat_eq_some_iff word x).mpr hx] at hread
      cases hread
  | bool =>
    by_cases htrue : word = "true".toList
    · subst htrue
      exact .true
    by_cases hfalse : word = "false".toList
    · subst hfalse
      exact .false
    rw [readToken_bool_of_ne htrue hfalse]
    exact .invalidBool htrue hfalse

theorem readToken_of_judges {k : Kind} {word : List Char} {r : Except Fault Argument}
    (h : k.Judges word r) : k.readToken word = r := by
  cases h with
  | @integer b word n r numeral judged =>
    have htext := (integerText_iff word n).mpr numeral
    rw [readToken, (readAll_readInteger_eq_some_iff word n).mpr htext]
    exact (b.judges_checkInteger n).unique judged
  | invalidInteger outside =>
    rw [readToken, (readAll_readInteger_eq_none_iff word).mpr outside]
  | @float b word x r numeral judged =>
    rw [readToken, (readAll_readFloat_eq_some_iff word x).mpr numeral]
    exact (b.judges_checkFloat x).unique judged
  | invalidFloat noNumeral =>
    have hread : readAll readFloat word = none := by
      rw [Option.eq_none_iff_forall_ne_some]
      intro x hx
      exact noNumeral x ((readAll_readFloat_eq_some_iff word x).mp hx)
    rw [readToken, hread]
  | true => rfl
  | false => rfl
  | invalidBool notTrue notFalse => exact readToken_bool_of_ne notTrue notFalse

theorem readWord_nil (k : Kind) {rest : List Char} (hrest : EndsWord rest) :
    k.readWord rest = .error (.expectedArgument k.description) := by
  have hword := ((splits_word_iff rest [] rest).mpr ⟨rfl, nofun, hrest⟩).1
  simp [readWord, hword]

/-- What stands in front of a space, or at the end, is no argument, unless all of the text
counts. -/
theorem read_of_endsWord {k : Kind} (hk : k ≠ .greedy) {rest : List Char} (hrest : EndsWord rest) :
    k.read rest = .error (.expectedArgument k.description) := by
  rw [← k.readWord_nil hrest]
  unfold read
  split
  · exact absurd rfl hk
  · exact absurd rfl hk
  · rcases hrest with h | ⟨behind, h⟩
    · cases h
    · cases h
  · rfl

theorem IsTyped.read_append {k : Kind} (typed : k.IsTyped) {word rest : List Char}
    (hne : word ≠ []) (hspace : ' ' ∉ word) (hrest : EndsWord rest) :
    k.read (word ++ rest) = (k.readToken word).map (·, rest) := by
  have hread : k.read (word ++ rest) = k.readWord (word ++ rest) := by
    cases typed with
    | integer b => rfl
    | float b => rfl
    | bool => rfl
  rw [hread, k.readWord_append hne hspace hrest]

theorem IsTyped.ne_greedy {k : Kind} (typed : k.IsTyped) : k ≠ .greedy := by
  rintro rfl
  cases typed

theorem IsTyped.answers_read {k : Kind} (typed : k.IsTyped) {word rest : List Char}
    (hspace : ' ' ∉ word) (hrest : EndsWord rest) :
    k.Answers word rest (k.read (word ++ rest)) := by
  by_cases hne : word = []
  · subst hne
    rw [List.nil_append, read_of_endsWord typed.ne_greedy hrest]
    exact .missing rfl
  · have hjudged := judges_readToken typed word
    rw [typed.read_append hne hspace hrest]
    cases hread : k.readToken word with
    | ok value =>
      rw [hread] at hjudged
      exact .accepted hne hjudged
    | error fault =>
      rw [hread] at hjudged
      exact .refused hne hjudged

theorem IsTyped.read_of_answers {k : Kind} (typed : k.IsTyped) {word rest : List Char}
    {r : Except Fault (Argument × List Char)} (hspace : ' ' ∉ word) (hrest : EndsWord rest)
    (h : k.Answers word rest r) : k.read (word ++ rest) = r := by
  cases h with
  | missing isNil =>
    subst isNil
    rw [List.nil_append, read_of_endsWord typed.ne_greedy hrest]
  | accepted nonempty judged =>
    rw [typed.read_append nonempty hspace hrest, readToken_of_judges judged]
    rfl
  | refused nonempty judged =>
    rw [typed.read_append nonempty hspace hrest, readToken_of_judges judged]
    rfl

/-- A typed kind takes exactly the texts of its values, within its bounds, and each other word has
an error of its own. No kind but the greedy one takes an empty word. -/
theorem read_eq_iff_answers {word rest : List Char} (hspace : ' ' ∉ word)
    (hrest : EndsWord rest) :
    (∀ k : Kind, k.IsTyped → ∀ r, k.read (word ++ rest) = r ↔ k.Answers word rest r) ∧
      ∀ k : Kind, word = [] → k ≠ .greedy →
        k.read (word ++ rest) = .error (.expectedArgument k.description) := by
  refine ⟨?_, ?_⟩
  · intro k typed r
    constructor
    · rintro rfl
      exact typed.answers_read hspace hrest
    · exact typed.read_of_answers hspace hrest
  · intro k hnil hk
    subst hnil
    exact read_of_endsWord hk hrest

/-- Leading zeros do not count, and an integer above its upper bound is refused as such. -/
theorem read_eq_iff_answers_too_high :
    let k := integer ⟨some (-5), some 10⟩
    let word := "0011".toList
    let rest := " run".toList
    ' ' ∉ word ∧ EndsWord rest ∧ k.IsTyped ∧
      k.read (word ++ rest) = .error (.integerTooHigh 11 10) := by
  intro k word rest
  have hspace : ' ' ∉ word := by decide
  have hrest : EndsWord rest := .inr ⟨"run".toList, rfl⟩
  have typed : k.IsTyped := .integer _
  have hdigits : IsDigits word := Text.isRun_iff.mp (by decide)
  have hvalue : signed false (ofDigits word) = (11 : Int64).toInt := by decide
  have numeral : IntegerNumeral word (11 : Int64).toInt := by
    have hnumeral : IntegerNumeral (signChars false ++ word) (signed false (ofDigits word)) :=
      .number hdigits
    rwa [hvalue] at hnumeral
  have notLow : ∀ min ∈ some (-5 : Int64), ¬(11 : Int64) < min := by
    rintro min hmin
    cases hmin
    decide
  have judged : k.Judges word (.error (.integerTooHigh 11 10)) :=
    .integer numeral (.tooHigh notLow rfl (by decide))
  have hanswers : k.Answers word rest (.error (.integerTooHigh 11 10)) :=
    .refused (by decide) judged
  exact ⟨hspace, hrest, typed, ((read_eq_iff_answers hspace hrest).1 k typed _).mpr hanswers⟩

end Kind
end CommandScript.Grammar
