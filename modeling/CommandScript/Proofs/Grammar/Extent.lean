import CommandScript.Proofs.Grammar.Resource
import CommandScript.Proofs.Grammar.TypedWords

/-! How much of a text an argument takes up: all of it, or a quoted form at its start, or what is in
front of the first space; and never nothing. The kind of the argument decides between these, and
then what the part is read as. -/
namespace CommandScript.Grammar
open Identifier Numeric Text

namespace Kind

/-- An argument of a kind is read from `word` in front of `rest`, by one of three rules. -/
inductive Spans : Kind → List Char → List Char → Argument → Prop
  | greedy {word : List Char} (nonempty : word ≠ []) :
      Spans .greedy word [] (.string (String.ofList word))
  | quoted {s rest : List Char} :
      Spans .string (Quoted.encode s) rest (.string (String.ofList s))
  | plain {k : Kind} {word rest : List Char} {value : Argument} (bounded : k ≠ .greedy)
      (unquoted : k = .string → (word ++ rest).head? ≠ some '"') (nonempty : word ≠ [])
      (noSpace : ∀ c ∈ word, c ≠ ' ') (ends : EndsWord rest)
      (denotes : k.readToken word = .ok value) : Spans k word rest value

section
variable {k : Kind} {cs word rest : List Char} {value : Argument}

theorem read_eq_readWord (bounded : k ≠ .greedy) (unquoted : k = .string → cs.head? ≠ some '"') :
    k.read cs = k.readWord cs := by
  cases k with
  | greedy => exact absurd rfl bounded
  | string =>
    apply read_string_of_head_ne
    intro c hc heq
    exact unquoted rfl (heq ▸ hc)
  | word => rfl
  | integer bounds => rfl
  | float bounds => rfl
  | bool => rfl
  | resource => rfl

/-- What is read from a text is read from a part at its start, by one of the three rules. -/
theorem spans_of_read (h : k.read cs = .ok (value, rest)) :
    ∃ word, cs = word ++ rest ∧ k.Spans word rest value := by
  by_cases hgreedy : k = .greedy
  · subst hgreedy
    cases cs with
    | nil => cases h
    | cons c cs =>
      cases h
      exact ⟨c :: cs, (List.append_nil _).symm, .greedy (List.cons_ne_nil c cs)⟩
  by_cases hquoted : k = .string ∧ cs.head? = some '"'
  · obtain ⟨rfl, hquote⟩ := hquoted
    obtain ⟨body, rfl⟩ := List.head?_eq_some_iff.mp hquote
    rcases read_string_quote_cases body with ⟨s, behind, hbody, hread⟩ | ⟨-, hread⟩
    · rw [hread] at h
      cases h
      exact ⟨Quoted.encode s, hbody, .quoted⟩
    · rw [hread] at h
      cases h
  · have hunquoted : k = .string → cs.head? ≠ some '"' := fun hk hquote => hquoted ⟨hk, hquote⟩
    rw [read_eq_readWord hgreedy hunquoted] at h
    obtain ⟨hne, htoken, hrest⟩ := (k.readWord_eq_ok_iff cs rest value).mp h
    obtain ⟨hcs, hspace, hends⟩ := (splits_word_iff cs _ _).mp ⟨rfl, hrest⟩
    exact ⟨_, hcs, .plain hgreedy (hcs ▸ hunquoted) hne hspace hends htoken⟩

theorem Spans.ne_nil (h : k.Spans word rest value) : word ≠ [] := by
  cases h with
  | greedy nonempty => exact nonempty
  | quoted => exact List.cons_ne_nil _ _
  | plain bounded unquoted nonempty => exact nonempty

/-- A quoted form ends at the first quote that can close it. -/
theorem Spans.shortest_of_quote (h : string.Spans word rest value)
    (hquote : (word ++ rest).head? = some '"') :
    Quoted.EndsAtClosingQuote word ∧
      ∀ part, part <+: word ++ rest → Quoted.EndsAtClosingQuote part →
        word.length ≤ part.length := by
  cases h with
  | quoted =>
    refine ⟨Quoted.endsAtClosingQuote_encode _, ?_⟩
    intro part hpart hends
    exact Quoted.length_encode_le_of_endsAtClosingQuote hpart hends
  | plain bounded unquoted => exact absurd hquote (unquoted rfl)

/-- Where no rule of its own applies, the part goes up to the first space. -/
theorem Spans.upToSpace (h : k.Spans word rest value) (bounded : k ≠ .greedy)
    (unquoted : k = .string → (word ++ rest).head? ≠ some '"') :
    word = (word ++ rest).takeWhile (· != ' ') ∧ EndsWord rest := by
  cases h with
  | greedy => exact absurd rfl bounded
  | quoted => exact absurd rfl (unquoted rfl)
  | plain _ _ _ noSpace ends =>
    exact ⟨((splits_word_iff _ _ _).mpr ⟨rfl, noSpace, ends⟩).1.symm, ends⟩

end

/-- The values of a kind, whatever its bounds. -/
inductive HasValue : Kind → Argument → Prop
  | word (text : String) : HasValue .word (.word text)
  | string (text : String) : HasValue .string (.string text)
  | greedy (text : String) : HasValue .greedy (.string text)
  | integer (bounds : Bounds Int64) (n : Int64) : HasValue (.integer bounds) (.integer n)
  | float (bounds : Bounds Binary64) (x : Binary64) : HasValue (.float bounds) (.float x)
  | bool (b : Bool) : HasValue .bool (.bool b)
  | resource (space : Option String) (path : String) : HasValue .resource (.resource space path)

theorem hasValue_of_readToken {k : Kind} {word : List Char} {value : Argument}
    (h : k.readToken word = .ok value) : k.HasValue value := by
  have htyped : k.IsTyped → k.HasValue value := by
    intro typed
    have hjudged := judges_readToken typed word
    rw [h] at hjudged
    cases hjudged with
    | integer numeral judged =>
      cases judged with
      | within => exact .integer _ _
    | float numeral judged =>
      cases judged with
      | within => exact .float _ _
    | true => exact .bool true
    | false => exact .bool false
  cases k with
  | word =>
    cases h
    exact .word _
  | string =>
    cases h
    exact .string _
  | greedy =>
    cases h
    exact .greedy _
  | integer bounds => exact htyped (.integer bounds)
  | float bounds => exact htyped (.float bounds)
  | bool => exact htyped .bool
  | resource =>
    have hword : word = (String.ofList word).toList := String.toList_ofList.symm
    rw [hword] at h
    obtain ⟨space, path, -, rfl⟩ := (readToken_resource_eq_ok_iff _ value).mp h
    exact .resource space path

theorem Spans.hasValue {k : Kind} {word rest : List Char} {value : Argument}
    (h : k.Spans word rest value) : k.HasValue value := by
  cases h with
  | greedy => exact .greedy _
  | quoted => exact .string _
  | plain _ _ _ _ _ denotes => exact hasValue_of_readToken denotes

theorem Spans.text_of_word {k : Kind} {word rest : List Char} {text : String}
    (h : k.Spans word rest (.word text)) : text.toList = word := by
  have hkind := h.hasValue
  cases hkind
  cases h with
  | plain _ _ _ _ _ denotes =>
    cases denotes
    exact String.toList_ofList

theorem Spans.text_of_unquoted {word rest : List Char} {text : String}
    (h : string.Spans word rest (.string text)) (unquoted : (word ++ rest).head? ≠ some '"') :
    text.toList = word := by
  cases h with
  | quoted => exact absurd rfl unquoted
  | plain _ _ _ _ _ denotes =>
    cases denotes
    exact String.toList_ofList

theorem Spans.location {k : Kind} {word rest : List Char} {space : Option String} {path : String}
    (h : k.Spans word rest (.resource space path)) : Location (String.ofList word) space path := by
  have hkind := h.hasValue
  cases hkind
  cases h with
  | plain _ _ _ _ _ denotes =>
    have hword : word = (String.ofList word).toList := String.toList_ofList.symm
    rw [hword] at denotes
    obtain ⟨space', path', hlocation, hparts⟩ := (readToken_resource_eq_ok_iff _ _).mp denotes
    cases hparts
    exact hlocation

/-- An argument takes a part at the start of a text, which is never empty: for the greedy kind all
of the text, for a string in quotes what goes up to the first quote that no backslash escapes, and
otherwise, whatever the kind, what is in front of the first space. The value is one of the kind, and
where it keeps the text of a word, of an unquoted string or of a location, this is the part. -/
theorem extent_of_read {k : Kind} {cs rest : List Char} {value : Argument}
    (h : k.read cs = .ok (value, rest)) :
    ∃ word, cs = word ++ rest ∧ word ≠ [] ∧
      (k = .greedy → rest = [] ∧ value = .string (String.ofList cs)) ∧
      (k = .string → cs.head? = some '"' → Quoted.EndsAtClosingQuote word ∧
        ∀ part, part <+: cs → Quoted.EndsAtClosingQuote part → word.length ≤ part.length) ∧
      (k ≠ .greedy → (k = .string → cs.head? ≠ some '"') →
        word = cs.takeWhile (· != ' ') ∧ EndsWord rest) ∧
      k.HasValue value ∧
      (∀ text, value = .word text → text.toList = word) ∧
      (∀ text, k = .string → cs.head? ≠ some '"' → value = .string text → text.toList = word) ∧
      (∀ path, value = .resource none path → path.toList = word) ∧
      ∀ space path, value = .resource (some space) path → (join space path).toList = word := by
  obtain ⟨word, rfl, hspans⟩ := spans_of_read h
  refine ⟨word, rfl, hspans.ne_nil, ?_, ?_, hspans.upToSpace, hspans.hasValue, ?_, ?_, ?_, ?_⟩
  · rintro rfl
    cases hspans with
    | greedy nonempty => exact ⟨rfl, by rw [List.append_nil]⟩
    | plain bounded => exact absurd rfl bounded
  · rintro rfl hquote
    exact hspans.shortest_of_quote hquote
  · rintro text rfl
    exact hspans.text_of_word
  · rintro text rfl hunquoted rfl
    exact hspans.text_of_unquoted hunquoted
  · rintro path rfl
    have hlocation := hspans.location
    generalize hword : String.ofList word = s at hlocation
    cases hlocation with
    | bare => rw [← hword, String.toList_ofList]
  · rintro space path rfl
    have hlocation := hspans.location
    generalize hword : String.ofList word = s at hlocation
    cases hlocation with
    | qualified => rw [← hword, String.toList_ofList]

/-- The quote behind `hi` is escaped; the last one is not, as the backslash in front of it is itself
escaped. -/
theorem extent_of_read_backslashes :
    let cs := "\"say \\\"hi\\\\\" all".toList
    ∃ word, string.read cs = .ok (.string "say \"hi\\", " all".toList) ∧
      cs = word ++ " all".toList ∧ Quoted.EndsAtClosingQuote word ∧
      ∀ part, part <+: cs → Quoted.EndsAtClosingQuote part → word.length ≤ part.length := by
  intro cs
  have hread : string.read cs = .ok (.string "say \"hi\\", " all".toList) := by decide +kernel
  obtain ⟨word, hcs, -, -, hquoted, -⟩ := extent_of_read hread
  obtain ⟨hends, hshortest⟩ := hquoted rfl rfl
  exact ⟨word, hread, hcs, hends, hshortest⟩

end Kind
end CommandScript.Grammar
