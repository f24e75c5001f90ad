import CommandScript.Grammar.Dispatch
import CommandScript.Proofs.Text.Runs
import Mathlib.Tactic.SplitIfs

/-! What it means that a list of elements matches a command line, apart from any search for the
match. -/
namespace CommandScript.Grammar

/-- A word ends in front of this text: it is empty, or begins with a space. -/
def EndsWord (rest : List Char) : Prop := rest = [] ∨ ∃ behind, rest = ' ' :: behind

/-- In front of `rest`, the element takes exactly the text `word`, and is read as `value`. A literal
takes a whole word and nothing else. -/
inductive Element.Takes : Element → List Char → List Char → Argument → Prop
  | literal {text : String} {rest : List Char} (noSpace : ∀ c ∈ text.toList, c ≠ ' ')
      (ends : EndsWord rest) : Takes (.literal text) text.toList rest (.literal text)
  | argument {name : String} {kind : Kind} {word rest : List Char} {value : Argument}
      (reads : kind.read (word ++ rest) = .ok (value, rest)) :
      Takes (.argument name kind) word rest value

/-- The elements, with one space between neighbours, take the whole of a text, and each is read as
the value of one node. -/
inductive Matches : List Element → List Char → List Node → Prop
  | last {e : Element} {word : List Char} {value : Argument} (takes : e.Takes word [] value) :
      Matches [e] word [⟨e.name, value⟩]
  | step {e : Element} {es : List Element} {word rest : List Char} {value : Argument}
      {nodes : List Node} (takes : e.Takes word (' ' :: rest) value)
      (others : Matches es rest nodes) :
      Matches (e :: es) (word ++ ' ' :: rest) (⟨e.name, value⟩ :: nodes)

/-- The usage that a line denotes matches the whole of an input. -/
def UsageMatches (line input : String) (nodes : List Node) : Prop :=
  ∃ u, Usage.parse line = .ok u ∧ Matches u.elements input.toList nodes

theorem endsWord_iff {rest : List Char} :
    EndsWord rest ↔ ∀ c ∈ rest.head?, isTokenChar c = false := by
  cases rest with
  | nil => simp [EndsWord]
  | cons c rest => simp [EndsWord, isTokenChar]

/-- A text splits in one way only into characters other than the space and a text in front of which
a word ends. -/
theorem splits_word_iff (cs word rest : List Char) :
    cs.takeWhile isTokenChar = word ∧ cs.dropWhile isTokenChar = rest ↔
      cs = word ++ rest ∧ (∀ c ∈ word, c ≠ ' ') ∧ EndsWord rest := by
  have hword : (∀ c ∈ word, c ≠ ' ') ↔ ∀ c ∈ word, isTokenChar c = true := by simp [isTokenChar]
  rw [hword, endsWord_iff]
  exact Text.splits_iff isTokenChar cs word rest

theorem suffix_of_decodeBody {cs s rest : List Char}
    (h : Text.Quoted.decodeBody cs = some (s, rest)) : rest <:+ cs := by
  fun_induction Text.Quoted.decodeBody cs generalizing s with
  | case1 => cases h
  | case2 body =>
    cases h
    exact List.suffix_cons _ _
  | case3 => cases h
  | case4 c cs hc ih =>
    obtain ⟨r, hr, he⟩ := Option.map_eq_some_iff.mp h
    cases he
    exact ((ih hr).trans (List.suffix_cons c cs)).trans (List.suffix_cons _ _)
  | case5 => cases h
  | case6 c cs _ _ ih =>
    obtain ⟨r, hr, he⟩ := Option.map_eq_some_iff.mp h
    cases he
    exact (ih hr).trans (List.suffix_cons c cs)

theorem Kind.readWord_eq_ok_iff (k : Kind) (cs rest : List Char) (value : Argument) :
    k.readWord cs = .ok (value, rest) ↔
      cs.takeWhile isTokenChar ≠ [] ∧ k.readToken (cs.takeWhile isTokenChar) = .ok value ∧
        cs.dropWhile isTokenChar = rest := by
  unfold Kind.readWord
  dsimp only
  cases hw : cs.takeWhile isTokenChar with
  | nil => simp
  | cons c word =>
    cases hv : k.readToken (c :: word) with
    | error fault => simp [Except.map]
    | ok v => simp [Except.map]

theorem Kind.suffix_of_read {k : Kind} {cs rest : List Char} {value : Argument}
    (h : k.read cs = .ok (value, rest)) : rest <:+ cs := by
  unfold Kind.read at h
  split at h
  · cases h
  · cases h
    exact List.nil_suffix
  · split at h
    · next hd =>
      cases h
      exact (suffix_of_decodeBody hd).trans (List.suffix_cons _ _)
    · cases h
  · obtain ⟨-, -, hrest⟩ := (k.readWord_eq_ok_iff _ _ _).mp h
    rw [← hrest]
    exact List.dropWhile_suffix _

/-- An element is read from a text as often as it takes the front of it. Whether it is the first
element matters for the error alone. -/
theorem Element.read_eq_ok_iff (e : Element) (first : Bool) (cs rest : List Char)
    (value : Argument) :
    e.read first cs = .ok (value, rest) ↔ ∃ word, cs = word ++ rest ∧ e.Takes word rest value := by
  cases e with
  | literal text =>
    simp only [Element.read]
    constructor
    · intro h
      split_ifs at h with hword
      cases h
      obtain ⟨hcs, hspace, hends⟩ := (splits_word_iff cs _ _).mp ⟨hword, rfl⟩
      exact ⟨text.toList, hcs, .literal hspace hends⟩
    · rintro ⟨word, hcs, htakes⟩
      cases htakes with
      | literal hspace hends =>
        obtain ⟨hword, hrest⟩ := (splits_word_iff cs _ _).mpr ⟨hcs, hspace, hends⟩
        rw [if_pos hword, hrest]
  | argument name kind =>
    simp only [Element.read]
    constructor
    · intro h
      obtain ⟨word, rfl⟩ := Kind.suffix_of_read h
      exact ⟨word, rfl, .argument h⟩
    · rintro ⟨word, rfl, htakes⟩
      cases htakes with
      | argument hreads => exact hreads

end CommandScript.Grammar
