import Mathlib.Logic.Function.Basic
import Mathlib.Tactic.SplitIfs
import CommandScript.Identifier
import CommandScript.Proofs.Text.Runs

/-! Identifiers and their texts. Each text stands for one identifier at most, whatever the usual
namespace is, and what is wrong with a text that stands for none depends on its two parts. -/
namespace CommandScript.Identifier

theorem toList_join (space path : String) :
    (join space path).toList = space.toList ++ ':' :: path.toList := by
  simp [join]

theorem IsOver.not_mem {p : Char → Bool} {s : String} (h : IsOver p s) {c : Char}
    (hc : p c = false) : c ∉ s.toList := by
  intro hmem
  rw [h.2 c hmem] at hc
  cases hc

theorem foreign?_eq_none_iff {p : Char → Bool} {s : String} :
    foreign? p s = none ↔ ∀ c ∈ s.toList, p c = true := by
  simp [foreign?, List.find?_eq_none]

theorem ofParts_eq_ok_iff {space path : String} {id : Identifier} :
    ofParts space path = .ok id ↔
      IsOver isSpaceChar space ∧ IsOver isPathChar path ∧ id.space = space ∧ id.path = path := by
  constructor
  · intro h
    unfold ofParts at h
    dsimp only at h
    split_ifs at h
    split at h
    · cases h
    · cases h
    · next hs hp =>
      cases h
      exact ⟨isOver_of_foreign?_eq_none ‹_› hs, isOver_of_foreign?_eq_none ‹_› hp, rfl, rfl⟩
  · rintro ⟨hspace, hpath, rfl, rfl⟩
    have hs := foreign?_eq_none_iff.mpr hspace.2
    have hp := foreign?_eq_none_iff.mpr hpath.2
    unfold ofParts
    dsimp only
    rw [dif_neg hspace.1, dif_neg hpath.1]
    split
    · next hc =>
      rw [hs] at hc
      cases hc
    · next hc =>
      rw [hp] at hc
      cases hc
    · rfl

theorem parseWithDefault_of_no_colon {s : String} (h : ':' ∉ s.toList) (default : String) :
    parseWithDefault s default = ofParts default s := by
  have hrest : s.toList.dropWhile (· != ':') = [] := by
    rw [List.dropWhile_eq_nil_iff]
    intro c hc
    simpa using fun heq : c = ':' => h (heq ▸ hc)
  unfold parseWithDefault
  rw [hrest]

/-- The first colon ends the namespace. -/
theorem parseWithDefault_of_colon {s : String} {space path : List Char}
    (hs : s.toList = space ++ ':' :: path) (hspace : ':' ∉ space) (default : String) :
    parseWithDefault s default = ofParts (String.ofList space) (String.ofList path) := by
  have hall : ∀ c ∈ space, (c != ':') = true := by
    intro c hc
    simpa using fun heq : c = ':' => hspace (heq ▸ hc)
  obtain ⟨hbefore, hrest⟩ := (Text.splits_iff (· != ':') s.toList space (':' :: path)).mpr
    ⟨hs, hall, by simp⟩
  unfold parseWithDefault
  rw [hrest]
  dsimp only
  rw [hbefore]

theorem parseWithDefault_join {space : String} (h : ':' ∉ space.toList) (path default : String) :
    parseWithDefault (join space path) default = ofParts space path := by
  rw [parseWithDefault_of_colon (toList_join space path) h, String.ofList_toList,
    String.ofList_toList]

/-- The text of an identifier reads back, whatever the usual namespace. -/
theorem parseWithDefault_text (id : Identifier) (default : String) :
    parseWithDefault id.text default = .ok id := by
  have hcolon : ':' ∉ id.space.toList := id.space_isOver.not_mem (by decide)
  rw [text, parseWithDefault_join hcolon]
  exact ofParts_eq_ok_iff.mpr ⟨id.space_isOver, id.path_isOver, rfl, rfl⟩

theorem text_injective : Function.Injective text := by
  intro id id' h
  have hid := parseWithDefault_text id defaultSpace
  rw [h, parseWithDefault_text id' defaultSpace] at hid
  exact (Except.ok.inj hid).symm

/-- A small letter, a digit, or one of three marks. -/
def InSpaceAlphabet (c : Char) : Prop :=
  ('a' ≤ c ∧ c ≤ 'z') ∨ ('0' ≤ c ∧ c ≤ '9') ∨ c = '_' ∨ c = '-' ∨ c = '.'

def InPathAlphabet (c : Char) : Prop := InSpaceAlphabet c ∨ c = '/'

/-- A text with at least one character, and all of its characters from an alphabet. -/
structure Spells (alphabet : Char → Prop) (s : String) : Prop where
  nonempty : s ≠ ""
  all : ∀ c ∈ s.toList, alphabet c

/-- The first character of a text that is not in an alphabet. -/
def FirstForeign (alphabet : Char → Prop) (s : String) (c : Char) : Prop :=
  ∃ before behind, s.toList = before ++ c :: behind ∧ (∀ b ∈ before, alphabet b) ∧ ¬alphabet c

/-- The namespace and the path that a text names. They stand in front of its first colon and behind
it; a text without a colon is a path in the namespace `default`. -/
inductive Names (default : String) : String → String → String → Prop
  | bare {s : String} (noColon : ':' ∉ s.toList) : Names default s default s
  | qualified {space path : String} (first : ':' ∉ space.toList) :
      Names default (space ++ ":" ++ path) space path

/-- What comes of a namespace and a path. Empty parts are found before foreign characters, and what
is wrong with the namespace before what is wrong with the path. -/
inductive Judges (space path : String) : Except IdentifierError Identifier → Prop
  | accepted {id : Identifier} (spaceFits : Spells InSpaceAlphabet space)
      (pathFits : Spells InPathAlphabet path) (isSpace : id.space = space)
      (isPath : id.path = path) : Judges space path (.ok id)
  | emptySpace (empty : space = "") :
      Judges space path (.error (.emptyNamespace (space ++ ":" ++ path)))
  | emptyPath (spaceSome : space ≠ "") (empty : path = "") :
      Judges space path (.error (.emptyPath (space ++ ":" ++ path)))
  | foreignInSpace {c : Char} (spaceSome : space ≠ "") (pathSome : path ≠ "")
      (first : FirstForeign InSpaceAlphabet space c) :
      Judges space path (.error (.invalidNamespaceChar (space ++ ":" ++ path) c))
  | foreignInPath {c : Char} (spaceFits : Spells InSpaceAlphabet space) (pathSome : path ≠ "")
      (first : FirstForeign InPathAlphabet path c) :
      Judges space path (.error (.invalidPathChar (space ++ ":" ++ path) c))

theorem isSpaceChar_iff (c : Char) : isSpaceChar c = true ↔ InSpaceAlphabet c := by
  simp only [isSpaceChar, Bool.or_eq_true, beq_iff_eq, Text.isLower_iff, Text.isDigit_iff, or_assoc,
    InSpaceAlphabet]

theorem isPathChar_iff (c : Char) : isPathChar c = true ↔ InPathAlphabet c := by
  rw [isPathChar, InPathAlphabet, Bool.or_eq_true, isSpaceChar_iff, beq_iff_eq]

section
variable {p : Char → Bool} {alphabet : Char → Prop} (hp : ∀ c, p c = true ↔ alphabet c)
include hp

theorem isOver_iff_spells (s : String) : IsOver p s ↔ Spells alphabet s := by
  simp only [IsOver, hp, ne_eq, String.toList_eq_nil_iff]
  exact ⟨fun h => ⟨h.1, h.2⟩, fun h => ⟨h.nonempty, h.all⟩⟩

theorem foreign?_eq_some_iff (s : String) (c : Char) :
    foreign? p s = some c ↔ FirstForeign alphabet s c := by
  have hnot : ∀ c, (!p c) = true ↔ ¬alphabet c := fun c => by
    rw [← hp c, Bool.not_eq_true', Bool.not_eq_true]
  simp only [foreign?, List.find?_eq_some_iff_append, Bool.not_not, hp, hnot, FirstForeign]
  constructor
  · rintro ⟨hc, before, behind, hs, hbefore⟩
    exact ⟨before, behind, hs, hbefore, hc⟩
  · rintro ⟨before, behind, hs, hbefore, hc⟩
    exact ⟨hc, before, behind, hs, hbefore⟩

theorem spells_of_foreign?_eq_none {s : String} (hs : s ≠ "") (h : foreign? p s = none) :
    Spells alphabet s :=
  ⟨hs, fun c hc => (hp c).mp (foreign?_eq_none_iff.mp h c hc)⟩

theorem Spells.foreign?_eq_none {s : String} (h : Spells alphabet s) : foreign? p s = none :=
  foreign?_eq_none_iff.mpr fun c hc => (hp c).mpr (h.all c hc)

end

/-- What a namespace and a path come to is judged by the two texts alone. -/
theorem judges_ofParts (space path : String) : Judges space path (ofParts space path) := by
  unfold ofParts
  dsimp only
  split_ifs with hs hp
  · exact .emptySpace (String.toList_eq_nil_iff.mp hs)
  · exact .emptyPath (mt String.toList_eq_nil_iff.mpr hs) (String.toList_eq_nil_iff.mp hp)
  · have hspace : space ≠ "" := mt String.toList_eq_nil_iff.mpr hs
    have hpath : path ≠ "" := mt String.toList_eq_nil_iff.mpr hp
    split
    · next hc =>
      exact .foreignInSpace hspace hpath ((foreign?_eq_some_iff isSpaceChar_iff _ _).mp hc)
    · next hnone hc =>
      exact .foreignInPath (spells_of_foreign?_eq_none isSpaceChar_iff hspace hnone) hpath
        ((foreign?_eq_some_iff isPathChar_iff _ _).mp hc)
    · next hspaceNone hpathNone =>
      exact .accepted (spells_of_foreign?_eq_none isSpaceChar_iff hspace hspaceNone)
        (spells_of_foreign?_eq_none isPathChar_iff hpath hpathNone) rfl rfl

theorem ofParts_of_judges {space path : String} {r : Except IdentifierError Identifier}
    (h : Judges space path r) : ofParts space path = r := by
  cases h with
  | accepted spaceFits pathFits isSpace isPath =>
    exact ofParts_eq_ok_iff.mpr ⟨(isOver_iff_spells isSpaceChar_iff _).mpr spaceFits,
      (isOver_iff_spells isPathChar_iff _).mpr pathFits, isSpace, isPath⟩
  | emptySpace empty => rw [ofParts, dif_pos (String.toList_eq_nil_iff.mpr empty), join]
  | emptyPath spaceSome empty =>
    rw [ofParts, dif_neg (mt String.toList_eq_nil_iff.mp spaceSome),
      dif_pos (String.toList_eq_nil_iff.mpr empty), join]
  | foreignInSpace spaceSome pathSome first =>
    have hforeign := (foreign?_eq_some_iff isSpaceChar_iff _ _).mpr first
    rw [ofParts, dif_neg (mt String.toList_eq_nil_iff.mp spaceSome),
      dif_neg (mt String.toList_eq_nil_iff.mp pathSome)]
    split
    · next hc =>
      rw [hforeign] at hc
      cases hc
      rfl
    · next hnone _ =>
      rw [hforeign] at hnone
      cases hnone
    · next hnone _ =>
      rw [hforeign] at hnone
      cases hnone
  | foreignInPath spaceFits pathSome first =>
    have hnone := spaceFits.foreign?_eq_none isSpaceChar_iff
    have hforeign := (foreign?_eq_some_iff isPathChar_iff _ _).mpr first
    rw [ofParts, dif_neg (mt String.toList_eq_nil_iff.mp spaceFits.nonempty),
      dif_neg (mt String.toList_eq_nil_iff.mp pathSome)]
    split
    · next hc =>
      rw [hnone] at hc
      cases hc
    · next hc =>
      rw [hforeign] at hc
      cases hc
      rfl
    · next hc =>
      rw [hforeign] at hc
      cases hc

theorem ofParts_eq_iff_judges {space path : String} {r : Except IdentifierError Identifier} :
    ofParts space path = r ↔ Judges space path r :=
  ⟨fun h => h ▸ judges_ofParts space path, ofParts_of_judges⟩

theorem Names.parseWithDefault {default s space path : String} (h : Names default s space path) :
    Identifier.parseWithDefault s default = ofParts space path := by
  cases h with
  | bare noColon => exact parseWithDefault_of_no_colon noColon default
  | qualified first => exact parseWithDefault_join first path default

theorem exists_names (default s : String) : ∃ space path, Names default s space path := by
  by_cases hcolon : ':' ∈ s.toList
  · obtain ⟨space, path, hs, hspace⟩ := List.eq_append_cons_of_mem hcolon
    have hjoin : s = String.ofList space ++ ":" ++ String.ofList path := by
      apply String.toList_inj.mp
      simp [hs]
    rw [hjoin]
    exact ⟨_, _, .qualified (by rwa [String.toList_ofList])⟩
  · exact ⟨default, s, .bare hcolon⟩

theorem exists_judges_ok_iff {space path : String} :
    (∃ id, Judges space path (.ok id)) ↔
      Spells InSpaceAlphabet space ∧ Spells InPathAlphabet path := by
  constructor
  · rintro ⟨id, hid⟩
    cases hid with
    | accepted spaceFits pathFits => exact ⟨spaceFits, pathFits⟩
  · rintro ⟨hspace, hpath⟩
    exact ⟨⟨space, path, (isOver_iff_spells isSpaceChar_iff _).mpr hspace,
      (isOver_iff_spells isPathChar_iff _).mpr hpath⟩, .accepted hspace hpath rfl rfl⟩

/-- The text of an identifier reads back as this identifier in front of any usual namespace, and as
no other. A text is an identifier if both of the parts that it names are spelled right; otherwise
the first fault of the parts is reported, with the full text. -/
theorem parseWithDefault_canonical :
    (∀ (id : Identifier) (default : String), parseWithDefault id.text default = .ok id) ∧
    Function.Injective text ∧
    ∀ s default : String, ∃ space path, Names default s space path ∧
      ((∃ id, parseWithDefault s default = .ok id) ↔
        Spells InSpaceAlphabet space ∧ Spells InPathAlphabet path) ∧
      ∀ r, parseWithDefault s default = r ↔ Judges space path r := by
  refine ⟨parseWithDefault_text, text_injective, ?_⟩
  intro s default
  obtain ⟨space, path, hnames⟩ := exists_names default s
  have hparse : ∀ r, parseWithDefault s default = r ↔ Judges space path r := by
    intro r
    rw [hnames.parseWithDefault]
    exact ofParts_eq_iff_judges
  refine ⟨space, path, hnames, ?_, hparse⟩
  simp only [hparse]
  exact exists_judges_ok_iff

end CommandScript.Identifier
