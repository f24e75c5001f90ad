import CommandScript.Text.Bytes
import Mathlib.Data.String.Basic

/-! Byte offsets into a text that lie between two of its characters, or at one of its ends. -/
namespace CommandScript.Text

theorem byteSize_toList (s : String) : byteSize s.toList = s.utf8ByteSize := by
  have hlen : ∀ cs : List Char, byteSize cs = String.utf8Len cs := by
    intro cs
    induction cs with
    | nil => rfl
    | cons c cs ih => rw [byteSize_cons, ih, String.utf8Len_cons, Nat.add_comm]
  rw [hlen, ← String.utf8ByteSize_ofList, String.ofList_toList]

theorem takeBytes?_eq_some_iff {n : Nat} {cs before : List Char} :
    takeBytes? n cs = some before ↔ (∃ behind, cs = before ++ behind) ∧ byteSize before = n := by
  constructor
  · intro h
    fun_induction takeBytes? n cs generalizing before with
    | case1 cs =>
      cases h
      exact ⟨⟨cs, rfl⟩, rfl⟩
    | case2 => cases h
    | case3 n c cs hfits ih =>
      obtain ⟨before, hbefore, rfl⟩ := Option.map_eq_some_iff.mp h
      obtain ⟨⟨behind, rfl⟩, hsize⟩ := ih hbefore
      refine ⟨⟨behind, rfl⟩, ?_⟩
      rw [byteSize_cons, hsize]
      omega
    | case4 => cases h
  · rintro ⟨⟨behind, rfl⟩, rfl⟩
    exact takeBytes?_append before behind

/-- The text from a byte offset on. There is none if the offset is past the end, or inside a
character. -/
def textFrom? (n : Nat) (cs : List Char) : Option (List Char) :=
  (takeBytes? n cs).map fun before => cs.drop before.length

theorem textFrom?_eq_some_iff {n : Nat} {cs rest : List Char} :
    textFrom? n cs = some rest ↔ ∃ before, cs = before ++ rest ∧ byteSize before = n := by
  rw [textFrom?, Option.map_eq_some_iff]
  simp only [takeBytes?_eq_some_iff]
  constructor
  · rintro ⟨before, ⟨⟨behind, rfl⟩, hsize⟩, rfl⟩
    exact ⟨before, by simp, hsize⟩
  · rintro ⟨before, rfl, hsize⟩
    exact ⟨before, ⟨⟨rest, rfl⟩, hsize⟩, by simp⟩

theorem textFrom?_zero (cs : List Char) : textFrom? 0 cs = some cs :=
  textFrom?_eq_some_iff.mpr ⟨[], rfl, rfl⟩

theorem textFrom?_add {n : Nat} {cs word rest : List Char}
    (h : textFrom? n cs = some (word ++ rest)) : textFrom? (n + byteSize word) cs = some rest := by
  obtain ⟨before, rfl, rfl⟩ := textFrom?_eq_some_iff.mp h
  exact textFrom?_eq_some_iff.mpr ⟨before ++ word, by simp, byteSize_append before word⟩

theorem eq_byteSize_iff_of_textFrom? {n : Nat} {cs rest : List Char}
    (h : textFrom? n cs = some rest) : n = byteSize cs ↔ rest = [] := by
  obtain ⟨before, rfl, rfl⟩ := textFrom?_eq_some_iff.mp h
  rw [byteSize_append, left_eq_add, byteSize_eq_zero]

theorem isValid_iff {s : String} {n : Nat} :
    String.Pos.Raw.IsValid s ⟨n⟩ ↔
      ∃ before behind, s = before ++ behind ∧ before.utf8ByteSize = n := by
  rw [String.Pos.Raw.isValid_iff_exists_append]
  simp only [String.Pos.Raw.ext_iff, String.byteIdx_rawEndPos, eq_comm (a := n)]

/-- There is a text from an offset on as often as the offset is a position in the text. -/
theorem isSome_textFrom?_iff (n : Nat) (s : String) :
    (textFrom? n s.toList).isSome = true ↔ String.Pos.Raw.IsValid s ⟨n⟩ := by
  simp only [isValid_iff, Option.isSome_iff_exists, textFrom?_eq_some_iff]
  constructor
  · rintro ⟨behind, before, hs, hsize⟩
    refine ⟨String.ofList before, String.ofList behind, ?_, ?_⟩
    · rw [← String.ofList_append, ← hs, String.ofList_toList]
    · rw [← byteSize_toList, String.toList_ofList, hsize]
  · rintro ⟨before, behind, rfl, hsize⟩
    exact ⟨behind.toList, before.toList, String.toList_append, by rw [byteSize_toList, hsize]⟩

end CommandScript.Text
