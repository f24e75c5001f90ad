/-! UTF-8 sizes of text, and the text before a byte offset. -/
namespace CommandScript.Text

/-- The number of bytes a text takes in UTF-8. -/
def byteSize : List Char → Nat
  | [] => 0
  | c :: cs => c.utf8Size + byteSize cs

@[simp] theorem byteSize_nil : byteSize [] = 0 := rfl

@[simp] theorem byteSize_cons (c : Char) (cs : List Char) :
    byteSize (c :: cs) = c.utf8Size + byteSize cs := rfl

@[simp] theorem byteSize_append (a b : List Char) :
    byteSize (a ++ b) = byteSize a + byteSize b := by
  induction a with
  | nil => simp
  | cons c a ih => simp [ih, Nat.add_assoc]

theorem byteSize_eq_zero {cs : List Char} : byteSize cs = 0 ↔ cs = [] := by
  cases cs with
  | nil => simp
  | cons c cs =>
    have := c.utf8Size_pos
    simp
    omega

theorem byteSize_pos {cs : List Char} (h : cs ≠ []) : 0 < byteSize cs :=
  Nat.pos_of_ne_zero (mt byteSize_eq_zero.mp h)

theorem byteSize_append_sub (a b : List Char) :
    byteSize (a ++ b) - byteSize b = byteSize a := by
  rw [byteSize_append, Nat.add_sub_cancel]

/-- The first `n` bytes of a text, when they end between two characters. -/
def takeBytes? : Nat → List Char → Option (List Char)
  | 0, _ => some []
  | _ + 1, [] => none
  | n + 1, c :: cs =>
    if c.utf8Size ≤ n + 1 then (takeBytes? (n + 1 - c.utf8Size) cs).map (c :: ·) else none

theorem takeBytes?_append (a b : List Char) : takeBytes? (byteSize a) (a ++ b) = some a := by
  induction a with
  | nil => simp [takeBytes?]
  | cons c a ih =>
    have hc := c.utf8Size_pos
    obtain ⟨n, hn⟩ : ∃ n, byteSize (c :: a) = n + 1 := ⟨byteSize (c :: a) - 1, by simp; omega⟩
    have hle : c.utf8Size ≤ n + 1 := by simp at hn; omega
    have hsub : n + 1 - c.utf8Size = byteSize a := by simp at hn; omega
    rw [hn, List.cons_append, takeBytes?, if_pos hle, hsub, ih]
    rfl

end CommandScript.Text
