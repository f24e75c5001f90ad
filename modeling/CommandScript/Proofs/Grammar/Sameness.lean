import CommandScript.Proofs.Grammar.Matching
import Mathlib.Data.List.Forall2

/-! Elements that count as the same in a tree match the same texts, and each element of a usage line
counts as the same as itself. -/
namespace CommandScript.Numeric.Binary

variable {f : Format}

theorem numEq_iff (x y : Binary f) :
    x.numEq y = true ↔ x.isNaN = false ∧ y.isNaN = false ∧ x.place = y.place := by
  simp [numEq, and_assoc]

theorem numEq_symm {x y : Binary f} (h : x.numEq y = true) : y.numEq x = true := by
  obtain ⟨hx, hy, hplace⟩ := (numEq_iff x y).mp h
  exact (numEq_iff y x).mpr ⟨hy, hx, hplace.symm⟩

theorem numEq_trans {x y z : Binary f} (h : x.numEq y = true) (h' : y.numEq z = true) :
    x.numEq z = true := by
  obtain ⟨hx, -, hxy⟩ := (numEq_iff x y).mp h
  obtain ⟨-, hz, hyz⟩ := (numEq_iff y z).mp h'
  exact (numEq_iff x z).mpr ⟨hx, hz, hxy.trans hyz⟩

theorem lt_right_of_numEq {x y : Binary f} (h : x.numEq y = true) (z : Binary f) :
    z.lt x = z.lt y := by
  obtain ⟨hx, hy, hplace⟩ := (numEq_iff x y).mp h
  simp only [lt, hx, hy, hplace]

theorem lt_left_of_numEq {x y : Binary f} (h : x.numEq y = true) (z : Binary f) :
    x.lt z = y.lt z := by
  obtain ⟨hx, hy, hplace⟩ := (numEq_iff x y).mp h
  simp only [lt, hx, hy, hplace]

theorem isNaN_ofRatio (f : Format) (negative : Bool) (n d : Nat) :
    (ofRatio f negative n d).isNaN = false := by
  have hle : nearest f n d ≤ f.infinity := Nat.min_le_right _ _
  exact decide_eq_false (Nat.not_lt.mpr hle)

theorem numEq_self_ofRatio (f : Format) (negative : Bool) (n d : Nat) :
    (ofRatio f negative n d).numEq (ofRatio f negative n d) = true :=
  (numEq_iff _ _).mpr ⟨isNaN_ofRatio f negative n d, isNaN_ofRatio f negative n d, rfl⟩

end CommandScript.Numeric.Binary

namespace CommandScript.Grammar
open Numeric

theorem Bounds.checkFloat_eq_ok_iff (b : Bounds Binary64) (x : Binary64) (value : Argument) :
    b.checkFloat x = .ok value ↔
      b.min.filter x.lt = none ∧ b.max.filter (·.lt x) = none ∧ Argument.float x = value := by
  unfold Bounds.checkFloat
  cases b.min.filter x.lt with
  | some min => simp
  | none =>
    cases b.max.filter (·.lt x) with
    | some max => simp
    | none => simp

/-- Bounds count as the same if they are given on the same sides and are equal there. -/
theorem Bounds.same_iff {α : Type} (eq : α → α → Bool) (a b : Bounds α) :
    a.same eq b = true ↔
      Option.Rel (fun x y => eq x y = true) a.min b.min ∧
        Option.Rel (fun x y => eq x y = true) a.max b.max := by
  rcases a with ⟨_ | _, _ | _⟩ <;> rcases b with ⟨_ | _, _ | _⟩ <;> simp [same]

theorem Bounds.same_symm {a b : Bounds Binary64} (h : a.same Binary.numEq b = true) :
    b.same Binary.numEq a = true := by
  have hsymm : ∀ {u v : Option Binary64}, Option.Rel (fun x y => Binary.numEq x y = true) u v →
      Option.Rel (fun x y => Binary.numEq x y = true) v u := by
    intro u v huv
    cases huv with
    | none => exact .none
    | some hxy => exact .some (Binary.numEq_symm hxy)
  obtain ⟨hmin, hmax⟩ := (same_iff _ a b).mp h
  exact (same_iff _ b a).mpr ⟨hsymm hmin, hsymm hmax⟩

theorem Bounds.same_trans {a b c : Bounds Binary64} (h : a.same Binary.numEq b = true)
    (h' : b.same Binary.numEq c = true) : a.same Binary.numEq c = true := by
  have htrans : ∀ {u v w : Option Binary64}, Option.Rel (fun x y => Binary.numEq x y = true) u v →
      Option.Rel (fun x y => Binary.numEq x y = true) v w →
      Option.Rel (fun x y => Binary.numEq x y = true) u w := by
    intro u v w huv hvw
    cases huv with
    | none => exact hvw
    | some hxy =>
      cases hvw with
      | some hyz => exact .some (Binary.numEq_trans hxy hyz)
  obtain ⟨hmin, hmax⟩ := (same_iff _ a b).mp h
  obtain ⟨hmin', hmax'⟩ := (same_iff _ b c).mp h'
  exact (same_iff _ a c).mpr ⟨htrans hmin hmin', htrans hmax hmax'⟩

private theorem filter_lt_of_rel {a b : Option Binary64}
    (h : Option.Rel (fun x y => Binary.numEq x y = true) a b) (z : Binary64) :
    (a.filter z.lt = none ↔ b.filter z.lt = none) ∧
      (a.filter (·.lt z) = none ↔ b.filter (·.lt z) = none) := by
  cases h with
  | none => exact ⟨Iff.rfl, Iff.rfl⟩
  | some hxy =>
    simp [Option.filter_some, Binary.lt_right_of_numEq hxy z, Binary.lt_left_of_numEq hxy z]

theorem Bounds.checkFloat_of_same {a b : Bounds Binary64} (h : a.same Binary.numEq b = true)
    (x : Binary64) (value : Argument) :
    a.checkFloat x = .ok value ↔ b.checkFloat x = .ok value := by
  obtain ⟨hmin, hmax⟩ := (same_iff _ a b).mp h
  rw [checkFloat_eq_ok_iff, checkFloat_eq_ok_iff, (filter_lt_of_rel hmin x).1,
    (filter_lt_of_rel hmax x).2]

namespace Kind

/-- Kinds that count as the same differ at most in bounds that are equal as numbers. -/
theorem eq_or_floats_of_same {j k : Kind} (h : j.same k = true) :
    j = k ∨ ∃ a b, j = float a ∧ k = float b ∧ a.same Binary.numEq b = true := by
  unfold same at h
  split at h
  · exact Or.inr ⟨_, _, rfl, rfl, h⟩
  · exact Or.inl (of_decide_eq_true h)

theorem same_symm {j k : Kind} (h : j.same k = true) : k.same j = true := by
  rcases eq_or_floats_of_same h with rfl | ⟨a, b, rfl, rfl, hab⟩
  · exact h
  · exact Bounds.same_symm hab

theorem same_trans {i j k : Kind} (h : i.same j = true) (h' : j.same k = true) :
    i.same k = true := by
  rcases eq_or_floats_of_same h with rfl | ⟨a, b, rfl, rfl, hab⟩
  · exact h'
  · rcases eq_or_floats_of_same h' with rfl | ⟨b', c, hb, rfl, hbc⟩
    · exact h
    · cases hb
      exact Bounds.same_trans hab hbc

theorem readToken_float_of_same {a b : Bounds Binary64} (h : a.same Binary.numEq b = true)
    (token : List Char) (value : Argument) :
    (float a).readToken token = .ok value ↔ (float b).readToken token = .ok value := by
  simp only [readToken]
  cases readAll readFloat token with
  | none => simp
  | some x => exact Bounds.checkFloat_of_same h x value

/-- Kinds that count as the same read the same texts, as the same values. -/
theorem read_of_same {j k : Kind} (h : j.same k = true) (cs rest : List Char)
    (value : Argument) : j.read cs = .ok (value, rest) ↔ k.read cs = .ok (value, rest) := by
  rcases eq_or_floats_of_same h with rfl | ⟨a, b, rfl, rfl, hab⟩
  · exact Iff.rfl
  · have hword : ∀ bounds, (float bounds).read cs = (float bounds).readWord cs := fun _ => rfl
    rw [hword, hword, readWord_eq_ok_iff, readWord_eq_ok_iff, readToken_float_of_same hab]

end Kind

namespace Element

theorem eq_or_arguments_of_same {a b : Element} (h : a.same b = true) :
    a = b ∨ ∃ name j k, a = argument name j ∧ b = argument name k ∧ j.same k = true := by
  cases a with
  | literal s =>
    cases b with
    | literal t => exact Or.inl (congrArg literal (eq_of_beq h))
    | argument n k => cases h
  | argument n j =>
    cases b with
    | literal t => cases h
    | argument m k =>
      obtain ⟨hname, hkind⟩ := (Bool.and_eq_true _ _).mp h
      rw [eq_of_beq hname]
      exact Or.inr ⟨m, j, k, rfl, rfl, hkind⟩

theorem name_eq_of_same {a b : Element} (h : a.same b = true) : a.name = b.name := by
  rcases eq_or_arguments_of_same h with rfl | ⟨name, j, k, rfl, rfl, -⟩
  · rfl
  · rfl

theorem isLiteral_eq_of_same {a b : Element} (h : a.same b = true) :
    a.isLiteral = b.isLiteral := by
  rcases eq_or_arguments_of_same h with rfl | ⟨name, j, k, rfl, rfl, -⟩
  · rfl
  · rfl

theorem same_symm {a b : Element} (h : a.same b = true) : b.same a = true := by
  rcases eq_or_arguments_of_same h with rfl | ⟨name, j, k, rfl, rfl, hkind⟩
  · exact h
  · exact (Bool.and_eq_true _ _).mpr ⟨beq_self_eq_true name, Kind.same_symm hkind⟩

theorem same_trans {a b c : Element} (h : a.same b = true) (h' : b.same c = true) :
    a.same c = true := by
  rcases eq_or_arguments_of_same h with rfl | ⟨name, i, j, rfl, rfl, hij⟩
  · exact h'
  · rcases eq_or_arguments_of_same h' with rfl | ⟨name', j', k, hb, rfl, hjk⟩
    · exact h
    · cases hb
      exact (Bool.and_eq_true _ _).mpr ⟨beq_self_eq_true _, Kind.same_trans hij hjk⟩

theorem isGreedy_eq_of_same {a b : Element} (h : a.same b = true) :
    a.isGreedy = b.isGreedy := by
  rcases eq_or_arguments_of_same h with rfl | ⟨name, j, k, rfl, rfl, hkind⟩
  · rfl
  · rcases Kind.eq_or_floats_of_same hkind with rfl | ⟨a, b, rfl, rfl, -⟩
    · rfl
    · rfl

theorem same_comm (a b : Element) : a.same b = b.same a :=
  Bool.eq_iff_iff.mpr ⟨same_symm, same_symm⟩

/-- Elements that count as the same take the same texts, as the same values. -/
theorem takes_of_same {a b : Element} (h : a.same b = true) {word rest : List Char}
    {value : Argument} (ht : a.Takes word rest value) : b.Takes word rest value := by
  rcases eq_or_arguments_of_same h with rfl | ⟨name, j, k, rfl, rfl, hkind⟩
  · exact ht
  · cases ht with
    | argument hreads => exact .argument ((Kind.read_of_same hkind _ _ _).mp hreads)

end Element

/-- Lists of elements of which each counts as the same as its partner. -/
def SameElements : List Element → List Element → Prop := List.Forall₂ fun a b => a.same b = true

theorem SameElements.symm {es es' : List Element} (h : SameElements es es') :
    SameElements es' es := by
  induction h with
  | nil => exact .nil
  | cons hab hrest ih => exact .cons (Element.same_symm hab) ih

theorem SameElements.trans {es es' es'' : List Element} (h : SameElements es es')
    (h' : SameElements es' es'') : SameElements es es'' := by
  induction h generalizing es'' with
  | nil =>
    cases h'
    exact .nil
  | cons hab hrest ih =>
    cases h' with
    | cons hbc hrest' => exact .cons (Element.same_trans hab hbc) (ih hrest')

theorem SameElements.take {es es' : List Element} (h : SameElements es es') (n : Nat) :
    SameElements (es.take n) (es'.take n) := List.forall₂_take n h

theorem SameElements.dropLast {es es' : List Element} (h : SameElements es es') :
    SameElements es.dropLast es'.dropLast := by
  have hlength : es.length = es'.length := h.length_eq
  rw [List.dropLast_eq_take, List.dropLast_eq_take, hlength]
  exact h.take _

private theorem matches_same {es es' : List Element} (h : SameElements es es') {cs : List Char}
    {nodes : List Node} (hm : Matches es cs nodes) : Matches es' cs nodes := by
  induction hm generalizing es' with
  | last takes =>
    cases h with
    | cons hab hrest =>
      cases hrest with
      | nil =>
        rw [Element.name_eq_of_same hab]
        exact .last (Element.takes_of_same hab takes)
  | step takes others ih =>
    cases h with
    | cons hab hrest =>
      rw [Element.name_eq_of_same hab]
      exact .step (Element.takes_of_same hab takes) (ih hrest)

/-- Lists of elements that count as the same match the same texts, as the same nodes. -/
theorem matches_of_same {es es' : List Element} (h : SameElements es es') (cs : List Char)
    (nodes : List Node) : Matches es cs nodes ↔ Matches es' cs nodes :=
  ⟨matches_same h, matches_same h.symm⟩

end CommandScript.Grammar
