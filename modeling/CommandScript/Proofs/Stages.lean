import Mathlib.Data.List.Forall2
import Mathlib.Tactic.Common

/-! Runs of stages each of which may fail: when they succeed, and with which error they fail. -/
namespace CommandScript

variable {ε δ α β : Type}

theorem bind_eq_ok_iff {x : Except ε α} {f : α → Except ε β} {b : β} :
    x >>= f = .ok b ↔ ∃ a, x = .ok a ∧ f a = .ok b := by
  cases x with
  | error e => exact ⟨nofun, nofun⟩
  | ok a =>
    constructor
    · intro h
      exact ⟨a, rfl, h⟩
    · rintro ⟨a', ha, h⟩
      cases ha
      exact h

theorem map_eq_ok_iff {x : Except ε α} {f : α → β} {b : β} :
    x.map f = .ok b ↔ ∃ a, x = .ok a ∧ f a = b := by
  cases x with
  | error e => simp [Except.map]
  | ok a => simp [Except.map]

theorem map_eq_error_iff {x : Except ε α} {f : α → β} {e : ε} :
    x.map f = .error e ↔ x = .error e := by
  cases x with
  | error e' => simp [Except.map]
  | ok a => simp [Except.map]

theorem mapError_eq_ok_iff {x : Except ε α} {f : ε → δ} {a : α} :
    x.mapError f = .ok a ↔ x = .ok a := by
  cases x with
  | error e => simp [Except.mapError]
  | ok a' => simp [Except.mapError]

/-- The members of a list have partners in one that is related to it member by member. -/
theorem exists_rel_of_mem_left {R : α → β → Prop} {xs : List α} {ys : List β}
    (h : List.Forall₂ R xs ys) {x : α} (hx : x ∈ xs) : ∃ y ∈ ys, R x y := by
  obtain ⟨i, hi, rfl⟩ := List.getElem_of_mem hx
  obtain ⟨hlength, hall⟩ := List.forall₂_iff_get.mp h
  exact ⟨_, List.getElem_mem (hlength ▸ hi), hall i hi (hlength ▸ hi)⟩

theorem exists_rel_of_mem_right {R : α → β → Prop} {xs : List α} {ys : List β}
    (h : List.Forall₂ R xs ys) {y : β} (hy : y ∈ ys) : ∃ x ∈ xs, R x y :=
  exists_rel_of_mem_left (R := flip R) h.flip hy

/-- Sends the members of a list through a stage up to the first that fails there. The error that
comes out also tells the index of that member. -/
def eachFrom (stage : α → Except δ β) (locate : Nat → δ → ε) :
    Nat → List α → Except ε (List β)
  | _, [] => .ok []
  | index, x :: rest =>
    match stage x with
    | .error d => .error (locate index d)
    | .ok y => (eachFrom stage locate (index + 1) rest).map (y :: ·)

variable {stage : α → Except δ β} {locate : Nat → δ → ε}

theorem eachFrom_cons_of_error {start : Nat} {x : α} {rest : List α} {d : δ}
    (h : stage x = .error d) :
    eachFrom stage locate start (x :: rest) = .error (locate start d) := by
  rw [eachFrom, h]

theorem eachFrom_cons_of_ok {start : Nat} {x : α} {rest : List α} {y : β}
    (h : stage x = .ok y) :
    eachFrom stage locate start (x :: rest) =
      (eachFrom stage locate (start + 1) rest).map (y :: ·) := by
  rw [eachFrom, h]

theorem eachFrom_map {γ : Type} (f : γ → α) (start : Nat) (xs : List γ) :
    eachFrom stage locate start (xs.map f) =
      eachFrom (fun x => stage (f x)) locate start xs := by
  induction xs generalizing start with
  | nil => rfl
  | cons x rest ih => rw [List.map_cons, eachFrom, eachFrom, ih]

theorem eachFrom_eq_ok_iff {start : Nat} {xs : List α} {ys : List β} :
    eachFrom stage locate start xs = .ok ys ↔ List.Forall₂ (fun x y => stage x = .ok y) xs ys := by
  induction xs generalizing start ys with
  | nil => simp [eachFrom, eq_comm]
  | cons x rest ih =>
    cases hx : stage x with
    | error d => simp [eachFrom_cons_of_error hx, List.forall₂_cons_left_iff, hx]
    | ok y =>
      rw [eachFrom_cons_of_ok hx, map_eq_ok_iff, List.forall₂_cons_left_iff]
      constructor
      · rintro ⟨rest', hrest, rfl⟩
        exact ⟨y, rest', hx, ih.mp hrest, rfl⟩
      · rintro ⟨y', rest', hy, hrest, rfl⟩
        rw [hx] at hy
        cases hy
        exact ⟨rest', ih.mpr hrest, rfl⟩

theorem exists_ok_of_mem_of_eachFrom {start : Nat} {xs : List α} {ys : List β}
    (h : eachFrom stage locate start xs = .ok ys) {x : α} (hx : x ∈ xs) :
    ∃ y, stage x = .ok y := by
  obtain ⟨y, -, hy⟩ := exists_rel_of_mem_left (eachFrom_eq_ok_iff.mp h) hx
  exact ⟨y, hy⟩

/-- What comes out is the error of the first member that does not come through. -/
theorem eachFrom_eq_error_iff {start : Nat} {xs : List α} {e : ε} :
    eachFrom stage locate start xs = .error e ↔
      ∃ index x d, xs[index]? = some x ∧ stage x = .error d ∧
        (∀ x' ∈ xs.take index, ∃ y, stage x' = .ok y) ∧ e = locate (start + index) d := by
  induction xs generalizing start with
  | nil => simp [eachFrom]
  | cons x rest ih =>
    cases hx : stage x with
    | error d =>
      rw [eachFrom_cons_of_error hx]
      constructor
      · intro h
        cases h
        exact ⟨0, x, d, rfl, hx, nofun, rfl⟩
      · rintro ⟨index, x', d', hx', hd, hearlier, rfl⟩
        cases index with
        | zero =>
          cases hx'
          rw [hx] at hd
          cases hd
          rfl
        | succ index =>
          obtain ⟨y, hy⟩ := hearlier x List.mem_cons_self
          rw [hx] at hy
          cases hy
    | ok y =>
      -- The first member comes through, so that the others are found one index further on.
      rw [eachFrom_cons_of_ok hx, map_eq_error_iff, ih]
      constructor
      · rintro ⟨index, x', d, hx', hd, hearlier, rfl⟩
        have hindex : start + 1 + index = start + (index + 1) := by omega
        refine ⟨index + 1, x', d, hx', hd, ?_, by rw [hindex]⟩
        intro x'' hmem
        rcases List.mem_cons.mp hmem with rfl | hmem
        · exact ⟨y, hx⟩
        · exact hearlier x'' hmem
      · rintro ⟨index, x', d, hx', hd, hearlier, rfl⟩
        cases index with
        | zero =>
          cases hx'
          rw [hx] at hd
          cases hd
        | succ index =>
          have hindex : start + (index + 1) = start + 1 + index := by omega
          refine ⟨index, x', d, hx', hd, ?_, by rw [hindex]⟩
          intro x'' hmem
          exact hearlier x'' (List.mem_cons_of_mem x hmem)

end CommandScript
