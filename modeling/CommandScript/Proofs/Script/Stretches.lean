import Mathlib.Tactic.SplitIfs
import CommandScript.Proofs.Script.Layout

/-! Logical lines of a text in parts. The physical lines fall into stretches, each of which is read
by itself; a text can be cut where no continuation is pending, and is then read in two parts. -/
namespace CommandScript.Script
open Text

/-- Neighbouring physical lines that are read together. -/
inductive Stretch
  /-- A line that stands for nothing. -/
  | skipped (physical : List Char)
  /-- Lines that go on, and one that does not. -/
  | finished (continued : List (List Char)) (last : List Char)
  /-- Lines that go on, with none behind them. -/
  | unfinished (continued : List (List Char))

namespace Stretch

def physical : Stretch → List (List Char)
  | skipped l => [l]
  | finished continued last => continued ++ [last]
  | unfinished continued => continued

/-- The text of the logical line that is made of a stretch, if there is one. -/
def text? : Stretch → Option (List Char)
  | skipped _ => none
  | finished continued last => some (joined continued ++ trim last)
  | unfinished continued =>
    if trimEnd (joined continued) = [] then none else some (trimEnd (joined continued))

/-- A group begins at a line that stands for something, and goes on up to its last line. -/
inductive Formed : Stretch → Prop
  | skipped {l : List Char} (nothing : StandsForNothing l) : Formed (.skipped l)
  | finished {continued : List (List Char)} {last : List Char}
      (begins : ∀ first ∈ (continued ++ [last]).head?, ¬StandsForNothing first)
      (goesOn : ∀ l ∈ continued, GoesOn l) (ends : ¬GoesOn last) :
      Formed (.finished continued last)
  | unfinished {continued : List (List Char)} (nonempty : continued ≠ [])
      (begins : ∀ first ∈ continued.head?, ¬StandsForNothing first)
      (goesOn : ∀ l ∈ continued, GoesOn l) : Formed (.unfinished continued)

def isFinished : Stretch → Bool
  | unfinished _ => false
  | _ => true

/-- The logical lines of stretches, each with the number of its first physical line. -/
def numbered (number : Nat) : List Stretch → List Line
  | [] => []
  | s :: rest =>
    (s.text?.map fun text => (⟨String.ofList text, number⟩ : Line)).toList ++
      numbered (number + s.physical.length) rest

end Stretch

/-- Physical lines as a row of stretches, of which at most the last is unfinished. -/
structure InStretches (physical : List (List Char)) (stretches : List Stretch) : Prop where
  covers : stretches.flatMap Stretch.physical = physical
  formed : ∀ s ∈ stretches, s.Formed
  finished : ∀ s ∈ stretches.dropLast, s.isFinished = true

theorem InStretches.cons {s : Stretch} {physical : List (List Char)} {stretches : List Stretch}
    (hs : s.Formed) (hfinished : s.isFinished = true) (h : InStretches physical stretches) :
    InStretches (s.physical ++ physical) (s :: stretches) := by
  refine ⟨?_, ?_, ?_⟩
  · rw [List.flatMap_cons, h.covers]
  · intro t ht
    rcases List.mem_cons.mp ht with rfl | ht
    · exact hs
    · exact h.formed t ht
  · intro t ht
    cases stretches with
    | nil => cases ht
    | cons s' stretches =>
      rcases List.mem_cons.mp ht with rfl | ht
      · exact hfinished
      · exact h.finished t ht

theorem InStretches.tail {s : Stretch} {physical : List (List Char)} {stretches : List Stretch}
    (h : InStretches physical (s :: stretches)) :
    InStretches (stretches.flatMap Stretch.physical) stretches := by
  refine ⟨rfl, fun t ht => h.formed t (List.mem_cons_of_mem s ht), ?_⟩
  intro t ht
  cases stretches with
  | nil => cases ht
  | cons s' stretches => exact h.finished t (List.mem_cons_of_mem s ht)

/-- However physical lines fall into stretches, they are laid out as the lines of those. -/
theorem InStretches.layout {physical : List (List Char)} {stretches : List Stretch}
    (h : InStretches physical stretches) (number : Nat) :
    Layout number physical (Stretch.numbered number stretches) := by
  induction stretches generalizing number physical with
  | nil =>
    obtain rfl := h.covers
    exact .done
  | cons s stretches ih =>
    have hbehind := ih h.tail (number + s.physical.length)
    have hformed := h.formed s List.mem_cons_self
    have hcovers := h.covers
    rw [List.flatMap_cons] at hcovers
    subst hcovers
    cases hformed with
    | skipped nothing => exact .skip nothing hbehind
    | @finished continued last begins goesOn ends =>
      have hline : Layout number (continued ++ last :: stretches.flatMap Stretch.physical) _ :=
        .line begins goesOn ends (by simpa [Stretch.physical, Nat.add_assoc] using hbehind)
      simpa [Stretch.numbered, Stretch.text?, Stretch.physical, Nat.add_assoc] using hline
    | @unfinished continued nonempty begins goesOn =>
      cases stretches with
      | cons s' stretches =>
        have hfinished := h.finished (.unfinished continued) List.mem_cons_self
        cases hfinished
      | nil =>
        have hcut : Layout number continued _ := .cut nonempty begins goesOn
        by_cases hempty : trimEnd (joined continued) = []
        · simpa [Stretch.numbered, Stretch.text?, Stretch.physical, hempty] using hcut
        · simpa [Stretch.numbered, Stretch.text?, Stretch.physical, hempty] using hcut

theorem Layout.exists_stretches {number : Nat} {physical : List (List Char)} {lines : List Line}
    (h : Layout number physical lines) : ∃ stretches, InStretches physical stretches := by
  induction h with
  | done => exact ⟨[], rfl, nofun, nofun⟩
  | @skip number physical rest lines nothing behind ih =>
    obtain ⟨stretches, hstretches⟩ := ih
    exact ⟨.skipped physical :: stretches, hstretches.cons (.skipped nothing) rfl⟩
  | @line number continued last rest lines begins goesOn ends behind ih =>
    obtain ⟨stretches, hstretches⟩ := ih
    refine ⟨.finished continued last :: stretches, ?_⟩
    have hcons := hstretches.cons (.finished begins goesOn ends) rfl
    simpa [Stretch.physical] using hcons
  | @cut number continued nonempty begins goesOn =>
    refine ⟨[.unfinished continued], ?_, ?_, nofun⟩
    · simp [Stretch.physical]
    · intro s hs
      rw [List.mem_singleton.mp hs]
      exact .unfinished nonempty begins goesOn

theorem Layout.number_lt {number : Nat} {physical : List (List Char)} {lines : List Line}
    (h : Layout number physical lines) :
    ∀ line ∈ lines, line.number < number + physical.length := by
  induction h with
  | done => nofun
  | skip nothing behind ih =>
    intro line hline
    have := ih line hline
    rw [List.length_cons]
    omega
  | line begins goesOn ends behind ih =>
    intro line hline
    rw [List.length_append, List.length_cons]
    rcases List.mem_cons.mp hline with rfl | hline
    · dsimp only
      omega
    · have := ih line hline
      omega
  | cut nonempty begins goesOn =>
    intro line hline
    have hlength := List.length_pos_iff.mpr nonempty
    split_ifs at hline with hempty
    · cases hline
    · obtain rfl := List.mem_singleton.mp hline
      dsimp only
      omega

theorem Layout.pairwise_number {number : Nat} {physical : List (List Char)} {lines : List Line}
    (h : Layout number physical lines) :
    lines.Pairwise fun line line' => line.number < line'.number := by
  induction h with
  | done => exact .nil
  | skip nothing behind ih => exact ih
  | line begins goesOn ends behind ih =>
    refine .cons ?_ ih
    intro line hline
    have := behind.le_number line hline
    dsimp only
    omega
  | cut nonempty begins goesOn =>
    split_ifs
    · exact .nil
    · exact List.pairwise_singleton _ _

/-- The line, with a number that is greater by `n`. -/
def movedLine (n : Nat) (line : Line) : Line := ⟨line.text, line.number + n⟩

theorem Layout.moved {number : Nat} {physical : List (List Char)} {lines : List Line}
    (h : Layout number physical lines) (n : Nat) :
    Layout (number + n) physical (lines.map (movedLine n)) := by
  induction h with
  | done => exact .done
  | @skip number physical rest lines nothing behind ih =>
    refine .skip nothing ?_
    rwa [Nat.add_right_comm] at ih
  | @line number continued last rest lines begins goesOn ends behind ih =>
    refine .line begins goesOn ends ?_
    have hnumber : number + continued.length + 1 + n = number + n + continued.length + 1 := by omega
    rwa [hnumber] at ih
  | @cut number continued nonempty begins goesOn =>
    have hcut : Layout (number + n) continued _ := .cut nonempty begins goesOn
    by_cases hempty : trimEnd (joined continued) = []
    · rw [if_pos hempty] at hcut ⊢
      exact hcut
    · rw [if_neg hempty] at hcut ⊢
      exact hcut

/-- Whether a continuation is pending behind a physical line. Outside of a continuation, a comment
leaves none, even if it ends in a backslash. -/
def leavesPending (pending : Bool) (physical : List Char) : Bool :=
  decide (GoesOn physical) && (pending || !decide (StandsForNothing physical))

/-- Whether a continuation is pending behind the last of the physical lines of a text. -/
def pendingAtEnd (physical : List (List Char)) : Bool := physical.foldl leavesPending false

theorem leavesPending_of_ends (pending : Bool) {physical : List Char} (h : ¬GoesOn physical) :
    leavesPending pending physical = false := by
  simp [leavesPending, h]

theorem leavesPending_of_skipped {physical : List Char} (h : StandsForNothing physical) :
    leavesPending false physical = false := by
  simp [leavesPending, h]

theorem pendingAtEnd_of_goesOn {continued : List (List Char)} (nonempty : continued ≠ [])
    (begins : ∀ first ∈ continued.head?, ¬StandsForNothing first)
    (goesOn : ∀ physical ∈ continued, GoesOn physical) : pendingAtEnd continued = true := by
  obtain ⟨first, rest, rfl⟩ := List.exists_cons_of_ne_nil nonempty
  have hfirst : leavesPending false first = true := by
    simp [leavesPending, goesOn first List.mem_cons_self, begins first rfl]
  have hrest : ∀ rest : List (List Char), (∀ physical ∈ rest, GoesOn physical) →
      rest.foldl leavesPending true = true := by
    intro rest hrest
    induction rest with
    | nil => rfl
    | cons physical rest ih =>
      have hphysical : leavesPending true physical = true := by
        simp [leavesPending, hrest physical List.mem_cons_self]
      rw [List.foldl_cons, hphysical]
      exact ih fun l hl => hrest l (List.mem_cons_of_mem physical hl)
  rw [pendingAtEnd, List.foldl_cons, hfirst]
  exact hrest rest fun l hl => goesOn l (List.mem_cons_of_mem first hl)

-- Inside of a continuation a comment is no comment, and goes on like any other line.
example : pendingAtEnd (lines "say hi \\\n# all \\\n".toList) = true := by decide +kernel

/-- Where no continuation is pending, what follows is laid out as if it stood alone. -/
theorem Layout.append {number : Nat} {physical physical' : List (List Char)}
    {lines lines' : List Line} (h : Layout number physical lines)
    (hpending : pendingAtEnd physical = false)
    (h' : Layout (number + physical.length) physical' lines') :
    Layout number (physical ++ physical') (lines ++ lines') := by
  induction h with
  | done => exact h'
  | @skip number physical rest lines nothing behind ih =>
    have hrest : pendingAtEnd rest = false := by
      rwa [pendingAtEnd, List.foldl_cons, leavesPending_of_skipped nothing] at hpending
    refine .skip nothing (ih hrest ?_)
    rwa [List.length_cons, Nat.add_comm rest.length, ← Nat.add_assoc] at h'
  | @line number continued last rest lines begins goesOn ends behind ih =>
    have hrest : pendingAtEnd rest = false := by
      rwa [pendingAtEnd, List.foldl_append, List.foldl_cons, leavesPending_of_ends _ ends]
        at hpending
    have hlength : number + (continued ++ last :: rest).length =
        number + continued.length + 1 + rest.length := by
      rw [List.length_append, List.length_cons]
      omega
    rw [hlength] at h'
    have hline := Layout.line begins goesOn ends (ih hrest h')
    simpa only [List.append_assoc, List.cons_append] using hline
  | cut nonempty begins goesOn =>
    rw [pendingAtEnd_of_goesOn nonempty begins goesOn] at hpending
    cases hpending

/-- A text that is cut at the end of a line where no continuation is pending is read in two parts.
The logical lines of a text are those of the stretches that its physical lines fall into, in their
order, each with the number of its first physical line. -/
theorem logicalLines_append_and_stretches :
    (∀ a b : String, (a = "" ∨ a.toList.getLast? = some '\n') →
      pendingAtEnd (lines a.toList) = false →
      logicalLines (a ++ b) =
        logicalLines a ++ (logicalLines b).map (movedLine (lines a.toList).length)) ∧
    ∀ source : String,
      (logicalLines source).Pairwise (fun line line' => line.number < line'.number) ∧
      (∀ line ∈ logicalLines source,
        1 ≤ line.number ∧ line.number ≤ (lines source.toList).length) ∧
      (∃ stretches, InStretches (lines source.toList) stretches) ∧
      ∀ stretches, InStretches (lines source.toList) stretches →
        logicalLines source = Stretch.numbered 1 stretches := by
  constructor
  · intro a b hwhole hpending
    have hlast : ∀ c ∈ a.toList.getLast?, c = '\n' := by
      intro c hc
      rcases hwhole with rfl | hnewline
      · cases hc
      · rw [hnewline] at hc
        exact (Option.some.inj hc).symm
    have hfirst : Layout 1 (lines a.toList) (logicalLines a) := layout_iff.mpr rfl
    have hsecond : Layout 1 (lines b.toList) (logicalLines b) := layout_iff.mpr rfl
    have hboth := hfirst.append hpending (hsecond.moved (lines a.toList).length)
    rw [← lines_append b.toList hlast, ← String.toList_append] at hboth
    exact layout_iff.mp hboth
  · intro source
    have hlayout : Layout 1 (lines source.toList) (logicalLines source) := layout_iff.mpr rfl
    refine ⟨hlayout.pairwise_number, ?_, hlayout.exists_stretches, ?_⟩
    · intro line hline
      have hlower := hlayout.le_number line hline
      have hupper := hlayout.number_lt line hline
      omega
    · intro stretches hstretches
      exact layout_iff.mp (hstretches.layout 1)

/-- A comment that ends in a backslash does not reach into the second part. -/
theorem logicalLines_append_and_stretches_comment :
    let a := "say hi\n# here \\\n"
    let b := "say good \\\nbye"
    (a = "" ∨ a.toList.getLast? = some '\n') ∧ pendingAtEnd (lines a.toList) = false ∧
      logicalLines (a ++ b) = logicalLines a ++ (logicalLines b).map (movedLine 2) := by
  intro a b
  have hwhole : a = "" ∨ a.toList.getLast? = some '\n' := by
    right
    decide +kernel
  have hpending : pendingAtEnd (lines a.toList) = false := by decide +kernel
  have hlength : (lines a.toList).length = 2 := by decide +kernel
  have happend := logicalLines_append_and_stretches.1 a b hwhole hpending
  rw [hlength] at happend
  exact ⟨hwhole, hpending, happend⟩

end CommandScript.Script
