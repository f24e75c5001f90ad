import Mathlib.Logic.Function.Basic
import Mathlib.Logic.Relation
import CommandScript.Proofs.Grammar.Dispatch
import CommandScript.Proofs.Registry.Contents
import CommandScript.Proofs.Script.Loading

/-! Sessions in which procedures are made, stored, run and stored again. Whatever the steps are, no
registry comes to hold an action that its validator has not made of the action's own text. -/
namespace CommandScript
open Script

theorem GrammarValidator.validate_eq_ok_iff (v : GrammarValidator) (line : String)
    (source : Source) (a : Action) :
    v.validate line source = .ok a ↔
      line.length ≤ v.maxLength ∧ a.source = source ∧ v.tree.parse line = .ok a.command := by
  unfold validate
  split_ifs with hlong
  · simp [Nat.not_le.mpr hlong]
  · have hshort := Nat.not_lt.mp hlong
    obtain ⟨source', command⟩ := a
    cases v.tree.parse line with
    | error e => simp
    | ok command' => simp [hshort, eq_comm]

/-- The validator makes the action of the action's own text, under its own source. -/
def GrammarValidator.Makes (v : GrammarValidator) (a : Action) : Prop :=
  v.validate a.text a.source = .ok a

/-- What a validator has made of some text it makes of the text of the action. -/
theorem GrammarValidator.makes_of_validate {v : GrammarValidator} {line : String} {source : Source}
    {a : Action} (h : v.validate line source = .ok a) : v.Makes a := by
  obtain ⟨-, hsource, hparse⟩ := (v.validate_eq_ok_iff line source a).mp h
  have htext : a.text = line := ((v.tree.parse_eq_ok_iff line a.command).mp hparse).2.1
  unfold Makes
  rwa [htext, hsource]

/-- The validator makes all actions of a procedure; a template has none yet. -/
def Procedure.Vouched (v : GrammarValidator) (p : Procedure) : Prop :=
  ∀ e, p = .expanded e → ∀ a ∈ e.actions, v.Makes a

def Registry.Vouched (v : GrammarValidator) (r : Registry) : Prop :=
  ∀ id p, r.get? id = some p → p.Vouched v

section
variable {v : GrammarValidator} {source : Source}

theorem Procedure.vouched_template (t : TemplateProcedure) : (template t).Vouched v := nofun

theorem Procedure.vouched_of_expand {t : TemplateProcedure} {arguments : Option Compound}
    {e : ExpandedProcedure} (h : t.expand arguments ⟨source, v.validate⟩ = .ok e) :
    (expanded e).Vouched v := by
  rintro e' heq a ha
  cases heq
  obtain ⟨text, hverdict⟩ := TemplateProcedure.exists_validate_of_mem_actions h ha
  exact GrammarValidator.makes_of_validate hverdict

theorem Procedure.vouched_of_ofLines {id : Identifier} {lines : List Line} {p : Procedure}
    (h : ofLines id lines ⟨source, v.validate⟩ = .ok p) : p.Vouched v := by
  obtain ⟨names, -, hp⟩ := bind_eq_ok_iff.mp h
  split_ifs at hp
  · obtain ⟨e, he, hok⟩ := bind_eq_ok_iff.mp hp
    cases hok
    exact vouched_of_expand he
  · cases hp
    exact vouched_template _

theorem Procedure.vouched_of_parseFunction {id : Identifier} {text : String} {p : Procedure}
    (h : parseFunction id text ⟨source, v.validate⟩ = .ok p) : p.Vouched v := by
  obtain ⟨-, ⟨-, e, he, rfl⟩ | ⟨-, rfl, -⟩⟩ := parseFunction_eq_ok_iff.mp h
  · exact vouched_of_expand he
  · exact vouched_template _

theorem Registry.Vouched.of_invoke {r : Registry} (hr : r.Vouched v) {id : Identifier}
    {arguments : Option Compound} {e : ExpandedProcedure}
    (h : r.invoke id arguments ⟨source, v.validate⟩ = .ok e) :
    (Procedure.expanded e).Vouched v := by
  unfold invoke at h
  cases hget : r.get? id with
  | none =>
    rw [hget] at h
    cases h
  | some p =>
    rw [hget] at h
    have hexpand := mapError_eq_ok_iff.mp h
    cases p with
    | template t => exact Procedure.vouched_of_expand hexpand
    | expanded e' =>
      cases hexpand
      exact hr id _ hget

end

section
variable {v : GrammarValidator} {r other : Registry}

theorem Registry.vouched_empty : empty.Vouched v := by
  intro id p h
  rw [get?_empty] at h
  cases h

theorem Registry.Vouched.add (hr : r.Vouched v) {p : Procedure} (hp : p.Vouched v) :
    (r.add p).2.Vouched v := by
  intro id p' h
  rw [get?_add] at h
  split_ifs at h
  · cases h
    exact hp
  · exact hr id p' h

theorem Registry.Vouched.addSourceFile (hr : r.Vouched v) (path : String) :
    (r.addSourceFile path).Vouched v := by
  intro id p h
  rw [get?_addSourceFile] at h
  exact hr id p h

theorem Registry.Vouched.merge (hr : r.Vouched v) (hother : other.Vouched v) :
    (r.merge other).Vouched v := by
  intro id p h
  rw [get?_merge, Option.or_eq_some_iff] at h
  rcases h with h | ⟨-, h⟩
  · exact hother id p h
  · exact hr id p h

end

/-- Numbered registries, and the procedures that are at hand to be stored in them. -/
structure Session where
  registries : Nat → Registry
  held : List Procedure

namespace Session

def start : Session := ⟨fun _ => .empty, []⟩

def put (s : Session) (number : Nat) (r : Registry) : Session :=
  { s with registries := Function.update s.registries number r }

/-- How a procedure may come about. -/
inductive Obtains (v : GrammarValidator) (s : Session) : Procedure → Prop
  | lines {id : Identifier} {lines : List Line} {source : Source} {p : Procedure}
      (made : Procedure.ofLines id lines ⟨source, v.validate⟩ = .ok p) : Obtains v s p
  | text {id : Identifier} {text : String} {source : Source} {p : Procedure}
      (loaded : parseFunction id text ⟨source, v.validate⟩ = .ok p) : Obtains v s p
  | template (t : TemplateProcedure) : Obtains v s (.template t)
  | empty (id : Identifier) : Obtains v s (.expanded ⟨id, []⟩)
  | invoked {number : Nat} {id : Identifier} {arguments : Option Compound} {source : Source}
      {e : ExpandedProcedure}
      (ran : (s.registries number).invoke id arguments ⟨source, v.validate⟩ = .ok e) :
      Obtains v s (.expanded e)

/-- One step: a procedure is obtained, or one at hand is stored, or a registry is merged into
another one, or a file is recorded. -/
inductive Step (v : GrammarValidator) : Session → Session → Prop
  | keep {s : Session} {p : Procedure} (obtained : s.Obtains v p) :
      Step v s { s with held := p :: s.held }
  | add {s : Session} {p : Procedure} (number : Nat) (held : p ∈ s.held) :
      Step v s (s.put number ((s.registries number).add p).2)
  | merge {s : Session} (number other : Nat) :
      Step v s (s.put number ((s.registries number).merge (s.registries other)))
  | record {s : Session} (number : Nat) (path : String) :
      Step v s (s.put number ((s.registries number).addSourceFile path))

/-- No procedure of a session has an action that the validator has not made. -/
structure Vouched (v : GrammarValidator) (s : Session) : Prop where
  stored : ∀ number, (s.registries number).Vouched v
  held : ∀ p ∈ s.held, p.Vouched v

variable {v : GrammarValidator} {s s' : Session}

theorem vouched_start : start.Vouched v := ⟨fun _ => Registry.vouched_empty, nofun⟩

theorem Vouched.put (h : s.Vouched v) {r : Registry} (hr : r.Vouched v) (number : Nat) :
    (s.put number r).Vouched v := by
  refine ⟨?_, h.held⟩
  intro number'
  by_cases heq : number' = number
  · subst heq
    simpa [Session.put] using hr
  · simpa [Session.put, Function.update_of_ne heq] using h.stored number'

theorem Vouched.of_obtains (h : s.Vouched v) {p : Procedure} (hp : s.Obtains v p) :
    p.Vouched v := by
  cases hp with
  | lines made => exact Procedure.vouched_of_ofLines made
  | text loaded => exact Procedure.vouched_of_parseFunction loaded
  | template t => exact Procedure.vouched_template t
  | empty id =>
    rintro e he a ha
    cases he
    cases ha
  | @invoked number _ _ _ _ ran => exact (h.stored number).of_invoke ran

theorem Vouched.step (h : s.Vouched v) (hstep : Step v s s') : s'.Vouched v := by
  cases hstep with
  | keep obtained =>
    refine ⟨h.stored, ?_⟩
    intro p hp
    rcases List.mem_cons.mp hp with rfl | hp
    · exact h.of_obtains obtained
    · exact h.held p hp
  | add number held => exact h.put ((h.stored number).add (h.held _ held)) number
  | merge number other => exact h.put ((h.stored number).merge (h.stored other)) number
  | record number path => exact h.put ((h.stored number).addSourceFile path) number

theorem vouched_of_run (run : Relation.ReflTransGen (Step v) start s) : s.Vouched v := by
  induction run with
  | refl => exact vouched_start
  | tail _ hstep ih => exact ih.step hstep

/-- However procedures are made, stored, run and stored again: an action that is stored, or comes
out of a run, is what the validator makes of its own text, so the text is not too long and the nodes
are what the tree reads there. -/
theorem makes_of_run (run : Relation.ReflTransGen (Step v) start s) (number : Nat)
    (id : Identifier) :
    (∀ e, (s.registries number).get? id = some (.expanded e) → ∀ a ∈ e.actions,
      v.validate a.text a.source = .ok a ∧ a.text.length ≤ v.maxLength ∧
        v.tree.parse a.text = .ok a.command) ∧
    (∀ arguments source e,
      (s.registries number).invoke id arguments ⟨source, v.validate⟩ = .ok e → ∀ a ∈ e.actions,
      v.validate a.text a.source = .ok a ∧ a.text.length ≤ v.maxLength ∧
        v.tree.parse a.text = .ok a.command) := by
  have hstored := (vouched_of_run run).stored number
  have hall : ∀ {e : ExpandedProcedure}, (Procedure.expanded e).Vouched v → ∀ a ∈ e.actions,
      v.validate a.text a.source = .ok a ∧ a.text.length ≤ v.maxLength ∧
        v.tree.parse a.text = .ok a.command := by
    intro e he a ha
    have hmade := he e rfl a ha
    obtain ⟨hshort, -, hparse⟩ := (v.validate_eq_ok_iff _ _ _).mp hmade
    exact ⟨hmade, hshort, hparse⟩
  constructor
  · intro e hget
    exact hall (hstored id _ hget)
  · intro arguments source e hinvoke
    exact hall (hstored.of_invoke hinvoke)

/-- A greeting is run for a guest, the result stored in a second registry, and that one merged back
over the template. -/
theorem makes_of_run_greeting :
    ∃ (v : GrammarValidator) (s : Session) (id : Identifier) (e : ExpandedProcedure),
      Relation.ReflTransGen (Step v) start s ∧ e.commands = ["say Hello you"] ∧
      (s.registries 0).get? id = some (.expanded e) ∧
      (s.registries 0).invoke id none ⟨.default, v.validate⟩ = .ok e ∧
      ∀ a ∈ e.actions, v.validate a.text a.source = .ok a ∧ a.text.length ≤ v.maxLength ∧
        v.tree.parse a.text = .ok a.command := by
  let id : Identifier := ⟨"demo", "hello", ⟨by decide, List.all_eq_true.mp (by decide)⟩,
    ⟨by decide, List.all_eq_true.mp (by decide)⟩⟩
  let v : GrammarValidator := ⟨⟨.cons (.literal "say") false
    (.cons (.argument "message" .greedy) true .nil .nil) .nil, ["say <message:greedy>"]⟩, 20⟩
  let guest : Source := ⟨"guest", 0⟩
  let t : TemplateProcedure := ⟨id, [⟨"say Hello $name$", 1⟩]⟩
  let e : ExpandedProcedure := ⟨id, [⟨guest, ⟨"say Hello you",
    [⟨"say", .literal "say"⟩, ⟨"message", .string "Hello you"⟩]⟩⟩]⟩
  let s₁ : Session := { start with held := [.template t] }
  let s₂ : Session := s₁.put 0 ((s₁.registries 0).add (.template t)).2
  let s₃ : Session := { s₂ with held := .expanded e :: s₂.held }
  let s₄ : Session := s₃.put 1 ((s₃.registries 1).add (.expanded e)).2
  let s₅ : Session := s₄.put 0 ((s₄.registries 0).merge (s₄.registries 1))
  have hmade : Procedure.ofLines id [⟨"say Hello $name$", 1⟩] ⟨guest, v.validate⟩ =
      .ok (.template t) := by decide +kernel
  have hran : (s₂.registries 0).invoke id (some ⟨[("name", .string "you")]⟩) ⟨guest, v.validate⟩ =
      .ok e := by decide +kernel
  have hrun : Relation.ReflTransGen (Step v) start s₅ :=
    .tail (.tail (.tail (.tail (.tail .refl (.keep (.lines hmade)))
      (.add 0 List.mem_cons_self)) (.keep (.invoked hran))) (.add 1 List.mem_cons_self))
      (.merge 0 1)
  have hget : (s₅.registries 0).get? id = some (.expanded e) := by decide +kernel
  have hinvoke : (s₅.registries 0).invoke id none ⟨.default, v.validate⟩ = .ok e := by
    decide +kernel
  obtain ⟨hstored, -⟩ := makes_of_run hrun 0 id
  exact ⟨v, s₅, id, e, hrun, by decide, hget, hinvoke, hstored e hget⟩

end Session
end CommandScript
