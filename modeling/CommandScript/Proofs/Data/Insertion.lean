import Mathlib.Data.Finset.Card
import CommandScript.Proofs.Template.Names

/-! Compounds as maps that keep the order of their names. Whatever values have been put in, each
name has one entry, at the place where it first came in, with the value that came in last. -/
namespace CommandScript.Compound
open Template

/-- Entries with other names are passed over. -/
theorem exchangeIn_append {name : String} {front : List (String × Value)}
    (h : name ∉ front.map Prod.fst) (value : Value) (rest : List (String × Value)) :
    exchangeIn name value (front ++ rest) =
      ((exchangeIn name value rest).1, front ++ (exchangeIn name value rest).2) := by
  induction front with
  | nil => rfl
  | cons e front ih =>
    obtain ⟨name', value'⟩ := e
    rw [List.map_cons, List.mem_cons, not_or] at h
    rw [List.cons_append, exchangeIn, if_neg (Ne.symm h.1), ih h.2]
    rfl

section
variable (entries : List (String × Value)) (name : String)

theorem lookup_eq_none_iff_not_mem : entries.lookup name = none ↔ name ∉ entries.map Prod.fst := by
  rw [List.lookup_eq_none_iff, List.mem_map]
  constructor
  · rintro hall ⟨e, he, rfl⟩
    exact absurd (hall e he) (by simp)
  · intro hnone e he
    exact bne_iff_ne.mpr fun heq => hnone ⟨e, he, heq.symm⟩

/-- What is found under a name is the value of the first entry with this name. -/
theorem lookup_eq_some_iff_split (value : Value) :
    entries.lookup name = some value ↔
      ∃ front back, entries = front ++ (name, value) :: back ∧ name ∉ front.map Prod.fst := by
  rw [List.lookup_eq_some_iff]
  refine exists₂_congr fun front back => and_congr_right fun _ => ?_
  rw [← List.lookup_eq_none_iff, lookup_eq_none_iff_not_mem]

theorem lookup_reverse_eq_some_iff_split (value : Value) :
    entries.reverse.lookup name = some value ↔
      ∃ before behind, entries = before ++ (name, value) :: behind ∧
        name ∉ behind.map Prod.fst := by
  rw [lookup_eq_some_iff_split]
  constructor
  · rintro ⟨front, back, hsplit, hfront⟩
    refine ⟨back.reverse, front.reverse, ?_, by simpa using hfront⟩
    rw [← List.reverse_reverse entries, hsplit]
    simp
  · rintro ⟨before, behind, rfl, hbehind⟩
    exact ⟨behind.reverse, before.reverse, by simp, by simpa using hbehind⟩

theorem lookup_cons_eq (other : String) (value : Value) :
    List.lookup other ((name, value) :: entries) =
      if other = name then some value else List.lookup other entries := by
  by_cases h : other = name
  · rw [h, List.lookup_cons_self, if_pos rfl]
  · rw [List.lookup_cons, beq_false_of_ne h, if_neg h]

end

section
variable (c : Compound) (name : String)

/-- A new name comes last. -/
theorem exchange_of_fresh {name : String} (h : name ∉ c.names) (value : Value) :
    c.exchange name value = (none, ⟨c.entries ++ [(name, value)]⟩) := by
  have happend := exchangeIn_append h value []
  rw [List.append_nil] at happend
  rw [exchange, happend]
  rfl

theorem insert_of_fresh {name : String} (h : name ∉ c.names) (value : Value) :
    c.insert name value = ⟨c.entries ++ [(name, value)]⟩ := by
  rw [insert, c.exchange_of_fresh h]

/-- A value takes the place of the first one under its name, or comes last. -/
theorem exchange_cases (value : Value) :
    (name ∉ c.names ∧ c.get? name = none ∧
      c.exchange name value = (none, ⟨c.entries ++ [(name, value)]⟩)) ∨
    ∃ front old back, c.entries = front ++ (name, old) :: back ∧ name ∉ front.map Prod.fst ∧
      c.get? name = some old ∧
      c.exchange name value = (some old, ⟨front ++ (name, value) :: back⟩) := by
  cases hget : c.get? name with
  | none =>
    have hfresh : name ∉ c.names := (lookup_eq_none_iff_not_mem c.entries name).mp hget
    exact Or.inl ⟨hfresh, rfl, c.exchange_of_fresh hfresh value⟩
  | some old =>
    obtain ⟨front, back, hc, hfront⟩ := (lookup_eq_some_iff_split c.entries name old).mp hget
    refine Or.inr ⟨front, old, back, hc, hfront, rfl, ?_⟩
    rw [exchange, hc, exchangeIn_append hfront, exchangeIn, if_pos rfl]

/-- What is given back is the value that was there. -/
theorem exchange_fst (value : Value) : (c.exchange name value).1 = c.get? name := by
  obtain ⟨-, hget, hc⟩ | ⟨front, old, back, -, -, hget, hc⟩ := c.exchange_cases name value
  · rw [hc, hget]
  · rw [hc, hget]

theorem names_insert (value : Value) :
    (c.insert name value).names = if name ∈ c.names then c.names else c.names ++ [name] := by
  rw [insert]
  obtain ⟨hname, -, hinsert⟩ | ⟨front, old, back, hc, -, -, hinsert⟩ := c.exchange_cases name value
  · rw [hinsert, if_neg hname, names, names, List.map_append]
    rfl
  · have hmem : name ∈ c.names := by simp [names, hc]
    rw [hinsert, if_pos hmem, names, names, hc, List.map_append, List.map_append]
    rfl

/-- Other names keep their values. -/
theorem get?_insert (value : Value) (other : String) :
    (c.insert name value).get? other = if other = name then some value else c.get? other := by
  rw [insert]
  obtain ⟨-, hget, hinsert⟩ | ⟨front, old, back, hc, hfront, -, hinsert⟩ :=
    c.exchange_cases name value
  · rw [hinsert, get?, List.lookup_append, lookup_cons_eq]
    split_ifs with h
    · subst h
      rw [← get?, hget]
      rfl
    · rw [List.lookup_nil, Option.or_none, get?]
  · rw [hinsert, get?, get?, hc, List.lookup_append, List.lookup_append, lookup_cons_eq,
      lookup_cons_eq]
    split_ifs with h
    · have hbefore : List.lookup other front = none :=
        (lookup_eq_none_iff_not_mem front other).mpr (h ▸ hfront)
      rw [hbefore, Option.none_or]
    · rfl

theorem getElem?_insert (value : Value) {e : String × Value} (h : e.1 ≠ name) (i : Nat) :
    (c.insert name value).entries[i]? = some e ↔ c.entries[i]? = some e := by
  have hne : ∀ v, (name, v) ≠ e := by
    rintro v rfl
    exact h rfl
  rw [insert]
  obtain ⟨-, -, hinsert⟩ | ⟨front, old, back, hc, -, -, hinsert⟩ := c.exchange_cases name value
  · rw [hinsert]
    dsimp only
    rw [List.getElem?_append]
    split_ifs with hi
    · rfl
    · rw [List.getElem?_eq_none (Nat.not_lt.mp hi), List.getElem?_singleton]
      split_ifs
      · simp [hne]
      · rfl
  · rw [hinsert, hc]
    dsimp only
    rw [List.getElem?_append, List.getElem?_append]
    split_ifs
    · rfl
    · rw [List.getElem?_cons, List.getElem?_cons]
      split_ifs
      · simp [hne]
      · rfl

end

/-- A compound into which values have been put, one after another: those of the list, in its order.
A list of entries makes up a compound at once; one value at a time is put in with or without asking
for the value that was there. -/
inductive Built : List (String × Value) → Compound → Prop
  | ofList (entries : List (String × Value)) : Built entries (ofList entries)
  | exchange {history : List (String × Value)} {c : Compound} (built : Built history c)
      (name : String) (value : Value) :
      Built (history ++ [(name, value)]) (c.exchange name value).2
  | insert {history : List (String × Value)} {c : Compound} (built : Built history c)
      (name : String) (value : Value) :
      Built (history ++ [(name, value)]) (c.insert name value)

/-- What a compound holds after values have been put in: each name once, and its latest value. -/
structure Records (history : List (String × Value)) (c : Compound) : Prop where
  names_eq : c.names = (history.map Prod.fst).eraseDups
  latest : ∀ name, c.get? name = history.reverse.lookup name

theorem records_empty : Records [] empty := ⟨rfl, fun _ => rfl⟩

theorem Records.insert {history : List (String × Value)} {c : Compound} (h : Records history c)
    (name : String) (value : Value) :
    Records (history ++ [(name, value)]) (c.insert name value) := by
  constructor
  · have hmem : name ∈ c.names ↔ name ∈ history.map Prod.fst := by
      rw [h.names_eq, List.mem_eraseDups]
    rw [names_insert, List.map_append, List.map_singleton, eraseDups_append_singleton, ← h.names_eq]
    simp only [hmem]
  · intro other
    rw [get?_insert, h.latest, List.reverse_append, List.reverse_singleton, List.singleton_append,
      lookup_cons_eq]

/-- However a compound has been built, it holds what has been put in. -/
theorem Built.records {history : List (String × Value)} {c : Compound} (h : Built history c) :
    Records history c := by
  induction h with
  | ofList entries =>
    -- The entries go in from the front, so that the last of them is the latest step.
    induction entries using List.reverseRecOn with
    | nil => exact records_empty
    | append_singleton entries e ih =>
      rw [Compound.ofList, List.foldl_append]
      exact ih.insert e.1 e.2
  | exchange built name value ih => exact ih.insert name value
  | insert built name value ih => exact ih.insert name value

/-- A compound is a map in the order of insertion. Its names are those that have been put in, each
once and in the order in which they first came in; under each there is the value that came in last.
Another value that is put in gives back what was there under its name, and leaves all other entries
as they are and where they are. -/
theorem Built.keeps_order_and_latest {history : List (String × Value)} {c : Compound}
    (h : Built history c) :
    c.names.Nodup ∧
    FirstOccurrences (history.map Prod.fst) c.names ∧
    (∀ name value, c.get? name = some value ↔
      ∃ before behind, history = before ++ (name, value) :: behind ∧
        name ∉ behind.map Prod.fst) ∧
    (∀ name, c.get? name = none ↔ name ∉ history.map Prod.fst) ∧
    (∀ name, c.contains name = true ↔ ∃ value, c.get? name = some value) ∧
    c.size = (history.map Prod.fst).toFinset.card ∧
    ∀ name value,
      (c.exchange name value).1 = c.get? name ∧
      ∀ (i : Nat) (e : String × Value), e.1 ≠ name →
        ((c.exchange name value).2.entries[i]? = some e ↔ c.entries[i]? = some e) := by
  have hrecords := h.records
  have hfirst : FirstOccurrences (history.map Prod.fst) c.names := by
    rw [hrecords.names_eq]
    exact firstOccurrences_eraseDups _
  have hnames : c.names.toFinset = (history.map Prod.fst).toFinset := by
    ext name
    rw [List.mem_toFinset, List.mem_toFinset, hfirst.mem_iff]
  refine ⟨hfirst.nodup, hfirst, ?_, ?_, ?_, ?_, ?_⟩
  · intro name value
    rw [hrecords.latest, lookup_reverse_eq_some_iff_split]
  · intro name
    rw [get?, lookup_eq_none_iff_not_mem, ← names, hfirst.mem_iff]
  · intro name
    exact Option.isSome_iff_exists
  · rw [← hnames, List.toFinset_card_of_nodup hfirst.nodup, names, List.length_map, size]
  · intro name value
    exact ⟨c.exchange_fst name value, fun i e he => c.getElem?_insert name value he i⟩

/-- The place of a name stays when another value is put in under it. -/
theorem Built.keeps_order_and_latest_replaced :
    let c := ((Compound.ofList [("kind", .byte 1), ("size", .byte 2)]).exchange "kind" (.byte 3)).2
    Built [("kind", .byte 1), ("size", .byte 2), ("kind", .byte 3)] c ∧
      FirstOccurrences ["kind", "size", "kind"] c.names ∧ c.get? "kind" = some (.byte 3) ∧
      c.size = 2 := by
  intro c
  have hbuilt : Built [("kind", .byte 1), ("size", .byte 2), ("kind", .byte 3)] c :=
    .exchange (.ofList [("kind", .byte 1), ("size", .byte 2)]) "kind" (.byte 3)
  obtain ⟨-, hfirst, hget, -, -, hsize, -⟩ := hbuilt.keeps_order_and_latest
  have hkind := (hget "kind" (.byte 3)).mpr
    ⟨[("kind", .byte 1), ("size", .byte 2)], [], rfl, List.not_mem_nil⟩
  exact ⟨hbuilt, hfirst, hkind, hsize.trans (by decide)⟩

end CommandScript.Compound
