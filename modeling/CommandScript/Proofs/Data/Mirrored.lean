import CommandScript.Data.OfJson
import CommandScript.Proofs.Data.Insertion
import CommandScript.Proofs.Stages

/-! Arguments from JSON: the compound has the shape of the object that it comes from, and a null
anywhere in a value is found before anything else is wrong with it. -/
namespace CommandScript
open Numeric

namespace Json

/-- Members are in ascending order of their names, no two of which are equal. -/
def Ascending (members : List (String × Json)) : Prop :=
  members.Pairwise fun a b => compare a.1 b.1 = .lt

/-- The members of all objects, at any depth, are in ascending order. -/
inductive Ordered : Json → Prop
  | null : Ordered .null
  | bool (b : Bool) : Ordered (.bool b)
  | number (n : Number) : Ordered (.number n)
  | string (s : String) : Ordered (.string s)
  | array {items : List Json} (values : ∀ v ∈ items, Ordered v) : Ordered (.array items)
  | object {members : List (String × Json)} (ascending : Ascending members)
      (values : ∀ m ∈ members, Ordered m.2) : Ordered (.object members)

/-- No null occurs, at any depth. -/
inductive NullFree : Json → Prop
  | bool (b : Bool) : NullFree (.bool b)
  | number (n : Number) : NullFree (.number n)
  | string (s : String) : NullFree (.string s)
  | array {items : List Json} (values : ∀ v ∈ items, NullFree v) : NullFree (.array items)
  | object {members : List (String × Json)} (values : ∀ m ∈ members, NullFree m.2) :
      NullFree (.object members)

/-- A step into a value: to an item of an array, or to a member of an object. -/
inductive Step
  | index (n : Nat)
  | name (s : String)

def Step.text : Step → String
  | index n => "[" ++ natText n ++ "]"
  | name s => "." ++ s

def wayText : List Step → String
  | [] => ""
  | step :: way => step.text ++ wayText way

/-- The way to the null that comes first when all of a value is gone through, depth first. -/
inductive FirstNull : Json → List Step → Prop
  | here : FirstNull .null []
  | item {front back : List Json} {v : Json} {way : List Step}
      (earlier : ∀ u ∈ front, NullFree u) (first : FirstNull v way) :
      FirstNull (.array (front ++ v :: back)) (.index front.length :: way)
  | member {front back : List (String × Json)} {name : String} {v : Json} {way : List Step}
      (earlier : ∀ m ∈ front, NullFree m.2) (first : FirstNull v way) :
      FirstNull (.object (front ++ (name, v) :: back)) (.name name :: way)

/-- A typed value has the shape and the content of a JSON value. Truth values are bytes, and
integers have the narrowest type that holds them, from 32 bits on. -/
inductive Mirrors : Json → Value → Prop
  | true : Mirrors (.bool true) (.byte 1)
  | false : Mirrors (.bool false) (.byte 0)
  | int {n : Int} {i : Int32} (value : i.toInt = n) : Mirrors (.number (.integer n)) (.int i)
  | long {n : Int} {i : Int64} (wide : n < -2147483648 ∨ 2147483647 < n) (value : i.toInt = n) :
      Mirrors (.number (.integer n)) (.long i)
  | beyond {n : Int} (wide : n < -9223372036854775808 ∨ 9223372036854775807 < n) :
      Mirrors (.number (.integer n)) (.double (.ofInt .double n))
  | double (x : Binary64) : Mirrors (.number (.double x)) (.double x)
  | string (s : String) : Mirrors (.string s) (.string s)
  | list {items : List Json} {values : List Value} (members : List.Forall₂ Mirrors items values) :
      Mirrors (.array items) (.list values)
  | compound {members : List (String × Json)} {entries : List (String × Value)}
      (names : entries.map Prod.fst = members.map Prod.fst)
      (values : List.Forall₂ Mirrors (members.map Prod.snd) (entries.map Prod.snd)) :
      Mirrors (.object members) (.compound entries)

theorem Ascending.nodup_names {members : List (String × Json)} (h : Ascending members) :
    (members.map Prod.fst).Nodup := by
  rw [List.Nodup, List.pairwise_map]
  refine h.imp ?_
  intro a b hlt heq
  rw [heq, Std.ReflOrd.compare_self] at hlt
  cases hlt

end Json

namespace Value

theorem mirrors_ofInteger (n : Int) : (Json.number (.integer n)).Mirrors (ofInteger n) := by
  unfold ofInteger
  have hmin32 : Int32.minValue.toInt = -2147483648 := by decide
  have hmax32 : Int32.maxValue.toInt = 2147483647 := by decide
  have hmin64 : Int64.minValue.toInt = -9223372036854775808 := by decide
  have hmax64 : Int64.maxValue.toInt = 9223372036854775807 := by decide
  rw [hmin32, hmax32, hmin64, hmax64]
  split_ifs with h32 h64
  · exact .int (Int32.toInt_ofInt_of_le (by omega) (by omega))
  · exact .long (by omega) (Int64.toInt_ofInt_of_le (by omega) (by omega))
  · exact .beyond (by omega)

section Items

variable {path : String}

theorem ofItems_of_mirrors {items : List Json}
    (hitems : ∀ v ∈ items, ∀ path, ∃ x, ofJson path v = .ok x ∧ v.Mirrors x) (index : Nat) :
    ∃ values, ofItems path index items = .ok values ∧ List.Forall₂ Json.Mirrors items values := by
  induction items generalizing index with
  | nil => exact ⟨[], by rw [ofItems], .nil⟩
  | cons v rest ih =>
    obtain ⟨x, hx, hv⟩ := hitems v List.mem_cons_self (path ++ "[" ++ natText index ++ "]")
    obtain ⟨values, hvalues, hrest⟩ := ih (fun u hu => hitems u (List.mem_cons_of_mem v hu))
      (index + 1)
    refine ⟨x :: values, ?_, .cons hv hrest⟩
    rw [ofItems, bind_eq_ok_iff]
    refine ⟨x, hx, ?_⟩
    rw [bind_eq_ok_iff]
    exact ⟨values, hvalues, rfl⟩

/-- The first item that gives no value decides. -/
theorem ofItems_append_of_error {front back : List Json} {v : Json} {e : ArgumentsError}
    (hfront : ∀ u ∈ front, ∀ path, ∃ x, ofJson path u = .ok x) (index : Nat)
    (hv : ofJson (path ++ "[" ++ natText (index + front.length) ++ "]") v = .error e) :
    ofItems path index (front ++ v :: back) = .error e := by
  induction front generalizing index with
  | nil =>
    rw [List.length_nil, Nat.add_zero] at hv
    rw [List.nil_append, ofItems, hv]
    rfl
  | cons u front ih =>
    obtain ⟨x, hx⟩ := hfront u List.mem_cons_self (path ++ "[" ++ natText index ++ "]")
    have hindex : index + (u :: front).length = index + 1 + front.length := by
      rw [List.length_cons]
      omega
    rw [hindex] at hv
    have hrest := ih (fun u' hu' => hfront u' (List.mem_cons_of_mem u hu')) (index + 1) hv
    rw [List.cons_append, ofItems, hx]
    show (ofItems path (index + 1) (front ++ v :: back) >>= _) = _
    rw [hrest]
    rfl

end Items

section Members

variable {path : String}

theorem ofMembers_of_mirrors {members : List (String × Json)} {c : Compound}
    (hmembers : ∀ m ∈ members, ∀ path, ∃ x, ofJson path m.2 = .ok x ∧ m.2.Mirrors x)
    (hfresh : (c.names ++ members.map Prod.fst).Nodup) :
    ∃ entries, ofMembers path members c = .ok ⟨c.entries ++ entries⟩ ∧
      entries.map Prod.fst = members.map Prod.fst ∧
      List.Forall₂ Json.Mirrors (members.map Prod.snd) (entries.map Prod.snd) := by
  induction members generalizing c with
  | nil => exact ⟨[], by rw [ofMembers, List.append_nil], rfl, .nil⟩
  | cons m rest ih =>
    obtain ⟨name, v⟩ := m
    obtain ⟨x, hx, hv⟩ := hmembers (name, v) List.mem_cons_self (path ++ "." ++ name)
    have hname : name ∉ c.names := by
      intro hmem
      exact (List.nodup_append.mp hfresh).2.2 name hmem name List.mem_cons_self rfl
    have hinsert := c.insert_of_fresh hname x
    have hfresh' : ((c.insert name x).names ++ rest.map Prod.fst).Nodup := by
      rw [hinsert]
      simpa [Compound.names] using hfresh
    obtain ⟨entries, hentries, hnames, hvalues⟩ :=
      ih (fun m hm => hmembers m (List.mem_cons_of_mem _ hm)) hfresh'
    refine ⟨(name, x) :: entries, ?_, congrArg (name :: ·) hnames, .cons hv hvalues⟩
    rw [ofMembers, bind_eq_ok_iff]
    refine ⟨x, hx, ?_⟩
    rw [hentries, hinsert, List.append_assoc]
    rfl

theorem ofMembers_append_of_error {front back : List (String × Json)} {name : String} {v : Json}
    {e : ArgumentsError} (hfront : ∀ m ∈ front, ∀ path, ∃ x, ofJson path m.2 = .ok x)
    (hv : ofJson (path ++ "." ++ name) v = .error e) (c : Compound) :
    ofMembers path (front ++ (name, v) :: back) c = .error e := by
  induction front generalizing c with
  | nil =>
    rw [List.nil_append, ofMembers, hv]
    rfl
  | cons m front ih =>
    obtain ⟨name', u⟩ := m
    obtain ⟨x, hx⟩ := hfront (name', u) List.mem_cons_self (path ++ "." ++ name')
    rw [List.cons_append, ofMembers, hx]
    exact ih (fun m hm => hfront m (List.mem_cons_of_mem _ hm)) (c.insert name' x)

end Members

/-- Without nulls there is a value, whatever the path is called. -/
theorem exists_mirrors_of_nullFree {v : Json} (ordered : v.Ordered) (free : v.NullFree)
    (path : String) : ∃ x, ofJson path v = .ok x ∧ v.Mirrors x := by
  induction ordered generalizing path with
  | null => cases free
  | bool b =>
    cases b with
    | true => exact ⟨.byte 1, by rw [ofJson]; rfl, .true⟩
    | false => exact ⟨.byte 0, by rw [ofJson]; rfl, .false⟩
  | number n =>
    cases n with
    | integer n => exact ⟨ofInteger n, by rw [ofJson], mirrors_ofInteger n⟩
    | double x => exact ⟨.double x, by rw [ofJson], .double x⟩
  | string s => exact ⟨.string s, by rw [ofJson], .string s⟩
  | array _ ih =>
    cases free with
    | array values =>
      obtain ⟨xs, hxs, hmirrors⟩ := ofItems_of_mirrors
        (fun v hv path => ih v hv (values v hv) path) 0
      exact ⟨.list xs, by rw [ofJson, hxs]; rfl, .list hmirrors⟩
  | @object members ascending _ ih =>
    cases free with
    | object values =>
      have hfresh : (Compound.empty.names ++ members.map Prod.fst).Nodup :=
        ascending.nodup_names
      obtain ⟨entries, hentries, hnames, hmirrors⟩ := ofMembers_of_mirrors
        (fun m hm path => ih m hm (values m hm) path) hfresh
      exact ⟨.compound entries, by rw [ofJson, hentries]; rfl, .compound hnames hmirrors⟩

theorem exists_ofJson_of_nullFree {v : Json} (ordered : v.Ordered) (free : v.NullFree)
    (path : String) : ∃ x, ofJson path v = .ok x := by
  obtain ⟨x, hx, -⟩ := exists_mirrors_of_nullFree ordered free path
  exact ⟨x, hx⟩

/-- The first null is what a value is refused for. -/
theorem ofJson_of_firstNull {v : Json} {way : List Json.Step} (first : v.FirstNull way)
    (ordered : v.Ordered) (path : String) :
    ofJson path v = .error (.nullValue (path ++ Json.wayText way)) := by
  induction first generalizing path with
  | here => rw [ofJson, Json.wayText, String.append_empty]
  | @item front back v way earlier first ih =>
    cases ordered with
    | array values =>
      have hfront : ∀ u ∈ front, ∀ path, ∃ x, ofJson path u = .ok x := fun u hu =>
        exists_ofJson_of_nullFree (values u (List.mem_append_left _ hu)) (earlier u hu)
      have hv := ih (values v (List.mem_append_right _ List.mem_cons_self))
        (path ++ "[" ++ natText (0 + front.length) ++ "]")
      rw [ofJson, ofItems_append_of_error hfront 0 hv, Nat.zero_add]
      simp [Json.wayText, Json.Step.text, Except.map, String.append_assoc]
  | @member front back name v way earlier first ih =>
    cases ordered with
    | object _ values =>
      have hfront : ∀ m ∈ front, ∀ path, ∃ x, ofJson path m.2 = .ok x := fun m hm =>
        exists_ofJson_of_nullFree (values m (List.mem_append_left _ hm)) (earlier m hm)
      have hv := ih (values (name, v) (List.mem_append_right _ List.mem_cons_self))
        (path ++ "." ++ name)
      rw [ofJson, ofMembers_append_of_error hfront hv]
      simp [Json.wayText, Json.Step.text, Except.map, String.append_assoc]

end Value

/-- All members of a list have a property, or there is a first one that does not. -/
theorem forall_or_exists_first {α : Type} {p q : α → Prop} {xs : List α}
    (h : ∀ x ∈ xs, p x ∨ q x) :
    (∀ x ∈ xs, p x) ∨ ∃ front x back, xs = front ++ x :: back ∧ (∀ y ∈ front, p y) ∧ q x := by
  induction xs with
  | nil => exact .inl nofun
  | cons x rest ih =>
    rcases h x List.mem_cons_self with hp | hq
    · rcases ih fun y hy => h y (List.mem_cons_of_mem x hy) with hall | hfirst
      · exact .inl (List.forall_mem_cons.mpr ⟨hp, hall⟩)
      · obtain ⟨front, y, back, hrest, hfront, hy⟩ := hfirst
        exact .inr ⟨x :: front, y, back, congrArg (x :: ·) hrest,
          List.forall_mem_cons.mpr ⟨hp, hfront⟩, hy⟩
    · exact .inr ⟨[], x, rest, rfl, nofun, hq⟩

namespace Json

/-- If a null occurs in a value, one comes first. -/
theorem Ordered.nullFree_or_firstNull {v : Json} (ordered : v.Ordered) :
    v.NullFree ∨ ∃ way, v.FirstNull way := by
  induction ordered with
  | null => exact .inr ⟨[], .here⟩
  | bool b => exact .inl (.bool b)
  | number n => exact .inl (.number n)
  | string s => exact .inl (.string s)
  | array _ ih =>
    rcases forall_or_exists_first ih with hall | hfirst
    · exact .inl (.array hall)
    · obtain ⟨front, v, back, rfl, hfront, way, hway⟩ := hfirst
      exact .inr ⟨_, .item hfront hway⟩
  | object _ _ ih =>
    rcases forall_or_exists_first ih with hall | hfirst
    · exact .inl (.object hall)
    · obtain ⟨front, ⟨name, v⟩, back, rfl, hfront, way, hway⟩ := hfirst
      exact .inr ⟨_, .member hfront hway⟩

section Sorted

variable {name : String} {value : Json} {members : List (String × Json)}

theorem mem_of_mem_insertMember {m : String × Json}
    (h : m ∈ insertMember name value members) : m = (name, value) ∨ m ∈ members := by
  induction members with
  | nil => exact .inl (List.mem_singleton.mp h)
  | cons m' rest ih =>
    obtain ⟨name', value'⟩ := m'
    rw [insertMember] at h
    split at h
    · exact List.mem_cons.mp h
    · rcases List.mem_cons.mp h with heq | hrest
      · exact .inl heq
      · exact .inr (List.mem_cons_of_mem _ hrest)
    · rcases List.mem_cons.mp h with heq | hrest
      · exact .inr (heq ▸ List.mem_cons_self)
      · rcases ih hrest with heq | hmem
        · exact .inl heq
        · exact .inr (List.mem_cons_of_mem _ hmem)

theorem Ascending.insertMember (h : Ascending members) :
    Ascending (insertMember name value members) := by
  induction members with
  | nil => exact List.pairwise_singleton _ _
  | cons m rest ih =>
    obtain ⟨name', value'⟩ := m
    obtain ⟨hfirst, hrest⟩ := List.pairwise_cons.mp h
    rw [Json.insertMember]
    split
    · next hlt =>
      refine List.pairwise_cons.mpr ⟨?_, h⟩
      intro m hm
      rcases List.mem_cons.mp hm with rfl | hm
      · exact hlt
      · exact Std.TransCmp.lt_trans hlt (hfirst m hm)
    · next heq =>
      rw [Std.LawfulEqOrd.eq_of_compare heq]
      exact List.pairwise_cons.mpr ⟨hfirst, hrest⟩
    · next hgt =>
      refine List.pairwise_cons.mpr ⟨?_, ih hrest⟩
      intro m hm
      rcases mem_of_mem_insertMember hm with rfl | hm
      · exact Std.OrientedCmp.gt_iff_lt.mp hgt
      · exact hfirst m hm

theorem sortedItems_eq_map (items : List Json) : sortedItems items = items.map sorted := by
  induction items with
  | nil => rw [sortedItems, List.map_nil]
  | cons v rest ih => rw [sortedItems, List.map_cons, ih]

theorem ordered_sortedMembers {done : List (String × Json)}
    (hmembers : ∀ m ∈ members, m.2.sorted.Ordered) (hdone : Ascending done)
    (hvalues : ∀ m ∈ done, m.2.Ordered) : (object (sortedMembers members done)).Ordered := by
  induction members generalizing done with
  | nil =>
    rw [sortedMembers]
    exact .object hdone hvalues
  | cons m rest ih =>
    obtain ⟨name, v⟩ := m
    rw [sortedMembers]
    refine ih (fun m hm => hmembers m (List.mem_cons_of_mem _ hm)) hdone.insertMember ?_
    intro m hm
    rcases mem_of_mem_insertMember hm with rfl | hm
    · exact hmembers (name, v) List.mem_cons_self
    · exact hvalues m hm

end Sorted

/-- What is sorted is in order. -/
theorem ordered_sorted (v : Json) : v.sorted.Ordered := by
  induction hsize : sizeOf v using Nat.strongRecOn generalizing v with
  | _ size ih =>
    subst hsize
    cases v with
    | null => exact .null
    | bool b => exact .bool b
    | number n => exact .number n
    | string s => exact .string s
    | array items =>
      rw [sorted, sortedItems_eq_map]
      refine .array ?_
      intro v' hv'
      obtain ⟨v, hv, rfl⟩ := List.mem_map.mp hv'
      have hlt := List.sizeOf_lt_of_mem hv
      exact ih _ (by rw [array.sizeOf_spec]; omega) v rfl
    | object members =>
      rw [sorted]
      refine ordered_sortedMembers ?_ List.Pairwise.nil nofun
      intro m hm
      have hlt := List.sizeOf_lt_of_mem hm
      obtain ⟨name, v⟩ := m
      rw [Prod.mk.sizeOf_spec] at hlt
      exact ih _ (by rw [object.sizeOf_spec]; omega) v rfl

end Json

namespace Compound

variable {v : Json}

theorem ofJson_of_firstNull {way : List Json.Step} (ordered : v.Ordered)
    (first : v.FirstNull way) : ofJson v = .error (.nullValue ("$" ++ Json.wayText way)) := by
  rw [ofJson, Value.ofJson_of_firstNull first ordered]
  rfl

theorem exists_mirrors_of_object {members : List (String × Json)}
    (ordered : (Json.object members).Ordered) (free : (Json.object members).NullFree) :
    ∃ c, ofJson (.object members) = .ok c ∧ (Json.object members).Mirrors c.toValue := by
  obtain ⟨x, hx, hmirrors⟩ := Value.exists_mirrors_of_nullFree ordered free "$"
  cases hmirrors with
  | @compound _ entries names values =>
    refine ⟨⟨entries⟩, ?_, .compound names values⟩
    rw [ofJson, hx]
    rfl

theorem ofJson_of_not_object (ordered : v.Ordered) (free : v.NullFree)
    (hobject : ∀ members, v ≠ .object members) : ofJson v = .error .notAnObject := by
  obtain ⟨x, hx, hmirrors⟩ := Value.exists_mirrors_of_nullFree ordered free "$"
  rw [ofJson, hx]
  cases hmirrors with
  | compound names values => exact absurd rfl (hobject _)
  | _ => rfl

/-- An object without nulls becomes a compound of the same shape. A null is reported with the way to
the first one, before it is noticed that a value is no object. -/
theorem ofJson_mirrors (ordered : v.Ordered) :
    ((∃ c, ofJson v = .ok c) ↔ (∃ members, v = .object members) ∧ v.NullFree) ∧
    (v.NullFree ∨ ∃ way, v.FirstNull way) ∧
    (∀ way, v.FirstNull way → ofJson v = .error (.nullValue ("$" ++ Json.wayText way))) ∧
    (v.NullFree → (∀ members, v ≠ .object members) → ofJson v = .error .notAnObject) ∧
    ∀ c, ofJson v = .ok c → v.Mirrors c.toValue := by
  have hobject : ∀ c, ofJson v = .ok c → v.NullFree ∧ ∃ members, v = .object members := by
    intro c hc
    rcases ordered.nullFree_or_firstNull with free | ⟨way, first⟩
    · refine ⟨free, ?_⟩
      by_contra hnot
      rw [ofJson_of_not_object ordered free fun members h => hnot ⟨members, h⟩] at hc
      cases hc
    · rw [ofJson_of_firstNull ordered first] at hc
      cases hc
  refine ⟨⟨?_, ?_⟩, ordered.nullFree_or_firstNull, fun _ => ofJson_of_firstNull ordered,
    ofJson_of_not_object ordered, ?_⟩
  · rintro ⟨c, hc⟩
    exact (hobject c hc).symm
  · rintro ⟨⟨members, rfl⟩, free⟩
    obtain ⟨c, hc, -⟩ := exists_mirrors_of_object ordered free
    exact ⟨c, hc⟩
  · intro c hc
    obtain ⟨free, members, rfl⟩ := hobject c hc
    obtain ⟨c', hc', hmirrors⟩ := exists_mirrors_of_object ordered free
    rw [hc] at hc'
    cases hc'
    exact hmirrors

/-- Of two nulls the one under the lesser name counts, although it is written last, and it goes
before the complaint that a list is no object. -/
theorem ofJson_mirrors_two_nulls :
    let v := (Json.array [.nat 1, .object [("b", .null), ("a", .null)]]).sorted
    v.Ordered ∧ v.FirstNull [.index 1, .name "a"] ∧ ofJson v = .error (.nullValue "$[1].a") := by
  intro v
  have ordered : v.Ordered := Json.ordered_sorted _
  have hsorted : v = .array ([.nat 1] ++
      .object ([] ++ ("a", .null) :: [("b", .null)]) :: []) := by rfl
  have first : v.FirstNull [.index 1, .name "a"] := by
    rw [hsorted]
    refine .item ?_ (.member nofun .here)
    intro u hu
    rw [List.mem_singleton.mp hu]
    exact .number _
  have herror := (ofJson_mirrors ordered).2.2.1 _ first
  have hway : "$" ++ Json.wayText [.index 1, .name "a"] = "$[1].a" := by decide
  rw [hway] at herror
  exact ⟨ordered, first, herror⟩

end Compound
end CommandScript
