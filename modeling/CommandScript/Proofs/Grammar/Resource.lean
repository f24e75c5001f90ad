import CommandScript.Proofs.Identifiers
import CommandScript.Proofs.Grammar.Dispatch

/-! Resource locations and identifiers: both readers take the same texts, and give them the same
parts. -/
namespace CommandScript

namespace Identifier

/-- A text is a path, or a namespace and a path with a colon between them. -/
inductive Location : String → Option String → String → Prop
  | bare {path : String} (hpath : IsOver isPathChar path) : Location path none path
  | qualified {space path : String} (hspace : IsOver isSpaceChar space)
      (hpath : IsOver isPathChar path) : Location (join space path) (some space) path

/-- A location has a namespace if and only if it has a colon. -/
theorem Location.colon_mem_iff {s path : String} {space : Option String}
    (h : Location s space path) : ':' ∈ s.toList ↔ space ≠ none := by
  cases h with
  | bare hpath =>
    have hno := hpath.not_mem (c := ':') (by decide)
    simp [hno]
  | qualified hspace hpath => simp [toList_join]

/-- No location has a space, so a word holds the whole of it. -/
theorem Location.forall_isTokenChar {s path : String} {space : Option String}
    (h : Location s space path) : ∀ c ∈ s.toList, Grammar.isTokenChar c = true := by
  have hspace : ' ' ∉ s.toList := by
    cases h with
    | bare hpath => exact hpath.not_mem (by decide)
    | qualified hspace hpath =>
      rw [toList_join, List.mem_append, List.mem_cons]
      rintro (h | h | h)
      · exact hspace.not_mem (by decide) h
      · cases h
      · exact hpath.not_mem (by decide) h
  intro c hc
  simpa [Grammar.isTokenChar] using fun heq : c = ' ' => hspace (heq ▸ hc)

theorem Location.ne_nil {s path : String} {space : Option String} (h : Location s space path) :
    s.toList ≠ [] := by
  cases h with
  | bare hpath => exact hpath.1
  | qualified hspace hpath => simp [toList_join]

theorem isOver_defaultSpace : IsOver isSpaceChar defaultSpace :=
  ⟨by decide, List.all_eq_true.mp (by decide)⟩

/-- Identifiers are read from locations; one without a namespace gets the usual one. -/
theorem parse_eq_ok_iff (s : String) (id : Identifier) :
    parse s = .ok id ↔ ∃ space, Location s space id.path ∧ id.space = space.getD defaultSpace := by
  constructor
  · intro h
    by_cases hcolon : ':' ∈ s.toList
    · obtain ⟨space, path, hs, hspace⟩ := List.eq_append_cons_of_mem hcolon
      rw [parse, parseWithDefault_of_colon hs hspace] at h
      obtain ⟨hspaceOver, hpathOver, hidspace, hidpath⟩ := ofParts_eq_ok_iff.mp h
      have hjoin : s = join id.space id.path := by
        apply String.toList_inj.mp
        rw [hs, toList_join, hidspace, hidpath, String.toList_ofList, String.toList_ofList]
      rw [hjoin]
      exact ⟨some id.space, .qualified id.space_isOver id.path_isOver, rfl⟩
    · rw [parse, parseWithDefault_of_no_colon hcolon] at h
      obtain ⟨-, hpath, hidspace, hidpath⟩ := ofParts_eq_ok_iff.mp h
      rw [hidpath]
      exact ⟨none, .bare hpath, hidspace⟩
  · rintro ⟨space, hlocation, hspace⟩
    generalize hpath : id.path = path at hlocation
    cases hlocation with
    | bare hover =>
      rw [parse, parseWithDefault_of_no_colon (hover.not_mem (by decide))]
      exact ofParts_eq_ok_iff.mpr ⟨isOver_defaultSpace, hover, hspace, hpath⟩
    | @qualified space _ hspaceOver hpathOver =>
      have hno := hspaceOver.not_mem (c := ':') (by decide)
      rw [parse, parseWithDefault_join hno]
      exact ofParts_eq_ok_iff.mpr ⟨hspaceOver, hpathOver, hspace, hpath⟩

/-- Every location belongs to an identifier. -/
theorem Location.exists_identifier {s path : String} {space : Option String}
    (h : Location s space path) : ∃ id, parse s = .ok id := by
  cases h with
  | bare hpath =>
    exact ⟨⟨defaultSpace, _, isOver_defaultSpace, hpath⟩,
      (parse_eq_ok_iff _ _).mpr ⟨none, .bare hpath, rfl⟩⟩
  | qualified hspace hpath =>
    exact ⟨⟨_, _, hspace, hpath⟩,
      (parse_eq_ok_iff _ _).mpr ⟨some _, .qualified hspace hpath, rfl⟩⟩

end Identifier

namespace Grammar
open Identifier

/-- The namespaces of resources and of identifiers have the same alphabet. -/
theorem isResourceSpaceChar_eq : isResourceSpaceChar = isSpaceChar := by
  funext c
  rw [isResourceSpaceChar, isSpaceChar]

/-- The paths of resources and of identifiers have the same alphabet. -/
theorem isResourcePathChar_eq : isResourcePathChar = isPathChar := by
  funext c
  rw [isResourcePathChar, isPathChar, isResourceSpaceChar_eq]

/-- Resources are read from locations. -/
theorem readResource_eq_some_iff (s path : String) (space : Option String) :
    readResource s.toList = some (space, path) ↔ Location s space path := by
  constructor
  · intro h
    unfold readResource at h
    rw [isResourceSpaceChar_eq, isResourcePathChar_eq] at h
    dsimp only at h
    split at h
    · next behind hdrop =>
      split_ifs at h with hparts
      cases h
      simp only [Bool.and_eq_true, Bool.not_eq_true', List.isEmpty_eq_false_iff,
        List.all_eq_true] at hparts
      obtain ⟨hspace, hpath, hall⟩ := hparts
      have hsplit : s = join (String.ofList (s.toList.takeWhile isSpaceChar))
          (String.ofList behind) := by
        apply String.toList_inj.mp
        rw [toList_join, String.toList_ofList, String.toList_ofList, ← hdrop,
          List.takeWhile_append_dropWhile]
      have hspaceOver : IsOver isSpaceChar (String.ofList (s.toList.takeWhile isSpaceChar)) :=
        ⟨by simpa using hspace, by simpa using List.all_eq_true.mp List.all_takeWhile⟩
      have hpathOver : IsOver isPathChar (String.ofList behind) :=
        ⟨by simpa using hpath, by simpa using hall⟩
      have hlocation := Location.qualified hspaceOver hpathOver
      rwa [← hsplit] at hlocation
    · split_ifs at h with hpath
      cases h
      simp only [Bool.and_eq_true, Bool.not_eq_true', List.isEmpty_eq_false_iff,
        List.all_eq_true] at hpath
      rw [String.ofList_toList]
      exact .bare hpath
  · intro h
    unfold readResource
    rw [isResourceSpaceChar_eq, isResourcePathChar_eq]
    dsimp only
    cases h with
    | bare hpath =>
      have hcolon : ':' ∉ s.toList := hpath.not_mem (by decide)
      have hall := List.all_eq_true.mpr hpath.2
      split
      · next behind hdrop =>
        have hmem : ':' ∈ s.toList.dropWhile isSpaceChar := by
          rw [hdrop]
          exact List.mem_cons_self
        exact absurd ((List.dropWhile_suffix _).subset hmem) hcolon
      · simp [hpath.1, hall]
    | @qualified space _ hspace hpath =>
      have hcolon : isSpaceChar ':' = false := by decide
      obtain ⟨htake, hdrop⟩ := (Text.splits_iff isSpaceChar _ _ _).mpr
        ⟨toList_join space path, hspace.2, by simpa using hcolon⟩
      have hall := List.all_eq_true.mpr hpath.2
      rw [htake, hdrop]
      simp [hspace.1, hpath.1, hall]

theorem location_unique {s path path' : String} {space space' : Option String}
    (h : Location s space path) (h' : Location s space' path') : space = space' ∧ path = path' := by
  have hread := (readResource_eq_some_iff s path space).mpr h
  rw [(readResource_eq_some_iff s path' space').mpr h'] at hread
  cases hread
  exact ⟨rfl, rfl⟩

theorem Kind.readToken_resource_eq_ok_iff (s : String) (value : Argument) :
    resource.readToken s.toList = .ok value ↔
      ∃ space path, Location s space path ∧ value = .resource space path := by
  simp only [← readResource_eq_some_iff, readToken]
  cases hr : readResource s.toList with
  | none => simp
  | some r =>
    obtain ⟨space, path⟩ := r
    simp [eq_comm]

/-- As an argument, a location is read up to the end of the text. -/
theorem Kind.read_resource_eq_ok_iff (s : String) (value : Argument) :
    resource.read s.toList = .ok (value, []) ↔
      ∃ space path, Location s space path ∧ value = .resource space path := by
  have hread : resource.read s.toList = resource.readWord s.toList := rfl
  have htoken := readToken_resource_eq_ok_iff s value
  rw [hread, readWord_eq_ok_iff]
  constructor
  · rintro ⟨-, hvalue, hrest⟩
    have hall := List.dropWhile_eq_nil_iff.mp hrest
    rw [List.takeWhile_eq_self_iff.mpr hall] at hvalue
    exact htoken.mp hvalue
  · rintro ⟨space, path, hlocation, rfl⟩
    have hall := hlocation.forall_isTokenChar
    rw [List.takeWhile_eq_self_iff.mpr hall]
    exact ⟨hlocation.ne_nil, htoken.mpr ⟨space, path, hlocation, rfl⟩,
      List.dropWhile_eq_nil_iff.mpr hall⟩

/-- In front of a space, a literal takes its own word and no other. -/
theorem Element.read_literal_eq_ok_iff {word : List Char} (h : ∀ c ∈ word, c ≠ ' ')
    (text : String) (first : Bool) (behind rest : List Char) (value : Argument) :
    (literal text).read first (word ++ ' ' :: behind) = .ok (value, rest) ↔
      word = text.toList ∧ value = .literal text ∧ rest = ' ' :: behind := by
  obtain ⟨htake, hdrop⟩ :=
    (splits_word_iff _ word (' ' :: behind)).mpr ⟨rfl, h, Or.inr ⟨behind, rfl⟩⟩
  simp only [read]
  rw [htake, hdrop]
  split_ifs with hword
  · simp [hword, eq_comm]
  · simp [hword]

theorem matches_singleton_iff (e : Element) (cs : List Char) (nodes : List Node) :
    Matches [e] cs nodes ↔
      ∃ value, e.read false cs = .ok (value, []) ∧ nodes = [⟨e.name, value⟩] := by
  rw [matches_cons_iff false]
  constructor
  · rintro ⟨value, rest, others, hread, rfl, ⟨-, rfl, rfl⟩ | ⟨behind, -, hothers⟩⟩
    · exact ⟨value, hread, rfl⟩
    · cases hothers
  · rintro ⟨value, hread, rfl⟩
    exact ⟨value, [], [], hread, rfl, Or.inl ⟨rfl, rfl, rfl⟩⟩

namespace Tree

theorem filter_paths_builtin :
    builtin.roots.paths.filter (fun p => p.head? = some (.literal "function")) =
      [[.literal "function", .argument "name" .resource]] := by decide +kernel

/-- The name in the usual command is a resource that goes on to the end of the line. -/
theorem parse_builtin_function_iff (s : String) :
    (∃ c, builtin.parse ("function " ++ s) = .ok c) ↔
      ∃ value, Kind.resource.read s.toList = .ok (value, []) := by
  have hall : "function".toList.all (· != ' ') = true := by decide
  have hword : ∀ c ∈ "function".toList, c ≠ ' ' :=
    fun c hc => bne_iff_ne.mp (List.all_eq_true.mp hall c hc)
  have hinput : ("function " ++ s).toList = "function".toList ++ ' ' :: s.toList := by simp
  constructor
  · rintro ⟨c, hc⟩
    obtain ⟨-, -, hfound⟩ := (builtin.parse_eq_ok_iff _ c).mp hc
    obtain ⟨p, hp, hleads, hm⟩ := Forest.exists_path_of_found hfound
    rw [hinput] at hm
    cases p with
    | nil => cases hm
    | cons e es =>
      cases e with
      | argument name kind => cases Rank.leads_cons.mp hleads
      | literal text =>
        obtain ⟨value, rest, others, hread, -, hrest⟩ := (matches_cons_iff true _ _ _ _).mp hm
        obtain ⟨htext, -, rfl⟩ := (Element.read_literal_eq_ok_iff hword _ _ _ _ _).mp hread
        have hfunction : text = "function" := String.toList_inj.mp htext.symm
        subst hfunction
        have hes := List.mem_singleton.mp
          (filter_paths_builtin ▸ List.mem_filter.mpr ⟨hp, decide_eq_true rfl⟩)
        cases hes
        obtain ⟨hnil, -⟩ | ⟨behind, hbehind, hname⟩ := hrest
        · cases hnil
        · cases hbehind
          obtain ⟨name, hname, -⟩ := (matches_singleton_iff _ _ _).mp hname
          exact ⟨name, hname⟩
  · rintro ⟨value, hvalue⟩
    have hname := (matches_singleton_iff (.argument "name" .resource) s.toList _).mpr
      ⟨value, hvalue, rfl⟩
    have hread := (Element.read_literal_eq_ok_iff hword "function" true s.toList _ _).mpr
      ⟨rfl, rfl, rfl⟩
    have hm := (matches_cons_iff true _ _ _ _).mpr
      ⟨_, _, _, hread, rfl, Or.inr ⟨s.toList, rfl, hname⟩⟩
    have hpath : [.literal "function", .argument "name" .resource] ∈ builtin.roots.paths := by
      apply List.mem_of_mem_filter (p := fun p => p.head? = some (.literal "function"))
      rw [filter_paths_builtin]
      exact List.mem_singleton_self _
    have hleads : Rank.literals.Leads [.literal "function", .argument "name" .resource] :=
      Rank.leads_cons.mpr rfl
    have hfound := Forest.found_of_matches hpath hleads hm true 0
    obtain ⟨nodes, hnodes⟩ := Option.isSome_iff_exists.mp hfound
    have hblank : ("function".toList ++ ' ' :: s.toList).all Text.isBlank = false :=
      List.all_eq_false.mpr ⟨'f', by simp, by decide⟩
    refine ⟨⟨"function " ++ s, nodes⟩, (builtin.parse_eq_ok_iff _ _).mpr ?_⟩
    rw [hinput]
    exact ⟨hblank, rfl, hnodes⟩

end Tree

end Grammar

namespace Identifier
open Grammar

/-- A text is an identifier if and only if it is a resource as a whole, with the same path, and with
the same namespace where it has one. These are the names that can follow the word `function`. -/
theorem parse_iff_read_resource (s : String) :
    ((∃ id, parse s = .ok id) ↔ ∃ value, Kind.resource.read s.toList = .ok (value, [])) ∧
    (∀ id value, parse s = .ok id → Kind.resource.read s.toList = .ok (value, []) →
      ∃ space, value = .resource space id.path ∧ (':' ∈ s.toList → space = some id.space) ∧
        (':' ∉ s.toList → space = none ∧ id.space = defaultSpace)) ∧
    ((∃ c, Tree.builtin.parse ("function " ++ s) = .ok c) ↔ ∃ id, parse s = .ok id) := by
  have hagree : (∃ id, parse s = .ok id) ↔
      ∃ value, Kind.resource.read s.toList = .ok (value, []) := by
    constructor
    · rintro ⟨id, hid⟩
      obtain ⟨space, hlocation, -⟩ := (parse_eq_ok_iff s id).mp hid
      exact ⟨_, (Kind.read_resource_eq_ok_iff s _).mpr ⟨space, id.path, hlocation, rfl⟩⟩
    · rintro ⟨value, hvalue⟩
      obtain ⟨space, path, hlocation, -⟩ := (Kind.read_resource_eq_ok_iff s value).mp hvalue
      exact hlocation.exists_identifier
  refine ⟨hagree, ?_, (Tree.parse_builtin_function_iff s).trans hagree.symm⟩
  intro id value hid hvalue
  obtain ⟨space, hlocation, hspace⟩ := (parse_eq_ok_iff s id).mp hid
  obtain ⟨space', path', hlocation', rfl⟩ := (Kind.read_resource_eq_ok_iff s value).mp hvalue
  obtain ⟨rfl, rfl⟩ := location_unique hlocation hlocation'
  have hcolon := hlocation.colon_mem_iff
  refine ⟨space, rfl, ?_, ?_⟩
  · intro hmem
    obtain ⟨name, rfl⟩ := Option.ne_none_iff_exists'.mp (hcolon.mp hmem)
    rw [hspace]
    rfl
  · intro hmem
    have hnone : space = none := by
      by_contra hsome
      exact hmem (hcolon.mpr hsome)
    rw [hnone] at hspace
    exact ⟨hnone, hspace⟩

/-- Behind its namespace, a path may have slashes. -/
theorem parse_iff_read_resource_nested :
    ∃ id, parse "demo:kits/start" = .ok id ∧
      (∃ value, Kind.resource.read "demo:kits/start".toList = .ok (value, [])) ∧
      ∃ space, Argument.resource (some "demo") "kits/start" = .resource space id.path ∧
        space = some id.space := by
  let id : Identifier := ⟨"demo", "kits/start", ⟨by decide, List.all_eq_true.mp (by decide)⟩,
    ⟨by decide, List.all_eq_true.mp (by decide)⟩⟩
  have hid : parse "demo:kits/start" = .ok id := by decide +kernel
  have hvalue : Kind.resource.read "demo:kits/start".toList =
      .ok (.resource (some "demo") "kits/start", []) := by decide +kernel
  obtain ⟨hagree, hparts, -⟩ := parse_iff_read_resource "demo:kits/start"
  obtain ⟨space, hresource, hspace, -⟩ := hparts id _ hid hvalue
  exact ⟨id, hid, hagree.mp ⟨id, hid⟩, space, hresource, hspace (by decide)⟩

end Identifier
end CommandScript
