import CommandScript.Proofs.Identifiers
import CommandScript.Proofs.Script.Directory

/-! Where the function files of a directory stand. The names on the way to a file make up its
identifier, and can be read off it again. -/
namespace CommandScript

namespace Path

/-- A name with another character than dots. -/
structure IsPlain (name : String) : Prop where
  no_slash : '/' ∉ name.toList
  not_dots : ∃ c ∈ name.toList, c ≠ '.'

/-- What can stand behind the last dot of a file name. -/
structure IsExtension (extension : String) : Prop where
  ne_empty : extension ≠ ""
  no_dot : '.' ∉ extension.toList
  no_slash : '/' ∉ extension.toList

variable {stem extension : String} {names : List String}

theorem IsPlain.isPiece (h : IsPlain stem) : IsPiece stem := by
  refine ⟨?_, h.no_slash⟩
  rintro rfl
  obtain ⟨c, hc, -⟩ := h.not_dots
  cases hc

theorem IsPlain.ne_dot (h : IsPlain stem) : stem ≠ "." := by
  rintro rfl
  obtain ⟨c, hc, hne⟩ := h.not_dots
  exact hne (List.mem_singleton.mp hc)

theorem IsPlain.not_idle (h : IsPlain stem) : isIdle stem = false := by
  simp [isIdle, h.isPiece.ne_empty, h.ne_dot]

theorem toList_fileName (stem extension : String) :
    (stem ++ "." ++ extension).toList = stem.toList ++ '.' :: extension.toList := by
  simp

theorem IsPlain.fileName (h : IsPlain stem) (hextension : IsExtension extension) :
    IsPlain (stem ++ "." ++ extension) := by
  obtain ⟨c, hc, hne⟩ := h.not_dots
  constructor
  · rw [toList_fileName, List.mem_append, List.mem_cons]
    rintro (hstem | hdot | hback)
    · exact h.no_slash hstem
    · cases hdot
    · exact hextension.no_slash hback
  · refine ⟨c, ?_, hne⟩
    rw [toList_fileName]
    exact List.mem_append_left _ hc

/-- The last dot of a file name is the one in front of the extension. -/
theorem splitExtension_fileName (hstem : stem ≠ "") (h : IsExtension extension) :
    splitExtension (stem ++ "." ++ extension).toList =
      (stem.toList, some extension.toList) := by
  have hback : ∀ c ∈ extension.toList.reverse, (c != '.') = true := by
    intro c hc
    rw [bne_iff_ne]
    rintro rfl
    exact h.no_dot (List.mem_reverse.mp hc)
  have hreverse : (stem ++ "." ++ extension).toList.reverse =
      extension.toList.reverse ++ '.' :: stem.toList.reverse := by simp
  obtain ⟨htake, hdrop⟩ := (Text.splits_iff (· != '.') _ _ _).mpr ⟨hreverse, hback, by simp⟩
  -- Two dots, which are never split, are too short for a stem and an extension.
  have hdots : (stem ++ "." ++ extension).toList ≠ ['.', '.'] := by
    intro heq
    have hlength := congrArg List.length heq
    have hfront : 0 < stem.toList.length := List.length_pos_of_ne_nil (by simpa using hstem)
    have hbehind : 0 < extension.toList.length :=
      List.length_pos_of_ne_nil (by simpa using h.ne_empty)
    rw [toList_fileName, List.length_append, List.length_cons] at hlength
    simp only [List.length_cons, List.length_nil] at hlength
    omega
  have hsome : stem.toList.reverse ≠ [] := by simpa using hstem
  obtain ⟨c, cs, hcs⟩ := List.exists_cons_of_ne_nil hsome
  unfold splitExtension
  rw [if_neg hdots]
  dsimp only
  rw [htake, hdrop, hcs]
  dsimp only
  rw [← hcs, List.reverse_reverse, List.reverse_reverse]

theorem extension?_fileName (hstem : stem ≠ "") (h : IsExtension extension) :
    extension? (stem ++ "." ++ extension) = some extension := by
  rw [extension?, splitExtension_fileName hstem h, Option.map_some, String.ofList_toList]

theorem dropExtension_fileName (hstem : IsPlain stem) (h : IsExtension extension) :
    dropExtension (stem ++ "." ++ extension) = stem := by
  have hdot : stem.toList ≠ ".".toList := fun heq => hstem.ne_dot (String.toList_inj.mp heq)
  rw [dropExtension, splitExtension_fileName hstem.isPiece.ne_empty h]
  split
  · next heq => exact absurd (congrArg Prod.fst heq) hdot
  · next heq => exact (congrArg (fun r => String.ofList r.1) heq).symm.trans String.ofList_toList

/-- The names behind a directory come back when its path is taken away. -/
theorem stripBase?_below (root : String) (h : ∀ name ∈ names, IsPlain name) :
    stripBase? root (below root names) = some names := by
  have hnames : ∀ name ∈ names, IsPiece name ∧ isIdle name = false :=
    fun n hn => ⟨(h n hn).isPiece, (h n hn).not_idle⟩
  rw [stripBase?, components_below hnames, List.isPrefixOf?_eq_some_iff_append_eq]

theorem forall_mem_intercalate_iff {p : Char → Prop} (hslash : p '/') (names : List String) :
    (∀ c ∈ ("/".intercalate names).toList, p c) ↔ ∀ name ∈ names, ∀ c ∈ name.toList, p c := by
  induction names with
  | nil => simp
  | cons name names ih =>
    cases names with
    | nil => simp
    | cons next names =>
      rw [List.forall_mem_cons, ← ih, String.intercalate_cons_cons]
      simp only [String.toList_append, List.forall_mem_append]
      have hsep : ∀ c ∈ "/".toList, p c := by
        intro c hc
        rw [List.mem_singleton.mp hc]
        exact hslash
      exact ⟨fun h => ⟨h.1.1, h.2⟩, fun h => ⟨⟨h.1, hsep⟩, h.2⟩⟩

end Path

namespace Script
open CommandScript.Path Identifier

/-- Where a function file stands below a root directory: in a directory on the top level, behind
other directories, and under a name in front of the extension. -/
structure Place where
  space : String
  inner : List String
  stem : String

namespace Place
variable {pl pl' : Place} {root extension : String}

/-- The names behind the one on the top level, without the extension. -/
def parts (pl : Place) : List String := pl.inner ++ [pl.stem]

def route (pl : Place) : String := "/".intercalate pl.parts

/-- The names that lead to the file. -/
def ways (extension : String) (pl : Place) : List String :=
  pl.space :: pl.inner ++ [pl.stem ++ "." ++ extension]

def path (root extension : String) (pl : Place) : String := below root (pl.ways extension)

def IsPlain (pl : Place) : Prop := ∀ name ∈ pl.space :: pl.parts, Path.IsPlain name

/-- The names are such as an identifier can have. -/
structure IsValid (pl : Place) : Prop where
  space_isOver : IsOver isSpaceChar pl.space
  parts_over : ∀ name ∈ pl.parts, ∀ c ∈ name.toList, isSpaceChar c = true

theorem IsPlain.stem (h : pl.IsPlain) : Path.IsPlain pl.stem := h pl.stem (by simp [parts])

theorem IsPlain.ways (h : pl.IsPlain) (hextension : IsExtension extension) :
    ∀ name ∈ pl.ways extension, Path.IsPlain name := by
  intro name hname
  rcases List.mem_append.mp hname with hfront | hlast
  · refine h name ?_
    rw [parts, ← List.cons_append]
    exact List.mem_append_left _ hfront
  · rw [List.mem_singleton.mp hlast]
    exact h.stem.fileName hextension

theorem pieces_route (h : pl.IsPlain) : pieces pl.route = pl.parts := by
  refine pieces_intercalate ?_ (by simp [parts])
  intro name hname
  exact (h name (List.mem_cons_of_mem _ hname)).no_slash

theorem route_isOver_iff (h : pl.IsPlain) :
    IsOver isPathChar pl.route ↔ ∀ name ∈ pl.parts, ∀ c ∈ name.toList, isSpaceChar c = true := by
  have hsome : pl.route.toList ≠ [] := by
    intro hnil
    have hparts := pieces_route h
    rw [String.toList_eq_nil_iff.mp hnil] at hparts
    have hstem : pl.stem ∈ pieces "" := hparts ▸ List.mem_concat_self
    exact h.stem.isPiece.ne_empty (List.mem_singleton.mp hstem)
  unfold IsOver
  rw [route, forall_mem_intercalate_iff (by decide), ← route, and_iff_right hsome]
  refine forall₂_congr fun name hname => forall₂_congr fun c hc => ?_
  have hslash : c ≠ '/' := by
    rintro rfl
    exact (h name (List.mem_cons_of_mem _ hname)).no_slash hc
  simp [isPathChar, hslash]

theorem hasExtension_ways (h : pl.IsPlain) (hextension : IsExtension extension) :
    hasExtension extension (pl.ways extension) = true := by
  rw [hasExtension, ways, List.getLast?_concat, Option.bind_some,
    extension?_fileName h.stem.isPiece.ne_empty hextension]
  exact beq_self_eq_true (some extension)

/-- The extension goes, and the names stay. -/
theorem identifierFor_path (h : pl.IsPlain) (hextension : IsExtension extension) (root : String) :
    identifierFor root (pl.path root extension) =
      (ofParts pl.space pl.route).mapError (.invalidIdentifier (pl.path root extension)) := by
  have hstrip := stripBase?_below root (h.ways hextension)
  unfold identifierFor
  dsimp only
  rw [path, hstrip, Option.getD_some, Place.ways, List.dropLast_concat, List.getLast?_concat,
    Option.map_some, dropExtension_fileName h.stem hextension]
  rfl

theorem identifierFor_path_eq_ok_iff (h : pl.IsPlain) (hextension : IsExtension extension)
    {id : Identifier} :
    identifierFor root (pl.path root extension) = .ok id ↔
      pl.IsValid ∧ id.space = pl.space ∧ id.path = pl.route := by
  rw [identifierFor_path h hextension, mapError_eq_ok_iff, ofParts_eq_ok_iff, route_isOver_iff h]
  constructor
  · rintro ⟨hspace, hparts, hid⟩
    exact ⟨⟨hspace, hparts⟩, hid⟩
  · rintro ⟨hvalid, hid⟩
    exact ⟨hvalid.space_isOver, hvalid.parts_over, hid⟩

/-- A place that is valid has an identifier. -/
theorem exists_identifier (h : pl.IsPlain) (hextension : IsExtension extension)
    (hvalid : pl.IsValid) (root : String) :
    ∃ id, identifierFor root (pl.path root extension) = .ok id ∧ id.space = pl.space ∧
      id.path = pl.route := by
  have hroute := (route_isOver_iff h).mpr hvalid.parts_over
  let id : Identifier := ⟨pl.space, pl.route, hvalid.space_isOver, hroute⟩
  exact ⟨id, (identifierFor_path_eq_ok_iff h hextension).mpr ⟨hvalid, rfl, rfl⟩, rfl, rfl⟩

theorem exists_cause (h : pl.IsPlain) (hextension : IsExtension extension)
    (hvalid : ¬pl.IsValid) (root : String) :
    ∃ cause, identifierFor root (pl.path root extension) =
      .error (.invalidIdentifier (pl.path root extension) cause) := by
  cases hresult : ofParts pl.space pl.route with
  | error cause =>
    refine ⟨cause, ?_⟩
    rw [identifierFor_path h hextension, hresult]
    rfl
  | ok id =>
    have hid : identifierFor root (pl.path root extension) = .ok id := by
      rw [identifierFor_path h hextension, hresult]
      rfl
    exact absurd ((identifierFor_path_eq_ok_iff h hextension).mp hid).1 hvalid

/-- Places with one route to them are the same. -/
theorem eq_of_route_eq (h : pl.IsPlain) (h' : pl'.IsPlain) (hspace : pl.space = pl'.space)
    (hroute : pl.route = pl'.route) : pl = pl' := by
  have hparts := congrArg pieces hroute
  rw [pieces_route h, pieces_route h', parts, parts] at hparts
  obtain ⟨hinner, hstem⟩ := List.append_inj' hparts rfl
  obtain ⟨space, inner, stem⟩ := pl
  obtain ⟨space', inner', stem'⟩ := pl'
  cases hspace
  cases hinner
  cases hstem
  rfl

theorem intercalate_ways (extension : String) (pl : Place) :
    "/".intercalate (pl.ways extension) = pl.space ++ "/" ++ pl.route ++ "." ++ extension := by
  have hback : "/".intercalate (pl.inner ++ [pl.stem ++ "." ++ extension]) =
      pl.route ++ "." ++ extension := by
    rw [route, parts]
    by_cases hinner : pl.inner = []
    · rw [hinner, List.nil_append, List.nil_append, String.intercalate_singleton,
        String.intercalate_singleton]
    · rw [String.intercalate_append_of_ne_nil hinner (List.cons_ne_nil _ _),
        String.intercalate_append_of_ne_nil hinner (List.cons_ne_nil _ _),
        String.intercalate_singleton, String.intercalate_singleton]
      simp only [String.append_assoc]
  rw [ways, List.cons_append, String.intercalate_cons_of_ne_nil (by simp), hback]
  simp only [String.append_assoc]

theorem path_eq_join (h : pl.IsPlain) (hextension : IsExtension extension) (root : String) :
    pl.path root extension =
      Path.join root (pl.space ++ "/" ++ pl.route ++ "." ++ extension) := by
  have hways := h.ways hextension
  rw [← intercalate_ways, path]
  exact (join_intercalate root (hways _ List.mem_cons_self).isPiece fun n hn =>
    (hways n (List.mem_cons_of_mem _ hn)).isPiece).symm

/-- Identifiers have places. -/
theorem exists_of_identifier {id : Identifier}
    (h : ∀ name ∈ id.space :: pieces id.path, ∃ c ∈ name.toList, c ≠ '.') :
    ∃ pl : Place, pl.IsPlain ∧ pl.IsValid ∧ pl.space = id.space ∧ pl.route = id.path := by
  obtain ⟨inner, stem, hparts⟩ := (List.eq_nil_or_concat _).resolve_left (pieces_ne_nil id.path)
  rw [List.concat_eq_append] at hparts
  let pl : Place := ⟨id.space, inner, stem⟩
  have hroute : pl.route = id.path := by
    rw [route, parts, ← hparts, intercalate_pieces]
  have hplain : pl.IsPlain := by
    intro name hname
    refine ⟨?_, h name (hparts ▸ hname)⟩
    rcases List.mem_cons.mp hname with rfl | hpart
    · exact id.space_isOver.not_mem (by decide)
    · have hpiece : name ∈ pieces id.path := by
        rw [hparts]
        exact hpart
      exact no_slash_of_mem_pieces hpiece
  exact ⟨pl, hplain, ⟨id.space_isOver, (route_isOver_iff hplain).mp (hroute ▸ id.path_isOver)⟩,
    rfl, hroute⟩

end Place

/-- The path of an identifier below a root directory leads back to it. A function file with more
than dots in its names is found where a folder holds it; its identifier has the first of the names
as its namespace and the others as its path, and there is none if and only if one of the names has
a character that cannot stand there. No two of these files are loaded under one identifier. -/
theorem identifierFor_inverts_path (root : String) {extension : String}
    (hextension : IsExtension extension) :
    (∀ id : Identifier,
      (∀ name ∈ id.space :: pieces id.path, name ≠ "" ∧ ∃ c ∈ name.toList, c ≠ '.') →
      identifierFor root (Path.join root (id.space ++ "/" ++ id.path ++ "." ++ extension)) =
        .ok id) ∧
    (∀ pl : Place, pl.IsPlain →
      (∀ folder : Folder, folder.Listable root →
        (pl.ways extension ∈ functionWays root extension folder ↔
          ∃ content, folder.Holds (pl.ways extension) content)) ∧
      (pl.IsValid → ∃ id, identifierFor root (pl.path root extension) = .ok id ∧
        id.space = pl.space ∧ id.path = pl.route) ∧
      (¬pl.IsValid → ∃ cause, identifierFor root (pl.path root extension) =
        .error (.invalidIdentifier (pl.path root extension) cause))) ∧
    ∀ (pl pl' : Place) (content content' : Except FileError ByteArray) (ctx : Context)
      (p p' : Procedure), pl.IsPlain → pl'.IsPlain →
      loadCandidate root ctx ⟨pl.path root extension, content⟩ = .ok p →
      loadCandidate root ctx ⟨pl'.path root extension, content'⟩ = .ok p' →
      p.id = p'.id → pl = pl' := by
  refine ⟨?_, ?_, ?_⟩
  · intro id hid
    obtain ⟨pl, hplain, hvalid, hspace, hroute⟩ :=
      Place.exists_of_identifier fun name hname => (hid name hname).2
    rw [← hspace, ← hroute, ← Place.path_eq_join hplain hextension]
    exact (Place.identifierFor_path_eq_ok_iff hplain hextension).mpr
      ⟨hvalid, hspace.symm, hroute.symm⟩
  · intro pl hplain
    refine ⟨?_, fun hvalid => Place.exists_identifier hplain hextension hvalid root,
      fun hvalid => Place.exists_cause hplain hextension hvalid root⟩
    intro folder hlist
    rw [mem_functionWays_iff hlist, ← and_assoc]
    exact and_iff_right ⟨by simp [Place.ways], Place.hasExtension_ways hplain hextension⟩
  -- A file is loaded under the identifier of its path, whatever is in it.
  · intro pl pl' content content' ctx p p' hplain hplain' hload hload' hsame
    have hid : identifierFor root (pl.path root extension) = .ok p.id :=
      identifierFor_of_loadCandidate hload
    have hid' : identifierFor root (pl'.path root extension) = .ok p'.id :=
      identifierFor_of_loadCandidate hload'
    obtain ⟨-, hspace, hroute⟩ := (Place.identifierFor_path_eq_ok_iff hplain hextension).mp hid
    obtain ⟨-, hspace', hroute'⟩ := (Place.identifierFor_path_eq_ok_iff hplain' hextension).mp hid'
    rw [hsame] at hspace hroute
    exact Place.eq_of_route_eq hplain hplain' (hspace.symm.trans hspace')
      (hroute.symm.trans hroute')

/-- Dots in names stay: of two files whose names begin alike none hides the other. -/
theorem identifierFor_inverts_path_dots :
    ∃ (id : Identifier) (ctx : Context) (content : Except FileError ByteArray) (p p' : Procedure),
      IsExtension "mcfunction" ∧ id.text = "test:util/.greet.v2" ∧
      identifierFor "/data/functions" "/data/functions/test/util/.greet.v2.mcfunction" = .ok id ∧
      (∃ cause, identifierFor "/data/functions" "/data/functions/Test/greet.mcfunction" =
        .error (.invalidIdentifier "/data/functions/Test/greet.mcfunction" cause)) ∧
      loadCandidate "/data/functions" ctx
        ⟨"/data/functions/test/greet.mcfunction", content⟩ = .ok p ∧
      loadCandidate "/data/functions" ctx
        ⟨"/data/functions/test/greet.v2.mcfunction", content⟩ = .ok p' ∧ p.id ≠ p'.id := by
  let id : Identifier := ⟨"test", "util/.greet.v2", ⟨by decide, List.all_eq_true.mp (by decide)⟩,
    ⟨by decide, List.all_eq_true.mp (by decide)⟩⟩
  let first : Identifier := ⟨"test", "greet", ⟨by decide, List.all_eq_true.mp (by decide)⟩,
    ⟨by decide, List.all_eq_true.mp (by decide)⟩⟩
  let second : Identifier := ⟨"test", "greet.v2", ⟨by decide, List.all_eq_true.mp (by decide)⟩,
    ⟨by decide, List.all_eq_true.mp (by decide)⟩⟩
  let ctx : Context := ⟨.default, fun _ _ => .error ⟨"", none⟩⟩
  let content : Except FileError ByteArray := .ok "say Hello $name$".toUTF8
  let greeting (id : Identifier) : Procedure := .template ⟨id, [⟨"say Hello $name$", 1⟩]⟩
  let capital : Place := ⟨"Test", [], "greet"⟩
  let plain : Place := ⟨"test", [], "greet"⟩
  let dotted : Place := ⟨"test", [], "greet.v2"⟩
  have hextension : IsExtension "mcfunction" := ⟨by decide, by decide, by decide⟩
  have htest : Path.IsPlain "test" := ⟨by decide, 't', by decide, by decide⟩
  have hgreet : Path.IsPlain "greet" := ⟨by decide, 'g', by decide, by decide⟩
  have hsecond : Path.IsPlain "greet.v2" := ⟨by decide, 'g', by decide, by decide⟩
  have hcapital : capital.IsPlain := List.forall_mem_cons.mpr
    ⟨⟨by decide, 't', by decide, by decide⟩, List.forall_mem_singleton.mpr hgreet⟩
  have hplain : plain.IsPlain :=
    List.forall_mem_cons.mpr ⟨htest, List.forall_mem_singleton.mpr hgreet⟩
  have hdotted : dotted.IsPlain :=
    List.forall_mem_cons.mpr ⟨htest, List.forall_mem_singleton.mpr hsecond⟩
  have hinvalid : ¬capital.IsValid := by
    intro hvalid
    have hletter := hvalid.space_isOver.2 'T' (by decide)
    cases hletter
  obtain ⟨hback, hplaces, hapart⟩ := identifierFor_inverts_path "/data/functions" hextension
  have hpieces : pieces id.path = ["util", ".greet.v2"] := by decide
  have hnames : ∀ name ∈ id.space :: pieces id.path, name ≠ "" ∧ ∃ c ∈ name.toList, c ≠ '.' := by
    rw [hpieces, List.forall_mem_cons, List.forall_mem_cons, List.forall_mem_singleton]
    exact ⟨⟨by decide, 't', by decide, by decide⟩, ⟨by decide, 'u', by decide, by decide⟩,
      by decide, 'g', by decide, by decide⟩
  have hid := hback id hnames
  obtain ⟨cause, hcause⟩ := (hplaces capital hcapital).2.2 hinvalid
  have hload : loadCandidate "/data/functions" ctx
      ⟨"/data/functions/test/greet.mcfunction", content⟩ = .ok (greeting first) := by
    decide +kernel
  have hload' : loadCandidate "/data/functions" ctx
      ⟨"/data/functions/test/greet.v2.mcfunction", content⟩ = .ok (greeting second) := by
    decide +kernel
  have hjoin : Path.join "/data/functions" (id.space ++ "/" ++ id.path ++ "." ++ "mcfunction") =
      "/data/functions/test/util/.greet.v2.mcfunction" := by decide
  have hupper : capital.path "/data/functions" "mcfunction" =
      "/data/functions/Test/greet.mcfunction" := by decide
  have hfirst : plain.path "/data/functions" "mcfunction" =
      "/data/functions/test/greet.mcfunction" := by decide
  have hlast : dotted.path "/data/functions" "mcfunction" =
      "/data/functions/test/greet.v2.mcfunction" := by decide
  rw [hjoin] at hid
  rw [hupper] at hcause
  refine ⟨id, ctx, content, greeting first, greeting second, hextension, by decide, hid,
    ⟨cause, hcause⟩, hload, hload', ?_⟩
  intro hsame
  rw [← hfirst] at hload
  rw [← hlast] at hload'
  have hplace := hapart plain dotted content content ctx _ _ hplain hdotted hload hload' hsame
  have hstem : "greet" = "greet.v2" := congrArg Place.stem hplace
  exact absurd hstem (by decide)

end Script
end CommandScript
