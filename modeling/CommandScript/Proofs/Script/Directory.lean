import CommandScript.Proofs.Files.Inventory
import CommandScript.Proofs.Registry.Journal
import CommandScript.Proofs.Script.Loading
import CommandScript.Proofs.Script.Outcomes

/-! Loading a directory: every function file is loaded or reported, and none has to do with what
comes of the others. -/
namespace CommandScript.Script
open Folder CommandScript.Path

variable {root extension : String} {folder : Folder} {ctx : Context}

theorem id_of_parseFunction {id : Identifier} {source : String} {p : Procedure}
    (h : parseFunction id source ctx = .ok p) : p.id = id := by
  obtain ⟨-, ⟨-, e, he, rfl⟩ | ⟨-, rfl, -⟩⟩ := parseFunction_eq_ok_iff.mp h
  · exact Procedure.id_of_expand (p := .template (rawTemplate id source)) he
  · rfl

theorem id_of_loadText {id : Identifier} {path : String} {text : Except FileError String}
    {p : Procedure} (h : loadText id path text ctx = .ok p) : p.id = id := by
  obtain ⟨source, -, hparse⟩ := bind_eq_ok_iff.mp h
  exact id_of_parseFunction hparse

/-- What comes of the file at a path below a root directory: the procedure that it makes up under
the identifier that is derived from the path. -/
def outcomeAt (fs : Folder) (cwd root : String) (ctx : Context) (path : String) :
    Except LoadError Procedure := do
  loadPath fs cwd path (← identifierFor root path) ctx

/-- Whether a file is a function file, by the names that lead to it. -/
def isFunctionFile (extension : String) (f : List String × Except FileError ByteArray) : Bool :=
  decide (1 < f.1.length) && hasExtension extension f.1

/-- The function files below a root directory in the order in which they are loaded, each with the
names that lead to it and what is read there. -/
def functionFiles (root extension : String) (folder : Folder) :
    List (List String × Except FileError ByteArray) :=
  ((folder.files root).filter (isFunctionFile extension)).mergeSort fun a b =>
    (compare a.1 b.1).isLE

/-- The names that lead to each of the function files. -/
def functionWays (root extension : String) (folder : Folder) : List (List String) :=
  (functionFiles root extension folder).map Prod.fst

/-- The paths of the function files. -/
def functionPaths (root extension : String) (folder : Folder) : List String :=
  (functionWays root extension folder).map (below root)

theorem mem_functionFiles_iff {f : List String × Except FileError ByteArray} :
    f ∈ functionFiles root extension folder ↔
      f ∈ folder.files root ∧ 1 < f.1.length ∧ hasExtension extension f.1 = true := by
  unfold functionFiles isFunctionFile
  simp [List.mem_mergeSort]

theorem mem_functionWays_iff (hlist : folder.Listable root) (ways : List String) :
    ways ∈ functionWays root extension folder ↔
      1 < ways.length ∧ hasExtension extension ways = true ∧
        ∃ content, folder.Holds ways content := by
  rw [functionWays, List.mem_map]
  constructor
  · rintro ⟨f, hf, rfl⟩
    obtain ⟨hmem, hdeep, hextension⟩ := mem_functionFiles_iff.mp hf
    obtain ⟨content, hholds, -⟩ := (mem_files_iff hlist f.2).mp hmem
    exact ⟨hdeep, hextension, content, hholds⟩
  · rintro ⟨hdeep, hextension, content, hholds⟩
    have hmem := (mem_files_iff hlist _).mpr ⟨content, hholds, rfl⟩
    exact ⟨_, mem_functionFiles_iff.mpr ⟨hmem, hdeep, hextension⟩, rfl⟩

theorem nodup_functionWays (hwell : folder.WellNamed) :
    (functionWays root extension folder).Nodup := by
  refine ((List.mergeSort_perm _ _).map Prod.fst).nodup_iff.mpr ?_
  exact (nodup_files hwell root).sublist (List.filter_sublist.map Prod.fst)

theorem pairwise_functionWays (hwell : folder.WellNamed) :
    (functionWays root extension folder).Pairwise fun a b => compare a b = .lt := by
  have hsorted : (functionWays root extension folder).Pairwise
      fun a b => (compare a b).isLE = true := by
    rw [functionWays, List.pairwise_map]
    refine List.pairwise_mergeSort ?_ ?_ _
    · intro a b c hab hbc
      exact Std.TransCmp.isLE_trans hab hbc
    · intro a b
      cases h : compare a.1 b.1 with
      | lt => rfl
      | eq => rfl
      | gt => simp [Std.OrientedCmp.gt_iff_lt.mp h]
  refine hsorted.imp₂ ?_ (nodup_functionWays hwell)
  intro a b hle hne
  have hsome := Ordering.isLE_iff_eq_lt_or_eq_eq.mp hle
  exact hsome.resolve_right fun heq => hne (Std.LawfulEqOrd.eq_of_compare heq)

/-- No two function files share a path. -/
theorem nodup_functionPaths (hroot : root ≠ "") (hwell : folder.WellNamed)
    (hlist : folder.Listable root) : (functionPaths root extension folder).Nodup := by
  refine (nodup_functionWays hwell).map_on ?_
  intro a ha b hb heq
  obtain ⟨-, -, content, hholds⟩ := (mem_functionWays_iff hlist a).mp ha
  obtain ⟨-, -, content', hholds'⟩ := (mem_functionWays_iff hlist b).mp hb
  have hpieces : ∀ name ∈ a, IsPiece name := fun n hn => (hholds.isName hwell n hn).isPiece
  have hpieces' : ∀ name ∈ b, IsPiece name := fun n hn => (hholds'.isName hwell n hn).isPiece
  exact below_injective hroot hpieces hholds.ne_nil hpieces' hholds'.ne_nil heq

section
variable {name : String} {behind : List String} {old : ByteArray}

/-- Neither the choice nor the order of the function files depends on what is in them. -/
theorem functionFiles_put (hwell : folder.WellNamed) (hholds : folder.Holds (name :: behind) old)
    (root extension : String) (new : ByteArray) :
    functionFiles root extension (folder.put (.file new) name behind) =
      (functionFiles root extension folder).map (reread root (name :: behind) new) := by
  have hchosen : isFunctionFile extension ∘ reread root (name :: behind) new =
      isFunctionFile extension := by
    funext f
    simp [isFunctionFile, fst_reread]
  unfold functionFiles
  rw [files_put hwell hholds, List.filter_map, hchosen]
  refine (List.map_mergeSort ?_).symm
  intro a _ b _
  rw [fst_reread, fst_reread]

theorem functionPaths_put (hwell : folder.WellNamed) (hholds : folder.Holds (name :: behind) old)
    (root extension : String) (new : ByteArray) :
    functionPaths root extension (folder.put (.file new) name behind) =
      functionPaths root extension folder := by
  have hways : functionWays root extension (folder.put (.file new) name behind) =
      functionWays root extension folder := by
    rw [functionWays, functionFiles_put hwell hholds, List.map_map]
    refine List.map_congr_left ?_
    intro f _
    exact fst_reread root (name :: behind) new f
  rw [functionPaths, hways, functionPaths]

end

/-- What comes of the function files below a root directory, in the order of loading. -/
def directoryOutcomes (root extension : String) (folder : Folder) (ctx : Context) : Outcomes :=
  (functionFiles root extension folder).map fun f =>
    (below root f.1, loadCandidate root ctx ⟨below root f.1, f.2⟩)

theorem loadDirectory_eq {fs : Folder} {cwd : String}
    (hroot : fs.resolve cwd root = .ok (.folder folder)) (extension : String) (ctx : Context) :
    let outcomes := directoryOutcomes root extension folder ctx
    loadDirectory fs cwd root extension ctx =
      .ok (outcomes.registry, ⟨outcomes.loaded.length, outcomes.failed⟩) := by
  have houtcomes : (candidates root extension folder).map
      (fun c => (c.path, loadCandidate root ctx c)) =
        directoryOutcomes root extension folder ctx := by
    rw [directoryOutcomes, candidates, List.map_map]
    rfl
  rw [loadDirectory, hroot]
  dsimp only
  rw [loadFolder, foldl_loadNext, houtcomes, Outcomes.enter, Nat.zero_add, List.nil_append]
  rfl

theorem map_fst_directoryOutcomes (root extension : String) (folder : Folder) (ctx : Context) :
    (directoryOutcomes root extension folder ctx).map Prod.fst =
      functionPaths root extension folder := by
  rw [directoryOutcomes, functionPaths, functionWays, List.map_map, List.map_map]
  rfl

theorem mem_functionPaths_of_mem {path : String} {r : Except LoadError Procedure}
    (h : (path, r) ∈ directoryOutcomes root extension folder ctx) :
    path ∈ functionPaths root extension folder := by
  rw [← map_fst_directoryOutcomes root extension folder ctx]
  exact List.mem_map_of_mem h

theorem identifierFor_of_loadCandidate {path : String} {content : Except FileError ByteArray}
    {p : Procedure} (h : loadCandidate root ctx ⟨path, content⟩ = .ok p) :
    identifierFor root path = .ok p.id := by
  obtain ⟨id, hid, htext⟩ := bind_eq_ok_iff.mp h
  rw [hid, id_of_loadText htext]

theorem identifier_of_mem_directoryOutcomes {path : String} {p : Procedure}
    (h : (path, .ok p) ∈ directoryOutcomes root extension folder ctx) :
    identifierFor root path = .ok p.id := by
  obtain ⟨f, -, heq⟩ := List.mem_map.mp h
  obtain ⟨rfl, hload⟩ := Prod.mk.inj heq
  exact identifierFor_of_loadCandidate hload

section
variable {fs : Folder} {cwd : String}

theorem outcomeAt_eq_ok_iff {path : String} {p : Procedure} :
    outcomeAt fs cwd root ctx path = .ok p ↔
      identifierFor root path = .ok p.id ∧ loadPath fs cwd path p.id ctx = .ok p := by
  unfold outcomeAt
  rw [bind_eq_ok_iff]
  constructor
  · rintro ⟨id, hid, hload⟩
    rw [id_of_loadText hload]
    exact ⟨hid, hload⟩
  · rintro ⟨hid, hload⟩
    exact ⟨p.id, hid, hload⟩

/-- What comes of a file in the list is what comes of the file at its path. -/
theorem directoryOutcomes_eq (hroot : fs.resolve cwd root = .ok (.folder folder))
    (hwell : folder.WellNamed) (hlist : folder.Listable root) (extension : String)
    (ctx : Context) :
    directoryOutcomes root extension folder ctx =
      (functionPaths root extension folder).map fun path =>
        (path, outcomeAt fs cwd root ctx path) := by
  rw [directoryOutcomes, functionPaths, functionWays, List.map_map, List.map_map]
  refine List.map_congr_left ?_
  intro f hf
  obtain ⟨hmem, -, -⟩ := mem_functionFiles_iff.mp hf
  obtain ⟨content, hholds, hread⟩ := (mem_files_iff hlist f.2).mp hmem
  refine congrArg (Prod.mk _) ?_
  unfold loadCandidate outcomeAt loadPath
  rw [readText_below hroot hwell hholds, hread]

end

/-- The outcomes of other files stay the same when a file is given another content. -/
theorem others_put (hwell : folder.WellNamed) {name : String} {behind : List String}
    {old : ByteArray} (hholds : folder.Holds (name :: behind) old) (root extension : String)
    (new : ByteArray) (ctx : Context) :
    (directoryOutcomes root extension (folder.put (.file new) name behind) ctx).others
        (below root (name :: behind)) =
      (directoryOutcomes root extension folder ctx).others (below root (name :: behind)) := by
  unfold directoryOutcomes
  rw [functionFiles_put hwell hholds]
  induction functionFiles root extension folder with
  | nil => rfl
  | cons f rest ih =>
    simp only [List.map_cons]
    by_cases h : f.1 = name :: behind
    · rw [Outcomes.others_cons_of_eq (by rw [fst_reread, h]),
        Outcomes.others_cons_of_eq (by rw [h])]
      exact ih
    · rw [reread_of_ne h, ← List.singleton_append, Outcomes.others_append, ih,
        ← Outcomes.others_append]
      rfl

/-- Of a directory whose directories can all be entered, every file at any depth below the top
level with the given extension is loaded or reported, once, in the order of the names that lead to
the files. The registry is what comes of storing the procedures of the loaded ones in that order,
each under the identifier that is derived from its path. If a file is given another content, what
comes of the others stays as it is, and so does all that is found under another identifier. -/
theorem loadDirectory_accounts {fs folder : Folder} {cwd root : String}
    (hroot : fs.resolve cwd root = .ok (.folder folder)) (hwell : folder.WellNamed)
    (hlist : folder.Listable root) (extension : String) (ctx : Context) :
    ∃ (r : Registry) (report : Report) (files : List (List String)),
      loadDirectory fs cwd root extension ctx = .ok (r, report) ∧
      files.Pairwise (fun a b => compare a b = .lt) ∧
      (∀ names, names ∈ files ↔ 1 < names.length ∧ hasExtension extension names = true ∧
        ∃ content, folder.Holds names content) ∧
      let paths := files.map (below root)
      let outcomes : Outcomes := paths.map fun path => (path, outcomeAt fs cwd root ctx path)
      paths.Nodup ∧
      (r.sourceFiles ++ report.failures.map Prod.fst).Perm paths ∧
      r.sourceFiles = outcomes.loaded.map Prod.fst ∧
      report.failures = outcomes.failed ∧
      report.loaded = r.sourceFiles.length ∧
      r = outcomes.registry ∧
      (∀ path p, outcomeAt fs cwd root ctx path = .ok p →
        identifierFor root path = .ok p.id ∧ loadPath fs cwd path p.id ctx = .ok p) ∧
      ∀ (fs' : Folder) (name : String) (behind : List String) (old new : ByteArray),
        folder.Holds (name :: behind) old →
        fs'.resolve cwd root = .ok (.folder (folder.put (.file new) name behind)) →
        let changed := below root (name :: behind)
        ∃ (r' : Registry) (report' : Report),
          loadDirectory fs' cwd root extension ctx = .ok (r', report') ∧
          (∀ path ≠ changed, (path ∈ r'.sourceFiles ↔ path ∈ r.sourceFiles) ∧
            ∀ e, (path, e) ∈ report'.failures ↔ (path, e) ∈ report.failures) ∧
          ∀ id, (changed ∈ paths → identifierFor root changed ≠ .ok id) →
            r'.get? id = r.get? id := by
  have houtcomes := directoryOutcomes_eq hroot hwell hlist extension ctx
  refine ⟨_, _, functionWays root extension folder, loadDirectory_eq hroot extension ctx,
    pairwise_functionWays hwell, mem_functionWays_iff hlist, ?_⟩
  intro paths outcomes
  have hpaths : outcomes.map Prod.fst = paths :=
    (congrArg (List.map Prod.fst) houtcomes).symm.trans
      (map_fst_directoryOutcomes root extension folder ctx)
  have hsources : outcomes.registry.sourceFiles = outcomes.loaded.map Prod.fst :=
    outcomes.sourceFiles_registry
  rw [houtcomes]
  refine ⟨nodup_functionPaths (ne_empty_of_resolve hroot) hwell hlist, ?_, hsources, rfl, ?_, rfl,
    fun path p => outcomeAt_eq_ok_iff.mp, ?_⟩
  · rw [← hpaths]
    exact hsources ▸ outcomes.perm_paths
  · exact ((congrArg List.length hsources).trans (List.length_map _)).symm
  intro fs' name behind old new hholds hroot' changed
  -- The two runs go through the same paths, and differ at most in the outcome at the changed one.
  have hothers := others_put hwell hholds root extension new ctx
  refine ⟨_, _, loadDirectory_eq hroot' extension ctx, ?_, ?_⟩
  · intro path hpath
    rw [houtcomes] at hothers
    exact Outcomes.fates_of_others_eq hothers hpath
  · intro id hid
    rw [← houtcomes]
    refine Outcomes.get?_of_others_eq hothers ?_ ?_
    · rintro p hmem rfl
      have hplaced := mem_functionPaths_of_mem hmem
      rw [functionPaths_put hwell hholds] at hplaced
      exact hid hplaced (identifier_of_mem_directoryOutcomes hmem)
    · rintro p hmem rfl
      exact hid (mem_functionPaths_of_mem hmem) (identifier_of_mem_directoryOutcomes hmem)

/-- Of two files the first is loaded and the second is not, which has a marker that is not closed.
This stays so for the second when the first is given a text that is no better. -/
theorem loadDirectory_accounts_greeting :
    ∃ (fs folder : Folder) (good bad : ByteArray) (ctx : Context),
      fs.resolve "/" "/functions" = .ok (.folder folder) ∧ folder.WellNamed ∧
      folder.Listable "/functions" ∧ folder.Holds ["demo", "hello.mcfunction"] good ∧
      let fs' := fs.putPath "/functions/demo/hello.mcfunction" (.file bad)
      fs'.resolve "/" "/functions" =
        .ok (.folder (folder.put (.file bad) "demo" ["hello.mcfunction"])) ∧
      ∃ (r : Registry) (report : Report),
        loadDirectory fs "/" "/functions" "mcfunction" ctx = .ok (r, report) ∧
        report.loaded = r.sourceFiles.length ∧
        "/functions/demo/hello.mcfunction" ∈ r.sourceFiles ∧
        (∃ e, ("/functions/demo/open.mcfunction", e) ∈ report.failures) ∧
        ∃ (r' : Registry) (report' : Report),
          loadDirectory fs' "/" "/functions" "mcfunction" ctx = .ok (r', report') ∧
          ∃ e, ("/functions/demo/open.mcfunction", e) ∈ report'.failures := by
  let id : Identifier := ⟨"demo", "hello", ⟨by decide, List.all_eq_true.mp (by decide)⟩,
    ⟨by decide, List.all_eq_true.mp (by decide)⟩⟩
  let id' : Identifier := ⟨"demo", "open", ⟨by decide, List.all_eq_true.mp (by decide)⟩,
    ⟨by decide, List.all_eq_true.mp (by decide)⟩⟩
  let good := "say Hello $name$".toUTF8
  let bad := "say Hello $name".toUTF8
  let inside : Folder := .file "hello.mcfunction" good (.file "open.mcfunction" bad .empty)
  let folder : Folder := .folder "demo" inside .empty
  let fs : Folder := .folder "functions" folder .empty
  let fs' : Folder := fs.putPath "/functions/demo/hello.mcfunction" (.file bad)
  let ctx : Context := ⟨.default, fun _ _ => .error ⟨"", none⟩⟩
  have hroot : fs.resolve "/" "/functions" = .ok (.folder folder) := rfl
  have hwell : folder.WellNamed := by
    have hdemo : IsName "demo" := ⟨by decide, by decide, by decide, by decide⟩
    have hfirst : IsName "hello.mcfunction" := ⟨by decide, by decide, by decide, by decide⟩
    have hsecond : IsName "open.mcfunction" := ⟨by decide, by decide, by decide, by decide⟩
    exact ⟨hdemo, by simp [names], ⟨hfirst, by simp [names], hsecond, by simp [names], trivial⟩,
      trivial⟩
  have hlist : folder.Listable "/functions" := ⟨by decide, trivial, trivial⟩
  obtain ⟨r, report, files, hload, -, hfiles, -, -, hsources, hfailures, hcount, -, -, hother⟩ :=
    loadDirectory_accounts hroot hwell hlist "mcfunction" ctx
  let greeting : Procedure := .template ⟨id, [⟨"say Hello $name$", 1⟩]⟩
  have hhello : outcomeAt fs "/" "/functions" ctx "/functions/demo/hello.mcfunction" =
      .ok greeting := by decide +kernel
  let unclosed : LoadError := .expansion (.malformedPlaceholder id' 0 (.unterminated 10))
  have hopen : outcomeAt fs "/" "/functions" ctx "/functions/demo/open.mcfunction" =
      .error unclosed := by decide +kernel
  have hfirst : folder.Holds ["demo", "hello.mcfunction"] good := .inside _ _ (.file _ _ _)
  have hsecond : folder.Holds ["demo", "open.mcfunction"] bad :=
    .inside _ _ (.behindFile _ _ (.file _ _ _))
  have hfirst' := (hfiles _).mpr ⟨by decide, by decide, good, hfirst⟩
  have hsecond' := (hfiles _).mpr ⟨by decide, by decide, bad, hsecond⟩
  have hloaded : "/functions/demo/hello.mcfunction" ∈ r.sourceFiles := by
    rw [hsources, List.mem_map]
    refine ⟨(_, greeting), Outcomes.mem_loaded_iff.mpr ?_, rfl⟩
    rw [← hhello]
    exact List.mem_map_of_mem (List.mem_map_of_mem hfirst')
  have hfailed : ("/functions/demo/open.mcfunction", unclosed) ∈ report.failures := by
    rw [hfailures, Outcomes.mem_failed_iff, ← hopen]
    exact List.mem_map_of_mem (List.mem_map_of_mem hsecond')
  obtain ⟨r', report', hload', hrest, -⟩ :=
    hother fs' "demo" ["hello.mcfunction"] good bad hfirst rfl
  have hfailed' := ((hrest "/functions/demo/open.mcfunction" (by decide)).2 unclosed).mpr hfailed
  exact ⟨fs, folder, good, bad, ctx, hroot, hwell, hlist, hfirst, rfl, r, report, hload,
    hcount, hloaded, ⟨unclosed, hfailed⟩, r', report', hload', unclosed, hfailed'⟩

end CommandScript.Script
