import Mathlib.Data.List.Nodup
import CommandScript.Proofs.Files.Below
import CommandScript.Proofs.Stages

/-! The files at any depth below a directory: they are listed once each, and what the list says of a
file is what is read at its path. -/
namespace CommandScript.Folder
open CommandScript.Path

/-- The names of the entries of a directory. -/
def names : Folder → List String
  | empty => []
  | file name _ rest => name :: rest.names
  | folder name _ rest => name :: rest.names

/-- All entries have proper names, and in no directory at any depth two of them share one. -/
def WellNamed : Folder → Prop
  | empty => True
  | file name _ rest => IsName name ∧ name ∉ rest.names ∧ rest.WellNamed
  | folder name inside rest =>
    IsName name ∧ name ∉ rest.names ∧ inside.WellNamed ∧ rest.WellNamed

/-- All directories below one with a path can be entered. -/
def Listable (path : String) : Folder → Prop
  | empty => True
  | file _ _ rest => rest.Listable path
  | folder name inside rest =>
    checkPath (join path name) = .ok () ∧ inside.Listable (join path name) ∧ rest.Listable path

/-- Names lead to a file with a content. -/
inductive Holds : Folder → List String → ByteArray → Prop
  | file (name : String) (content : ByteArray) (rest : Folder) :
    Holds (file name content rest) [name] content
  | inside (name : String) {inside : Folder} (rest : Folder) {names : List String}
    {content : ByteArray} (h : Holds inside names content) :
    Holds (folder name inside rest) (name :: names) content
  | behindFile (name : String) (other : ByteArray) {rest : Folder} {names : List String}
    {content : ByteArray} (h : Holds rest names content) :
    Holds (file name other rest) names content
  | behindFolder (name : String) (inside : Folder) {rest : Folder} {names : List String}
    {content : ByteArray} (h : Holds rest names content) :
    Holds (folder name inside rest) names content

variable {here : Folder} {ways : List String} {content : ByteArray}

theorem Holds.exists_cons (h : here.Holds ways content) :
    ∃ name ∈ here.names, ∃ below, ways = name :: below := by
  induction h with
  | file name content rest => exact ⟨name, by simp [names], [], rfl⟩
  | inside name rest h ih => exact ⟨name, by simp [names], _, rfl⟩
  | behindFile name other h ih =>
    obtain ⟨first, hfirst, below, rfl⟩ := ih
    exact ⟨first, List.mem_cons_of_mem name hfirst, below, rfl⟩
  | behindFolder name inside h ih =>
    obtain ⟨first, hfirst, below, rfl⟩ := ih
    exact ⟨first, List.mem_cons_of_mem name hfirst, below, rfl⟩

theorem Holds.ne_nil (h : here.Holds ways content) : ways ≠ [] := by
  obtain ⟨name, -, below, rfl⟩ := h.exists_cons
  exact List.cons_ne_nil name below

theorem Holds.isName (h : here.Holds ways content) (hwell : here.WellNamed) :
    ∀ name ∈ ways, IsName name := by
  induction h with
  | file name content rest => simpa using hwell.1
  | inside name rest h ih =>
    obtain ⟨hname, -, hinside, -⟩ := hwell
    exact List.forall_mem_cons.mpr ⟨hname, ih hinside⟩
  | behindFile name other h ih => exact ih hwell.2.2
  | behindFolder name inside h ih => exact ih hwell.2.2.2

/-- What a piece of a path leads to from a directory, with the directories that then lie above. -/
def step (above : List Folder) (here : Folder) (piece : String) :
    Except FileError (List Folder × Entry) :=
  if isIdle piece then .ok (above, .folder here)
  else if piece = ".." then
    match above with
    | [] => .ok ([], .folder here)
    | up :: above => .ok (above, .folder up)
  else if maxNameSize < piece.utf8ByteSize then .error .tooLong
  else
    match here.find? piece with
    | none => .error .notFound
    | some e => .ok (here :: above, e)

section
variable {above : List Folder} {e : Entry} {ps qs : List String}

theorem follow_nil (above : List Folder) (e : Entry) : follow above e [] = .ok e := by
  unfold follow
  rfl

theorem follow_file_cons (above : List Folder) (content : ByteArray) (p : String)
    (ps : List String) : follow above (.file content) (p :: ps) = .error .notDirectory := by
  unfold follow
  rfl

theorem follow_folder_cons (above : List Folder) (here : Folder) (p : String) (ps : List String) :
    follow above (.folder here) (p :: ps) = step above here p >>= fun s => follow s.1 s.2 ps := by
  unfold step
  rw [follow.eq_def]
  dsimp only
  split_ifs
  · rfl
  · cases above with
    | nil => rfl
    | cons up above => rfl
  · rfl
  · cases here.find? p with
    | none => rfl
    | some e => rfl

theorem step_of_isName {name : String} (h : IsName name) (above : List Folder) (here : Folder) :
    step above here name = match here.find? name with
      | none => .error .notFound
      | some e => .ok (here :: above, e) := by
  have hsize : ¬ maxNameSize < name.utf8ByteSize := Nat.not_lt.mpr h.size_le
  unfold step
  rw [h.not_idle, if_neg Bool.false_ne_true, if_neg h.ne_up, if_neg hsize]

/-- The way back up makes no difference to those who only go down. -/
theorem follow_above (h : ∀ p ∈ ps, IsName p) (above above' : List Folder) (e : Entry) :
    follow above e ps = follow above' e ps := by
  induction ps generalizing above above' e with
  | nil => rw [follow_nil, follow_nil]
  | cons p ps ih =>
    obtain ⟨hp, hps⟩ := List.forall_mem_cons.mp h
    cases e with
    | file content => rw [follow_file_cons, follow_file_cons]
    | folder here =>
      rw [follow_folder_cons, follow_folder_cons, step_of_isName hp, step_of_isName hp]
      cases here.find? p with
      | none => rfl
      | some e => exact ih hps _ _ e

/-- Where a path leads, with the directories that then lie above. -/
def walk : List Folder → Entry → List String → Except FileError (List Folder × Entry)
  | above, e, [] => .ok (above, e)
  | _, .file _, _ :: _ => .error .notDirectory
  | above, .folder here, p :: ps => step above here p >>= fun s => walk s.1 s.2 ps

theorem follow_append (above : List Folder) (e : Entry) (ps qs : List String) :
    follow above e (ps ++ qs) = walk above e ps >>= fun s => follow s.1 s.2 qs := by
  induction ps generalizing above e with
  | nil => rfl
  | cons p ps ih =>
    cases e with
    | file content =>
      rw [List.cons_append, follow_file_cons]
      rfl
    | folder here =>
      rw [List.cons_append, follow_folder_cons, walk, bind_assoc]
      exact bind_congr fun s => ih s.1 s.2

theorem follow_eq_ok_iff {e' : Entry} :
    follow above e ps = .ok e' ↔ ∃ above', walk above e ps = .ok (above', e') := by
  have hfollow := follow_append above e ps []
  rw [List.append_nil] at hfollow
  rw [hfollow, bind_eq_ok_iff]
  simp only [follow_nil]
  constructor
  · rintro ⟨⟨above', e''⟩, hwalk, h⟩
    cases h
    exact ⟨above', hwalk⟩
  · rintro ⟨above', hwalk⟩
    exact ⟨_, hwalk, rfl⟩

/-- To follow names behind a path is to follow them from where the path leads. -/
theorem follow_append_names (hqs : ∀ q ∈ qs, IsName q)
    (h : follow above e ps = .ok (.folder here)) :
    follow above e (ps ++ qs) = follow [] (.folder here) qs := by
  obtain ⟨above', hwalk⟩ := follow_eq_ok_iff.mp h
  rw [follow_append, hwalk]
  exact follow_above hqs above' [] _

/-- An empty piece at the end of a path leads no further. -/
theorem follow_of_append_empty (h : follow above e (ps ++ [""]) = .ok (.folder here)) :
    follow above e ps = .ok (.folder here) := by
  rw [follow_append] at h
  obtain ⟨⟨above', e'⟩, hwalk, hlast⟩ := bind_eq_ok_iff.mp h
  cases e' with
  | file content =>
    rw [follow_file_cons] at hlast
    cases hlast
  | folder start =>
    have hstay : follow above' (.folder start) [""] = .ok (.folder start) := by
      rw [follow_folder_cons]
      exact follow_nil above' _
    rw [hstay] at hlast
    cases hlast
    exact follow_eq_ok_iff.mpr ⟨above', hwalk⟩

theorem follow_of_find?_eq {start : Folder} {name : String} (hname : IsName name)
    (hps : ∀ p ∈ ps, IsName p) (h : start.find? name = here.find? name) :
    follow [] (.folder start) (name :: ps) = follow [] (.folder here) (name :: ps) := by
  rw [follow_folder_cons, follow_folder_cons, step_of_isName hname, step_of_isName hname, h]
  cases here.find? name with
  | none => rfl
  | some e => exact follow_above hps _ _ e

end

theorem follow_of_holds (h : here.Holds ways content) (hwell : here.WellNamed) :
    follow [] (.folder here) ways = .ok (.file content) := by
  induction h with
  | file name content rest =>
    have hfind : (file name content rest).find? name = some (.file content) := by simp [find?]
    rw [follow_folder_cons, step_of_isName hwell.1, hfind]
    exact follow_nil [file name content rest] (.file content)
  | @inside name here rest names content h ih =>
    obtain ⟨hname, -, hinside, -⟩ := hwell
    have hfind : (folder name here rest).find? name = some (.folder here) := by simp [find?]
    rw [follow_folder_cons, step_of_isName hname, hfind]
    exact (follow_above (h.isName hinside) _ _ _).trans (ih hinside)
  | @behindFile name other rest names content h ih =>
    -- The entries passed on the way have other names, so that they are not found instead.
    obtain ⟨-, hfresh, hrest⟩ := hwell
    obtain ⟨first, hfirst, below, rfl⟩ := h.exists_cons
    obtain ⟨hname, hbelow⟩ := List.forall_mem_cons.mp (h.isName hrest)
    have hne : name ≠ first := fun heq => hfresh (heq ▸ hfirst)
    have hfind : (file name other rest).find? first = rest.find? first := by rw [find?, if_neg hne]
    rw [follow_of_find?_eq hname hbelow hfind]
    exact ih hrest
  | @behindFolder name inside rest names content h ih =>
    obtain ⟨-, hfresh, -, hrest⟩ := hwell
    obtain ⟨first, hfirst, below, rfl⟩ := h.exists_cons
    obtain ⟨hname, hbelow⟩ := List.forall_mem_cons.mp (h.isName hrest)
    have hne : name ≠ first := fun heq => hfresh (heq ▸ hfirst)
    have hfind : (folder name inside rest).find? first = rest.find? first := by
      rw [find?, if_neg hne]
    rw [follow_of_find?_eq hname hbelow hfind]
    exact ih hrest

section
variable {fs : Folder} {cwd path : String}

theorem ne_empty_of_resolve {e : Entry} (h : fs.resolve cwd path = .ok e) : path ≠ "" := by
  rintro rfl
  cases h

/-- A path below a directory leads where the names lead from there, unless it is refused. -/
theorem resolve_below (h : fs.resolve cwd path = .ok (.folder here))
    (hways : ∀ name ∈ ways, IsName name) (hsome : ways ≠ []) :
    fs.resolve cwd (below path ways) =
      checkPath (below path ways) >>= fun _ => follow [] (.folder here) ways := by
  have hpath := ne_empty_of_resolve h
  unfold resolve at h
  obtain ⟨-, -, hfollow⟩ := bind_eq_ok_iff.mp h
  have htrunk : follow [] (.folder fs) (trunk (join cwd path)) = .ok (.folder here) := by
    rcases pieces_eq_trunk (join cwd path) with hpieces | hpieces
    · rwa [hpieces] at hfollow
    · rw [hpieces] at hfollow
      exact follow_of_append_empty hfollow
  have hpieces : ∀ name ∈ ways, IsPiece name := fun name hname => (hways name hname).isPiece
  unfold resolve
  rw [join_below cwd hpath hpieces, pieces_below (join_ne_empty cwd hpath) hpieces hsome,
    follow_append_names hways htrunk]

/-- What is read at the path of a file below a directory is its content, unless the path is
refused. -/
theorem readText_below (h : fs.resolve cwd path = .ok (.folder here)) (hwell : here.WellNamed)
    (hholds : here.Holds ways content) :
    fs.readText cwd (below path ways) =
      ((checkPath (below path ways)).map fun _ => content).bind decode := by
  unfold readText
  rw [resolve_below h (hholds.isName hwell) hholds.ne_nil, follow_of_holds hholds hwell]
  cases checkPath (below path ways) with
  | error e => rfl
  | ok u => rfl

end

theorem holds_empty_iff : empty.Holds ways content ↔ False := ⟨nofun, False.elim⟩

theorem holds_file_iff {name : String} {held : ByteArray} {rest : Folder} :
    (file name held rest).Holds ways content ↔
      ways = [name] ∧ content = held ∨ rest.Holds ways content := by
  constructor
  · intro h
    cases h with
    | file => exact .inl ⟨rfl, rfl⟩
    | behindFile _ _ h => exact .inr h
  · rintro (⟨rfl, rfl⟩ | h)
    · exact .file name content rest
    · exact .behindFile name held h

theorem holds_folder_iff {name : String} {inside rest : Folder} :
    (folder name inside rest).Holds ways content ↔
      (∃ below, ways = name :: below ∧ inside.Holds below content) ∨ rest.Holds ways content := by
  constructor
  · intro h
    cases h with
    | inside _ _ h => exact .inl ⟨_, rfl, h⟩
    | behindFolder _ _ h => exact .inr h
  · rintro (⟨below, rfl, h⟩ | h)
    · exact .inside name rest h
    · exact .behindFolder name inside h

/-- The list of files has those that names lead to, each with its content unless its path is
refused. -/
theorem mem_files_iff {path : String} (hlist : here.Listable path)
    (read : Except FileError ByteArray) :
    (ways, read) ∈ here.files path ↔ ∃ content, here.Holds ways content ∧
      read = (checkPath (below path ways)).map fun _ => content := by
  induction here generalizing path ways with
  | empty => simp [files, holds_empty_iff]
  | file name held rest ih =>
    rw [files, List.mem_cons, ih hlist]
    constructor
    · rintro (h | ⟨content, h, rfl⟩)
      · cases h
        exact ⟨held, .file name held rest, rfl⟩
      · exact ⟨content, .behindFile name held h, rfl⟩
    · rintro ⟨content, h, rfl⟩
      rcases holds_file_iff.mp h with ⟨rfl, rfl⟩ | h
      · exact .inl rfl
      · exact .inr ⟨content, h, rfl⟩
  | folder name inside rest ihInside ihRest =>
    obtain ⟨hcheck, hinside, hrest⟩ := hlist
    rw [files, hcheck, List.mem_append, ihRest hrest]
    constructor
    · rintro (h | ⟨content, h, rfl⟩)
      · obtain ⟨⟨below, read'⟩, hmem, heq⟩ := List.mem_map.mp h
        cases heq
        obtain ⟨content, hholds, rfl⟩ := (ihInside hinside).mp hmem
        exact ⟨content, .inside name rest hholds, rfl⟩
      · exact ⟨content, .behindFolder name inside h, rfl⟩
    · rintro ⟨content, h, rfl⟩
      rcases holds_folder_iff.mp h with ⟨below, rfl, hholds⟩ | hholds
      · exact .inl (List.mem_map.mpr ⟨_, (ihInside hinside).mpr ⟨content, hholds, rfl⟩, rfl⟩)
      · exact .inr ⟨content, hholds, rfl⟩

theorem exists_cons_of_mem_files {path : String} {f : List String × Except FileError ByteArray}
    (h : f ∈ here.files path) : ∃ name ∈ here.names, ∃ below, f.1 = name :: below := by
  induction here with
  | empty => cases h
  | file name held rest ih =>
    rcases List.mem_cons.mp h with rfl | h
    · exact ⟨name, List.mem_cons_self, [], rfl⟩
    · obtain ⟨first, hfirst, below, hbelow⟩ := ih h
      exact ⟨first, List.mem_cons_of_mem name hfirst, below, hbelow⟩
  | folder name inside rest _ ih =>
    rcases List.mem_append.mp h with h | h
    · refine ⟨name, List.mem_cons_self, ?_⟩
      cases hcheck : checkPath (join path name) with
      | error e =>
        rw [hcheck] at h
        exact ⟨[], by rw [List.mem_singleton.mp h]⟩
      | ok u =>
        rw [hcheck] at h
        obtain ⟨f', -, rfl⟩ := List.mem_map.mp h
        exact ⟨f'.1, rfl⟩
    · obtain ⟨first, hfirst, below, hbelow⟩ := ih h
      exact ⟨first, List.mem_cons_of_mem name hfirst, below, hbelow⟩

theorem ne_of_mem_files {path name : String} {below : List String}
    {f : List String × Except FileError ByteArray} (hfresh : name ∉ here.names)
    (h : f ∈ here.files path) : f.1 ≠ name :: below := by
  obtain ⟨first, hfirst, below', heq⟩ := exists_cons_of_mem_files h
  rw [heq]
  rintro h
  cases h
  exact hfresh hfirst

theorem nodup_files (hwell : here.WellNamed) (path : String) :
    ((here.files path).map Prod.fst).Nodup := by
  induction here generalizing path with
  | empty => exact List.nodup_nil
  | file name held rest ih =>
    obtain ⟨-, hfresh, hrest⟩ := hwell
    rw [files, List.map_cons, List.nodup_cons]
    refine ⟨?_, ih hrest path⟩
    intro hmem
    obtain ⟨f, hf, heq⟩ := List.mem_map.mp hmem
    exact ne_of_mem_files hfresh hf heq
  | folder name inside rest ihInside ihRest =>
    obtain ⟨-, hfresh, hinside, hrest⟩ := hwell
    have hother : ∀ below, ∀ ways ∈ (rest.files path).map Prod.fst, name :: below ≠ ways := by
      rintro below ways hways rfl
      obtain ⟨f, hf, heq⟩ := List.mem_map.mp hways
      exact ne_of_mem_files hfresh hf heq
    rw [files, List.map_append, List.nodup_append]
    cases checkPath (join path name) with
    | error e =>
      refine ⟨by simp, ihRest hrest path, ?_⟩
      intro ways hways
      rw [List.mem_singleton.mp hways]
      exact hother []
    | ok u =>
      rw [List.map_map]
      refine ⟨?_, ihRest hrest path, ?_⟩
      · have hdistinct := ihInside hinside (join path name)
        have hbehind := hdistinct.map (List.cons_injective (a := name))
        rwa [List.map_map] at hbehind
      · intro ways hways
        obtain ⟨f, -, rfl⟩ := List.mem_map.mp hways
        exact hother f.1

/-- What is read there after the file that names lead to has been given a content. -/
def reread (path : String) (ways : List String) (content : ByteArray)
    (f : List String × Except FileError ByteArray) : List String × Except FileError ByteArray :=
  if f.1 = ways then (f.1, (checkPath (below path f.1)).map fun _ => content) else f

theorem fst_reread (path : String) (ways : List String) (content : ByteArray)
    (f : List String × Except FileError ByteArray) : (reread path ways content f).1 = f.1 := by
  unfold reread
  split_ifs <;> rfl

theorem reread_of_ne {path : String} {f : List String × Except FileError ByteArray}
    (h : f.1 ≠ ways) : reread path ways content f = f := if_neg h

theorem map_reread_of_fresh {path name : String} (hfresh : name ∉ here.names)
    (below : List String) :
    (here.files path).map (reread path (name :: below) content) = here.files path := by
  refine List.map_congr_left ?_ |>.trans (List.map_id _)
  intro f hf
  exact reread_of_ne (ne_of_mem_files hfresh hf)

theorem reread_cons (path name : String) (ways : List String) (content : ByteArray)
    (f : List String × Except FileError ByteArray) :
    reread path (name :: ways) content (name :: f.1, f.2) =
      (name :: (reread (join path name) ways content f).1,
        (reread (join path name) ways content f).2) := by
  by_cases h : f.1 = ways
  · rw [reread, reread, if_pos h, if_pos (congrArg (name :: ·) h)]
    rfl
  · have hcons : name :: f.1 ≠ name :: ways := fun heq => h (List.cons.inj heq).2
    rw [reread_of_ne h, reread_of_ne hcons]

theorem put_file_of_ne {name' name : String} (h : name' ≠ name) (held : ByteArray) (rest : Folder)
    (e : Entry) (below : List String) :
    (file name' held rest).put e name below = file name' held (rest.put e name below) := by
  rw [put.eq_def]
  exact if_neg h

theorem put_folder_of_ne {name' name : String} (h : name' ≠ name) (inside rest : Folder) (e : Entry)
    (below : List String) :
    (folder name' inside rest).put e name below = folder name' inside (rest.put e name below) := by
  rw [put.eq_def]
  exact if_neg h

/-- To give a file a content changes nothing that is read in the others. -/
theorem files_put (hwell : here.WellNamed) {name : String} {below : List String} {old : ByteArray}
    (hholds : here.Holds (name :: below) old) (path : String) :
    (here.put (.file content) name below).files path =
      (here.files path).map (reread path (name :: below) content) := by
  induction here generalizing path name below with
  | empty => exact (holds_empty_iff.mp hholds).elim
  | file name' held rest ih =>
    obtain ⟨-, hfresh, hrest⟩ := hwell
    by_cases hname : name' = name
    · subst hname
      -- No entry behind this one has its name, so that the rest of the list stays.
      rcases holds_file_iff.mp hholds with ⟨hone, -⟩ | hbehind
      · cases hone
        rw [put, if_pos rfl, files, files, List.map_cons, map_reread_of_fresh hfresh, reread,
          if_pos rfl]
        rfl
      · obtain ⟨first, hfirst, below', heq⟩ := hbehind.exists_cons
        cases heq
        exact absurd hfirst hfresh
    · have hother : [name'] ≠ name :: below := fun heq => hname (List.cons.inj heq).1
      rcases holds_file_iff.mp hholds with ⟨hone, -⟩ | hbehind
      · exact absurd hone.symm hother
      · rw [put_file_of_ne hname, files, files, List.map_cons, ih hrest hbehind,
          reread_of_ne hother]
  | folder name' inside rest ihInside ihRest =>
    obtain ⟨-, hfresh, hinside, hrest⟩ := hwell
    by_cases hname : name' = name
    · subst hname
      rcases holds_folder_iff.mp hholds with ⟨below', heq, hdeep⟩ | hbehind
      · cases heq
        obtain ⟨next, -, below', rfl⟩ := hdeep.exists_cons
        rw [put, if_pos rfl, files, files, List.map_append, map_reread_of_fresh hfresh]
        refine congrArg (· ++ rest.files path) ?_
        cases checkPath (join path name') with
        | error e =>
          have hother : [name'] ≠ name' :: next :: below' := by simp
          rw [List.map_singleton, reread_of_ne hother]
        | ok u =>
          rw [ihInside hinside hdeep, List.map_map, List.map_map]
          refine List.map_congr_left ?_
          intro f _
          exact (reread_cons path name' (next :: below') content f).symm
      · obtain ⟨first, hfirst, below', heq⟩ := hbehind.exists_cons
        cases heq
        exact absurd hfirst hfresh
    · rcases holds_folder_iff.mp hholds with ⟨below', heq, -⟩ | hbehind
      · exact absurd (List.cons.inj heq).1.symm hname
      · rw [put_folder_of_ne hname, files, files, List.map_append, ihRest hrest hbehind]
        have hfirst : name ∉ (folder name' inside empty).names := by
          simpa [names] using Ne.symm hname
        have hsame := @map_reread_of_fresh _ content path _ hfirst below
        rw [files, files, List.append_nil] at hsame
        rw [hsame]

end CommandScript.Folder
