import Mathlib.Data.List.Basic
import Mathlib.Tactic.Common
import CommandScript.Files.Folder

/-! Paths below a directory: the names on the way to a file stand behind the path of the directory,
and to look the file up is to follow them from there. -/
namespace CommandScript
namespace Path

/-- The path that names lead to from a directory with a path. -/
def below (root : String) (names : List String) : String := names.foldl join root

/-- A text that the name of a file or directory can be. -/
structure IsName (name : String) : Prop where
  not_idle : isIdle name = false
  ne_up : name ≠ ".."
  no_slash : '/' ∉ name.toList
  size_le : name.utf8ByteSize ≤ maxNameSize

/-- A text that can stand between slashes, however long it is. -/
structure IsPiece (piece : String) : Prop where
  ne_empty : piece ≠ ""
  no_slash : '/' ∉ piece.toList

theorem IsName.isPiece {name : String} (h : IsName name) : IsPiece name := by
  refine ⟨?_, h.no_slash⟩
  rintro rfl
  cases h.not_idle

theorem pieces_of_no_slash {s : String} (h : '/' ∉ s.toList) : pieces s = [s] := by
  have hone : s.toList.splitOn '/' = [s.toList] := by
    refine List.splitOnP_eq_singleton ?_
    intro c hc
    rw [beq_eq_false_iff_ne]
    rintro rfl
    exact h hc
  rw [pieces, hone, List.map_singleton, String.ofList_toList]

theorem pieces_of_slash {path front back : String}
    (h : path.toList = front.toList ++ '/' :: back.toList) :
    pieces path = pieces front ++ pieces back := by
  rw [pieces, h, List.splitOn_append_cons_self, List.map_append]
  rfl

theorem pieces_of_last_slash {path : String} {front : List Char}
    (h : path.toList = front ++ ['/']) : pieces path = pieces (String.ofList front) ++ [""] := by
  rw [← pieces_of_no_slash (by simp : '/' ∉ "".toList)]
  exact pieces_of_slash (by simpa using h)

theorem no_slash_of_mem_splitOn {cs piece : List Char} (h : piece ∈ cs.splitOn '/') :
    '/' ∉ piece := by
  induction cs generalizing piece with
  | nil =>
    rw [List.mem_singleton.mp h]
    exact List.not_mem_nil
  | cons c cs ih =>
    rw [List.splitOn_cons_eq_if_modifyHead] at h
    split_ifs at h with hc
    · rcases List.mem_cons.mp h with rfl | hrest
      · exact List.not_mem_nil
      · exact ih hrest
    · have hsome : cs.splitOn '/' ≠ [] := List.splitOn_ne_nil '/' cs
      obtain ⟨first, rest, hsplit⟩ := List.exists_cons_of_ne_nil hsome
      rw [hsplit] at ih h
      rcases List.mem_cons.mp h with rfl | hrest
      · have hne : '/' ≠ c := fun heq => hc (beq_iff_eq.mpr heq.symm)
        exact List.not_mem_cons_of_ne_of_not_mem hne (ih List.mem_cons_self)
      · exact ih (List.mem_cons_of_mem first hrest)

theorem no_slash_of_mem_pieces {path piece : String} (h : piece ∈ pieces path) :
    '/' ∉ piece.toList := by
  obtain ⟨cs, hcs, rfl⟩ := List.mem_map.mp h
  rw [String.toList_ofList]
  exact no_slash_of_mem_splitOn hcs

theorem pieces_ne_nil (path : String) : pieces path ≠ [] := by
  simp [pieces, List.splitOn_ne_nil]

theorem pieces_intercalate {names : List String} (h : ∀ name ∈ names, '/' ∉ name.toList)
    (hsome : names ≠ []) :
    pieces ("/".intercalate names) = names := by
  have hsplit : (['/'].intercalate (names.map String.toList)).splitOn '/' =
      names.map String.toList := by
    refine List.splitOn_intercalate '/' ?_ (by simpa using hsome)
    intro cs hcs
    obtain ⟨name, hname, rfl⟩ := List.mem_map.mp hcs
    exact h name hname
  rw [pieces, String.toList_intercalate]
  exact (congrArg _ hsplit).trans (by simp)

theorem intercalate_pieces (path : String) : "/".intercalate (pieces path) = path := by
  have hback : (pieces path).map String.toList = path.toList.splitOn '/' := by
    simp [pieces]
  apply String.toList_inj.mp
  rw [String.toList_intercalate, hback]
  exact List.intercalate_splitOn '/'

/-- The pieces of a path that stay in front of a name below it: a slash at the end adds none. -/
def trunk (base : String) : List String :=
  if base.toList.getLast? = some '/' then (pieces base).dropLast else pieces base

theorem pieces_eq_trunk (base : String) :
    pieces base = trunk base ∨ pieces base = trunk base ++ [""] := by
  unfold trunk
  split_ifs with hlast
  · obtain ⟨front, hfront⟩ := List.getLast?_eq_some_iff.mp hlast
    exact .inr (by rw [pieces_of_last_slash hfront, List.dropLast_concat])
  · exact .inl rfl

section
variable {base name : String} {names : List String}

theorem join_ne_empty (base : String) (h : name ≠ "") : join base name ≠ "" := by
  unfold join
  split_ifs
  · exact h
  · simp [h]
  · simp [h]

theorem getLast?_join (base : String) (h : name ≠ "") :
    (join base name).toList.getLast? = name.toList.getLast? := by
  have hsome : name.toList.getLast?.isSome := by simpa using h
  unfold join
  split_ifs
  · rfl
  · rw [String.toList_append, List.getLast?_append, Option.or_of_isSome hsome]
  · rw [String.toList_append, List.getLast?_append, Option.or_of_isSome hsome]

theorem join_of_relative (hbase : base ≠ "") (hname : isAbsolute name = false) :
    join base name =
      base ++ (if base.toList.getLast? = some '/' then "" else "/") ++ name := by
  have hsome : base.isEmpty = false := by simpa using hbase
  unfold join
  rw [hname, hsome, if_neg (by decide)]
  split_ifs
  · rw [String.append_empty]
  · rfl

theorem IsPiece.relative (h : IsPiece name) : isAbsolute name = false := by
  unfold isAbsolute
  rw [beq_eq_false_iff_ne]
  intro hhead
  exact h.no_slash (List.mem_of_mem_head? hhead)

theorem isAbsolute_append {front : String} (hfront : front ≠ "") (back : String) :
    isAbsolute (front ++ back) = isAbsolute front := by
  have hsome : front.toList.head?.isSome := by simpa using hfront
  unfold isAbsolute
  rw [String.toList_append, List.head?_append, Option.or_of_isSome hsome]

theorem isAbsolute_join (hbase : base ≠ "") (hname : isAbsolute name = false) :
    isAbsolute (join base name) = isAbsolute base := by
  rw [join_of_relative hbase hname, String.append_assoc, isAbsolute_append hbase]

theorem join_join (cwd : String) {path : String} (hpath : path ≠ "")
    (hname : isAbsolute name = false) : join cwd (join path name) = join (join cwd path) name := by
  have habsolute := isAbsolute_join hpath hname
  by_cases hplain : isAbsolute path = true ∨ cwd = ""
  · have hself : ∀ p, isAbsolute p = isAbsolute path → join cwd p = p := by
      intro p hp
      unfold join
      rw [if_pos]
      simpa [hp] using hplain
    rw [hself _ habsolute, hself _ rfl]
  · obtain ⟨hrelative, hcwd⟩ := not_or.mp hplain
    rw [Bool.not_eq_true] at hrelative
    rw [join_of_relative hcwd (habsolute.trans hrelative),
      join_of_relative (join_ne_empty cwd hpath) hname, getLast?_join cwd hpath,
      join_of_relative hpath hname, join_of_relative hcwd hrelative]
    simp only [String.append_assoc]

theorem pieces_join (hbase : base ≠ "") (hname : IsPiece name) :
    pieces (join base name) = trunk base ++ [name] := by
  rw [join_of_relative hbase hname.relative, trunk, ← pieces_of_no_slash hname.no_slash]
  split_ifs with hlast
  · obtain ⟨front, hfront⟩ := List.getLast?_eq_some_iff.mp hlast
    rw [pieces_of_last_slash hfront, List.dropLast_concat]
    exact pieces_of_slash (by simp [hfront])
  · exact pieces_of_slash (by simp)

theorem trunk_join (hbase : base ≠ "") (hname : IsPiece name) :
    trunk (join base name) = trunk base ++ [name] := by
  have hlast : (join base name).toList.getLast? ≠ some '/' := by
    rw [getLast?_join base hname.ne_empty]
    intro h
    exact hname.no_slash (List.mem_of_getLast? h)
  rw [trunk, if_neg hlast, pieces_join hbase hname]

theorem below_ne_empty (hbase : base ≠ "") (hnames : ∀ name ∈ names, IsPiece name) :
    below base names ≠ "" := by
  induction names generalizing base with
  | nil => exact hbase
  | cons name names ih =>
    have hname := hnames name List.mem_cons_self
    exact ih (join_ne_empty base hname.ne_empty) fun n hn => hnames n (List.mem_cons_of_mem name hn)

theorem trunk_below (hbase : base ≠ "") (hnames : ∀ name ∈ names, IsPiece name) :
    trunk (below base names) = trunk base ++ names := by
  induction names generalizing base with
  | nil => simp [below]
  | cons name names ih =>
    have hname := hnames name List.mem_cons_self
    have hrest := ih (join_ne_empty base hname.ne_empty) fun n hn =>
      hnames n (List.mem_cons_of_mem name hn)
    rw [trunk_join hbase hname, List.append_assoc] at hrest
    exact hrest

theorem pieces_below (hbase : base ≠ "") (hnames : ∀ name ∈ names, IsPiece name)
    (hsome : names ≠ []) : pieces (below base names) = trunk base ++ names := by
  obtain ⟨front, last, rfl⟩ := (List.eq_nil_or_concat names).resolve_left hsome
  rw [List.concat_eq_append] at hnames ⊢
  have hfront : ∀ name ∈ front, IsPiece name := fun n hn => hnames n (by simp [hn])
  have hsplit : below base (front ++ [last]) = join (below base front) last := by
    rw [below, List.foldl_append]
    rfl
  rw [hsplit, pieces_join (below_ne_empty hbase hfront) (hnames last (by simp)),
    trunk_below hbase hfront, List.append_assoc]

/-- No two ways down lead to one path. -/
theorem below_injective {names' : List String} (hbase : base ≠ "")
    (hnames : ∀ name ∈ names, IsPiece name) (hsome : names ≠ [])
    (hnames' : ∀ name ∈ names', IsPiece name) (hsome' : names' ≠ [])
    (h : below base names = below base names') : names = names' := by
  have hpieces := congrArg pieces h
  rw [pieces_below hbase hnames hsome, pieces_below hbase hnames' hsome'] at hpieces
  exact List.append_cancel_left hpieces

theorem join_below (cwd : String) {path : String} (hpath : path ≠ "")
    (hnames : ∀ name ∈ names, IsPiece name) :
    join cwd (below path names) = below (join cwd path) names := by
  induction names generalizing path with
  | nil => rfl
  | cons name names ih =>
    have hname := hnames name List.mem_cons_self
    have hrest := ih (join_ne_empty path hname.ne_empty) fun n hn =>
      hnames n (List.mem_cons_of_mem name hn)
    rw [join_join cwd hpath hname.relative] at hrest
    exact hrest

theorem trunk_ne_nil (base : String) : trunk base ≠ [] := by
  unfold trunk
  split_ifs with hlast
  · obtain ⟨front, hfront⟩ := List.getLast?_eq_some_iff.mp hlast
    rw [pieces_of_last_slash hfront, List.dropLast_concat]
    exact pieces_ne_nil _
  · exact pieces_ne_nil base

theorem filter_trunk (base : String) :
    (trunk base).filter (fun p => !isIdle p) = (pieces base).filter fun p => !isIdle p := by
  rcases pieces_eq_trunk base with h | h
  · rw [h]
  · rw [h, List.filter_append]
    simp [isIdle]

/-- What a piece adds to the names on a path. -/
theorem components_join (base : String) (hname : IsPiece name) (hactive : isIdle name = false) :
    components (join base name) = components base ++ [name] := by
  have hkept : [name].filter (fun p => !isIdle p) = [name] := by simp [hactive]
  by_cases hbase : base = ""
  · have hjoin : join base name = name := by simp [join, hbase]
    have hdot : name ≠ "." := by
      rintro rfl
      cases hactive
    have hlead : ([name].head? = some ".") = False := by simp [hdot]
    rw [hjoin, hbase, components, pieces_of_no_slash hname.no_slash, hkept, hname.relative]
    simp only [hlead]
    rfl
  -- Whether a dot in front counts is up to the first piece, and that one is of the base.
  · have hhead : (trunk base ++ [name]).head? = (pieces base).head? := by
      rw [List.head?_append_of_ne_nil _ (trunk_ne_nil base)]
      rcases pieces_eq_trunk base with h | h
      · rw [h]
      · rw [h, List.head?_append_of_ne_nil _ (trunk_ne_nil base)]
    unfold components
    dsimp only
    rw [pieces_join hbase hname, isAbsolute_join hbase hname.relative, hhead, List.filter_append,
      filter_trunk, hkept, List.append_assoc]

theorem components_below (hnames : ∀ name ∈ names, IsPiece name ∧ isIdle name = false) :
    components (below base names) = components base ++ names := by
  induction names generalizing base with
  | nil => simp [below]
  | cons name names ih =>
    obtain ⟨hname, hactive⟩ := hnames name List.mem_cons_self
    have hrest : components (below (join base name) names) = components (join base name) ++ names :=
      ih fun n hn => hnames n (List.mem_cons_of_mem name hn)
    rw [components_join base hname hactive, List.append_assoc] at hrest
    exact hrest

/-- Names with slashes between them lead where the names do one after the other. -/
theorem join_intercalate (base : String) (hname : IsPiece name)
    (hnames : ∀ name ∈ names, IsPiece name) :
    join base ("/".intercalate (name :: names)) = below base (name :: names) := by
  induction names generalizing base name with
  | nil =>
    rw [String.intercalate_singleton]
    rfl
  | cons next names ih =>
    have hnext := hnames next List.mem_cons_self
    have hrest := ih (join base name) hnext fun n hn => hnames n (List.mem_cons_of_mem next hn)
    have hrelative : isAbsolute ("/".intercalate (next :: names)) = false := by
      cases names with
      | nil =>
        rw [String.intercalate_singleton]
        exact hnext.relative
      | cons _ _ =>
        rw [String.intercalate_cons_cons, String.append_assoc, isAbsolute_append hnext.ne_empty]
        exact hnext.relative
    have hplain : name.toList.getLast? ≠ some '/' := fun h =>
      hname.no_slash (List.mem_of_getLast? h)
    have hjoin : "/".intercalate (name :: next :: names) =
        join name ("/".intercalate (next :: names)) := by
      rw [String.intercalate_cons_cons, join_of_relative hname.ne_empty hrelative, if_neg hplain]
    rw [hjoin, join_join base hname.ne_empty hrelative, hrest]
    rfl

end
end Path
end CommandScript
