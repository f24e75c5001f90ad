import Mathlib.Data.List.Induction
import Mathlib.Data.List.Nodup
import CommandScript.Template.Expansion

/-! The different names in a list, in the order in which they first come. -/
namespace CommandScript.Template

/-- `names` has the members of `all`, each once: a name comes before another one if its first
occurrence in `all` does. -/
structure FirstOccurrences (all names : List String) : Prop where
  mem_iff : ∀ name, name ∈ names ↔ name ∈ all
  ordered : names.Pairwise fun a b => all.idxOf a < all.idxOf b

namespace FirstOccurrences

theorem nodup {all names : List String} (h : FirstOccurrences all names) : names.Nodup := by
  apply h.ordered.imp
  rintro a b hab rfl
  exact absurd hab (Nat.lt_irrefl _)

theorem unique {all names names' : List String} (h : FirstOccurrences all names)
    (h' : FirstOccurrences all names') : names = names' := by
  have hperm : names.Perm names' := by
    refine (List.perm_ext_iff_of_nodup h.nodup h'.nodup).mpr fun name => ?_
    rw [h.mem_iff, h'.mem_iff]
  refine hperm.eq_of_pairwise ?_ h.ordered h'.ordered
  intro a b _ _ hab hba
  exact absurd hab (Nat.lt_asymm hba)

end FirstOccurrences

theorem eraseDups_eq_nil_iff {all : List String} : all.eraseDups = [] ↔ all = [] := by
  simp only [List.eq_nil_iff_forall_not_mem, List.mem_eraseDups]

theorem eraseDups_append_singleton (all : List String) (name : String) :
    (all ++ [name]).eraseDups =
      if name ∈ all then all.eraseDups else all.eraseDups ++ [name] := by
  rw [List.eraseDups_append]
  split_ifs with h
  · simp [List.removeAll, h]
  · simp [List.removeAll, h, List.eraseDups_cons]

/-- What is left when repetitions are erased are the first occurrences. -/
theorem firstOccurrences_eraseDups (all : List String) :
    FirstOccurrences all all.eraseDups := by
  refine ⟨fun name => List.mem_eraseDups, ?_⟩
  induction all using List.reverseRecOn with
  | nil => exact List.Pairwise.nil
  | append_singleton all name ih =>
    have hold : all.eraseDups.Pairwise fun a b =>
        (all ++ [name]).idxOf a < (all ++ [name]).idxOf b := by
      apply ih.imp_of_mem
      intro a b ha hb hab
      rwa [List.idxOf_append_of_mem (List.mem_eraseDups.mp ha),
        List.idxOf_append_of_mem (List.mem_eraseDups.mp hb)]
    rw [eraseDups_append_singleton]
    split_ifs with hname
    · exact hold
    · refine List.pairwise_append.mpr ⟨hold, List.pairwise_singleton _ _, ?_⟩
      intro a ha b hb
      rw [List.mem_singleton.mp hb, List.idxOf_append_of_mem (List.mem_eraseDups.mp ha),
        List.idxOf_append_of_notMem hname]
      exact Nat.lt_add_right _ (List.idxOf_lt_length_of_mem (List.mem_eraseDups.mp ha))

theorem eraseDups_filter (keep : String → Bool) (all : List String) :
    (all.filter keep).eraseDups = all.eraseDups.filter keep := by
  induction all using List.reverseRecOn with
  | nil => rfl
  | append_singleton all name ih =>
    by_cases hkeep : keep name = true
    · rw [List.filter_append, List.filter_cons_of_pos hkeep, List.filter_nil,
        eraseDups_append_singleton, eraseDups_append_singleton, ih]
      by_cases hname : name ∈ all
      · rw [if_pos hname, if_pos (List.mem_filter.mpr ⟨hname, hkeep⟩)]
      · have hnot : name ∉ all.filter keep := fun h => hname (List.mem_filter.mp h).1
        rw [if_neg hname, if_neg hnot, List.filter_append, List.filter_cons_of_pos hkeep,
          List.filter_nil]
    · rw [List.filter_append, List.filter_cons_of_neg hkeep, List.filter_nil, List.append_nil,
        eraseDups_append_singleton, ih]
      split_ifs with hname
      · rfl
      · rw [List.filter_append, List.filter_cons_of_neg hkeep, List.filter_nil, List.append_nil]

theorem eraseDups_of_nodup {names : List String} (h : names.Nodup) : names.eraseDups = names := by
  induction names using List.reverseRecOn with
  | nil => rfl
  | append_singleton names name ih =>
    obtain ⟨hnames, -, hdisjoint⟩ := List.nodup_append.mp h
    have hnot : name ∉ names := fun hmem => hdisjoint name hmem name List.mem_cons_self rfl
    rw [eraseDups_append_singleton, if_neg hnot, ih hnames]

/-- It does not matter whether repetitions are erased in the parts of a list beforehand. -/
theorem eraseDups_flatMap_eraseDups (parts : List (List String)) :
    (parts.flatMap List.eraseDups).eraseDups = parts.flatten.eraseDups := by
  induction parts using List.reverseRecOn with
  | nil => rfl
  | append_singleton parts part ih =>
    have hfresh : (fun name => !(parts.flatMap List.eraseDups).elem name) =
        fun name => !parts.flatten.elem name := by
      funext name
      rw [Bool.eq_iff_iff]
      simp
    have hlast : (part.eraseDups.removeAll (parts.flatMap List.eraseDups)).eraseDups =
        (part.removeAll parts.flatten).eraseDups := by
      unfold List.removeAll
      rw [hfresh, eraseDups_filter, eraseDups_filter,
        eraseDups_of_nodup (firstOccurrences_eraseDups part).nodup]
    rw [List.flatMap_append, List.flatMap_singleton, List.eraseDups_append, ih, hlast,
      List.flatten_append, List.flatten_singleton, List.eraseDups_append]

end CommandScript.Template
