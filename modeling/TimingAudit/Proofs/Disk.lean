import TimingAudit.Disk
import TimingAudit.Report.Delivery
import Mathlib.Tactic.Common

/-!
# Writing files in turn

Where a file is written is decided by the folders alone, and writing files makes no folders. So files
that can be written at first can be written all along, each at its place, and a place holds what was
written to it last. The files of two classes in one folder are at different places, because the last
name on the way to a file is the name of the file.

* `contents?_putAll_of_last`, `contents?_putAll_of_forall_ne` : what a place holds in the end;
* `eq_of_target_resultFile` : the files of different classes.
-/

namespace TimingAudit

/-! ## The name of a file in a folder -/

namespace Text

/-- The pieces between separators are those of the library. -/
theorem pieces_eq_splitOn {α : Type} [DecidableEq α] (separator : α) (cs : List α) :
    pieces separator cs = cs.splitOn separator := by
  induction cs with
  | nil => rfl
  | cons c cs ih =>
      rw [pieces, List.splitOn_cons_eq_if_modifyHead, ih]
      by_cases hc : c = separator
      · rw [if_pos hc, if_pos (beq_iff_eq.mpr hc)]
      · rw [if_neg hc, if_neg (fun h => hc (beq_iff_eq.mp h))]
        cases hsplit : cs.splitOn separator with
        | nil => exact absurd hsplit (List.splitOn_ne_nil _ _)
        | cons piece rest => rfl

/-- A path ends in its file, with a slash before it if anything is. -/
theorem getLast?_pathParts {path file : String} (hfile : '/' ∉ file.toList)
    (hpath : path.toList = file.toList ∨ ∃ front, path.toList = front ++ '/' :: file.toList) :
    (pathParts path).getLast? = some file := by
  have hlast : (pieces '/' path.toList).getLast? = some file.toList := by
    rw [pieces_eq_splitOn]
    rcases hpath with hpath | ⟨front, hpath⟩
    · rw [hpath, List.splitOn_eq_singleton hfile]
      rfl
    · rw [hpath, List.splitOn_append_cons_self, List.splitOn_eq_singleton hfile,
        List.getLast?_concat]
  rw [pathParts, List.getLast?_map, hlast, Option.map_some, String.ofList_toList]

end Text

/-- A file in a folder is named last on the way to it. -/
theorem Report.getLast?_pathParts_pathIn (folder : String) {file : String}
    (hfile : '/' ∉ file.toList) : (Text.pathParts (pathIn folder file)).getLast? = some file := by
  apply Text.getLast?_pathParts hfile
  unfold pathIn
  split
  · exact .inl rfl
  · rename_i hslash
    -- The folder ends in a slash, and no other is added.
    obtain ⟨front, hfront⟩ := List.getLast?_eq_some_iff.mp hslash
    refine .inr ⟨front, ?_⟩
    rw [String.toList_append, hfront, List.append_assoc]
    rfl
  · refine .inr ⟨folder.toList, ?_⟩
    rw [String.toList_append, String.toList_append, List.append_assoc]
    rfl

/-- Classes with the same result file are the same. -/
theorem InputClass.resultFile_injective : Function.Injective InputClass.resultFile := by
  intro k k' h
  cases k <;> cases k' <;> first | rfl | exact absurd h (by decide)

namespace Disk

/-! ## Places -/

theorem isFolder_iff_of_folders {d d' : Disk} (h : d'.folders = d.folders) (p : Place) :
    d'.IsFolder p ↔ d.IsFolder p := by
  unfold IsFolder
  rw [h]

/-- Only folders are looked at on the way along a path. -/
theorem follow_eq_ok_of_folders {d d' : Disk} (h : d'.folders = d.folders) (parts : List String) :
    ∀ {p q : Place}, d.follow p parts = .ok q → d'.follow p parts = .ok q := by
  induction parts with
  | nil =>
      intro p q hq
      exact hq
  | cons part parts ih =>
      intro p q hq
      unfold follow at hq ⊢
      simp only [isFolder_iff_of_folders h]
      split_ifs at hq ⊢
      all_goals exact ih hq

/-- Where a file is written depends on the folders alone. -/
theorem target_eq_ok_of_folders {d d' : Disk} (h : d'.folders = d.folders) {path : String}
    {p : Place} (hp : d.target path = .ok p) : d'.target path = .ok p := by
  unfold target at hp ⊢
  split_ifs at hp ⊢
  cases hfollow : d.follow (Place.startOf path) (Text.pathParts path).dropLast with
  | error e =>
      rw [hfollow] at hp
      cases hp
  | ok q =>
      rw [hfollow] at hp
      rw [follow_eq_ok_of_folders h _ hfollow]
      unfold fileIn at hp ⊢
      simp only [isFolder_iff_of_folders h]
      exact hp

/-- The place of a file goes by the name of the file. -/
theorem getLast?_names_of_target {d : Disk} {path file : String} {p : Place}
    (hfile : (Text.pathParts path).getLast? = some file) (hp : d.target path = .ok p) :
    p.names.getLast? = some file := by
  unfold target at hp
  split_ifs at hp
  split at hp
  · cases hp
  · rename_i q _
    rw [hfile, Option.getD_some] at hp
    unfold fileIn at hp
    split_ifs at hp
    cases hp
    show (q.names ++ [file]).getLast? = some file
    exact List.getLast?_concat

/-- The result files of different classes are at different places of a folder. -/
theorem eq_of_target_resultFile {d d' : Disk} {folder : String} {k k' : InputClass} {p : Place}
    (h : d.target (Report.pathIn folder k.resultFile) = .ok p)
    (h' : d'.target (Report.pathIn folder k'.resultFile) = .ok p) : k = k' := by
  have hfile : ∀ k : InputClass, '/' ∉ k.resultFile.toList := by
    intro k
    cases k <;> decide
  have hname := getLast?_names_of_target (Report.getLast?_pathParts_pathIn folder (hfile k)) h
  have hname' := getLast?_names_of_target (Report.getLast?_pathParts_pathIn folder (hfile k')) h'
  rw [hname] at hname'
  exact InputClass.resultFile_injective (Option.some.inj hname')

/-! ## Contents -/

/-- A place holds what was put there. -/
theorem contents?_put_self (d : Disk) (p : Place) (text : String) :
    (d.put p text).contents? p = some text := by
  have hold : (d.files.filter fun f => f.1 ≠ p).find? (fun f => f.1 = p) = none := by
    rw [List.find?_eq_none]
    intro f hf
    simpa using (List.mem_filter.mp hf).2
  show ((_ ++ [(p, text)]).find? _).map _ = _
  rw [List.find?_append, hold]
  simp

/-- Other places are as they were. -/
theorem contents?_put_of_ne (d : Disk) {p q : Place} (h : q ≠ p) (text : String) :
    (d.put p text).contents? q = d.contents? q := by
  have hkept : (d.files.filter fun f => f.1 ≠ p).find? (fun f => f.1 = q) =
      d.files.find? fun f => f.1 = q := by
    -- Only entries of `p` are dropped, and none of these is looked for.
    rw [List.find?_filter]
    congr 1
    funext f
    by_cases hf : f.1 = q
    · simp [hf, h]
    · simp [hf]
  show ((_ ++ [(p, text)]).find? _).map _ = (d.files.find? _).map _
  rw [List.find?_append, hkept, List.find?_singleton]
  simp [h.symm]

/-- Puts files at their places, one after another. -/
def putAll (d : Disk) (writes : List (Place × String)) : Disk :=
  writes.foldl (fun d w => d.put w.1 w.2) d

theorem putAll_append (d : Disk) (writes writes' : List (Place × String)) :
    d.putAll (writes ++ writes') = (d.putAll writes).putAll writes' :=
  List.foldl_append

/-- No folders are made. -/
theorem folders_putAll (writes : List (Place × String)) :
    ∀ d : Disk, (d.putAll writes).folders = d.folders := by
  induction writes with
  | nil =>
      intro d
      rfl
  | cons w writes ih =>
      intro d
      exact ih (d.put w.1 w.2)

/-- A place that nothing is put at is as it was. -/
theorem contents?_putAll_of_forall_ne {writes : List (Place × String)} {p : Place} :
    ∀ {d : Disk}, (∀ w ∈ writes, w.1 ≠ p) → (d.putAll writes).contents? p = d.contents? p := by
  induction writes with
  | nil =>
      intro d _
      rfl
  | cons w writes ih =>
      intro d h
      show ((d.put w.1 w.2).putAll writes).contents? p = d.contents? p
      rw [ih fun w' hw' => h w' (List.mem_cons_of_mem _ hw')]
      exact contents?_put_of_ne d (h w List.mem_cons_self).symm _

/-- A place holds what was put there last. -/
theorem contents?_putAll_of_last (d : Disk) (front : List (Place × String))
    {rest : List (Place × String)} {p : Place} (text : String) (h : ∀ w ∈ rest, w.1 ≠ p) :
    (d.putAll (front ++ (p, text) :: rest)).contents? p = some text := by
  rw [putAll_append]
  show (((d.putAll front).put p text).putAll rest).contents? p = some text
  rw [contents?_putAll_of_forall_ne h]
  exact contents?_put_self _ p text

end Disk

end TimingAudit
