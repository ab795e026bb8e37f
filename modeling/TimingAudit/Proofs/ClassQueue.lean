import TimingAudit.ClassQueue
import Mathlib.Tactic.Common

/-!
# First occurrences

A mixed run and the name it goes by both list the classes of a request once each. What such a list is
can be said without saying how it is found: it has the same members, in the order of their first
places (`IsFirsts`). There is one such list, and `firstOccurrences` is it; so it changes nothing in a
list that has no repeats. It is found in one go through the list, in which every element is kept that
was not kept before (`onceEach_eq_firstOccurrences`).
-/

namespace TimingAudit

variable {α : Type} [DecidableEq α]

/-- The first occurrences of a list, in order. -/
def firstOccurrences : List α → List α
  | [] => []
  | x :: xs => x :: (firstOccurrences xs).filter (· ≠ x)

/-- What is kept on the way through a list: what was kept before, and the first occurrences of all
else. -/
theorem foldl_pushNew (l kept : List α) :
    l.foldl pushNew kept = kept ++ (firstOccurrences l).filter (· ∉ kept) := by
  induction l generalizing kept with
  | nil => exact (List.append_nil kept).symm
  | cons x l ih =>
      rw [List.foldl_cons, ih, firstOccurrences, pushNew]
      by_cases hx : x ∈ kept
      · rw [if_pos hx, List.filter_cons_of_neg (by simpa using hx), List.filter_filter]
        congr 1
        refine List.filter_congr fun y _ => ?_
        by_cases hy : y = x
        · simp [hy, hx]
        · simp [hy]
      · rw [if_neg hx, List.filter_cons_of_pos (by simpa using hx), List.filter_filter,
          List.append_assoc, List.singleton_append]
        congr 2
        refine List.filter_congr fun y _ => ?_
        simp [Bool.and_comm]

/-- **Keeping what was not kept before** finds the first occurrences. -/
theorem onceEach_eq_firstOccurrences (l : List α) : onceEach l = firstOccurrences l := by
  rw [onceEach, foldl_pushNew, List.nil_append]
  exact List.filter_eq_self.mpr fun x _ => by simp

/-- `firsts` has the members of `l`, in the order in which they first occur there. -/
structure IsFirsts (l firsts : List α) : Prop where
  mem_iff : ∀ x, x ∈ firsts ↔ x ∈ l
  ordered : firsts.Pairwise fun x y => l.idxOf x < l.idxOf y

/-- Listing each member once loses none and adds none. -/
@[simp] theorem mem_firstOccurrences {l : List α} {x : α} : x ∈ firstOccurrences l ↔ x ∈ l := by
  induction l with
  | nil => rfl
  | cons y l ih =>
      rw [firstOccurrences, List.mem_cons, List.mem_cons, List.mem_filter, ih, decide_eq_true_eq]
      by_cases h : x = y
      · simp [h]
      · simp [h]

theorem firstOccurrences_eq_nil_iff {l : List α} : firstOccurrences l = [] ↔ l = [] := by
  cases l with
  | nil => exact iff_of_true rfl rfl
  | cons x l => exact iff_of_false (List.cons_ne_nil _ _) (List.cons_ne_nil _ _)

/-- **The list of first occurrences** is in the order of their places. -/
theorem isFirsts_firstOccurrences (l : List α) : IsFirsts l (firstOccurrences l) where
  mem_iff _ := mem_firstOccurrences
  ordered := by
    induction l with
    | nil => exact .nil
    | cons x l ih =>
        -- Behind the head of the list every other member is found one place later.
        have hplace : ∀ y, y ≠ x → (x :: l).idxOf y = l.idxOf y + 1 := by
          intro y hy
          rw [List.idxOf_cons, beq_false_of_ne hy.symm, cond_false]
        refine List.pairwise_cons.mpr ⟨?_, ?_⟩
        · intro y hy
          have hne : y ≠ x := of_decide_eq_true (List.mem_filter.mp hy).2
          rw [List.idxOf_cons_self, hplace y hne]
          exact Nat.succ_pos _
        · refine (ih.filter _).imp_of_mem ?_
          intro y z hy hz hlt
          rw [hplace y (of_decide_eq_true (List.mem_filter.mp hy).2),
            hplace z (of_decide_eq_true (List.mem_filter.mp hz).2)]
          exact Nat.succ_lt_succ hlt

/-- No member is listed twice. -/
theorem IsFirsts.nodup {l firsts : List α} (h : IsFirsts l firsts) : firsts.Nodup := by
  refine h.ordered.imp ?_
  rintro x _ hlt rfl
  exact Nat.lt_irrefl _ hlt

/-- **There is one such list**: the members and their places leave no choice. -/
theorem IsFirsts.eq {l firsts firsts' : List α} (h : IsFirsts l firsts) (h' : IsFirsts l firsts') :
    firsts = firsts' := by
  have hperm : firsts.Perm firsts' := by
    rw [List.perm_ext_iff_of_nodup h.nodup h'.nodup]
    intro x
    rw [h.mem_iff, h'.mem_iff]
  refine hperm.eq_of_pairwise ?_ h.ordered h'.ordered
  intro x y _ _ hxy hyx
  exact absurd hxy (Nat.lt_asymm hyx)

/-- In a list without repeats every member is at its first place. -/
theorem isFirsts_self {l : List α} (h : l.Nodup) : IsFirsts l l where
  mem_iff _ := Iff.rfl
  ordered := by
    rw [List.pairwise_iff_getElem]
    intro i j hi hj hij
    rwa [h.idxOf_getElem i hi, h.idxOf_getElem j hj]

/-- A list without repeats is the list of its first occurrences. -/
theorem firstOccurrences_of_nodup {l : List α} (h : l.Nodup) : firstOccurrences l = l :=
  (isFirsts_firstOccurrences l).eq (isFirsts_self h)

/-- Listing each member once more changes nothing. -/
theorem firstOccurrences_firstOccurrences (l : List α) :
    firstOccurrences (firstOccurrences l) = firstOccurrences l :=
  firstOccurrences_of_nodup (isFirsts_firstOccurrences l).nodup

end TimingAudit
