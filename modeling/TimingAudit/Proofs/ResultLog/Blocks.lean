import TimingAudit.ResultLog
import Mathlib.Data.List.Basic
import Mathlib.Tactic.Common

/-!
# The blocks of a result log

However the bytes of a log came in, its blocks are those into which all of them are cut at once. So
the blocks say nothing about where one call ended and the next one began, and only the last block can
have room.

Appending goes on turn by turn: the last block takes what fits, or an empty block is put behind it. A
turn of the second kind takes no bytes, so it is the bytes left together with the want of room that
get fewer.

* `fill_cut` : filling up the blocks of some bytes gives the blocks of more bytes;
* `Canonical.append_append` : two appends are one;
* `turns_iff` : the turns come to an end, and where they end is `append`.
-/

namespace TimingAudit.ResultLog

/-! ## Cutting -/

/-- No bytes, no blocks. -/
theorem cut_nil : cut [] = [] := by
  rw [cut]
  rfl

/-- Any other bytes have a first block. -/
theorem cut_of_ne_nil {bytes : Bytes} (h : bytes ≠ []) :
    cut bytes = bytes.take blockSize :: cut (bytes.drop blockSize) := by
  rw [cut, if_neg]
  simpa using h

/-- There is a block as soon as there is a byte. -/
theorem cut_eq_nil_iff {bytes : Bytes} : cut bytes = [] ↔ bytes = [] := by
  constructor
  · intro h
    by_contra hne
    rw [cut_of_ne_nil hne] at h
    cases h
  · rintro rfl
    exact cut_nil

/-- Bytes that fit into one block are that block. -/
theorem cut_of_length_le {bytes : Bytes} (hne : bytes ≠ []) (h : bytes.length ≤ blockSize) :
    cut bytes = [bytes] := by
  rw [cut_of_ne_nil hne, List.take_of_length_le h, List.drop_of_length_le h, cut_nil]

/-- All blocks but the last one are full. -/
theorem length_of_mem_dropLast_cut (bytes : Bytes) :
    ∀ block ∈ (cut bytes).dropLast, block.length = blockSize := by
  induction bytes using cut.induct with
  | case1 bytes h =>
      rw [List.isEmpty_iff.mp h, cut_nil]
      rintro block ⟨⟩
  | case2 bytes h ih =>
      have hne : bytes ≠ [] := by simpa using h
      rw [cut_of_ne_nil hne]
      by_cases hrest : bytes.drop blockSize = []
      · rw [hrest, cut_nil]
        rintro block ⟨⟩
      · have hcut : cut (bytes.drop blockSize) ≠ [] := fun h => hrest (cut_eq_nil_iff.mp h)
        rw [List.dropLast_cons_of_ne_nil hcut]
        rintro block hblock
        rcases List.mem_cons.mp hblock with rfl | hblock
        · rw [List.drop_eq_nil_iff, Nat.not_le] at hrest
          rw [List.length_take, Nat.min_eq_left (Nat.le_of_lt hrest)]
        · exact ih block hblock

/-- The last block is not empty, and not longer than a block may be. -/
theorem length_of_getLast?_cut (bytes : Bytes) :
    ∀ block, (cut bytes).getLast? = some block → 1 ≤ block.length ∧ block.length ≤ blockSize := by
  induction bytes using cut.induct with
  | case1 bytes h =>
      rw [List.isEmpty_iff.mp h, cut_nil]
      rintro block ⟨⟩
  | case2 bytes h ih =>
      have hne : bytes ≠ [] := by simpa using h
      rw [cut_of_ne_nil hne]
      by_cases hrest : bytes.drop blockSize = []
      · rw [hrest, cut_nil, List.getLast?_singleton]
        rintro block ⟨⟩
        have hpos := List.length_pos_iff.mpr hne
        have hsize : blockSize = 1000 := rfl
        rw [List.length_take]
        omega
      · have hcut : cut (bytes.drop blockSize) ≠ [] := fun h => hrest (cut_eq_nil_iff.mp h)
        rw [List.getLast?_cons_of_ne_nil hcut]
        exact ih

/-- Each block is a stretch of the bytes. -/
theorem getElem?_cut (bytes : Bytes) (i : Nat) :
    (cut bytes)[i]? =
      if i * blockSize < bytes.length then some ((bytes.drop (i * blockSize)).take blockSize)
      else none := by
  induction i generalizing bytes with
  | zero =>
      by_cases hne : bytes = []
      · rw [hne, cut_nil]
        rfl
      · rw [cut_of_ne_nil hne, if_pos (by simpa [List.length_pos_iff] using hne)]
        simp
  | succ i ih =>
      by_cases hne : bytes = []
      · rw [hne, cut_nil]
        simp
      · rw [cut_of_ne_nil hne, List.getElem?_cons_succ, ih, List.length_drop, List.drop_drop,
          Nat.succ_mul, Nat.add_comm blockSize]
        simp only [Nat.lt_sub_iff_add_lt]

/-! ## Filling -/

/-- Only the last block is filled up. -/
theorem fill_concat (front : List Bytes) (last bytes : Bytes) :
    fill (front ++ [last]) bytes = front ++ fill [last] bytes := by
  induction front with
  | nil => rfl
  | cons block front ih =>
      cases front with
      | nil => rfl
      | cons next front =>
          show block :: fill (next :: front ++ [last]) bytes = _
          rw [ih]
          rfl

/-- No bytes change nothing. -/
theorem fill_nil (blocks : List Bytes) : fill blocks [] = blocks := by
  rcases List.eq_nil_or_concat' blocks with rfl | ⟨front, last, rfl⟩
  · rw [fill, cut_nil]
  · rw [fill_concat, fill, List.take_nil, List.drop_nil, List.append_nil, cut_nil]

/-- **Filling up goes on cutting.** To fill up the blocks of some bytes with more bytes gives the
blocks of all of them. -/
theorem fill_cut (xs ys : Bytes) : fill (cut xs) ys = cut (xs ++ ys) := by
  induction xs using cut.induct with
  | case1 xs h =>
      rw [List.isEmpty_iff.mp h, cut_nil, fill, List.nil_append]
  | case2 xs h ih =>
      have hne : xs ≠ [] := by simpa using h
      rw [cut_of_ne_nil (List.append_ne_nil_of_left_ne_nil hne ys), List.take_append,
        List.drop_append]
      by_cases hlength : xs.length ≤ blockSize
      · rw [cut_of_length_le hne hlength, fill, List.take_of_length_le hlength,
          List.drop_of_length_le hlength, List.nil_append]
      · have hrest : xs.drop blockSize ≠ [] := by rwa [Ne, List.drop_eq_nil_iff]
        obtain ⟨next, rest, hcut⟩ : ∃ next rest, cut (xs.drop blockSize) = next :: rest :=
          ⟨_, _, cut_of_ne_nil hrest⟩
        -- More than a block of bytes: the first block stays, and the others are filled up.
        rw [cut_of_ne_nil hne, hcut, fill, ← hcut, ih, Nat.sub_eq_zero_of_le (by omega),
          List.take_zero, List.drop_zero, List.append_nil]

/-! ## Logs whose blocks are cut -/

/-- The blocks are those that the contents are cut into, and their number is kept beside them. -/
structure Canonical (log : ResultLog) : Prop where
  blocks : log.blocks = cut log.contents
  length : log.length = log.contents.length

theorem canonical_empty : empty.Canonical := ⟨cut_nil.symm, rfl⟩

/-- Appending keeps the blocks cut. -/
theorem Canonical.append {log : ResultLog} (h : log.Canonical) (bytes : Bytes) :
    (log.append bytes).Canonical := by
  constructor
  · rw [contents_append, ← fill_cut, ← h.blocks]
    rfl
  · rw [contents_append, List.length_append, ← h.length]
    rfl

/-- Closing leaves the blocks as they are. -/
theorem Canonical.markDone {log : ResultLog} (h : log.Canonical) : log.markDone.Canonical :=
  ⟨h.blocks, h.length⟩

/-- **Two appends are one.** -/
theorem Canonical.append_append {log : ResultLog} (h : log.Canonical) (x y : Bytes) :
    (log.append x).append y = log.append (x ++ y) := by
  have hblocks : fill (fill log.blocks x) y = fill log.blocks (x ++ y) := by
    rw [h.blocks, fill_cut, fill_cut, fill_cut, List.append_assoc]
  simp only [ResultLog.append, hblocks, List.length_append, Nat.add_assoc]

/-! ## Appending turn by turn -/

theorem append_nil (log : ResultLog) : log.append [] = log := by
  simp only [append, fill_nil, List.length_nil, Nat.add_zero]

/-- One turn of appending, with the bytes that are left then: the last block takes what fits, and if
it is full, or there is none, an empty block is put behind it. -/
def turn (log : ResultLog) (bytes : Bytes) : ResultLog × Bytes :=
  match log.blocks.getLast? with
  | none => ({ log with blocks := log.blocks ++ [[]] }, bytes)
  | some last =>
    if last.length < blockSize then
      let n := min (blockSize - last.length) bytes.length
      ({ log with
          blocks := log.blocks.dropLast ++ [last ++ bytes.take n]
          length := log.length + n },
        bytes.drop n)
    else ({ log with blocks := log.blocks ++ [[]] }, bytes)

/-- Turns one after another, until no bytes are left. -/
inductive Turns : ResultLog → Bytes → ResultLog → Prop
  | done (log : ResultLog) : Turns log [] log
  | turn {log final : ResultLog} {bytes : Bytes} (hne : bytes ≠ [])
      (hrest : Turns (log.turn bytes).1 (log.turn bytes).2 final) : Turns log bytes final

/-- Whether the last block has room. -/
def hasRoom (log : ResultLog) : Bool :=
  log.blocks.getLast?.any fun last => last.length < blockSize

theorem hasRoom_iff {log : ResultLog} :
    log.hasRoom ↔ ∃ front last, log.blocks = front ++ [last] ∧ last.length < blockSize := by
  unfold hasRoom
  rw [Option.any_eq_true]
  constructor
  · rintro ⟨last, hlast, hroom⟩
    obtain ⟨front, hblocks⟩ := List.getLast?_eq_some_iff.mp hlast
    exact ⟨front, last, hblocks, of_decide_eq_true hroom⟩
  · rintro ⟨front, last, hblocks, hroom⟩
    exact ⟨last, List.getLast?_eq_some_iff.mpr ⟨front, hblocks⟩, decide_eq_true hroom⟩

/-- A turn with room in the last block. -/
theorem turn_of_room {log : ResultLog} {front : List Bytes} {last : Bytes}
    (hblocks : log.blocks = front ++ [last]) (hroom : last.length < blockSize) (bytes : Bytes) :
    log.turn bytes =
      ({ log with
          blocks := front ++ [last ++ bytes.take (blockSize - last.length)]
          length := log.length + min (blockSize - last.length) bytes.length },
        bytes.drop (blockSize - last.length)) := by
  unfold turn
  rw [hblocks, List.getLast?_concat, List.dropLast_concat]
  simp only [if_pos hroom]
  by_cases hfits : bytes.length ≤ blockSize - last.length
  · rw [Nat.min_eq_right hfits, List.take_length, List.drop_length, List.take_of_length_le hfits,
      List.drop_of_length_le hfits]
  · rw [Nat.min_eq_left (by omega)]

/-- A turn without room. -/
theorem turn_of_not_hasRoom {log : ResultLog} (h : ¬ log.hasRoom) (bytes : Bytes) :
    log.turn bytes = ({ log with blocks := log.blocks ++ [[]] }, bytes) := by
  unfold turn
  cases hlast : log.blocks.getLast? with
  | none => rfl
  | some last =>
      obtain ⟨front, hblocks⟩ := List.getLast?_eq_some_iff.mp hlast
      exact if_neg fun hroom => h (hasRoom_iff.mpr ⟨front, last, hblocks, hroom⟩)

/-- Without room in the last block, bytes go into new blocks. -/
theorem fill_of_not_hasRoom {log : ResultLog} (h : ¬ log.hasRoom) (bytes : Bytes) :
    fill log.blocks bytes = log.blocks ++ cut bytes := by
  rcases List.eq_nil_or_concat' log.blocks with hnil | ⟨front, last, hblocks⟩
  · rw [hnil, fill, List.nil_append]
  · have hfull : blockSize - last.length = 0 := by
      apply Nat.sub_eq_zero_of_le
      apply Nat.le_of_not_lt
      intro hroom
      exact h (hasRoom_iff.mpr ⟨front, last, hblocks, hroom⟩)
    rw [hblocks, fill_concat, fill, hfull, List.take_zero, List.drop_zero, List.append_nil,
      List.append_assoc]
    rfl

/-- **A turn does not change where appending leads.** -/
theorem append_turn (log : ResultLog) {bytes : Bytes} (hne : bytes ≠ []) :
    (log.turn bytes).1.append (log.turn bytes).2 = log.append bytes := by
  by_cases hroom : log.hasRoom
  · obtain ⟨front, last, hblocks, hlt⟩ := hasRoom_iff.mp hroom
    rw [turn_of_room hblocks hlt]
    -- What the block has taken and what it could still take are the bytes that fit.
    have hfill : fill (front ++ [last ++ bytes.take (blockSize - last.length)])
        (bytes.drop (blockSize - last.length)) = fill log.blocks bytes := by
      rw [hblocks, fill_concat, fill_concat, fill, fill, List.append_assoc, List.length_append,
        List.length_take]
      by_cases hfits : bytes.length ≤ blockSize - last.length
      · rw [List.drop_of_length_le hfits, List.take_nil, List.drop_nil, List.append_nil]
      · have hfull : blockSize - (last.length + (blockSize - last.length)) = 0 := by omega
        rw [Nat.min_eq_left (by omega), hfull, List.take_zero, List.drop_zero, List.append_nil]
    have hlength : log.length + min (blockSize - last.length) bytes.length +
        (bytes.drop (blockSize - last.length)).length = log.length + bytes.length := by
      rw [List.length_drop]
      omega
    simp only [append, hfill, hlength]
  · rw [turn_of_not_hasRoom hroom]
    have hfill : fill (log.blocks ++ [[]]) bytes = fill log.blocks bytes := by
      rw [fill_of_not_hasRoom hroom, fill_concat, fill, cut_of_ne_nil hne]
      rfl
    simp only [append, hfill]

/-- The bytes left count twice, so that a new block counts for less than a byte. -/
def burden (log : ResultLog) (bytes : Bytes) : Nat :=
  2 * bytes.length + if log.hasRoom then 0 else 1

/-- Every turn lightens the burden. -/
theorem burden_turn_lt (log : ResultLog) {bytes : Bytes} (hne : bytes ≠ []) :
    (log.turn bytes).1.burden (log.turn bytes).2 < log.burden bytes := by
  have hpos := List.length_pos_iff.mpr hne
  by_cases hroom : log.hasRoom
  · rw [burden, burden, if_pos hroom]
    obtain ⟨front, last, hblocks, hlt⟩ := hasRoom_iff.mp hroom
    rw [turn_of_room hblocks hlt, List.length_drop]
    split <;> omega
  · have hnew : hasRoom { log with blocks := log.blocks ++ [[]] } :=
      hasRoom_iff.mpr ⟨log.blocks, [], rfl, by decide⟩
    rw [burden, burden, if_neg hroom, turn_of_not_hasRoom hroom, if_pos hnew]
    exact Nat.lt_succ_self _

/-- **Appending comes to an end.** From every log and for all bytes the turns lead to `append`, and
to nothing else. -/
theorem turns_iff {log final : ResultLog} {bytes : Bytes} :
    Turns log bytes final ↔ final = log.append bytes := by
  constructor
  · intro h
    induction h with
    | done log => exact (append_nil log).symm
    | turn hne hrest ih => rw [ih, append_turn _ hne]
  · rintro rfl
    induction hburden : log.burden bytes using Nat.strongRecOn generalizing log bytes with
    | _ n ih =>
        by_cases hne : bytes = []
        · subst hne
          rw [append_nil]
          exact .done log
        · subst hburden
          have hrest := ih _ (burden_turn_lt log hne) rfl
          rw [append_turn log hne] at hrest
          exact .turn hne hrest

end TimingAudit.ResultLog
