import TimingAudit.Proofs.Report.Delivery
import TimingAudit.Proofs.ResultLog.Blocks

/-!
# Reading a result log

A read of a finished log takes bytes from the front of those that are left, never past the end of
their block. It comes back empty at the end of the log only, so that whoever goes on until then has
all bytes, whatever the sizes of the single reads.

* `Canonical.readAt_eq` : what a read yields, in terms of the contents alone;
* `Canonical.exists_reads` : reads in a row;
* `getElem?_readInto`, `Canonical.length_readAt` : reads into a buffer;
* `Canonical.drain_of_takesAll` : copying a log to a sink.
-/

namespace TimingAudit.ResultLog

variable {log : ResultLog}

/-- **What a read yields**: the bytes behind the offset, as many as asked for, up to the end of their
block. -/
theorem Canonical.readAt_eq (h : log.Canonical) (hdone : log.status = .done) (offset size : Nat) :
    log.readAt offset size =
      (log.contents.drop offset).take (min size (blockSize - offset % blockSize)) := by
  have hsplit : offset / blockSize * blockSize + offset % blockSize = offset :=
    Nat.div_add_mod' offset blockSize
  unfold readAt
  rw [hdone, h.blocks, getElem?_cut]
  by_cases hblock : offset / blockSize * blockSize < log.contents.length
  · simp only [if_pos hblock]
    rw [List.drop_take, List.drop_drop, hsplit, List.take_take]
  · -- The offset is behind the last block, so it is behind the last byte.
    simp only [if_neg hblock]
    rw [List.drop_of_length_le (by omega), List.take_nil]

/-- A read comes back empty at the end of the log only. -/
theorem Canonical.readAt_eq_nil_iff (h : log.Canonical) (hdone : log.status = .done) {size : Nat}
    (hsize : 0 < size) (offset : Nat) :
    log.readAt offset size = [] ↔ log.contents.length ≤ offset := by
  have hroom : 0 < blockSize - offset % blockSize :=
    Nat.sub_pos_of_lt (Nat.mod_lt offset (by decide))
  rw [h.readAt_eq hdone, List.take_eq_nil_iff, List.drop_eq_nil_iff]
  omega

/-- A read takes its bytes from the front of those that are left. -/
theorem Canonical.readAt_append_drop (h : log.Canonical) (hdone : log.status = .done)
    (offset size : Nat) :
    log.readAt offset size ++ log.contents.drop (offset + (log.readAt offset size).length) =
      log.contents.drop offset := by
  rw [← List.drop_drop, h.readAt_eq hdone]
  generalize log.contents.drop offset = rest
  generalize min size _ = n
  rw [List.length_take]
  by_cases hn : n ≤ rest.length
  · rw [Nat.min_eq_left hn, List.take_append_drop]
  · rw [Nat.min_eq_right (by omega), List.drop_length, List.append_nil,
      List.take_of_length_le (by omega)]

/-- **Reads in a row.** Reads of any positive sizes come to the end of the log, and what they have
yielded until then are the bytes that were left, in order. -/
theorem Canonical.exists_reads (h : log.Canonical) (hdone : log.status = .done) (offset : Nat)
    (sizes : Nat → Nat) (hsizes : ∀ i, 0 < sizes i) :
    ∃ parts, log.readsFrom offset ((List.range (parts.length + 1)).map sizes) = parts ++ [[]] ∧
      [] ∉ parts ∧ parts.flatten = log.contents.drop offset := by
  induction hleft : log.contents.length - offset using Nat.strongRecOn
      generalizing offset sizes with
  | _ left ih =>
      by_cases hend : log.contents.length ≤ offset
      · have hread := (h.readAt_eq_nil_iff hdone (hsizes 0) offset).mpr hend
        refine ⟨[], ?_, List.not_mem_nil, (List.drop_of_length_le hend).symm⟩
        show [log.readAt offset (sizes 0)] = [[]]
        rw [hread]
      · have hread : log.readAt offset (sizes 0) ≠ [] := fun hnil =>
          hend ((h.readAt_eq_nil_iff hdone (hsizes 0) offset).mp hnil)
        have hpos := List.length_pos_iff.mpr hread
        obtain ⟨parts, hparts, hne, hflatten⟩ :=
          ih _ (by omega) (offset + (log.readAt offset (sizes 0)).length) (fun i => sizes (i + 1))
            (fun i => hsizes (i + 1)) rfl
        refine ⟨log.readAt offset (sizes 0) :: parts, ?_, ?_, ?_⟩
        · rw [List.length_cons, List.range_succ_eq_map, List.map_cons, List.map_map, readsFrom,
            List.cons_append, ← hparts]
          rfl
        · intro hmem
          rcases List.mem_cons.mp hmem with hnil | hmem
          · exact hread hnil.symm
          · exact hne hmem
        · rw [List.flatten_cons, hflatten, h.readAt_append_drop hdone]

/-! ## Reading into a buffer -/

/-- Nothing can be read while the log is running. -/
theorem readInto_of_running (h : log.status = .running) (offset : Nat) (buffer : Bytes) :
    log.readInto offset buffer = (0, buffer) := by
  have hread : log.readAt offset buffer.length = [] := by rw [readAt, h]
  rw [readInto, hread]
  rfl

/-- A read yields as many bytes as are asked for, left in the block and left in the log. -/
theorem Canonical.length_readAt (h : log.Canonical) (hdone : log.status = .done)
    (offset size : Nat) :
    (log.readAt offset size).length =
      if log.contents.length ≤ offset then 0
      else min (min size (blockSize - offset % blockSize)) (log.contents.length - offset) := by
  rw [h.readAt_eq hdone, List.length_take, List.length_drop]
  split
  · rename_i hend
    rw [Nat.sub_eq_zero_of_le hend, Nat.min_zero]
  · rfl

/-- The bytes of a read are those of the log from the offset on. -/
theorem Canonical.getElem?_readAt (h : log.Canonical) (hdone : log.status = .done)
    {offset size i : Nat} (hi : i < (log.readAt offset size).length) :
    (log.readAt offset size)[i]? = log.contents[offset + i]? := by
  rw [h.readAt_eq hdone, List.length_take] at hi
  rw [h.readAt_eq hdone, List.getElem?_take_of_lt (by omega), List.getElem?_drop]

/-- The bytes of a read stand in the front of the buffer, and the rest of it is as it was. -/
theorem getElem?_readInto (log : ResultLog) (offset : Nat) (buffer : Bytes) (i : Nat) :
    (log.readInto offset buffer).2[i]? =
      if i < (log.readInto offset buffer).1 then (log.readAt offset buffer.length)[i]?
      else buffer[i]? := by
  show (overwrite buffer (log.readAt offset buffer.length))[i]? =
    if i < (log.readAt offset buffer.length).length then _ else _
  rw [overwrite, List.getElem?_append]
  split
  · rfl
  · rw [List.getElem?_drop]
    congr 1
    omega

/-! ## Copying -/

section Sink

variable {ω : Type} [ByteSink ω] {received : ω → Bytes}

/-- A sink that takes everything gets the bytes behind the offset. -/
theorem Canonical.copyFrom_of_takesAll (h : log.Canonical) (hdone : log.status = .done)
    (hsink : ByteSink.TakesAll received) (offset : Nat) (sink : ω)
    (hoffset : offset ≤ log.contents.length) :
    ∃ sink', log.copyFrom offset sink = (.ok log.contents.length, sink') ∧
      received sink' = received sink ++ log.contents.drop offset := by
  fun_induction copyFrom log offset sink with
  | case1 offset sink hread =>
      have hend := (h.readAt_eq_nil_iff hdone (by decide) offset).mp hread
      obtain rfl : offset = log.contents.length := Nat.le_antisymm hoffset hend
      exact ⟨sink, rfl, by rw [List.drop_length, List.append_nil]⟩
  | case2 offset sink hread e sink' hpush => cases (hsink.of_push_eq hpush).1
  | case3 offset sink hread sink₁ hpush ih =>
      have hrest := h.readAt_append_drop hdone offset copySize
      have hlength := congrArg List.length hrest
      rw [List.length_append, List.length_drop, List.length_drop] at hlength
      have hpos := List.length_pos_iff.mpr hread
      obtain ⟨sink', hcopy, hreceived⟩ := ih (by omega)
      refine ⟨sink', hcopy, ?_⟩
      rw [hreceived, (hsink.of_push_eq hpush).2, List.append_assoc, hrest]

/-- **Copying a log.** A sink that takes everything gets all bytes of a finished log, and their
number is returned. -/
theorem Canonical.drain_of_takesAll (h : log.Canonical) (hdone : log.status = .done)
    (hsink : ByteSink.TakesAll received) (sink : ω) :
    ∃ sink', log.drain sink = (.ok log.length, sink') ∧
      received sink' = received sink ++ log.contents := by
  obtain ⟨sink', hcopy, hreceived⟩ :=
    h.copyFrom_of_takesAll hdone hsink 0 sink (Nat.zero_le _)
  refine ⟨sink', ?_, hreceived⟩
  rw [drain, hcopy, h.length]

end Sink

end TimingAudit.ResultLog
