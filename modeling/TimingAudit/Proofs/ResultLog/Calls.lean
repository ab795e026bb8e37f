import TimingAudit.Proofs.ResultLog.Reading

/-!
# Result logs that calls can lead to

A log is new at first and then changed by calls only: bytes are appended, bytes are written as long
as the log is running, and the log is closed. Whatever the calls, the log holds the bytes of those
that succeeded, in order and cut into blocks.

* `Call.perform_spec` : what one call does to a log;
* `Canonical.after` : what any sequence of calls does;
* `stored_after_calls` : what this says of the blocks and the length, of further calls, and of reading
  the log back once it is closed;
* `readInto_after_calls` : what a single read puts into its buffer.
-/

namespace TimingAudit.ResultLog

/-- A call that may change a log. -/
inductive Call
  | append (bytes : Bytes)
  | write (bytes : Bytes)
  | markDone
deriving DecidableEq

/-- The bytes that a call is given. -/
def Call.bytes : Call → Bytes
  | .append bytes => bytes
  | .write bytes => bytes
  | .markDone => []

/-- The answer to a call, and the log after it. -/
def Call.perform (log : ResultLog) : Call → Except WriteError Unit × ResultLog
  | .append bytes => (.ok (), log.append bytes)
  | .write bytes => log.write bytes
  | .markDone => (.ok (), log.markDone)

/-- The log after some calls, the first one first. -/
def after (log : ResultLog) (calls : List Call) : ResultLog :=
  calls.foldl (fun log call => (call.perform log).2) log

/-- The bytes of the calls that succeed, in order. -/
def stored (log : ResultLog) : List Call → Bytes
  | [] => []
  | call :: calls =>
    (if (call.perform log).1.isOk then call.bytes else []) ++ stored (call.perform log).2 calls

/-! ## What calls do -/

/-- A closed log refuses to be written. -/
theorem write_of_done {log : ResultLog} (h : log.status = .done) (bytes : Bytes) :
    log.write bytes = (.error .logClosed, log) := by
  rw [write, h]

/-- A running log takes what is written. -/
theorem write_of_running {log : ResultLog} (h : log.status = .running) (bytes : Bytes) :
    log.write bytes = (.ok (), log.append bytes) := by
  rw [write, h]

/-- **One call** keeps the blocks cut and adds its bytes if it succeeds, and only closing changes the
status. -/
theorem Call.perform_spec {log : ResultLog} (h : log.Canonical) (call : Call) :
    (call.perform log).2.Canonical ∧
      (call.perform log).2.contents =
        log.contents ++ (if (call.perform log).1.isOk then call.bytes else []) ∧
      (call.perform log).2.status = if call = .markDone then .done else log.status := by
  cases call with
  | append bytes => exact ⟨h.append bytes, contents_append log bytes, rfl⟩
  | write bytes =>
      show (log.write bytes).2.Canonical ∧ (log.write bytes).2.contents =
          log.contents ++ (if (log.write bytes).1.isOk then bytes else []) ∧
        (log.write bytes).2.status = log.status
      cases hstatus : log.status with
      | running =>
          rw [write_of_running hstatus]
          exact ⟨h.append bytes, contents_append log bytes, hstatus⟩
      | done =>
          rw [write_of_done hstatus]
          exact ⟨h, (List.append_nil _).symm, hstatus⟩
  | markDone => exact ⟨h.markDone, (List.append_nil _).symm, rfl⟩

/-- **Calls one after another** keep the blocks cut and add the bytes of those that succeed, and the log
is closed if one of them closes it. -/
theorem Canonical.after {log : ResultLog} (h : log.Canonical) (calls : List Call) :
    (log.after calls).Canonical ∧
      (log.after calls).contents = log.contents ++ log.stored calls ∧
      (log.after calls).status = if .markDone ∈ calls then .done else log.status := by
  induction calls generalizing log with
  | nil => exact ⟨h, (List.append_nil _).symm, rfl⟩
  | cons call calls ih =>
      obtain ⟨hstep, hcontents, hstatus⟩ := call.perform_spec h
      obtain ⟨hcanonical, hcontents', hstatus'⟩ := ih hstep
      refine ⟨hcanonical, ?_, ?_⟩
      · show (ResultLog.after (call.perform log).2 calls).contents = _
        rw [hcontents', hcontents, List.append_assoc, stored]
      · show (ResultLog.after (call.perform log).2 calls).status = _
        rw [hstatus', hstatus]
        by_cases hcall : call = .markDone
        · simp [hcall]
        · simp [hcall, Ne.symm hcall]

/-- **The log after any calls.** It holds the bytes of the calls that have succeeded and knows their
number. All blocks but the last have 1000 bytes, the last one has between 1 and 1000, and there is
none if there are no bytes. To append more comes to an end, in one log only, and two appends are one.
Writing succeeds until the log is closed, and is refused without any change from then on. A closed
log is read in parts of any positive sizes until a read comes back empty, and the parts are the bytes
that were stored; so is what copying hands to a sink that takes everything. -/
theorem stored_after_calls (calls : List Call) :
    let log := empty.after calls
    log.contents = empty.stored calls ∧ log.length = (empty.stored calls).length ∧
      (∀ block ∈ log.blocks.dropLast, block.length = 1000) ∧
      (∀ block, log.blocks.getLast? = some block → 1 ≤ block.length ∧ block.length ≤ 1000) ∧
      (log.blocks = [] ↔ log.isEmpty) ∧
      (∀ bytes final, Turns log bytes final ↔ final = log.append bytes) ∧
      (∀ x y, (log.append x).append y = log.append (x ++ y)) ∧
      (∀ bytes, log.write bytes =
        if .markDone ∈ calls then (.error .logClosed, log) else (.ok (), log.append bytes)) ∧
      WriteError.logClosed.message = "result log is closed" ∧
      (.markDone ∈ calls →
        (∀ sizes : Nat → Nat, (∀ i, 0 < sizes i) → ∃ parts,
          log.readsFrom 0 ((List.range (parts.length + 1)).map sizes) = parts ++ [[]] ∧
            [] ∉ parts ∧ parts.flatten = empty.stored calls) ∧
        ∀ {ω : Type} [ByteSink ω] {received : ω → Bytes}, ByteSink.TakesAll received →
          ∀ sink, ∃ sink', log.drain sink = (.ok log.length, sink') ∧
            received sink' = received sink ++ empty.stored calls) := by
  intro log
  obtain ⟨hlog, hcontents, hstatus⟩ := canonical_empty.after calls
  have hstored : log.contents = empty.stored calls := hcontents
  refine ⟨hstored, by rw [hlog.length, hstored], ?_, ?_, ?_, fun bytes final => turns_iff,
    hlog.append_append, ?_, rfl, ?_⟩
  · rw [hlog.blocks]
    exact length_of_mem_dropLast_cut _
  · rw [hlog.blocks]
    exact length_of_getLast?_cut _
  · rw [hlog.blocks, cut_eq_nil_iff, isEmpty, decide_eq_true_eq, hlog.length,
      List.length_eq_zero_iff]
  · intro bytes
    by_cases hdone : .markDone ∈ calls
    · rw [if_pos hdone] at hstatus ⊢
      exact write_of_done hstatus bytes
    · rw [if_neg hdone] at hstatus ⊢
      exact write_of_running hstatus bytes
  · intro hdone
    rw [if_pos hdone] at hstatus
    rw [← hstored]
    constructor
    · intro sizes hsizes
      exact hlog.exists_reads hstatus 0 sizes hsizes
    · intro ω _ received hsink sink
      exact hlog.drain_of_takesAll hstatus hsink sink

/-- Three calls before the log is closed, which leave a full block and one of a single byte, and two
calls after: what is written then is refused, and what is appended is not. Reads of 1, 2, 3 and more
bytes yield all 1002 bytes, and so does a copy. -/
theorem stored_after_five_calls :
    let calls : List Call := [.append (List.replicate 999 7), .write [1, 2], .markDone, .write [3],
      .append [4]]
    .markDone ∈ calls ∧ empty.stored calls = List.replicate 999 7 ++ [1, 2, 4] ∧
      (empty.after calls).length = 1002 ∧
      (∃ parts,
        (empty.after calls).readsFrom 0 ((List.range (parts.length + 1)).map (· + 1)) =
            parts ++ [[]] ∧
          [] ∉ parts ∧ parts.flatten = List.replicate 999 7 ++ [1, 2, 4]) ∧
      ∃ sink', (empty.after calls).drain (#[] : Array UInt8) = (.ok 1002, sink') ∧
        sink'.toList = List.replicate 999 7 ++ [1, 2, 4] := by
  intro calls
  have hdone : Call.markDone ∈ calls := .tail _ (.tail _ (.head _))
  have hstored : empty.stored calls = List.replicate 999 7 ++ [1, 2, 4] := rfl
  obtain ⟨-, hlength, -, -, -, -, -, -, -, hreading⟩ := stored_after_calls calls
  obtain ⟨hreads, hdrain⟩ := hreading hdone
  rw [hstored, List.length_append, List.length_replicate] at hlength
  obtain ⟨parts, hparts, hne, hflatten⟩ := hreads (· + 1) Nat.succ_pos
  obtain ⟨sink', hsink, hreceived⟩ := hdrain ByteSink.takesAll_array #[]
  rw [hlength] at hsink
  exact ⟨hdone, hstored, hlength, ⟨parts, hparts, hne, hflatten⟩, sink', hsink, hreceived⟩

/-! ## Single reads -/

/-- **What a read puts into its buffer**, for the log after any calls. A running log yields nothing
and leaves the buffer as it is. A log that is done yields as many bytes as the buffer has room for, up
to the end of their block and the end of the log. These are the stored bytes from the offset on, and
the rest of the buffer stays. So such a read is empty only at or behind the end of the log, or for a
buffer without any room. -/
theorem readInto_after_calls (calls : List Call) (offset : Nat) (buffer : Bytes) :
    let log := empty.after calls
    let bytes := empty.stored calls
    let result := log.readInto offset buffer
    (log.status = .running → result = (0, buffer)) ∧
    (log.status = .done →
      result.1 = (if bytes.length ≤ offset then 0
        else min (min buffer.length (1000 - offset % 1000)) (bytes.length - offset)) ∧
      (∀ i, result.2[i]? = if i < result.1 then bytes[offset + i]? else buffer[i]?) ∧
      result.2.length = buffer.length ∧
      (result.1 = 0 ↔ bytes.length ≤ offset ∨ buffer = [])) := by
  intro log bytes result
  obtain ⟨hlog, hcontents, -⟩ := canonical_empty.after calls
  have hbytes : log.contents = bytes := hcontents
  refine ⟨fun hrunning => readInto_of_running hrunning offset buffer, ?_⟩
  intro hdone
  have hcount : result.1 = (if bytes.length ≤ offset then 0
      else min (min buffer.length (1000 - offset % 1000)) (bytes.length - offset)) := by
    rw [← hbytes]
    exact hlog.length_readAt hdone offset buffer.length
  refine ⟨hcount, ?_, ?_, ?_⟩
  · intro i
    rw [getElem?_readInto]
    split
    · rename_i hi
      rw [← hbytes]
      exact hlog.getElem?_readAt hdone hi
    · rfl
  · have hle : result.1 ≤ buffer.length := by
      rw [hcount]
      split <;> omega
    show (overwrite buffer (log.readAt offset buffer.length)).length = buffer.length
    rw [overwrite, List.length_append, List.length_drop]
    exact Nat.add_sub_cancel' hle
  · have hblock := Nat.mod_lt offset (show 0 < 1000 by decide)
    rw [hcount, ← List.length_eq_zero_iff]
    split <;> omega

/-- Two blocks, the second one with a single byte. A read that begins before the end of the first block
ends with it and leaves the last place of the buffer, a read of the second one ends with the log, and at
the end of the log there is nothing to read. Before the log is closed nothing is read at all. -/
theorem readInto_after_calls_two_blocks :
    let calls : List Call := [.append (List.replicate 998 7), .write [1, 2, 3]]
    let log := empty.after calls
    let log' := empty.after (calls ++ [.markDone])
    log.status = .running ∧ log.readInto 997 [9, 9, 9, 9] = (0, [9, 9, 9, 9]) ∧
      log'.status = .done ∧ (log'.readInto 997 [9, 9, 9, 9]).1 = 3 ∧
      (log'.readInto 997 [9, 9, 9, 9]).2[2]? = some 2 ∧
      (log'.readInto 997 [9, 9, 9, 9]).2[3]? = some 9 ∧
      (log'.readInto 1000 [9, 9]).1 = 1 ∧ (log'.readInto 1001 [9, 9]).1 = 0 := by
  intro calls log log'
  have hstored : empty.stored (calls ++ [.markDone]) = List.replicate 998 7 ++ [1, 2, 3] := rfl
  have hlength : (empty.stored (calls ++ [.markDone])).length = 1001 := by
    rw [hstored, List.length_append, List.length_replicate]
    rfl
  have hreads := fun offset buffer =>
    (readInto_after_calls (calls ++ [.markDone]) offset buffer).2 rfl
  have hcount : ∀ offset buffer, (log'.readInto offset buffer).1 = (if 1001 ≤ offset then 0
      else min (min buffer.length (1000 - offset % 1000)) (1001 - offset)) := by
    intro offset buffer
    rw [← hlength]
    exact (hreads offset buffer).1
  have hfirst : (log'.readInto 997 [9, 9, 9, 9]).1 = 3 := hcount 997 [9, 9, 9, 9]
  refine ⟨rfl, (readInto_after_calls calls 997 [9, 9, 9, 9]).1 rfl, rfl, hfirst, ?_, ?_,
    hcount 1000 [9, 9], hcount 1001 [9, 9]⟩
  · rw [(hreads 997 [9, 9, 9, 9]).2.1, hfirst, hstored]
    decide +kernel
  · rw [(hreads 997 [9, 9, 9, 9]).2.1, hfirst]
    rfl

end TimingAudit.ResultLog
