import TimingAudit.ByteSink

/-!
# The result log

Results kept in memory, for hosts that cannot write files while they measure. Bytes are appended to
the last block until it is full, so every block but the last has `blockSize` bytes. Nothing can be
read while the log is running; once it is done it is read by offset, and one read never crosses the
end of a block. Writing through the sink is refused once the log is done; `append` itself does not
look at the status.
-/

namespace TimingAudit

/-- Whether results are still being produced. -/
inductive LogStatus
  | running
  | done
deriving DecidableEq

/-- The status line. -/
def LogStatus.text : LogStatus → String
  | .running => "running\n"
  | .done => "done\n"

/-- Bytes in blocks of a fixed size. -/
structure ResultLog where
  blocks : List Bytes
  length : Nat
  status : LogStatus
deriving DecidableEq

namespace ResultLog

/-- The bytes of a full block. -/
def blockSize : Nat := 1000

/-- A running log without any bytes. -/
def empty : ResultLog := ⟨[], 0, .running⟩

/-- Cuts bytes into full blocks and a rest. -/
def cut (bytes : Bytes) : List Bytes :=
  if bytes.isEmpty then [] else bytes.take blockSize :: cut (bytes.drop blockSize)
termination_by bytes.length
decreasing_by
  rename_i h
  have hpos : 0 < bytes.length := by
    cases bytes with
    | nil => exact absurd rfl h
    | cons b bs => exact Nat.succ_pos _
  rw [List.length_drop]
  exact Nat.sub_lt hpos (by decide)

/-- Fills the last block and starts new ones for what is left. -/
def fill : List Bytes → Bytes → List Bytes
  | [], bytes => cut bytes
  | [last], bytes =>
    (last ++ bytes.take (blockSize - last.length)) :: cut (bytes.drop (blockSize - last.length))
  | block :: next :: rest, bytes => block :: fill (next :: rest) bytes

/-- All bytes of the log, in order. -/
def contents (log : ResultLog) : Bytes := log.blocks.flatten

/-- Cutting loses no bytes. -/
theorem flatten_cut (bytes : Bytes) : (cut bytes).flatten = bytes := by
  induction bytes using cut.induct with
  | case1 bytes h =>
    rw [cut, if_pos h]
    exact (List.isEmpty_iff.mp h).symm
  | case2 bytes h ih =>
    rw [cut, if_neg h, List.flatten_cons, ih, List.take_append_drop]

/-- Filling adds the bytes behind those already there. -/
theorem flatten_fill : ∀ (blocks : List Bytes) (bytes : Bytes),
    (fill blocks bytes).flatten = blocks.flatten ++ bytes
  | [], bytes => by rw [fill, flatten_cut, List.flatten_nil, List.nil_append]
  | [last], bytes => by
    rw [fill, List.flatten_cons, flatten_cut, List.append_assoc, List.take_append_drop,
      List.flatten_cons, List.flatten_nil, List.append_nil]
  | block :: next :: rest, bytes => by
    have ih := flatten_fill (next :: rest) bytes
    rw [fill, List.flatten_cons, ih, ← List.append_assoc, ← List.flatten_cons]

/-- Appends bytes behind all others. -/
def append (log : ResultLog) (bytes : Bytes) : ResultLog :=
  { log with blocks := fill log.blocks bytes, length := log.length + bytes.length }

theorem contents_append (log : ResultLog) (bytes : Bytes) :
    (log.append bytes).contents = log.contents ++ bytes :=
  flatten_fill log.blocks bytes

/-- Closes the log for writing and opens it for reading. -/
def markDone (log : ResultLog) : ResultLog := { log with status := .done }

/-- Whether no bytes have been appended. -/
def isEmpty (log : ResultLog) : Bool := log.length = 0

/-- Appends bytes unless the log is done. -/
def write (log : ResultLog) (bytes : Bytes) : Except WriteError Unit × ResultLog :=
  match log.status with
  | .done => (.error .logClosed, log)
  | .running => (.ok (), log.append bytes)

/-- Writes bytes through `write`, which is not reached if there are none. -/
def writeAll (log : ResultLog) (bytes : Bytes) : Except WriteError Unit × ResultLog :=
  if bytes.isEmpty then (.ok (), log) else log.write bytes

instance : ByteSink ResultLog where
  push bytes := fun log => log.writeAll bytes

/-- The bytes from an offset on, up to `size` of them and to the end of their block. -/
def readAt (log : ResultLog) (offset size : Nat) : Bytes :=
  match log.status with
  | .running => []
  | .done =>
    match log.blocks[offset / blockSize]? with
    | none => []
    | some block => (block.drop (offset % blockSize)).take size

/-- The bytes of the status line from an offset on, up to `size` of them. -/
def readStatusAt (log : ResultLog) (offset size : Nat) : Bytes :=
  ((utf8 log.status.text).drop offset).take size

/-- Puts bytes into the front of a buffer. The rest of the buffer stays. -/
def overwrite (buffer bytes : Bytes) : Bytes := bytes ++ buffer.drop bytes.length

/-- Reads into a buffer, and says how many bytes were read. -/
def readInto (log : ResultLog) (offset : Nat) (buffer : Bytes) : Nat × Bytes :=
  let bytes := log.readAt offset buffer.length
  (bytes.length, overwrite buffer bytes)

/-- Reads of the status line go into a buffer in the same way. -/
def readStatusInto (log : ResultLog) (offset : Nat) (buffer : Bytes) : Nat × Bytes :=
  let bytes := log.readStatusAt offset buffer.length
  (bytes.length, overwrite buffer bytes)

/-- The answers to reads of the given sizes, one after another from the given offset. -/
def readsFrom (log : ResultLog) : (offset : Nat) → List Nat → List Bytes
  | _, [] => []
  | offset, size :: sizes =>
    let bytes := log.readAt offset size
    bytes :: log.readsFrom (offset + bytes.length) sizes

/-- The most bytes that are copied at a time. -/
def copySize : Nat := 8192

/-- Only offsets before the end of the last block can be read. -/
theorem lt_of_readAt_ne_nil {log : ResultLog} {offset size : Nat}
    (h : log.readAt offset size ≠ []) : offset < blockSize * log.blocks.length := by
  unfold readAt at h
  split at h
  · exact absurd rfl h
  · split at h
    · exact absurd rfl h
    · rename_i hb
      have hlt : offset / blockSize < log.blocks.length := by
        rw [List.getElem?_eq_some_iff] at hb
        exact hb.1
      have hdiv := Nat.lt_mul_div_succ offset (show 0 < blockSize by decide)
      have hmul := Nat.mul_le_mul_left blockSize (Nat.succ_le_of_lt hlt)
      exact Nat.lt_of_lt_of_le hdiv hmul

/-- Copies the log from an offset on, until a read yields nothing. -/
def copyFrom {ω : Type} [ByteSink ω] (log : ResultLog) (offset : Nat) (sink : ω) :
    Except WriteError Nat × ω :=
  if log.readAt offset copySize = [] then (.ok offset, sink)
  else
    match ByteSink.push (log.readAt offset copySize) sink with
    | (.error e, sink) => (.error e, sink)
    | (.ok (), sink) => log.copyFrom (offset + (log.readAt offset copySize).length) sink
termination_by blockSize * log.blocks.length - offset
decreasing_by
  rename_i _ h
  have hlt := lt_of_readAt_ne_nil h
  have hpos := List.length_pos_iff.mpr h
  omega

/-- Copies a finished log to a sink and returns the number of bytes. -/
def drain {ω : Type} [ByteSink ω] (log : ResultLog) (sink : ω) : Except Failure Nat × ω :=
  match log.copyFrom 0 sink with
  | (.error e, sink) => (.error (.write e), sink)
  | (.ok n, sink) => (.ok n, sink)

end ResultLog

end TimingAudit
