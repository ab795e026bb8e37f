import TimingAudit.Proofs.ResultLog.Calls
import Mathlib.Data.List.Infix

/-!
# What can still happen to a closed log

A log is closed so that its readers can come back to any offset and find there what they found before.
Two calls bring bytes to a log, and only one of them asks whether it is closed: a write is refused,
while an append goes through. So the bytes of a closed log never move, but more of them may come in
behind the last one, and a reader that has seen the end of the log may see another one later.

* `Use.after_closed` : what one use does to a closed log;
* `Canonical.afterUses_closed` : what any sequence of uses does;
* `closed_unchanged_iff` : a closed log stays as it is exactly if nothing is appended to it.
-/

namespace TimingAudit.ResultLog

/-- Something that is done with a log: a call that may change it, or a read of its bytes or of its
status line into a buffer. -/
inductive Use
  | call (c : Call)
  | read (offset : Nat) (buffer : Bytes)
  | readStatus (offset : Nat) (buffer : Bytes)
deriving DecidableEq

/-- The log after a use. -/
def Use.after (log : ResultLog) : Use → ResultLog
  | .call c => (c.perform log).2
  | .read _ _ => log
  | .readStatus _ _ => log

/-- The log after some uses, the first one first. -/
def afterUses (log : ResultLog) (uses : List Use) : ResultLog := uses.foldl Use.after log

/-- The bytes that a use appends. -/
def Use.appended : Use → Bytes
  | .call (.append bytes) => bytes
  | _ => []

/-- Two logs that nobody can tell apart: their lengths, their status and all reads are the same. -/
structure Unchanged (log log' : ResultLog) : Prop where
  length : log'.length = log.length
  status : log'.status = log.status
  reads : ∀ offset buffer, log'.readInto offset buffer = log.readInto offset buffer

/-! ## Uses of a closed log -/

/-- **One use of a closed log** leaves it closed, and adds what it appends. -/
theorem Use.after_closed {log : ResultLog} (h : log.Canonical) (hdone : log.status = .done)
    (use : Use) :
    (use.after log).Canonical ∧ (use.after log).status = .done ∧
      (use.after log).contents = log.contents ++ use.appended := by
  have hsame : log.Canonical ∧ log.status = .done ∧ log.contents = log.contents ++ [] :=
    ⟨h, hdone, (List.append_nil _).symm⟩
  cases use with
  | call c =>
      cases c with
      | append bytes => exact ⟨h.append bytes, hdone, contents_append log bytes⟩
      | write bytes =>
          show (log.write bytes).2.Canonical ∧ (log.write bytes).2.status = .done ∧
            (log.write bytes).2.contents = log.contents ++ []
          rw [write_of_done hdone]
          exact hsame
      | markDone => exact ⟨h.markDone, rfl, (List.append_nil _).symm⟩
  | read offset buffer => exact hsame
  | readStatus offset buffer => exact hsame

/-- **A closed log stays closed**, and what was appended meanwhile stands behind the bytes that it
had. -/
theorem Canonical.afterUses_closed {log : ResultLog} (h : log.Canonical)
    (hdone : log.status = .done) (uses : List Use) :
    (log.afterUses uses).Canonical ∧ (log.afterUses uses).status = .done ∧
      (log.afterUses uses).contents = log.contents ++ uses.flatMap Use.appended := by
  induction uses generalizing log with
  | nil => exact ⟨h, hdone, (List.append_nil _).symm⟩
  | cons use uses ih =>
      obtain ⟨hstep, hdone', hcontents⟩ := use.after_closed h hdone
      obtain ⟨hafter, hdone'', hcontents'⟩ := ih hstep hdone'
      refine ⟨hafter, hdone'', ?_⟩
      show (afterUses (use.after log) uses).contents = _
      rw [hcontents', hcontents, List.append_assoc, List.flatMap_cons]

/-- Nothing is appended if every append comes without bytes. -/
theorem flatMap_appended_eq_nil_iff {uses : List Use} :
    uses.flatMap Use.appended = [] ↔ ∀ bytes, .call (.append bytes) ∈ uses → bytes = [] := by
  rw [List.flatMap_eq_nil_iff]
  constructor
  · intro h bytes hmem
    exact h _ hmem
  · intro h use hmem
    cases use with
    | call c =>
        cases c with
        | append bytes => exact h bytes hmem
        | write bytes => rfl
        | markDone => rfl
    | read offset buffer => rfl
    | readStatus offset buffer => rfl

/-! ## What readers see -/

/-- The bytes and the status of a log are all there is to it. -/
theorem Canonical.eq {log log' : ResultLog} (h : log.Canonical) (h' : log'.Canonical)
    (hcontents : log'.contents = log.contents) (hstatus : log'.status = log.status) : log' = log := by
  have hblocks : log'.blocks = log.blocks := by rw [h'.blocks, h.blocks, hcontents]
  have hlength : log'.length = log.length := by rw [h'.length, h.length, hcontents]
  cases log
  cases log'
  cases hblocks
  cases hlength
  cases hstatus
  rfl

/-- A read of a closed log begins with what it yielded before more bytes came in. -/
theorem Canonical.readAt_grows {log log' : ResultLog} (h : log.Canonical) (h' : log'.Canonical)
    (hdone : log.status = .done) (hdone' : log'.status = .done)
    (hcontents : log.contents <+: log'.contents) (offset size : Nat) :
    log.readAt offset size <+: log'.readAt offset size := by
  rw [h.readAt_eq hdone, h'.readAt_eq hdone']
  exact (hcontents.drop offset).take _

/-- **A closed log** stays closed and refuses all writes, and every read begins with the bytes that it
yielded when the log was closed. Length and reads stay exactly as they were then if and only if no
bytes are appended. -/
theorem closed_unchanged_iff (calls : List Call) (uses : List Use) :
    let log := (empty.after calls).markDone
    let log' := log.afterUses uses
    log'.status = .done ∧ (∀ bytes, log'.write bytes = (.error .logClosed, log')) ∧
      (∀ offset size, log.readAt offset size <+: log'.readAt offset size) ∧
      (log.Unchanged log' ↔ ∀ bytes, .call (.append bytes) ∈ uses → bytes = []) := by
  intro log log'
  have h : log.Canonical := (canonical_empty.after calls).1.markDone
  obtain ⟨h', hdone', hcontents⟩ := h.afterUses_closed rfl uses
  refine ⟨hdone', write_of_done hdone', ?_, ?_⟩
  · exact h.readAt_grows h' rfl hdone' ⟨_, hcontents.symm⟩
  · rw [← flatMap_appended_eq_nil_iff]
    constructor
    · intro hsame
      have hlength : log'.contents.length = log.contents.length := by
        rw [← h'.length, ← h.length, hsame.length]
      rw [hcontents, List.length_append] at hlength
      exact List.eq_nil_of_length_eq_zero (by omega)
    · intro hnil
      rw [hnil, List.append_nil] at hcontents
      have heq : log' = log := h.eq h' hcontents hdone'
      rw [heq]
      exact ⟨rfl, rfl, fun _ _ => rfl⟩

/-- Four bytes are appended to a log of six that has been closed. It has ten then, and a read at what
was its end yields the four. -/
theorem closed_log_grows :
    let log := (empty.after [.append (utf8 "row 1\n")]).markDone
    let log' := log.afterUses [.call (.append (utf8 "late"))]
    log.length = 6 ∧ log'.length = 10 ∧ log.readAt 6 8 = [] ∧ log'.readAt 6 8 = utf8 "late" ∧
      ¬ log.Unchanged log' := by
  intro log log'
  have hlength : log.length = 6 := by decide
  have hlength' : log'.length = 10 := by decide
  refine ⟨hlength, hlength', by decide +kernel, by decide +kernel, ?_⟩
  intro hsame
  have himpossible := hsame.length
  rw [hlength, hlength'] at himpossible
  cases himpossible

end TimingAudit.ResultLog
