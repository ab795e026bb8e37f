import TimingAudit.Proofs.Report.Sections

/-!
# Delivering to a writer that fills up

A bounded writer takes bytes until it is full and refuses all others. A report reaches it in pieces: the
comment, the lines after it buffer by buffer, and a buffer that was refused once more. A log reaches it
block by block. Wherever in all this the writer fills up, it has then received the first bytes of what
it was to receive, each of them once. The reason is that a refusal leaves the writer full, so that
neither what is still to come nor what comes a second time adds anything.

* `taking_taking` : runs of bytes that are offered in turn are taken like one;
* `writesAll_iff` : offering a run is writing it piece by piece until all of it is taken;
* `passOn_bounded`, `deliver_bounded`, `drain_bounded` : buffers, reports and logs;
* `bounded_receives_first_bytes` : what a writer with room for a number of bytes receives.
-/

namespace TimingAudit

namespace BoundedWriter

/-! ## What a bounded writer takes -/

/-- The writer after it was offered a run of bytes: it has taken as many as it had room for. -/
def taking (w : BoundedWriter) (bytes : Bytes) : BoundedWriter :=
  ⟨w.room - bytes.length, w.received ++ bytes.take w.room⟩

/-- A run that there is room for is taken. -/
theorem push_of_fits {w : BoundedWriter} {bytes : Bytes} (h : bytes.length ≤ w.room) :
    w.push bytes = (.ok (), w.taking bytes) := by
  rw [push, if_pos h, taking, List.take_of_length_le h]

/-- Of any other run the first bytes are taken. -/
theorem push_of_long {w : BoundedWriter} {bytes : Bytes} (h : w.room < bytes.length) :
    w.push bytes = (.error .writerFull, w.taking bytes) := by
  rw [push, if_neg (Nat.not_le_of_lt h), taking, Nat.sub_eq_zero_of_le (Nat.le_of_lt h)]

theorem of_push_eq_ok {w w' : BoundedWriter} {bytes : Bytes}
    (h : ByteSink.push bytes w = (.ok (), w')) : bytes.length ≤ w.room ∧ w' = w.taking bytes := by
  have hpush : w.push bytes = (.ok (), w') := h
  rcases Nat.lt_or_ge w.room bytes.length with hlong | hfits
  · rw [push_of_long hlong] at hpush
    cases hpush
  · rw [push_of_fits hfits] at hpush
    cases hpush
    exact ⟨hfits, rfl⟩

theorem of_push_eq_error {w w' : BoundedWriter} {bytes : Bytes} {e : WriteError}
    (h : ByteSink.push bytes w = (.error e, w')) :
    w.room < bytes.length ∧ e = .writerFull ∧ w' = w.taking bytes := by
  have hpush : w.push bytes = (.error e, w') := h
  rcases Nat.lt_or_ge w.room bytes.length with hlong | hfits
  · rw [push_of_long hlong] at hpush
    cases hpush
    exact ⟨hlong, rfl, rfl⟩
  · rw [push_of_fits hfits] at hpush
    cases hpush

/-- Whether a run is taken or refused, the writer takes what it has room for. -/
theorem push_snd (w : BoundedWriter) (bytes : Bytes) :
    (ByteSink.push bytes w).2 = w.taking bytes := by
  show (w.push bytes).2 = w.taking bytes
  rcases Nat.lt_or_ge w.room bytes.length with hlong | hfits
  · rw [push_of_long hlong]
  · rw [push_of_fits hfits]

theorem toList_received_taking (w : BoundedWriter) (bytes : Bytes) :
    (w.taking bytes).received.toList = w.received.toList ++ bytes.take w.room :=
  Array.toList_appendList

/-- **Runs that are offered in turn** are taken like one. -/
theorem taking_taking (w : BoundedWriter) (x y : Bytes) :
    (w.taking x).taking y = w.taking (x ++ y) := by
  have hroom : w.room - x.length - y.length = w.room - (x ++ y).length := by
    rw [List.length_append, Nat.sub_sub]
  have hreceived : w.received ++ x.take w.room ++ y.take (w.room - x.length) =
      w.received ++ (x ++ y).take w.room := by
    apply Array.toList_inj.mp
    rw [Array.toList_appendList, Array.toList_appendList, Array.toList_appendList,
      List.append_assoc, List.take_append]
  rw [taking, taking, taking, hroom, hreceived]

theorem taking_nil (w : BoundedWriter) : w.taking [] = w := by
  simp [taking]

/-- A full writer takes nothing. -/
theorem taking_of_full {w : BoundedWriter} (h : w.room = 0) (bytes : Bytes) : w.taking bytes = w := by
  cases w
  cases h
  simp [taking]

/-- A run that is too long leaves the writer full, so nothing is taken behind it. -/
theorem taking_taking_of_long {w : BoundedWriter} {x : Bytes} (h : w.room < x.length) (y : Bytes) :
    (w.taking x).taking y = w.taking x :=
  taking_of_full (Nat.sub_eq_zero_of_le (Nat.le_of_lt h)) y

/-! ## Single writes -/

/-- One write: as many bytes are taken as there is room for, and their number is returned. A full
writer refuses. -/
def write (w : BoundedWriter) (bytes : Bytes) : Except WriteError Nat × BoundedWriter :=
  if w.room = 0 then (.error .writerFull, w)
  else (.ok (min w.room bytes.length), w.taking bytes)

theorem write_of_full {w : BoundedWriter} (h : w.room = 0) (bytes : Bytes) :
    w.write bytes = (.error .writerFull, w) := if_pos h

theorem write_of_room {w : BoundedWriter} (h : 0 < w.room) (bytes : Bytes) :
    w.write bytes = (.ok (min w.room bytes.length), w.taking bytes) := if_neg (Nat.ne_of_gt h)

/-- A run of bytes is written: what is left of it is written again until nothing is left, or a write
is refused. -/
inductive WritesAll : BoundedWriter → Bytes → Except WriteError Unit → BoundedWriter → Prop
  | done (w : BoundedWriter) : WritesAll w [] (.ok ()) w
  | refused {w w' : BoundedWriter} {bytes : Bytes} {e : WriteError} (hne : bytes ≠ [])
      (hwrite : w.write bytes = (.error e, w')) : WritesAll w bytes (.error e) w'
  | taken {w w₁ w' : BoundedWriter} {bytes : Bytes} {n : Nat} {r : Except WriteError Unit}
      (hne : bytes ≠ []) (hwrite : w.write bytes = (.ok n, w₁))
      (hrest : WritesAll w₁ (bytes.drop n) r w') : WritesAll w bytes r w'

/-- **Offering a run of bytes** is writing it, write by write. -/
theorem writesAll_iff {w w' : BoundedWriter} {bytes : Bytes} {r : Except WriteError Unit} :
    WritesAll w bytes r w' ↔ w.push bytes = (r, w') := by
  constructor
  · intro h
    induction h with
    | done w => rw [push_of_fits (Nat.zero_le _), taking_nil]
    | @refused w w' bytes e hne hwrite =>
        rcases Nat.eq_zero_or_pos w.room with hfull | hroom
        · rw [write_of_full hfull] at hwrite
          cases hwrite
          rw [push_of_long (by rw [hfull]; exact List.length_pos_iff.mpr hne), taking_of_full hfull]
        · rw [write_of_room hroom] at hwrite
          cases hwrite
    | @taken w w₁ w' bytes n r hne hwrite hrest ih =>
        rcases Nat.eq_zero_or_pos w.room with hfull | hroom
        · rw [write_of_full hfull] at hwrite
          cases hwrite
        · rw [write_of_room hroom] at hwrite
          cases hwrite
          rw [← ih]
          -- What is left after the first write is nothing, or too much for a writer that is full.
          rcases Nat.lt_or_ge w.room bytes.length with hlong | hfits
          · have hfull : (w.taking bytes).room = 0 := Nat.sub_eq_zero_of_le (Nat.le_of_lt hlong)
            have hleft : (w.taking bytes).room < (bytes.drop (min w.room bytes.length)).length := by
              rw [hfull, List.length_drop]
              omega
            rw [push_of_long hlong, push_of_long hleft, taking_of_full hfull]
          · rw [Nat.min_eq_right hfits, List.drop_length, push_of_fits hfits,
              push_of_fits (Nat.zero_le _), taking_nil]
  · intro h
    rcases eq_or_ne bytes [] with rfl | hne
    · rw [push_of_fits (Nat.zero_le _), taking_nil] at h
      cases h
      exact .done w
    rcases Nat.eq_zero_or_pos w.room with hfull | hroom
    · have hlong : w.room < bytes.length := by
        rw [hfull]
        exact List.length_pos_iff.mpr hne
      rw [push_of_long hlong, taking_of_full hfull] at h
      cases h
      exact .refused hne (write_of_full hfull bytes)
    · refine .taken hne (write_of_room hroom bytes) ?_
      rcases Nat.lt_or_ge w.room bytes.length with hlong | hfits
      · rw [push_of_long hlong] at h
        cases h
        refine .refused ?_ (write_of_full (Nat.sub_eq_zero_of_le (Nat.le_of_lt hlong)) _)
        rw [Ne, List.drop_eq_nil_iff]
        omega
      · rw [push_of_fits hfits] at h
        cases h
        rw [Nat.min_eq_right hfits, List.drop_length]
        exact .done _

end BoundedWriter

namespace Report

/-! ## Reports -/

/-- How the last buffer is refused. Where the lines end in a failure, it is this one that is reported. -/
def lastRefusal : Except Failure Unit → Failure
  | .ok () => .write .writerFull
  | .error f => f

/-- How passing on bytes fails that are too many: a buffer that is not the last one is refused as a
part of a table. -/
def refusal (ending : Except Failure Unit) (room : Nat) (bytes : Bytes) : Failure :=
  if bufferSize * (room / bufferSize + 1) < bytes.length then .table .writerFull
  else lastRefusal ending

theorem refusal_of_last {ending : Except Failure Unit} {room : Nat} {bytes : Bytes}
    (h : bytes.length ≤ bufferSize) : refusal ending room bytes = lastRefusal ending := by
  refine if_neg ?_
  rw [bufferSize] at *
  omega

theorem refusal_of_first {ending : Except Failure Unit} {room : Nat} {bytes : Bytes}
    (hroom : room < bufferSize) (h : bufferSize < bytes.length) :
    refusal ending room bytes = .table .writerFull := by
  refine if_pos ?_
  rwa [Nat.div_eq_of_lt hroom, Nat.zero_add, Nat.mul_one]

/-- A buffer that is taken does not change how the others are refused. -/
theorem refusal_drop {ending : Except Failure Unit} {room : Nat} {bytes : Bytes}
    (hroom : bufferSize ≤ room) :
    refusal ending (room - bufferSize) (bytes.drop bufferSize) = refusal ending room bytes := by
  have hmore : bufferSize * ((room - bufferSize) / bufferSize + 1) < (bytes.drop bufferSize).length ↔
      bufferSize * (room / bufferSize + 1) < bytes.length := by
    rw [List.length_drop, bufferSize] at *
    omega
  rw [refusal, refusal, if_congr hmore rfl rfl]

/-- A buffer that more is to follow is full. -/
theorem length_take_bufferSize {bytes : Bytes} (h : bytes.drop bufferSize ≠ []) :
    (bytes.take bufferSize).length = bufferSize := by
  rw [Ne, List.drop_eq_nil_iff, Nat.not_le] at h
  rw [List.length_take, Nat.min_eq_left (Nat.le_of_lt h)]

/-- Bytes that are passed on buffer by buffer are taken as far as there is room. -/
theorem passOn_bounded (ending : Except Failure Unit) (bytes : Bytes) (w : BoundedWriter) :
    passOn ending bytes w =
      (if bytes.length ≤ w.room then ending else .error (refusal ending w.room bytes),
        w.taking bytes) := by
  fun_induction passOn ending bytes w with
  | case1 bytes w hlast f hending =>
      rw [refusal_of_last (List.drop_eq_nil_iff.mp hlast), BoundedWriter.push_snd, hending,
        lastRefusal, ite_self]
  | case2 bytes w hlast hending w' hpush =>
      obtain ⟨hfits, rfl⟩ := BoundedWriter.of_push_eq_ok hpush
      rw [if_pos hfits, hending]
  | case3 bytes w hlast hending e w' hpush =>
      obtain ⟨hlong, rfl, rfl⟩ := BoundedWriter.of_push_eq_error hpush
      rw [if_neg (Nat.not_le_of_lt hlong), refusal_of_last (List.drop_eq_nil_iff.mp hlast),
        BoundedWriter.push_snd, BoundedWriter.taking_taking_of_long hlong, hending, lastRefusal]
  | case4 bytes w hmore w₁ hpush ih =>
      obtain ⟨hfits, rfl⟩ := BoundedWriter.of_push_eq_ok hpush
      have hbuffer := length_take_bufferSize hmore
      rw [List.drop_eq_nil_iff, Nat.not_le] at hmore
      have hroom : (w.taking (bytes.take bufferSize)).room = w.room - bufferSize := by
        rw [BoundedWriter.taking, hbuffer]
      rw [hbuffer] at hfits
      have hlength : (bytes.drop bufferSize).length ≤ w.room - bufferSize ↔
          bytes.length ≤ w.room := by
        rw [List.length_drop]
        omega
      rw [ih, hroom, refusal_drop hfits, if_congr hlength rfl rfl, BoundedWriter.taking_taking,
        List.take_append_drop]
  | case5 bytes w hmore e w' hpush =>
      obtain ⟨hlong, rfl, rfl⟩ := BoundedWriter.of_push_eq_error hpush
      have hbuffer := length_take_bufferSize hmore
      rw [List.drop_eq_nil_iff, Nat.not_le] at hmore
      have htaking : w.taking bytes = w.taking (bytes.take bufferSize) := by
        rw [← BoundedWriter.taking_taking_of_long hlong (bytes.drop bufferSize),
          BoundedWriter.taking_taking, List.take_append_drop]
      rw [htaking, BoundedWriter.push_snd, BoundedWriter.taking_taking_of_long hlong]
      rw [hbuffer] at hlong
      rw [refusal_of_first hlong hmore, if_neg (by omega)]

/-- How a delivery fails to a writer without room for the whole report. -/
def deliveryRefusal (room : Nat) (label : String) (k : InputClass) (d : Dataset) : Failure :=
  if room < (utf8 (comment label k)).length then .write .writerFull
  else refusal (verdict k d) (room - (utf8 (comment label k)).length) (utf8 (body k d))

/-- **A report** is taken as far as there is room. -/
theorem deliver_bounded (label : String) (k : InputClass) (d : Dataset) (w : BoundedWriter) :
    deliver label k d w =
      (if (reportBytes label k d).length ≤ w.room then verdict k d
        else .error (deliveryRefusal w.room label k d),
        w.taking (reportBytes label k d)) := by
  rw [reportBytes_eq, List.length_append]
  rcases Nat.lt_or_ge w.room (utf8 (comment label k)).length with hlong | hfits
  · have hpush : ByteSink.push (utf8 (comment label k)) w =
        (.error .writerFull, w.taking (utf8 (comment label k))) := BoundedWriter.push_of_long hlong
    rw [deliver, hpush, deliveryRefusal, if_pos hlong, if_neg (by omega),
      ← BoundedWriter.taking_taking, BoundedWriter.taking_taking_of_long hlong]
  · have hpush : ByteSink.push (utf8 (comment label k)) w =
        (.ok (), w.taking (utf8 (comment label k))) := BoundedWriter.push_of_fits hfits
    have hroom : (w.taking (utf8 (comment label k))).room =
        w.room - (utf8 (comment label k)).length := rfl
    have hlength : (utf8 (body k d)).length ≤ w.room - (utf8 (comment label k)).length ↔
        (utf8 (comment label k)).length + (utf8 (body k d)).length ≤ w.room := by omega
    rw [deliver, hpush, deliveryRefusal, if_neg (Nat.not_lt_of_le hfits)]
    simp only
    rw [passOn_bounded, hroom, if_congr hlength rfl rfl, BoundedWriter.taking_taking]

end Report

namespace ResultLog

/-! ## Logs -/

variable {log : ResultLog}

/-- The bytes of a log behind an offset are taken as far as there is room. -/
theorem Canonical.copyFrom_bounded (h : log.Canonical) (hdone : log.status = .done) (offset : Nat)
    (w : BoundedWriter) (hoffset : offset ≤ log.contents.length) :
    log.copyFrom offset w =
      (if (log.contents.drop offset).length ≤ w.room then .ok log.contents.length
        else .error .writerFull,
        w.taking (log.contents.drop offset)) := by
  fun_induction copyFrom log offset w with
  | case1 offset w hread =>
      have hend := (h.readAt_eq_nil_iff hdone (by decide) offset).mp hread
      obtain rfl : offset = log.contents.length := Nat.le_antisymm hoffset hend
      rw [List.drop_length, BoundedWriter.taking_nil, List.length_nil, if_pos (Nat.zero_le _)]
  | case2 offset w hread e w' hpush =>
      obtain ⟨hlong, rfl, rfl⟩ := BoundedWriter.of_push_eq_error hpush
      have hrest := h.readAt_append_drop hdone offset copySize
      rw [← hrest, ← BoundedWriter.taking_taking, BoundedWriter.taking_taking_of_long hlong,
        List.length_append, if_neg (by omega)]
  | case3 offset w hread w₁ hpush ih =>
      obtain ⟨hfits, rfl⟩ := BoundedWriter.of_push_eq_ok hpush
      have hrest := h.readAt_append_drop hdone offset copySize
      have hlength := congrArg List.length hrest
      rw [List.length_append, List.length_drop, List.length_drop] at hlength
      have hpos := List.length_pos_iff.mpr hread
      have hroom : (w.taking (log.readAt offset copySize)).room =
          w.room - (log.readAt offset copySize).length := rfl
      have hleft : (log.contents.drop (offset + (log.readAt offset copySize).length)).length ≤
            w.room - (log.readAt offset copySize).length ↔
          (log.contents.drop offset).length ≤ w.room := by
        rw [List.length_drop, List.length_drop]
        omega
      rw [ih (by omega), hroom, if_congr hleft rfl rfl, BoundedWriter.taking_taking, hrest]

/-- **A finished log** is taken as far as there is room. -/
theorem Canonical.drain_bounded (h : log.Canonical) (hdone : log.status = .done)
    (w : BoundedWriter) :
    log.drain w =
      (if log.contents.length ≤ w.room then .ok log.contents.length
        else .error (.write .writerFull), w.taking log.contents) := by
  have hcopy := h.copyFrom_bounded hdone 0 w (Nat.zero_le _)
  rw [List.drop_zero] at hcopy
  rw [drain, hcopy]
  by_cases hfits : log.contents.length ≤ w.room
  · rw [if_pos hfits, if_pos hfits]
  · rw [if_neg hfits, if_neg hfits]

/-- All bytes of a finished log are copied to a sink that keeps everything. -/
theorem Canonical.toList_drain (h : log.Canonical) (hdone : log.status = .done) :
    (log.drain (#[] : Array UInt8)).2.toList = log.contents := by
  obtain ⟨drained, hdrain, hreceived⟩ :=
    h.drain_of_takesAll hdone ByteSink.takesAll_array (#[] : Array UInt8)
  rw [hdrain]
  exact hreceived

end ResultLog

theorem BoundedWriter.toList_received_withRoom (room : Nat) (bytes : Bytes) :
    ((withRoom room).taking bytes).received.toList = bytes.take (min room bytes.length) := by
  rw [toList_received_taking, ← List.take_take, List.take_length]
  rfl

/-- **A writer that fills up receives a clean prefix.** It takes a number of bytes in all: a write that
crosses this limit is taken up to it, and all later ones are refused. What it has received of a report
are in any case the first bytes, up to the limit. If the limit is not below the length of the whole
report, then the delivery ends as it does to a writer that takes everything, and otherwise it fails; so
the report of a dataset of a run is delivered without a failure exactly if there is room for all of it.
The same holds of copying a log that is done. -/
theorem bounded_receives_first_bytes (room : Nat) :
    (∀ (w w' : BoundedWriter) (bytes : Bytes) (r : Except WriteError Unit),
      w.WritesAll bytes r w' ↔ ByteSink.push bytes w = (r, w')) ∧
    (∀ (label : String) (k : InputClass) (d : Dataset),
      let full := Report.reportBytes label k d
      let outcome := Report.deliver label k d (BoundedWriter.withRoom room)
      outcome.1 = (if full.length ≤ room then (Report.deliver label k d (#[] : Array UInt8)).1
        else .error (Report.deliveryRefusal room label k d)) ∧
      outcome.2.received.toList = full.take (min room full.length) ∧
      ∀ config : RunConfig, config.Yields d → (outcome.1 = .ok () ↔ full.length ≤ room)) ∧
    ∀ calls : List ResultLog.Call,
      let log := ResultLog.empty.after calls
      log.status = .done →
      let full := (log.drain (#[] : Array UInt8)).2.toList
      let outcome := log.drain (BoundedWriter.withRoom room)
      outcome.1 = (if full.length ≤ room then .ok full.length else .error (.write .writerFull)) ∧
      outcome.2.received.toList = full.take (min room full.length) := by
  refine ⟨fun w w' bytes r => BoundedWriter.writesAll_iff, ?_, ?_⟩
  · intro label k d full outcome
    have houtcome := Report.deliver_bounded label k d (BoundedWriter.withRoom room)
    obtain ⟨sink, hdeliver, -⟩ :=
      Report.deliver_of_takesAll ByteSink.takesAll_array label k d (#[] : Array UInt8)
    have hresult : outcome.1 = if full.length ≤ room then Report.verdict k d
        else .error (Report.deliveryRefusal room label k d) := congrArg Prod.fst houtcome
    refine ⟨?_, ?_, ?_⟩
    · rw [hdeliver]
      exact hresult
    · rw [← BoundedWriter.toList_received_withRoom]
      exact congrArg (fun result => result.2.received.toList) houtcome
    · intro config hd
      rw [hresult, Report.verdict_eq_ok_iff.mpr (hd.complete.1.regular k)]
      by_cases hfits : full.length ≤ room
      · rw [if_pos hfits]
        exact iff_of_true rfl hfits
      · rw [if_neg hfits]
        exact iff_of_false nofun hfits
  · intro calls log hdone full outcome
    have hlog : log.Canonical := (ResultLog.canonical_empty.after calls).1
    have hfull : full = log.contents := hlog.toList_drain hdone
    have houtcome := hlog.drain_bounded hdone (BoundedWriter.withRoom room)
    rw [hfull]
    refine ⟨congrArg Prod.fst houtcome, ?_⟩
    rw [← BoundedWriter.toList_received_withRoom]
    exact congrArg (fun result => result.2.received.toList) houtcome

/-- A report of 100 bytes for a writer with room for 60, where the comment fits and the lines after it do
not, and a log of one byte more than a block for a writer that has room for the block only. -/
theorem bounded_receives_first_bytes_cut :
    let d : Dataset := ⟨#[⟨fixedValue, fixedValue, .fixed⟩], Grid.blank 1 0, [.fixed]⟩
    let outcome := Report.deliver "-O2" .fixed d (BoundedWriter.withRoom 60)
    let log := ResultLog.empty.after [.append (List.replicate 1001 7), .markDone]
    let outcome' := log.drain (BoundedWriter.withRoom 1000)
    ((Report.reportBytes "-O2" .fixed d).length = 100 ∧ outcome.1 = .error (.write .writerFull) ∧
      outcome.2.received.toList = (Report.reportBytes "-O2" .fixed d).take 60) ∧
    log.status = .done ∧ outcome'.1 = .error (.write .writerFull) ∧
      outcome'.2.received.toList = List.replicate 1000 7 := by
  intro d outcome log outcome'
  have hlength : (Report.reportBytes "-O2" .fixed d).length = 100 := by
    rw [Report.reportBytes_eq]
    decide +kernel
  have hfailure : Report.deliveryRefusal 60 "-O2" .fixed d = .write .writerFull := by decide +kernel
  obtain ⟨hresult, hreceived, -⟩ := (bounded_receives_first_bytes 60).2.1 "-O2" .fixed d
  rw [hlength, if_neg (by decide), hfailure] at hresult
  rw [hlength] at hreceived
  refine ⟨⟨hlength, hresult, hreceived⟩, rfl, ?_⟩
  have hlog := ResultLog.canonical_empty.after [.append (List.replicate 1001 7), .markDone]
  have hfull : (log.drain (#[] : Array UInt8)).2.toList = List.replicate 1001 7 := by
    rw [hlog.1.toList_drain rfl, hlog.2.1]
    exact List.append_nil _
  obtain ⟨hresult', hreceived'⟩ := (bounded_receives_first_bytes 1000).2.2
    [.append (List.replicate 1001 7), .markDone] rfl
  rw [hfull, List.length_replicate, if_neg (by decide)] at hresult'
  rw [hfull, List.length_replicate, List.take_replicate] at hreceived'
  exact ⟨hresult', hreceived'⟩

end TimingAudit
