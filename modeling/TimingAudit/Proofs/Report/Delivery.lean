import TimingAudit.Proofs.Run
import TimingAudit.Report.Delivery
import Mathlib.Tactic.Common

/-!
# Delivering to a sink that takes everything

A report is accepted if all of its records have as many fields as the header (`verdict_eq_ok_iff`), as
they have in every dataset of a run (`Dataset.Complete.regular`). The buffer that the lines of a report
pass through cuts them at places that have nothing to do with their contents. A sink that takes every
run of bytes gets the whole report all the same, in order (`deliver_of_takesAll`).
-/

namespace TimingAudit

namespace Report

/-! ## Records of one length -/

/-- Every sample of the class has a measurement for every pass. -/
def Regular (k : InputClass) (d : Dataset) : Prop :=
  ∀ s ∈ d.samplesOf k, s.passes.length = d.iterations

/-- Rows that all have the right number of fields are accepted, a line each. -/
theorem written_of_forall {width : Nat} {rows : List (List String)}
    (h : ∀ fields ∈ rows, fields.length = width) :
    written width rows = (String.join (rows.map line), .ok ()) := by
  induction rows with
  | nil => rfl
  | cons fields rows ih =>
      obtain ⟨hfields, hrows⟩ := List.forall_mem_cons.mp h
      rw [written, if_pos hfields, ih hrows, List.map_cons, String.join_cons]

/-- **Rows are accepted** exactly if all of them have the right number of fields. -/
theorem written_snd_eq_ok_iff {width : Nat} {rows : List (List String)} :
    (written width rows).2 = .ok () ↔ ∀ fields ∈ rows, fields.length = width := by
  constructor
  · intro h
    induction rows with
    | nil => exact fun _ hmem => absurd hmem List.not_mem_nil
    | cons fields rows ih =>
        rw [written] at h
        by_cases hfields : fields.length = width
        · rw [if_pos hfields] at h
          exact List.forall_mem_cons.mpr ⟨hfields, ih h⟩
        · rw [if_neg hfields] at h
          cases h
  · intro h
    rw [written_of_forall h]

/-- There is a column for either argument, for the minimum and for every pass. -/
theorem length_header (iterations : Nat) : (header iterations).length = 3 + iterations := by
  rw [header, List.length_append, List.length_map, List.length_range]
  rfl

/-- There is a field for either argument, for the minimum and for every pass of a sample. -/
theorem length_record (s : Sample) : (record s).length = 3 + s.passes.length := by
  rw [record, List.length_append, List.length_map]
  rfl

/-- The lengths of the rows of a report. -/
theorem forall_mem_table_iff {k : InputClass} {d : Dataset} :
    (∀ fields ∈ table k d, fields.length = (header d.iterations).length) ↔ Regular k d := by
  rw [table, List.forall_mem_cons, List.forall_mem_map]
  simp only [length_header, length_record, Nat.add_left_cancel_iff, true_and]
  rfl

/-- **A report is accepted** exactly if all of its records have a field for every pass. -/
theorem verdict_eq_ok_iff {k : InputClass} {d : Dataset} : verdict k d = .ok () ↔ Regular k d :=
  written_snd_eq_ok_iff.trans forall_mem_table_iff

/-- The lines of a report that is accepted. -/
theorem Regular.body_eq {k : InputClass} {d : Dataset} (h : Regular k d) :
    body k d = String.join ((table k d).map line) := by
  rw [body, written_of_forall (forall_mem_table_iff.mpr h)]

end Report

/-- The samples of a complete dataset have a measurement for every pass. -/
theorem Dataset.Complete.regular {d : Dataset} (hd : d.Complete) (k : InputClass) :
    Report.Regular k d :=
  fun _ hs => (hd.sample (List.mem_of_mem_filter hs)).1

/-! ## Sinks that take everything -/

/-- The sink takes every run of bytes, behind what it has `received` before. -/
def ByteSink.TakesAll {ω : Type} [ByteSink ω] (received : ω → Bytes) : Prop :=
  ∀ bytes sink, ∃ sink', ByteSink.push bytes sink = (.ok (), sink') ∧
    received sink' = received sink ++ bytes

/-- An array of bytes takes everything. -/
theorem ByteSink.takesAll_array : ByteSink.TakesAll (Array.toList : Array UInt8 → Bytes) := by
  intro bytes sink
  exact ⟨sink ++ bytes, rfl, Array.toList_appendList⟩

section

variable {ω : Type} [ByteSink ω] {received : ω → Bytes}

/-- Whatever a sink that takes everything answers, it has taken the bytes. -/
theorem ByteSink.TakesAll.of_push_eq (h : ByteSink.TakesAll received) {bytes : Bytes}
    {sink sink' : ω} {r : Except WriteError Unit} (hpush : ByteSink.push bytes sink = (r, sink')) :
    r = .ok () ∧ received sink' = received sink ++ bytes := by
  obtain ⟨sink'', hpush', hreceived⟩ := h bytes sink
  rw [hpush] at hpush'
  cases hpush'
  exact ⟨rfl, hreceived⟩

namespace Report

/-- Bytes that are passed on buffer by buffer arrive as they are. -/
theorem passOn_of_takesAll (h : ByteSink.TakesAll received) (ending : Except Failure Unit)
    (bytes : Bytes) (sink : ω) :
    ∃ sink', passOn ending bytes sink = (ending, sink') ∧
      received sink' = received sink ++ bytes := by
  fun_induction passOn ending bytes sink with
  | case1 bytes sink _ f hending =>
      obtain ⟨sink', hpush, hreceived⟩ := h bytes sink
      exact ⟨sink', by rw [hpush, hending], hreceived⟩
  | case2 bytes sink _ hending sink' hpush =>
      subst hending
      exact ⟨sink', rfl, (h.of_push_eq hpush).2⟩
  | case3 bytes sink _ hending e sink' hpush => cases (h.of_push_eq hpush).1
  | case4 bytes sink _ sink₁ hpush ih =>
      obtain ⟨-, hreceived⟩ := h.of_push_eq hpush
      obtain ⟨sink', hrest, hreceived'⟩ := ih
      refine ⟨sink', hrest, ?_⟩
      rw [hreceived', hreceived, List.append_assoc, List.take_append_drop]
  | case5 bytes sink _ e sink' hpush => cases (h.of_push_eq hpush).1

/-- A report arrives whole: its comment, and the lines after it. -/
theorem deliver_of_takesAll (h : ByteSink.TakesAll received) (label : String) (k : InputClass)
    (d : Dataset) (sink : ω) :
    ∃ sink', deliver label k d sink = (verdict k d, sink') ∧
      received sink' = received sink ++ utf8 (comment label k) ++ utf8 (body k d) := by
  obtain ⟨sink₁, hcomment, hreceived⟩ := h (utf8 (comment label k)) sink
  obtain ⟨sink', hbody, hreceived'⟩ :=
    passOn_of_takesAll h (verdict k d) (utf8 (body k d)) sink₁
  refine ⟨sink', ?_, by rw [hreceived', hreceived]⟩
  rw [deliver, hcomment]
  exact hbody

end Report

end

end TimingAudit
