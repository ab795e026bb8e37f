import TimingAudit.Proofs.Report.Delivery
import TimingAudit.Proofs.Text

/-!
# Reading a table back

A table is read by cutting its text into lines and each line at its commas. This gives back the
fields that were written, because no field holds a comma or a line feed: the fields of a record are
made of digits and minus signs, and the names of the columns of letters, digits and underscores.

* `readTable_lines` : reading undoes writing for all fields without separators;
* `readTable_body` : so it does for the lines of every report that is accepted.
-/

namespace TimingAudit.Report

/-- The fields of every line of a text whose lines all end in a line feed. -/
def readTable (text : String) : List (List String) :=
  (text.toList.splitOn '\n').dropLast.map fun cs => (cs.splitOn ',').map String.ofList

/-- A field without a separator. -/
def Unbroken (field : String) : Prop := ',' ∉ field.toList ∧ '\n' ∉ field.toList

/-- A field of digits and minus signs, which may be empty. -/
def Numeral (field : String) : Prop := ∀ c ∈ field.toList, c.isDigit ∨ c = '-'

/-! ## Lines of fields -/

/-- Lines that end in a line feed are cut apart at their ends. -/
theorem splitOn_flatMap_line (lines : List (List Char)) (h : ∀ l ∈ lines, '\n' ∉ l) :
    (lines.flatMap (· ++ ['\n'])).splitOn '\n' = lines ++ [[]] := by
  induction lines with
  | nil => rfl
  | cons l lines ih =>
      rw [List.flatMap_cons, List.append_assoc, List.singleton_append,
        List.splitOn_append_cons_self_of_not_mem (h l List.mem_cons_self),
        ih fun l' hl' => h l' (List.mem_cons_of_mem _ hl')]
      rfl

/-- The characters of a line. -/
theorem toList_line (fields : List String) :
    (line fields).toList = [','].intercalate (fields.map String.toList) ++ ['\n'] := by
  rw [line, String.toList_append, String.toList_intercalate]
  rfl

/-- A line feed in joined fields stands in one of them. -/
theorem lineFeed_not_mem_intercalate (fields : List String) (h : ∀ f ∈ fields, Unbroken f) :
    '\n' ∉ [','].intercalate (fields.map String.toList) := by
  induction fields with
  | nil => simp
  | cons f fields ih =>
      have hf : '\n' ∉ f.toList := (h f List.mem_cons_self).2
      have hfields := ih fun f' hf' => h f' (List.mem_cons_of_mem _ hf')
      cases fields with
      | nil => simpa using hf
      | cons f' fields =>
          rw [List.map_cons, List.map_cons, List.intercalate_cons_cons, ← List.map_cons]
          intro hmem
          rcases List.mem_append.mp hmem with hleft | hright
          · rcases List.mem_append.mp hleft with hfield | hcomma
            · exact hf hfield
            · exact absurd hcomma (by decide)
          · exact hfields hright

/-- A line of fields is cut apart at its commas. -/
theorem splitOn_intercalate_fields {fields : List String} (hne : fields ≠ [])
    (h : ∀ f ∈ fields, Unbroken f) :
    (([','].intercalate (fields.map String.toList)).splitOn ',').map String.ofList = fields := by
  have hcomma : ∀ l ∈ fields.map String.toList, ',' ∉ l := by
    intro l hl
    obtain ⟨f, hf, rfl⟩ := List.mem_map.mp hl
    exact (h f hf).1
  rw [List.splitOn_intercalate ',' hcomma (by simpa using hne), List.map_map]
  calc fields.map (String.ofList ∘ String.toList)
      = fields.map id := List.map_congr_left fun f _ => String.ofList_toList
    _ = fields := List.map_id fields

/-- **Reading undoes writing**, for lines of at least one field each and fields without separators.
-/
theorem readTable_lines (rows : List (List String)) (hne : ∀ r ∈ rows, r ≠ [])
    (h : ∀ r ∈ rows, ∀ f ∈ r, Unbroken f) : readTable (String.join (rows.map line)) = rows := by
  have htext : (String.join (rows.map line)).toList =
      (rows.map fun r => [','].intercalate (r.map String.toList)).flatMap (· ++ ['\n']) := by
    rw [String.toList_join, List.flatMap_map, List.flatMap_map]
    congr 1
    funext r
    exact toList_line r
  have hfeed : ∀ l ∈ rows.map fun r => [','].intercalate (r.map String.toList), '\n' ∉ l := by
    intro l hl
    obtain ⟨r, hr, rfl⟩ := List.mem_map.mp hl
    exact lineFeed_not_mem_intercalate r (h r hr)
  rw [readTable, htext, splitOn_flatMap_line _ hfeed, List.dropLast_concat, List.map_map]
  calc rows.map _
      = rows.map id :=
        List.map_congr_left fun r hr => splitOn_intercalate_fields (hne r hr) (h r hr)
    _ = rows := List.map_id rows

/-! ## The fields of a report -/

/-- Numerals have no separators. -/
theorem Numeral.unbroken {field : String} (h : Numeral field) : Unbroken field := by
  constructor
  · intro hmem
    exact absurd (h _ hmem) (by decide)
  · intro hmem
    exact absurd (h _ hmem) (by decide)

/-- A signed number is written as a numeral. -/
theorem numeral_toString_int (i : Int) : Numeral (toString i) := by
  intro c hc
  cases i with
  | ofNat n => exact .inl (Text.isDigit_of_mem_toString (n := n) hc)
  | negSucc n =>
      rw [Text.toList_toString_negSucc] at hc
      rcases List.mem_cons.mp hc with rfl | hdigit
      · exact .inr rfl
      · exact .inl (Text.isDigit_of_mem_toString hdigit)

/-- A tick count is written as a numeral. -/
theorem numeral_clockField (clocks : UInt64) : Numeral (clockField clocks) := by
  intro c hc
  unfold clockField at hc
  split at hc
  · cases hc
  · exact .inl (Text.isDigit_of_mem_toString hc)

/-- All fields of a record are numerals. -/
theorem numeral_of_mem_record {s : Sample} {f : String} (h : f ∈ record s) : Numeral f := by
  rcases List.mem_append.mp h with hfront | hpass
  · rcases List.mem_cons.mp hfront with rfl | hfront
    · exact numeral_toString_int _
    · rcases List.mem_cons.mp hfront with rfl | hfront
      · exact numeral_toString_int _
      · obtain rfl := List.mem_singleton.mp hfront
        exact numeral_clockField _
  · obtain ⟨clocks, -, rfl⟩ := List.mem_map.mp hpass
    exact numeral_clockField clocks

/-- The names of the columns have no separators. -/
theorem unbroken_of_mem_header {iterations : Nat} {f : String} (h : f ∈ header iterations) :
    Unbroken f := by
  rcases List.mem_append.mp h with hfront | hpass
  · have hnames : ∀ f ∈ ["input_a", "input_b", "min_clock_measured"], Unbroken f := by
      unfold Unbroken
      decide
    exact hnames f hfront
  · obtain ⟨i, -, rfl⟩ := List.mem_map.mp hpass
    have hname : ("it" ++ toString (i + 1)).toList = 'i' :: 't' :: (toString (i + 1)).toList := by
      rw [String.toList_append]
      rfl
    have hdigits : ∀ c ∈ ("it" ++ toString (i + 1)).toList, c = 'i' ∨ c = 't' ∨ c.isDigit := by
      intro c hc
      rw [hname] at hc
      rcases List.mem_cons.mp hc with rfl | hc
      · exact .inl rfl
      · rcases List.mem_cons.mp hc with rfl | hc
        · exact .inr (.inl rfl)
        · exact .inr (.inr (Text.isDigit_of_mem_toString hc))
    constructor
    · intro hmem
      exact absurd (hdigits _ hmem) (by decide)
    · intro hmem
      exact absurd (hdigits _ hmem) (by decide)

/-- No field of a report has a separator. -/
theorem unbroken_of_mem_table (k : InputClass) (d : Dataset) :
    ∀ r ∈ table k d, ∀ f ∈ r, Unbroken f := by
  intro r hr f hf
  rcases List.mem_cons.mp hr with rfl | hr
  · exact unbroken_of_mem_header hf
  · obtain ⟨s, -, rfl⟩ := List.mem_map.mp hr
    exact (numeral_of_mem_record hf).unbroken

/-- The lines of a report are read back as they were written. -/
theorem readTable_body {k : InputClass} {d : Dataset} (h : Regular k d) :
    readTable (body k d) = table k d := by
  rw [h.body_eq]
  refine readTable_lines _ ?_ (unbroken_of_mem_table k d)
  intro r hr
  rcases List.mem_cons.mp hr with rfl | hr
  · exact List.cons_ne_nil _ _
  · obtain ⟨s, -, rfl⟩ := List.mem_map.mp hr
    exact List.cons_ne_nil _ _

end TimingAudit.Report
