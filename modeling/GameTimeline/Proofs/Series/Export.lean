import GameTimeline.Proofs.Csv.Record
import GameTimeline.Proofs.Decimal.Spelling
import GameTimeline.Proofs.Text.Bytes
import GameTimeline.Proofs.Timeline.Encoding
import GameTimeline.Series.Csv
import GameTimeline.Timeline.Export

namespace GameTimeline

def FieldValue.SelfEvident : FieldValue → Prop
  | .flag _ => True
  | .int _ => True
  | .text s => s ≠ "" ∧ Text.trim s = s ∧ s ≠ "true" ∧ s ≠ "false" ∧ Text.int64? s.toList = none
  | .unsupported _ => False

instance : DecidablePred FieldValue.SelfEvident
  | .flag _ => inferInstanceAs (Decidable True)
  | .int _ => inferInstanceAs (Decidable True)
  | .text s => inferInstanceAs (Decidable (s ≠ "" ∧ Text.trim s = s ∧ s ≠ "true" ∧ s ≠ "false" ∧
      Text.int64? s.toList = none))
  | .unsupported _ => inferInstanceAs (Decidable False)

theorem CorrectedState.mem_entries_of_value {x : CorrectedState} {n : String} {v : FieldValue}
    (h : x.value n = some v) : (n, some v) ∈ x.fields.entries :=
  Table.get?_eq_some_iff.mp (Option.join_eq_some_iff.mp h)

namespace SeriesCsv

variable {x : CorrectedState} {fields : List String} {n : Nat}

theorem cell_of_int64? {text : String} {i : Int64}
    (h : Text.int64? (Text.trimChars text.toList) = some i) : cell text = some (.int i) := by
  have hother (s : List Char) (hs : Text.int64? s = none) : Text.trimChars text.toList ≠ s := by
    intro heq
    rw [heq, hs] at h
    cases h
  simp [cell, h, hother _ (show Text.int64? [] = none from rfl),
    hother _ (show Text.int64? (Json.literal true) = none from rfl),
    hother _ (show Text.int64? (Json.literal false) = none from rfl)]

theorem cell_display {v : FieldValue} (h : v.SelfEvident) : cell v.display = some v := by
  cases v with
  | flag b => cases b <;> rfl
  | int i =>
      have hblank : ∀ c ∈ Text.decimal i.toInt, Text.isBlank c = false :=
        fun c hc => Decimal.isBlank_of_isFigure (Decimal.isFigure_decimal _ c hc)
      apply cell_of_int64?
      rw [FieldValue.display, Text.showInt, String.toList_ofList,
        Text.trimChars_of_no_blank hblank, Text.int64?_decimal]
  | text s =>
      obtain ⟨hne, htrim, htrue, hfalse, hint⟩ := h
      have hchars : Text.trimChars s.toList = s.toList := by
        rw [← String.toList_ofList (l := Text.trimChars s.toList), ← Text.trim, htrim]
      have htrue' : s.toList ≠ Json.literal true := fun h => htrue (String.toList_injective h)
      have hfalse' : s.toList ≠ Json.literal false := fun h => hfalse (String.toList_injective h)
      have hne' : s.toList ≠ [] := fun h => hne (String.toList_injective h)
      simp [cell, FieldValue.display, hchars, hint, htrue', hfalse', hne']
  | unsupported s => exact h.elim

theorem cell_reading {r : Reading} (h : ∀ v, r = some v → v.SelfEvident) :
    cell (r.elim "" FieldValue.display) = r := by
  cases r with
  | none => rfl
  | some v => exact cell_display (h v rfl)

theorem cells?_utf8 (cells : List String) : cells? (cells.map Text.utf8) = some cells :=
  mapM_map_of_inverse fun s _ => Text.ofUtf8?_utf8 s

structure Tabular (fields : List String) (x : CorrectedState) : Prop where
  fields : x.fields.keys = fields
  frame : x.frame < UInt64.size
  timestamp : Decimal.parse? (Decimal.showFloat x.timestamp).toList = some x.timestamp
  evident : ∀ n v, x.value n = some v → v.SelfEvident

theorem fields_of_cells (h : Tabular fields x) :
    Table.ofList (fields.zip
      ((fields.map fun n => (x.value n).elim "" FieldValue.display).map cell)) = x.fields := by
  have hcells : (fields.map fun n => (x.value n).elim "" FieldValue.display).map cell =
      fields.map x.value := by
    rw [List.map_map]
    exact List.map_congr_left fun n _ => cell_reading (h.evident n)
  have hentries : fields.zip (fields.map x.value) = x.fields.entries := by
    rw [← h.fields, Table.keys, List.map_map, List.zip_map']
    refine (List.map_congr_left fun e he => ?_).trans (List.map_id _)
    simp [CorrectedState.value, Table.get?_eq_some_iff.mpr he]
  rw [hcells, hentries, Table.ofList_entries]

theorem rawFrame_row (h : Tabular fields x) :
    rawFrame fields n ((Timeline.row fields x).map Text.utf8) = .ok x.toRaw := by
  have htime := h.timestamp
  have hframe : Text.trimChars (Text.showNat x.frame).toList = Nat.toDigits 10 x.frame := by
    rw [Text.showNat, String.toList_ofList]
    exact Text.trimChars_of_no_blank fun c hc => Text.isBlank_of_isDigit (Text.isDigit_toDigits c hc)
  have hfields := fields_of_cells h
  rw [rawFrame, cells?_utf8]
  simp only [Timeline.row, List.length_map, if_true, hframe, Text.word?_toDigits h.frame,
    Decimal.trimChars_showFloat, htime, hfields]
  rfl

theorem rawFrames_rows {states : List CorrectedState} (h : ∀ x ∈ states, Tabular fields x) :
    rawFrames fields n ((states.map (Timeline.row fields)).map (·.map Text.utf8)) =
      .ok (states.map (·.toRaw)) := by
  induction states generalizing n with
  | nil => rfl
  | cons x states ih =>
      simp only [List.map_cons, rawFrames, rawFrame_row (h x (List.mem_cons_self ..)),
        ih fun y hy => h y (List.mem_cons_of_mem _ hy), bind, Except.bind, pure, Except.pure]

end SeriesCsv

namespace Timeline

variable {t : Timeline}

theorem record_header (fields : List String) :
    ∃ rest, Csv.record ((header fields).map Text.utf8) = 0x66 :: rest := by
  have hframe : Csv.cell (Text.utf8 "frame") = [0x66, 0x72, 0x61, 0x6d, 0x65] := by
    decide +kernel
  rw [Csv.record]
  · simp only [header, List.map_cons, List.intercalate_cons_cons, hframe, List.cons_append]
    exact ⟨_, rfl⟩
  · simp [header]

theorem parse_csvBytes (t : Timeline) : Csv.parse t.csvBytes = t.rows.map (·.map Text.utf8) := by
  have hstart : ∃ rest, t.csvBytes = 0x66 :: rest := by
    obtain ⟨rest, hrest⟩ := record_header t.fieldNames
    rw [csvBytes, rows, List.map_cons, Csv.render, List.flatMap_cons, hrest]
    exact ⟨_, rfl⟩
  obtain ⟨rest, hrest⟩ := hstart
  refine Csv.parse_render ?_ ?_
  · intro r hr
    obtain ⟨cells, hcells, rfl⟩ := List.mem_map.mp hr
    rcases List.mem_cons.mp hcells with rfl | hcells
    · simp [header]
    · obtain ⟨x, -, rfl⟩ := List.mem_map.mp hcells
      simp [row]
  · rw [← csvBytes, hrest]
    rfl

end Timeline

theorem SeriesCsv.load_csvBytes {t : Timeline}
    (hfields : ∀ x ∈ t.toList, x.fields.keys = t.fieldNames)
    (hframes : ∀ x ∈ t.toList, x.frame < UInt64.size)
    (htimes : ∀ x ∈ t.toList,
      Decimal.parse? (Decimal.showFloat x.timestamp).toList = some x.timestamp)
    (hvalues : ∀ x ∈ t.toList, ∀ n v, x.value n = some v → v.SelfEvident) :
    load t.csvBytes = .ok t.toRawFrames := by
  have htabular : ∀ x ∈ t.toList, Tabular t.fieldNames x :=
    fun x hx => ⟨hfields x hx, hframes x hx, htimes x hx, hvalues x hx⟩
  have hhead : cells? ((Timeline.header t.fieldNames).map Text.utf8) =
      some (Timeline.header t.fieldNames) := cells?_utf8 _
  rw [load, Timeline.parse_csvBytes, Timeline.rows, List.map_cons]
  simp only [hhead, Option.elim_some, bind, Except.bind]
  exact rawFrames_rows htabular

theorem SeriesCsv.load_csvBytes_quoted : ∃ t, t = Timeline.empty.appendAll
      [⟨3, 0.1, .ofList [("", none), ("a,b", some (.text "x\r\ny")), ("n", some (.int (-5)))], .empty⟩,
        ⟨7, 0.25, .ofList [("", some (.flag true)), ("a,b", some (.text "say \"hi\", +")),
          ("n", none)], .empty⟩] ∧
    t.fieldNames = ["", "a,b", "n"] ∧
    (∀ x ∈ t.toList, x.fields.keys = t.fieldNames) ∧ (∀ x ∈ t.toList, x.frame < UInt64.size) ∧
    (∀ x ∈ t.toList, Decimal.parse? (Decimal.showFloat x.timestamp).toList = some x.timestamp) ∧
    (∀ x ∈ t.toList, ∀ n v, x.value n = some v → v.SelfEvident) ∧
    load t.csvBytes = .ok t.toRawFrames ∧ t.toRawFrames.map (·.reading "a,b") =
      [some (.text "x\r\ny"), some (.text "say \"hi\", +")] := by
  let t := Timeline.empty.appendAll
    [⟨3, 0.1, .ofList [("", none), ("a,b", some (.text "x\r\ny")), ("n", some (.int (-5)))], .empty⟩,
      ⟨7, 0.25, .ofList [("", some (.flag true)), ("a,b", some (.text "say \"hi\", +")),
        ("n", none)], .empty⟩]
  have hfields : ∀ x ∈ t.toList, x.fields.keys = t.fieldNames := by decide
  have hframes : ∀ x ∈ t.toList, x.frame < UInt64.size := by decide
  have htimes : ∀ x ∈ t.toList,
      Decimal.parse? (Decimal.showFloat x.timestamp).toList = some x.timestamp := by
    decide +kernel
  have hvalues : ∀ x ∈ t.toList, ∀ n v, x.value n = some v → v.SelfEvident := by
    have hentries : ∀ x ∈ t.toList, ∀ e ∈ x.fields.entries, ∀ v ∈ e.2, v.SelfEvident := by decide
    intro x hx n v hv
    exact hentries x hx _ (CorrectedState.mem_entries_of_value hv) v rfl
  exact ⟨t, rfl, by decide, hfields, hframes, htimes, hvalues,
    SeriesCsv.load_csvBytes hfields hframes htimes hvalues, by decide⟩

end GameTimeline
