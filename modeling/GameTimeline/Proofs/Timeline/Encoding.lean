import GameTimeline.Proofs.Json.Extensional
import GameTimeline.Proofs.Timeline.Membership
import GameTimeline.Proofs.Timeline.Refusal

namespace GameTimeline

namespace Json

variable {α β : Type}

theorem tableOf?_map {f : α → Json} {read : Json → Option β} {g : α → β} {t : Table α}
    (h : ∀ e ∈ t.entries, read (f e.2) = some (g e.2)) :
    tableOf? read (table f t) = some (t.map fun _ a => g a) := by
  have hentries : (t.entries.map fun e => (e.1, f e.2)).mapM
      (fun m => (read m.2).map fun a => (m.1, a)) = some (t.map fun _ a => g a).entries := by
    rw [List.mapM_map]
    exact mapM_eq_pure fun e he => by simp [h e he]
  rw [table, tableOf?, hentries, Option.map_some, Table.ofList_entries]

theorem tableOf?_table {f : α → Json} {read : Json → Option α} {t : Table α}
    (h : ∀ e ∈ t.entries, read (f e.2) = some e.2) : tableOf? read (table f t) = some t := by
  have hsame : (t.map fun _ a => a) = t := Table.ext_entries (by simp [Table.map])
  rw [tableOf?_map (g := fun a => a) h, hsame]

theorem sortedMembers_of_ordered {done l : List (String × Json)}
    (h : (done ++ l).Pairwise (fun a b => a.1 < b.1)) :
    sortedMembers done l = done ++ l.map fun e => (e.1, e.2.sorted) := by
  induction l generalizing done with
  | nil => simp [sortedMembers]
  | cons e l ih =>
      obtain ⟨k, x⟩ := e
      obtain ⟨hdone, hl, hacross⟩ := List.pairwise_append.mp h
      obtain ⟨hk, hl⟩ := List.pairwise_cons.mp hl
      have hinsert : Table.insertEntry k x.sorted done = done ++ [(k, x.sorted)] :=
        Table.insertEntry_of_after fun y hy => hacross y hy (k, x) (List.mem_cons_self ..)
      have hnext : (done ++ [(k, x.sorted)] ++ l).Pairwise (fun a b => a.1 < b.1) := by
        rw [List.append_assoc]
        refine List.pairwise_append.mpr
          ⟨hdone, List.pairwise_cons.mpr ⟨hk, hl⟩, fun y hy z hz => ?_⟩
        rcases List.mem_cons.mp hz with rfl | hz
        · exact hacross y hy (k, x) (List.mem_cons_self ..)
        · exact hacross y hy z (List.mem_cons_of_mem _ hz)
      rw [sortedMembers, hinsert, ih hnext, List.append_assoc]
      rfl

theorem sorted_table {f : α → Json} (hf : ∀ a, (f a).sorted = f a) (t : Table α) :
    (table f t).sorted = table f t := by
  have hordered : (t.entries.map fun e => (e.1, f e.2)).Pairwise (fun a b => a.1 < b.1) :=
    List.pairwise_map.mpr t.ordered
  rw [table, sorted, sortedMembers_of_ordered (by simpa using hordered)]
  simp [hf]

theorem sorted_float (x : Float) : (float x).sorted = float x := by
  rw [float]
  split <;> simp [sorted]

theorem word?_nat {n : Nat} (h : n < UInt64.size) : word? (nat n) = some n := by
  simp [word?, nat, nat?, int?, h]

theorem float?_float {x : Float} (h : x.isFinite = true) : float? (float x) = some x := by
  simp [float, h, float?, Number.toFloat]

end Json

theorem FieldValue.ofJson_toJson {v : FieldValue} (h : ∀ spelling, v ≠ .unsupported spelling) :
    ofJson v.toJson = v := by
  cases v with
  | flag b => rfl
  | int n =>
      simp only [ofJson, toJson, Json.int, Json.int64?, Json.int?, Option.bind_some,
        Text.toInt64?_toInt]
  | text s => rfl
  | unsupported spelling => exact absurd rfl (h spelling)

theorem Reading.ofJson_toJson {r : Reading} (h : ∀ spelling, r ≠ some (.unsupported spelling)) :
    ofJson r.toJson = r := by
  cases r with
  | none => rfl
  | some v =>
      have hv := FieldValue.ofJson_toJson fun spelling hv => h spelling (congrArg some hv)
      cases v <;> exact congrArg some hv

theorem Reading.sorted_toJson (r : Reading) : r.toJson.sorted = r.toJson := by
  cases r with
  | none => simp [toJson, Json.option, Json.sorted]
  | some v => cases v <;> simp [toJson, Json.option, FieldValue.toJson, Json.int, Json.sorted]

namespace CorrectedState

structure Encodable (x : CorrectedState) : Prop where
  frame : x.frame < UInt64.size
  timestamp : x.timestamp.isFinite = true
  supported : ∀ n spelling, x.value n ≠ some (.unsupported spelling)

theorem sorted_toJson (x : CorrectedState) : x.toJson.sorted =
    .obj [("fields", .table Reading.toJson x.fields), ("frame", .nat x.frame),
      ("provenance", .table (fun p => .str p.name) x.provenance),
      ("timestamp", .float x.timestamp)] := by
  have hfields : (Json.table Reading.toJson x.fields).sorted = .table Reading.toJson x.fields :=
    Json.sorted_table Reading.sorted_toJson x.fields
  have hprovenance : (Json.table (fun p => .str p.name) x.provenance).sorted =
      .table (fun p : Provenance => .str p.name) x.provenance :=
    Json.sorted_table (fun p => by simp [Json.sorted]) x.provenance
  have hframe : (Json.nat x.frame).sorted = .nat x.frame := by
    simp [Json.nat, Json.sorted]
  rw [toJson, Json.sorted]
  simp only [Json.sortedMembers, hfields, hprovenance, hframe, Json.sorted_float,
    Table.insertEntry, String.reduceLT, if_true, if_false]

theorem parts?_toJson (x : CorrectedState) : x.toJson.parts? parts =
    some [some (.nat x.frame), some (.float x.timestamp),
      some (.table Reading.toJson x.fields),
      some (.table (fun p => .str p.name) x.provenance)] := by
  simp [toJson, parts, Json.parts?, Table.findEntry]

theorem ofJson?_sorted (x : CorrectedState) : ofJson? x.toJson.sorted = ofJson? x.toJson := by
  have hparts : x.toJson.sorted.parts? parts = x.toJson.parts? parts := by
    rw [parts?_toJson, sorted_toJson]
    simp [parts, Json.parts?, Table.findEntry]
  rw [ofJson?, ofJson?, hparts]

theorem ofJson?_toJson {x : CorrectedState} (h : x.Encodable) : ofJson? x.toJson = some x := by
  have hfields : Json.tableOf? (some ∘ Reading.ofJson) (.table Reading.toJson x.fields) =
      some x.fields := by
    refine Json.tableOf?_table fun e he => ?_
    have hvalue : x.value e.1 = e.2 := by
      rw [value, Table.get?_eq_some_iff.mpr he]
      rfl
    exact congrArg some (Reading.ofJson_toJson (hvalue ▸ h.supported e.1))
  have hprovenance : Json.tableOf? (Json.choice? Provenance.ofName?)
      (.table (fun p => .str p.name) x.provenance) = some x.provenance :=
    Json.tableOf?_table fun e _ => e.2.ofName?_name
  rw [ofJson?, parts?_toJson]
  simp [Json.part, Json.word?_nat h.frame, Json.float?_float h.timestamp, hfields, hprovenance,
    Json.defaulted?]

end CorrectedState

namespace Timeline

variable {t : Timeline}

theorem sorted_toJson (t : Timeline) : t.toJson.sorted = .arr (t.toList.map (·.toJson.sorted)) := by
  rw [toJson, Json.sorted, Json.sortedItems_eq, List.map_map]
  rfl

theorem ofJson?_toJson (h : ∀ x ∈ t.toList, x.Encodable) :
    ofJson? t.toJson = some t ∧ ofJson? t.toJson.sorted = some t := by
  have hwritten : (t.toList.map (·.toJson)).mapM CorrectedState.ofJson? = some t.toList :=
    mapM_map_of_inverse fun x hx => CorrectedState.ofJson?_toJson (h x hx)
  have hsorted : (t.toList.map (·.toJson.sorted)).mapM CorrectedState.ofJson? = some t.toList :=
    mapM_map_of_inverse fun x hx =>
      x.ofJson?_sorted.trans (CorrectedState.ofJson?_toJson (h x hx))
  refine ⟨?_, ?_⟩
  · rw [ofJson?, toJson, Json.listOf?, hwritten]
    rfl
  · rw [ofJson?, sorted_toJson, Json.listOf?, hsorted]
    rfl

end Timeline

theorem assemble_admits {s : ModelSet} {frames : List RawFrame} {t : Timeline}
    {quality : QualityReport} (h : assemble s frames = .ok (t, quality)) :
    (∀ n v, s.Admits n v → ∀ spelling, v ≠ .unsupported spelling) ∧
    (∀ ops n b, ((Reconciler.new s).performAll ops).belief? n = some b →
      (∀ v, b.value = some v → s.Admits n v) ∧ ∀ p ∈ b.pending, s.Admits n p.value) ∧
    (∀ past rest b, TimelineBuilder.Run s past rest b → b.Within s) ∧
    (∀ x ∈ t.toList, x.Within s) ∧
    ((∀ f ∈ frames, f.frame < UInt64.size ∧ f.timestamp.isFinite = true) →
      Timeline.ofJson? t.toJson = some t ∧ Timeline.ofJson? t.toJson.sorted = some t) := by
  obtain ⟨past, rest, b, hrun, -, -, hfinish⟩ := assemble_run h
  have hshown : ∀ x ∈ t.toList, x.Within s := hrun.within.finish hfinish
  refine ⟨fun n v hv => hv.ne_unsupported, fun ops n b hb => ?_, fun _ _ _ hrun => hrun.within,
    hshown, fun hframes => Timeline.ofJson?_toJson fun x hx => ?_⟩
  · exact ((Reconciler.Within.start s).performAll ops).belief hb
  · have hstamp : x.stamp ∈ frames.map fun f => (f.frame, f.timestamp) :=
      (assemble_takes_in h).stamps ▸ List.mem_map_of_mem hx
    obtain ⟨f, hf, hsame⟩ := List.mem_map.mp hstamp
    obtain ⟨hframe, htimestamp⟩ := Prod.mk.inj hsame
    obtain ⟨hword, hfinite⟩ := hframes f hf
    exact ⟨hframe ▸ hword, htimestamp ▸ hfinite,
      fun n spelling hv => (hshown x hx n _ hv).ne_unsupported spelling rfl⟩

theorem assemble_admits_gold : ∃ t quality b,
    assemble (.single (.boundedDelta "gold" 1) rfl)
        [.showing 0 "gold" 5, (RawFrame.new 1 0).withReading "gold" (some (.text " 9 ")),
          (RawFrame.new 2 0).withReading "gold" (some (.unsupported "[9]")),
          .showing 3 "gold" 9] = .ok (t, quality) ∧
      t.series "gold" = [some (.int 5), some (.int 9), some (.int 9), some (.int 9)] ∧
      ((Reconciler.new (.single (.boundedDelta "gold" 1) rfl)).performAll
          [.step (.showing 0 "gold" 5),
            .step ((RawFrame.new 1 0).withReading "gold" (some (.text " 9 ")))]).belief? "gold" =
        some b ∧
      b.pending = [⟨1, 2, .int 9⟩] ∧
      (∀ p ∈ b.pending, ModelSet.Admits (.single (.boundedDelta "gold" 1) rfl) "gold" p.value) ∧
      (∀ x ∈ t.toList, x.Within (.single (.boundedDelta "gold" 1) rfl)) ∧
      Timeline.ofJson? t.toJson = some t := by
  have hrun : ∃ t quality b,
      assemble (.single (.boundedDelta "gold" 1) rfl)
          [.showing 0 "gold" 5, (RawFrame.new 1 0).withReading "gold" (some (.text " 9 ")),
            (RawFrame.new 2 0).withReading "gold" (some (.unsupported "[9]")),
            .showing 3 "gold" 9] = .ok (t, quality) ∧
        t.series "gold" = [some (.int 5), some (.int 9), some (.int 9), some (.int 9)] ∧
        ((Reconciler.new (.single (.boundedDelta "gold" 1) rfl)).performAll
            [.step (.showing 0 "gold" 5),
              .step ((RawFrame.new 1 0).withReading "gold" (some (.text " 9 ")))]).belief? "gold" =
          some b ∧
        b.pending = [⟨1, 2, .int 9⟩] := ⟨_, _, _, rfl, rfl, rfl, rfl⟩
  obtain ⟨t, quality, b, h, hseries, hb, hpending⟩ := hrun
  obtain ⟨-, hbeliefs, -, hshown, hencoded⟩ := assemble_admits h
  exact ⟨t, quality, b, h, hseries, hb, hpending, (hbeliefs _ _ _ hb).2, hshown,
    (hencoded (by decide)).1⟩

end GameTimeline
