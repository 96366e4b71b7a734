import GameTimeline.Proofs.Field.Foreign
import GameTimeline.Proofs.Json.Document
import GameTimeline.Proofs.Timeline.Alike
import GameTimeline.Proofs.Timeline.Encoding
import GameTimeline.Proofs.Timeline.Retiming

namespace GameTimeline

namespace Json

variable {α : Type}

theorem reread_table {f : α → Json} {t : Table α} :
    (table f t).reread = table (fun a => (f a).reread) t := by
  rw [table, reread, rereadMembers_eq, List.map_map]
  rfl

theorem legible_table {f : α → Json} {t : Table α} {room : Nat}
    (h : ∀ a ∈ t.values, (f a).Legible room) : (table f t).Legible (room + 1) := by
  refine ⟨Nat.succ_ne_zero room, legibleMembers_iff.mpr fun m hm => ?_⟩
  obtain ⟨e, he, rfl⟩ := List.mem_map.mp hm
  exact h e.2 (List.mem_map_of_mem he)

theorem legible_float {x : Float} (room : Nat) (h : (float x).Legible 0) :
    (float x).Legible room := by
  rw [float] at h ⊢
  split at h <;> rename_i hx
  · rwa [if_pos hx]
  · rwa [if_neg hx]

theorem legible_single {c : Float32} {room : Nat}
    (h : (Number.float (Decimal.widen c)).reread?.isSome) : (single c).Legible room := by
  rw [single, float]
  split
  · exact h
  · trivial

end Json

theorem Number.reread?_int64 (i : Int64) : (int i.toInt).reread? = some (.int i.toInt) := by
  have hlow : -0x8000000000000000 ≤ i.toInt := i.le_toInt
  have hhigh : i.toInt < 0x8000000000000000 := i.toInt_lt
  exact reread?_int hlow (by simp [Text.maxWord]; omega)

namespace Reading

theorem legible_toJson (r : Reading) (room : Nat) : r.toJson.Legible room := by
  cases r with
  | none => trivial
  | some v =>
      cases v with
      | int i => exact Option.isSome_of_eq_some (Number.reread?_int64 i)
      | flag b => trivial
      | text s => trivial
      | unsupported s => trivial

theorem reread_toJson (r : Reading) : r.toJson.reread = r.toJson := by
  cases r with
  | none => rfl
  | some v =>
      cases v with
      | int i =>
          rw [toJson, Json.option, FieldValue.toJson, Json.int, Json.reread, Number.reread?_int64]
          rfl
      | flag b => rfl
      | text s => rfl
      | unsupported s => rfl

theorem isSome_ofJson_toJson (r : Reading) : (ofJson r.toJson).isSome = r.isSome := by
  cases r with
  | none => rfl
  | some v => cases v <;> rfl

end Reading

namespace RawFrame

def rereadTime (t : Float) : Float := ((Number.float t).reread?.getD (.float t)).toFloat

def rereadConfidence (c : Float32) : Float32 := readConfidence (Json.single c).reread

def reread (f : RawFrame) : RawFrame :=
  ⟨f.frame, rereadTime f.timestamp, f.readings.map fun _ r => Reading.ofJson r.toJson,
    f.confidence.map fun _ c => rereadConfidence c⟩

structure Legible (f : RawFrame) : Prop where
  frame : f.frame < UInt64.size
  finite : f.timestamp.isFinite = true
  timestamp : (Number.float f.timestamp).reread?.isSome
  confidence : ∀ c ∈ f.confidence.values, (Json.single c).Legible 0

variable {f : RawFrame}

theorem frame_lt {j : Json} (h : ofJson? j = some f) : f.frame < UInt64.size := by
  simp only [ofJson?, Option.bind_eq_bind, Option.bind_eq_some_iff] at h
  obtain ⟨ps, -, n, ⟨i, -, hn⟩, t, -, rs, -, cs, -, hf⟩ := h
  cases hf
  exact of_decide_eq_true (Option.filter_eq_some_iff.mp hn).2

theorem Legible.reread?_frame (h : f.Legible) :
    (Number.int f.frame).reread? = some (.int f.frame) := by
  have hword : (f.frame : Int) ≤ Text.maxWord := Int.ofNat_le.mpr (Nat.le_pred_of_lt h.frame)
  exact Number.reread?_int (by omega) hword

theorem ofJson?_members {frame timestamp readings confidence : Json} {left : Bool} {n : Nat}
    {t : Float} {rs : Table Reading} {cs : Table Float32} (hframe : frame.word? = some n)
    (htimestamp : timestamp.float? = some t)
    (hreadings : Json.tableOf? (some ∘ Reading.ofJson) readings = some rs)
    (hconfidence : if left then cs = .empty
      else Json.tableOf? (some ∘ readConfidence) confidence = some cs) :
    ofJson? (.obj ([("frame", frame), ("timestamp", timestamp), ("readings", readings)] ++
      (if left then [] else [("confidence", confidence)]))) = some ⟨n, t, rs, cs⟩ := by
  cases left with
  | true =>
      rw [if_pos rfl] at hconfidence
      simp [ofJson?, parts, Json.parts?, Table.findEntry, Json.part, Json.defaulted?, hframe,
        htimestamp, hreadings, hconfidence]
  | false =>
      rw [if_neg Bool.false_ne_true] at hconfidence
      simp [ofJson?, parts, Json.parts?, Table.findEntry, Json.part, Json.defaulted?, hframe,
        htimestamp, hreadings, hconfidence]

theorem ofJson?_toJson (hframe : f.frame < UInt64.size) (hfinite : f.timestamp.isFinite = true) :
    ofJson? f.toJson = some ⟨f.frame, f.timestamp,
      f.readings.map fun _ r => Reading.ofJson r.toJson,
      f.confidence.map fun _ c => readConfidence (Json.single c)⟩ := by
  refine ofJson?_members (Json.word?_nat hframe) (Json.float?_float hfinite)
    (Json.tableOf?_map fun _ _ => rfl) ?_
  split
  · rename_i hleft
    exact Table.map_of_isEmpty hleft
  · exact Json.tableOf?_map fun _ _ => rfl

theorem ofJson?_reread (h : f.Legible) : ofJson? f.toJson.reread = some f.reread := by
  have hdocument : f.toJson.reread = .obj ([("frame", (Json.nat f.frame).reread),
      ("timestamp", (Json.float f.timestamp).reread),
      ("readings", (Json.table Reading.toJson f.readings).reread)] ++
      (if f.confidence.isEmpty then []
        else [("confidence", (Json.table Json.single f.confidence).reread)])) := by
    rw [toJson, Json.reread, Json.rereadMembers_eq]
    split <;> rfl
  have hframe : (Json.nat f.frame).reread.word? = some f.frame := by
    rw [Json.nat, Json.reread, h.reread?_frame]
    exact Json.word?_nat h.frame
  have htimestamp : (Json.float f.timestamp).reread.float? = some f.reread.timestamp := by
    rw [Json.float, if_pos h.finite, Json.reread]
    rfl
  rw [hdocument]
  refine ofJson?_members hframe htimestamp ?_ ?_
  · rw [Json.reread_table]
    exact Json.tableOf?_map fun e _ => by rw [Reading.reread_toJson]; rfl
  · split
    · rename_i hleft
      exact Table.map_of_isEmpty hleft
    · rw [Json.reread_table]
      exact Json.tableOf?_map fun _ _ => rfl

theorem legible_toJson (h : f.Legible) (room : Nat) : f.toJson.Legible (room + 2) := by
  refine ⟨Nat.succ_ne_zero _, Json.legibleMembers_iff.mpr fun m hm => ?_⟩
  rcases List.mem_append.mp hm with hm | hm
  · simp only [List.mem_cons, List.not_mem_nil, or_false] at hm
    rcases hm with rfl | rfl | rfl
    · exact Option.isSome_of_eq_some h.reread?_frame
    · rw [Json.float, if_pos h.finite]
      exact h.timestamp
    · exact Json.legible_table fun r _ => r.legible_toJson room
  · split at hm
    · cases hm
    · rw [List.mem_singleton.mp hm]
      exact Json.legible_table fun c hc => Json.legible_float room (h.confidence c hc)

theorem mem_parts : ∀ m ∈ [("frame", Json.nat f.frame), ("timestamp", .float f.timestamp),
    ("readings", .table Reading.toJson f.readings)] ++
      (if f.confidence.isEmpty then [] else [("confidence", .table Json.single f.confidence)]),
    m.1 ∈ parts := by
  split <;> simp [parts]

theorem readAll?_writeAll {fs : List RawFrame} (h : ∀ f ∈ fs, f.Legible) :
    readAll? (writeAll fs) = some (fs.map reread) := by
  -- a frame has two levels of its own, out of those that are left inside the list
  have hlegible : (Json.arr (fs.map toJson)).Legible Json.Spelled.depthLimit := by
    refine ⟨by decide, Json.legibleItems_iff.mpr fun j hj => ?_⟩
    obtain ⟨f, hf, rfl⟩ := List.mem_map.mp hj
    exact legible_toJson (h f hf) 124
  have htext : Json.Spelled.ofText? (writeAll fs) = some (Json.arr (fs.map toJson)).spell := by
    have hnewline : writeAll fs =
        String.ofList ((Json.arr (fs.map toJson)).prettyChars 0 ++ ['\n']) := by
      rw [writeAll, Json.pretty, String.ofList_append]
    rw [hnewline]
    exact Json.ofText?_pretty hlegible.spellable (List.forall_mem_singleton.mpr rfl)
  have hrecords : (Json.arr (fs.map toJson)).spell.records? parts =
      some (fs.map fun f => f.toJson.reread) := by
    rw [Json.spell, Json.spellItems_eq, Json.Spelled.records?, Json.Spelled.recordsBy?, List.map_map, List.mapM_map]
    exact mapM_eq_pure fun f hf => Json.record?_spell mem_parts (legible_toJson (h f hf) 124)
  have hframes : (fs.map fun f => f.toJson.reread).mapM ofJson? = some (fs.map reread) := by
    rw [List.mapM_map]
    exact mapM_eq_pure fun f hf => ofJson?_reread (h f hf)
  rw [readAll?, htext, Option.bind_eq_bind, Option.bind_some, hrecords, Option.bind_eq_bind,
    Option.bind_some, hframes]

theorem reading_map (g : Reading → Reading) (hg : g none = none) (n : String) :
    ((f.readings.map fun _ r => g r).get? n).join = g (f.reading n) := by
  rw [Table.get?_map, reading]
  cases f.readings.get? n with
  | none => exact hg.symm
  | some r => rfl

structure Kept (f f' : RawFrame) : Prop where
  frame : f'.frame = f.frame
  names : f'.readings.keys = f.readings.keys
  supported : ∀ n, (∀ spelling, f.reading n ≠ some (.unsupported spelling)) →
    f'.reading n = f.reading n
  unsupported : ∀ n spelling, f.reading n = some (.unsupported spelling) →
    f'.reading n = some (.text spelling)

theorem kept_of_readings {f' : RawFrame} (hframe : f'.frame = f.frame)
    (hreadings : f'.readings = f.readings.map fun _ r => Reading.ofJson r.toJson) : f.Kept f' := by
  have hreading (n : String) : f'.reading n = Reading.ofJson (f.reading n).toJson := by
    rw [reading, hreadings]
    exact reading_map (fun r => Reading.ofJson r.toJson) rfl n
  refine ⟨hframe, ?_, fun n h => ?_, fun n spelling h => ?_⟩
  · rw [hreadings, Table.keys_map]
  · rw [hreading, Reading.ofJson_toJson h]
  · rw [hreading, h]
    rfl

theorem kept_reread (f : RawFrame) : f.Kept f.reread := kept_of_readings rfl rfl

structure Robust (s : ModelSet) (f : RawFrame) : Prop where
  unsupported : ∀ n m spelling, s.get? n = some m → f.reading n = some (.unsupported spelling) →
    m.normalize (.text spelling) = none
  confidence : ∀ n m c, s.get? n = some m → f.confidenceOf n = some c →
    m.isClear (some (rereadConfidence c)) = m.isClear (some c)

theorem Robust.alike {s : ModelSet} (h : f.Robust s) : (f.retime rereadTime).Alike s f.reread where
  frame := rfl
  timestamp := rfl
  shown := by
    have hreadings : f.reread.readings = f.readings.map fun _ r => Reading.ofJson r.toJson := rfl
    rw [hreadings, Table.map_map]
    exact Table.map_congr fun _ r _ => r.isSome_ofJson_toJson
  reading n m hm := by
    -- what is not supported is refused as it was, and as the text that it became
    by_cases hunsupported : ∃ spelling, f.reading n = some (.unsupported spelling)
    · obtain ⟨spelling, hspelling⟩ := hunsupported
      have hrefused : m.normalize (.unsupported spelling) = none := by
        rw [FieldModel.normalize]
        cases m.domain <;> rfl
      exact .inr ⟨_, _, hspelling, f.kept_reread.unsupported n spelling hspelling, hrefused,
        h.unsupported n m spelling hm hspelling⟩
    · exact .inl (f.kept_reread.supported n fun spelling hspelling =>
        hunsupported ⟨spelling, hspelling⟩)
  confidence n m hm := by
    have hread : f.reread.confidenceOf n = (f.confidenceOf n).map rereadConfidence :=
      Table.get?_map _ f.confidence n
    have hwritten : (f.retime rereadTime).confidenceOf n = f.confidenceOf n := rfl
    rw [hread, hwritten]
    cases hc : f.confidenceOf n with
    | none => rfl
    | some c => exact h.confidence n m c hm hc

end RawFrame

theorem rereading_keeps_streams :
    (∀ j f, RawFrame.ofJson? j = some f → f.timestamp.isFinite = true →
      ∃ f', RawFrame.ofJson? f.toJson = some f' ∧ f.Kept f' ∧ f'.timestamp = f.timestamp) ∧
    (∀ j spelling, FieldValue.ofJson j = .unsupported spelling → ∀ m : FieldModel,
      m.domain ≠ .text → (∀ values, m.domain = .labels values → Text.trim spelling ∉ values) →
        m.normalize (.text spelling) = none) ∧
    ∀ fs : List RawFrame, (∀ f ∈ fs, f.Legible) →
      ∃ fs', RawFrame.readAll? (RawFrame.writeAll fs) = some fs' ∧
        List.Forall₂ RawFrame.Kept fs fs' ∧
        ∀ s : ModelSet, (∀ f ∈ fs, f.Robust s) →
          (assemble s fs' = (assemble s fs).map fun x =>
            (x.1.retime RawFrame.rereadTime, x.2)) ∧
          ((∀ f ∈ fs, RawFrame.rereadTime f.timestamp = f.timestamp) →
            assemble s fs' = assemble s fs) := by
  refine ⟨fun j f hj hfinite => ?_, fun j spelling h m htext hlabels =>
    (Foreign.of_unsupported h).normalize_eq_none htext hlabels, fun fs h => ?_⟩
  · have hframe : f.frame < UInt64.size := RawFrame.frame_lt hj
    exact ⟨_, RawFrame.ofJson?_toJson hframe hfinite, RawFrame.kept_of_readings rfl rfl, rfl⟩
  · refine ⟨fs.map RawFrame.reread, RawFrame.readAll?_writeAll h, ?_, fun s hs => ?_⟩
    · exact List.forall₂_map_right_iff.mpr (List.forall₂_same.mpr fun f _ => f.kept_reread)
    · have halike : List.Forall₂ (RawFrame.Alike s) (fs.map (·.retime RawFrame.rereadTime))
          (fs.map RawFrame.reread) :=
        List.forall₂_map_left_iff.mpr (List.forall₂_map_right_iff.mpr
          (List.forall₂_same.mpr fun f hf => (hs f hf).alike))
      refine ⟨(assemble_alike halike).trans (assemble_retime s _ fs), fun htimes => ?_⟩
      have hsame : fs.map (·.retime RawFrame.rereadTime) = fs := by
        refine (List.map_congr_left fun f hf => ?_).trans (List.map_id fs)
        rw [RawFrame.retime, htimes f hf]
        rfl
      rw [assemble_alike halike, hsame]

theorem rereading_keeps_streams_clock : ∃ (s : ModelSet) (fs fs' : List RawFrame),
    fs.map (·.reading "clock") = [some (.unsupported "510.5"), some (.text "5:10"), none] ∧
    RawFrame.readAll? (RawFrame.writeAll fs) = some fs' ∧ List.Forall₂ RawFrame.Kept fs fs' ∧
    assemble s fs' = assemble s fs ∧
    (assemble s fs).toOption.map (·.1.series "clock") =
      some [none, some (.int 310), some (.int 310)] := by
  have hlegible : ∀ f ∈ [(RawFrame.new 30 0.1).withReading "clock" (some (.unsupported "510.5")),
      ((RawFrame.new 33 0.25).withReading "clock" (some (.text "5:10"))).withConfidence "clock" 0.7,
      (RawFrame.new 36 0.4).withReading "clock" none], f.Legible := by
    simp only [List.forall_mem_cons]
    refine ⟨⟨by decide, by decide +kernel, by decide +kernel, List.forall_mem_nil _⟩,
      ⟨by decide, by decide +kernel, by decide +kernel, fun c hc => ?_⟩,
      ⟨by decide, by decide +kernel, by decide +kernel, List.forall_mem_nil _⟩,
      List.forall_mem_nil _⟩
    rw [List.mem_singleton.mp hc]
    exact Json.legible_single (by decide +kernel)
  obtain ⟨-, hrefused, hstreams⟩ := rereading_keeps_streams
  obtain ⟨fs', hread, hkept, hassemble⟩ := hstreams _ hlegible
  refine ⟨.single { FieldModel.new "clock" .timer .free with minConfidence := some 0.5 } rfl, _, fs',
    ?_, hread, hkept, (hassemble _ fun f hf => ⟨?_, ?_⟩).2 ?_, ?_⟩
  · decide +kernel
  · intro n m spelling hm hspelling
    cases List.mem_singleton.mp (Table.get?_eq_some_iff.mp hm)
    simp only [List.mem_cons, List.not_mem_nil, or_false] at hf
    rcases hf with rfl | rfl | rfl <;> cases hspelling
    exact hrefused (.float 510.5) "510.5" (by decide +kernel) _ nofun nofun
  · intro n m c hm hc
    cases List.mem_singleton.mp (Table.get?_eq_some_iff.mp hm)
    simp only [List.mem_cons, List.not_mem_nil, or_false] at hf
    rcases hf with rfl | rfl | rfl <;> cases hc
    decide +kernel
  · decide +kernel
  · decide +kernel

theorem rereading_moves_streams :
    (∃ f f' : RawFrame,
      RawFrame.ofJson? (.obj [("frame", .nat 0), ("timestamp", .float 0),
        ("readings", .obj [("tag", .float 510.5)])]) = some f ∧
      RawFrame.ofJson? f.toJson = some f' ∧ f'.reading "tag" ≠ f.reading "tag" ∧
      RawFrame.readAll? (RawFrame.writeAll [f]) = some [f'] ∧
      (assemble (.single (.new "tag" .text .free) rfl) [f]).toOption.map (·.1.series "tag") =
        some [none] ∧
      (assemble (.single (.new "tag" .text .free) rfl) [f']).toOption.map (·.1.series "tag") =
        some [some (.text "510.5")]) ∧
    ∃ f f' : RawFrame,
      RawFrame.ofJson? (.obj [("frame", .nat 0), ("timestamp", .float 0.23333333333333334),
        ("readings", .obj [("gold", .nat 5)])]) = some f ∧
      RawFrame.readAll? (RawFrame.writeAll [f]) = some [f'] ∧
      (assemble (.single (.counter "gold") rfl) [f']).toOption.map (·.1.toList.map (·.timestamp)) ≠
        (assemble (.single (.counter "gold") rfl) [f]).toOption.map
          (·.1.toList.map (·.timestamp)) := by
  refine ⟨⟨(RawFrame.new 0 0).withReading "tag" (some (.unsupported "510.5")),
    (RawFrame.new 0 0).withReading "tag" (some (.text "510.5")), ?_⟩,
    (RawFrame.new 0 0.23333333333333334).withReading "gold" (some (.int 5)),
    (RawFrame.new 0 0.23333333333333336).withReading "gold" (some (.int 5)), ?_⟩
  · decide +kernel
  · decide +kernel

end GameTimeline
