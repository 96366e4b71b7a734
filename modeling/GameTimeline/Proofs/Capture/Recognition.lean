import GameTimeline.Capture.Stream
import GameTimeline.Proofs.Capture.Image
import GameTimeline.Proofs.Table

namespace GameTimeline

namespace Layout

variable {l : Layout} {width height : Nat}

theorem validate_eq_ok_iff :
    l.validate width height = .ok () ↔ ∀ e ∈ l.entries, e.2.fits width height = true := by
  rw [validate]
  cases hfind : l.entries.find? fun e => !e.2.fits width height with
  | none => simpa using hfind
  | some e =>
      have hmem := List.mem_of_find?_eq_some hfind
      have hnot := List.find?_some hfind
      simp only [reduceCtorEq, false_iff]
      intro hall
      simp [hall e hmem] at hnot

end Layout

namespace SampledStream

theorem recognizeParallel_eq (l : Layout) (r : Recognizer) (image : Image) :
    recognizeParallel l r image = recognizeSequential l r image := by
  simp only [recognizeParallel, recognizeSequential]
  induction l.entries with
  | nil => rfl
  | cons e es ih =>
      simp only [List.mapM_cons, ← ih]
      cases image.crop e.2 with
      | error x => rfl
      | ok c => cases es.mapM fun e => (image.crop e.2).map fun c => (e.1, c) <;> rfl

def found (l : Layout) (r : Recognizer) (image : Image) : Table Recognition :=
  l.map fun n region => r.recognize n (image.cut region)

theorem recognizeSequential_eq {l : Layout} {r : Recognizer} {image : Image}
    (hfits : ∀ e ∈ l.entries, e.2.fits image.width image.height = true) :
    recognizeSequential l r image = .ok (found l r image).entries := by
  refine mapM_eq_pure fun e he => ?_
  rw [Image.crop_of_fits (hfits e he)]
  rfl

theorem sample_parallel (s : SampledStream) (parallel : Bool) (index : Nat) :
    sample { s with parallel } index = s.sample index := by
  simp only [sample, recognizeParallel_eq, ite_self]

def recordOf (frame : Nat) (timestamp : Float) (t : Table Recognition) : RawFrame :=
  t.entries.foldl addRecognition (RawFrame.new frame timestamp)

theorem foldl_addRecognition_stamp (l : List (String × Recognition)) (f : RawFrame) :
    (l.foldl addRecognition f).frame = f.frame ∧
      (l.foldl addRecognition f).timestamp = f.timestamp := by
  induction l generalizing f with
  | nil => exact ⟨rfl, rfl⟩
  | cons e l ih =>
      obtain ⟨hframe, htimestamp⟩ := ih (addRecognition f e)
      rw [List.foldl_cons, hframe, htimestamp, addRecognition]
      cases e.2.confidence <;> exact ⟨rfl, rfl⟩

theorem foldl_addRecognition_readings (l : List (String × Recognition)) (f : RawFrame) :
    (l.foldl addRecognition f).readings =
      (l.map fun e => (e.1, e.2.value)).foldl (fun t e => t.insert e.1 e.2) f.readings := by
  induction l generalizing f with
  | nil => rfl
  | cons e l ih =>
      rw [List.foldl_cons, ih, List.map_cons, List.foldl_cons, addRecognition]
      cases e.2.confidence <;> rfl

theorem foldl_addRecognition_confidence (l : List (String × Recognition)) (f : RawFrame) :
    (l.foldl addRecognition f).confidence =
      (l.filterMap fun e => e.2.confidence.map (e.1, ·)).foldl (fun t e => t.insert e.1 e.2)
        f.confidence := by
  induction l generalizing f with
  | nil => rfl
  | cons e l ih =>
      rw [List.foldl_cons, ih, List.filterMap_cons, addRecognition]
      cases e.2.confidence <;> rfl

variable {frame : Nat} {timestamp : Float} {t : Table Recognition} {n : String}

theorem recordOf_frame : (recordOf frame timestamp t).frame = frame :=
  (foldl_addRecognition_stamp _ _).1

theorem recordOf_readings :
    (recordOf frame timestamp t).readings = t.map fun _ g => g.value := by
  rw [recordOf, foldl_addRecognition_readings]
  exact Table.ofList_entries (t.map fun _ g => g.value)

theorem recordOf_reading :
    (recordOf frame timestamp t).reading n = (t.get? n).bind Recognition.value := by
  rw [RawFrame.reading, recordOf_readings, Table.get?_map]
  cases t.get? n <;> rfl

theorem recordOf_confidence :
    (recordOf frame timestamp t).confidenceOf n = (t.get? n).bind Recognition.confidence := by
  have hordered : (t.entries.filterMap fun e => e.2.confidence.map (e.1, ·)).Pairwise
      (fun a b => a.1 < b.1) := by
    refine t.ordered.filterMap _ ?_
    intro a b hlt c hc d hd
    obtain ⟨_, -, rfl⟩ := Option.map_eq_some_iff.mp hc
    obtain ⟨_, -, rfl⟩ := Option.map_eq_some_iff.mp hd
    exact hlt
  have hentries : (recordOf frame timestamp t).confidence.entries =
      t.entries.filterMap fun e => e.2.confidence.map (e.1, ·) := by
    rw [recordOf, foldl_addRecognition_confidence]
    exact Table.foldl_insert_entries (t := .empty) hordered
  refine Option.ext fun c => ?_
  rw [RawFrame.confidenceOf, Table.get?_eq_some_iff, hentries, Option.bind_eq_some_iff]
  constructor
  · intro hmem
    obtain ⟨e, he, hc⟩ := List.mem_filterMap.mp hmem
    obtain ⟨c', hc', hpair⟩ := Option.map_eq_some_iff.mp hc
    cases hpair
    exact ⟨e.2, Table.get?_eq_some_iff.mpr he, hc'⟩
  · rintro ⟨g, hg, hc⟩
    exact List.mem_filterMap.mpr ⟨(n, g), Table.get?_eq_some_iff.mp hg, by simp [hc]⟩

theorem sample_eq (s : SampledStream) {index : Nat} {image : Image}
    (hread : s.source.read index = .ok image)
    (hfits : ∀ e ∈ s.layout.entries, e.2.fits image.width image.height = true) :
    s.sample index =
      .ok (recordOf index (Decimal.toFloat false index 0 / s.source.props.fps)
        (found s.layout s.recognizer image)) := by
  simp only [sample, hread, recognizeParallel_eq, ite_self, recognizeSequential_eq hfits, bind,
    Except.bind]
  rfl

end SampledStream

end GameTimeline
