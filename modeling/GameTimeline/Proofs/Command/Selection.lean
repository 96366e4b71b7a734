import GameTimeline.Command.Selection
import GameTimeline.Proofs.Timeline.StreamFile
import GameTimeline.Proofs.Traversal
import Mathlib.Tactic.Common

namespace GameTimeline

namespace Config

theorem unused_mode (mode other : Mode) (config : Json) :
    unused mode config = unused other config := by
  cases mode <;> cases other <;> rfl

variable {mode : Mode} {policy : UnusedPolicy} {config : Json}

theorem reportUnused_ok {r : UsageReport} (h : reportUnused mode policy config = .ok r)
    (other : Mode) : reportUnused other policy config = .ok ⟨other, r.unused⟩ := by
  simp only [reportUnused] at h ⊢
  split at h
  · cases h
  · rename_i hclean
    obtain rfl := Except.ok.inj h
    rw [unused_mode other mode]
    exact if_neg hclean

theorem reportUnused_error {u : UnusedKeys} (h : reportUnused mode policy config = .error u)
    (other : Mode) : reportUnused other policy config = .error ⟨⟨other, u.report.unused⟩⟩ := by
  simp only [reportUnused] at h ⊢
  split at h
  · rename_i hunused
    obtain rfl := Except.error.inj h
    rw [unused_mode other mode]
    exact if_pos hunused
  · cases h

end Config

namespace SamplingPlan

variable {config j : Json} {plan : SamplingPlan} {k : String}

end SamplingPlan

namespace Command

inductive Stage where
  | config
  | unusedKeys
  | session
  | models
  | window
  | input
  | reconciliation
  deriving DecidableEq, Repr

def Failure.inMode (mode : Config.Mode) : Failure → Failure
  | .unusedKeys e => .unusedKeys ⟨⟨mode, e.report.unused⟩⟩
  | f => f

namespace Selection

variable {s : Selection} {files : Files} {mode other : Config.Mode} {loaded : Config.Loaded}
  {models : ModelSet} {plan : SamplingPlan} {bytes : List UInt8} {frames : List RawFrame}
  {config : Json}
  {stage : Stage} {e : Failure}

def firstFrameIn (s : Selection) (config : Json) : Nat :=
  s.firstFrame.getD (((config.descend ["sampling", "first_frame"]).bind Json.nat?).getD 0)

def lastFrameIn (s : Selection) (config : Json) : Option Nat :=
  (s.lastFrame.or ((config.descend ["sampling", "last_frame"]).bind Json.int64?)).bind limit

def Within (s : Selection) (config : Json) (f : RawFrame) : Prop :=
  s.firstFrameIn config ≤ f.frame ∧ ∀ last ∈ s.lastFrameIn config, f.frame < last

instance (s : Selection) (config : Json) (f : RawFrame) : Decidable (s.Within config f) := by
  unfold Within
  infer_instance

structure Loads (s : Selection) (files : Files) (mode : Config.Mode) (loaded : Config.Loaded) :
    Prop where
  load : Command.loadConfig files s.configs = .ok loaded
  used : ∃ r, Config.reportUnused mode (policy s.strict) loaded.config = .ok r

structure Configures (s : Selection) (files : Files) (mode : Config.Mode)
    (loaded : Config.Loaded) (models : ModelSet) : Prop where
  loads : s.Loads files mode loaded
  session : ∃ x, Session.ofJson loaded.config = .ok x
  models : ModelSet.ofJson loaded.config = .ok models

inductive Stops (s : Selection) (files : Files) (mode : Config.Mode) : Stage → Failure → Prop
  | config {e : Failure} (he : Command.loadConfig files s.configs = .error e) :
      Stops s files mode .config e
  | unusedKeys {loaded : Config.Loaded} {e : Config.UnusedKeys}
      (h : Command.loadConfig files s.configs = .ok loaded)
      (he : Config.reportUnused mode (policy s.strict) loaded.config = .error e) :
      Stops s files mode .unusedKeys (.unusedKeys e)
  | session {loaded : Config.Loaded} {e : CaptureError} (h : s.Loads files mode loaded)
      (he : Session.ofJson loaded.config = .error e) :
      Stops s files mode .session (.configCapture e)
  | models {loaded : Config.Loaded} {x : Session} {e : RuleError}
      (h : s.Loads files mode loaded) (hs : Session.ofJson loaded.config = .ok x)
      (he : ModelSet.ofJson loaded.config = .error e) :
      Stops s files mode .models (.configRule e)
  | window {loaded : Config.Loaded} {models : ModelSet} {e : Failure}
      (h : s.Configures files mode loaded models) (he : s.window loaded.config = .error e) :
      Stops s files mode .window e
  | absent {loaded : Config.Loaded} {models : ModelSet} {plan : SamplingPlan}
      (h : s.Configures files mode loaded models) (hw : s.window loaded.config = .ok plan)
      (hr : files s.input = none) : Stops s files mode .input (.inputPath s.input)
  | unreadable {loaded : Config.Loaded} {models : ModelSet} {plan : SamplingPlan}
      {bytes : List UInt8} (h : s.Configures files mode loaded models)
      (hw : s.window loaded.config = .ok plan) (hr : files s.input = some bytes)
      (he : ∀ frames, ¬ Holds bytes frames) : Stops s files mode .input (.inputText s.input)
  | reconciliation {loaded : Config.Loaded} {models : ModelSet} {plan : SamplingPlan}
      {bytes : List UInt8} {frames : List RawFrame} {e : BuildError}
      (h : s.Configures files mode loaded models) (hw : s.window loaded.config = .ok plan)
      (hr : files s.input = some bytes) (hf : Holds bytes frames)
      (he : assemble models (frames.filter fun f => s.Within loaded.config f) = .error e) :
      Stops s files mode .reconciliation (.reconcile s.input e)

theorem Loads.inMode (h : s.Loads files mode loaded) (other : Config.Mode) :
    s.Loads files other loaded := by
  obtain ⟨hload, r, hused⟩ := h
  exact ⟨hload, _, Config.reportUnused_ok hused other⟩

theorem Configures.inMode (h : s.Configures files mode loaded models) (other : Config.Mode) :
    s.Configures files other loaded models :=
  ⟨h.loads.inMode other, h.session, h.models⟩

theorem loadConfig_eq_error {paths : List String}
    (h : Command.loadConfig files paths = .error e) :
    (∃ path, e = .configPath path) ∨ ∃ y, e = .configText y := by
  simp only [Command.loadConfig, bind, Except.bind] at h
  split at h
  · rename_i e' hread
    obtain rfl := Except.error.inj h
    obtain ⟨path, -, hpath⟩ := exists_of_mapM_eq_error hread
    simp only [readConfig] at hpath
    cases hbytes : (files path).bind Text.ofUtf8? with
    | none =>
        rw [hbytes] at hpath
        exact .inl ⟨path, (Except.error.inj hpath).symm⟩
    | some text => simp [hbytes] at hpath
  · rename_i docs hread
    cases htexts : Config.Loaded.ofTexts docs with
    | error y =>
        rw [htexts] at h
        exact .inr ⟨y, (Except.error.inj h).symm⟩
    | ok l => simp [htexts, Except.mapError] at h

theorem window_eq_error (h : s.window config = .error e) :
    (∃ c, e = .configCapture c) ∨ ∃ c, e = .plan c := by
  simp only [window, bind, Except.bind] at h
  cases hplan : SamplingPlan.ofJson config with
  | error c =>
      simp only [hplan, Except.mapError] at h
      exact .inl ⟨c, (Except.error.inj h).symm⟩
  | ok p =>
      simp only [hplan, Except.mapError] at h
      split at h
      · rename_i e' hvalid
        split at hvalid
        · rename_i c _
          obtain rfl := Except.error.inj hvalid
          exact .inr ⟨c, (Except.error.inj h).symm⟩
        · cases hvalid
      · cases h

theorem Stops.inMode (h : s.Stops files mode stage e) (other : Config.Mode) :
    s.Stops files other stage (e.inMode other) := by
  cases h with
  | config he =>
      rcases loadConfig_eq_error he with ⟨path, rfl⟩ | ⟨y, rfl⟩
      · exact .config he
      · exact .config he
  | unusedKeys h he => exact .unusedKeys h (Config.reportUnused_error he other)
  | session h he => exact .session (h.inMode other) he
  | models h hs he => exact .models (h.inMode other) hs he
  | window h he =>
      rcases window_eq_error he with ⟨c, rfl⟩ | ⟨c, rfl⟩
      · exact .window (h.inMode other) he
      · exact .window (h.inMode other) he
  | absent h hw hr => exact .absent (h.inMode other) hw hr
  | unreadable h hw hr he => exact .unreadable (h.inMode other) hw hr he
  | reconciliation h hw hr hf he => exact .reconciliation (h.inMode other) hw hr hf he

end Selection

end Command

end GameTimeline
