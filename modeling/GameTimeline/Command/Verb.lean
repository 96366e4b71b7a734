import GameTimeline.Command.Arguments
import GameTimeline.Command.Basic

namespace GameTimeline.Command

structure Verb where
  name : String
  about : String
  rules : List OptionRule
  operands : Option String
  build : Arguments → Option Command

namespace Verb

def selectionRules : List OptionRule :=
  [.needed "input" .text "Raw stream: JSON array of \x7bframe, timestamp, readings, confidence?\x7d",
   ⟨"config", .text, true, true, false,
     "Layered config paths in merge order (base -> game -> overrides...)"⟩]

def windowRules : List OptionRule :=
  [.allowed "first-frame" .natural
     "Ignore raw frames before this index (overrides sampling.first_frame)",
   ⟨"last-frame", .integer, false, false, true,
     "Ignore raw frames at or after this index; negative = no limit (overrides sampling.last_frame)"⟩,
   .flag "strict-config" "Fail on config keys nothing reads"]

def selection? (a : Arguments) : Option Selection := do
  let input ← a.text? "input"
  let configs := a.values "config"
  guard (¬ configs.isEmpty)
  pure ⟨input, configs, a.natural? "first-frame", a.integer? "last-frame", a.has "strict-config"⟩

def correct : Verb where
  name := "correct"
  about := "Reconcile a raw state stream into a corrected timeline"
  rules := selectionRules ++
    [.needed "out" .text "Where to write the corrected timeline JSON",
     .flag "pretty" "Pretty-print the timeline JSON",
     .allowed "csv" .text "Also write the timeline as CSV",
     .allowed "exports" .text
       "Write a full run directory (timeline, csv, quality, manifest) under this root"] ++
    windowRules
  operands := none
  build a := do
    let s ← selection? a
    let out ← a.text? "out"
    pure (.correct s ⟨out, a.has "pretty", a.text? "csv", a.text? "exports"⟩)

def quality : Verb where
  name := "quality"
  about := "Reconcile a raw stream and print only the quality report"
  rules := selectionRules ++ [.flag "json" "Print JSON instead of the text report"] ++ windowRules
  operands := none
  build a := do
    let s ← selection? a
    pure (.quality s (a.has "json"))

def configHash : Verb where
  name := "config-hash"
  about := "Compute layered config hash + print canonical JSON"
  rules := []
  operands := some "PATHS"
  build a := if a.operands.isEmpty then none else some (.configHash a.operands)

def samplePlan : Verb where
  name := "sample-plan"
  about := "Print which frames a sampling plan would read from a video"
  rules :=
    [.needed "frame-count" .natural "Total frames in the video",
     .needed "fps" .decimal "Video frame rate",
     .allowed "frames-per-sec" .decimal "Target samples per second [default: 10]",
     .allowed "first-frame" .natural "First frame [default: 0]",
     ⟨"last-frame", .integer, false, false, true,
       "Exclusive end frame; -1 = end of video [default: -1]"⟩]
  operands := none
  build a := do
    let frameCount ← a.natural? "frame-count"
    let fps ← a.decimal? "fps"
    let plan := { SamplingPlan.standard with
      framesPerSec := (a.decimal? "frames-per-sec").getD SamplingPlan.standard.framesPerSec
      firstFrame := (a.natural? "first-frame").getD 0
      lastFrame := (a.integer? "last-frame").bind Selection.limit }
    pure (.samplePlan plan frameCount fps)

def all : List Verb := [correct, quality, configHash, samplePlan]

def find? (name : String) : Option Verb := all.find? (·.name = name)

def placeholder (name : String) : String :=
  String.ofList (name.toList.map fun c => if c = '-' then '_' else c.toUpper)

def optionText (r : OptionRule) : String :=
  "--" ++ r.name ++ (if r.kind = .flag then "" else " <" ++ placeholder r.name ++ ">")

def column (width : Nat) (s : String) : String :=
  s ++ String.ofList (List.replicate (width - s.length) ' ')

def listing (indent : String) (entries : List (String × String)) : String :=
  let width := (entries.map (·.1.length)).foldl max 0
  String.join (entries.map fun e => indent ++ column width e.1 ++ "  " ++ e.2 ++ "\n")

def usage (v : Verb) : String :=
  let required := v.rules.filter (·.required)
  let optional := if v.rules.length = required.length then "" else " [OPTIONS]"
  "Usage: gsr " ++ v.name ++ optional ++ String.join (required.map fun r => " " ++ optionText r) ++
    v.operands.elim "" (fun n => " <" ++ n ++ ">...")

def helpText (v : Verb) : String :=
  v.about ++ "\n\n" ++ v.usage ++ "\n\n" ++
    v.operands.elim "" (fun n => "Arguments:\n  <" ++ n ++ ">...  Paths in merge order\n\n") ++
    "Options:\n" ++
    listing "  " (v.rules.map (fun r => ("    " ++ optionText r, r.help)) ++
      [("-h, --help", "Print help")])

end Verb

def helpText : String :=
  "Game-state timeline reconciliation CLI\n\nUsage: gsr <COMMAND>\n\nCommands:\n" ++
    Verb.listing "  " (Verb.all.map (fun v => (v.name, v.about)) ++
      [("help", "Print this message or the help of the given subcommand(s)")]) ++
    "\nOptions:\n  -h, --help  Print help\n"

inductive Invocation where
  | run (c : Command)
  | help (text : String)
  | misuse

namespace Invocation

def ofVerb (v : Verb) (words : List String) : Invocation :=
  match readArguments v.rules v.operands.isSome .empty words with
  | .error .help => .help v.helpText
  | .error .misuse => .misuse
  | .ok a => (v.build a).elim .misuse .run

def ofHelp : List String → Invocation
  | [] => .help helpText
  | [name] =>
      if name = "help" then .help helpText
      else (Verb.find? name).elim .misuse fun v => .help v.helpText
  | _ => .misuse

def ofArguments : List String → Invocation
  | [] => .misuse
  | w :: words =>
      match Word.ofString w with
      | .help => .help helpText
      | .operand =>
          if w = "help" then ofHelp words
          else (Verb.find? w).elim .misuse fun v => ofVerb v words
      | _ => .misuse

end Invocation

end GameTimeline.Command
