import ScriptUplift.Config.Basic
import ScriptUplift.Indent.Repair
import ScriptUplift.Member.Canonical
import ScriptUplift.Orphan.Repair
import ScriptUplift.Uplift.Engine

namespace ScriptUplift

/-!
# The pipeline

A file passes a fixed sequence of stages: classification, uplift, indentation
repair, orphan repair and canonical member order.  The first stage that fails
ends the run; its fault is always bound to the file.
-/

/-- How a stage ends. -/
inductive StageEnd
  | done
  | failed (fault : Fault)
  /-- The stage broke down with a message. -/
  | crashed (message : String)
  deriving Repr, DecidableEq

/-- One step of the pipeline. -/
structure Stage where
  name : String
  run : Source → Source × StageEnd
  /-- The breakdown of a machine that runs the step. -/
  breakdown? : Source → Option Breakdown := fun _ => none

namespace Stage

/-- A stage that never fails. -/
def total
    (name : String)
    (run : Source → Source) :
    Stage where
  name := name
  run := fun source => (run source, .done)

/-- Settle the indentation unit and classify every line. -/
def classify
    (style : String)
    (width : Int) :
    Stage :=
  total "classify" (Source.classifyStage (.ofName style) width)

/-- Apply uplift rules. -/
def uplift
    (rules : List UpliftRule) :
    Stage :=
  total "rewrite" (Source.upliftStage rules)

/-- Repair indentation. -/
def indent : Stage :=
  { total "indent" Source.indentStage with breakdown? := Source.indentBreakdown? }

/-- Resolve orphaned statements. -/
def orphan
    (wrapperName : String) :
    Stage :=
  { total "orphan" (Source.orphanStage wrapperName) with
    breakdown? := Source.orphanBreakdown? wrapperName }

/-- Put members into canonical order. -/
def canonicalize : Stage where
  name := "canonicalize"
  run := fun source =>
    match source.canonicalStage with
    | (result, none) => (result, .done)
    | (result, some fault) => (result, .failed fault)

/-- A step on a machine, which may break down over it. -/
def onMachine
    (stage : Stage) :
    Stage :=
  { stage with
    run := fun source =>
      match stage.breakdown? source with
      | some breakdown => (source, .crashed breakdown.message)
      | none => stage.run source }

end Stage

/-- A sequence of stages and the counters it reports, fired or not. -/
structure Pipeline where
  stages : List Stage
  counters : List String := []

/-- A name in the list of disabled rules that no rule has. -/
structure UnknownRule where
  name : String
  deriving Repr, DecidableEq

/-- The text about an unknown rule. -/
def UnknownRule.message
    (unknown : UnknownRule) :
    String :=
  "unknown rule in rules.disabled: " ++ quotedString unknown.name

/-- How a pipeline run ends. -/
inductive PipelineEnd
  | done
  | failed (fault : Fault)
  /-- A stage broke down with a message. -/
  | crashed (message : String)
  deriving Repr, DecidableEq

namespace Pipeline

/-- The stages a configuration asks for. -/
def stagesOf
    (config : Config) :
    List Stage :=
  [.classify config.indentStyle config.indentWidth,
   .uplift (UpliftRule.enabled config.disabledRules),
   .indent,
   .orphan config.wrapperName] ++
    (if config.canonical then [.canonicalize] else [])

/-- The counters a configuration reports. -/
def countersOf
    (config : Config) :
    List String :=
  (UpliftRule.enabled config.disabledRules).map (·.name) ++
    [Indent.repairCounter, Orphan.wrapCounter, Orphan.suppressCounter] ++
    (if config.canonical then [Canonical.reorderCounter] else [])

/-- The first disabled rule that does not exist. -/
def unknownRule?
    (config : Config) :
    Option UnknownRule :=
  (config.disabledRules.find? fun name => (UpliftRule.ofName? name).isNone).map (⟨·⟩)

/-- Build the pipeline of a configuration; a misspelt rule name is refused. -/
def ofConfig
    (config : Config) :
    Except UnknownRule Pipeline :=
  match unknownRule? config with
  | some unknown =>
      .error unknown
  | none =>
      .ok ⟨stagesOf config, countersOf config⟩

/-- The fault of a stage, bound to the file unless it already is. -/
def boundFault
    (path stage : String)
    (fault : Fault) :
    Fault :=
  if fault.fileKind?.isSome then fault
  else .onFile .precondition path (.during ("stage " ++ stage) fault)

/-- Run stages until one does not succeed. -/
def runStages
    (path : String) :
    List Stage → Source → Source × PipelineEnd
  | [], source =>
      (source, .done)
  | stage :: rest, source =>
      match stage.run source with
      | (result, .done) =>
          runStages path rest result
      | (result, .failed fault) =>
          (result, .failed (boundFault path stage.name fault))
      | (result, .crashed message) =>
          (result, .crashed message)

/-- Run the pipeline on the content of a file. -/
def run
    (pipeline : Pipeline)
    (path : String)
    (content : Text) :
    Source × PipelineEnd :=
  runStages path pipeline.stages
    ((Source.ofContent path content).register pipeline.counters)

/-- A pipeline on a machine. -/
def onMachine
    (pipeline : Pipeline) :
    Pipeline :=
  { pipeline with stages := pipeline.stages.map Stage.onMachine }

end Pipeline

end ScriptUplift
