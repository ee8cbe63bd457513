import ScriptUplift.Classify.Refresh
import ScriptUplift.Uplift.Rule

namespace ScriptUplift

/-!
# Applying the rules to a file

Rules run one at a time over the whole file, so that each rule sees what the
rules before it produced.  Continuation lines, comments and blank lines are
left alone.
-/

/-- The lines a rule leaves of one line, and the number of its replacements if it matched. -/
def applyToLine
    (rule : UpliftRule)
    (above : Text)
    (line : Line) :
    List Line × Option Nat :=
  if line.isStatement then
    match rule.apply above line.text with
    | some replacement =>
        ({ line with text := replacement.first } ::
            replacement.others.map fun text => { number := line.number, text := text },
         some replacement.count)
    | none =>
        ([line], none)
  else
    ([line], none)

/-- Apply a rule to each line, given the text that stood above the first. -/
def applyToEach
    (rule : UpliftRule) :
    Text → List Line → List (List Line × Option Nat)
  | _, [] =>
      []
  | above, line :: rest =>
      applyToLine rule above line :: applyToEach rule line.text rest

namespace Source

/-- Apply one rule to a file; what is known about the lines is recomputed if it matched. -/
def applyEverywhere
    (source : Source)
    (rule : UpliftRule) :
    Source :=
  let results := applyToEach rule [] source.lines
  let counts := results.filterMap Prod.snd
  if counts.isEmpty then
    source
  else
    let total : Nat := counts.foldr (· + ·) 0
    refresh (({ source with lines := results.flatMap Prod.fst }).count rule.name total)

/-- Apply rules one after another. -/
def upliftStage
    (rules : List UpliftRule)
    (source : Source) :
    Source :=
  rules.foldl applyEverywhere (source.register (rules.map (·.name)))

end Source

end ScriptUplift
