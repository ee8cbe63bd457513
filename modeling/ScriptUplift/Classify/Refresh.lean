import ScriptUplift.Classify.Line
import ScriptUplift.Indent.Detect
import ScriptUplift.Source

namespace ScriptUplift

/-!
# Classifying a file

Everything the stages read off a line apart from its text — depth,
continuation, category — is computed from the texts of the file and its
indentation unit.  Stages recompute it after they have edited texts.
-/

/--
Whether the statement that starts with the first of these lines ends in a
colon on the line that completes it.
-/
def statementOpens : List (Line × Reading) → Bool
  | [] =>
      false
  | (_, reading) :: rest =>
      if reading.completes then opensBlock reading.scan.code else statementOpens rest

/-- Recompute what is known about the lines, each given with its reading. -/
def classifyLines : Context → List (Line × Reading) → List Line
  | _, [] =>
      []
  | context, (line, reading) :: rest =>
      let known :=
        { line with
          depth := context.unit.depth line.text
          continues := reading.continues
          inString := reading.inString
          opens := false
          annotationOnly := false }
      if reading.continues then
        { known with category := .other } :: classifyLines context rest
      else
        let (category, annotationOnly) := classify context line.text
        if category.isTrivia then
          { known with category := category, annotationOnly := annotationOnly } ::
            classifyLines context rest
        else
          let opens := statementOpens ((line, reading) :: rest)
          { known with
            category := category
            annotationOnly := annotationOnly
            opens := opens } ::
            classifyLines
              { context with
                previous := category
                previousOpens := opens
                previousAnnotationOnly := annotationOnly }
              rest

/-- Recompute what is known about every line from the texts under a given unit. -/
def refreshLines
    (unit : IndentUnit)
    (lines : List Line) :
    List Line :=
  classifyLines { unit := unit }
    (lines.zip (Reading.lines .neutral (lines.map (·.text))))

namespace Source

/-- Recompute what is known about every line; an unsettled unit is detected first. -/
def refresh
    (source : Source) :
    Source :=
  let unit := if source.unit.isUnsettled then .detect source.texts else source.unit
  { source with unit := unit, lines := refreshLines unit source.lines }

/-- Settle the indentation unit and classify every line. -/
def classifyStage
    (style : IndentUnit.Style)
    (width : Int)
    (source : Source) :
    Source :=
  refresh { source with unit := .resolve style width source.texts }

end Source

/-- The code of a line without indentation and comment. -/
def Line.code
    (line : Line) :
    Text :=
  if line.continues then line.text.trim
  else (Scan.line none line.text).code.trim

end ScriptUplift
