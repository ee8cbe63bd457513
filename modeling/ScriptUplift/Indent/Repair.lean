import ScriptUplift.Classify.Refresh

namespace ScriptUplift

/-!
# Repairing indentation

Categories are trusted over whitespace.  Declarations snap back to class scope,
headers open a body one level deeper, and every other statement takes the depth
of the block it lands in.  Continuation lines move with their statement.
-/

namespace Indent

/-- What kind of header opened a block. -/
inductive FrameKind
  | control
  | method
  | innerClass
  deriving Repr, DecidableEq

/-- One open block. -/
structure Frame where
  kind : FrameKind
  /-- The depth at which the body belongs. -/
  depth : Nat
  /-- The depth the first line of the body was found at, once it is seen. -/
  bodyDepth : Option Nat := none
  /-- The depth the header was found at. -/
  headerDepth : Nat
  deriving Repr, DecidableEq

/--
Record the depth of the first body line.  An over-indented first line does not
raise the bar for the lines after it.
-/
def Frame.begin
    (frame : Frame)
    (found : Nat) :
    Frame :=
  { frame with
    bodyDepth := some (frame.bodyDepth.getD (min found (frame.headerDepth + 1))) }

/-- Close blocks down to the innermost class whose header stands left of a line. -/
def dropToClass
    (found : Nat) :
    List Frame → List Frame
  | [] =>
      []
  | frame :: outer =>
      if frame.kind = .innerClass ∧ frame.headerDepth < found then
        frame :: outer
      else
        dropToClass found outer

/-- Close the blocks whose body starts right of a line. -/
def closeDeeper
    (found : Nat) :
    List Frame → List Frame
  | [] =>
      []
  | frame :: outer =>
      if frame.bodyDepth.any (found < ·) then closeDeeper found outer else frame :: outer

/-- What the open blocks, innermost first, mean for the scope of a line. -/
def scopeOf
    (frames : List Frame) :
    Scope :=
  if frames.any (·.kind == .method) then .method
  else if frames.any (·.kind == .control) then .block
  else if frames.any (·.kind == .innerClass) then .innerClass
  else .file

/-- The depth at which statements directly inside the innermost block belong. -/
def bodyDepthOf
    (frames : List Frame) :
    Nat :=
  (frames.head?.map (·.depth)).getD 0

/-- Record the first body line of the innermost block. -/
def beginInnermost
    (found : Nat) :
    List Frame → List Frame
  | [] =>
      []
  | frame :: outer =>
      frame.begin found :: outer

/-- The open blocks around a declaration or header found at a depth. -/
def enterDeclaration
    (frames : List Frame)
    (found : Nat) :
    List Frame :=
  beginInnermost found (dropToClass found frames)

/-- The open blocks around a plain statement found at a depth. -/
def enterStatement
    (frames : List Frame)
    (found : Nat) :
    List Frame :=
  match frames with
  | frame :: outer =>
      if frame.bodyDepth.isNone then
        frame.begin found :: outer
      else
        closeDeeper found (frame :: outer)
  | [] =>
      []

/-- The block a header opens. -/
def frameKindOf
    (line : Line) :
    FrameKind :=
  if line.category.isMethod then .method
  else if isInnerClassHeader line.code then .innerClass
  else .control

/-- Whether a line belongs at class scope whatever its indentation says. -/
def snapsToClass
    (line : Line) :
    Bool :=
  line.category.isClassLevel || line.category.isMethod || isInnerClassHeader line.code

/-- What a repair does to the front of a line. -/
inductive Move
  | stay
  /-- The line is given a number of levels. -/
  | indent (depth : Nat)
  /-- The line is moved by a number of levels. -/
  | shift (levels : Int)
  deriving Repr, DecidableEq

namespace Move

/-- The text that a move makes of another one. -/
def text
    (unit : IndentUnit)
    (text : Text) : Move → Text
  | .stay => text
  | .indent depth => unit.reindent text depth
  | .shift levels => unit.shift levels text

/-- The breakdown of a machine that makes a move. -/
def breakdown?
    (unit : IndentUnit)
    (text : Text) : Move → Option Breakdown
  | .stay => none
  | .indent depth => Breakdown.of? (unit.wordReindent text depth)
  | .shift levels => Breakdown.of? (unit.wordShift levels text)

end Move

/-- A line that knows its scope, and what is to be done to its text. -/
structure PlannedLine where
  line : Line
  move : Move
  deriving Repr, DecidableEq

/-- The line after its move. -/
def PlannedLine.moved
    (unit : IndentUnit)
    (planned : PlannedLine) :
    Line :=
  { planned.line with text := planned.move.text unit planned.line.text }

/-- Plan the repair of lines under the open blocks and the shift of the last statement. -/
def planLines : List Frame → Int → List Line → List PlannedLine
  | _, _, [] =>
      []
  | frames, shift, line :: rest =>
      if line.continues then
        { line := { line with scope := scopeOf frames }
          move := if shift ≠ 0 ∧ line.inString = false then .shift shift else .stay } ::
          planLines frames shift rest
      else if line.category.isTrivia then
        { line := { line with scope := scopeOf frames }, move := .stay } ::
          planLines frames shift rest
      else
        let around :=
          if snapsToClass line then enterDeclaration frames line.depth
          else enterStatement frames line.depth
        let target := bodyDepthOf around
        let inside :=
          if line.opens then
            { kind := frameKindOf line
              depth := target + 1
              headerDepth := line.depth } :: around
          else
            around
        { line := { line with scope := scopeOf around }, move := .indent target } ::
          planLines inside ((target : Int) - line.depth) rest

/-- Repair lines under the open blocks and the shift of the last statement. -/
def repairLines
    (unit : IndentUnit)
    (frames : List Frame)
    (shift : Int)
    (lines : List Line) :
    List Line :=
  (planLines frames shift lines).map (·.moved unit)

/-- The number of lines whose text differs between two versions of them. -/
def changedLines
    (before after : List Line) :
    Nat :=
  (before.zip after).countP fun pair => pair.1.text != pair.2.text

/-- Lines whose leading whitespace was changed are counted under this name. -/
def repairCounter : String :=
  "indent_repair"

end Indent

/-- Repair the indentation of a file; what is known about its lines is recomputed if any changed. -/
def Source.indentStage
    (source : Source) :
    Source :=
  let repaired := Indent.repairLines source.unit [] 0 source.lines
  let changed := Indent.changedLines source.lines repaired
  let registered := { source.register [Indent.repairCounter] with lines := repaired }
  if changed = 0 then
    registered
  else
    (registered.count Indent.repairCounter changed).refresh

/-- The breakdown of a machine that repairs the indentation of a file. -/
def Source.indentBreakdown?
    (source : Source) :
    Option Breakdown :=
  (Indent.planLines [] 0 source.lines).findSome? fun planned =>
    planned.move.breakdown? source.unit planned.line.text

end ScriptUplift
