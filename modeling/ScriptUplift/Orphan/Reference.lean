import ScriptUplift.Orphan.Marker
import ScriptUplift.Text.Quoted

namespace ScriptUplift

/-!
# References to suppressed names

The first use of every name that only suppressed code declares is reported.  The
text is left as it is.
-/

/-- The words after which a name is declared. -/
def declaringWords : List Text :=
  ["var", "const", "signal", "enum", "class", "class_name", "for"].map String.toList

/-- The parameter names of a header whose name ends at an index. -/
def parameterNames
    (code : Text)
    (nameStop : Nat) :
    List Text :=
  let after := code.drop nameStop
  if after.contains '(' then
    let openAt := nameStop + after.idxOf '('
    let closeAt := (closingIndex code openAt).getD code.length
    ((splitArguments ((code.take closeAt).drop (openAt + 1))).map
      (fun argument => (firstWord argument).1)).filter (· != [])
  else
    []

/-- The names the tokens of a statement declare. -/
def declaredNames
    (code : Text) :
    List Token → List Text
  | first :: second :: rest =>
      (if declaringWords.contains first.text then
        [second.text]
      else if first.text = "func".toList then
        second.text :: parameterNames code second.stop
      else
        []) ++ declaredNames code (second :: rest)
  | _ =>
      []

/-- Every name declared by code that is still active. -/
def namesInUse
    (lines : List Line) :
    List Text :=
  (lines.filter (·.isStatement)).flatMap fun line =>
    declaredNames line.code (identifiers line.code)

/-- Whether a token is a plain name or a member of the object itself. -/
def isOwnName
    (code : Text)
    (token : Token) :
    Bool :=
  let before := (code.take token.start).reverse.dropWhile (· == ' ')
  match before with
  | '.' :: object =>
      "fles".toList.isPrefixOf (object.dropWhile (· == ' '))
  | _ =>
      true

/-- The search for references: the names in force and the names already reported. -/
structure ReferenceSearch where
  active : List (Text × Nat) := []
  reported : List Text := []
  deriving Repr, DecidableEq

/-- The issue about a name that is used though only suppressed code declares it. -/
def referenceIssue
    (line : Line)
    (name : Text)
    (declaredAt : Nat) :
    Issue where
  kind := .suppressedReference
  line := line.number
  name := String.ofList name
  message :=
    String.ofList name.quoted ++ " is only declared by suppressed code (line " ++
      toString declaredAt ++ ")"

/-- Report the first uses among the tokens of one line. -/
def ReferenceSearch.tokens
    (active : List (Text × Nat))
    (line : Line)
    (code : Text) :
    List Text → List Token → List Text × List Issue
  | reported, [] =>
      (reported, [])
  | reported, token :: rest =>
      match active.lookup token.text with
      | some declaredAt =>
          if !reported.contains token.text && isOwnName code token then
            let (known, issues) := tokens active line code (token.text :: reported) rest
            (known, referenceIssue line token.text declaredAt :: issues)
          else
            tokens active line code reported rest
      | none =>
          tokens active line code reported rest

/-- Report the first uses of the suppressed names that no live line declares. -/
def ReferenceSearch.lines
    (live : List Text)
    (suppressed : List (Text × Nat)) :
    ReferenceSearch → List Tracked → List Issue
  | _, [] =>
      []
  | search, tracked :: rest =>
      match tracked.declares.filter (!live.contains ·) with
      | some name =>
          lines live suppressed
            { search with
              active := rememberName search.active name ((suppressed.lookup name).getD 0) }
            rest
      | none =>
          if search.active.isEmpty || tracked.line.category.isTrivia then
            lines live suppressed search rest
          else
            let code := tracked.line.code
            let (reported, issues) :=
              tokens search.active tracked.line code search.reported (identifiers code)
            issues ++ lines live suppressed { search with reported := reported } rest

/-- The issues about the first uses of suppressed names. -/
def referenceIssues
    (suppressed : List (Text × Nat))
    (tracked : List Tracked) :
    List Issue :=
  if tracked.all (·.declares.isNone) then
    []
  else
    ReferenceSearch.lines (namesInUse (tracked.map (·.line))) suppressed {} tracked

end ScriptUplift
