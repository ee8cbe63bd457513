import ScriptUplift.Classify.Refresh

namespace ScriptUplift

/-!
# What a statement binds

A statement binds a name by a declaration or by an assignment.  A declaration
is told by its keyword, an assignment by its operator.
-/

/-- Split off an identifier of ASCII letters, digits and underscores. -/
def asciiName?
    (text : Text) :
    Option (Text × Text) :=
  match text with
  | first :: _ =>
      if isPatternWord first && !isDigitChar first then
        some (text.takeWhile isPatternWord, text.dropWhile isPatternWord)
      else
        none
  | [] =>
      none

/-- The text after an assignment operator at the front. -/
def afterAssignment? : Text → Option Text
  | '=' :: rest =>
      some rest
  | mark :: '=' :: rest =>
      if [':', '+', '-', '*', '/'].contains mark then some rest else none
  | _ =>
      none

/-- The characters of a type hint between a name and an assignment operator. -/
def isTypeHintChar (character : Char) : Bool :=
  isPatternWord character || character == '[' || character == ']' || character == ',' ||
    character == ' '

/-- The text after the type hint at the front, if there is one. -/
def afterTypeHint : Text → Text
  | ':' :: rest =>
      (rest.dropWhile isPatternSpace).dropWhile isTypeHintChar
  | text =>
      text

/-- An assignment: the name that is bound and the value. -/
structure Assignment where
  name : Text
  value : Text
  deriving Repr, DecidableEq

/-- Read code as an assignment; a comparison is none. -/
def Assignment.ofCode?
    (code : Text) :
    Option Assignment := do
  let (name, afterName) ← asciiName? code
  let value ← afterAssignment? (afterTypeHint (afterName.dropWhile isPatternSpace))
  let trimmed : Text := value.dropWhile isPatternSpace
  if trimmed.startsWith ['='] then none else some ⟨name, trimmed⟩

/-- The text after a keyword and the blanks that must follow it. -/
def afterKeyword?
    (keyword : String)
    (code : Text) :
    Option Text := do
  let rest ← code.afterHead? keyword.toList
  let trimmed := rest.dropWhile isPatternSpace
  if trimmed.length < rest.length then some trimmed else none

/-- The name a field or constant declaration introduces. -/
def declaredField?
    (code : Text) :
    Option Text := do
  let bare := (afterKeyword? "static" code).getD code
  let named ← (afterKeyword? "var" bare).or (afterKeyword? "const" bare)
  let (name, _) ← asciiName? named
  some name

/-- The name a statement introduces or binds. -/
def boundName?
    (text : Text) :
    Option Text :=
  let code := (Scan.line none text).code.trim
  (declaredField? code).or ((Assignment.ofCode? code).map (·.name))

/-- The functions that only compute a value. -/
def pureFunctions : List Text :=
  ["preload", "load", "get_node", "str", "int", "float", "bool", "len", "range", "abs",
   "min", "max", "clamp", "lerp", "sign", "floor", "ceil", "round", "sqrt", "pow",
   "deg2rad", "rad2deg", "deg_to_rad", "rad_to_deg", "randf", "randi", "randf_range",
   "randi_range", "typeof", "char"].map String.toList

/-- The methods that only compute a value. -/
def pureMethods : List Text :=
  ["get_node", "duplicate", "get", "length", "normalized", "size", "keys", "values",
   "has", "find", "to_lower", "to_upper"].map String.toList

/-- The words that never occur in code without effects. -/
def effectWords : List Text :=
  ["await", "yield", "emit_signal", "queue_free", "free"].map String.toList

/-- Whether a call only computes a value; a capitalised callee is a constructor. -/
def Call.isPure
    (call : Call) :
    Bool :=
  if call.dotted then
    pureMethods.contains call.name
  else
    pureFunctions.contains call.name ||
      call.name.head?.any fun first => 'A' ≤ first && first ≤ 'Z'

/-- Whether code calls nothing that may have effects. -/
def isPureCode
    (code : Text) :
    Bool :=
  (identifiers code).all (fun token => !effectWords.contains token.text) &&
    (Call.findAll (fun _ => true) code).all Call.isPure

/-- The name after the first `func` of a method header. -/
def methodName? : List Token → Option Text
  | first :: second :: rest =>
      if first.text = "func".toList then some second.text
      else methodName? (second :: rest)
  | _ =>
      none

end ScriptUplift
