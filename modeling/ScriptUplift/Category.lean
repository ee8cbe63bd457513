namespace ScriptUplift

/-!
# Categories of lines and buckets of members

Every physical line carries one structural category.  The categories of
declarations map to the buckets of the canonical member order.
-/

/-- The structural label of a physical line. -/
inductive Category
  | other
  | classHeader
  | signal
  | enumeration
  | constant
  | exportedField
  | publicField
  | privateField
  | deferredInitField
  | lifecycleMethod
  | publicMethod
  | privateMethod
  | controlFlow
  | comment
  | blank
  | orphan
  deriving Repr, DecidableEq

/-- A slot in the canonical member order. -/
inductive Bucket
  | header
  | classDecl
  | signals
  | enums
  | constants
  | exported
  | publicFields
  | privateFields
  | deferredFields
  | lifecycle
  | publicMethods
  | privateMethods
  /-- Statements at class scope that fit no canonical slot. -/
  | other
  deriving Repr, DecidableEq

namespace Category

/-- Every category, in the order of their numbers. -/
def all : List Category :=
  [.other, .classHeader, .signal, .enumeration, .constant, .exportedField, .publicField,
   .privateField, .deferredInitField, .lifecycleMethod, .publicMethod, .privateMethod,
   .controlFlow, .comment, .blank, .orphan]

/-- The name a category is reported under. -/
def name : Category → String
  | .other => "Other"
  | .classHeader => "ClassHeader"
  | .signal => "Signal"
  | .enumeration => "Enum"
  | .constant => "Constant"
  | .exportedField => "ExportedField"
  | .publicField => "PublicField"
  | .privateField => "PrivateField"
  | .deferredInitField => "DeferredInitField"
  | .lifecycleMethod => "LifecycleMethod"
  | .publicMethod => "PublicMethod"
  | .privateMethod => "PrivateMethod"
  | .controlFlow => "ControlFlow"
  | .comment => "Comment"
  | .blank => "Blank"
  | .orphan => "Orphan"

/-- Find a category by its name. -/
def ofName?
    (name : String) :
    Option Category :=
  all.find? (·.name == name)

/-- Find a category by its number. -/
def ofNumber?
    (number : Int) :
    Option Category :=
  if 0 ≤ number then all[number.toNat]? else none

/-- The name of what a number stands for, also when it stands for no category. -/
def nameOfNumber
    (number : Int) :
    String :=
  (ofNumber? number).elim "Category(?)" name

/-- The declarations that may only appear at class scope. -/
def isClassLevel : Category → Bool
  | .classHeader | .signal | .enumeration | .constant
  | .exportedField | .publicField | .privateField | .deferredInitField => true
  | _ => false

/-- The field declarations. -/
def isField : Category → Bool
  | .exportedField | .publicField | .privateField | .deferredInitField => true
  | _ => false

/-- The method headers. -/
def isMethod : Category → Bool
  | .lifecycleMethod | .publicMethod | .privateMethod => true
  | _ => false

/-- The lines without code. -/
def isTrivia : Category → Bool
  | .comment | .blank => true
  | _ => false

/-- The canonical slot of a declaration. -/
def bucket : Category → Bucket
  | .classHeader => .classDecl
  | .signal => .signals
  | .enumeration => .enums
  | .constant => .constants
  | .exportedField => .exported
  | .publicField => .publicFields
  | .privateField => .privateFields
  | .deferredInitField => .deferredFields
  | .lifecycleMethod => .lifecycle
  | .publicMethod => .publicMethods
  | .privateMethod => .privateMethods
  | .comment | .blank => .header
  | .other | .controlFlow | .orphan => .other

end Category

namespace Bucket

/-- Every bucket, in canonical order. -/
def all : List Bucket :=
  [.header, .classDecl, .signals, .enums, .constants, .exported, .publicFields,
   .privateFields, .deferredFields, .lifecycle, .publicMethods, .privateMethods, .other]

/-- The buckets that can hold members, in canonical order. -/
def ofMembers : List Bucket :=
  all.drop 1

/-- The place of a bucket in the canonical order. -/
def rank
    (bucket : Bucket) :
    Nat :=
  all.idxOf bucket

/-- The name a bucket is reported under. -/
def name : Bucket → String
  | .header => "header"
  | .classDecl => "class"
  | .signals => "signals"
  | .enums => "enums"
  | .constants => "constants"
  | .exported => "exported"
  | .publicFields => "public_fields"
  | .privateFields => "private_fields"
  | .deferredFields => "deferred_fields"
  | .lifecycle => "lifecycle"
  | .publicMethods => "public_methods"
  | .privateMethods => "private_methods"
  | .other => "other"

/-- Find a bucket by its place in the canonical order. -/
def ofNumber?
    (number : Int) :
    Option Bucket :=
  if 0 ≤ number then all[number.toNat]? else none

/-- The name of what a number stands for, also when it stands for no bucket. -/
def nameOfNumber
    (number : Int) :
    String :=
  (ofNumber? number).elim "bucket(?)" name

end Bucket

end ScriptUplift
