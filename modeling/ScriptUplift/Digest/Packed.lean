import ScriptUplift.Digest.Sha256
import ScriptUplift.Text.Basic

namespace ScriptUplift

/-!
# Packed values

The MessagePack form of the values that are digested: every value is written in
the shortest form that holds it.
-/

/-- A value that can be packed. -/
inductive Packable
  | nothing
  | boolean (value : Bool)
  | integer (value : Int)
  | text (value : String)
  | list (items : List String)
  deriving Repr, DecidableEq

namespace Packed

/-- The bytes of a negative number in a given count, as its two's complement. -/
def complement
    (count : Nat)
    (value : Int) :
    List UInt8 :=
  Sha256.bigEndian count (value + Int.ofNat (Nat.pow 256 count)).toNat

/-- An integer in its shortest form. -/
def integer
    (value : Int) :
    List UInt8 :=
  if 0 ≤ value then
    let size := value.toNat
    if size < 0x80 then [UInt8.ofNat size]
    else if size < 0x100 then 0xcc :: Sha256.bigEndian 1 size
    else if size < 0x10000 then 0xcd :: Sha256.bigEndian 2 size
    else if size < 0x100000000 then 0xce :: Sha256.bigEndian 4 size
    else 0xcf :: Sha256.bigEndian 8 size
  else if -32 ≤ value then complement 1 value
  else if -0x80 ≤ value then 0xd0 :: complement 1 value
  else if -0x8000 ≤ value then 0xd1 :: complement 2 value
  else if -0x80000000 ≤ value then 0xd2 :: complement 4 value
  else 0xd3 :: complement 8 value

/-- A text with its length in bytes in front. -/
def text
    (value : String) :
    List UInt8 :=
  let bytes := Text.utf8 value.toList
  let size := bytes.length
  let head :=
    if size < 32 then [UInt8.ofNat (0xa0 + size)]
    else if size < 0x100 then 0xd9 :: Sha256.bigEndian 1 size
    else if size < 0x10000 then 0xda :: Sha256.bigEndian 2 size
    else 0xdb :: Sha256.bigEndian 4 size
  head ++ bytes

/-- A list of texts with its length in front. -/
def list
    (items : List String) :
    List UInt8 :=
  let size := items.length
  let head :=
    if size < 16 then [UInt8.ofNat (0x90 + size)]
    else if size < 0x10000 then 0xdc :: Sha256.bigEndian 2 size
    else 0xdd :: Sha256.bigEndian 4 size
  head ++ items.flatMap text

/-- A value in packed form. -/
def value : Packable → List UInt8
  | .nothing => [0xc0]
  | .boolean value => [if value then 0xc3 else 0xc2]
  | .integer number => integer number
  | .text string => text string
  | .list items => list items

/-- At most fifteen named values, in order, in packed form. -/
def record
    (fields : List (String × Packable)) :
    List UInt8 :=
  UInt8.ofNat (0x80 + fields.length) ::
    fields.flatMap fun field => text field.1 ++ value field.2

end Packed

end ScriptUplift
