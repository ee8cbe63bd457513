import ScriptUplift.Digest.Sha256

namespace ScriptUplift

/-!
# Keys of the run history

A run is kept under its number, written as eight bytes with the most significant
one first.  The history is in the order of the bytes of its keys.
-/

/-- The key a run is kept under. -/
structure RunKey where
  bytes : List UInt8
  deriving Repr, DecidableEq

namespace RunKey

/-- The number of bytes of a key. -/
def width : Nat :=
  8

/-- The key of a run number. -/
def ofNumber
    (number : Nat) :
    RunKey :=
  ⟨Sha256.bigEndian width number⟩

/-- The number that the bytes of a key stand for. -/
def number
    (key : RunKey) :
    Nat :=
  key.bytes.foldl (fun value byte => value * 256 + byte.toNat) 0

instance : Coe Nat RunKey :=
  ⟨ofNumber⟩

instance : LT RunKey :=
  ⟨fun first second => first.bytes < second.bytes⟩

instance : DecidableLT RunKey :=
  fun first second => inferInstanceAs (Decidable (first.bytes < second.bytes))

end RunKey

end ScriptUplift
