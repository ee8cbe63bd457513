import ScriptUplift.Config.Basic
import ScriptUplift.Digest.Packed

namespace ScriptUplift

/-!
# The fingerprint of a configuration

The fingerprint covers every setting that changes what a run produces.  A file
known to be clean is only trusted under the fingerprint it was found clean with.
-/

/-- Changes whenever the output of the rules changes. -/
def engineRevision : Int :=
  1

namespace Config

/-- The disabled rules in alphabetical order. -/
def sortedDisabledRules
    (config : Config) :
    List String :=
  config.disabledRules.mergeSort (· ≤ ·)

/-- The packed settings that change what a run produces. -/
def fingerprintBytes
    (config : Config) :
    List UInt8 :=
  let disabled := config.sortedDisabledRules
  Packed.record
    [("engine", .integer engineRevision),
     ("disabled", if disabled.isEmpty then .nothing else .list disabled),
     ("indent_style", .text config.indentStyle),
     ("indent_width", .integer config.indentWidth),
     ("wrapper_name", .text config.wrapperName),
     ("canonical", .boolean config.canonical)]

/-- The first eight bytes of the digest of the packed settings. -/
def fingerprint
    (config : Config) :
    String :=
  hexText ((Sha256.digest config.fingerprintBytes).take 8)

end Config

end ScriptUplift
