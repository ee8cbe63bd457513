import ScriptUplift.Text.Basic

namespace ScriptUplift

/-!
# Replacing pieces of a text

Occurrences are found from left to right and do not overlap.
-/

namespace Text

/-- Replace the occurrences of a text after the given number of characters was passed over. -/
def replaceAfter
    (needle replacement : Text) :
    Nat → Text → Text
  | _, [] =>
      []
  | skip + 1, _ :: rest =>
      replaceAfter needle replacement skip rest
  | 0, character :: rest =>
      if startsWith (character :: rest) needle then
        replacement ++ replaceAfter needle replacement (needle.length - 1) rest
      else
        character :: replaceAfter needle replacement 0 rest

/-- Replace every occurrence of a text that is not empty. -/
def replaceAll
    (text needle replacement : Text) :
    Text :=
  replaceAfter needle replacement 0 text

/-- Whether a text occurs in another one. -/
def holds
    (text needle : Text) :
    Bool :=
  (indexOf? needle text).isSome

end Text

end ScriptUplift
