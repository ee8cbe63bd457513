import ScriptUplift.Pattern.Grammar
import ScriptUplift.Text.Replace

namespace ScriptUplift

/-!
# Ignore rules

A line of an ignore file describes paths that are left out, or, after an
exclamation mark, paths that are kept after all.  A line is turned into a
pattern piece by piece; what is no wildcard of ignore files keeps its meaning in
the notation of patterns.  The last rule that applies to a path decides.
-/

/-- A rule about paths. -/
structure IgnoreRule where
  pattern : Pattern
  /-- The rule keeps the paths it describes. -/
  keeps : Bool
  deriving Repr, DecidableEq

namespace IgnoreRule

/-- Stands for a star that is already part of a pattern while the others are replaced. -/
def starMark : Text :=
  "#$~".toList

/--
Whether a folder is followed by a star and a dot further on.  Such a rule is about
the root, even without a slash in front.
-/
def namesSuffixInFolder : Text → Bool
  | folder :: '/' :: rest =>
      (folder != '/' && folder != '+' && Text.holds rest "*.".toList) ||
        namesSuffixInFolder ('/' :: rest)
  | _ :: rest =>
      namesSuffixInFolder rest
  | [] =>
      false

/-- The line without an escaped mark of a comment or a kept path in first place. -/
def dropMark : Text → Text
  | '#' :: rest => rest
  | '!' :: rest => rest
  | line => line

/-- The line with the slash that binds it to the root. -/
def bindToRoot
    (line : Text) :
    Text :=
  if namesSuffixInFolder line && line.head? != some '/' then '/' :: line else line

/-- The line with wildcards replaced by the notation of patterns. -/
def expandWildcards
    (line : Text) :
    Text :=
  let dotted := line.replaceAll ['.'] "\\.".toList
  let headless := if dotted.startsWith "/**/".toList then dotted.drop 1 else dotted
  let middles := Text.replaceAll headless "/**/".toList "(/|/.+/)".toList
  let fronts := middles.replaceAll "**/".toList ("(|.".toList ++ starMark ++ "/)".toList)
  let backs := fronts.replaceAll "/**".toList ("(|/.".toList ++ starMark ++ ")".toList)
  let escaped := backs.replaceAll "\\*".toList ('\\' :: starMark)
  let stars := escaped.replaceAll ['*'] "([^/]*)".toList
  let questions := stars.replaceAll ['?'] "\\?".toList
  questions.replaceAll starMark ['*']

/-- Close an expanded line at both ends: it describes whole paths and what is below them. -/
def closeEnds
    (line : Text) :
    Text :=
  let tail := if line.endsWith ['/'] then "(|.*)$".toList else "(|/.*)$".toList
  match line ++ tail with
  | '/' :: rest => "^(|/)".toList ++ rest
  | whole => "^(|.*/)".toList ++ whole

/-- The line without the spaces around it. -/
def trimSpaces
    (line : Text) :
    Text :=
  Text.dropEndWhile (· == ' ') (line.dropWhile (· == ' '))

/-- The pattern of a line without its mark of a kept path. -/
def patternOf?
    (line : Text) :
    Option Pattern :=
  Pattern.parse? (closeEnds (expandWildcards (bindToRoot (dropMark line))))

/-- The rule of a line; comments, blank lines and lines that are no pattern have none. -/
def ofLine?
    (line : Text) :
    Option IgnoreRule :=
  let whole := Text.dropEndWhile (· == '\r') line
  if whole.startsWith ['#'] then
    none
  else
    match trimSpaces whole with
    | [] => none
    | '!' :: rest => (patternOf? rest).map (⟨·, true⟩)
    | trimmed => (patternOf? trimmed).map (⟨·, false⟩)

/-- The rules of the lines of a file. -/
def ofLines
    (lines : List Text) :
    List IgnoreRule :=
  lines.filterMap ofLine?

/-- What is known about a path after one more rule. -/
def decide
    (path : Text)
    (ignored : Bool)
    (rule : IgnoreRule) :
    Bool :=
  if rule.pattern.occursIn path then !rule.keeps else ignored

/-- Whether rules leave a path out. -/
def ignores
    (rules : List IgnoreRule)
    (path : Text) :
    Bool :=
  rules.foldl (decide path) false

end IgnoreRule

end ScriptUplift
