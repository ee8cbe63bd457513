import Mathlib.Data.List.Basic
import Mathlib.Tactic.Common
import ScriptUplift.Proofs.OrphanTexts

namespace ScriptUplift

/-!
# First uses of suppressed names

The search for references goes down the file once and carries the names in force
and the names already reported.  Looked at for one name it is simple: from the
first line that declares the name on, unless code declares it too, the first line
of code that uses the name is reported, and no other.  Here that is proved of the
search, whatever lines it is given.
-/

/-- Whether a token is a use of a name. -/
def Token.uses
    (code name : Text)
    (token : Token) :
    Bool :=
  token.text == name && isOwnName code token

/-- Whether a line of code has a name by itself or as a member of the object itself. -/
def Line.uses
    (name : Text)
    (line : Line) :
    Bool :=
  !line.category.isTrivia && (identifiers line.code).any (Token.uses line.code name)

namespace Tracked

/-- Whether a line stands for a declaration that no live line repeats. -/
def bringsName
    (live : List Text)
    (tracked : Tracked) :
    Bool :=
  (tracked.declares.filter (!live.contains ·)).isSome

/-- The first line that uses a name, apart from lines that stand for declarations. -/
def firstUse?
    (live : List Text)
    (name : Text)
    (tracked : List Tracked) :
    Option Line :=
  (tracked.find? fun member => !member.bringsName live && member.line.uses name).map (·.line)

/-- The lines below the first one that declares a name. -/
def belowDeclaration
    (name : Text)
    (tracked : List Tracked) :
    List Tracked :=
  (tracked.dropWhile (·.declares != some name)).tail

theorem mem_of_mem_belowDeclaration
    {name : Text}
    {tracked : List Tracked}
    {member : Tracked}
    (isBelow : member ∈ belowDeclaration name tracked) :
    member ∈ tracked :=
  (List.dropWhile_sublist _).subset (List.mem_of_mem_tail isBelow)

end Tracked

/-- The line of a name that is known stays; a new name gets the given line. -/
theorem lookup_rememberName
    (known : List (Text × Nat))
    (name : Text)
    (number : Nat)
    (asked : Text) :
    (rememberName known name number).lookup asked =
      (known.lookup asked).or (if asked = name then some number else none) := by
  unfold rememberName
  split
  · rename_i isKnown
    split
    · rename_i same
      obtain ⟨value, isValue⟩ := Option.isSome_iff_exists.mp isKnown
      rw [same, isValue, Option.some_or]
    · rw [Option.or_none]
  · rw [List.lookup_append]
    congr 1
    by_cases same : asked = name
    · simp [same]
    · simp [same]

/-- The names that are remembered come from the first lines that declare them. -/
theorem lookup_rememberNames
    (known : List (Text × Nat))
    (tracked : List Tracked)
    (asked : Text) :
    (rememberNames known tracked).lookup asked =
      (known.lookup asked).or
        ((tracked.find? (·.declares == some asked)).map (·.line.number)) := by
  unfold rememberNames
  induction tracked generalizing known with
  | nil =>
      simp
  | cons first rest inductionHypothesis =>
      rw [List.foldl_cons, inductionHypothesis]
      cases declared : first.declares with
      | none =>
          simp [declared]
      | some name =>
          rw [lookup_rememberName, Option.or_assoc]
          by_cases same : asked = name
          · simp [declared, same]
          · have other : name ≠ asked := Ne.symm same
            simp [declared, same, other]

namespace ReferenceSearch

/-- The line that a report on a name would cite, while the name waits for its first use. -/
def awaited?
    (search : ReferenceSearch)
    (name : Text) :
    Option Nat :=
  if search.reported.contains name then none else search.active.lookup name

/-- Reporting another name leaves a name waiting as it was. -/
theorem awaited?_report_of_ne
    (active : List (Text × Nat))
    (reported : List Text)
    {name other : Text}
    (different : other ≠ name) :
    awaited? ⟨active, other :: reported⟩ name = awaited? ⟨active, reported⟩ name := by
  simp [awaited?, different.symm]

/-- A reported name does not wait any longer. -/
theorem awaited?_report_self
    (active : List (Text × Nat))
    (reported : List Text)
    (name : Text) :
    awaited? ⟨active, name :: reported⟩ name = none := by
  simp [awaited?]

/-- What the search does about one token, told by whether the name of the token waits. -/
theorem tokens_cons
    (active : List (Text × Nat))
    (line : Line)
    (code : Text)
    (reported : List Text)
    (token : Token)
    (rest : List Token) :
    tokens active line code reported (token :: rest) =
      match if isOwnName code token then awaited? ⟨active, reported⟩ token.text else none with
      | some declaredAt =>
          ((tokens active line code (token.text :: reported) rest).1,
            referenceIssue line token.text declaredAt ::
              (tokens active line code (token.text :: reported) rest).2)
      | none =>
          tokens active line code reported rest := by
  rw [tokens, awaited?]
  dsimp only
  cases reported.contains token.text <;> cases active.lookup token.text <;>
    cases isOwnName code token <;> rfl

/--
The tokens of a line report a name once, if it waits for its first use and one of
them is a use; then it does not wait any longer.
-/
theorem tokens_spec
    (active : List (Text × Nat))
    (line : Line)
    (code : Text)
    (reported : List Text)
    (found : List Token)
    (name : Text) :
    let waiting := awaited? ⟨active, reported⟩ name
    let used := found.any (Token.uses code name)
    (tokens active line code reported found).2.filter (·.name == String.ofList name) =
        ((if used then waiting else none).toList.map (referenceIssue line name)) ∧
      awaited? ⟨active, (tokens active line code reported found).1⟩ name =
        if used then none else waiting := by
  induction found generalizing reported with
  | nil =>
      simp [tokens]
  | cons token rest inductionHypothesis =>
      intro waiting used
      rw [tokens_cons]
      by_cases same : token.text = name
      · have usedHere : Token.uses code name token = isOwnName code token := by
          simp [Token.uses, same]
        rw [same]
        cases isWaiting : awaited? ⟨active, reported⟩ name with
        | none =>
            have spent := inductionHypothesis reported
            simp only [isWaiting] at spent
            simpa [waiting, isWaiting] using spent
        | some declaredAt =>
            cases own : isOwnName code token with
            | true =>
                have spent := inductionHypothesis (name :: reported)
                simp only [awaited?_report_self] at spent
                have named : (referenceIssue line name declaredAt).name = String.ofList name :=
                  rfl
                simpa [waiting, used, isWaiting, usedHere, own, named] using spent
            | false =>
                have later := inductionHypothesis reported
                simp only [isWaiting] at later
                simpa [waiting, used, isWaiting, usedHere, own] using later
      · have notUsed : Token.uses code name token = false := by
          simp [Token.uses, same]
        have later := inductionHypothesis reported
        cases if isOwnName code token then awaited? ⟨active, reported⟩ token.text else none with
        | none =>
            simpa [waiting, used, notUsed] using later
        | some declaredAt =>
            have laterReported := inductionHypothesis (token.text :: reported)
            rw [awaited?_report_of_ne active reported same] at laterReported
            have otherName :
                (referenceIssue line token.text declaredAt).name ≠ String.ofList name := by
              simpa [referenceIssue, String.ofList_inj] using same
            simpa [waiting, used, notUsed, otherName] using laterReported

/-- Only names in force are reported. -/
theorem mem_tokens_fst
    {active : List (Text × Nat)}
    {line : Line}
    {code : Text}
    {reported : List Text}
    {found : List Token}
    {name : Text}
    (isReported : name ∈ (tokens active line code reported found).1) :
    name ∈ reported ∨ (active.lookup name).isSome = true := by
  induction found generalizing reported with
  | nil =>
      exact .inl isReported
  | cons token rest inductionHypothesis =>
      rw [tokens] at isReported
      split at isReported
      · rename_i declaredAt inForce
        split at isReported
        · rcases inductionHypothesis isReported with earlier | later
          · rcases List.mem_cons.mp earlier with rfl | before
            · exact .inr (by rw [inForce]; rfl)
            · exact .inl before
          · exact .inr later
        · exact inductionHypothesis isReported
      · exact inductionHypothesis isReported

/-- The tokens of a line report nothing on a name that is not in force. -/
theorem tokens_of_outOfForce
    {active : List (Text × Nat)}
    {name : Text}
    (outOfForce : active.lookup name = none)
    {line : Line}
    {code : Text}
    {reported : List Text}
    {found : List Token} :
    (tokens active line code reported found).2.filter (·.name == String.ofList name) = [] := by
  have noneWaits : awaited? ⟨active, reported⟩ name = none := by
    simp [awaited?, outOfForce]
  rw [(tokens_spec active line code reported found name).1, noneWaits, ite_self,
    Option.toList_none, List.map_nil]

variable
  {live : List Text}
  {suppressed : List (Text × Nat)}
  {name : Text}

/-- From where a name is in force on, its first use is reported unless one has been. -/
theorem lines_of_inForce
    {search : ReferenceSearch}
    {declaredAt : Nat}
    (inForce : search.active.lookup name = some declaredAt)
    (tracked : List Tracked) :
    (lines live suppressed search tracked).filter (·.name == String.ofList name) =
      if search.reported.contains name then []
      else (Tracked.firstUse? live name tracked).toList.map
        (referenceIssue · name declaredAt) := by
  induction tracked generalizing search with
  | nil =>
      simp [lines, Tracked.firstUse?]
  | cons first rest inductionHypothesis =>
      rw [lines]
      cases brought : first.declares.filter (!live.contains ·) with
      | some other =>
          have brings : first.bringsName live = true := by
            rw [Tracked.bringsName, brought, Option.isSome_some]
          have stillInForce :
              (rememberName search.active other ((suppressed.lookup other).getD 0)).lookup name =
                some declaredAt := by
            rw [lookup_rememberName, inForce, Option.some_or]
          simpa [Tracked.firstUse?, brings] using inductionHypothesis stillInForce
      | none =>
          have brings : first.bringsName live = false := by
            rw [Tracked.bringsName, brought, Option.isSome_none]
          have someActive : search.active.isEmpty = false := by
            cases empty : search.active with
            | nil =>
                rw [empty] at inForce
                cases inForce
            | cons entry others =>
                rfl
          dsimp only
          rw [someActive, Bool.false_or]
          cases trivia : first.line.category.isTrivia with
          | true =>
              have unused : first.line.uses name = false := by
                simp [Line.uses, trivia]
              simpa [Tracked.firstUse?, unused] using inductionHypothesis inForce
          | false =>
              have used : (identifiers first.line.code).any (Token.uses first.line.code name) =
                  first.line.uses name := by
                simp [Line.uses, trivia]
              obtain ⟨own, waits⟩ := tokens_spec search.active first.line first.line.code
                search.reported (identifiers first.line.code) name
              rw [used] at own waits
              simp only [Bool.false_eq_true, if_false]
              generalize tokens search.active first.line first.line.code search.reported
                (identifiers first.line.code) = reports at own waits ⊢
              obtain ⟨reported, issues⟩ := reports
              dsimp only at own waits ⊢
              have later := @inductionHypothesis ⟨search.active, reported⟩ inForce
              rw [List.filter_append, own, later]
              simp only [awaited?, inForce] at waits ⊢
              have found : Tracked.firstUse? live name (first :: rest) =
                  if first.line.uses name then some first.line
                  else Tracked.firstUse? live name rest := by
                cases isUse : first.line.uses name <;> simp [Tracked.firstUse?, brings, isUse]
              have grown : reported.contains name =
                  (first.line.uses name || search.reported.contains name) := by
                revert waits
                cases reported.contains name <;> cases first.line.uses name <;>
                  cases search.reported.contains name <;> simp
              rw [found, grown]
              cases first.line.uses name <;> cases search.reported.contains name <;> rfl

/-- Nothing is reported about a name that live code declares. -/
theorem lines_of_live
    (isLive : live.contains name = true)
    {search : ReferenceSearch}
    (outOfForce : search.active.lookup name = none)
    (tracked : List Tracked) :
    (lines live suppressed search tracked).filter (·.name == String.ofList name) = [] := by
  induction tracked generalizing search with
  | nil =>
      rfl
  | cons first rest inductionHypothesis =>
      rw [lines]
      split
      · rename_i other brought
        obtain ⟨_, notLive⟩ := Option.filter_eq_some_iff.mp brought
        have different : name ≠ other := by
          rintro rfl
          exact absurd isLive (by simpa using notLive)
        apply inductionHypothesis
        rw [lookup_rememberName, outOfForce, Option.none_or, if_neg different]
      · split
        · exact inductionHypothesis outOfForce
        · rw [List.filter_append, tokens_of_outOfForce outOfForce, List.nil_append]
          exact @inductionHypothesis ⟨search.active, _⟩ outOfForce

/--
A name that live code does not declare is reported at its first use below the
first line that stands for a declaration of it.
-/
theorem lines_of_notLive
    (notLive : live.contains name = false)
    {search : ReferenceSearch}
    (outOfForce : search.active.lookup name = none)
    (unreported : name ∉ search.reported)
    (tracked : List Tracked) :
    (lines live suppressed search tracked).filter (·.name == String.ofList name) =
      (Tracked.firstUse? live name (Tracked.belowDeclaration name tracked)).toList.map
        (referenceIssue · name ((suppressed.lookup name).getD 0)) := by
  induction tracked generalizing search with
  | nil =>
      rfl
  | cons first rest inductionHypothesis =>
      rw [lines]
      by_cases declares : first.declares = some name
      · have brought : first.declares.filter (!live.contains ·) = some name := by
          rw [declares, Option.filter_some, notLive]
          rfl
        have inForce :
            (rememberName search.active name ((suppressed.lookup name).getD 0)).lookup name =
              some ((suppressed.lookup name).getD 0) := by
          rw [lookup_rememberName, outOfForce, Option.none_or, if_pos rfl]
        have below : Tracked.belowDeclaration name (first :: rest) = rest := by
          simp [Tracked.belowDeclaration, declares]
        rw [brought, below]
        dsimp only
        rw [lines_of_inForce inForce, if_neg (by simpa using unreported)]
      · have below : Tracked.belowDeclaration name (first :: rest) =
            Tracked.belowDeclaration name rest := by
          simp [Tracked.belowDeclaration, declares]
        rw [below]
        split
        · rename_i other brought
          obtain ⟨isDeclared, _⟩ := Option.filter_eq_some_iff.mp brought
          have different : name ≠ other := by
            rintro rfl
            exact declares isDeclared
          apply inductionHypothesis
          · rw [lookup_rememberName, outOfForce, Option.none_or, if_neg different]
          · exact unreported
        · split
          · exact inductionHypothesis outOfForce unreported
          · rw [List.filter_append, tokens_of_outOfForce outOfForce, List.nil_append]
            refine @inductionHypothesis ⟨search.active, _⟩ outOfForce ?_
            intro isReported
            rcases mem_tokens_fst isReported with earlier | inForce
            · exact unreported earlier
            · rw [outOfForce] at inForce
              cases inForce

end ReferenceSearch

/--
The reports on a name: none if live code declares it, and else one about its
first use below the first line that stands for a declaration of it, if there is
such a use.
-/
theorem referenceIssues_filter
    (suppressed : List (Text × Nat))
    (tracked : List Tracked)
    (name : Text) :
    (referenceIssues suppressed tracked).filter (·.name == String.ofList name) =
      if (namesInUse (tracked.map (·.line))).contains name then []
      else
        (Tracked.firstUse? (namesInUse (tracked.map (·.line))) name
          (Tracked.belowDeclaration name tracked)).toList.map
            (referenceIssue · name ((suppressed.lookup name).getD 0)) := by
  unfold referenceIssues
  split
  · rename_i noneDeclares
    have nothingBelow : Tracked.belowDeclaration name tracked = [] := by
      have dropped : tracked.dropWhile (·.declares != some name) = [] := by
        rw [List.dropWhile_eq_nil_iff]
        intro member isMember
        have undeclared := List.all_eq_true.mp noneDeclares member isMember
        simp [Option.isNone_iff_eq_none.mp undeclared]
      rw [Tracked.belowDeclaration, dropped, List.tail_nil]
    simp [nothingBelow, Tracked.firstUse?]
  · split
    · rename_i isLive
      exact ReferenceSearch.lines_of_live isLive rfl tracked
    · rename_i notLive
      exact ReferenceSearch.lines_of_notLive (by simpa using notLive) rfl (by simp) tracked

end ScriptUplift
