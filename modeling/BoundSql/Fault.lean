import BoundSql.Options

/-!
# Faults

Everything that can go wrong, by cause. Faults of the first group arise wherever a value of the
wrong kind is used and carry nothing but their cause. The other three groups are the faults that
this library itself raises: a fragment made from the wrong parts, a statement that is refused,
and options that are not acceptable. Only these have a message, and each wording stands in one
function below.
-/

set_option autoImplicit false

namespace BoundSql

/-- Why a fragment cannot be made from the given parts. -/
inductive Misuse where
  /-- A callback answered with a value of the type `answer` instead of a statement. -/
  | answerNotStatement (className answer : String)
  /-- The condition of a join of the class `className` is not a fragment. -/
  | joinCondition (className : String)
  | joinOfNothing
  | joinOfNoJoin
  | branchParts
  | fallbackPart
  | choiceBranches
  | choiceFallback
  deriving DecidableEq, Repr

/-- The class of the fragment that was to be made. -/
def Misuse.className : Misuse → String
  | .answerNotStatement c _ | .joinCondition c => c
  | .joinOfNothing | .joinOfNoJoin => "Join"
  | .branchParts => "When"
  | .fallbackPart => "Else"
  | .choiceBranches | .choiceFallback => "Case"

/-- The wording of a misuse. -/
def Misuse.message : Misuse → String
  | .answerNotStatement _ answer =>
      "Nested select function must return select string, got " ++ answer ++ "."
  | .joinCondition _ => "Must provide a valid WHERE clause for join condition."
  | .joinOfNothing => "Cannot create JOIN without a join or a table."
  | .joinOfNoJoin => "Cannot use non-join object to directly create JOIN."
  | .branchParts => "When clause must be constructed from a WHERE and a SUBSELECT clause."
  | .fallbackPart => "Else clause must be constructed from a SUBSELECT clause."
  | .choiceBranches => "Case branches must be When clauses."
  | .choiceFallback => "Case else branch must be an Else clause."

/-- A cause of failure. -/
inductive Fault where
  /-- A name was expected and a value without dotted parts was given. -/
  | notAName
  /-- A name was given as a byte string. -/
  | nameOfBytes
  /-- Texts are joined, and one of them is no text. -/
  | notText
  /-- The text of an integer would have too many digits. -/
  | integerTooLong
  /-- A join was given a direction that is none. -/
  | notAJoinKind
  /-- A builder was given options that are none, and now needs them. -/
  | notOptions
  | notCallable
  | notIterable
  /-- A map was expected. -/
  | notAMap
  /-- A value that can be no key was used as one. -/
  | notAKey
  /-- An element of a sequence of pairs does not have two parts. -/
  | notAPair
  /-- Two values that have no order were compared. -/
  | notOrdered
  /-- A call had too many, too few or unknown arguments. -/
  | badArguments
  /-- A count was expected. -/
  | notACount
  /-- NaN has no integer part. -/
  | integerOfNan
  /-- Infinity has no integer part. -/
  | integerOfInfinity
  /-- A name stands for nothing. -/
  | unknownName (name : String)
  /-- Callbacks are nested too deeply. -/
  | nestedTooDeep
  | misuse (m : Misuse)
  /-- A statement that would delete every row. -/
  | unfilteredDelete
  | badOptions (issues : List Options.Issue)
  deriving DecidableEq, Repr

namespace Fault

/-- The wording of a refused statement. -/
def unfilteredDeleteMessage : String :=
  "Can not create delete statement without at least one condition."

/-- The wording of unacceptable options, which says how many issues there are. -/
def badOptionsMessage (issues : List Options.Issue) : String :=
  "Invalid builder options: " ++ Nat.repr issues.length ++ " validation error"
    ++ (if issues.length = 1 then "" else "s") ++ " for BuilderOptions"

/-- The message of a fault, for the faults that have one. -/
def message? : Fault → Option String
  | .misuse m => some m.message
  | .unfilteredDelete => some unfilteredDeleteMessage
  | .badOptions issues => some (badOptionsMessage issues)
  | _ => none

end Fault

end BoundSql
