import BuildGraph.Target
import BuildGraph.Value

/-!
# Declarations

A verb turns the name and the parameters of a declaration into a target. A registry of verbs says
which verbs a project may use.
-/

namespace BuildGraph

/-- What is wrong at one place of a descriptor. -/
inductive LoadFault where
  /-- The text is no descriptor. -/
  | parse
  /-- The output root, a package path, a name or a reference is invalid. -/
  | label (error : LabelError)
  | unknownVerb (package verb : String)
  | invalidParameters (target : Label) (error : ParameterError)
  | duplicateTarget (target : Label)
deriving DecidableEq

/-- What is said of a text that is no descriptor. -/
def LoadFault.parseReason : String := "the text is not a project descriptor"

/-- The wording of each fault. -/
def LoadFault.message : LoadFault → String
  | .parse => "failed to parse project: " ++ parseReason
  | .label error => error.message
  | .unknownVerb package verb => "package " ++ package ++ ": unknown verb '" ++ verb ++ "'"
  | .invalidParameters target error =>
    target.text ++ ": invalid parameters: " ++ error.message
  | .duplicateTarget target => "duplicate target " ++ target.text

/-- Why a descriptor cannot be loaded, or a declaration cannot be made a target. -/
inductive LoadError where
  /-- One thing is wrong. -/
  | single (fault : LoadFault)
  /-- Several declarations are wrong. -/
  | declarations (errors : List LoadError)

namespace LoadError

/-- The error of an invalid name, path or reference. -/
def label (error : LabelError) : LoadError := .single (.label error)

mutual

/-- The wording of each error. -/
def message : LoadError → String
  | .single fault => fault.message
  | .declarations errors =>
    toString errors.length ++ " target declarations failed:\n" ++
      String.intercalate "\n" (messageLines errors)

/-- The errors of a list below each other. -/
def messageLines : List LoadError → List String
  | [] => []
  | error :: errors => ("  " ++ error.message) :: messageLines errors

end

mutual

/-- Whether two errors are the same. -/
def decEq : (a b : LoadError) → Decidable (a = b)
  | .single fault, .single other =>
    decidable_of_iff (fault = other) (iff_of_eq (single.injEq fault other).symm)
  | .declarations errors, .declarations others =>
    match decEqAll errors others with
    | isTrue h => isTrue (congrArg declarations h)
    | isFalse h => isFalse fun heq => h (declarations.inj heq)
  | .single _, .declarations _ | .declarations _, .single _ => isFalse nofun

/-- Whether two lists of errors are the same. -/
def decEqAll : (a b : List LoadError) → Decidable (a = b)
  | [], [] => isTrue rfl
  | error :: errors, other :: others =>
    match decEq error other, decEqAll errors others with
    | isTrue h, isTrue hs => isTrue (h ▸ hs ▸ rfl)
    | isFalse h, _ => isFalse fun heq => h (List.cons.inj heq).1
    | _, isFalse hs => isFalse fun heq => hs (List.cons.inj heq).2
  | [], _ :: _ | _ :: _, [] => isFalse nofun

end

instance : DecidableEq LoadError := decEq

end LoadError

/-- A verb: what makes a target of a package, a name and parameters. It may answer with any
error. -/
abbrev Verb := Package → String → Value → Except LoadError Target

/-- The verbs that declarations may use, by the word that stands for them. -/
structure VerbRegistry where
  verbs : SortedMap String Verb

namespace VerbRegistry

/-- No verb is known. -/
def empty : VerbRegistry := ⟨.empty⟩

/-- Add a verb, or replace the one of that word. -/
def add (registry : VerbRegistry) (word : String) (verb : Verb) : VerbRegistry :=
  ⟨registry.verbs.insert word verb⟩

/-- The verb that a word stands for. -/
def get? (registry : VerbRegistry) (word : String) : Option Verb := registry.verbs.get? word

/-- The words, ascending. -/
def words (registry : VerbRegistry) : List String := registry.verbs.keys

end VerbRegistry

end BuildGraph
