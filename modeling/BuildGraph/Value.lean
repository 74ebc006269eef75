import BuildGraph.Binary64
import BuildGraph.Quoted
import BuildGraph.SortedMap

/-!
# Parameter values

The parameters of a declaration are typed values. A verb reads the fields it knows; what does not
fit is reported by the shape that was found and the shape that was expected.
-/

namespace BuildGraph

/-- A parameter as it stands in a declaration. -/
inductive Value where
  | null
  | bool (value : Bool)
  | int (value : Int)
  | float (value : Binary64)
  | string (text : String)
  | sequence (items : List Value)
  /-- Entries in the order in which they are visited. -/
  | mapping (entries : List (Value × Value))
deriving Inhabited

namespace Value

/-- The shape of a value, as it is named in messages. -/
def shape : Value → String
  | .null => "unit value"
  | .bool value => "boolean `" ++ (if value then "true" else "false") ++ "`"
  | .int value => "integer `" ++ toString value ++ "`"
  | .float value => "floating point `" ++ value.text ++ "`"
  | .string text => "string " ++ Quoted.encode text
  | .sequence _ => "sequence"
  | .mapping _ => "map"

end Value

/-- Why the parameters of a declaration do not fit its verb. -/
inductive ParameterError where
  | unknownField (name : String) (known : List String)
  | invalidType (found expected : String)
  | missingField (name : String)
deriving DecidableEq, Repr

/-- The wording of each error. -/
def ParameterError.message : ParameterError → String
  | .unknownField name known =>
    "unknown field `" ++ name ++ "`, expected one of " ++
      String.intercalate ", " (known.map fun field => "`" ++ field ++ "`")
  | .invalidType found expected => "invalid type: " ++ found ++ ", expected " ++ expected
  | .missingField name => "missing field `" ++ name ++ "`"

namespace Value

/-- Read a text. -/
def readText : Value → Except ParameterError String
  | .string text => .ok text
  | value => .error (.invalidType value.shape "a string")

/-- Read a list of texts; null is the empty list. -/
def readTexts : Value → Except ParameterError (List String)
  | .null => .ok []
  | .sequence items => items.mapM readText
  | value => .error (.invalidType value.shape "a sequence")

/-- Read the fields of a record that messages call `name`; null is a record without fields. -/
def readFields (name : String) : Value → Except ParameterError (List (String × Value))
  | .null => .ok []
  | .mapping entries => entries.mapM fun
    | (.string field, value) => .ok (field, value)
    | (key, _) => .error (.invalidType key.shape "field identifier")
  | value => .error (.invalidType value.shape ("struct " ++ name))

/-- Read a field that has to be there. -/
def readField {α : Type} (fields : List (String × Value)) (name : String)
    (read : Value → Except ParameterError α) : Except ParameterError α :=
  match fields.lookup name with
  | some value => read value
  | none => .error (.missingField name)

end Value

end BuildGraph
