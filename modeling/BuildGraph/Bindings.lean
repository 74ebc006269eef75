import BuildGraph.Delta

/-!
# Bindings

What a consumer sees once the deltas of its producers are applied: a list or a scalar per field.
Applying a delta goes through its fields in ascending order and stops at the first clash; the fields
before it stay updated.
-/

namespace BuildGraph

/-- The value of one field. -/
inductive Binding where
  | list (entries : List String)
  | scalar (value : String)
deriving DecidableEq, Repr

/-- What an operation makes of the value of its field, or nothing if the two do not fit. -/
def Binding.update? : Option Binding → DeltaOp → Option Binding
  | none, .append entries => some (.list (firstOccurrences entries))
  | some (.list held), .append entries => some (.list (extendUnique held entries))
  | none, .override value => some (.scalar value)
  | some (.scalar _), .override value => some (.scalar value)
  | some (.list _), .override _ => none
  | some (.scalar _), .append _ => none

/-- The fields of a consumer. -/
structure Bindings where
  values : SortedMap String Binding
deriving DecidableEq

/-- An application that met a clash: the field, and the bindings as they are by then. -/
structure Bindings.Clash where
  field : String
  reached : Bindings
deriving DecidableEq

namespace Bindings

/-- No field is bound. -/
def empty : Bindings := ⟨.empty⟩

instance : EmptyCollection Bindings := ⟨empty⟩

/-- Whether no field is bound. -/
def isEmpty (b : Bindings) : Bool := b.values.isEmpty

/-- The value of a field. -/
def get? (b : Bindings) (field : String) : Option Binding := b.values.get? field

/-- The entries of a list field; none if the field is absent or a scalar. -/
def list (b : Bindings) (field : String) : List String :=
  match b.get? field with
  | some (.list entries) => entries
  | _ => []

/-- Apply operations in order, up to the first clash. -/
def applyAll (b : Bindings) : List (String × DeltaOp) → Except Clash Bindings
  | [] => .ok b
  | (field, op) :: rest =>
    match Binding.update? (b.get? field) op with
    | some value => applyAll ⟨b.values.insert field value⟩ rest
    | none => .error { field, reached := b }

end Bindings

namespace Delta

/-- Apply a delta to the bindings of a consumer. -/
def apply (d : Delta) (b : Bindings) : Except Bindings.Clash Bindings :=
  b.applyAll d.ops.entries

end Delta

/-- The error that a clash is reported as. -/
def Bindings.Clash.error (clash : Bindings.Clash) : DeltaError := .kindMismatch clash.field

end BuildGraph
