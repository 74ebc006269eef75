import BuildGraph.SortedMap

/-!
# Deltas

A delta is what a target changes for everything that consumes its output: per field, either entries
appended to a list or a value that replaces a scalar. `a.compose b` is "first `a`, then `b`".

Two appends concatenate and keep the first occurrence of each entry, two overrides keep the later
value, and an append against an override of the same field is a clash. So a delta that reaches a
consumer along several paths is not applied twice.

Main statements: what extending a list does to its members (`mem_extendUnique`), that it brings in no
repetitions (`nodup_extendUnique`), and that it can be done in two steps (`extendUnique_append`).
-/

namespace BuildGraph

/-- The field that lists the labels a consumer depends on without naming them as inputs. -/
def implicitField : String := "__implicit__"

/-- A field that is used both as a list and as a scalar. -/
inductive DeltaError where
  | kindMismatch (field : String)
deriving DecidableEq, Repr

/-- The wording of a clash. -/
def DeltaError.message : DeltaError → String
  | .kindMismatch field => "field '" ++ field ++ "' is used both as a list and as a scalar"

/-- What a delta does to one field. -/
inductive DeltaOp where
  /-- Append the entries that the list does not hold yet. -/
  | append (entries : List String)
  /-- Replace the value. -/
  | override (value : String)
deriving DecidableEq, Repr

/-! ## Lists without repetitions -/

section Unique

variable {α : Type} [DecidableEq α]

/-- Append, one after another, the entries that are not there yet. -/
def extendUnique (list : List α) : List α → List α
  | [] => list
  | entry :: entries =>
    extendUnique (if list.contains entry then list else list ++ [entry]) entries

/-- The first occurrence of each entry. -/
def firstOccurrences (entries : List α) : List α := extendUnique [] entries

theorem mem_extendUnique {entry : α} {list entries : List α} :
    entry ∈ extendUnique list entries ↔ entry ∈ list ∨ entry ∈ entries := by
  induction entries generalizing list with
  | nil => simp [extendUnique]
  | cons next entries ih =>
    rw [extendUnique, ih]
    split
    next h =>
      have hnext : next ∈ list := List.contains_iff_mem.mp h
      simp only [List.mem_cons]
      exact ⟨Or.imp id .inr, fun h => h.elim .inl fun h =>
        h.elim (fun h => .inl (h ▸ hnext)) .inr⟩
    next => simp [or_assoc]

/-- Extending adds entries at the end only. -/
theorem prefix_extendUnique (list entries : List α) : list <+: extendUnique list entries := by
  induction entries generalizing list with
  | nil => exact List.prefix_rfl
  | cons next entries ih =>
    rw [extendUnique]
    split
    · exact ih list
    · exact (List.prefix_append list [next]).trans (ih _)

/-- Extending keeps a list free of repetitions. -/
theorem nodup_extendUnique {list : List α} (h : list.Nodup) (entries : List α) :
    (extendUnique list entries).Nodup := by
  induction entries generalizing list with
  | nil => exact h
  | cons next entries ih =>
    rw [extendUnique]
    split
    next => exact ih h
    next hnext =>
      refine ih (List.nodup_append.mpr ⟨h, List.pairwise_singleton _ _, fun a ha b hb => ?_⟩)
      rintro rfl
      exact hnext (List.contains_iff_mem.mpr (List.mem_singleton.mp hb ▸ ha))

/-- Extending by two lists is extending by the one and then by the other. -/
theorem extendUnique_append (list first next : List α) :
    extendUnique list (first ++ next) = extendUnique (extendUnique list first) next := by
  induction first generalizing list with
  | nil => rfl
  | cons entry first ih => exact ih _

/-- Extending by what was extended is extending twice: entries that the second list adds only if they
are new are added only if they are new. -/
theorem extendUnique_extendUnique (list first next : List α) :
    extendUnique list (extendUnique first next) =
      extendUnique (extendUnique list first) next := by
  induction next generalizing first with
  | nil => rfl
  | cons entry next ih =>
    rw [extendUnique, ih, extendUnique]
    by_cases hmem : entry ∈ first
    · have hmem' : entry ∈ extendUnique list first := mem_extendUnique.mpr (.inr hmem)
      rw [if_pos (List.contains_iff_mem.mpr hmem), if_pos (List.contains_iff_mem.mpr hmem')]
    · rw [if_neg (by simpa using hmem), extendUnique_append]
      rfl

/-- Extending commutes with a renaming of the entries. -/
theorem extendUnique_map {β : Type} [DecidableEq β] {f : α → β} (hf : ∀ a b, f a = f b → a = b)
    (list entries : List α) :
    extendUnique (list.map f) (entries.map f) = (extendUnique list entries).map f := by
  induction entries generalizing list with
  | nil => rfl
  | cons entry entries ih =>
    have hcontains : (list.map f).contains (f entry) = list.contains entry := by
      rw [Bool.eq_iff_iff, List.contains_iff_mem, List.contains_iff_mem, List.mem_map]
      constructor
      · rintro ⟨other, hother, heq⟩
        exact hf _ _ heq ▸ hother
      · intro hmem
        exact ⟨entry, hmem, rfl⟩
    rw [List.map_cons, extendUnique, extendUnique, ← ih, hcontains]
    split
    · rfl
    · rw [List.map_append]
      rfl

theorem extendUnique_eq_append {list entries : List α} (h : (list ++ entries).Nodup) :
    extendUnique list entries = list ++ entries := by
  induction entries generalizing list with
  | nil => simp [extendUnique]
  | cons entry entries ih =>
    have hnot : entry ∉ list := fun hmem =>
      (List.nodup_append.mp h).2.2 entry hmem entry List.mem_cons_self rfl
    rw [extendUnique, if_neg (by simpa using hnot), ih (by simpa using h), List.append_assoc]
    rfl

/-- Leaving out entries before extending is leaving them out afterwards. -/
theorem filter_extendUnique (keep : α → Bool) (list entries : List α) :
    (extendUnique list entries).filter keep =
      extendUnique (list.filter keep) (entries.filter keep) := by
  induction entries generalizing list with
  | nil => rfl
  | cons entry entries ih =>
    rw [extendUnique, ih]
    by_cases hkeep : keep entry = true
    · rw [List.filter_cons_of_pos hkeep, extendUnique]
      by_cases hmem : entry ∈ list <;> simp [hmem, hkeep]
    · rw [List.filter_cons_of_neg hkeep]
      split
      · rfl
      · simp [hkeep]

theorem extendUnique_append_left (first list entries : List α) :
    extendUnique (first ++ list) entries =
      first ++ extendUnique list (entries.filter fun entry => entry ∉ first) := by
  induction entries generalizing list with
  | nil => rfl
  | cons entry entries ih =>
    rw [extendUnique]
    by_cases hmem : entry ∈ first
    · rw [if_pos (by simp [hmem]), List.filter_cons_of_neg (by simpa using hmem), ih]
    · rw [List.filter_cons_of_pos (by simpa using hmem), extendUnique]
      by_cases hlist : entry ∈ list
      · rw [if_pos (by simp [hlist]), if_pos (by simpa using hlist), ih]
      · rw [if_neg (by simp [hmem, hlist]), if_neg (by simpa using hlist), List.append_assoc, ih]

theorem mem_firstOccurrences {entry : α} {entries : List α} :
    entry ∈ firstOccurrences entries ↔ entry ∈ entries := by
  simp [firstOccurrences, mem_extendUnique]

theorem nodup_firstOccurrences (entries : List α) : (firstOccurrences entries).Nodup :=
  nodup_extendUnique .nil entries

/-- What a list is extended by is, each once, the entries that it does not hold. -/
theorem extendUnique_eq (list entries : List α) : extendUnique list entries =
    list ++ firstOccurrences (entries.filter fun entry => entry ∉ list) := by
  rw [firstOccurrences, ← extendUnique_append_left, List.append_nil]

theorem firstOccurrences_eq_self {entries : List α} (h : entries.Nodup) :
    firstOccurrences entries = entries :=
  extendUnique_eq_append h

end Unique

namespace DeltaOp

/-- The operation with the repetitions of an appended list removed. -/
def normalize : DeltaOp → DeltaOp
  | .append entries => .append (firstOccurrences entries)
  | .override value => .override value

/-- The operation on `field` that does the one and then the other. -/
def andThen (field : String) : DeltaOp → DeltaOp → Except DeltaError DeltaOp
  | .append first, .append next => .ok (.append (extendUnique first next))
  | .override _, .override value => .ok (.override value)
  | _, _ => .error (.kindMismatch field)

end DeltaOp

/-! ## Deltas -/

/-- Operations on fields, at most one on each. -/
structure Delta where
  ops : SortedMap String DeltaOp
deriving DecidableEq

namespace Delta

/-- The delta that changes nothing. -/
def empty : Delta := ⟨.empty⟩

instance : EmptyCollection Delta := ⟨empty⟩

/-- Whether the delta changes nothing. -/
def isEmpty (d : Delta) : Bool := d.ops.isEmpty

/-- The operation on a field. -/
def get? (d : Delta) (field : String) : Option DeltaOp := d.ops.get? field

/-- The delta with the operation on `field` replaced by an override. -/
def withOverride (d : Delta) (field value : String) : Delta :=
  ⟨d.ops.insert field (.override value)⟩

/-- The delta that appends to each listed field, repetitions within one list removed. Of two lists
for one field the later counts. -/
def appending (fields : List (String × List String)) : Delta :=
  ⟨SortedMap.ofList (fields.map fun (field, entries) => (field, (DeltaOp.append entries).normalize))⟩

/-- Add one operation after those already there. -/
def push (ops : SortedMap String DeltaOp) (field : String) (op : DeltaOp) :
    Except DeltaError (SortedMap String DeltaOp) :=
  match ops.get? field with
  | some existing => (existing.andThen field op).map (ops.insert field)
  | none => .ok (ops.insert field op.normalize)

/-- Add operations after those already there, in order; the first clash ends it. -/
def pushAll (ops : SortedMap String DeltaOp) :
    List (String × DeltaOp) → Except DeltaError (SortedMap String DeltaOp)
  | [] => .ok ops
  | (field, op) :: rest => do pushAll (← push ops field op) rest

/-- The delta that does `a` and then `b`. Fields of `b` are taken in ascending order, so a clash
names the least field on which the two disagree. -/
def compose (a b : Delta) : Except DeltaError Delta :=
  (pushAll a.ops b.ops.entries).map Delta.mk

end Delta

end BuildGraph
