import BuildGraph.Proofs.Inheritance
import BuildGraph.Proofs.Loading

/-!
# Declared steps

A declaration is read as a step: a run of the tool or a bundle. The two differ in their rule, their
variables and the number of their sources. Otherwise a step lowers in one way: its environment is
looked up in the project, its tool in the environment, and it yields one edge with one output, which
its consumers are told of.

Main statements: the steps that a loaded descriptor declares (`declares_of_load`), and what such a
step is like (`Declares.project_eq`, `Declares.hasLineBreak_source`).
-/

namespace BuildGraph

theorem findEnvironment_eq (project : Project) (name : String) : findEnvironment project name =
    match project.environments.get? name with
    | none => .error (.unknownEnvironment name)
    | some environment => .ok environment := by
  rw [findEnvironment, Project.resolve, EnvironmentRegistry.resolve]
  cases project.environments.get? name <;> rfl

/-- What a declaration is read as. -/
inductive Step where
  | objcopy (run : Objcopy)
  | bundle (pack : Bundle)

namespace Step

/-- The target. -/
def target : Step → Target
  | .objcopy run => run.target
  | .bundle pack => pack.target

def label : Step → Label
  | .objcopy run => run.label
  | .bundle pack => pack.label

/-- The project that it was declared in. -/
def project : Step → Project
  | .objcopy run => run.project
  | .bundle pack => pack.project

/-- The name of the environment that binds the tool. -/
def environment : Step → String
  | .objcopy run => run.environment
  | .bundle pack => pack.environment

/-- What is consumed, in order of declaration. -/
def sources : Step → List Artifact
  | .objcopy run => [run.source]
  | .bundle pack => pack.sources

/-- The environment key of the tool. -/
def toolKey : Step → String
  | .objcopy _ => Objcopy.toolKey
  | .bundle _ => Bundle.toolKey

/-- The edge for a tool, before it waits for further files. -/
def edge : Step → String → Edge
  | .objcopy run => run.edge
  | .bundle pack => pack.edge

variable (step : Step)

theorem target_label : step.target.label = step.label := by
  cases step <;> rfl

theorem target_dependencies :
    step.target.dependencies = step.sources.filterMap Artifact.producer? := by
  cases step with
  | objcopy run =>
    cases hsource : run.source with
    | source path => simp [target, sources, Objcopy.target, hsource, Artifact.producer?]
    | output d => simp [target, sources, Objcopy.target, hsource, Artifact.producer?]
  | bundle pack => rfl

theorem edge_inputs (tool : String) :
    (step.edge tool).inputs = step.sources.map step.project.inputPath := by
  cases step <;> rfl

theorem edge_outputs (tool : String) :
    (step.edge tool).outputs = [step.project.outputPath step.label] := by
  cases step with
  | objcopy run => exact congrArg ([·]) (Package.outputPath_name run.project run.label)
  | bundle pack => exact congrArg ([·]) (Package.outputPath_name pack.project pack.label)

theorem edge_implicit (tool : String) : (step.edge tool).implicit = [] := by
  cases step <;> rfl

/-- Resolving a step keeps the environment of the project that assembles it. -/
theorem resolve_eq (project : Project) : step.target.resolve project =
    match findEnvironment project step.environment with
    | .error fault => (.error ⟨step.label, fault⟩, step.target)
    | .ok environment => (.ok environment, { step.target with resolved := some environment }) := by
  cases step with
  | objcopy run =>
    simp only [Target.resolve, target, Objcopy.target, environment, label]
    cases findEnvironment project run.environment <;> rfl
  | bundle pack =>
    simp only [Target.resolve, target, Bundle.target, environment, label]
    cases findEnvironment project pack.environment <;> rfl

/-- With an environment kept, a step yields its edge and announces itself, or it lacks the tool. -/
theorem products_eq (environment : Environment) :
    ({ step.target with resolved := some environment } : Target).products =
      match environment.get? step.toolKey with
      | none => .error ⟨step.label, .missingToolBinding step.toolKey⟩
      | some tool => .ok { exports := announcement step.label, edges := [step.edge tool] } := by
  cases step with
  | objcopy run =>
    simp only [Target.products, target, Objcopy.target, Target.blame, Objcopy.lower, toolKey]
    cases environment.get? Objcopy.toolKey <;> rfl
  | bundle pack =>
    simp only [Target.products, target, Bundle.target, Target.blame, Bundle.lower, toolKey]
    cases environment.get? Bundle.toolKey <;> rfl

theorem products_of_resolve {project : Project} {environment : Environment} {after : Target}
    {products : Products} (hres : step.target.resolve project = (.ok environment, after))
    (hp : after.products = .ok products) :
    ∃ tool, environment.get? step.toolKey = some tool ∧
      products = { exports := announcement step.label, edges := [step.edge tool] } := by
  rw [resolve_eq] at hres
  split at hres
  · cases hres
  · cases hres
    rw [products_eq] at hp
    split at hp
    · cases hp
    next tool htool =>
      cases hp
      exact ⟨tool, htool, rfl⟩

theorem announces (project : Project) : step.target.Announces project := by
  intro environment after products hres hp
  obtain ⟨tool, -, rfl⟩ := step.products_of_resolve hres hp
  rw [target_label]

theorem mem_dependencies {step : Step} {d : Label} :
    d ∈ step.target.dependencies ↔ .output d ∈ step.sources := by
  rw [step.target_dependencies, List.mem_filterMap]
  constructor
  · rintro ⟨source, hsource, hd⟩
    cases source with
    | source path => cases hd
    | output e =>
      obtain rfl := Option.some.inj hd
      exact hsource
  · intro hd
    exact ⟨_, hd, rfl⟩

/-- A step depends on the producers of its generated sources. -/
theorem dependsOn_of_source {targets : List Target} {step : Step} (ht : step.target ∈ targets)
    {d : Label} (hd : .output d ∈ step.sources) : DependsOn targets step.label d :=
  ⟨step.target, ht, step.target_label, mem_dependencies.mpr hd⟩

end Step

/-! ## Reading declarations -/

/-- A declaration is read as a step. -/
inductive Reads : Package × Declaration → Step → Prop
  | objcopy {package : Package} {declaration : Declaration} {run : Objcopy} :
      declaration.verb = Objcopy.word →
      Objcopy.read package declaration.name declaration.value = .ok run →
      Reads (package, declaration) (.objcopy run)
  | bundle {package : Package} {declaration : Declaration} {pack : Bundle} :
      declaration.verb = Bundle.word →
      Bundle.read package declaration.name declaration.value = .ok pack →
      Reads (package, declaration) (.bundle pack)

/-- What a descriptor declares: a project, and steps with different labels. -/
structure Declares (descriptor : Descriptor) (loaded : Loaded) (steps : List Step) : Prop where
  project : Project.make descriptor.environments descriptor.genroot = .ok loaded.project
  reads : ∃ declarations, descriptor.declarations loaded.project = .ok declarations ∧
    List.Forall₂ Reads declarations steps
  targets : loaded.targets = steps.map Step.target
  distinct : (loaded.targets.map Target.label).Nodup

theorem Artifact.hasLineBreak_of_parse {package : PackagePath} {reference path : String}
    (h : parse package reference = .ok (.source path)) : hasLineBreak path = false := by
  rw [parse] at h
  split at h
  next =>
    obtain ⟨label, -, heq⟩ := map_eq_ok h
    cases heq
  next =>
    split at h
    next hpath =>
      cases h
      simp only [isSourcePath, Bool.and_eq_true, Bool.not_eq_true'] at hpath
      exact hpath.2
    next => cases h

namespace Reads

variable {declaration : Package × Declaration} {step : Step}

theorem project_eq (h : Reads declaration step) : step.project = declaration.1.project := by
  cases h with
  | objcopy _ hread =>
    rw [Objcopy.read] at hread
    obtain ⟨label, -, hread⟩ := bind_eq_ok hread
    obtain ⟨parameters, -, hread⟩ := bind_eq_ok hread
    obtain ⟨source, -, hread⟩ := bind_eq_ok hread
    obtain ⟨label, -, hmake⟩ := bind_eq_ok (mapError_eq_ok hread)
    cases hmake
    rfl
  | bundle _ hread =>
    rw [Bundle.read] at hread
    obtain ⟨label, -, hread⟩ := bind_eq_ok hread
    obtain ⟨parameters, -, hread⟩ := bind_eq_ok hread
    obtain ⟨sources, -, hread⟩ := bind_eq_ok hread
    cases hread
    rfl

end Reads

/-! ## Loaded steps -/

section Load

variable {descriptor : Descriptor} {loaded : Loaded}

/-- With the built-in verbs a declaration is read as a run of the tool. -/
theorem reads_of_declare_standard {package : Package} {declaration : Declaration} {t : Target}
    (h : Descriptor.declare .standard package declaration = .ok t) :
    ∃ run : Objcopy, run.target = t ∧ Reads (package, declaration) (.objcopy run) := by
  rw [Descriptor.declare] at h
  by_cases hword : declaration.verb = Objcopy.word
  · have hverb : VerbRegistry.standard.get? declaration.verb = some Objcopy.declare := by
      rw [hword]
      exact SortedMap.get?_insert_self _ _ _
    rw [hverb] at h
    obtain ⟨run, hread, htarget⟩ := map_eq_ok h
    exact ⟨run, htarget, .objcopy hword (mapError_eq_ok hread)⟩
  · have hverb : VerbRegistry.standard.get? declaration.verb = none :=
      SortedMap.get?_insert_of_ne _ hword _
    rw [hverb] at h
    cases h

/-- With the `bundle` verb plugged in it is read as a run or a bundle. -/
theorem reads_of_declare {package : Package} {declaration : Declaration} {t : Target}
    (h : Descriptor.declare .withBundle package declaration = .ok t) :
    ∃ step : Step, step.target = t ∧ Reads (package, declaration) step := by
  by_cases hword : declaration.verb = Bundle.word
  · have hverb : VerbRegistry.withBundle.get? declaration.verb = some Bundle.declare := by
      rw [hword]
      exact SortedMap.get?_insert_self _ _ _
    rw [Descriptor.declare, hverb] at h
    obtain ⟨pack, hread, htarget⟩ := map_eq_ok h
    exact ⟨.bundle pack, htarget, .bundle hword (mapError_eq_ok hread)⟩
  · have hverb : VerbRegistry.withBundle.get? declaration.verb =
        VerbRegistry.standard.get? declaration.verb :=
      SortedMap.get?_insert_of_ne _ hword _
    rw [Descriptor.declare, hverb] at h
    obtain ⟨run, htarget, hread⟩ := reads_of_declare_standard h
    exact ⟨.objcopy run, htarget, hread⟩

/-- A descriptor that is loaded declares steps. -/
theorem declares_of_load (h : descriptor.load .withBundle = .ok loaded) :
    ∃ steps, Declares descriptor loaded steps := by
  obtain ⟨hproject, distinct, declarations, hdeclarations, hall⟩ := Descriptor.load_eq_ok h
  obtain ⟨steps, htargets, hreads⟩ := exists_map_of_forall₂ hall fun d t => reads_of_declare
  exact ⟨steps, hproject, ⟨declarations, hdeclarations, hreads⟩, htargets, distinct⟩

/-- With the built-in verbs alone it declares runs of the tool. -/
theorem declares_of_load_standard (h : descriptor.load .standard = .ok loaded) :
    ∃ runs : List Objcopy, Declares descriptor loaded (runs.map .objcopy) := by
  obtain ⟨hproject, distinct, declarations, hdeclarations, hall⟩ := Descriptor.load_eq_ok h
  obtain ⟨runs, htargets, hreads⟩ :=
    exists_map_of_forall₂ hall fun d t => reads_of_declare_standard
  refine ⟨runs, hproject, ⟨declarations, hdeclarations, ?_⟩, ?_, distinct⟩
  · exact List.forall₂_map_right_iff.mpr hreads
  · rw [htargets, List.map_map]
    rfl

end Load

namespace Declares

variable {descriptor : Descriptor} {loaded : Loaded} {steps : List Step} {step : Step}

theorem exists_step (h : Declares descriptor loaded steps) {t : Target}
    (ht : t ∈ loaded.targets) : ∃ step ∈ steps, step.target = t := by
  rw [h.targets] at ht
  exact List.mem_map.mp ht

theorem mem_targets (h : Declares descriptor loaded steps) (hstep : step ∈ steps) :
    step.target ∈ loaded.targets := by
  rw [h.targets]
  exact List.mem_map_of_mem hstep

theorem labels_eq (h : Declares descriptor loaded steps) :
    loaded.targets.map Target.label = steps.map Step.label := by
  rw [h.targets, List.map_map]
  exact List.map_congr_left fun step _ => step.target_label

theorem exists_reads (h : Declares descriptor loaded steps) (hstep : step ∈ steps) :
    ∃ declaration : Package × Declaration, declaration.1.project = loaded.project ∧
      Reads declaration step := by
  obtain ⟨declarations, hdeclarations, hreads⟩ := h.reads
  obtain ⟨declaration, hmem, hread⟩ := exists_of_mem_right hreads step hstep
  exact ⟨declaration, Descriptor.declarations_project hdeclarations declaration hmem, hread⟩

/-- Every step belongs to the project that was loaded. -/
theorem project_eq (h : Declares descriptor loaded steps) (hstep : step ∈ steps) :
    step.project = loaded.project := by
  obtain ⟨declaration, hproject, hread⟩ := h.exists_reads hstep
  exact hread.project_eq.trans hproject

theorem announces (h : Declares descriptor loaded steps) (project : Project) :
    ∀ t ∈ loaded.targets, t.Announces project := by
  intro t ht
  obtain ⟨step, -, rfl⟩ := h.exists_step ht
  exact step.announces project

end Declares

namespace Sample

/-- A declaration in the environment `host`. -/
def declaration (verb name : String) (parameters : List (String × Value)) : Declaration :=
  { verb
    name
    parameters := SortedMap.ofList (("environment", .string "host") :: parameters) }

end Sample

end BuildGraph
