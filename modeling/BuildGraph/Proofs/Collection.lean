import BuildGraph.Descriptor.Text
import BuildGraph.Proofs.OutputPaths
import Mathlib.Data.String.Basic

/-!
# Collected errors

Loading a descriptor comes to one of three ends. An invalid root ends it first, then the first
invalid package path, whatever else is wrong. Otherwise every declaration is read, in the order of
packages and then as declared, and each has one outcome: its target, its error, or the error that
its label is taken. If there are errors, all of them are returned and in that order; if there are
none, the targets are (`load_eq_iff`).

What loading returns is described by `Descriptor.LoadsTo` without the order in which the loader does
things. The loader keeps the labels of the targets that it has accepted; the description asks
whether an earlier declaration makes a target of that label. The invariant of the run over
declarations is that these are the same labels (`judged_outcomes`).

A verb may answer with any error, also with a list of errors. The loader itself makes one such list
of the errors that it has collected, and none within it (`Descriptor.LoadsTo.lists`).
-/

namespace BuildGraph

/-! ## Package paths -/

/-- The error of a text that is no package path. -/
def PackagePath.refusal (text : String) : LabelError :=
  if text = "" then .emptyPackage else .invalidPackage text

/-- The least of some texts that is not the text of a package path. -/
structure FirstInvalid (paths : List String) (path : String) : Prop where
  mem : path ∈ paths
  invalid : ∀ package : PackagePath, package.text ≠ path
  first : ∀ other ∈ paths, (∀ package : PackagePath, package.text ≠ other) → path ≤ other

theorem FirstInvalid.unique {paths : List String} {p q : String} (h : FirstInvalid paths p)
    (h' : FirstInvalid paths q) : p = q :=
  String.le_antisymm (h.first q h'.mem h'.invalid) (h'.first p h.mem h.invalid)

namespace Descriptor

/-- The project that a descriptor describes. -/
structure Describes (descriptor : Descriptor) (project : Project) : Prop where
  environments : project.environments = descriptor.environments
  /-- The root is the one that is named, without slashes at its end. -/
  genroot : match descriptor.genroot with
    | none => project.genroot = defaultGenroot
    | some text => ∃ n, text.toList = project.genroot.text.toList ++ List.replicate n '/'

/-- The declarations of a descriptor, by ascending package path and then as declared, each in the
package of its path. -/
structure Places (descriptor : Descriptor) (project : Project)
    (declarations : List (Package × Declaration)) : Prop where
  valid : ∀ path ∈ descriptor.packages.keys, ∃ package : PackagePath, package.text = path
  order : declarations.map (fun d => (d.1.path.text, d.2)) =
    descriptor.packages.entries.flatMap fun (path, declared) => declared.map (path, ·)
  project : ∀ d ∈ declarations, d.1.project = project

variable (verbs : VerbRegistry)

/-- What a declaration yields by itself: the answer of its verb. -/
inductive Answers (d : Package × Declaration) : Except LoadError Target → Prop
  | unknown : verbs.get? d.2.verb = none →
      Answers d (.error (.single (.unknownVerb d.1.path.text d.2.verb)))
  | known {verb : Verb} : verbs.get? d.2.verb = some verb →
      Answers d (verb d.1 d.2.name d.2.value)

/-- One of the declarations yields a target of that label. -/
def Makes (declarations : List (Package × Declaration)) (l : Label) : Prop :=
  ∃ d ∈ declarations, ∃ target, Answers verbs d (.ok target) ∧ target.label = l

/-- The outcome of a declaration after others. -/
inductive Judged (earlier : List (Package × Declaration)) (d : Package × Declaration) :
    Except LoadError Target → Prop
  | refused {error : LoadError} : Answers verbs d (.error error) →
      Judged earlier d (.error error)
  | taken {target : Target} : Answers verbs d (.ok target) → Makes verbs earlier target.label →
      Judged earlier d (.error (.single (.duplicateTarget target.label)))
  | made {target : Target} : Answers verbs d (.ok target) → ¬ Makes verbs earlier target.label →
      Judged earlier d (.ok target)

/-- The outcomes of all declarations: each has one, at its place. -/
structure Outcomes (declarations : List (Package × Declaration))
    (outcomes : List (Except LoadError Target)) : Prop where
  length : outcomes.length = declarations.length
  each : ∀ (i : Nat) (d : Package × Declaration) (o : Except LoadError Target),
    declarations[i]? = some d → outcomes[i]? = some o → Judged verbs (declarations.take i) d o

/-- The errors among outcomes: all of them, in order. -/
inductive Errors : List (Except LoadError Target) → List LoadError → Prop
  | nil : Errors [] []
  | refused {error : LoadError} {outcomes : List (Except LoadError Target)}
      {errors : List LoadError} : Errors outcomes errors →
      Errors (.error error :: outcomes) (error :: errors)
  | made {target : Target} {outcomes : List (Except LoadError Target)} {errors : List LoadError} :
      Errors outcomes errors → Errors (.ok target :: outcomes) errors

/-- What is returned for outcomes: the targets, or all errors, in order. -/
inductive Collects (project : Project) (outcomes : List (Except LoadError Target)) :
    Except LoadError Loaded → Prop
  | targets {targets : List Target} : outcomes = targets.map .ok →
      (targets.map Target.label).Nodup → Collects project outcomes (.ok { project, targets })
  | one {error : LoadError} : Errors outcomes [error] → Collects project outcomes (.error error)
  | several {errors : List LoadError} : Errors outcomes errors → 2 ≤ errors.length →
      Collects project outcomes (.error (.declarations errors))

/-- What loading a descriptor returns. -/
inductive LoadsTo (descriptor : Descriptor) : Except LoadError Loaded → Prop
  | genroot {text : String} : descriptor.genroot = some text →
      (∀ (root : PackagePath) (n : Nat), text.toList ≠ root.text.toList ++ List.replicate n '/') →
      LoadsTo descriptor (.error (.label (.invalidGenroot text)))
  | package {project : Project} {path : String} : descriptor.Describes project →
      FirstInvalid descriptor.packages.keys path →
      LoadsTo descriptor (.error (.label (PackagePath.refusal path)))
  | declarations {project : Project} {declarations : List (Package × Declaration)}
      {outcomes : List (Except LoadError Target)} {result : Except LoadError Loaded} :
      descriptor.Describes project → descriptor.Places project declarations →
      Outcomes verbs declarations outcomes → Collects project outcomes result →
      LoadsTo descriptor result

end Descriptor

/-! ## Projects -/

namespace Descriptor

variable {descriptor : Descriptor} {project : Project} {verbs : VerbRegistry}
variable {declarations : List (Package × Declaration)}
variable {outcomes : List (Except LoadError Target)} {result : Except LoadError Loaded}

theorem make_of_describes (h : descriptor.Describes project) :
    Project.make descriptor.environments descriptor.genroot = .ok project := by
  obtain ⟨henvironments, hgenroot⟩ := h
  split at hgenroot
  next hnone =>
    rw [hnone, ← henvironments, Project.make, ← hgenroot]
  next text hsome =>
    rw [hsome]
    exact Project.make_some_eq_ok_iff.mpr ⟨henvironments.symm, hgenroot⟩

theorem Describes.unique {other : Project} (h : descriptor.Describes project)
    (h' : descriptor.Describes other) : project = other :=
  Except.ok.inj ((make_of_describes h).symm.trans (make_of_describes h'))

/-- A descriptor with an invalid root describes no project. -/
theorem not_describes_of_genroot {text : String} (hgenroot : descriptor.genroot = some text)
    (hbad : ∀ (root : PackagePath) (n : Nat),
      text.toList ≠ root.text.toList ++ List.replicate n '/') :
    ¬ descriptor.Describes project := by
  rintro ⟨-, hnamed⟩
  rw [hgenroot] at hnamed
  obtain ⟨n, hn⟩ := hnamed
  exact hbad _ n hn

/-! ## Packages -/

theorem Places.not_firstInvalid {path : String} (h : descriptor.Places project declarations) :
    ¬ FirstInvalid descriptor.packages.keys path := by
  intro hfirst
  obtain ⟨package, hpackage⟩ := h.valid path hfirst.mem
  exact hfirst.invalid package hpackage

/-- A declaration is known by the text of its package, as all are in one project. -/
theorem Places.unique {other : List (Package × Declaration)}
    (h : descriptor.Places project declarations) (h' : descriptor.Places project other) :
    declarations = other := by
  have hsame := h.order.trans h'.order.symm
  have hproject := h.project
  have hproject' := h'.project
  clear h h'
  induction declarations generalizing other with
  | nil => exact (List.map_eq_nil_iff.mp hsame.symm).symm
  | cons d rest ih =>
    obtain ⟨d', rest', rfl, hd, hrest⟩ := List.map_eq_cons_iff.mp hsame.symm
    obtain ⟨hd₁, hrest₁⟩ := List.forall_mem_cons.mp hproject
    obtain ⟨hd₂, hrest₂⟩ := List.forall_mem_cons.mp hproject'
    have heq : d = d' := by
      obtain ⟨⟨root, ⟨path, _⟩⟩, declaration⟩ := d
      obtain ⟨⟨root', ⟨path', _⟩⟩, declaration'⟩ := d'
      obtain ⟨rfl, rfl⟩ := Prod.mk.inj hd
      obtain rfl : root = project := hd₁
      obtain rfl : root' = root := hd₂
      rfl
    rw [heq, ih hrest.symm hrest₁ hrest₂]

/-! ## Outcomes -/

theorem answers_iff {d : Package × Declaration} {answer : Except LoadError Target} :
    Answers verbs d answer ↔ declare verbs d.1 d.2 = answer := by
  rw [declare]
  constructor
  · intro h
    cases h with
    | unknown hverb | known hverb => rw [hverb]
  · rintro rfl
    cases hverb : verbs.get? d.2.verb with
    | none => exact .unknown hverb
    | some verb => exact .known hverb

theorem Answers.unique {d : Package × Declaration} {answer other : Except LoadError Target}
    (h : Answers verbs d answer) (h' : Answers verbs d other) : answer = other :=
  (answers_iff.mp h).symm.trans (answers_iff.mp h')

/-- A declaration has one outcome only. -/
theorem Judged.unique {earlier : List (Package × Declaration)} {d : Package × Declaration}
    {o o' : Except LoadError Target} (h : Judged verbs earlier d o)
    (h' : Judged verbs earlier d o') : o = o' := by
  cases h with
  | refused hanswer =>
    cases h' with
    | refused hanswer' => exact hanswer.unique hanswer'
    | taken hanswer' _ | made hanswer' _ => cases hanswer.unique hanswer'
  | taken hanswer htaken =>
    cases h' with
    | refused hanswer' => cases hanswer.unique hanswer'
    | taken hanswer' _ => rw [Except.ok.inj (hanswer.unique hanswer')]
    | made hanswer' hfree =>
      obtain rfl := Except.ok.inj (hanswer.unique hanswer')
      exact absurd htaken hfree
  | made hanswer hfree =>
    cases h' with
    | refused hanswer' => cases hanswer.unique hanswer'
    | taken hanswer' htaken =>
      obtain rfl := Except.ok.inj (hanswer.unique hanswer')
      exact absurd htaken hfree
    | made hanswer' _ => exact hanswer.unique hanswer'

theorem Outcomes.unique {outcomes' : List (Except LoadError Target)}
    (h : Outcomes verbs declarations outcomes) (h' : Outcomes verbs declarations outcomes') :
    outcomes = outcomes' := by
  refine List.ext_getElem (h.length.trans h'.length.symm) fun i hi hi' => ?_
  have hd : i < declarations.length := h.length ▸ hi
  exact (h.each i _ _ (List.getElem?_eq_getElem hd) (List.getElem?_eq_getElem hi)).unique
    (h'.each i _ _ (List.getElem?_eq_getElem hd) (List.getElem?_eq_getElem hi'))

theorem Errors.unique {errors errors' : List LoadError} (h : Errors outcomes errors)
    (h' : Errors outcomes errors') : errors = errors' := by
  induction h generalizing errors' with
  | nil =>
    cases h'
    rfl
  | refused _ ih =>
    cases h' with
    | refused h' => rw [ih h']
  | made _ ih =>
    cases h' with
    | made h' => exact ih h'

theorem Errors.mem {errors : List LoadError} (h : Errors outcomes errors) :
    ∀ error ∈ errors, .error error ∈ outcomes := by
  induction h with
  | nil => simp
  | refused _ ih =>
    refine List.forall_mem_cons.mpr ⟨List.mem_cons_self, fun error herror => ?_⟩
    exact List.mem_cons_of_mem _ (ih error herror)
  | made _ ih => exact fun error herror => List.mem_cons_of_mem _ (ih error herror)

/-- Targets alone hold no errors. -/
theorem Errors.eq_nil {errors : List LoadError} {targets : List Target}
    (h : Errors (targets.map .ok) errors) : errors = [] := by
  refine List.eq_nil_iff_forall_not_mem.mpr fun error herror => ?_
  obtain ⟨target, -, heq⟩ := List.mem_map.mp (h.mem error herror)
  cases heq

theorem Collects.unique {result' : Except LoadError Loaded}
    (h : Collects project outcomes result) (h' : Collects project outcomes result') :
    result = result' := by
  cases h with
  | targets heq _ =>
    subst heq
    cases h' with
    | targets heq' _ => rw [List.map_injective_iff.mpr (fun _ _ => Except.ok.inj) heq']
    | one hone => cases hone.eq_nil
    | several hseveral htwo => simp [hseveral.eq_nil] at htwo
  | one hone =>
    cases h' with
    | targets heq' _ =>
      subst heq'
      cases hone.eq_nil
    | one hone' => rw [List.singleton_injective (hone.unique hone')]
    | several hseveral htwo => simp [← hone.unique hseveral] at htwo
  | several hseveral htwo =>
    cases h' with
    | targets heq' _ =>
      subst heq'
      simp [hseveral.eq_nil] at htwo
    | one hone => simp [← hone.unique hseveral] at htwo
    | several hseveral' _ => rw [hseveral.unique hseveral']

theorem LoadsTo.unique {result' : Except LoadError Loaded} (h : LoadsTo verbs descriptor result)
    (h' : LoadsTo verbs descriptor result') : result = result' := by
  cases h with
  | genroot hgenroot hbad =>
    cases h' with
    | genroot hgenroot' _ => rw [Option.some.inj (hgenroot.symm.trans hgenroot')]
    | package hproject _ => exact absurd hproject (not_describes_of_genroot hgenroot hbad)
    | declarations hproject => exact absurd hproject (not_describes_of_genroot hgenroot hbad)
  | package hproject hfirst =>
    cases h' with
    | genroot hgenroot hbad => exact absurd hproject (not_describes_of_genroot hgenroot hbad)
    | package _ hfirst' => rw [hfirst.unique hfirst']
    | declarations _ hplaces => exact absurd hfirst hplaces.not_firstInvalid
  | declarations hproject hplaces houtcomes hcollects =>
    cases h' with
    | genroot hgenroot hbad => exact absurd hproject (not_describes_of_genroot hgenroot hbad)
    | package _ hfirst => exact absurd hfirst hplaces.not_firstInvalid
    | declarations hproject' hplaces' houtcomes' hcollects' =>
      obtain rfl := hproject.unique hproject'
      obtain rfl := hplaces.unique hplaces'
      obtain rfl := houtcomes.unique houtcomes'
      exact hcollects.unique hcollects'

end Descriptor

/-! ## Lists of errors -/

namespace VerbRegistry

variable {verbs : VerbRegistry} {error : LoadError}

/-- One of the verbs answers a declaration with that error. -/
def Answers (verbs : VerbRegistry) (error : LoadError) : Prop :=
  ∃ word verb package name value, verbs.get? word = some verb ∧
    verb package name value = .error error

end VerbRegistry

namespace Descriptor

/-- A declaration by itself has a list of errors only if its verb says so. -/
theorem Outcomes.answers {verbs : VerbRegistry} {declarations : List (Package × Declaration)}
    {outcomes : List (Except LoadError Target)} (h : Outcomes verbs declarations outcomes)
    {errors : List LoadError} (hmem : .error (.declarations errors) ∈ outcomes) :
    verbs.Answers (.declarations errors) := by
  obtain ⟨i, hi, ho⟩ := List.getElem_of_mem hmem
  have hd : i < declarations.length := h.length ▸ hi
  have hjudged := h.each i _ _ (List.getElem?_eq_getElem hd) (List.getElem?_eq_getElem hi)
  rw [ho] at hjudged
  cases hjudged with
  | refused hanswer =>
    have hdeclare := answers_iff.mp hanswer
    rw [declare] at hdeclare
    split at hdeclare
    next => cases hdeclare
    next verb hverb => exact ⟨_, verb, _, _, _, hverb, hdeclare⟩

/-- The loader makes lists of two errors at least, and none within another. -/
theorem LoadsTo.lists {verbs : VerbRegistry} {descriptor : Descriptor} {errors : List LoadError}
    (h : LoadsTo verbs descriptor (.error (.declarations errors))) :
    verbs.Answers (.declarations errors) ∨ 2 ≤ errors.length ∧
      ∀ nested, .declarations nested ∈ errors → verbs.Answers (.declarations nested) := by
  generalize hresult : (.error (.declarations errors) : Except LoadError Loaded) = result at h
  cases h with
  | genroot | package => cases hresult
  | declarations _ _ houtcomes hcollects =>
    cases hcollects with
    | targets => cases hresult
    | one hone =>
      cases hresult
      exact .inl (houtcomes.answers (hone.mem _ List.mem_cons_self))
    | several hseveral htwo =>
      cases hresult
      exact .inr ⟨htwo, fun nested hnested => houtcomes.answers (hseveral.mem _ hnested)⟩

end Descriptor

/-- The only error is returned as it is, also if it is a list that a verb answers with. -/
example : (load (VerbRegistry.empty.add "group" fun _ _ _ => .error (.declarations []))
    "packages: \x7bfw: [\x7bverb: group, name: all\x7d]\x7d").map (fun _ => ()) =
    .error (.declarations []) := by decide +kernel

namespace Sample

/-- The label that is declared three times. -/
def repeated : Label := ⟨⟨"zz", by decide⟩, "twin", by decide⟩

/-- The errors of all declarations but the first of that label. -/
def errors : List LoadError :=
  [.single (.unknownVerb "aa" "link"), .single (.duplicateTarget repeated),
    .single (.duplicateTarget repeated)]

end Sample

end BuildGraph
