import BuildGraph.Proofs.LabelText
import BuildGraph.Proofs.RuleTable

/-!
# References

A reference names a file of the source tree or the output of a target. Its beginning tells which:
`//` and `:` begin labels, and what begins like a label is read as one or not at all. Everything
else is a path, and is refused if it could lead out of the project or break a line.

Main statement: which references are read, and as what, said by the way they are written
(`references`). One artifact may be written in several ways, depending on the package; its text is
the one that means the same in all packages.
-/

namespace BuildGraph

/-! ## Labels in a package -/

namespace Label

/-- A label may be written in full, and inside its own package by its name after a `:`. -/
def WrittenIn (package : PackagePath) (label : Label) (reference : String) : Prop :=
  reference = label.text ∨ (label.package = package ∧ reference = ":" ++ label.name)

variable {package : PackagePath} {label : Label} {reference : String}

/-- What a label is made of is what it was made from. -/
theorem make_eq_ok {name : String} (h : make package name = .ok label) :
    label.package = package ∧ label.name = name := by
  rw [make] at h
  split at h
  · cases h
    exact ⟨rfl, rfl⟩
  · cases h

theorem parseIn_eq_ok_iff : parseIn package reference = .ok label ↔
    WrittenIn package label reference := by
  constructor
  · intro h
    rw [parseIn] at h
    split at h
    next name hname =>
      obtain ⟨hpackage, hlabel⟩ := make_eq_ok h
      refine .inr ⟨hpackage, String.toList_injective ?_⟩
      rw [hname, hlabel]
      simp [String.toList_append]
    next => exact .inl (text_of_parse h).symm
  · rintro (rfl | ⟨rfl, rfl⟩)
    · exact parseIn_text package label
    · rw [parseIn_colon, make_name]

end Label

namespace Artifact

variable {package : PackagePath} {reference path : String} {label : Label}

/-! ## How references begin -/

theorem isLabelReference_iff {cs : List Char} :
    isLabelReference cs = true ↔ ['/', '/'] <+: cs ∨ [':'] <+: cs := by
  constructor
  · intro h
    unfold isLabelReference at h
    split at h
    · exact .inl ⟨_, rfl⟩
    · exact .inr ⟨_, rfl⟩
    · cases h
  · rintro (⟨rest, rfl⟩ | ⟨rest, rfl⟩) <;> rfl

/-- A label is written like a label. -/
theorem isLabelReference_of_writtenIn (h : label.WrittenIn package reference) :
    isLabelReference reference.toList = true := by
  rcases h with rfl | ⟨-, rfl⟩
  · rw [Label.toList_text]
    rfl
  · rw [String.toList_append]
    rfl

/-! ## Paths -/

/-- A path of the source tree. -/
structure IsPath (reference : String) : Prop where
  nonempty : reference ≠ ""
  relative : ¬ ['/'] <+: reference.toList
  notSibling : ¬ [':'] <+: reference.toList
  /-- No segment leads upwards. -/
  inside : ['.', '.'] ∉ reference.toList.splitOn '/'
  oneLine : OneLine reference

theorem isSourcePath_iff : isSourcePath reference.toList = true ↔
    reference ≠ "" ∧ ¬ ['/'] <+: reference.toList ∧
      ['.', '.'] ∉ reference.toList.splitOn '/' ∧ OneLine reference := by
  have honeLine : reference.toList.any isLineBreak = false ↔ OneLine reference := by
    rw [← Bool.not_eq_true, ← hasLineBreak, ← not_oneLine_iff, not_not]
  simp only [isSourcePath, Bool.and_eq_true, Bool.not_eq_true', honeLine, and_assoc,
    List.singleton_prefix_iff_head?_eq_some]
  simp

theorem isPath_iff : IsPath reference ↔
    isLabelReference reference.toList = false ∧ isSourcePath reference.toList = true := by
  rw [← Bool.not_eq_true, isLabelReference_iff, isSourcePath_iff]
  constructor
  · intro h
    refine ⟨?_, h.nonempty, h.relative, h.inside, h.oneLine⟩
    rintro (hslashes | hcolon)
    · exact h.relative (List.IsPrefix.trans ⟨['/'], rfl⟩ hslashes)
    · exact h.notSibling hcolon
  · rintro ⟨hlabel, hnonempty, hrelative, hinside, honeLine⟩
    exact ⟨hnonempty, hrelative, fun hcolon => hlabel (.inr hcolon), hinside, honeLine⟩

/-! ## Reading -/

theorem parse_eq_source_iff :
    parse package reference = .ok (.source path) ↔ path = reference ∧ IsPath reference := by
  rw [isPath_iff, parse]
  split
  next hlabel =>
    rw [hlabel]
    constructor
    · intro h
      obtain ⟨label, -, heq⟩ := map_eq_ok h
      cases heq
    · rintro ⟨-, hnot, -⟩
      cases hnot
  next hlabel =>
    rw [Bool.not_eq_true] at hlabel
    split
    next hpath => simp [hlabel, hpath, eq_comm]
    next hpath => simp [hpath]

theorem parse_eq_output_iff :
    parse package reference = .ok (.output label) ↔ label.WrittenIn package reference := by
  rw [← Label.parseIn_eq_ok_iff, parse]
  split
  next =>
    cases Label.parseIn package reference <;> simp [Except.map]
  next hlabel =>
    constructor
    · intro h
      split at h <;> cases h
    · intro h
      exact absurd (isLabelReference_of_writtenIn (Label.parseIn_eq_ok_iff.mp h)) hlabel

/-- The text of an artifact is one way to write it, whatever the package. -/
theorem parse_text {artifact : Artifact} (h : parse package reference = .ok artifact)
    (other : PackagePath) : parse other artifact.text = .ok artifact := by
  cases artifact with
  | source path =>
    obtain ⟨rfl, hpath⟩ := parse_eq_source_iff.mp h
    exact parse_eq_source_iff.mpr ⟨rfl, hpath⟩
  | output label => exact parse_eq_output_iff.mpr (.inl rfl)

end Artifact

/-- How references are read. -/
structure References : Prop where
  /-- A path is read as it stands. -/
  source_iff : ∀ package reference path, Artifact.parse package reference = .ok (.source path) ↔
    path = reference ∧ Artifact.IsPath reference
  output_iff : ∀ package reference label,
    Artifact.parse package reference = .ok (.output label) ↔ label.WrittenIn package reference
  fails_iff : ∀ package reference, (∃ e, Artifact.parse package reference = .error e) ↔
    ¬ Artifact.IsPath reference ∧ ∀ label : Label, ¬ label.WrittenIn package reference
  /-- What begins like a label is never read as a path. -/
  notPath : ∀ package reference, ['/', '/'] <+: reference.toList ∨ [':'] <+: reference.toList →
    ∀ path, Artifact.parse package reference ≠ .ok (.source path)
  canonical : ∀ package reference artifact, Artifact.parse package reference = .ok artifact →
    ∀ other, Artifact.parse other artifact.text = .ok artifact

/-- References are paths of the source tree and labels, each read as what it is. -/
theorem references : References where
  source_iff _ _ _ := Artifact.parse_eq_source_iff
  output_iff _ _ _ := Artifact.parse_eq_output_iff
  fails_iff package reference := by
    cases hparse : Artifact.parse package reference with
    | error e =>
      refine iff_of_true ⟨e, rfl⟩ ⟨fun hpath => ?_, fun label hlabel => ?_⟩
      · rw [Artifact.parse_eq_source_iff.mpr ⟨rfl, hpath⟩] at hparse
        cases hparse
      · rw [Artifact.parse_eq_output_iff.mpr hlabel] at hparse
        cases hparse
    | ok artifact =>
      refine iff_of_false (by simp) ?_
      rintro ⟨hpath, hlabel⟩
      cases artifact with
      | source path => exact hpath (Artifact.parse_eq_source_iff.mp hparse).2
      | output label => exact hlabel label (Artifact.parse_eq_output_iff.mp hparse)
  notPath package reference hbegins path h := by
    have hpath := (Artifact.isPath_iff.mp (Artifact.parse_eq_source_iff.mp h).2).1
    rw [Artifact.isLabelReference_iff.mpr hbegins] at hpath
    cases hpath
  canonical _ _ _ h := Artifact.parse_text h

namespace Sample

/-- A target of a package inside another one. -/
def image : Label := ⟨⟨"fw/app", by decide⟩, "image.bin", by decide⟩

end Sample

theorem references_sample :
    Artifact.parse Sample.image.package ":image.bin" = .ok (.output Sample.image) ∧
    Artifact.parse Sample.image.package "fw/my app.elf" = .ok (.source "fw/my app.elf") ∧
    (∃ e, Artifact.parse Sample.image.package "fw/../../x.elf" = .error e) ∧
    (['/', '/'] <+: "//fw/app".toList ∧
      ∀ path, Artifact.parse Sample.image.package "//fw/app" ≠ .ok (.source path)) ∧
    Artifact.text (.output Sample.image) = "//fw/app:image.bin" ∧
    ∀ other, Artifact.parse other "//fw/app:image.bin" = .ok (.output Sample.image) := by
  have hsibling : Artifact.parse Sample.image.package ":image.bin" = .ok (.output Sample.image) :=
    (references.output_iff _ _ _).mpr (.inr ⟨rfl, by decide⟩)
  have hpath : Artifact.IsPath "fw/my app.elf" := Artifact.isPath_iff.mpr (by decide)
  have hupwards : ¬ Artifact.IsPath "fw/../../x.elf" := fun h => h.inside (by decide)
  have hnoLabel : ∀ label : Label, ¬ label.WrittenIn Sample.image.package "fw/../../x.elf" :=
    fun label h => absurd (Artifact.isLabelReference_of_writtenIn h) (by decide)
  have hslashes : ['/', '/'] <+: "//fw/app".toList := by decide
  have htext : Artifact.text (.output Sample.image) = "//fw/app:image.bin" := by decide
  exact ⟨hsibling, (references.source_iff _ _ _).mpr ⟨rfl, hpath⟩,
    (references.fails_iff _ _).mpr ⟨hupwards, hnoLabel⟩,
    ⟨hslashes, references.notPath _ _ (.inl hslashes)⟩, htext,
    fun other => htext ▸ references.canonical _ _ _ hsibling other⟩

end BuildGraph
