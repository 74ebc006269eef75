import BuildGraph.Project
import Mathlib.Data.List.Basic
import Mathlib.Data.List.TakeDrop

/-!
# Texts of labels

The text of a label is read back as that label, and only labels' texts are read as labels. Output
paths tell labels apart. Neither texts nor output paths hold line breaks, since the characters of
components and package paths are label characters and `/`.
-/

namespace BuildGraph

/-! ## Characters -/

theorem isLabelChar_slash : isLabelChar '/' = false := by decide

theorem isLabelChar_colon : isLabelChar ':' = false := by decide

theorem isLineBreak_of_isLabelChar {c : Char} (h : isLabelChar c = true) :
    isLineBreak c = false := by
  by_cases hlf : c = '\n'
  · subst hlf
    exact absurd h (by decide)
  · by_cases hcr : c = '\r'
    · subst hcr
      exact absurd h (by decide)
    · simp [isLineBreak, hlf, hcr]

/-- The characters of a list are the separator and those of its parts. -/
theorem mem_splitOn {c x : Char} {cs : List Char} (h : c ∈ cs) :
    c = x ∨ ∃ part ∈ cs.splitOn x, c ∈ part := by
  induction cs with
  | nil => simp at h
  | cons d cs ih =>
    rw [List.splitOn_cons_eq_if_modifyHead]
    by_cases hd : d = x
    · rw [if_pos (by simp [hd])]
      rcases List.mem_cons.mp h with rfl | h
      · exact .inl hd
      · exact (ih h).imp id fun ⟨part, hp, hc⟩ => ⟨part, List.mem_cons_of_mem _ hp, hc⟩
    · rw [if_neg (by simp [hd])]
      obtain ⟨first, rest, hparts⟩ := List.exists_cons_of_ne_nil (List.splitOn_ne_nil x cs)
      rw [hparts] at ih ⊢
      rw [List.modifyHead_cons]
      rcases List.mem_cons.mp h with rfl | h
      · exact .inr ⟨c :: first, List.mem_cons_self, List.mem_cons_self⟩
      · rcases ih h with hx | ⟨part, hp, hc⟩
        · exact .inl hx
        · rcases List.mem_cons.mp hp with rfl | hp
          · exact .inr ⟨d :: part, List.mem_cons_self, List.mem_cons_of_mem _ hc⟩
          · exact .inr ⟨part, List.mem_cons_of_mem _ hp, hc⟩

theorem isLabelChar_of_isComponent {cs : List Char} (h : isComponent cs = true) {c : Char}
    (hc : c ∈ cs) : isLabelChar c = true := by
  simp only [isComponent, Bool.and_eq_true, List.all_eq_true] at h
  exact h.2 c hc

theorem slash_or_isLabelChar_of_isPackagePath {cs : List Char} (h : isPackagePath cs = true)
    {c : Char} (hc : c ∈ cs) : c = '/' ∨ isLabelChar c = true := by
  rcases mem_splitOn (x := '/') hc with rfl | ⟨part, hp, hcp⟩
  · exact .inl rfl
  · exact .inr (isLabelChar_of_isComponent (List.all_eq_true.mp h part hp) hcp)

theorem slash_notMem_of_isComponent {cs : List Char} (h : isComponent cs = true) : '/' ∉ cs := by
  intro hmem
  have hslash := isLabelChar_of_isComponent h hmem
  rw [isLabelChar_slash] at hslash
  cases hslash

/-- A path is taken apart at its last `/` in one way only. -/
theorem append_slash_inj {x₁ x₂ z₁ z₂ : List Char} (h₁ : '/' ∉ z₁) (h₂ : '/' ∉ z₂)
    (h : x₁ ++ '/' :: z₁ = x₂ ++ '/' :: z₂) : x₁ = x₂ ∧ z₁ = z₂ := by
  rcases List.append_eq_append_iff.mp h with ⟨c, rfl, hc⟩ | ⟨c, rfl, hc⟩
  · cases c with
    | nil => simpa using hc
    | cons d c =>
      have hz : z₁ = c ++ '/' :: z₂ := (List.cons.inj hc).2
      simp [hz] at h₁
  · cases c with
    | nil => simpa [eq_comm] using hc
    | cons d c =>
      have hz : z₂ = c ++ '/' :: z₁ := (List.cons.inj hc).2
      simp [hz] at h₂

namespace PackagePath

theorem colon_notMem (package : PackagePath) : ':' ∉ package.text.toList := by
  intro hmem
  rcases slash_or_isLabelChar_of_isPackagePath package.valid hmem with h | h
  · exact absurd h (by decide)
  · rw [isLabelChar_colon] at h
    cases h

theorem not_isLineBreak (package : PackagePath) : ∀ c ∈ package.text.toList, ¬ isLineBreak c := by
  intro c hc
  rcases slash_or_isLabelChar_of_isPackagePath package.valid hc with rfl | h
  · decide
  · simp [isLineBreak_of_isLabelChar h]

theorem ofString_text (package : PackagePath) : ofString package.text = .ok package := by
  have hne : package.text.isEmpty = false := by
    by_contra h
    have hnil : package.text = "" := by simpa using h
    have hvalid := package.valid
    rw [hnil] at hvalid
    exact absurd hvalid (by decide)
  simp [ofString, hne, package.valid]

theorem text_of_ofString {s : String} {package : PackagePath} (h : ofString s = .ok package) :
    package.text = s := by
  rw [ofString] at h
  split at h
  · cases h
  · split at h
    · cases h
      rfl
    · cases h

end PackagePath

namespace Label

/-! ## Writing and reading labels -/

theorem toList_text (l : Label) :
    l.text.toList = '/' :: '/' :: (l.package.text.toList ++ ':' :: l.name.toList) := by
  simp [text, String.toList_append]

theorem make_name (l : Label) : make l.package l.name = .ok l := by
  rw [make, dif_pos l.valid]

/-- A label is read back from its text. -/
theorem parse_text (l : Label) : parse l.text = .ok l := by
  have hspan : (l.package.text.toList ++ ':' :: l.name.toList).span (· != ':') =
      (l.package.text.toList, ':' :: l.name.toList) := by
    have hpos : ∀ c ∈ l.package.text.toList, (c != ':') = true := by
      intro c hc
      simp only [bne_iff_ne, ne_eq]
      rintro rfl
      exact l.package.colon_notMem hc
    rw [List.span_eq_takeWhile_dropWhile, List.takeWhile_append_of_pos hpos,
      List.dropWhile_append_of_pos hpos]
    simp
  rw [parse, toList_text]
  simp only [hspan, String.ofList_toList, PackagePath.ofString_text]
  exact make_name l

/-- What is read as a label is its text. -/
theorem text_of_parse {s : String} {l : Label} (h : parse s = .ok l) : l.text = s := by
  rw [parse] at h
  split at h
  next rest hs =>
    rw [List.span_eq_takeWhile_dropWhile] at h
    split at h
    next => cases h
    next before c name hspan =>
      obtain ⟨hbefore, hname⟩ := Prod.mk.inj hspan
      have hc : c = ':' := by
        have hhead := List.head_dropWhile_not (· != ':') (l := rest) (by simp [hname])
        simpa [hname] using hhead
      cases hp : PackagePath.ofString (String.ofList before) with
      | error e => rw [hp] at h; cases h
      | ok package =>
        rw [hp] at h
        change make package (String.ofList name) = .ok l at h
        rw [make] at h
        split at h
        next =>
          cases h
          refine String.toList_injective ?_
          rw [toList_text, PackagePath.text_of_ofString hp, hs, String.toList_ofList,
            String.toList_ofList, ← List.takeWhile_append_dropWhile (p := (· != ':')) (l := rest),
            hbefore, hname, hc]
        next => cases h
  next => cases h

theorem text_injective {a b : Label} (h : a.text = b.text) : a = b :=
  Except.ok.inj ((parse_text a).symm.trans (h ▸ parse_text b))

theorem hasLineBreak_text (l : Label) : hasLineBreak l.text = false := by
  have hname : ∀ c ∈ l.name.toList, ¬ isLineBreak c := fun c hc => by
    simp [isLineBreak_of_isLabelChar (isLabelChar_of_isComponent l.valid hc)]
  rw [hasLineBreak, toList_text, List.any_eq_false]
  intro c hc
  simp only [List.mem_cons, List.mem_append] at hc
  rcases hc with rfl | rfl | hc | rfl | hc
  · decide
  · decide
  · exact l.package.not_isLineBreak c hc
  · decide
  · exact hname c hc

theorem hasLineBreak_of_parse {s : String} {l : Label} (h : parse s = .ok l) :
    hasLineBreak s = false := by
  rw [← text_of_parse h]
  exact hasLineBreak_text l

end Label

/-! ## Output paths -/

namespace Project

theorem toList_outputPath (project : Project) (l : Label) :
    (project.outputPath l).toList =
      (project.genroot.text.toList ++ '/' :: l.package.text.toList) ++ '/' :: l.name.toList := by
  simp [outputPath, String.toList_append]

/-- Different labels have different output paths: a name is what follows the last `/`. -/
theorem outputPath_injective (project : Project) {a b : Label}
    (h : project.outputPath a = project.outputPath b) : a = b := by
  have hlist := congrArg String.toList h
  rw [toList_outputPath, toList_outputPath] at hlist
  obtain ⟨hleft, hname⟩ := append_slash_inj (slash_notMem_of_isComponent a.valid)
    (slash_notMem_of_isComponent b.valid) hlist
  have hpackage := (List.cons.inj (List.append_cancel_left hleft)).2
  cases a with
  | mk ap an _ =>
    cases b with
    | mk bp bn _ =>
      obtain rfl : an = bn := String.toList_injective hname
      cases ap with
      | mk at' _ =>
        cases bp with
        | mk bt _ =>
          obtain rfl : at' = bt := String.toList_injective hpackage
          rfl

end Project

end BuildGraph
