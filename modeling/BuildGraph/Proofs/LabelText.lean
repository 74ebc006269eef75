import BuildGraph.Json.Codec
import BuildGraph.Proofs.OutputPaths

/-!
# Texts that are labels

A text is a label exactly if it is `//`, plain segments with a `/` between each two, `:` and one more
plain segment. It can be taken apart in one way only, so a label has one text, in every package and
in JSON too (`labelTexts`).

The text is cut at its first `:`. That this is the only place where it can be cut is because no
segment holds a `:` or a `/`, whatever else a text may hold.
-/

namespace BuildGraph

namespace Label

/-- A text of the form `//`, the segments of a package, `:` and a name. -/
structure Spells (segments : List (List Char)) (name : List Char) (s : String) : Prop where
  nonempty : segments ≠ []
  plain : ∀ segment ∈ segments, PlainSegment segment
  plainName : PlainSegment name
  text : s.toList = '/' :: '/' :: (['/'].intercalate segments ++ ':' :: name)

/-- The text of a label is spelled with its segments and its name. -/
theorem spells_text (l : Label) : Spells l.package.segments l.name.toList l.text where
  nonempty := List.splitOn_ne_nil _ _
  plain := l.package.plainSegment
  plainName := plainSegment_of_isComponent l.valid
  text := by rw [toList_text, PackagePath.segments, List.intercalate_splitOn]

/-- What is spelled with segments and a name is the text of a label with those. -/
theorem Spells.exists_label {segments : List (List Char)} {name : List Char} {s : String}
    (h : Spells segments name s) :
    ∃ l : Label, l.text = s ∧ l.package.segments = segments ∧ l.name.toList = name := by
  have hsplit : (['/'].intercalate segments).splitOn '/' = segments :=
    List.splitOn_intercalate '/' (fun segment hsegment =>
      slash_notMem_of_isComponent (isComponent_iff.mpr (h.plain segment hsegment))) h.nonempty
  have hvalid : isPackagePath (['/'].intercalate segments) = true := by
    rw [isPackagePath, hsplit, List.all_eq_true]
    exact fun segment hsegment => isComponent_iff.mpr (h.plain segment hsegment)
  obtain ⟨package, hpackage⟩ :
      ∃ package : PackagePath, package.text.toList = ['/'].intercalate segments :=
    ⟨⟨String.ofList (['/'].intercalate segments), by rwa [String.toList_ofList]⟩,
      String.toList_ofList⟩
  obtain ⟨name, rfl⟩ : ∃ text : String, text.toList = name :=
    ⟨String.ofList name, String.toList_ofList⟩
  refine ⟨⟨package, name, isComponent_iff.mpr h.plainName⟩, String.toList_injective ?_, ?_, rfl⟩
  · rw [toList_text, h.text, hpackage]
  · rw [PackagePath.segments, hpackage, hsplit]

theorem parse_eq_ok_iff {s : String} {l : Label} : parse s = .ok l ↔ l.text = s :=
  ⟨text_of_parse, fun h => h ▸ parse_text l⟩

/-- A label means the same in every package. -/
theorem parseIn_text (package : PackagePath) (l : Label) : parseIn package l.text = .ok l := by
  rw [parseIn, toList_text]
  exact parse_text l

/-- After a `:` stands a name in the package. -/
theorem parseIn_colon (package : PackagePath) (name : String) :
    parseIn package (":" ++ name) = make package name := by
  have hlist : (":" ++ name).toList = ':' :: name.toList := by simp [String.toList_append]
  rw [parseIn, hlist]
  exact congrArg (make package) String.ofList_toList

theorem encode_of_decode {json : Json} {l : Label} (h : JsonCodec.decode json = some l) :
    json = .string l.text := by
  cases json with
  | string text =>
    have hparse : (parse text).toOption = some l := h
    rw [text_of_parse (eq_ok_of_toOption hparse)]
  | _ => cases h

end Label

/-- The texts of labels, and how they are read. -/
structure LabelTexts : Prop where
  parses_iff : ∀ s, (∃ l, Label.parse s = .ok l) ↔ ∃ segments name, Label.Spells segments name s
  /-- What is read is what the text spells. -/
  parts : ∀ s l segments name, Label.parse s = .ok l → Label.Spells segments name s →
    l.package.segments = segments ∧ l.name.toList = name
  text_of_parse : ∀ s l, Label.parse s = .ok l → l.text = s
  parse_text : ∀ l, Label.parse l.text = .ok l
  injective : ∀ a b : Label, a.text = b.text → a = b
  /-- The package that a label is written in does not matter. -/
  absolute : ∀ package l, Label.parseIn package l.text = .ok l
  /-- A plain segment after a `:` names a target of the package. -/
  sibling : ∀ package name, PlainSegment name.toList →
    ∃ l, Label.parseIn package (":" ++ name) = .ok l ∧ l.package = package ∧ l.name = name
  decode_encode : ∀ l : Label, JsonCodec.decode (JsonCodec.encode l) = some l
  encode_of_decode : ∀ json (l : Label), JsonCodec.decode json = some l →
    JsonCodec.encode l = json ∧ json = .string l.text

/-- Labels are read from their texts and from nothing else. -/
theorem labelTexts : LabelTexts where
  parses_iff s := by
    simp only [Label.parse_eq_ok_iff]
    constructor
    · rintro ⟨l, rfl⟩
      exact ⟨_, _, l.spells_text⟩
    · rintro ⟨segments, name, hspells⟩
      obtain ⟨l, htext, -⟩ := hspells.exists_label
      exact ⟨l, htext⟩
  parts s l segments name hparse hspells := by
    obtain ⟨l', htext, hparts⟩ := hspells.exists_label
    obtain rfl := Label.text_injective ((Label.text_of_parse hparse).trans htext.symm)
    exact hparts
  text_of_parse _ _ := Label.text_of_parse
  parse_text := Label.parse_text
  injective _ _ := Label.text_injective
  absolute := Label.parseIn_text
  sibling package name hname := by
    refine ⟨⟨package, name, isComponent_iff.mpr hname⟩, ?_, rfl, rfl⟩
    rw [Label.parseIn_colon, Label.make, dif_pos (isComponent_iff.mpr hname)]
  decode_encode l := by
    change (Label.parse l.text).toOption = some l
    rw [Label.parse_text]
    rfl
  encode_of_decode json l h := by
    have hjson := Label.encode_of_decode h
    exact ⟨hjson.symm, hjson⟩

theorem labelTexts_sample :
    Label.Spells ["fw".toList, "app-v2".toList] "image.bin".toList "//fw/app-v2:image.bin" ∧
    PlainSegment "link".toList ∧
    ∃ l, Label.parse "//fw/app-v2:image.bin" = .ok l ∧ l.text = "//fw/app-v2:image.bin" ∧
      l.package.segments = ["fw".toList, "app-v2".toList] ∧
      ∃ sibling, Label.parseIn l.package (":" ++ "link") = .ok sibling ∧
        sibling.package = l.package ∧ sibling.name = "link" := by
  have hplain : ∀ segment ∈ ["fw".toList, "app-v2".toList], PlainSegment segment := by
    simp only [← isComponent_iff]
    decide
  have hspells : Label.Spells ["fw".toList, "app-v2".toList] "image.bin".toList
      "//fw/app-v2:image.bin" :=
    ⟨by decide, hplain, isComponent_iff.mp (by decide), by decide⟩
  have hlink : PlainSegment "link".toList := isComponent_iff.mp (by decide)
  obtain ⟨l, hl⟩ := (labelTexts.parses_iff _).mpr ⟨_, _, hspells⟩
  exact ⟨hspells, hlink, l, hl, labelTexts.text_of_parse _ _ hl,
    (labelTexts.parts _ _ _ _ hl hspells).1, labelTexts.sibling l.package "link" hlink⟩

/-- No package, another colon, an empty segment, a segment that leads upwards. -/
example : ∀ s ∈ ["//:app", "//fw:app:v2", "//fw//app:v2", "//fw/..:app"],
    (Label.parse s).toOption = none := by decide

end BuildGraph
