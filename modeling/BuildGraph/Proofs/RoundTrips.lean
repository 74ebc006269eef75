import BuildGraph.Proofs.Appending
import BuildGraph.Proofs.LabelText

/-!
# Values that are read back

Every value of the library is written as JSON in one way and read back from it. What else is read as
the value is what a record or a map may also look like: the members of an object in any order, with
others between them or with one left out that has a default, or the fields of a record in a list
(`serialization`). Labels and package paths are read from their own texts only, wherever they stand.

Types whose values are read from nothing but what is written of them are told apart from those that
are merely read back (`CanonicalCodec`, `LawfulCodec`). A list of canonical items is canonical. A
map is not, since an object may list a key again.
-/

namespace BuildGraph

open JsonCodec (encode decode)

/-- What is written of a value is read as that value. -/
class LawfulCodec (α : Type) [JsonCodec α] : Prop where
  decode_encode : ∀ a : α, decode (encode a) = some a

/-- A value is read from what is written of it and from nothing else. -/
class CanonicalCodec (α : Type) [JsonCodec α] : Prop where
  decode_eq_some_iff : ∀ {json : Json} {a : α}, decode json = some a ↔ json = encode a

open LawfulCodec (decode_encode)
open CanonicalCodec (decode_eq_some_iff)

variable {α : Type} [JsonCodec α]

instance [CanonicalCodec α] : LawfulCodec α where
  decode_encode _ := decode_eq_some_iff.mpr rfl

/-! ## Lists and texts -/

instance : CanonicalCodec String where
  decode_eq_some_iff {json s} := by
    cases json <;> simp [decode, encode, Json.string?]

/-- Items are read one by one. -/
theorem mapM_eq_some_iff {β γ : Type} {f : β → Option γ} {items : List β} {values : List γ} :
    items.mapM f = some values ↔
      List.Forall₂ (fun item value => f item = some value) items values := by
  induction items generalizing values with
  | nil => cases values <;> simp
  | cons item items ih =>
    rw [List.mapM_cons]
    cases values <;> simp [Option.bind_eq_some_iff, ih]

instance [CanonicalCodec α] : CanonicalCodec (List α) where
  decode_eq_some_iff {json items} := by
    have hitems : ∀ parts : List Json,
        parts.mapM decode = some items ↔ parts = items.map encode := by
      intro parts
      have heq : parts = items.map encode ↔
          List.Forall₂ (fun part item => part = encode item) parts items := by
        rw [← List.forall₂_map_right_iff, List.forall₂_eq_eq_eq]
      rw [heq, mapM_eq_some_iff]
      simp only [decode_eq_some_iff]
    cases json with
    | array parts => exact (hitems parts).trans (by simp [encode])
    | _ => simp [decode, encode, Json.array?]

instance [LawfulCodec α] : LawfulCodec (List α) where
  decode_encode items := by
    have hitems : (items.map encode).mapM decode = some items :=
      mapM_eq_some_iff.mpr <| List.forall₂_map_left_iff.mpr <|
        List.forall₂_same.mpr fun item _ => decode_encode item
    exact hitems

/-! ## Labels, artifacts and operations -/

theorem PackagePath.ofString_eq_ok_iff {s : String} {package : PackagePath} :
    ofString s = .ok package ↔ package.text = s :=
  ⟨text_of_ofString, fun h => h ▸ ofString_text package⟩

theorem toOption_eq_some_iff {ε β : Type} {x : Except ε β} {b : β} :
    x.toOption = some b ↔ x = .ok b :=
  ⟨eq_ok_of_toOption, fun h => h ▸ rfl⟩

instance : CanonicalCodec PackagePath where
  decode_eq_some_iff {json package} := by
    cases json with
    | string text =>
      have hread : decode (.string text) = some package ↔ package.text = text :=
        toOption_eq_some_iff.trans PackagePath.ofString_eq_ok_iff
      rw [hread]
      simp [encode, eq_comm]
    | _ => simp [decode, encode, Json.string?]

instance : CanonicalCodec Label where
  decode_eq_some_iff {json l} := by
    constructor
    · exact Label.encode_of_decode
    · rintro rfl
      exact toOption_eq_some_iff.mpr (Label.parse_text l)

/-- What is read with one of two tags is what is written with it. -/
theorem tagged_eq_some_iff {β γ : Type} [CanonicalCodec α] [JsonCodec β] [CanonicalCodec β]
    {left right tag : String} {makeLeft : α → γ} {makeRight : β → γ} {value : Json} {c : γ}
    (hne : left ≠ right) :
    (if tag == left then (decode value).map makeLeft
      else if tag == right then (decode value).map makeRight
      else none) = some c ↔
      (∃ a, makeLeft a = c ∧ tag = left ∧ value = encode a) ∨
        (∃ b, makeRight b = c ∧ tag = right ∧ value = encode b) := by
  by_cases hleft : tag = left
  · subst hleft
    simp [decode_eq_some_iff, hne, and_comm]
  · by_cases hright : tag = right
    · subst hright
      simp [decode_eq_some_iff, hleft, and_comm]
    · simp [hleft, hright]

instance : CanonicalCodec Artifact where
  decode_eq_some_iff {json artifact} := by
    unfold JsonCodec.instArtifact
    dsimp only
    constructor
    · intro h
      split at h
      next tag value =>
        obtain ⟨path, rfl, rfl, rfl⟩ | ⟨l, rfl, rfl, rfl⟩ :=
          (tagged_eq_some_iff (by decide)).mp h
        · rfl
        · rfl
      next => cases h
    · rintro rfl
      cases artifact with
      | source path => exact (tagged_eq_some_iff (by decide)).mpr (.inl ⟨path, rfl, rfl, rfl⟩)
      | output l => exact (tagged_eq_some_iff (by decide)).mpr (.inr ⟨l, rfl, rfl, rfl⟩)

instance : CanonicalCodec DeltaOp where
  decode_eq_some_iff {json op} := by
    unfold JsonCodec.instDeltaOp
    dsimp only
    constructor
    · intro h
      split at h
      next tag value =>
        obtain ⟨entries, rfl, rfl, rfl⟩ | ⟨text, rfl, rfl, rfl⟩ :=
          (tagged_eq_some_iff (by decide)).mp h
        · rfl
        · rfl
      next => cases h
    · rintro rfl
      cases op with
      | append entries =>
        exact (tagged_eq_some_iff (by decide)).mpr (.inl ⟨entries, rfl, rfl, rfl⟩)
      | override text => exact (tagged_eq_some_iff (by decide)).mpr (.inr ⟨text, rfl, rfl, rfl⟩)

/-- A list is never a text. -/
instance : CanonicalCodec Binding where
  decode_eq_some_iff {json binding} := by
    unfold JsonCodec.instBinding
    dsimp only
    constructor
    · intro h
      split at h
      next entries hentries =>
        cases h
        exact decode_eq_some_iff.mp hentries
      next =>
        obtain ⟨text, htext, rfl⟩ := Option.map_eq_some_iff.mp h
        exact decode_eq_some_iff.mp htext
    · rintro rfl
      cases binding with
      | list entries => rw [decode_encode]
      | scalar text => rfl

/-! ## Maps -/

/-- How one member of an object is read. -/
def decodeMember (α : Type) [JsonCodec α] (member : String × Json) : Option (String × α) :=
  (decode member.2).map fun a => (member.1, a)

/-- Members are read one by one, and their names stay. -/
theorem lookup_of_forall₂ {members : List (String × Json)} {entries : List (String × α)}
    (h : List.Forall₂ (fun member entry => decodeMember α member = some entry) members entries)
    (key : String) :
    entries.lookup key = (members.lookup key).bind decode := by
  induction h with
  | nil => rfl
  | cons hhead _ ih =>
    obtain ⟨a, ha, rfl⟩ := Option.map_eq_some_iff.mp hhead
    rw [List.lookup_cons, List.lookup_cons, ih]
    split
    · rw [Option.bind_some, ha]
    · rfl

theorem exists_mapM {β γ : Type} {f : β → Option γ} {items : List β}
    (h : ∀ item ∈ items, ∃ value, f item = some value) : ∃ values, items.mapM f = some values := by
  induction items with
  | nil => exact ⟨[], rfl⟩
  | cons item items ih =>
    obtain ⟨⟨value, hvalue⟩, hitems⟩ := List.forall_mem_cons.mp h
    obtain ⟨values, hvalues⟩ := ih hitems
    exact ⟨value :: values, by simp [List.mapM_cons, hvalue, hvalues]⟩

theorem decode_object_eq_some_iff {members : List (String × Json)} {map : SortedMap String α} :
    decode (.object members) = some map ↔
      ∃ entries, members.mapM (decodeMember α) = some entries ∧ SortedMap.ofList entries = map := by
  change ((members.mapM (decodeMember α)).bind fun entries => some (SortedMap.ofList entries)) =
    some map ↔ _
  simp only [Option.bind_eq_some_iff, Option.some.injEq]

/-- A map is read from an object whose members can all be read. Of two members with one name the
later counts. -/
theorem decode_map_eq_some_iff {json : Json} {map : SortedMap String α} :
    decode json = some map ↔ ∃ members, json = .object members ∧
      (∀ member ∈ members, ∃ a : α, decode member.2 = some a) ∧
      ∀ key, map.get? key = (members.reverse.lookup key).bind decode := by
  have hlookup : ∀ (members : List (String × Json)) (entries : List (String × α)),
      members.mapM (decodeMember α) = some entries →
      ∀ key, (SortedMap.ofList entries).get? key = (members.reverse.lookup key).bind decode := by
    intro members entries hentries key
    rw [SortedMap.get?_ofList]
    exact lookup_of_forall₂ (List.forall₂_reverse_iff.mpr (mapM_eq_some_iff.mp hentries)) key
  cases json with
  | object members =>
    rw [decode_object_eq_some_iff]
    constructor
    · rintro ⟨entries, hentries, rfl⟩
      refine ⟨members, rfl, fun member hmember => ?_, hlookup members entries hentries⟩
      obtain ⟨entry, -, hentry⟩ :=
        exists_of_mem_right (mapM_eq_some_iff.mp hentries).flip member hmember
      obtain ⟨a, ha, -⟩ := Option.map_eq_some_iff.mp hentry
      exact ⟨a, ha⟩
    · rintro ⟨_, ⟨rfl⟩, hall, hget⟩
      obtain ⟨entries, hentries⟩ := exists_mapM (f := decodeMember α) fun member hmember => by
        obtain ⟨a, ha⟩ := hall member hmember
        exact ⟨(member.1, a), by rw [decodeMember, ha]; rfl⟩
      refine ⟨entries, hentries, SortedMap.ext_get? fun key => ?_⟩
      rw [hlookup members entries hentries, hget]
  | _ => simp [decode, Json.object?]

instance [LawfulCodec α] : LawfulCodec (SortedMap String α) where
  decode_encode map := by
    refine decode_object_eq_some_iff.mpr ⟨map.entries, mapM_eq_some_iff.mpr ?_, map.ofList_entries⟩
    refine List.forall₂_map_left_iff.mpr (List.forall₂_same.mpr fun entry _ => ?_)
    rw [decodeMember, decode_encode]
    rfl

instance : LawfulCodec Delta where
  decode_encode delta := congrArg (Option.map Delta.mk) (decode_encode delta.ops)

instance : LawfulCodec Bindings where
  decode_encode bindings := congrArg (Option.map Bindings.mk) (decode_encode bindings.values)

/-! ## Records -/

/-- An object has one member of a name, with that value. -/
def HasMember (members : List (String × Json)) (name : String) (value : Json) : Prop :=
  (name, value) ∈ members ∧ (members.map Prod.fst).count name = 1

/-- A record as it may be written: all its fields in a list, or by their names among the members of
an object, where one may be missing. -/
inductive Presents : List String → List (Option Json) → Json → Prop where
  | list {names : List String} {items : List Json} (length : items.length = names.length) :
    Presents names (items.map some) (.array items)
  | members {names : List String} {values : List (Option Json)} {members : List (String × Json)}
    (fields : List.Forall₂ (fun name value? => match value? with
      | some value => HasMember members name value
      | none => name ∉ members.map Prod.fst) names values) :
    Presents names values (.object members)

open JsonCodec (member? fields?)

theorem count_names (members : List (String × Json)) (name : String) :
    (members.map Prod.fst).count name =
      (members.filter fun member => member.1 == name).length := by
  rw [List.count, List.countP_map, List.countP_eq_length_filter]
  rfl

theorem member?_eq_some_some_iff {members : List (String × Json)} {name : String} {value : Json} :
    member? members name = some (some value) ↔ HasMember members name value := by
  have hmem : ∀ member, member ∈ (members.filter fun member => member.1 == name) ↔
      member ∈ members ∧ member.1 = name := by simp [List.mem_filter]
  have hvalue : (name, value) ∈ members ↔
      (name, value) ∈ members.filter fun member => member.1 == name := by simp [hmem]
  rw [HasMember, count_names, hvalue, member?]
  generalize (members.filter fun member => member.1 == name) = named at hmem ⊢
  rcases named with _ | ⟨⟨other, found⟩, _ | ⟨second, rest⟩⟩
  · simp
  · obtain rfl : other = name := ((hmem (other, found)).mp List.mem_cons_self).2
    simp [eq_comm]
  · simp

theorem member?_eq_some_none_iff {members : List (String × Json)} {name : String} :
    member? members name = some none ↔ name ∉ members.map Prod.fst := by
  rw [← List.count_eq_zero, count_names, member?]
  generalize (members.filter fun member => member.1 == name) = named
  rcases named with _ | ⟨found, _ | ⟨second, rest⟩⟩ <;> simp

/-- The fields of a record are found in every way of writing it, and in nothing else. -/
theorem fields?_eq_some_iff {names : List String} {values : List (Option Json)} {json : Json} :
    fields? names json = some values ↔ Presents names values json := by
  constructor
  · intro h
    cases json with
    | array items =>
      rw [fields?] at h
      split at h
      next hlength =>
        cases h
        exact .list hlength
      next => cases h
    | object members =>
      refine .members ((mapM_eq_some_iff.mp h).imp fun name value? hvalue => ?_)
      cases value? with
      | none => exact member?_eq_some_none_iff.mp hvalue
      | some value => exact member?_eq_some_some_iff.mp hvalue
    | _ => cases h
  · intro h
    cases h with
    | list hlength => rw [fields?, if_pos hlength]
    | members hfields =>
      refine mapM_eq_some_iff.mpr (hfields.imp fun name value? hvalue => ?_)
      cases value? with
      | none => exact member?_eq_some_none_iff.mpr hvalue
      | some value => exact member?_eq_some_some_iff.mpr hvalue

/-- The names of the fields of a rule. -/
def ruleFields : List String := ["name", "command", "description"]

/-- The names of the fields of an edge. -/
def edgeFields : List String := ["rule", "inputs", "implicit", "outputs", "variables"]

theorem decode_rule_eq_some_iff {json : Json} {rule : Rule} : decode json = some rule ↔
    Presents ruleFields
      [some (encode rule.name), some (encode rule.command), some (encode rule.description)]
      json := by
  rw [← fields?_eq_some_iff, ruleFields]
  unfold JsonCodec.instRule
  dsimp only
  constructor
  · intro h
    split at h
    next _ name command description hfields =>
      simp only [Option.bind_eq_bind, Option.bind_eq_some_iff, decode_eq_some_iff] at h
      obtain ⟨_, rfl, _, rfl, _, rfl, heq⟩ := h
      cases heq
      exact hfields
    next => cases h
  · intro h
    rw [h]
    rfl

/-- The implicit inputs of an edge may be left out if there are none. -/
theorem decode_edge_eq_some_iff {json : Json} {edge : Edge} : decode json = some edge ↔
    ∃ implicit? assignments, Presents edgeFields
      [some (encode edge.rule), some (encode edge.inputs), implicit?, some (encode edge.outputs),
        some assignments] json ∧
      (implicit? = some (encode edge.implicit) ∨ implicit? = none ∧ edge.implicit = []) ∧
      decode assignments = some edge.assignments := by
  simp only [← fields?_eq_some_iff, edgeFields]
  unfold JsonCodec.instEdge
  dsimp only
  constructor
  · intro h
    split at h
    next _ rule inputs implicit? outputs assignments hfields =>
      cases implicit? with
      | some implicit =>
        simp only [Option.bind_eq_bind, Option.bind_eq_some_iff, decode_eq_some_iff] at h
        obtain ⟨_, rfl, _, rfl, _, rfl, _, rfl, _, hassignments, heq⟩ := h
        cases heq
        exact ⟨_, _, hfields, .inl rfl, hassignments⟩
      | none =>
        simp only [Option.bind_eq_bind, Option.bind_eq_some_iff, decode_eq_some_iff] at h
        obtain ⟨_, rfl, _, rfl, _, ⟨⟩, _, rfl, _, hassignments, heq⟩ := h
        cases heq
        exact ⟨_, _, hfields, .inr ⟨rfl, rfl⟩, hassignments⟩
    next => cases h
  · rintro ⟨implicit?, assignments, hfields, himplicit, hassignments⟩
    rw [hfields]
    rcases himplicit with rfl | ⟨rfl, hnone⟩
    · simp [decode_encode, hassignments]
    · simp [decode_encode, hassignments, ← hnone]

instance : LawfulCodec Rule where
  decode_encode _ := decode_rule_eq_some_iff.mpr (fields?_eq_some_iff.mp rfl)

instance : LawfulCodec Edge where
  decode_encode edge := by
    obtain ⟨rule, inputs, implicit, outputs, assignments⟩ := edge
    refine decode_edge_eq_some_iff.mpr ?_
    cases implicit with
    | nil =>
      exact ⟨none, encode assignments, fields?_eq_some_iff.mp rfl, .inr ⟨rfl, rfl⟩,
        decode_encode assignments⟩
    | cons path paths =>
      exact ⟨some (encode (path :: paths)), encode assignments, fields?_eq_some_iff.mp rfl,
        .inl rfl, decode_encode assignments⟩

/-! ## All values -/

/-- What is written of a value is read as that value, and what is read in another form is written
and read again as the same. -/
structure ReadBack (α : Type) [JsonCodec α] : Prop where
  decode_encode : ∀ a : α, decode (encode a) = some a
  decode_again : ∀ json (a : α), decode json = some a →
    (decode (encode a) : Option α) = decode json

theorem readBack [LawfulCodec α] : ReadBack α where
  decode_encode := decode_encode
  decode_again _ a h := (decode_encode a).trans h.symm

/-- A label is made of a package path and a name that are checked, and its text spells them. -/
structure Label.Sound (l : Label) : Prop where
  package : PackagePath.ofString l.package.text = .ok l.package
  name : Label.make l.package l.name = .ok l
  spells : Label.Spells l.package.segments l.name.toList l.text

theorem Label.sound (l : Label) : l.Sound where
  package := l.package.ofString_text
  name := l.make_name
  spells := l.spells_text

/-- How values are written as JSON and read. -/
structure Serialization : Prop where
  packagePath : ReadBack PackagePath
  label : ReadBack Label
  artifact : ReadBack Artifact
  deltaOp : ReadBack DeltaOp
  delta : ReadBack Delta
  bindings : ReadBack Bindings
  environment : ReadBack Environment
  environments : ReadBack EnvironmentRegistry
  rule : ReadBack Rule
  edge : ReadBack Edge
  /-- Whatever is read as a package path, alone or in a label, is checked. -/
  packages : ∀ json (package : PackagePath), decode json = some package ↔
    json = .string package.text ∧ PackagePath.ofString package.text = .ok package ∧
      ∀ segment ∈ package.segments, PlainSegment segment
  labels : ∀ json (l : Label), decode json = some l ↔ json = .string l.text ∧ l.Sound
  outputs : ∀ json l, decode json = some (Artifact.output l) ↔
    json = .object [("output", .string l.text)] ∧ l.Sound
  sources : ∀ json path, decode json = some (Artifact.source path) ↔
    json = .object [("source", .string path)]
  appends : ∀ json entries, decode json = some (DeltaOp.append entries) ↔
    json = .object [("append", .array (entries.map .string))]
  overrides : ∀ json value, decode json = some (DeltaOp.override value) ↔
    json = .object [("override", .string value)]
  lists : ∀ json entries, decode json = some (Binding.list entries) ↔
    json = .array (entries.map .string)
  scalars : ∀ json value, decode json = some (Binding.scalar value) ↔ json = .string value
  /-- A map may be written in any order and list a key again. -/
  maps : ∀ (α : Type) [JsonCodec α] json (map : SortedMap String α), decode json = some map ↔
    ∃ members, json = .object members ∧
      (∀ member ∈ members, ∃ a : α, decode member.2 = some a) ∧
      ∀ key, map.get? key = (members.reverse.lookup key).bind decode
  rules : ∀ json (rule : Rule), decode json = some rule ↔
    Presents ruleFields
      [some (encode rule.name), some (encode rule.command), some (encode rule.description)]
      json
  edges : ∀ json (edge : Edge), decode json = some edge ↔
    ∃ implicit? assignments, Presents edgeFields
      [some (encode edge.rule), some (encode edge.inputs), implicit?, some (encode edge.outputs),
        some assignments] json ∧
      (implicit? = some (encode edge.implicit) ∨ implicit? = none ∧ edge.implicit = []) ∧
      decode assignments = some edge.assignments
  leftOut : ∀ edge : Edge, ∃ members, encode edge = .object members ∧
    ("implicit" ∉ members.map Prod.fst ↔ edge.implicit = [])

/-- Every value of the library is read back from its JSON, and labels only from valid texts. -/
theorem serialization : Serialization where
  packagePath := readBack
  label := readBack
  artifact := readBack
  deltaOp := readBack
  delta := readBack
  bindings := readBack
  environment := readBack
  environments := readBack
  rule := readBack
  edge := readBack
  packages _ package := by
    rw [decode_eq_some_iff, and_iff_left ⟨package.ofString_text, package.plainSegment⟩]
    rfl
  labels _ l := by
    rw [decode_eq_some_iff, and_iff_left l.sound]
    rfl
  outputs _ l := by
    rw [decode_eq_some_iff, and_iff_left l.sound]
    rfl
  sources _ _ := decode_eq_some_iff
  appends _ _ := decode_eq_some_iff
  overrides _ _ := decode_eq_some_iff
  lists _ _ := decode_eq_some_iff
  scalars _ _ := decode_eq_some_iff
  maps _ _ _ _ := decode_map_eq_some_iff
  rules _ _ := decode_rule_eq_some_iff
  edges _ _ := decode_edge_eq_some_iff
  leftOut edge := by
    refine ⟨_, rfl, ?_⟩
    cases himplicit : edge.implicit <;> simp

namespace Sample

/-- An edge without implicit inputs. -/
def linked : Edge :=
  { rule := "link"
    inputs := ["main.o"]
    implicit := []
    outputs := ["gen/app"]
    assignments := SortedMap.ofList [("flags", "-g")] }

/-- The same edge, with a member that is passed over and a variable that is listed again. -/
def linkedOtherwise : Json :=
  .object [("variables", .object [("flags", .string "-O"), ("flags", .string "-g")]),
    ("note", .null), ("outputs", .array [.string "gen/app"]), ("rule", .string "link"),
    ("inputs", .array [.string "main.o"])]

/-- The same edge as a list of its fields. -/
def linkedListed : Json :=
  .array [.string "link", .array [.string "main.o"], .array [], .array [.string "gen/app"],
    .object [("flags", .string "-g")]]

/-- A list without entries and a text. -/
def listAndText : Bindings := ⟨SortedMap.ofList [("flags", .list []), ("src", .scalar "")]⟩

end Sample

theorem serialization_sample :
    decode Sample.linkedOtherwise = some Sample.linked ∧
    decode Sample.linkedListed = some Sample.linked ∧
    (decode (encode Sample.linked) : Option Edge) = decode Sample.linkedOtherwise ∧
    decode (encode Sample.listAndText) = some Sample.listAndText ∧
    (∃ l : Label, decode (.string "//fw/app:image.bin") = some l ∧ l.Sound) ∧
    ∀ l, decode (.object [("output", .string "//fw/:image.bin")]) ≠ some (Artifact.output l) := by
  have hflags : decode (.object [("flags", .string "-O"), ("flags", .string "-g")]) =
      some Sample.linked.assignments := rfl
  have hotherwise : decode Sample.linkedOtherwise = some Sample.linked :=
    (serialization.edges _ _).mpr
      ⟨none, _, fields?_eq_some_iff.mp rfl, .inr ⟨rfl, rfl⟩, hflags⟩
  have hlisted : decode Sample.linkedListed = some Sample.linked :=
    (serialization.edges _ _).mpr
      ⟨_, _, fields?_eq_some_iff.mp rfl, .inl rfl, decode_encode Sample.linked.assignments⟩
  have hread : (decode (.string "//fw/app:image.bin") : Option Label).isSome = true := by decide
  obtain ⟨l, hl⟩ := Option.isSome_iff_exists.mp hread
  have hrefused : (decode (.object [("output", .string "//fw/:image.bin")]) : Option Artifact) =
      none := by decide
  refine ⟨hotherwise, hlisted, serialization.edge.decode_again _ _ hotherwise,
    serialization.bindings.decode_encode _, ⟨l, hl, ((serialization.labels _ l).mp hl).2⟩,
    fun l h => ?_⟩
  rw [hrefused] at h
  cases h

end BuildGraph
