import BuildGraph.Proofs.Repetitions
import Mathlib.Data.List.Induction
import Mathlib.Data.List.Nodup

/-!
# Deltas built from fields

A delta that appends is built from a list of fields, each with its entries (`Delta.appending`). Of a
field that is listed again only the last list is kept (`Delta.get?_appending`), whereas composing
keeps the entries of both. So the delta built from two lists of fields one after the other is the
composition of those built from each exactly if nothing is lost: the entries that the first list has
for a field also begin those that the second has for it (`Delta.appendsFields`). This is so if no
field is listed twice, but not in general (`Delta.not_keepsFields`).
-/

namespace BuildGraph

open SortedMap (meet?)

/-! ## Lists -/

/-- The map of a list of entries holds the last one for each key. -/
theorem SortedMap.get?_ofList {κ β : Type} [Ord κ] [Std.TransOrd κ] [Std.LawfulEqOrd κ]
    [DecidableEq κ] (l : List (κ × β)) (k : κ) : (ofList l).get? k = l.reverse.lookup k := by
  induction l using List.reverseRecOn with
  | nil => rfl
  | append_singleton l e ih =>
    have hsnoc : ofList (l ++ [e]) = (ofList l).insert e.1 e.2 := by
      simp only [ofList, List.foldl_append, List.foldl_cons, List.foldl_nil]
    rw [hsnoc, get?_insert, List.reverse_append, List.reverse_singleton, List.singleton_append,
      List.lookup_cons, ih]
    by_cases hk : k = e.1
    · rw [if_pos hk, beq_iff_eq.mpr hk]
    · rw [if_neg hk, beq_eq_false_iff_ne.mpr hk]

/-- Extending a list leads to the list that it is extended by exactly if that one begins with it. -/
theorem extendUnique_eq_right_iff {α : Type} [DecidableEq α] {list entries : List α}
    (h : entries.Nodup) : extendUnique list entries = entries ↔ list <+: entries := by
  constructor
  · intro heq
    rw [← heq]
    exact prefix_extendUnique list entries
  · rintro ⟨rest, rfl⟩
    have hlist : extendUnique list list = list :=
      extendUnique_eq_self_iff.mpr (List.Subset.refl list)
    rw [extendUnique_append, hlist]
    exact extendUnique_eq_append h

namespace Delta

/-- A field and the entries to append to it. -/
abbrev Field := String × List String

variable {first next fields : List Field} {field : String} {entries : List String}

/-! ## What is built -/

/-- The entries that are listed last for a field. -/
def lastEntries? (fields : List Field) (field : String) : Option (List String) :=
  fields.reverse.lookup field

theorem lastEntries?_append (first next : List Field) (field : String) :
    lastEntries? (first ++ next) field =
      (lastEntries? next field).or (lastEntries? first field) := by
  rw [lastEntries?, List.reverse_append, List.lookup_append]
  rfl

/-- The last entries of a field that is listed once are the only ones. -/
theorem lastEntries?_of_mem (hnd : (fields.map Prod.fst).Nodup) (h : (field, entries) ∈ fields) :
    lastEntries? fields field = some entries := by
  obtain ⟨after, before, hsplit⟩ := List.append_of_mem (List.mem_reverse.mpr h)
  refine List.lookup_eq_some_iff.mpr ⟨after, before, hsplit, fun other hother => ?_⟩
  -- another entry for the field would be another occurrence of its name
  rw [← List.nodup_reverse, ← List.map_reverse, hsplit, List.map_append,
    List.nodup_append] at hnd
  have hne : other.1 ≠ field :=
    hnd.2.2 other.1 (List.mem_map_of_mem hother) field List.mem_cons_self
  simpa using hne.symm

/-- A field is appended the entries that are listed last for it, each once. -/
theorem get?_appending (fields : List Field) (field : String) : (appending fields).get? field =
    (lastEntries? fields field).map fun entries => .append (firstOccurrences entries) := by
  have hlookup : ∀ l : List Field,
      (l.map fun f => (f.1, (DeltaOp.append f.2).normalize)).lookup field =
        (l.lookup field).map fun entries => .append (firstOccurrences entries) := by
    intro l
    induction l with
    | nil => rfl
    | cons f l ih =>
      rw [List.map_cons, List.lookup_cons, List.lookup_cons, ih]
      cases field == f.1 <;> rfl
  rw [get?, appending, SortedMap.get?_ofList, ← List.map_reverse, lastEntries?, ← hlookup]

theorem appendsOnly_appending (fields : List Field) : (appending fields).AppendsOnly := by
  intro field value h
  rw [get?_appending] at h
  cases hlast : lastEntries? fields field <;> simp [hlast] at h

/-- An entry is appended to a field exactly if it is among those listed last for it. -/
theorem exists_append_iff {entry : String} :
    (∃ list, (appending fields).get? field = some (.append list) ∧ entry ∈ list) ↔
      ∃ last, lastEntries? fields field = some last ∧ entry ∈ last := by
  rw [get?_appending]
  constructor
  · rintro ⟨list, hlist, hentry⟩
    obtain ⟨last, hlast, heq⟩ := Option.map_eq_some_iff.mp hlist
    cases heq
    exact ⟨last, hlast, mem_firstOccurrences.mp hentry⟩
  · rintro ⟨last, hlast, hentry⟩
    exact ⟨firstOccurrences last, by rw [hlast]; rfl, mem_firstOccurrences.mpr hentry⟩

/-! ## One field after another -/

variable {d held total : Delta} {deltas : List Delta}

/-- Appends that are absorbed stay so through a sequence of deltas. -/
theorem Absorbs.composeAll (h : held.Absorbs d) (hd : d.AppendsOnly)
    (htotal : held.composeAll deltas = .ok total) : total.Absorbs d := by
  induction deltas generalizing held with
  | nil =>
    obtain rfl := Except.ok.inj htotal
    exact h
  | cons e deltas ih =>
    cases hnext : held.compose e with
    | error clash =>
      rw [composeAll_cons_of_error hnext] at htotal
      cases htotal
    | ok next =>
      rw [composeAll_cons_of_ok hnext] at htotal
      exact ih (h.compose hd hnext) htotal

/-- A sequence of deltas that only append leads to one that absorbs each of them. -/
theorem absorbs_of_composeAll (h : ∀ e ∈ deltas, e.AppendsOnly)
    (htotal : held.composeAll deltas = .ok total) : ∀ e ∈ deltas, total.Absorbs e := by
  induction deltas generalizing held with
  | nil => simp
  | cons e deltas ih =>
    obtain ⟨he, hdeltas⟩ := List.forall_mem_cons.mp h
    cases hnext : held.compose e with
    | error clash =>
      rw [composeAll_cons_of_error hnext] at htotal
      cases htotal
    | ok next =>
      rw [composeAll_cons_of_ok hnext] at htotal
      refine List.forall_mem_cons.mpr ⟨?_, ih hdeltas htotal⟩
      exact (absorbs_of_compose hnext).composeAll he htotal

/-- Composed one by one, fields keep all their entries. -/
theorem exists_composeAll_fields (fields : List Field) :
    ∃ all, empty.composeAll (fields.map fun f => appending [f]) = .ok all ∧
      ∀ f ∈ fields, ∃ list, all.get? f.1 = some (.append list) ∧ f.2 ⊆ list := by
  have happends : ∀ e ∈ fields.map fun f => appending [f], e.AppendsOnly := by
    intro e he
    obtain ⟨f, -, rfl⟩ := List.mem_map.mp he
    exact appendsOnly_appending [f]
  have hempty : empty.AppendsOnly := appendsOnly_appending []
  obtain ⟨all, hall⟩ := exists_composeAll hempty happends
  refine ⟨all, hall, fun f hf => ?_⟩
  have habsorbs := absorbs_of_composeAll happends hall _ (List.mem_map_of_mem hf)
  have hfield := absorbs_iff.mp habsorbs f.1
  have hone : lastEntries? [f] f.1 = some f.2 :=
    lastEntries?_of_mem (List.nodup_singleton f.1) (List.mem_singleton_self f)
  rw [get?_appending, hone] at hfield
  obtain ⟨list, hlist, hentries⟩ := DeltaOp.meet?_onto?_append_eq_self_iff.mp hfield
  exact ⟨list, hlist, fun entry hentry => hentries (mem_firstOccurrences.mpr hentry)⟩

/-! ## One list after another -/

/-- What the second list has for a field begins with what the first has for it. -/
def Continues (first next : List Field) : Prop :=
  ∀ field old new, lastEntries? first field = some old → lastEntries? next field = some new →
    firstOccurrences old <+: firstOccurrences new

theorem compose_appending_iff :
    (appending first).compose (appending next) = .ok (appending (first ++ next)) ↔
      Continues first next := by
  rw [compose_eq_ok_iff]
  refine forall_congr' fun field => ?_
  rw [get?_appending, get?_appending, get?_appending, lastEntries?_append]
  cases lastEntries? next field with
  | none => simp [meet?]
  | some new =>
    have hnew := nodup_firstOccurrences new
    cases lastEntries? first field with
    | none => simp [meet?, DeltaOp.onto?, DeltaOp.normalize, firstOccurrences_eq_self hnew]
    | some old => simp [meet?, DeltaOp.onto?, extendUnique_eq_right_iff hnew]

/-- Lists without a field in common continue each other. -/
theorem continues_of_nodup (h : ((first ++ next).map Prod.fst).Nodup) : Continues first next := by
  intro field old new hold hnew
  have hmem : ∀ {fields : List Field} {entries}, lastEntries? fields field = some entries →
      field ∈ fields.map Prod.fst := by
    intro fields entries hlast
    obtain ⟨before, after, hsplit, -⟩ := List.lookup_eq_some_iff.mp hlast
    have hin : (field, entries) ∈ fields.reverse := by simp [hsplit]
    exact List.mem_map_of_mem (List.mem_reverse.mp hin)
  rw [List.map_append, List.nodup_append] at h
  exact absurd rfl (h.2.2 field (hmem hold) field (hmem hnew))

/-- The delta of both lists is the composition of their deltas, and no entry of a field is lost. -/
structure KeepsFields (first next : List Field) : Prop where
  composes : (appending first).compose (appending next) = .ok (appending (first ++ next))
  keeps : ∀ f ∈ first ++ next, ∃ list,
    (appending (first ++ next)).get? f.1 = some (.append list) ∧ f.2 ⊆ list

/-- How far the delta built from two lists of fields says what they say. -/
structure AppendsFields (first next : List Field) : Prop where
  /-- The deltas of the two lists always compose. -/
  composes : ∃ both, (appending first).compose (appending next) = .ok both ∧
    (both = appending (first ++ next) ↔ Continues first next)
  /-- Of what is listed for a field only the last counts. -/
  kept_iff : ∀ field entry,
    (∃ list, (appending (first ++ next)).get? field = some (.append list) ∧ entry ∈ list) ↔
      ∃ last, lastEntries? (first ++ next) field = some last ∧ entry ∈ last
  /-- Composed one by one, the fields keep all their entries. -/
  oneByOne : ∃ all, empty.composeAll ((first ++ next).map fun f => appending [f]) = .ok all ∧
    ∀ f ∈ first ++ next, ∃ list, all.get? f.1 = some (.append list) ∧ f.2 ⊆ list
  /-- So they do if no field is listed twice. -/
  distinct : ((first ++ next).map Prod.fst).Nodup → KeepsFields first next

/-- When building a delta from fields turns putting lists together into composing. -/
theorem appendsFields (first next : List Field) : AppendsFields first next where
  composes := by
    obtain ⟨both, hboth, -⟩ :=
      (appendsOnly_appending first).exists_compose (appendsOnly_appending next)
    refine ⟨both, hboth, ?_⟩
    rw [← compose_appending_iff, hboth, Except.ok.injEq]
  kept_iff field entry := exists_append_iff
  oneByOne := exists_composeAll_fields (first ++ next)
  distinct hnd := by
    refine ⟨compose_appending_iff.mpr (continues_of_nodup hnd), fun f hf => ?_⟩
    refine ⟨firstOccurrences f.2, ?_, fun entry => mem_firstOccurrences.mpr⟩
    rw [get?_appending, lastEntries?_of_mem hnd hf]
    rfl

/-- Flags that are listed twice: the first list is lost, where composing keeps both. -/
theorem not_keepsFields :
    let first := [("flags", ["-g"])]
    let next := [("flags", ["-O"])]
    (appending first).compose (appending next) = .ok (appending [("flags", ["-g", "-O"])]) ∧
      (appending (first ++ next)).get? "flags" = some (.append ["-O"]) ∧
      ¬ KeepsFields first next := by
  intro first next
  have hlast : (appending (first ++ next)).get? "flags" = some (.append ["-O"]) := by decide
  refine ⟨by rfl, hlast, fun hkeeps => ?_⟩
  obtain ⟨list, hlist, hentries⟩ := hkeeps.keeps ("flags", ["-g"]) List.mem_cons_self
  rw [hlast] at hlist
  cases hlist
  exact absurd (hentries List.mem_cons_self) (by decide)

end Delta

end BuildGraph
