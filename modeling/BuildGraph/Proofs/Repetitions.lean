import BuildGraph.Proofs.Composition

/-!
# Deltas that come again

A delta may reach a consumer along several paths. What is left of it after the first time is
nothing: composed with itself it stays as it is, and applied again it changes nothing. If it only
appends, this is still so when other deltas have come in between, so of a list of deltas only the
first occurrence of each counts (`Delta.repetitions_absorbed`).

One delta absorbs another if composing it with that one changes nothing (`Delta.Absorbs`). Composing
leads to a delta that absorbs the one just added, and goes on absorbing the appends that were
absorbed before. An override is not kept in this way: it comes through again after another one.
-/

namespace BuildGraph

open SortedMap (meet?)

/-! ## Lists and operations -/

theorem extendUnique_eq_self_iff {α : Type} [DecidableEq α] {list entries : List α} :
    extendUnique list entries = list ↔ entries ⊆ list := by
  constructor
  · intro h entry hentry
    rw [← h]
    exact mem_extendUnique.mpr (.inr hentry)
  · intro h
    have hall : ∀ entry ∈ entries, entry ∈ list := fun _ hentry => h hentry
    have hnew : (entries.filter fun entry => entry ∉ list) = [] := by simpa using hall
    rw [extendUnique_eq, hnew]
    exact List.append_nil list

theorem firstOccurrences_cons {α : Type} [DecidableEq α] (entry : α) (entries : List α) :
    firstOccurrences (entry :: entries) =
      entry :: firstOccurrences (entries.filter fun e => e ≠ entry) := by
  calc firstOccurrences (entry :: entries)
      = extendUnique [entry] entries := rfl
    _ = entry :: firstOccurrences (entries.filter fun e => e ∉ [entry]) := extendUnique_eq _ _
    _ = entry :: firstOccurrences (entries.filter fun e => e ≠ entry) := by
      simp only [List.mem_singleton, ne_eq]

namespace DeltaOp

variable {before op after : Option DeltaOp} {list entries : List String}

/-- An append changes nothing exactly if the field holds a list with all its entries. -/
theorem meet?_onto?_append_eq_self_iff :
    meet? onto? before (some (.append entries)) = some before ↔
      ∃ list, before = some (.append list) ∧ entries ⊆ list := by
  rcases before with _ | (list | value) <;> simp [meet?, onto?, extendUnique_eq_self_iff]

/-- A list that is appended only gets longer. -/
theorem exists_of_meet?_onto?_append (h : meet? onto? (some (.append list)) op = some after) :
    ∃ longer, after = some (.append longer) ∧ list ⊆ longer := by
  rcases op with _ | (entries | value) <;> cases h
  · exact ⟨list, rfl, List.Subset.refl list⟩
  · exact ⟨extendUnique list entries, rfl, (prefix_extendUnique list entries).subset⟩

/-- An operation leaves nothing for itself to do. -/
theorem meet?_onto?_again (h : meet? onto? before op = some after) :
    meet? onto? after op = some after := by
  rcases op with _ | (entries | value)
  · rfl
  · refine meet?_onto?_append_eq_self_iff.mpr ?_
    rcases before with _ | (list | value) <;> cases h
    · exact ⟨firstOccurrences entries, rfl, fun _ => mem_firstOccurrences.mpr⟩
    · exact ⟨extendUnique list entries, rfl, fun _ hentry => mem_extendUnique.mpr (.inr hentry)⟩
  · rcases before with _ | (list | value) <;> cases h <;> rfl

end DeltaOp

/-- Nor does it when it is applied. -/
theorem meet?_update?_again {before after : Option Binding} {op : Option DeltaOp}
    (h : meet? Binding.update? before op = some after) :
    meet? Binding.update? after op = some after := by
  rcases op with _ | (entries | value)
  · rfl
  · have hfull : ∀ list, entries ⊆ list → meet? Binding.update? (some (.list list))
        (some (.append entries)) = some (some (.list list)) := by
      intro list hlist
      rw [meet?, Binding.update?, extendUnique_eq_self_iff.mpr hlist]
      rfl
    rcases before with _ | (list | value) <;> cases h
    · exact hfull _ fun _ => mem_firstOccurrences.mpr
    · exact hfull _ fun _ hentry => mem_extendUnique.mpr (.inr hentry)
  · rcases before with _ | (list | value) <;> cases h <;> rfl

namespace Delta

/-! ## Deltas that only append -/

/-- No field is overridden. -/
def AppendsOnly (d : Delta) : Prop := ∀ field value, d.get? field ≠ some (.override value)

theorem appendsOnly_iff {d : Delta} :
    d.AppendsOnly ↔ ∀ entry ∈ d.ops.entries, entry.2.kind = .list := by
  constructor
  · rintro h ⟨field, entries | value⟩ hentry
    · rfl
    · exact absurd (SortedMap.get?_eq_some_iff.mpr hentry) (h field value)
  · intro h field value hvalue
    cases h _ (SortedMap.get?_eq_some_iff.mp hvalue)

instance : DecidablePred AppendsOnly := fun _ => decidable_of_iff _ appendsOnly_iff.symm

variable {a b d held next : Delta}

theorem AppendsOnly.kind? (h : d.AppendsOnly) (field : String) : d.kind? field ≠ some .scalar := by
  rw [Delta.kind?, Ne, Option.map_eq_some_iff]
  rintro ⟨_ | value, hop, hkind⟩
  · cases hkind
  · exact h field value hop

/-- Deltas that only append compose, and what they come to only appends. -/
theorem AppendsOnly.exists_compose (ha : a.AppendsOnly) (hb : b.AppendsOnly) :
    ∃ c, a.compose b = .ok c ∧ c.AppendsOnly := by
  have hcompatible : Compatible [a, b] := by
    intro field d _ e he _
    simp only [List.mem_cons, List.not_mem_nil, or_false] at he
    rcases he with rfl | rfl
    · exact ha.kind? field
    · exact hb.kind? field
  obtain ⟨c, hc⟩ := exists_compose_iff.mpr hcompatible
  refine ⟨c, hc, fun field value hvalue => ?_⟩
  have hkind : c.kind? field = some .scalar := by rw [Delta.kind?, hvalue]; rfl
  rw [kind?_of_compose hc, Option.or_eq_some_iff] at hkind
  rcases hkind with hkind | ⟨-, hkind⟩
  · exact ha.kind? field hkind
  · exact hb.kind? field hkind

/-! ## Absorbing -/

/-- Composing with the delta `d` changes nothing. -/
def Absorbs (held d : Delta) : Prop := held.compose d = .ok held

theorem absorbs_iff :
    held.Absorbs d ↔ ∀ k, meet? DeltaOp.onto? (held.get? k) (d.get? k) = some (held.get? k) :=
  compose_eq_ok_iff

/-- Every delta absorbs itself, whatever repetitions its lists have. -/
theorem absorbs_self (d : Delta) : d.Absorbs d := by
  refine absorbs_iff.mpr fun k => ?_
  rcases d.get? k with _ | (entries | value)
  · rfl
  · exact DeltaOp.meet?_onto?_append_eq_self_iff.mpr ⟨entries, rfl, List.Subset.refl entries⟩
  · rfl

/-- What a delta was composed with is absorbed. -/
theorem absorbs_of_compose (h : held.compose d = .ok next) : next.Absorbs d :=
  absorbs_iff.mpr fun k => DeltaOp.meet?_onto?_again (compose_eq_ok_iff.mp h k)

/-- Appends that are absorbed stay so, whatever comes next. -/
theorem Absorbs.compose (h : held.Absorbs d) (hd : d.AppendsOnly)
    (hnext : held.compose b = .ok next) : next.Absorbs d := by
  refine absorbs_iff.mpr fun k => ?_
  have hnextk := compose_eq_ok_iff.mp hnext k
  have hk := absorbs_iff.mp h k
  cases hop : d.get? k with
  | none => rfl
  | some op =>
    cases op with
    | override value => exact absurd hop (hd k value)
    | append entries =>
      rw [hop] at hk
      obtain ⟨list, hlist, hentries⟩ := DeltaOp.meet?_onto?_append_eq_self_iff.mp hk
      rw [hlist] at hnextk
      obtain ⟨longer, hlonger, hsubset⟩ := DeltaOp.exists_of_meet?_onto?_append hnextk
      exact DeltaOp.meet?_onto?_append_eq_self_iff.mpr
        ⟨longer, hlonger, List.Subset.trans hentries hsubset⟩

theorem apply_again {bound reached : Bindings} (h : d.apply bound = .ok reached) :
    d.apply reached = .ok reached :=
  apply_eq_ok_iff.mpr fun k => meet?_update?_again (apply_eq_ok_iff.mp h k)

/-! ## Sequences -/

/-- Compose a delta with further ones, one after another. -/
def composeAll (d : Delta) (deltas : List Delta) : Except DeltaError Delta :=
  deltas.foldlM compose d

/-- The composition of a sequence of deltas. -/
def ofSequence : List Delta → Except DeltaError Delta
  | [] => .ok empty
  | d :: deltas => d.composeAll deltas

theorem composeAll_cons_of_ok (h : held.compose d = .ok next) (deltas : List Delta) :
    held.composeAll (d :: deltas) = next.composeAll deltas := by
  rw [composeAll, List.foldlM_cons, h]
  rfl

theorem composeAll_cons_of_error {e : DeltaError} (h : held.compose d = .error e)
    (deltas : List Delta) : held.composeAll (d :: deltas) = .error e := by
  rw [composeAll, List.foldlM_cons, h]
  rfl

/-- Deltas that only append always compose. -/
theorem exists_composeAll {deltas : List Delta} (hd : d.AppendsOnly)
    (h : ∀ e ∈ deltas, e.AppendsOnly) : ∃ total, d.composeAll deltas = .ok total := by
  induction deltas generalizing d with
  | nil => exact ⟨d, rfl⟩
  | cons e deltas ih =>
    obtain ⟨he, hdeltas⟩ := List.forall_mem_cons.mp h
    obtain ⟨next, hnext, happends⟩ := hd.exists_compose he
    rw [composeAll_cons_of_ok hnext]
    exact ih happends hdeltas

/-- What is absorbed may be left out, and of everything else all but the first occurrence. -/
theorem composeAll_firstOccurrences_filter {absorbed deltas : List Delta}
    (habsorbed : ∀ d ∈ absorbed, d.AppendsOnly ∧ held.Absorbs d)
    (hdeltas : ∀ d ∈ deltas, d.AppendsOnly) :
    held.composeAll (firstOccurrences (deltas.filter fun d => d ∉ absorbed)) =
      held.composeAll deltas := by
  induction deltas generalizing held absorbed with
  | nil => rfl
  | cons d deltas ih =>
    obtain ⟨hd, hdeltas⟩ := List.forall_mem_cons.mp hdeltas
    by_cases hmem : d ∈ absorbed
    · rw [List.filter_cons_of_neg (by simpa using hmem), ih habsorbed hdeltas,
        composeAll_cons_of_ok (habsorbed d hmem).2]
    · -- from here on `d` is absorbed too
      have hfirst : firstOccurrences ((d :: deltas).filter fun e => e ∉ absorbed) =
          d :: firstOccurrences (deltas.filter fun e => e ∉ d :: absorbed) := by
        rw [List.filter_cons_of_pos (by simpa using hmem), firstOccurrences_cons,
          List.filter_filter]
        simp only [List.mem_cons, not_or, Bool.decide_and]
      rw [hfirst]
      cases hnext : held.compose d with
      | error e => rw [composeAll_cons_of_error hnext, composeAll_cons_of_error hnext]
      | ok next =>
        rw [composeAll_cons_of_ok hnext, composeAll_cons_of_ok hnext]
        refine ih (List.forall_mem_cons.mpr ⟨⟨hd, absorbs_of_compose hnext⟩, fun e he => ?_⟩)
          hdeltas
        obtain ⟨happends, habsorbs⟩ := habsorbed e he
        exact ⟨happends, habsorbs.compose happends hnext⟩

/-- A delta that comes again adds nothing: not to itself, not to bindings that it was applied to,
and if deltas only append, not to those that it is composed with either. -/
theorem repetitions_absorbed :
    (∀ d : Delta, d.compose d = .ok d) ∧
    (∀ (d : Delta) (held reached : Bindings),
      d.apply held = .ok reached → d.apply reached = .ok reached) ∧
    (∀ a b : Delta, a.AppendsOnly → b.AppendsOnly →
      ∃ ab, a.compose b = .ok ab ∧ ab.compose a = .ok ab) ∧
    (∀ deltas : List Delta, (∀ d ∈ deltas, d.AppendsOnly) →
      (∃ total, ofSequence deltas = .ok total ∧
        ofSequence (firstOccurrences deltas) = .ok total) ∧
      ∀ held : Delta, held.composeAll (firstOccurrences deltas) = held.composeAll deltas) := by
  refine ⟨absorbs_self, fun d held reached => apply_again, fun a b ha hb => ?_,
    fun deltas h => ⟨?_, ?_⟩⟩
  · obtain ⟨ab, hab, -⟩ := ha.exists_compose hb
    exact ⟨ab, hab, (absorbs_self a).compose ha hab⟩
  · cases deltas with
    | nil => exact ⟨empty, rfl, rfl⟩
    | cons d deltas =>
      obtain ⟨hd, hdeltas⟩ := List.forall_mem_cons.mp h
      obtain ⟨total, htotal⟩ := exists_composeAll hd hdeltas
      refine ⟨total, htotal, ?_⟩
      have hself : ∀ e ∈ [d], e.AppendsOnly ∧ d.Absorbs e := by
        simpa using ⟨hd, absorbs_self d⟩
      have hrest := composeAll_firstOccurrences_filter hself hdeltas
      rw [firstOccurrences_cons, ofSequence, ← htotal, ← hrest]
      simp only [List.mem_singleton, ne_eq]
  · intro held
    have hnone : ∀ d ∈ ([] : List Delta), d.AppendsOnly ∧ held.Absorbs d := by simp
    have hkept : (deltas.filter fun d => d ∉ ([] : List Delta)) = deltas :=
      List.filter_eq_self.mpr (by simp)
    have hall := composeAll_firstOccurrences_filter hnone h
    rwa [hkept] at hall

/-- An override that comes again replaces what came in between. -/
example :
    let old := empty.withOverride "mode" "old"
    let new := empty.withOverride "mode" "new"
    ofSequence [old, new, old] = .ok old ∧
      ofSequence (firstOccurrences [old, new, old]) = .ok new := by
  exact ⟨rfl, rfl⟩

end Delta

namespace Sample

/-- Appends to one field, one entry twice. -/
def doubled : Delta := ⟨SortedMap.ofList [("flags", .append ["-g", "-O", "-g"])]⟩

/-- Appends to that field and another one. -/
def further : Delta := Delta.appending [("flags", ["-Wall", "-O"]), ("libs", ["m"])]

/-- Appends to one field and overrides another. -/
def switching : Delta := doubled.withOverride "mode" "new"

/-- Two deltas that come along two paths each. -/
def arriving : List Delta := [doubled, further, doubled, further]

end Sample

theorem Delta.repetitions_absorbed_sample :
    Sample.switching.compose Sample.switching = .ok Sample.switching ∧
    Sample.switching.apply .empty = .ok Sample.switching.bindings ∧
    Sample.switching.apply Sample.switching.bindings = .ok Sample.switching.bindings ∧
    (∃ ab, Sample.doubled.compose Sample.further = .ok ab ∧ ab.compose Sample.doubled = .ok ab) ∧
    firstOccurrences Sample.arriving = [Sample.doubled, Sample.further] ∧
    ∃ total, ofSequence Sample.arriving = .ok total ∧
      ofSequence (firstOccurrences Sample.arriving) = .ok total ∧
      total.get? "flags" = some (.append ["-g", "-O", "-g", "-Wall"]) := by
  obtain ⟨hself, happly, hpair, hsequence⟩ := repetitions_absorbed
  have hdoubled : Sample.doubled.AppendsOnly := by decide
  have hfurther : Sample.further.AppendsOnly := by decide
  have harriving : ∀ d ∈ Sample.arriving, d.AppendsOnly := by decide
  have hreached := Sample.switching.apply_empty
  obtain ⟨⟨total, htotal, honce⟩, -⟩ := hsequence Sample.arriving harriving
  have hflags : (ofSequence Sample.arriving).toOption.bind (·.get? "flags") =
      some (.append ["-g", "-O", "-g", "-Wall"]) := by decide
  rw [htotal] at hflags
  exact ⟨hself _, hreached, happly _ _ _ hreached, hpair _ _ hdoubled hfurther, by decide,
    total, htotal, honce, hflags⟩

end BuildGraph
