import BuildGraph.Proofs.Outcomes
import BuildGraph.Proofs.Repetitions
import Mathlib.Data.List.Induction
import Mathlib.Data.List.Sort

/-!
# What applying a delta does

Applying a delta goes through its fields in ascending order and stops at the first operation that
does not fit the value of its field. By then the fields before that one hold what the delta makes of
them, and all others are as they were; without a clash every field of the delta is updated
(`Delta.Effect`). This determines what comes of applying, on success and on failure
(`Delta.apply_eq_iff`). Fields without a value fit every operation, so applied to nothing a delta
never clashes, and a lowered target always has bindings.

The field of a clash is the least one, since no field before it clashed and none after it was met.
-/

namespace BuildGraph

open SortedMap (meet?)

/-! ## Entries added to a list -/

section Adds

variable {α : Type} [DecidableEq α]

/-- What has to be added to a list for it to hold all entries: those that it does not hold, each
once, in the order in which they first occur. -/
structure Adds (held entries added : List α) : Prop where
  mem_iff : ∀ entry, entry ∈ added ↔ entry ∈ entries ∧ entry ∉ held
  ordered : added.Pairwise fun x y => entries.idxOf x < entries.idxOf y

theorem firstOccurrences_snoc (entries : List α) (entry : α) :
    firstOccurrences (entries ++ [entry]) =
      if entry ∈ entries then firstOccurrences entries
      else firstOccurrences entries ++ [entry] := by
  rw [firstOccurrences, extendUnique_append, extendUnique, extendUnique, ← firstOccurrences]
  simp only [List.contains_iff_mem, mem_firstOccurrences]

/-- First occurrences come in the order of the list, also if some entries are left out. -/
theorem firstOccurrences_filter_ordered (keep : α → Bool) (entries : List α) :
    (firstOccurrences (entries.filter keep)).Pairwise
      fun x y => entries.idxOf x < entries.idxOf y := by
  induction entries using List.reverseRecOn with
  | nil => exact .nil
  | append_singleton entries entry ih =>
    have hmem : ∀ {x}, x ∈ firstOccurrences (entries.filter keep) → x ∈ entries := by
      intro x hx
      exact (List.mem_filter.mp (mem_firstOccurrences.mp hx)).1
    -- the entries before the last one stay where they are
    have hbefore : (firstOccurrences (entries.filter keep)).Pairwise
        fun x y => (entries ++ [entry]).idxOf x < (entries ++ [entry]).idxOf y := by
      refine ih.imp_of_mem fun {x y} hx hy hlt => ?_
      rwa [List.idxOf_append_of_mem (hmem hx), List.idxOf_append_of_mem (hmem hy)]
    rw [List.filter_append]
    by_cases hkeep : keep entry = true
    · rw [List.filter_cons_of_pos hkeep, List.filter_nil, firstOccurrences_snoc]
      split
      · exact hbefore
      next hnew =>
        have hout : entry ∉ entries := fun h => hnew (List.mem_filter.mpr ⟨h, hkeep⟩)
        refine List.pairwise_append.mpr ⟨hbefore, List.pairwise_singleton _ _, fun x hx y hy => ?_⟩
        obtain rfl := List.mem_singleton.mp hy
        rw [List.idxOf_append_of_mem (hmem hx), List.idxOf_append_of_notMem hout]
        have hlt := List.idxOf_lt_length_iff.mpr (hmem hx)
        omega
    · rw [List.filter_cons_of_neg hkeep, List.filter_nil, List.append_nil]
      exact hbefore

theorem adds_firstOccurrences (held entries : List α) :
    Adds held entries (firstOccurrences (entries.filter fun entry => entry ∉ held)) where
  mem_iff entry := by simp [mem_firstOccurrences]
  ordered := firstOccurrences_filter_ordered _ entries

theorem Adds.unique {held entries added added' : List α} (h : Adds held entries added)
    (h' : Adds held entries added') : added = added' := by
  have : Std.Irrefl fun x y => entries.idxOf x < entries.idxOf y := ⟨fun x => Nat.lt_irrefl _⟩
  have : Std.Antisymm fun x y => entries.idxOf x < entries.idxOf y :=
    ⟨fun x y hxy hyx => absurd hyx (Nat.lt_asymm hxy)⟩
  exact h.ordered.eq_of_mem_iff h'.ordered fun entry => (h.mem_iff entry).trans
    (h'.mem_iff entry).symm

/-- Extending a list appends what has to be added. -/
theorem Adds.extendUnique_eq {held entries added : List α} (h : Adds held entries added) :
    extendUnique held entries = held ++ added := by
  rw [BuildGraph.extendUnique_eq, h.unique (adds_firstOccurrences held entries)]

theorem exists_adds (held entries : List α) :
    ∃ added, Adds held entries added ∧ extendUnique held entries = held ++ added :=
  ⟨_, adds_firstOccurrences held entries, extendUnique_eq held entries⟩

end Adds

/-! ## Single fields -/

/-- What an operation makes of the value of its field, if it fits. -/
inductive DeltaOp.Updates : DeltaOp → Option Binding → Binding → Prop
  | start {entries added : List String} : Adds [] entries added →
    Updates (.append entries) none (.list added)
  | extend {held entries added : List String} : Adds held entries added →
    Updates (.append entries) (some (.list held)) (.list (held ++ added))
  | set {value : String} : Updates (.override value) none (.scalar value)
  | replace {value old : String} :
    Updates (.override value) (some (.scalar old)) (.scalar value)

/-- An operation does not fit the value of its field. -/
inductive DeltaOp.Misfits : DeltaOp → Option Binding → Prop
  | append {entries : List String} {value : String} :
    Misfits (.append entries) (some (.scalar value))
  | override {value : String} {entries : List String} :
    Misfits (.override value) (some (.list entries))

theorem update?_eq_some_iff {before : Option Binding} {op : DeltaOp} {after : Binding} :
    Binding.update? before op = some after ↔ op.Updates before after := by
  constructor
  · intro h
    match before, op, h with
    | none, .append entries, h =>
      obtain ⟨added, hadded, heq⟩ := exists_adds [] entries
      rw [Binding.update?, firstOccurrences, heq] at h
      cases h
      exact .start hadded
    | some (.list held), .append entries, h =>
      obtain ⟨added, hadded, heq⟩ := exists_adds held entries
      rw [Binding.update?, heq] at h
      cases h
      exact .extend hadded
    | none, .override value, h =>
      cases h
      exact .set
    | some (.scalar old), .override value, h =>
      cases h
      exact .replace
  · intro h
    cases h with
    | start hadded => simp [Binding.update?, firstOccurrences, hadded.extendUnique_eq]
    | extend hadded => rw [Binding.update?, hadded.extendUnique_eq]
    | set => rfl
    | replace => rfl

theorem update?_eq_none_iff {before : Option Binding} {op : DeltaOp} :
    Binding.update? before op = none ↔ op.Misfits before := by
  constructor
  · intro h
    rcases before with _ | (held | old) <;> cases op <;> cases h
    · exact .override
    · exact .append
  · rintro (_ | _) <;> rfl

/-! ## Going through the fields -/

/-- Applying stops at the first operation that does not fit, and the operations before it have been
applied. -/
theorem Bindings.applyAll_eq_error {held : Bindings} {clash : Clash}
    {entries : List (String × DeltaOp)} (h : held.applyAll entries = .error clash) :
    ∃ before op after, entries = before ++ (clash.field, op) :: after ∧
      held.applyAll before = .ok clash.reached ∧
      Binding.update? (clash.reached.get? clash.field) op = none := by
  induction entries generalizing held with
  | nil => cases h
  | cons entry rest ih =>
    obtain ⟨field, op⟩ := entry
    rw [applyAll] at h
    cases hvalue : Binding.update? (held.get? field) op with
    | none =>
      rw [hvalue] at h
      cases h
      exact ⟨[], op, rest, rfl, rfl, hvalue⟩
    | some value =>
      rw [hvalue] at h
      obtain ⟨before, op', after, rfl, hbefore, hnone⟩ := ih h
      refine ⟨(field, op) :: before, op', after, rfl, ?_, hnone⟩
      rw [applyAll, hvalue]
      exact hbefore

theorem SortedMap.find_append {κ β : Type} [Ord κ] (k : κ) (before after : List (κ × β)) :
    find k (before ++ after) = (find k before).or (find k after) := by
  induction before with
  | nil => rfl
  | cons e before ih =>
    rw [List.cons_append, find, find, ih]
    split <;> rfl

/-- Of ascending entries, those before the one for `k` are the ones for keys below `k`. -/
theorem SortedMap.find_before {β : Type} {before after : List (String × β)} {k : String} {item : β}
    (h : (before ++ (k, item) :: after).Pairwise fun a b => compare a.1 b.1 = .lt) (k' : String) :
    find k' before = if k' < k then find k' (before ++ (k, item) :: after) else none := by
  obtain ⟨hbefore, hafter, hacross⟩ := List.pairwise_append.mp h
  by_cases hlt : k' < k
  · have hcmp : compare k' k = .lt := compareOfLessAndEq_eq_lt.mpr hlt
    have hnone : find k' ((k, item) :: after) = none := by
      refine find_eq_none_of_lt (List.forall_mem_cons.mpr ⟨hcmp, fun e he => ?_⟩)
      exact Std.TransCmp.lt_trans hcmp (List.rel_of_pairwise_cons hafter he)
    rw [if_pos hlt, find_append, hnone, Option.or_none]
  · rw [if_neg hlt]
    cases hfind : find k' before with
    | none => rfl
    | some v =>
      have hmem : (k', v) ∈ before := (find_eq_some_iff hbefore).mp hfind
      have hcmp := hacross _ hmem (k, item) List.mem_cons_self
      exact absurd (compareOfLessAndEq_eq_lt.mp hcmp) hlt

namespace Delta

variable {d : Delta} {held reached : Bindings} {result : Except Bindings.Clash Bindings}

/-- The operation of the delta on a field does not fit the value that is held for it. -/
def ClashesAt (d : Delta) (held : Bindings) (field : String) : Prop :=
  ∃ op, d.get? field = some op ∧ op.Misfits (held.get? field)

/-- The fields met hold what the operations of the delta make of them, all others are as they
were. -/
structure UpdatesWhere (d : Delta) (met : String → Prop) (held reached : Bindings) : Prop where
  updated : ∀ field op, d.get? field = some op → met field →
    ∃ value, reached.get? field = some value ∧ op.Updates (held.get? field) value
  kept : ∀ field, d.get? field = none ∨ ¬ met field → reached.get? field = held.get? field

/-- What comes of applying a delta. -/
inductive Effect (d : Delta) (held : Bindings) : Except Bindings.Clash Bindings → Prop
  | applied {reached : Bindings} : (∀ field, ¬ d.ClashesAt held field) →
    d.UpdatesWhere (fun _ => True) held reached → Effect d held (.ok reached)
  /-- The least field on which the delta and the bindings clash ends it. -/
  | clashed {field : String} {reached : Bindings} : d.ClashesAt held field →
    (∀ other, d.ClashesAt held other → field ≤ other) →
    d.UpdatesWhere (· < field) held reached → Effect d held (.error { field, reached })

theorem updatesWhere_of_meet? {met : String → Prop}
    (hmet : ∀ k, met k → meet? Binding.update? (held.get? k) (d.get? k) = some (reached.get? k))
    (hkept : ∀ k, ¬ met k → reached.get? k = held.get? k) : d.UpdatesWhere met held reached where
  updated field op hop hfield := by
    have hk := hmet field hfield
    rw [hop] at hk
    obtain ⟨value, hvalue, hreached⟩ := Option.map_eq_some_iff.mp hk
    exact ⟨value, hreached.symm, update?_eq_some_iff.mp hvalue⟩
  kept field hfield := by
    by_cases hmeets : met field
    · have hnone : d.get? field = none := hfield.resolve_right fun hnot => hnot hmeets
      have hk := hmet field hmeets
      rw [hnone] at hk
      exact (Option.some.inj hk).symm
    · exact hkept field hmeets

/-- An operation that is met fits. -/
theorem not_clashesAt_of_meet? {k : String} {after : Option Binding}
    (h : meet? Binding.update? (held.get? k) (d.get? k) = some after) : ¬ d.ClashesAt held k := by
  rintro ⟨op, hop, hmisfits⟩
  rw [hop, meet?, update?_eq_none_iff.mpr hmisfits] at h
  cases h

theorem effect_apply (d : Delta) (held : Bindings) : d.Effect held (d.apply held) := by
  cases h : d.apply held with
  | ok reached =>
    have hall := apply_eq_ok_iff.mp h
    exact .applied (fun field => not_clashesAt_of_meet? (hall field))
      (updatesWhere_of_meet? (fun k _ => hall k) fun k hnot => absurd trivial hnot)
  | error clash =>
    obtain ⟨field, reached⟩ := clash
    obtain ⟨before, op, after, hsplit, hbefore, hnone⟩ := Bindings.applyAll_eq_error h
    have hasc := hsplit ▸ d.ops.ascending
    -- the fields that were met are those below the one of the clash
    have hfind : ∀ k, SortedMap.find k before = if k < field then d.get? k else none := by
      intro k
      rw [SortedMap.find_before hasc, ← hsplit]
      rfl
    have hreached : ∀ k, meet? Binding.update? (held.get? k) (SortedMap.find k before) =
        some (reached.get? k) :=
      (SortedMap.updateAll_eq_some_iff (List.pairwise_append.mp hasc).1).mp
        (Bindings.applyAll_eq_ok_iff.mp hbefore)
    have hmet : ∀ k, k < field →
        meet? Binding.update? (held.get? k) (d.get? k) = some (reached.get? k) := by
      intro k hk
      rw [← hreached k, hfind, if_pos hk]
    have hkept : ∀ k, ¬ k < field → reached.get? k = held.get? k := by
      intro k hk
      have hunmet := hreached k
      rw [hfind, if_neg hk] at hunmet
      exact (Option.some.inj hunmet).symm
    refine .clashed ⟨op, ?_, ?_⟩ (fun other hother => ?_) (updatesWhere_of_meet? hmet hkept)
    · exact SortedMap.get?_eq_some_iff.mpr (by rw [hsplit]; simp)
    · rw [← hkept field (String.lt_irrefl field)]
      exact update?_eq_none_iff.mp hnone
    · by_contra hlt
      exact not_clashesAt_of_meet? (hmet other (String.not_le.mp hlt)) hother

/-! ## What comes of it is determined -/

theorem UpdatesWhere.unique {met : String → Prop} {reached' : Bindings}
    (h : d.UpdatesWhere met held reached) (h' : d.UpdatesWhere met held reached') :
    reached = reached' := by
  refine Bindings.ext_get? fun k => ?_
  by_cases hk : met k
  · cases hop : d.get? k with
    | none => rw [h.kept k (.inl hop), h'.kept k (.inl hop)]
    | some op =>
      obtain ⟨value, hvalue, hupdates⟩ := h.updated k op hop hk
      obtain ⟨value', hvalue', hupdates'⟩ := h'.updated k op hop hk
      rw [hvalue, hvalue', ← update?_eq_some_iff.mpr hupdates, update?_eq_some_iff.mpr hupdates']
  · rw [h.kept k (.inr hk), h'.kept k (.inr hk)]

theorem Effect.unique {result' : Except Bindings.Clash Bindings} (h : d.Effect held result)
    (h' : d.Effect held result') : result = result' := by
  cases h with
  | applied hfits hupdates =>
    cases h' with
    | applied _ hupdates' => rw [hupdates.unique hupdates']
    | clashed hclash => exact absurd hclash (hfits _)
  | clashed hclash hleast hupdates =>
    cases h' with
    | applied hfits => exact absurd hclash (hfits _)
    | clashed hclash' hleast' hupdates' =>
      obtain rfl := String.le_antisymm (hleast _ hclash') (hleast' _ hclash)
      rw [hupdates.unique hupdates']

theorem apply_eq_iff : d.apply held = result ↔ d.Effect held result := by
  constructor
  · rintro rfl
    exact effect_apply d held
  · intro h
    exact (effect_apply d held).unique h

/-- The error names the least field on which the delta and the bindings clash. -/
theorem apply_error_iff {field : String} :
    (d.apply held).mapError Bindings.Clash.error = .error (.kindMismatch field) ↔
      d.ClashesAt held field ∧ ∀ other, d.ClashesAt held other → field ≤ other := by
  cases h : d.apply held with
  | ok reached =>
    cases apply_eq_iff.mp h with
    | applied hfits _ =>
      constructor
      · intro heq
        cases heq
      · rintro ⟨hfield, -⟩
        exact absurd hfield (hfits field)
  | error clash =>
    cases apply_eq_iff.mp h with
    | clashed hclash hleast _ =>
      constructor
      · intro heq
        cases heq
        exact ⟨hclash, hleast⟩
      · rintro ⟨hfield, hother⟩
        obtain rfl := String.le_antisymm (hleast _ hfield) (hother _ hclash)
        rfl

/-- Applying fails exactly if there is a field to clash on. -/
theorem exists_apply_error_iff :
    (∃ clash, d.apply held = .error clash) ↔ ∃ field, d.ClashesAt held field := by
  constructor
  · rintro ⟨clash, h⟩
    cases apply_eq_iff.mp h with
    | clashed hclash _ _ => exact ⟨_, hclash⟩
  · rintro ⟨field, hclash⟩
    cases h : d.apply held with
    | ok reached =>
      cases apply_eq_iff.mp h with
      | applied hfits _ => exact absurd hclash (hfits field)
    | error clash => exact ⟨clash, rfl⟩

/-- What applying a delta does, on success and on failure. -/
theorem apply_outcomes (d : Delta) (held : Bindings) :
    (∀ result, d.apply held = result ↔ d.Effect held result) ∧
    ((∃ clash, d.apply held = .error clash) ↔ ∃ field, d.ClashesAt held field) ∧
    (∀ field, (d.apply held).mapError Bindings.Clash.error = .error (.kindMismatch field) ↔
      d.ClashesAt held field ∧ ∀ other, d.ClashesAt held other → field ≤ other) ∧
    (∃ reached, d.apply .empty = .ok reached) ∧
    ∀ (a : Assembly) (label : Label) (x : Lowering), a.lowered.get? label = some x →
      ∃ b, a.bindings? label = some b ∧ x.inherited.Effect .empty (.ok b) := by
  refine ⟨fun result => apply_eq_iff, exists_apply_error_iff, fun field => apply_error_iff,
    ⟨d.bindings, d.apply_empty⟩, fun a label x hx => ?_⟩
  exact ⟨_, bindings?_of_lowered hx, apply_eq_iff.mp x.inherited.apply_empty⟩

/-- The flags are updated, the mode clashes, and the tool is not met any more. -/
example :
    let d := ((appending [("flags", ["-O", "-g", "-O"])]).withOverride "mode" "new").withOverride
      "tool" "cc"
    let held : Bindings := ⟨.ofList
      [("flags", .list ["-g"]), ("mode", .list ["old"]), ("tool", .list ["ld"])]⟩
    d.apply held = .error
      { field := "mode"
        reached := ⟨.ofList
          [("flags", .list ["-g", "-O"]), ("mode", .list ["old"]), ("tool", .list ["ld"])]⟩ } :=
  rfl

end Delta

end BuildGraph
