import BuildGraph.Bindings

/-!
# Deltas field by field

Applying a delta goes through its fields in ascending order, and so does adding a delta to another.
No field is met twice, so what becomes of a field depends on what was there and on the one operation
on it (`SortedMap.updateAll_eq_some_iff`). This turns statements about whole deltas into statements
about single fields (`Delta.apply_eq_ok_iff`, `Delta.compose_eq_ok_iff`).

Main statement: a composed delta acts as the one delta and then the other, clashes included
(`DeltaOp.Acts.compose_iff`). Deltas act on bindings (`Delta.exists_compose_apply_iff`), and in the
same way on the deltas that stand before them. Applied to nothing a delta never clashes, so what a
target inherits always has bindings (`Delta.bindings`).
-/

namespace BuildGraph

/-! ## Updating key by key -/

namespace SortedMap

variable {κ α β γ : Type} [Ord κ] [Std.LawfulEqOrd κ]

/-- The value at a key after an item for that key, if there is one, was met. -/
def meet? (f : Option β → α → Option β) (value : Option β) : Option α → Option (Option β)
  | none => some value
  | some item => (f value item).map some

/-- What is found in ascending items under the key of the first, and under any other. -/
theorem find_cons_of_ascending {k : κ} {item : α} {items : List (κ × α)}
    (hasc : ((k, item) :: items).Pairwise fun a b => compare a.1 b.1 = .lt) (k' : κ) :
    (k' = k ∧ find k' ((k, item) :: items) = some item ∧ find k' items = none) ∨
    (k' ≠ k ∧ find k' ((k, item) :: items) = find k' items) := by
  by_cases hk : k' = k
  · subst hk
    have hout : find k' items = none := find_eq_none_of_lt (List.pairwise_cons.mp hasc).1
    exact .inl ⟨rfl, by rw [find, if_pos Std.ReflCmp.compare_self], hout⟩
  · have hcmp : compare k' k ≠ .eq := fun h => hk (Std.LawfulEqCmp.eq_of_compare h)
    exact .inr ⟨hk, by rw [find, if_neg hcmp]⟩

variable [Std.TransOrd κ]

/-- Go through items with keys, and store at each key what `f` makes of the value there and the item,
as long as it makes something of them. -/
def updateAll (f : Option β → α → Option β) (m : SortedMap κ β) :
    List (κ × α) → Option (SortedMap κ β)
  | [] => some m
  | (k, item) :: rest =>
    match f (m.get? k) item with
    | some value => updateAll f (m.insert k value) rest
    | none => none

variable {f : Option β → α → Option β} {items : List (κ × α)}

/-- With ascending keys, the value at a key in the end is what the one item for it makes of the value
at the start. -/
theorem updateAll_eq_some_iff (hasc : items.Pairwise fun a b => compare a.1 b.1 = .lt)
    {m m' : SortedMap κ β} : m.updateAll f items = some m' ↔
      ∀ k, meet? f (m.get? k) (find k items) = some (m'.get? k) := by
  induction items generalizing m with
  | nil =>
    simp only [updateAll, Option.some.injEq, find, meet?]
    exact ⟨fun h k => by rw [h], ext_get?⟩
  | cons head rest ih =>
    obtain ⟨k₀, item⟩ := head
    have hself : find k₀ ((k₀, item) :: rest) = some item := by
      rw [find, if_pos Std.ReflCmp.compare_self]
    rw [updateAll]
    cases hvalue : f (m.get? k₀) item with
    | none =>
      constructor
      · intro h
        cases h
      · intro h
        have hk₀ := h k₀
        simp [hself, meet?, hvalue] at hk₀
    | some value =>
      rw [ih (List.pairwise_cons.mp hasc).2]
      refine forall_congr' fun k => ?_
      rcases find_cons_of_ascending hasc k with ⟨rfl, hfind, hout⟩ | ⟨hk, hfind⟩
      · rw [hfind, hout, get?_insert_self, meet?, meet?, hvalue]
        rfl
      · rw [hfind, get?_insert_of_ne m hk]

/-- All items are met if each of them can be. -/
theorem exists_updateAll (hasc : items.Pairwise fun a b => compare a.1 b.1 = .lt)
    {m : SortedMap κ β} (h : ∀ k, (meet? f (m.get? k) (find k items)).isSome) :
    ∃ m', m.updateAll f items = some m' := by
  induction items generalizing m with
  | nil => exact ⟨m, rfl⟩
  | cons head rest ih =>
    obtain ⟨k₀, item⟩ := head
    have hk₀ := h k₀
    rw [find, if_pos Std.ReflCmp.compare_self, meet?, Option.isSome_map] at hk₀
    obtain ⟨value, hvalue⟩ := Option.isSome_iff_exists.mp hk₀
    simp only [updateAll, hvalue]
    refine ih (List.pairwise_cons.mp hasc).2 fun k => ?_
    rcases find_cons_of_ascending hasc k with ⟨-, -, hout⟩ | ⟨hk, hfind⟩
    · rw [hout]
      rfl
    · rw [get?_insert_of_ne m hk, ← hfind]
      exact h k

/-- Going through the items and then on, key by key, from the values that this leaves. -/
theorem exists_updateAll_and_iff (hasc : items.Pairwise fun a b => compare a.1 b.1 = .lt)
    {m : SortedMap κ β} {next : κ → Option β → Option (Option γ)} {reached : κ → Option γ} :
    (∃ m', m.updateAll f items = some m' ∧ ∀ k, next k (m'.get? k) = some (reached k)) ↔
      ∀ k, (meet? f (m.get? k) (find k items)).bind (next k) = some (reached k) := by
  constructor
  · rintro ⟨m', hm', hnext⟩ k
    rw [(updateAll_eq_some_iff hasc).mp hm' k, Option.bind_some, hnext k]
  · intro h
    obtain ⟨m', hm'⟩ := exists_updateAll (f := f) hasc fun k => by
      obtain ⟨value, hvalue, -⟩ := Option.bind_eq_some_iff.mp (h k)
      exact Option.isSome_of_eq_some hvalue
    refine ⟨m', hm', fun k => ?_⟩
    have hk := h k
    rwa [(updateAll_eq_some_iff hasc).mp hm' k, Option.bind_some] at hk

end SortedMap

open SortedMap (meet?)

/-! ## Applying -/

/-- The value that an operation gives to a field without one. -/
def DeltaOp.fresh : DeltaOp → Binding
  | .append entries => .list (firstOccurrences entries)
  | .override value => .scalar value

theorem update?_none (op : DeltaOp) : Binding.update? none op = some op.fresh := by
  cases op <;> rfl

theorem Bindings.ext_get? {b c : Bindings} (h : ∀ k, b.get? k = c.get? k) : b = c := by
  cases b
  cases c
  exact congrArg mk (SortedMap.ext_get? h)

theorem Bindings.applyAll_eq_ok_iff {b c : Bindings} {entries : List (String × DeltaOp)} :
    b.applyAll entries = .ok c ↔ b.values.updateAll Binding.update? entries = some c.values := by
  induction entries generalizing b with
  | nil =>
    cases b
    cases c
    simp [applyAll, SortedMap.updateAll]
  | cons entry rest ih =>
    obtain ⟨field, op⟩ := entry
    rw [applyAll, SortedMap.updateAll, get?]
    cases Binding.update? (b.values.get? field) op with
    | none => simp
    | some value => exact ih

namespace Delta

variable {a b c d : Delta} {held reached : Bindings}

/-- A delta is applied if and only if each of its operations fits the field that it is on, and then
each field holds what the operation on it makes of it. -/
theorem apply_eq_ok_iff : d.apply held = .ok reached ↔
    ∀ k, meet? Binding.update? (held.get? k) (d.get? k) = some (reached.get? k) := by
  rw [apply, Bindings.applyAll_eq_ok_iff]
  exact SortedMap.updateAll_eq_some_iff d.ops.ascending

/-- The bindings that a delta makes of none. -/
def bindings (d : Delta) : Bindings := ⟨d.ops.map DeltaOp.fresh⟩

theorem get?_bindings (d : Delta) (field : String) :
    d.bindings.get? field = (d.get? field).map DeltaOp.fresh :=
  SortedMap.get?_map _ _ _

theorem apply_empty (d : Delta) : d.apply .empty = .ok d.bindings := by
  refine apply_eq_ok_iff.mpr fun k => ?_
  rw [get?_bindings]
  cases d.get? k with
  | none => rfl
  | some op => exact congrArg (Option.map some) (update?_none op)

end Delta

/-! ## Composing -/

/-- What an operation makes of the operation that stands before it, or nothing if the two do not
fit. -/
def DeltaOp.onto? : Option DeltaOp → DeltaOp → Option DeltaOp
  | none, op => some op.normalize
  | some (.append first), .append next => some (.append (extendUnique first next))
  | some (.override _), .override value => some (.override value)
  | some (.append _), .override _ => none
  | some (.override _), .append _ => none

theorem Delta.push_eq (ops : SortedMap String DeltaOp) (field : String) (op : DeltaOp) :
    push ops field op = match DeltaOp.onto? (ops.get? field) op with
      | some combined => .ok (ops.insert field combined)
      | none => .error (.kindMismatch field) := by
  rw [push]
  cases ops.get? field with
  | none => rfl
  | some existing => cases existing <;> cases op <;> rfl

theorem Delta.pushAll_eq_ok_iff {ops ops' : SortedMap String DeltaOp}
    {entries : List (String × DeltaOp)} :
    pushAll ops entries = .ok ops' ↔ ops.updateAll DeltaOp.onto? entries = some ops' := by
  induction entries generalizing ops with
  | nil => simp [pushAll, SortedMap.updateAll]
  | cons entry rest ih =>
    obtain ⟨field, op⟩ := entry
    rw [pushAll, push_eq, SortedMap.updateAll]
    cases DeltaOp.onto? (ops.get? field) op with
    | none => simp [bind, Except.bind]
    | some combined => exact ih

namespace Delta

variable {a b c d : Delta} {held reached : Bindings}

theorem compose_eq_ok_iff_updateAll : a.compose b = .ok c ↔
    a.ops.updateAll DeltaOp.onto? b.ops.entries = some c.ops := by
  rw [← pushAll_eq_ok_iff, compose]
  cases pushAll a.ops b.ops.entries <;> cases c <;> simp [Except.map]

/-- Two deltas compose if and only if they clash on no field, and then the operation on each field is
made of their operations on it. -/
theorem compose_eq_ok_iff : a.compose b = .ok c ↔
    ∀ k, meet? DeltaOp.onto? (a.get? k) (b.get? k) = some (c.get? k) := by
  rw [compose_eq_ok_iff_updateAll]
  exact SortedMap.updateAll_eq_some_iff b.ops.ascending

theorem exists_compose (h : ∀ k, (meet? DeltaOp.onto? (a.get? k) (b.get? k)).isSome) :
    ∃ c, a.compose b = .ok c := by
  obtain ⟨ops, hops⟩ := SortedMap.exists_updateAll b.ops.ascending h
  exact ⟨⟨ops⟩, compose_eq_ok_iff_updateAll.mpr hops⟩

end Delta

/-! ## Composed deltas in action -/

/-- A way for operations to act on values of fields. Repetitions in an appended list make no
difference to it, and an operation put onto another acts as the two do one after the other: they fit
each other and the value exactly if each fits what it finds. -/
structure DeltaOp.Acts {β : Type} (act : Option β → DeltaOp → Option β) : Prop where
  normalize : ∀ value op, act value op.normalize = act value op
  onto : ∀ value first next, (DeltaOp.onto? (some first) next).bind (act value) =
    (act value first).bind fun between => act (some between) next

namespace DeltaOp.Acts

variable {β : Type} {act : Option β → DeltaOp → Option β}

/-- The same for a field that one of two deltas, or neither, may leave alone. -/
theorem meet (h : Acts act) (value : Option β) (first next : Option DeltaOp) :
    (meet? DeltaOp.onto? first next).bind (meet? act value) =
      (meet? act value first).bind (meet? act · next) := by
  cases next with
  | none => simp [meet?]
  | some next =>
    cases first with
    | none =>
      simp only [meet?, DeltaOp.onto?, Option.map_some, Option.bind_some, h.normalize]
    | some first =>
      have hfield := congrArg (Option.map some) (h.onto value first next)
      simpa only [meet?, Option.map_bind, Option.bind_map, Function.comp_def] using hfield

/-- A composed delta acts as the one delta and then the other; if two deltas do not compose, they
cannot act one after the other. -/
theorem compose_iff (h : Acts act) {a b : Delta} {held reached : SortedMap String β} :
    (∃ c, a.compose b = .ok c ∧ held.updateAll act c.ops.entries = some reached) ↔
      ∃ between, held.updateAll act a.ops.entries = some between ∧
        between.updateAll act b.ops.entries = some reached := by
  -- either way it comes down to what becomes of each field
  have hcomposed : (∃ c, a.compose b = .ok c ∧
      held.updateAll act c.ops.entries = some reached) ↔
      ∀ k, (meet? DeltaOp.onto? (a.get? k) (b.get? k)).bind (meet? act (held.get? k)) =
        some (reached.get? k) := by
    refine Iff.trans ?_ (SortedMap.exists_updateAll_and_iff b.ops.ascending)
    simp only [Delta.compose_eq_ok_iff_updateAll]
    constructor
    · rintro ⟨c, hc, hreached⟩
      exact ⟨c.ops, hc, (SortedMap.updateAll_eq_some_iff c.ops.ascending).mp hreached⟩
    · rintro ⟨ops, hops, hreached⟩
      exact ⟨⟨ops⟩, hops, (SortedMap.updateAll_eq_some_iff ops.ascending).mpr hreached⟩
  have hinturn : (∃ between, held.updateAll act a.ops.entries = some between ∧
      between.updateAll act b.ops.entries = some reached) ↔
      ∀ k, (meet? act (held.get? k) (a.get? k)).bind (meet? act · (b.get? k)) =
        some (reached.get? k) := by
    refine Iff.trans ?_ (SortedMap.exists_updateAll_and_iff a.ops.ascending)
    exact exists_congr fun between =>
      and_congr_right fun _ => SortedMap.updateAll_eq_some_iff b.ops.ascending
  rw [hcomposed, hinturn]
  simp only [h.meet]

end DeltaOp.Acts

/-- Operations act on bindings. -/
theorem acts_update? : DeltaOp.Acts Binding.update? where
  normalize value op := by
    rcases value with _ | (held | _) <;> cases op <;>
      simp [DeltaOp.normalize, Binding.update?, firstOccurrences, extendUnique_extendUnique,
        extendUnique]
  onto value first next := by
    rcases value with _ | (held | _) <;> cases first <;> cases next <;>
      simp [DeltaOp.onto?, Binding.update?, firstOccurrences, extendUnique_extendUnique]

/-- Operations act on the operations that stand before them. -/
theorem acts_onto? : DeltaOp.Acts DeltaOp.onto? where
  normalize value op := by
    rcases value with _ | (held | _) <;> cases op <;>
      simp [DeltaOp.normalize, DeltaOp.onto?, firstOccurrences, extendUnique_extendUnique,
        extendUnique]
  onto value first next := by
    rcases value with _ | (held | _) <;> cases first <;> cases next <;>
      simp [DeltaOp.normalize, DeltaOp.onto?, firstOccurrences, extendUnique_extendUnique]

namespace Delta

variable {a b c : Delta} {held reached : Bindings}

/-- A composed delta is applied exactly if the one delta and then the other are, and to the same
end. -/
theorem exists_compose_apply_iff :
    (∃ c, a.compose b = .ok c ∧ c.apply held = .ok reached) ↔
      ∃ between, a.apply held = .ok between ∧ b.apply between = .ok reached := by
  simp only [apply, Bindings.applyAll_eq_ok_iff]
  rw [acts_update?.compose_iff]
  constructor
  · rintro ⟨between, ha, hb⟩
    exact ⟨⟨between⟩, ha, hb⟩
  · rintro ⟨between, ha, hb⟩
    exact ⟨between.values, ha, hb⟩

theorem apply_of_compose (h : a.compose b = .ok c) : c.apply held = .ok reached ↔
    ∃ between, a.apply held = .ok between ∧ b.apply between = .ok reached := by
  rw [← exists_compose_apply_iff, h]
  simp

/-- Deltas that do not compose cannot be applied one after the other. -/
theorem not_apply_of_clash {e : DeltaError} (h : a.compose b = .error e) {between : Bindings}
    (ha : a.apply held = .ok between) : b.apply between ≠ .ok reached := by
  intro hb
  obtain ⟨c, hc, -⟩ := exists_compose_apply_iff.mpr ⟨between, ha, hb⟩
  rw [h] at hc
  cases hc

end Delta

end BuildGraph
