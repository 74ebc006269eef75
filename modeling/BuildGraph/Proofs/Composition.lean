import BuildGraph.Proofs.Delta

/-!
# Composition is associative

It makes no difference in which order deltas are composed (`Delta.compose_assoc`), nor whether they
are composed first and then applied or applied one after the other (`Delta.compose_apply`). This
holds of all deltas, whatever repetitions their lists have: what a delta adds to the deltas before
it and what it does to bindings are both actions of its operations, field by field.

What can go wrong is a field that one delta uses as a list and another as a scalar. Then every way
of putting the deltas together fails, and without such a field none does (`Delta.Compatible`).
-/

namespace BuildGraph

open SortedMap (meet?)

/-- How a field is used. -/
inductive FieldKind where
  | list
  | scalar
deriving DecidableEq

/-- Appending uses a field as a list, overriding as a scalar. -/
def DeltaOp.kind : DeltaOp → FieldKind
  | .append _ => .list
  | .override _ => .scalar

namespace Delta

variable {a b c d : Delta}

/-- How a delta uses a field, if it does. -/
def kind? (d : Delta) (field : String) : Option FieldKind := (d.get? field).map DeltaOp.kind

/-- No field is appended to by one of the deltas and overridden by another. -/
def Compatible (deltas : List Delta) : Prop :=
  ∀ field, ∀ d ∈ deltas, ∀ e ∈ deltas, d.kind? field = some .list → e.kind? field ≠ some .scalar

theorem Compatible.subset {deltas part : List Delta} (h : Compatible deltas)
    (hpart : part ⊆ deltas) : Compatible part :=
  fun field d hd e he => h field d (hpart hd) e (hpart he)

/-! ## Kinds of fields -/

/-- Operations on one field do not go together exactly if they use it differently. -/
theorem meet?_onto?_eq_none_iff {first next : Option DeltaOp} :
    meet? DeltaOp.onto? first next = none ↔
      (first.map DeltaOp.kind = some .list ∧ next.map DeltaOp.kind = some .scalar) ∨
      (first.map DeltaOp.kind = some .scalar ∧ next.map DeltaOp.kind = some .list) := by
  rcases first with _ | (_ | _) <;> rcases next with _ | (_ | _) <;>
    simp [meet?, DeltaOp.onto?, DeltaOp.kind]

/-- What they come to uses the field as either of them does. -/
theorem kind_of_meet?_onto? {first next combined : Option DeltaOp}
    (h : meet? DeltaOp.onto? first next = some combined) :
    combined.map DeltaOp.kind = (first.map DeltaOp.kind).or (next.map DeltaOp.kind) := by
  rcases first with _ | (_ | _) <;> rcases next with _ | (_ | _) <;> cases h <;> rfl

/-- Two deltas compose exactly if they are compatible. -/
theorem exists_compose_iff : (∃ c, a.compose b = .ok c) ↔ Compatible [a, b] := by
  constructor
  · rintro ⟨c, hc⟩ field d hd e he hlist hscalar
    have hfits : meet? DeltaOp.onto? (a.get? field) (b.get? field) ≠ none := by
      rw [compose_eq_ok_iff.mp hc field]
      exact Option.some_ne_none _
    rw [Ne, meet?_onto?_eq_none_iff, ← kind?, ← kind?] at hfits
    simp only [List.mem_cons, List.not_mem_nil, or_false] at hd he
    rcases hd with rfl | rfl <;> rcases he with rfl | rfl <;> simp_all
  · intro h
    refine exists_compose fun field => Option.isSome_iff_ne_none.mpr fun hnone => ?_
    rcases meet?_onto?_eq_none_iff.mp hnone with ⟨ha, hb⟩ | ⟨ha, hb⟩
    · exact h field a (by simp) b (by simp) ha hb
    · exact h field b (by simp) a (by simp) hb ha

/-- A composed delta uses a field as either of the two does. -/
theorem kind?_of_compose (h : a.compose b = .ok c) (field : String) :
    c.kind? field = (a.kind? field).or (b.kind? field) :=
  kind_of_meet?_onto? (compose_eq_ok_iff.mp h field)

/-- So it is compatible with whatever the two are compatible with. -/
theorem compatible_compose_iff (h : a.compose b = .ok c) :
    Compatible [c, d] ↔ Compatible [a, b, d] := by
  have hab : Compatible [a, b] := exists_compose_iff.mp ⟨c, h⟩
  refine forall_congr' fun field => ?_
  have hfield := hab field
  simp only [List.mem_cons, List.not_mem_nil, or_false, forall_eq_or_imp, forall_eq,
    kind?_of_compose h] at hfield ⊢
  generalize a.kind? field = x, b.kind? field = y, d.kind? field = z at hfield ⊢
  rcases x with _ | (_ | _) <;> rcases y with _ | (_ | _) <;> rcases z with _ | (_ | _) <;>
    simp_all

/-! ## The laws -/

/-- Composing is associative. Either way of composing three deltas comes to the same delta, and it
fails exactly if some field is appended to by one of them and overridden by another. -/
theorem compose_assoc (a b c : Delta) :
    (∀ d, (∃ ab, a.compose b = .ok ab ∧ ab.compose c = .ok d) ↔
      ∃ bc, b.compose c = .ok bc ∧ a.compose bc = .ok d) ∧
    ((∃ d ab, a.compose b = .ok ab ∧ ab.compose c = .ok d) ↔ Compatible [a, b, c]) := by
  refine ⟨fun d => ?_, ?_⟩
  · simp only [compose_eq_ok_iff_updateAll (c := d)]
    rw [acts_onto?.compose_iff]
    constructor
    · rintro ⟨ab, hab, hd⟩
      exact ⟨ab.ops, compose_eq_ok_iff_updateAll.mp hab, hd⟩
    · rintro ⟨ops, hops, hd⟩
      exact ⟨⟨ops⟩, compose_eq_ok_iff_updateAll.mpr hops, hd⟩
  · constructor
    · rintro ⟨d, ab, hab, hd⟩
      exact (compatible_compose_iff hab).mp (exists_compose_iff.mp ⟨d, hd⟩)
    · intro h
      have hpair : Compatible [a, b] := h.subset (by simp)
      obtain ⟨ab, hab⟩ := exists_compose_iff.mpr hpair
      obtain ⟨d, hd⟩ := exists_compose_iff.mpr ((compatible_compose_iff hab).mpr h)
      exact ⟨d, ab, hab, hd⟩

/-- Which field the failure names may depend on the way. -/
example :
    let a := appending [("flags", ["-g"])]
    let b := appending [("mode", ["old"])]
    let c := (empty.withOverride "flags" "-O").withOverride "mode" "new"
    (do (← a.compose b).compose c) = .error (.kindMismatch "flags") ∧
      (do a.compose (← b.compose c)) = .error (.kindMismatch "mode") := by
  exact ⟨rfl, rfl⟩

/-- Applying a composed delta is applying the one delta and then the other, whatever the bindings at
the start: either way comes to the same bindings or fails. If some field is appended to by one delta
and overridden by the other, both ways fail. -/
theorem compose_apply (a b : Delta) (held : Bindings) :
    (∀ reached, (∃ c, a.compose b = .ok c ∧ c.apply held = .ok reached) ↔
      ∃ between, a.apply held = .ok between ∧ b.apply between = .ok reached) ∧
    (¬ Compatible [a, b] → (∃ e, a.compose b = .error e) ∧
      ∀ between, a.apply held = .ok between → ∃ clash, b.apply between = .error clash) := by
  refine ⟨fun reached => exists_compose_apply_iff, fun hclash => ?_⟩
  cases hcompose : a.compose b with
  | ok c => exact absurd (exists_compose_iff.mp ⟨c, hcompose⟩) hclash
  | error e =>
    refine ⟨⟨e, rfl⟩, fun between hbetween => ?_⟩
    cases hb : b.apply between with
    | ok reached => exact absurd hb (not_apply_of_clash hcompose hbetween)
    | error clash => exact ⟨clash, rfl⟩

end Delta

end BuildGraph
