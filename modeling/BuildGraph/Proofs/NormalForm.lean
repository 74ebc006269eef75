import BuildGraph.Assembly
import BuildGraph.Proofs.Appending
import BuildGraph.Proofs.Loading

/-!
# Deltas without repetitions

A delta can hold a list with repetitions, and then it is not what composing with the empty delta
makes of it. The deltas that are built up here hold none (`Delta.Constructed`, `Delta.Normal`):
every operation that is added loses its repetitions, and none of the ways to build a delta brings in
an operation otherwise. Also a delta with repetitions may be composed onto a constructed one, as is
done with what targets export.

Main statement: among constructed deltas composing has the empty delta as its identity, and for each
field it says what the two deltas say one after the other (`Delta.normalForms`). The three ways in
which repetitions are removed, when a list is built, added or extended, are one: the first
occurrence of each entry stays (`firstOccurrences_eq_eraseDups`).
-/

namespace BuildGraph

open SortedMap (meet?)

/-! ## Lists -/

section Lists

variable {α : Type} [DecidableEq α]

theorem firstOccurrences_eq_eraseDups : ∀ entries : List α,
    firstOccurrences entries = entries.eraseDups
  | [] => rfl
  | entry :: entries => by
    have hshorter : (entries.filter fun e => !e == entry).length ≤ entries.length :=
      List.length_filter_le _ entries
    have hfilter : (entries.filter fun e => e ≠ entry) = entries.filter fun e => !e == entry :=
      List.filter_congr fun e _ => by by_cases he : e = entry <;> simp [he]
    rw [firstOccurrences_cons, List.eraseDups_cons, hfilter,
      firstOccurrences_eq_eraseDups (entries.filter fun e => !e == entry)]
termination_by entries => entries.length

/-- A list without repetitions is extended as if both lists were taken together. -/
theorem extendUnique_eq_eraseDups {list : List α} (h : list.Nodup) (entries : List α) :
    extendUnique list entries = (list ++ entries).eraseDups := by
  calc extendUnique list entries
      = extendUnique (firstOccurrences list) entries := by rw [firstOccurrences_eq_self h]
    _ = firstOccurrences (list ++ entries) := (extendUnique_append [] list entries).symm
    _ = (list ++ entries).eraseDups := firstOccurrences_eq_eraseDups _

end Lists

/-! ## Operations -/

/-- What two operations on one field, either of which may be missing, come to. -/
inductive DeltaOp.Combines : Option DeltaOp → Option DeltaOp → Option DeltaOp → Prop where
  | neither : Combines none none none
  | left (op : DeltaOp) : Combines (some op) none (some op)
  | right (op : DeltaOp) : Combines none (some op) (some op)
  | appends (first next : List String) :
    Combines (some (.append first)) (some (.append next))
      (some (.append (first ++ next).eraseDups))
  | overrides (old new : String) :
    Combines (some (.override old)) (some (.override new)) (some (.override new))

namespace Delta

/-- No list that is appended holds an entry twice. -/
def Normal (d : Delta) : Prop :=
  ∀ field entries, d.get? field = some (.append entries) → entries.Nodup

end Delta

namespace DeltaOp

variable {before next after : Option DeltaOp} {entries : List String}

/-- Whatever is added to a list without repetitions brings in none. -/
theorem nodup_of_meet?_onto? (hbefore : ∀ list, before = some (.append list) → list.Nodup)
    (h : meet? onto? before next = some (some (.append entries))) : entries.Nodup := by
  rcases next with _ | (added | value)
  · exact hbefore entries (Option.some.inj h)
  · rcases before with _ | (list | value) <;> cases h
    · exact nodup_firstOccurrences added
    · exact nodup_extendUnique (hbefore list rfl) added
  · rcases before with _ | (list | old) <;> cases h

/-- Without repetitions on either side, adding one operation to another combines them. -/
theorem meet?_onto?_eq_some_iff (hbefore : ∀ list, before = some (.append list) → list.Nodup)
    (hnext : ∀ list, next = some (.append list) → list.Nodup) :
    meet? onto? before next = some after ↔ Combines before next after := by
  constructor
  · intro h
    rcases next with _ | (added | value)
    · cases h
      cases before with
      | none => exact .neither
      | some op => exact .left op
    · rcases before with _ | (list | old) <;> cases h
      · rw [DeltaOp.normalize, firstOccurrences_eq_self (hnext added rfl)]
        exact .right _
      · rw [extendUnique_eq_eraseDups (hbefore list rfl)]
        exact .appends list added
    · rcases before with _ | (list | old) <;> cases h
      · exact .right _
      · exact .overrides old value
  · intro h
    cases h with
    | neither => rfl
    | left op => rfl
    | right op =>
      cases op with
      | append added =>
        rw [meet?, onto?, normalize, firstOccurrences_eq_self (hnext added rfl)]
        rfl
      | override value => rfl
    | appends list added =>
      rw [meet?, onto?, extendUnique_eq_eraseDups (hbefore list rfl)]
      rfl
    | overrides old value => rfl

end DeltaOp

namespace Delta

variable {a b c d total : Delta}

/-! ## Building deltas -/

/-- The deltas that are built up from the empty one and from fields to append to. A delta that is
composed onto one of them may be any delta. -/
inductive Constructed : Delta → Prop where
  | empty : Constructed empty
  | appending (fields : List Field) : Constructed (appending fields)
  | withOverride {d : Delta} (field value : String) :
    Constructed d → Constructed (d.withOverride field value)
  | compose {a b c : Delta} : Constructed a → a.compose b = .ok c → Constructed c

theorem normal_empty : empty.Normal := by
  intro field entries h
  cases h

theorem normal_appending (fields : List Field) : (appending fields).Normal := by
  intro field entries h
  rw [get?_appending] at h
  obtain ⟨last, -, heq⟩ := Option.map_eq_some_iff.mp h
  cases heq
  exact nodup_firstOccurrences last

theorem Normal.withOverride (h : d.Normal) (field value : String) :
    (d.withOverride field value).Normal := by
  intro other entries hentries
  rw [get?, Delta.withOverride, SortedMap.get?_insert] at hentries
  split at hentries
  · cases hentries
  · exact h other entries hentries

theorem Normal.compose (ha : a.Normal) (h : a.compose b = .ok c) : c.Normal := by
  intro field entries hentries
  have hfield := compose_eq_ok_iff.mp h field
  rw [hentries] at hfield
  exact DeltaOp.nodup_of_meet?_onto? (ha field) hfield

theorem Constructed.normal (h : d.Constructed) : d.Normal := by
  induction h with
  | empty => exact normal_empty
  | appending fields => exact normal_appending fields
  | withOverride field value _ ih => exact ih.withOverride field value
  | compose _ hcompose ih => exact ih.compose hcompose

theorem Constructed.composeAll {deltas : List Delta} (h : d.Constructed)
    (htotal : d.composeAll deltas = .ok total) : total.Constructed := by
  induction deltas generalizing d with
  | nil =>
    obtain rfl := Except.ok.inj htotal
    exact h
  | cons e deltas ih =>
    cases hnext : d.compose e with
    | error clash =>
      rw [composeAll_cons_of_error hnext] at htotal
      cases htotal
    | ok next =>
      rw [composeAll_cons_of_ok hnext] at htotal
      exact ih (h.compose hnext) htotal

theorem Constructed.inheritAll {assembly : Assembly} {dependencies : List Label}
    (h : d.Constructed) (htotal : dependencies.foldlM assembly.inheritFrom d = .ok total) :
    total.Constructed := by
  induction dependencies generalizing d with
  | nil =>
    obtain rfl := Except.ok.inj htotal
    exact h
  | cons dependency dependencies ih =>
    rw [List.foldlM_cons] at htotal
    obtain ⟨next, hnext, htotal⟩ := bind_eq_ok htotal
    refine ih ?_ htotal
    rw [Assembly.inheritFrom] at hnext
    split at hnext
    · exact h.compose hnext
    · obtain rfl := Except.ok.inj hnext
      exact h

/-! ## Composing -/

/-- The deltas without repetitions are those that composing onto the empty delta leaves as they
are. -/
theorem empty_compose_eq_self_iff : empty.compose d = .ok d ↔ d.Normal := by
  constructor
  · exact normal_empty.compose
  · intro h
    refine compose_eq_ok_iff.mpr fun field => ?_
    refine (DeltaOp.meet?_onto?_eq_some_iff (normal_empty field) (h field)).mpr ?_
    cases d.get? field with
    | none => exact .neither
    | some op => exact .right op

theorem compose_empty (d : Delta) : d.compose empty = .ok d := rfl

theorem Normal.compose_eq_ok_iff (ha : a.Normal) (hb : b.Normal) : a.compose b = .ok c ↔
    ∀ field, DeltaOp.Combines (a.get? field) (b.get? field) (c.get? field) := by
  rw [Delta.compose_eq_ok_iff]
  exact forall_congr' fun field => DeltaOp.meet?_onto?_eq_some_iff (ha field) (hb field)

/-- Constructed deltas hold no repetitions; among them the empty one changes nothing, and each field
of a composition carries what the two deltas say of it. -/
theorem normalForms :
    (∀ d : Delta, d.Constructed → d.Normal) ∧
    (∀ (deltas : List Delta) (total : Delta), empty.composeAll deltas = .ok total →
      total.Constructed) ∧
    (∀ (assembly : Assembly) (dependencies : List Label) (inherited : Delta),
      assembly.inherit dependencies = .ok inherited → inherited.Constructed) ∧
    (∀ d : Delta, d.Constructed → empty.compose d = .ok d ∧ d.compose empty = .ok d) ∧
    ∀ a b : Delta, a.Constructed → b.Constructed → ∀ c, a.compose b = .ok c ↔
      ∀ field, DeltaOp.Combines (a.get? field) (b.get? field) (c.get? field) := by
  refine ⟨fun d => Constructed.normal, fun deltas total => Constructed.empty.composeAll,
    fun assembly dependencies inherited => Constructed.empty.inheritAll, fun d hd => ?_,
    fun a b ha hb c => ha.normal.compose_eq_ok_iff hb.normal⟩
  exact ⟨empty_compose_eq_self_iff.mpr hd.normal, compose_empty d⟩

end Delta

namespace Sample

/-- Flags that are listed twice, and a mode. -/
def optimized : Delta :=
  (Delta.appending [("flags", ["-g", "-O", "-g"])]).withOverride "mode" "old"

end Sample

theorem Delta.normalForms_sample :
    Sample.optimized.Constructed ∧ Sample.further.Constructed ∧
    empty.compose Sample.optimized = .ok Sample.optimized ∧
    Sample.optimized.compose empty = .ok Sample.optimized ∧
    (∃ c, Sample.optimized.compose Sample.further = .ok c ∧
      c.get? "flags" = some (.append ["-g", "-O", "-Wall"]) ∧ ∀ field,
      DeltaOp.Combines (Sample.optimized.get? field) (Sample.further.get? field) (c.get? field)) ∧
    ¬ Sample.doubled.Normal ∧
    ∃ total, empty.composeAll [Sample.doubled, Sample.further] = .ok total ∧ total.Normal := by
  obtain ⟨hnormal, hsequence, -, hidentity, hcombines⟩ := normalForms
  have hoptimized : Sample.optimized.Constructed := (Constructed.appending _).withOverride _ _
  have hfurther : Sample.further.Constructed := .appending _
  obtain ⟨hleft, hright⟩ := hidentity _ hoptimized
  have hflags : (Sample.optimized.compose Sample.further).toOption.bind (·.get? "flags") =
      some (.append ["-g", "-O", "-Wall"]) := by decide
  obtain ⟨c, hc, hflags⟩ := Option.bind_eq_some_iff.mp hflags
  replace hc := eq_ok_of_toOption hc
  have hdoubled : ¬ Sample.doubled.Normal := fun h =>
    absurd (h "flags" ["-g", "-O", "-g"] (by decide)) (by decide)
  have hall : (empty.composeAll [Sample.doubled, Sample.further]).toOption.isSome = true := by
    decide
  obtain ⟨total, htotal⟩ := Option.isSome_iff_exists.mp hall
  replace htotal := eq_ok_of_toOption htotal
  exact ⟨hoptimized, hfurther, hleft, hright,
    ⟨c, hc, hflags, (hcombines _ _ hoptimized hfurther c).mp hc⟩, hdoubled,
    total, htotal, hnormal total (hsequence _ _ htotal)⟩

end BuildGraph
