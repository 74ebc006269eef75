import BuildGraph.Proofs.Contributions
import BuildGraph.Proofs.Listing

/-!
# What edges wait for

An edge of a lowered target waits for what it names itself and then for what the entries that the
target inherits in the implicit field mean. An entry that is the text of another lowered target
should mean the outputs of that target (`Assembly.WaitsAsNamed`). It does so only if that target
happens to be visited before (`Schedule.madeOf`). Therefore what such an entry means depends on the
order in which the targets are listed, unless the one target depends on the other; and it means the
outputs in every listing exactly if the target that inherits it depends on the one that it names
(`waiting_of_assemble`).
-/

namespace BuildGraph

open Relation

variable {project : Project} {rules : RuleTable} {targets listed visits done rest : List Target}
variable {a b c : Assembly} {t u : Target}

/-! ## Entries -/

namespace Assembly

/-- The files that an entry of the implicit field means to a consumer that knows of the targets with
the labels `known`: the outputs of the one whose text it is, if that was lowered, or else the file
of that path. -/
def meaning (a : Assembly) (known : List Label) (entry : String) : List String :=
  match (known.find? fun label => label.text = entry).bind a.lowered.get? with
  | some lowering => lowering.outputs
  | none => [entry]

/-- The labels of the lowered targets but one. -/
def others (a : Assembly) (label : Label) : List Label := a.lowered.keys.filter (· ≠ label)

theorem mem_others {l m : Label} : m ∈ a.others l ↔ a.lowered.contains m = true ∧ m ≠ l := by
  simp only [others, List.mem_filter, SortedMap.keys, List.mem_map, Prod.exists,
    exists_and_right, exists_eq_right, decide_eq_true_eq, SortedMap.contains_eq_true,
    SortedMap.get?_eq_some_iff]

theorem notMem_others_self (a : Assembly) (l : Label) : l ∉ a.others l := fun hl =>
  (mem_others.mp hl).2 rfl

/-- At most one label has a given text. -/
theorem find?_text (known : List Label) (l : Label) :
    (known.find? fun label => label.text = l.text) = if l ∈ known then some l else none := by
  split
  next hl =>
    cases hfind : known.find? fun label => label.text = l.text with
    | none => simpa using List.find?_eq_none.mp hfind l hl
    | some m =>
      have htext : m.text = l.text := by simpa using List.find?_some hfind
      rw [Label.text_injective htext]
  next hl =>
    refine List.find?_eq_none.mpr fun m hm htext => hl ?_
    have htext : m.text = l.text := by simpa using htext
    exact Label.text_injective htext ▸ hm

/-- The text of a lowered target means its outputs where the target is known. -/
theorem meaning_text {known : List Label} {l : Label} {x : Lowering}
    (hx : a.lowered.get? l = some x) :
    a.meaning known l.text = if l ∈ known then x.outputs else [l.text] := by
  rw [meaning, find?_text]
  by_cases hl : l ∈ known
  · rw [if_pos hl, if_pos hl, Option.bind_some, hx]
  · rw [if_neg hl, if_neg hl, Option.bind_none]

/-- Other entries are paths. -/
theorem meaning_of_ne {known : List Label} {entry : String}
    (h : ∀ l ∈ known, a.lowered.contains l = true → l.text ≠ entry) :
    a.meaning known entry = [entry] := by
  have hnone : (known.find? fun label => label.text = entry).bind a.lowered.get? = none := by
    refine Option.bind_eq_none_iff.mpr fun l hl => ?_
    have htext : l.text = entry := by simpa using List.find?_some hl
    by_contra hsome
    exact h l (List.mem_of_find?_eq_some hl) (Option.isSome_iff_ne_none.mpr hsome) htext
  rw [meaning, hnone]

/-- So is an entry that is the text of no other lowered target, to a consumer that does not know of
itself. -/
theorem meaning_of_others {l : Label} {known : List Label} (hl : l ∉ known) {entry : String}
    (h : ∀ m ∈ a.others l, m.text ≠ entry) : a.meaning known entry = [entry] :=
  meaning_of_ne fun m hm hlowered =>
    h m (mem_others.mpr ⟨hlowered, fun heq => hl (heq ▸ hm)⟩)

/-- An entry is expanded to what it means to a consumer that knows of the targets lowered by
then. -/
theorem expand_eq_meaning {known : List Label}
    (h : ∀ l, c.lowered.get? l = if l ∈ known then a.lowered.get? l else none) :
    c.expand = a.meaning known := by
  funext entry
  rw [expand]
  cases hparse : Label.parse entry with
  | error e =>
    refine (meaning_of_ne fun l _ _ htext => ?_).symm
    rw [← htext, Label.parse_text] at hparse
    cases hparse
  | ok l =>
    obtain rfl := Label.text_of_parse hparse
    by_cases hl : l ∈ known
    · cases hx : a.lowered.get? l <;> simp [meaning, find?_text, h l, hl, hx]
    · simp [meaning, find?_text, h l, hl]

end Assembly

/-! ## Edges -/

/-- The products of a target for its environment. -/
def Target.products? (project : Project) (t : Target) : Option Products :=
  match t.resolve project with
  | (.ok _, after) => after.products.toOption
  | (.error _, _) => none

/-- The products' edges, each waiting for what the entries mean that the target inherits. -/
def Target.waiting? (project : Project) (a : Assembly) (known : List Label) (t : Target) :
    Option (List Edge) := do
  let products ← t.products? project
  let bindings ← a.bindings? t.label
  return products.edges.map
    (·.awaiting ((bindings.list implicitField).flatMap (a.meaning known)))

/-- The edges are what the target adds to the assembly, and their outputs are recorded for it. -/
def Target.Adds (project : Project) (a : Assembly) (known : List Label) (t : Target)
    (block : List Edge) : Prop :=
  t.waiting? project a known = some block ∧
    (a.lowered.get? t.label).map Lowering.outputs = some (block.flatMap Edge.outputs)

/-- The edges of the assembly are those of the targets in `order`, each of which knows of some
others. -/
def Assembly.MadeOf (project : Project) (a : Assembly) (order : List Target)
    (known : Label → List Label) : Prop :=
  ∃ blocks, List.Forall₂ (fun t => t.Adds project a (known t.label)) order blocks ∧
    a.edges = blocks.flatten

/-- The edges wait for what the entries mean to targets that know of all others. -/
def Assembly.WaitsAsNamed (project : Project) (targets : List Target) (a : Assembly) : Prop :=
  ∃ order, order.Perm (targets.filter fun t => a.lowered.contains t.label) ∧
    a.MadeOf project order a.others

/-- What lowered targets know of makes a difference only where they inherit an entry that means
something else then. -/
theorem Target.waiting?_congr {known known' : List Label}
    (h : ∀ bindings, a.bindings? t.label = some bindings →
      ∀ entry ∈ bindings.list implicitField, a.meaning known entry = a.meaning known' entry) :
    t.waiting? project a known = t.waiting? project a known' := by
  rw [waiting?, waiting?]
  cases hbindings : a.bindings? t.label with
  | none => rfl
  | some bindings =>
    have hfiles : (bindings.list implicitField).flatMap (a.meaning known) =
        (bindings.list implicitField).flatMap (a.meaning known') :=
      List.flatMap_congr fun entry hentry => h bindings hbindings entry hentry
    simp only [Option.bind_eq_bind, Option.bind_some, hfiles]

namespace Schedule

/-- By the time of a visit those targets are lowered that are so in the end and were visited
before. -/
theorem get?_lowered_done (project : Project) (rules : RuleTable)
    (h : Schedule targets (done ++ rest))
    (ha : a = run project rules (unknownDependencies targets) (done ++ rest)) (l : Label) :
    (run project rules (unknownDependencies targets) done).lowered.get? l =
      if l ∈ done.map Target.label then a.lowered.get? l else none := by
  split
  next hl =>
    rw [ha]
    exact congrArg Entry.lowering (h.entry_prefix project rules (unknownDependencies targets) hl)
  next hl =>
    have hentry := entry_run_of_notMem project rules hl (unknownDependencies targets)
    refine (congrArg Entry.lowering hentry).trans ?_
    rw [Assembly.entry, lowered_unknownDependencies h.distinct]
    rfl

/-- The block of a visited target: empty if the target was not lowered, and otherwise its edges as
they wait for what it knows of at that moment. -/
theorem block_adds (h : Schedule targets (visitOrder targets))
    (ha : a = run project rules (unknownDependencies targets) (visitOrder targets)) :
    List.Forall₂ (fun t block => (a.lowered.contains t.label = false ∧ block = []) ∨
        (a.lowered.contains t.label = true ∧
          t.Adds project a (visitedBefore targets t.label) block))
      (visitOrder targets)
      (blocks project rules (unknownDependencies targets) (visitOrder targets)) := by
  refine forall₂_blocks _ _ fun done t rest hvisits => ?_
  rw [hvisits] at h ha
  rcases h.block_cases project rules rfl ha with
    ⟨hnone, hblock⟩ | ⟨x, edges, hx, hblock, hattempt⟩
  · exact .inl ⟨SortedMap.contains_eq_false.mpr hnone, hblock⟩
  · obtain ⟨environment, after, products, hres, hp, -, hedges, -, -, -, houtputs⟩ :=
      Assembly.attempt_eq_ok hattempt
    refine .inr ⟨SortedMap.contains_of_get? hx, ?_, ?_⟩
    · have hproducts : t.products? project = some products := by
        rw [Target.products?, hres]
        simp [hp, Except.toOption]
      have hexpand := Assembly.expand_eq_meaning (h.get?_lowered_done project rules ha)
      simp only [Target.waiting?, hproducts, bindings?_of_lowered hx, visitedBefore_eq h hvisits,
        ← hexpand, hblock, hedges, Assembly.implicitPaths, Edge.waitFor_firstOccurrences]
      rfl
    · rw [hx, hblock, ← houtputs]
      rfl

theorem madeOf (h : Schedule targets (visitOrder targets))
    (ha : a = run project rules (unknownDependencies targets) (visitOrder targets)) :
    a.MadeOf project ((visitOrder targets).filter fun t => a.lowered.contains t.label)
      (visitedBefore targets) := by
  obtain ⟨kept, hkept, hflatten⟩ := exists_forall₂_filter (h.block_adds ha)
  refine ⟨kept, hkept, ?_⟩
  rw [hflatten, ha, edges_run, edges_unknownDependencies, List.nil_append]

end Schedule

/-! ## Listings -/

/-- How the order in which targets are listed bears on what the edges of an assembly wait for. -/
structure Waiting (project : Project) (rules : RuleTable) (targets : List Target) (a : Assembly) :
    Prop where
  /-- In every listing the same targets are lowered, and each knows of those visited before. -/
  listing : ∀ listed, listed.Perm targets → (visitOrder listed).Perm targets ∧
    ∃ b, assemble project rules listed = .ok b ∧ b.lowered = a.lowered ∧
      b.MadeOf project ((visitOrder listed).filter fun t => a.lowered.contains t.label)
        (visitedBefore listed)
  /-- An entry that is the text of no other lowered target is a path, as it should be. -/
  path : ∀ l entry, (∀ m ∈ a.others l, m.text ≠ entry) → a.meaning (a.others l) entry = [entry] ∧
    ∀ listed, listed.Perm targets → a.meaning (visitedBefore listed l) entry = [entry]
  /-- The text of another lowered target should mean its outputs. It does in every listing exactly
  if that target is depended on, unless its only output is a file of that path. -/
  named : ∀ t ∈ targets, ∀ u ∈ targets, t.label ≠ u.label →
    ∀ x, a.lowered.get? u.label = some x →
      a.meaning (a.others t.label) u.label.text = x.outputs ∧
      ((∀ listed, listed.Perm targets →
          a.meaning (visitedBefore listed t.label) u.label.text = x.outputs) ↔
        TransGen (DependsOn targets) t.label u.label ∨ x.outputs = [u.label.text])
  /-- It means the same in every listing exactly if one of the two depends on the other. -/
  stable : ∀ t ∈ targets, ∀ u ∈ targets, t.label ≠ u.label →
    ∀ x, a.lowered.get? u.label = some x →
      ((∀ listed other, listed.Perm targets → other.Perm targets →
          a.meaning (visitedBefore listed t.label) u.label.text =
            a.meaning (visitedBefore other t.label) u.label.text) ↔
        TransGen (DependsOn targets) t.label u.label ∨
          TransGen (DependsOn targets) u.label t.label ∨ x.outputs = [u.label.text])
  /-- If the entries that targets inherit name no other lowered targets than dependencies, the edges
  wait as they should. -/
  asNamed : (∀ t ∈ targets, ∀ bindings, a.bindings? t.label = some bindings →
      ∀ m ∈ a.others t.label, m.text ∈ bindings.list implicitField →
        TransGen (DependsOn targets) t.label m) →
    ∀ listed, listed.Perm targets → ∀ b, assemble project rules listed = .ok b →
      b.WaitsAsNamed project listed

section Listings

variable (distinct : (targets.map Target.label).Nodup)
variable (acyclic : ∀ l, ¬ TransGen (DependsOn targets) l l)
include distinct acyclic

theorem forall_meaning_eq_outputs_iff (ht : t ∈ targets) (hu : u ∈ targets)
    (hne : t.label ≠ u.label) {x : Lowering} (hx : a.lowered.get? u.label = some x) :
    (∀ listed, listed.Perm targets →
      a.meaning (visitedBefore listed t.label) u.label.text = x.outputs) ↔
    TransGen (DependsOn targets) t.label u.label ∨ x.outputs = [u.label.text] := by
  simp only [Assembly.meaning_text hx]
  rw [← forall_mem_visitedBefore_iff distinct acyclic ht hu hne]
  constructor
  · intro hall
    by_cases houtputs : x.outputs = [u.label.text]
    · exact .inr houtputs
    · refine .inl fun listed hperm => ?_
      by_contra hnot
      have heq := hall listed hperm
      rw [if_neg hnot] at heq
      exact houtputs heq.symm
  · rintro (hall | houtputs) listed hperm
    · rw [if_pos (hall listed hperm)]
    · rw [houtputs, ite_self]

theorem forall_meaning_eq_iff (ht : t ∈ targets) (hu : u ∈ targets)
    (hne : t.label ≠ u.label) {x : Lowering} (hx : a.lowered.get? u.label = some x) :
    (∀ listed other, listed.Perm targets → other.Perm targets →
      a.meaning (visitedBefore listed t.label) u.label.text =
        a.meaning (visitedBefore other t.label) u.label.text) ↔
    TransGen (DependsOn targets) t.label u.label ∨
      TransGen (DependsOn targets) u.label t.label ∨ x.outputs = [u.label.text] := by
  simp only [Assembly.meaning_text hx]
  rw [← forall_mem_visitedBefore_iff distinct acyclic ht hu hne,
    ← forall_notMem_visitedBefore_iff distinct acyclic ht hu hne]
  constructor
  · intro hall
    by_contra hnot
    simp only [not_or, not_forall, not_not] at hnot
    -- so there is a listing where `u` is not known and one where it is
    obtain ⟨⟨listed, hlisted, hunknown⟩, ⟨other, hother, hknown⟩, houtputs⟩ := hnot
    have heq := hall listed other hlisted hother
    rw [if_neg hunknown, if_pos hknown] at heq
    exact houtputs heq.symm
  · rintro (hall | hall | houtputs) listed other hlisted hother
    · rw [if_pos (hall listed hlisted), if_pos (hall other hother)]
    · rw [if_neg (hall listed hlisted), if_neg (hall other hother)]
    · rw [houtputs, ite_self, ite_self]

end Listings

/-- Where targets inherit the texts of no other lowered targets than dependencies, knowing of those
visited before is knowing enough. -/
theorem waitsAsNamed_of_dependencies (distinct : (targets.map Target.label).Nodup)
    (h : assemble project rules targets = .ok a)
    (hnamed : ∀ t ∈ targets, ∀ bindings, a.bindings? t.label = some bindings →
      ∀ m ∈ a.others t.label, m.text ∈ bindings.list implicitField →
        TransGen (DependsOn targets) t.label m) :
    a.WaitsAsNamed project targets := by
  obtain ⟨hschedule, hrun⟩ := assemble_eq_run distinct h
  have hsettled := settled_of_assemble distinct h
  obtain ⟨blocks, hblocks, hedges⟩ := hschedule.madeOf hrun
  refine ⟨_, hschedule.perm.filter _, blocks, hblocks.imp ?_, hedges⟩
  rintro t block ⟨hwaiting, houtputs⟩
  refine ⟨hwaiting ▸ Target.waiting?_congr fun bindings hbindings entry hentry => ?_, houtputs⟩
  obtain ⟨x, hx, -⟩ := Option.map_eq_some_iff.mp houtputs
  obtain ⟨t', ht', hlabel⟩ := List.mem_map.mp
    (hsettled.mem_labels_of_lowered (SortedMap.contains_of_get? hx))
  rw [← hlabel] at hbindings ⊢
  by_cases hother : ∃ m ∈ a.others t'.label, m.text = entry
  · obtain ⟨m, hm, rfl⟩ := hother
    have hdep := hnamed t' ht' bindings hbindings m hm hentry
    obtain ⟨hlowered, -⟩ := Assembly.mem_others.mp hm
    obtain ⟨y, hy⟩ := SortedMap.contains_eq_true.mp hlowered
    obtain ⟨u, hu, rfl⟩ := List.mem_map.mp (hsettled.mem_labels_of_lowered hlowered)
    rw [Assembly.meaning_text hy, Assembly.meaning_text hy, if_pos hm,
      if_pos (mem_visitedBefore_of_transGen hschedule ht' hu hdep)]
  · have hnone : ∀ m ∈ a.others t'.label, m.text ≠ entry := fun m hm htext =>
      hother ⟨m, hm, htext⟩
    rw [Assembly.meaning_of_others (notMem_visitedBefore_self _ _) hnone,
      Assembly.meaning_of_others (a.notMem_others_self _) hnone]

/-- Whatever the targets inherit: how what the edges wait for depends on the order of listing. -/
theorem waiting_of_assemble (distinct : (targets.map Target.label).Nodup)
    (h : assemble project rules targets = .ok a) : Waiting project rules targets a := by
  have acyclic := (exists_assemble_iff distinct).mp ⟨a, h⟩
  refine {
    listing := fun listed hperm => ?_
    path := fun l entry hnone =>
      ⟨a.meaning_of_others (a.notMem_others_self l) hnone, fun listed _ =>
        a.meaning_of_others (notMem_visitedBefore_self listed l) hnone⟩
    named := fun t ht u hu hne x hx =>
      ⟨?_, forall_meaning_eq_outputs_iff distinct acyclic ht hu hne hx⟩
    stable := fun t ht u hu hne x hx => forall_meaning_eq_iff distinct acyclic ht hu hne hx
    asNamed := fun hnamed listed hperm b hb => ?_ }
  · have hschedule := schedule_of_perm distinct acyclic hperm
    obtain ⟨b, hb, hlowered⟩ := lowered_of_perm distinct h hperm
    refine ⟨hschedule.perm.trans hperm, b, hb, hlowered, ?_⟩
    rw [← hlowered]
    exact hschedule.madeOf (assemble_eq_run hschedule.distinct hb).2
  · have hother : u.label ∈ a.others t.label :=
      Assembly.mem_others.mpr ⟨SortedMap.contains_of_get? hx, hne.symm⟩
    rw [Assembly.meaning_text hx, if_pos hother]
  · obtain ⟨b', hb', hlowered⟩ := lowered_of_perm distinct h hperm
    obtain rfl := Except.ok.inj (hb.symm.trans hb')
    have hdistinct := (schedule_of_perm distinct acyclic hperm).distinct
    refine waitsAsNamed_of_dependencies hdistinct hb fun t ht bindings hbindings m hm hentry => ?_
    rw [Assembly.bindings?, hlowered] at hbindings
    rw [Assembly.others, hlowered] at hm
    exact (DependsOn.transGen_iff_of_perm hperm).mpr
      (hnamed t (hperm.subset ht) bindings hbindings m hm hentry)

namespace Sample

/-- Through `base`, `top` is to wait for what `right` makes, on which neither of them depends. -/
def strays : List Target :=
  [Stated.target { label := right,
                   edges := [{ copy "b" "right.1" with outputs := ["right.1", "right.2"] }] },
    Stated.target { label := base, exports := announcement right },
    Stated.target { label := top, dependencies := [base], edges := [copy "a" "top.1"] }]

end Sample

theorem waiting_sample : (Sample.strays.map Target.label).Nodup ∧
    ∃ rules a bindings, Sample.copying = .ok rules ∧
      assemble Sample.bare rules Sample.strays = .ok a ∧
      a.lowered.contains Sample.right = true ∧ a.bindings? Sample.top = some bindings ∧
      Sample.right.text ∈ bindings.list implicitField ∧
      Waiting Sample.bare rules Sample.strays a := by
  have distinct : (Sample.strays.map Target.label).Nodup := by decide
  have hruns : (Sample.copying.toOption.bind fun rules =>
      (assemble Sample.bare rules Sample.strays).toOption.bind fun a =>
        (a.bindings? Sample.top).map fun bindings =>
          (a.lowered.contains Sample.right, bindings.list implicitField)) =
      some (true, [Sample.right.text]) := by decide
  obtain ⟨rules, hrules, hruns⟩ := Option.bind_eq_some_iff.mp hruns
  obtain ⟨a, ha, hruns⟩ := Option.bind_eq_some_iff.mp hruns
  obtain ⟨bindings, hbindings, hruns⟩ := Option.map_eq_some_iff.mp hruns
  obtain ⟨hlowered, hlist⟩ := Prod.mk.inj hruns
  replace ha := eq_ok_of_toOption ha
  exact ⟨distinct, rules, a, bindings, eq_ok_of_toOption hrules, ha, hlowered, hbindings,
    by simp [hlist], waiting_of_assemble distinct ha⟩

/-- Each edge of an assembly that waits as named is one that some target should add. -/
theorem Assembly.WaitsAsNamed.mem_waiting? (h : a.WaitsAsNamed project targets) :
    ∀ edge ∈ a.edges, ∃ t ∈ targets, ∃ block,
      t.waiting? project a (a.others t.label) = some block ∧ edge ∈ block := by
  obtain ⟨order, hperm, blocks, hblocks, hedges⟩ := h
  intro edge hedge
  rw [hedges] at hedge
  obtain ⟨block, hblock, hmem⟩ := List.mem_flatten.mp hedge
  obtain ⟨t, ht, hadds, -⟩ := exists_of_mem_right hblocks block hblock
  exact ⟨t, (List.mem_filter.mp (hperm.mem_iff.mp ht)).1, block, hadds, hmem⟩

/-- With `right` listed first, its label is taken for a path; listed last, it is expanded. -/
theorem not_waitsAsNamed : ∃ rules a b, Sample.copying = .ok rules ∧
    assemble Sample.bare rules Sample.strays = .ok a ∧
    assemble Sample.bare rules Sample.strays.reverse = .ok b ∧
    ¬ a.WaitsAsNamed Sample.bare Sample.strays ∧ ¬ a.edges.Perm b.edges := by
  have hruns : (Sample.copying.toOption.bind fun rules =>
      (assemble Sample.bare rules Sample.strays).toOption.bind fun a =>
        (assemble Sample.bare rules Sample.strays.reverse).toOption.map fun b =>
          (a.edges.map Edge.implicit, b.edges.map Edge.implicit,
            Sample.strays.map fun t => (t.waiting? Sample.bare a (a.others t.label)).map
              (·.map Edge.implicit))) =
      some ([["//fw:right"], []], [[], ["right.1", "right.2"]],
        [some [[]], some [], some [["right.1", "right.2"]]]) := by decide
  obtain ⟨rules, hrules, hruns⟩ := Option.bind_eq_some_iff.mp hruns
  obtain ⟨a, ha, hruns⟩ := Option.bind_eq_some_iff.mp hruns
  obtain ⟨b, hb, hruns⟩ := Option.map_eq_some_iff.mp hruns
  obtain ⟨haedges, hruns⟩ := Prod.mk.inj hruns
  obtain ⟨hbedges, hshould⟩ := Prod.mk.inj hruns
  have hwaits : ["//fw:right"] ∈ a.edges.map Edge.implicit := by simp [haedges]
  refine ⟨rules, a, b, eq_ok_of_toOption hrules, eq_ok_of_toOption ha, eq_ok_of_toOption hb,
    fun hnamed => ?_, fun hperm => ?_⟩
  · obtain ⟨edge, hedge, himplicit⟩ := List.mem_map.mp hwaits
    obtain ⟨t, ht, block, hblock, hmem⟩ := hnamed.mem_waiting? edge hedge
    have hshared : some (block.map Edge.implicit) ∈ Sample.strays.map fun t =>
        (t.waiting? Sample.bare a (a.others t.label)).map (·.map Edge.implicit) :=
      List.mem_map.mpr ⟨t, ht, by rw [hblock, Option.map_some]⟩
    have hfiles : ["//fw:right"] ∈ block.map Edge.implicit := himplicit ▸ List.mem_map_of_mem hmem
    rw [hshould] at hshared
    simp only [List.mem_cons, Option.some.injEq, List.not_mem_nil, or_false] at hshared
    rcases hshared with h | h | h <;> simp [h] at hfiles
  · have hfiles := (hperm.map Edge.implicit).mem_iff.mp hwaits
    simp [hbedges] at hfiles

end BuildGraph
