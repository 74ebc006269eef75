import BuildGraph.Command
import BuildGraph.Proofs.Accounts
import BuildGraph.Proofs.Files
import BuildGraph.Proofs.JsonText
import BuildGraph.Proofs.RoundTrips

/-!
# Commands on a tree of files

`gen` replaces its file by the build file of a project or leaves all files as they are, and `plan`
never changes any. The exit code of either says whether every target was lowered
(`commands_agree`).

As JSON a plan is keyed by the texts of labels. Different labels have different texts, and every
declared target was lowered, failed or was skipped, so each is listed once and under one heading.
What is printed is read as that plan (`Json.read?_render_append`), and so are the edges and bindings
in it.
-/

namespace BuildGraph

/-- What comes of the project that a file of a tree describes. -/
structure Assembles (tree : FileTree) (project : String) (loaded : Loaded) (rules : RuleTable)
    (a : Assembly) : Prop where
  text : ∃ text, tree.read project = .ok text ∧ load .standard text = .ok loaded
  table : RuleTable.standard = .ok rules
  assembly : assemble loaded.project rules loaded.targets = .ok a

namespace Assembles

variable {tree : FileTree} {project : String} {loaded : Loaded} {rules : RuleTable} {a : Assembly}

theorem distinct (h : Assembles tree project loaded rules a) :
    (loaded.targets.map Target.label).Nodup := by
  obtain ⟨text, -, hload⟩ := h.text
  rw [load] at hload
  split at hload
  · cases hload
  · exact (Descriptor.load_eq_ok hload).2.1

theorem accounted (h : Assembles tree project loaded rules a) : Accounted loaded.targets a := by
  obtain ⟨visits, hschedule, ha⟩ := exists_schedule h.distinct h.assembly
  subst ha
  exact hschedule.settled.accounted hschedule

end Assembles

/-- Every target of the project that a file describes is lowered. -/
def Succeeds (tree : FileTree) (project : String) : Prop :=
  ∃ loaded rules a, Assembles tree project loaded rules a ∧ a.isSuccess = true

/-! ## Targets of a plan -/

section Plans

variable {project : Project} {rules : RuleTable} {targets : List Target} {a : Assembly}

/-- The headings of a plan divide the targets among them, each under the text of its label. -/
structure Divides (targets : List Target) (a : Assembly)
    (bindings failures skipped : List (String × Json)) : Prop where
  mem_bindings : ∀ key value, (key, value) ∈ bindings ↔
    ∃ l b, a.bindings? l = some b ∧ key = l.text ∧ value = JsonCodec.encode b
  read_bindings : ∀ key value, (key, value) ∈ bindings →
    ∃ l b, a.bindings? l = some b ∧ key = l.text ∧ JsonCodec.decode value = some b
  mem_failures : ∀ key value, (key, value) ∈ failures ↔
    ∃ l e, a.failures.get? l = some e ∧ key = l.text ∧ value = .string e.message
  mem_skipped : ∀ key value, (key, value) ∈ skipped ↔
    ∃ l cause, a.skipped.get? l = some cause ∧ key = l.text ∧ value = .string cause.text
  /-- No key stands under two headings, or twice under one. -/
  nodup : (bindings.map Prod.fst ++ failures.map Prod.fst ++ skipped.map Prod.fst).Nodup
  /-- The keys are the texts of the labels of all targets. -/
  keys : (bindings.map Prod.fst ++ failures.map Prod.fst ++ skipped.map Prod.fst).Perm
    (targets.map fun t => t.label.text)

theorem Accounted.mem_keys_iff (h : Accounted targets a) {l : Label} :
    l ∈ a.lowered.keys ++ a.failures.keys ++ a.skipped.keys ↔ l ∈ targets.map Target.label := by
  simp only [List.mem_append, SortedMap.mem_keys]
  constructor
  · rintro ((hl | hl) | hl)
    · exact h.only l (.inl hl)
    · exact h.only l (.inr (.inl hl))
    · exact h.only l (.inr (.inr hl))
  · intro hl
    rcases h.one l hl with ⟨hl, -, -⟩ | ⟨-, hl, -⟩ | ⟨-, -, hl⟩
    · exact .inl (.inl hl)
    · exact .inl (.inr hl)
    · exact .inr hl

theorem Accounted.exclusive (h : Accounted targets a) (l : Label) :
    (a.lowered.contains l → ¬ a.failures.contains l) ∧
    (a.lowered.contains l ∨ a.failures.contains l → ¬ a.skipped.contains l) := by
  by_cases hl : l ∈ targets.map Target.label
  · rcases h.one l hl with ⟨hl, hf, hs⟩ | ⟨hl, hf, hs⟩ | ⟨hl, hf, hs⟩ <;> simp [hl, hf, hs]
  · have hnone := mt (h.only l) hl
    simp only [not_or] at hnone
    simp [hnone]

/-- The labels under which something is held are those of the targets, each of one kind. -/
theorem Accounted.keys_perm (h : Accounted targets a)
    (distinct : (targets.map Target.label).Nodup) :
    (a.lowered.keys ++ a.failures.keys ++ a.skipped.keys).Perm (targets.map Target.label) := by
  refine (List.perm_ext_iff_of_nodup ?_ distinct).mpr fun l => h.mem_keys_iff
  refine List.nodup_append.mpr ⟨List.nodup_append.mpr ⟨a.lowered.nodup_keys,
    a.failures.nodup_keys, ?_⟩, a.skipped.nodup_keys, ?_⟩
  · rintro l hl _ hf rfl
    exact (h.exclusive l).1 (SortedMap.mem_keys.mp hl) (SortedMap.mem_keys.mp hf)
  · rintro l hl _ hs rfl
    rw [List.mem_append, SortedMap.mem_keys, SortedMap.mem_keys] at hl
    exact (h.exclusive l).2 hl (SortedMap.mem_keys.mp hs)

/-- What is held under labels, as an object keyed by their texts. -/
theorem exists_members {α : Type} [JsonCodec α] {items : List (Label × α)}
    (h : (items.map Prod.fst).Nodup) : ∃ members : List (String × Json),
      JsonCodec.encode (SortedMap.ofList (items.map fun item => (item.1.text, item.2))) =
        .object members ∧
      (∀ key value, (key, value) ∈ members ↔
        ∃ l x, (l, x) ∈ items ∧ key = l.text ∧ value = JsonCodec.encode x) ∧
      (members.map Prod.fst).Perm ((items.map Prod.fst).map Label.text) := by
  have htexts : ((items.map fun item => (item.1.text, item.2)).map Prod.fst).Nodup := by
    have hmap : (items.map fun item => (item.1.text, item.2)).map Prod.fst =
        (items.map Prod.fst).map Label.text := by simp
    rw [hmap]
    exact h.map fun _ _ => Label.text_injective
  have hperm := SortedMap.entries_ofList_perm htexts
  refine ⟨_, rfl, fun key value => ?_, ?_⟩
  · simp only [List.mem_map, Prod.exists, Prod.mk.injEq, hperm.mem_iff]
    constructor
    · rintro ⟨_, _, ⟨l, x, hmem, rfl, rfl⟩, rfl, rfl⟩
      exact ⟨l, x, hmem, rfl, rfl⟩
    · rintro ⟨l, x, hmem, rfl, rfl⟩
      exact ⟨l.text, x, ⟨l, x, hmem, rfl, rfl⟩, rfl, rfl⟩
  · have hkeys := hperm.map Prod.fst
    rw [List.map_map] at hkeys ⊢
    rw [List.map_map]
    exact hkeys

/-- The same of a map, by what is shown of each of its values. -/
theorem exists_members_map {β γ : Type} [JsonCodec γ] (m : SortedMap Label β) (f : β → γ) :
    ∃ members : List (String × Json),
      JsonCodec.encode (SortedMap.ofList (m.entries.map fun item => (item.1.text, f item.2))) =
        .object members ∧
      (∀ key value, (key, value) ∈ members ↔
        ∃ l x, m.get? l = some x ∧ key = l.text ∧ value = JsonCodec.encode (f x)) ∧
      (members.map Prod.fst).Perm (m.keys.map Label.text) := by
  obtain ⟨members, hmembers, hmem, hkeys⟩ := exists_members (m.map f).nodup_keys
  simp only [SortedMap.map, List.map_map] at hmembers hkeys
  refine ⟨members, hmembers, fun key value => (hmem key value).trans ?_, ?_⟩
  · simp only [← SortedMap.get?_eq_some_iff, SortedMap.get?_map, Option.map_eq_some_iff]
    constructor
    · rintro ⟨l, _, ⟨x, hx, rfl⟩, hkey, hvalue⟩
      exact ⟨l, x, hx, hkey, hvalue⟩
    · rintro ⟨l, x, hx, hkey, hvalue⟩
      exact ⟨l, _, ⟨x, hx, rfl⟩, hkey, hvalue⟩
  · rw [SortedMap.keys, List.map_map]
    exact hkeys

/-- The bindings of all lowered targets. -/
def Assembly.bindingItems (a : Assembly) : List (Label × Bindings) :=
  a.lowered.keys.filterMap fun l => (a.bindings? l).map (l, ·)

theorem bindingsByText_eq (a : Assembly) : Plan.bindingsByText a =
    SortedMap.ofList (a.bindingItems.map fun item => (item.1.text, item.2)) := by
  rw [Plan.bindingsByText, Assembly.bindingItems, List.map_filterMap]
  simp only [Option.map_map]
  rfl

/-- Every lowered target has bindings. -/
theorem Accounted.bindingItems_labels (h : Accounted targets a) :
    a.bindingItems.map Prod.fst = a.lowered.keys := by
  rw [Assembly.bindingItems, List.map_filterMap]
  refine (List.filterMap_congr fun l hl => ?_).trans List.filterMap_some
  have hsome := h.bindings l
  rw [SortedMap.mem_keys.mp hl] at hsome
  obtain ⟨b, hb⟩ := Option.isSome_iff_exists.mp hsome
  rw [hb]
  rfl

theorem Accounted.mem_bindingItems (h : Accounted targets a) {l : Label} {b : Bindings} :
    (l, b) ∈ a.bindingItems ↔ a.bindings? l = some b := by
  simp only [Assembly.bindingItems, List.mem_filterMap, Option.map_eq_some_iff, Prod.mk.injEq]
  constructor
  · rintro ⟨l, -, b, hb, rfl, rfl⟩
    exact hb
  · intro hb
    have hlowered := h.bindings l
    rw [hb] at hlowered
    exact ⟨l, SortedMap.mem_keys.mpr hlowered.symm, b, hb, rfl, rfl⟩

/-- A plan as JSON: all edges in order, and every target under one heading. -/
def Shows (targets : List Target) (a : Assembly) (json : Json) : Prop :=
  ∃ edges bindings failures skipped,
    json = .object [("edges", edges), ("bindings", .object bindings),
      ("failures", .object failures), ("skipped", .object skipped)] ∧
    JsonCodec.decode edges = some a.edges ∧ Divides targets a bindings failures skipped

theorem shows_json (h : Accounted targets a) (distinct : (targets.map Target.label).Nodup) :
    Shows targets a (Plan.json a) := by
  have hlowered : (a.bindingItems.map Prod.fst).Nodup := by
    rw [h.bindingItems_labels]
    exact a.lowered.nodup_keys
  obtain ⟨bindings, hbindings, hmemBindings, hkeysBindings⟩ := exists_members hlowered
  obtain ⟨failures, hfailures, hmemFailures, hkeysFailures⟩ :=
    exists_members_map a.failures TargetError.message
  obtain ⟨skipped, hskipped, hmemSkipped, hkeysSkipped⟩ :=
    exists_members_map a.skipped Label.text
  simp only [h.mem_bindingItems] at hmemBindings
  have hjson : Plan.json a = .object [("edges", JsonCodec.encode a.edges),
      ("bindings", .object bindings), ("failures", .object failures),
      ("skipped", .object skipped)] := by
    rw [Plan.json, bindingsByText_eq, hbindings, ← hfailures, ← hskipped]
  have hkeys : (bindings.map Prod.fst ++ failures.map Prod.fst ++ skipped.map Prod.fst).Perm
      ((targets.map Target.label).map Label.text) := by
    rw [h.bindingItems_labels] at hkeysBindings
    refine ((hkeysBindings.append hkeysFailures).append hkeysSkipped).trans ?_
    rw [← List.map_append, ← List.map_append]
    exact (h.keys_perm distinct).map Label.text
  refine ⟨_, bindings, failures, skipped, hjson, LawfulCodec.decode_encode a.edges, {
    mem_bindings := hmemBindings
    read_bindings := fun key value hmem => ?_
    mem_failures := hmemFailures
    mem_skipped := hmemSkipped
    nodup := hkeys.nodup_iff.mpr (distinct.map fun _ _ => Label.text_injective)
    keys := by rwa [List.map_map] at hkeys }⟩
  obtain ⟨l, b, hb, hkey, rfl⟩ := (hmemBindings key value).mp hmem
  exact ⟨l, b, hb, hkey, LawfulCodec.decode_encode b⟩

end Plans

namespace Command

variable {tree : FileTree} {project out : String} {format : PlanFormat}
variable {outcome : Except Failure (RuleTable × Assembly)}
variable {rules : RuleTable} {a : Assembly}

/-- The report of a command on a tree of files, and the tree afterwards. -/
def runOn (command : Command) (tree : FileTree) : Report × FileTree :=
  (command.run : StateM FileTree Report).run tree

theorem assembleText_eq_ok : assembleText project (tree.read project) = .ok (rules, a) ↔
    ∃ loaded, Assembles tree project loaded rules a := by
  constructor
  · intro h
    rw [assembleText] at h
    obtain ⟨text, htext, h⟩ := bind_eq_ok h
    obtain ⟨loaded, hloaded, h⟩ := bind_eq_ok h
    obtain ⟨rules, hrules, h⟩ := bind_eq_ok h
    obtain ⟨a, ha, h⟩ := bind_eq_ok h
    cases h
    exact ⟨loaded, ⟨text, mapError_eq_ok htext, mapError_eq_ok hloaded⟩, mapError_eq_ok hrules,
      mapError_eq_ok ha⟩
  · rintro ⟨loaded, ⟨text, htext, hloaded⟩, hrules, ha⟩
    rw [assembleText, htext, hrules]
    simp only [Except.mapError, bind, Except.bind, hloaded, ha]
    rfl

/-- What is seen of an assembly is seen of one that comes of the project. -/
theorem exists_assembles {β : Type} {view : RuleTable × Assembly → β} {b : β}
    (h : (assembleText project (tree.read project)).toOption.map view = some b) :
    ∃ loaded rules a, Assembles tree project loaded rules a ∧ view (rules, a) = b := by
  obtain ⟨⟨rules, a⟩, hresult, hview⟩ := Option.map_eq_some_iff.mp h
  obtain ⟨loaded, ha⟩ := assembleText_eq_ok.mp (eq_ok_of_toOption hresult)
  exact ⟨loaded, rules, a, ha, hview⟩

theorem succeeds_iff : Succeeds tree project ↔ ∃ rules a,
    assembleText project (tree.read project) = .ok (rules, a) ∧ a.isSuccess = true := by
  simp only [assembleText_eq_ok, Succeeds]
  constructor
  · rintro ⟨loaded, rules, a, ha, hsuccess⟩
    exact ⟨rules, a, ⟨loaded, ha⟩, hsuccess⟩
  · rintro ⟨rules, a, ⟨loaded, ha⟩, hsuccess⟩
    exact ⟨loaded, rules, a, ha, hsuccess⟩

/-- A project that is assembled succeeds by what came of it. -/
theorem succeeds_iff_of_assembles {loaded : Loaded} (h : Assembles tree project loaded rules a) :
    Succeeds tree project ↔ a.isSuccess = true := by
  rw [succeeds_iff, assembleText_eq_ok.mpr ⟨loaded, h⟩]
  constructor
  · rintro ⟨_, _, heq, hsuccess⟩
    cases heq
    exact hsuccess
  · exact fun hsuccess => ⟨rules, a, rfl, hsuccess⟩

/-! ## Reports -/

theorem failed_exit (stdout stderr : String) (failure : Failure) :
    (failed stdout stderr failure).exit ≠ 0 := by
  show (1 : UInt8) ≠ 0
  decide

theorem planReport_exit (format : PlanFormat) : (planReport format outcome).exit = 0 ↔
    ∃ rules a, outcome = .ok (rules, a) ∧ a.isSuccess = true := by
  cases outcome with
  | error failure => simp [planReport, failed]
  | ok result =>
    obtain ⟨rules, a⟩ := result
    cases hsuccess : a.isSuccess <;> cases format <;> simp [planReport, failed, hsuccess]

theorem buildFile_eq_ok {text : String} {count : Nat} : buildFile outcome = .ok (text, count) ↔
    ∃ rules a, outcome = .ok (rules, a) ∧ a.isSuccess = true ∧
      text = Ninja.render rules a.edges ∧ count = a.edges.length := by
  cases outcome with
  | error failure => simp [buildFile]
  | ok result =>
    obtain ⟨rules, a⟩ := result
    cases hsuccess : a.isSuccess with
    | false => simp [buildFile, hsuccess]
    | true =>
      simp only [buildFile, hsuccess, if_true, Except.ok.injEq, Prod.mk.injEq]
      constructor
      · rintro ⟨rfl, rfl⟩
        exact ⟨rules, a, ⟨rfl, rfl⟩, hsuccess, rfl, rfl⟩
      · rintro ⟨_, _, ⟨rfl, rfl⟩, -, rfl, rfl⟩
        exact ⟨rfl, rfl⟩

theorem exists_buildFile_iff : (∃ text count, buildFile outcome = .ok (text, count)) ↔
    ∃ rules a, outcome = .ok (rules, a) ∧ a.isSuccess = true := by
  constructor
  · rintro ⟨text, count, h⟩
    obtain ⟨rules, a, ha, hsuccess, -⟩ := buildFile_eq_ok.mp h
    exact ⟨rules, a, ha, hsuccess⟩
  · rintro ⟨rules, a, ha, hsuccess⟩
    exact ⟨_, _, buildFile_eq_ok.mpr ⟨rules, a, ha, hsuccess, rfl, rfl⟩⟩

theorem buildFile_eq_error {report : Report} (h : buildFile outcome = .error report) :
    report.exit ≠ 0 := by
  cases outcome with
  | error failure =>
    cases h
    exact failed_exit _ _ _
  | ok result =>
    obtain ⟨rules, a⟩ := result
    simp only [buildFile] at h
    split at h <;> cases h
    exact failed_exit _ _ _

/-! ## Runs -/

theorem runOn_plan : (Command.plan project format).runOn tree =
    (planReport format (assembleText project (tree.read project)), tree) := rfl

theorem run_write (out text : String) (tree : FileTree) :
    (Files.write out text : StateM FileTree (Except FileError Unit)).run tree =
      match tree.write out text with
      | .ok after => (.ok (), after)
      | .error e => (.error e, tree) := by
  have hrun : (Files.write out text : StateM FileTree (Except FileError Unit)).run tree =
      (match tree.write out text with
        | .ok after => do set after; return .ok ()
        | .error e => return .error e : StateM FileTree (Except FileError Unit)).run tree := rfl
  rw [hrun]
  cases tree.write out text <;> rfl

/-- `gen` writes the build file if there is one, and otherwise does nothing. -/
theorem runOn_gen : (Command.gen project out).runOn tree =
    match buildFile (assembleText project (tree.read project)) with
    | .error report => (report, tree)
    | .ok (text, count) =>
      match tree.write out text with
      | .ok after => (writtenReport out count (.ok ()), after)
      | .error e => (writtenReport out count (.error e), tree) := by
  have hrun : (Command.gen project out).runOn tree =
      (match buildFile (assembleText project (tree.read project)) with
        | .error report => return report
        | .ok (text, count) => return writtenReport out count (← Files.write out text) :
        StateM FileTree Report).run tree := rfl
  rw [hrun]
  cases buildFile (assembleText project (tree.read project)) with
  | error report => rfl
  | ok result =>
    obtain ⟨text, count⟩ := result
    -- the report is made of the answer to the write, and the tree is what the write left
    have hwrite : (return writtenReport out count (← Files.write out text) :
        StateM FileTree Report).run tree =
          ((writtenReport out count
            ((Files.write out text : StateM FileTree (Except FileError Unit)).run tree).1),
          ((Files.write out text : StateM FileTree (Except FileError Unit)).run tree).2) := rfl
    simp only [hwrite, run_write]
    cases tree.write out text <;> rfl

end Command

/-! ## Both commands -/

/-- How the commands deal with the project that a file of a tree describes. -/
structure CommandsAgree (tree : FileTree) (project : String) : Prop where
  /-- Unless every target is lowered, `gen` leaves the tree as it is and fails. -/
  refused : ¬ Succeeds tree project → ∀ out, ∃ report,
    (Command.gen project out).runOn tree = (report, tree) ∧ report.exit ≠ 0
  /-- Otherwise it replaces its file by the build file. -/
  written : ∀ loaded rules a, Assembles tree project loaded rules a → a.isSuccess = true →
    ∀ out after, tree.write out (Ninja.render rules a.edges) = .ok after →
      tree.Replaces out (Ninja.render rules a.edges) after ∧
      ∃ report, (Command.gen project out).runOn tree = (report, after) ∧ report.exit = 0
  /-- If that cannot be done, the tree is left as it is. -/
  unwritten : ∀ loaded rules a, Assembles tree project loaded rules a → a.isSuccess = true →
    ∀ out e, tree.write out (Ninja.render rules a.edges) = .error e →
      ∃ report, (Command.gen project out).runOn tree = (report, tree) ∧ report.exit ≠ 0
  /-- `plan` leaves the tree as it is, and fails unless every target is lowered. -/
  planned : ∀ format, ∃ report, (Command.plan project format).runOn tree = (report, tree) ∧
    (report.exit = 0 ↔ Succeeds tree project)
  /-- Just then `gen` has a file to write. -/
  reached : Succeeds tree project ↔
    ∃ text count, Command.buildFile (Command.assembleText project (tree.read project)) =
      .ok (text, count)
  /-- As JSON, `plan` prints all edges in order, and every declared target under one heading. -/
  listed : ∀ loaded rules a, Assembles tree project loaded rules a → ∃ json,
    Json.read? ((Command.plan project .json).runOn tree).1.stdout = some json ∧
    ((Command.plan project .json).runOn tree).1.stdout = json.render ++ "\n" ∧
    Shows loaded.targets a json

/-- Whatever the files and the project: `gen` does all or nothing, and `plan` says which. -/
theorem commands_agree (tree : FileTree) (project : String) : CommandsAgree tree project := by
  have hfile : ∀ {loaded rules a}, Assembles tree project loaded rules a → a.isSuccess = true →
      Command.buildFile (Command.assembleText project (tree.read project)) =
        .ok (Ninja.render rules a.edges, a.edges.length) := fun ha hsuccess =>
    Command.buildFile_eq_ok.mpr
      ⟨_, _, Command.assembleText_eq_ok.mpr ⟨_, ha⟩, hsuccess, rfl, rfl⟩
  have hreached : Succeeds tree project ↔ ∃ text count,
      Command.buildFile (Command.assembleText project (tree.read project)) =
        .ok (text, count) := Command.succeeds_iff.trans Command.exists_buildFile_iff.symm
  refine ⟨?_, ?_, ?_, ?_, hreached, ?_⟩
  · intro hfails out
    rw [hreached] at hfails
    rw [Command.runOn_gen]
    cases hbuild : Command.buildFile (Command.assembleText project (tree.read project)) with
    | error report => exact ⟨report, rfl, Command.buildFile_eq_error hbuild⟩
    | ok result => exact absurd ⟨result.1, result.2, hbuild⟩ hfails
  · intro loaded rules a ha hsuccess out after hafter
    refine ⟨FileTree.replaces_of_write hafter, ?_⟩
    simp only [Command.runOn_gen, hfile ha hsuccess, hafter]
    exact ⟨_, rfl, rfl⟩
  · intro loaded rules a ha hsuccess out e he
    simp only [Command.runOn_gen, hfile ha hsuccess, he]
    exact ⟨_, rfl, Command.failed_exit _ _ _⟩
  · intro format
    refine ⟨_, Command.runOn_plan, ?_⟩
    rw [Command.planReport_exit, Command.succeeds_iff]
  · intro loaded rules a ha
    have hprinted : ((Command.plan project .json).runOn tree).1.stdout =
        (Plan.json a).render ++ "\n" := by
      rw [Command.runOn_plan, Command.assembleText_eq_ok.mpr ⟨_, ha⟩]
      cases hsuccess : a.isSuccess <;> simp [Command.planReport, Command.failed, hsuccess]
    have hbreak : ∀ c ∈ "\n".toList, Json.Reader.isBlank c = true := by
      simp [Json.Reader.isBlank]
    refine ⟨Plan.json a, ?_, hprinted, shows_json ha.accounted ha.distinct⟩
    rw [hprinted]
    exact Json.read?_render_append _ hbreak

namespace Sample

/-- A project, another one with a target that lacks its tool, and a directory for build files. -/
def files : FileTree where
  entries := SortedMap.ofList
    [(["work"], .directory), (["work", "out"], .directory),
      (["work", "lathe.yaml"], .text <|
        "environments: \x7bhost: \x7bobjcopy: oc\x7d\x7d\npackages:\n  fw:\n" ++
        "    - \x7bverb: objcopy, name: a, environment: host, src: a.elf\x7d\n" ++
        "    - \x7bverb: objcopy, name: b, environment: host, src: ':a'\x7d\n"),
      (["work", "broken.yaml"], .text <|
        "environments: \x7bhost: \x7bobjcopy: oc\x7d, bare: \x7b\x7d\x7d\npackages:\n  fw:\n" ++
        "    - \x7bverb: objcopy, name: a, environment: host, src: a.elf\x7d\n" ++
        "    - \x7bverb: objcopy, name: b, environment: bare, src: b.elf\x7d\n" ++
        "    - \x7bverb: objcopy, name: c, environment: host, src: ':b'\x7d\n")]
  workingDirectory := ["work"]
  closed := by decide
  working := by decide

end Sample

theorem commands_agree_sample :
    (∃ loaded rules a after, Assembles Sample.files "lathe.yaml" loaded rules a ∧
      a.isSuccess = true ∧
      Sample.files.write "/work/out/build.ninja" (Ninja.render rules a.edges) = .ok after ∧
      after.read "out/build.ninja" = .ok (Ninja.render rules a.edges) ∧
      (∃ report, (Command.gen "lathe.yaml" "/work/out/build.ninja").runOn Sample.files =
        (report, after) ∧ report.exit = 0) ∧
      ∃ report, (Command.plan "lathe.yaml" .json).runOn Sample.files = (report, Sample.files) ∧
        report.exit = 0) ∧
    ∃ loaded rules a, Assembles Sample.files "/work/broken.yaml" loaded rules a ∧
      (a.lowered.size, a.failures.size, a.skipped.size) = (1, 1, 1) ∧
      (∃ report, (Command.gen "/work/broken.yaml" "out/build.ninja").runOn Sample.files =
        (report, Sample.files) ∧ report.exit ≠ 0) ∧
      (∃ report, (Command.plan "/work/broken.yaml" .text).runOn Sample.files =
        (report, Sample.files) ∧ report.exit ≠ 0) ∧
      ∃ json, Json.read? ((Command.plan "/work/broken.yaml" .json).runOn Sample.files).1.stdout =
        some json ∧ Shows loaded.targets a json := by
  constructor
  · have hruns : (Command.assembleText "lathe.yaml" (Sample.files.read "lathe.yaml")).toOption.map
        (fun (rules, a) => (a.isSuccess, (Sample.files.write "/work/out/build.ninja"
          (Ninja.render rules a.edges)).toOption.isSome)) = some (true, true) := by decide +kernel
    obtain ⟨loaded, rules, a, ha, hview⟩ := Command.exists_assembles hruns
    obtain ⟨hsuccess, hwrites⟩ := Prod.mk.inj hview
    obtain ⟨after, hafter⟩ := Option.isSome_iff_exists.mp hwrites
    replace hafter := eq_ok_of_toOption hafter
    have hagree := commands_agree Sample.files "lathe.yaml"
    obtain ⟨hreplaces, hgen⟩ := hagree.written loaded rules a ha hsuccess _ _ hafter
    obtain ⟨report, hplan, hexit⟩ := hagree.planned .json
    have hread := hreplaces.same "out/build.ninja" (by decide +kernel) (by decide +kernel)
    exact ⟨loaded, rules, a, after, ha, hsuccess, hafter, hread, hgen, report, hplan,
      hexit.mpr ⟨loaded, rules, a, ha, hsuccess⟩⟩
  · have hruns : (Command.assembleText "/work/broken.yaml"
        (Sample.files.read "/work/broken.yaml")).toOption.map
          (fun (_, a) => (a.isSuccess, a.lowered.size, a.failures.size, a.skipped.size)) =
        some (false, 1, 1, 1) := by decide +kernel
    obtain ⟨loaded, rules, a, ha, hview⟩ := Command.exists_assembles hruns
    obtain ⟨hfails, hsizes⟩ := Prod.mk.inj hview
    have hagree := commands_agree Sample.files "/work/broken.yaml"
    have hbroken : ¬ Succeeds Sample.files "/work/broken.yaml" := by
      rw [Command.succeeds_iff_of_assembles ha, hfails]
      exact Bool.false_ne_true
    obtain ⟨report, hplan, hexit⟩ := hagree.planned .text
    obtain ⟨json, hread, -, hshows⟩ := hagree.listed loaded rules a ha
    exact ⟨loaded, rules, a, ha, hsizes, hagree.refused hbroken _,
      ⟨report, hplan, fun hzero => hbroken (hexit.mp hzero)⟩, json, hread, hshows⟩

end BuildGraph
