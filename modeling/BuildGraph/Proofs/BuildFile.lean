import BuildGraph.Ninja
import BuildGraph.Proofs.Buildable
import BuildGraph.Proofs.Contributions

/-!
# Lines of build files

A build file is read line by line, and a `$` takes the character after it along, be it the end of
the line. So a text that a project brings in could end a line too soon, or keep it from ending. It
does neither: with the built-in verbs and rules a build file has the six lines of its head and four
for each edge, whatever the texts are made of (`inLines_of_assemble`).

Everything that is written is text that leaves a reader in the middle of its line (`staysInLine`).
Of paths and values this holds because no edge with a line break is kept, and every `$` in them is
written as two.
-/

namespace BuildGraph

namespace Ninja

/-! ## Reading lines -/

/-- Put text before the first line. -/
def extendFirst (start : List Char) : List (List Char) → List (List Char)
  | [] => [start]
  | line :: lines => (start ++ line) :: lines

/-- The lines of a text. A `$` takes the character after it along, and a line ends at each line feed
that is not taken. -/
def logicalLines : List Char → List (List Char)
  | [] => []
  | '\n' :: rest => [] :: logicalLines rest
  | '$' :: c :: rest => extendFirst ['$', c] (logicalLines rest)
  | c :: rest => extendFirst [c] (logicalLines rest)

/-- Lines, each with its end. -/
def unlines (lines : List (List Char)) : List Char := lines.flatMap (· ++ ['\n'])

/-- Whether a line goes on after a text in it: each `$` in the text is followed by the character that
it takes along, be that a line feed, and there is no other line break. -/
def continuesLine : List Char → Bool
  | [] => true
  | '$' :: c :: rest => c != '\r' && continuesLine rest
  | c :: rest => c != '$' && !isLineBreak c && continuesLine rest

/-- Whether a text continues its line and holds no line break at all. -/
def staysInLine : List Char → Bool
  | [] => true
  | '$' :: c :: rest => !isLineBreak c && staysInLine rest
  | c :: rest => c != '$' && !isLineBreak c && staysInLine rest

theorem continuesLine_append {cs ds : List Char} (hcs : continuesLine cs = true)
    (hds : continuesLine ds = true) : continuesLine (cs ++ ds) = true := by
  fun_induction continuesLine cs with
  | case1 => exact hds
  | case2 c rest ih =>
    rw [Bool.and_eq_true] at hcs
    simp [continuesLine, hcs.1, ih hcs.2]
  | case3 c rest hnot ih =>
    simp only [Bool.and_eq_true, bne_iff_ne, ne_eq] at hcs
    simp [continuesLine, hcs.1.1, hcs.1.2, ih hcs.2]

theorem carriageReturn_notMem_of_continuesLine {cs : List Char} (h : continuesLine cs = true) :
    '\r' ∉ cs := by
  fun_induction continuesLine cs with
  | case1 => exact List.not_mem_nil
  | case2 c rest ih =>
    rw [Bool.and_eq_true, bne_iff_ne] at h
    simp [Ne.symm h.1, ih h.2]
  | case3 c rest hnot ih =>
    simp only [Bool.and_eq_true, Bool.not_eq_true'] at h
    have hc : '\r' ≠ c := by
      rintro rfl
      cases h.1.2
    simp [hc, ih h.2]

theorem staysInLine_iff {cs : List Char} : staysInLine cs = true ↔
    continuesLine cs = true ∧ ∀ c ∈ cs, isLineBreak c = false := by
  have hdollar : isLineBreak '$' = false := by decide
  fun_induction staysInLine cs with
  | case1 => simp [continuesLine]
  | case2 c rest ih =>
    have hreturn : isLineBreak c = false → c ≠ '\r' := by
      rintro h rfl
      cases h
    simp only [continuesLine, Bool.and_eq_true, Bool.not_eq_true', bne_iff_ne, ih,
      List.forall_mem_cons]
    tauto
  | case3 c rest hnot ih =>
    rw [continuesLine.eq_3 _ _ hnot]
    simp only [Bool.and_eq_true, Bool.not_eq_true', ih, List.forall_mem_cons]
    tauto

theorem continuesLine_of_staysInLine {cs : List Char} (h : staysInLine cs = true) :
    continuesLine cs = true :=
  (staysInLine_iff.mp h).1

theorem staysInLine_append {cs ds : List Char} (hcs : staysInLine cs = true)
    (hds : staysInLine ds = true) : staysInLine (cs ++ ds) = true := by
  obtain ⟨hcs, hcsbreak⟩ := staysInLine_iff.mp hcs
  obtain ⟨hds, hdsbreak⟩ := staysInLine_iff.mp hds
  refine staysInLine_iff.mpr ⟨continuesLine_append hcs hds, fun c hc => ?_⟩
  exact (List.mem_append.mp hc).elim (hcsbreak c) (hdsbreak c)

theorem staysInLine_flatMap {α : Type} {xs : List α} {f : α → List Char}
    (h : ∀ x ∈ xs, staysInLine (f x) = true) : staysInLine (xs.flatMap f) = true := by
  induction xs with
  | nil => rfl
  | cons x xs ih =>
    obtain ⟨hx, hxs⟩ := List.forall_mem_cons.mp h
    exact staysInLine_append hx (ih hxs)

/-- A line ends at the first line feed after text that continues it. -/
theorem logicalLines_append {line : List Char} (h : continuesLine line = true) (rest : List Char) :
    logicalLines (line ++ '\n' :: rest) = line :: logicalLines rest := by
  fun_induction continuesLine line with
  | case1 => rfl
  | case2 c line ih =>
    rw [Bool.and_eq_true] at h
    rw [List.cons_append, List.cons_append, logicalLines, ih h.2]
    rfl
  | case3 c line _ ih =>
    -- `c` neither ends the line nor takes what comes next
    simp only [Bool.and_eq_true, bne_iff_ne, Bool.not_eq_true'] at h
    have hc : c ≠ '\n' := by
      rintro rfl
      cases h.1.2
    rw [List.cons_append, logicalLines.eq_4, ih h.2]
    · rfl
    · exact hc
    · intro _ _ hdollar
      exact absurd hdollar h.1.1

/-- Lines that a reader stays in are read back, whatever follows them. -/
theorem logicalLines_unlines_append {lines : List (List Char)}
    (h : ∀ line ∈ lines, continuesLine line = true) (rest : List Char) :
    logicalLines (unlines lines ++ rest) = lines ++ logicalLines rest := by
  induction lines with
  | nil => rfl
  | cons line lines ih =>
    obtain ⟨hline, hlines⟩ := List.forall_mem_cons.mp h
    calc logicalLines (unlines (line :: lines) ++ rest)
        = logicalLines (line ++ '\n' :: (unlines lines ++ rest)) := by simp [unlines]
      _ = line :: logicalLines (unlines lines ++ rest) := logicalLines_append hline _
      _ = line :: (lines ++ logicalLines rest) := by rw [ih hlines]

theorem logicalLines_unlines {lines : List (List Char)}
    (h : ∀ line ∈ lines, continuesLine line = true) : logicalLines (unlines lines) = lines := by
  have hlines := logicalLines_unlines_append h []
  rwa [List.append_nil, logicalLines, List.append_nil] at hlines

theorem carriageReturn_notMem_unlines {lines : List (List Char)}
    (h : ∀ line ∈ lines, continuesLine line = true) : '\r' ∉ unlines lines := by
  intro hmem
  obtain ⟨line, hline, hmem⟩ := List.mem_flatMap.mp hmem
  rcases List.mem_append.mp hmem with hmem | hmem
  · exact carriageReturn_notMem_of_continuesLine (h line hline) hmem
  · cases List.mem_singleton.mp hmem

/-! ## Texts of a project -/

theorem staysInLine_singleton {c : Char} (hdollar : c ≠ '$') (hbreak : isLineBreak c = false) :
    staysInLine [c] = true := by
  simp [staysInLine, hdollar, hbreak]

theorem staysInLine_escapePath {path : String} (h : hasLineBreak path = false) :
    staysInLine (escapePath path.toList) = true := by
  refine staysInLine_flatMap fun c hc => ?_
  have hbreak : isLineBreak c = false := by simpa using List.any_eq_false.mp h c hc
  by_cases hspecial : isPathSpecial c
  · simp [hspecial, staysInLine, hbreak]
  · rw [if_neg hspecial]
    refine staysInLine_singleton ?_ hbreak
    rintro rfl
    exact hspecial (by decide)

theorem staysInLine_escapeValue {value : String} (h : hasLineBreak value = false) :
    staysInLine (escapeValue value.toList) = true := by
  refine staysInLine_flatMap fun c hc => ?_
  have hbreak : isLineBreak c = false := by simpa using List.any_eq_false.mp h c hc
  by_cases hdollar : c = '$'
  · rw [hdollar]
    decide
  · rw [if_neg (by simpa using hdollar)]
    exact staysInLine_singleton hdollar hbreak

theorem staysInLine_pathList {paths : List String}
    (h : ∀ path ∈ paths, hasLineBreak path = false) : staysInLine (pathList paths) = true := by
  refine staysInLine_flatMap fun path hpath => ?_
  exact staysInLine_append (show staysInLine [' '] = true by decide)
    (staysInLine_escapePath (h path hpath))

theorem staysInLine_joinPaths {paths : List String}
    (h : ∀ path ∈ paths, hasLineBreak path = false) : staysInLine (joinPaths paths) = true := by
  induction paths with
  | nil => rfl
  | cons path paths ih =>
    obtain ⟨hpath, hpaths⟩ := List.forall_mem_cons.mp h
    have hescaped := staysInLine_escapePath hpath
    cases paths with
    | nil => rwa [joinPaths_singleton]
    | cons next paths =>
      rw [joinPaths_cons_cons]
      exact staysInLine_append hescaped
        (staysInLine_append (show staysInLine [' '] = true by decide) (ih hpaths))

/-! ## Lines of a build file -/

/-- The line of a variable. -/
def assignment (key : String) (value : List Char) : List Char :=
  ' ' :: ' ' :: key.toList ++ [' ', '=', ' '] ++ value

/-- What an edge makes of what, as it stands after the word `build`. -/
def statement (edge : Edge) : List Char :=
  joinPaths edge.outputs ++ [':', ' '] ++ edge.rule.toList ++ pathList edge.inputs ++
    (if edge.implicit.isEmpty then [] else [' ', '|'] ++ pathList edge.implicit)

/-- The lines of an edge. -/
def edgeLines (edge : Edge) : List (List Char) :=
  ("build ".toList ++ statement edge) ::
    edge.assignments.entries.map (fun (key, value) => assignment key (escapeValue value.toList)) ++
      [[]]

/-- The lines of a rule. -/
def ruleLines (rule : Rule) : List (List Char) :=
  ["rule ".toList ++ rule.name.toList, assignment "command" rule.command.toList,
    assignment "description" rule.description.toList, []]

/-- The lines of a build file. -/
def fileLines (rules : RuleTable) (edges : List Edge) : List (List Char) :=
  "# Generated by lathe. Do not edit.".toList :: [] ::
    (rules.toList.flatMap ruleLines ++ edges.flatMap edgeLines)

theorem variableLine_eq (key : String) (value : List Char) :
    variableLine key value = assignment key value ++ ['\n'] := rfl

theorem buildLine_eq (edge : Edge) : buildLine edge = statement edge ++ ['\n'] := rfl

theorem renderRule_eq (rule : Rule) : renderRule rule = unlines (ruleLines rule) := by
  unfold renderRule ruleLines
  rw [variableLine_eq, variableLine_eq]
  -- the letters of the word have no part in this
  generalize "rule ".toList = word
  simp only [unlines, List.flatMap_cons, List.flatMap_nil, List.append_assoc, List.nil_append,
    List.append_nil]

theorem renderEdge_eq (edge : Edge) : renderEdge edge = unlines (edgeLines edge) := by
  unfold renderEdge edgeLines
  rw [buildLine_eq]
  generalize "build ".toList = word
  simp only [unlines, variableLine_eq, List.flatMap_append, List.flatMap_cons, List.flatMap_nil,
    List.flatMap_map, List.append_assoc, List.cons_append, List.nil_append, List.append_nil]

theorem unlines_flatMap {α : Type} (xs : List α) (f : α → List (List Char)) :
    unlines (xs.flatMap f) = xs.flatMap fun x => unlines (f x) :=
  List.flatMap_assoc

/-- A build file is written in lines. -/
theorem toList_render (rules : RuleTable) (edges : List Edge) :
    (render rules edges).toList = unlines (fileLines rules edges) := by
  have hheader : header = "# Generated by lathe. Do not edit.".toList ++ ['\n'] := by decide
  have hrest : unlines (rules.toList.flatMap ruleLines ++ edges.flatMap edgeLines) =
      rules.toList.flatMap renderRule ++ edges.flatMap renderEdge := by
    rw [unlines, List.flatMap_append, ← unlines, ← unlines, unlines_flatMap, unlines_flatMap,
      funext renderRule_eq, funext renderEdge_eq]
  unfold render fileLines
  rw [String.toList_ofList, hheader]
  generalize "# Generated by lathe. Do not edit.".toList = first
  rw [unlines, List.flatMap_cons, List.flatMap_cons, ← unlines, hrest]
  simp only [List.append_assoc, List.nil_append]

/-- What is written of an edge stays in its lines if none of its texts holds a line break. -/
theorem staysInLine_edgeLines {edge : Edge} (h : RuleTable.lineBreakField? edge = none)
    (hrule : staysInLine edge.rule.toList = true)
    (hkeys : ∀ entry ∈ edge.assignments.entries, staysInLine entry.1.toList = true) :
    ∀ line ∈ edgeLines edge, staysInLine line = true := by
  obtain ⟨hinputs, himplicit, houtputs, hentries⟩ := RuleTable.lineBreakField?_eq_none.mp h
  have hwaits : staysInLine
      (if edge.implicit.isEmpty then [] else [' ', '|'] ++ pathList edge.implicit) = true := by
    split
    · rfl
    · exact staysInLine_append (by decide) (staysInLine_pathList himplicit)
  have hmakes := staysInLine_append (staysInLine_joinPaths houtputs)
    (show staysInLine [':', ' '] = true by decide)
  have hstatement : staysInLine (statement edge) = true :=
    staysInLine_append (staysInLine_append (staysInLine_append hmakes hrule)
      (staysInLine_pathList hinputs)) hwaits
  intro line hline
  rw [edgeLines, List.mem_append, List.mem_cons, List.mem_map, List.mem_singleton] at hline
  rcases hline with (rfl | ⟨entry, hentry, rfl⟩) | rfl
  · exact staysInLine_append (by decide) hstatement
  · have hvalue := staysInLine_escapeValue (hentries entry hentry).2
    have hkey := staysInLine_append (show staysInLine [' ', ' '] = true by decide)
      (hkeys entry hentry)
    exact staysInLine_append (staysInLine_append hkey (by decide)) hvalue
  · rfl

/-- The lines of an edge of the tool: what it makes of what, its two variables and an empty line. -/
def ToolLines (edge : Edge) (block : List (List Char)) : Prop :=
  ∃ tool options, edge.assignments.entries = [("objcopy", tool), ("options", options)] ∧
    block = ["build ".toList ++ statement edge, "  objcopy = ".toList ++ escapeValue tool.toList,
      "  options = ".toList ++ escapeValue options.toList, []]

/-- The lines before those of the edges. -/
def head : List (List Char) :=
  ["# Generated by lathe. Do not edit.".toList, [], "rule objcopy".toList,
    "  command = $objcopy $options $in $out".toList, "  description = OBJCOPY $out".toList, []]

/-- A build file of edges of the tool, read line by line. -/
structure InLines (edges : List Edge) (text : List Char) : Prop where
  carriageReturn : '\r' ∉ text
  /-- Every line has its end, and nothing comes after the last one. -/
  whole : text = unlines (logicalLines text)
  lines : ∃ blocks, List.Forall₂ ToolLines edges blocks ∧
    logicalLines text = head ++ blocks.flatten
  length : (logicalLines text).length = 6 + 4 * edges.length

theorem toolLines_edgeLines {edge : Edge} {tool options : String}
    (h : edge.assignments.entries = [(Objcopy.toolKey, tool), (Objcopy.optionsKey, options)]) :
    ToolLines edge (edgeLines edge) := by
  refine ⟨tool, options, h, ?_⟩
  have htool : ' ' :: ' ' :: Objcopy.toolKey.toList ++ [' ', '=', ' '] = "  objcopy = ".toList := by
    decide
  have hoptions : ' ' :: ' ' :: Objcopy.optionsKey.toList ++ [' ', '=', ' '] =
      "  options = ".toList := by
    decide
  unfold edgeLines
  rw [h, List.map_cons, List.map_cons, List.map_nil, ← htool, ← hoptions]
  rfl

theorem length_flatten_toolLines {edges : List Edge} {blocks : List (List (List Char))}
    (h : List.Forall₂ ToolLines edges blocks) : blocks.flatten.length = 4 * edges.length := by
  induction h with
  | nil => rfl
  | cons hblock _ ih =>
    obtain ⟨tool, options, -, rfl⟩ := hblock
    rw [List.flatten_cons, List.length_append, ih]
    simp only [List.length_cons, List.length_nil]
    omega

/-- Lines that a reader stays in are read line by line. -/
theorem inLines_unlines {edges : List Edge} {blocks : List (List (List Char))}
    (hblocks : List.Forall₂ ToolLines edges blocks)
    (h : ∀ line ∈ head ++ blocks.flatten, continuesLine line = true) :
    InLines edges (unlines (head ++ blocks.flatten)) where
  carriageReturn := carriageReturn_notMem_unlines h
  whole := by rw [logicalLines_unlines h]
  lines := ⟨blocks, hblocks, logicalLines_unlines h⟩
  length := by
    rw [logicalLines_unlines h, List.length_append, length_flatten_toolLines hblocks]
    rfl

end Ninja

/-! ## Assemblies -/

section Assemblies

variable {descriptor : Descriptor} {loaded : Loaded} {rules : RuleTable} {a : Assembly}

/-- With the built-in verbs every edge is that of a run, but for files to wait for, and it passed
the check. -/
theorem edge_of_assemble (h : descriptor.load .standard = .ok loaded)
    (ha : assemble loaded.project rules loaded.targets = .ok a) :
    ∀ edge ∈ a.edges, rules.checkEdge edge = .ok () ∧
      ∃ (run : Objcopy) (tool : String), (run.edge tool).Completes edge := by
  obtain ⟨runs, hdeclares⟩ := declares_of_load_standard h
  obtain ⟨visits, hschedule, ha'⟩ := exists_schedule hdeclares.distinct ha
  intro edge hedge
  rw [ha', edges_run, edges_unknownDependencies, List.nil_append] at hedge
  obtain ⟨block, hblock, hedge⟩ := List.mem_flatten.mp hedge
  obtain ⟨t, ht, hyields⟩ := exists_of_mem_right (hschedule.block_yields ha') block hblock
  rcases hyields with ⟨-, rfl⟩ | ⟨-, ⟨environment, after, products, hres, hp, hedges⟩, hchecked⟩
  · cases hedge
  refine ⟨hchecked edge hedge, ?_⟩
  obtain ⟨step, hstep, rfl⟩ := hdeclares.exists_step (hschedule.perm.mem_iff.mp ht)
  obtain ⟨run, -, rfl⟩ := List.mem_map.mp hstep
  obtain ⟨tool, -, rfl⟩ := Step.products_of_resolve _ hres hp
  obtain ⟨product, hproduct, hcompletes⟩ := exists_of_mem_right hedges edge hedge
  obtain rfl := List.mem_singleton.mp hproduct
  exact ⟨run, tool, hcompletes⟩

/-- The built-in rules are those of the tool. -/
theorem toList_standard (hrules : RuleTable.standard = .ok rules) :
    rules.toList = [Objcopy.rule] := by
  have h : RuleTable.standard.toOption.map RuleTable.toList = some [Objcopy.rule] := by decide
  rw [hrules] at h
  exact Option.some.inj h

/-- A build file of the built-in rules is its head and the lines of its edges. -/
theorem fileLines_standard (hrules : RuleTable.standard = .ok rules) (edges : List Edge) :
    Ninja.fileLines rules edges = Ninja.head ++ (edges.map Ninja.edgeLines).flatten := by
  have hrule : Ninja.ruleLines Objcopy.rule = Ninja.head.drop 2 := by decide
  rw [Ninja.fileLines, toList_standard hrules, List.flatMap_singleton, hrule, List.flatMap_def]
  rfl

/-- With the built-in verbs and rules, whatever texts a descriptor holds: the build file has the
lines of its head and four for each edge. -/
theorem inLines_of_assemble (h : descriptor.load .standard = .ok loaded)
    (hrules : RuleTable.standard = .ok rules)
    (ha : assemble loaded.project rules loaded.targets = .ok a) :
    Ninja.InLines a.edges (Ninja.render rules a.edges).toList := by
  have hedges : ∀ edge ∈ a.edges, Ninja.ToolLines edge (Ninja.edgeLines edge) ∧
      ∀ line ∈ Ninja.edgeLines edge, Ninja.staysInLine line = true := by
    intro edge hedge
    obtain ⟨hchecked, run, tool, hcompletes⟩ := edge_of_assemble h ha edge hedge
    have hassignments := hcompletes.assignments ▸ run.edge_assignments tool
    refine ⟨Ninja.toolLines_edgeLines hassignments, Ninja.staysInLine_edgeLines
      (RuleTable.lineBreakField?_of_checkEdge hchecked) ?_ ?_⟩
    · rw [hcompletes.rule]
      show Ninja.staysInLine Objcopy.rule.name.toList = true
      decide
    · rw [hassignments]
      simp only [List.forall_mem_cons]
      decide
  have hblocks : List.Forall₂ Ninja.ToolLines a.edges (a.edges.map Ninja.edgeLines) := by
    rw [List.forall₂_map_right_iff, List.forall₂_same]
    exact fun edge hedge => (hedges edge hedge).1
  rw [Ninja.toList_render, fileLines_standard hrules]
  refine Ninja.inLines_unlines hblocks fun line hline => Ninja.continuesLine_of_staysInLine ?_
  rcases List.mem_append.mp hline with hline | hline
  · have hhead : Ninja.head.all Ninja.staysInLine = true := by decide
    exact List.all_eq_true.mp hhead line hline
  · obtain ⟨edge, hedge, hline⟩ := List.mem_flatMap.mp (List.flatMap_def ▸ hline)
    exact (hedges edge hedge).2 line hline

end Assemblies

namespace Sample

/-- Texts that a build file cannot hold as they are, and one that it cannot hold at all. -/
def hostile : Descriptor :=
  { environments := SortedMap.ofList
      [("host", SortedMap.ofList [("objcopy", "/opt/my tools/oc: $out $")])]
    packages := SortedMap.ofList [("fw",
      [declaration "objcopy" "a"
          [("src", .string "a b:$in.ü"), ("options", .string "--set x=$y\\$")],
        declaration "objcopy" "b" [("src", .string ":a"), ("options", .string "$$$")],
        declaration "objcopy" "c"
          [("src", .string ":b"), ("options", .string "-v\nbuild x: objcopy y")]])] }

end Sample

theorem inLines_of_assemble_sample : ∃ loaded rules a,
    Sample.hostile.load .standard = .ok loaded ∧ RuleTable.standard = .ok rules ∧
    assemble loaded.project rules loaded.targets = .ok a ∧
    a.edges.length = 2 ∧ a.failures.size = 1 ∧
    Ninja.InLines a.edges (Ninja.render rules a.edges).toList := by
  have hruns : ((Sample.hostile.load .standard).toOption.bind fun loaded =>
      RuleTable.standard.toOption.bind fun rules =>
        (assemble loaded.project rules loaded.targets).toOption.map fun a =>
          (a.edges.length, a.failures.size)) = some (2, 1) := by decide
  obtain ⟨loaded, hload, hruns⟩ := Option.bind_eq_some_iff.mp hruns
  obtain ⟨rules, hrules, hruns⟩ := Option.bind_eq_some_iff.mp hruns
  obtain ⟨a, ha, hruns⟩ := Option.map_eq_some_iff.mp hruns
  obtain ⟨hlength, hsize⟩ := Prod.mk.inj hruns
  replace hload := eq_ok_of_toOption hload
  replace hrules := eq_ok_of_toOption hrules
  replace ha := eq_ok_of_toOption ha
  exact ⟨loaded, rules, a, hload, hrules, ha, hlength, hsize,
    inLines_of_assemble hload hrules ha⟩

end BuildGraph
