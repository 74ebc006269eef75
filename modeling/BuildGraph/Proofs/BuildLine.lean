import BuildGraph.Ninja
import BuildGraph.Proofs.Contributions

/-!
# Files in build lines

A build line names the outputs of an edge, up to a colon, and its rule. The rule is followed by the
inputs and, after a `|`, by the files that the edge only waits for. Written paths are read back
whatever they are made of (`readPath_escapePath`), so a line tells its outputs, as long as there are
any (`readPaths_outputs`), and each of the words after the rule.

It does not tell what such a word stands for, because a file may itself be called `|` and is then
written just like the bar. Two edges that differ in their files have the same text exactly if the
one names `|` as an input and the files after it are those that the other waits for (`toldApart`).
-/

namespace BuildGraph

namespace Ninja

/-! ## Reading paths -/

/-- The path that a text begins with, and what follows it. A `$` makes the next character literal,
and the path ends at a blank or a colon. -/
def readPath : List Char → List Char × List Char
  | [] => ([], [])
  | '$' :: c :: rest => (c :: (readPath rest).1, (readPath rest).2)
  | c :: rest =>
    if c == ' ' || c == ':' then ([], c :: rest) else (c :: (readPath rest).1, (readPath rest).2)

/-- Whatever is before this text, a path ends there. -/
def EndsPath (rest : List Char) : Prop := ∀ c ∈ rest.head?, c = ' ' ∨ c = ':'

theorem readPath_of_endsPath {rest : List Char} (h : EndsPath rest) : readPath rest = ([], rest) := by
  cases rest with
  | nil => rfl
  | cons c rest => rcases h c rfl with rfl | rfl <;> rfl

/-- A written path is read back. -/
theorem readPath_escapePath (path : List Char) {rest : List Char} (h : EndsPath rest) :
    readPath (escapePath path ++ rest) = (path, rest) := by
  induction path with
  | nil => exact readPath_of_endsPath h
  | cons c path ih =>
    rw [escapePath, List.flatMap_cons, ← escapePath, List.append_assoc]
    by_cases hspecial : isPathSpecial c = true
    · rw [if_pos hspecial, List.cons_append, List.singleton_append, readPath, ih]
    · simp only [isPathSpecial, Bool.or_eq_true, beq_iff_eq, not_or] at hspecial
      obtain ⟨⟨hdollar, hblank⟩, hcolon⟩ := hspecial
      rw [if_neg (by simp [isPathSpecial, hdollar, hblank, hcolon]), List.singleton_append,
        readPath.eq_3, if_neg (by simp [hblank, hcolon]), ih]
      exact fun _ _ heq => absurd heq hdollar

theorem endsPath_pathList (paths : List String) : EndsPath (pathList paths) := by
  cases paths with
  | nil => simp [EndsPath, pathList]
  | cons path paths => simp [EndsPath, pathList]

theorem pathList_cons (path : String) (paths : List String) :
    pathList (path :: paths) = ' ' :: (escapePath path.toList ++ pathList paths) := rfl

theorem pathList_append (paths more : List String) :
    pathList (paths ++ more) = pathList paths ++ pathList more := List.flatMap_append

/-- Written lists of paths are read back path by path, so different lists are written
differently. -/
theorem pathList_injective {paths paths' : List String} (h : pathList paths = pathList paths') :
    paths = paths' := by
  induction paths generalizing paths' with
  | nil =>
    cases paths' with
    | nil => rfl
    | cons path paths => cases h
  | cons path paths ih =>
    cases paths' with
    | nil => cases h
    | cons path' paths' =>
      rw [pathList_cons, pathList_cons] at h
      have hread := congrArg readPath (List.cons.inj h).2
      rw [readPath_escapePath _ (endsPath_pathList paths),
        readPath_escapePath _ (endsPath_pathList paths')] at hread
      obtain ⟨hpath, hrest⟩ := Prod.mk.inj hread
      rw [String.toList_injective hpath, ih hrest]

/-! ## Words -/

/-- The words for the files that an edge waits for: a bar and the files, or nothing. -/
def waitWords (paths : List String) : List String := if paths.isEmpty then [] else "|" :: paths

/-- The words after the rule of an edge. -/
def words (edge : Edge) : List String := edge.inputs ++ waitWords edge.implicit

theorem waitWords_eq_cons_iff {paths more : List String} {word : String} :
    waitWords paths = word :: more ↔ paths ≠ [] ∧ word = "|" ∧ paths = more := by
  cases paths <;> simp [waitWords, eq_comm]

theorem waitWords_injective {paths paths' : List String} (h : waitWords paths = waitWords paths') :
    paths = paths' := by
  cases paths' with
  | nil => simpa [waitWords] using h
  | cons path' paths' =>
    rw [show waitWords (path' :: paths') = "|" :: path' :: paths' from rfl] at h
    exact (waitWords_eq_cons_iff.mp h).2.2

/-- The bar is written like a file of that name. -/
theorem pathList_waitWords (paths : List String) : pathList (waitWords paths) =
    if paths.isEmpty then [] else [' ', '|'] ++ pathList paths := by
  cases paths <;> rfl

theorem renderEdge_eq_words (edge : Edge) : renderEdge edge =
    "build ".toList ++ (joinPaths edge.outputs ++ [':', ' '] ++ edge.rule.toList ++
      pathList (words edge) ++ ['\n']) ++
      edge.assignments.entries.flatMap
        (fun (key, value) => variableLine key (escapeValue value.toList)) ++ ['\n'] := by
  unfold renderEdge buildLine
  rw [words, pathList_append, pathList_waitWords]
  -- the letters of the word have no part in this
  generalize "build ".toList = word
  simp only [List.append_assoc]

/-! ## Outputs -/

theorem length_readPath_le (text : List Char) : (readPath text).2.length ≤ text.length := by
  fun_induction readPath text with
  | case1 => simp
  | case2 c rest ih => simp only [List.length_cons]; omega
  | case3 c rest hnot h => simp
  | case4 c rest hnot h ih => simp only [List.length_cons]; omega

/-- The paths that a text begins with and what follows the colon after them. Between each two paths
there is a blank; without a colon there is no such list. -/
def readPaths (text : List Char) : Option (List (List Char) × List Char) :=
  match _hleft : (readPath text).2 with
  | ' ' :: rest => (readPaths rest).map fun (paths, left) => ((readPath text).1 :: paths, left)
  | ':' :: rest => some ([(readPath text).1], rest)
  | _ => none
termination_by text.length
decreasing_by
  have hle := length_readPath_le text
  rw [_hleft, List.length_cons] at hle
  omega

theorem readPaths_of_blank {text path rest : List Char} (h : readPath text = (path, ' ' :: rest)) :
    readPaths text = (readPaths rest).map fun (paths, left) => (path :: paths, left) := by
  rw [readPaths]
  split <;> simp_all

theorem readPaths_of_colon {text path rest : List Char} (h : readPath text = (path, ':' :: rest)) :
    readPaths text = some ([path], rest) := by
  rw [readPaths]
  split <;> simp_all

/-- Joined paths are read back. -/
theorem readPaths_joinPaths {paths : List String} (hne : paths ≠ []) (rest : List Char) :
    readPaths (joinPaths paths ++ ':' :: rest) = some (paths.map String.toList, rest) := by
  induction paths with
  | nil => exact absurd rfl hne
  | cons path paths ih =>
    cases paths with
    | nil =>
      have hends : EndsPath (':' :: rest) := by simp [EndsPath]
      rw [joinPaths_singleton]
      exact readPaths_of_colon (readPath_escapePath path.toList hends)
    | cons next paths =>
      have hends : EndsPath (' ' :: (joinPaths (next :: paths) ++ ':' :: rest)) := by
        simp [EndsPath]
      rw [joinPaths_cons_cons, List.append_assoc, List.cons_append,
        readPaths_of_blank (readPath_escapePath path.toList hends),
        ih (List.cons_ne_nil next paths)]
      rfl

theorem exists_renderEdge_eq (edge : Edge) : ∃ rest, edge.rule.toList <+: rest ∧
    renderEdge edge = "build ".toList ++ (joinPaths edge.outputs ++ [':', ' '] ++ rest) := by
  refine ⟨edge.rule.toList ++ (pathList (words edge) ++ ['\n'] ++
    edge.assignments.entries.flatMap
      (fun (key, value) => variableLine key (escapeValue value.toList)) ++ ['\n']),
    List.prefix_append .., ?_⟩
  rw [renderEdge_eq_words]
  generalize "build ".toList = word
  simp only [List.append_assoc]

/-- Whatever outputs are made of and whatever follows, they are read back from the text that an edge
has for them, and the text that is left is that from the blank before the rule on. -/
theorem readPaths_outputs {outputs : List String} (hne : outputs ≠ []) :
    (∀ rest, readPaths (joinPaths outputs ++ [':', ' '] ++ rest) =
      some (outputs.map String.toList, ' ' :: rest)) ∧
    ∀ edge : Edge, edge.outputs = outputs → ∃ rest, edge.rule.toList <+: rest ∧
      renderEdge edge = "build ".toList ++ (joinPaths outputs ++ [':', ' '] ++ rest) := by
  constructor
  · intro rest
    rw [List.append_assoc, List.cons_append]
    exact readPaths_joinPaths hne (' ' :: rest)
  · rintro edge rfl
    exact exists_renderEdge_eq edge

/-- An empty path, one that ends in a `$`, and one of a blank and a colon. -/
theorem readPaths_outputs_sample : ["", "a$", " :"] ≠ [] ∧
    joinPaths ["", "a$", " :"] = " a$$ $ $:".toList ∧
    (∀ rest, readPaths (joinPaths ["", "a$", " :"] ++ [':', ' '] ++ rest) =
      some ([[], ['a', '$'], [' ', ':']], ' ' :: rest)) ∧
    ∃ rest, renderEdge { Sample.copy "b" "x" with outputs := ["", "a$", " :"] } =
      "build ".toList ++ (joinPaths ["", "a$", " :"] ++ [':', ' '] ++ rest) := by
  have hne : ["", "a$", " :"] ≠ [] := by decide
  obtain ⟨hread, hwritten⟩ := readPaths_outputs hne
  obtain ⟨rest, -, htext⟩ :=
    hwritten { Sample.copy "b" "x" with outputs := ["", "a$", " :"] } rfl
  exact ⟨hne, by decide, hread, rest, htext⟩

/-- No path at all is written like an empty one. -/
example : joinPaths [] = joinPaths [""] := by decide

/-! ## Edges of one command -/

/-- Two edges that run the same rule with the same values to make the same files. -/
structure SameCommand (edge other : Edge) : Prop where
  rule : edge.rule = other.rule
  outputs : edge.outputs = other.outputs
  assignments : edge.assignments = other.assignments

/-- Two edges with the same inputs that wait for the same files. -/
def SameFiles (edge other : Edge) : Prop :=
  edge.inputs = other.inputs ∧ edge.implicit = other.implicit

/-- Files that the one edge waits for are inputs of the other, after a file called `|`. -/
def Moves (edge other : Edge) : Prop :=
  ∃ moved, other.inputs = edge.inputs ++ "|" :: moved ∧ edge.implicit ≠ [] ∧
    edge.implicit = moved ++ waitWords other.implicit

theorem renderEdge_eq_iff {edge other : Edge} (h : SameCommand edge other) :
    renderEdge edge = renderEdge other ↔ words edge = words other := by
  rw [renderEdge_eq_words, renderEdge_eq_words, h.rule, h.outputs, h.assignments]
  generalize "build ".toList = word
  simp only [List.append_assoc, List.append_cancel_left_eq, List.append_cancel_right_eq]
  exact ⟨fun heq => pathList_injective heq, fun heq => by rw [heq]⟩

theorem sameFiles_or_moves {edge other : Edge} {between : List String}
    (hinputs : other.inputs = edge.inputs ++ between)
    (hwait : waitWords edge.implicit = between ++ waitWords other.implicit) :
    SameFiles edge other ∨ Moves edge other := by
  cases between with
  | nil => exact .inl ⟨by rw [hinputs, List.append_nil], waitWords_injective hwait⟩
  | cons word moved =>
    obtain ⟨hne, rfl, himplicit⟩ := waitWords_eq_cons_iff.mp hwait
    exact .inr ⟨moved, hinputs, hne, himplicit⟩

theorem Moves.words_eq {edge other : Edge} (h : Moves edge other) : words edge = words other := by
  obtain ⟨moved, hinputs, hne, himplicit⟩ := h
  have hwait : waitWords edge.implicit = "|" :: (moved ++ waitWords other.implicit) :=
    waitWords_eq_cons_iff.mpr ⟨hne, rfl, himplicit⟩
  rw [words, words, hwait, hinputs, List.append_assoc, List.cons_append]

/-- The words of two edges are the same if a bar is a file to the one of them and none to the other,
or if their files are the same. -/
theorem words_eq_iff {edge other : Edge} :
    words edge = words other ↔ SameFiles edge other ∨ Moves edge other ∨ Moves other edge := by
  constructor
  · intro h
    rcases List.append_eq_append_iff.mp h with ⟨between, hinputs, hwait⟩ | ⟨between, hinputs, hwait⟩
    · exact (sameFiles_or_moves hinputs hwait).imp id .inl
    · rcases sameFiles_or_moves hinputs hwait with hsame | hmoves
      · exact .inl ⟨hsame.1.symm, hsame.2.symm⟩
      · exact .inr (.inr hmoves)
  · rintro (⟨hinputs, himplicit⟩ | hmoves | hmoves)
    · rw [words, words, hinputs, himplicit]
    · exact hmoves.words_eq
    · exact hmoves.words_eq.symm

theorem Moves.bar_mem {edge other : Edge} (h : Moves edge other) : "|" ∈ other.inputs := by
  obtain ⟨moved, hinputs, -⟩ := h
  simp [hinputs]

/-- The edge that is given what another one waits for, behind a file called `|`. -/
def barred (edge : Edge) : Edge :=
  { edge with inputs := edge.inputs ++ "|" :: edge.implicit, implicit := [] }

theorem moves_barred {edge : Edge} (h : edge.implicit ≠ []) : Moves edge (barred edge) :=
  ⟨edge.implicit, rfl, h, (List.append_nil _).symm⟩

theorem checkEdge_barred {rules : RuleTable} {edge : Edge} (h : rules.checkEdge edge = .ok ()) :
    rules.checkEdge (barred edge) = .ok () := by
  obtain ⟨hinputs, himplicit, houtputs, hentries⟩ :=
    RuleTable.lineBreakField?_eq_none.mp (RuleTable.lineBreakField?_of_checkEdge h)
  refine RuleTable.checkEdge_of_lineBreakField? h rfl rfl
    (RuleTable.lineBreakField?_eq_none.mpr ⟨fun path hpath => ?_, by simp [barred], houtputs,
      hentries⟩)
  rcases List.mem_append.mp hpath with hpath | hpath
  · exact hinputs path hpath
  · rcases List.mem_cons.mp hpath with rfl | hpath
    · decide
    · exact himplicit path hpath

/-- How far the text of an edge tells what the edge is given from what it waits for. -/
structure ToldApart (rules : RuleTable) (edge : Edge) : Prop where
  text_eq_iff : ∀ other, SameCommand edge other →
    (renderEdge edge = renderEdge other ↔ SameFiles edge other ∨ Moves edge other ∨ Moves other edge)
  /-- Edges that are not given a file called `|` are told apart. -/
  apart : "|" ∉ edge.inputs → ∀ other, SameCommand edge other → "|" ∉ other.inputs →
    renderEdge edge = renderEdge other → SameFiles edge other
  /-- Every edge that waits for files has a twin that waits for none. -/
  twin : edge.implicit ≠ [] → rules.checkEdge edge = .ok () →
    ∃ other, rules.checkEdge other = .ok () ∧ SameCommand edge other ∧
      renderEdge edge = renderEdge other ∧ ¬ SameFiles edge other

/-- Whatever paths are made of: which edges of a command have the same text. -/
theorem toldApart (rules : RuleTable) (edge : Edge) : ToldApart rules edge where
  text_eq_iff other hsame := (renderEdge_eq_iff hsame).trans words_eq_iff
  apart hbar other hsame hother htext := by
    rcases words_eq_iff.mp ((renderEdge_eq_iff hsame).mp htext) with h | h | h
    · exact h
    · exact absurd h.bar_mem hother
    · exact absurd h.bar_mem hbar
  twin hwaits hcheck := by
    have hsame : SameCommand edge (barred edge) := ⟨rfl, rfl, rfl⟩
    refine ⟨barred edge, checkEdge_barred hcheck, hsame,
      (renderEdge_eq_iff hsame).mpr (moves_barred hwaits).words_eq, fun h => hwaits h.2⟩

/-- Edges that pass the check and differ only in files that they are given or wait for have
different texts. -/
def KeepsFilesApart (rules : RuleTable) : Prop :=
  ∀ edge other, rules.checkEdge edge = .ok () → rules.checkEdge other = .ok () →
    SameCommand edge other → renderEdge edge = renderEdge other → SameFiles edge other

end Ninja

namespace Sample

/-- An edge that waits for a file. -/
def waiting : Edge := { copy "a" "x" with implicit := ["b"] }

/-- An edge that is given three files, one called `|`. -/
def given : Edge := { copy "a" "x" with inputs := ["a", "|", "b"] }

end Sample

theorem Ninja.toldApart_sample : ∃ rules, Sample.copying = .ok rules ∧
    rules.checkEdge Sample.waiting = .ok () ∧ Sample.waiting.implicit ≠ [] ∧
    "|" ∉ Sample.waiting.inputs ∧ ToldApart rules Sample.waiting ∧
    ∃ other, rules.checkEdge other = .ok () ∧ SameCommand Sample.waiting other ∧
      renderEdge Sample.waiting = renderEdge other ∧ ¬ SameFiles Sample.waiting other := by
  have hruns : (Sample.copying.toOption.map fun rules =>
      (rules.checkEdge Sample.waiting).toOption) = some (some ()) := by decide
  obtain ⟨rules, hrules, hcheck⟩ := Option.map_eq_some_iff.mp hruns
  replace hcheck := eq_ok_of_toOption hcheck
  have hwaits : Sample.waiting.implicit ≠ [] := by decide
  exact ⟨rules, eq_ok_of_toOption hrules, hcheck, hwaits, by decide,
    toldApart rules Sample.waiting, (toldApart rules Sample.waiting).twin hwaits hcheck⟩

/-- An input called `|` is read as the bar before the files to wait for. -/
theorem Ninja.not_keepsFilesApart : ∃ rules, Sample.copying = .ok rules ∧
    rules.checkEdge Sample.given = .ok () ∧ rules.checkEdge Sample.waiting = .ok () ∧
    renderEdge Sample.given = renderEdge Sample.waiting ∧
    renderEdge Sample.given = "build x: cp a | b\n\n".toList ∧ ¬ KeepsFilesApart rules := by
  have hruns : (Sample.copying.toOption.map fun rules =>
      ((rules.checkEdge Sample.given).toOption, (rules.checkEdge Sample.waiting).toOption)) =
      some (some (), some ()) := by decide
  obtain ⟨rules, hrules, hchecks⟩ := Option.map_eq_some_iff.mp hruns
  obtain ⟨hgiven, hwaiting⟩ := Prod.mk.inj hchecks
  replace hgiven := eq_ok_of_toOption hgiven
  replace hwaiting := eq_ok_of_toOption hwaiting
  have htext : renderEdge Sample.given = renderEdge Sample.waiting := by decide
  refine ⟨rules, eq_ok_of_toOption hrules, hgiven, hwaiting, htext, by decide, fun hkeeps => ?_⟩
  have hfiles := hkeeps _ _ hgiven hwaiting ⟨rfl, rfl, rfl⟩ htext
  exact absurd hfiles.2 (by decide)

end BuildGraph
