import BuildGraph.Ninja
import BuildGraph.Proofs.Template
import Mathlib.Data.List.Chain

/-!
# Escapes and templates

A build file has two escapes, one for paths and one for values, and each puts a `$` before some
characters. Templates undo both: segments that are written with either escape, variables in braces,
are read back (`parse_inverts_write`). They are read back just as they were if they are in the form
that reading gives, in which no literal is empty or next to another one.

Neither escape does anything about line breaks, and a template with one of those is refused.
-/

namespace BuildGraph

/-! ## Segments -/

namespace Segment

/-- Whether a segment is literal text. -/
def IsLiteral : Segment → Prop
  | .literal _ => True
  | .variable _ => False

instance : DecidablePred IsLiteral
  | .literal _ => .isTrue trivial
  | .variable _ => .isFalse id

/-- A literal is not empty and holds no line break. A variable has a name, made of letters, digits,
`_`, `.` and `-`. -/
def Proper : Segment → Prop
  | .literal text => text ≠ "" ∧ hasLineBreak text = false
  | .variable name => name ≠ "" ∧ ∀ c ∈ name.toList, c.isAlphanum = true ∨ c ∈ ['_', '.', '-']

instance : DecidablePred Proper
  | .literal text => inferInstanceAs (Decidable (text ≠ "" ∧ hasLineBreak text = false))
  | .variable name =>
    -- the characters of the name are looked at, not all that there are
    @instDecidableAnd (name ≠ "") (∀ c ∈ name.toList, c.isAlphanum = true ∨ c ∈ ['_', '.', '-'])
      inferInstance (List.decidableBAll _ _)

/-- The pieces of a segment. -/
def pieces : Segment → List Template.Piece
  | .literal text => text.toList.map .char
  | .variable name => [.variable name]

end Segment

namespace Template

/-- Segments as reading gives them: each is proper, and no two literals stand side by side. -/
structure Normalized (segments : List Segment) : Prop where
  proper : ∀ segment ∈ segments, segment.Proper
  apart : segments.IsChain fun a b => ¬ (a.IsLiteral ∧ b.IsLiteral)

instance (segments : List Segment) : Decidable (Normalized segments) :=
  decidable_of_iff ((∀ segment ∈ segments, segment.Proper) ∧
      segments.IsChain fun a b => ¬ (a.IsLiteral ∧ b.IsLiteral))
    ⟨fun h => ⟨h.1, h.2⟩, fun h => ⟨h.proper, h.apart⟩⟩

theorem normalized_nil : Normalized [] := ⟨by simp, .nil⟩

theorem normalized_cons {segment : Segment} {rest : List Segment} :
    Normalized (segment :: rest) ↔ segment.Proper ∧
      (∀ next ∈ rest.head?, ¬ (segment.IsLiteral ∧ next.IsLiteral)) ∧ Normalized rest := by
  constructor
  · rintro ⟨hproper, hapart⟩
    obtain ⟨hsegment, hrest⟩ := List.forall_mem_cons.mp hproper
    obtain ⟨hnext, hapart⟩ := List.isChain_cons.mp hapart
    exact ⟨hsegment, hnext, hrest, hapart⟩
  · rintro ⟨hsegment, hnext, hrest, hapart⟩
    exact ⟨List.forall_mem_cons.mpr ⟨hsegment, hrest⟩, List.isChain_cons.mpr ⟨hnext, hapart⟩⟩

theorem isBracedNameChar_iff {c : Char} :
    isBracedNameChar c = true ↔ c.isAlphanum = true ∨ c ∈ ['_', '.', '-'] := by
  simp only [isBracedNameChar, isNameChar, Bool.or_eq_true, beq_iff_eq, List.mem_cons,
    List.not_mem_nil, or_false]
  tauto

theorem proper_literal {c : Char} {cs : List Char} :
    (Segment.literal (String.ofList (c :: cs))).Proper ↔
      isLineBreak c = false ∧ ∀ x ∈ cs, isLineBreak x = false := by
  simp [Segment.Proper, hasLineBreak]

/-- A well-formed piece before segments as reading gives them makes such segments. -/
theorem normalized_consPiece {piece : Piece} {rest : List Segment} (hpiece : piece.Proper)
    (hrest : Normalized rest) : Normalized (consPiece piece rest) := by
  fun_cases consPiece piece rest with
  | case1 c text rest =>
    obtain ⟨htext, hnext, hrest⟩ := normalized_cons.mp hrest
    refine normalized_cons.mpr ⟨proper_literal.mpr ⟨hpiece, ?_⟩, hnext, hrest⟩
    simpa [hasLineBreak] using htext.2
  | case2 c _ hnone =>
    refine normalized_cons.mpr ⟨proper_literal.mpr ⟨hpiece, by simp⟩, ?_, hrest⟩
    rintro (text | name) hnext ⟨-, hliteral⟩
    · obtain ⟨rest', rfl⟩ := List.head?_eq_some_iff.mp hnext
      exact hnone text rest' rfl
    · exact hliteral
  | case3 name _ =>
    refine normalized_cons.mpr ⟨⟨hpiece.1, fun c hc => ?_⟩, fun _ _ h => h.1, hrest⟩
    exact isBracedNameChar_iff.mp (hpiece.2 c hc)

theorem normalized_segments {ps : List Piece} (h : ∀ piece ∈ ps, piece.Proper) :
    Normalized (segments ps) := by
  induction ps with
  | nil => exact normalized_nil
  | cons piece ps ih =>
    obtain ⟨hpiece, hps⟩ := List.forall_mem_cons.mp h
    exact normalized_consPiece hpiece (ih hps)

/-- Literal characters before anything but a literal are one literal. -/
theorem segments_chars {cs : List Char} (hcs : cs ≠ []) {ps : List Piece}
    (hnext : ∀ next ∈ (segments ps).head?, ¬ next.IsLiteral) :
    segments (cs.map .char ++ ps) = .literal (String.ofList cs) :: segments ps := by
  induction cs with
  | nil => exact absurd rfl hcs
  | cons c cs ih =>
    change consPiece (.char c) (segments (cs.map .char ++ ps)) = _
    cases cs with
    | nil =>
      change consPiece (.char c) (segments ps) = .literal (String.ofList [c]) :: segments ps
      rw [← String.singleton_eq_ofList]
      cases hsegments : segments ps with
      | nil => rfl
      | cons next rest =>
        cases next with
        | literal text => exact absurd trivial (hnext (.literal text) (by simp [hsegments]))
        | «variable» name => rfl
    | cons d cs =>
      rw [ih (by simp), consPiece, String.toList_ofList]

/-- Segments as reading gives them are the segments of their pieces. -/
theorem segments_flatMap_pieces {parts : List Segment} (h : Normalized parts) :
    segments (parts.flatMap Segment.pieces) = parts := by
  induction parts with
  | nil => rfl
  | cons part parts ih =>
    obtain ⟨hpart, hnext, hparts⟩ := normalized_cons.mp h
    rw [List.flatMap_cons]
    cases part with
    | literal text =>
      have hne : text.toList ≠ [] := by simpa using hpart.1
      rw [Segment.pieces, segments_chars hne, ih hparts, String.ofList_toList]
      rw [ih hparts]
      exact fun next hmem hliteral => hnext next hmem ⟨trivial, hliteral⟩
    | «variable» name =>
      change consPiece (.variable name) (segments (parts.flatMap Segment.pieces)) = _
      rw [ih hparts, consPiece]

/-! ## Escaped text -/

/-- Puts a `$` before certain characters, the `$` among them, and only before characters that it
makes literal in a template. -/
def IsEscape (escape : List Char → List Char) : Prop :=
  ∃ special : Char → Bool, special '$' = true ∧ (∀ c, special c = true → isEscapable c = true) ∧
    ∀ cs, escape cs = cs.flatMap fun c => if special c then ['$', c] else [c]

theorem isEscape_escapePath : IsEscape Ninja.escapePath :=
  ⟨Ninja.isPathSpecial, by decide, fun _ hc => hc, fun _ => rfl⟩

theorem isEscape_escapeValue : IsEscape Ninja.escapeValue := by
  refine ⟨(· == '$'), by decide, fun c hc => ?_, fun cs => ?_⟩
  · simp only [beq_iff_eq] at hc
    subst hc
    decide
  · refine congrArg cs.flatMap (funext fun c => ?_)
    by_cases hc : c = '$'
    · subst hc
      rfl
    · rw [if_neg (by simpa using hc), if_neg (by simpa using hc)]

section Escapes

variable {escape : List Char → List Char} {cs : List Char} {done : List Piece}

/-- Escaped text is read as its characters. -/
theorem Reaches.escaped (hescape : IsEscape escape) (h : Reaches cs done .text) {text : List Char}
    (htext : ∀ c ∈ text, isLineBreak c = false) :
    Reaches (cs ++ escape text) (done ++ text.map .char) .text := by
  obtain ⟨special, hdollar, hspecial, hflat⟩ := hescape
  rw [hflat]
  induction text generalizing cs done with
  | nil => simpa using h
  | cons c text ih =>
    obtain ⟨hc, htext⟩ := List.forall_mem_cons.mp htext
    have hread : Reaches (cs ++ if special c then ['$', c] else [c]) (done ++ [.char c]) .text := by
      by_cases hescaped : special c = true
      · have hstep : Template.step (byteLength (cs ++ ['$'])) (.dollar (byteLength cs)) c =
            .ok ([.char c], .text) := by
          rw [Template.step, if_pos (hspecial c hescaped)]
        have hread := (h.dollar rfl).step hstep
        rw [if_pos hescaped]
        rwa [List.append_assoc, List.append_nil] at hread
      · have hne : c ≠ '$' := by
          rintro rfl
          exact hescaped hdollar
        have hstep : Template.step (byteLength cs) .text c = .ok ([.char c], .text) := by
          rw [Template.step, stepText, if_neg (by simpa [isLineBreak] using hc),
            if_neg (by simpa using hne)]
        simpa [hescaped] using h.step hstep
    have hrest := ih hread htext
    rw [List.append_assoc, List.append_assoc] at hrest
    simpa using hrest

/-- A variable in braces is read as that variable. -/
theorem Reaches.braced (h : Reaches cs done .text) {name : List Char} (hne : name ≠ [])
    (hname : ∀ c ∈ name, isBracedNameChar c = true) :
    Reaches (cs ++ '$' :: '\x7b' :: (name ++ ['\x7d']))
      (done ++ [.variable (String.ofList name)]) .text := by
  have hbrace : '\x7d' ∉ name := fun hmem => absurd (hname _ hmem) (by decide)
  have hinside := (h.brace rfl).inside hbrace
  have hstep : Template.step (byteLength (cs ++ ['$', '\x7b'] ++ name))
      (.braced (byteLength cs) (name.reverse ++ [])) '\x7d' =
      .ok ([.variable (String.ofList name)], .text) := by
    rw [Template.step, if_pos (beq_self_eq_true _), checkBraced, if_neg (by simpa using hne),
      if_pos (by simpa using hname), variablePiece, List.append_nil, List.reverse_reverse]
    rfl
  have hread := hinside.step hstep
  rw [List.append_nil] at hread
  simpa using hread

end Escapes

/-! ## Written segments -/

/-- A segment in a template: a literal with an escape, a variable in braces. -/
def writeSegment (escape : List Char → List Char) : Segment → List Char
  | .literal text => escape text.toList
  | .variable name => '$' :: '\x7b' :: (name.toList ++ ['\x7d'])

/-- The template that segments are written as. -/
def write (escape : List Char → List Char) (segments : List Segment) : String :=
  String.ofList (segments.flatMap (writeSegment escape))

section Escapes

variable {escape : List Char → List Char}

theorem Reaches.segments (hescape : IsEscape escape) {cs : List Char} {done : List Piece}
    (h : Reaches cs done .text) {parts : List Segment} (hparts : ∀ part ∈ parts, part.Proper) :
    Reaches (cs ++ parts.flatMap (writeSegment escape)) (done ++ parts.flatMap Segment.pieces)
      .text := by
  induction parts generalizing cs done with
  | nil => simpa using h
  | cons part parts ih =>
    obtain ⟨hpart, hparts⟩ := List.forall_mem_cons.mp hparts
    have hread : Reaches (cs ++ writeSegment escape part) (done ++ part.pieces) .text := by
      cases part with
      | literal text => exact h.escaped hescape (by simpa [hasLineBreak] using hpart.2)
      | «variable» name =>
        have hname : name.toList ≠ [] := by simpa using hpart.1
        have hread := h.braced hname fun c hc => isBracedNameChar_iff.mpr (hpart.2 c hc)
        rwa [String.ofList_toList] at hread
    rw [List.flatMap_cons, List.flatMap_cons, ← List.append_assoc, ← List.append_assoc]
    exact ih hread hparts

/-- Written segments are read back. -/
theorem parse_write (hescape : IsEscape escape) {parts : List Segment} (h : Normalized parts) :
    parse (write escape parts) = .ok parts := by
  have hreaches := Reaches.start.segments hescape h.proper
  have hpieces := hreaches.pieces_append []
  rw [List.append_nil, List.nil_append, List.nil_append] at hpieces
  rw [parse, write, String.toList_ofList, hpieces]
  simp [Template.pieces, finish, Except.map, segments_flatMap_pieces h]

/-- Escaped text with a line break is no template: the reader comes to the first one. -/
theorem exists_parse_escaped_eq_error (hescape : IsEscape escape) {text : String}
    (h : hasLineBreak text = true) :
    ∃ position, parse (String.ofList (escape text.toList)) = .error (.lineBreak position) := by
  obtain ⟨c, hfind⟩ := Option.isSome_iff_exists.mp (List.find?_isSome.mpr (List.any_eq_true.mp h))
  obtain ⟨hbreak, before, after, hsplit, hbefore⟩ := List.find?_eq_some_iff_append.mp hfind
  replace hbefore : ∀ x ∈ before, isLineBreak x = false := by simpa using hbefore
  have hreaches := Reaches.start.escaped hescape hbefore
  obtain ⟨special, -, hspecial, hflat⟩ := hescape
  have hplain : special c = false := by
    by_contra hc
    rw [isLineBreak_of_isEscapable (hspecial c (by simpa using hc))] at hbreak
    cases hbreak
  have herror := hreaches.error_of_step (step_lineBreak rfl hbreak _) (escape after)
  refine ⟨byteLength (escape before), ?_⟩
  rw [parse, map_eq_error_iff, String.toList_ofList, hsplit, hflat, List.flatMap_append,
    List.flatMap_cons, hplain, ← hflat, ← hflat]
  exact herror

/-- Reading a template undoes an escape, as far as what is written is text of a template at all. -/
structure Undoes (escape : List Char → List Char) : Prop where
  parse_write : ∀ parts, Normalized parts → parse (write escape parts) = .ok parts
  lineBreak : ∀ text, hasLineBreak text = true →
    ∃ position, parse (String.ofList (escape text.toList)) = .error (.lineBreak position)

theorem undoes_of_isEscape (hescape : IsEscape escape) : Undoes escape where
  parse_write _ := parse_write hescape
  lineBreak _ := exists_parse_escaped_eq_error hescape

end Escapes

/-- Reading gives segments in one form, and all segments of that form; written with either escape
they are read back. -/
theorem parse_inverts_write :
    (∀ parts, (∃ text, parse text = .ok parts) ↔ Normalized parts) ∧
      Undoes Ninja.escapeValue ∧ Undoes Ninja.escapePath := by
  refine ⟨fun parts => ⟨?_, fun h => ?_⟩, undoes_of_isEscape isEscape_escapeValue,
    undoes_of_isEscape isEscape_escapePath⟩
  · rintro ⟨text, h⟩
    obtain ⟨ps, hps, rfl⟩ := map_eq_ok h
    exact normalized_segments (proper_of_pieces hps)
  · exact ⟨_, parse_write isEscape_escapeValue h⟩

end Template

namespace Sample

/-- Text that both escapes change, that one does or that none does, next to variables. -/
def mixed : List Segment :=
  [.literal "ü$", .variable "tool.path", .literal " $$: ", .variable "in", .variable "out"]

end Sample

theorem Template.parse_inverts_write_sample : Normalized Sample.mixed ∧
    write Ninja.escapeValue Sample.mixed = "ü$$$\x7btool.path\x7d $$$$: $\x7bin\x7d$\x7bout\x7d" ∧
    parse (write Ninja.escapeValue Sample.mixed) = .ok Sample.mixed ∧
    write Ninja.escapePath Sample.mixed =
      "ü$$$\x7btool.path\x7d$ $$$$$:$ $\x7bin\x7d$\x7bout\x7d" ∧
    parse (write Ninja.escapePath Sample.mixed) = .ok Sample.mixed ∧
    hasLineBreak "$\n" = true ∧ ∃ position,
      parse (String.ofList (Ninja.escapePath "$\n".toList)) = .error (.lineBreak position) := by
  have hnormalized : Normalized Sample.mixed := by decide
  obtain ⟨-, hvalue, hpath⟩ := parse_inverts_write
  exact ⟨hnormalized, by decide, hvalue.parse_write _ hnormalized, by decide,
    hpath.parse_write _ hnormalized, by decide, hpath.lineBreak _ (by decide)⟩

end BuildGraph
