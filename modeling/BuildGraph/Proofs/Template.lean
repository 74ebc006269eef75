import BuildGraph.Artifact
import BuildGraph.Proofs.Loading
import BuildGraph.Template

/-!
# Reading templates

A template is read one character at a time, so what has been read of it is a text, the pieces it
completed and the state it led to (`Reaches`). The rest of the template is read from there, whatever
it is (`Reaches.pieces_append`).

Two facts hold wherever a reader stands. What it has completed, and the variable it is in, is
well-formed (`Reaches.proper`). And if a construct is open, all before the `$` that opened it is a
template (`Reaches.exists_opened`).
-/

namespace BuildGraph.Template

/-- The number of bytes of a text in UTF-8. -/
def byteLength (cs : List Char) : Nat := (String.ofList cs).utf8ByteSize

theorem byteLength_snoc (cs : List Char) (c : Char) :
    byteLength (cs ++ [c]) = byteLength cs + c.utf8Size := by
  rw [byteLength, String.ofList_append, String.utf8ByteSize_append, ← String.singleton_eq_ofList,
    String.utf8ByteSize_singleton, byteLength]

/-! ## One character -/

section Steps

variable {position : Nat} {state next : State} {c : Char} {more : List Piece}

/-- What a character does. Between constructs (`finish` says what is complete there) it goes on with
a name or with blanks, is literal, or opens a construct; in a construct it goes on with it or
completes it. -/
inductive Move (position : Nat) : State → Char → List Piece → State → Prop
  | literal {state : State} {last : List Piece} {c : Char} : finish state = .ok last → c ≠ '$' →
    isLineBreak c = false → Move position state c (last ++ [.char c]) .text
  | dollar {state : State} {last : List Piece} : finish state = .ok last →
    Move position state '$' last (.dollar position)
  | name {name : List Char} {c : Char} : isNameChar c = true →
    Move position (.bare name) c [] (.bare (c :: name))
  | blank : Move position .continued ' ' [] .continued
  | escape {start : Nat} {c : Char} : isEscapable c = true →
    Move position (.dollar start) c [.char c] .text
  | continuation {start : Nat} : Move position (.dollar start) '\n' [] .continued
  | bare {start : Nat} {c : Char} : isNameChar c = true →
    Move position (.dollar start) c [] (.bare [c])
  | brace {start : Nat} : Move position (.dollar start) '\x7b' [] (.braced start [])
  | inside {start : Nat} {name : List Char} {c : Char} : c ≠ '\x7d' →
    Move position (.braced start name) c [] (.braced start (c :: name))
  | close {start : Nat} {name : List Char} : name ≠ [] →
    (∀ x ∈ name, isBracedNameChar x = true) →
    Move position (.braced start name) '\x7d' [variablePiece name] .text

theorem move_of_stepText {last : List Piece} (hlast : finish state = .ok last)
    (h : stepText position c = .ok (more, next)) : Move position state c (last ++ more) next := by
  rw [stepText] at h
  split at h
  next => cases h
  next hbreak =>
    split at h
    next hdollar =>
      cases h
      rw [beq_iff_eq] at hdollar
      subst hdollar
      rw [List.append_nil]
      exact .dollar hlast
    next hdollar =>
      cases h
      exact .literal hlast (by simpa using hdollar) (by simpa [isLineBreak] using hbreak)

theorem move_of_checkBraced {start : Nat} {name : List Char} {piece : Piece}
    (h : checkBraced start name = .ok piece) :
    Move position (.braced start name) '\x7d' [piece] .text := by
  rw [checkBraced] at h
  split at h
  next => cases h
  next hne =>
    split at h
    next hall =>
      cases h
      exact .close (by simpa using hne) (List.all_eq_true.mp hall)
    next => cases h

/-- A character that is read does one of these. -/
theorem move_of_step (h : step position state c = .ok (more, next)) :
    Move position state c more next := by
  cases state with
  | text =>
    have hlast : finish .text = .ok [] := rfl
    exact move_of_stepText hlast h
  | dollar start =>
    rw [step] at h
    split at h
    next hc => cases h; exact .escape hc
    next =>
      split at h
      next hc => cases h; rw [beq_iff_eq] at hc; subst hc; exact .continuation
      next =>
        split at h
        next hc => cases h; rw [beq_iff_eq] at hc; subst hc; exact .brace
        next =>
          split at h
          next hc => cases h; exact .bare hc
          next => cases h
  | bare name =>
    rw [step] at h
    split at h
    next hc => cases h; exact .name hc
    next =>
      obtain ⟨⟨done, after⟩, htext, heq⟩ := map_eq_ok h
      cases heq
      have hlast : finish (.bare name) = .ok [variablePiece name] := rfl
      exact move_of_stepText hlast htext
  | braced start name =>
    rw [step] at h
    split at h
    next hc =>
      obtain ⟨piece, hpiece, heq⟩ := map_eq_ok h
      cases heq
      rw [beq_iff_eq] at hc
      subst hc
      exact move_of_checkBraced hpiece
    next hc => cases h; exact .inside (by simpa using hc)
  | continued =>
    rw [step] at h
    split at h
    next hc => cases h; rw [beq_iff_eq] at hc; subst hc; exact .blank
    next =>
      have hlast : finish .continued = .ok [] := rfl
      exact move_of_stepText hlast h

end Steps

/-! ## The start of a text -/

/-- From the start of a text a reader comes to a state, having completed pieces. -/
inductive Reaches : List Char → List Piece → State → Prop
  | start : Reaches [] [] .text
  | step {cs : List Char} {done more : List Piece} {state next : State} {c : Char} :
    Reaches cs done state → step (byteLength cs) state c = .ok (more, next) →
      Reaches (cs ++ [c]) (done ++ more) next

/-- A text that is a template. -/
def Readable (cs : List Char) : Prop := ∃ ps, pieces 0 .text cs = .ok ps

theorem readable_iff {s : String} : Readable s.toList ↔ ∃ segments, parse s = .ok segments := by
  rw [Readable, parse]
  cases pieces 0 .text s.toList <;> simp [Except.map]

section Pieces

variable {position : Nat} {state next : State} {c : Char} {more : List Piece}

theorem pieces_cons_ok (h : step position state c = .ok (more, next)) (rest : List Char) :
    pieces position state (c :: rest) =
      (pieces (position + c.utf8Size) next rest).map (more ++ ·) := by
  rw [pieces, h]
  cases hrest : pieces (position + c.utf8Size) next rest <;>
    simp [bind, Except.bind, pure, Except.pure, Except.map, hrest]

theorem pieces_cons_error {e : TemplateError} (h : step position state c = .error e)
    (rest : List Char) : pieces position state (c :: rest) = .error e := by
  rw [pieces, h]
  rfl

end Pieces

namespace Reaches

variable {cs rest : List Char} {done : List Piece} {state : State}

/-- The rest of a text is read from the state that its start leads to. -/
theorem pieces_append (h : Reaches cs done state) (rest : List Char) :
    pieces 0 .text (cs ++ rest) = (pieces (byteLength cs) state rest).map (done ++ ·) := by
  induction h generalizing rest with
  | start => cases hrest : pieces 0 .text rest <;> simp [byteLength, hrest, Except.map]
  | @step cs done more state next c _ hstep ih =>
    rw [List.append_assoc, List.singleton_append, ih, pieces_cons_ok hstep, byteLength_snoc]
    cases pieces (byteLength cs + c.utf8Size) next rest <;> simp [Except.map]

theorem readable {last : List Piece} (h : Reaches cs done state) (hlast : finish state = .ok last) :
    Readable cs := by
  have hpieces := h.pieces_append []
  rw [List.append_nil, pieces, hlast] at hpieces
  exact ⟨_, hpieces⟩

/-- What is read to its end leads to a state between constructs. -/
theorem exists_of_pieces (h : Reaches cs done state) {ps : List Piece}
    (hrest : pieces (byteLength cs) state rest = .ok ps) :
    ∃ more next last, Reaches (cs ++ rest) (done ++ more) next ∧ finish next = .ok last ∧
      ps = more ++ last := by
  induction rest generalizing cs done state ps with
  | nil => exact ⟨[], state, ps, by simpa using h, hrest, rfl⟩
  | cons c rest ih =>
    cases hstep : Template.step (byteLength cs) state c with
    | error e =>
      rw [pieces_cons_error hstep] at hrest
      cases hrest
    | ok result =>
      obtain ⟨more, next⟩ := result
      rw [pieces_cons_ok hstep, ← byteLength_snoc] at hrest
      obtain ⟨tail, htail, rfl⟩ := map_eq_ok hrest
      obtain ⟨more', last, tail', hreaches, hlast, rfl⟩ := ih (h.step hstep) htail
      refine ⟨more ++ more', last, tail', ?_, hlast, by rw [List.append_assoc]⟩
      rw [← List.append_assoc, List.append_cons]
      exact hreaches

end Reaches

/-- A template is read to a state between constructs. -/
theorem Readable.exists_reaches {cs : List Char} (h : Readable cs) :
    ∃ done state last, Reaches cs done state ∧ finish state = .ok last := by
  obtain ⟨ps, hps⟩ := h
  obtain ⟨done, state, last, hreaches, hlast, -⟩ := Reaches.start.exists_of_pieces hps
  exact ⟨done, state, last, hreaches, hlast⟩

/-! ## Reading on -/

theorem step_dollar {state : State} {last : List Piece} (hlast : finish state = .ok last)
    (position : Nat) : step position state '$' = .ok (last, .dollar position) := by
  cases state <;> cases hlast <;> rfl

theorem step_lineBreak {state : State} {last : List Piece} (hlast : finish state = .ok last)
    {c : Char} (hc : isLineBreak c = true) (position : Nat) :
    step position state c = .error (.lineBreak position) := by
  simp only [isLineBreak, Bool.or_eq_true, beq_iff_eq] at hc
  rcases hc with rfl | rfl <;> cases state <;> cases hlast <;> rfl

namespace Reaches

variable {cs : List Char} {done : List Piece} {state : State}

/-- A `$` between constructs opens one. -/
theorem dollar {last : List Piece} (h : Reaches cs done state) (hlast : finish state = .ok last) :
    Reaches (cs ++ ['$']) (done ++ last) (.dollar (byteLength cs)) :=
  h.step (step_dollar hlast _)

/-- `$` and a brace between constructs open a variable. -/
theorem brace {last : List Piece} (h : Reaches cs done state) (hlast : finish state = .ok last) :
    Reaches (cs ++ ['$', '\x7b']) (done ++ last) (.braced (byteLength cs) []) := by
  have hopen := (h.dollar hlast).step (c := '\x7b') rfl
  rwa [List.append_assoc, List.append_nil] at hopen

/-- A variable in braces goes on up to the closing one. -/
theorem inside {start : Nat} {name : List Char} (h : Reaches cs done (.braced start name))
    {more : List Char} (hmore : '\x7d' ∉ more) :
    Reaches (cs ++ more) done (.braced start (more.reverse ++ name)) := by
  induction more generalizing cs name with
  | nil => simpa using h
  | cons c more ih =>
    rw [List.mem_cons, not_or] at hmore
    have hstep : Template.step (byteLength cs) (.braced start name) c =
        .ok ([], .braced start (c :: name)) := by
      rw [Template.step, if_neg (by simpa using Ne.symm hmore.1)]
    have hnext := ih (by simpa using h.step hstep) hmore.2
    simpa using hnext

/-- A text whose next character is refused is refused. -/
theorem error_of_step {c : Char} {e : TemplateError} (h : Reaches cs done state)
    (hstep : Template.step (byteLength cs) state c = .error e) (rest : List Char) :
    pieces 0 .text (cs ++ c :: rest) = .error e := by
  rw [h.pieces_append, pieces_cons_error hstep]
  rfl

/-- A text that ends where it must not is refused. -/
theorem error_of_finish {e : TemplateError} (h : Reaches cs done state)
    (hfinish : finish state = .error e) : pieces 0 .text cs = .error e := by
  have hpieces := h.pieces_append []
  rwa [List.append_nil, pieces, hfinish] at hpieces

end Reaches

/-! ## What holds wherever a reader stands -/

/-- A literal character is no line break, and a variable has a name that can stand in braces. -/
def Piece.Proper : Piece → Prop
  | .char c => isLineBreak c = false
  | .variable name => name ≠ "" ∧ ∀ c ∈ name.toList, isBracedNameChar c = true

/-- What is collected of a name can be collected: without braces it is a name already, and in braces
the name is not complete. -/
def State.Proper : State → Prop
  | .bare name => name ≠ [] ∧ ∀ c ∈ name, isNameChar c = true
  | .braced _ name => '\x7d' ∉ name
  | _ => True

theorem isBracedNameChar_of_isNameChar {c : Char} (h : isNameChar c = true) :
    isBracedNameChar c = true := by
  simp [isBracedNameChar, h]

theorem isLineBreak_of_isEscapable {c : Char} (h : isEscapable c = true) :
    isLineBreak c = false := by
  simp only [isEscapable, Bool.or_eq_true, beq_iff_eq] at h
  rcases h with (rfl | rfl) | rfl <;> decide

theorem proper_variablePiece {name : List Char} (hne : name ≠ [])
    (h : ∀ c ∈ name, isBracedNameChar c = true) : (variablePiece name).Proper := by
  refine ⟨fun hempty => hne ?_, fun c hc => h c (by simpa using hc)⟩
  simpa using congrArg String.toList hempty

theorem State.Proper.of_finish {state : State} {last : List Piece} (h : state.Proper)
    (hlast : finish state = .ok last) : ∀ piece ∈ last, piece.Proper := by
  cases state <;> cases hlast
  case bare name =>
    simpa using proper_variablePiece h.1 fun c hc => isBracedNameChar_of_isNameChar (h.2 c hc)
  all_goals simp

theorem Move.proper {position : Nat} {state next : State} {c : Char} {more : List Piece}
    (h : Move position state c more next) (hstate : state.Proper) :
    (∀ piece ∈ more, piece.Proper) ∧ next.Proper := by
  cases h with
  | literal hlast _ hbreak =>
    refine ⟨fun piece hpiece => ?_, trivial⟩
    rcases List.mem_append.mp hpiece with hpiece | hpiece
    · exact hstate.of_finish hlast piece hpiece
    · obtain rfl := List.mem_singleton.mp hpiece
      exact hbreak
  | dollar hlast => exact ⟨hstate.of_finish hlast, trivial⟩
  | name hc => exact ⟨by simp, by simp, List.forall_mem_cons.mpr ⟨hc, hstate.2⟩⟩
  | blank => exact ⟨by simp, trivial⟩
  | escape hc =>
    exact ⟨List.forall_mem_singleton.mpr (isLineBreak_of_isEscapable hc), trivial⟩
  | continuation => exact ⟨by simp, trivial⟩
  | bare hc => exact ⟨by simp, by simp, by simpa using hc⟩
  | brace => exact ⟨by simp, List.not_mem_nil⟩
  | inside hc => exact ⟨by simp, fun hmem => (List.mem_cons.mp hmem).elim (hc ·.symm) hstate⟩
  | close hne hall => exact ⟨List.forall_mem_singleton.mpr (proper_variablePiece hne hall), trivial⟩

/-- What a reader has completed, and the variable it is in, is well-formed. -/
theorem Reaches.proper {cs : List Char} {done : List Piece} {state : State}
    (h : Reaches cs done state) : (∀ piece ∈ done, piece.Proper) ∧ state.Proper := by
  induction h with
  | start => exact ⟨by simp, trivial⟩
  | step _ hstep ih =>
    obtain ⟨hmore, hnext⟩ := (move_of_step hstep).proper ih.2
    refine ⟨fun piece hpiece => ?_, hnext⟩
    exact (List.mem_append.mp hpiece).elim (ih.1 piece) (hmore piece)

/-- The pieces of a template are well-formed. -/
theorem proper_of_pieces {cs : List Char} {ps : List Piece} (h : pieces 0 .text cs = .ok ps) :
    ∀ piece ∈ ps, piece.Proper := by
  obtain ⟨done, state, last, hreaches, hlast, rfl⟩ := Reaches.start.exists_of_pieces h
  obtain ⟨hdone, hstate⟩ := hreaches.proper
  intro piece hpiece
  exact (List.mem_append.mp hpiece).elim (hdone piece) (hstate.of_finish hlast piece)

/-! ## Open constructs -/

/-- The text of the construct that is open in a state. -/
def State.opened : State → List Char
  | .dollar _ => ['$']
  | .braced _ name => '$' :: '\x7b' :: name.reverse
  | _ => []

/-- Where the construct that is open in a state begins; if none is, where the reader stands. -/
def State.start (position : Nat) : State → Nat
  | .dollar start => start
  | .braced start _ => start
  | _ => position

/-- If a construct is open, all before it is a template, and its position is the length of that. -/
theorem Reaches.exists_opened {cs : List Char} {done : List Piece} {state : State}
    (h : Reaches cs done state) : ∃ before, cs = before ++ state.opened ∧
      state.start (byteLength cs) = byteLength before ∧ Readable before := by
  induction h with
  | start => exact ⟨[], rfl, rfl, Reaches.start.readable rfl⟩
  | @step cs done more state next c hreaches hstep ih =>
    have hnext := hreaches.step hstep
    cases move_of_step hstep with
    | dollar hlast => exact ⟨cs, rfl, rfl, hreaches.readable hlast⟩
    | brace =>
      obtain ⟨before, rfl, hstart, hbefore⟩ := ih
      exact ⟨before, by simp [State.opened], hstart, hbefore⟩
    | inside =>
      obtain ⟨before, rfl, hstart, hbefore⟩ := ih
      exact ⟨before, by simp [State.opened], hstart, hbefore⟩
    | literal | name | blank | escape | continuation | bare | close =>
      -- the character leads to a state between constructs
      exact ⟨_, (List.append_nil _).symm, rfl, hnext.readable rfl⟩

end BuildGraph.Template
