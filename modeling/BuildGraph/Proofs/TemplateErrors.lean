import BuildGraph.Proofs.Template

/-!
# Errors in templates

A text that is no template is one up to some byte, and at that byte a construct begins that cannot
be read. Which error is reported says which construct, and where (`parse_eq_error_iff`).

That nothing before the construct matters is what `Reaches` says: a reader that has come through a
template stands between constructs, and there the constructs that cannot be read are the same
whatever was read. That the error is about the first of them is shown along the text, a construct
that is open being the one that may still turn out to be the culprit.
-/

namespace BuildGraph.Template

/-- At a byte position begins a construct that cannot be read, and this is the error. -/
inductive Offends (position : Nat) : List Char → TemplateError → Prop
  | lineBreak {c : Char} {rest : List Char} : c = '\n' ∨ c = '\r' →
    Offends position (c :: rest) (.lineBreak position)
  /-- A `$` with nothing after it. -/
  | dangling : Offends position ['$'] .dangling
  /-- An open brace that nothing closes. -/
  | unclosed {rest : List Char} : '\x7d' ∉ rest →
    Offends position ('$' :: '\x7b' :: rest) (.unclosed position)
  | emptyName {rest : List Char} :
    Offends position ('$' :: '\x7b' :: '\x7d' :: rest) (.emptyName position)
  /-- Braces around a text with a character in it that no name holds. -/
  | invalidName {name rest : List Char} : '\x7d' ∉ name →
    (∃ c ∈ name, isBracedNameChar c = false) →
    Offends position ('$' :: '\x7b' :: (name ++ '\x7d' :: rest))
      (.invalidName position (String.ofList name))
  /-- A `$` before a character that begins no name, is not made literal by it and neither continues
  the line nor is a brace. -/
  | badEscape {c : Char} {rest : List Char} : isNameChar c = false →
    c ∉ ['$', ' ', ':', '\x7b', '\n'] →
    Offends position ('$' :: c :: rest) (.badEscape position c)

/-! ## Offending constructs are refused -/

theorem step_badEscape {c : Char} (hname : isNameChar c = false)
    (hc : c ∉ ['$', ' ', ':', '\x7b', '\n']) (position start : Nat) :
    step position (.dollar start) c = .error (.badEscape start c) := by
  simp only [List.mem_cons, List.not_mem_nil, or_false, not_or] at hc
  obtain ⟨hdollar, hblank, hcolon, hbrace, hbreak⟩ := hc
  rw [step, if_neg (by simp [isEscapable, hdollar, hblank, hcolon]), if_neg (by simpa using hbreak),
    if_neg (by simpa using hbrace), if_neg (by simp [hname])]

theorem step_invalidName {name : List Char} (h : ∃ c ∈ name, isBracedNameChar c = false)
    (position start : Nat) : step position (.braced start name.reverse) '\x7d' =
      .error (.invalidName start (String.ofList name)) := by
  obtain ⟨c, hc, hinvalid⟩ := h
  have hne : name.reverse ≠ [] := List.reverse_ne_nil_iff.mpr (List.ne_nil_of_mem hc)
  have hall : ¬ name.reverse.all isBracedNameChar = true := fun hall => by
    rw [List.all_eq_true.mp hall c (List.mem_reverse.mpr hc)] at hinvalid
    cases hinvalid
  rw [step, if_pos (beq_self_eq_true _), checkBraced, if_neg (by simpa using hne), if_neg hall,
    List.reverse_reverse]
  rfl

theorem Reaches.error_of_offends {before rest : List Char} {done last : List Piece} {state : State}
    {e : TemplateError} (h : Reaches before done state) (hlast : finish state = .ok last)
    (hoffends : Offends (byteLength before) rest e) :
    pieces 0 .text (before ++ rest) = .error e := by
  have hdollar := h.dollar hlast
  have hbrace := h.brace hlast
  cases hoffends with
  | lineBreak hc =>
    exact h.error_of_step (step_lineBreak hlast (by simpa [isLineBreak] using hc) _) _
  | dangling => exact hdollar.error_of_finish rfl
  | @unclosed rest hrest =>
    have hinside := hbrace.inside hrest
    rw [List.append_assoc] at hinside
    exact hinside.error_of_finish rfl
  | @emptyName rest =>
    have herror := hbrace.error_of_step (c := '\x7d') (e := .emptyName _) rfl rest
    rwa [List.append_assoc] at herror
  | @invalidName name rest hname hinvalid =>
    have hinside := hbrace.inside hname
    rw [List.append_nil] at hinside
    have herror := hinside.error_of_step (step_invalidName hinvalid _ _) rest
    rwa [List.append_assoc, List.append_assoc] at herror
  | @badEscape c rest hname hc =>
    have herror := hdollar.error_of_step (step_badEscape hname hc _ _) rest
    rwa [List.append_assoc] at herror

/-! ## What is refused offends -/

section Steps

variable {position : Nat} {state : State} {c : Char} {e : TemplateError}

theorem offends_of_stepText (h : stepText position c = .error e) (rest : List Char) :
    Offends position (c :: rest) e := by
  rw [stepText] at h
  split at h
  next hbreak =>
    cases h
    exact .lineBreak (by simpa using hbreak)
  next => split at h <;> cases h

theorem offends_of_checkBraced {start : Nat} {name : List Char} (hname : '\x7d' ∉ name)
    (h : checkBraced start name = .error e) (rest : List Char) :
    Offends start ('$' :: '\x7b' :: (name.reverse ++ '\x7d' :: rest)) e := by
  rw [checkBraced] at h
  split at h
  next hempty =>
    cases h
    rw [List.isEmpty_iff.mp hempty]
    exact .emptyName
  next =>
    split at h
    next => cases h
    next hall =>
      cases h
      refine .invalidName (by simpa using hname) ?_
      simpa using hall

/-- A character that is refused ends a construct that offends. -/
theorem offends_of_step (hproper : state.Proper) (h : step position state c = .error e)
    (rest : List Char) : Offends (state.start position) (state.opened ++ c :: rest) e := by
  cases state with
  | text => exact offends_of_stepText h rest
  | dollar start =>
    rw [step] at h
    split at h
    next => cases h
    next hescape =>
      split at h
      next => cases h
      next hbreak =>
        split at h
        next => cases h
        next hbrace =>
          split at h
          next => cases h
          next hname =>
            cases h
            refine .badEscape (by simpa using hname) ?_
            simp only [isEscapable, Bool.or_eq_true, beq_iff_eq, not_or] at hescape hbreak hbrace
            simp [hescape, hbreak, hbrace]
  | bare name =>
    rw [step] at h
    split at h
    next => cases h
    next => exact offends_of_stepText (map_eq_error_iff.mp h) rest
  | braced start name =>
    rw [step] at h
    split at h
    next hc =>
      rw [beq_iff_eq] at hc
      subst hc
      exact offends_of_checkBraced hproper (map_eq_error_iff.mp h) rest
    next => cases h
  | continued =>
    rw [step] at h
    split at h
    next => cases h
    next => exact offends_of_stepText h rest

/-- A text that ends where it must not ends in a construct that offends. -/
theorem offends_of_finish (hproper : state.Proper) (h : finish state = .error e) :
    Offends (state.start position) state.opened e := by
  cases state <;> cases h
  case dollar => exact .dangling
  case braced => exact .unclosed fun hmem => hproper (List.mem_reverse.mp hmem)

end Steps

/-- A text that is refused is a template up to where a construct offends. -/
theorem Reaches.exists_offends {cs rest : List Char} {done : List Piece} {state : State}
    {e : TemplateError} (h : Reaches cs done state)
    (herror : pieces (byteLength cs) state rest = .error e) :
    ∃ before after, cs ++ rest = before ++ after ∧ Readable before ∧
      Offends (byteLength before) after e := by
  induction rest generalizing cs done state with
  | nil =>
    obtain ⟨before, hcs, hstart, hbefore⟩ := h.exists_opened
    refine ⟨before, state.opened, by rw [List.append_nil, hcs], hbefore, ?_⟩
    rw [← hstart]
    exact offends_of_finish h.proper.2 herror
  | cons c rest ih =>
    cases hstep : Template.step (byteLength cs) state c with
    | error e' =>
      rw [pieces_cons_error hstep] at herror
      cases herror
      obtain ⟨before, hcs, hstart, hbefore⟩ := h.exists_opened
      refine ⟨before, state.opened ++ c :: rest, ?_, hbefore, ?_⟩
      · rw [← List.append_assoc, ← hcs]
      · rw [← hstart]
        exact offends_of_step h.proper.2 hstep rest
    | ok result =>
      rw [pieces_cons_ok hstep, ← byteLength_snoc, map_eq_error_iff] at herror
      obtain ⟨before, after, hsplit, hoffends⟩ := ih (h.step hstep) herror
      exact ⟨before, after, by rw [← hsplit, ← List.append_cons], hoffends⟩

/-- A text is refused with an error exactly if it is a template up to some byte, and there begins a
construct that is refused with that error. -/
theorem parse_eq_error_iff (text : String) (e : TemplateError) :
    parse text = .error e ↔ ∃ before after, text = before ++ after ∧
      (∃ segments, parse before = .ok segments) ∧
      Offends before.utf8ByteSize after.toList e := by
  rw [parse, map_eq_error_iff]
  constructor
  · intro h
    obtain ⟨before, after, hsplit, hbefore, hoffends⟩ := Reaches.start.exists_offends h
    refine ⟨String.ofList before, String.ofList after, ?_, ?_, ?_⟩
    · rw [← String.ofList_append, ← hsplit, List.nil_append, String.ofList_toList]
    · rw [← readable_iff, String.toList_ofList]
      exact hbefore
    · rw [String.toList_ofList]
      exact hoffends
  · rintro ⟨before, after, rfl, hbefore, hoffends⟩
    obtain ⟨done, state, last, hreaches, hlast⟩ := (readable_iff.mpr hbefore).exists_reaches
    rw [String.toList_append]
    refine hreaches.error_of_offends hlast ?_
    rwa [byteLength, String.ofList_toList]

/-- A position counts bytes, and two of the letters before the construct have two each. -/
example : parse "größe $\x7ba b\x7d$" = .error (.invalidName 8 "a b") := by rfl

end BuildGraph.Template
