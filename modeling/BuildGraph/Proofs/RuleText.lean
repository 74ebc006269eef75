import BuildGraph.Proofs.BuildFile
import BuildGraph.Proofs.RuleTable
import BuildGraph.Proofs.Template

/-!
# Rules in build files

The templates of a rule are written as they stand, and one with a `$` at its end would take the end
of its line along, or one with a line break end the line too soon. No template does either. What a
reader has taken in of a template is text that continues a line, but for the construct that is still
open (`Template.Reaches.continuesLine`), and at the end of a template none is open. So a registered
rule is written in four lines, whatever comes after it (`ruleInLines_of_register`).
-/

namespace BuildGraph

namespace Ninja

theorem continuesLine_singleton {c : Char} (hdollar : c ≠ '$') (hbreak : isLineBreak c = false) :
    continuesLine [c] = true :=
  continuesLine_of_staysInLine (staysInLine_singleton hdollar hbreak)

/-- Text without a `$` continues a line if it holds no line break. -/
theorem continuesLine_of_forall {cs : List Char} (h : ∀ c ∈ cs, c ≠ '$' ∧ isLineBreak c = false) :
    continuesLine cs = true := by
  induction cs with
  | nil => rfl
  | cons c cs ih =>
    obtain ⟨⟨hdollar, hbreak⟩, hcs⟩ := List.forall_mem_cons.mp h
    exact continuesLine_append (continuesLine_singleton hdollar hbreak) (ih hcs)

end Ninja

/-! ## Templates in lines -/

namespace Template

open Ninja (continuesLine continuesLine_append continuesLine_singleton continuesLine_of_forall)

theorem isLineBreak_of_isBracedNameChar {c : Char} (h : isBracedNameChar c = true) :
    c ≠ '$' ∧ isLineBreak c = false := by
  have hne : ∀ d, isBracedNameChar d = false → c ≠ d := by
    rintro d hd rfl
    rw [hd] at h
    cases h
  have hfeed := hne '\n' (by decide)
  have hreturn := hne '\r' (by decide)
  exact ⟨hne '$' (by decide), by simp [isLineBreak, hfeed, hreturn]⟩

theorem opened_of_finish {state : State} {last : List Piece} (h : finish state = .ok last) :
    state.opened = [] := by
  cases state <;> cases h <;> rfl

/-- A `$` takes along whatever makes it a construct. -/
theorem continuesLine_dollar {c : Char} (hc : c ≠ '\r') : continuesLine ['$', c] = true := by
  simp [continuesLine, hc]

/-- A character goes on with the construct that is open, or what there was of it and the character
continue a line. -/
theorem Move.exists_continuesLine {position : Nat} {state next : State} {c : Char}
    {more : List Piece} (h : Move position state c more next) :
    ∃ text, state.opened ++ [c] = text ++ next.opened ∧ continuesLine text = true := by
  cases h with
  | literal hlast hdollar hbreak =>
    rw [opened_of_finish hlast]
    exact ⟨[c], rfl, continuesLine_singleton hdollar hbreak⟩
  | dollar hlast =>
    rw [opened_of_finish hlast]
    exact ⟨[], rfl, rfl⟩
  | name hc =>
    obtain ⟨hdollar, hbreak⟩ :=
      isLineBreak_of_isBracedNameChar (isBracedNameChar_of_isNameChar hc)
    exact ⟨[c], rfl, continuesLine_singleton hdollar hbreak⟩
  | blank => exact ⟨[' '], rfl, rfl⟩
  | escape hc =>
    have hreturn : c ≠ '\r' := by
      rintro rfl
      cases hc
    exact ⟨['$', c], rfl, continuesLine_dollar hreturn⟩
  | continuation => exact ⟨['$', '\n'], rfl, rfl⟩
  | bare hc =>
    have hreturn : c ≠ '\r' := by
      rintro rfl
      cases hc
    exact ⟨['$', c], rfl, continuesLine_dollar hreturn⟩
  | brace => exact ⟨[], rfl, rfl⟩
  | inside => exact ⟨[], by simp [State.opened], rfl⟩
  | @close start name hne hall =>
    have hname : ∀ c ∈ name.reverse, c ≠ '$' ∧ isLineBreak c = false :=
      fun c hc => isLineBreak_of_isBracedNameChar (hall c (List.mem_reverse.mp hc))
    have hopen : continuesLine ['$', '\x7b'] = true := rfl
    refine ⟨['$', '\x7b'] ++ name.reverse ++ ['\x7d'], by simp [State.opened], ?_⟩
    exact continuesLine_append (continuesLine_append hopen (continuesLine_of_forall hname)) rfl

/-- What a reader has taken in continues a line up to the construct that is open. -/
theorem Reaches.continuesLine {cs : List Char} {done : List Piece} {state : State}
    (h : Reaches cs done state) :
    ∃ before, cs = before ++ state.opened ∧ Ninja.continuesLine before = true := by
  induction h with
  | start => exact ⟨[], rfl, rfl⟩
  | @step _ _ _ _ next c _ hstep ih =>
    obtain ⟨before, rfl, hbefore⟩ := ih
    obtain ⟨text, htext, hcontinues⟩ := (move_of_step hstep).exists_continuesLine
    refine ⟨before ++ text, ?_, continuesLine_append hbefore hcontinues⟩
    rw [List.append_assoc, htext, List.append_assoc]

theorem Readable.continuesLine {cs : List Char} (h : Readable cs) :
    Ninja.continuesLine cs = true := by
  obtain ⟨done, state, last, hreaches, hlast⟩ := h.exists_reaches
  obtain ⟨before, hcs, hbefore⟩ := hreaches.continuesLine
  rw [opened_of_finish hlast, List.append_nil] at hcs
  rwa [hcs]

end Template

namespace Ninja

/-! ## Rules in lines -/

/-- The text of a rule is four lines, also if more text follows, and each of them has its end. -/
structure RuleInLines (rule : Rule) : Prop where
  carriageReturn : '\r' ∉ renderRule rule
  lines : ∀ rest, logicalLines (renderRule rule ++ rest) =
    ["rule ".toList ++ rule.name.toList, "  command = ".toList ++ rule.command.toList,
      "  description = ".toList ++ rule.description.toList, []] ++ logicalLines rest
  whole : renderRule rule = unlines (logicalLines (renderRule rule))

theorem ruleLines_eq (rule : Rule) : ruleLines rule =
    ["rule ".toList ++ rule.name.toList, "  command = ".toList ++ rule.command.toList,
      "  description = ".toList ++ rule.description.toList, []] := by
  have hcommand : ' ' :: ' ' :: "command".toList ++ [' ', '=', ' '] = "  command = ".toList := by
    decide
  have hdescription : ' ' :: ' ' :: "description".toList ++ [' ', '=', ' '] =
      "  description = ".toList := by
    decide
  rw [← hcommand, ← hdescription]
  rfl

/-- Readable templates and a plain name stay in their lines. -/
theorem continuesLine_ruleLines {rule : Rule} (hreadable : rule.Readable)
    (hname : continuesLine rule.name.toList = true) :
    ∀ line ∈ ruleLines rule, continuesLine line = true := by
  have htemplate : ∀ text ∈ rule.templates, continuesLine text.toList = true :=
    fun text htext => (Template.readable_iff.mpr (hreadable text htext)).continuesLine
  rw [ruleLines_eq]
  simp only [List.forall_mem_cons]
  refine ⟨continuesLine_append (by decide) hname, ?_, ?_, rfl, by simp⟩
  · exact continuesLine_append (by decide) (htemplate _ (by simp [Rule.templates]))
  · exact continuesLine_append (by decide) (htemplate _ (by simp [Rule.templates]))

/-- The name of a rule holds nothing that a reader of lines stops at. -/
def PlainName (rule : Rule) : Prop := ∀ c ∈ rule.name.toList, c ≠ '\n' ∧ c ≠ '\r' ∧ c ≠ '$'

theorem PlainName.continuesLine {rule : Rule} (h : PlainName rule) :
    continuesLine rule.name.toList = true := by
  refine continuesLine_of_forall fun c hc => ?_
  obtain ⟨hfeed, hreturn, hdollar⟩ := h c hc
  exact ⟨hdollar, by simp [isLineBreak, hfeed, hreturn]⟩

theorem ruleInLines_of_readable {rule : Rule} (hreadable : rule.Readable) (hname : PlainName rule) :
    RuleInLines rule := by
  have hlines := continuesLine_ruleLines hreadable hname.continuesLine
  constructor
  · rw [renderRule_eq]
    exact carriageReturn_notMem_unlines hlines
  · intro rest
    rw [renderRule_eq, ← ruleLines_eq]
    exact logicalLines_unlines_append hlines rest
  · rw [renderRule_eq, logicalLines_unlines hlines]

theorem plainName_objcopy : PlainName Objcopy.rule := by simp [PlainName, Objcopy.rule]

/-- Whatever its templates are made of, a registered rule with a plain name is written in four
lines, and the built-in rules have plain names. -/
theorem ruleInLines_of_register :
    (∀ (table next : RuleTable) (rule : Rule), table.register rule = .ok next → PlainName rule →
      RuleInLines rule) ∧
    ∀ table, RuleTable.standard = .ok table → ∀ rule ∈ table.toList, PlainName rule := by
  constructor
  · intro table next rule h hname
    obtain ⟨-, checked, rfl, -⟩ := RuleTable.register_eq_ok h
    exact ruleInLines_of_readable (Rule.readable_of_requiredVariables checked.required_eq) hname
  · intro table h rule hrule
    rw [toList_standard h, List.mem_singleton] at hrule
    rw [hrule]
    exact plainName_objcopy

end Ninja

namespace Sample

/-- A rule with many a `$`, two line feeds that go on with a line, one of them at its end, and a
name that holds a colon and a blank. -/
def winding : Rule :=
  { name := "cc: all"
    command := "$\x7bcc.path\x7d $$HOME$$$\n  -D$ x$:$$$$ $in $\n"
    description := "CC $$$out-$$" }

end Sample

theorem Ninja.ruleInLines_of_register_sample :
    (∃ next, RuleTable.empty.register Sample.winding = .ok next) ∧ PlainName Sample.winding ∧
    RuleInLines Sample.winding ∧ (logicalLines (renderRule Sample.winding)).length = 4 ∧
    ∃ table, RuleTable.standard = .ok table ∧ Objcopy.rule ∈ table.toList ∧
      PlainName Objcopy.rule := by
  have hwinding : (RuleTable.empty.register Sample.winding).toOption.isSome = true := by decide
  have hstandard : RuleTable.standard.toOption.isSome = true := by decide
  obtain ⟨next, hnext⟩ := Option.isSome_iff_exists.mp hwinding
  obtain ⟨table, htable⟩ := Option.isSome_iff_exists.mp hstandard
  replace hnext := eq_ok_of_toOption hnext
  replace htable := eq_ok_of_toOption htable
  have hplain : PlainName Sample.winding := by simp [PlainName, Sample.winding]
  obtain ⟨hregistered, hbuiltin⟩ := ruleInLines_of_register
  have hlines := hregistered _ _ _ hnext hplain
  have hlength := congrArg List.length (hlines.lines [])
  rw [List.append_nil] at hlength
  have hmem : Objcopy.rule ∈ table.toList := by
    rw [toList_standard htable, List.mem_singleton]
  exact ⟨⟨next, hnext⟩, hplain, hlines, hlength, table, htable, hmem, hbuiltin table htable _ hmem⟩

end BuildGraph
