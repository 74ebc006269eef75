import BuildGraph.Json.Reader

/-!
# The text of a JSON value

What is written of a value is read as that value (`read?_render`), so no two values are written
alike. A text in quotes is read character by character, each from what is written of it, and items
and members one after the other, with those before them in the frame around them.

A number has no end of its own. After its last character the reader is not where it is after other
values, but whatever may follow takes it there (`step_ended`).
-/

namespace BuildGraph.Json

open Reader

/-- Reading some characters leads from one state to another. -/
def Reads (s : State) (cs : List Char) (t : State) : Prop := cs.foldlM step s = some t

namespace Reads

variable {s t u : State} {c : Char} {cs ds : List Char}

theorem nil (s : State) : Reads s [] s := rfl

theorem cons (h : step s c = some t) (hcs : Reads t cs u) : Reads s (c :: cs) u := by
  rw [Reads, List.foldlM_cons, h]
  exact hcs

theorem append (h : Reads s cs t) (h' : Reads t ds u) : Reads s (cs ++ ds) u := by
  rw [Reads, List.foldlM_append, h]
  exact h'

/-- From two states that take the first character to the same one, the same is read. -/
theorem of_step (h : Reads s (c :: cs) u) (hstep : step t c = step s c) : Reads t (c :: cs) u := by
  rw [Reads, List.foldlM_cons] at h ⊢
  rw [hstep]
  exact h

end Reads

/-! ## Blanks -/

/-- Blanks lead nowhere. -/
def Waits (s : State) : Prop := ∀ c, isBlank c = true → step s c = some s

theorem Waits.reads {s : State} (h : Waits s) {cs : List Char}
    (hcs : ∀ c ∈ cs, isBlank c = true) : Reads s cs s := by
  induction cs with
  | nil => exact .nil s
  | cons c cs ih =>
    obtain ⟨hc, hcs⟩ := List.forall_mem_cons.mp hcs
    exact .cons (h c hc) (ih hcs)

theorem isBlank_of_mem_newline {depth : Nat} : ∀ c ∈ newline depth, isBlank c = true := by
  intro c hc
  rcases List.mem_cons.mp hc with rfl | hc
  · rfl
  · rw [List.eq_of_mem_replicate hc]
    rfl

variable {frames : List Frame}

theorem waits_value : Waits (.value frames) := fun c hc => by simp [step, hc]

theorem waits_array : Waits (.array frames) := fun c hc => by simp [step, hc]

theorem waits_object : Waits (.object frames) := fun c hc => by simp [step, hc]

theorem waits_name {members : List (String × Json)} : Waits (.name members frames) := fun c hc => by
  simp [step, hc]

theorem waits_done {value : Json} : Waits (.done value frames) := fun c hc => by
  simp [step, afterValue, hc]

/-! ## Texts in quotes -/

section Texts

variable {role : Role} {chars : List Char}

/-- The code of a control character. -/
theorem reads_code {n : Nat} (h : n < 32) :
    Reads (.code role chars 0 0 frames) ['0', '0', Nat.digitChar (n / 16), Nat.digitChar (n % 16)]
      (.text role (Char.ofNat n :: chars) frames) := by
  have hhigh : hexDigit? (Nat.digitChar (n / 16)) = some (n / 16) := by
    have hall : ∀ m < 2, hexDigit? (Nat.digitChar m) = some m := by decide
    exact hall _ (by omega)
  have hlow : hexDigit? (Nat.digitChar (n % 16)) = some (n % 16) := by
    have hall : ∀ m < 16, hexDigit? (Nat.digitChar m) = some m := by decide
    exact hall _ (by omega)
  have hzero : hexDigit? '0' = some 0 := by decide
  have hvalue : 16 * (n / 16) + n % 16 = n := Nat.div_add_mod n 16
  have hvalid : n.isValidChar := .inl (by omega)
  simp [Reads, step, hzero, hhigh, hlow, hvalue, hvalid]

theorem reads_escapeChar (c : Char) :
    Reads (.text role chars frames) (escapeChar c) (.text role (c :: chars) frames) := by
  -- a backslash and one character that means `c`
  have hescaped : ∀ d, d ≠ 'u' → escaped? d = some c →
      Reads (.text role chars frames) ['\\', d] (.text role (c :: chars) frames) := by
    intro d hd hmeant
    exact .cons rfl (.cons (by simp [step, hd, hmeant]) (.nil _))
  rw [escapeChar]
  split
  next h =>
    rcases Bool.or_eq_true_iff.mp h with h | h <;> obtain rfl := beq_iff_eq.mp h
    · exact hescaped '"' (by decide) rfl
    · exact hescaped '\\' (by decide) rfl
  next hplain =>
  split
  next h => exact hescaped 'b' (by decide) (by rw [beq_iff_eq.mp h]; rfl)
  split
  next h => exact hescaped 'f' (by decide) (by rw [beq_iff_eq.mp h]; rfl)
  split
  next h => exact hescaped 'n' (by decide) (by rw [beq_iff_eq.mp h]; rfl)
  split
  next h => exact hescaped 'r' (by decide) (by rw [beq_iff_eq.mp h]; rfl)
  split
  next h => exact hescaped 't' (by decide) (by rw [beq_iff_eq.mp h]; rfl)
  split
  next hcontrol =>
    have hcode : Reads (.code role chars 0 0 frames) _ (.text role _ frames) :=
      reads_code hcontrol
    rw [Char.ofNat_toNat] at hcode
    exact .cons rfl (.cons rfl hcode)
  next hcontrol =>
    refine .cons ?_ (.nil _)
    simp only [Bool.or_eq_true, beq_iff_eq, not_or] at hplain
    simp [step, hplain, hcontrol]

theorem reads_escaped (cs : List Char) : Reads (.text role chars frames) (cs.flatMap escapeChar)
    (.text role (cs.reverse ++ chars) frames) := by
  induction cs generalizing chars with
  | nil => exact .nil _
  | cons c cs ih =>
    rw [List.flatMap_cons, List.reverse_cons, List.append_assoc]
    exact (reads_escapeChar c).append ih

/-- What is written of a text is read as that text. -/
theorem reads_quote {s : State} (h : step s '"' = some (.text role [] frames)) (text : String) :
    Reads s (quote text) (endText role text.toList.reverse frames) := by
  refine .cons h ((reads_escaped text.toList).append (.cons ?_ (.nil _)))
  rw [List.append_nil]
  rfl

end Texts

theorem reads_string (text : String) :
    Reads (.value frames) (quote text) (.done (.string text) frames) := by
  have h := reads_quote (s := .value frames) rfl text
  simpa [endText] using h

/-- A name and the colon after it, before the value of a member. -/
theorem reads_name {members : List (String × Json)} {s : State}
    (h : step s '"' = some (.text (.name members) [] frames)) (name : String) :
    Reads s (quote name ++ [':', ' ']) (.value (.object members name :: frames)) := by
  have hquote := reads_quote h name
  rw [endText, List.reverse_reverse, String.ofList_toList] at hquote
  exact hquote.append (.cons rfl (.cons rfl (.nil _)))

/-! ## Numbers -/

section Numbers

open JsonNumber

theorem isNumeric_of_isDigit {c : Char} (h : c.isDigit = true) : isNumeric c = true := by
  simp [isNumeric, h]

theorem isNumeric_of_isDigits {cs : List Char} (h : isDigits cs = true) :
    ∀ c ∈ cs, isNumeric c = true := by
  rw [isDigits, Bool.and_eq_true, List.all_eq_true] at h
  exact fun c hc => isNumeric_of_isDigit (h.2 c hc)

theorem isNumeric_of_isExponent {cs : List Char} (h : isExponent cs = true) :
    ∀ c ∈ cs, isNumeric c = true := by
  cases cs with
  | nil => simp
  | cons e cs =>
    unfold isExponent at h
    obtain ⟨he, hdigits⟩ := Bool.and_eq_true_iff.mp h
    refine List.forall_mem_cons.mpr ⟨?_, ?_⟩
    · rcases Bool.or_eq_true_iff.mp he with he | he <;> rw [beq_iff_eq.mp he] <;> rfl
    · split at hdigits
      · exact List.forall_mem_cons.mpr ⟨rfl, isNumeric_of_isDigits hdigits⟩
      · exact List.forall_mem_cons.mpr ⟨rfl, isNumeric_of_isDigits hdigits⟩
      · exact isNumeric_of_isDigits hdigits

/-- Digits, and something numeric after them. -/
theorem isNumeric_of_dropWhile {cs : List Char}
    (h : ∀ c ∈ cs.dropWhile Char.isDigit, isNumeric c = true) : ∀ c ∈ cs, isNumeric c = true := by
  intro c hc
  rw [← List.takeWhile_append_dropWhile (p := Char.isDigit) (l := cs)] at hc
  rcases List.mem_append.mp hc with hc | hc
  · exact isNumeric_of_isDigit (List.all_eq_true.mp List.all_takeWhile c hc)
  · exact h c hc

theorem isNumeric_of_isFraction {cs : List Char} (h : isFraction cs = true) :
    ∀ c ∈ cs, isNumeric c = true := by
  unfold isFraction at h
  split at h
  · rw [Bool.and_eq_true] at h
    exact List.forall_mem_cons.mpr ⟨rfl, isNumeric_of_dropWhile (isNumeric_of_isExponent h.2)⟩
  · exact isNumeric_of_isExponent h

/-- A number begins with a digit, or with a minus. -/
theorem exists_cons_of_isUnsigned {cs : List Char} (h : isUnsigned cs = true) :
    (∃ c rest, cs = c :: rest ∧ c.isDigit = true) ∧ ∀ c ∈ cs, isNumeric c = true := by
  unfold isUnsigned at h
  split at h
  next rest =>
    exact ⟨⟨'0', rest, rfl, rfl⟩, List.forall_mem_cons.mpr ⟨rfl, isNumeric_of_isFraction h⟩⟩
  next =>
    rw [Bool.and_eq_true] at h
    refine ⟨?_, isNumeric_of_dropWhile (isNumeric_of_isFraction h.2)⟩
    cases cs with
    | nil => simp at h
    | cons c rest =>
      refine ⟨c, rest, rfl, Decidable.byContradiction fun hc => ?_⟩
      simp [hc] at h

theorem exists_cons_of_isNumber {cs : List Char} (h : isNumber cs = true) :
    (∃ c rest, cs = c :: rest ∧ (c == '-' || c.isDigit) = true) ∧
      ∀ c ∈ cs, isNumeric c = true := by
  unfold isNumber at h
  split at h
  next rest =>
    obtain ⟨-, hnumeric⟩ := exists_cons_of_isUnsigned h
    exact ⟨⟨'-', rest, rfl, rfl⟩, List.forall_mem_cons.mpr ⟨rfl, hnumeric⟩⟩
  next =>
    obtain ⟨⟨c, rest, rfl, hc⟩, hnumeric⟩ := exists_cons_of_isUnsigned h
    exact ⟨⟨c, rest, rfl, by simp [hc]⟩, hnumeric⟩

/-- Where the reader is after the last character of a value. -/
def ended (frames : List Frame) : Json → State
  | .number value => .number value.text.toList.reverse frames
  | json => .done json frames

theorem number?_reverse (value : JsonNumber) :
    number? value.text.toList.reverse = some (.number value) := by
  have htext : String.ofList value.text.toList.reverse.reverse = value.text := by
    rw [List.reverse_reverse, String.ofList_toList]
  simp only [number?, htext, value.valid, dite_true]

/-- Whatever does not belong to a number comes after it as after any value. -/
theorem step_ended {json : Json} {c : Char} (hc : isNumeric c = false) :
    step (ended frames json) c = afterValue json frames c := by
  cases json with
  | number value => simp [ended, step, hc, number?_reverse]
  | _ => rfl

theorem finish_ended (json : Json) : finish (ended [] json) = some json := by
  cases json with
  | number value => exact number?_reverse value
  | _ => rfl

theorem reads_numeric {cs : List Char} (h : ∀ c ∈ cs, isNumeric c = true) (chars : List Char) :
    Reads (.number chars frames) cs (.number (cs.reverse ++ chars) frames) := by
  induction cs generalizing chars with
  | nil => exact .nil _
  | cons c cs ih =>
    obtain ⟨hc, hcs⟩ := List.forall_mem_cons.mp h
    refine .cons (t := .number (c :: chars) frames) (by simp [step, hc]) ?_
    simpa using ih hcs (c :: chars)

theorem isBlank_of_isNumeric {c : Char} (h : isNumeric c = true) : isBlank c = false := by
  have hne : ∀ d, isNumeric d = false → c ≠ d := by
    rintro d hd rfl
    rw [hd] at h
    cases h
  simp [isBlank, hne ' ' (by decide), hne '\n' (by decide), hne '\t' (by decide),
    hne '\r' (by decide)]

theorem reads_number (value : JsonNumber) :
    Reads (.value frames) value.text.toList (ended frames (.number value)) := by
  obtain ⟨⟨c, rest, htext, hc⟩, hnumeric⟩ := exists_cons_of_isNumber value.valid
  rw [ended, htext, List.reverse_cons]
  rw [htext] at hnumeric
  obtain ⟨hfirst, hrest⟩ := List.forall_mem_cons.mp hnumeric
  refine .cons ?_ (reads_numeric hrest [c])
  simp [step, beginValue, isBlank_of_isNumeric hfirst, hc]

end Numbers

/-! ## Values -/

/-- A value does not begin with a blank, nor like the end of an array. -/
theorem exists_cons_pretty (depth : Nat) (json : Json) :
    ∃ c cs, pretty depth json = c :: cs ∧ isBlank c = false ∧ c ≠ ']' := by
  cases json with
  | number value =>
    obtain ⟨⟨c, rest, htext, hc⟩, hnumeric⟩ := exists_cons_of_isNumber value.valid
    have hfirst : isNumeric c = true := hnumeric c (htext ▸ List.mem_cons_self)
    refine ⟨c, rest, htext, isBlank_of_isNumeric hfirst, ?_⟩
    rintro rfl
    cases hfirst
  | bool value => cases value <;> exact ⟨_, _, rfl, rfl, by decide⟩
  | array items => cases items <;> exact ⟨_, _, rfl, rfl, by decide⟩
  | object members => cases members <;> exact ⟨_, _, rfl, rfl, by decide⟩
  | null | string text => exact ⟨_, _, rfl, rfl, by decide⟩

/-- The first item of an array is read as a value is. -/
theorem reads_first {depth : Nat} {json : Json} {t : State}
    (h : Reads (.value (.array [] :: frames)) (pretty depth json) t) :
    Reads (.array frames) (pretty depth json) t := by
  obtain ⟨c, cs, htext, hblank, hclose⟩ := exists_cons_pretty depth json
  rw [htext] at h ⊢
  exact h.of_step (by simp [step, hblank, hclose])

/-- A line break after a value, before its container ends. -/
theorem reads_newline (depth : Nat) (json : Json) :
    Reads (ended frames json) (newline depth) (.done json frames) := by
  refine .cons (step_ended rfl) (waits_done.reads fun c hc => ?_)
  rw [List.eq_of_mem_replicate hc]
  rfl

mutual

/-- What is written of a value is read as that value. -/
theorem reads_pretty (depth : Nat) (frames : List Frame) :
    ∀ json, Reads (.value frames) (pretty depth json) (ended frames json)
  | .null => rfl
  | .bool true => rfl
  | .bool false => rfl
  | .number value => reads_number value
  | .string text => reads_string text
  | .array [] => rfl
  | .array (item :: items) => by
    have hitem := reads_first (reads_pretty (depth + 1) (.array [] :: frames) item)
    have hitems := reads_items (depth + 1) depth frames [] item items
    simp only [pretty, List.cons_append, List.append_assoc]
    exact .cons rfl ((waits_array.reads isBlank_of_mem_newline).append (hitem.append hitems))
  | .object [] => rfl
  | .object ((name, value) :: members) => by
    have hname : Reads (.object frames) _ (.value (.object [] name :: frames)) :=
      reads_name rfl name
    have hvalue := reads_pretty (depth + 1) (.object [] name :: frames) value
    have hmembers := reads_members (depth + 1) depth frames [] name value members
    have hmember := hname.append (hvalue.append hmembers)
    simp only [pretty, List.cons_append, List.append_assoc] at hmember ⊢
    exact .cons rfl ((waits_object.reads isBlank_of_mem_newline).append hmember)

/-- After an item, the others are read up to the end of the array. -/
theorem reads_items (depth outer : Nat) (frames : List Frame) (before : List Json) (item : Json) :
    ∀ items, Reads (ended (.array before :: frames) item)
      (prettyItems depth items ++ (newline outer ++ [']']))
      (.done (.array (before.reverse ++ item :: items)) frames)
  | [] => by
    refine (reads_newline outer item).append (.cons ?_ (.nil _))
    simp [step, afterValue, isBlank]
  | next :: items => by
    have hnext := reads_pretty depth (.array (item :: before) :: frames) next
    have hitems := reads_items depth outer frames (item :: before) next items
    rw [List.reverse_cons, List.append_assoc, List.singleton_append] at hitems
    simp only [prettyItems, List.cons_append, List.append_assoc]
    refine .cons ?_ ((waits_value.reads isBlank_of_mem_newline).append (hnext.append hitems))
    rw [step_ended rfl]
    rfl

/-- After a member, the others are read up to the end of the object. -/
theorem reads_members (depth outer : Nat) (frames : List Frame) (before : List (String × Json))
    (name : String) (value : Json) :
    ∀ members, Reads (ended (.object before name :: frames) value)
      (prettyMembers depth members ++ (newline outer ++ ['\x7d']))
      (.done (.object (before.reverse ++ (name, value) :: members)) frames)
  | [] => by
    refine (reads_newline outer value).append (.cons ?_ (.nil _))
    simp [step, afterValue, isBlank]
  | (nextName, next) :: members => by
    have hname := reads_name (s := .name ((name, value) :: before) frames) rfl nextName
    have hnext := reads_pretty depth (.object ((name, value) :: before) nextName :: frames) next
    have hmembers :=
      reads_members depth outer frames ((name, value) :: before) nextName next members
    rw [List.reverse_cons, List.append_assoc, List.singleton_append] at hmembers
    have hmember := hname.append (hnext.append hmembers)
    simp only [prettyMembers, List.cons_append, List.append_assoc] at hmember ⊢
    refine .cons ?_ ((waits_name.reads isBlank_of_mem_newline).append hmember)
    rw [step_ended rfl]
    rfl

end

/-- A value ends at the end of a text, or at blanks. -/
theorem exists_reads_blanks (json : Json) {cs : List Char} (h : ∀ c ∈ cs, isBlank c = true) :
    ∃ t, Reads (ended [] json) cs t ∧ finish t = some json := by
  cases cs with
  | nil => exact ⟨_, .nil _, finish_ended json⟩
  | cons c cs =>
    obtain ⟨hc, hcs⟩ := List.forall_mem_cons.mp h
    have hnumeric : isNumeric c = false := Bool.eq_false_iff.mpr fun hc' => by
      rw [isBlank_of_isNumeric hc'] at hc
      cases hc
    have hstep : step (ended [] json) c = some (.done json []) :=
      (step_ended hnumeric).trans (waits_done c hc)
    exact ⟨_, .cons hstep (waits_done.reads hcs), rfl⟩

/-- The text of a value is read as that value, also with blanks after it. -/
theorem read?_render_append (json : Json) {blanks : String}
    (h : ∀ c ∈ blanks.toList, isBlank c = true) : read? (json.render ++ blanks) = some json := by
  obtain ⟨t, ht, hfinish⟩ := exists_reads_blanks json h
  have hreads := (reads_pretty 0 [] json).append ht
  rw [read?, String.toList_append, render, String.toList_ofList]
  rw [Reads] at hreads
  rw [hreads]
  exact hfinish

theorem read?_render (json : Json) : read? json.render = some json := by
  have hblanks : ∀ c ∈ "".toList, isBlank c = true := by simp
  simpa using read?_render_append json hblanks

/-- Different values have different texts. -/
theorem render_injective : Function.Injective render := fun a b h => by
  rw [← Option.some_inj, ← read?_render a, h, read?_render b]

example : read? " [1, 2.5e-1,\t\"\\u00e9\\/\"]\n" =
    some (.array [.number ⟨"1", rfl⟩, .number ⟨"2.5e-1", rfl⟩, .string "é/"]) := rfl

example : read? "[1,]" = none := rfl

end BuildGraph.Json
