/-!
# Labels

A target is named by the package it lives in and its name in that package. The two are written
together as a label, `//package:name`. Packages are `/`-separated; names hold no `/` and no `:`, so
the text of a label can be taken apart in one way only.

Both types carry their validity, so a value of either can be written and read back.
-/

namespace BuildGraph

/-- Why a text is no package path, target name, label, output root or source path. -/
inductive LabelError where
  | emptyPackage
  | invalidPackage (text : String)
  | invalidName (text : String)
  | malformed (text : String)
  | invalidGenroot (text : String)
  | invalidSource (text : String)
deriving DecidableEq, Repr

/-- The wording of each error. -/
def LabelError.message : LabelError → String
  | .emptyPackage => "package path is empty"
  | .invalidPackage text => "invalid package path '" ++ text ++ "'"
  | .invalidName text => "invalid target name '" ++ text ++ "'"
  | .malformed text => "malformed identifier '" ++ text ++ "': expected //package:name"
  | .invalidGenroot text =>
    "invalid genroot '" ++ text ++ "': expected a relative path without '.' or '..' segments"
  | .invalidSource text =>
    "invalid source path '" ++ text ++ "': expected a non-empty relative path inside the project"

/-! ## Components -/

/-- The characters of package segments and target names: ASCII letters and digits, `_`, `.`, `+`
and `-`. -/
def isLabelChar (c : Char) : Bool :=
  c.isAlphanum || c == '_' || c == '.' || c == '+' || c == '-'

/-- A package segment or target name: not empty, neither `.` nor `..`, label characters only. -/
def isComponent (cs : List Char) : Bool :=
  !cs.isEmpty && cs != ['.'] && cs != ['.', '.'] && cs.all isLabelChar

/-- Every `/`-separated segment is a component. -/
def isPackagePath (cs : List Char) : Bool :=
  (cs.splitOn '/').all isComponent

/-! ## Package paths -/

/-- A `/`-separated path of components, such as `fw/app`. -/
structure PackagePath where
  text : String
  valid : isPackagePath text.toList = true
deriving DecidableEq

namespace PackagePath

/-- Check a text as a package path. -/
def ofString (s : String) : Except LabelError PackagePath :=
  if s.isEmpty then .error .emptyPackage
  else if h : isPackagePath s.toList = true then .ok ⟨s, h⟩
  else .error (.invalidPackage s)

instance : ToString PackagePath := ⟨text⟩

/-- Package paths are ordered by their text. -/
instance : Ord PackagePath := ⟨compareOn text⟩

instance : Std.TransOrd PackagePath :=
  inferInstanceAs (Std.TransCmp (compareOn text))

instance : Std.LawfulEqOrd PackagePath where
  eq_of_compare {a b} h := by
    have hc : compare a.text b.text = .eq := h
    have ht : a.text = b.text := Std.LawfulEqCmp.eq_of_compare hc
    cases a; cases b; cases ht; rfl

end PackagePath

/-! ## Labels -/

/-- The name of a target: its package and a component. -/
structure Label where
  package : PackagePath
  name : String
  valid : isComponent name.toList = true
deriving DecidableEq

namespace Label

/-- The label of `name` in `package`. -/
def make (package : PackagePath) (name : String) : Except LabelError Label :=
  if h : isComponent name.toList = true then .ok ⟨package, name, h⟩
  else .error (.invalidName name)

/-- The text of a label, `//package:name`. -/
def text (l : Label) : String := "//" ++ l.package.text ++ ":" ++ l.name

instance : ToString Label := ⟨text⟩

/-- Read a label. The package ends at the first `:`; the package is checked before the name. -/
def parse (s : String) : Except LabelError Label :=
  match s.toList with
  | '/' :: '/' :: rest =>
    match rest.span (· != ':') with
    | (_, []) => .error (.malformed s)
    | (package, _ :: name) => do
      make (← PackagePath.ofString (String.ofList package)) (String.ofList name)
  | _ => .error (.malformed s)

/-- Read a reference written inside `package`: `:name` is the sibling `name`, all else a label. -/
def parseIn (package : PackagePath) (s : String) : Except LabelError Label :=
  match s.toList with
  | ':' :: name => make package (String.ofList name)
  | _ => parse s

/-- Labels are ordered by package, then by name; this is not the order of their texts. -/
instance : Ord Label := ⟨compareLex (compareOn package) (compareOn name)⟩

instance : Std.TransOrd Label :=
  inferInstanceAs (Std.TransCmp (compareLex (compareOn package) (compareOn name)))

instance : Std.LawfulEqOrd Label where
  eq_of_compare {a b} h := by
    obtain ⟨hp, hn⟩ := Ordering.then_eq_eq.mp
      (show (compare a.package b.package).then (compare a.name b.name) = .eq from h)
    have hp' := Std.LawfulEqCmp.eq_of_compare hp
    have hn' := Std.LawfulEqCmp.eq_of_compare hn
    cases a; cases b; cases hp'; cases hn'; rfl

end Label

end BuildGraph
