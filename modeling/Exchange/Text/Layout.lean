/-!
The inspection form of a value: a name with fields, a name with positions, or a plain text. A form is
written compactly on one line, or expanded with one field per line and four blanks per level.
-/

namespace Exchange.Text
set_option autoImplicit false

/-- The shape in which a value shows itself. -/
inductive Shown where
  | atom (text : String)
  | tuple (name : String) (parts : List Shown)
  | record (name : String) (fields : List (String × Shown))

namespace Shown

mutual
/-- One line: `Name(a, b)` and `Name { x: a, y: b }`. -/
def compact : Shown → String
  | .atom text => text
  | .tuple name parts => name ++ "(" ++ ", ".intercalate (compactParts parts) ++ ")"
  | .record name fields =>
    name ++ " \x7b " ++ ", ".intercalate (compactFields fields) ++ " \x7d"

def compactParts : List Shown → List String
  | [] => []
  | part :: parts => part.compact :: compactParts parts

def compactFields : List (String × Shown) → List String
  | [] => []
  | (label, value) :: fields => (label ++ ": " ++ value.compact) :: compactFields fields
end

mutual
/-- One field per line, each closed by a comma, `margin` being the indentation of the first line. -/
def expanded (margin : String) : Shown → String
  | .atom text => text
  | .tuple name parts =>
    name ++ "(\n" ++ String.join (expandedParts (margin ++ "    ") parts) ++ margin ++ ")"
  | .record name fields =>
    name ++ " \x7b\n" ++ String.join (expandedFields (margin ++ "    ") fields) ++ margin ++ "\x7d"

def expandedParts (margin : String) : List Shown → List String
  | [] => []
  | part :: parts => (margin ++ part.expanded margin ++ ",\n") :: expandedParts margin parts

def expandedFields (margin : String) : List (String × Shown) → List String
  | [] => []
  | (label, value) :: fields =>
    (margin ++ label ++ ": " ++ value.expanded margin ++ ",\n") :: expandedFields margin fields
end

/-- The text of a form, expanded on request. -/
def text (shown : Shown) (onLines : Bool) : String :=
  if onLines then shown.expanded "" else shown.compact

def ofNat (n : Nat) : Shown := .atom (toString n)

def ofInt (n : Int) : Shown := .atom (toString n)

def ofBool (b : Bool) : Shown := .atom (if b then "true" else "false")

/-- An absent value shows as `None`, a present one as `Some(…)`. -/
def ofOption : Option Shown → Shown
  | none => .atom "None"
  | some shown => .tuple "Some" [shown]

end Shown
end Exchange.Text
