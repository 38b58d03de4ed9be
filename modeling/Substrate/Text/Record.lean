/-!
# Record text

The diagnostic form of values: a record is its name and its fields in braces,
a list is its items in brackets, and an optional value is `Some(..)` or `None`.
-/

namespace Substrate.Text

/-- Items parted by a comma and a blank. -/
def commaList (items : List String) : String := ", ".intercalate items

/-- `Name { field: value, .. }`, or the name alone when there is no field. -/
def record (name : String) (fields : List (String × String)) : String :=
  if fields.isEmpty then name
  else name ++ " \x7b " ++ commaList (fields.map fun f => f.1 ++ ": " ++ f.2) ++ " \x7d"

/-- `Name { field: value, .. }` for a record that shows only some of its fields. -/
def openRecord (name : String) (fields : List (String × String)) : String :=
  name ++ " \x7b " ++ commaList (fields.map (fun f => f.1 ++ ": " ++ f.2) ++ [".."]) ++ " \x7d"

/-- `[item, item]`. -/
def bracketed (items : List String) : String := "[" ++ commaList items ++ "]"

/-- `Some(value)` or `None`. -/
def optional : Option String → String
  | some s => "Some(" ++ s ++ ")"
  | none => "None"

/-- `true` or `false`. -/
def truth (b : Bool) : String := if b then "true" else "false"

end Substrate.Text
