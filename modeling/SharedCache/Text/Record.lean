import SharedCache.Text.Quoted

/-!
# Records as text

A record is written as its name followed by its fields between braces; a record with hidden fields
ends in two dots.  An optional value is `None`, or the value between the brackets of `Some`.
-/

namespace SharedCache.Text

private def fieldTexts (fields : List (String × String)) : List String :=
  fields.map fun field => field.1 ++ ": " ++ field.2

private def braced (name : String) (parts : List String) : String :=
  name ++ " \x7b " ++ ", ".intercalate parts ++ " \x7d"

/-- A record all of whose fields are shown. -/
def record (name : String) (fields : List (String × String)) : String :=
  braced name (fieldTexts fields)

/-- A record that has further fields, which are not shown. -/
def openRecord (name : String) (fields : List (String × String)) : String :=
  braced name (fieldTexts fields ++ [".."])

/-- A value inside a named constructor. -/
def tagged (tag content : String) : String := tag ++ "(" ++ content ++ ")"

/-- An optional value. -/
def optional {α : Type} (render : α → String) : Option α → String
  | none => "None"
  | some a => tagged "Some" (render a)

/-- A truth value. -/
def truth (b : Bool) : String := if b then "true" else "false"

end SharedCache.Text
