/-!
# Records as text

How a named group of values is written when a failing command reports its cause: the name, then
the fields in order between braces, each as `name: value`.
-/

namespace WordMachine.Text

/-- A record with its fields, such as `Name \x7b first: 1, second: 2 \x7d` with braces. -/
def record (name : String) (fields : List (String × String)) : String :=
  name ++ " \x7b " ++ ", ".intercalate (fields.map fun field => field.1 ++ ": " ++ field.2) ++ " \x7d"

/-- A list in square brackets. -/
def bracketed (items : List String) : String := "[" ++ ", ".intercalate items ++ "]"

end WordMachine.Text
