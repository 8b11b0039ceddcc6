/-!
# Columns of text

Text set to a width: flush left or flush right, filled with spaces. Text that is wider than its
column is not cut.
-/

namespace WordMachine.Text

/-- The given number of spaces. -/
def spaces (count : Nat) : String := String.ofList (List.replicate count ' ')

/-- Text at the left edge of a column. -/
def flushLeft (width : Nat) (text : String) : String := text ++ spaces (width - text.length)

/-- Text at the right edge of a column. -/
def flushRight (width : Nat) (text : String) : String := spaces (width - text.length) ++ text

end WordMachine.Text
