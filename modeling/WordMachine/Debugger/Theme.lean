import WordMachine.Screen.Style

/-!
# Theme

The colours of the debugger, by what they are used for.
-/

namespace WordMachine.Theme

/-- Ordinary text. -/
def plain : Colour := .rgb 205 214 244

/-- What leads the eye. -/
def primary : Colour := .rgb 137 180 250

/-- What stands beside it. -/
def secondary : Colour := .rgb 250 179 135

/-- What may be overlooked. -/
def comment : Colour := .rgb 108 112 134

/-- What went well. -/
def success : Colour := .rgb 166 227 161

/-- What went wrong. -/
def error : Colour := .rgb 243 139 168

/-- The name of an instruction. -/
def mnemonic : Colour := .rgb 137 180 250

/-- A number. -/
def number : Colour := .rgb 250 179 135

/-- The border of the pane in focus. -/
def borderFocused : Colour := .rgb 249 226 175

/-- The border of any other pane. -/
def borderNormal : Colour := .rgb 108 112 134

/-- Behind the current line. -/
def currentLine : Colour := .rgb 50 50 70

/-- The word last written. -/
def written : Colour := .rgb 245 194 231

/-- The word that the relative base points at. -/
def relativeBase : Colour := .rgb 148 226 213

end WordMachine.Theme
