import WordMachine.Word

/-!
# Output as text

Output values are often the characters of a text. `Output.render` lays them out in lines: a value
below 256 is the character with that code, a line feed ends a line, and any other value stands in
decimal on a line of its own.
-/

namespace WordMachine.Output

/-- Values from 0 up to this one, exclusive, are characters. -/
def charLimit : Nat := 256

/-- The character that a value stands for. -/
def char? (value : Word) : Option Char :=
  match Word.address? value with
  | some code => if code < charLimit then some (Char.ofNat code) else none
  | none => none

/-- The line begun, if there is anything in it. -/
def finish (line : String) : List String := if line.isEmpty then [] else [line]

/-- The lines of the values that follow a line begun. -/
def renderAfter (line : String) : List Word → List String
  | [] => finish line
  | value :: rest =>
    match char? value with
    | some c => if c = '\n' then line :: renderAfter "" rest else renderAfter (line.push c) rest
    | none => finish line ++ Word.decimal value :: renderAfter "" rest

/-- The lines of some output. -/
def render (values : List Word) : List String := renderAfter "" values

end WordMachine.Output
