import WordMachine.Text.Blank
import WordMachine.Text.Numeral
import WordMachine.Text.Quoted
import WordMachine.Text.Record

/-!
# Programs

A program is the list of words that memory holds at the start. Its text is the words in decimal,
divided by commas; blanks may stand around the whole text and around every word.

* `Program.parse` -- the program of a text, or the first piece of the text that is no word;
* `ParseFault` -- why a text is no program.
-/

namespace WordMachine

/-- A program: the first words of memory, from address 0. -/
abbrev Program := List Word

/-- Why a text is no program: there is nothing in it, or the piece of the given index is no word. -/
inductive ParseFault where
  | empty
  | invalidToken (token : String) (index : Nat) (cause : Text.Misread)
  deriving DecidableEq, Repr

namespace ParseFault

/-- The sentence that explains the fault. -/
def message : ParseFault → String
  | empty => "program text is empty"
  | invalidToken token index cause =>
    s!"invalid token {Text.quote token} at position {index}: {cause.message}"

/-- The fault as a record. -/
def record : ParseFault → String
  | empty => "Empty"
  | invalidToken token index cause =>
    Text.record "InvalidToken"
      [("token", Text.quote token), ("index", toString index),
       ("source", Text.record "ParseIntError" [("kind", cause.label)])]

end ParseFault

namespace Program

/-- The pieces of a text between its commas, without the blanks around them. -/
def tokens (cs : List Char) : List (List Char) := (cs.splitOn ',').map Text.trim

/-- Reads the pieces in order; `index` is the index of the first one. -/
def readTokens (index : Nat) : List (List Char) → Except ParseFault Program
  | [] => .ok []
  | token :: rest =>
    match Text.readWord token with
    | .error cause => .error (.invalidToken (String.ofList token) index cause)
    | .ok word => (readTokens (index + 1) rest).map (word :: ·)

/-- The program that a text holds. -/
def parse (text : String) : Except ParseFault Program :=
  match Text.trim text.toList with
  | [] => .error .empty
  | cs => readTokens 0 (tokens cs)

end Program

end WordMachine
