import WordMachine.Word

/-!
# Decimal numerals

Reading a number from text. A numeral is an optional sign and then ASCII digits, at least one. It
is read from the left, and the first thing that goes wrong decides the cause: a character that is
no digit, or a digit that takes the value out of range. Of the two at the same character, the
character that is no digit wins.

* `readWord` -- a word: `+` or `-` may precede the digits;
* `readCount` -- a number of 64 bits without sign: only `+` may precede the digits.
-/

namespace WordMachine.Text

/-- Why a text is no numeral. -/
inductive Misread where
  | empty
  | invalidDigit
  | tooLarge
  | tooSmall
  deriving DecidableEq, Repr

namespace Misread

/-- The sentence that explains the cause. -/
def message : Misread → String
  | empty => "cannot parse integer from empty string"
  | invalidDigit => "invalid digit found in string"
  | tooLarge => "number too large to fit in target type"
  | tooSmall => "number too small to fit in target type"

/-- The one-word name of the cause. -/
def label : Misread → String
  | empty => "Empty"
  | invalidDigit => "InvalidDigit"
  | tooLarge => "PosOverflow"
  | tooSmall => "NegOverflow"

end Misread

/-- The value of an ASCII digit. -/
def digit? (c : Char) : Option Nat :=
  if '0' ≤ c ∧ c ≤ '9' then some (c.toNat - '0'.toNat) else none

/-- Reads digits onto a value read so far. The value may not pass `limit`; if it does, the cause
    is `beyond`. -/
def readDigits (limit : Nat) (beyond : Misread) : Nat → List Char → Except Misread Nat
  | value, [] => .ok value
  | value, c :: cs =>
    match digit? c with
    | none => .error .invalidDigit
    | some d =>
      if limit < 10 * value + d then .error beyond
      else readDigits limit beyond (10 * value + d) cs

/-- Reads the digits after a sign: there has to be one. -/
def readUnsigned (limit : Nat) (beyond : Misread) : List Char → Except Misread Nat
  | [] => .error .invalidDigit
  | cs => readDigits limit beyond 0 cs

/-- Reads a word. -/
def readWord : List Char → Except Misread Word
  | [] => .error .empty
  | '+' :: cs => (readUnsigned Word.maxInt.natAbs .tooLarge cs).map fun n => Int64.ofInt n
  | '-' :: cs => (readUnsigned Word.minInt.natAbs .tooSmall cs).map fun n => Int64.ofInt (-n)
  | cs => (readUnsigned Word.maxInt.natAbs .tooLarge cs).map fun n => Int64.ofInt n

/-- Reads a number of 64 bits without sign. -/
def readCount : List Char → Except Misread Nat
  | [] => .error .empty
  | '+' :: cs => readUnsigned Word.countLimit .tooLarge cs
  | cs => readUnsigned Word.countLimit .tooLarge cs

end WordMachine.Text
