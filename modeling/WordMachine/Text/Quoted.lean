import WordMachine.Text.Printable

/-!
# Quoted text

Text between double quotes, on one line and without anything invisible. A double quote and a
backslash are preceded by a backslash; tab, carriage return, line feed and the null character have
their own letter; every other character that is not printable, or that is a mark on the character
before it, is written by its code point in lower-case hexadecimal digits.
-/

namespace WordMachine.Text

/-- The code point of a character between `\u` and braces, in hexadecimal. -/
def codePoint (c : Char) : List Char :=
  ['\\', 'u', '\x7b'] ++ Nat.toDigits 16 c.toNat ++ ['\x7d']

/-- One character of a quoted text. -/
def quoteChar (c : Char) : List Char :=
  if c = '"' then ['\\', '"']
  else if c = '\\' then ['\\', '\\']
  else if c = '\t' then ['\\', 't']
  else if c = '\r' then ['\\', 'r']
  else if c = '\n' then ['\\', 'n']
  else if c = '\x00' then ['\\', '0']
  else if isPrintable c && !isExtending c then [c]
  else codePoint c

/-- A text in quotes. -/
def quote (text : String) : String :=
  String.ofList ('"' :: text.toList.flatMap quoteChar ++ ['"'])

end WordMachine.Text
