import WordMachine.Access

/-!
# Instructions

An instruction is a word whose two low decimal digits are the opcode; the three digits above them
are the modes of the first, second and third parameter, and higher digits mean nothing. The words
after the instruction are its parameters.

* `Param` -- the three places of a parameter;
* `Opcode` -- the opcode table;
* `Instruction.decode` -- the opcode and modes of a word. Every word decodes; an opcode outside the
  table (`Instruction.op? = none`) and an unsupported mode come to light only in use.
-/

namespace WordMachine

/-! ## 1. Parameters -/

/-- The parameters of an instruction, by their place. -/
inductive Param where
  | first
  | second
  | third
  deriving DecidableEq, Repr

namespace Param

/-- The number of parameters before this one. -/
def index : Param → Nat
  | first => 0
  | second => 1
  | third => 2

/-- The first so many parameters. -/
def firstFew (count : Nat) : List Param := [first, second, third].take count

end Param

/-! ## 2. The opcode table -/

/-- What an instruction does. -/
inductive Opcode where
  | add
  | mul
  | input
  | output
  | jumpIfTrue
  | jumpIfFalse
  | lessThan
  | equals
  | adjustBase
  | halt
  deriving DecidableEq, Repr

namespace Opcode

/-- The opcode of a number. -/
def ofCode? (code : Word) : Option Opcode :=
  match code.toInt with
  | 1 => some add
  | 2 => some mul
  | 3 => some input
  | 4 => some output
  | 5 => some jumpIfTrue
  | 6 => some jumpIfFalse
  | 7 => some lessThan
  | 8 => some equals
  | 9 => some adjustBase
  | 99 => some halt
  | _ => none

/-- The number of an opcode. -/
def code : Opcode → Word
  | add => 1
  | mul => 2
  | input => 3
  | output => 4
  | jumpIfTrue => 5
  | jumpIfFalse => 6
  | lessThan => 7
  | equals => 8
  | adjustBase => 9
  | halt => 99

@[simp] theorem ofCode?_code (op : Opcode) : ofCode? op.code = some op := by
  cases op <;> decide

/-- The number of parameters. -/
def arity : Opcode → Nat
  | add | mul | lessThan | equals => 3
  | jumpIfTrue | jumpIfFalse => 2
  | input | output | adjustBase => 1
  | halt => 0

/-- The parameter that is written through. -/
def writeParam? : Opcode → Option Param
  | add | mul | lessThan | equals => some .third
  | input => some .first
  | output | jumpIfTrue | jumpIfFalse | adjustBase | halt => none

/-- The short name of an opcode in a disassembly. -/
def mnemonic : Opcode → String
  | add => "add"
  | mul => "mul"
  | input => "in"
  | output => "out"
  | jumpIfTrue => "jnz"
  | jumpIfFalse => "jz"
  | lessThan => "lt"
  | equals => "eq"
  | adjustBase => "arb"
  | halt => "hlt"

end Opcode

/-! ## 3. Instruction words -/

/-- The parts of an instruction word. -/
structure Instruction where
  opcode : Word
  first : Mode
  second : Mode
  third : Mode
  deriving DecidableEq, Repr, Inhabited

namespace Instruction

/-- The opcode and modes of a word. The opcode has the sign of the word; the modes are digits of
    its magnitude. -/
def decode (word : Word) : Instruction :=
  let digits := (word / 100).toInt.natAbs
  { opcode := word % 100
    first := Mode.ofDigit (digits % 10)
    second := Mode.ofDigit (digits / 10 % 10)
    third := Mode.ofDigit (digits / 100 % 10) }

/-- What the instruction does, if its opcode is in the table. -/
def op? (i : Instruction) : Option Opcode := Opcode.ofCode? i.opcode

/-- The mode of a parameter. -/
def mode (i : Instruction) : Param → Mode
  | .first => i.first
  | .second => i.second
  | .third => i.third

end Instruction

end WordMachine
