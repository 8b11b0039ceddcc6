import WordMachine.Instruction

/-!
# Disassembly

What the words at an address say when they are read as an instruction.

* `Reading` -- an instruction with its operands, or a word that is none;
* `Memory.readingAt` -- the reading at an address;
* `Reading.text` -- a reading as text, such as `add [1], #2 -> [3]`;
* `Entry` -- a reading with its address, one line of a listing.
-/

namespace WordMachine

/-! ## 1. Operands and readings -/

/-- The word of a parameter with its mode. -/
structure Operand where
  mode : Mode
  word : Word
  deriving DecidableEq, Repr

/-- The words at an address: an instruction with its operands, or one word of data. -/
inductive Reading where
  | data (word : Word)
  | code (op : Opcode) (operands : List Operand)
  deriving DecidableEq, Repr

/-- The operands of the instruction at an address. -/
def Memory.operandsAt (m : Memory) (address : Nat) (i : Instruction) (op : Opcode) : List Operand :=
  (Param.firstFew op.arity).map fun p => ⟨i.mode p, m.load (address + 1 + p.index)⟩

/-- The reading at an address. -/
def Memory.readingAt (m : Memory) (address : Nat) : Reading :=
  let word := m.load address
  let instruction := Instruction.decode word
  match instruction.op? with
  | some op => .code op (m.operandsAt address instruction op)
  | none => .data word

/-- The number of words that a reading covers. -/
def Reading.width : Reading → Nat
  | .data _ => 1
  | .code op _ => 1 + op.arity

theorem Reading.width_pos (r : Reading) : 0 < r.width := by
  cases r <;> simp only [Reading.width] <;> omega

/-! ## 2. Text -/

/-- An operand as text. -/
def Operand.text (o : Operand) : String :=
  match o.mode with
  | .position => s!"[{Word.decimal o.word}]"
  | .immediate => s!"#{Word.decimal o.word}"
  | .relative =>
    if o.word.toInt < 0 then s!"[rb-{o.word.toInt.natAbs}]" else s!"[rb+{Word.decimal o.word}]"
  | .unsupported digit => s!"?{digit}:{Word.decimal o.word}"

/-- The name that a reading begins with. -/
def Reading.mnemonic : Reading → String
  | .data _ => ".word"
  | .code op _ => op.mnemonic

/-- What follows the name. The destination of a result stands behind an arrow. -/
def Reading.details : Reading → String
  | .data word => Word.decimal word
  | .code _ operands =>
    match operands.map Operand.text with
    | [a, b, dest] => s!"{a}, {b} -> {dest}"
    | texts => ", ".intercalate texts

/-- A reading as text: its name and, after a space, what follows it, if anything. -/
def Reading.text (r : Reading) : String :=
  if r.details.isEmpty then r.mnemonic else r.mnemonic ++ " " ++ r.details

/-! ## 3. Entries -/

/-- A reading at its address. -/
structure Entry where
  address : Nat
  reading : Reading
  deriving DecidableEq, Repr

namespace Entry

/-- The number of words that an entry covers. -/
def width (e : Entry) : Nat := e.reading.width

theorem width_pos (e : Entry) : 0 < e.width := e.reading.width_pos

/-- The text of an entry. -/
def text (e : Entry) : String := e.reading.text

end Entry

/-- The entry at an address. -/
def Memory.entryAt (m : Memory) (address : Nat) : Entry := ⟨address, m.readingAt address⟩

/-- The word at an address as an entry of its own. -/
def Memory.wordAt (m : Memory) (address : Nat) : Entry := ⟨address, .data (m.load address)⟩

end WordMachine
