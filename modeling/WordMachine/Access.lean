import WordMachine.Memory

/-!
# Access through a parameter

An instruction names its operands by parameters. The mode of a parameter says how its word is
understood: as an address, as the value itself, or as a distance from the relative base.

* `Mode` -- the modes, and the digit that stands for each;
* `Mode.target` -- the address that a parameter names;
* `Memory.read` and `Memory.write` -- access through a parameter;
* `AccessFault` -- what can go wrong, before it is known which instruction is at fault.
-/

namespace WordMachine

/-- How the word of a parameter is understood. A digit above 2 stands for no mode, which matters
    only when the parameter is used. -/
inductive Mode where
  | position
  | immediate
  | relative
  | unsupported (digit : Nat)
  deriving DecidableEq, Repr, Inhabited

namespace Mode

/-- The mode that a digit stands for. -/
def ofDigit : Nat → Mode
  | 0 => position
  | 1 => immediate
  | 2 => relative
  | d => unsupported d

/-- The digit that stands for a mode. -/
def digit : Mode → Nat
  | position => 0
  | immediate => 1
  | relative => 2
  | unsupported d => d

/-- The name of a mode. -/
def name : Mode → String
  | position => "position"
  | immediate => "immediate"
  | relative => "relative"
  | unsupported d => s!"unsupported({d})"

@[simp] theorem digit_ofDigit (d : Nat) : (ofDigit d).digit = d := by
  match d with
  | 0 | 1 | 2 | _ + 3 => rfl

end Mode

/-- Why a parameter cannot be used. -/
inductive AccessFault where
  | negativeAddress (address : Word)
  | immediateWrite
  | unsupportedMode (digit : Nat)
  deriving DecidableEq, Repr

namespace AccessFault

/-- The sentence that explains the fault. -/
def message : AccessFault → String
  | negativeAddress address => s!"negative address {Word.decimal address}"
  | immediateWrite => "illegal write target: immediate-mode parameter"
  | unsupportedMode digit => s!"unsupported parameter mode {digit}"

end AccessFault

/-- The address that a word names, which may not be negative. -/
def addressOf (w : Word) : Except AccessFault Nat :=
  match Word.address? w with
  | some address => .ok address
  | none => .error (.negativeAddress w)

/-- The address that a parameter names. The distance from the base is clamped to the range of
    words, so a far address never comes out negative. An immediate parameter names no address. -/
def Mode.target (mode : Mode) (operand base : Word) : Except AccessFault Nat :=
  match mode with
  | .position => addressOf operand
  | .relative => addressOf (Word.addClamped base operand)
  | .immediate => .error .immediateWrite
  | .unsupported digit => .error (.unsupportedMode digit)

namespace Memory

/-- The value of a parameter. -/
def read (m : Memory) (mode : Mode) (operand base : Word) : Except AccessFault Word :=
  match mode with
  | .immediate => .ok operand
  | mode => (mode.target operand base).map m.load

/-- Writes a value through a parameter; also returns the address written. -/
def write (m : Memory) (mode : Mode) (operand base value : Word) :
    Except AccessFault (Nat × Memory) :=
  (mode.target operand base).map fun address => (address, m.store address value)

end Memory

end WordMachine
