import Mathlib.Algebra.Group.Int.Defs
import Mathlib.Algebra.Group.Nat.Defs
import WordMachine.Machine

/-!
# The ideal machine

What the opcode table says, and nothing of how it is done. The memory of an ideal machine is a total
function from addresses to words, its arithmetic is that of the integers, wrapped to words at the end,
and its instructions are rows of a table.

* `Ideal.table` -- the operation of each opcode; every other opcode is refused;
* `Ideal.location` and `Ideal.value` -- the address and the value of a parameter, by its mode digit;
* `Ideal.perform` -- an operation. Parameters are resolved in their order, and the first that cannot be
  used is at fault;
* `Ideal.step`, `Ideal.push`, `Ideal.supply` -- the three ways to drive a machine. A machine that waits
  for an input keeps the address that the input goes to;
* `Ideal.calls` -- a list of such calls with their replies, and `Machine.calls` the same of a machine.
-/

namespace WordMachine

/-! ## 1. The opcode table -/

namespace Ideal

/-- What an opcode does. -/
inductive Operation where
  /-- Writes what a function makes of the first two parameters through the third. -/
  | combine (f : Int → Int → Int)
  /-- Takes an input to the first parameter. -/
  | input
  /-- Puts out the first parameter. -/
  | output
  /-- Goes on at the second parameter if the first one passes a test. -/
  | jump (test : Int → Bool)
  /-- Adds the first parameter to the relative base. -/
  | adjustBase
  /-- Comes to the end. -/
  | halt

/-- The opcode table. -/
def table : Int → Option Operation
  | 1 => some (.combine fun a b => a + b)
  | 2 => some (.combine fun a b => a * b)
  | 3 => some .input
  | 4 => some .output
  | 5 => some (.jump fun a => a ≠ 0)
  | 6 => some (.jump fun a => a = 0)
  | 7 => some (.combine fun a b => if a < b then 1 else 0)
  | 8 => some (.combine fun a b => if a = b then 1 else 0)
  | 9 => some .adjustBase
  | 99 => some .halt
  | _ => none

/-- Whether an ideal machine runs, waits for an input to an address, or has come to its end. -/
inductive Status where
  | running
  | awaiting (destination : Nat)
  | halted
  deriving DecidableEq

end Ideal

/-- A machine as the opcode table sees it. -/
structure Ideal where
  memory : Nat → Word
  pc : Nat
  base : Word
  status : Ideal.Status
  backlog : List Word
  output : List Word
  inputs : Nat
  steps : Nat
  idleInput : Word
  lastWrite : Option Nat
  fault : Option Fault

namespace Ideal

/-- The ideal machine about to run what is in a memory, with a backlog and an idle value. -/
def start (memory : Nat → Word) (backlog : List Word) (idleInput : Word) : Ideal where
  memory := memory
  pc := 0
  base := 0
  status := .running
  backlog := backlog
  output := []
  inputs := 0
  steps := 0
  idleInput := idleInput
  lastWrite := none
  fault := none

/-! ## 2. Parameters -/

/-- The two low decimal digits of the instruction word, with its sign. -/
def code (s : Ideal) : Int := (s.memory s.pc).toInt.tmod 100

/-- The decimal digit of the instruction word that is the mode of the parameter at an index. -/
def digit (s : Ideal) (index : Nat) : Nat := (s.memory s.pc).toInt.natAbs / 10 ^ (index + 2) % 10

/-- The word of the parameter at an index. -/
def operand (s : Ideal) (index : Nat) : Int := (s.memory (s.pc + 1 + index)).toInt

/-- The integer nearest to `n` that a word can hold. -/
def nearest (n : Int) : Int := max (-2 ^ 63) (min (2 ^ 63 - 1) n)

/-- The address that an integer names; a negative one is at fault. -/
def address (s : Ideal) (n : Int) : Except Fault Nat :=
  if 0 ≤ n then .ok n.toNat else .error (.address (Int64.ofInt n) s.pc)

/-- The address that the parameter at an index names. -/
def location (s : Ideal) (index : Nat) : Except Fault Nat :=
  match s.digit index with
  | 0 => s.address (s.operand index)
  | 1 => .error (.writeMode (Int64.ofInt s.code) s.pc)
  | 2 => s.address (nearest (s.base.toInt + s.operand index))
  | d => .error (.mode d (Int64.ofInt s.code) s.pc)

/-- The value of the parameter at an index. -/
def value (s : Ideal) (index : Nat) : Except Fault Int :=
  match s.digit index with
  | 1 => .ok (s.operand index)
  | _ => do
    let a ← s.location index
    return (s.memory a).toInt

/-! ## 3. Operations -/

/-- Writes a word, and remembers where. -/
def write (s : Ideal) (a : Nat) (w : Word) : Ideal :=
  { s with memory := fun b => if b = a then w else s.memory b, lastWrite := some a }

/-- Completes an input instruction. -/
def receive (s : Ideal) (destination : Nat) (w : Word) : Ideal :=
  { s.write destination w with inputs := s.inputs + 1, pc := s.pc + 2, status := .running }

/-- Takes an input to an address: the next one of the backlog, or one that has to be waited for. -/
def take (s : Ideal) (destination : Nat) : Ideal × Machine.Step :=
  match s.backlog with
  | w :: rest => ({ s with backlog := rest }.receive destination w, .executed)
  | [] => ({ s with status := .awaiting destination }, .needsInput)

/-- What an operation of the table does to the machine. -/
def perform (s : Ideal) : Operation → Except Fault (Ideal × Machine.Step)
  | .combine f => do
    let a ← s.value 0
    let b ← s.value 1
    let c ← s.location 2
    return ({ s.write c (Int64.ofInt (f a b)) with pc := s.pc + 4 }, .executed)
  | .input => do
    let c ← s.location 0
    return s.take c
  | .output => do
    let a ← s.value 0
    return ({ s with output := s.output ++ [Int64.ofInt a], pc := s.pc + 2 }, .output (Int64.ofInt a))
  | .jump test => do
    let a ← s.value 0
    let b ← s.value 1
    if test a then
      let target ← s.address b
      return ({ s with pc := target }, .executed)
    else
      return ({ s with pc := s.pc + 3 }, .executed)
  | .adjustBase => do
    let a ← s.value 0
    return ({ s with base := Int64.ofInt (s.base.toInt + a), pc := s.pc + 2 }, .executed)
  | .halt => return ({ s with status := .halted }, .halted)

/-- The machine stops for good. -/
def stop (s : Ideal) (e : Fault) : Ideal × Except Fault Machine.Step :=
  ({ s with fault := some e }, .error e)

/-- The instruction at `pc`. It is counted once its opcode is found in the table. -/
def fetch (s : Ideal) : Ideal × Except Fault Machine.Step :=
  match table s.code with
  | none => s.stop (.decode (Int64.ofInt s.code) s.pc)
  | some op =>
    match { s with steps := s.steps + 1 }.perform op with
    | .error e => { s with steps := s.steps + 1 }.stop e
    | .ok (s, r) => (s, .ok r)

/-! ## 4. Calls -/

/-- One step. -/
def step (s : Ideal) : Ideal × Except Fault Machine.Step :=
  match s.fault, s.status with
  | some e, _ => (s, .error e)
  | none, .running => s.fetch
  | none, .halted => (s, .ok .halted)
  | none, .awaiting destination =>
    match s.backlog with
    | w :: rest => ({ s with backlog := rest }.receive destination w, .ok .executed)
    | [] => (s, .ok .needsInput)

/-- Puts a value at the end of the backlog. -/
def push (s : Ideal) (w : Word) : Ideal := { s with backlog := s.backlog ++ [w] }

/-- Answers the request that the machine waits on. -/
def supply (s : Ideal) (answer : Answer) : Ideal × Except Fault Unit :=
  match s.fault, s.status with
  | some e, _ => (s, .error e)
  | none, .awaiting destination =>
    match answer with
    | .value w => (s.receive destination w, .ok ())
    | .noValue => (s.receive destination s.idleInput, .ok ())
    | .terminate => ({ s with status := .halted }, .ok ())
  | none, _ => (s, .error (.notAwaitingInput s.pc))

end Ideal

/-- A call to a machine. -/
inductive Call where
  | step
  | push (w : Word)
  | supply (answer : Answer)
  deriving DecidableEq

/-- What a call gives back. -/
inductive Reply where
  | stepped (r : Except Fault Machine.Step)
  | pushed
  | supplied (r : Except Fault Unit)

/-- One call to a machine. -/
def Machine.call (m : Machine) : Call → Machine × Reply
  | .step => (m.step.1, .stepped m.step.2)
  | .push w => (m.pushInput w, .pushed)
  | .supply answer => ((m.supply answer).1, .supplied (m.supply answer).2)

/-- Calls to a machine, one after the other, with their replies. -/
def Machine.calls (m : Machine) : List Call → Machine × List Reply
  | [] => (m, [])
  | c :: rest => (((m.call c).1.calls rest).1, (m.call c).2 :: ((m.call c).1.calls rest).2)

/-- One call to an ideal machine. -/
def Ideal.call (s : Ideal) : Call → Ideal × Reply
  | .step => (s.step.1, .stepped s.step.2)
  | .push w => (s.push w, .pushed)
  | .supply answer => ((s.supply answer).1, .supplied (s.supply answer).2)

/-- Calls to an ideal machine, one after the other, with their replies. -/
def Ideal.calls (s : Ideal) : List Call → Ideal × List Reply
  | [] => (s, [])
  | c :: rest => (((s.call c).1.calls rest).1, (s.call c).2 :: ((s.call c).1.calls rest).2)

end WordMachine
