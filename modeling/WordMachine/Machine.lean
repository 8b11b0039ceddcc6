import WordMachine.Channel
import WordMachine.Disassembly
import WordMachine.Fault
import WordMachine.Journal

/-!
# The machine

A machine executes the program in its memory, one instruction at a step. It takes input from its
backlog; when the backlog is empty it waits, and whoever drives it answers with `Machine.supply`. It
keeps every value that it put out.

* `Machine.effect` -- what an instruction is about to do, or why it cannot be done. Nothing changes
  before this is known, so a fault leaves everything as it was.
* `Machine.step` -- one instruction. A fault is kept, and every later step reports it again.
* `Machine.supply` -- an answer to the request that a machine waits on.
* `Machine.outlook` -- how the next step will come out, told without taking it.
* `Machine.stepNotes` -- what the journal says of a step.
-/

namespace WordMachine

/-! ## 1. State -/

/-- Whether a machine runs, waits for input or has come to its end. -/
inductive Status where
  | running
  | awaitingInput
  | halted
  deriving DecidableEq, Repr

/-- A machine. -/
structure Machine where
  memory : Memory
  /-- The address of the next instruction. -/
  pc : Nat
  /-- The address that relative parameters count from. -/
  base : Word
  status : Status
  /-- Input that is there before anyone is asked. -/
  backlog : List Word
  /-- Everything put out so far. -/
  output : Array Word
  /-- The number of inputs taken. -/
  inputs : Nat
  /-- The number of instructions decoded. -/
  steps : Nat
  /-- The number of instructions allowed. -/
  stepLimit : Option Nat
  /-- What is read when there is no value now. -/
  idleInput : Word
  /-- The address last written to. -/
  lastWrite : Option Nat
  /-- The fault that stopped the machine. -/
  fault : Option Fault
  deriving DecidableEq

namespace Machine

/-- The value read in place of input that is not there, unless set otherwise. -/
def defaultIdleInput : Word := -1

/-- The machine about to run what is in a memory, from address 0. -/
def ofMemory (memory : Memory) : Machine where
  memory := memory
  pc := 0
  base := 0
  status := .running
  backlog := []
  output := #[]
  inputs := 0
  steps := 0
  stepLimit := none
  idleInput := defaultIdleInput
  lastWrite := none
  fault := none

/-- The machine about to run a program. -/
def ofProgram (program : List Word) : Machine := ofMemory (Memory.ofImage program)

/-- Puts values at the end of the backlog. -/
def withInput (m : Machine) (input : List Word) : Machine := { m with backlog := m.backlog ++ input }

/-- Allows so many instructions in all. -/
def withStepLimit (m : Machine) (limit : Nat) : Machine := { m with stepLimit := some limit }

/-- Sets what is read when there is no value now. -/
def withIdleInput (m : Machine) (value : Word) : Machine := { m with idleInput := value }

/-- Puts one value at the end of the backlog. -/
def pushInput (m : Machine) (value : Word) : Machine := m.withInput [value]

/-- Whether the machine has halted. -/
def isHalted (m : Machine) : Bool := m.status = .halted

/-! ## 2. What an instruction does -/

/-- What an instruction is about to do. -/
inductive Effect where
  /-- Stores a result. -/
  | store (address : Nat) (value : Word)
  /-- Takes an input to an address. -/
  | take (address : Nat)
  /-- Puts out a value. -/
  | emit (value : Word)
  /-- Goes on at an address. -/
  | jump (target : Nat)
  /-- Goes on after a jump that is not taken. -/
  | pass
  /-- Moves the relative base. -/
  | moveBase (distance : Word)
  /-- Comes to the end. -/
  | halt
  deriving DecidableEq, Repr

/-- The word of a parameter of the instruction at `pc`. -/
def operand (m : Machine) (p : Param) : Word := m.memory.load (m.pc + 1 + p.index)

/-- The value of a parameter. -/
def param (m : Machine) (i : Instruction) (p : Param) : Except Fault Word :=
  (m.memory.read (i.mode p) (m.operand p) m.base).mapError (·.at m.pc i.opcode)

/-- The address that a parameter names. -/
def target (m : Machine) (i : Instruction) (p : Param) : Except Fault Nat :=
  ((i.mode p).target (m.operand p) m.base).mapError (·.at m.pc i.opcode)

/-- Stores what a function makes of the first two parameters through the third. -/
def combine (m : Machine) (i : Instruction) (f : Word → Word → Word) : Except Fault Effect := do
  let a ← m.param i .first
  let b ← m.param i .second
  let address ← m.target i .third
  return .store address (f a b)

/-- Jumps to the second parameter if the first one passes a test. -/
def jumpWhen (m : Machine) (i : Instruction) (test : Word → Bool) : Except Fault Effect := do
  let condition ← m.param i .first
  let goal ← m.param i .second
  if test condition then
    match Word.address? goal with
    | some address => return .jump address
    | none => throw (.address goal m.pc)
  else
    return .pass

/-- What the instruction at `pc` is about to do. Parameters are resolved in their order, and the
    first that cannot be used is at fault. -/
def effect (m : Machine) (i : Instruction) : Opcode → Except Fault Effect
  | .add => m.combine i (· + ·)
  | .mul => m.combine i (· * ·)
  | .lessThan => m.combine i fun a b => Word.ofBool (decide (a < b))
  | .equals => m.combine i fun a b => Word.ofBool (decide (a = b))
  | .jumpIfTrue => m.jumpWhen i fun w => decide (w ≠ 0)
  | .jumpIfFalse => m.jumpWhen i fun w => decide (w = 0)
  | .input => return .take (← m.target i .first)
  | .output => return .emit (← m.param i .first)
  | .adjustBase => return .moveBase (← m.param i .first)
  | .halt => return .halt

/-! ## 3. Steps -/

/-- How a step came out. -/
inductive Step where
  | executed
  | output (value : Word)
  | needsInput
  | halted
  deriving DecidableEq, Repr

/-- Stores a word and remembers where. -/
def store (m : Machine) (address : Nat) (value : Word) : Machine :=
  { m with memory := m.memory.store address value, lastWrite := some address }

/-- Completes the input instruction at `pc` with a value. -/
def takeInput (m : Machine) (address : Nat) (value : Word) : Machine :=
  let m := m.store address value
  { m with inputs := m.inputs + 1, pc := m.pc + 2, status := .running }

/-- Does what an instruction is about to do. -/
def apply (m : Machine) : Effect → Machine × Step
  | .store address value =>
    let m := m.store address value
    ({ m with pc := m.pc + 4 }, .executed)
  | .take address =>
    match m.backlog with
    | value :: rest => ({ m with backlog := rest }.takeInput address value, .executed)
    | [] => ({ m with status := .awaitingInput }, .needsInput)
  | .emit value => ({ m with output := m.output.push value, pc := m.pc + 2 }, .output value)
  | .jump target => ({ m with pc := target }, .executed)
  | .pass => ({ m with pc := m.pc + 3 }, .executed)
  | .moveBase distance => ({ m with base := m.base + distance, pc := m.pc + 2 }, .executed)
  | .halt => ({ m with status := .halted }, .halted)

/-- The instruction word at `pc`, taken apart. -/
def instruction (m : Machine) : Instruction := Instruction.decode (m.memory.load m.pc)

/-- The address that the input instruction at `pc` writes to. -/
def inputTarget (m : Machine) : Except Fault Nat := m.target m.instruction .first

/-- Completes the request that the machine waits on. -/
def completeInput (m : Machine) (value : Word) : Machine × Except Fault Unit :=
  match m.inputTarget with
  | .ok address => (m.takeInput address value, .ok ())
  | .error e => (m, .error e)

/-- Whether the instructions allowed are used up. -/
def spent? (m : Machine) : Option Fault :=
  match m.stepLimit with
  | some limit => if limit ≤ m.steps then some (.stepLimit limit m.pc) else none
  | none => none

/-- Fetches and executes the instruction at `pc`. It counts as a step once it is known what it is
    to do, also if that cannot be done. -/
def fetch (m : Machine) : Machine × Except Fault Step :=
  match m.spent? with
  | some e => (m, .error e)
  | none =>
    let i := m.instruction
    match i.op? with
    | none => (m, .error (.decode i.opcode m.pc))
    | some op =>
      match m.effect i op with
      | .error e => ({ m with steps := m.steps + 1 }, .error e)
      | .ok eff =>
        let (m, s) := { m with steps := m.steps + 1 }.apply eff
        (m, .ok s)

/-- One step of a machine without a fault. A machine that waits goes on as soon as its backlog has
    a value. -/
def advance (m : Machine) : Machine × Except Fault Step :=
  match m.status with
  | .halted => (m, .ok .halted)
  | .awaitingInput =>
    match m.backlog with
    | [] => (m, .ok .needsInput)
    | value :: rest =>
      let (m, r) := { m with backlog := rest }.completeInput value
      (m, r.map fun _ => .executed)
  | .running => m.fetch

/-- One step. -/
def step (m : Machine) : Machine × Except Fault Step :=
  match m.fault with
  | some e => (m, .error e)
  | none =>
    match m.advance with
    | (m, .error e) => ({ m with fault := some e }, .error e)
    | (m, .ok s) => (m, .ok s)

/-- Answers the request that the machine waits on. -/
def supply (m : Machine) (answer : Answer) : Machine × Except Fault Unit :=
  match m.fault with
  | some e => (m, .error e)
  | none =>
    match m.status with
    | .awaitingInput =>
      match answer with
      | .value w => m.completeInput w
      | .noValue => m.completeInput m.idleInput
      | .terminate => ({ m with status := .halted }, .ok ())
    | .running | .halted => (m, .error (.notAwaitingInput m.pc))

/-! ## 4. Outlook -/

/-- How a step comes out that does what an instruction is about to do. -/
def outcome (m : Machine) : Effect → Step
  | .take _ => if m.backlog.isEmpty then .needsInput else .executed
  | .emit value => .output value
  | .halt => .halted
  | .store .. | .jump _ | .pass | .moveBase _ => .executed

/-- How the fetch at `pc` will come out. -/
def fetchOutlook (m : Machine) : Except Fault Step :=
  match m.spent? with
  | some e => .error e
  | none =>
    match m.instruction.op? with
    | none => .error (.decode m.instruction.opcode m.pc)
    | some op => (m.effect m.instruction op).map m.outcome

/-- How the next step will come out. -/
def outlook (m : Machine) : Except Fault Step :=
  match m.fault with
  | some e => .error e
  | none =>
    match m.status with
    | .halted => .ok .halted
    | .awaitingInput =>
      if m.backlog.isEmpty then .ok .needsInput else m.inputTarget.map fun _ => .executed
    | .running => m.fetchOutlook

theorem apply_snd (m : Machine) (eff : Effect) : (m.apply eff).2 = m.outcome eff := by
  cases eff with
  | take address => cases h : m.backlog <;> simp [apply, outcome, h]
  | _ => rfl

theorem fetch_snd (m : Machine) : m.fetch.2 = m.fetchOutlook := by
  unfold fetch fetchOutlook
  cases m.spent? with
  | some e => rfl
  | none =>
    simp only
    cases m.instruction.op? with
    | none => rfl
    | some op =>
      simp only
      cases m.effect m.instruction op with
      | error e => rfl
      | ok eff => exact congrArg Except.ok (apply_snd _ eff)

theorem completeInput_snd (m : Machine) (value : Word) :
    (m.completeInput value).2 = m.inputTarget.map fun _ => () := by
  unfold completeInput
  cases m.inputTarget <;> rfl

theorem advance_snd (m : Machine) (h : m.fault = none) : m.advance.2 = m.outlook := by
  unfold advance outlook
  rw [h]
  cases m.status with
  | running => exact m.fetch_snd
  | halted => rfl
  | awaitingInput =>
    cases hb : m.backlog with
    | nil => rfl
    | cons value rest =>
      change (completeInput _ value).2.map _ = m.inputTarget.map _
      rw [completeInput_snd]
      change (m.inputTarget.map _).map _ = m.inputTarget.map _
      cases m.inputTarget <;> rfl

/-- The outlook is how the step does come out. -/
theorem step_snd (m : Machine) : m.step.2 = m.outlook := by
  unfold step
  cases h : m.fault with
  | some e => simp [outlook, h]
  | none =>
    have ha := m.advance_snd h
    rw [← ha]
    rcases m.advance with ⟨m', e | s⟩ <;> rfl

/-! ## 5. Notes -/

/-- The source of the notes of a machine. -/
def source : String := "intcode::interpreter::engine"

/-- The note of a fault. -/
def faultNote (pc : Nat) (e : Fault) : Note :=
  ⟨.debug, source, "machine faulted", [("pc", toString pc), ("error", e.message)]⟩

/-- The notes of a fetch: the instruction as text, then how it comes out. -/
def fetchNotes (m : Machine) : List Note :=
  let pc := ("pc", toString m.pc)
  let text : List Note :=
    match m.spent?, m.instruction.op? with
    | none, some _ =>
      [⟨.trace, source, (m.memory.readingAt m.pc).text, [pc, ("rb", Word.decimal m.base)]⟩]
    | _, _ => []
  text ++
    match m.fetchOutlook with
    | .ok .needsInput => [⟨.debug, source, "awaiting input", [pc, ("request", toString m.inputs)]⟩]
    | .ok .halted => [⟨.debug, source, "halted", [pc, ("steps", toString (m.steps + 1))]⟩]
    | .ok _ => []
    | .error e => [faultNote m.pc e]

/-- What the journal says of the next step. -/
def stepNotes (m : Machine) : List Note :=
  match m.fault, m.status with
  | none, .running => m.fetchNotes
  | none, .awaitingInput =>
    match m.outlook with
    | .error e => [faultNote m.pc e]
    | .ok _ => []
  | _, _ => []

/-- What the journal says of an answer. -/
def supplyNotes (m : Machine) (answer : Answer) : List Note :=
  match m.fault, m.status, answer with
  | none, .awaitingInput, .terminate =>
    [⟨.debug, source, "terminated while awaiting input", [("pc", toString m.pc)]⟩]
  | _, _, _ => []

end Machine

end WordMachine
