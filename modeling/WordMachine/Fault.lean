import WordMachine.Access
import WordMachine.Text.Quoted
import WordMachine.Text.Record

/-!
# Faults

What can stop a machine, or a recording of one. Each fault of an instruction carries the address of
that instruction.

* `Fault` -- the causes;
* `Fault.message`, `Fault.category`, `Fault.pc?` -- what is told of a fault;
* `Fault.record` -- a fault as a record;
* `AccessFault.at` -- the fault of an instruction that used a bad parameter.
-/

namespace WordMachine

/-- What stops a machine. -/
inductive Fault where
  /-- The opcode is not in the table. -/
  | decode (opcode : Word) (pc : Nat)
  /-- A negative address was read, written or jumped to. -/
  | address (address : Word) (pc : Nat)
  /-- A result was written through an immediate parameter. -/
  | writeMode (opcode : Word) (pc : Nat)
  /-- A parameter was used whose mode digit stands for no mode. -/
  | mode (digit : Nat) (opcode : Word) (pc : Nat)
  /-- Input was asked for and there is nobody to give it. -/
  | inputUnavailable (pc : Nat)
  /-- Whoever gives the input failed. -/
  | provider (message : String) (pc : Nat)
  /-- Input was given that was not asked for. -/
  | notAwaitingInput (pc : Nat)
  /-- The instructions allowed are used up. -/
  | stepLimit (limit : Nat) (pc : Nat)
  /-- The bytes allowed for the history are used up. -/
  | snapshotLimit (current limit : Nat)
  deriving DecidableEq, Repr

namespace Fault

/-- The sentence that explains the fault. -/
def message : Fault → String
  | decode opcode pc => s!"unknown opcode {Word.decimal opcode} at pc {pc}"
  | address a pc => s!"negative address {Word.decimal a} at pc {pc}"
  | writeMode opcode pc =>
    s!"illegal write target: immediate-mode parameter of opcode {Word.decimal opcode} at pc {pc}"
  | mode digit opcode pc =>
    s!"unsupported parameter mode {digit} for opcode {Word.decimal opcode} at pc {pc}"
  | inputUnavailable pc => s!"input requested at pc {pc} with an empty backlog and no provider"
  | provider text pc => s!"input provider failed at pc {pc}: {text}"
  | notAwaitingInput pc => s!"input supplied at pc {pc} while the machine was not awaiting input"
  | stepLimit limit pc => s!"step limit of {limit} instructions exceeded at pc {pc}"
  | snapshotLimit current limit =>
    s!"snapshot memory limit exceeded: {current} bytes used, limit is {limit}"

/-- The kind of a fault in a few words. -/
def category : Fault → String
  | decode .. => "decode fault"
  | address .. => "address fault"
  | writeMode .. => "write-mode fault"
  | mode .. => "mode fault"
  | inputUnavailable .. => "input unavailable"
  | provider .. => "provider fault"
  | notAwaitingInput .. => "protocol violation"
  | stepLimit .. => "step limit"
  | snapshotLimit .. => "snapshot limit"

/-- The address of the instruction at fault. -/
def pc? : Fault → Option Nat
  | decode _ pc => some pc
  | address _ pc => some pc
  | writeMode _ pc => some pc
  | mode _ _ pc => some pc
  | inputUnavailable pc => some pc
  | provider _ pc => some pc
  | notAwaitingInput pc => some pc
  | stepLimit _ pc => some pc
  | snapshotLimit .. => none

/-- The name of a fault in records. -/
def label : Fault → String
  | decode .. => "DecodeFault"
  | address .. => "AddressFault"
  | writeMode .. => "WriteModeFault"
  | mode .. => "ModeFault"
  | inputUnavailable .. => "InputUnavailable"
  | provider .. => "ProviderFault"
  | notAwaitingInput .. => "NotAwaitingInput"
  | stepLimit .. => "StepLimitExceeded"
  | snapshotLimit .. => "SnapshotLimitExceeded"

/-- The fields of a fault in records, in order. -/
def fields : Fault → List (String × String)
  | decode opcode pc => [("opcode", Word.decimal opcode), ("pc", toString pc)]
  | address a pc => [("address", Word.decimal a), ("pc", toString pc)]
  | writeMode opcode pc => [("opcode", Word.decimal opcode), ("pc", toString pc)]
  | mode digit opcode pc =>
    [("mode", toString digit), ("opcode", Word.decimal opcode), ("pc", toString pc)]
  | inputUnavailable pc => [("pc", toString pc)]
  | provider text pc => [("message", Text.quote text), ("pc", toString pc)]
  | notAwaitingInput pc => [("pc", toString pc)]
  | stepLimit limit pc => [("limit", toString limit), ("pc", toString pc)]
  | snapshotLimit current limit => [("current", toString current), ("limit", toString limit)]

/-- A fault as a record. -/
def record (f : Fault) : String := Text.record f.label f.fields

end Fault

/-- The fault of the instruction at `pc` whose parameter cannot be used. -/
def AccessFault.at (pc : Nat) (opcode : Word) : AccessFault → Fault
  | .negativeAddress a => .address a pc
  | .immediateWrite => .writeMode opcode pc
  | .unsupportedMode digit => .mode digit opcode pc

end WordMachine
