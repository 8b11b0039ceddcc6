import WordMachine.Duration
import WordMachine.Fault

/-!
# Failures

Why several machines together came to no answer: one of them is at fault, or the whole is.
-/

namespace WordMachine

/-- Why a composition of machines failed. -/
inductive Failure where
  /-- A machine is at fault. -/
  | node (index : Nat) (cause : Fault)
  /-- A machine halted and had put out nothing. -/
  | noOutput (index : Nat)
  /-- There are no machines. -/
  | empty
  /-- The rounds allowed are used up. -/
  | stalled (rounds : Nat)
  /-- Every machine of the network has stopped. -/
  | allNodesStopped
  /-- The time allowed is used up. -/
  | timedOut (after : Duration)
  /-- A time limit was set where none can be kept. -/
  | timeoutUnsupported
  /-- A machine broke off for a reason of its own. -/
  | brokeOff (message : String)
  deriving DecidableEq, Repr

namespace Failure

/-- The sentence that explains the failure. -/
def message : Failure → String
  | node index cause => s!"machine {index} failed: {cause.message}"
  | noOutput index => s!"machine {index} produced no output"
  | empty => "no machines to run"
  | stalled rounds => s!"stalled after {rounds} rounds without converging"
  | allNodesStopped => "every node has stopped"
  | timedOut after => s!"timed out after {after.text}"
  | timeoutUnsupported =>
    "the threaded feedback loop cannot enforce a timeout; use a step limit"
  | brokeOff text => s!"machine task failed: {text}"

/-- The name of a failure in records. -/
def label : Failure → String
  | node .. => "Node"
  | noOutput .. => "NoOutput"
  | empty => "Empty"
  | stalled .. => "Stalled"
  | allNodesStopped => "AllNodesStopped"
  | timedOut .. => "TimedOut"
  | timeoutUnsupported => "TimeoutUnsupported"
  | brokeOff .. => "TaskFailed"

/-- A failure as a record; one without fields is its name alone. -/
def record (f : Failure) : String :=
  match f with
  | node index cause => Text.record f.label [("node", toString index), ("source", cause.record)]
  | noOutput index => Text.record f.label [("node", toString index)]
  | stalled rounds => Text.record f.label [("rounds", toString rounds)]
  | timedOut after => Text.record f.label [("after", after.text)]
  | brokeOff text => Text.record f.label [("message", Text.quote text)]
  | empty | allNodesStopped | timeoutUnsupported => f.label

end Failure

end WordMachine
