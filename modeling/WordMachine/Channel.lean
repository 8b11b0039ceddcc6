import WordMachine.Word

/-!
# Channels

A channel joins a running machine to its surroundings: a provider answers the machine's requests for
input, and the values that the machine puts out are passed on. The channel remembers both sides: the
requests that were made of the provider, by index, and the values passed on.

* `Answer` -- how a request is answered;
* `Provider` -- a source of answers with a state of its own;
* `Channel` -- an optional provider with the record of what went through.
-/

namespace WordMachine

/-- The answer to a request for input. -/
inductive Answer where
  /-- The machine goes on with this value. -/
  | value (w : Word)
  /-- There is no value now: the machine goes on with its idle value. -/
  | noValue
  /-- There will be no more values: the machine halts. -/
  | terminate
  deriving DecidableEq, Repr

/-- A source of input. It answers a request from its state and may fail with a message. A request is
    known by the number of inputs that the machine took before it. -/
structure Provider (σ : Type) where
  answer : Nat → σ → Except String Answer × σ

/-- A machine's connection to its surroundings. -/
structure Channel (σ : Type) where
  provider? : Option (Provider σ)
  state : σ
  emitted : Array Word
  requests : Array Nat

namespace Channel

/-- The channel without a provider: input comes from the backlog alone. -/
def buffered : Channel Unit := ⟨none, (), #[], #[]⟩

variable {σ : Type}

/-- The channel with a provider in a state. -/
def ofProvider (provider : Provider σ) (state : σ) : Channel σ := ⟨some provider, state, #[], #[]⟩

/-- The answer that the provider is about to give; `none` if there is no provider. -/
def outlook (c : Channel σ) (index : Nat) : Option (Except String Answer) :=
  c.provider?.map fun p => (p.answer index c.state).1

/-- Asks the provider; `none` if there is none. -/
def request : Channel σ → Nat → Option (Except String Answer) × Channel σ
  | ⟨none, state, emitted, requests⟩, _ => (none, ⟨none, state, emitted, requests⟩)
  | ⟨some p, state, emitted, requests⟩, index =>
    let (answer, state) := p.answer index state
    (some answer, ⟨some p, state, emitted, requests.push index⟩)

/-- Passes a value on. -/
def emit (c : Channel σ) (value : Word) : Channel σ := { c with emitted := c.emitted.push value }

end Channel

end WordMachine
