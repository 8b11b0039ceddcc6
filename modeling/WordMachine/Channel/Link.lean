import WordMachine.Channel.Fifo

/-!
# Links

A link carries values from its senders to one receiver, in order. It stays open as long as a sender
is left; what was sent before can still be received afterwards. Values sent when the receiver is gone
are lost.
-/

namespace WordMachine

/-- The values on the way, the number of senders, and whether there is a receiver. -/
structure Link where
  words : Fifo
  senders : Nat
  receiver : Bool
  deriving DecidableEq, Repr

/-- What a receiver finds. -/
inductive Receipt where
  /-- The next value. -/
  | value (w : Word)
  /-- Nothing yet, but a sender is left. -/
  | wait
  /-- Nothing, and nothing will come. -/
  | closed
  /-- There is no receiver to ask. -/
  | noReceiver
  deriving DecidableEq, Repr

namespace Link

/-- A link with one sender and its receiver. -/
def fresh : Link := ⟨.empty, 1, true⟩

/-- Sends a value, if there is a sender to send it and a receiver to have it. -/
def send (l : Link) (value : Word) : Link :=
  if l.senders = 0 ∨ l.receiver = false then l else { l with words := l.words.push value }

/-- Adds a sender beside one that is left. -/
def cloneSender (l : Link) : Link := if l.senders = 0 then l else { l with senders := l.senders + 1 }

/-- Takes a sender away. -/
def dropSender (l : Link) : Link := { l with senders := l.senders - 1 }

/-- Takes the receiver away, and the values on the way with it. -/
def dropReceiver (l : Link) : Link := { l with words := .empty, receiver := false }

/-- Receives the next value. -/
def receive (l : Link) : Receipt × Link :=
  if l.receiver then
    match l.words.next? with
    | some value => (.value value, { l with words := l.words.tail })
    | none => (if l.senders = 0 then .closed else .wait, l)
  else (.noReceiver, l)

end Link

end WordMachine
