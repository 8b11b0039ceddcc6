import WordMachine.Channel
import WordMachine.Channel.Fifo

/-!
# Sources of input

The providers that answer from what they hold:

* `Script` -- a text, one character code for each request, after which the machine is to halt;
* `Queue` -- values that others put in; an empty queue has no value now;
* `Replies` -- prepared answers, some of which may be failures, after which the machine is to halt.
-/

namespace WordMachine

/-! ## 1. Scripts -/

/-- The character codes of a text that wait to be handed out. -/
structure Script where
  codes : Fifo
  deriving DecidableEq, Repr

namespace Script

/-- The script of a text. -/
def ofText (text : String) : Script := ⟨.ofList (text.toList.map fun c => Int64.ofNat c.toNat)⟩

/-- The number of codes that wait. -/
def remaining (s : Script) : Nat := s.codes.length

/-- Hands out the next code. -/
def next (s : Script) : Answer × Script :=
  match s.codes.next? with
  | some code => (.value code, ⟨s.codes.tail⟩)
  | none => (.terminate, s)

/-- The provider that reads a script. -/
def provider : Provider Script where
  answer := fun _ s =>
    let (answer, s) := s.next
    (.ok answer, s)

end Script

/-! ## 2. Queues -/

/-- Values waiting to be read. A queue whose owner broke off while holding it is poisoned, and
    every later request fails. -/
structure Queue where
  words : Fifo
  poisoned : Bool
  deriving DecidableEq, Repr

namespace Queue

/-- The queue with the given values. -/
def ofList (words : List Word) : Queue := ⟨.ofList words, false⟩

/-- Puts a value at the end. -/
def push (q : Queue) (value : Word) : Queue := { q with words := q.words.push value }

/-- Marks the queue as broken. -/
def poison (q : Queue) : Queue := { q with poisoned := true }

/-- Takes the first value. -/
def next (q : Queue) : Except String Answer × Queue :=
  if q.poisoned then (.error "input queue poisoned", q)
  else
    match q.words.next? with
    | none => (.ok .noValue, q)
    | some value => (.ok (.value value), { q with words := q.words.tail })

/-- The provider that reads a queue. -/
def provider : Provider Queue := ⟨fun _ q => q.next⟩

end Queue

/-! ## 3. Prepared replies -/

/-- Answers and failures in the order in which they are given. -/
abbrev Replies := List (Except String Answer)

namespace Replies

/-- Gives the next reply. -/
def next : Replies → Except String Answer × Replies
  | [] => (.ok .terminate, [])
  | reply :: rest => (reply, rest)

/-- The provider that gives prepared replies. -/
def provider : Provider Replies := ⟨fun _ r => r.next⟩

end Replies

end WordMachine
