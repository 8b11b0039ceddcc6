import WordMachine.Word

/-!
# Queues of words that remember

Everything that was ever put into the queue, in order, and how many words have been taken out again.
What waits in the queue is the rest (`Fifo.toList`).
-/

namespace WordMachine

/-- The words put in, and the number of words taken out. -/
structure Fifo where
  sent : Array Word
  taken : Nat
  deriving DecidableEq, Inhabited, Repr

namespace Fifo

/-- The queue that nothing has been put into. -/
def empty : Fifo := ⟨#[], 0⟩

/-- The queue in which the given words wait. -/
def ofList (words : List Word) : Fifo := ⟨words.toArray, 0⟩

/-- The words that wait, the next one first. -/
def toList (q : Fifo) : List Word := q.sent.toList.drop q.taken

/-- Puts a word in. -/
def push (q : Fifo) (w : Word) : Fifo := { q with sent := q.sent.push w }

/-- The next word. -/
def next? (q : Fifo) : Option Word := q.sent[q.taken]?

/-- The number of words that wait. -/
def length (q : Fifo) : Nat := q.sent.size - q.taken

/-- Whether no word waits. -/
def isEmpty (q : Fifo) : Bool := q.next?.isNone

/-- Takes the next word out. -/
def tail (q : Fifo) : Fifo := { q with taken := q.taken + 1 }

/-- No more words have been taken out than were put in. -/
def Sound (q : Fifo) : Prop := q.taken ≤ q.sent.size

/-! ## Laws -/

@[simp] theorem toList_empty : empty.toList = [] := rfl

@[simp] theorem toList_ofList (words : List Word) : (ofList words).toList = words := rfl

@[simp] theorem length_toList (q : Fifo) : q.toList.length = q.length := by
  simp [toList, length]

theorem toList_push (q : Fifo) (w : Word) (h : q.taken ≤ q.sent.size) :
    (q.push w).toList = q.toList ++ [w] := by
  simp [toList, push, List.drop_append_of_le_length, h]

theorem head?_toList (q : Fifo) : q.toList.head? = q.next? := by
  simp [toList, next?]

theorem tail_toList (q : Fifo) : q.toList.tail = q.tail.toList := by
  simp [toList, tail]

theorem toList_of_next? {q : Fifo} {w : Word} (h : q.next? = some w) : q.toList = w :: q.tail.toList := by
  obtain ⟨rest, hl⟩ := List.head?_eq_some_iff.1 (q.head?_toList.trans h)
  rw [← q.tail_toList, hl]
  rfl

theorem next?_eq_none_iff (q : Fifo) : q.next? = none ↔ q.toList = [] := by
  rw [← q.head?_toList, List.head?_eq_none_iff]

theorem Sound.push {q : Fifo} (h : q.Sound) (w : Word) : (q.push w).Sound := by
  unfold Sound at h ⊢
  simp only [Fifo.push, Array.size_push]
  omega

theorem Sound.tail {q : Fifo} {w : Word} (h : q.next? = some w) : q.tail.Sound :=
  (Array.getElem?_eq_some_iff.1 h).1

end Fifo

end WordMachine
