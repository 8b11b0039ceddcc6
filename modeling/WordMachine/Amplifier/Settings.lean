import WordMachine.Turn
import WordMachine.Word

/-!
# Phase settings

Amplifiers are set to consecutive phases, each to another one, and every order of the settings is
worth a try.

* `Settings.swaps` -- the pairs of positions to exchange, one after the other, so that every order
  comes up once. All orders of the lower positions are gone through before the next position takes
  part, and again after each of its exchanges;
* `Settings.orderings?` -- the settings in increasing order, and then the order after each exchange;
* `Settings.Search` -- the same orders by a loop, which counts the exchanges of each position;
* `Settings.best` -- the order with the largest answer, the earliest of equals.
-/

namespace WordMachine.Settings

/-! ## 1. The orders -/

/-- The settings from `first` on; `none` if they would pass the largest word. -/
def range? (first : Word) (count : Nat) : Option (List Word) :=
  if count ≠ 0 ∧ Word.maxInt < first.toInt + count then none
  else some ((List.range count).map fun (k : Nat) => Int64.ofInt (first.toInt + k))

/-- The position that the `turn`-th exchange of a position goes to. -/
def partner (position turn : Nat) : Nat := if position % 2 = 0 then 0 else turn

theorem partner_lt {position turn : Nat} (h : turn < position) : partner position turn < position := by
  unfold partner
  split <;> omega

/-- The exchanges that go through every order of the positions below `count`. -/
def swaps : Nat → List (Nat × Nat)
  | 0 => []
  | position + 1 =>
    swaps position ++
      (List.range position).flatMap fun turn => (partner position turn, position) :: swaps position

/-- The orders that exchanges lead to, beginning with the given one. -/
def ordersFrom (order : Array Word) : List (Nat × Nat) → List (List Word)
  | [] => [order.toList]
  | (i, j) :: rest => order.toList :: ordersFrom (order.swapIfInBounds i j) rest

/-- Every order of the settings from `first` on. -/
def orderings? (first : Word) (count : Nat) : Option (List (List Word)) :=
  (range? first count).map fun settings => ordersFrom settings.toArray (swaps count)

/-! ## 2. The orders as a loop -/

/-- The state of the loop: the order at hand, the orders found, how often each position has been
    exchanged since it was last reset, and the position to look at. -/
structure Search (count : Nat) where
  order : Vector Word count
  found : Array (List Word)
  counters : Vector Nat count
  position : Nat

namespace Search

variable {count : Nat}

/-- The loop begins with the settings as they are, and no position has been exchanged. -/
def start (settings : Vector Word count) : Search count where
  order := settings
  found := #[settings.toList]
  counters := .replicate count 0
  position := 1

/-- One turn: a position that has not had all its exchanges gets the next one, and the loop begins again
    with the lowest position; otherwise the position is reset, and the next one has its turn. -/
def turn (s : Search count) : Turn (Search count) (List (List Word)) :=
  if hposition : s.position < count then
    let counter := s.counters[s.position]
    if hcounter : counter < s.position then
      let order := s.order.swap (partner s.position counter) s.position
        (Nat.lt_trans (partner_lt hcounter) hposition) hposition
      .more
        { order
          found := s.found.push order.toList
          counters := s.counters.set s.position (counter + 1)
          position := 1 }
    else .more { s with counters := s.counters.set s.position 0, position := s.position + 1 }
  else .done s.found.toList

end Search

/-! ## 3. The best order -/

/-- The order with the largest answer, and the answer: an order takes the place of the best so far
    only if its answer is larger. -/
def best {m : Type → Type} [Monad m] (answer : List Word → m Word) :
    Option (List Word × Word) → List (List Word) → m (Option (List Word × Word))
  | sofar, [] => pure sofar
  | sofar, order :: rest => do
    let value ← answer order
    match sofar with
    | none => best answer (some (order, value)) rest
    | some (_, top) => best answer (if top < value then some (order, value) else sofar) rest

end WordMachine.Settings
