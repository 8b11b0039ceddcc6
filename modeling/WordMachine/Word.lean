/-!
# Words

A word is the one kind of number the machine knows: a signed number of 64 bits whose sums and
products wrap around. This file fixes how a word

* names a memory address (`Word.address?`): every word that is not negative names one;
* is added to a base without leaving the word range (`Word.addClamped`);
* is written (`Word.decimal`).
-/

namespace WordMachine

/-- A word: a signed 64-bit number. `+` and `*` wrap around. -/
abbrev Word := Int64

namespace Word

/-! ## 1. The range of words -/

/-- The largest word, as an integer. -/
def maxInt : Int := 9223372036854775807

/-- The smallest word, as an integer. -/
def minInt : Int := -9223372036854775808

/-- The word nearest to an integer: an integer outside the word range goes to the end of the
    range that it lies beyond. -/
def clamp (n : Int) : Word :=
  if n < minInt then Int64.ofInt minInt
  else if maxInt < n then Int64.ofInt maxInt
  else Int64.ofInt n

/-- The sum of two words, clamped to the word range instead of wrapped. -/
def addClamped (a b : Word) : Word := clamp (a.toInt + b.toInt)

/-- The word 1 for a truth, 0 for a falsehood. -/
def ofBool (b : Bool) : Word := if b then 1 else 0

/-- The largest number that 64 bits without sign can count to. -/
def countLimit : Nat := 18446744073709551615

/-! ## 2. Addresses -/

/-- The address that a word names; a negative word names none. -/
def address? (w : Word) : Option Nat :=
  if w.toInt < 0 then none else some w.toInt.toNat

theorem address?_eq_none_iff (w : Word) : address? w = none ↔ w.toInt < 0 := by
  unfold address?
  split <;> simp_all

theorem address?_eq_some_iff (w : Word) (a : Nat) : address? w = some a ↔ w.toInt = a := by
  unfold address?
  split
  · simp only [reduceCtorEq, false_iff]
    omega
  · simp only [Option.some.injEq]
    omega

/-! ## 3. Text -/

/-- The decimal text of a word: a minus sign if it is negative, then its digits. -/
def decimal (w : Word) : String := toString w.toInt

end Word

end WordMachine
