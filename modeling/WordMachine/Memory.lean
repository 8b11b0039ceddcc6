import WordMachine.Memory.Sparse

/-!
# Memory

Memory is an endless row of words, one for each address. It starts as an image and is zero
everywhere else. What is stored lies in two places:

* the dense region, an array that begins at address 0 and holds the image; it grows when a store
  falls at most `Memory.growthWindow` words past its end;
* the sparse words, for stores farther out. When the dense region grows over a sparse word, the
  word moves into it.

`Memory.load` and `Memory.store` are the two operations; `Memory.length`, `Memory.toList` and
`Memory.footprint` look at what has been stored.
-/

namespace WordMachine

/-- The stored words: a dense region from address 0, and single words past it. -/
structure Memory where
  dense : Array Word
  sparse : Sparse
  deriving DecidableEq, Inhabited

namespace Memory

/-- How far past its end the dense region grows to take in a store. -/
def growthWindow : Nat := 65536

/-- The memory whose first words are the given ones. -/
def ofImage (image : List Word) : Memory := ⟨image.toArray, ∅⟩

/-! ## 1. Load and store -/

/-- The word at an address. -/
def load (m : Memory) (address : Nat) : Word :=
  if h : address < m.dense.size then m.dense[address]
  else m.sparse[address]?.getD 0

/-- Extends the dense region to a size, with zeros and with the sparse words that it grows over. -/
def grow (m : Memory) (size : Nat) : Memory :=
  let dense := m.dense ++ Array.replicate (size - m.dense.size) 0
  if m.sparse.reachesBelow size then ⟨m.sparse.layInto dense, m.sparse.dropBelow size⟩
  else ⟨dense, m.sparse⟩

/-- Writes into the dense region. -/
def setDense (m : Memory) (address : Nat) (value : Word) : Memory :=
  { m with dense := m.dense.setIfInBounds address value }

/-- Writes the word at an address. -/
def store (m : Memory) (address : Nat) (value : Word) : Memory :=
  if address < m.dense.size then m.setDense address value
  else if address - m.dense.size < growthWindow then (m.grow (address + 1)).setDense address value
  else { m with sparse := m.sparse.insert address value }

/-- Stores one after the other. -/
def storeAll (m : Memory) (stores : List (Nat × Word)) : Memory :=
  stores.foldl (fun m s => m.store s.1 s.2) m

/-! ## 2. Views -/

/-- One past the highest address that has been stored. -/
def length (m : Memory) : Nat := max m.dense.size m.sparse.limit

/-- Whether nothing has been stored. -/
def isEmpty (m : Memory) : Bool := m.length == 0

/-- Every word below `length`, the gaps as zeros. -/
def toList (m : Memory) : List Word := (m.grow m.length).dense.toList

/-- The bytes that the stored words take: 8 for a dense word, 16 for a sparse one with its
    address. -/
def footprint (m : Memory) : Nat := 8 * m.dense.size + 16 * m.sparse.size

end Memory

end WordMachine
