import WordMachine.Disassembly

/-!
# Listings

A listing is the disassembly of everything that memory holds, with one address, the anchor, sure to
begin an entry of its own.

* `Memory.sweep` -- the entries of a stretch of memory, one instruction after the other. An
  instruction that would run over the anchor is given as single words up to the anchor.
* `Memory.listing` -- the dense region; around an anchor outside it, a window of
  `listingWindow` words to each side; and the sparse words outside the window, one by one. Entries
  are ordered by address.
-/

namespace WordMachine

/-- The number of words listed before and after an anchor outside the dense region. -/
def listingWindow : Nat := 32

namespace Memory

/-- The single words of a stretch of memory, after the entries so far. -/
def wordsBetween (m : Memory) (start stop : Nat) (entries : Array Entry) : Array Entry :=
  (List.range' start (stop - start)).foldl (fun es a => es.push (m.wordAt a)) entries

/-- Sweeps from an address to `stop`, after the entries so far. Also returns the address after the
    last entry, which may lie past `stop`. -/
def sweep (m : Memory) (anchor stop address : Nat) (entries : Array Entry) : Array Entry × Nat :=
  if address < stop then
    let entry := m.entryAt address
    if address < anchor ∧ anchor < address + entry.width then
      m.sweep anchor stop anchor (m.wordsBetween address anchor entries)
    else
      m.sweep anchor stop (address + entry.width) (entries.push entry)
  else (entries, address)
termination_by stop - address
decreasing_by
  · omega
  · have : 0 < (m.entryAt address).width := Entry.width_pos _
    omega

/-- The listing of a memory, anchored at an address. -/
def listing (m : Memory) (anchor : Nat) : List Entry :=
  let (dense, swept) := m.sweep anchor m.dense.size 0 #[]
  let start := max (anchor - listingWindow) swept
  let stop := anchor + listingWindow
  let far := decide (m.dense.size ≤ anchor)
  let code := if far then (m.sweep anchor stop start dense).1 else dense
  let outside := m.sparse.toList.filter fun e =>
    !(far && decide (start ≤ e.1) && decide (e.1 < stop))
  code.toList.merge (outside.map fun e => ⟨e.1, .data e.2⟩) fun e f => e.address ≤ f.address

end Memory

end WordMachine
