import Std.Data.ExtTreeMap
import WordMachine.Word

/-!
# Sparse words

Words stored far past the end of the dense region of memory, one by one, so that a store to a huge
address costs no more than a store to a small one. They are kept by their address in a search tree;
two trees with the same words at the same addresses are equal.

* `Sparse.limit` -- one past the highest address;
* `Sparse.layInto` -- the words written into an array that has grown over them;
* `Sparse.dropBelow` -- the words that are left outside the array;
* `Sparse.reachesBelow` -- whether the array has grown over a word at all.
-/

namespace WordMachine

/-- Words by address. -/
abbrev Sparse := Std.ExtTreeMap Nat Word

namespace Sparse

/-- One past the highest address; 0 if there is no word. -/
def limit (sparse : Sparse) : Nat :=
  match sparse.maxKey? with
  | some address => address + 1
  | none => 0

/-- Writes every word whose address lies in an array into the array. -/
def layInto (sparse : Sparse) (words : Array Word) : Array Word :=
  sparse.foldl (fun ws address word => ws.setIfInBounds address word) words

/-- The words from an address on. -/
def dropBelow (bound : Nat) (sparse : Sparse) : Sparse :=
  sparse.filter fun address _ => bound ≤ address

/-- Whether there is a word below an address. -/
def reachesBelow (bound : Nat) (sparse : Sparse) : Bool := sparse.minKey?.any (· < bound)

/-! ## Laws -/

theorem reachesBelow_eq_true_iff (bound : Nat) (sparse : Sparse) :
    sparse.reachesBelow bound = true ↔ ∃ address ∈ sparse, address < bound := by
  unfold reachesBelow
  cases hm : sparse.minKey? with
  | none =>
    rw [Std.ExtTreeMap.minKey?_eq_none_iff] at hm
    subst hm
    simp
  | some least =>
    obtain ⟨hmem, hle⟩ := Std.ExtTreeMap.minKey?_eq_some_iff_mem_and_forall.1 hm
    simp only [Option.any_some, decide_eq_true_eq]
    constructor
    · intro h
      exact ⟨least, hmem, h⟩
    · rintro ⟨address, ha, hlt⟩
      have := Nat.isLE_compare.1 (hle address ha)
      omega

/-- A word stays exactly if its address is not below the bound. -/
theorem getElem?_dropBelow (bound address : Nat) (sparse : Sparse) :
    (sparse.dropBelow bound)[address]? = if bound ≤ address then sparse[address]? else none := by
  have h : (sparse.dropBelow bound)[address]? =
      sparse[address]?.filter fun _ => decide (bound ≤ address) :=
    Std.ExtTreeMap.getElem?_filter'
  rw [h]
  by_cases hb : bound ≤ address <;> cases sparse[address]? <;> simp [hb]

/-- The addresses of the words are below the limit. -/
theorem lt_limit_of_mem {sparse : Sparse} {address : Nat} (h : address ∈ sparse) :
    address < sparse.limit := by
  unfold limit
  split
  · next top hm =>
    have hle := (Std.ExtTreeMap.maxKey?_eq_some_iff_mem_and_forall.1 hm).2 address h
    have := Nat.isLE_compare.1 hle
    omega
  · next hm =>
    rw [Std.ExtTreeMap.maxKey?_eq_none_iff] at hm
    subst hm
    simp at h

end Sparse

end WordMachine
