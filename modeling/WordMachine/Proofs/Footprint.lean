import Mathlib.Tactic.Ring
import WordMachine.Proofs.Views

/-!
# How much memory takes

A store may fall anywhere, and yet memory is to take no more than what was put into it calls for: a word far
out is kept by itself, and only a gap shorter than `Memory.growthWindow` is filled. This file says how far.

* `Memory.size_store`, `Memory.size_sparse_store_le` -- what one store adds to the dense region and to the
  sparse words;
* `Memory.Stored.size_le`, `Memory.Stored.size_sparse_le` -- what any number of stores adds;
* `Memory.footprint_bounded` -- the bytes.
-/

namespace WordMachine.Memory

variable {m : Memory} {image : List Word} {stores : List (Nat × Word)}

/-! ## 1. One store -/

/-- **The dense region after a store**: it reaches just past the address if that lies in the window, and
    otherwise it is as long as before. -/
theorem size_store (m : Memory) (a : Nat) (v : Word) :
    (m.store a v).dense.size =
      if m.dense.size ≤ a ∧ a - m.dense.size < growthWindow then a + 1 else m.dense.size := by
  unfold store
  by_cases hin : a < m.dense.size
  · rw [if_pos hin, if_neg fun h => absurd hin (Nat.not_lt.2 h.1)]
    exact Array.size_setIfInBounds
  · have hsize : m.dense.size ≤ a := Nat.not_lt.1 hin
    rw [if_neg hin]
    by_cases hnear : a - m.dense.size < growthWindow
    · rw [if_pos hnear, if_pos ⟨hsize, hnear⟩]
      exact Array.size_setIfInBounds.trans (size_grow (by omega))
    · rw [if_neg hnear, if_neg fun h => hnear h.2]

theorem size_le_size_store (m : Memory) (a : Nat) (v : Word) :
    m.dense.size ≤ (m.store a v).dense.size := by
  rw [size_store]
  split <;> omega

theorem size_store_le (m : Memory) (a : Nat) (v : Word) :
    (m.store a v).dense.size ≤ m.dense.size + growthWindow := by
  rw [size_store]
  split <;> omega

/-- Growing only takes sparse words away. -/
theorem size_sparse_grow_le (m : Memory) {size : Nat} (h : m.dense.size ≤ size) :
    (m.grow size).sparse.size ≤ m.sparse.size := by
  rw [grow_eq m size h]
  exact Std.ExtTreeMap.size_filter_le_size

/-- **A store adds one sparse word at most.** -/
theorem size_sparse_store_le (m : Memory) (a : Nat) (v : Word) :
    (m.store a v).sparse.size ≤ m.sparse.size + 1 := by
  unfold store
  by_cases hin : a < m.dense.size
  · rw [if_pos hin]
    exact Nat.le_succ _
  · rw [if_neg hin]
    by_cases hnear : a - m.dense.size < growthWindow
    · rw [if_pos hnear]
      exact Nat.le_succ_of_le (m.size_sparse_grow_le (by omega))
    · rw [if_neg hnear]
      exact Std.ExtTreeMap.size_insert_le

/-! ## 2. Any number of stores -/

theorem size_le_size_storeAll (m : Memory) (stores : List (Nat × Word)) :
    m.dense.size ≤ (m.storeAll stores).dense.size := by
  induction stores generalizing m with
  | nil => exact Nat.le_refl _
  | cons s rest ih => exact Nat.le_trans (m.size_le_size_store s.1 s.2) (ih _)

/-- More stores do not make the dense region shorter. -/
theorem Stored.size_mono {more : List (Nat × Word)} {m' : Memory} (h : Stored image stores m)
    (h' : Stored image (stores ++ more) m') : m.dense.size ≤ m'.dense.size := by
  have hlater : m' = m.storeAll more := by
    rw [h'.eq_storeAll, h.eq_storeAll]
    exact List.foldl_append
  rw [hlater]
  exact m.size_le_size_storeAll more

theorem Stored.size_le (h : Stored image stores m) :
    m.dense.size ≤ image.length + stores.length * growthWindow := by
  induction h with
  | image => exact Nat.le_add_right _ _
  | store stores m _ visit hv a v ih =>
    rw [storeVisiting_eq_store hv, List.length_append, List.length_singleton, Nat.succ_mul]
    have hstore := m.size_store_le a v
    omega

theorem Stored.size_sparse_le (h : Stored image stores m) : m.sparse.size ≤ stores.length := by
  induction h with
  | image => exact Nat.le_refl 0
  | store stores m _ visit hv a v ih =>
    rw [storeVisiting_eq_store hv, List.length_append, List.length_singleton]
    exact Nat.le_trans (m.size_sparse_store_le a v) (Nat.succ_le_succ ih)

/-- An address is held in one of the two places only. -/
theorem Apart.place_of_holds (hm : m.Apart) {a : Nat} (h : m.Holds a) :
    (a < m.dense.size ∧ a ∉ m.sparse) ∨ (m.dense.size ≤ a ∧ a ∈ m.sparse) := by
  rcases h with hdense | hsparse
  · exact .inl ⟨hdense, fun hsparse => absurd (hm a hsparse) (Nat.not_le.2 hdense)⟩
  · exact .inr ⟨hm a hsparse, hsparse⟩

/-! ## 3. The bytes -/

/-- **Memory never takes up a wide gap.** After any stores into an image, with the sparse words visited in
    any order:

* no further stores make the dense region shorter, and one that falls `growthWindow` words or more past its
  end leaves it as it is;
* the dense region has the words of the image and at most `growthWindow` more for each store, and there is
  at most one sparse word for each store;
* every address that was stored to lies in the dense region or is that of a sparse word, and not both;
* the bytes counted are 8 for each word of the dense region and 16 for each sparse word, and so there are no
  more of them than the length of the image and the number of stores allow, however far out these fell. -/
theorem footprint_bounded (h : Stored image stores m) :
    ((∀ more m', Stored image (stores ++ more) m' → m.dense.size ≤ m'.dense.size) ∧
      ∀ visit : List (Nat × Word), visit.Perm m.sparse.toList →
        ∀ a v, m.dense.size + growthWindow ≤ a → (m.storeVisiting visit a v).dense.size = m.dense.size) ∧
    m.dense.size ≤ image.length + stores.length * growthWindow ∧
    m.sparse.size ≤ stores.length ∧
    (∀ a ∈ stores.map Prod.fst,
      (a < m.dense.size ∧ a ∉ m.sparse) ∨ (m.dense.size ≤ a ∧ a ∈ m.sparse)) ∧
    m.footprint = 8 * m.dense.size + 16 * m.sparse.size ∧
    m.footprint ≤ 8 * image.length + stores.length * (8 * growthWindow + 16) := by
  have hdense := h.size_le
  have hsparse := h.size_sparse_le
  refine ⟨⟨fun more m' => h.size_mono, fun visit hv a v hfar => ?_⟩, hdense, hsparse,
    fun a ha => h.apart.place_of_holds (h.holds (.inr ha)), rfl, ?_⟩
  · rw [storeVisiting_eq_store hv, size_store, if_neg (by omega)]
  · calc m.footprint
      _ = 8 * m.dense.size + 16 * m.sparse.size := rfl
      _ ≤ 8 * (image.length + stores.length * growthWindow) + 16 * stores.length := by omega
      _ = 8 * image.length + stores.length * (8 * growthWindow + 16) := by ring

/-- A store to the last address that the dense region grows to, and then one to the first address past the
    window, which is as far from the new end: its word stays by itself, and a second store there changes
    nothing in that. -/
theorem footprint_bounded_window_edge :
    let m := (ofImage [7]).storeAll [(65536, 1), (131073, 2)]
    Stored [7] [(65536, 1), (131073, 2)] m ∧
    m.dense.size = 65537 ∧ m.sparse.size ≤ 2 ∧ (m.dense.size ≤ 131073 ∧ 131073 ∈ m.sparse) ∧
    (m.storeVisiting m.sparse.toList 131073 4).dense.size = 65537 ∧
    m.footprint ≤ 8 * 1 + 2 * (8 * growthWindow + 16) := by
  intro m
  have hstored : Stored [7] [(65536, 1), (131073, 2)] m := stored_storeAll _ _
  have hsize : m.dense.size = 65537 := by
    show (((ofImage [7]).store 65536 1).store 131073 2).dense.size = 65537
    rw [size_store, size_store]
    decide
  obtain ⟨⟨-, hfar⟩, -, hsparse, hplace, -, hbytes⟩ := footprint_bounded hstored
  have hedge := (hplace 131073 (by decide)).resolve_left fun h => by omega
  have hwindow : growthWindow = 65536 := rfl
  exact ⟨hstored, hsize, hsparse, hedge, (hfar _ (.refl _) 131073 4 (by omega)).trans hsize, hbytes⟩

end WordMachine.Memory
