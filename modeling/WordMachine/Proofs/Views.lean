import Mathlib.Data.List.Nodup
import Mathlib.Order.Nat
import WordMachine.Proofs.Storage

/-!
# Views of a memory

What has been stored can be looked at in four ways: by its length, by the dense region, by the list of the
sparse words, and as one list of words. This file shows that all of them show what `Memory.load` gives.

* `Memory.Holds` -- the addresses that a memory holds a word for, be it zero. `holds_store` says which a
  store adds: its own, and the gap that the dense region grows over;
* `Memory.length_store` -- the length is one past the highest of them, and so of all that was stored;
* `Memory.toList_eq` -- the list of all words, which the sparse words may be laid into in any order
  (`toListVisiting_eq_toList`);
* `Memory.held` -- the words of both places with their addresses, each of them once (`filter_held`);
* `Memory.views_agree` -- all this after any stores into any image.
-/

namespace WordMachine

namespace Sparse

theorem limit_le_iff (sparse : Sparse) (n : Nat) : sparse.limit ≤ n ↔ ∀ a ∈ sparse, a < n := by
  constructor
  · intro h a ha
    exact Nat.lt_of_lt_of_le (lt_limit_of_mem ha) h
  · intro h
    unfold limit
    split
    · next top htop =>
      exact h top (Std.ExtTreeMap.maxKey?_eq_some_iff_mem_and_forall.1 htop).1
    · exact Nat.zero_le n

/-- There is one order of the sparse words by their addresses: whatever order they come in, sorting leads
    to it. -/
theorem eq_toList_of_sorted {sparse : Sparse} {es : List (Nat × Word)} (hes : es.Perm sparse.toList)
    (hsorted : es.Pairwise fun e f => e.1 ≤ f.1) : es = sparse.toList := by
  refine hes.eq_of_pairwise (fun e f he hf hef hfe => ?_) hsorted
    (sparse.pairwise_toList.imp Nat.le_of_lt)
  have hword : sparse[e.1]? = some e.2 := (sparse.mem_toList_iff e).1 (hes.mem_iff.1 he)
  have hword' : sparse[f.1]? = some f.2 := (sparse.mem_toList_iff f).1 hf
  have hsame : e.1 = f.1 := Nat.le_antisymm hef hfe
  rw [hsame, hword'] at hword
  exact Prod.ext hsame (Option.some.inj hword).symm

end Sparse

namespace Memory

variable {m : Memory}

/-! ## 1. The addresses that are held -/

/-- **A memory holds a word** for an address in the dense region, and for the address of a sparse word. -/
def Holds (m : Memory) (a : Nat) : Prop := a < m.dense.size ∨ a ∈ m.sparse

instance (m : Memory) (a : Nat) : Decidable (m.Holds a) := inferInstanceAs (Decidable (_ ∨ _))

theorem holds_ofImage (image : List Word) (a : Nat) : (ofImage image).Holds a ↔ a < image.length := by
  simp [Holds, ofImage]

/-- The addresses that a grown memory holds are those below the new size and those held before. -/
theorem holds_grow {size : Nat} (h : m.dense.size ≤ size) (a : Nat) :
    (m.grow size).Holds a ↔ a < size ∨ m.Holds a := by
  have hsparse : a ∈ (m.grow size).sparse ↔ size ≤ a ∧ a ∈ m.sparse := by
    rw [grow_eq m size h, Std.ExtTreeMap.mem_iff_isSome_getElem?, Sparse.getElem?_dropBelow,
      Std.ExtTreeMap.mem_iff_isSome_getElem?]
    by_cases hle : size ≤ a <;> simp [hle]
  unfold Holds
  rw [size_grow h, hsparse]
  by_cases ha : a < size
  · simp [ha]
  · have hd : ¬ a < m.dense.size := by omega
    simp [ha, hd, Nat.le_of_not_lt ha]

theorem holds_setDense (m : Memory) (a : Nat) (v : Word) (b : Nat) :
    (m.setDense a v).Holds b ↔ m.Holds b := by
  simp [Holds, setDense]

/-- **What a store adds**: its own address, and all below it if the dense region grows to it. -/
theorem holds_store (m : Memory) (a : Nat) (v : Word) (b : Nat) :
    (m.store a v).Holds b ↔
      m.Holds b ∨ b = a ∨ (m.dense.size ≤ a ∧ a - m.dense.size < growthWindow ∧ b < a) := by
  by_cases hin : a < m.dense.size
  · have hb : b = a → m.Holds b := fun e => .inl (e ▸ hin)
    rw [store, if_pos hin, holds_setDense]
    simp only [Nat.not_le.2 hin, false_and, or_false]
    exact (or_iff_left_of_imp hb).symm
  · have hsize : m.dense.size ≤ a := Nat.not_lt.1 hin
    rw [store, if_neg hin]
    by_cases hnear : a - m.dense.size < growthWindow
    · rw [if_pos hnear, holds_setDense, holds_grow (by omega), Nat.lt_succ_iff_lt_or_eq]
      simp only [hsize, hnear, true_and]
      tauto
    · have hinsert : b ∈ m.sparse.insert a v ↔ a = b ∨ b ∈ m.sparse := by
        rw [Std.ExtTreeMap.mem_insert, Std.LawfulEqOrd.compare_eq_iff_eq]
      rw [if_neg hnear, Holds, hinsert, Holds]
      simp only [hnear, false_and, and_false, or_false]
      tauto

/-! ## 2. The length -/

/-- The length is one past the highest address that is held. -/
theorem length_le_iff (m : Memory) (n : Nat) : m.length ≤ n ↔ ∀ a, m.Holds a → a < n := by
  unfold length Holds
  rw [Nat.max_le, Sparse.limit_le_iff]
  constructor
  · intro h a ha
    rcases ha with ha | ha
    · exact Nat.lt_of_lt_of_le ha h.1
    · exact h.2 a ha
  · intro h
    refine ⟨?_, fun a ha => h a (.inr ha)⟩
    by_contra hlt
    exact absurd (h n (.inl (by omega))) (Nat.lt_irrefl n)

theorem lt_length_of_holds {a : Nat} (h : m.Holds a) : a < m.length :=
  (m.length_le_iff m.length).1 (Nat.le_refl _) a h

theorem length_ofImage (image : List Word) : (ofImage image).length = image.length := by
  refine eq_of_forall_ge_iff fun n => ?_
  rw [length_le_iff]
  simp only [holds_ofImage]
  exact ⟨fun h => by
    by_contra hlt
    exact absurd (h n (by omega)) (Nat.lt_irrefl n), fun h a ha => by omega⟩

/-- **A store makes the memory reach past its address**, wherever the word goes. -/
theorem length_store (m : Memory) (a : Nat) (v : Word) : (m.store a v).length = max m.length (a + 1) := by
  refine eq_of_forall_ge_iff fun n => ?_
  rw [length_le_iff, Nat.max_le, length_le_iff]
  simp only [holds_store]
  constructor
  · intro h
    exact ⟨fun b hb => h b (.inl hb), h a (.inr (.inl rfl))⟩
  · intro h b hb
    rcases hb with hb | rfl | ⟨-, -, hb⟩
    · exact h.1 b hb
    · exact h.2
    · exact Nat.lt_trans hb h.2

/-- **The length after stores** is the greatest of the length of the image and the ends of the stores. -/
theorem Stored.length_eq {image : List Word} {stores : List (Nat × Word)} (h : Stored image stores m) :
    m.length = (stores.map fun s => s.1 + 1).foldl max image.length := by
  induction h with
  | image => exact length_ofImage image
  | store stores m _ visit hv a v ih =>
    rw [storeVisiting_eq_store hv, length_store, ih, List.map_append, List.foldl_append]
    rfl

/-- What an image or a store has put somewhere is held. -/
theorem Stored.holds {image : List Word} {stores : List (Nat × Word)} (h : Stored image stores m) {a : Nat}
    (ha : a < image.length ∨ a ∈ stores.map Prod.fst) : m.Holds a := by
  induction h with
  | image =>
    rw [holds_ofImage]
    simpa using ha
  | store stores m _ visit hv b v ih =>
    rw [storeVisiting_eq_store hv, holds_store]
    rw [List.map_append, List.mem_append] at ha
    rcases ha with ha | ha | ha
    · exact .inl (ih (.inl ha))
    · exact .inl (ih (.inr ha))
    · exact .inr (.inl (List.mem_singleton.1 ha))

/-- An address that is not held reads as zero. -/
theorem load_of_not_holds {a : Nat} (h : ¬ m.Holds a) : m.load a = 0 := by
  obtain ⟨hdense, hsparse⟩ := not_or.1 h
  rw [load_eq, if_neg hdense, Std.ExtTreeMap.getElem?_eq_none hsparse]
  rfl

theorem load_of_length_le {a : Nat} (h : m.length ≤ a) : m.load a = 0 :=
  load_of_not_holds fun hheld => absurd (lt_length_of_holds hheld) (Nat.not_lt.2 h)

/-! ## 3. One list of words -/

theorem size_le_length (m : Memory) : m.dense.size ≤ m.length := Nat.le_max_left _ _

/-- **The list of all words** is what the addresses below the length hold. -/
theorem toList_eq (hm : m.Apart) : m.toList = (List.range m.length).map m.load := by
  have hsize := size_grow m.size_le_length
  refine List.ext_getElem? fun a => ?_
  rw [toList, Array.getElem?_toList, List.getElem?_map]
  by_cases ha : a < m.length
  · have hload := load_grow hm m.size_le_length a
    rw [load_eq, hsize, if_pos ha] at hload
    rw [List.getElem?_range ha, Array.getElem?_eq_getElem (by omega)]
    rw [Array.getElem?_eq_getElem (by omega)] at hload
    exact congrArg some hload
  · rw [Array.getElem?_eq_none (by omega), List.getElem?_eq_none (by simpa using Nat.not_lt.1 ha)]
    rfl

/-- The list of all words, with the sparse words laid into it in the order of a list. -/
def toListVisiting (visit : List (Nat × Word)) (m : Memory) : List Word :=
  if m.sparse.isEmpty then m.dense.toList else (visit.foldl Sparse.lay (m.padded m.length)).toList

theorem toListVisiting_eq_toList {visit : List (Nat × Word)} (hv : visit.Perm m.sparse.toList) :
    m.toListVisiting visit = m.toList := by
  unfold toListVisiting
  split
  · next hempty =>
    have hnone : m.sparse = ∅ := Std.ExtTreeMap.isEmpty_iff.1 hempty
    have hlength : m.length = m.dense.size := by
      unfold length
      rw [hnone, Sparse.limit, Std.ExtTreeMap.maxKey?_empty]
      exact Nat.max_eq_left (Nat.zero_le _)
    rw [toList, grow, hnone, hlength, Nat.sub_self]
    simp [Sparse.reachesBelow]
  · have hlaid : visit.foldl Sparse.lay (m.padded m.length) =
        m.sparse.layInto (m.padded m.length) := by
      refine Array.ext_getElem? fun a => ?_
      rw [Sparse.layInto_eq_foldl_lay,
        Sparse.getElem?_foldl_lay fun e he => (Sparse.mem_toList_iff _ e).1 (hv.mem_iff.1 he),
        Sparse.getElem?_foldl_lay fun e he => (Sparse.mem_toList_iff _ e).1 he]
      simp only [(hv.map Prod.fst).mem_iff]
    rw [toList, grow_eq m m.length m.size_le_length, hlaid]

/-- The list of all words is an image of the memory. -/
theorem load_ofImage_toList (hm : m.Apart) (a : Nat) : (ofImage m.toList).load a = m.load a := by
  rw [load_ofImage, toList_eq hm, List.getElem?_map]
  by_cases ha : a < m.length
  · rw [List.getElem?_range ha]
    rfl
  · rw [List.getElem?_eq_none (by simpa using Nat.not_lt.1 ha)]
    exact (load_of_length_le (Nat.not_lt.1 ha)).symm

/-! ## 4. Both places together -/

/-- The words that are held, with their addresses: the dense region, and the sparse words. -/
def held (m : Memory) : List (Nat × Word) := m.dense.toList.mapIdx Prod.mk ++ m.sparse.toList

theorem mem_held_iff (hm : m.Apart) (e : Nat × Word) : e ∈ m.held ↔ m.Holds e.1 ∧ m.load e.1 = e.2 := by
  obtain ⟨a, w⟩ := e
  unfold held Holds
  rw [List.mem_append, List.mem_mapIdx, Sparse.mem_toList_iff, load_eq]
  by_cases ha : a < m.dense.size
  · have hout : m.sparse[a]? ≠ some w := fun hw =>
      absurd (hm a (Sparse.mem_of_getElem? hw)) (Nat.not_le.2 ha)
    simp [ha, hout]
  · simp only [ha, false_or, if_false]
    constructor
    · intro h
      rcases h with ⟨i, hi, h⟩ | hw
      · cases h
        exact absurd (by simpa using hi) ha
      · exact ⟨Sparse.mem_of_getElem? hw, by rw [hw]; rfl⟩
    · intro h
      obtain ⟨v, hv⟩ := Option.isSome_iff_exists.1 (Std.ExtTreeMap.mem_iff_isSome_getElem?.1 h.1)
      have hw := h.2
      rw [hv] at hw
      exact .inr (hv.trans (congrArg some hw))

/-- The two places in one list are in the order of the addresses, so that none is there twice. -/
theorem pairwise_held (hm : m.Apart) : m.held.Pairwise fun e f => e.1 < f.1 := by
  refine List.pairwise_append.2 ⟨?_, m.sparse.pairwise_toList, ?_⟩
  · refine List.pairwise_iff_getElem.2 fun i j hi hj hij => ?_
    simpa using hij
  · intro e he f hf
    obtain ⟨i, hi, rfl⟩ := List.mem_mapIdx.1 he
    exact Nat.lt_of_lt_of_le (by simpa using hi) (hm.size_le_of_mem_toList hf)

/-- **Every word that is held is accounted for once**, in one of the two places. -/
theorem filter_held (hm : m.Apart) (a : Nat) :
    m.held.filter (fun e => e.1 = a) = if m.Holds a then [(a, m.load a)] else [] := by
  have hnodup : m.held.Nodup := by
    refine (pairwise_held hm).imp ?_
    rintro e _ hlt rfl
    exact Nat.lt_irrefl e.1 hlt
  split
  · next hheld =>
    refine List.perm_singleton.1 ((List.perm_ext_iff_of_nodup (hnodup.filter _)
      (List.nodup_singleton _)).2 fun e => ?_)
    rw [List.mem_filter, mem_held_iff hm, List.mem_singleton, decide_eq_true_eq]
    constructor
    · rintro ⟨⟨-, hload⟩, rfl⟩
      rw [hload]
    · rintro rfl
      exact ⟨⟨hheld, rfl⟩, rfl⟩
  · next hheld =>
    refine List.filter_eq_nil_iff.2 fun e he hea => hheld ?_
    rw [decide_eq_true_eq] at hea
    exact hea ▸ ((mem_held_iff hm e).1 he).1

/-! ## 5. All views of what has been stored -/

/-- **All views show what has been loaded from.** After any stores into an image:

* the length is the greatest of the length of the image and the ends of the stores, and what lies past it
  reads as zero;
* the list of all words is what the addresses below the length hold, in whatever order the sparse words
  are laid into it;
* the sparse words come in the order of their addresses, whatever order they are sorted from, and lie past
  the dense region;
* every address that a word is held for stands once in the two places together, with the word that a load
  gives, and every other address in neither. A word is held for every address of the image, for every
  address that was stored to, and for every address that does not read as zero;
* the list of all words, taken as an image, reads the same at every address. -/
theorem views_agree {image : List Word} {stores : List (Nat × Word)} (h : Stored image stores m) :
    (image.length :: stores.map fun s => s.1 + 1).max? = some m.length ∧
    (∀ a, m.length ≤ a → m.load a = 0) ∧
    (∀ visit : List (Nat × Word), visit.Perm m.sparse.toList →
      m.toListVisiting visit = (List.range m.length).map m.load) ∧
    m.toList = (List.range m.length).map m.load ∧
    (m.sparse.toList.Pairwise (fun e f => e.1 < f.1) ∧
      (∀ es : List (Nat × Word), es.Perm m.sparse.toList →
        (es.Pairwise fun e f => e.1 ≤ f.1) → es = m.sparse.toList) ∧
      ∀ e ∈ m.sparse.toList, m.dense.size ≤ e.1) ∧
    ((∀ a, m.held.filter (fun e => e.1 = a) = if m.Holds a then [(a, m.load a)] else []) ∧
      (∀ a, a < image.length ∨ a ∈ stores.map Prod.fst → m.Holds a) ∧
      ∀ a, m.load a ≠ 0 → m.Holds a) ∧
    ∀ a, (ofImage m.toList).load a = m.load a := by
  have hm := h.apart
  refine ⟨?_, fun a => load_of_length_le, fun visit hv => ?_, toList_eq hm,
    ⟨m.sparse.pairwise_toList, fun es => Sparse.eq_toList_of_sorted, fun e => hm.size_le_of_mem_toList⟩,
    ⟨filter_held hm, fun a => h.holds, fun a ha => ?_⟩, load_ofImage_toList hm⟩
  · rw [List.max?_cons', h.length_eq]
  · rw [toListVisiting_eq_toList hv, toList_eq hm]
  · by_contra hheld
    exact ha (load_of_not_holds hheld)

/-- No image, a word that the dense region has grown over, and a zero stored far out: the zero counts. -/
theorem views_agree_far_zero :
    ((ofImage []).storeAll [(70000, 5), (40000, 2), (80000, 1), (200000, 0)]).length = 200001 ∧
    ((ofImage []).storeAll [(70000, 5), (40000, 2), (80000, 1), (200000, 0)]).held.filter
      (fun e => e.1 = 70000) = [(70000, 5)] ∧
    ((ofImage []).storeAll [(70000, 5), (40000, 2), (80000, 1), (200000, 0)]).held.filter
      (fun e => e.1 = 200000) = [(200000, 0)] := by
  have hstored := stored_storeAll [] [(70000, 5), (40000, 2), (80000, 1), (200000, 0)]
  obtain ⟨hlength, -, -, -, -, ⟨hheld, hstore, -⟩, -⟩ := views_agree hstored
  refine ⟨Option.some.inj (hlength.symm.trans (by decide)), ?_, ?_⟩
  · refine (hheld 70000).trans ?_
    rw [if_pos (hstore 70000 (.inr (by decide))), hstored.load_eq]
    rfl
  · refine (hheld 200000).trans ?_
    rw [if_pos (hstore 200000 (.inr (by decide))), hstored.load_eq]
    rfl

end Memory

end WordMachine
