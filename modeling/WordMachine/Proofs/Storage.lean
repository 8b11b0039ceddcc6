import WordMachine.Memory

/-!
# Storage: memory is what was stored

Memory keeps its words in two places, and a store may move words from one place to the other. This
file shows that none of this can be seen through `Memory.load`:

* `Memory.Apart` -- the invariant: the sparse words lie past the dense region. Every store keeps it
  (`Apart.store`), and without it a stale sparse word could come back;
* `Memory.load_store` -- a load sees a store at its own address and nowhere else;
* `Memory.storeVisiting` -- the store that takes the sparse words into a grown region one by one, in
  an order that is not fixed. Every order leaves the same memory as `Memory.store`
  (`storeVisiting_eq_store`);
* `Memory.Stored` -- the memories that an image and a list of stores lead to, in any order of
  visiting; `load_of_stored` says what each of their addresses holds.
-/

namespace WordMachine

/-! ## 1. Words written into an array -/

namespace Sparse

/-- Writes one word with its address into an array; an address past the end changes nothing. -/
def lay (words : Array Word) (entry : Nat × Word) : Array Word :=
  words.setIfInBounds entry.1 entry.2

theorem size_foldl_lay (entries : List (Nat × Word)) (words : Array Word) :
    (entries.foldl lay words).size = words.size := by
  induction entries generalizing words with
  | nil => rfl
  | cons e rest ih =>
    rw [List.foldl_cons, ih]
    exact Array.size_setIfInBounds

/-- What an array holds after words of `sparse` have been written into it, in any order and any of
    them more than once. -/
theorem getElem?_foldl_lay {sparse : Sparse} {entries : List (Nat × Word)}
    (h : ∀ e ∈ entries, sparse[e.1]? = some e.2) (words : Array Word) (a : Nat) :
    (entries.foldl lay words)[a]? =
      if a < words.size ∧ a ∈ entries.map Prod.fst then sparse[a]? else words[a]? := by
  induction entries generalizing words with
  | nil => simp
  | cons e rest ih =>
    have he := h e List.mem_cons_self
    rw [List.foldl_cons, ih fun e' h' => h e' (List.mem_cons_of_mem _ h')]
    simp only [lay, Array.size_setIfInBounds, Array.getElem?_setIfInBounds, List.map_cons,
      List.mem_cons]
    by_cases hlt : a < words.size
    · by_cases hae : e.1 = a
      · subst hae
        simp [hlt, he]
      · have hea : ¬ a = e.1 := fun e' => hae e'.symm
        simp only [hae, hea, false_or, if_false]
    · by_cases hae : e.1 = a
      · subst hae
        simp [hlt]
      · simp [hlt, hae]

theorem layInto_eq_foldl_lay (sparse : Sparse) (words : Array Word) :
    sparse.layInto words = sparse.toList.foldl lay words :=
  Std.ExtTreeMap.foldl_eq_foldl_toList

theorem mem_toList_iff (sparse : Sparse) (e : Nat × Word) :
    e ∈ sparse.toList ↔ sparse[e.1]? = some e.2 :=
  Std.ExtTreeMap.mem_toList_iff_getElem?_eq_some

theorem mem_of_getElem? {sparse : Sparse} {a : Nat} {w : Word} (h : sparse[a]? = some w) : a ∈ sparse :=
  Std.ExtTreeMap.mem_iff_isSome_getElem?.2 (Option.isSome_iff_exists.2 ⟨w, h⟩)

theorem mem_map_fst_toList_iff (sparse : Sparse) (a : Nat) :
    a ∈ sparse.toList.map Prod.fst ↔ (sparse[a]?).isSome := by
  rw [List.mem_map, Option.isSome_iff_exists]
  constructor
  · rintro ⟨e, he, rfl⟩
    exact ⟨e.2, (sparse.mem_toList_iff e).1 he⟩
  · rintro ⟨v, hv⟩
    exact ⟨(a, v), (sparse.mem_toList_iff (a, v)).2 hv, rfl⟩

/-- The sparse words are listed in the order of their addresses. -/
theorem pairwise_toList (sparse : Sparse) : sparse.toList.Pairwise fun e f => e.1 < f.1 :=
  Std.ExtTreeMap.ordered_keys_toList.imp Nat.compare_eq_lt.1

theorem size_layInto (sparse : Sparse) (words : Array Word) :
    (sparse.layInto words).size = words.size := by
  rw [layInto_eq_foldl_lay, size_foldl_lay]

theorem getElem?_layInto (sparse : Sparse) (words : Array Word) (a : Nat) :
    (sparse.layInto words)[a]? =
      if a < words.size then sparse[a]?.or words[a]? else none := by
  rw [layInto_eq_foldl_lay, getElem?_foldl_lay fun e he => (sparse.mem_toList_iff e).1 he]
  simp only [mem_map_fst_toList_iff]
  by_cases hlt : a < words.size
  · cases sparse[a]? <;> simp [hlt]
  · simp [hlt]

end Sparse

namespace Memory

/-! ## 2. Load and store -/

/-- **The invariant of memory**: the sparse words lie past the dense region. -/
def Apart (m : Memory) : Prop := ∀ a ∈ m.sparse, m.dense.size ≤ a

theorem Apart.size_le_of_mem_toList {m : Memory} (hm : m.Apart) {e : Nat × Word}
    (he : e ∈ m.sparse.toList) : m.dense.size ≤ e.1 :=
  hm e.1 (Sparse.mem_of_getElem? ((m.sparse.mem_toList_iff e).1 he))

theorem apart_ofImage (image : List Word) : (ofImage image).Apart := by
  intro a ha
  simp [ofImage] at ha

theorem load_eq (m : Memory) (a : Nat) :
    m.load a = if a < m.dense.size then m.dense[a]?.getD 0 else m.sparse[a]?.getD 0 := by
  unfold load
  split
  · next h => simp [h]
  · rfl

theorem load_of_sparse {m : Memory} (hm : m.Apart) {a : Nat} {w : Word} (h : m.sparse[a]? = some w) :
    m.load a = w := by
  rw [load_eq, if_neg (Nat.not_lt.2 (hm a (Sparse.mem_of_getElem? h))), h]
  rfl

theorem load_ofImage (image : List Word) (a : Nat) : (ofImage image).load a = image[a]?.getD 0 := by
  rw [load_eq]
  by_cases h : a < image.length
  · simp [ofImage, h]
  · have hnone : image[a]? = none := List.getElem?_eq_none (by omega)
    simp [ofImage, h]

/-- The dense region with zeros up to a size. -/
def padded (m : Memory) (size : Nat) : Array Word :=
  m.dense ++ Array.replicate (size - m.dense.size) 0

theorem size_padded {m : Memory} {size : Nat} (h : m.dense.size ≤ size) :
    (m.padded size).size = size := by
  simp only [padded, Array.size_append, Array.size_replicate]
  omega

theorem getElem?_padded (m : Memory) (size a : Nat) :
    (m.padded size)[a]?.getD 0 = m.dense[a]?.getD 0 := by
  unfold padded
  rw [Array.getElem?_append]
  split
  · rfl
  · next h =>
    have hnone : m.dense[a]? = none := Array.getElem?_eq_none (by omega)
    rw [Array.getElem?_replicate, hnone]
    split <;> rfl

/-- Growing may be told without the shortcut for sparse words that all lie further out. -/
theorem grow_eq (m : Memory) (size : Nat) (h : m.dense.size ≤ size) :
    m.grow size = ⟨m.sparse.layInto (m.padded size), m.sparse.dropBelow size⟩ := by
  show (if m.sparse.reachesBelow size then _ else _) = _
  by_cases hr : m.sparse.reachesBelow size = true
  · rw [if_pos hr]
    rfl
  · rw [if_neg hr]
    rw [Sparse.reachesBelow_eq_true_iff] at hr
    have hnone : ∀ a, a < size → m.sparse[a]? = none := by
      intro a ha
      cases hv : m.sparse[a]? with
      | none => rfl
      | some v => exact absurd ⟨a, Sparse.mem_of_getElem? hv, ha⟩ hr
    have hdense : m.sparse.layInto (m.padded size) = m.padded size := by
      apply Array.ext_getElem?
      intro a
      rw [Sparse.getElem?_layInto, size_padded h]
      by_cases ha : a < size
      · simp [ha, hnone a ha]
      · rw [if_neg ha, Array.getElem?_eq_none (by rw [size_padded h]; omega)]
    have hsparse : m.sparse.dropBelow size = m.sparse := by
      apply Std.ExtTreeMap.ext_getElem?
      intro a
      rw [Sparse.getElem?_dropBelow]
      by_cases ha : size ≤ a
      · rw [if_pos ha]
      · rw [if_neg ha, hnone a (by omega)]
    rw [hdense, hsparse]
    rfl

theorem size_grow {m : Memory} {size : Nat} (h : m.dense.size ≤ size) :
    (m.grow size).dense.size = size := by
  rw [grow_eq m size h]
  exact (Sparse.size_layInto _ _).trans (size_padded h)

theorem Apart.grow {m : Memory} {size : Nat} (h : m.dense.size ≤ size) : (m.grow size).Apart := by
  intro a ha
  rw [size_grow h]
  rw [grow_eq m size h, Std.ExtTreeMap.mem_iff_isSome_getElem?, Sparse.getElem?_dropBelow] at ha
  by_cases hle : size ≤ a
  · exact hle
  · simp [hle] at ha

/-- Growing cannot be seen: the sparse words that the region grows over are found in it. -/
theorem load_grow {m : Memory} (hm : m.Apart) {size : Nat} (h : m.dense.size ≤ size) (a : Nat) :
    (m.grow size).load a = m.load a := by
  rw [load_eq, load_eq, size_grow h, grow_eq m size h]
  simp only
  rw [Sparse.getElem?_layInto, Sparse.getElem?_dropBelow, size_padded h]
  by_cases ha : a < size
  · rw [if_pos ha, if_pos ha]
    by_cases hd : a < m.dense.size
    · -- below the old end there is no sparse word that could overwrite
      have hnone : m.sparse[a]? = none := by
        cases hv : m.sparse[a]? with
        | none => rfl
        | some v =>
          have := hm a (Sparse.mem_of_getElem? hv)
          omega
      rw [if_pos hd, hnone, Option.none_or, getElem?_padded]
    · rw [if_neg hd]
      cases hv : m.sparse[a]? with
      | some v => rfl
      | none =>
        rw [Option.none_or, getElem?_padded, Array.getElem?_eq_none (by omega)]
  · have hd : ¬ a < m.dense.size := by omega
    rw [if_neg ha, if_neg hd, if_pos (by omega)]

theorem load_setDense (m : Memory) {a : Nat} (h : a < m.dense.size) (v : Word) (b : Nat) :
    (m.setDense a v).load b = if b = a then v else m.load b := by
  rw [load_eq, load_eq]
  simp only [setDense, Array.size_setIfInBounds, Array.getElem?_setIfInBounds]
  by_cases hb : b = a
  · subst hb
    simp [h]
  · have hab : ¬ a = b := fun e => hb e.symm
    simp [hb, hab]

theorem Apart.setDense {m : Memory} (hm : m.Apart) (a : Nat) (v : Word) : (m.setDense a v).Apart := by
  intro b hb
  simp only [Memory.setDense, Array.size_setIfInBounds]
  exact hm b hb

/-- **Every store keeps the sparse words past the dense region.** -/
theorem Apart.store {m : Memory} (hm : m.Apart) (a : Nat) (v : Word) : (m.store a v).Apart := by
  unfold Memory.store
  split
  · exact hm.setDense a v
  · split
    · exact (Apart.grow (by omega)).setDense a v
    · intro b hb
      rw [Std.ExtTreeMap.mem_insert, Std.LawfulEqOrd.compare_eq_iff_eq] at hb
      rcases hb with rfl | hb
      · simp only
        omega
      · exact hm b hb

/-- **A load sees a store at its own address and nowhere else.** -/
theorem load_store {m : Memory} (hm : m.Apart) (a : Nat) (v : Word) (b : Nat) :
    (m.store a v).load b = if b = a then v else m.load b := by
  unfold Memory.store
  split
  · next h => exact load_setDense m h v b
  · next h =>
    split
    · rw [load_setDense _ (by rw [size_grow (by omega)]; omega) v b, load_grow hm (by omega)]
    · rw [load_eq, load_eq]
      simp only [Std.ExtTreeMap.getElem?_insert, Std.LawfulEqOrd.compare_eq_iff_eq]
      by_cases hb : b = a
      · subst hb
        simp [h]
      · have hab : ¬ a = b := fun e => hb e.symm
        simp [hb, hab]

/-! ## 3. The order of visiting -/

/-- Takes one sparse word into the dense region, if the region reaches over its address. -/
def migrate (m : Memory) (entry : Nat × Word) : Memory :=
  if entry.1 < m.dense.size then ⟨Sparse.lay m.dense entry, m.sparse.erase entry.1⟩ else m

/-- Extends the dense region to a size, visiting the sparse words in the order of a list. -/
def growVisiting (visit : List (Nat × Word)) (m : Memory) (size : Nat) : Memory :=
  visit.foldl migrate ⟨m.padded size, m.sparse⟩

/-- The store that visits the sparse words in the order of a list when the dense region grows. -/
def storeVisiting (visit : List (Nat × Word)) (m : Memory) (address : Nat) (value : Word) : Memory :=
  if address < m.dense.size then m.setDense address value
  else if address - m.dense.size < growthWindow then
    (m.growVisiting visit (address + 1)).setDense address value
  else { m with sparse := m.sparse.insert address value }

theorem dense_migrate (m : Memory) (e : Nat × Word) : (m.migrate e).dense = Sparse.lay m.dense e := by
  unfold migrate
  split
  · rfl
  · next h => exact (Array.setIfInBounds_eq_of_size_le (by omega)).symm

theorem sparse_migrate (m : Memory) (e : Nat × Word) (a : Nat) :
    (m.migrate e).sparse[a]? = if a < m.dense.size ∧ a = e.1 then none else m.sparse[a]? := by
  unfold migrate
  split
  · next h =>
    simp only [Std.ExtTreeMap.getElem?_erase, Std.LawfulEqOrd.compare_eq_iff_eq]
    by_cases hae : e.1 = a
    · subst hae
      simp [h]
    · have hea : ¬ a = e.1 := fun e' => hae e'.symm
      simp [hae, hea]
  · next h =>
    rw [if_neg]
    rintro ⟨ha, rfl⟩
    exact h ha

theorem dense_foldl_migrate (visit : List (Nat × Word)) (m : Memory) :
    (visit.foldl migrate m).dense = visit.foldl Sparse.lay m.dense := by
  induction visit generalizing m with
  | nil => rfl
  | cons e rest ih => rw [List.foldl_cons, List.foldl_cons, ih, dense_migrate]

theorem sparse_foldl_migrate (visit : List (Nat × Word)) (m : Memory) (a : Nat) :
    (visit.foldl migrate m).sparse[a]? =
      if a < m.dense.size ∧ a ∈ visit.map Prod.fst then none else m.sparse[a]? := by
  induction visit generalizing m with
  | nil => simp
  | cons e rest ih =>
    have hsize : (m.migrate e).dense.size = m.dense.size := by
      rw [dense_migrate]
      exact Array.size_setIfInBounds
    rw [List.foldl_cons, ih, hsize, sparse_migrate]
    simp only [List.map_cons, List.mem_cons]
    by_cases hlt : a < m.dense.size
    · by_cases hae : a = e.1
      · subst hae
        simp [hlt]
      · simp only [hae, false_or, and_false, if_false]
    · simp [hlt]

/-- **The order in which the sparse words are visited does not matter.** -/
theorem growVisiting_eq_grow {m : Memory} {visit : List (Nat × Word)}
    (hv : visit.Perm m.sparse.toList) {size : Nat} (h : m.dense.size ≤ size) :
    m.growVisiting visit size = m.grow size := by
  have hmem : ∀ a, a ∈ visit.map Prod.fst ↔ (m.sparse[a]?).isSome := fun a =>
    ((hv.map Prod.fst).mem_iff).trans (Sparse.mem_map_fst_toList_iff _ a)
  have hdense : (m.growVisiting visit size).dense = m.sparse.layInto (m.padded size) := by
    apply Array.ext_getElem?
    intro a
    unfold growVisiting
    rw [dense_foldl_migrate, Sparse.layInto_eq_foldl_lay,
      Sparse.getElem?_foldl_lay fun e he => (Sparse.mem_toList_iff _ e).1 (hv.mem_iff.1 he),
      Sparse.getElem?_foldl_lay fun e he => (Sparse.mem_toList_iff _ e).1 he]
    simp only [(hv.map Prod.fst).mem_iff]
  have hsparse : (m.growVisiting visit size).sparse = m.sparse.dropBelow size := by
    apply Std.ExtTreeMap.ext_getElem?
    intro a
    unfold growVisiting
    rw [sparse_foldl_migrate, Sparse.getElem?_dropBelow]
    simp only [hmem, size_padded h]
    by_cases hle : size ≤ a
    · rw [if_pos hle, if_neg (by omega)]
    · have ha : a < size := by omega
      rw [if_neg hle]
      cases m.sparse[a]? <;> simp [ha]
  rw [grow_eq m size h, ← hdense, ← hsparse]

theorem storeVisiting_eq_store {m : Memory} {visit : List (Nat × Word)}
    (hv : visit.Perm m.sparse.toList) (a : Nat) (v : Word) :
    m.storeVisiting visit a v = m.store a v := by
  unfold storeVisiting store
  split
  · rfl
  · split
    · rw [growVisiting_eq_grow hv (by omega)]
    · rfl

/-! ## 4. Sequences of stores -/

/-- The value last stored at an address by a list of stores. -/
def lastStored? (stores : List (Nat × Word)) (a : Nat) : Option Word :=
  (stores.reverse.find? fun s => s.1 = a).map Prod.snd

theorem lastStored?_concat (stores : List (Nat × Word)) (b : Nat) (v : Word) (a : Nat) :
    lastStored? (stores ++ [(b, v)]) a = if a = b then some v else lastStored? stores a := by
  unfold lastStored?
  rw [List.reverse_append, List.reverse_singleton, List.singleton_append, List.find?_cons]
  by_cases hab : a = b
  · simp [hab]
  · have hba : ¬ b = a := fun e => hab e.symm
    simp [hab, hba]

/-- The memories that stores into an image lead to. Each store may visit the sparse words in an order
    of its own. -/
inductive Stored (image : List Word) : List (Nat × Word) → Memory → Prop where
  | image : Stored image [] (ofImage image)
  | store (stores : List (Nat × Word)) (m : Memory) (h : Stored image stores m)
      (visit : List (Nat × Word)) (hv : visit.Perm m.sparse.toList) (a : Nat) (v : Word) :
      Stored image (stores ++ [(a, v)]) (m.storeVisiting visit a v)

theorem Stored.apart {image : List Word} {stores : List (Nat × Word)} {m : Memory}
    (h : Stored image stores m) : m.Apart := by
  induction h with
  | image => exact apart_ofImage image
  | store stores m _ visit hv a v ih =>
    rw [storeVisiting_eq_store hv]
    exact ih.store a v

theorem Stored.eq_storeAll {image : List Word} {stores : List (Nat × Word)} {m : Memory}
    (h : Stored image stores m) : m = (ofImage image).storeAll stores := by
  induction h with
  | image => rfl
  | store stores m _ visit hv a v ih =>
    rw [storeVisiting_eq_store hv, ih]
    unfold storeAll
    rw [List.foldl_append]
    rfl

/-- More stores that visit the sparse words by their addresses. -/
theorem Stored.storeAll {image : List Word} {before : List (Nat × Word)} {m : Memory}
    (h : Stored image before m) (stores : List (Nat × Word)) :
    Stored image (before ++ stores) (m.storeAll stores) := by
  induction stores generalizing before m with
  | nil => rwa [List.append_nil]
  | cons s rest ih =>
    have h' := Stored.store before m h _ (.refl _) s.1 s.2
    rw [storeVisiting_eq_store (.refl _)] at h'
    have h'' := ih h'
    rwa [List.append_assoc] at h''

theorem stored_storeAll (image : List Word) (stores : List (Nat × Word)) :
    Stored image stores ((ofImage image).storeAll stores) :=
  Stored.image.storeAll stores

theorem Stored.load_eq {image : List Word} {stores : List (Nat × Word)} {m : Memory}
    (h : Stored image stores m) (a : Nat) :
    m.load a = (lastStored? stores a).getD (image[a]?.getD 0) := by
  induction h with
  | image => exact load_ofImage image a
  | store stores m hm visit hv b v ih =>
    rw [storeVisiting_eq_store hv, load_store hm.apart, lastStored?_concat]
    split
    · rfl
    · exact ih

/-- **Memory is what was stored.** After any stores into an image, with the sparse words visited in any
    order, the sparse words lie past the dense region, and every address holds the word last stored
    there, or else that of the image, or else 0. One more store, in any order of visiting, changes its
    own address only. The memory is the one that `storeAll` computes. -/
theorem load_of_stored {image : List Word} {stores : List (Nat × Word)} {m : Memory}
    (h : Stored image stores m) :
    (∀ a ∈ m.sparse, m.dense.size ≤ a) ∧
    (∀ a, m.load a = (lastStored? stores a).getD (image[a]?.getD 0)) ∧
    (∀ visit : List (Nat × Word), visit.Perm m.sparse.toList → ∀ a v,
      (m.storeVisiting visit a v).load a = v ∧
      ∀ b, b ≠ a → (m.storeVisiting visit a v).load b = m.load b) ∧
    m = (ofImage image).storeAll stores := by
  refine ⟨h.apart, h.load_eq, fun visit hv a v => ?_, h.eq_storeAll⟩
  rw [storeVisiting_eq_store hv]
  refine ⟨?_, fun b hb => ?_⟩
  · rw [load_store h.apart, if_pos rfl]
  · rw [load_store h.apart, if_neg hb]

/-- A word far out, a store that lets the dense region grow towards it, and a store at the same address
    that lets it grow over the word. -/
theorem load_of_stored_far_then_near :
    Stored [7] [(70000, 5), (32768, 1)] ((ofImage [7]).storeAll [(70000, 5), (32768, 1)]) ∧
    70000 ∈ ((ofImage [7]).storeAll [(70000, 5), (32768, 1)]).sparse ∧
    ((ofImage [7]).storeAll [(70000, 5), (32768, 1)]).load 70000 = 5 ∧
    ((ofImage [7]).storeAll [(70000, 5), (32768, 1), (70000, 6)]).load 70000 = 6 ∧
    ((ofImage [7]).storeAll [(70000, 5), (32768, 1), (70000, 6)]).load 32768 = 1 := by
  have h := load_of_stored (stored_storeAll [7] [(70000, 5), (32768, 1)])
  have h' := load_of_stored (stored_storeAll [7] [(70000, 5), (32768, 1), (70000, 6)])
  have hmem : 70000 ∈ ((ofImage [7]).storeAll [(70000, 5), (32768, 1)]).sparse := by
    rw [Std.ExtTreeMap.mem_iff_isSome_getElem?]
    simp [storeAll, store, ofImage, growthWindow, setDense, grow_eq, Sparse.getElem?_dropBelow]
  exact ⟨stored_storeAll _ _, hmem, h.2.1 70000, h'.2.1 70000, h'.2.1 32768⟩

end Memory

end WordMachine
