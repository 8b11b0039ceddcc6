import Mathlib.Data.List.Chain
import WordMachine.Listing
import WordMachine.Proofs.Storage

/-!
# Where a listing shows a word twice

A listing is made of two sweeps and of single sparse words. The entries of a sweep follow one another
without a gap, and the second sweep begins where the first one has ended or later. But an instruction at
the end of a sweep may reach past the stretch that was to be swept, and a sparse word that it reaches over
is listed once more. This is the only way in which entries come to overlap:

* `Entry.Before`, `Entry.Separate` -- entries without a word in common, in this order or in any;
* `Entry.Tiles` -- entries that follow one another. Sweeps are such (`sweep_tiles`), and they end at most
  three words late (`sweep_end`);
* `Memory.code`, `Memory.loose` -- the two kinds of entries that a listing is merged from
  (`listing_eq_merge`);
* `Memory.listing_shows_once_iff` -- a listing shows no word twice exactly if no sparse word lies where a
  sweep has reached past its end;
* `Memory.listing_overlap` -- which happens.
-/

namespace WordMachine

/-! ## 1. Entries side by side -/

theorem Opcode.arity_le (op : Opcode) : op.arity ≤ 3 := by
  cases op <;> decide

namespace Entry

/-- The address after an entry. -/
def past (e : Entry) : Nat := e.address + e.width

/-- An entry ends before another one begins. -/
def Before (e f : Entry) : Prop := e.past ≤ f.address

/-- Two entries have no word in common. -/
def Separate (e f : Entry) : Prop := e.Before f ∨ f.Before e

/-- An entry shows the word at an address. -/
def Shows (e : Entry) (a : Nat) : Prop := e.address ≤ a ∧ a < e.past

theorem address_lt_past (e : Entry) : e.address < e.past := by
  have := e.width_pos
  unfold past
  omega

theorem width_le (e : Entry) : e.width ≤ 4 := by
  unfold width Reading.width
  split
  · omega
  · rename_i op _ _
    have := op.arity_le
    omega

theorem Before.lt {e f : Entry} (h : e.Before f) : e.address < f.address :=
  Nat.lt_of_lt_of_le e.address_lt_past h

theorem Before.trans {e f g : Entry} (h : e.Before f) (h' : f.Before g) : e.Before g :=
  Nat.le_trans h (Nat.le_trans (Nat.le_of_lt f.address_lt_past) h')

instance : Trans Before Before Before := ⟨Before.trans⟩

theorem Separate.symm {e f : Entry} (h : e.Separate f) : f.Separate e := Or.symm h

/-- Of two entries without a common word the one with the lower address comes first. -/
theorem Separate.before {e f : Entry} (h : e.Separate f) (hle : e.address ≤ f.address) : e.Before f := by
  rcases h with hbefore | hafter
  · exact hbefore
  · have := hafter.lt
    omega

/-- Entries are put in order by their addresses. -/
def inOrder (e f : Entry) : Bool := e.address ≤ f.address

theorem pairwise_merge {l r : List Entry} (hl : l.Pairwise Before) (hr : r.Pairwise Before) :
    (l.merge r inOrder).Pairwise fun e f => e.address ≤ f.address := by
  have hle : ∀ {es : List Entry}, es.Pairwise Before → es.Pairwise fun e f => inOrder e f = true :=
    fun h => h.imp fun hbefore => decide_eq_true (Nat.le_of_lt hbefore.lt)
  refine (List.pairwise_merge ?_ ?_ l r (hle hl) (hle hr)).imp of_decide_eq_true
  · intro e f g hef hfg
    exact decide_eq_true (Nat.le_trans (of_decide_eq_true hef) (of_decide_eq_true hfg))
  · intro e f
    simp only [inOrder, Bool.or_eq_true, decide_eq_true_eq]
    exact Nat.le_total _ _

/-- **Merged entries are side by side** exactly if none of one kind has a word in common with one of the
    other. -/
theorem merge_before_iff {l r : List Entry} (hl : l.Pairwise Before) (hr : r.Pairwise Before) :
    (l.merge r inOrder).Pairwise Before ↔ ∀ e ∈ l, ∀ f ∈ r, e.Separate f := by
  have hperm : (l.merge r inOrder).Pairwise Separate ↔ (l ++ r).Pairwise Separate :=
    (List.merge_perm_append _).pairwise_iff Separate.symm
  constructor
  · intro h
    exact (List.pairwise_append.1 (hperm.1 (h.imp .inl))).2.2
  · intro h
    have hapart := hperm.2 (List.pairwise_append.2 ⟨hl.imp .inl, hr.imp .inl, h⟩)
    exact (hapart.and (pairwise_merge hl hr)).imp fun hef => hef.1.before hef.2

/-- **Entries that follow one another** from an address to another. -/
inductive Tiles : Nat → List Entry → Nat → Prop where
  | nil (a : Nat) : Tiles a [] a
  | cons (e : Entry) (es : List Entry) (stop : Nat) (h : Tiles e.past es stop) :
      Tiles e.address (e :: es) stop

variable {start mid stop : Nat} {es fs : List Entry}

theorem Tiles.append (h : Tiles start es mid) (h' : Tiles mid fs stop) :
    Tiles start (es ++ fs) stop := by
  induction h with
  | nil a => exact h'
  | cons e es mid _ ih => exact .cons e _ stop (ih h')

theorem Tiles.le (h : Tiles start es stop) : start ≤ stop := by
  induction h with
  | nil a => exact Nat.le_refl a
  | cons e es stop _ ih => exact Nat.le_trans (Nat.le_of_lt e.address_lt_past) ih

/-- They show the words in between, and no others. -/
theorem Tiles.shows_iff (h : Tiles start es stop) (a : Nat) :
    (∃ e ∈ es, e.Shows a) ↔ start ≤ a ∧ a < stop := by
  induction h with
  | nil b =>
    simp only [List.not_mem_nil, false_and, exists_false, false_iff]
    omega
  | cons e es stop htail ih =>
    have hle := htail.le
    have hlt := e.address_lt_past
    simp only [List.mem_cons, exists_eq_or_imp, ih]
    unfold Shows
    omega

theorem Tiles.bounds (h : Tiles start es stop) {e : Entry} (he : e ∈ es) :
    start ≤ e.address ∧ e.past ≤ stop := by
  induction h with
  | nil a => cases he
  | cons f es stop htail ih =>
    rcases List.mem_cons.1 he with rfl | he
    · exact ⟨Nat.le_refl _, htail.le⟩
    · obtain ⟨hle, hpast⟩ := ih he
      exact ⟨Nat.le_trans (Nat.le_of_lt f.address_lt_past) hle, hpast⟩

theorem Tiles.pairwise (h : Tiles start es stop) : es.Pairwise Before := by
  induction h with
  | nil a => exact .nil
  | cons e es stop htail ih => exact .cons (fun f hf => (htail.bounds hf).1) ih

end Entry

/-! ## 2. Sweeps -/

namespace Memory

open Entry

variable (m : Memory)

theorem wordsBetween_tiles {start stop : Nat} (h : start ≤ stop) (entries : Array Entry) :
    ∃ new, (m.wordsBetween start stop entries).toList = entries.toList ++ new ∧
      Tiles start new stop := by
  obtain ⟨count, rfl⟩ := Nat.exists_eq_add_of_le h
  unfold wordsBetween
  rw [Nat.add_sub_cancel_left]
  clear h
  induction count generalizing start entries with
  | zero => exact ⟨[], (List.append_nil _).symm, .nil start⟩
  | succ count ih =>
    obtain ⟨new, hnew, htiles⟩ := @ih (start + 1) (entries.push (m.wordAt start))
    refine ⟨m.wordAt start :: new, ?_, ?_⟩
    · rw [List.range'_succ, List.foldl_cons, hnew, Array.toList_push, List.append_assoc]
      rfl
    · rw [Nat.add_right_comm] at htiles
      exact .cons (m.wordAt start) new _ htiles

/-- **The entries of a sweep follow one another** up to where it ends. -/
theorem sweep_tiles (anchor stop address : Nat) (entries : Array Entry) :
    ∃ new, (m.sweep anchor stop address entries).1.toList = entries.toList ++ new ∧
      Tiles address new (m.sweep anchor stop address entries).2 := by
  fun_induction m.sweep anchor stop address entries with
  | case1 address entries hlt entry hanchor ih =>
    obtain ⟨words, hwords, htiles⟩ := m.wordsBetween_tiles (Nat.le_of_lt hanchor.1) entries
    obtain ⟨new, hnew, htiles'⟩ := ih
    exact ⟨words ++ new, by rw [hnew, hwords, List.append_assoc], htiles.append htiles'⟩
  | case2 address entries hlt entry hanchor ih =>
    obtain ⟨new, hnew, htiles⟩ := ih
    refine ⟨entry :: new, ?_, .cons entry new _ htiles⟩
    rw [hnew, Array.toList_push, List.append_assoc]
    rfl
  | case3 address entries hlt => exact ⟨[], (List.append_nil _).symm, .nil address⟩

/-- **A sweep ends at most three words late.** -/
theorem sweep_end (anchor stop address : Nat) (entries : Array Entry) (h : address ≤ stop + 3) :
    stop ≤ (m.sweep anchor stop address entries).2 ∧
      (m.sweep anchor stop address entries).2 ≤ stop + 3 := by
  fun_induction m.sweep anchor stop address entries with
  | case1 address entries hlt entry hanchor ih =>
    have := entry.width_le
    exact ih (by omega)
  | case2 address entries hlt entry hanchor ih =>
    have := entry.width_le
    exact ih (by omega)
  | case3 address entries hlt => exact ⟨Nat.le_of_not_lt hlt, h⟩

/-! ## 3. The parts of a listing -/

/-- The sweep of the dense region, with the address where it ends. -/
def denseSweep (anchor : Nat) : Array Entry × Nat := m.sweep anchor m.dense.size 0 #[]

/-- Where the dense region has been swept. -/
def denseEnd (anchor : Nat) : Nat := (m.denseSweep anchor).2

/-- Where the window around an anchor outside the dense region begins. -/
def windowStart (anchor : Nat) : Nat := max (anchor - listingWindow) (m.denseEnd anchor)

/-- The sweep of the dense region and then of the window, with the address where it ends. -/
def windowSweep (anchor : Nat) : Array Entry × Nat :=
  m.sweep anchor (anchor + listingWindow) (m.windowStart anchor) (m.denseSweep anchor).1

/-- Where the window has been swept. -/
def windowEnd (anchor : Nat) : Nat := (m.windowSweep anchor).2

/-- The entries that sweeps have found. -/
def code (anchor : Nat) : List Entry :=
  if m.dense.size ≤ anchor then (m.windowSweep anchor).1.toList else (m.denseSweep anchor).1.toList

/-- Whether a sparse word is left to the window. -/
def InWindow (anchor a : Nat) : Prop :=
  m.dense.size ≤ anchor ∧ m.windowStart anchor ≤ a ∧ a < anchor + listingWindow

instance (anchor a : Nat) : Decidable (m.InWindow anchor a) :=
  inferInstanceAs (Decidable (_ ∧ _ ∧ _))

/-- The entries of the sparse words outside the window. -/
def loose (anchor : Nat) : List Entry :=
  (m.sparse.toList.filter fun e => ¬ m.InWindow anchor e.1).map fun e => ⟨e.1, .data e.2⟩

theorem listing_eq_merge (anchor : Nat) :
    m.listing anchor = (m.code anchor).merge (m.loose anchor) inOrder := by
  have hloose : ∀ a, (!(decide (m.dense.size ≤ anchor) && decide (m.windowStart anchor ≤ a) &&
      decide (a < anchor + listingWindow))) = decide (¬ m.InWindow anchor a) := by
    intro a
    rw [Bool.eq_iff_iff, decide_eq_true_eq]
    simp only [Bool.not_eq_true', Bool.and_eq_false_iff, decide_eq_false_iff_not]
    unfold InWindow
    omega
  unfold listing loose code
  simp only [← hloose]
  by_cases hfar : m.dense.size ≤ anchor
  · simp only [hfar, if_true, decide_true]
    rfl
  · simp only [hfar, if_false, decide_false]
    rfl

theorem mem_loose_iff (anchor : Nat) (f : Entry) :
    f ∈ m.loose anchor ↔ ∃ a w, m.sparse[a]? = some w ∧ ¬ m.InWindow anchor a ∧ f = ⟨a, .data w⟩ := by
  unfold loose
  simp only [List.mem_map, List.mem_filter, Sparse.mem_toList_iff, decide_eq_true_eq, Prod.exists]
  constructor
  · rintro ⟨a, w, ⟨hmem, hout⟩, rfl⟩
    exact ⟨a, w, hmem, hout, rfl⟩
  · rintro ⟨a, w, hmem, hout, rfl⟩
    exact ⟨a, w, ⟨hmem, hout⟩, rfl⟩

theorem loose_pairwise (anchor : Nat) : (m.loose anchor).Pairwise Before :=
  List.pairwise_map.2 ((m.sparse.pairwise_toList.filter _).imp fun hlt => hlt)

theorem denseSweep_tiles (anchor : Nat) :
    Tiles 0 (m.denseSweep anchor).1.toList (m.denseEnd anchor) := by
  obtain ⟨new, hnew, htiles⟩ := m.sweep_tiles anchor m.dense.size 0 #[]
  have hlist : (m.denseSweep anchor).1.toList = new := hnew
  rw [hlist]
  exact htiles

theorem windowSweep_tiles (anchor : Nat) :
    ∃ window, (m.windowSweep anchor).1.toList = (m.denseSweep anchor).1.toList ++ window ∧
      Tiles (m.windowStart anchor) window (m.windowEnd anchor) :=
  m.sweep_tiles _ _ _ _

/-- Sweeps show no word twice. -/
theorem code_pairwise (anchor : Nat) : (m.code anchor).Pairwise Before := by
  have hdense := m.denseSweep_tiles anchor
  unfold code
  split
  · obtain ⟨window, hwindow, htiles⟩ := m.windowSweep_tiles anchor
    rw [hwindow, List.pairwise_append]
    refine ⟨hdense.pairwise, htiles.pairwise, fun e he f hf => ?_⟩
    calc e.past ≤ m.denseEnd anchor := (hdense.bounds he).2
      _ ≤ m.windowStart anchor := Nat.le_max_right _ _
      _ ≤ f.address := (htiles.bounds hf).1
  · exact hdense.pairwise

/-- The words that sweeps show. -/
theorem code_shows_iff (anchor a : Nat) :
    (∃ e ∈ m.code anchor, e.Shows a) ↔ a < m.denseEnd anchor ∨
      (m.dense.size ≤ anchor ∧ m.windowStart anchor ≤ a ∧ a < m.windowEnd anchor) := by
  have hdense := (m.denseSweep_tiles anchor).shows_iff a
  unfold code
  split
  · rename_i hfar
    obtain ⟨window, hwindow, htiles⟩ := m.windowSweep_tiles anchor
    rw [hwindow]
    simp only [List.mem_append, or_and_right, exists_or, hdense, htiles.shows_iff a, hfar,
      Nat.zero_le, true_and]
  · rename_i hnear
    simp only [hdense, hnear, Nat.zero_le, true_and, false_and, or_false]

/-! ## 4. Listings -/

/-- A single word is separate from an entry unless the entry shows it. -/
theorem separate_word_iff (e : Entry) (a : Nat) (w : Word) :
    e.Separate ⟨a, .data w⟩ ↔ ¬ e.Shows a := by
  show e.past ≤ a ∨ a + 1 ≤ e.address ↔ ¬ (e.address ≤ a ∧ a < e.past)
  omega

/-- **Entries overlap only where a sparse word is shown by a sweep and is listed besides.** -/
theorem listing_before_iff (anchor : Nat) :
    (m.listing anchor).Pairwise Before ↔
      ∀ a ∈ m.sparse, ¬ m.InWindow anchor a → ¬ ∃ e ∈ m.code anchor, e.Shows a := by
  rw [listing_eq_merge, merge_before_iff (m.code_pairwise anchor) (m.loose_pairwise anchor)]
  constructor
  · rintro h a ha hout ⟨e, he, hshows⟩
    have hword : m.sparse[a]? = some m.sparse[a] := Std.ExtTreeMap.getElem?_eq_some_getElem ha
    have hsep := h e he _ ((m.mem_loose_iff anchor _).2 ⟨a, _, hword, hout, rfl⟩)
    exact (separate_word_iff e a _).1 hsep hshows
  · intro h e he f hf
    obtain ⟨a, w, hword, hout, rfl⟩ := (m.mem_loose_iff anchor f).1 hf
    refine (separate_word_iff e a w).2 fun hshows => ?_
    exact h a (Sparse.mem_of_getElem? hword) hout ⟨e, he, hshows⟩

/-- No sparse word lies where a sweep has reached past its end. -/
def Unreached (anchor : Nat) : Prop :=
  ∀ a ∈ m.sparse, m.denseEnd anchor ≤ a ∧
    (m.dense.size ≤ anchor → anchor + listingWindow ≤ a → m.windowEnd anchor ≤ a)

theorem unreached_iff (anchor : Nat) :
    m.Unreached anchor ↔
      ∀ a ∈ m.sparse, ¬ m.InWindow anchor a → ¬ ∃ e ∈ m.code anchor, e.Shows a := by
  have hstart : m.denseEnd anchor ≤ m.windowStart anchor := Nat.le_max_right _ _
  refine forall₂_congr fun a _ => ?_
  rw [code_shows_iff]
  unfold InWindow
  constructor
  · rintro ⟨hdense, hwindow⟩ hout hshown
    omega
  · intro h
    have hdense : m.denseEnd anchor ≤ a := by
      by_contra hlt
      exact h (by omega) (by omega)
    refine ⟨hdense, fun hfar hstop => ?_⟩
    have hwithin : m.windowStart anchor ≤ a := Nat.max_le.2 ⟨by omega, hdense⟩
    by_contra hlt
    exact h (by omega) (by omega)

theorem denseEnd_bounds (anchor : Nat) :
    m.dense.size ≤ m.denseEnd anchor ∧ m.denseEnd anchor ≤ m.dense.size + 3 :=
  m.sweep_end anchor m.dense.size 0 #[] (Nat.zero_le _)

theorem windowEnd_bounds {anchor : Nat} (h : m.dense.size ≤ anchor) :
    anchor + listingWindow ≤ m.windowEnd anchor ∧
      m.windowEnd anchor ≤ anchor + listingWindow + 3 := by
  refine m.sweep_end anchor _ _ _ (Nat.max_le.2 ⟨by omega, ?_⟩)
  have := (m.denseEnd_bounds anchor).2
  omega

/-- **When a listing shows no word twice.** The addresses of the entries never decrease. They increase, and
    each entry ends before the next one begins, if and only if no sparse word lies where the sweep of the
    dense region or that of the window around a far anchor has reached past its end. A sweep reaches past
    its end by three words at most. -/
theorem listing_shows_once_iff (m : Memory) (anchor : Nat) :
    ((m.listing anchor).Pairwise fun e f => e.address ≤ f.address) ∧
    ((m.listing anchor).IsChain (fun e f => e.address < f.address) ∧
        (m.listing anchor).IsChain (fun e f => e.address + e.width ≤ f.address) ↔
      ∀ a ∈ m.sparse, m.denseEnd anchor ≤ a ∧
        (m.dense.size ≤ anchor → anchor + listingWindow ≤ a → m.windowEnd anchor ≤ a)) ∧
    (m.dense.size ≤ m.denseEnd anchor ∧ m.denseEnd anchor ≤ m.dense.size + 3) ∧
    (m.dense.size ≤ anchor → anchor + listingWindow ≤ m.windowEnd anchor ∧
      m.windowEnd anchor ≤ anchor + listingWindow + 3) := by
  refine ⟨?_, ?_, m.denseEnd_bounds anchor, fun hfar => m.windowEnd_bounds hfar⟩
  · rw [listing_eq_merge]
    exact pairwise_merge (m.code_pairwise anchor) (m.loose_pairwise anchor)
  · have hchain : (m.listing anchor).IsChain Before ↔ m.Unreached anchor := by
      rw [List.isChain_iff_pairwise, listing_before_iff, unreached_iff]
    refine Iff.trans ⟨fun h => h.2, fun h => ⟨?_, h⟩⟩ hchain
    exact List.IsChain.imp (fun _ _ => Before.lt) h

/-- Single words are swept one after the other. -/
theorem sweep_of_words (anchor : Nat) {stop start finish : Nat} (hle : start ≤ finish)
    (hstop : finish ≤ stop)
    (h : ∀ a, start ≤ a → a < finish → (m.entryAt a).width = 1) (entries : Array Entry) :
    ∃ entries', m.sweep anchor stop start entries = m.sweep anchor stop finish entries' := by
  induction hle using Nat.decreasingInduction generalizing entries with
  | self => exact ⟨entries, rfl⟩
  | of_succ a hlt ih =>
    have hwidth := h a (Nat.le_refl a) hlt
    rw [sweep, if_pos (Nat.lt_of_lt_of_le hlt hstop)]
    simp only [hwidth]
    rw [if_neg (by omega)]
    exact ih (fun b hab hb => h b (by omega) hb) _

/-- A window that ends on an instruction of four words. The sweep of the window shows the three words
    after it, too, and the first of these is listed once more. -/
theorem listing_overlap :
    ¬ (((ofImage [99]).storeAll [(5000031, 1), (5000032, 7)]).listing 5000000).IsChain
      (fun e f => e.address + e.width ≤ f.address) := by
  generalize hm : (ofImage [99]).storeAll [(5000031, 1), (5000032, 7)] = m
  have hsize : m.dense.size = 1 := by
    rw [← hm]
    decide +kernel
  have hwords : ∀ k < 63, (m.entryAt (4999968 + k)).width = 1 := by
    rw [← hm]
    decide +kernel
  have hlast : (m.entryAt 5000031).width = 4 := by
    rw [← hm]
    decide +kernel
  have hsparse : 5000032 ∈ m.sparse := by
    rw [← hm]
    decide +kernel
  have hstart : m.windowStart 5000000 = 4999968 := by
    have := (m.denseEnd_bounds 5000000).2
    show max (5000000 - 32) _ = 4999968
    omega
  have hend : m.windowEnd 5000000 = 5000035 := by
    have hsweep : ∀ entries, ∃ entries',
        m.sweep 5000000 5000032 4999968 entries = m.sweep 5000000 5000032 5000031 entries' := by
      refine m.sweep_of_words 5000000 (by omega) (by omega) fun a hle hlt => ?_
      obtain ⟨k, rfl⟩ := Nat.exists_eq_add_of_le hle
      exact hwords k (by omega)
    unfold windowEnd windowSweep
    rw [hstart]
    obtain ⟨entries, hswept⟩ := hsweep (m.denseSweep 5000000).1
    show (m.sweep 5000000 5000032 4999968 _).2 = 5000035
    rw [hswept, sweep, if_pos (by omega)]
    simp only [hlast]
    rw [if_neg (by omega), sweep, if_neg (by omega)]
  have hreached : ¬ m.Unreached 5000000 := by
    intro h
    have hpast := (h _ hsparse).2 (by omega) (Nat.le_refl _)
    omega
  intro hchain
  have hbefore : (m.listing 5000000).Pairwise Before := List.isChain_iff_pairwise.1 hchain
  rw [listing_before_iff, ← unreached_iff] at hbefore
  exact hreached hbefore

end Memory

end WordMachine
