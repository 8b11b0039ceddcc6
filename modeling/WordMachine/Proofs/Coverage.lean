import Mathlib.Data.List.Perm.Subperm
import WordMachine.Proofs.Overlap
import WordMachine.Turn

/-!
# What a listing covers

A listing is to show everything that memory holds, to begin an entry at the anchor, and to stay short
however far the anchor and the sparse words lie.

* `Memory.Swept` -- the rules of a sweep: an instruction is listed, or words up to the anchor, or the sweep
  is over. Every sweep goes by them (`sweep_swept`), and what a sweep lists is read off the rules: entries
  of memory (`Swept.lists`), one that begins at the anchor (`Swept.anchored`), none past the end but words
  close before the anchor (`Swept.bounds`);
* `Memory.sweepTurn` -- a sweep as a loop. It ends within as many turns as there are words to sweep
  (`run_sweepTurn`);
* `Memory.code_anchored`, `Memory.length_code_le` -- the two sweeps of a listing together;
* `Memory.listing_complete` -- the listing.
-/

namespace WordMachine

theorem Entry.filter_address_of_mem {es : List Entry} (h : es.Pairwise Entry.Before) {e : Entry}
    (he : e ∈ es) : es.filter (fun f => f.address = e.address) = [e] := by
  induction h with
  | nil => cases he
  | @cons f es hf _ ih =>
    cases List.mem_cons.1 he with
    | inl heq =>
      subst heq
      have hnone : es.filter (fun g => g.address = e.address) = [] := by
        refine List.filter_eq_nil_iff.2 fun g hg hsame => ?_
        have hlt := (hf g hg).lt
        have hsame := of_decide_eq_true hsame
        omega
      rw [List.filter_cons_of_pos (by simp), hnone]
    | inr hmem =>
      have hne : ¬ f.address = e.address := Nat.ne_of_lt (hf e hmem).lt
      rw [List.filter_cons_of_neg (by simpa using hne)]
      exact ih hmem

namespace Memory

open Entry

variable (m : Memory)

/-! ## 1. The rules of a sweep -/

/-- An entry lists memory as it is: the reading at its address, or the word there. -/
def Lists (e : Entry) : Prop := e = m.entryAt e.address ∨ e = m.wordAt e.address

/-- The single words of a stretch of memory. -/
def words (start stop : Nat) : List Entry := (List.range' start (stop - start)).map m.wordAt

/-- **The rules of a sweep** up to `stop`: from an address, by the entries listed, to where it ends. -/
inductive Swept (anchor stop : Nat) : Nat → List Entry → Nat → Prop where
  /-- There is nothing left to sweep. -/
  | ended (address : Nat) (h : stop ≤ address) : Swept anchor stop address [] address
  /-- An instruction does not run over the anchor. -/
  | instruction (address : Nat) (es : List Entry) (finish : Nat) (hlt : address < stop)
      (hclear : anchor ≤ address ∨ (m.entryAt address).past ≤ anchor)
      (h : Swept anchor stop (m.entryAt address).past es finish) :
      Swept anchor stop address (m.entryAt address :: es) finish
  /-- An instruction runs over the anchor, and its words are listed up to there. -/
  | broken (address : Nat) (es : List Entry) (finish : Nat) (hlt : address < stop)
      (hbefore : address < anchor) (hover : anchor < (m.entryAt address).past)
      (h : Swept anchor stop anchor es finish) :
      Swept anchor stop address (m.words address anchor ++ es) finish

theorem wordsBetween_eq (start stop : Nat) (entries : Array Entry) :
    (m.wordsBetween start stop entries).toList = entries.toList ++ m.words start stop := by
  unfold wordsBetween words
  generalize List.range' start (stop - start) = addresses
  induction addresses generalizing entries with
  | nil => exact (List.append_nil _).symm
  | cons a rest ih =>
    rw [List.foldl_cons, ih, Array.toList_push, List.append_assoc]
    rfl

/-- **A sweep goes by the rules.** -/
theorem sweep_swept (anchor stop address : Nat) (entries : Array Entry) :
    ∃ new, (m.sweep anchor stop address entries).1.toList = entries.toList ++ new ∧
      m.Swept anchor stop address new (m.sweep anchor stop address entries).2 := by
  fun_induction m.sweep anchor stop address entries with
  | case1 address entries hlt entry hanchor ih =>
    obtain ⟨new, hnew, hswept⟩ := ih
    rw [wordsBetween_eq, List.append_assoc] at hnew
    exact ⟨_, hnew, .broken address new _ hlt hanchor.1 hanchor.2 hswept⟩
  | case2 address entries hlt entry hanchor ih =>
    obtain ⟨new, hnew, hswept⟩ := ih
    rw [Array.toList_push, List.append_assoc] at hnew
    refine ⟨entry :: new, hnew, .instruction address new _ hlt ?_ hswept⟩
    show anchor ≤ address ∨ address + entry.width ≤ anchor
    omega
  | case3 address entries hlt =>
    exact ⟨[], (List.append_nil _).symm, .ended address (Nat.le_of_not_lt hlt)⟩

variable {m} {anchor stop address finish : Nat} {es : List Entry}

theorem mem_words {e : Entry} {start : Nat} (h : e ∈ m.words start stop) :
    e = m.wordAt e.address ∧ start ≤ e.address ∧ e.address < stop := by
  obtain ⟨a, ha, rfl⟩ := List.mem_map.1 h
  obtain ⟨hle, hlt⟩ := List.mem_range'_1.1 ha
  have haddress : (m.wordAt a).address = a := rfl
  rw [haddress]
  exact ⟨rfl, hle, by omega⟩

theorem Swept.lists (h : m.Swept anchor stop address es finish) {e : Entry} (he : e ∈ es) : m.Lists e := by
  induction h with
  | ended address h => cases he
  | instruction address es finish hlt hclear _ ih =>
    cases List.mem_cons.1 he with
    | inl heq =>
      subst heq
      exact .inl rfl
    | inr hmem => exact ih hmem
  | broken address es finish hlt hbefore hover _ ih =>
    cases List.mem_append.1 he with
    | inl hword => exact .inr (mem_words hword).1
    | inr hmem => exact ih hmem

/-- **A sweep that begins before the anchor and ends after it lists the reading at the anchor.** -/
theorem Swept.anchored (h : m.Swept anchor stop address es finish) (hle : address ≤ anchor)
    (hlt : anchor < stop) : m.entryAt anchor ∈ es := by
  induction h with
  | ended address h => omega
  | instruction address es finish hstop hclear h ih =>
    by_cases hhere : address = anchor
    · rw [hhere]
      exact List.mem_cons_self
    · exact List.mem_cons_of_mem _ (ih (by omega))
  | broken address es finish hstop hbefore hover h ih =>
    exact List.mem_append_right _ (ih (Nat.le_refl _))

/-- A sweep that is to end at the anchor or before does not run over it. -/
theorem Swept.finish_le (h : m.Swept anchor stop address es finish) (hle : address ≤ anchor)
    (hstop : stop ≤ anchor) : finish ≤ anchor := by
  induction h with
  | ended address h => exact hle
  | instruction address es finish hlt hclear h ih => exact ih (by omega)
  | broken address es finish hlt hbefore hover h ih => exact ih (Nat.le_refl _)

/-- Entries begin before the end of a sweep; only words of an instruction that runs over the anchor may
    begin later. -/
theorem Swept.bounds (h : m.Swept anchor stop address es finish) {e : Entry} (he : e ∈ es) :
    address ≤ e.address ∧ (e.address < stop ∨ (e.address < anchor ∧ anchor ≤ e.address + 3)) := by
  induction h with
  | ended address h => cases he
  | instruction address es finish hlt hclear _ ih =>
    cases List.mem_cons.1 he with
    | inl heq =>
      subst heq
      exact ⟨Nat.le_refl _, .inl hlt⟩
    | inr hmem =>
      obtain ⟨hle, hbelow⟩ := ih hmem
      exact ⟨Nat.le_trans (Nat.le_of_lt (m.entryAt address).address_lt_past) hle, hbelow⟩
  | broken address es finish hlt hbefore hover _ ih =>
    cases List.mem_append.1 he with
    | inl hword =>
      obtain ⟨-, hle, hbelow⟩ := mem_words hword
      have hwidth := (m.entryAt address).width_le
      have hpast : (m.entryAt address).past = address + (m.entryAt address).width := rfl
      exact ⟨hle, .inr ⟨hbelow, by omega⟩⟩
    | inr hmem =>
      obtain ⟨hle, hbelow⟩ := ih hmem
      exact ⟨Nat.le_trans (Nat.le_of_lt hbefore) hle, hbelow⟩

/-! ## 2. Sweeps end -/

variable (m)

/-- One turn of a sweep: from an address and the entries so far. -/
def sweepTurn (anchor stop : Nat) : Nat × Array Entry → Turn (Nat × Array Entry) (Array Entry × Nat)
  | (address, entries) =>
    if address < stop then
      let entry := m.entryAt address
      if address < anchor ∧ anchor < address + entry.width then
        .more (anchor, m.wordsBetween address anchor entries)
      else .more (address + entry.width, entries.push entry)
    else .done (entries, address)

/-- **A sweep ends**: every turn but the last gets on by a word at least. -/
theorem run_sweepTurn (anchor stop address : Nat) (entries : Array Entry) {fuel : Nat}
    (hfuel : stop - address < fuel) :
    Turn.run (m.sweepTurn anchor stop) fuel (address, entries) =
      some (m.sweep anchor stop address entries) := by
  induction fuel generalizing address entries with
  | zero => omega
  | succ fuel ih =>
    have hwidth := (m.entryAt address).width_pos
    rw [Turn.run_succ, sweep, sweepTurn]
    by_cases hlt : address < stop
    · by_cases hanchor : address < anchor ∧ anchor < address + (m.entryAt address).width
      · simp only [if_pos hlt, if_pos hanchor]
        exact ih _ _ (by omega)
      · simp only [if_pos hlt, if_neg hanchor]
        exact ih _ _ (by omega)
    · simp only [if_neg hlt]

/-! ## 3. The two sweeps of a listing -/

theorem denseSweep_swept (anchor : Nat) :
    m.Swept anchor m.dense.size 0 (m.denseSweep anchor).1.toList (m.denseEnd anchor) := by
  obtain ⟨new, hnew, hswept⟩ := m.sweep_swept anchor m.dense.size 0 #[]
  have hlist : (m.denseSweep anchor).1.toList = new := hnew
  rw [hlist]
  exact hswept

theorem windowSweep_swept (anchor : Nat) :
    ∃ window, (m.windowSweep anchor).1.toList = (m.denseSweep anchor).1.toList ++ window ∧
      m.Swept anchor (anchor + listingWindow) (m.windowStart anchor) window (m.windowEnd anchor) :=
  m.sweep_swept _ _ _ _

variable {m}

/-- The window around an anchor outside the dense region begins at the anchor or before. -/
theorem windowStart_le (hfar : m.dense.size ≤ anchor) : m.windowStart anchor ≤ anchor :=
  Nat.max_le.2 ⟨Nat.sub_le _ _, (m.denseSweep_swept anchor).finish_le (Nat.zero_le _) hfar⟩

/-- **The sweeps list the reading at the anchor.** -/
theorem code_anchored (m : Memory) (anchor : Nat) : m.entryAt anchor ∈ m.code anchor := by
  unfold code
  split
  · rename_i hfar
    obtain ⟨window, hwindow, hswept⟩ := m.windowSweep_swept anchor
    rw [hwindow]
    exact List.mem_append_right _
      (hswept.anchored (windowStart_le hfar) (Nat.lt_add_of_pos_right (by decide)))
  · rename_i hnear
    exact (m.denseSweep_swept anchor).anchored (Nat.zero_le _) (Nat.lt_of_not_le hnear)

theorem code_lists {e : Entry} (he : e ∈ m.code anchor) : m.Lists e := by
  unfold code at he
  split at he
  · obtain ⟨window, hwindow, hswept⟩ := m.windowSweep_swept anchor
    rw [hwindow] at he
    cases List.mem_append.1 he with
    | inl hmem => exact (m.denseSweep_swept anchor).lists hmem
    | inr hmem => exact hswept.lists hmem
  · exact (m.denseSweep_swept anchor).lists he

/-- Where the entries of the sweeps begin: in the dense region, or in the window. -/
theorem code_address {e : Entry} (he : e ∈ m.code anchor) :
    e.address < m.dense.size ∨ (anchor - listingWindow ≤ e.address ∧
      e.address < anchor - listingWindow + 2 * listingWindow) := by
  have hsize : listingWindow = 32 := rfl
  unfold code at he
  split at he
  · rename_i hfar
    obtain ⟨window, hwindow, hswept⟩ := m.windowSweep_swept anchor
    rw [hwindow] at he
    cases List.mem_append.1 he with
    | inl hmem =>
      have hbelow := ((m.denseSweep_swept anchor).bounds hmem).2
      omega
    | inr hmem =>
      obtain ⟨hle, hbelow⟩ := hswept.bounds hmem
      have hstart : anchor - listingWindow ≤ m.windowStart anchor := Nat.le_max_left _ _
      omega
  · rename_i hnear
    have hbelow := ((m.denseSweep_swept anchor).bounds he).2
    omega

/-- **There are no more entries than words in the dense region and in the window**, since no two begin at
    the same address. -/
theorem length_code_le (m : Memory) (anchor : Nat) :
    (m.code anchor).length ≤ m.dense.size + 2 * listingWindow := by
  have hnodup : ((m.code anchor).map Entry.address).Nodup :=
    List.pairwise_map.2 ((m.code_pairwise anchor).imp fun h => Nat.ne_of_lt h.lt)
  have hsubset : (m.code anchor).map Entry.address ⊆
      List.range m.dense.size ++ List.range' (anchor - listingWindow) (2 * listingWindow) := by
    intro a ha
    obtain ⟨e, he, rfl⟩ := List.mem_map.1 ha
    rw [List.mem_append, List.mem_range, List.mem_range'_1]
    exact code_address he
  have hlength := (hnodup.subperm hsubset).length_le
  rwa [List.length_map, List.length_append, List.length_range, List.length_range'] at hlength

/-! ## 4. Sparse words -/

theorem loose_lists (hm : m.Apart) {e : Entry} (he : e ∈ m.loose anchor) : m.Lists e := by
  obtain ⟨a, w, hword, -, rfl⟩ := (m.mem_loose_iff anchor e).1 he
  exact .inr (congrArg (fun w => (⟨a, .data w⟩ : Entry)) (load_of_sparse hm hword).symm)

/-- The anchor is listed by the sweeps alone: a sparse word there lies in the window. -/
theorem loose_address_ne (hm : m.Apart) {e : Entry} (he : e ∈ m.loose anchor) : e.address ≠ anchor := by
  obtain ⟨a, w, hword, hout, rfl⟩ := (m.mem_loose_iff anchor e).1 he
  intro hanchor
  obtain rfl : a = anchor := hanchor
  have hfar : m.dense.size ≤ a := hm a (Sparse.mem_of_getElem? hword)
  exact hout ⟨hfar, windowStart_le hfar, Nat.lt_add_of_pos_right (by decide)⟩

theorem length_loose_le (m : Memory) (anchor : Nat) : (m.loose anchor).length ≤ m.sparse.size := by
  unfold loose
  rw [List.length_map, ← Std.ExtTreeMap.length_toList]
  exact List.length_filter_le _ _

/-! ## 5. Listings -/

theorem mem_listing_iff {e : Entry} :
    e ∈ m.listing anchor ↔ e ∈ m.code anchor ∨ e ∈ m.loose anchor := by
  rw [listing_eq_merge, List.mem_merge]

/-- **One entry begins at the anchor**, the reading there. -/
theorem filter_anchor_listing (hm : m.Apart) (anchor : Nat) :
    (m.listing anchor).filter (fun e => e.address = anchor) = [m.entryAt anchor] := by
  have hcode : (m.code anchor).filter (fun e => e.address = anchor) = [m.entryAt anchor] :=
    filter_address_of_mem (m.code_pairwise anchor) (m.code_anchored anchor)
  have hloose : (m.loose anchor).filter (fun e => e.address = anchor) = [] :=
    List.filter_eq_nil_iff.2 fun e he hhere => loose_address_ne hm he (of_decide_eq_true hhere)
  have hperm : (m.listing anchor).Perm (m.code anchor ++ m.loose anchor) := by
    rw [listing_eq_merge]
    exact List.merge_perm_append _
  have hfilter := hperm.filter fun e => decide (e.address = anchor)
  rw [List.filter_append, hcode, hloose] at hfilter
  exact List.perm_singleton.1 hfilter

/-- Every stored word is shown. -/
theorem listing_shows {a : Nat} (h : a < m.dense.size ∨ a ∈ m.sparse) :
    ∃ e ∈ m.listing anchor, e.Shows a := by
  have hshown (hcode : ∃ e ∈ m.code anchor, e.Shows a) : ∃ e ∈ m.listing anchor, e.Shows a := by
    obtain ⟨e, he, hshows⟩ := hcode
    exact ⟨e, mem_listing_iff.2 (.inl he), hshows⟩
  cases h with
  | inl hdense =>
    exact hshown ((m.code_shows_iff anchor a).2
      (.inl (Nat.lt_of_lt_of_le hdense (m.denseEnd_bounds anchor).1)))
  | inr hsparse =>
    by_cases hin : m.InWindow anchor a
    · obtain ⟨hfar, hstart, hstop⟩ := hin
      exact hshown ((m.code_shows_iff anchor a).2
        (.inr ⟨hfar, hstart, Nat.lt_of_lt_of_le hstop (m.windowEnd_bounds hfar).1⟩))
    · have hword : m.sparse[a]? = some m.sparse[a] := Std.ExtTreeMap.getElem?_eq_some_getElem hsparse
      exact ⟨_, mem_listing_iff.2 (.inr ((m.mem_loose_iff anchor _).2 ⟨a, _, hword, hin, rfl⟩)),
        Nat.le_refl a, Nat.lt_succ_self a⟩

/-- **A listing is complete, anchored and short.** Whatever has been stored into an image, and wherever the
    anchor lies: the two sweeps that a listing is made of end, the first within as many turns as there are
    words in the dense region and one more, the second within as many as there are in the window and one
    more; there is exactly one entry at the anchor, the reading there; every word of the dense region and
    every sparse word is shown by an entry; every entry is the reading at its address or the word there;
    and there are no more entries than words in the dense region, sparse words and words in the window. -/
theorem listing_complete (image : List Word) (stores : List (Nat × Word)) (anchor : Nat) :
    let m := (ofImage image).storeAll stores
    (Turn.run (m.sweepTurn anchor m.dense.size) (m.dense.size + 1) (0, #[]) =
        some (m.denseSweep anchor) ∧
      Turn.run (m.sweepTurn anchor (anchor + listingWindow)) (2 * listingWindow + 1)
        (m.windowStart anchor, (m.denseSweep anchor).1) = some (m.windowSweep anchor)) ∧
    (m.listing anchor).filter (fun e => e.address = anchor) = [m.entryAt anchor] ∧
    (∀ a, a < m.dense.size ∨ a ∈ m.sparse →
      ∃ e ∈ m.listing anchor, e.address ≤ a ∧ a < e.address + e.width) ∧
    (∀ e ∈ m.listing anchor, e = m.entryAt e.address ∨ e = m.wordAt e.address) ∧
    (m.listing anchor).length ≤ m.dense.size + m.sparse.size + 2 * listingWindow := by
  intro m
  have hm : m.Apart := (stored_storeAll image stores).apart
  refine ⟨⟨?_, ?_⟩, filter_anchor_listing hm anchor, fun a => listing_shows, fun e he => ?_, ?_⟩
  · exact m.run_sweepTurn anchor m.dense.size 0 #[] (Nat.lt_succ_self _)
  · have hstart : anchor - listingWindow ≤ m.windowStart anchor := Nat.le_max_left _ _
    exact m.run_sweepTurn anchor _ _ _ (by omega)
  · cases mem_listing_iff.1 he with
    | inl hcode => exact code_lists hcode
    | inr hloose => exact loose_lists hm hloose
  · have hlength : (m.listing anchor).length = (m.code anchor).length + (m.loose anchor).length := by
      rw [listing_eq_merge, List.length_merge]
    have hcode := m.length_code_le anchor
    have hloose := m.length_loose_le anchor
    omega

/-- The one word of an image is an instruction of four words, and it runs over an anchor past the dense
    region. -/
theorem listing_complete_straddled :
    ((ofImage [1]).listing 2).filter (fun e => e.address = 2) = [(ofImage [1]).entryAt 2] ∧
    ∃ e ∈ (ofImage [1]).listing 2, e.address ≤ 0 ∧ 0 < e.address + e.width := by
  obtain ⟨-, hanchor, hshows, -⟩ := listing_complete [1] [] 2
  exact ⟨hanchor, hshows 0 (.inl (by decide))⟩

end Memory

end WordMachine
