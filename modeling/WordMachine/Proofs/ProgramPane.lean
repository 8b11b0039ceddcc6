import WordMachine.Debugger.ProgramPane
import WordMachine.Proofs.Coverage
import WordMachine.Proofs.Screen

/-!
# The current instruction stays on the page

The program pane lists memory around the current instruction, keeps that instruction in its row as far
as the ends of the listing allow, and leaves a scroll state for the next time.

* `exists_index_of_filter`, `findIdx?_of_unique` -- what passes a filter alone has one place, which is found;
* `Memory.listing_at_anchor` -- the current instruction is one entry of the listing, and the only one at
  its address;
* `Pane.clampScroll_full`, `Pane.lt_clampScroll_add` -- clamping fills the last page and loses no line that
  was on the page;
* `ProgramPane.settle_shows`, `ProgramPane.settle_settle` -- the page holds the current instruction, and
  settling once more changes nothing;
* `ProgramPane.isHighlighted_line`, `ProgramPane.head_line` -- which line is highlighted, and how it begins;
* `ProgramPane.shown_current` -- the lines that are shown;
* `ProgramPane.current_always_shown` -- what is drawn of them.
-/

namespace WordMachine

/-! ## 1. The current entry -/

/-- What a filter leaves alone has one place in a list, and nothing else in the list passes. -/
theorem exists_index_of_filter {α : Type} {p : α → Bool} {l : List α} {a : α} (h : l.filter p = [a]) :
    ∃ index, l[index]? = some a ∧
      ∀ (i : Nat) (b : α), l[i]? = some b → (p b = true ↔ i = index) := by
  obtain ⟨before, after, rfl, hbefore, ha, hafter⟩ := List.filter_eq_cons_iff.1 h
  have hafter := List.filter_eq_nil_iff.1 hafter
  have hhere : (before ++ a :: after)[before.length]? = some a := by
    rw [List.getElem?_append_right (Nat.le_refl _), Nat.sub_self, List.getElem?_cons_zero]
  refine ⟨before.length, hhere, fun i b hb => ?_⟩
  rcases Nat.lt_trichotomy i before.length with hlt | rfl | hgt
  · rw [List.getElem?_append_left hlt] at hb
    exact ⟨fun hp => absurd hp (hbefore b (List.mem_of_getElem? hb)), fun h => absurd h (Nat.ne_of_lt hlt)⟩
  · obtain rfl : a = b := Option.some.inj (hhere.symm.trans hb)
    exact ⟨fun _ => rfl, fun _ => ha⟩
  · obtain ⟨k, rfl⟩ := Nat.exists_eq_add_of_lt hgt
    rw [List.getElem?_append_right (by omega), Nat.add_assoc, Nat.add_sub_cancel_left,
      List.getElem?_cons_succ] at hb
    exact ⟨fun hp => absurd hp (hafter b (List.mem_of_getElem? hb)), fun h => absurd h (by omega)⟩

/-- That place is found by a search from the front. -/
theorem findIdx?_of_unique {α : Type} {p : α → Bool} {l : List α} {index : Nat} {a : α}
    (hhere : l[index]? = some a)
    (hunique : ∀ (i : Nat) (b : α), l[i]? = some b → (p b = true ↔ i = index)) :
    l.findIdx? p = some index := by
  obtain ⟨hlt, hget⟩ := List.getElem?_eq_some_iff.1 hhere
  refine List.findIdx?_eq_some_iff_getElem.2 ⟨hlt, ?_, fun j hj hp => ?_⟩
  · rw [hget]
    exact (hunique index a hhere).2 rfl
  · have hj' := (hunique j _ (List.getElem?_eq_getElem (Nat.lt_trans hj hlt))).1 hp
    omega

/-- **The entry at the anchor has a place in the listing**, and no other entry has its address. -/
theorem Memory.listing_at_anchor {m : Memory} (hm : m.Apart) (anchor : Nat) :
    ∃ index, (m.listing anchor)[index]? = some (m.entryAt anchor) ∧
      ∀ (i : Nat) (e : Entry), (m.listing anchor)[i]? = some e → (e.address = anchor ↔ i = index) := by
  obtain ⟨index, hhere, hunique⟩ := exists_index_of_filter (filter_anchor_listing hm anchor)
  exact ⟨index, hhere, fun i e he => decide_eq_true_iff.symm.trans (hunique i e he)⟩

/-! ## 2. Pages -/

namespace Pane

variable {offset total size index : Nat}

theorem clampScroll_le (offset total size : Nat) : clampScroll offset total size ≤ offset := by
  unfold clampScroll
  split
  · exact Nat.min_le_left _ _
  · exact Nat.zero_le _

/-- **The last page stays full.** -/
theorem clampScroll_full (offset total size : Nat) :
    clampScroll offset total size + size ≤ total ∨ clampScroll offset total size = 0 := by
  unfold clampScroll
  split
  · omega
  · exact .inr rfl

/-- A line that was on the page or before it is not past it after clamping. -/
theorem lt_clampScroll_add (htotal : index < total) (h : index < offset + size) :
    index < clampScroll offset total size + size := by
  unfold clampScroll
  split <;> omega

theorem clampScroll_clampScroll (offset total size : Nat) :
    clampScroll (clampScroll offset total size) total size = clampScroll offset total size := by
  unfold clampScroll
  split
  · rw [Nat.min_assoc, Nat.min_self]
  · rfl

theorem getElem?_page {α : Type} (items : List α) (offset : Nat) {size k : Nat} (h : k < size) :
    (page items offset size)[k]? = items[offset + k]? := by
  unfold page
  rw [List.getElem?_take_of_lt h, List.getElem?_drop]

theorem length_page_le {α : Type} (items : List α) (offset size : Nat) :
    (page items offset size).length ≤ size := List.length_take_le _ _

end Pane

/-! ## 3. Lines -/

/-- Whether something in a line has a colour behind it. -/
def Line.isHighlighted (l : Line) : Bool := l.spans.any fun span => span.style.bg.isSome

namespace ProgramPane

variable {m : Memory} {entries : List Entry} {pc index : Nat} {isError : Bool}

theorem row_line (pc : Nat) (isError : Bool) (e : Entry) : (line pc isError e).row = {} := by
  unfold line
  simp only
  split <;> rfl

/-- **The line of the current instruction is highlighted**, and no other. -/
theorem isHighlighted_line (pc : Nat) (isError : Bool) (e : Entry) :
    (line pc isError e).isHighlighted = decide (e.address = pc) := by
  unfold line Line.isHighlighted body
  simp only
  split
  · rename_i h
    rw [decide_eq_true h]
    cases isError <;> rfl
  · rename_i h
    rw [decide_eq_false h]
    cases e.reading <;> rfl

/-- The style in which a line begins. -/
def addressStyle (pc : Nat) (e : Entry) : Style :=
  if e.address = pc then (Style.ofColour Theme.secondary).inBold else .ofColour Theme.comment

/-- A line begins as its first span does. -/
theorem head_chars {l : Line} {span : Span} {rest : List Span} (hl : l.spans = span :: rest)
    (hne : span.text.toList ≠ []) : ∃ c, (Screen.chars l)[0]? = some (c, span.style) := by
  obtain ⟨c, cs, hc⟩ := List.exists_cons_of_ne_nil hne
  refine ⟨c, ?_⟩
  unfold Screen.chars
  rw [hl, List.flatMap_cons, hc]
  rfl

/-- Every line begins with the address. -/
theorem spans_line (pc : Nat) (isError : Bool) (e : Entry) :
    ∃ rest, (line pc isError e).spans =
      ⟨Text.flushRight 6 (toString e.address) ++ " ", addressStyle pc e⟩ :: rest := by
  unfold line addressStyle
  simp only
  split <;> exact ⟨_, rfl⟩

theorem head_line (pc : Nat) (isError : Bool) (e : Entry) :
    ∃ c, (Screen.chars (line pc isError e))[0]? = some (c, addressStyle pc e) := by
  obtain ⟨rest, hspans⟩ := spans_line pc isError e
  refine head_chars hspans ?_
  rw [String.toList_append]
  exact List.append_ne_nil_of_right_ne_nil _ (by decide)

/-! ## 4. The page -/

theorem targetRow_lt (scroll : ProgramScroll) {page : Nat} (h : 0 < page) :
    targetRow scroll page < page := by
  unfold targetRow
  omega

theorem pageSize_pos (height : Nat) : 0 < Pane.pageSize height := by
  unfold Pane.pageSize
  omega

/-- **The page holds the current instruction.** -/
theorem settle_shows (height : Nat) (scroll : ProgramScroll)
    (hindex : entries.findIdx? (fun e => e.address = pc) = some index)
    (hlt : index < entries.length) :
    (settle entries pc height scroll).offset ≤ index ∧
      index < (settle entries pc height scroll).offset + Pane.pageSize height := by
  have hrow := targetRow_lt scroll (pageSize_pos height)
  have hpage : index < index - targetRow scroll (Pane.pageSize height) + Pane.pageSize height := by omega
  unfold settle
  simp only [hindex]
  exact ⟨Nat.le_trans (Pane.clampScroll_le _ _ _) (Nat.sub_le _ _), Pane.lt_clampScroll_add hlt hpage⟩

theorem settle_full (entries : List Entry) (pc height : Nat) (scroll : ProgramScroll) :
    (settle entries pc height scroll).offset + Pane.pageSize height ≤ entries.length ∨
      (settle entries pc height scroll).offset = 0 :=
  Pane.clampScroll_full _ _ _

/-- **Settling once more changes nothing.** -/
theorem settle_settle (entries : List Entry) (pc height : Nat) (scroll : ProgramScroll) :
    settle entries pc height (settle entries pc height scroll) = settle entries pc height scroll := by
  have hrow : targetRow (settle entries pc height scroll) (Pane.pageSize height) =
      targetRow scroll (Pane.pageSize height) := by
    show min (targetRow scroll (Pane.pageSize height)) (Pane.pageSize height - 1) = _
    have := targetRow_lt scroll (pageSize_pos height)
    omega
  unfold settle at hrow ⊢
  simp only [hrow]
  cases entries.findIdx? fun e => e.address = pc with
  | some index => rfl
  | none => exact congrArg (ProgramScroll.mk · _) (Pane.clampScroll_clampScroll _ _ _)

theorem shown_settled (m : Memory) (pc : Nat) (isError : Bool) (height : Nat) (scroll : ProgramScroll) :
    shown m pc isError height (shown m pc isError height scroll).2 = shown m pc isError height scroll := by
  unfold shown
  simp only [settle_settle]

/-- **The lines that are shown**: one of them is that of the current instruction, and it is the one that is
    highlighted. -/
theorem shown_current (hm : m.Apart) (pc : Nat) (isError : Bool) (height : Nat) (scroll : ProgramScroll) :
    let (lines, scroll) := shown m pc isError height scroll
    ∃ k < Pane.pageSize height, (m.listing pc)[scroll.offset + k]? = some (m.entryAt pc) ∧
      lines[k]? = some (line pc isError (m.entryAt pc)) ∧
      ∀ (j : Nat) (l : Line), lines[j]? = some l → (l.isHighlighted = true ↔ j = k) := by
  obtain ⟨index, hhere, hunique⟩ := Memory.listing_at_anchor hm pc
  have hfind : (m.listing pc).findIdx? (fun e => e.address = pc) = some index :=
    findIdx?_of_unique hhere fun i e he => decide_eq_true_iff.trans (hunique i e he)
  obtain ⟨hle, hpage⟩ := settle_shows height scroll hfind (List.getElem?_eq_some_iff.1 hhere).1
  unfold shown
  simp only
  generalize (settle (m.listing pc) pc height scroll).offset = offset at hle hpage ⊢
  have hplace : offset + (index - offset) = index := Nat.add_sub_cancel' hle
  have hsize : index - offset < Pane.pageSize height := by omega
  refine ⟨index - offset, hsize, ?_, ?_, fun j l hl => ?_⟩
  · rw [hplace, hhere]
  · rw [List.getElem?_map, Pane.getElem?_page _ _ hsize, hplace, hhere]
    rfl
  · rw [List.getElem?_map] at hl
    obtain ⟨e, he, rfl⟩ := Option.map_eq_some_iff.1 hl
    have hj : j < Pane.pageSize height := Nat.lt_of_lt_of_le (List.getElem?_eq_some_iff.1 he).1
      (Pane.length_page_le _ _ _)
    rw [Pane.getElem?_page _ _ hj] at he
    rw [isHighlighted_line, decide_eq_true_iff, hunique _ _ he]
    omega

/-! ## 5. The screen -/

/-- Every row inside the pane shows its line, character by character. -/
theorem cell?_draw (s : Screen) (a : Area) (m : Memory) (pc : Nat) (isError focused : Bool)
    (scroll : ProgramScroll) {column k : Nat} (hcolumn : column < a.width - 2) (hk : k < a.height - 2) :
    (draw s a m pc isError focused scroll).1.cell? (a.left + 1 + column) (a.top + 1 + k) =
      (s.cell? (a.left + 1 + column) (a.top + 1 + k)).map
        (·.drawn (Screen.charAt? (shown m pc isError a.height scroll).1 (a.width - 2) k column)) := by
  have hrow : ∀ l ∈ (shown m pc isError a.height scroll).1, l.row = {} := by
    intro l hl
    obtain ⟨e, -, rfl⟩ := List.mem_map.1 hl
    exact row_line pc isError e
  exact Pane.cell?_draw { title := " Program ", focused, lines := (shown m pc isError a.height scroll).1 }
    s a rfl hrow hcolumn hk

/-- The colour of the first character in a fresh row tells whether the row shows the current
    instruction. -/
theorem fg_first_iff {lines : List Line} {width k index : Nat} (hwidth : 0 < width)
    (hlines : ∀ l ∈ lines, ∃ e, l = line pc isError e)
    (hindex : ∀ (j : Nat) (l : Line), lines[j]? = some l → (l.isHighlighted = true ↔ j = index))
    (hcurrent : index < lines.length) :
    (({} : Cell).drawn (Screen.charAt? lines width k 0)).fg = Theme.secondary ↔ k = index := by
  unfold Screen.charAt?
  cases hk : lines[k]? with
  | none =>
    have hlen := List.getElem?_eq_none_iff.1 hk
    exact ⟨nofun, fun h => absurd hcurrent (by omega)⟩
  | some l =>
    obtain ⟨e, rfl⟩ := hlines l (List.mem_of_getElem? hk)
    obtain ⟨c, hc⟩ := head_line pc isError e
    have hiff := hindex k _ hk
    rw [isHighlighted_line, decide_eq_true_iff] at hiff
    rw [← hiff, Option.bind_some, List.getElem?_take_of_lt hwidth, hc]
    unfold addressStyle
    split
    · rename_i h
      exact ⟨fun _ => h, fun _ => rfl⟩
    · rename_i h
      exact ⟨nofun, fun h' => absurd h' h⟩

/-- **The program pane always shows the current instruction.** Take any memory that was built by stores
    into an image, any address for the current instruction, any scroll state and any area with a row
    inside its border. The lines that are shown are no more than the rows inside the border, and each
    of these rows shows its line, character by character, cut to the width. Exactly one line
    is highlighted: that of the entry at the current address, which stands in its row where the page has
    it. So if the rows were blank, there is exactly one whose first character has the colour of the
    current address. The page is full, or it begins with the listing. Whoever draws the pane once
    more with the scroll state that it has left draws the same and leaves the same scroll state. -/
theorem current_always_shown {image : List Word} {stores : List (Nat × Word)} {m : Memory}
    (hm : Memory.Stored image stores m) (pc : Nat) (isError focused : Bool) (scroll : ProgramScroll)
    (s : Screen) (a : Area) (h : 3 ≤ a.height) :
    let lines := (shown m pc isError a.height scroll).1
    let drawn := draw s a m pc isError focused scroll
    lines.length ≤ a.height - 2 ∧
    (∀ k < a.height - 2, ∀ column < a.width - 2,
      drawn.1.cell? (a.left + 1 + column) (a.top + 1 + k) =
        (s.cell? (a.left + 1 + column) (a.top + 1 + k)).map
          (·.drawn (Screen.charAt? lines (a.width - 2) k column))) ∧
    (∃ index < a.height - 2, (m.listing pc)[drawn.2.offset + index]? = some (m.entryAt pc) ∧
      lines[index]? = some (line pc isError (m.entryAt pc)) ∧
      (∀ (k : Nat) (l : Line), lines[k]? = some l → (l.isHighlighted = true ↔ k = index)) ∧
      (3 ≤ a.width → ∀ k < a.height - 2, s.cell? (a.left + 1) (a.top + 1 + k) = some {} →
        ∃ c, drawn.1.cell? (a.left + 1) (a.top + 1 + k) = some c ∧
          (c.fg = Theme.secondary ↔ k = index))) ∧
    (drawn.2.offset + (a.height - 2) ≤ (m.listing pc).length ∨ drawn.2.offset = 0) ∧
    draw s a m pc isError focused drawn.2 = drawn := by
  intro lines drawn
  have hsize : Pane.pageSize a.height = a.height - 2 := by
    unfold Pane.pageSize
    omega
  have hlines : ∀ l ∈ lines, ∃ e, l = line pc isError e := by
    intro l hl
    obtain ⟨e, -, rfl⟩ := List.mem_map.1 hl
    exact ⟨e, rfl⟩
  obtain ⟨index, hindex, hentry, hcurrent, hhighlighted⟩ :=
    shown_current hm.apart pc isError a.height scroll
  rw [hsize] at hindex
  refine ⟨?_, fun k hk column hcolumn => cell?_draw s a m pc isError focused scroll hcolumn hk,
    ⟨index, hindex, hentry, hcurrent, hhighlighted, fun hwidth k hk hblank => ?_⟩, ?_, ?_⟩
  · rw [← hsize]
    exact (List.length_map _).trans_le (Pane.length_page_le _ _ _)
  · have hinside : 0 < a.width - 2 := by omega
    refine ⟨_, (cell?_draw s a m pc isError focused scroll hinside hk).trans
      (congrArg (Option.map _) hblank), ?_⟩
    exact fg_first_iff hinside hlines hhighlighted (List.getElem?_eq_some_iff.1 hcurrent).1
  · rw [← hsize]
    exact settle_full _ _ _ _
  · show draw s a m pc isError focused (shown m pc isError a.height scroll).2 = _
    unfold draw
    rw [shown_settled]
    rfl

/-- A pane with a single row shows the current instruction in it, wherever it was scrolled to. Here the
    current instruction lies in a window far past the dense region, and the words before it are an
    instruction, too. -/
theorem current_always_shown_one_row :
    let m := (Memory.ofImage [104, 7, 99]).storeAll [(200000, 104), (200001, 8), (200002, 99)]
    let drawn := draw (Screen.blank 30 3) ⟨0, 0, 30, 3⟩ m 200002 false true ⟨99, some 50⟩
    m.dense.size = 3 ∧ m.entryAt 200002 = ⟨200002, .code .halt []⟩ ∧
      (m.listing 200002)[drawn.2.offset]? = some (m.entryAt 200002) ∧
      (∃ c, drawn.1.cell? 1 1 = some c ∧ c.fg = Theme.secondary) ∧
      (drawn.2.offset + 1 ≤ (m.listing 200002).length ∨ drawn.2.offset = 0) ∧
      draw (Screen.blank 30 3) ⟨0, 0, 30, 3⟩ m 200002 false true drawn.2 = drawn := by
  intro m drawn
  have hm : Memory.Stored [104, 7, 99] [(200000, 104), (200001, 8), (200002, 99)] m :=
    Memory.stored_storeAll _ _
  have hsize : m.dense.size = 3 := by decide +kernel
  have hcode : m.entryAt 200002 = ⟨200002, .code .halt []⟩ := by decide +kernel
  obtain ⟨-, -, ⟨index, hindex, hentry, -, -, hcolour⟩, hfull, hagain⟩ :=
    current_always_shown hm 200002 false true ⟨99, some 50⟩ (Screen.blank 30 3) ⟨0, 0, 30, 3⟩ (by decide)
  obtain rfl : index = 0 := Nat.lt_one_iff.1 hindex
  obtain ⟨c, hc, hfg⟩ := hcolour (by decide) 0 Nat.one_pos (by decide)
  exact ⟨hsize, hcode, hentry, ⟨c, hc, hfg.2 rfl⟩, hfull, hagain⟩

end ProgramPane

end WordMachine
