import WordMachine.Debugger.Pane

/-!
# What is drawn on a screen

Each operation of a screen is described by the cells that it changes, and by what becomes of them.

* `Screen.cell?` -- the cell at a column and a row, if there is one;
* `Cell.drawn` -- a cell after a character was drawn in it, or none;
* `Screen.cell?_putAll`, `Screen.cell?_write` -- lines are drawn character by character into their area;
* `Screen.cell?_frame` -- a border leaves what is inside it alone;
* `Pane.cell?_draw` -- so the inside of a pane shows its lines.
-/

namespace WordMachine

/-! ## 1. Cells -/

/-- A cell with a character and its style drawn in it; without one it stays as it is. -/
def Cell.drawn (c : Cell) : Option (Char × Style) → Cell
  | none => c
  | some (char, style) => { c with char := char }.restyle style

theorem Cell.restyle_plain (c : Cell) : c.restyle {} = c := by
  unfold restyle
  rw [Bool.or_false]
  rfl

namespace Screen

variable {s : Screen} {x y x' y' : Nat}

/-- The cell at a column and a row. -/
def cell? (s : Screen) (x y : Nat) : Option Cell := s.rows[y]?.bind fun row => row[x]?

theorem cell?_modify (s : Screen) (x y : Nat) (f : Cell → Cell) (x' y' : Nat) :
    (s.modify x y f).cell? x' y' =
      if x' = x ∧ y' = y then (s.cell? x' y').map f else s.cell? x' y' := by
  unfold cell? modify
  rw [Array.getElem?_modify]
  by_cases hy : y = y'
  · subst hy
    rw [if_pos rfl]
    cases s.rows[y]? with
    | none => simp
    | some row =>
      simp only [Option.map_some, Option.bind_some, Array.getElem?_modify, and_true, eq_comm]
  · rw [if_neg hy, if_neg fun h => hy h.2.symm]

theorem cell?_modify_of_ne {f : Cell → Cell} (h : x' ≠ x ∨ y' ≠ y) :
    (s.modify x y f).cell? x' y' = s.cell? x' y' := by
  rw [cell?_modify, if_neg fun hxy => h.elim (· hxy.1) (· hxy.2)]

/-- What each step of a loop leaves alone, the loop leaves alone. -/
theorem cell?_foldl {α : Type} {f : Screen → α → Screen} {l : List α}
    (h : ∀ s, ∀ e ∈ l, (f s e).cell? x y = s.cell? x y) (s : Screen) :
    (l.foldl f s).cell? x y = s.cell? x y := by
  induction l generalizing s with
  | nil => rfl
  | cons e l ih =>
    rw [List.foldl_cons, ih fun s e' he' => h s e' (List.mem_cons_of_mem e he')]
    exact h s e List.mem_cons_self

theorem cell?_paint_plain (s : Screen) (a : Area) (x y : Nat) :
    (s.paint a {}).cell? x y = s.cell? x y := by
  refine cell?_foldl (fun s y' _ => cell?_foldl (fun s x' _ => ?_) s) s
  rw [cell?_modify]
  split
  · simp only [Cell.restyle_plain, Option.map_id']
  · rfl

/-! ## 2. Lines -/

/-- **Characters are drawn one after the other** from their column on. -/
theorem cell?_putAll (s : Screen) (x y : Nat) (chars : List (Char × Style)) (x' y' : Nat) :
    (s.putAll x y chars).cell? x' y' =
      if y' = y ∧ x ≤ x' then (s.cell? x' y').map (·.drawn chars[x' - x]?) else s.cell? x' y' := by
  induction chars generalizing s x with
  | nil =>
    split
    · exact Option.map_id'.symm
    · rfl
  | cons c rest ih =>
    obtain ⟨char, style⟩ := c
    show ((s.put x y char style).putAll (x + 1) y rest).cell? x' y' = _
    rw [ih]
    unfold put
    rw [cell?_modify]
    by_cases hy : y' = y
    · by_cases hlt : x < x'
      · have hsub : x' - x = x' - (x + 1) + 1 := by omega
        rw [if_pos ⟨hy, hlt⟩, if_neg (by omega), if_pos ⟨hy, Nat.le_of_lt hlt⟩, hsub,
          List.getElem?_cons_succ]
      · by_cases heq : x' = x
        · rw [if_neg (by omega), if_pos ⟨heq, hy⟩, if_pos ⟨hy, Nat.le_of_eq heq.symm⟩, heq, Nat.sub_self,
            List.getElem?_cons_zero]
          rfl
        · rw [if_neg (by omega), if_neg (by omega), if_neg (by omega)]
    · rw [if_neg (fun h => hy h.1), if_neg (fun h => hy h.2), if_neg (fun h => hy h.1)]

theorem cell?_writeLine (s : Screen) (a : Area) {l : Line} (hl : l.row = {}) (x y : Nat) :
    (s.writeLine a false l).cell? x y =
      if y = a.top ∧ a.left ≤ x then
        (s.cell? x y).map (·.drawn ((chars l).take a.width)[x - a.left]?)
      else s.cell? x y := by
  unfold writeLine
  rw [hl, cell?_putAll, cell?_paint_plain]
  rfl

/-- The character in a column of a line, cut to a width. -/
def charAt? (lines : List Line) (width k column : Nat) : Option (Char × Style) :=
  lines[k]?.bind fun l => ((chars l).take width)[column]?

theorem cell?_foldl_writeLine (a : Area) {lines : List Line} (hrow : ∀ l ∈ lines, l.row = {})
    (first : Nat) (s : Screen) (x y : Nat) :
    ((lines.zipIdx first).foldl (fun s (l, k) => s.writeLine { a with top := a.top + k } false l) s).cell?
        x y =
      if a.top + first ≤ y ∧ a.left ≤ x then
        (s.cell? x y).map (·.drawn (charAt? lines a.width (y - (a.top + first)) (x - a.left)))
      else s.cell? x y := by
  induction lines generalizing first s with
  | nil =>
    split
    · exact Option.map_id'.symm
    · rfl
  | cons l lines ih =>
    have hline := cell?_writeLine s { a with top := a.top + first } (hrow l List.mem_cons_self) x y
    simp only at hline
    rw [List.zipIdx_cons, List.foldl_cons, ih fun l' hl' => hrow l' (List.mem_cons_of_mem l hl'), hline]
    by_cases hx : a.left ≤ x
    · by_cases hlt : a.top + first < y
      · have hsub : y - (a.top + first) = y - (a.top + (first + 1)) + 1 := by omega
        rw [if_pos ⟨hlt, hx⟩, if_neg (by omega), if_pos ⟨Nat.le_of_lt hlt, hx⟩, hsub]
        rfl
      · by_cases heq : y = a.top + first
        · rw [if_neg (by omega), if_pos ⟨heq, hx⟩, if_pos ⟨Nat.le_of_eq heq.symm, hx⟩, heq, Nat.sub_self]
          rfl
        · rw [if_neg (by omega), if_neg (by omega), if_neg (by omega)]
    · rw [if_neg (fun h => hx h.2), if_neg (fun h => hx h.2), if_neg (fun h => hx h.2)]

/-- **What is written into an area**: in each of its rows the line with the number of the row. -/
theorem cell?_write (s : Screen) (a : Area) {lines : List Line} (hrow : ∀ l ∈ lines, l.row = {})
    {x y : Nat} (hx : a.left ≤ x) (htop : a.top ≤ y) (hbottom : y < a.top + a.height) :
    (s.write a false lines).cell? x y =
      (s.cell? x y).map (·.drawn (charAt? lines a.width (y - a.top) (x - a.left))) := by
  unfold write
  rw [cell?_foldl_writeLine a (fun l hl => hrow l (List.mem_of_mem_take hl)), if_pos ⟨htop, hx⟩]
  unfold charAt?
  rw [List.getElem?_take_of_lt (by omega)]
  rfl

/-! ## 3. Borders -/

/-- **A border leaves what is inside it alone.** -/
theorem cell?_frame (s : Screen) (a : Area) (title : String) (style : Style) {x y : Nat}
    (hleft : a.left < x) (hright : x + 1 < a.left + a.width) (htop : a.top < y)
    (hbottom : y + 1 < a.top + a.height) : (s.frame a title style).cell? x y = s.cell? x y := by
  have hput : ∀ (s : Screen) (x' y' : Nat) (c : Char), x ≠ x' ∨ y ≠ y' →
      (s.put x' y' c style).cell? x y = s.cell? x y := fun _ _ _ _ h => cell?_modify_of_ne h
  have hcolumn : ∀ (l : List Nat) (s : Screen) (x' : Nat), x ≠ x' →
      (l.foldl (fun s y' => s.put x' y' '│' style) s).cell? x y = s.cell? x y :=
    fun l s x' h => cell?_foldl (fun s y' _ => hput s x' y' '│' (.inl h)) s
  have hrow : ∀ (l : List Nat) (s : Screen) (y' : Nat), y ≠ y' →
      (l.foldl (fun s x' => s.put x' y' '─' style) s).cell? x y = s.cell? x y :=
    fun l s y' h => cell?_foldl (fun s x' _ => hput s x' y' '─' (.inr h)) s
  unfold frame
  split
  · rfl
  · simp only
    rw [cell?_putAll, if_neg (by omega), hput _ _ _ _ (.inl (by omega)), hput _ _ _ _ (.inl (by omega)),
      hput _ _ _ _ (.inl (by omega)), hput _ _ _ _ (.inl (by omega)), hrow _ _ _ (by omega),
      hcolumn _ _ _ (by omega), hrow _ _ _ (by omega), hcolumn _ _ _ (by omega)]

end Screen

/-! ## 4. Panes -/

/-- **The inside of a pane shows its lines**, character by character. -/
theorem Pane.cell?_draw (p : Pane) (s : Screen) (a : Area) (hstyle : p.style = {})
    (hrow : ∀ l ∈ p.lines, l.row = {}) {column k : Nat} (hcolumn : column < a.width - 2 - p.indent)
    (hk : k < a.height - 2) :
    (p.draw s a).cell? (a.left + 1 + p.indent + column) (a.top + 1 + k) =
      (s.cell? (a.left + 1 + p.indent + column) (a.top + 1 + k)).map
        (·.drawn (Screen.charAt? p.lines (a.width - 2 - p.indent) k column)) := by
  have hrows : a.top + 1 + k - (a.inside p.indent).top = k := Nat.add_sub_cancel_left _ _
  have hcolumns : a.left + 1 + p.indent + column - (a.inside p.indent).left = column :=
    Nat.add_sub_cancel_left _ _
  unfold draw
  rw [Screen.cell?_write _ (a.inside p.indent) hrow (x := a.left + 1 + p.indent + column)
      (y := a.top + 1 + k) (Nat.le_add_right _ _) (Nat.le_add_right _ _) (Nat.add_lt_add_left hk _),
    hrows, hcolumns, Screen.cell?_frame _ _ _ _ (by omega) (by omega) (by omega) (by omega), hstyle,
    Screen.cell?_paint_plain]
  rfl

end WordMachine
