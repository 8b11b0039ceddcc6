import WordMachine.Output
import WordMachine.Proofs.Unambiguous

/-!
# The lines of some output

The lines are laid out in one pass, which keeps the line begun and ends it in three ways: a line feed ends
it in any case, a value that is no character ends it if there is anything in it, and so does the end. This
file says what the lines are without the line begun.

* `Output.Outside`, `Output.Separates` -- the values that are no characters, and the values at which a line
  ends, said with numbers;
* `Output.textOf` -- what a value has to say by itself;
* `Output.lines_induction` -- the pass by the kinds of values: the shape of every proof about the lines;
* `Output.render_splits_at_separators` -- the lines of what stands before and after a separator are laid out
  each by itself, no line has a line feed in it, and one after the other they say what the values say.
-/

namespace WordMachine.Output

/-! ## 1. The kinds of values -/

/-- A value that is not the code of a character. -/
def Outside (v : Word) : Prop := v.toInt < 0 ∨ 255 < v.toInt

instance (v : Word) : Decidable (Outside v) := inferInstanceAs (Decidable (_ ∨ _))

/-- A value at which a line ends: a line feed, or one that is not the code of a character. -/
def Separates (v : Word) : Prop := v = 10 ∨ Outside v

instance (v : Word) : Decidable (Separates v) := inferInstanceAs (Decidable (_ ∨ _))

/-- The character whose code a value is. -/
def character (v : Word) : Char := Char.ofNat v.toInt.toNat

/-- **The text of a value by itself**: none for a line feed, the character whose code it is, or its decimal
    text. -/
def textOf (v : Word) : String :=
  if v = 10 then "" else if Outside v then Word.decimal v else String.singleton (character v)

theorem textOf_outside {v : Word} (h : Outside v) : textOf v = Word.decimal v := by
  have hne : v ≠ 10 := by
    rintro rfl
    revert h
    decide
  rw [textOf, if_neg hne, if_pos h]

theorem textOf_character {v : Word} (h : ¬ Separates v) : textOf v = String.singleton (character v) := by
  obtain ⟨hne, hinside⟩ := not_or.1 h
  rw [textOf, if_neg hne, if_neg hinside]

theorem toNat_character {v : Word} (h : ¬ Outside v) : (character v).toNat = v.toInt.toNat := by
  obtain ⟨hlow, hhigh⟩ := not_or.1 h
  have hvalid : v.toInt.toNat.isValidChar := .inl (by omega)
  rw [character, Char.ofNat, dif_pos hvalid]
  rfl

/-- The line feed is the character of one value only. -/
theorem character_ne_lineFeed {v : Word} (h : ¬ Separates v) : character v ≠ '\n' := by
  obtain ⟨hne, hinside⟩ := not_or.1 h
  intro hfeed
  have hcode : v.toInt.toNat = 10 := by
    rw [← toNat_character hinside, hfeed]
    rfl
  obtain ⟨hlow, -⟩ := not_or.1 hinside
  refine hne (Int64.toInt_inj.1 ?_)
  show v.toInt = 10
  omega

/-! ## 2. One value -/

theorem char?_outside {v : Word} (h : Outside v) : char? v = none := by
  unfold char?
  cases haddress : Word.address? v with
  | none => rfl
  | some code =>
    rw [Word.address?_eq_some_iff] at haddress
    refine if_neg ?_
    unfold charLimit
    rcases h with hlow | hhigh <;> omega

theorem char?_inside {v : Word} (h : ¬ Outside v) : char? v = some (character v) := by
  obtain ⟨hlow, hhigh⟩ := not_or.1 h
  have haddress : Word.address? v = some v.toInt.toNat := by
    rw [Word.address?_eq_some_iff]
    omega
  have hlimit : v.toInt.toNat < charLimit := by
    unfold charLimit
    omega
  simp only [char?, haddress, if_pos hlimit]
  rfl

theorem renderAfter_lineFeed (line : String) (rest : List Word) :
    renderAfter line (10 :: rest) = line :: render rest := by
  have hfeed : char? 10 = some '\n' := by decide
  rw [renderAfter]
  simp only [hfeed, if_pos]
  rfl

theorem renderAfter_outside {v : Word} (h : Outside v) (line : String) (rest : List Word) :
    renderAfter line (v :: rest) = finish line ++ Word.decimal v :: render rest := by
  rw [renderAfter]
  simp only [char?_outside h]
  rfl

theorem renderAfter_character {v : Word} (h : ¬ Separates v) (line : String) (rest : List Word) :
    renderAfter line (v :: rest) = renderAfter (line.push (character v)) rest := by
  rw [renderAfter]
  simp only [char?_inside (not_or.1 h).2, if_neg (character_ne_lineFeed h)]

/-- **The pass, by the kinds of values.** A separator begins a new line, a character is put at the end of
    the line begun. -/
@[elab_as_elim]
theorem lines_induction {motive : String → List Word → Prop} (line : String) (values : List Word)
    (nil : ∀ line, motive line [])
    (lineFeed : ∀ line rest, motive "" rest → motive line (10 :: rest))
    (outside : ∀ line v rest, Outside v → motive "" rest → motive line (v :: rest))
    (character : ∀ line v rest, ¬ Separates v → motive (line.push (character v)) rest →
      motive line (v :: rest)) :
    motive line values := by
  induction values generalizing line with
  | nil => exact nil line
  | cons v rest ih =>
    by_cases h : Separates v
    · rcases h with rfl | h
      · exact lineFeed line rest (ih "")
      · exact outside line v rest h (ih "")
    · exact character line v rest h (ih _)

/-! ## 3. Separators -/

/-- **At a separator the lines fall apart**: nothing after it depends on what is before it. -/
theorem renderAfter_append {s : Word} (hs : Separates s) (ys : List Word) (line : String) (xs : List Word) :
    renderAfter line (xs ++ s :: ys) = renderAfter line (xs ++ [s]) ++ render ys := by
  induction line, xs using lines_induction with
  | nil line =>
    -- The separator ends the line begun in one of two ways; what follows starts from an empty line.
    rcases hs with rfl | hs
    · rw [List.nil_append, List.nil_append, renderAfter_lineFeed, renderAfter_lineFeed]
      rfl
    · rw [List.nil_append, List.nil_append, renderAfter_outside hs, renderAfter_outside hs,
        List.append_assoc]
      rfl
  | lineFeed line rest ih =>
    rw [List.cons_append, List.cons_append, renderAfter_lineFeed, renderAfter_lineFeed]
    exact congrArg (line :: ·) ih
  | outside line v rest hv ih =>
    rw [List.cons_append, List.cons_append, renderAfter_outside hv, renderAfter_outside hv, List.append_assoc]
    exact congrArg (finish line ++ Word.decimal v :: ·) ih
  | character line v rest hv ih =>
    rw [List.cons_append, List.cons_append, renderAfter_character hv, renderAfter_character hv]
    exact ih

/-- **A value that is no character** is the last line, after the lines of what is before it. -/
theorem renderAfter_append_outside {s : Word} (hs : Outside s) (line : String) (xs : List Word) :
    renderAfter line (xs ++ [s]) = renderAfter line xs ++ [Word.decimal s] := by
  induction line, xs using lines_induction with
  | nil line => exact renderAfter_outside hs line []
  | lineFeed line rest ih =>
    rw [List.cons_append, renderAfter_lineFeed, renderAfter_lineFeed]
    exact congrArg (line :: ·) ih
  | outside line v rest hv ih =>
    rw [List.cons_append, renderAfter_outside hv, renderAfter_outside hv, List.append_assoc]
    exact congrArg (finish line ++ Word.decimal v :: ·) ih
  | character line v rest hv ih =>
    rw [List.cons_append, renderAfter_character hv, renderAfter_character hv]
    exact ih

/-! ## 4. The text -/

theorem lineFeed_notMem_decimal (w : Word) : '\n' ∉ (Word.decimal w).toList := by
  have hdigits : '\n' ∉ Nat.toDigits 10 w.toInt.natAbs := by
    intro h
    have hdigit : '\n'.isDigit = true := Nat.isDigit_of_mem_toDigits (by decide) (by decide) h
    revert hdigit
    decide
  rw [Text.toList_decimal]
  split
  · rw [List.mem_cons, not_or]
    exact ⟨by decide, hdigits⟩
  · exact hdigits

theorem eq_of_mem_finish {line l : String} (h : l ∈ finish line) : l = line := by
  unfold finish at h
  split at h
  · cases h
  · exact List.mem_singleton.1 h

/-- **No line has a line feed in it** if the line begun has none. -/
theorem lineFeed_notMem_renderAfter (line : String) (values : List Word) (hline : '\n' ∉ line.toList) :
    ∀ l ∈ renderAfter line values, '\n' ∉ l.toList := by
  induction line, values using lines_induction with
  | nil line =>
    intro l hl
    rw [eq_of_mem_finish hl]
    exact hline
  | lineFeed line rest ih =>
    rw [renderAfter_lineFeed, List.forall_mem_cons]
    exact ⟨hline, ih List.not_mem_nil⟩
  | outside line v rest hv ih =>
    rw [renderAfter_outside hv, List.forall_mem_append, List.forall_mem_cons]
    refine ⟨fun l hl => ?_, lineFeed_notMem_decimal v, ih List.not_mem_nil⟩
    rw [eq_of_mem_finish hl]
    exact hline
  | character line v rest hv ih =>
    rw [renderAfter_character hv]
    refine ih ?_
    rw [String.toList_push, List.mem_append, List.mem_singleton, not_or]
    exact ⟨hline, (character_ne_lineFeed hv).symm⟩

theorem join_finish (line : String) : String.join (finish line) = line := by
  unfold finish
  split
  · rename_i hempty
    exact (String.isEmpty_iff.1 hempty).symm
  · rw [String.join_cons, String.join_nil, String.append_empty]

/-- **The lines lose no text**: one after the other they are the line begun and the texts of the values. -/
theorem join_renderAfter (line : String) (values : List Word) :
    String.join (renderAfter line values) = line ++ String.join (values.map textOf) := by
  induction line, values using lines_induction with
  | nil line =>
    rw [List.map_nil, String.join_nil, String.append_empty]
    exact join_finish line
  | lineFeed line rest ih =>
    have htext : textOf 10 = "" := if_pos rfl
    rw [renderAfter_lineFeed, List.map_cons, String.join_cons, String.join_cons, htext]
    exact congrArg (line ++ ·) ih
  | outside line v rest hv ih =>
    rw [renderAfter_outside hv, String.join_append, join_finish, List.map_cons, String.join_cons,
      String.join_cons, textOf_outside hv]
    refine congrArg (fun text => line ++ (Word.decimal v ++ text)) (ih.trans ?_)
    exact String.empty_append
  | character line v rest hv ih =>
    rw [renderAfter_character hv, ih, List.map_cons, String.join_cons, textOf_character hv,
      String.push_eq_append, String.append_assoc]

/-! ## 5. The lines of some output -/

/-- **What the lines of some output are.** What stands before a separator, with it, and what stands after it
    are laid out each by itself; a value that is no character adds one line, which is its decimal text; no
    line has a line feed in it; and the lines say, one after the other, what the values say. -/
theorem render_splits_at_separators :
    (∀ xs ys s, Separates s → render (xs ++ [s] ++ ys) = render (xs ++ [s]) ++ render ys) ∧
      (∀ xs s, Outside s → render (xs ++ [s]) = render xs ++ [Word.decimal s]) ∧
      (∀ xs, ∀ line ∈ render xs, '\n' ∉ line.toList) ∧
      (∀ xs, String.join (render xs) = String.join (xs.map textOf)) := by
  refine ⟨fun xs ys s hs => ?_, fun xs s hs => renderAfter_append_outside hs "" xs,
    fun xs => lineFeed_notMem_renderAfter "" xs List.not_mem_nil, fun xs => ?_⟩
  · rw [List.append_assoc]
    exact renderAfter_append hs ys "" xs
  · exact (join_renderAfter "" xs).trans String.empty_append

/-- A line of text, a blank line, and a text between two numbers. -/
theorem render_splits_at_separators_blank_line :
    Separates 10 ∧ Outside 256 ∧ Outside (-5) ∧
      render ([72, 105] ++ [10] ++ [10, 256, 120]) = render ([72, 105] ++ [10]) ++ render [10, 256, 120] ∧
      render ([72, 105, 10, 10, 256, 120] ++ [-5]) =
        render [72, 105, 10, 10, 256, 120] ++ [Word.decimal (-5)] ∧
      render [72, 105, 10, 10, 256, 120] = ["Hi", "", "256", "x"] ∧ '\n' ∉ "Hi".toList ∧
      String.join ["Hi", "", "256", "x"] = String.join ([72, 105, 10, 10, 256, 120].map textOf) := by
  obtain ⟨hsplit, hnumber, hline, htext⟩ := render_splits_at_separators
  have hlines : render [72, 105, 10, 10, 256, 120] = ["Hi", "", "256", "x"] := by decide +kernel
  have hfirst : "Hi" ∈ render [72, 105, 10, 10, 256, 120] := by
    rw [hlines]
    exact List.mem_cons_self
  have hjoin := htext [72, 105, 10, 10, 256, 120]
  rw [hlines] at hjoin
  exact ⟨by decide, by decide, by decide, hsplit _ _ _ (by decide), hnumber _ _ (by decide), hlines,
    hline _ _ hfirst, hjoin⟩

end WordMachine.Output
