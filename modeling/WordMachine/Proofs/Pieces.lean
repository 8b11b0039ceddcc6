import Mathlib.Data.List.Forall2
import WordMachine.Program

/-!
# The pieces of a text

A program is cut out of its text by trimming, dividing at the commas and trimming again. This file says
what comes of it without saying how it is done.

* `Text.Trimmed` -- a text and what is left of it without the blanks around it; `Text.trim` gives exactly
  this (`trimmed_iff`);
* `Text.Pieces` -- a text and its pieces; `Program.tokens` gives exactly these (`pieces_iff`);
* `Program.tokens_trim` -- since a comma is not blank, the pieces are the same whether or not the whole
  text has been trimmed before.
-/

namespace WordMachine

namespace Text

/-! ## 1. Trimming -/

/-- **A text without the blanks around it.** -/
structure Trimmed (cs ts : List Char) : Prop where
  around : ∃ before after, (∀ c ∈ before, isBlank c = true) ∧ (∀ c ∈ after, isBlank c = true) ∧
    cs = before ++ ts ++ after
  first : ∀ c, ts.head? = some c → isBlank c = false
  last : ∀ c, ts.getLast? = some c → isBlank c = false

theorem trimStart_blank_append {x : List Char} (hx : ∀ c ∈ x, isBlank c = true) (cs : List Char) :
    trimStart (x ++ cs) = trimStart cs :=
  List.dropWhile_append_of_pos hx

theorem trimEnd_append_blank (cs : List Char) {x : List Char} (hx : ∀ c ∈ x, isBlank c = true) :
    trimEnd (cs ++ x) = trimEnd cs := by
  have hx' : ∀ c ∈ x.reverse, isBlank c = true := fun c hc => hx c (List.mem_reverse.1 hc)
  unfold trimEnd
  rw [List.reverse_append, trimStart_blank_append hx']

theorem trim_blank_append {x : List Char} (hx : ∀ c ∈ x, isBlank c = true) (cs : List Char) :
    trim (x ++ cs) = trim cs := by
  unfold trim
  rw [trimStart_blank_append hx]

theorem trim_append_blank (cs : List Char) {x : List Char} (hx : ∀ c ∈ x, isBlank c = true) :
    trim (cs ++ x) = trim cs := by
  have hstart : trimStart (cs ++ x) = if (trimStart cs).isEmpty then trimStart x else trimStart cs ++ x :=
    List.dropWhile_append
  unfold trim
  rw [hstart]
  split
  · next hempty =>
    rw [(trimStart_eq_nil_iff x).2 hx, List.isEmpty_iff.1 hempty]
  · exact trimEnd_append_blank _ hx

/-- The first character that is left is not blank. -/
theorem head?_trimStart {cs : List Char} {c : Char} (h : (trimStart cs).head? = some c) :
    isBlank c = false := by
  have hnot := List.head?_dropWhile_not isBlank cs
  unfold trimStart at h
  rw [h] at hnot
  exact hnot

theorem trimStart_of_head? {cs : List Char} (h : ∀ c, cs.head? = some c → isBlank c = false) :
    trimStart cs = cs := by
  cases cs with
  | nil => rfl
  | cons c cs =>
    have hc := h c rfl
    exact List.dropWhile_cons_of_neg (by rw [hc]; nofun)

theorem trim_of_ends {ts : List Char} (hf : ∀ c, ts.head? = some c → isBlank c = false)
    (hl : ∀ c, ts.getLast? = some c → isBlank c = false) : trim ts = ts := by
  unfold trim trimEnd
  rw [trimStart_of_head? hf, trimStart_of_head? (by simpa using hl), List.reverse_reverse]

theorem trimStart_eq_trim_append (cs : List Char) :
    trimStart cs = trim cs ++ ((trimStart cs).reverse.takeWhile isBlank).reverse := by
  unfold trim trimEnd
  rw [← List.reverse_append]
  have h : (trimStart cs).reverse.takeWhile isBlank ++ trimStart (trimStart cs).reverse =
      (trimStart cs).reverse := List.takeWhile_append_dropWhile
  rw [h, List.reverse_reverse]

/-- `trim` cuts off blanks and nothing else, and all of them. -/
theorem trimmed_trim (cs : List Char) : Trimmed cs (trim cs) where
  around := by
    refine ⟨cs.takeWhile isBlank, ((trimStart cs).reverse.takeWhile isBlank).reverse,
      List.all_eq_true.1 List.all_takeWhile,
      fun c hc => List.all_eq_true.1 List.all_takeWhile c (List.mem_reverse.1 hc), ?_⟩
    rw [List.append_assoc, ← trimStart_eq_trim_append]
    exact List.takeWhile_append_dropWhile.symm
  first c hc := by
    have hhead : (trimStart cs).head? = some c := by
      rw [trimStart_eq_trim_append, List.head?_append, hc]
      rfl
    exact head?_trimStart hhead
  last c hc := by
    unfold trim trimEnd at hc
    rw [List.getLast?_reverse] at hc
    exact head?_trimStart hc

theorem trimmed_iff {cs ts : List Char} : Trimmed cs ts ↔ trim cs = ts := by
  constructor
  · rintro ⟨⟨before, after, hbefore, hafter, rfl⟩, hfirst, hlast⟩
    rw [trim_append_blank _ hafter, trim_blank_append hbefore]
    exact trim_of_ends hfirst hlast
  · rintro rfl
    exact trimmed_trim cs

theorem trim_eq_nil_iff (cs : List Char) : trim cs = [] ↔ ∀ c ∈ cs, isBlank c = true := by
  constructor
  · intro h
    obtain ⟨before, after, hbefore, hafter, hcs⟩ := (trimmed_trim cs).around
    rw [h, List.append_nil] at hcs
    rw [hcs]
    intro c hc
    exact (List.mem_append.1 hc).elim (hbefore c) (hafter c)
  · intro h
    unfold trim
    rw [(trimStart_eq_nil_iff cs).2 h]
    rfl

/-! ## 2. Commas -/

theorem splitOn_comma_cons {c : Char} (hc : c ≠ ',') (cs : List Char) :
    ∃ p ps, cs.splitOn ',' = p :: ps ∧ (c :: cs).splitOn ',' = (c :: p) :: ps := by
  obtain ⟨p, ps, hps⟩ := List.exists_cons_of_ne_nil (List.splitOn_ne_nil ',' cs)
  refine ⟨p, ps, hps, ?_⟩
  rw [List.splitOn_cons_eq_if_modifyHead, if_neg (by simpa using hc), hps]
  rfl

theorem splitOn_comma_comma (cs : List Char) : (',' :: cs).splitOn ',' = [] :: cs.splitOn ',' := by
  rw [List.splitOn_cons_eq_if_modifyHead, if_pos (beq_self_eq_true _)]

/-- No piece between commas has a comma in it. -/
theorem comma_notMem_of_mem_splitOn {cs p : List Char} (h : p ∈ cs.splitOn ',') : ',' ∉ p := by
  induction cs generalizing p with
  | nil =>
    rw [List.splitOn_nil, List.mem_singleton] at h
    rw [h]
    exact List.not_mem_nil
  | cons c cs ih =>
    by_cases hc : c = ','
    · subst hc
      rw [splitOn_comma_comma] at h
      rcases List.mem_cons.1 h with rfl | h
      · exact List.not_mem_nil
      · exact ih h
    · obtain ⟨q, qs, hqs, hcons⟩ := splitOn_comma_cons hc cs
      rw [hcons] at h
      rw [hqs] at ih
      rcases List.mem_cons.1 h with rfl | h
      · intro hmem
        rcases List.mem_cons.1 hmem with rfl | hmem
        · exact hc rfl
        · exact ih List.mem_cons_self hmem
      · exact ih (List.mem_cons_of_mem _ h)

/-- What has no comma in it and stands at the end belongs to the last piece. -/
theorem splitOn_comma_append {x : List Char} (hx : ',' ∉ x) (cs : List Char) :
    ∃ ps p, cs.splitOn ',' = ps ++ [p] ∧ (cs ++ x).splitOn ',' = ps ++ [p ++ x] := by
  induction cs with
  | nil =>
    refine ⟨[], [], List.splitOn_nil _, ?_⟩
    exact List.splitOn_eq_singleton hx
  | cons c cs ih =>
    obtain ⟨ps, p, hps, happend⟩ := ih
    by_cases hc : c = ','
    · subst hc
      refine ⟨[] :: ps, p, ?_, ?_⟩
      · rw [splitOn_comma_comma, hps]
        rfl
      · rw [List.cons_append, splitOn_comma_comma, happend]
        rfl
    · obtain ⟨q, qs, hqs, hcons⟩ := splitOn_comma_cons hc cs
      obtain ⟨q', qs', hqs', hcons'⟩ := splitOn_comma_cons hc (cs ++ x)
      rw [hps] at hqs
      rw [happend] at hqs'
      rw [List.cons_append, hcons, hcons']
      cases ps with
      | nil =>
        cases hqs
        cases hqs'
        exact ⟨[], c :: p, rfl, rfl⟩
      | cons r rs =>
        cases hqs
        cases hqs'
        exact ⟨(c :: q) :: rs, p, rfl, rfl⟩

/-- A comma is not blank. -/
theorem comma_notMem_of_blank {x : List Char} (hx : ∀ c ∈ x, isBlank c = true) : ',' ∉ x := by
  intro h
  have hblank := hx ',' h
  revert hblank
  decide

/-- **The pieces of a text**: the blanks around the text are left out, it is divided at its commas, and the
    blanks around each part are left out. -/
def Pieces (cs : List Char) (ps : List (List Char)) : Prop :=
  ∃ ts parts, Trimmed cs ts ∧ parts ≠ [] ∧ (∀ p ∈ parts, ',' ∉ p) ∧ [','].intercalate parts = ts ∧
    List.Forall₂ Trimmed parts ps

theorem forall₂_trimmed_iff {parts ps : List (List Char)} :
    List.Forall₂ Trimmed parts ps ↔ parts.map trim = ps := by
  have h : List.Forall₂ Trimmed parts ps ↔ List.Forall₂ (fun p q => trim p = q) parts ps :=
    ⟨fun h => h.imp fun _ _ => trimmed_iff.1, fun h => h.imp fun _ _ => trimmed_iff.2⟩
  rw [h, ← List.forall₂_map_left_iff, List.forall₂_eq_eq_eq]

/-- **The pieces of a text are the ones that are read.** -/
theorem pieces_iff {cs : List Char} {ps : List (List Char)} :
    Pieces cs ps ↔ ps = Program.tokens (trim cs) := by
  constructor
  · rintro ⟨ts, parts, hts, hne, hcomma, hjoin, hps⟩
    rw [← forall₂_trimmed_iff.1 hps, trimmed_iff.1 hts, ← hjoin]
    unfold Program.tokens
    rw [List.splitOn_intercalate ',' hcomma hne]
  · rintro rfl
    exact ⟨trim cs, (trim cs).splitOn ',', trimmed_trim cs, List.splitOn_ne_nil _ _,
      fun p hp => comma_notMem_of_mem_splitOn hp, List.intercalate_splitOn ',', forall₂_trimmed_iff.2 rfl⟩

end Text

/-! ## 3. Pieces without trimming first -/

namespace Program

open Text

theorem tokens_blank_append {x : List Char} (hx : ∀ c ∈ x, isBlank c = true) (cs : List Char) :
    tokens (x ++ cs) = tokens cs := by
  induction x with
  | nil => rfl
  | cons c x ih =>
    have hblank : ∀ d ∈ [c], isBlank d = true := fun d hd => hx d (List.mem_singleton.1 hd ▸ List.mem_cons_self)
    have hc : c ≠ ',' := fun hc => comma_notMem_of_blank hblank (hc ▸ List.mem_singleton_self c)
    obtain ⟨p, ps, hps, hcons⟩ := splitOn_comma_cons hc (x ++ cs)
    have htail : tokens (x ++ cs) = tokens cs := ih fun d hd => hx d (List.mem_cons_of_mem _ hd)
    rw [← htail, List.cons_append]
    unfold tokens
    rw [hps, hcons, List.map_cons, List.map_cons]
    exact congrArg (· :: _) (trim_blank_append hblank p)

theorem tokens_append_blank (cs : List Char) {x : List Char} (hx : ∀ c ∈ x, isBlank c = true) :
    tokens (cs ++ x) = tokens cs := by
  obtain ⟨ps, p, hps, happend⟩ := splitOn_comma_append (comma_notMem_of_blank hx) cs
  unfold tokens
  rw [hps, happend, List.map_append, List.map_append]
  show _ ++ [trim (p ++ x)] = _ ++ [trim p]
  rw [trim_append_blank p hx]

/-- **Blanks around the whole text make no difference to its pieces.** -/
theorem tokens_trim (cs : List Char) : tokens (trim cs) = tokens cs := by
  obtain ⟨before, after, hbefore, hafter, hcs⟩ := (trimmed_trim cs).around
  conv_rhs => rw [hcs]
  rw [tokens_append_blank _ hafter, tokens_blank_append hbefore]

end Program

end WordMachine
