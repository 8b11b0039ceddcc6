import Mathlib.Algebra.Group.Int.Defs
import WordMachine.Proofs.Pieces

/-!
# The grammar of programs

What a text has to be for a program to be read from it, told apart from how it is read.

* `Text.Numeral` -- an optional sign and digits, with the integer that they stand for. The integers are
  unbounded here; `Text.Legal` are the numerals of those that a word can hold, and `Text.Spells` says
  which word that is;
* `Text.readWord_eq_ok_iff` -- digits are read one by one, and the range is checked after each; what is
  read is exactly the legal numerals;
* `Text.Spelling` -- the ways to write a word: blanks around it, a plus sign, leading zeros;
* `Program.parse_grammar` -- when a program is read and which, which piece is to blame if not, and that
  every spelling is read back.
-/

namespace WordMachine

namespace Text

/-! ## 1. Numerals -/

/-- One or more ASCII digits. -/
def Digits (cs : List Char) : Prop := cs ≠ [] ∧ ∀ c ∈ cs, c.isDigit = true

/-- **Numerals**: at most one sign, then digits, and the integer that they stand for. -/
inductive Numeral : List Char → Int → Prop where
  | unsigned (ds : List Char) (h : Digits ds) : Numeral ds (Nat.ofDigitChars 10 ds 0)
  | plus (ds : List Char) (h : Digits ds) : Numeral ('+' :: ds) (Nat.ofDigitChars 10 ds 0)
  | minus (ds : List Char) (h : Digits ds) : Numeral ('-' :: ds) (-(Nat.ofDigitChars 10 ds 0 : Int))

/-- A numeral of an integer that a word can hold. -/
def Legal (p : List Char) : Prop := ∃ n, Numeral p n ∧ -2 ^ 63 ≤ n ∧ n ≤ 2 ^ 63 - 1

/-- A numeral of the integer that a word holds. -/
def Spells (p : List Char) (w : Word) : Prop := Numeral p w.toInt

theorem not_numeral_nil (n : Int) : ¬ Numeral [] n := by
  intro h
  cases h with
  | unsigned _ h => exact h.1 rfl

theorem numeral_plus_iff {ds : List Char} {n : Int} :
    Numeral ('+' :: ds) n ↔ Digits ds ∧ n = Nat.ofDigitChars 10 ds 0 := by
  constructor
  · intro h
    cases h with
    | unsigned _ h => exact absurd (h.2 '+' List.mem_cons_self) (by decide)
    | plus _ h => exact ⟨h, rfl⟩
  · rintro ⟨h, rfl⟩
    exact .plus ds h

theorem numeral_minus_iff {ds : List Char} {n : Int} :
    Numeral ('-' :: ds) n ↔ Digits ds ∧ n = -(Nat.ofDigitChars 10 ds 0 : Int) := by
  constructor
  · intro h
    cases h with
    | unsigned _ h => exact absurd (h.2 '-' List.mem_cons_self) (by decide)
    | minus _ h => exact ⟨h, rfl⟩
  · rintro ⟨h, rfl⟩
    exact .minus ds h

theorem numeral_unsigned_iff {c : Char} (hp : c ≠ '+') (hm : c ≠ '-') {ds : List Char} {n : Int} :
    Numeral (c :: ds) n ↔ Digits (c :: ds) ∧ n = Nat.ofDigitChars 10 (c :: ds) 0 := by
  constructor
  · intro h
    cases h with
    | unsigned _ h => exact ⟨h, rfl⟩
    | plus => exact absurd rfl hp
    | minus => exact absurd rfl hm
  · rintro ⟨h, rfl⟩
    exact .unsigned _ h

/-! ## 2. Reading digits -/

theorem digit?_eq (c : Char) : digit? c = if c.isDigit then some (c.toNat - '0'.toNat) else none := by
  unfold digit?
  congr 1
  simp [Char.isDigit, Char.le_def]

/-- More digits never make a number smaller. -/
theorem le_ofDigitChars (cs : List Char) (v : Nat) : v ≤ Nat.ofDigitChars 10 cs v := by
  induction cs generalizing v with
  | nil => exact Nat.le_refl v
  | cons c cs ih =>
    rw [Nat.ofDigitChars_cons]
    have h := ih (10 * v + (c.toNat - '0'.toNat))
    omega

/-- **Checking the range after every digit is checking it at the end**, since the value only grows. -/
theorem readDigits_eq_ok_iff {limit : Nat} {beyond : Misread} {v : Nat} (hv : v ≤ limit) {cs : List Char}
    {n : Nat} : readDigits limit beyond v cs = .ok n ↔
      (∀ c ∈ cs, c.isDigit = true) ∧ n = Nat.ofDigitChars 10 cs v ∧ n ≤ limit := by
  induction cs generalizing v with
  | nil =>
    rw [readDigits, Except.ok.injEq, Nat.ofDigitChars_nil]
    constructor
    · rintro rfl
      exact ⟨nofun, rfl, hv⟩
    · rintro ⟨-, rfl, -⟩
      rfl
  | cons c cs ih =>
    rw [readDigits, digit?_eq, Nat.ofDigitChars_cons]
    cases hc : c.isDigit with
    | false =>
      constructor
      · nofun
      · rintro ⟨hall, -⟩
        have hdigit := hall c List.mem_cons_self
        rw [hc] at hdigit
        cases hdigit
    | true =>
      have hle := le_ofDigitChars cs (10 * v + (c.toNat - '0'.toNat))
      show (if limit < 10 * v + (c.toNat - '0'.toNat) then _ else _) = _ ↔ _
      split
      · constructor
        · nofun
        · rintro ⟨-, rfl, hn⟩
          omega
      · rw [ih (by omega), List.forall_mem_cons]
        simp only [hc, true_and]

theorem readUnsigned_eq_ok_iff {limit : Nat} {beyond : Misread} {cs : List Char} {n : Nat} :
    readUnsigned limit beyond cs = .ok n ↔
      Digits cs ∧ n = Nat.ofDigitChars 10 cs 0 ∧ n ≤ limit := by
  cases cs with
  | nil =>
    constructor
    · nofun
    · rintro ⟨⟨hne, -⟩, -⟩
      exact absurd rfl hne
  | cons c cs =>
    rw [readUnsigned, readDigits_eq_ok_iff (Nat.zero_le limit)]
    · constructor
      · rintro ⟨hall, hn⟩
        exact ⟨⟨nofun, hall⟩, hn⟩
      · rintro ⟨⟨-, hall⟩, hn⟩
        exact ⟨hall, hn⟩
    · nofun

/-! ## 3. Reading words -/

/-- Digits that are read with a sign: the limit on the number is the range of words. -/
theorem map_readUnsigned_eq_ok_iff {limit : Nat} {beyond : Misread} {f : Nat → Int}
    (hf : ∀ n, n ≤ limit ↔ -2 ^ 63 ≤ f n ∧ f n ≤ 2 ^ 63 - 1) {ds : List Char} {w : Word} :
    (readUnsigned limit beyond ds).map (fun n => Int64.ofInt (f n)) = .ok w ↔
      Digits ds ∧ w.toInt = f (Nat.ofDigitChars 10 ds 0) := by
  constructor
  · intro h
    cases hr : readUnsigned limit beyond ds with
    | error e =>
      rw [hr] at h
      cases h
    | ok n =>
      rw [hr] at h
      obtain ⟨hds, rfl, hn⟩ := readUnsigned_eq_ok_iff.1 hr
      obtain ⟨hlow, hhigh⟩ := (hf _).1 hn
      obtain rfl := Except.ok.inj h
      exact ⟨hds, Int64.toInt_ofInt_of_le (by omega) (by omega)⟩
  · rintro ⟨hds, hw⟩
    have hlow := Int64.le_toInt w
    have hhigh := Int64.toInt_lt w
    have hn : Nat.ofDigitChars 10 ds 0 ≤ limit := (hf _).2 (by omega)
    rw [readUnsigned_eq_ok_iff.2 ⟨hds, rfl, hn⟩]
    show Except.ok (Int64.ofInt (f (Nat.ofDigitChars 10 ds 0))) = Except.ok w
    rw [← hw, Int64.ofInt_toInt]

theorem readWord_plus (ds : List Char) : readWord ('+' :: ds) =
    (readUnsigned Word.maxInt.natAbs .tooLarge ds).map fun n : Nat => Int64.ofInt n := by
  rw [readWord]
  cases readUnsigned Word.maxInt.natAbs .tooLarge ds <;> rfl

theorem readWord_minus (ds : List Char) : readWord ('-' :: ds) =
    (readUnsigned Word.minInt.natAbs .tooSmall ds).map fun n : Nat => Int64.ofInt (-n) := by
  rw [readWord]
  cases readUnsigned Word.minInt.natAbs .tooSmall ds <;> rfl

theorem readWord_cons {c : Char} (hp : c ≠ '+') (hm : c ≠ '-') (ds : List Char) : readWord (c :: ds) =
    (readUnsigned Word.maxInt.natAbs .tooLarge (c :: ds)).map fun n : Nat => Int64.ofInt n := by
  unfold readWord
  split
  · next h => cases h
  · next h => exact absurd (List.cons.inj h).1 hp
  · next h => exact absurd (List.cons.inj h).1 hm
  · cases readUnsigned Word.maxInt.natAbs .tooLarge (c :: ds) <;> rfl

/-- **What is read as a word is exactly its numerals.** -/
theorem readWord_eq_ok_iff {p : List Char} {w : Word} : readWord p = .ok w ↔ Spells p w := by
  have hplus : ∀ n : Nat, n ≤ Word.maxInt.natAbs ↔ -2 ^ 63 ≤ (n : Int) ∧ (n : Int) ≤ 2 ^ 63 - 1 := by
    intro n
    show n ≤ 9223372036854775807 ↔ _
    omega
  have hminus : ∀ n : Nat, n ≤ Word.minInt.natAbs ↔ -2 ^ 63 ≤ -(n : Int) ∧ -(n : Int) ≤ 2 ^ 63 - 1 := by
    intro n
    show n ≤ 9223372036854775808 ↔ _
    omega
  unfold Spells
  cases p with
  | nil => exact ⟨nofun, fun h => absurd h (not_numeral_nil _)⟩
  | cons c ds =>
    by_cases hp : c = '+'
    · subst hp
      rw [readWord_plus, numeral_plus_iff]
      exact map_readUnsigned_eq_ok_iff hplus
    · by_cases hm : c = '-'
      · subst hm
        rw [readWord_minus, numeral_minus_iff]
        exact map_readUnsigned_eq_ok_iff hminus
      · rw [readWord_cons hp hm, numeral_unsigned_iff hp hm]
        exact map_readUnsigned_eq_ok_iff hplus

theorem legal_iff {p : List Char} : Legal p ↔ ∃ w, readWord p = .ok w := by
  constructor
  · rintro ⟨n, hn, hlow, hhigh⟩
    have hw : (Int64.ofInt n).toInt = n := Int64.toInt_ofInt_of_le (by omega) (by omega)
    refine ⟨Int64.ofInt n, readWord_eq_ok_iff.2 ?_⟩
    unfold Spells
    rw [hw]
    exact hn
  · rintro ⟨w, hw⟩
    have hlow := Int64.le_toInt w
    have hhigh := Int64.toInt_lt w
    exact ⟨w.toInt, readWord_eq_ok_iff.1 hw, by omega, by omega⟩

theorem not_legal_iff {p : List Char} : ¬ Legal p ↔ ∃ cause, readWord p = .error cause := by
  rw [legal_iff]
  cases readWord p with
  | ok w => exact ⟨fun h => absurd ⟨w, rfl⟩ h, nofun⟩
  | error cause => exact ⟨fun _ => ⟨cause, rfl⟩, fun _ => nofun⟩

/-! ## 4. Spellings -/

/-- **A way to write a word**: the blanks before it, whether it has a plus sign if it could have one, the
    number of zeros before its digits, and the blanks after it. -/
structure Spelling where
  before : List Char
  before_blank : ∀ c ∈ before, isBlank c = true
  plus : Bool
  zeros : Nat
  after : List Char
  after_blank : ∀ c ∈ after, isBlank c = true

namespace Spelling

/-- The digits that are written, the zeros before them included. -/
def digits (s : Spelling) (w : Word) : List Char :=
  List.replicate s.zeros '0' ++ Nat.toDigits 10 w.toInt.natAbs

/-- What is written between the blanks: a sign, if there is one, and the digits. -/
def numeral (s : Spelling) (w : Word) : List Char :=
  if w.toInt < 0 then '-' :: s.digits w
  else if s.plus then '+' :: s.digits w
  else s.digits w

/-- The word as it is written. -/
def text (s : Spelling) (w : Word) : List Char := s.before ++ s.numeral w ++ s.after

theorem digits_digits (s : Spelling) (w : Word) : Digits (s.digits w) := by
  refine ⟨fun h => Nat.toDigits_ne_nil (List.append_eq_nil_iff.1 h).2, fun c hc => ?_⟩
  rcases List.mem_append.1 hc with hc | hc
  · rw [List.eq_of_mem_replicate hc]
    decide
  · exact Nat.isDigit_of_mem_toDigits (by decide) (by decide) hc

theorem ofDigitChars_digits (s : Spelling) (w : Word) :
    Nat.ofDigitChars 10 (s.digits w) 0 = w.toInt.natAbs := by
  unfold digits
  rw [Nat.ofDigitChars_append, Nat.ofDigitChars_replicate_zero, Nat.mul_zero,
    Nat.ofDigitChars_toDigits (by decide) (by decide)]

/-- **A word is written with a numeral of its own.** -/
theorem spells_numeral (s : Spelling) (w : Word) : Spells (s.numeral w) w := by
  have hds := s.digits_digits w
  have hvalue := s.ofDigitChars_digits w
  unfold Spells numeral
  split
  · have hneg : w.toInt = -(Nat.ofDigitChars 10 (s.digits w) 0 : Int) := by omega
    rw [hneg]
    exact .minus _ hds
  · have hpos : w.toInt = (Nat.ofDigitChars 10 (s.digits w) 0 : Int) := by omega
    rw [hpos]
    split
    · exact .plus _ hds
    · exact .unsigned _ hds

end Spelling

/-- Signs and digits are neither blanks nor commas. -/
theorem Numeral.plain {p : List Char} {n : Int} (h : Numeral p n) :
    ∀ c ∈ p, isBlank c = false ∧ c ≠ ',' := by
  have hdigit : ∀ c : Char, c.isDigit = true → isBlank c = false ∧ c ≠ ',' := by
    intro c hc
    have hrange : 48 ≤ c.toNat ∧ c.toNat ≤ 57 := by
      simpa [Char.isDigit, UInt32.le_iff_toNat_le] using hc
    refine ⟨?_, ?_⟩
    · simp [isBlank, inRanges, blankRanges]
      omega
    · rintro rfl
      revert hc
      decide
  cases h with
  | unsigned _ h => exact fun c hc => hdigit c (h.2 c hc)
  | plus _ h | minus _ h =>
    intro c hc
    rcases List.mem_cons.1 hc with rfl | hc
    · decide
    · exact hdigit c (h.2 c hc)

theorem Numeral.trimmed {p : List Char} {n : Int} (h : Numeral p n) : trim p = p :=
  trim_of_ends (fun c hc => (h.plain c (List.mem_of_mem_head? hc)).1)
    (fun c hc => (h.plain c (List.mem_of_mem_getLast? hc)).1)

namespace Spelling

theorem trim_text (s : Spelling) (w : Word) : trim (s.text w) = s.numeral w := by
  unfold text
  rw [trim_append_blank _ s.after_blank, trim_blank_append s.before_blank]
  exact Numeral.trimmed (s.spells_numeral w)

theorem comma_notMem_text (s : Spelling) (w : Word) : ',' ∉ s.text w := by
  unfold text
  intro h
  rcases List.mem_append.1 h with h | h
  · rcases List.mem_append.1 h with h | h
    · exact comma_notMem_of_blank s.before_blank h
    · exact (Numeral.plain (s.spells_numeral w) ',' h).2 rfl
  · exact comma_notMem_of_blank s.after_blank h

end Spelling

end Text

/-! ## 5. Programs -/

namespace Program

open Text

/-- **The pieces are read in order**, and each is a numeral of its word. -/
theorem readTokens_eq_ok_iff {i : Nat} {ps : List (List Char)} {ws : List Word} :
    readTokens i ps = .ok ws ↔ List.Forall₂ Spells ps ws := by
  induction ps generalizing i ws with
  | nil =>
    rw [List.forall₂_nil_left_iff, readTokens, Except.ok.injEq]
    exact eq_comm
  | cons p ps ih =>
    rw [readTokens, List.forall₂_cons_left_iff]
    cases hp : readWord p with
    | error cause =>
      constructor
      · nofun
      · rintro ⟨w, ws', hw, -⟩
        rw [readWord_eq_ok_iff.2 hw] at hp
        cases hp
    | ok w =>
      constructor
      · intro h
        cases hr : readTokens (i + 1) ps with
        | error e =>
          rw [hr] at h
          cases h
        | ok ws' =>
          rw [hr] at h
          exact ⟨w, ws', readWord_eq_ok_iff.1 hp, ih.1 hr, (Except.ok.inj h).symm⟩
      · rintro ⟨w', ws', hw', hws', rfl⟩
        obtain rfl : w = w' := Except.ok.inj (hp.symm.trans (readWord_eq_ok_iff.2 hw'))
        rw [ih.2 hws']
        rfl

theorem exists_readTokens_iff {i : Nat} {ps : List (List Char)} :
    (∃ ws, readTokens i ps = .ok ws) ↔ ∀ p ∈ ps, Legal p := by
  induction ps generalizing i with
  | nil => exact ⟨fun _ => nofun, fun _ => ⟨[], rfl⟩⟩
  | cons p ps ih =>
    rw [List.forall_mem_cons, legal_iff, ← ih (i := i + 1), readTokens]
    cases readWord p with
    | error cause =>
      constructor
      · rintro ⟨ws, h⟩
        cases h
      · rintro ⟨⟨w, h⟩, -⟩
        cases h
    | ok w =>
      cases readTokens (i + 1) ps with
      | error e =>
        constructor
        · rintro ⟨ws, h⟩
          cases h
        · rintro ⟨-, ws, h⟩
          cases h
      | ok ws => exact ⟨fun _ => ⟨⟨w, rfl⟩, ws, rfl⟩, fun _ => ⟨w :: ws, rfl⟩⟩

theorem map_cons_eq_error_iff {w : Word} {r : Except ParseFault Program} {e : ParseFault} :
    r.map (w :: ·) = .error e ↔ r = .error e := by
  cases r <;> simp [Except.map]

/-- **The first piece that is no legal numeral is the one to blame.** -/
theorem readTokens_eq_error_iff {i : Nat} {ps : List (List Char)} {token : String} {index : Nat} :
    (∃ cause, readTokens i ps = .error (.invalidToken token index cause)) ↔
      ∃ j, index = i + j ∧ ps[j]? = some token.toList ∧ ¬ Legal token.toList ∧
        ∀ p ∈ ps.take j, Legal p := by
  induction ps generalizing i with
  | nil =>
    constructor
    · rintro ⟨cause, h⟩
      cases h
    · rintro ⟨j, -, h, -⟩
      cases h
  | cons p ps ih =>
    rw [readTokens]
    cases hp : readWord p with
    | error cause =>
      have hillegal : ¬ Legal p := not_legal_iff.2 ⟨cause, hp⟩
      constructor
      · rintro ⟨cause', h⟩
        cases h
        refine ⟨0, rfl, ?_, ?_, nofun⟩
        · rw [String.toList_ofList]
          rfl
        · rwa [String.toList_ofList]
      · rintro ⟨j, rfl, hget, -, hbefore⟩
        cases j with
        | zero =>
          obtain rfl : p = token.toList := Option.some.inj hget
          rw [String.ofList_toList]
          exact ⟨cause, rfl⟩
        | succ j => exact absurd (hbefore p List.mem_cons_self) hillegal
    | ok w =>
      have hlegal : Legal p := legal_iff.2 ⟨w, hp⟩
      simp only [map_cons_eq_error_iff]
      rw [ih]
      constructor
      · rintro ⟨j, rfl, hget, hillegal, hbefore⟩
        refine ⟨j + 1, by omega, hget, hillegal, ?_⟩
        rw [List.take_succ_cons, List.forall_mem_cons]
        exact ⟨hlegal, hbefore⟩
      · rintro ⟨j, rfl, hget, hillegal, hbefore⟩
        cases j with
        | zero =>
          obtain rfl : p = token.toList := Option.some.inj hget
          exact absurd hlegal hillegal
        | succ j =>
          rw [List.take_succ_cons, List.forall_mem_cons] at hbefore
          exact ⟨j, by omega, hget, hillegal, hbefore.2⟩

theorem readTokens_ne_empty (i : Nat) (ps : List (List Char)) : readTokens i ps ≠ .error .empty := by
  induction ps generalizing i with
  | nil => nofun
  | cons p ps ih =>
    rw [readTokens]
    cases readWord p with
    | error cause => nofun
    | ok w => exact fun h => ih (i + 1) (map_cons_eq_error_iff.1 h)

/-- A text that is not blank is read piece by piece. -/
theorem parse_of_ne_nil {t : String} (h : trim t.toList ≠ []) :
    parse t = readTokens 0 (tokens (trim t.toList)) := by
  unfold parse
  split
  · next heq => exact absurd heq h
  · rfl

theorem parse_eq_empty_iff (t : String) :
    parse t = .error .empty ↔ ∀ c ∈ t.toList, isBlank c = true := by
  rw [← trim_eq_nil_iff]
  constructor
  · intro h
    by_contra hne
    rw [parse_of_ne_nil hne] at h
    exact readTokens_ne_empty _ _ h
  · intro h
    unfold parse
    rw [h]

/-- Words that are written with commas between them are read back, however each of them is spelled. -/
theorem parse_spellings (ws : List (Word × Spelling)) (hne : ws ≠ []) :
    parse (String.ofList ([','].intercalate (ws.map fun e => e.2.text e.1))) =
      .ok (ws.map Prod.fst) := by
  have hparts : ws.map (fun e => e.2.text e.1) ≠ [] := fun h => hne (List.map_eq_nil_iff.1 h)
  have hcomma : ∀ p ∈ ws.map (fun e => e.2.text e.1), ',' ∉ p := by
    intro p hp
    obtain ⟨e, -, rfl⟩ := List.mem_map.1 hp
    exact e.2.comma_notMem_text e.1
  have htokens : tokens ([','].intercalate (ws.map fun e => e.2.text e.1)) =
      ws.map fun e => e.2.numeral e.1 := by
    unfold tokens
    rw [List.splitOn_intercalate ',' hcomma hparts, List.map_map]
    exact List.map_congr_left fun e _ => e.2.trim_text e.1
  have hspells : List.Forall₂ Spells (ws.map fun e => e.2.numeral e.1) (ws.map Prod.fst) := by
    rw [List.forall₂_map_left_iff, List.forall₂_map_right_iff, List.forall₂_same]
    exact fun e _ => e.2.spells_numeral e.1
  have htrim : trim (String.ofList ([','].intercalate (ws.map fun e => e.2.text e.1))).toList ≠ [] := by
    -- a blank text has one piece, which is empty and so no numeral
    intro h
    rw [String.toList_ofList] at h
    rw [← tokens_trim, h] at htokens
    have hempty : tokens [] = [[]] := rfl
    rw [← htokens, hempty] at hspells
    obtain ⟨w, -, hw, -⟩ := List.forall₂_cons_left_iff.1 hspells
    exact not_numeral_nil _ hw
  rw [parse_of_ne_nil htrim, String.toList_ofList, tokens_trim, htokens]
  exact readTokens_eq_ok_iff.2 hspells

/-- **Programs are read by their grammar.** A text is refused as empty exactly if it is blank. Any other
    text has its pieces. A program is read exactly if each piece is a numeral of an integer that a word
    can hold, and it is the program of these integers, in order; otherwise the first piece that is not is
    reported, with its index. So a list of words is read back from every text that writes them with
    commas between them, whatever zeros, plus signs and blanks it has. -/
theorem parse_grammar :
    (∀ t : String,
      (parse t = .error .empty ↔ ∀ c ∈ t.toList, isBlank c = true) ∧
      ((∃ c ∈ t.toList, isBlank c = false) →
        ∃ ps, (∀ ps', Pieces t.toList ps' ↔ ps' = ps) ∧
          ((∃ ws, parse t = .ok ws) ↔ ∀ p ∈ ps, Legal p) ∧
          (∀ ws, parse t = .ok ws ↔ List.Forall₂ Spells ps ws) ∧
          ∀ token index, (∃ cause, parse t = .error (.invalidToken token index cause)) ↔
            ps[index]? = some token.toList ∧ ¬ Legal token.toList ∧ ∀ p ∈ ps.take index, Legal p)) ∧
    ∀ ws : List (Word × Spelling), ws ≠ [] →
      parse (String.ofList ([','].intercalate (ws.map fun e => e.2.text e.1))) =
        .ok (ws.map Prod.fst) := by
  refine ⟨fun t => ⟨parse_eq_empty_iff t, ?_⟩, parse_spellings⟩
  rintro ⟨c, hc, hblank⟩
  have htrim : trim t.toList ≠ [] := by
    intro h
    have hc' := (trim_eq_nil_iff _).1 h c hc
    rw [hblank] at hc'
    cases hc'
  rw [parse_of_ne_nil htrim]
  refine ⟨tokens (trim t.toList), fun _ => pieces_iff, exists_readTokens_iff,
    fun _ => readTokens_eq_ok_iff, fun token index => ?_⟩
  rw [readTokens_eq_error_iff]
  constructor
  · rintro ⟨j, rfl, h⟩
    rw [Nat.zero_add]
    exact h
  · intro h
    exact ⟨index, (Nat.zero_add index).symm, h⟩

/-- The two ends of the range of words, with zeros, a plus sign and blanks; and the number next to an end,
    which is to blame although there is worse after it. -/
theorem parse_grammar_range :
    parse "\u00a0+009223372036854775807 ,\t-9223372036854775808\n" =
      .ok [9223372036854775807, -9223372036854775808] ∧
    ∃ cause, parse "1, 9223372036854775808,,x" =
      .error (.invalidToken "9223372036854775808" 1 cause) := by
  constructor
  · have hread := parse_grammar.2
      [(9223372036854775807, ⟨['\u00a0'], List.forall_mem_singleton.2 (by decide), true, 2,
        [' '], List.forall_mem_singleton.2 (by decide)⟩),
       (-9223372036854775808, ⟨['\t'], List.forall_mem_singleton.2 (by decide), true, 0,
        ['\n'], List.forall_mem_singleton.2 (by decide)⟩)] nofun
    refine Eq.trans (congrArg parse ?_) hread
    decide +kernel
  · obtain ⟨ps, hps, -, -, herror⟩ := (parse_grammar.1 "1, 9223372036854775808,,x").2
      ⟨'1', List.mem_cons_self, by decide⟩
    have hpieces : tokens (trim "1, 9223372036854775808,,x".toList) =
        [['1'], "9223372036854775808".toList, [], ['x']] := by decide +kernel
    have hps' : ps = [['1'], "9223372036854775808".toList, [], ['x']] :=
      (pieces_iff.1 ((hps ps).2 rfl)).trans hpieces
    have hbeyond : ¬ Legal "9223372036854775808".toList := not_legal_iff.2 ⟨.tooLarge, by with_unfolding_all rfl⟩
    have hone : Legal ['1'] := legal_iff.2 ⟨1, by with_unfolding_all rfl⟩
    refine (herror _ 1).2 ⟨?_, hbeyond, ?_⟩
    · rw [hps']
      rfl
    · rw [hps']
      intro p hp
      rw [List.mem_singleton.1 hp]
      exact hone

end Program

end WordMachine
