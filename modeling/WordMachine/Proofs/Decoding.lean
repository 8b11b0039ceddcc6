import Mathlib.Data.Nat.Digits.Lemmas
import WordMachine.Instruction

/-!
# Instruction words, digit by digit

`Instruction.decode` divides a word and takes remainders, and both truncate. This file says what comes of
it in decimal digits.

* `Opcode.ofCode?_eq_some_iff` -- no two numbers stand for one opcode;
* `Instruction.toInt_opcode_decode`, `Instruction.mode_decode` -- the parts of a word as integers;
* `Instruction.op?_decode_eq_some_iff` -- the words that stand for an opcode of the table;
* `Instruction.decode_digits` -- the parts of every word as digits of its magnitude, and every word that is
  put together from an opcode and digits.
-/

namespace WordMachine

/-! ## 1. The opcode table -/

namespace Opcode

/-- An opcode has one number only. -/
theorem ofCode?_eq_some_iff {code : Word} {op : Opcode} : ofCode? code = some op ↔ code = op.code := by
  constructor
  · intro h
    apply Int64.toInt_inj.1
    unfold ofCode? at h
    split at h <;> cases h <;> assumption
  · rintro rfl
    exact ofCode?_code op

/-- The number of an opcode has at most two digits, and it is not 0. -/
theorem toInt_code_bounds (op : Opcode) : 1 ≤ op.code.toInt ∧ op.code.toInt ≤ 99 := by
  cases op <;> decide

end Opcode

namespace Instruction

/-! ## 2. The parts of a word -/

theorem toInt_opcode_decode (w : Word) : (decode w).opcode.toInt = w.toInt.tmod 100 :=
  Int64.toInt_mod w 100

theorem mode_decode (w : Word) (p : Param) :
    (decode w).mode p = Mode.ofDigit (w.toInt.natAbs / 10 ^ (p.index + 2) % 10) := by
  have hdigits : (w / 100).toInt.natAbs = w.toInt.natAbs / 100 := by
    rw [Int64.toInt_div_of_ne_right w 100 (by decide)]
    exact Int.natAbs_tdiv _ _
  cases p with
  | first => exact congrArg (fun n => Mode.ofDigit (n % 10)) hdigits
  | second =>
    show Mode.ofDigit ((w / 100).toInt.natAbs / 10 % 10) = Mode.ofDigit (w.toInt.natAbs / 1000 % 10)
    rw [hdigits, Nat.div_div_eq_div_mul]
  | third =>
    show Mode.ofDigit ((w / 100).toInt.natAbs / 100 % 10) = Mode.ofDigit (w.toInt.natAbs / 10000 % 10)
    rw [hdigits, Nat.div_div_eq_div_mul]

/-- The remainder of a truncating division has the sign of what is divided. -/
theorem tmod_eq_sign_mul (n : Int) (d : Nat) : n.tmod d = n.sign * (n.natAbs % d : Nat) := by
  rcases Int.lt_trichotomy n 0 with hneg | rfl | hpos
  · have hn : n = -(n.natAbs : Int) := by omega
    conv_lhs => rw [hn]
    rw [Int.neg_tmod, Int.sign_eq_neg_one_of_neg hneg, ← Int.ofNat_tmod, Int.neg_one_mul]
  · simp
  · have hn : n = (n.natAbs : Int) := by omega
    conv_lhs => rw [hn]
    rw [Int.sign_eq_one_of_pos hpos, ← Int.ofNat_tmod, Int.one_mul]

/-- **A word stands for an opcode exactly if it is not negative and ends in its number.** -/
theorem op?_decode_eq_some_iff {w : Word} {op : Opcode} :
    (decode w).op? = some op ↔ 0 ≤ w.toInt ∧ w.toInt % 100 = op.code.toInt := by
  have hcode := op.toInt_code_bounds
  unfold op?
  rw [Opcode.ofCode?_eq_some_iff, ← Int64.toInt_inj, toInt_opcode_decode]
  rcases Int.lt_or_le w.toInt 0 with hneg | hpos
  · -- the remainder of a negative word is not positive, the number of an opcode is
    have hsign : w.toInt.tmod 100 = w.toInt.sign * (w.toInt.natAbs % 100 : Nat) :=
      tmod_eq_sign_mul w.toInt 100
    rw [Int.sign_eq_neg_one_of_neg hneg] at hsign
    constructor <;> intro h <;> omega
  · rw [Int.tmod_eq_emod_of_nonneg hpos]
    exact (and_iff_right hpos).symm

/-! ## 3. Words put together from digits -/

variable {w : Word} {op : Opcode} {d₁ d₂ d₃ above : Nat}

theorem mode_of_sum (h₁ : d₁ < 10) (h₂ : d₂ < 10) (h₃ : d₃ < 10)
    (hw : w.toInt = op.code.toInt + 100 * d₁ + 1000 * d₂ + 10000 * d₃ + 100000 * above) :
    (decode w).first = Mode.ofDigit d₁ ∧ (decode w).second = Mode.ofDigit d₂ ∧
      (decode w).third = Mode.ofDigit d₃ := by
  have hcode := op.toInt_code_bounds
  have hfirst : w.toInt.natAbs / 100 % 10 = d₁ := by omega
  have hsecond : w.toInt.natAbs / 1000 % 10 = d₂ := by omega
  have hthird : w.toInt.natAbs / 10000 % 10 = d₃ := by omega
  refine ⟨?_, ?_, ?_⟩
  · rw [← hfirst]
    exact mode_decode w .first
  · rw [← hsecond]
    exact mode_decode w .second
  · rw [← hthird]
    exact mode_decode w .third

theorem op?_of_sum
    (hw : w.toInt = op.code.toInt + 100 * d₁ + 1000 * d₂ + 10000 * d₃ + 100000 * above) :
    (decode w).op? = some op := by
  have hcode := op.toInt_code_bounds
  rw [op?_decode_eq_some_iff]
  omega

/-- **Decoding is taking decimal digits.** The opcode of a word is the number of its two lowest digits, with
    the sign of the word, and the mode of a parameter is that of the digit two places above its index. A
    word stands for an opcode exactly if it is not negative and ends in the number of the opcode. An opcode
    and any three digits come out of the word that they are put into, whatever is above them. -/
theorem decode_digits :
    (∀ w : Word, (decode w).opcode.toInt = w.toInt.sign * (w.toInt.natAbs % 100 : Nat) ∧
      (∀ p, (decode w).mode p = Mode.ofDigit ((Nat.digits 10 w.toInt.natAbs).getD (p.index + 2) 0)) ∧
      ∀ op, (decode w).op? = some op ↔ 0 ≤ w.toInt ∧ w.toInt % 100 = op.code.toInt) ∧
    ∀ (op : Opcode) (d₁ d₂ d₃ above : Nat), d₁ < 10 → d₂ < 10 → d₃ < 10 → ∀ w : Word,
      w.toInt = op.code.toInt + 100 * d₁ + 1000 * d₂ + 10000 * d₃ + 100000 * above →
      (decode w).op? = some op ∧
      decode w = ⟨op.code, Mode.ofDigit d₁, Mode.ofDigit d₂, Mode.ofDigit d₃⟩ := by
  refine ⟨fun w => ⟨?_, fun p => ?_, fun op => op?_decode_eq_some_iff⟩, ?_⟩
  · rw [toInt_opcode_decode]
    exact tmod_eq_sign_mul w.toInt 100
  · rw [mode_decode, Nat.getD_digits _ _ (by decide)]
  · intro op d₁ d₂ d₃ above h₁ h₂ h₃ w hw
    have hop := op?_of_sum hw
    obtain ⟨hfirst, hsecond, hthird⟩ := mode_of_sum h₁ h₂ h₃ hw
    have hopcode : (decode w).opcode = op.code := Opcode.ofCode?_eq_some_iff.1 hop
    refine ⟨hop, ?_⟩
    rw [← hopcode, ← hfirst, ← hsecond, ← hthird]

/-- The least word stands for no opcode, although its magnitude ends in the number of one. And an output
    with its digits, two of them unsupported, below as many others as there is room for. -/
theorem decode_digits_extreme :
    (decode Int64.minValue).opcode.toInt = -8 ∧ (decode Int64.minValue).op? = none ∧
    (decode 9223372036854697104).op? = some .output ∧
    decode 9223372036854697104 = ⟨4, .immediate, .unsupported 7, .unsupported 9⟩ := by
  obtain ⟨hparts, hsum⟩ := decode_digits
  obtain ⟨hopcode, -, hop⟩ := hparts Int64.minValue
  have hnone : (decode Int64.minValue).op? = none := by
    cases h : (decode Int64.minValue).op? with
    | none => rfl
    | some op => exact absurd ((hop op).1 h).1 (by decide)
  exact ⟨hopcode.trans (by decide +kernel), hnone,
    hsum .output 1 7 9 92233720368546 (by decide) (by decide) (by decide) _ (by decide)⟩

end Instruction

end WordMachine
