import WordMachine.Proofs.Decoding
import WordMachine.Proofs.Readings

/-!
# The text of a disassembly is unambiguous

Numbers of any length stand in a disassembly between brackets, signs, commas and arrows. This file shows that
they cannot be mistaken for one another.

* `Text.Separable` -- texts that can be told from what follows them, if it does not go on with a digit.
  Numbers, words and operands are written so (`separable_toDigits`, `separable_decimal`,
  `Operand.separable_text`);
* `Reading.Formed` -- readings with an operand for each parameter. No two of them have the same text
  (`Reading.text_inj`);
* `Memory.text_eq_iff` -- what it says of the words at two addresses that their entries have the same text;
* `Machine.effect_of_text` -- what the text leaves out, a machine does not use;
* `Machine.disassembly_unambiguous` -- both.
-/

namespace WordMachine

/-! ## 1. Texts and what follows them -/

namespace Text

/-- **A text that a number may stand before**: it does not begin with a digit. -/
def Stops (cs : List Char) : Prop := ∀ c, cs.head? = some c → c.isDigit = false

theorem stops_cons {c : Char} (hc : c.isDigit = false) (cs : List Char) : Stops (c :: cs) := by
  rintro d ⟨⟩
  exact hc

theorem stops_nil : Stops [] := nofun

theorem takeWhile_append_of_head {p : Char → Bool} {cs rest : List Char} (hcs : ∀ c ∈ cs, p c = true)
    (hrest : ∀ c, rest.head? = some c → p c = false) : (cs ++ rest).takeWhile p = cs := by
  rw [List.takeWhile_append_of_pos hcs]
  cases rest with
  | nil => exact List.append_nil cs
  | cons c rest =>
    rw [List.takeWhile_cons_of_neg (by rw [hrest c rfl]; nofun)]
    exact List.append_nil cs

/-- A text of characters of one kind ends where one of another kind follows. -/
theorem append_inj_of_head {p : Char → Bool} {cs cs' rest rest' : List Char}
    (hcs : ∀ c ∈ cs, p c = true) (hcs' : ∀ c ∈ cs', p c = true)
    (hrest : ∀ c, rest.head? = some c → p c = false) (hrest' : ∀ c, rest'.head? = some c → p c = false)
    (h : cs ++ rest = cs' ++ rest') : cs = cs' ∧ rest = rest' := by
  have hsame : cs = cs' := by
    rw [← takeWhile_append_of_head hcs hrest, h, takeWhile_append_of_head hcs' hrest']
  subst hsame
  exact ⟨rfl, List.append_cancel_left h⟩

/-- **Texts that can be told from what follows them**, if it does not go on with a digit. -/
def Separable {α : Type} (text : α → List Char) : Prop :=
  ∀ a a' rest rest', Stops rest → Stops rest' → text a ++ rest = text a' ++ rest' → a = a' ∧ rest = rest'

theorem Separable.inj {α : Type} {text : α → List Char} (h : Separable text) (a a' : α)
    (hsame : text a = text a') : a = a' :=
  (h a a' [] [] stops_nil stops_nil (congrArg (· ++ []) hsame)).1

theorem separable_toDigits : Separable (Nat.toDigits 10) := by
  intro n n' rest rest' hrest hrest' h
  have hdigit : ∀ k, ∀ c ∈ Nat.toDigits 10 k, c.isDigit = true := fun k c hc =>
    Nat.isDigit_of_mem_toDigits (by decide) (by decide) hc
  obtain ⟨hdigits, hsame⟩ := append_inj_of_head (hdigit n) (hdigit n') hrest hrest' h
  have hvalue := congrArg (fun ds => Nat.ofDigitChars 10 ds 0) hdigits
  simp only [Nat.ofDigitChars_ten_toDigits] at hvalue
  exact ⟨hvalue, hsame⟩

theorem toList_decimal (w : Word) : (Word.decimal w).toList =
    if w.toInt < 0 then '-' :: Nat.toDigits 10 w.toInt.natAbs else Nat.toDigits 10 w.toInt.natAbs := by
  unfold Word.decimal
  generalize w.toInt = n
  cases n with
  | ofNat n =>
    have hpos : ¬ Int.ofNat n < 0 := Int.not_lt.2 (Int.natCast_nonneg n)
    rw [if_neg hpos]
    exact Nat.toList_repr
  | negSucc n =>
    show ("-" ++ Nat.repr (n + 1)).toList = _
    rw [if_pos (Int.negSucc_lt_zero n), String.toList_append, Nat.toList_repr]
    rfl

/-- A number begins with a digit. -/
theorem toDigits_append_ne {c : Char} (hc : c.isDigit = false) (n : Nat) (cs cs' : List Char) :
    Nat.toDigits 10 n ++ cs ≠ c :: cs' := by
  intro h
  obtain ⟨d, ds, hds⟩ := List.exists_cons_of_ne_nil (Nat.toDigits_ne_nil (b := 10) (n := n))
  have hd : d.isDigit = true := by
    refine Nat.isDigit_of_mem_toDigits (b := 10) (n := n) (by decide) (by decide) ?_
    rw [hds]
    exact List.mem_cons_self
  rw [hds] at h
  obtain ⟨rfl, -⟩ := List.cons.inj h
  rw [hc] at hd
  cases hd

/-- A word begins with a digit or a minus sign. -/
theorem decimal_append_ne {c : Char} (hc : c.isDigit = false) (hminus : c ≠ '-') (w : Word)
    (cs cs' : List Char) : (Word.decimal w).toList ++ cs ≠ c :: cs' := by
  rw [toList_decimal]
  split
  · intro h
    exact hminus (List.cons.inj h).1.symm
  · exact toDigits_append_ne hc _ _ _

theorem separable_decimal : Separable fun w => (Word.decimal w).toList := by
  intro w w' rest rest' hrest hrest' h
  have hminus := toDigits_append_ne (c := '-') (by decide)
  simp only [toList_decimal] at h
  split at h <;> split at h
  · obtain ⟨hsize, hsame⟩ := separable_toDigits _ _ _ _ hrest hrest' (List.cons.inj h).2
    exact ⟨Int64.toInt_inj.1 (by omega), hsame⟩
  · exact absurd h.symm (hminus _ _ _)
  · exact absurd h (hminus _ _ _)
  · obtain ⟨hsize, hsame⟩ := separable_toDigits _ _ _ _ hrest hrest' h
    exact ⟨Int64.toInt_inj.1 (by omega), hsame⟩

end Text

/-! ## 2. Operands -/

namespace Operand

open Text

theorem toList_text (o : Operand) : o.text.toList =
    match o.mode with
    | .position => '[' :: ((Word.decimal o.word).toList ++ [']'])
    | .immediate => '#' :: (Word.decimal o.word).toList
    | .relative =>
      '[' :: 'r' :: 'b' :: (if o.word.toInt < 0 then '-' else '+') :: (Nat.toDigits 10 o.word.toInt.natAbs ++ [']'])
    | .unsupported digit => '?' :: (Nat.toDigits 10 digit ++ ':' :: (Word.decimal o.word).toList) := by
  obtain ⟨mode, w⟩ := o
  cases mode with
  | position =>
    show ("[" ++ Word.decimal w ++ "]").toList = _
    simp
  | immediate =>
    show ("#" ++ Word.decimal w).toList = _
    simp
  | relative =>
    show (if w.toInt < 0 then "[rb-" ++ Nat.repr w.toInt.natAbs ++ "]"
      else "[rb+" ++ Word.decimal w ++ "]").toList = _
    split
    · simp [*]
    · simp [toList_decimal, *]
  | unsupported digit =>
    show ("?" ++ Nat.repr digit ++ ":" ++ Word.decimal w).toList = _
    simp

/-- **An operand can be told from what follows it.** -/
theorem separable_text : Separable fun o : Operand => o.text.toList := by
  rintro ⟨mode, w⟩ ⟨mode', w'⟩ rest rest' hrest hrest' h
  have hbracket := stops_cons (c := ']') (by decide)
  have hcolon := stops_cons (c := ':') (by decide)
  have hr := decimal_append_ne (c := 'r') (by decide) (by decide)
  -- Operands of different modes begin with different characters, or with a bracket; and no word begins with `r`.
  cases mode <;> cases mode' <;> simp only [toList_text, List.cons_append, List.append_assoc,
    List.nil_append, List.cons.injEq, Char.reduceEq, false_and, true_and] at h
  case position.position =>
    obtain ⟨rfl, hsame⟩ := separable_decimal _ _ _ _ (hbracket _) (hbracket _) h
    exact ⟨rfl, (List.cons.inj hsame).2⟩
  case position.relative => exact absurd h (hr _ _ _)
  case relative.position => exact absurd h.symm (hr _ _ _)
  case immediate.immediate =>
    obtain ⟨rfl, hsame⟩ := separable_decimal _ _ _ _ hrest hrest' h
    exact ⟨rfl, hsame⟩
  case relative.relative =>
    obtain ⟨hsign, hdigits⟩ := h
    obtain ⟨hsize, hsame⟩ := separable_toDigits _ _ _ _ (hbracket _) (hbracket _) hdigits
    obtain rfl : w = w' := by
      apply Int64.toInt_inj.1
      split at hsign <;> split at hsign
      · omega
      · cases hsign
      · cases hsign
      · omega
    exact ⟨rfl, (List.cons.inj hsame).2⟩
  case unsupported.unsupported =>
    obtain ⟨rfl, hword⟩ := separable_toDigits _ _ _ _ (hcolon _) (hcolon _) h
    obtain ⟨rfl, hsame⟩ := separable_decimal _ _ _ _ hrest hrest' (List.cons.inj hword).2
    exact ⟨rfl, hsame⟩

end Operand

/-! ## 3. Readings -/

namespace Opcode

theorem mnemonic_injective : Function.Injective mnemonic := by
  intro op op' h
  cases op <;> cases op' <;> first | rfl | simp [mnemonic] at h

theorem mnemonic_ne_word (op : Opcode) : op.mnemonic ≠ ".word" := by
  cases op <;> simp [mnemonic]

end Opcode

namespace Reading

open Text

/-- **Readings that memory can have**: an opcode with an operand for each of its parameters. -/
def Formed : Reading → Prop
  | data _ => True
  | code op operands => operands.length = op.arity

theorem formed_readingAt (m : Memory) (address : Nat) : (m.readingAt address).Formed := by
  simp only [Memory.readingAt]
  split
  · next op _ => cases op <;> rfl
  · trivial

theorem space_notMem_mnemonic (r : Reading) : ∀ c ∈ r.mnemonic.toList, (c != ' ') = true := by
  cases r with
  | data w => simp [mnemonic]
  | code op operands => cases op <;> simp [mnemonic, Opcode.mnemonic]

/-- What follows the name in a text. -/
def tail (r : Reading) : List Char := if r.details.isEmpty then [] else ' ' :: r.details.toList

theorem toList_text (r : Reading) : r.text.toList = r.mnemonic.toList ++ r.tail := by
  unfold text tail
  split
  · exact (List.append_nil _).symm
  · simp

theorem head?_tail {r : Reading} {c : Char} (h : r.tail.head? = some c) : (c != ' ') = false := by
  unfold tail at h
  split at h <;> cases h
  rfl

theorem details_of_tail {r r' : Reading} (h : r.tail = r'.tail) : r.details = r'.details := by
  unfold tail at h
  split at h <;> split at h
  · next he he' => rw [String.isEmpty_iff.1 he, String.isEmpty_iff.1 he']
  · cases h
  · cases h
  · exact String.toList_inj.1 (List.cons.inj h).2

/-- **The text of a reading falls into its name and its details.** -/
theorem parts_of_text {r r' : Reading} (h : r.text = r'.text) :
    r.mnemonic = r'.mnemonic ∧ r.details = r'.details := by
  have hlist := congrArg String.toList h
  rw [toList_text, toList_text] at hlist
  obtain ⟨hname, htail⟩ := append_inj_of_head r.space_notMem_mnemonic r'.space_notMem_mnemonic
    (fun _ => head?_tail) (fun _ => head?_tail) hlist
  exact ⟨String.toList_inj.1 hname, details_of_tail htail⟩

theorem toList_details_pair (op : Opcode) (a b : Operand) :
    (code op [a, b]).details.toList = a.text.toList ++ ',' :: ' ' :: b.text.toList := by
  show (a.text ++ ", " ++ b.text).toList = _
  simp

theorem toList_details_triple (op : Opcode) (a b dest : Operand) :
    (code op [a, b, dest]).details.toList =
      a.text.toList ++ ',' :: ' ' :: (b.text.toList ++ ' ' :: '-' :: '>' :: ' ' :: dest.text.toList) := by
  show (a.text ++ ", " ++ b.text ++ " -> " ++ dest.text).toList = _
  simp

/-- **The details of an instruction give its operands**, of which there are three at most. -/
theorem operands_of_details {op : Opcode} {os os' : List Operand} (hos : os.length = op.arity)
    (hos' : os'.length = op.arity) (h : (code op os).details = (code op os').details) : os = os' := by
  have hcomma := stops_cons (c := ',') (by decide)
  have hspace := stops_cons (c := ' ') (by decide)
  have hlist := congrArg String.toList h
  have harity : op.arity = 0 ∨ op.arity = 1 ∨ op.arity = 2 ∨ op.arity = 3 := by cases op <;> decide
  rcases harity with h₀ | h₁ | h₂ | h₃
  · rw [List.length_eq_zero_iff.1 (hos.trans h₀), List.length_eq_zero_iff.1 (hos'.trans h₀)]
  · obtain ⟨a, rfl⟩ := List.length_eq_one_iff.1 (hos.trans h₁)
    obtain ⟨a', rfl⟩ := List.length_eq_one_iff.1 (hos'.trans h₁)
    rw [Operand.separable_text.inj a a' hlist]
  · obtain ⟨a, b, rfl⟩ := List.length_eq_two.1 (hos.trans h₂)
    obtain ⟨a', b', rfl⟩ := List.length_eq_two.1 (hos'.trans h₂)
    rw [toList_details_pair, toList_details_pair] at hlist
    obtain ⟨rfl, hrest⟩ := Operand.separable_text a a' _ _ (hcomma _) (hcomma _) hlist
    have hb := (List.cons.inj (List.cons.inj hrest).2).2
    rw [Operand.separable_text.inj b b' hb]
  · obtain ⟨a, b, dest, rfl⟩ := List.length_eq_three.1 (hos.trans h₃)
    obtain ⟨a', b', dest', rfl⟩ := List.length_eq_three.1 (hos'.trans h₃)
    rw [toList_details_triple, toList_details_triple] at hlist
    obtain ⟨rfl, hrest⟩ := Operand.separable_text a a' _ _ (hcomma _) (hcomma _) hlist
    have hb := (List.cons.inj (List.cons.inj hrest).2).2
    obtain ⟨rfl, harrow⟩ := Operand.separable_text b b' _ _ (hspace _) (hspace _) hb
    have hdest : dest.text.toList = dest'.text.toList := by simpa using harrow
    rw [Operand.separable_text.inj dest dest' hdest]

/-- **Two readings with the same text are the same.** -/
theorem text_inj {r r' : Reading} (hr : r.Formed) (hr' : r'.Formed) (h : r.text = r'.text) : r = r' := by
  obtain ⟨hname, hdetails⟩ := parts_of_text h
  cases r with
  | data w =>
    cases r' with
    | data w' =>
      rw [separable_decimal.inj w w' (congrArg String.toList hdetails)]
    | code op os => exact absurd hname.symm op.mnemonic_ne_word
  | code op os =>
    cases r' with
    | data w => exact absurd hname op.mnemonic_ne_word
    | code op' os' =>
      obtain rfl := Opcode.mnemonic_injective hname
      rw [operands_of_details hr hr' hdetails]

end Reading

/-! ## 4. Two addresses -/

theorem Param.mem_firstFew {p : Param} {count : Nat} : p ∈ firstFew count ↔ p.index < count := by
  match count with
  | 0 | 1 | 2 => cases p <;> decide
  | count + 3 => cases p <;> simp [firstFew, index]

namespace Memory

/-- An opcode has the same operands at two addresses exactly if its parameters have the same modes and
    words. -/
theorem operandsAt_eq_iff {m m' : Memory} {a a' : Nat} {i i' : Instruction} {op : Opcode} :
    m.operandsAt a i op = m'.operandsAt a' i' op ↔
      ∀ p : Param, p.index < op.arity →
        i.mode p = i'.mode p ∧ m.load (a + 1 + p.index) = m'.load (a' + 1 + p.index) := by
  unfold operandsAt
  rw [List.map_inj_left]
  simp only [Param.mem_firstFew, Operand.mk.injEq]

theorem readingAt_of_none {m : Memory} {a : Nat} (h : (Instruction.decode (m.load a)).op? = none) :
    m.readingAt a = .data (m.load a) := by
  simp only [readingAt, h]

/-- **The texts at two addresses are the same** exactly if both are words of data and the words are equal, or
    both are instructions of the same opcode, and each parameter that the opcode has is of the same mode in
    both and has the same word. -/
theorem text_eq_iff (m m' : Memory) (a a' : Nat) :
    (m.entryAt a).text = (m'.entryAt a').text ↔
      ((Instruction.decode (m.load a)).op? = none ∧ (Instruction.decode (m'.load a')).op? = none ∧
        m.load a = m'.load a') ∨
      ∃ op, (Instruction.decode (m.load a)).op? = some op ∧
        (Instruction.decode (m'.load a')).op? = some op ∧
        ∀ p : Param, p.index < op.arity →
          (Instruction.decode (m.load a)).mode p = (Instruction.decode (m'.load a')).mode p ∧
          m.load (a + 1 + p.index) = m'.load (a' + 1 + p.index) := by
  have htext : (m.entryAt a).text = (m'.entryAt a').text ↔ m.readingAt a = m'.readingAt a' :=
    ⟨Reading.text_inj (Reading.formed_readingAt m a) (Reading.formed_readingAt m' a'), congrArg Reading.text⟩
  rw [htext]
  cases hop : (Instruction.decode (m.load a)).op? with
  | none =>
    rw [readingAt_of_none hop]
    cases hop' : (Instruction.decode (m'.load a')).op? with
    | none =>
      rw [readingAt_of_none hop']
      simp
    | some op' =>
      rw [m'.readingAt_of_op a' hop']
      simp
  | some op =>
    rw [m.readingAt_of_op a hop]
    cases hop' : (Instruction.decode (m'.load a')).op? with
    | none =>
      rw [readingAt_of_none hop']
      simp
    | some op' =>
      rw [m'.readingAt_of_op a' hop', Reading.code.injEq]
      constructor
      · rintro ⟨rfl, hoperands⟩
        exact .inr ⟨op, rfl, rfl, operandsAt_eq_iff.1 hoperands⟩
      · rintro (⟨h, -⟩ | ⟨_, ⟨⟩, ⟨⟩, hsame⟩)
        · cases h
        · exact ⟨rfl, operandsAt_eq_iff.2 hsame⟩

/-- A parameter is read in the same way from memories with the same word at the address that it names. -/
theorem read_congr {m m' : Memory} {mode : Mode} {w base : Word}
    (h : ∀ a, mode.target w base = .ok a → m.load a = m'.load a) : m.read mode w base = m'.read mode w base := by
  unfold read
  split
  · rfl
  · cases ht : mode.target w base with
    | error f => rfl
    | ok a => exact congrArg Except.ok (h a ht)

end Memory

/-! ## 5. What a machine uses of an instruction -/

namespace Machine

variable {m m' : Machine} {i i' : Instruction} {op : Opcode}

/-- An instruction is about to do what its parameters say, and nothing else of it matters. -/
theorem effect_congr (hpc : m.pc = m'.pc)
    (hparam : ∀ p : Param, p.index < op.arity → m.param i p = m'.param i' p)
    (htarget : ∀ p : Param, p.index < op.arity → m.target i p = m'.target i' p) :
    m.effect i op = m'.effect i' op := by
  cases op with
  | add | mul | lessThan | equals =>
    simp only [effect, combine, hparam .first (by decide), hparam .second (by decide),
      htarget .third (by decide)]
  | jumpIfTrue | jumpIfFalse =>
    simp only [effect, jumpWhen, hparam .first (by decide), hparam .second (by decide), hpc]
  | input => simp only [effect, htarget .first (by decide)]
  | output | adjustBase => simp only [effect, hparam .first (by decide)]
  | halt => rfl

/-- The instruction at `pc` names an address by one of its parameters. -/
def Names (m : Machine) (a : Nat) : Prop :=
  ∃ (op : Opcode) (p : Param), m.instruction.op? = some op ∧ p.index < op.arity ∧
    (m.instruction.mode p).target (m.operand p) m.base = .ok a

/-- **A machine uses nothing of an instruction but its text**, and the words at the addresses that it names. -/
theorem effect_of_text {memory : Memory} (htext : (memory.entryAt m.pc).text = (m.memory.entryAt m.pc).text)
    (hnames : ∀ a, m.Names a → memory.load a = m.memory.load a) (hop : m.instruction.op? = some op) :
    { m with memory := memory }.instruction.op? = some op ∧
      { m with memory := memory }.effect { m with memory := memory }.instruction op =
        m.effect m.instruction op := by
  rcases (Memory.text_eq_iff memory m.memory m.pc m.pc).1 htext with ⟨-, hno, -⟩ | ⟨op', hop₁, hop₂, hsame⟩
  · cases hno.symm.trans hop
  · obtain rfl := Option.some.inj (hop₂.symm.trans hop)
    have hopcode : { m with memory := memory }.instruction.opcode = m.instruction.opcode :=
      (Opcode.ofCode?_eq_some_iff.1 hop₁).trans (Opcode.ofCode?_eq_some_iff.1 hop).symm
    have hmode : ∀ p : Param, p.index < op'.arity →
        { m with memory := memory }.instruction.mode p = m.instruction.mode p := fun p hp => (hsame p hp).1
    have hword : ∀ p : Param, p.index < op'.arity → { m with memory := memory }.operand p = m.operand p :=
      fun p hp => (hsame p hp).2
    refine ⟨hop₁, effect_congr rfl (fun p hp => ?_) fun p hp => ?_⟩
    · have hread : memory.read (m.instruction.mode p) (m.operand p) m.base =
          m.memory.read (m.instruction.mode p) (m.operand p) m.base :=
        Memory.read_congr fun a ha => hnames a ⟨op', p, hop, hp, ha⟩
      unfold param
      rw [hmode p hp, hword p hp, hopcode, hread]
    · unfold target
      rw [hmode p hp, hword p hp, hopcode]

/-- The fetch comes out in the same way. -/
theorem fetchOutlook_of_text {memory : Memory}
    (htext : (memory.entryAt m.pc).text = (m.memory.entryAt m.pc).text)
    (hnames : ∀ a, m.Names a → memory.load a = m.memory.load a) :
    { m with memory := memory }.fetchOutlook = m.fetchOutlook := by
  have hspent : { m with memory := memory }.spent? = m.spent? := rfl
  unfold fetchOutlook
  rw [hspent]
  cases m.spent? with
  | some e => rfl
  | none =>
    cases hop : m.instruction.op? with
    | some op =>
      obtain ⟨hop', heffect⟩ := effect_of_text htext hnames hop
      simp only [hop', heffect]
      rfl
    | none =>
      rcases (Memory.text_eq_iff memory m.memory m.pc m.pc).1 htext with ⟨hno, -, hword⟩ | ⟨op, -, hop', -⟩
      · have hinstruction : { m with memory := memory }.instruction = m.instruction :=
          congrArg Instruction.decode hword
        simp only [hinstruction, hop]
      · cases hop'.symm.trans hop

/-- **The text of a disassembly is unambiguous.** The entries at two addresses, of any two memories, have the
    same text exactly if both are words of data and the words are equal, or both are instructions of the
    same opcode, and each parameter that the opcode has is of the same mode in both and has the same word.
    And a machine uses nothing that the text does not say: with another memory that has the same text at the
    address of the machine, and the same words at the addresses that the instruction names, the instruction
    is about to do the same, and the fetch comes out in the same way. -/
theorem disassembly_unambiguous :
    (∀ (m m' : Memory) (a a' : Nat), (m.entryAt a).text = (m'.entryAt a').text ↔
      ((Instruction.decode (m.load a)).op? = none ∧ (Instruction.decode (m'.load a')).op? = none ∧
        m.load a = m'.load a') ∨
      ∃ op, (Instruction.decode (m.load a)).op? = some op ∧
        (Instruction.decode (m'.load a')).op? = some op ∧
        ∀ p : Param, p.index < op.arity →
          (Instruction.decode (m.load a)).mode p = (Instruction.decode (m'.load a')).mode p ∧
          m.load (a + 1 + p.index) = m'.load (a' + 1 + p.index)) ∧
    ∀ (m : Machine) (memory : Memory), (memory.entryAt m.pc).text = (m.memory.entryAt m.pc).text →
      (∀ a, m.Names a → memory.load a = m.memory.load a) →
      (∀ op, m.instruction.op? = some op →
        { m with memory := memory }.effect (Instruction.decode (memory.load m.pc)) op =
          m.effect m.instruction op) ∧
      { m with memory := memory }.fetchOutlook = m.fetchOutlook :=
  ⟨Memory.text_eq_iff, fun _ _ htext hnames =>
    ⟨fun _ hop => (effect_of_text htext hnames hop).2, fetchOutlook_of_text htext hnames⟩⟩

/-- Two outputs of 7, whose words differ in the modes of parameters that an output does not have. -/
theorem disassembly_unambiguous_unused_modes :
    let m := ofProgram [104, 7, 99]
    let memory := Memory.ofImage [9876104, 7]
    (memory.entryAt 0).text = (m.memory.entryAt 0).text ∧ memory.load 0 ≠ m.memory.load 0 ∧
    { m with memory := memory }.fetchOutlook = .ok (.output 7) := by
  intro m memory
  obtain ⟨htexts, huses⟩ := disassembly_unambiguous
  have hop : m.instruction.op? = some .output := by decide +kernel
  have htext : (memory.entryAt 0).text = (m.memory.entryAt 0).text := by
    refine (htexts _ _ _ _).2 (.inr ⟨.output, by decide +kernel, hop, fun p hp => ?_⟩)
    cases p with
    | first => decide +kernel
    | second | third => exact absurd hp (by decide)
  have hnames : ∀ a, m.Names a → memory.load a = m.memory.load a := by
    rintro a ⟨op, p, hop', hp, ha⟩
    obtain rfl := Option.some.inj (hop.symm.trans hop')
    cases p with
    | first =>
      have himmediate : m.instruction.mode .first = .immediate := by decide +kernel
      rw [himmediate] at ha
      cases ha
    | second | third => exact absurd hp (by decide)
  have houtlook : m.fetchOutlook = .ok (.output 7) := by decide +kernel
  exact ⟨htext, by decide +kernel, (huses m memory htext hnames).2.trans houtlook⟩

end Machine

end WordMachine
