import WordMachine.Proofs.Overlap
import WordMachine.Proofs.Readings
import WordMachine.Proofs.Views

/-!
# Addresses stay in range

Addresses are added up without a check: those of the parameters of an instruction, that of the next
instruction, that of the next line of a listing. The bound that keeps these sums small is not local. A jump
may lead to the last address that a word can name, and an instruction may have been stored there; but past
that address nothing can ever be stored, so that memory reads as zero there, and zero is no instruction.

* `Word.addressLimit` -- the addresses that words name are those below it; `Effect.InRange` says that an
  instruction is about to use no other (`inRange_effect`);
* `Machine.InRange` -- nothing is held at the limit or past it, and the machine stands at most 3 past it;
* `InRange.pc_lt` -- a machine that stands at an instruction stands below the limit. So every operation
  keeps a machine in range (`preserved_inRange`);
* `Machine.fetch_of_length_le` -- past what memory holds there is nothing to execute;
* `Machine.addresses_in_range` -- the bounds of a machine and of the sums, after any operations.
-/

namespace WordMachine

/-! ## 1. The addresses that words name -/

/-- Words name the addresses below this one. -/
def Word.addressLimit : Nat := 9223372036854775808

theorem Word.lt_addressLimit_of_address? {w : Word} {a : Nat} (h : Word.address? w = some a) :
    a < Word.addressLimit := by
  have hword : w.toInt = a := (Word.address?_eq_some_iff w a).1 h
  have hmax : w.toInt < 9223372036854775808 := w.toInt_lt
  unfold Word.addressLimit
  omega

theorem lt_addressLimit_of_addressOf {w : Word} {a : Nat} (h : addressOf w = .ok a) :
    a < Word.addressLimit := by
  unfold addressOf at h
  split at h
  · rename_i address haddress
    cases h
    exact Word.lt_addressLimit_of_address? haddress
  · cases h

/-- A parameter names no other addresses, whatever its mode. -/
theorem Mode.target_lt {mode : Mode} {operand base : Word} {a : Nat}
    (h : mode.target operand base = .ok a) : a < Word.addressLimit := by
  cases mode with
  | position | relative => exact lt_addressLimit_of_addressOf h
  | immediate | unsupported digit => cases h

theorem Param.index_le (p : Param) : p.index ≤ 2 := by
  cases p <;> decide

/-- Stores below a limit leave the length there. -/
theorem Memory.length_storeAll_le {limit : Nat} {m : Memory} {stores : List (Nat × Word)}
    (hm : m.length ≤ limit) (hstores : ∀ s ∈ stores, s.1 < limit) : (m.storeAll stores).length ≤ limit := by
  induction stores generalizing m with
  | nil => exact hm
  | cons s rest ih =>
    refine ih ?_ fun t ht => hstores t (List.mem_cons_of_mem s ht)
    rw [length_store]
    exact Nat.max_le.2 ⟨hm, hstores s List.mem_cons_self⟩

namespace Machine

variable {m : Machine} {i : Instruction} {op : Opcode} {eff : Effect} {a : Nat}

/-- **What an instruction is about to do is in range** if it writes or goes to an address below the limit. -/
def Effect.InRange : Effect → Prop
  | .store a _ | .take a | .jump a => a < Word.addressLimit
  | .emit _ | .pass | .moveBase _ | .halt => True

theorem lt_addressLimit_of_target {p : Param} (h : m.target i p = .ok a) : a < Word.addressLimit :=
  Mode.target_lt (ok_of_mapError h)

theorem inRange_combine {f : Word → Word → Word} (h : m.combine i f = .ok eff) : eff.InRange := by
  obtain ⟨_, -, h⟩ := ok_of_bind h
  obtain ⟨_, -, h⟩ := ok_of_bind h
  obtain ⟨a, ha, h⟩ := ok_of_bind h
  cases h
  exact lt_addressLimit_of_target ha

theorem inRange_jumpWhen {test : Word → Bool} (h : m.jumpWhen i test = .ok eff) : eff.InRange := by
  obtain ⟨_, -, h⟩ := ok_of_bind h
  obtain ⟨goal, -, h⟩ := ok_of_bind h
  split at h
  · split at h
    · rename_i address haddress
      cases h
      exact Word.lt_addressLimit_of_address? haddress
    · cases h
  · cases h
    trivial

/-- **Every instruction is about to use addresses below the limit only.** -/
theorem inRange_effect (h : m.effect i op = .ok eff) : eff.InRange := by
  cases op with
  | add | mul | lessThan | equals => exact inRange_combine h
  | jumpIfTrue | jumpIfFalse => exact inRange_jumpWhen h
  | input =>
    obtain ⟨a, ha, hok⟩ := ok_of_bind h
    cases hok
    exact lt_addressLimit_of_target ha
  | output | adjustBase =>
    obtain ⟨w, -, hok⟩ := ok_of_bind h
    cases hok
    trivial
  | halt =>
    cases h
    trivial

/-! ## 2. Machines in range -/

/-- **A machine is in range**: nothing is held at the limit or past it, nothing was last written there, and
    the machine stands at most 3 past it. -/
structure InRange (m : Machine) : Prop where
  memory : m.memory.length ≤ Word.addressLimit
  lastWrite : ∀ a, m.lastWrite = some a → a < Word.addressLimit
  pc : m.pc ≤ Word.addressLimit + 3

/-- **Past what memory holds there is nothing to execute**: the word there is zero, and that is no opcode. -/
theorem instruction_of_length_le (h : m.memory.length ≤ m.pc) : m.instruction = Instruction.decode 0 :=
  congrArg Instruction.decode (Memory.load_of_length_le h)

theorem op?_decode_zero : (Instruction.decode 0).op? = none := by decide

/-- A machine that stands at an instruction stands in what memory holds. -/
theorem InRange.pc_lt (h : m.InRange) (hop : m.instruction.op? = some op) : m.pc < Word.addressLimit := by
  refine Nat.lt_of_lt_of_le ?_ h.memory
  by_contra hpast
  rw [instruction_of_length_le (Nat.not_lt.1 hpast), op?_decode_zero] at hop
  cases hop

theorem fetch_of_length_le (h : m.memory.length ≤ m.pc) :
    m.fetch = (m, .error (m.spent?.getD (.decode 0 m.pc))) := by
  unfold fetch
  cases m.spent? with
  | some e => rfl
  | none =>
    simp only [instruction_of_length_le h, op?_decode_zero]
    rfl

theorem InRange.store (h : m.InRange) (ha : a < Word.addressLimit) (w : Word) : (m.store a w).InRange where
  memory := by
    show (m.memory.store a w).length ≤ _
    rw [Memory.length_store]
    exact Nat.max_le.2 ⟨h.memory, ha⟩
  lastWrite b hb := Option.some.inj hb ▸ ha
  pc := h.pc

theorem InRange.goTo (h : m.InRange) (pc : Nat) (hpc : pc ≤ Word.addressLimit + 3) :
    InRange { m with pc := pc } :=
  ⟨h.memory, h.lastWrite, hpc⟩

theorem InRange.takeInput (h : m.InRange) (hpc : m.pc < Word.addressLimit) (ha : a < Word.addressLimit)
    (w : Word) : (m.takeInput a w).InRange := by
  have hgone := (h.store ha w).goTo (m.pc + 2) (by omega)
  exact ⟨hgone.memory, hgone.lastWrite, hgone.pc⟩

/-- An instruction moves on by 4 words at most, or to an address below the limit. -/
theorem InRange.apply (h : m.InRange) (hpc : m.pc < Word.addressLimit) (heff : eff.InRange) :
    (m.apply eff).1.InRange := by
  cases eff with
  | store a w => exact (h.store heff w).goTo (m.pc + 4) (by omega)
  | take a =>
    cases hb : m.backlog with
    | nil =>
      rw [apply_take_nil hb]
      exact ⟨h.memory, h.lastWrite, h.pc⟩
    | cons w rest =>
      rw [apply_take_cons hb]
      exact InRange.takeInput (m := { m with backlog := rest }) ⟨h.memory, h.lastWrite, h.pc⟩ hpc heff w
  | emit w | moveBase d =>
    have hgone := h.goTo (m.pc + 2) (by omega)
    exact ⟨hgone.memory, hgone.lastWrite, hgone.pc⟩
  | pass => exact h.goTo _ (by omega)
  | jump target => exact h.goTo target (Nat.le_add_right_of_le (Nat.le_of_lt heff))
  | halt => exact ⟨h.memory, h.lastWrite, h.pc⟩

/-! ## 3. Operations -/

/-- Where a consistent machine in range waits, it can take an input and stay in range. -/
theorem InRange.taken (h : m.InRange) (hm : m.Consistent) (hs : m.status = .awaitingInput)
    (ha : m.inputTarget = .ok a) (w : Word) : (m.takeInput a w).InRange :=
  h.takeInput (h.pc_lt (hm.awaiting hs).2.1) (lt_addressLimit_of_target ha) w

theorem InRange.step (h : m.InRange) (hm : m.Consistent) : m.step.1.InRange := by
  have ht := m.transition
  generalize m.step.1 = m' at ht ⊢
  generalize m.step.2 = r at ht
  cases ht with
  | stopped | halted | waiting => exact h
  | unwritable | spent | unknown | refused => exact ⟨h.memory, h.lastWrite, h.pc⟩
  | resumed hf hs w rest hb a ha =>
    have htaken := h.taken hm hs ha w
    exact ⟨htaken.memory, htaken.lastWrite, htaken.pc⟩
  | performed hf hs hsp op hop eff he =>
    exact InRange.apply (m := { m with steps := m.steps + 1 }) ⟨h.memory, h.lastWrite, h.pc⟩ (h.pc_lt hop)
      (inRange_effect he)

theorem InRange.supply (h : m.InRange) (hm : m.Consistent) (answer : Answer) :
    (m.supply answer).1.InRange := by
  by_cases hs : m.status = .awaitingInput
  · obtain ⟨hf, -, a, ha⟩ := hm.awaiting hs
    cases answer with
    | value w =>
      rw [supply_value hf hs, completeInput_of_ok ha]
      exact h.taken hm hs ha w
    | noValue =>
      rw [supply_noValue hf hs, completeInput_of_ok ha]
      exact h.taken hm hs ha m.idleInput
    | terminate =>
      rw [supply_terminate hf hs]
      exact ⟨h.memory, h.lastWrite, h.pc⟩
  · have hsame : (m.supply answer).1 = m := by
      cases hf : m.fault with
      | some e => rw [supply_of_fault hf]
      | none => rw [supply_of_not_awaiting hf hs]
    rwa [hsame]

/-- **Every operation keeps a consistent machine in range.** -/
theorem preserved_inRange : Preserved fun m => m.Consistent ∧ m.InRange where
  setUp _ _ _ _ h := ⟨preserved_consistent.setUp _ _ _ _ h.1, h.2.memory, h.2.lastWrite, h.2.pc⟩
  step _ h := ⟨h.1.step, h.2.step h.1⟩
  supply _ answer h := ⟨h.1.supply answer, h.2.supply h.1 answer⟩

theorem inRange_ofMemory {memory : Memory} (h : memory.length ≤ Word.addressLimit) :
    (ofMemory memory).InRange where
  memory := h
  lastWrite := nofun
  pc := Nat.zero_le _

/-! ## 4. Fetches and sums -/

/-- At the limit or past it a fetch finds nothing to execute, unless the instructions allowed are used up
    before it looks. -/
theorem InRange.fetch_past (h : m.InRange) (hpast : Word.addressLimit ≤ m.pc) :
    m.fetch = (m, .error (.decode 0 m.pc)) ∨
      ∃ limit, m.stepLimit = some limit ∧ limit ≤ m.steps ∧
        m.fetch = (m, .error (.stepLimit limit m.pc)) := by
  have hfetch := fetch_of_length_le (Nat.le_trans h.memory hpast)
  cases hspent : m.spent? with
  | none =>
    rw [hspent] at hfetch
    exact .inl hfetch
  | some e =>
    obtain ⟨limit, hlimit, hle, rfl⟩ := exists_limit_of_spent hspent
    rw [hspent] at hfetch
    exact .inr ⟨limit, hlimit, hle, hfetch⟩

/-- **Sums of addresses are never too large.** Take any stores below the limit into an image that ends there
    or before, and any operations on the machine that starts with this memory; a run is steps and answers, so
    this tells of every moment of a run, too. Then

* nothing is held and nothing was last written at the limit or past it: every store fell below it;
* the machine stands at most 3 past the limit;
* at the limit or past it the machine does not wait for input, and a fetch ends with the fault of the
  opcode 0, or with that of the step limit;
* so 64 bits hold the addresses of the parameters of an instruction and of the next one; in a listing
  that is anchored where the machine stands, the end of the window, and for every address before the end
  of either sweep, the addresses of the parameters there and of the next line; and the address past each
  sparse word, of which the length is one. -/
theorem addresses_in_range {image : List Word} {stores : List (Nat × Word)} {ops : List Operation}
    (himage : image.length ≤ Word.addressLimit) (hstores : ∀ s ∈ stores, s.1 < Word.addressLimit)
    (h : Life (ofMemory ((Memory.ofImage image).storeAll stores)) ops m) :
    ((∀ a, m.memory.Holds a → a < Word.addressLimit) ∧
      ∀ a, m.lastWrite = some a → a < Word.addressLimit) ∧
    m.pc ≤ Word.addressLimit + 3 ∧
    (Word.addressLimit ≤ m.pc → m.status ≠ .awaitingInput ∧
      (m.fetch = (m, .error (.decode 0 m.pc)) ∨
        ∃ limit, m.stepLimit = some limit ∧ limit ≤ m.steps ∧
          m.fetch = (m, .error (.stepLimit limit m.pc)))) ∧
    ((∀ p : Param, m.pc + 1 + p.index ≤ Word.countLimit) ∧ m.pc + 4 ≤ Word.countLimit) ∧
    (m.pc + listingWindow ≤ Word.countLimit ∧
      ∀ address, address < m.memory.dense.size ∨ address < m.pc + listingWindow →
        (∀ p : Param, address + 1 + p.index ≤ Word.countLimit) ∧
          address + (m.memory.entryAt address).width ≤ Word.countLimit) ∧
    (∀ a ∈ m.memory.sparse, a + 1 ≤ Word.countLimit) ∧ m.memory.length ≤ Word.countLimit := by
  have hstart : ((Memory.ofImage image).storeAll stores).length ≤ Word.addressLimit :=
    Memory.length_storeAll_le ((Memory.length_ofImage image).trans_le himage) hstores
  obtain ⟨hm, hrange⟩ := preserved_inRange.lives h
    ⟨consistent_of_not_awaiting rfl nofun, inRange_ofMemory hstart⟩
  have hheld := (m.memory.length_le_iff _).1 hrange.memory
  have hpc := hrange.pc
  have hmemory := hrange.memory
  have hdense := Nat.le_trans m.memory.size_le_length hmemory
  have hlimit : Word.countLimit = 2 * Word.addressLimit - 1 := rfl
  have hroom : listingWindow + 10 ≤ Word.addressLimit := by decide
  refine ⟨⟨hheld, hrange.lastWrite⟩, hpc, fun hpast => ⟨fun hs => ?_, hrange.fetch_past hpast⟩,
    ⟨fun p => ?_, by omega⟩, ⟨by omega, fun address haddress => ⟨fun p => ?_, ?_⟩⟩, fun a ha => ?_, by omega⟩
  · exact absurd (hrange.pc_lt (hm.awaiting hs).2.1) (Nat.not_lt.2 hpast)
  · have hp := p.index_le
    omega
  · have hp := p.index_le
    omega
  · have hwidth := (m.memory.entryAt address).width_le
    omega
  · have hsparse := hheld a (.inr ha)
    omega

/-- An addition is stored at the last address that a word can name and jumped to. It reads its parameters
    past what memory holds, writes to address 0, and leaves the machine as far out as it can come. -/
theorem addresses_in_range_farthest :
    let program : List Word := [1101, 1101, 0, 9223372036854775807, 1106, 0, 9223372036854775807]
    let start := ofMemory ((Memory.ofImage program).storeAll [])
    let m := start.step.1.step.1.step.1
    Life start [.step, .step, .step] m ∧ m.pc = Word.addressLimit + 3 ∧ m.memory.Holds 9223372036854775807 ∧
      m.fetch = (m, .error (.decode 0 m.pc)) ∧ m.pc + 4 ≤ Word.countLimit ∧
      m.pc + listingWindow ≤ Word.countLimit := by
  intro program start m
  have hlife : Life start [.step, .step, .step] m :=
    .cons _ _ _ _ _ .step (.cons _ _ _ _ _ .step (.cons _ _ _ _ _ .step (.none _)))
  have hpc : m.pc = Word.addressLimit + 3 := by decide +kernel
  obtain ⟨-, -, hpast, ⟨-, hnext⟩, ⟨hwindow, -⟩, -⟩ :=
    addresses_in_range (by decide) (fun _ hs => absurd hs List.not_mem_nil) hlife
  have hunlimited : m.stepLimit = none := by decide +kernel
  obtain ⟨-, hfetch | ⟨limit, hlimit, -⟩⟩ := hpast (by omega)
  · exact ⟨hlife, hpc, by decide +kernel, hfetch, hnext, hwindow⟩
  · rw [hunlimited] at hlimit
    cases hlimit

end Machine

end WordMachine
