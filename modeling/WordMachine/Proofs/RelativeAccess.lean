import WordMachine.Proofs.Contract
import WordMachine.Proofs.Readings
import WordMachine.Proofs.Refinement

/-!
# Relative parameters

A relative parameter names the address at its distance from the base. The sum of the two is clamped to
the range of words, while the base itself is moved with sums that wrap around. This file says which cell
a relative parameter is about, for any base and any operand.

* `Word.nearestAddress` -- the cell at a distance, which is the last one for all distances past it;
* `Mode.target_relative` -- the address of a relative parameter; a negative sum has none;
* `Machine.Fails`, `Machine.fails_effect` -- the first parameter that cannot be used is at fault;
* `Consistent.writes` -- a completed instruction writes through the parameter that the table names,
  whether the machine runs or waits;
* `Machine.relative_access` -- what comes of each relative parameter of an instruction, and which
  operands lead to the same cell.
-/

namespace WordMachine

/-! ## 1. Addresses at a distance -/

namespace Word

/-- The address nearest to an integer that is not negative: the integer itself, if a word can name it. -/
def nearestAddress (n : Int) : Nat := (min n maxInt).toNat

theorem nearestAddress_of_le {n : Int} (h₀ : 0 ≤ n) (h : n ≤ maxInt) : (nearestAddress n : Int) = n := by
  unfold nearestAddress
  omega

theorem nearestAddress_of_lt {n : Int} (h : maxInt < n) : (nearestAddress n : Int) = maxInt := by
  unfold nearestAddress
  rw [min_eq_right h.le]
  rfl

/-- Two distances that lead to one cell lead to the last one, or past it. -/
theorem le_of_nearestAddress_eq {n k : Int} (hn : 0 ≤ n) (hk : 0 ≤ k) (hne : n ≠ k)
    (h : nearestAddress n = nearestAddress k) : maxInt ≤ n ∧ maxInt ≤ k := by
  unfold nearestAddress at h
  have hmax : 0 ≤ maxInt := by decide
  omega

theorem address?_addClamped (base operand : Word) :
    address? (addClamped base operand) =
      if base.toInt + operand.toInt < 0 then none
      else some (nearestAddress (base.toInt + operand.toInt)) := by
  have hclamped := toInt_addClamped base operand
  unfold Ideal.nearest at hclamped
  split
  · rw [address?_eq_none_iff]
    omega
  · rw [address?_eq_some_iff]
    unfold nearestAddress maxInt
    omega

end Word

/-- **The address of a relative parameter.** -/
theorem Mode.target_relative (operand base : Word) :
    Mode.relative.target operand base =
      if base.toInt + operand.toInt < 0 then .error (.negativeAddress (Word.addClamped base operand))
      else .ok (Word.nearestAddress (base.toInt + operand.toInt)) := by
  have haddress := Word.address?_addClamped base operand
  by_cases h : base.toInt + operand.toInt < 0
  · rw [if_pos h] at haddress ⊢
    simp only [target, addressOf, haddress]
  · rw [if_neg h] at haddress ⊢
    simp only [target, addressOf, haddress]

/-- **Relative parameters that name the same address** differ only past the last one. -/
theorem Mode.eq_last_of_target_eq {base x y : Word} {a : Nat}
    (hx : Mode.relative.target x base = .ok a) (hy : Mode.relative.target y base = .ok a) (hne : x ≠ y) :
    (a : Int) = Word.maxInt ∧ Word.maxInt ≤ base.toInt + x.toInt ∧
      Word.maxInt ≤ base.toInt + y.toInt := by
  have hint : x.toInt ≠ y.toInt := fun h => hne (Int64.toInt_inj.1 h)
  rw [target_relative] at hx hy
  split at hx
  · cases hx
  · split at hy
    · cases hy
    · have ha := Except.ok.inj hx
      have ha' := Except.ok.inj hy
      obtain ⟨hlex, hley⟩ := Word.le_of_nearestAddress_eq (n := base.toInt + x.toInt)
        (k := base.toInt + y.toInt) (by omega) (by omega) (by omega) (ha.trans ha'.symm)
      refine ⟨?_, hlex, hley⟩
      rw [← ha]
      unfold Word.nearestAddress
      rw [min_eq_right hlex]
      rfl

namespace Machine

variable {m m' : Machine} {i : Instruction} {op : Opcode} {p : Param} {e : Fault}

/-! ## 2. Parameters that cannot be used -/

/-- **It fails**, and with the fault `e` unless something before has failed. -/
def Fails (e : Fault) (before : Prop) {α : Type} (r : Except Fault α) : Prop :=
  ∃ e', r = .error e' ∧ (before → e' = e)

section

variable {α β : Type} {before : Prop} {r : Except Fault α} {f : α → Except Fault β}

theorem fails_here (h : r = .error e) : Fails e before (r >>= f) := by
  rw [h]
  exact ⟨e, rfl, fun _ => rfl⟩

theorem fails_later (hr : before → ∃ a, r = .ok a) (hf : ∀ a, Fails e before (f a)) :
    Fails e before (r >>= f) := by
  cases r with
  | ok a => exact hf a
  | error e' =>
    refine ⟨e', rfl, fun h => ?_⟩
    obtain ⟨a, ha⟩ := hr h
    cases ha

end

/-- The parameters before this one can be read. -/
def ReadsBefore (m : Machine) (i : Instruction) (p : Param) : Prop :=
  ∀ q : Param, q.index < p.index → ∃ w, m.param i q = .ok w

theorem fails_combine (f : Word → Word → Word) (hparam : m.param i p = .error e)
    (htarget : m.target i p = .error e) : Fails e (m.ReadsBefore i p) (m.combine i f) := by
  cases p with
  | first => exact fails_here hparam
  | second => exact fails_later (fun h => h .first (by decide)) fun _ => fails_here hparam
  | third =>
    exact fails_later (fun h => h .first (by decide)) fun _ =>
      fails_later (fun h => h .second (by decide)) fun _ => fails_here htarget

theorem fails_jumpWhen (test : Word → Bool) (hp : p.index < 2) (hparam : m.param i p = .error e) :
    Fails e (m.ReadsBefore i p) (m.jumpWhen i test) := by
  cases p with
  | first => exact fails_here hparam
  | second => exact fails_later (fun h => h .first (by decide)) fun _ => fails_here hparam
  | third => exact absurd hp (by decide)

/-- **The first parameter that cannot be used is at fault**: neither read nor written through. -/
theorem fails_effect (hp : p.index < op.arity) (hparam : m.param i p = .error e)
    (htarget : m.target i p = .error e) : Fails e (m.ReadsBefore i p) (m.effect i op) := by
  cases op with
  | add | mul | lessThan | equals => exact fails_combine _ hparam htarget
  | jumpIfTrue | jumpIfFalse => exact fails_jumpWhen _ hp hparam
  | input =>
    obtain rfl : p = .first := by cases p <;> first | rfl | exact absurd hp (by decide)
    exact fails_here htarget
  | output | adjustBase =>
    obtain rfl : p = .first := by cases p <;> first | rfl | exact absurd hp (by decide)
    exact fails_here hparam
  | halt => exact absurd hp (Nat.not_lt_zero _)

/-! ## 3. Writing -/

/-- What completes the instruction of a waiting machine, a word of its own or an answer, is written to
    the place that waits for it. -/
theorem Consistent.writes_awaiting (hm : m.Consistent) (hs : m.status = .awaitingInput)
    (hc : Completes m m') :
    ∃ a w, m.inputTarget = .ok a ∧ m'.lastWrite = some a ∧ m'.memory = m.memory.store a w := by
  obtain ⟨-, -, a, ha⟩ := hm.awaiting hs
  refine ⟨a, ?_⟩
  cases hc with
  | step m' s h hno =>
    have ht := m.transition
    rw [h] at ht
    generalize hr : Except.ok s = r at ht
    cases ht with
    | stopped | unwritable | spent | unknown | refused => cases hr
    | halted _ hs' | performed _ hs' => cases hs.symm.trans hs'
    | waiting =>
      cases hr
      exact absurd rfl hno
    | resumed _ _ w rest hb a' ha' =>
      obtain rfl : a = a' := Except.ok.inj (ha.symm.trans ha')
      exact ⟨w, ha, rfl, rfl⟩
  | answered m₁ m' answer h hgoesOn hsupply =>
    obtain ⟨hf₁, hs₁⟩ := awaiting_of_needsInput h
    obtain ⟨heq, -⟩ := hm.asks h
    have ha₁ : m₁.inputTarget = .ok a := by
      rw [heq]
      exact ha
    have hmemory : m₁.memory = m.memory := by rw [heq]
    obtain ⟨w, rfl⟩ := takeInput_of_supply hf₁ hs₁ ha₁ hgoesOn hsupply
    exact ⟨w, ha, rfl, congrArg (·.store a w) hmemory⟩

/-- **A completed instruction writes through the parameter that the table names**, whether the machine
    runs or waits. -/
theorem Consistent.writes (hm : m.Consistent) (hop : m.instruction.op? = some op)
    (hw : op.writeParam? = some p) (hs : m.status ≠ .halted) (hc : Completes m m') :
    ∃ a w, m.target m.instruction p = .ok a ∧ m'.lastWrite = some a ∧
      m'.memory = m.memory.store a w := by
  have hf : m.fault = none := by
    cases hc with
    | step m' s h | answered m₁ m' answer h => exact (fault_of_step_ok h).1
  cases hstatus : m.status with
  | halted => exact absurd hstatus hs
  | running =>
    obtain ⟨op', eff, hop', he, hperformed⟩ := hc.performed hf hstatus
    obtain rfl : op' = op := Option.some.inj (hop'.symm.trans hop)
    exact (enacts he).writes hperformed hw
  | awaitingInput =>
    obtain ⟨-, hinput, -⟩ := hm.awaiting hstatus
    obtain rfl : Opcode.input = op := Option.some.inj (hinput.symm.trans hop)
    obtain rfl : Param.first = p := Option.some.inj hw
    exact hm.writes_awaiting hstatus hc

/-! ## 4. Relative parameters -/

/-- The distance that a relative parameter of the instruction at hand names, as an integer. -/
def relativeSum (m : Machine) (p : Param) : Int := m.base.toInt + (m.operand p).toInt

/-- What a relative parameter comes to is told from its address. -/
theorem of_relative (hmode : i.mode p = .relative) {r : Except AccessFault Nat}
    (h : Mode.relative.target (m.operand p) m.base = r) :
    m.param i p = (r.map m.memory.load).mapError (·.at m.pc i.opcode) ∧
      m.target i p = r.mapError (·.at m.pc i.opcode) := by
  subst h
  unfold param target
  rw [hmode]
  exact ⟨rfl, rfl⟩

theorem usable_of_relative (hmode : i.mode p = .relative) (h : 0 ≤ m.relativeSum p) :
    m.param i p = .ok (m.memory.load (Word.nearestAddress (m.relativeSum p))) ∧
      m.target i p = .ok (Word.nearestAddress (m.relativeSum p)) :=
  of_relative hmode ((Mode.target_relative _ _).trans (if_neg (Int.not_lt.2 h)))

/-- A relative parameter at a negative distance can be used for nothing. -/
theorem unusable_of_relative (hmode : i.mode p = .relative) (h : m.relativeSum p < 0) :
    let e := Fault.address (Word.addClamped m.base (m.operand p)) m.pc
    m.param i p = .error e ∧ m.target i p = .error e :=
  of_relative hmode ((Mode.target_relative _ _).trans (if_pos h))

/-- **What comes of a relative parameter.** Take a constructible machine and a relative parameter of the
    instruction that it stands at, and the sum of the base and the operand as an integer. If the sum is
    not negative, there is one cell that the parameter is about: at the sum, or, if no word can name
    that, the last cell that there is. The value of the parameter is the word in this cell; if the
    table has the instruction write through the parameter, then once it is completed, by its step or by
    the answer to it, it has written to this cell and to no other. If the sum is negative, the step of a
    running machine fails; it counts and keeps its fault and leaves everything else as it was, and if
    the parameters before this one can be read, the fault names the sum, clamped to the range of words.
    So of two different operands with one base that name the same address, both name the last one,
    and both sums come to it or go past it. -/
theorem relative_access {m : Machine} (hm : m.Constructible) :
    (∀ op p, m.instruction.op? = some op → p.index < op.arity → m.instruction.mode p = .relative →
      (0 ≤ m.relativeSum p → ∃ a : Nat,
        (m.relativeSum p ≤ Word.maxInt → (a : Int) = m.relativeSum p) ∧
        (Word.maxInt < m.relativeSum p → (a : Int) = Word.maxInt) ∧
        m.param m.instruction p = .ok (m.memory.load a) ∧
        (op.writeParam? = some p → m.status ≠ .halted → ∀ m', Completes m m' →
          ∃ w, m'.lastWrite = some a ∧
            ∀ b, m'.memory.load b = if b = a then w else m.memory.load b)) ∧
      (m.relativeSum p < 0 → m.fault = none → m.status = .running → m.spent? = none →
        ∃ e, m.step = ({ m with steps := m.steps + 1, fault := some e }, .error e) ∧
          ((∀ q : Param, q.index < p.index → ∃ w, m.param m.instruction q = .ok w) →
            e = .address (Word.addClamped m.base (m.operand p)) m.pc))) ∧
    ∀ x y a, Mode.relative.target x m.base = .ok a → Mode.relative.target y m.base = .ok a → x ≠ y →
      (a : Int) = Word.maxInt ∧ Word.maxInt ≤ m.base.toInt + x.toInt ∧
        Word.maxInt ≤ m.base.toInt + y.toInt := by
  refine ⟨fun op p hop hp hmode => ⟨fun hsum => ?_, fun hsum hf hs hsp => ?_⟩,
    fun x y a => Mode.eq_last_of_target_eq⟩
  · obtain ⟨hparam, htarget⟩ := usable_of_relative hmode hsum
    refine ⟨_, Word.nearestAddress_of_le hsum, Word.nearestAddress_of_lt, hparam,
      fun hw hhalt m' hc => ?_⟩
    obtain ⟨a, w, ha, hlast, hmemory⟩ := hm.reachable.consistent.writes hop hw hhalt hc
    obtain rfl := Except.ok.inj (ha.symm.trans htarget)
    refine ⟨w, hlast, fun b => ?_⟩
    rw [hmemory, Memory.load_store hm.apart]
  · obtain ⟨hparam, htarget⟩ := unusable_of_relative hmode hsum
    obtain ⟨e, he, hfirst⟩ := fails_effect hp hparam htarget
    exact ⟨e, (Transition.refused hf hs hsp op hop e he).step_eq, hfirst⟩

/-- A result that is written one below the base, and an output from a base and an operand whose sum is
    negative. -/
theorem relative_access_written_and_refused :
    let m := (ofProgram [109, 10, 21101, 2, 3, -1, 99]).step.1
    let m' := (ofProgram [109, -5, 204, 1, 99]).step.1
    (∃ w, m.step.1.lastWrite = some 9 ∧
      ∀ b, m.step.1.memory.load b = if b = 9 then w else m.memory.load b) ∧
    m'.step = ({ m' with steps := 2, fault := some (.address (-4) 2) }, .error (.address (-4) 2)) := by
  intro m m'
  have hm : m.Constructible := ⟨[109, 10, 21101, 2, 3, -1, 99], [], [.step], .cons _ _ _ _ _ .step (.none _)⟩
  have hm' : m'.Constructible := ⟨[109, -5, 204, 1, 99], [], [.step], .cons _ _ _ _ _ .step (.none _)⟩
  have hstep : m.step.2 = .ok .executed := by decide +kernel
  have hsum : m.relativeSum .third = 9 := by decide +kernel
  have hsum' : m'.relativeSum .first = -4 := by decide +kernel
  obtain ⟨a, hexact, -, -, hwrites⟩ := ((relative_access hm).1 .add .third (by decide +kernel) (by decide)
    (by decide +kernel)).1 (by rw [hsum]; decide)
  obtain rfl : a = 9 := by
    have ha := hexact (by rw [hsum]; decide)
    omega
  obtain ⟨e, he, hfirst⟩ := ((relative_access hm').1 .output .first (by decide +kernel) (by decide)
    (by decide +kernel)).2 (by rw [hsum']; decide) (by decide +kernel) (by decide +kernel) (by decide +kernel)
  obtain rfl : e = .address (-4) 2 := hfirst fun q hq => absurd hq (Nat.not_lt_zero _)
  exact ⟨hwrites rfl (by decide +kernel) m.step.1 (.step _ _ (Prod.ext rfl hstep) nofun), he⟩

/-- **Past the last cell the access is not exact**: with the base at the last cell, an output reads that
    cell from one past it, instead of a fault; and the operands 0 and 1 name one address. -/
theorem relative_access_past_last :
    let m := (ofProgram [109, 9223372036854775807, 204, 1, 99]).step.1
    m.Constructible ∧ m.instruction.op? = some .output ∧ m.instruction.mode .first = .relative ∧
      m.relativeSum .first = Word.maxInt + 1 ∧ m.step.2 = .ok (.output 0) ∧
      Mode.relative.target 0 m.base = .ok 9223372036854775807 ∧
      Mode.relative.target 1 m.base = .ok 9223372036854775807 := by
  intro m
  exact ⟨⟨[109, 9223372036854775807, 204, 1, 99], [], [.step], .cons _ _ _ _ _ .step (.none _)⟩,
    by decide +kernel, by decide +kernel, by decide +kernel, by decide +kernel,
    by decide +kernel, by decide +kernel⟩

end Machine

end WordMachine
