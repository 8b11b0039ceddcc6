import Mathlib.Control.Monad.Basic
import WordMachine.Proofs.Contract
import WordMachine.Proofs.Timeline

/-!
# The end of a recording

A recording is a run of the machine with a snapshot after each instruction. It ends when the run ends, or
when there is no room for the next snapshot. This file says how long that may take, and what the last
snapshot shows then; the recorder may have recorded before, any number of times.

* `Machine.Consistent.failed_turn` -- a turn that fails leaves everything that a snapshot shows but the
  status, and its fault names the instruction that the machine stands at;
* `Recorder.Way.machine` -- a turn of a recording leaves the machine that a turn of the run leaves. So a
  recording keeps what steps and answers keep (`Session.preserved`);
* `Recorder.Tracks` -- before every turn the machine is one of the run, the last snapshot is that of this
  machine, and each instruction that was executed has been paid for with bytes;
* `Recorder.Concluded` -- what this comes to at the end (`concluded_of_run`);
* `Recorder.recording_ends` -- so every recording ends, within the instructions that the bytes allow;
* `Recorder.last_snapshot_at_fault` -- and if it fails at an instruction, its last snapshot shows the
  machine just before that instruction.
-/

namespace WordMachine

variable {σ : Type}

/-! ## 1. Turns of the run -/

namespace Machine

variable {m m' : Machine} {c c' : Channel σ}

theorem steps_step_le (m : Machine) : m.step.1.steps ≤ m.steps + 1 := by
  have ht := m.transition
  generalize m.step.1 = m' at ht ⊢
  generalize m.step.2 = r at ht
  cases ht with
  | stopped | halted | waiting | resumed | unwritable | spent | unknown => exact Nat.le_succ _
  | refused => exact Nat.le_refl _
  | performed hf hs hsp op hop eff he => exact Nat.le_of_eq (steps_apply _ eff).1

/-- A turn executes at most one instruction. -/
theorem steps_turn_le (m : Machine) (c : Channel σ) :
    (leaves (runTurn (m, c))).1.1.steps ≤ m.steps + 1 := by
  have hle := m.steps_step_le
  have hd := drive m c
  generalize runTurn (m, c) = t at hd ⊢
  cases hd with
  | executed m' hm | emitted m' w hm | halted m' hm | failed m' e hm | unavailable m' hm
  | unanswered m' hm =>
    rw [hm] at hle
    exact hle
  | answered m' hm c' answer hc m'' hs | refused m' hm c' answer hc m'' e hs =>
    have hsteps := eq_of_supply (m := m') steps (fun _ _ => rfl) rfl answer
    rw [hs] at hsteps
    rw [hm] at hle
    exact Nat.le_trans (Nat.le_of_eq hsteps) hle

/-- **A turn that fails changes next to nothing**: a machine that has asked waits, and an instruction may
    have been counted or a fault kept. The fault that the turn shows names the instruction that the
    machine stands at. -/
theorem Consistent.failed_turn {e : Fault} (hm : m.Consistent)
    (h : leaves (runTurn (m, c)) = ((m', c'), .error e)) :
    m' = { m with steps := m'.steps, status := m'.status, fault := m'.fault } ∧
      e.pc? = some m.pc := by
  have hd := drive m c
  generalize runTurn (m, c) = t at hd h
  cases hd with
  | executed | emitted | halted | answered => cases h
  | failed m₁ e₁ hstep =>
    cases h
    have hkept := hm.step.stopped
    rw [hstep] at hkept
    obtain ⟨-, hpc⟩ := hkept e (hm.fault_of_step_error hstep)
    obtain ⟨heq, -⟩ := hm.failed hstep
    rw [heq] at hpc ⊢
    exact ⟨rfl, hpc⟩
  | unavailable m₁ hstep c₁ hc | unanswered m₁ hstep c₁ message hc =>
    cases h
    obtain ⟨heq, -⟩ := hm.asks hstep
    rw [heq]
    exact ⟨rfl, rfl⟩
  | refused m₁ hstep c₁ answer hc m₂ e₁ hsupply =>
    -- a consistent machine that asks takes the answer
    have hok := hm.supply_ok_of_needsInput hstep answer
    rw [hsupply] at hok
    cases hok

end Machine

namespace Recorder

open Machine

variable {r r' : Recorder} {m : Machine} {c c₀ : Channel σ} {bytes : Nat}

/-! ## 2. The machine of a recorder -/

/-- **A turn of a recording leaves the machine that a turn of the run leaves.** -/
theorem Way.machine {t : Turn (Recording σ) (Recording σ × Except Fault Unit)} (h : Way r c t) :
    (leftBy t).machine = (leaves (runTurn (r.machine, c))).1.1 := by
  cases h with
  | failed m' c' e h | full m' c' h | halted m' c' h | more m' c' h =>
    rw [h]
    rfl

theorem close_machine (o : Recording σ × Except Fault Unit) :
    (close o).1.1.machine = o.1.1.machine := by
  obtain ⟨⟨r, c⟩, e | u⟩ := o <;> rfl

/-- A recording keeps what the steps and the answers of a machine keep. -/
theorem preserved_of_run {P : Machine → Prop} (hP : Preserved P)
    {o : Recording σ × Except Fault Unit} (hrun : r.run c = some o) (h : P r.machine) :
    P o.1.1.machine := by
  obtain ⟨o', rfl, ho⟩ := kept_of_run hrun (Q := fun r => P r.machine) h (fun _ => h)
    fun r c t hr hway => by
      rw [hway.machine]
      exact hP.drive (drive r.machine c) hr
  rw [close_machine]
  exact ho

theorem Session.preserved {P : Machine → Prop} (hP : Preserved P) {ops : List Operation}
    (hs : Session r ops r') (horder : r.InOrder bytes) (h : P r.machine) : P r'.machine := by
  induction hs with
  | none r => exact h
  | cons r r' r'' op ops hd _ ih =>
    refine ih (hd.keeps horder).1 ?_
    cases op with
    | run c =>
      cases hd with
      | run c r' c' result hrun => exact preserved_of_run hP hrun h
    | forward | backward | toStart | toEnd =>
      rw [(hd.walks horder nofun).same]
      exact h

/-! ## 3. Recordings under way -/

/-- **A recording tracks the run** from `m` and `c`. -/
structure Tracks (m : Machine) (c : Channel σ) (s : Recording σ) : Prop where
  /-- The machine at hand is one of the run. -/
  reached : Turn.Reaches runTurn (m, c) (s.1.machine, s.2)
  /-- The last snapshot is that of the machine at hand. -/
  last : s.1.history.snapshots.back? = some (Snapshot.capture s.1.machine (s.1.total - 1))
  /-- The first snapshot and each instruction executed since have taken some bytes. -/
  paid : (s.1.machine.steps + 1) * Snapshot.overhead ≤
    m.steps * Snapshot.overhead + s.1.history.usage

theorem back?_advanced (r : Recorder) (m : Machine) :
    (r.advanced m).history.snapshots.back? =
      some (Snapshot.capture m ((r.advanced m).total - 1)) := by
  rw [total_advanced]
  exact Array.back?_push

theorem total_pos_of_back? {s : Snapshot} (h : r.history.snapshots.back? = some s) : 0 < r.total := by
  rw [Array.back?_eq_getElem?] at h
  obtain ⟨hlt, -⟩ := Array.getElem?_eq_some_iff.1 h
  exact Nat.lt_of_le_of_lt (Nat.zero_le _) hlt

theorem usage_advanced (r : Recorder) (m : Machine) :
    r.history.usage + Snapshot.overhead ≤ (r.advanced m).history.usage :=
  Nat.add_le_add_left (overhead_le_size _) _

/-- One more snapshot pays for one more instruction. -/
theorem paid_advanced {paid : Nat} (h : m.steps * Snapshot.overhead ≤ paid + r.history.usage) :
    (m.steps + 1) * Snapshot.overhead ≤ paid + (r.advanced m).history.usage :=
  calc (m.steps + 1) * Snapshot.overhead
      = m.steps * Snapshot.overhead + Snapshot.overhead := Nat.succ_mul _ _
    _ ≤ paid + r.history.usage + Snapshot.overhead := Nat.add_le_add_right h _
    _ = paid + (r.history.usage + Snapshot.overhead) := Nat.add_assoc _ _ _
    _ ≤ paid + (r.advanced m).history.usage := Nat.add_le_add_left (usage_advanced r m) _

theorem tracks_start (r : Recorder) (c : Channel σ) :
    Tracks r.machine c (r.advanced r.machine, c) where
  reached := .start
  last := back?_advanced r r.machine
  paid := paid_advanced (Nat.le_add_right _ _)

/-- What the next turn executes has been paid for. -/
theorem Tracks.paid_turn {s : Recording σ} {m' : Machine} {c' : Channel σ} {result : Except Fault Unit}
    (h : Tracks m c s) (hleaves : leaves (runTurn (s.1.machine, s.2)) = ((m', c'), result)) :
    m'.steps * Snapshot.overhead ≤ m.steps * Snapshot.overhead + s.1.history.usage := by
  have hsteps := steps_turn_le s.1.machine s.2
  rw [hleaves] at hsteps
  exact Nat.le_trans (Nat.mul_le_mul_right Snapshot.overhead hsteps) h.paid

/-- **A turn that does not end a recording keeps track.** -/
theorem Tracks.turn {s s' : Recording σ} (h : Tracks m c s) (ht : turn s = .more s') :
    Tracks m c s' := by
  have hway := way s.1 s.2
  rw [ht] at hway
  cases hway with
  | more m' c' hleaves hroom hnot =>
    exact ⟨.step _ _ h.reached (more_of_leaves hleaves hnot), back?_advanced s.1 m',
      paid_advanced (h.paid_turn hleaves)⟩

/-- **How a recording ends**: there is no room for its first snapshot, or it has kept track up to a turn
    that ends it. -/
theorem tracked_of_run {o : Recording σ × Except Fault Unit} (hrun : r.run c = some o) :
    (r.history.hasRoomFor (Snapshot.capture r.machine r.total) = false ∧
      o = close ((r, c), .error (.snapshotLimit r.history.usage r.history.limit))) ∨
    ∃ s o', Tracks r.machine c s ∧ turn s = .done o' ∧ o = close o' :=
  last_turn_of_run hrun (fun _ => tracks_start r c) (fun _ _ hs ht => hs.turn ht)

/-! ## 4. Recordings that have ended -/

/-- **A recording has come to its end**: as the run does, or because there is no room for a snapshot of
    the machine as it is now. -/
structure Concluded (m : Machine) (c : Channel σ) (o : Recording σ × Except Fault Unit) : Prop where
  result : Turn.Ends runTurn (m, c) ((o.1.1.machine, o.1.2), o.2) ∨
    (o.2 = .error (.snapshotLimit o.1.1.history.usage o.1.1.history.limit) ∧
      o.1.1.history.hasRoomFor (Snapshot.capture o.1.1.machine o.1.1.total) = false)
  paid : o.1.1.machine.steps * Snapshot.overhead ≤ m.steps * Snapshot.overhead + o.1.1.history.usage

theorem Concluded.close {o : Recording σ × Except Fault Unit} (h : Concluded m c o) :
    Concluded m c (close o) := by
  obtain ⟨⟨r, c⟩, e | u⟩ := o
  · exact ⟨h.result, h.paid⟩
  · exact ⟨h.result, h.paid⟩

theorem Tracks.concluded {s : Recording σ} {o : Recording σ × Except Fault Unit} (h : Tracks m c s)
    (ho : Recorder.turn s = .done o) : Concluded m c o := by
  have hway := way s.1 s.2
  rw [ho] at hway
  cases hway with
  | failed m' c' e hleaves =>
    exact ⟨.inl (h.reached.ends (.of_done (done_of_leaves hleaves))), h.paid_turn hleaves⟩
  | full m' c' hleaves hroom => exact ⟨.inr ⟨rfl, hroom⟩, h.paid_turn hleaves⟩
  | halted m' c' hleaves hroom hs =>
    have hpaid := paid_advanced (h.paid_turn hleaves)
    exact ⟨.inl (h.reached.ends (ends_of_halted hleaves hs)),
      Nat.le_trans (Nat.mul_le_mul_right _ (Nat.le_succ _)) hpaid⟩

theorem concluded_of_run {o : Recording σ × Except Fault Unit} (hrun : r.run c = some o) :
    Concluded r.machine c o := by
  rcases tracked_of_run hrun with ⟨hroom, rfl⟩ | ⟨s, o', hs, ht, rfl⟩
  · exact ⟨.inr ⟨rfl, hroom⟩, Nat.le_add_right _ _⟩
  · exact (hs.concluded ht).close

/-- A first snapshot that is taken leaves a recording that ends within the turns that fill its history. -/
theorem isSome_of_record {first : Recorder} (horder : r.InOrder bytes)
    (h : r.record = (first, .ok ())) (c : Channel σ) :
    (Turn.run turn (bytes / 136 + 1) (first, c)).isSome = true := by
  cases hroom : r.history.hasRoomFor (Snapshot.capture r.machine r.total) with
  | false =>
    rw [record_of_full hroom] at h
    cases h
  | true =>
    rw [record_of_room hroom] at h
    cases h
    rw [← horder.limit]
    exact turns_isSome (r.advanced r.machine) c

/-- **Recording always ends.** Take the recorder of any machine, with `bytes` allowed for its history, after
    any recordings and walks, and any channel; no step limit is needed. Once the first snapshot is taken,
    the recording ends within `bytes / 136 + 1` turns, each of which executes an instruction; so the
    machine has counted at most so many instructions more. The result is that of the run of the machine
    through the channel, and then the machine and the channel are those at the end of that run; or it
    is the fault of the limit, which tells the bytes that are used and those allowed. The bytes used are
    those of the snapshots kept and no more than allowed, and one more snapshot, of the machine as it is
    now, would take more. -/
theorem recording_ends {ops : List Operation} (h : Session (ofMachine m bytes) ops r)
    (c : Channel σ) :
    (∀ first, r.record = (first, .ok ()) →
      ∃ executed, executed ≤ bytes / 136 + 1 ∧ (Turn.run turn executed (first, c)).isSome = true) ∧
    ∃ r' c' result, r.run c = some ((r', c'), result) ∧
      r'.machine.steps ≤ r.machine.steps + (bytes / 136 + 1) ∧
      ((∃ fuel, r.machine.run fuel c = some ((r'.machine, c'), result)) ∨
        ∃ current, result = .error (.snapshotLimit current bytes) ∧ current ≤ bytes ∧
          current = (r'.history.snapshots.toList.map Snapshot.size).sum ∧
          bytes < current + (Snapshot.capture r'.machine r'.total).size) := by
  have horder : r.InOrder bytes := (h.keeps (inOrder_ofMachine m bytes)).1
  refine ⟨fun first hfirst => ⟨_, Nat.le_refl _, isSome_of_record horder hfirst c⟩, ?_⟩
  obtain ⟨⟨⟨r', c'⟩, result⟩, hrun⟩ := Option.isSome_iff_exists.1 (run_isSome r c)
  obtain ⟨horder', -⟩ := keeps_of_run horder hrun
  obtain ⟨hresult, hpaid⟩ := concluded_of_run hrun
  refine ⟨r', c', result, hrun, ?_, hresult.imp_right ?_⟩
  · have hwithin := horder'.within
    rw [horder'.limit] at hwithin
    have hpaid : r'.machine.steps * 136 ≤ r.machine.steps * 136 + r'.history.usage := hpaid
    omega
  · rintro ⟨hfull, hroom⟩
    have hover : ¬ r'.history.usage + (Snapshot.capture r'.machine r'.total).size ≤ r'.history.limit :=
      of_decide_eq_false hroom
    have hwithin := horder'.within
    rw [horder'.limit] at hfull hover hwithin
    exact ⟨_, hfull, hwithin, horder'.usage, Nat.lt_of_not_le hover⟩

/-- A program that jumps to its start for ever. Its recording stops after the second jump, for whose
    snapshot there is no room. -/
theorem recording_ends_endless :
    let r := ofMachine (.ofProgram [1105, 1, 0]) 400
    (∀ fuel, r.machine.run fuel Channel.buffered = none) ∧
    ∃ r' c', r.run Channel.buffered = some ((r', c'), .error (.snapshotLimit 320 400)) ∧
      r'.machine.steps ≤ 3 ∧ (r'.history.snapshots.toList.map Snapshot.size).sum = 320 ∧
      400 < 320 + (Snapshot.capture r'.machine r'.total).size := by
  intro r
  have hop : r.machine.instruction.op? = some .jumpIfTrue := by decide +kernel
  have heffect : r.machine.effect r.machine.instruction .jumpIfTrue = .ok (.jump 0) := by decide +kernel
  have hturn : ∀ steps, runTurn ({ r.machine with steps }, Channel.buffered) =
      .more ({ r.machine with steps := steps + 1 }, Channel.buffered) := by
    intro steps
    have hstep := step_of_performed (m := { r.machine with steps }) rfl rfl rfl hop heffect rfl
    simp only [runTurn, hstep]
    rfl
  have hendless : ∀ fuel steps, Turn.run runTurn fuel ({ r.machine with steps }, Channel.buffered) = none := by
    intro fuel
    induction fuel with
    | zero => exact fun _ => rfl
    | succ fuel ih =>
      intro steps
      rw [Turn.run_succ, hturn]
      exact ih (steps + 1)
  have heval : (r.run Channel.buffered).any
      (fun o => decide ((o.1.1.history.snapshots.toList.map Snapshot.size).sum = 320)) = true := by
    decide +kernel
  obtain ⟨-, r', c', result, hrun, hsteps, hown | ⟨current, rfl, -, hsum, hover⟩⟩ :=
    recording_ends (.none r) Channel.buffered
  · obtain ⟨fuel, hfuel⟩ := hown
    cases (hendless fuel 0).symm.trans hfuel
  · obtain ⟨o, ho, hleft⟩ := (Option.any_eq_true ..).1 heval
    obtain rfl := Option.some.inj (hrun.symm.trans ho)
    have hcurrent : (r'.history.snapshots.toList.map Snapshot.size).sum = 320 := of_decide_eq_true hleft
    obtain rfl : current = 320 := hsum.trans hcurrent
    exact ⟨fun fuel => hendless fuel 0, r', c', hrun, hsteps, hcurrent, hover⟩

/-- **The last snapshot of a failed recording is where the fault happened.** Take the recorder of any
    reachable machine, after any recordings and walks. If a recording through some channel comes out with
    a fault that names an instruction, then there is a last snapshot, and it shows the address of that
    instruction and the memory, the base, the output, the inputs and the last write of the machine as it
    is left. It is the snapshot of the machine in that state of the run from which the next turn fails
    with this fault. -/
theorem last_snapshot_at_fault {ops : List Operation} {c' : Channel σ} {e : Fault} {p : Nat}
    (hm : m.Reachable) (h : Session (ofMachine m bytes) ops r)
    (hrun : r.run c = some ((r', c'), .error e)) (hpc : e.pc? = some p) :
    0 < r'.total ∧
    ∃ s, r'.history.snapshots.back? = some s ∧ s.pc = p ∧
      s.memory = r'.machine.memory ∧ s.base = r'.machine.base ∧ s.output = r'.machine.output ∧
      s.inputs = r'.machine.inputs ∧ s.lastWrite = r'.machine.lastWrite ∧
      ∃ before c₀, Turn.Reaches runTurn (r.machine, c) (before, c₀) ∧
        s = Snapshot.capture before (r'.total - 1) ∧
        runTurn (before, c₀) = .done ((r'.machine, c'), .error e) := by
  have hconsistent : r.machine.Consistent :=
    h.preserved preserved_consistent (inOrder_ofMachine m bytes) hm.consistent
  rcases tracked_of_run hrun with ⟨-, ho⟩ | ⟨s, o, hs, ht, ho⟩
  · cases ho
    cases hpc
  · have hway := way s.1 s.2
    rw [ht] at hway
    cases hway with
    | full =>
      cases ho
      cases hpc
    | halted => cases ho
    | failed m' c₁ e' hleaves =>
      cases ho
      have hbefore := preserved_consistent.reached hs.reached hconsistent
      obtain ⟨heq, hat⟩ := hbefore.failed_turn hleaves
      obtain rfl : s.1.machine.pc = p := Option.some.inj (hat.symm.trans hpc)
      exact ⟨total_pos_of_back? hs.last, _, hs.last, rfl, (congrArg Machine.memory heq).symm,
        (congrArg Machine.base heq).symm, (congrArg Machine.output heq).symm,
        (congrArg Machine.inputs heq).symm, (congrArg Machine.lastWrite heq).symm, s.1.machine, s.2,
        hs.reached, rfl, done_of_leaves hleaves⟩

/-- A recording that fails for want of an input, and a second one that is given it and goes on to a word
    that is no instruction. The last snapshot of each shows where. -/
theorem last_snapshot_at_fault_twice :
    let m := ofProgram [3, 0, 98]
    let c := Channel.ofProvider Replies.provider [.ok (.value 5)]
    ∃ r₁ c₁ r₂ c₂ s₁ s₂,
      (ofMachine m 4096).run Channel.buffered = some ((r₁, c₁), .error (.inputUnavailable 0)) ∧
      r₁.history.snapshots.back? = some s₁ ∧ s₁.pc = 0 ∧ s₁.memory = r₁.machine.memory ∧
      r₁.run c = some ((r₂, c₂), .error (.decode 98 2)) ∧
      r₂.history.snapshots.back? = some s₂ ∧ s₂.pc = 2 ∧ s₂.inputs = r₂.machine.inputs ∧
      r₂.machine.inputs = 1 := by
  intro m c
  have hm : m.Reachable := ⟨_, [], .none _⟩
  have heval : ((ofMachine m 4096).run Channel.buffered).any (fun o =>
      decide (o.2 = .error (.inputUnavailable 0)) && (o.1.1.run c).any fun o' =>
        decide (o'.2 = .error (.decode 98 2) ∧ o'.1.1.machine.inputs = 1)) = true := by decide +kernel
  obtain ⟨⟨⟨r₁, c₁⟩, result₁⟩, hrun₁, hleft₁⟩ := (Option.any_eq_true ..).1 heval
  obtain ⟨hresult₁, hrest⟩ := Bool.and_eq_true_iff.1 hleft₁
  obtain rfl : result₁ = .error (.inputUnavailable 0) := of_decide_eq_true hresult₁
  obtain ⟨⟨⟨r₂, c₂⟩, result₂⟩, hrun₂, hleft₂⟩ := (Option.any_eq_true ..).1 hrest
  obtain ⟨hresult₂, hinputs⟩ := of_decide_eq_true hleft₂
  obtain rfl : result₂ = .error (.decode 98 2) := hresult₂
  obtain ⟨-, s₁, hlast₁, hpc₁, hmemory, -⟩ := last_snapshot_at_fault hm (.none _) hrun₁ rfl
  have hsession : Session (ofMachine m 4096) [.run Channel.buffered] r₁ :=
    .cons _ _ _ _ _ (.run _ _ _ _ hrun₁) (.none _)
  obtain ⟨-, s₂, hlast₂, hpc₂, -, -, -, hinputs₂, -⟩ := last_snapshot_at_fault hm hsession hrun₂ rfl
  exact ⟨r₁, c₁, r₂, c₂, s₁, s₂, hrun₁, hlast₁, hpc₁, hmemory, hrun₂, hlast₂, hpc₂, hinputs₂, hinputs⟩

end Recorder

end WordMachine
