import WordMachine.Channel.Source
import WordMachine.Proofs.Lifecycle
import WordMachine.Proofs.Schedule
import WordMachine.Recorder

/-!
# Recording does not change the run

A recorder takes one instruction at a time, answers the input instructions itself and looks after each
one whether the machine has halted; `Machine.run` goes from request to request. This file shows that the
recorder sees the same machine.

* `Machine.afterInstructions` -- the states of a run, by the number of instructions executed;
* `Recorder.execute_eq` -- what the recorder executes is one turn of the run; `Recorder.Way` has what can
  come of it;
* `Recorder.Faithful` -- the snapshots are those of the run. `Recorder.UnderWay` holds of a recording
  before every turn (`UnderWay.turn`), `Recorder.Over` at its end (`UnderWay.over`);
* `Recorder.run_isSome` -- a recording always ends, since every snapshot takes some of the bytes allowed;
  `Recorder.last_turn_of_run` says how;
* `Recorder.recording_follows_run` -- of a fresh machine, all of this together.
-/

namespace WordMachine

variable {σ : Type}

/-! ## 1. The instructions of a run -/

namespace Machine

/-- **The state of a run after so many instructions**, an input instruction together with its answer.
    There is none after the machine has halted or an instruction has failed. -/
def afterInstructions (m : Machine) (c : Channel σ) : Nat → Option (Machine × Channel σ)
  | 0 => some (m, c)
  | k + 1 =>
    match afterInstructions m c k with
    | none => none
    | some s =>
      if s.1.isHalted then none
      else
        match leaves (runTurn s) with
        | (s', .ok ()) => some s'
        | (_, .error _) => none

/-- **A turn of a run is one instruction**, if the machine runs and does not fail. -/
theorem turn_of_running_ok {m m' : Machine} {c c' : Channel σ} (hf : m.fault = none)
    (hs : m.status = .running) (h : leaves (runTurn (m, c)) = ((m', c'), .ok ())) :
    m'.steps = m.steps + 1 ∧ m'.fault = none ∧ m'.status ≠ .awaitingInput := by
  have hd := drive m c
  generalize runTurn (m, c) = t at hd h
  cases hd with
  | executed m₁ hm | emitted m₁ w hm | halted m₁ hm =>
    obtain ⟨hsteps, hfault, hstatus⟩ := step_of_running_ok hf hs hm
    cases h
    refine ⟨hsteps, hfault, ?_⟩
    rw [hstatus]
    nofun
  | failed | unavailable | unanswered | refused => cases h
  | answered m₁ hm c₁ answer hc m₂ hsupply =>
    obtain ⟨hsteps, hfault, hstatus⟩ := step_of_running_ok hf hs hm
    obtain ⟨hsteps', hfault', hstatus'⟩ := supply_of_awaiting_ok hfault hstatus hsupply
    cases h
    exact ⟨hsteps'.trans hsteps, hfault', hstatus'⟩

/-- A turn that does not fail leaves a machine without a fault. -/
theorem fault_of_turn_ok {m : Machine} {c : Channel σ} {s : Machine × Channel σ}
    (h : leaves (runTurn (m, c)) = (s, .ok ())) : s.1.fault = none := by
  have hd := drive m c
  generalize runTurn (m, c) = t at hd h
  cases hd with
  | executed m₁ hm | emitted m₁ w hm | halted m₁ hm =>
    cases h
    exact (fault_of_step_ok hm).2
  | failed | unavailable | unanswered | refused => cases h
  | answered m₁ hm c₁ answer hc m₂ hsupply =>
    cases h
    obtain ⟨hfault, hstatus⟩ := awaiting_of_needsInput hm
    exact (supply_of_awaiting_ok hfault hstatus hsupply).2.1

/-- A run that a turn ends well ends with a machine that has halted. -/
theorem halted_of_done {m : Machine} {c : Channel σ} {s : Machine × Channel σ}
    (h : runTurn (m, c) = .done (s, .ok ())) : s.1.status = .halted := by
  have hd := drive m c
  rw [h] at hd
  generalize ht : Turn.done (s, Except.ok ()) = t at hd
  cases hd with
  | executed | emitted | failed | unavailable | unanswered | answered | refused => cases ht
  | halted m' hm =>
    cases ht
    exact (count_of_step hm).1

/-- A turn that fails is the last. -/
theorem done_of_leaves {m : Machine} {c : Channel σ} {s : Machine × Channel σ} {e : Fault}
    (h : leaves (runTurn (m, c)) = (s, .error e)) : runTurn (m, c) = .done (s, .error e) := by
  cases ht : runTurn (m, c) with
  | more s' =>
    rw [ht] at h
    cases h
  | done o =>
    rw [ht] at h
    exact congrArg Turn.done h

/-- A turn that does not fail and leaves a machine that has not halted is not the last. -/
theorem more_of_leaves {m : Machine} {c : Channel σ} {s : Machine × Channel σ}
    (h : leaves (runTurn (m, c)) = (s, .ok ())) (hs : s.1.status ≠ .halted) :
    runTurn (m, c) = .more s := by
  cases ht : runTurn (m, c) with
  | more s' =>
    rw [ht] at h
    exact congrArg Turn.more (congrArg Prod.fst h)
  | done o =>
    rw [ht] at h
    obtain rfl : o = (s, .ok ()) := h
    exact absurd (halted_of_done ht) hs

/-- The run of a machine that a turn has left halted is over, whether the turn has ended it or not. -/
theorem ends_of_halted {m m' : Machine} {c c' : Channel σ}
    (h : leaves (runTurn (m, c)) = ((m', c'), .ok ())) (hs : m'.status = .halted) :
    Turn.Ends runTurn (m, c) ((m', c'), .ok ()) := by
  have hf : m'.fault = none := fault_of_turn_ok h
  cases ht : runTurn (m, c) with
  | done r =>
    rw [ht] at h
    cases h
    exact .of_done ht
  | more s =>
    rw [ht] at h
    cases h
    exact .of_more ht ⟨1, (Ended.halted hf hs).run 0 c'⟩

end Machine

/-! ## 2. One turn of a recording -/

namespace Recorder

open Machine

/-- **What the recorder executes is one turn of the run.** -/
theorem execute_eq (r : Recorder) (c : Channel σ) :
    r.execute c = (({ r with machine := (leaves (runTurn (r.machine, c))).1.1 },
      (leaves (runTurn (r.machine, c))).1.2), (leaves (runTurn (r.machine, c))).2) := by
  rcases hstep : r.machine.step with ⟨m', e | s⟩
  · simp only [execute, runTurn, hstep, leaves]
  · cases s with
    | executed | output | halted => simp only [execute, runTurn, hstep, leaves]
    | needsInput =>
      simp only [execute, runTurn, hstep]
      rcases m'.answerFrom c with ⟨⟨m'', c'⟩, e | u⟩ <;> rfl

/-- The recorder with a machine in place of its own, and a snapshot of it. -/
def advanced (r : Recorder) (m : Machine) : Recorder :=
  { r with machine := m, history := r.history.push (Snapshot.capture m r.total) }

variable {r : Recorder} {c c' : Channel σ} {m' : Machine}

theorem record_of_room (h : r.history.hasRoomFor (Snapshot.capture r.machine r.total) = true) :
    r.record = (r.advanced r.machine, .ok ()) := if_pos h

theorem record_of_full (h : r.history.hasRoomFor (Snapshot.capture r.machine r.total) = false) :
    r.record = (r, .error (.snapshotLimit r.history.usage r.history.limit)) :=
  if_neg (Bool.eq_false_iff.1 h)

/-- **The ways of a turn** of a recording. -/
inductive Way (r : Recorder) (c : Channel σ) :
    Turn (Recording σ) (Recording σ × Except Fault Unit) → Prop where
  /-- The instruction fails, or its request is not answered. -/
  | failed (m' : Machine) (c' : Channel σ) (e : Fault)
      (h : leaves (runTurn (r.machine, c)) = ((m', c'), .error e)) :
      Way r c (.done (({ r with machine := m' }, c'), .error e))
  /-- There is no room for the snapshot. -/
  | full (m' : Machine) (c' : Channel σ) (h : leaves (runTurn (r.machine, c)) = ((m', c'), .ok ()))
      (hroom : r.history.hasRoomFor (Snapshot.capture m' r.total) = false) :
      Way r c (.done (({ r with machine := m' }, c'),
        .error (.snapshotLimit r.history.usage r.history.limit)))
  /-- The machine has halted. -/
  | halted (m' : Machine) (c' : Channel σ) (h : leaves (runTurn (r.machine, c)) = ((m', c'), .ok ()))
      (hroom : r.history.hasRoomFor (Snapshot.capture m' r.total) = true) (hs : m'.status = .halted) :
      Way r c (.done ((r.advanced m', c'), .ok ()))
  /-- The recording goes on. -/
  | more (m' : Machine) (c' : Channel σ) (h : leaves (runTurn (r.machine, c)) = ((m', c'), .ok ()))
      (hroom : r.history.hasRoomFor (Snapshot.capture m' r.total) = true) (hs : m'.status ≠ .halted) :
      Way r c (.more (r.advanced m', c'))

/-- **A turn goes one of the ways.** -/
theorem way (r : Recorder) (c : Channel σ) : Way r c (turn (r, c)) := by
  rcases h : leaves (runTurn (r.machine, c)) with ⟨⟨m', c'⟩, e | u⟩
  · simp only [turn, execute_eq, h]
    exact .failed m' c' e h
  · cases hroom : r.history.hasRoomFor (Snapshot.capture m' r.total) with
    | false =>
      simp only [turn, execute_eq, h, record_of_full (r := { r with machine := m' }) hroom]
      exact .full m' c' h hroom
    | true =>
      simp only [turn, execute_eq, h, record_of_room (r := { r with machine := m' }) hroom]
      split
      · next hs => exact .halted m' c' h hroom (of_decide_eq_true hs)
      · next hs => exact .more m' c' h hroom fun hs' => hs (decide_eq_true hs')

/-! ## 3. Snapshots -/

/-- **The history is that of the run**: the snapshot of each index is that of the run after so many
    instructions, as the machine itself counts them. -/
def Faithful (m : Machine) (c : Channel σ) (r : Recorder) : Prop :=
  ∀ k < r.total, ∃ s, m.afterInstructions c k = some s ∧ s.1.steps = k ∧
    r.history.get? k = some (Snapshot.capture s.1 k)

theorem total_advanced (r : Recorder) (m : Machine) : (r.advanced m).total = r.total + 1 :=
  Array.size_push _

/-- One more snapshot, of the state after one more instruction. -/
theorem Faithful.advanced {m : Machine} {c : Channel σ} (h : r.Faithful m c) {s : Machine × Channel σ}
    (hs : m.afterInstructions c r.total = some s) (hsteps : s.1.steps = r.total) :
    (r.advanced s.1).Faithful m c := by
  intro k hk
  rw [total_advanced] at hk
  have hget : (r.advanced s.1).history.get? k =
      if k = r.total then some (Snapshot.capture s.1 r.total) else r.history.get? k :=
    Array.getElem?_push
  rw [hget]
  by_cases heq : k = r.total
  · subst heq
    exact ⟨s, hs, hsteps, if_pos rfl⟩
  · rw [if_neg heq]
    exact h k (by omega)

/-- **A recording under way**: the machine stands where the run is after the instructions recorded, and
    what the run comes to from there it comes to from the start. -/
structure UnderWay (m : Machine) (c : Channel σ) (s : Recording σ) : Prop where
  fault : s.1.machine.fault = none
  status : s.1.machine.status = .running
  total : s.1.total = s.1.machine.steps + 1
  here : m.afterInstructions c s.1.machine.steps = some (s.1.machine, s.2)
  onward : ∀ x, Turn.Ends runTurn (s.1.machine, s.2) x → Turn.Ends runTurn (m, c) x
  faithful : s.1.Faithful m c

/-- **A recording that has ended**: with a full history, or as the run ends. -/
structure Over (m : Machine) (c : Channel σ) (o : Recording σ × Except Fault Unit) : Prop where
  result : (∃ used limit, o.2 = .error (.snapshotLimit used limit)) ∨
    Turn.Ends runTurn (m, c) ((o.1.1.machine, o.1.2), o.2)
  total : o.2 = .ok () → o.1.1.total = o.1.1.machine.steps + 1
  faithful : o.1.1.Faithful m c

variable {m : Machine} {c₀ : Channel σ}

theorem UnderWay.not_halted (h : UnderWay m c₀ (r, c)) : r.machine.isHalted = false := by
  unfold isHalted
  rw [h.status]
  rfl

/-- The state after the next instruction is what the next turn leaves. -/
theorem UnderWay.next (h : UnderWay m c₀ (r, c))
    (ht : leaves (runTurn (r.machine, c)) = ((m', c'), .ok ())) :
    m.afterInstructions c₀ r.total = some (m', c') ∧ m'.steps = r.total := by
  obtain ⟨hsteps, -, -⟩ := turn_of_running_ok h.fault h.status ht
  have htotal : r.total = r.machine.steps + 1 := h.total
  have hhere : m.afterInstructions c₀ r.machine.steps = some (r.machine, c) := h.here
  refine ⟨?_, hsteps.trans htotal.symm⟩
  simp only [htotal, afterInstructions, hhere, h.not_halted, Bool.false_eq_true, if_false, ht]

/-- A recording that a turn ends. -/
theorem UnderWay.over (h : UnderWay m c₀ (r, c)) {o : Recording σ × Except Fault Unit}
    (ho : turn (r, c) = .done o) : Over m c₀ o := by
  have hway := way r c
  rw [ho] at hway
  generalize ht : Turn.done o = t at hway
  cases hway with
  | more => cases ht
  | failed m' c' e hleaves =>
    cases ht
    exact ⟨.inr (h.onward _ (.of_done (done_of_leaves hleaves))), nofun, h.faithful⟩
  | full =>
    cases ht
    exact ⟨.inl ⟨_, _, rfl⟩, nofun, h.faithful⟩
  | halted m' c' hleaves hroom hs =>
    cases ht
    obtain ⟨hnext, hcount⟩ := h.next hleaves
    refine ⟨.inr (h.onward _ (ends_of_halted hleaves hs)), fun _ => ?_,
      h.faithful.advanced hnext hcount⟩
    rw [total_advanced]
    exact congrArg (· + 1) hcount.symm

/-- **A turn that does not end a recording keeps it under way.** -/
theorem UnderWay.turn (h : UnderWay m c₀ (r, c)) {s : Recording σ} (hs : turn (r, c) = .more s) :
    UnderWay m c₀ s := by
  have hway := way r c
  rw [hs] at hway
  generalize ht : Turn.more s = t at hway
  cases hway with
  | failed | full | halted => cases ht
  | more m' c' hleaves hroom hnot =>
    cases ht
    obtain ⟨hnext, hcount⟩ := h.next hleaves
    obtain ⟨-, hfault, hstatus⟩ := turn_of_running_ok h.fault h.status hleaves
    have hrunning : m'.status = .running := by
      cases hm : m'.status with
      | running => rfl
      | awaitingInput => exact absurd hm hstatus
      | halted => exact absurd hm hnot
    refine ⟨hfault, hrunning, ?_, ?_,
      fun x hx => h.onward x (hx.of_more (more_of_leaves hleaves hnot)),
      h.faithful.advanced hnext hcount⟩
    · show (r.advanced m').total = m'.steps + 1
      rw [total_advanced, hcount]
    · show m.afterInstructions c₀ m'.steps = some (m', c')
      rw [hcount]
      exact hnext

/-! ## 4. The end of a recording -/

theorem overhead_le_size (s : Snapshot) : Snapshot.overhead ≤ s.size := by
  unfold Snapshot.size
  omega

/-- The snapshots that there is room for at most: each takes the bytes of its overhead. -/
def roomLeft (r : Recorder) : Nat := (r.history.limit - r.history.usage) / Snapshot.overhead

theorem roomLeft_advanced {m : Machine}
    (hroom : r.history.hasRoomFor (Snapshot.capture m r.total) = true) :
    (r.advanced m).roomLeft < r.roomLeft := by
  have hfits : r.history.usage + (Snapshot.capture m r.total).size ≤ r.history.limit :=
    of_decide_eq_true hroom
  have hsize := overhead_le_size (Snapshot.capture m r.total)
  calc (r.advanced m).roomLeft
      < (r.history.limit - (r.history.usage + (Snapshot.capture m r.total).size) +
          Snapshot.overhead) / Snapshot.overhead := by
        rw [Nat.add_div_right _ (by decide)]
        exact Nat.lt_succ_self _
    _ ≤ r.roomLeft := Nat.div_le_div_right (by omega)

/-- Recording ends within the turns that fill a history, whatever is in it: each turn that goes on takes
    some of the room. -/
theorem turns_isSome (r : Recorder) (c : Channel σ) :
    (Turn.run turn r.turnsWithin (r, c)).isSome = true := by
  refine Turn.run_isSome_of_rank (fun s => s.1.roomLeft) (P := fun _ => True) ?_ trivial ?_
  · intro s s' _ ht
    have hway := way s.1 s.2
    rw [ht] at hway
    cases hway with
    | more m' c' hleaves hroom => exact ⟨trivial, roomLeft_advanced hroom⟩
  · exact Nat.lt_succ_of_le (Nat.div_le_div_right (Nat.sub_le _ _))

/-- **A recording always ends.** -/
theorem run_isSome (r : Recorder) (c : Channel σ) : (r.run c).isSome := by
  unfold run
  cases hroom : r.history.hasRoomFor (Snapshot.capture r.machine r.total) with
  | false =>
    rw [record_of_full hroom]
    rfl
  | true =>
    rw [record_of_room hroom]
    simpa using turns_isSome (r.advanced r.machine) c

/-- **How a recording ends**: there is no room for its first snapshot, or some turn ends it, and then what
    the first snapshot brings about and every turn keeps holds before that turn. -/
theorem last_turn_of_run {o : Recording σ × Except Fault Unit} (h : r.run c = some o)
    {P : Recording σ → Prop}
    (start : r.history.hasRoomFor (Snapshot.capture r.machine r.total) = true →
      P (r.advanced r.machine, c))
    (more : ∀ s s', P s → turn s = .more s' → P s') :
    (r.history.hasRoomFor (Snapshot.capture r.machine r.total) = false ∧
      o = close ((r, c), .error (.snapshotLimit r.history.usage r.history.limit))) ∨
    ∃ s o', P s ∧ turn s = .done o' ∧ o = close o' := by
  unfold run at h
  cases hroom : r.history.hasRoomFor (Snapshot.capture r.machine r.total) with
  | false =>
    rw [record_of_full hroom] at h
    exact .inl ⟨rfl, (Option.some.inj h).symm⟩
  | true =>
    rw [record_of_room hroom] at h
    obtain ⟨o', ho', rfl⟩ := Option.map_eq_some_iff.1 h
    obtain ⟨s, hs, ht⟩ := Turn.run_invariant (P := P) (Q := fun o => ∃ s, P s ∧ turn s = .done o) more
      (fun s o hs ht => ⟨s, hs, ht⟩) ho' (start hroom)
    exact .inr ⟨s, o', hs, ht, rfl⟩

/-! ## 5. Fresh machines -/

/-- The first snapshot of a fresh machine sets a recording under way. -/
theorem underWay_start {m : Machine} (hf : m.fault = none) (hs : m.status = .running)
    (hsteps : m.steps = 0) (bytes : Nat) (c : Channel σ) :
    UnderWay m c ((ofMachine m bytes).advanced m, c) where
  fault := hf
  status := hs
  total := congrArg (· + 1) hsteps.symm
  here := by
    show m.afterInstructions c m.steps = some (m, c)
    rw [hsteps]
    rfl
  onward _ hx := hx
  faithful := by
    have hempty : (ofMachine m bytes).Faithful m c := nofun
    exact hempty.advanced (s := (m, c)) rfl hsteps

/-- How a recording has ended is kept beside the machine and its history. -/
theorem Over.close {o : Recording σ × Except Fault Unit} (h : Over m c₀ o) : Over m c₀ (close o) := by
  obtain ⟨⟨r, c⟩, e | u⟩ := o
  · exact ⟨h.result, h.total, h.faithful⟩
  · exact ⟨h.result, h.total, h.faithful⟩

/-- The recording of a fresh machine comes to its end as the run does, or with a full history. -/
theorem over_of_run {m : Machine} (hf : m.fault = none) (hs : m.status = .running)
    (hsteps : m.steps = 0) {bytes : Nat} {c : Channel σ} {o : Recording σ × Except Fault Unit}
    (h : (ofMachine m bytes).run c = some o) : Over m c o := by
  rcases last_turn_of_run h (P := UnderWay m c) (fun _ => underWay_start hf hs hsteps bytes c)
    (fun _ _ hway ht => hway.turn ht) with ⟨-, rfl⟩ | ⟨s, o', hway, ht, rfl⟩
  · exact ⟨.inl ⟨_, _, rfl⟩, nofun, nofun⟩
  · exact (hway.over ht).close

/-- **Recording does not change the run.** A recording of a fresh machine -- any memory, backlog, step
    limit and idle value, any channel, any number of bytes -- always ends. If it does not end with a full
    history, then the run of the same machine through the same channel ends, and it ends with the result,
    the machine and the channel of the recording: the same values have been passed on, and the same
    requests have been made. In any case the snapshot of each index has this index and the address, the
    base, the status, the memory, the output, the inputs and the last write of the machine of the run
    after so many instructions; and if the recording ends well, there is one snapshot more than the
    machine has counted instructions. -/
theorem recording_follows_run (memory : Memory) (backlog : List Word) (stepLimit : Option Nat)
    (idleInput : Word) (c : Channel σ) (bytes : Nat) :
    let m : Machine := { ofMemory memory with backlog, stepLimit, idleInput }
    ∃ r c' result, (ofMachine m bytes).run c = some ((r, c'), result) ∧
      ((∀ used limit, result ≠ .error (.snapshotLimit used limit)) →
        ∀ x, (∃ fuel, m.run fuel c = some x) ↔ x = ((r.machine, c'), result)) ∧
      (∀ k < r.total, ∃ s shot, m.afterInstructions c k = some s ∧ s.1.steps = k ∧
        r.history.get? k = some shot ∧ shot.index = k ∧ shot.pc = s.1.pc ∧ shot.base = s.1.base ∧
        shot.status = s.1.status ∧ shot.memory = s.1.memory ∧ shot.output = s.1.output ∧
        shot.inputs = s.1.inputs ∧ shot.lastWrite = s.1.lastWrite) ∧
      (result = .ok () → r.total = r.machine.steps + 1) := by
  intro m
  obtain ⟨⟨⟨r, c'⟩, result⟩, hrun⟩ := Option.isSome_iff_exists.1
    (run_isSome (ofMachine m bytes) c)
  have hover : Over m c ((r, c'), result) := over_of_run rfl rfl rfl hrun
  refine ⟨r, c', result, hrun, fun hlimit x => ?_, fun k hk => ?_, hover.total⟩
  · rcases hover.result with ⟨used, limit, he⟩ | hends
    · exact absurd he (hlimit used limit)
    · constructor
      · intro hx
        exact Turn.Ends.unique hx hends
      · rintro rfl
        exact hends
  · obtain ⟨s, hs, hsteps, hget⟩ := hover.faithful k hk
    exact ⟨s, _, hs, hsteps, hget, rfl, rfl, rfl, rfl, rfl, rfl, rfl, rfl⟩

/-- A recorded machine takes a value from its backlog, is given one when it asks, puts it out, and is
    ended at its third request. -/
theorem recording_follows_run_ended_at_request :
    let m : Machine := { ofMemory (.ofImage [3, 0, 3, 0, 4, 0, 3, 0]) with backlog := [5] }
    let c := Channel.ofProvider Replies.provider [.ok (.value 7)]
    ∃ r c', (ofMachine m 4096).run c = some ((r, c'), .ok ()) ∧
      (∃ fuel, m.run fuel c = some ((r.machine, c'), .ok ())) ∧
      r.total = 5 ∧ r.machine.steps = 4 ∧ c'.emitted = #[7] ∧ c'.requests = #[1, 2] ∧
      ∃ s shot, m.afterInstructions c 2 = some s ∧ r.history.get? 2 = some shot ∧ shot.index = 2 ∧
        (shot.pc = s.1.pc ∧ s.1.pc = 4) ∧ shot.base = s.1.base ∧ shot.status = s.1.status ∧
        (shot.memory = s.1.memory ∧ s.1.memory.load 0 = 7) ∧ shot.output = s.1.output ∧
        (shot.inputs = s.1.inputs ∧ s.1.inputs = 2) ∧
        (shot.lastWrite = s.1.lastWrite ∧ s.1.lastWrite = some 0) := by
  intro m c
  have heval : ((ofMachine m 4096).run c).any (fun o => decide (o.2.toOption = some () ∧
      o.1.1.total = 5 ∧ o.1.2.emitted = #[7] ∧ o.1.2.requests = #[1, 2])) = true := by decide +kernel
  obtain ⟨r, c', result, hrun, hsame, hsnapshots, htotal⟩ :=
    recording_follows_run (.ofImage [3, 0, 3, 0, 4, 0, 3, 0]) [5] none defaultIdleInput c 4096
  obtain ⟨o, ho, hleft⟩ := (Option.any_eq_true ..).1 heval
  obtain rfl : o = ((r, c'), result) := Option.some.inj (ho.symm.trans hrun)
  obtain ⟨hresult, hcount, hemitted, hrequests⟩ := of_decide_eq_true hleft
  obtain rfl : result = .ok () := by
    cases result with
    | error e => cases hresult
    | ok u => rfl
  have hsecond : (m.afterInstructions c 2).any (fun s => decide (s.1.pc = 4 ∧ s.1.memory.load 0 = 7 ∧
      s.1.inputs = 2 ∧ s.1.lastWrite = some 0)) = true := by decide +kernel
  obtain ⟨s, shot, hs, -, hget, hindex, hpc, hbase, hstatus, hmemory, houtput, hinputs, hlast⟩ :=
    hsnapshots 2 (by rw [hcount]; decide)
  obtain ⟨s', hs', hleft'⟩ := (Option.any_eq_true ..).1 hsecond
  obtain rfl : s = s' := Option.some.inj (hs.symm.trans hs')
  obtain ⟨hpc', hmemory', hinputs', hlast'⟩ := of_decide_eq_true hleft'
  have hsteps : r.machine.steps = 4 := Nat.succ.inj ((htotal rfl).symm.trans hcount)
  exact ⟨r, c', hrun, (hsame nofun _).2 rfl, hcount, hsteps, hemitted, hrequests, s, shot, hs, hget, hindex,
    ⟨hpc, hpc'⟩, hbase, hstatus, ⟨hmemory, hmemory'⟩, houtput, ⟨hinputs, hinputs'⟩, hlast, hlast'⟩

end Recorder

end WordMachine
