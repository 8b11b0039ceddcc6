import WordMachine.Proofs.RecordingEnd

/-!
# The live machine of a recorder

A recorder keeps its machine beside its history. An instruction is executed first and its snapshot is
taken afterwards; if there is no room for that snapshot, the instruction stays executed and what it has
put out has been passed on. This file says how far the machine and the history can come apart.

* `Snapshot.Shows` -- a snapshot shows a machine: everything but the status is the same;
* `Machine.shows_of_turn` -- a turn that does not fail and leaves the machine at its address changes
  nothing that a snapshot shows;
* `Recorder.live_machine` -- the last snapshot shows the live machine after every recording that is not
  ended by the limit; after one that is, the machine is one turn ahead of it.
-/

namespace WordMachine

variable {σ : Type}

/-! ## 1. What a snapshot shows -/

/-- **A snapshot shows a machine**, whatever the status of the two. -/
structure Snapshot.Shows (s : Snapshot) (m : Machine) : Prop where
  pc : s.pc = m.pc
  base : s.base = m.base
  memory : s.memory = m.memory
  output : s.output = m.output
  inputs : s.inputs = m.inputs
  lastWrite : s.lastWrite = m.lastWrite

theorem Snapshot.shows_capture (m : Machine) (index : Nat) : (capture m index).Shows m :=
  ⟨rfl, rfl, rfl, rfl, rfl, rfl⟩

/-- No snapshot shows the status, the count of instructions or the fault. -/
theorem Snapshot.shows_with (m : Machine) (status : Status) (steps : Nat) (fault : Option Fault)
    (index : Nat) : (capture m index).Shows { m with status, steps, fault } :=
  ⟨rfl, rfl, rfl, rfl, rfl, rfl⟩

/-- What shows a machine shows what a snapshot of that machine shows. -/
theorem Snapshot.Shows.trans {s : Snapshot} {m m' : Machine} {index : Nat} (h : s.Shows m)
    (h' : (capture m index).Shows m') : s.Shows m' :=
  ⟨h.pc.trans h'.pc, h.base.trans h'.base, h.memory.trans h'.memory, h.output.trans h'.output,
    h.inputs.trans h'.inputs, h.lastWrite.trans h'.lastWrite⟩

/-! ## 2. Turns that stay in place -/

namespace Machine

open Snapshot

variable {m m' : Machine} {c c' : Channel σ}

/-- Every effect but a jump moves the machine on or leaves it standing. -/
theorem shows_apply (m : Machine) (eff : Effect) (index : Nat) (h : (m.apply eff).1.pc = m.pc) :
    (capture m index).Shows (m.apply eff).1 := by
  cases eff with
  | store | emit | pass | moveBase => exact absurd h (Nat.ne_of_gt (Nat.lt_add_of_pos_right (Nat.succ_pos _)))
  | jump t => exact ⟨h.symm, rfl, rfl, rfl, rfl, rfl⟩
  | halt => exact shows_with m _ _ _ index
  | take a =>
    cases hb : m.backlog with
    | nil =>
      rw [apply_take_nil hb]
      exact shows_with m _ _ _ index
    | cons w rest =>
      rw [apply_take_cons hb] at h
      exact absurd h (Nat.ne_of_gt (Nat.lt_add_of_pos_right (Nat.succ_pos _)))

theorem shows_of_step {s : Step} (hs : m.step = (m', .ok s)) (index : Nat) (h : m'.pc = m.pc) :
    (capture m index).Shows m' := by
  have ht := m.transition
  rw [hs] at ht
  generalize hr : Except.ok s = r at ht
  cases ht with
  | stopped | unwritable | spent | unknown | refused => cases hr
  | halted | waiting => exact shows_capture _ index
  | resumed => exact absurd h (Nat.ne_of_gt (Nat.lt_add_of_pos_right (Nat.succ_pos _)))
  | performed hf hw hsp op hop eff he =>
    exact shows_apply { m with steps := m.steps + 1 } eff index h

theorem shows_supply (m : Machine) (answer : Answer) (index : Nat)
    (h : (m.supply answer).1.pc = m.pc) : (capture m index).Shows (m.supply answer).1 := by
  rcases m.supply_leaves answer with heq | ⟨a, w, heq⟩ | heq
  · rw [heq]
    exact shows_capture m index
  · rw [heq] at h
    exact absurd h (Nat.ne_of_gt (Nat.lt_add_of_pos_right (Nat.succ_pos _)))
  · rw [heq]
    exact shows_with m _ _ _ index

/-- **A turn that leaves the machine at its address** changes nothing that a snapshot shows. It has
    halted the machine, or it was a jump to the address of the jump. -/
theorem Consistent.shows_of_turn (hm : m.Consistent)
    (h : leaves (runTurn (m, c)) = ((m', c'), .ok ())) (index : Nat) (hpc : m'.pc = m.pc) :
    (capture m index).Shows m' := by
  have hd := drive m c
  generalize runTurn (m, c) = t at hd h
  cases hd with
  | failed | unavailable | unanswered | refused => cases h
  | executed m₁ hstep | emitted m₁ w hstep | halted m₁ hstep =>
    cases h
    exact shows_of_step hstep index hpc
  | answered m₁ hstep c₁ answer hc m₂ hsupply =>
    cases h
    obtain ⟨heq, -⟩ := hm.asks hstep
    have hstays : m₁.pc = m.pc := by rw [heq]
    have hanswered := shows_supply m₁ answer index
    rw [hsupply] at hanswered
    exact (shows_of_step hstep index hstays).trans (hanswered (hpc.trans hstays.symm))

end Machine

/-! ## 3. The live machine -/

namespace Recorder

open Machine

variable {m : Machine} {r r' : Recorder} {bytes : Nat} {c c' : Channel σ} {result : Except Fault Unit}

/-- **The live machine is at most one turn ahead of the history.** Take the recorder of any reachable
    machine, after any recordings and walks, and a recording through any channel that has taken a
    snapshot. If it is not ended by the limit, whether it came out well or with a fault, the last snapshot
    shows the machine as it is left. If it is ended by the limit, the last snapshot is that of the machine
    in a state of the run from which one more turn, which came out well, leads to the machine and the
    channel as they are left; for a snapshot after this turn there is no room. In any case the
    last snapshot shows the machine if and only if the two are at the same address. -/
theorem live_machine {ops : List Operation} (hm : m.Reachable) (h : Session (ofMachine m bytes) ops r)
    (hrun : r.run c = some ((r', c'), result)) (htaken : r.total < r'.total) :
    ∃ s, r'.history.snapshots.back? = some s ∧
      ((∀ used limit, result ≠ .error (.snapshotLimit used limit)) → s.Shows r'.machine) ∧
      (∀ used limit, result = .error (.snapshotLimit used limit) →
        ∃ before c₀, Turn.Reaches runTurn (r.machine, c) (before, c₀) ∧
          s = Snapshot.capture before (r'.total - 1) ∧
          leaves (runTurn (before, c₀)) = ((r'.machine, c'), .ok ()) ∧
          r'.history.hasRoomFor (Snapshot.capture r'.machine r'.total) = false) ∧
      (s.Shows r'.machine ↔ s.pc = r'.machine.pc) := by
  have hconsistent : r.machine.Consistent :=
    h.preserved preserved_consistent (inOrder_ofMachine m bytes) hm.consistent
  rcases tracked_of_run hrun with ⟨-, ho⟩ | ⟨⟨q, c₀⟩, o, hs, ht, ho⟩
  · cases ho
    exact absurd htaken (Nat.lt_irrefl _)
  · have hbefore : q.machine.Consistent := preserved_consistent.reached hs.reached hconsistent
    have hway := way q c₀
    rw [ht] at hway
    cases hway with
    | failed m' c₁ e hleaves =>
      cases ho
      obtain ⟨heq, hat⟩ := hbefore.failed_turn hleaves
      have hshows : (Snapshot.capture q.machine (q.total - 1)).Shows m' := by
        rw [heq]
        exact Snapshot.shows_with q.machine _ _ _ _
      refine ⟨_, hs.last, fun _ => hshows, ?_, ⟨Snapshot.Shows.pc, fun _ => hshows⟩⟩
      rintro used limit ⟨⟩
      cases hat
    | full m' c₁ hleaves hroom =>
      cases ho
      exact ⟨_, hs.last, fun hne => absurd rfl (hne _ _),
        fun _ _ _ => ⟨q.machine, c₀, hs.reached, rfl, hleaves, hroom⟩, Snapshot.Shows.pc,
        fun hpc => hbefore.shows_of_turn hleaves _ hpc.symm⟩
    | halted m' c₁ hleaves hroom hhalted =>
      cases ho
      have hshows := Snapshot.shows_capture m' ((q.advanced m').total - 1)
      exact ⟨_, back?_advanced q m', fun _ => hshows, nofun, Snapshot.Shows.pc, fun _ => hshows⟩

/-- A machine that puts out a value and halts, recorded to its end, and one that jumps to its own address
    until there is no room: both live machines are shown. -/
theorem live_machine_shown :
    let halting := ofMachine (.ofProgram [104, 7, 99]) 4096
    let standing := ofMachine (.ofProgram [1105, 1, 0]) 400
    (∃ r' c' s, halting.run Channel.buffered = some ((r', c'), .ok ()) ∧
      r'.history.snapshots.back? = some s ∧ s.Shows r'.machine ∧ r'.machine.output = #[7]) ∧
    ∃ r' c' s, standing.run Channel.buffered = some ((r', c'), .error (.snapshotLimit 320 400)) ∧
      r'.history.snapshots.back? = some s ∧ s.Shows r'.machine := by
  intro halting standing
  have hhalting : (halting.run Channel.buffered).any (fun o =>
      decide (o.2 = .ok () ∧ o.1.1.total = 3 ∧ o.1.1.machine.output = #[7])) = true := by decide +kernel
  have hstanding : (standing.run Channel.buffered).any (fun o =>
      decide (o.2 = .error (.snapshotLimit 320 400) ∧ o.1.1.total = 2 ∧ o.1.1.machine.pc = 0 ∧
        o.1.1.history.snapshots.back?.map Snapshot.pc = some 0)) = true := by decide +kernel
  obtain ⟨⟨⟨r₁, c₁⟩, result₁⟩, hrun₁, hleft₁⟩ := (Option.any_eq_true ..).1 hhalting
  obtain ⟨hresult₁, htotal₁, houtput⟩ := of_decide_eq_true hleft₁
  obtain rfl : result₁ = .ok () := hresult₁
  obtain ⟨⟨⟨r₂, c₂⟩, result₂⟩, hrun₂, hleft₂⟩ := (Option.any_eq_true ..).1 hstanding
  obtain ⟨hresult₂, htotal₂, hpc, hlast⟩ := of_decide_eq_true hleft₂
  obtain rfl : result₂ = .error (.snapshotLimit 320 400) := hresult₂
  obtain ⟨s₁, hs₁, hshown, -⟩ := live_machine ⟨_, [], .none _⟩ (.none halting) hrun₁
    (htotal₁ ▸ Nat.succ_pos 2)
  obtain ⟨s₂, hs₂, -, -, hiff⟩ := live_machine ⟨_, [], .none _⟩ (.none standing) hrun₂
    (htotal₂ ▸ Nat.succ_pos 1)
  have hat : s₂.pc = 0 := Option.some.inj (by rw [← hlast, hs₂]; rfl)
  exact ⟨⟨r₁, c₁, s₁, hrun₁, hs₁, hshown nofun, houtput⟩,
    r₂, c₂, s₂, hrun₂, hs₂, hiff.2 (hat.trans hpc.symm)⟩

/-- **The live machine runs ahead of its history** when the limit refuses the snapshot of an instruction
    that has been executed: here an output, which the channel has been given. -/
theorem live_machine_ahead :
    ∃ r' c' s, (ofMachine (.ofProgram [104, 7, 99]) 300).run Channel.buffered =
        some ((r', c'), .error (.snapshotLimit 160 300)) ∧
      r'.history.snapshots.back? = some s ∧ s.pc = 0 ∧ r'.machine.pc = 2 ∧ s.output = #[] ∧
      r'.machine.output = #[7] ∧ c'.emitted = #[7] ∧ ¬ s.Shows r'.machine := by
  have heval : ((ofMachine (.ofProgram [104, 7, 99]) 300).run Channel.buffered).any (fun o =>
      decide (o.2 = .error (.snapshotLimit 160 300) ∧ o.1.1.machine.pc = 2 ∧
        o.1.1.machine.output = #[7] ∧ o.1.2.emitted = #[7]) &&
      o.1.1.history.snapshots.back?.any fun s => decide (s.pc = 0 ∧ s.output = #[])) = true := by
    decide +kernel
  obtain ⟨⟨⟨r', c'⟩, result⟩, hrun, hleft⟩ := (Option.any_eq_true ..).1 heval
  obtain ⟨hmachine, hlast⟩ := Bool.and_eq_true_iff.1 hleft
  obtain ⟨hresult, hpc, houtput, hemitted⟩ := of_decide_eq_true hmachine
  obtain rfl : result = .error (.snapshotLimit 160 300) := hresult
  obtain ⟨s, hs, hsnapshot⟩ := (Option.any_eq_true ..).1 hlast
  obtain ⟨hspc, hsoutput⟩ := of_decide_eq_true hsnapshot
  refine ⟨r', c', s, hrun, hs, hspc, hpc, hsoutput, houtput, hemitted, fun hshows => ?_⟩
  cases hspc.symm.trans (hshows.pc.trans hpc)

end Recorder

end WordMachine
