import Mathlib.Algebra.GroupWithZero.Nat
import WordMachine.Proofs.Recording

/-!
# The history of a recorder

A recorder may record any number of runs, and its history may be walked before, between and after them.
The snapshots, the bytes that they take and the position of the walk are kept apart; this file says what
holds between them at every point.

* `Recorder.Operation`, `Recorder.Does`, `Recorder.Session` -- what can be done with a recorder, where one
  operation leads, and where any number of them lead;
* `Recorder.InOrder` -- the position is that of a snapshot if there is one, each snapshot has its own
  index, and the bytes counted are those of the snapshots and within the limit;
* `Recorder.Extends` -- the snapshots of one recorder are the first ones of another;
* `Recorder.Walks` -- only the position has moved;
* `Does.keeps`, `Session.keeps` -- every operation, and so every session, keeps the history in order and
  only adds to it;
* `Recorder.history_in_order` -- what this means at any point of any session, and that the two directions
  of the walk undo each other.
-/

namespace WordMachine.Recorder

variable {σ : Type} {r r' : Recorder}

/-! ## 1. Operations -/

/-- What can be done with a recorder. -/
inductive Operation : Type 1 where
  | run {σ : Type} (c : Channel σ)
  | forward
  | backward
  | toStart
  | toEnd

/-- The recorder after a walk: one that is refused leaves it as it is. -/
def walked (r : Recorder) : Except Edge Recorder → Recorder
  | .ok r' => r'
  | .error _ => r

/-- **One operation**: from a recorder to the one that it leaves. -/
inductive Does (r : Recorder) : Operation → Recorder → Prop where
  | run {σ : Type} (c : Channel σ) (r' : Recorder) (c' : Channel σ) (result : Except Fault Unit)
      (h : r.run c = some ((r', c'), result)) : Does r (.run c) r'
  | forward : Does r .forward (r.walked r.forward?)
  | backward : Does r .backward (r.walked r.backward?)
  | toStart : Does r .toStart r.toStart
  | toEnd : Does r .toEnd r.toEnd

/-- **A session**: operations one after the other. -/
inductive Session : Recorder → List Operation → Recorder → Prop where
  | none (r : Recorder) : Session r [] r
  | cons (r r' r'' : Recorder) (op : Operation) (ops : List Operation) (h : Does r op r')
      (hs : Session r' ops r'') : Session r (op :: ops) r''

/-- Every operation leads somewhere. -/
theorem exists_does (r : Recorder) (op : Operation) : ∃ r', Does r op r' := by
  cases op with
  | run c =>
    obtain ⟨⟨⟨r', c'⟩, result⟩, hrun⟩ := Option.isSome_iff_exists.1 (run_isSome r c)
    exact ⟨r', .run c r' c' result hrun⟩
  | forward => exact ⟨_, .forward⟩
  | backward => exact ⟨_, .backward⟩
  | toStart => exact ⟨_, .toStart⟩
  | toEnd => exact ⟨_, .toEnd⟩

/-! ## 2. Snapshots in order -/

/-- **A history is in order.** -/
structure InOrder (limit : Nat) (r : Recorder) : Prop where
  position : r.position < r.total ∨ (r.position = 0 ∧ r.total = 0)
  index : ∀ k s, r.history.get? k = some s → s.index = k
  usage : r.history.usage = (r.history.snapshots.toList.map Snapshot.size).sum
  within : r.history.usage ≤ r.history.limit
  limit : r.history.limit = limit

/-- **A history extends another one**: the snapshots that were there are there still, in their places. -/
structure Extends (r r' : Recorder) : Prop where
  snapshots : r.history.snapshots.toList <+: r'.history.snapshots.toList
  limit : r'.history.limit = r.history.limit

theorem Extends.refl (r : Recorder) : Extends r r := ⟨List.prefix_refl _, rfl⟩

theorem Extends.trans {r'' : Recorder} (h : Extends r r') (h' : Extends r' r'') : Extends r r'' :=
  ⟨h.snapshots.trans h'.snapshots, h'.limit.trans h.limit⟩

variable {limit : Nat}

theorem inOrder_ofMachine (m : Machine) (limit : Nat) : (ofMachine m limit).InOrder limit where
  position := .inr ⟨rfl, rfl⟩
  index := nofun
  usage := rfl
  within := Nat.zero_le _
  limit := rfl

/-- What a recorder knows besides its history and its position does not matter. -/
theorem InOrder.of_same (h : r.InOrder limit) (hh : r'.history = r.history)
    (hp : r'.position = r.position) : r'.InOrder limit := by
  obtain ⟨machine, history, position, fault, finished⟩ := r'
  obtain rfl : history = r.history := hh
  obtain rfl : position = r.position := hp
  exact ⟨h.position, h.index, h.usage, h.within, h.limit⟩

theorem Extends.of_same {r'' : Recorder} (h : Extends r r') (hh : r''.history = r'.history) :
    Extends r r'' := by
  refine ⟨?_, ?_⟩
  · rw [hh]
    exact h.snapshots
  · rw [hh]
    exact h.limit

theorem get?_advanced (r : Recorder) (m : Machine) (k : Nat) :
    (r.advanced m).history.get? k =
      if k = r.total then some (Snapshot.capture m r.total) else r.history.get? k :=
  Array.getElem?_push

/-- **One more snapshot** keeps the history in order if there is room for it. -/
theorem InOrder.advanced (h : r.InOrder limit) {m : Machine}
    (hroom : r.history.hasRoomFor (Snapshot.capture m r.total) = true) :
    (r.advanced m).InOrder limit where
  position := by
    have htotal := total_advanced r m
    have hposition : (r.advanced m).position = r.position := rfl
    rcases h.position with hlt | ⟨hzero, -⟩
    · omega
    · omega
  index k s hs := by
    rw [get?_advanced] at hs
    split at hs
    · rename_i hk
      obtain rfl := Option.some.inj hs
      exact hk.symm
    · exact h.index k s hs
  usage := by
    show r.history.usage + (Snapshot.capture m r.total).size = _
    simp [Recorder.advanced, History.push, h.usage]
  within := of_decide_eq_true hroom
  limit := h.limit

theorem extends_advanced (r : Recorder) (m : Machine) : Extends r (r.advanced m) := by
  refine ⟨?_, rfl⟩
  show _ <+: (r.history.snapshots.push _).toList
  rw [Array.toList_push]
  exact List.prefix_append _ _

/-! ## 3. Recording -/

/-- What a turn of a recording leaves, whether the recording goes on or not. -/
def leftBy : Turn (Recording σ) (Recording σ × Except Fault Unit) → Recorder
  | .more s => s.1
  | .done o => o.1.1

/-- **A turn of a recording** adds a snapshot to the history or leaves it as it is. -/
theorem Way.keeps {c : Channel σ} {t : Turn (Recording σ) (Recording σ × Except Fault Unit)}
    (hw : Way r c t) (h : r.InOrder limit) : (leftBy t).InOrder limit ∧ Extends r (leftBy t) := by
  cases hw with
  | failed | full => exact ⟨h.of_same rfl rfl, (Extends.refl r).of_same rfl⟩
  | halted m' c' hleaves hroom | more m' c' hleaves hroom =>
    exact ⟨h.advanced hroom, extends_advanced r m'⟩

theorem close_history (o : Recording σ × Except Fault Unit) :
    (close o).1.1.history = o.1.1.history ∧ (close o).1.1.position = o.1.1.position := by
  obtain ⟨⟨r, c⟩, e | u⟩ := o
  · exact ⟨rfl, rfl⟩
  · exact ⟨rfl, rfl⟩

/-- **What the first snapshot and every turn keep, a recording keeps**, but for how it is closed. -/
theorem kept_of_run {c : Channel σ} {o : Recording σ × Except Fault Unit} (hrun : r.run c = some o)
    {Q : Recorder → Prop} (here : Q r)
    (start : r.history.hasRoomFor (Snapshot.capture r.machine r.total) = true →
      Q (r.advanced r.machine))
    (turns : ∀ r (c : Channel σ) t, Q r → Way r c t → Q (leftBy t)) :
    ∃ o', o = close o' ∧ Q o'.1.1 := by
  have keeps (s : Recording σ) {t} (hs : Q s.1) (ht : turn s = t) : Q (leftBy t) := by
    subst ht
    exact turns s.1 s.2 _ hs (way s.1 s.2)
  rcases last_turn_of_run hrun (P := fun s => Q s.1) start (fun s _ hs ht => keeps s hs ht) with
    ⟨-, ho⟩ | ⟨s, o', hs, ht, ho⟩
  · exact ⟨_, ho, here⟩
  · exact ⟨o', ho, keeps s hs ht⟩

/-- **A recording keeps the history in order** and only adds to it, however it ends. -/
theorem keeps_of_run {c c' : Channel σ} {result : Except Fault Unit} (h : r.InOrder limit)
    (hrun : r.run c = some ((r', c'), result)) : r'.InOrder limit ∧ Extends r r' := by
  obtain ⟨o, hclose, horder, hextends⟩ :=
    kept_of_run hrun (Q := fun r' => r'.InOrder limit ∧ Extends r r') ⟨h, .refl r⟩
      (fun hroom => ⟨h.advanced hroom, extends_advanced r r.machine⟩)
      fun r' c t ⟨horder, hextends⟩ hway =>
        ⟨(hway.keeps horder).1, hextends.trans (hway.keeps horder).2⟩
  obtain ⟨hhistory, hposition⟩ := close_history o
  rw [← hclose] at hhistory hposition
  exact ⟨horder.of_same hhistory hposition, hextends.of_same hhistory⟩

/-! ## 4. Walking -/

theorem forward?_eq_ok_iff : r.forward? = .ok r' ↔
    r.position + 1 < r.total ∧ r' = { r with position := r.position + 1 } := by
  unfold forward?
  split
  · rename_i hlt
    exact ⟨fun h => ⟨hlt, (Except.ok.inj h).symm⟩, fun h => congrArg Except.ok h.2.symm⟩
  · rename_i hge
    exact ⟨nofun, fun h => absurd h.1 hge⟩

theorem backward?_eq_ok_iff : r.backward? = .ok r' ↔
    r.position ≠ 0 ∧ r' = { r with position := r.position - 1 } := by
  unfold backward?
  split
  · rename_i hzero
    exact ⟨nofun, fun h => absurd hzero h.1⟩
  · rename_i hne
    exact ⟨fun h => ⟨hne, (Except.ok.inj h).symm⟩, fun h => congrArg Except.ok h.2.symm⟩

/-- A way back from every step forward. -/
theorem backward?_of_forward? (h : r.forward? = .ok r') : r'.backward? = .ok r := by
  obtain ⟨-, rfl⟩ := forward?_eq_ok_iff.1 h
  exact backward?_eq_ok_iff.2 ⟨Nat.succ_ne_zero _, rfl⟩

/-- A way forward from every step back, since the walk started at a snapshot. -/
theorem InOrder.forward?_of_backward? (hr : r.InOrder limit) (h : r.backward? = .ok r') :
    r'.forward? = .ok r := by
  obtain ⟨hne, rfl⟩ := backward?_eq_ok_iff.1 h
  have hpred : r.position - 1 + 1 = r.position := Nat.succ_pred hne
  refine forward?_eq_ok_iff.2 ⟨?_, ?_⟩
  · show r.position - 1 + 1 < r.total
    rcases hr.position with hlt | ⟨hzero, -⟩
    · omega
    · exact absurd hzero hne
  · show r = { r with position := r.position - 1 + 1 }
    rw [hpred]

/-- **A walk moves the position only**: to that of a snapshot, if there is one. -/
structure Walks (r r' : Recorder) : Prop where
  same : r' = { r with position := r'.position }
  position : r'.position < r.total ∨ (r'.position = 0 ∧ r.total = 0)

theorem InOrder.walks_self (h : r.InOrder limit) : Walks r r := ⟨rfl, h.position⟩

theorem InOrder.walks_forward (h : r.InOrder limit) : Walks r (r.walked r.forward?) := by
  cases hf : r.forward? with
  | error e => exact h.walks_self
  | ok r' =>
    obtain ⟨hlt, rfl⟩ := forward?_eq_ok_iff.1 hf
    exact ⟨rfl, .inl hlt⟩

theorem InOrder.walks_backward (h : r.InOrder limit) : Walks r (r.walked r.backward?) := by
  cases hb : r.backward? with
  | error e => exact h.walks_self
  | ok r' =>
    obtain ⟨hne, rfl⟩ := backward?_eq_ok_iff.1 hb
    refine ⟨rfl, .inl ?_⟩
    show r.position - 1 < r.total
    rcases h.position with hlt | ⟨hzero, -⟩
    · omega
    · exact absurd hzero hne

theorem walks_toStart (r : Recorder) : Walks r r.toStart := by
  refine ⟨rfl, ?_⟩
  show 0 < r.total ∨ (0 = 0 ∧ r.total = 0)
  omega

theorem walks_toEnd (r : Recorder) : Walks r r.toEnd := by
  refine ⟨rfl, ?_⟩
  show r.total - 1 < r.total ∨ (r.total - 1 = 0 ∧ r.total = 0)
  omega

theorem Walks.keeps (hw : Walks r r') (h : r.InOrder limit) : r'.InOrder limit ∧ Extends r r' := by
  obtain ⟨hsame, hposition⟩ := hw
  rw [hsame]
  exact ⟨⟨hposition, h.index, h.usage, h.within, h.limit⟩, List.prefix_refl _, rfl⟩

/-! ## 5. Sessions -/

/-- Every operation but a recording is a walk. -/
theorem Does.walks {op : Operation} (hd : Does r op r') (h : r.InOrder limit)
    (hwalk : ∀ {σ : Type} (c : Channel σ), op ≠ .run c) : Walks r r' := by
  cases hd with
  | run c => exact absurd rfl (hwalk c)
  | forward => exact h.walks_forward
  | backward => exact h.walks_backward
  | toStart => exact walks_toStart r
  | toEnd => exact walks_toEnd r

/-- **Every operation keeps the history in order** and only adds to it. -/
theorem Does.keeps {op : Operation} (hd : Does r op r') (h : r.InOrder limit) :
    r'.InOrder limit ∧ Extends r r' := by
  cases op with
  | run c =>
    cases hd with
    | run c r' c' result hrun => exact keeps_of_run h hrun
  | forward | backward | toStart | toEnd => exact (hd.walks h nofun).keeps h

theorem Session.keeps {ops : List Operation} (hs : Session r ops r') (h : r.InOrder limit) :
    r'.InOrder limit ∧ Extends r r' := by
  induction hs with
  | none r => exact ⟨h, .refl r⟩
  | cons r r' r'' op ops hd _ ih =>
    obtain ⟨horder, hextends⟩ := hd.keeps h
    obtain ⟨horder', hextends'⟩ := ih horder
    exact ⟨horder', hextends.trans hextends'⟩

theorem current?_isSome (r : Recorder) : r.current?.isSome = true ↔ r.position < r.total := by
  simp [current?, History.get?, total, History.length]

theorem InOrder.exists_snapshot (h : r.InOrder limit) {k : Nat} (hk : k < r.total) :
    ∃ s, r.history.get? k = some s ∧ s.index = k := by
  have hget : r.history.get? k = some r.history.snapshots[k] := Array.getElem?_eq_getElem hk
  exact ⟨_, hget, h.index k _ hget⟩

/-- **The history is in order at every point.** Let any operations be done with the recorder of any
    machine: recordings through any channels, and walks, in any order. The position is 0 if nothing is
    recorded and that of a snapshot otherwise, so that there is a present snapshot if and only if
    something is recorded. Each snapshot has its place as its index. The bytes counted are those of the
    snapshots, and they are within the limit. Whatever is done next leads to some recorder; every snapshot
    is still there, in its place, after any further operations; a walk moves nothing but the position, and
    nothing at all if it is refused; and a step of the walk is undone by one in the other direction. -/
theorem history_in_order (m : Machine) (limit : Nat) (ops : List Operation) (r : Recorder)
    (h : Session (ofMachine m limit) ops r) :
    (r.total = 0 → r.position = 0) ∧ (0 < r.total → r.position < r.total) ∧
      (r.current?.isSome = true ↔ 0 < r.total) ∧
      (∀ k < r.total, ∃ s, r.history.get? k = some s ∧ s.index = k) ∧
      (r.history.usage = (r.history.snapshots.toList.map Snapshot.size).sum ∧
        r.history.usage ≤ limit) ∧
      (∀ op, ∃ r', Does r op r') ∧
      (∀ ops' r', Session r ops' r' →
        r.history.snapshots.toList <+: r'.history.snapshots.toList) ∧
      (∀ op r', (∀ {σ : Type} (c : Channel σ), op ≠ .run c) → Does r op r' →
        r' = { r with position := r'.position }) ∧
      (∀ e r', r.forward? = .error e → Does r .forward r' → r' = r) ∧
      (∀ e r', r.backward? = .error e → Does r .backward r' → r' = r) ∧
      (∀ r', r.forward? = .ok r' → r'.backward? = .ok r) ∧
      ∀ r', r.backward? = .ok r' → r'.forward? = .ok r := by
  have horder : r.InOrder limit := (h.keeps (inOrder_ofMachine m limit)).1
  have hposition := horder.position
  refine ⟨by omega, by omega, ?_, fun k hk => horder.exists_snapshot hk, ⟨horder.usage, ?_⟩,
    exists_does r, ?_, ?_, ?_, ?_, fun r' => backward?_of_forward?,
    fun r' => horder.forward?_of_backward?⟩
  · rw [current?_isSome]
    omega
  · rw [← horder.limit]
    exact horder.within
  · intro ops' r' hs
    exact (hs.keeps horder).2.snapshots
  · intro op r' hwalk hd
    exact (hd.walks horder hwalk).same
  · intro e r' he hd
    cases hd
    rw [he]
    rfl
  · intro e r' he hd
    cases hd
    rw [he]
    rfl

/-- A recording that fails for want of an input, one that goes on from there to the end, and a walk: the
    second recording adds three snapshots to the one of the first. -/
theorem history_in_order_two_runs :
    let c := Channel.ofProvider Replies.provider [.ok (.value 5)]
    ∃ r r', Session (ofMachine (.ofProgram [3, 0, 99]) 4096)
        [.run Channel.buffered, .run c, .toEnd, .backward] r ∧
      r.total = 4 ∧ r.position = 2 ∧ r.current?.isSome = true ∧
      (∃ s, r.history.get? 2 = some s ∧ s.index = 2) ∧ r.history.usage ≤ 4096 ∧
      r.forward? = .ok r' ∧ r'.backward? = .ok r := by
  intro c
  have heval : ((ofMachine (.ofProgram [3, 0, 99]) 4096).run .buffered).any (fun o =>
      (o.1.1.run c).any fun o' => o'.1.1.total = 4) = true := by decide +kernel
  obtain ⟨⟨⟨r₁, c₁⟩, result₁⟩, hrun₁, hrest⟩ := (Option.any_eq_true ..).1 heval
  obtain ⟨⟨⟨r₂, c₂⟩, result₂⟩, hrun₂, hdecided⟩ := (Option.any_eq_true ..).1 hrest
  have htotal : r₂.total = 4 := of_decide_eq_true hdecided
  -- The walk goes to the last snapshot and one back.
  have hback : r₂.toEnd.walked r₂.toEnd.backward? = { r₂ with position := 2 } := by
    have hend : r₂.toEnd = { r₂ with position := 3 } := by
      unfold toEnd
      rw [htotal]
    rw [hend]
    rfl
  have hsession : Session (ofMachine (.ofProgram [3, 0, 99]) 4096)
      [.run Channel.buffered, .run c, .toEnd, .backward] { r₂ with position := 2 } := by
    refine .cons _ _ _ _ _ (.run _ _ _ _ hrun₁) (.cons _ _ _ _ _ (.run _ _ _ _ hrun₂)
      (.cons _ _ _ _ _ .toEnd (.cons _ _ _ _ _ ?_ (.none _))))
    rw [← hback]
    exact .backward
  obtain ⟨-, -, hcurrent, hindex, ⟨-, hwithin⟩, -, -, -, -, -, hundo, -⟩ :=
    history_in_order _ _ _ _ hsession
  have hforward : forward? { r₂ with position := 2 } = .ok { r₂ with position := 3 } := by
    refine forward?_eq_ok_iff.2 ⟨?_, rfl⟩
    show 3 < r₂.total
    omega
  have hrecorded : ∀ k < 4, k < Recorder.total { r₂ with position := 2 } := by
    intro k hk
    show k < r₂.total
    omega
  exact ⟨_, _, hsession, htotal, rfl, hcurrent.2 (hrecorded 0 (by decide)),
    hindex 2 (hrecorded 2 (by decide)), hwithin, hforward, hundo _ hforward⟩

end WordMachine.Recorder
