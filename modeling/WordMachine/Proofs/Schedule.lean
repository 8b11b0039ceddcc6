import WordMachine.Turn

/-!
# Schedules

Several machines that share nothing but queues may be run in any order. What follows from the order
alone is told here of any relation `step` between states, where a step is a move of one of them:

* `Schedule.Moves` -- so many moves lead from one state to another;
* `Schedule.Maximal` -- a run that stops only where nothing can move. It may be infinite;
* `Schedule.Diamond` -- two moves from one state are the same or can each be completed by the other;
* `Schedule.Moves.descent` -- with the diamond, every move from a state is a move towards any end that
  the state has; so the number of moves left does not depend on the order;
* `Schedule.arrives_of_less` -- runs that come nearer to an end with every move arrive there.

The last section has the same for a process that takes turns: `Turn.ends_of_rank` ends a process by a
rank that every turn lowers, `Turn.run_isSome_of_rank` says within how many turns if the rank is a number,
`Turn.run_map` compares two processes turn by turn, and `Turn.upTo` is a part of a process, up to the
first state of a kind.
-/

namespace WordMachine

namespace Schedule

variable {σ : Type} {step : σ → σ → Prop}

/-! ## 1. Runs -/

/-- So many moves lead from one state to another. -/
inductive Moves (step : σ → σ → Prop) : Nat → σ → σ → Prop where
  | none (s : σ) : Moves step 0 s s
  | cons (n : Nat) (s t u : σ) (h : step s t) (ht : Moves step n t u) : Moves step (n + 1) s u

/-- Nothing can move. -/
def Stuck (step : σ → σ → Prop) (s : σ) : Prop := ∀ t, ¬ step s t

/-- **A maximal run**: it goes on as long as something can move, and stays where nothing can. -/
def Maximal (step : σ → σ → Prop) (f : Nat → σ) : Prop :=
  ∀ n, step (f n) (f (n + 1)) ∨ (Stuck step (f n) ∧ f (n + 1) = f n)

/-- **All schedules arrive**: every maximal run from `start` comes to where `P` holds, and stays
    there. -/
def Arrives (step : σ → σ → Prop) (start : σ) (P : σ → Prop) : Prop :=
  ∀ f, Maximal step f → f 0 = start → ∃ n, ∀ m, n ≤ m → P (f m)

theorem Moves.trans {n m : Nat} {s t u : σ} (h : Moves step n s t) (h' : Moves step m t u) :
    Moves step (n + m) s u := by
  induction h with
  | none s =>
    rw [Nat.zero_add]
    exact h'
  | cons n s t v hs _ ih =>
    rw [Nat.add_right_comm]
    exact .cons _ _ _ _ hs (ih h')

theorem Moves.single {s t : σ} (h : step s t) : Moves step 1 s t := .cons 0 s t t h (.none t)

/-- What every move keeps, a run keeps. -/
theorem Moves.invariant {P : σ → Prop} {n : Nat} {s t : σ} (h : Moves step n s t) (hs : P s)
    (keep : ∀ a b, P a → step a b → P b) : P t := by
  induction h with
  | none s => exact hs
  | cons n s t u hst _ ih => exact ih (keep s t hs hst)

theorem Moves.eq_of_stuck {n : Nat} {s t : σ} (h : Moves step n s t) (hs : Stuck step s) : s = t := by
  cases h with
  | none => rfl
  | cons n _ u _ hu _ => exact absurd hu (hs u)

/-! ## 2. The diamond -/

/-- Two moves from one state are the same, or each can be completed by the other. -/
def Diamond (step : σ → σ → Prop) : Prop :=
  ∀ s t u, step s t → step s u → t = u ∨ ∃ v, step t v ∧ step u v

/-- **Every move is a move towards the end**: if `n` moves lead to a state where nothing can move,
    then after any move `n - 1` moves are left to the same state. -/
theorem Moves.descent (hd : Diamond step) {n : Nat} {s t u : σ} (h : Moves step n s t)
    (ht : Stuck step t) (hu : step s u) : ∃ k, n = k + 1 ∧ Moves step k u t := by
  induction h generalizing u with
  | none s => exact absurd hu (ht u)
  | cons n s v t hv hrest ih =>
    rcases hd s u v hu hv with rfl | ⟨w, huw, hvw⟩
    · exact ⟨n, rfl, hrest⟩
    · obtain ⟨k, rfl, hk⟩ := ih ht hvw
      exact ⟨k + 1, rfl, .cons k u w t huw hk⟩

/-- The same for several moves. -/
theorem Moves.descent_moves (hd : Diamond step) {n m : Nat} {s t u : σ} (h : Moves step n s t)
    (ht : Stuck step t) (hu : Moves step m s u) : ∃ k, n = k + m ∧ Moves step k u t := by
  induction hu generalizing n with
  | none s => exact ⟨n, rfl, h⟩
  | cons m s v u hv _ ih =>
    obtain ⟨k, rfl, hk⟩ := h.descent hd ht hv
    obtain ⟨k', rfl, hk'⟩ := ih hk
    exact ⟨k', rfl, hk'⟩

/-! ## 3. Maximal runs -/

/-- Once nothing can move, the state stays. -/
theorem Maximal.stays {f : Nat → σ} (hf : Maximal step f) {n : Nat} (hn : Stuck step (f n)) {m : Nat}
    (hm : n ≤ m) : f m = f n := by
  induction hm with
  | refl => rfl
  | @step m _ ih =>
    rcases hf m with hs | ⟨-, he⟩
    · rw [ih] at hs
      exact absurd hs (hn _)
    · rw [he, ih]

/-- **All schedules arrive** if something is left to do that every move makes less. -/
theorem arrives_of_less {P : Nat → σ → Prop} {Q : σ → Prop} {k : Nat} {start : σ}
    (h : P k start) (less : ∀ k s t, P k s → step s t → ∃ j, j < k ∧ P j t)
    (stuck : ∀ k s, P k s → Stuck step s → Q s) : Arrives step start Q := by
  intro f hf h0
  suffices hgoal : ∀ k n, P k (f n) → ∃ n, Stuck step (f n) ∧ Q (f n) by
    obtain ⟨n, hn, hQ⟩ := hgoal k 0 (h0 ▸ h)
    refine ⟨n, fun m hm => ?_⟩
    rw [hf.stays hn hm]
    exact hQ
  intro k
  induction k using Nat.strongRecOn with
  | ind k ih =>
    intro n hk
    rcases hf n with hs | ⟨hstuck, -⟩
    · obtain ⟨j, hj, hPj⟩ := less k _ _ hk hs
      exact ih j hj (n + 1) hPj
    · exact ⟨n, hstuck, stuck k _ hk hstuck⟩

end Schedule

/-! ## 4. Turns -/

/-- **A process ends** if its states have ranks that every turn lowers; what is known of the states
    passes on to the result. -/
theorem Turn.ends_of_rank {σ ρ α : Type} {turn : σ → Turn σ ρ} {lower : α → α → Prop}
    (wf : WellFounded lower) {P : α → σ → Prop} {Q : ρ → Prop}
    (more : ∀ a s s', P a s → turn s = .more s' → ∃ b, lower b a ∧ P b s')
    (done : ∀ a s r, P a s → turn s = .done r → Q r) {a : α} {s : σ} (h : P a s) :
    ∃ r, Turn.Ends turn s r ∧ Q r := by
  induction a using wf.induction generalizing s with
  | _ a ih =>
    cases ht : turn s with
    | done r => exact ⟨r, .of_done ht, done a s r h ht⟩
    | more s' =>
      obtain ⟨b, hb, hP⟩ := more a s s' h ht
      obtain ⟨r, hr, hQ⟩ := ih b hb hP
      exact ⟨r, hr.of_more ht, hQ⟩

namespace Turn

variable {σ ρ : Type} {stop : σ → Bool} {turn : σ → Turn σ ρ} {s s' : σ}

/-- **A process ends within its rank**, a number that every turn lowers. -/
theorem run_isSome_of_rank (rank : σ → Nat) {P : σ → Prop}
    (more : ∀ s s', P s → turn s = .more s' → P s' ∧ rank s' < rank s) {fuel : Nat} (h : P s)
    (hlt : rank s < fuel) : (run turn fuel s).isSome = true := by
  induction fuel generalizing s with
  | zero => omega
  | succ fuel ih =>
    rw [run_succ]
    cases ht : turn s with
    | done r => rfl
    | more s' =>
      obtain ⟨h', hlower⟩ := more s s' h ht
      exact ih h' (by omega)

/-- What a turn leaves, seen as states and results of another process. -/
def map {σ' ρ' : Type} (f : σ → σ') (g : ρ → ρ') : Turn σ ρ → Turn σ' ρ'
  | .more s => .more (f s)
  | .done r => .done (g r)

/-- **Two processes that take the same turns have the same result**, seen in the same way. -/
theorem run_map {σ' ρ' : Type} {turn' : σ' → Turn σ' ρ'} (f : σ → σ') (g : ρ → ρ')
    (h : ∀ t, Reaches turn s t → turn' (f t) = (turn t).map f g) (fuel : Nat) :
    run turn' fuel (f s) = (run turn fuel s).map g := by
  induction fuel generalizing s with
  | zero => rfl
  | succ fuel ih =>
    rw [run_succ, run_succ, h s .start]
    cases ht : turn s with
    | done r => rfl
    | more s' => exact ih fun t hs' => h t ((Reaches.step s s' .start ht).trans hs')

/-- **A part of a process**: up to the first state where it is to stop, or to the result if that comes
    first. -/
def upTo (stop : σ → Bool) (turn : σ → Turn σ ρ) (s : σ) : Turn σ (σ ⊕ ρ) :=
  if stop s then .done (.inl s)
  else
    match turn s with
    | .more s' => .more s'
    | .done r => .done (.inr r)

theorem of_upTo_more (h : upTo stop turn s = .more s') : stop s = false ∧ turn s = .more s' := by
  unfold upTo at h
  cases hstop : stop s with
  | true => simp [hstop] at h
  | false =>
    cases ht : turn s with
    | done r => simp [hstop, ht] at h
    | more t => simpa [hstop, ht] using h

theorem of_upTo_done (h : upTo stop turn s = .done (.inl s')) : stop s = true ∧ s' = s := by
  unfold upTo at h
  cases hstop : stop s with
  | true => simpa [hstop, eq_comm] using h
  | false => cases ht : turn s <;> simp [hstop, ht] at h

/-- **A part of a process ends** if every turn before its end lowers the rank; what the turns keep holds of
    the state where it stops. -/
theorem ends_upTo (stop : σ → Bool) (turn : σ → Turn σ ρ) {α : Type} {lower : α → α → Prop}
    (wf : WellFounded lower) (rank : σ → α) {P : σ → Prop}
    (more : ∀ s s', P s → stop s = false → turn s = .more s' → lower (rank s') (rank s) ∧ P s')
    (h : P s) : ∃ r, Ends (upTo stop turn) s r ∧ ∀ s', r = .inl s' → stop s' = true ∧ P s' := by
  refine ends_of_rank (P := fun a s => a = rank s ∧ P s) wf ?_ ?_ (a := rank s) ⟨rfl, h⟩
  · intro a s s' hs ht
    obtain ⟨rfl, hs⟩ := hs
    obtain ⟨hstop, ht⟩ := of_upTo_more ht
    obtain ⟨hlower, hs'⟩ := more s s' hs hstop ht
    exact ⟨_, hlower, rfl, hs'⟩
  · intro a s r hs ht s' hr
    subst hr
    obtain ⟨hstop, rfl⟩ := of_upTo_done ht
    exact ⟨hstop, hs.2⟩

end Turn

end WordMachine
