import Mathlib.Data.List.Permutation
import Mathlib.GroupTheory.Perm.Cycle.Basic
import WordMachine.Amplifier.Settings
import WordMachine.Turn

/-!
# Every order of the settings

The exchanges of `Settings.swaps` go through the orders of the settings. An exchange is a permutation of
the positions, and the whole argument is about where the words come from:

* `origin`, `originsFrom` -- where the words at the positions come from, after all exchanges and after
  each of them;
* `opening` -- the origins when a pass over the lower positions begins;
* `pass_shape` -- what a pass over so many positions leaves. An even number of positions has moved around
  in one cycle; of an odd number, the first and the last have changed places;
* `opening_injOn` -- in each pass over the lower positions, the position above them has a word that it has
  in no other. So no order comes up twice (`origins_nodup`);
* `orders_complete` -- there are as many orders as permutations, so none is left out;
* `Search.Passes` -- the loop with a counter for each position makes the same exchanges, pass by pass, and so
  ends with the same orders (`Search.ends`);
* `orderings_complete` -- all this of the settings.
-/

open Equiv

namespace WordMachine.Settings

/-! ## 1. Exchanges as permutations of the positions -/

variable {n position : Nat} {π ρ : Perm Nat}

/-- After exchanges, the word at a position is the one that stood at its origin. -/
def origin (exchanges : List (Nat × Nat)) : Perm Nat :=
  (exchanges.map fun e => swap e.1 e.2).prod

/-- The origins after each exchange, beginning with the given ones. -/
def originsFrom (π : Perm Nat) : List (Nat × Nat) → List (Perm Nat)
  | [] => [π]
  | (i, j) :: rest => π :: originsFrom (π * swap i j) rest

@[simp] theorem origin_nil : origin [] = 1 := rfl

@[simp] theorem origin_cons (e : Nat × Nat) (s : List (Nat × Nat)) :
    origin (e :: s) = swap e.1 e.2 * origin s := by
  simp [origin]

@[simp] theorem origin_append (s t : List (Nat × Nat)) : origin (s ++ t) = origin s * origin t := by
  simp [origin]

theorem originsFrom_append_cons (π : Perm Nat) (s t : List (Nat × Nat)) (i j : Nat) :
    originsFrom π (s ++ (i, j) :: t) =
      originsFrom π s ++ originsFrom (π * origin s * swap i j) t := by
  induction s generalizing π with
  | nil => simp [originsFrom]
  | cons e s ih => simp [originsFrom, ih, mul_assoc]

theorem originsFrom_mul (π ρ : Perm Nat) (s : List (Nat × Nat)) :
    originsFrom (π * ρ) s = (originsFrom ρ s).map (π * ·) := by
  induction s generalizing ρ with
  | nil => rfl
  | cons e s ih => simp [originsFrom, ← ih, mul_assoc]

/-- The origins after all exchanges are the last ones. -/
theorem mul_origin_mem (π : Perm Nat) (s : List (Nat × Nat)) : π * origin s ∈ originsFrom π s := by
  induction s generalizing π with
  | nil => simp [originsFrom]
  | cons e s ih =>
    rw [origin_cons, ← mul_assoc]
    exact List.mem_cons_of_mem _ (ih _)

/-- A permutation leaves the positions from `n` on alone. -/
def Within (n : Nat) (π : Perm Nat) : Prop := ∀ k, n ≤ k → π k = k

theorem Within.mul_swap (h : Within n π) {i j : Nat} (hi : i < n) (hj : j < n) :
    Within n (π * swap i j) := by
  intro k hk
  rw [Perm.mul_apply, swap_apply_of_ne_of_ne (by omega) (by omega), h k hk]

theorem Within.apply_lt (h : Within n π) {k : Nat} (hk : k < n) : π k < n := by
  by_contra hle
  have := π.injective (h (π k) (by omega))
  omega

theorem Within.mono {m : Nat} (h : Within n π) (hle : n ≤ m) : Within m π :=
  fun k hk => h k (hle.trans hk)

theorem Within.image_range (h : Within n π) :
    π '' (Finset.range n) = Finset.range n := by
  refine (π.bijOn fun k => ?_).image_eq
  simp only [Finset.coe_range, Set.mem_Iio]
  refine ⟨fun hlt => ?_, h.apply_lt⟩
  by_contra hle
  rw [h k (by omega)] at hlt
  omega

theorem within_originsFrom {s : List (Nat × Nat)} (hs : ∀ e ∈ s, e.1 < n ∧ e.2 < n) (hπ : Within n π)
    (hρ : ρ ∈ originsFrom π s) : Within n ρ := by
  induction s generalizing π with
  | nil =>
    obtain rfl := List.mem_singleton.1 hρ
    exact hπ
  | cons e s ih =>
    rcases List.mem_cons.1 hρ with rfl | hρ
    · exact hπ
    · obtain ⟨hi, hj⟩ := hs e List.mem_cons_self
      exact ih (fun e he => hs e (List.mem_cons_of_mem _ he)) (hπ.mul_swap hi hj) hρ

/-! ## 2. The exchanges of a position -/

/-- The first exchanges of a position, each with the pass over the lower positions that follows it. -/
def rounds (position turns : Nat) : List (Nat × Nat) :=
  (List.range turns).flatMap fun turn => (partner position turn, position) :: swaps position

theorem swaps_succ (position : Nat) :
    swaps (position + 1) = swaps position ++ rounds position position := rfl

theorem rounds_succ (position turns : Nat) :
    rounds position (turns + 1) =
      rounds position turns ++ (partner position turns, position) :: swaps position := by
  simp [rounds, List.range_succ]

/-- The exchanges are within the positions, and each is one of two different positions. -/
theorem swaps_bounds {e : Nat × Nat} (he : e ∈ swaps n) : e.1 < e.2 ∧ e.2 < n := by
  induction n with
  | zero => simp [swaps] at he
  | succ position ih =>
    simp only [swaps, List.mem_append, List.mem_flatMap, List.mem_range, List.mem_cons] at he
    rcases he with he | ⟨turn, hturn, rfl | he⟩
    · have := ih he
      omega
    · exact ⟨partner_lt hturn, Nat.lt_succ_self _⟩
    · have := ih he
      omega

theorem swaps_lt : ∀ e ∈ swaps n, e.1 < n ∧ e.2 < n := by
  intro e he
  obtain ⟨hlt, hlast⟩ := swaps_bounds he
  exact ⟨hlt.trans hlast, hlast⟩

/-- There is one order more than there are exchanges. -/
theorem length_swaps (n : Nat) : (swaps n).length + 1 = n.factorial := by
  induction n with
  | zero => rfl
  | succ position ih =>
    have hround : ∀ turn, ((partner position turn, position) :: swaps position).length =
        position.factorial := fun _ => ih
    rw [swaps_succ, rounds, List.length_append, List.length_flatMap]
    simp only [hround, List.map_const', List.sum_replicate, List.length_range, smul_eq_mul,
      Nat.factorial_succ]
    rw [← ih]
    ring

/-- The origins after a pass over the positions below `n`. -/
def pass (n : Nat) : Perm Nat := origin (swaps n)

theorem within_swaps (hπ : π ∈ originsFrom 1 (swaps n)) : Within n π :=
  within_originsFrom swaps_lt (fun _ _ => rfl) hπ

theorem within_pass (n : Nat) : Within n (pass n) := by
  have h := mul_origin_mem 1 (swaps n)
  rw [one_mul] at h
  exact within_swaps h

/-- The origins when a position has been exchanged so many times, and the pass that follows is about to
    begin. -/
def opening (position : Nat) : Nat → Perm Nat
  | 0 => 1
  | turn + 1 => opening position turn * pass position * swap (partner position turn) position

theorem origin_rounds (position turns : Nat) :
    origin (swaps position ++ rounds position turns) = opening position turns * pass position := by
  induction turns with
  | zero => simp [rounds, opening, pass]
  | succ turns ih =>
    rw [rounds_succ, ← List.append_assoc, origin_append, ih, origin_cons, opening]
    simp [pass, mul_assoc]

/-- The exchanges of a position are passes over the lower positions, each with an opening of its own. -/
theorem originsFrom_rounds (position turns : Nat) :
    originsFrom 1 (swaps position ++ rounds position turns) =
      (List.range (turns + 1)).flatMap fun turn =>
        originsFrom (opening position turn) (swaps position) := by
  induction turns with
  | zero => simp [rounds, opening]
  | succ turns ih =>
    rw [List.range_succ, List.flatMap_append, ← ih, rounds_succ, ← List.append_assoc,
      originsFrom_append_cons, one_mul, origin_rounds]
    simp [opening]

theorem pass_succ (position : Nat) : pass (position + 1) = opening position position * pass position :=
  origin_rounds position position

/-! ## 3. What a pass leaves -/

section

variable {s : Finset Nat} {a b : Nat}

theorem mul_swap_apply_of_ne {x : Nat} (hxa : x ≠ a) (hxb : x ≠ b) : (π * swap a b) x = π x := by
  rw [Perm.mul_apply, swap_apply_of_ne_of_ne hxa hxb]

theorem sameCycle_mul_swap (h : π.IsCycleOn s) (ha : a ∈ s) (hb : b ∉ s) (hfix : π b = b) {x : Nat}
    (hx : x ∈ s) : (π * swap a b).SameCycle a x := by
  -- A step of the old cycle is one step of the new one, or two at the place of the new point.
  have hstep : ∀ x ∈ s, (π * swap a b).SameCycle x (π x) := by
    intro x hx
    by_cases hxa : x = a
    · refine ⟨2, ?_⟩
      rw [zpow_two, hxa]
      simp [hfix]
    · refine ⟨1, ?_⟩
      have hxb : x ≠ b := fun h => hb (h ▸ hx)
      rw [zpow_one, mul_swap_apply_of_ne hxa hxb]
  obtain ⟨k, -, rfl⟩ := h.exists_pow_eq ha hx
  induction k with
  | zero => exact Perm.SameCycle.rfl
  | succ k ih =>
    have hmem : (π ^ k) a ∈ s := h.1.mapsTo.perm_pow k ha
    rw [pow_succ', Perm.mul_apply]
    exact (ih hmem).trans (hstep _ hmem)

/-- **A cycle takes up a further point** by an exchange with a point of it. -/
theorem isCycleOn_mul_swap (h : π.IsCycleOn s) (ha : a ∈ s) (hb : b ∉ s) (hfix : π b = b) :
    (π * swap a b).IsCycleOn (insert b s : Finset Nat) := by
  have hmem : ∀ x, (π * swap a b) x ∈ insert b s ↔ x ∈ insert b s := by
    intro x
    have hcycle : ∀ y, π y ∈ s ↔ y ∈ s := fun y => h.apply_mem_iff
    by_cases hxb : x = b
    · simp [hxb, hcycle, ha]
    · by_cases hxa : x = a
      · simp [hxa, hfix, ha]
      · have hne : π x ≠ b := fun hx => hxb (π.injective (hx.trans hfix.symm))
        simp [mul_swap_apply_of_ne hxa hxb, hcycle, hne, hxb]
  have hall : ∀ x ∈ insert b s, (π * swap a b).SameCycle a x := by
    intro x hx
    rcases Finset.mem_insert.1 hx with rfl | hx
    · exact ⟨1, by simp [hfix]⟩
    · exact sameCycle_mul_swap h ha hb hfix hx
  exact ⟨(π * swap a b).bijOn hmem, fun x hx y hy => (hall x hx).symm.trans (hall y hy)⟩

end

/-- The lowest positions, one after the other, exchanged with a given one. -/
def star (position : Nat) : Nat → Perm Nat
  | 0 => 1
  | turns + 1 => star position turns * swap turns position

theorem star_of_le {turns k : Nat} (hle : turns ≤ k) (hne : k ≠ position) :
    star position turns k = k := by
  induction turns with
  | zero => rfl
  | succ turns ih =>
    rw [star, Perm.mul_apply, swap_apply_of_ne_of_ne (by omega) hne, ih (by omega)]

theorem star_succ_apply {turn : Nat} (h : turn < position) :
    star position (turn + 1) position = turn := by
  rw [star, Perm.mul_apply, swap_apply_right, star_of_le (Nat.le_refl _) (by omega)]

theorem star_injOn {s t : Nat} (hs : s ≤ position) (ht : t ≤ position)
    (h : star position s position = star position t position) : s = t := by
  have hzero : star position 0 position = position := rfl
  cases s with
  | zero =>
    cases t with
    | zero => rfl
    | succ t =>
      rw [hzero, star_succ_apply (by omega)] at h
      omega
  | succ s =>
    rw [star_succ_apply (by omega)] at h
    cases t with
    | zero =>
      rw [hzero] at h
      omega
    | succ t =>
      rw [star_succ_apply (by omega)] at h
      omega

theorem star_isCycleOn {turns : Nat} (h : turns ≤ position) :
    (star position turns).IsCycleOn (insert position (Finset.range turns) : Finset Nat) := by
  induction turns with
  | zero => simp [star]
  | succ turns ih =>
    rw [star, swap_comm, Finset.range_add_one, Finset.insert_comm]
    refine isCycleOn_mul_swap (ih (by omega)) (Finset.mem_insert_self _ _) ?_ ?_
    · simp
      omega
    · exact star_of_le (Nat.le_refl _) (by omega)

/-- Above an even number of positions, every turn does the same. -/
theorem opening_of_even (heven : position % 2 = 0) (turn : Nat) :
    opening position turn = (pass position * swap 0 position) ^ turn := by
  induction turn with
  | zero => rfl
  | succ turn ih =>
    rw [opening, ih, partner, if_pos heven, pow_succ, mul_assoc]

theorem swap_pow_even {i j k : Nat} (h : k % 2 = 0) : swap i j ^ k = 1 := by
  obtain ⟨m, rfl⟩ := Nat.dvd_of_mod_eq_zero h
  rw [pow_mul, pow_two, swap_mul_self, one_pow]

/-- Above an odd number of positions, the exchanges go through the lower positions as in a star, seen
    through the exchange that each pass leaves. -/
theorem opening_of_odd (hodd : position % 2 = 1) (hpass : pass position = swap 0 (position - 1))
    {turn : Nat} (h : turn ≤ position) :
    opening position turn =
      swap 0 (position - 1) * star position turn * swap 0 (position - 1) ^ (turn + 1) := by
  induction turn with
  | zero => simp [opening, star]
  | succ turn ih =>
    -- At an even turn the exchanges of the passes have cancelled out; at an odd one they do not touch the
    -- two positions, for 0 and `position - 1` are even.
    have hcomm : Commute (swap 0 (position - 1) ^ (turn + 2)) (swap turn position) := by
      rcases Nat.mod_two_eq_zero_or_one turn with heven | hodd'
      · rw [swap_pow_even (by omega)]
        exact Commute.one_left _
      · refine (Perm.disjoint_swap_swap ?_).commute.pow_left _
        simp
        omega
    rw [opening, ih (by omega), hpass, partner, if_neg (by omega), star]
    calc swap 0 (position - 1) * star position turn * swap 0 (position - 1) ^ (turn + 1) *
            swap 0 (position - 1) * swap turn position
        = swap 0 (position - 1) * star position turn *
            (swap 0 (position - 1) ^ (turn + 2) * swap turn position) := by
          rw [pow_succ _ (turn + 1)]
          simp only [mul_assoc]
      _ = swap 0 (position - 1) * (star position turn * swap turn position) *
            swap 0 (position - 1) ^ (turn + 2) := by
          rw [hcomm.eq]
          simp only [mul_assoc]

theorem even_turn_isCycleOn (h : (pass position).IsCycleOn (Finset.range position)) :
    (pass position * swap 0 position).IsCycleOn (Finset.range (position + 1)) := by
  rcases Nat.eq_zero_or_pos position with rfl | hpos
  · simp [pass, swaps]
  · rw [Finset.range_add_one]
    exact isCycleOn_mul_swap h (Finset.mem_range.2 hpos) Finset.notMem_range_self
      (within_pass position _ (Nat.le_refl _))

/-- After an odd number of positions the next pass is a cycle: it is conjugate to a star. -/
theorem pass_succ_of_odd (hodd : position % 2 = 1)
    (hpass : pass position = swap 0 (position - 1)) :
    (pass (position + 1)).IsCycleOn (Finset.range (position + 1)) := by
  have hwithin : Within (position + 1) (swap 0 (position - 1)) := by
    rw [← hpass]
    exact (within_pass position).mono (Nat.le_succ _)
  have hcycle := (star_isCycleOn (Nat.le_refl position)).conj (g := swap 0 (position - 1))
  rw [← Finset.range_add_one, hwithin.image_range, swap_inv] at hcycle
  rw [pass_succ, opening_of_odd hodd hpass (Nat.le_refl _), swap_pow_even (by omega), mul_one, hpass]
  exact hcycle

/-- After an even number of positions the next pass is an exchange: one more such exchange would close the
    cycle that each turn goes on in. -/
theorem pass_succ_of_even (heven : position % 2 = 0)
    (hpass : (pass position).IsCycleOn (Finset.range position)) :
    pass (position + 1) = swap 0 position := by
  have hcycle := even_turn_isCycleOn hpass
  have hclosed : (pass position * swap 0 position) ^ (position + 1) = 1 := by
    ext k
    rcases Nat.lt_or_ge k (position + 1) with hlt | hge
    · have := hcycle.pow_card_apply (Finset.mem_range.2 hlt)
      rwa [Finset.card_range] at this
    · have hwithin := (within_pass position).mono (Nat.le_succ _)
      exact Perm.pow_apply_eq_self_of_apply_eq_self
        (hwithin.mul_swap (Nat.zero_lt_succ _) (Nat.lt_succ_self _) k hge) _
  rw [pow_succ, ← mul_assoc] at hclosed
  rw [pass_succ, opening_of_even heven, eq_inv_of_mul_eq_one_left hclosed, swap_inv]

/-- **What a pass leaves**: a cycle of an even number of positions, and of an odd number the exchange of
    the first and the last. -/
theorem pass_shape (n : Nat) :
    (n % 2 = 0 → (pass n).IsCycleOn (Finset.range n)) ∧ (n % 2 = 1 → pass n = swap 0 (n - 1)) := by
  induction n with
  | zero => simp
  | succ position ih =>
    refine ⟨fun heven => ?_, fun hodd => ?_⟩
    · have hodd : position % 2 = 1 := by omega
      exact pass_succ_of_odd hodd (ih.2 hodd)
    · have heven : position % 2 = 0 := by omega
      exact pass_succ_of_even heven (ih.1 heven)

/-- **Each turn of a position gives it another word.** -/
theorem opening_injOn {s t : Nat} (hs : s ≤ position) (ht : t ≤ position)
    (h : opening position s position = opening position t position) : s = t := by
  rcases Nat.mod_two_eq_zero_or_one position with heven | hodd
  · have hcycle := even_turn_isCycleOn ((pass_shape position).1 heven)
    rw [opening_of_even heven, opening_of_even heven,
      hcycle.pow_apply_eq_pow_apply (Finset.self_mem_range_succ position), Finset.card_range] at h
    exact h.eq_of_lt_of_lt (by omega) (by omega)
  · have hpass := (pass_shape position).2 hodd
    have hfix : ∀ k, (swap 0 (position - 1) ^ k) position = position := fun k =>
      Perm.pow_apply_eq_self_of_apply_eq_self (swap_apply_of_ne_of_ne (by omega) (by omega)) k
    rw [opening_of_odd hodd hpass hs, opening_of_odd hodd hpass ht] at h
    simp only [Perm.mul_apply, hfix] at h
    exact star_injOn hs ht ((swap 0 (position - 1)).injective h)

/-- A pass over the lower positions leaves the one above them alone. -/
theorem apply_of_mem_round (h : ρ ∈ originsFrom π (swaps position)) :
    ρ position = π position := by
  rw [← mul_one π, originsFrom_mul] at h
  obtain ⟨τ, hτ, rfl⟩ := List.mem_map.1 h
  rw [Perm.mul_apply, within_swaps hτ position (Nat.le_refl _)]

/-- **No order comes up twice.** -/
theorem origins_nodup (n : Nat) : (originsFrom 1 (swaps n)).Nodup := by
  induction n with
  | zero => simp [swaps, originsFrom]
  | succ position ih =>
    rw [swaps_succ, originsFrom_rounds, List.nodup_flatMap]
    constructor
    · intro turn _
      rw [← mul_one (opening position turn), originsFrom_mul]
      exact ih.map (mul_right_injective _)
    · refine List.nodup_range.pairwise_of_forall_ne fun s hs t ht hne => ?_
      intro π hπs hπt
      have heq := (apply_of_mem_round hπs).symm.trans (apply_of_mem_round hπt)
      rw [List.mem_range] at hs ht
      exact hne (opening_injOn (by omega) (by omega) heq)

/-! ## 4. Orders of the words -/

variable {words : Nat → Word}

/-- The words of the origins of the first positions. -/
def arrange (n : Nat) (words : Nat → Word) (π : Perm Nat) : List Word :=
  (List.range n).map fun k => words (π k)

theorem arrange_swap {i j : Nat} (hi : i < n) (hj : j < n) :
    (arrange n words π).toArray.swapIfInBounds i j = (arrange n words (π * swap i j)).toArray := by
  refine Array.ext (by simp [arrange]) fun k hk hk' => ?_
  simp only [arrange, List.size_toArray, List.length_map, List.length_range] at hk'
  rw [Array.getElem_swapIfInBounds]
  simp only [arrange, List.size_toArray, List.length_map, List.length_range, List.getElem_toArray,
    List.getElem_map, List.getElem_range, Perm.mul_apply, swap_apply_def, hi, hj, and_true]
  split_ifs <;> rfl

/-- The orders that exchanges lead to are the arrangements by origin. -/
theorem ordersFrom_arrange {s : List (Nat × Nat)} (hs : ∀ e ∈ s, e.1 < n ∧ e.2 < n) (π : Perm Nat) :
    ordersFrom (arrange n words π).toArray s = (originsFrom π s).map (arrange n words) := by
  induction s generalizing π with
  | nil => rfl
  | cons e s ih =>
    obtain ⟨hi, hj⟩ := hs e List.mem_cons_self
    rw [ordersFrom, arrange_swap hi hj, ih (fun e he => hs e (List.mem_cons_of_mem _ he)), originsFrom,
      List.map_cons]

theorem arrange_injOn (hwords : Set.InjOn words (Set.Iio n)) (hπ : Within n π) (hρ : Within n ρ)
    (h : arrange n words π = arrange n words ρ) : π = ρ := by
  ext k
  rcases Nat.lt_or_ge k n with hlt | hge
  · exact hwords (hπ.apply_lt hlt) (hρ.apply_lt hlt) (List.map_inj_left.1 h k (List.mem_range.2 hlt))
  · rw [hπ k hge, hρ k hge]

theorem arrange_perm (hπ : Within n π) : (arrange n words π).Perm ((List.range n).map words) := by
  have hperm : ((List.range n).map π).Perm (List.range n) := by
    refine (List.perm_ext_iff_of_nodup (List.nodup_range.map π.injective) List.nodup_range).2 fun k => ?_
    have himage := Set.ext_iff.1 hπ.image_range k
    simpa only [Set.mem_image, Finset.coe_range, Set.mem_Iio, List.mem_map, List.mem_range] using himage
  have := hperm.map words
  rwa [List.map_map] at this

theorem length_ordersFrom (order : Array Word) (s : List (Nat × Nat)) :
    (ordersFrom order s).length = s.length + 1 := by
  induction s generalizing order with
  | nil => rfl
  | cons e s ih => simp [ordersFrom, ih]

/-- **Every order of distinct words comes up once.** -/
theorem orders_complete (hwords : Set.InjOn words (Set.Iio n)) :
    (ordersFrom ((List.range n).map words).toArray (swaps n)).Nodup ∧
    ∀ l, l ∈ ordersFrom ((List.range n).map words).toArray (swaps n) ↔
      l.Perm ((List.range n).map words) := by
  have horders : ordersFrom ((List.range n).map words).toArray (swaps n) =
      (originsFrom 1 (swaps n)).map (arrange n words) := ordersFrom_arrange swaps_lt 1
  have hnodup : (ordersFrom ((List.range n).map words).toArray (swaps n)).Nodup := by
    rw [horders]
    refine (origins_nodup n).map_on fun π hπ ρ hρ h => ?_
    exact arrange_injOn hwords (within_swaps hπ) (within_swaps hρ) h
  have hsub : ordersFrom ((List.range n).map words).toArray (swaps n) ⊆
      ((List.range n).map words).permutations := by
    intro l hl
    rw [horders] at hl
    obtain ⟨π, hπ, rfl⟩ := List.mem_map.1 hl
    exact List.mem_permutations.2 (arrange_perm (within_swaps hπ))
  -- There are as many orders as permutations.
  have hperm := (hnodup.subperm hsub).perm_of_length_le (by
    rw [List.length_permutations, List.length_map, List.length_range, length_ordersFrom, length_swaps])
  exact ⟨hnodup, fun l => hperm.mem_iff.trans List.mem_permutations⟩

/-- Two lists differ by an exchange of two positions. -/
def Exchanged (i j : Nat) (l l' : List Word) : Prop :=
  l'[i]? = l[j]? ∧ l'[j]? = l[i]? ∧ ∀ k, k ≠ i → k ≠ j → l'[k]? = l[k]?

theorem exchanged_swap {order : Array Word} {i j : Nat} (hi : i < order.size) (hj : j < order.size) :
    Exchanged i j order.toList (order.swapIfInBounds i j).toList := by
  rw [Array.swapIfInBounds_def, dif_pos hi, dif_pos hj]
  simp only [Exchanged, Array.getElem?_toList, Array.getElem?_swap]
  refine ⟨?_, ?_, fun k hki hkj => ?_⟩
  · split_ifs with hij
    · simp [hij, hi]
    · simp [hj]
  · simp [hi]
  · rw [if_neg hkj.symm, if_neg hki.symm]

theorem ordersFrom_head (order : Array Word) (s : List (Nat × Nat)) :
    ∃ rest, ordersFrom order s = order.toList :: rest := by
  cases s with
  | nil => exact ⟨_, rfl⟩
  | cons e s => exact ⟨_, rfl⟩

/-- Each order is the one before with two positions exchanged. -/
theorem ordersFrom_isChain {order : Array Word} {s : List (Nat × Nat)}
    (hs : ∀ e ∈ s, e.1 < e.2 ∧ e.2 < order.size) :
    (ordersFrom order s).IsChain fun l l' => ∃ i j, i < j ∧ j < order.size ∧ Exchanged i j l l' := by
  induction s generalizing order with
  | nil => exact .singleton _
  | cons e s ih =>
    obtain ⟨hij, hj⟩ := hs e List.mem_cons_self
    have hsize : (order.swapIfInBounds e.1 e.2).size = order.size := Array.size_swapIfInBounds
    have htail := @ih (order.swapIfInBounds e.1 e.2) fun e he => by
      rw [hsize]
      exact hs e (List.mem_cons_of_mem _ he)
    rw [hsize] at htail
    obtain ⟨rest, hrest⟩ := ordersFrom_head (order.swapIfInBounds e.1 e.2) s
    rw [ordersFrom]
    rw [hrest] at htail ⊢
    exact .cons_cons ⟨e.1, e.2, hij, hj, exchanged_swap (hij.trans hj) hj⟩ htail

/-! ## 5. The search as a loop -/

namespace Search

variable {count : Nat}

/-- The order that exchanges lead to. -/
def exchange (order : Vector Word count) (made : List (Nat × Nat)) : Vector Word count :=
  made.foldl (fun order e => order.swapIfInBounds e.1 e.2) order

theorem ordersFrom_concat (order : Vector Word count) (made : List (Nat × Nat)) (e : Nat × Nat) :
    ordersFrom order.toArray (made ++ [e]) =
      ordersFrom order.toArray made ++ [(exchange order (made ++ [e])).toList] := by
  induction made generalizing order with
  | nil => rfl
  | cons e' made ih =>
    have htail := ih (order.swapIfInBounds e'.1 e'.2)
    rw [Vector.toArray_swapIfInBounds] at htail
    simp only [List.cons_append, ordersFrom, htail]
    rfl

/-- The loop when exchanges have been made: its order and the orders found are determined by them. -/
def after (settings : Vector Word count) (made : List (Nat × Nat)) (counters : Vector Nat count)
    (position : Nat) : Search count where
  order := exchange settings made
  found := (ordersFrom settings.toArray made).toArray
  counters
  position

variable (settings : Vector Word count) (made : List (Nat × Nat)) (counters : Vector Nat count)

theorem turn_exchange (h : position < count) (hcounter : counters[position] < position) :
    turn (after settings made counters position) =
      .more (after settings (made ++ [(partner position counters[position], position)])
        (counters.set position (counters[position] + 1)) 1) := by
  have horder : exchange settings (made ++ [(partner position counters[position], position)]) =
      (exchange settings made).swap (partner position counters[position]) position
        ((partner_lt hcounter).trans h) h := by
    have hlt := (partner_lt hcounter).trans h
    apply Vector.toArray_inj.1
    simp [exchange, Array.swapIfInBounds_def, hlt, h]
  refine (dif_pos h).trans ((dif_pos hcounter).trans ?_)
  simp only [after, ordersFrom_concat, horder, List.push_toArray]

theorem turn_reset (h : position < count) (hcounter : position ≤ counters[position]) :
    turn (after settings made counters position) =
      .more (after settings made (counters.set position 0) (position + 1)) :=
  (dif_pos h).trans (dif_neg (Nat.not_lt.2 hcounter))

/-- The counters below a level are reset. -/
def Reset (level : Nat) (counters : Vector Nat count) : Prop :=
  ∀ k, (h : k < count) → k < level → counters[k] = 0

/-- From the lowest position the loop comes to a level, with the exchanges of a pass made and the counters as
    they were. -/
def Passes (level : Nat) : Prop :=
  ∀ made counters, Reset level counters →
    Turn.Reaches turn (after settings made counters 1)
      (after settings (made ++ swaps level) counters level)

variable {settings counters}

/-- One step: a further exchange of the position at the level, and the pass that follows it. -/
theorem Passes.next {level turns : Nat} (h : Passes settings level) (hlt : level < count)
    (hreset : Reset level counters) (hturns : turns < level) :
    Turn.Reaches turn (after settings made (counters.set level turns) level)
      (after settings (made ++ (partner level turns, level) :: swaps level)
        (counters.set level (turns + 1)) level) := by
  have hstep := turn_exchange settings made (counters.set level turns) hlt (by simpa using hturns)
  simp only [Vector.getElem_set_self, Vector.set_set] at hstep
  have hpass := h (made ++ [(partner level turns, level)]) (counters.set level (turns + 1)) <| by
    intro k hk hkl
    rw [Vector.getElem_set_ne _ _ (by omega)]
    exact hreset k hk hkl
  rw [List.append_assoc] at hpass
  exact (Turn.Reaches.start.step _ _ hstep).trans hpass

/-- All exchanges of the position at the level, by induction on their number. -/
theorem Passes.turns {level turns : Nat} (h : Passes settings level) (hlt : level < count)
    (hreset : Reset level counters) (hturns : turns ≤ level) :
    Turn.Reaches turn (after settings made (counters.set level 0) level)
      (after settings (made ++ rounds level turns) (counters.set level turns) level) := by
  induction turns with
  | zero =>
    simp only [rounds, List.range_zero, List.flatMap_nil, List.append_nil]
    exact .start
  | succ turns ih =>
    have hnext := h.next (made ++ rounds level turns) hlt hreset hturns
    rw [rounds_succ, ← List.append_assoc]
    exact (ih (Nat.le_of_lt hturns)).trans hnext

theorem Passes.succ {level : Nat} (h : Passes settings level) (hlt : level < count) :
    Passes settings (level + 1) := by
  intro made counters hzero
  have hset : counters.set level 0 = counters := by
    rw [← hzero level hlt (Nat.lt_succ_self _), Vector.set_getElem_self]
  have hreset : Reset level counters := fun k hk hkl => hzero k hk (by omega)
  have hpass := h made counters hreset
  have hrounds := h.turns (made ++ swaps level) hlt hreset (Nat.le_refl level)
  have hlast := turn_reset settings (made ++ swaps level ++ rounds level level)
    (counters.set level level) hlt (by simp)
  rw [hset] at hrounds
  rw [Vector.set_set, hset, List.append_assoc] at hlast
  rw [List.append_assoc] at hrounds
  exact (hpass.trans hrounds).step _ _ hlast

/-- **The loop goes through the passes**, level by level. -/
theorem passes (settings : Vector Word count) {level : Nat} (hpos : 1 ≤ level) (hle : level ≤ count) :
    Passes settings level := by
  induction level, hpos using Nat.le_induction with
  | base =>
    intro made counters _
    simp only [swaps, List.range_zero, List.flatMap_nil, List.append_nil]
    exact .start
  | succ level _ ih => exact (ih (Nat.le_of_lt hle)).succ hle

/-- The loop ends with the orders that the exchanges lead to. -/
theorem ends (settings : Vector Word count) :
    Turn.Ends turn (start settings) (ordersFrom settings.toArray (swaps count)) := by
  have hdone : ∀ made, ∀ position ≥ count, Turn.Ends turn
      (after settings made (.replicate count 0) position) (ordersFrom settings.toArray made) :=
    fun made position h => .of_done (dif_neg (Nat.not_lt.2 h))
  rcases Nat.eq_zero_or_pos count with rfl | hpos
  · exact hdone [] 1 (Nat.zero_le _)
  · have hreset : Reset count (.replicate count 0) := fun k h _ => Vector.getElem_replicate h
    have hpass := passes settings hpos (Nat.le_refl count) [] (.replicate count 0) hreset
    exact hpass.ends (hdone _ count (Nat.le_refl _))

end Search

/-! ## 6. All orders of the settings -/

/-- The settings from `first` on. -/
def settings (first : Word) (count : Nat) : Vector Word count :=
  .ofFn fun k => Int64.ofInt (first.toInt + k)

section

variable {first : Word} {count : Nat}

theorem toList_settings :
    (settings first count).toList =
      (List.range count).map fun (k : Nat) => Int64.ofInt (first.toInt + k) := by
  refine List.ext_getElem (by simp) fun k hk hk' => ?_
  simp [settings]

theorem toInt_setting (h : first.toInt + count ≤ 2 ^ 63 - 1) {k : Nat} (hk : k < count) :
    (Int64.ofInt (first.toInt + k)).toInt = first.toInt + k := by
  have hmin := first.le_toInt
  exact Int64.toInt_ofInt_of_le (by omega) (by omega)

theorem settings_injOn (h : first.toInt + count ≤ 2 ^ 63 - 1) :
    Set.InjOn (fun k : Nat => Int64.ofInt (first.toInt + k)) (Set.Iio count) := by
  intro k hk j hj heq
  have hint := congrArg Int64.toInt heq
  simp only [toInt_setting h hk, toInt_setting h hj] at hint
  omega

theorem settings_toInt (h : first.toInt + count ≤ 2 ^ 63 - 1) :
    (settings first count).toList.map Int64.toInt =
      (List.range count).map fun (k : Nat) => first.toInt + k := by
  rw [toList_settings, List.map_map]
  exact List.map_congr_left fun k hk => toInt_setting h (List.mem_range.1 hk)

theorem orderings?_eq (h : first.toInt + count ≤ 2 ^ 63 - 1) :
    orderings? first count = some (ordersFrom (settings first count).toArray (swaps count)) := by
  have hmax : ¬ (count ≠ 0 ∧ Word.maxInt < first.toInt + count) := by
    unfold Word.maxInt
    omega
  rw [orderings?, range?, if_neg hmax, ← toList_settings]
  rfl

theorem nodup_orders (h : first.toInt + count ≤ 2 ^ 63 - 1) :
    (ordersFrom (settings first count).toArray (swaps count)).Nodup := by
  have hnodup := (orders_complete (settings_injOn h)).1
  rwa [← toList_settings] at hnodup

theorem mem_orders_iff (h : first.toInt + count ≤ 2 ^ 63 - 1) (l : List Word) :
    l ∈ ordersFrom (settings first count).toArray (swaps count) ↔
      (l.map Int64.toInt).Perm ((List.range count).map fun (k : Nat) => first.toInt + k) := by
  have hmem := (orders_complete (settings_injOn h)).2 l
  rw [← toList_settings] at hmem
  rw [← settings_toInt h, List.map_perm_map_iff fun _ _ => Int64.toInt_inj.1]
  exact hmem

end

/-- **Every order of the settings is tried once.** If the settings are words, the loop ends; it and
    `orderings?` give the same orders. There are as many as the factorial of the number of settings, all
    different; they are the orders of the settings, the first one is the increasing one, and each further one
    is the one before with two positions exchanged. -/
theorem orderings_complete (first : Word) (count : Nat) (h : first.toInt + count ≤ 2 ^ 63 - 1) :
    ∃ orders, Turn.Ends Search.turn (.start (settings first count)) orders ∧
      orderings? first count = some orders ∧
      orders.length = count.factorial ∧ orders.Nodup ∧
      (∀ l, l ∈ orders ↔
        (l.map Int64.toInt).Perm ((List.range count).map fun (k : Nat) => first.toInt + k)) ∧
      orders.head?.map (List.map Int64.toInt) =
        some ((List.range count).map fun (k : Nat) => first.toInt + k) ∧
      orders.IsChain fun l l' => ∃ i j, i < j ∧ j < count ∧ Exchanged i j l l' := by
  have hwords := settings_toInt h
  refine ⟨_, Search.ends _, orderings?_eq h, ?_, nodup_orders h, mem_orders_iff h, ?_, ?_⟩
  · rw [length_ordersFrom, length_swaps]
  · obtain ⟨rest, hrest⟩ := ordersFrom_head (settings first count).toArray (swaps count)
    rw [hrest, List.head?_cons, Option.map_some, ← hwords]
    rfl
  · have hsize : (settings first count).toArray.size = count := (settings first count).size_toArray
    have hchain := @ordersFrom_isChain (settings first count).toArray (swaps count) fun e he => by
      rw [hsize]
      exact swaps_bounds he
    rwa [hsize] at hchain

/-- The six orders of three settings. -/
theorem orderings_complete_three :
    orderings? 5 3 = some [[5, 6, 7], [6, 5, 7], [7, 5, 6], [5, 7, 6], [6, 7, 5], [7, 6, 5]] ∧
    Turn.Ends Search.turn (.start (settings 5 3))
      [[5, 6, 7], [6, 5, 7], [7, 5, 6], [5, 7, 6], [6, 7, 5], [7, 6, 5]] := by
  obtain ⟨orders, hends, horders, -⟩ := orderings_complete 5 3 (by decide)
  have heval : orderings? 5 3 =
      some [[5, 6, 7], [6, 5, 7], [7, 5, 6], [5, 7, 6], [6, 7, 5], [7, 6, 5]] := by
    decide +kernel
  obtain rfl := Option.some.inj (horders.symm.trans heval)
  exact ⟨heval, hends⟩

end WordMachine.Settings
