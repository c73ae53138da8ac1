import MLPrefetch.Run

/-!
# MLPrefetch — Action usage and the exploration schedule

`actionUse0..3` count, per bandit index, the epochs whose `selectAction` returned it; step 7
decays `exploreRate` once per epoch.

* `exec` runs a list of callbacks and records, for each epoch among them, the bandit index its
  `selectAction` returned (`selected`, from `epochAction`); it always completes and is a `Run`.
* Only the epoch touches the counters, bumping the one of the index it selected, so after any
  run the counters are the fold of `Slots.bump` over the selected indices (`exec_spec`).
* With at most three children every bandit index has a counter: the counters sum to the number
  of epochs and each counts the epochs that selected its index (`actionUse_counts`).
* The exploration rate changes only at epochs, by step 7's decay: after one it is at least
  `EXPLORE_MIN`, from the floor or above it never rises, and some number of epochs brings it to
  exactly the floor (`exploreRate_schedule`).
-/

namespace MLPrefetch

namespace Event

/-- Whether the callback is `endEpoch`. -/
def isEndEpoch : Event → Bool
  | .endEpoch _ => true
  | _ => false

end Event

namespace MLPrefetchController

variable {α : Type} [LinearOrderedField α]

/-- The bandit indices the callback's `selectAction` returns: one for an epoch, none for the
other callbacks. -/
def selected (c : MLPrefetchController α) : Event → List Nat
  | .endEpoch obs => [c.epochAction obs]
  | _ => []

/-- The callbacks `es` in order from `c`: the state they lead to, and the bandit index each
epoch among them selected, in order. -/
def exec (c : MLPrefetchController α) : List Event → Option (MLPrefetchController α × List Nat)
  | [] => some (c, [])
  | e :: es => (c.step e).bind fun c' => (c'.exec es).map fun r => (r.1, c.selected e ++ r.2)

/-- `exec` records the selected bandit indices. -/
theorem exec_eq_execWith (c : MLPrefetchController α) (es : List Event) :
    c.exec es = execWith selected c es := by
  induction es generalizing c with
  | nil => rfl
  | cons e es ih => simp only [exec, execWith, ih]

/-- What one callback does to the counters: it bumps those of the indices it selected, which
are bandit indices, and keeps the children. -/
theorem step_actionUse (c : MLPrefetchController α) (e : Event) :
    ∃ c', c.step e = some c' ∧ c'.children = c.children ∧
      c'.actionUse = (c.selected e).foldl (fun s (i : Nat) => s.bump i) c.actionUse ∧
      (∀ i ∈ c.selected e, i < c.numActions) ∧
      (c.selected e).length = if e.isEndEpoch then 1 else 0 := by
  cases e with
  | notify addr miss => exact ⟨_, rfl, by simp, by simp [selected], by simp [selected], rfl⟩
  | calculatePrefetch now cands => exact ⟨_, rfl, rfl, rfl, by simp [selected], rfl⟩
  | endEpoch obs =>
    refine ⟨_, step_endEpoch_afterEpoch c obs, rfl,
      rfl, ?_, rfl⟩
    simpa [selected] using epochAction_lt c obs

/-- **Runs of callbacks.** Every list of callbacks runs to completion as a `Run`, selects one
bandit index per epoch, and leaves the counters bumped once per selected index. -/
theorem exec_spec (c : MLPrefetchController α) (es : List Event) :
    ∃ c' sel, c.exec es = some (c', sel) ∧ Run c c' ∧ c'.children = c.children ∧
      sel.length = es.countP Event.isEndEpoch ∧ (∀ i ∈ sel, i < c.numActions) ∧
      c'.actionUse = sel.foldl (fun s (i : Nat) => s.bump i) c.actionUse := by
  induction es generalizing c with
  | nil => exact ⟨c, [], rfl, .refl, rfl, rfl, by simp, rfl⟩
  | cons e es ih =>
    obtain ⟨c₁, h₁, hch₁, hu₁, hlt₁, hlen₁⟩ := step_actionUse c e
    obtain ⟨c₂, sel, h₂, hr, hch₂, hlen, hlt, hu⟩ := ih c₁
    refine ⟨c₂, c.selected e ++ sel, by simp [exec, h₁, h₂],
      (Relation.ReflTransGen.single ⟨e, h₁⟩).trans hr, hch₂.trans hch₁, ?_, ?_, ?_⟩
    · rw [List.length_append, hlen, hlen₁, List.countP_cons]
      split <;> simp_all [Nat.add_comm]
    · intro i hi
      rcases List.mem_append.1 hi with hi | hi
      · exact hlt₁ i hi
      · have := hlt i hi
        rwa [numActions, hch₁] at this
    · rw [hu, hu₁, List.foldl_append]

/-- **Action-usage accounting.** From any state whose counters are zero — as constructed —
with at most three children, on every list of callbacks: `actionUse0 + … + actionUse3` is the
number of `endEpoch` calls, and each `actionUse_b` is the number of those epochs whose
`selectAction` returned `b`. -/
theorem actionUse_counts {c₀ : MLPrefetchController α} (h0 : c₀.actionUse = {})
    (hK : c₀.children.length ≤ 3) (es : List Event) :
    ∃ c sel, c₀.exec es = some (c, sel) ∧ sel.length = es.countP Event.isEndEpoch ∧
      c.actionUse.total = es.countP Event.isEndEpoch ∧
      ∀ b : Nat, b < 4 → c.actionUse.get b = sel.count b := by
  obtain ⟨c, sel, hexec, -, -, hlen, hlt, hu⟩ := exec_spec c₀ es
  have h4 : ∀ i ∈ sel, i < 4 := fun i hi => by
    have := hlt i hi
    unfold numActions at this
    omega
  refine ⟨c, sel, hexec, hlen, ?_, fun b hb => ?_⟩
  · rw [hu, Slots.total_foldl_bump _ h4, h0, hlen, Slots.total_empty, Nat.zero_add]
  · rw [hu, Slots.get_foldl_bump _ _ hb, h0, Slots.get_empty, Nat.zero_add]

/-- The two-child controller as constructed, over one epoch. -/
theorem actionUse_counts_one_epoch :
    ∃ c sel, (ofParams twoChildParams 0 0).exec [.endEpoch ⟨0, 0, 0, 0, 0, 2⟩] = some (c, sel) ∧
      sel.length = [Event.endEpoch ⟨0, 0, 0, 0, 0, 2⟩].countP Event.isEndEpoch ∧
      c.actionUse.total = [Event.endEpoch ⟨0, 0, 0, 0, 0, 2⟩].countP Event.isEndEpoch ∧
      ∀ b : Nat, b < 4 → c.actionUse.get b = sel.count b :=
  actionUse_counts rfl (by decide) _

/-! ## The exploration schedule -/

/-- Step 7's decay of the exploration rate, `max(EXPLORE_MIN, exploreRate * EXPLORE_DECAY)`. -/
def decayExplore (e : α) : α := max exploreMin (e * exploreDecay)

/-- `k + 1` decays from `e` leave the floor or `e` decayed geometrically, whichever is larger:
the floor times the decay lies below the floor. -/
theorem decayExplore_iterate (e : α) (k : Nat) :
    decayExplore^[k + 1] e = max exploreMin (e * exploreDecay ^ (k + 1)) := by
  have hd : (0 : α) ≤ exploreDecay := by norm_num [exploreDecay]
  have hm : (exploreMin : α) * exploreDecay ≤ exploreMin := by norm_num [exploreMin, exploreDecay]
  induction k with
  | zero => rw [zero_add, pow_one]; rfl
  | succ k ih =>
    rw [Function.iterate_succ_apply', ih, decayExplore, max_mul_of_nonneg _ _ hd, ← max_assoc,
      max_eq_left hm, mul_assoc, ← pow_succ]

/-- One callback decays the exploration rate exactly when it is an epoch. -/
theorem step_exploreRate (c : MLPrefetchController α) (e : Event) :
    ∃ c', c.step e = some c' ∧
      c'.exploreRate = if e.isEndEpoch then decayExplore c.exploreRate else c.exploreRate := by
  cases e with
  | notify addr miss => exact ⟨_, rfl, by simp [Event.isEndEpoch]⟩
  | calculatePrefetch now cands => exact ⟨_, rfl, by simp [Event.isEndEpoch]⟩
  | endEpoch obs =>
    exact ⟨_, step_endEpoch_afterEpoch c obs, rfl⟩

/-- Over a run the exploration rate is decayed once per epoch. -/
theorem exec_exploreRate (c : MLPrefetchController α) (es : List Event) :
    ∃ c' sel, c.exec es = some (c', sel) ∧
      c'.exploreRate = decayExplore^[es.countP Event.isEndEpoch] c.exploreRate := by
  induction es generalizing c with
  | nil => exact ⟨c, [], rfl, rfl⟩
  | cons e es ih =>
    obtain ⟨c₁, h₁, hr₁⟩ := step_exploreRate c e
    obtain ⟨c₂, sel, h₂, hr₂⟩ := ih c₁
    refine ⟨c₂, c.selected e ++ sel, by simp [exec, h₁, h₂], ?_⟩
    rw [hr₂, hr₁, List.countP_cons]
    split <;> simp [Function.iterate_succ_apply]

/-- The floor holds after a decay, and from a rate at the floor or above a decay never raises it. -/
theorem exploreMin_le_decayExplore (e : α) : exploreMin ≤ decayExplore e := le_max_left _ _

theorem decayExplore_le {e : α} (he : exploreMin ≤ e) : decayExplore e ≤ e := by
  have hd : (exploreDecay : α) ≤ 1 := by norm_num [exploreDecay]
  have h0 : (0 : α) ≤ e := le_trans (by norm_num [exploreMin]) he
  exact max_le he (mul_le_of_le_one_right h0 hd)

/-- From a rate at the floor or above, no number of decays raises it. -/
theorem iterate_decayExplore_le {e : α} (he : exploreMin ≤ e) :
    ∀ n, decayExplore^[n] e ≤ e
  | 0 => le_rfl
  | n + 1 => by
    rw [Function.iterate_succ_apply]
    exact (iterate_decayExplore_le (exploreMin_le_decayExplore e) n).trans (decayExplore_le he)

/-- Some number of decays brings every rate to exactly the floor, and later ones keep it there:
the decay factor is below `1`. -/
theorem decayExplore_eventually [Archimedean α] (e : α) :
    ∃ N, ∀ n, N ≤ n → decayExplore^[n] e = exploreMin := by
  have hd0 : (0 : α) ≤ exploreDecay := by norm_num [exploreDecay]
  have hd1 : (exploreDecay : α) < 1 := by norm_num [exploreDecay]
  have hm : (0 : α) < exploreMin := by norm_num [exploreMin]
  obtain ⟨N, hN⟩ : ∃ N, ∀ k, N ≤ k → e * exploreDecay ^ k ≤ exploreMin := by
    rcases le_or_lt e 0 with he | he
    · exact ⟨0, fun k _ => (mul_nonpos_of_nonpos_of_nonneg he (pow_nonneg hd0 k)).trans hm.le⟩
    · obtain ⟨N, hN⟩ := exists_pow_lt_of_lt_one (div_pos hm he) hd1
      refine ⟨N, fun k hk => ?_⟩
      have hlt : exploreDecay ^ k * e < exploreMin :=
        (lt_div_iff₀ he).1 (lt_of_le_of_lt (pow_le_pow_of_le_one hd0 hd1.le hk) hN)
      exact (mul_comm e _ ▸ hlt).le
  refine ⟨N + 1, fun n hn => ?_⟩
  obtain ⟨k, rfl⟩ : ∃ k, n = k + 1 := ⟨n - 1, by omega⟩
  rw [decayExplore_iterate, max_eq_left (hN _ (by omega))]

/-- **The exploration schedule.** On every list of callbacks, from every state, the exploration
rate changes only when an epoch ends, each epoch applying step 7's
`max(EXPLORE_MIN, exploreRate * EXPLORE_DECAY)` once. So after an epoch it is never below the
floor `0.01`; from a rate at the floor or above it never rises; and there is a number of epochs
after which it is exactly the floor, whatever the callbacks. -/
theorem exploreRate_schedule [Archimedean α] (c : MLPrefetchController α) :
    ∃ N, ∀ es : List Event, ∃ c' sel, c.exec es = some (c', sel) ∧
      c'.exploreRate = decayExplore^[es.countP Event.isEndEpoch] c.exploreRate ∧
      (0 < es.countP Event.isEndEpoch → exploreMin ≤ c'.exploreRate) ∧
      (exploreMin ≤ c.exploreRate → c'.exploreRate ≤ c.exploreRate) ∧
      (N ≤ es.countP Event.isEndEpoch → c'.exploreRate = exploreMin) := by
  obtain ⟨N, hN⟩ := decayExplore_eventually c.exploreRate
  refine ⟨N, fun es => ?_⟩
  obtain ⟨c', sel, h, hr⟩ := exec_exploreRate c es
  refine ⟨c', sel, h, hr, fun hn => ?_, fun he => hr ▸ iterate_decayExplore_le he _,
    fun hn => hr ▸ hN _ hn⟩
  obtain ⟨k, hk⟩ : ∃ k, es.countP Event.isEndEpoch = k + 1 := ⟨_, (Nat.succ_pred_eq_of_pos hn).symm⟩
  rw [hr, hk, Function.iterate_succ_apply']
  exact exploreMin_le_decayExplore _

/-- The constructed two-child controller, whose rate `1/10` starts above the floor. -/
theorem exploreRate_schedule_two :
    ∃ N, ∀ es : List Event, ∃ c' sel, (ofParams twoChildParams 0 0).exec es = some (c', sel) ∧
      c'.exploreRate =
        decayExplore^[es.countP Event.isEndEpoch] (ofParams twoChildParams 0 0).exploreRate ∧
      (0 < es.countP Event.isEndEpoch → exploreMin ≤ c'.exploreRate) ∧
      (exploreMin ≤ (ofParams twoChildParams 0 0).exploreRate →
        c'.exploreRate ≤ (ofParams twoChildParams 0 0).exploreRate) ∧
      (N ≤ es.countP Event.isEndEpoch → c'.exploreRate = exploreMin) :=
  exploreRate_schedule (ofParams twoChildParams 0 0)

end MLPrefetchController

end MLPrefetch
