import MLPrefetch.Run

/-!
# MLPrefetch — Actions

The two action fields, `currentAction` (semantic: `-1` is OFF, `i ≥ 0` is child `i`) and
`lastAction` (the bandit index the next epoch's update credits), and what relates them.

* `Credited`: `currentAction` is the semantic action of `lastAction`, so the next update
  credits the index of the action that routed the epoch's prefetches.
* `ActionRange`: `currentAction ∈ {-1, …, K-1}` and `lastAction ∈ {0, …, K}`.
* Every epoch establishes both, and every callback keeps them (`credited_of_epoch`).
* The constructor validates `current_action` but leaves `lastAction = 0`: a valid initial
  action other than child 0 is not what the first update credits
  (`ofParams_credits_child_zero`). With no children its reset value `0` is no action at all
  (`ofParams_reset_out_of_range`); with children, `ActionRange` holds throughout
  (`actionRange_of_reachable`).
-/

namespace MLPrefetch

namespace MLPrefetchController

variable {α : Type} [LinearOrderedField α]

/-- `currentAction` is the semantic action of the bandit index `lastAction`. -/
def Credited (c : MLPrefetchController α) : Prop :=
  0 ≤ c.lastAction ∧ c.currentAction = semanticAction c.numActions c.lastAction.toNat

/-- `currentAction ∈ {-1, …, K-1}` and `lastAction ∈ {0, …, K}` for `K` children. -/
def ActionRange (c : MLPrefetchController α) : Prop :=
  -1 ≤ c.currentAction ∧ c.currentAction < c.children.length ∧
    0 ≤ c.lastAction ∧ c.lastAction ≤ c.children.length

instance (c : MLPrefetchController α) : Decidable c.Credited :=
  inferInstanceAs (Decidable (_ ∧ _))

instance (c : MLPrefetchController α) : Decidable c.ActionRange :=
  inferInstanceAs (Decidable (_ ∧ _))

omit [LinearOrderedField α] in
/-- Both properties read only the action fields and the children. -/
theorem Credited.of_eq {c c' : MLPrefetchController α} (hca : c'.currentAction = c.currentAction)
    (hla : c'.lastAction = c.lastAction) (hch : c'.children = c.children) (h : c.Credited) :
    c'.Credited := by
  simpa only [Credited, numActions, hca, hla, hch] using h

omit [LinearOrderedField α] in
theorem ActionRange.of_eq {c c' : MLPrefetchController α}
    (hca : c'.currentAction = c.currentAction) (hla : c'.lastAction = c.lastAction)
    (hch : c'.children = c.children) (h : c.ActionRange) : c'.ActionRange := by
  simpa only [ActionRange, hca, hla, hch] using h

/-! ## What the epoch commit establishes -/

theorem Credited.afterEpoch (c : MLPrefetchController α) (obs : Observation) (idx : Nat) :
    (c.afterEpoch obs idx).Credited := by
  simp [Credited]

theorem ActionRange.afterEpoch {c : MLPrefetchController α} (obs : Observation) {idx : Nat}
    (hidx : idx < c.numActions) : (c.afterEpoch obs idx).ActionRange := by
  have h := semanticAction_range hidx
  unfold numActions at hidx
  simp only [ActionRange, afterEpoch_currentAction, afterEpoch_children, afterEpoch_lastAction,
    numActions]
  omega

/-- The callbacks other than the epoch leave both action fields and the children alone, so
they keep every property of those fields. -/
theorem actionFields_step (P : MLPrefetchController α → Prop)
    (hP : ∀ c c' : MLPrefetchController α, c'.currentAction = c.currentAction →
      c'.lastAction = c.lastAction → c'.children = c.children → P c → P c')
    (hepoch : ∀ c obs idx, idx < c.numActions → P c → P (c.afterEpoch obs idx))
    {c c' : MLPrefetchController α} (hr : Run c c') (hc : P c) : P c' :=
  Run.preserves P (fun c _ _ => hP c _ (by simp) (by simp) (by simp))
    (fun c _ _ => hP c _ rfl rfl rfl) hepoch hr hc

/-- **Credit assignment after the first epoch.** From the state an epoch leaves on, through
any callbacks, `currentAction` is the semantic action of `lastAction` and both lie in range. -/
theorem credited_of_epoch {c c₁ c₂ : MLPrefetchController α} {obs : Observation}
    {r : EpochReport α} (h : c.endEpoch obs = some (c₁, r)) (hr : Run c₁ c₂) :
    c₂.Credited ∧ c₂.ActionRange := by
  obtain ⟨idx, hidx, rfl⟩ := endEpoch_cases h
  exact actionFields_step (fun c => c.Credited ∧ c.ActionRange)
    (fun _ _ hca hla hch hc => ⟨hc.1.of_eq hca hla hch, hc.2.of_eq hca hla hch⟩)
    (fun c obs idx hidx _ => ⟨Credited.afterEpoch c obs idx, ActionRange.afterEpoch obs hidx⟩) hr
    ⟨Credited.afterEpoch c obs idx, ActionRange.afterEpoch obs hidx⟩

/-- The first epoch of the two-child controller, from its constructed state. -/
theorem credited_of_epoch_first :
    ∃ c₁ r, (ofParams twoChildParams 0 0).endEpoch ⟨0, 0, 0, 0, 0, 0⟩ = some (c₁, r) ∧
      c₁.Credited ∧ c₁.ActionRange := by
  obtain ⟨idx, -, he⟩ := endEpoch_eq (ofParams twoChildParams 0 0) ⟨0, 0, 0, 0, 0, 0⟩
  exact ⟨_, _, he, credited_of_epoch he .refl⟩

/-! ## What the constructor establishes -/

/-- The constructor's `currentAction`: `current_action` when it is `-1` or a child index, and
`0` otherwise. -/
theorem ofParams_currentAction (p : Params α) (now ops : UInt64) :
    (ofParams p now ops).currentAction =
      if p.currentAction < -1 ∨ (p.children.length : Int) ≤ p.currentAction then 0
      else p.currentAction := rfl

/-- **The first update credits child 0.** With children, a valid `current_action` other than
`0` routes the first epoch's prefetches, while the constructor's `lastAction = 0` makes the
first `endEpoch` credit `row[0]` with that epoch's reward. -/
theorem ofParams_credits_child_zero (p : Params α) (now ops : UInt64) (hK : p.children ≠ [])
    (hv : -1 ≤ p.currentAction ∧ p.currentAction < p.children.length)
    (h0 : p.currentAction ≠ 0) :
    Reachable (ofParams p now ops) ∧ (ofParams p now ops).currentAction = p.currentAction ∧
      (ofParams p now ops).lastAction = 0 ∧ ¬ (ofParams p now ops).Credited := by
  have hc : (ofParams p now ops).currentAction = p.currentAction := by
    rw [ofParams_currentAction, if_neg (by omega)]
  have hK' : p.children.length ≠ 0 := fun h => hK (List.length_eq_zero.1 h)
  refine ⟨.ofParams p now ops, hc, rfl, fun ⟨_, h⟩ => h0 ?_⟩
  rw [hc] at h
  simpa [semanticAction, numActions, ofParams, Ne.symm hK'] using h

/-- Two children, initial action `1`: the constructed controller routes through child 1 and
credits child 0. -/
theorem ofParams_credits_child_zero_two :
    Reachable (ofParams twoChildParams 0 0) ∧ (ofParams twoChildParams 0 0).currentAction = 1 ∧
      (ofParams twoChildParams 0 0).lastAction = 0 ∧ ¬ (ofParams twoChildParams 0 0).Credited :=
  ofParams_credits_child_zero twoChildParams 0 0 (by decide) ⟨by decide, by decide⟩ (by decide)

/-- **The reset value is no action without children.** With no children, every
`current_action` other than `-1` is reset to `0`, which is not in `{-1, …, K-1} = {-1}`. -/
theorem ofParams_reset_out_of_range (p : Params α) (now ops : UInt64) (hK : p.children = [])
    (hc : p.currentAction ≠ -1) :
    Reachable (ofParams p now ops) ∧ (ofParams p now ops).currentAction = 0 ∧
      ¬ (ofParams p now ops).ActionRange := by
  have h : (ofParams p now ops).currentAction = 0 := by
    rw [ofParams_currentAction, hK, if_pos (by simp only [List.length_nil]; omega)]
  refine ⟨.ofParams p now ops, h, fun ⟨_, hlt, _⟩ => ?_⟩
  rw [h] at hlt
  simp [ofParams, hK] at hlt

/-- No children, initial action `0`. -/
def childlessParams : Params ℚ := ⟨[], [], [], 0, 1 / 10, 1 / 10, false, false⟩

theorem ofParams_reset_out_of_range_childless :
    Reachable (ofParams childlessParams 0 0) ∧ (ofParams childlessParams 0 0).currentAction = 0 ∧
      ¬ (ofParams childlessParams 0 0).ActionRange :=
  ofParams_reset_out_of_range childlessParams 0 0 rfl (by decide)

/-- **Actions in range with children.** For a controller with at least one child, every
reachable state has `currentAction ∈ {-1, …, K-1}` and `lastAction ∈ {0, …, K}`. -/
theorem actionRange_of_reachable {c : MLPrefetchController α} (h : Reachable c)
    (hK : c.children ≠ []) : c.ActionRange := by
  have keep : ∀ c c' : MLPrefetchController α, c'.currentAction = c.currentAction →
      c'.lastAction = c.lastAction → c'.children = c.children →
      (c.children ≠ [] → c.ActionRange) → c'.children ≠ [] → c'.ActionRange :=
    fun _ _ hca hla hch hc hK => (hc (hch ▸ hK)).of_eq hca hla hch
  refine Reachable.induction (fun c => c.children ≠ [] → c.ActionRange)
    (fun c _ _ => keep c _ (by simp) (by simp) (by simp)) (fun c _ _ => keep c _ rfl rfl rfl)
    (fun c obs idx hidx _ _ => ActionRange.afterEpoch obs hidx) (fun p now ops hK => ?_)
    (fun c ofBits file cache => ?_) h hK
  · have hK' : 0 < p.children.length := List.length_pos.2 hK
    simp only [ActionRange, ofParams_currentAction, ofParams_children]
    refine ⟨?_, ?_, le_refl _, Int.ofNat_nonneg _⟩ <;> split <;> omega
  · obtain ⟨_, _, _, hs⟩ := startup_eq c ofBits file cache
    rw [hs]
    exact keep c _ rfl rfl rfl

/-- The constructed two-child controller. -/
theorem actionRange_of_reachable_two :
    (ofParams twoChildParams 0 0).ActionRange :=
  actionRange_of_reachable (.ofParams twoChildParams 0 0) (by decide)

end MLPrefetchController

end MLPrefetch
