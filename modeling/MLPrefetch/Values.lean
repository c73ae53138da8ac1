import MLPrefetch.Actions

/-!
# MLPrefetch — Bounded rewards and Q-values

With doubles read as exact values of an ordered field and a learning rate in `[0, 1]`:

* the accuracy proxy lies in `[0, 1]` whatever the counters did (`accuracyOf_mem`), so the
  base reward lies in `[-1, 1]` (`baseReward_mem`);
* the penalties the constructor sets lie in `[0, 0.03]` and never change, so every reward lies
  in `[-1 - 0.03, 1]` (`epochReward_mem`);
* the update `old + lr * (reward - old)` is a convex combination and new entries start at `0`,
  so a band `[lo, hi]` around `0` that holds the rewards holds every Q-value from the load on
  (`QBounded.afterEpoch`, `rewards_and_qValues_bounded`).
-/

namespace MLPrefetch

section Signals

variable {α : Type} [LinearOrderedField α]

theorem clamp_mem {s : α} (hs : 0 ≤ s) (r : α) :
    -s ≤ (if (if s < r then s else r) < -s then -s else if s < r then s else r) ∧
      (if (if s < r then s else r) < -s then -s else if s < r then s else r) ≤ s := by
  split_ifs <;> constructor <;> linarith

/-- The accuracy proxy lies in `[0, 1]`: the clamp keeps the improvement in
`[-ACC_MAX_SPAN, ACC_MAX_SPAN]`. -/
theorem accuracyOf_mem (lastSmoothed smoothed : α) :
    0 ≤ accuracyOf lastSmoothed smoothed ∧ accuracyOf lastSmoothed smoothed ≤ 1 := by
  have hs : (0 : α) < accMaxSpan := by norm_num [accMaxSpan]
  obtain ⟨h₁, h₂⟩ := clamp_mem hs.le (lastSmoothed - smoothed)
  unfold accuracyOf
  exact ⟨div_nonneg (by linarith) (by linarith), (div_le_one (by linarith)).2 (by linarith)⟩

/-- With the accuracy in `[0, 1]`, `0.5 * ipcSign + 0.5 * (2 * accuracy - 1)` lies in
`[-1, 1]`. -/
theorem baseReward_mem {ipcDelta accuracy : α} (h₀ : 0 ≤ accuracy) (h₁ : accuracy ≤ 1) :
    -1 ≤ baseReward ipcDelta accuracy ∧ baseReward ipcDelta accuracy ≤ 1 := by
  have hsign : ∀ s : α, -1 ≤ s → s ≤ 1 →
      -1 ≤ 0.5 * s + 0.5 * (2 * accuracy - 1) ∧ 0.5 * s + 0.5 * (2 * accuracy - 1) ≤ 1 := by
    rw [show (0.5 : α) = 1 / 2 by norm_num]
    exact fun s hs₀ hs₁ => ⟨by linarith, by linarith⟩
  unfold baseReward
  apply hsign <;> split_ifs <;> norm_num

/-- Every entry lies in `[0, 0.03]`. -/
def PenaltiesBounded (penalties : List α) : Prop := ∀ x ∈ penalties, 0 ≤ x ∧ x ≤ 0.03

theorem defaultPenalties_bounded (n : Nat) : PenaltiesBounded (defaultPenalties n : List α) := by
  have hset : ∀ {l : List α} {i : Nat} {v : α}, PenaltiesBounded l → 0 ≤ v ∧ v ≤ 0.03 →
      PenaltiesBounded (l.set i v) := fun hl hv x hx =>
    (List.mem_or_eq_of_mem_set hx).elim (hl x) (fun h => h ▸ hv)
  have h₀ : PenaltiesBounded (List.replicate n (0 : α)) := fun x hx => by
    rw [List.eq_of_mem_replicate hx]
    norm_num
  unfold defaultPenalties
  dsimp only
  split_ifs <;> first
    | exact h₀
    | exact hset h₀ (by norm_num)
    | exact hset (hset h₀ (by norm_num)) (by norm_num)

@[simp] theorem length_defaultPenalties (n : Nat) : (defaultPenalties n : List α).length = n := by
  unfold defaultPenalties
  split_ifs <;> simp

/-- The initial penalty of bandit index `i`: `0.02` at `1` and `0.03` at `2` when those indices
exist, `0` everywhere else. -/
theorem getD_defaultPenalties (n i : Nat) :
    (defaultPenalties n : List α).getD i 0 =
      if i = 1 ∧ 2 ≤ n then 0.02 else if i = 2 ∧ 3 ≤ n then 0.03 else 0 := by
  unfold defaultPenalties
  simp only [List.getD_eq_getElem?_getD]
  split_ifs <;> simp only [List.getElem?_set, List.getElem?_replicate, List.length_set,
    List.length_replicate] <;> split_ifs <;> first | rfl | omega

/-- The penalty of the OFF index `K` among the `K + 1` initial penalties: `0.02` for one child,
`0.03` for two, and `0` otherwise. -/
theorem penalty_off (K : Nat) :
    penalty (defaultPenalties (K + 1) : List α) K =
      if K = 1 then 0.02 else if K = 2 then 0.03 else 0 := by
  rw [penalty, if_pos ⟨Int.ofNat_nonneg K, by simp⟩, Int.toNat_ofNat, getD_defaultPenalties]
  simp only [Nat.le_add_left, and_true, show 2 ≤ K + 1 ↔ 1 ≤ K by omega,
    show 3 ≤ K + 1 ↔ 2 ≤ K by omega]
  split_ifs <;> first | rfl | omega

theorem penalty_mem {penalties : List α} (hp : PenaltiesBounded penalties) (lastAction : Int) :
    0 ≤ penalty penalties lastAction ∧ penalty penalties lastAction ≤ 0.03 := by
  unfold penalty
  split
  · rename_i h
    have hi : lastAction.toNat < penalties.length := by omega
    rw [List.getD_eq_getElem?_getD, List.getElem?_eq_getElem hi, Option.getD_some]
    exact hp _ (List.getElem_mem hi)
  · norm_num

end Signals

section QValues

variable {α : Type} [LinearOrderedField α] {lo hi : α}

/-- Every Q-value lies in `[lo, hi]`. -/
def QBounded (lo hi : α) (q : QTable α) : Prop :=
  q.AllRows fun row => ∀ v ∈ row, lo ≤ v ∧ v ≤ hi

theorem QBounded.mono {lo' hi' : α} {q : QTable α} (h : QBounded lo hi q) (hlo : lo' ≤ lo)
    (hhi : hi ≤ hi') : QBounded lo' hi' q :=
  fun e he v hv => ⟨hlo.trans (h e he v hv).1, (h e he v hv).2.trans hhi⟩

/-- A row read through `qTable[k]` and zero-extended holds stored values and zeros. -/
theorem QBounded.rowAt {q : QTable α} (h : QBounded lo hi q) (h0 : lo ≤ 0 ∧ 0 ≤ hi) (n : Nat)
    (k : UInt64) : ∀ v ∈ q.rowAt n k, lo ≤ v ∧ v ≤ hi := by
  intro v hv
  rcases QTable.mem_padRow hv with hv | rfl
  · cases hk : q.find? k with
    | none => simp [hk] at hv
    | some r => exact QTable.AllRows.find? h hk v (by simpa [hk] using hv)
  · exact h0

theorem QBounded.ensureRow {q : QTable α} (h : QBounded lo hi q) (h0 : lo ≤ 0 ∧ 0 ≤ hi)
    (n : Nat) (k : UInt64) : QBounded lo hi (q.ensureRow n k) :=
  QTable.AllRows.insert h k (h.rowAt h0 n k)

/-- `old + lr * (reward - old)` with `lr ∈ [0, 1]` lies between `old` and `reward`. -/
theorem convex_mem {old reward lr : α} (ho : lo ≤ old ∧ old ≤ hi)
    (hr : lo ≤ reward ∧ reward ≤ hi) (hlr : 0 ≤ lr ∧ lr ≤ 1) :
    lo ≤ old + lr * (reward - old) ∧ old + lr * (reward - old) ≤ hi := by
  have hlr' : 0 ≤ 1 - lr := sub_nonneg.2 hlr.2
  rw [show old + lr * (reward - old) = (1 - lr) * old + lr * reward by ring]
  constructor
  · calc lo = (1 - lr) * lo + lr * lo := by ring
      _ ≤ (1 - lr) * old + lr * reward :=
        add_le_add (mul_le_mul_of_nonneg_left ho.1 hlr') (mul_le_mul_of_nonneg_left hr.1 hlr.1)
  · calc (1 - lr) * old + lr * reward ≤ (1 - lr) * hi + lr * hi :=
        add_le_add (mul_le_mul_of_nonneg_left ho.2 hlr') (mul_le_mul_of_nonneg_left hr.2 hlr.1)
      _ = hi := by ring

end QValues

namespace MLPrefetchController

variable {α : Type} [LinearOrderedField α] {lo hi : α}

/-- Step 6 keeps the band: the zero-extended row is in it, and so is the convex update of
`row[lastAction]` towards a reward in it. -/
theorem mem_updatedRow {c : MLPrefetchController α} (h : QBounded lo hi c.qTable)
    (h0 : lo ≤ 0 ∧ 0 ≤ hi) {reward : α} (hr : lo ≤ reward ∧ reward ≤ hi)
    (hlr : 0 ≤ c.learningRate ∧ c.learningRate ≤ 1) :
    ∀ v ∈ c.updatedRow reward, lo ≤ v ∧ v ≤ hi := by
  have hrow := h.rowAt h0 c.numActions c.lastState
  unfold updatedRow
  split
  · intro v hv
    rcases List.mem_or_eq_of_mem_set hv with hv | rfl
    · exact hrow v hv
    · refine convex_mem ?_ hr hlr
      rw [List.getD_eq_getElem?_getD]
      cases hi : (c.qTable.rowAt c.numActions c.lastState)[c.lastAction.toNat]? with
      | none => exact h0
      | some x => exact hrow x (List.getElem?_mem hi)
  · exact hrow

theorem QBounded.afterEpoch {c : MLPrefetchController α} (h : QBounded lo hi c.qTable)
    (h0 : lo ≤ 0 ∧ 0 ≤ hi) {obs : Observation} (hr : lo ≤ c.epochReward obs ∧ c.epochReward obs ≤ hi)
    (hlr : 0 ≤ c.learningRate ∧ c.learningRate ≤ 1) (idx : Nat) :
    QBounded lo hi (c.afterEpoch obs idx).qTable := by
  rw [afterEpoch_qTable]
  exact QBounded.ensureRow (QTable.AllRows.insert h _ (mem_updatedRow h h0 hr hlr)) h0 _ _

/-- **Bounded rewards.** With penalties in `[0, 0.03]`, the reward of every epoch lies in
`[-1 - 0.03, 1]`, whatever the cache and CPU counters read. -/
theorem epochReward_mem {c : MLPrefetchController α} (hp : PenaltiesBounded c.actionPenalties)
    (obs : Observation) : -1 - 0.03 ≤ c.epochReward obs ∧ c.epochReward obs ≤ 1 := by
  obtain ⟨ha₀, ha₁⟩ := accuracyOf_mem (c.smoothPhase (c.missPhase obs).1).2.2
    (c.smoothPhase (c.missPhase obs).1).2.1
  obtain ⟨hb₀, hb₁⟩ : -1 ≤ baseReward (c.ipcPhase obs).1.2 _ ∧ baseReward _ _ ≤ 1 :=
    baseReward_mem ha₀ ha₁
  obtain ⟨hp₀, hp₁⟩ := penalty_mem hp c.lastAction
  exact ⟨by unfold epochReward; dsimp only [observe]; linarith,
    by unfold epochReward; dsimp only [observe]; linarith⟩

/-- What a simulation keeps: the penalties in `[0, 0.03]`, the learning rate in `[0, 1]`, and
every Q-value in `[lo, hi]`. -/
def ValueInv (lo hi : α) (c : MLPrefetchController α) : Prop :=
  PenaltiesBounded c.actionPenalties ∧ (0 ≤ c.learningRate ∧ c.learningRate ≤ 1) ∧
    QBounded lo hi c.qTable

/-- A band that holds every reward, and so `0`, is kept by every callback. -/
theorem ValueInv.run (hband : lo ≤ -1 - 0.03 ∧ 1 ≤ hi) {c c' : MLPrefetchController α}
    (h : ValueInv lo hi c) (hr : Run c c') : ValueInv lo hi c' := by
  have h0 : lo ≤ 0 ∧ 0 ≤ hi := ⟨hband.1.trans (by norm_num), (by norm_num : (0 : α) ≤ 1).trans hband.2⟩
  refine Run.preserves (ValueInv lo hi) (fun c _ _ hc => by simpa [ValueInv] using hc)
    (fun _ _ _ hc => hc) (fun c obs idx _ ⟨hp, hlr, hq⟩ => ⟨hp, hlr, ?_⟩) hr h
  obtain ⟨hr₀, hr₁⟩ := epochReward_mem hp obs
  exact QBounded.afterEpoch hq h0 ⟨hband.1.trans hr₀, hr₁.trans hband.2⟩ hlr idx

/-- **Bounded rewards and Q-values.** In a simulation whose learning rate lies in `[0, 1]` and
whose table after the load holds values in `[L0, U0]`, every Q-value stays in
`[min (-1 - 0.03) L0, max 1 U0]`, and every epoch's reward lies in `[-1 - 0.03, 1]`. -/
theorem rewards_and_qValues_bounded (p : Params α) (now ops : UInt64) (ofBits : UInt64 → α)
    (file : Option Bytes) (cache : Option (UInt64 × UInt64))
    (hlr : 0 ≤ p.learningRate ∧ p.learningRate ≤ 1) (L0 U0 : α)
    (hload : QBounded L0 U0 ((ofParams p now ops).startup ofBits file cache).qTable)
    {c : MLPrefetchController α} (hr : Run ((ofParams p now ops).startup ofBits file cache) c) :
    QBounded (min (-1 - 0.03) L0) (max 1 U0) c.qTable ∧
      ∀ obs c' r, c.endEpoch obs = some (c', r) → -1 - 0.03 ≤ c'.lastReward ∧ c'.lastReward ≤ 1 := by
  have h₀ : ValueInv (min (-1 - 0.03) L0) (max 1 U0)
      ((ofParams p now ops).startup ofBits file cache) := by
    obtain ⟨_, _, _, hs⟩ := startup_eq (ofParams p now ops) ofBits file cache
    refine ⟨?_, ?_, hload.mono (min_le_right _ _) (le_max_right _ _)⟩ <;> rw [hs]
    · exact defaultPenalties_bounded _
    · exact hlr
  obtain ⟨hp, -, hq⟩ := h₀.run ⟨min_le_left _ _, le_max_left _ _⟩ hr
  refine ⟨hq, fun obs c' r he => ?_⟩
  obtain ⟨idx, -, rfl⟩ := endEpoch_cases he
  rw [afterEpoch_lastReward]
  exact epochReward_mem hp obs

/-- Two children, learning rate `0.1`, no file, three epochs that pick OFF in: the bounds hold
of the table those epochs filled and of the next epoch's reward. -/
theorem rewards_and_qValues_bounded_three_epochs :
    QBounded (min (-1 - 0.03) 0) (max 1 0) (twoChildEpochs none ⟨0, 0, 0, 0, 0, 2⟩ 3).qTable ∧
      ∀ obs c' r, (twoChildEpochs none ⟨0, 0, 0, 0, 0, 2⟩ 3).endEpoch obs = some (c', r) →
        -1 - 0.03 ≤ c'.lastReward ∧ c'.lastReward ≤ 1 :=
  rewards_and_qValues_bounded twoChildParams 0 0 (fun _ => 0) none none
    ⟨by norm_num [twoChildParams], by norm_num [twoChildParams]⟩ 0 0
    (by rw [(startup_fields _ _ _ _).2]; exact QTable.AllRows.empty _)
    (run_twoChildEpochs none _ 3)

/-! ## The penalty of the OFF index -/

/-- The penalties are the constructor's in every state of every simulation. -/
theorem actionPenalties_eq {c : MLPrefetchController α} (h : Reachable c) :
    c.actionPenalties = defaultPenalties c.numActions := by
  refine Reachable.induction (fun c => c.actionPenalties = defaultPenalties c.numActions)
    (fun c _ _ hc => by simpa [numActions] using hc) (fun _ _ _ hc => hc)
    (fun c obs idx _ hc => ?_) (fun _ _ _ => rfl) (fun c ofBits file cache hc => ?_) h
  · dsimp only
    rwa [afterEpoch_actionPenalties, afterEpoch_numActions]
  · obtain ⟨_, _, _, hs⟩ := startup_eq c ofBits file cache
    rw [hs]
    exact hc

/-- **The OFF index is penalised with one or two children.** In every reachable state whose
`lastAction` is the OFF index `K`, the reward the epoch computes — the one the Q update moves
`row[K]` towards and `lastReward` records — is `0.5 * ipcSign + 0.5 * (2 * accuracy - 1)` less
`0.02` when `K = 1` and less `0.03` when `K = 2`; for every other `K` it is that base reward. -/
theorem offAction_penalty {c : MLPrefetchController α} (h : Reachable c)
    (hoff : c.lastAction = c.children.length) (obs : Observation) :
    ∃ c' r, c.endEpoch obs = some (c', r) ∧
      c'.lastReward = baseReward r.signals.ipcDelta r.signals.accuracy -
        if c.children.length = 1 then 0.02 else if c.children.length = 2 then 0.03 else 0 := by
  obtain ⟨idx, -, he⟩ := endEpoch_eq c obs
  refine ⟨_, _, he, ?_⟩
  rw [afterEpoch_lastReward, epochReward, actionPenalties_eq h, hoff, numActions, penalty_off]

/-- When the draw explores, `selectAction` returns `pick % numActions`. -/
theorem epochAction_explore (c : MLPrefetchController α) (obs : Observation)
    (h : (obs.draw : α) / (randMax : α) < c.exploreRate) :
    c.epochAction obs = obs.pick % c.numActions := by
  simp only [epochAction, chooseAction, selectAction, observe, h, if_true]
  rfl

/-- The first epoch of the two-child controller explores (`draw = 0`) and picks OFF (`2`). -/
def offObs : Observation := ⟨0, 0, 0, 0, 0, 2⟩

/-- The two-child controller after that epoch: `lastAction` is the OFF index `2`. -/
def offState : MLPrefetchController ℚ := (ofParams twoChildParams 0 0).afterEpoch offObs 2

theorem reachable_offState : Reachable offState := by
  refine .step (.endEpoch offObs) (.ofParams twoChildParams 0 0) ?_
  have h : ((offObs.draw : Nat) : ℚ) / (randMax : ℚ) < (ofParams twoChildParams 0 0).exploreRate := by
    show ((0 : Nat) : ℚ) / (randMax : ℚ) < 1 / 10
    norm_num
  rw [step_endEpoch_afterEpoch, epochAction_explore _ _ h]
  rfl

/-- The epoch after it credits `row[2]` with a reward less `0.03`. -/
theorem offAction_penalty_two_children :
    Reachable offState ∧ offState.lastAction = offState.children.length ∧
      ∃ c' r, offState.endEpoch offObs = some (c', r) ∧
        c'.lastReward = baseReward r.signals.ipcDelta r.signals.accuracy -
          if offState.children.length = 1 then 0.02
          else if offState.children.length = 2 then 0.03 else 0 :=
  ⟨reachable_offState, rfl, offAction_penalty reachable_offState rfl offObs⟩

end MLPrefetchController

end MLPrefetch
