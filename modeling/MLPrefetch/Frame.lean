import MLPrefetch.Actions
import MLPrefetch.Sensors

/-!
# MLPrefetch — Frame of the epoch's table update

`endEpoch` touches the Q-table twice, both times through the lazy `qTable[k]` followed by
`resize(numActions, 0.0)`: step 6 for `lastState`, then `selectAction` for the new state.

* `lastAction` is a bandit index in every reachable state (`lastAction_mem`), so step 6 always
  writes `row[lastAction]`.
* An epoch leaves every row of the table as it was, except the row of `lastState` (created if
  absent, zero-extended, and its entry `lastAction` moved towards the reward) and the row of the
  new state (created if absent and zero-extended); when the two states coincide the second
  access finds the first's row already wide enough (`endEpoch_qTable_frame`). Without sensors
  every epoch from the second on computes its own `lastState` and stores into that row alone.
-/

namespace MLPrefetch

namespace MLPrefetchController

variable {α : Type} [LinearOrderedField α]

/-- `lastAction` is a bandit index: `0` from the constructor, and what `selectAction` returns
ever after. -/
theorem lastAction_mem {c : MLPrefetchController α} (h : Reachable c) :
    0 ≤ c.lastAction ∧ c.lastAction < c.numActions := by
  refine Reachable.induction (fun c => 0 ≤ c.lastAction ∧ c.lastAction < c.numActions)
    (fun c _ _ hc => by simpa [numActions] using hc) (fun _ _ _ hc => hc)
    (fun c obs idx hidx _ => ?_) (fun p _ _ => ?_) (fun c ofBits file cache hc => ?_) h
  · dsimp only
    rw [afterEpoch_lastAction, afterEpoch_numActions]
    exact ⟨Int.ofNat_nonneg idx, Int.ofNat_lt.2 hidx⟩
  · exact ⟨le_refl 0, Int.ofNat_pos.2 (Nat.succ_pos _)⟩
  · obtain ⟨_, _, _, hs⟩ := startup_eq c ofBits file cache
    rw [hs]
    exact hc

/-- Step 6 in a state whose `lastAction` is a bandit index: the entry `lastAction` of the
zero-extended row moves towards the reward. -/
theorem updatedRow_of_mem {c : MLPrefetchController α}
    (h : 0 ≤ c.lastAction ∧ c.lastAction < c.numActions) (reward : α) :
    c.updatedRow reward =
      (c.qTable.rowAt c.numActions c.lastState).set c.lastAction.toNat
        ((c.qTable.rowAt c.numActions c.lastState).getD c.lastAction.toNat 0 +
          c.learningRate * (reward -
            (c.qTable.rowAt c.numActions c.lastState).getD c.lastAction.toNat 0)) :=
  if_pos h

theorem le_length_updatedRow (c : MLPrefetchController α) (reward : α) :
    c.numActions ≤ (c.updatedRow reward).length := by
  have := QTable.le_length_rowAt c.qTable c.numActions c.lastState
  unfold updatedRow
  split
  · rwa [List.length_set]
  · exact this

/-- **Frame of the Q update.** From every reachable state, on every observation, the epoch
changes the table only at `lastState` — whose row, created empty if absent and zero-extended
to `numActions`, has its entry `lastAction` replaced by `old + learningRate * (reward - old)`
— and at the new state — whose row is created empty if absent and zero-extended. Every other
key keeps its row. -/
theorem endEpoch_qTable_frame {c : MLPrefetchController α} (h : Reachable c) (obs : Observation) :
    ∃ c' r, c.endEpoch obs = some (c', r) ∧ ∀ k, c'.qTable.find? k =
      if k = c.lastState then
        let row := QTable.padRow c.numActions ((c.qTable.find? c.lastState).getD [])
        let old := row.getD c.lastAction.toNat 0
        some (row.set c.lastAction.toNat (old + c.learningRate * (c'.lastReward - old)))
      else if k = r.state then some (QTable.padRow c.numActions ((c.qTable.find? k).getD []))
      else c.qTable.find? k := by
  obtain ⟨idx, -, he⟩ := endEpoch_eq c obs
  refine ⟨_, _, he, fun k => ?_⟩
  have hU := updatedRow_of_mem (lastAction_mem h) (c.epochReward obs)
  have hrow : (c.qTable.insert c.lastState (c.updatedRow (c.epochReward obs))).rowAt c.numActions
      (c.epochState obs) = if c.epochState obs = c.lastState then c.updatedRow (c.epochReward obs)
        else c.qTable.rowAt c.numActions (c.epochState obs) := by
    rw [QTable.rowAt, QTable.find?_insert]
    split_ifs
    exacts [QTable.padRow_of_le (le_length_updatedRow c _), rfl]
  dsimp only
  rw [afterEpoch_qTable, QTable.find?_ensureRow, hrow, QTable.find?_insert, afterEpoch_lastReward]
  by_cases hk : k = c.lastState
  · subst hk
    by_cases hs : c.lastState = c.epochState obs
    · rw [if_pos hs, if_pos hs.symm, if_pos rfl, hU]
      rfl
    · rw [if_neg hs, if_pos rfl, if_pos rfl, hU]
      rfl
  · by_cases hs : k = c.epochState obs
    · subst hs
      rw [if_pos rfl, if_neg hk, if_neg hk, if_pos rfl]
      rfl
    · rw [if_neg hs, if_neg hk, if_neg hk, if_neg hs]

/-- After an epoch the table holds a row for `lastState`: `selectAction` created it. -/
theorem find?_lastState_afterEpoch (c : MLPrefetchController α) (obs : Observation) (idx : Nat) :
    ((c.afterEpoch obs idx).qTable.find? (c.afterEpoch obs idx).lastState).isSome := by
  rw [afterEpoch_qTable, QTable.find?_ensureRow]
  split
  · rfl
  · exact absurd rfl ‹_›

/-- The third epoch of the two-child controller, started without a cache or a file, on epochs
that pick OFF: it computes its own `lastState`, `121`, whose row the earlier epochs stored, and
changes that row alone. -/
theorem endEpoch_qTable_frame_third :
    let c := twoChildEpochs none ⟨0, 0, 0, 0, 0, 2⟩ 2
    (c.qTable.find? c.lastState).isSome ∧
      ∃ c' r, c.endEpoch ⟨0, 0, 0, 0, 0, 2⟩ = some (c', r) ∧ r.state = c.lastState ∧
        ∀ k, c'.qTable.find? k =
          if k = c.lastState then
            let row := QTable.padRow c.numActions ((c.qTable.find? c.lastState).getD [])
            let old := row.getD c.lastAction.toNat 0
            some (row.set c.lastAction.toNat (old + c.learningRate * (c'.lastReward - old)))
          else c.qTable.find? k := by
  intro c
  have hreach : ∀ n, Reachable (twoChildEpochs none ⟨0, 0, 0, 0, 0, 2⟩ n) := fun n =>
    (Reachable.startup _ 0 0 _ none none).run (run_twoChildEpochs none _ n)
  have hsens : ∀ n, (twoChildEpochs none ⟨0, 0, 0, 0, 0, 2⟩ n).hasCache = false ∧
      (twoChildEpochs none ⟨0, 0, 0, 0, 0, 2⟩ n).hasCpu = false := fun n =>
    Run.sensors (run_twoChildEpochs none _ n)
  have hlast : c.lastState = 121 := epochState_of_noSensors (hreach 1) (hsens 1).1 (hsens 1).2 _
  obtain ⟨c', r, he, hf⟩ := endEpoch_qTable_frame (hreach 2) ⟨0, 0, 0, 0, 0, 2⟩
  have hstate : r.state = c.lastState := by
    obtain ⟨-, rfl⟩ := Prod.mk.inj (Option.some.inj (he.symm.trans (endEpoch_eq_epochAction c _)))
    exact (epochState_of_noSensors (hreach 2) (hsens 2).1 (hsens 2).2 _).trans hlast.symm
  refine ⟨find?_lastState_afterEpoch _ _ _, c', r, he, hstate, fun k => ?_⟩
  rw [hf k, hstate]
  by_cases hk : k = c.lastState
  · rw [if_pos hk, if_pos hk]
  · rw [if_neg hk, if_neg hk, if_neg hk]

end MLPrefetchController

end MLPrefetch
