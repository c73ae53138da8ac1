import MLPrefetch.Usage

/-!
# MLPrefetch — What the Q-table learns

Step 6 of `endEpoch` is the incremental-mean update
`row[lastAction] = oldVal + learningRate * (reward - oldVal)` on the row of `lastState`, a row
the code creates and zero-extends lazily, as `selectAction` does for the row of the new state.

* `QTable.value` reads the table as a function of `(state, action)`, `0` where no row or entry
  is stored; the lazy creation and zero-extension never change it (`QTable.value_ensureRow`).
* An epoch credits its reward to one pair, `(lastState, lastAction)`: the state the previous
  epoch computed and the bandit index it chose (`credits`). It moves the value of that pair
  towards the reward and leaves every other value as it was (`value_afterEpoch`).
* Over any run, from any state, every value is therefore the exponential moving average at
  rate `learningRate` of the rewards credited to its pair, in order, starting from its value
  before the run (`qValue_movingAverage`). A pair whose credits all carry one reward is that
  one move, repeated once per credit (`movingAverage_const`).
-/

namespace MLPrefetch

namespace MLPrefetchController

variable {α : Type} [LinearOrderedField α]

/-- Step 6's move of a value `v` towards the reward `r` at rate `lr`. -/
def towards (lr v r : α) : α := v + lr * (r - v)

/-- What an epoch credits: its reward, to `(lastState, lastAction)` when `lastAction` is a
bandit index (otherwise step 6 updates nothing). -/
def credits (c : MLPrefetchController α) : Event → List (UInt64 × Nat × α)
  | .endEpoch obs =>
    if 0 ≤ c.lastAction ∧ c.lastAction < c.numActions then
      [(c.lastState, c.lastAction.toNat, c.epochReward obs)]
    else []
  | _ => []

/-- The moving average at rate `lr`, from `v`, of the rewards a credit log gives the pair
`(k, a)`, in order. -/
def movingAverage (lr : α) (k : UInt64) (a : Nat) (log : List (UInt64 × Nat × α)) (v : α) : α :=
  ((log.filter fun x => x.1 = k ∧ x.2.1 = a).map fun x => x.2.2).foldl (towards lr) v

theorem movingAverage_append (lr : α) (k : UInt64) (a : Nat) (l₁ l₂ : List (UInt64 × Nat × α))
    (v : α) :
    movingAverage lr k a (l₁ ++ l₂) v = movingAverage lr k a l₂ (movingAverage lr k a l₁ v) := by
  simp only [movingAverage, List.filter_append, List.map_append, List.foldl_append]

/-! ## One epoch -/

/-- Entry `a` of the row step 6 leaves: the value of `(lastState, a)`, moved towards the reward
when `a` is `lastAction`. -/
theorem getD_updatedRow (c : MLPrefetchController α) (reward : α) (a : Nat) :
    (c.updatedRow reward).getD a 0 =
      if (0 ≤ c.lastAction ∧ c.lastAction < c.numActions) ∧ a = c.lastAction.toNat then
        towards c.learningRate (c.qTable.value c.lastState a) reward
      else c.qTable.value c.lastState a := by
  unfold updatedRow
  split
  · rename_i h
    have hlt : c.lastAction.toNat < (c.qTable.rowAt c.numActions c.lastState).length := by
      have := QTable.le_length_rowAt c.qTable c.numActions c.lastState
      omega
    by_cases ha : a = c.lastAction.toNat
    · subst ha
      rw [if_pos ⟨h, rfl⟩, List.getD_eq_getElem?_getD, List.getElem?_set_self hlt,
        Option.getD_some, QTable.getD_rowAt]
      rfl
    · rw [if_neg fun h' => ha h'.2, List.getD_eq_getElem?_getD, List.getElem?_set_ne (Ne.symm ha),
        ← List.getD_eq_getElem?_getD, QTable.getD_rowAt]
  · rename_i h
    rw [if_neg fun h' => h h'.1, QTable.getD_rowAt]

/-- An epoch moves the value of the pair it credits towards its reward, and no other value. -/
theorem value_afterEpoch (c : MLPrefetchController α) (obs : Observation) (idx : Nat)
    (k : UInt64) (a : Nat) :
    (c.afterEpoch obs idx).qTable.value k a =
      movingAverage c.learningRate k a (c.credits (.endEpoch obs)) (c.qTable.value k a) := by
  rw [afterEpoch_qTable, QTable.value_ensureRow, QTable.value_insert, getD_updatedRow]
  unfold credits movingAverage
  by_cases hv : 0 ≤ c.lastAction ∧ c.lastAction < c.numActions
  · by_cases hk : k = c.lastState
    · subst hk
      by_cases ha : a = c.lastAction.toNat <;> simp [hv, ha, eq_comm]
    · simp [hv, hk, Ne.symm hk]
  · simp only [hv, false_and, if_false, List.filter_nil, List.map_nil, List.foldl_nil]
    split_ifs with hk <;> simp only [hk]

/-- What one callback does to the values: an epoch makes its credit, the other callbacks leave
the table and the learning rate alone. -/
theorem value_step (c : MLPrefetchController α) (e : Event) :
    ∃ c', c.step e = some c' ∧ c'.learningRate = c.learningRate ∧
      ∀ k a, c'.qTable.value k a =
        movingAverage c.learningRate k a (c.credits e) (c.qTable.value k a) := by
  cases e with
  | notify addr miss => exact ⟨_, rfl, by simp, fun k a => by simp [credits, movingAverage]⟩
  | calculatePrefetch now cands =>
    exact ⟨_, rfl, rfl, fun k a => by simp [credits, movingAverage]⟩
  | endEpoch obs =>
    exact ⟨_, step_endEpoch_afterEpoch c obs, rfl,
      value_afterEpoch c obs _⟩

/-! ## Runs -/

/-- The run lemma: each callback's credits, in order. -/
theorem value_exec (c : MLPrefetchController α) (es : List Event) :
    ∃ c' log, execWith credits c es = some (c', log) ∧
      ∀ k a, c'.qTable.value k a = movingAverage c.learningRate k a log (c.qTable.value k a) := by
  induction es generalizing c with
  | nil => exact ⟨c, [], rfl, fun _ _ => rfl⟩
  | cons e es ih =>
    obtain ⟨c₁, h₁, hlr, hv⟩ := value_step c e
    obtain ⟨c₂, log, h₂, hv₂⟩ := ih c₁
    refine ⟨c₂, c.credits e ++ log, by simp [execWith, h₁, h₂], fun k a => ?_⟩
    rw [hv₂, hlr, hv, movingAverage_append]

/-- **The Q-table is a moving average of credited rewards.** From every state, on every list of
callbacks, the value of every pair `(state, action)` at the end is the exponential moving
average at rate `learningRate` of the rewards the run's epochs credited to that pair, in order,
starting from the pair's value before the run. -/
theorem qValue_movingAverage (c : MLPrefetchController α) (es : List Event) :
    ∃ c' log, execWith credits c es = some (c', log) ∧
      ∀ k a, c'.qTable.value k a = movingAverage c.learningRate k a log (c.qTable.value k a) :=
  value_exec c es

/-- A fold over `m` copies of `r` applies `f · r` `m` times. -/
theorem foldl_replicate {β γ : Type} (f : β → γ → β) (r : γ) (m : Nat) (v : β) :
    (List.replicate m r).foldl f v = (fun v => f v r)^[m] v := by
  induction m generalizing v with
  | zero => rfl
  | succ m ih => rw [List.replicate_succ, List.foldl_cons, ih, Function.iterate_succ_apply]

/-- The moving average of a pair all of whose credits carry the reward `r` is the move towards
`r`, once per credit to the pair. -/
theorem movingAverage_const (lr : α) (k : UInt64) (a : Nat) (log : List (UInt64 × Nat × α))
    (v r : α) (hr : ∀ x ∈ log, x.1 = k → x.2.1 = a → x.2.2 = r) :
    movingAverage lr k a log v =
      (fun v => towards lr v r)^[log.countP fun x => x.1 = k ∧ x.2.1 = a] v := by
  have hrep : ((log.filter fun x => x.1 = k ∧ x.2.1 = a).map fun x => x.2.2) =
      List.replicate (log.countP fun x => x.1 = k ∧ x.2.1 = a) r := by
    refine List.eq_replicate_iff.2 ⟨by rw [List.length_map, List.countP_eq_length_filter], ?_⟩
    intro b hb
    obtain ⟨x, hx, rfl⟩ := List.mem_map.1 hb
    obtain ⟨hx, hka⟩ := List.mem_filter.1 hx
    simp only [decide_eq_true_eq] at hka
    exact hr x hx hka.1 hka.2
  rw [movingAverage, hrep, foldl_replicate]

end MLPrefetchController

end MLPrefetch
