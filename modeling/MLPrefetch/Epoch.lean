import Mathlib
import MLPrefetch.Controller

/-!
# MLPrefetch — Epoch

`endEpoch()` and `selectAction()`, step by step as the source numbers them:

1. the miss rate of the epoch from the cache's running totals (`missPhase`);
2. IPC and its change from the CPU's `totalOps()` (`ipcPhase`);
3. the smoothed miss rate and its change, then the accuracy proxy (`smoothPhase`,
   `accuracyOf`);
4. the state key from three bins (`encodeState`);
5. the shaped reward (`rewardOf`);
6. the bandit update of `row[lastAction]` for `lastState` (`updateQ`);
7. the next action, ε-greedy (`selectAction`), its semantic action and usage counter, and the
   exploration decay;
9. the commit of `currentAction`, `lastState` and `lastAction`.

Step 8, the CSV row, writes process-wide state and is returned as an `EpochReport`.
Every vector access that could leave its vector is a `getElem?`: `none` is the undefined
behaviour of an out-of-range `operator[]`.
-/

namespace MLPrefetch

/-- What an epoch event reads from its collaborators. -/
structure Observation where
  /-- `cachePtr->getRuntimeAccesses()` -/
  accesses : UInt64
  /-- `cachePtr->getRuntimeMisses()` -/
  misses : UInt64
  /-- `cpuPtr->totalOps()` -/
  totalOps : UInt64
  /-- `curTick()` -/
  now : UInt64
  /-- the first `random()` of `selectAction` -/
  draw : Nat
  /-- the second `random()`, read only when exploring -/
  pick : Nat

/-- The signals of an epoch, computed by steps 1–3. -/
structure Signals (α : Type) where
  missRate : α
  newIpc : α
  ipcDelta : α
  deltaSmoothedMiss : α
  accuracy : α

/-- The values step 8 logs, besides the epoch counter and the tick. -/
structure EpochReport (α : Type) where
  state : UInt64
  signals : Signals α
  action : Int

section Discretize

variable {α : Type} [LinearOrderedField α]

/-- `encodeDeltaMiss(d)` -/
def encodeDeltaMiss (d : α) : Nat :=
  if d < -0.10 then 0 else if d < -0.02 then 1 else if d < 0.02 then 2 else if d < 0.10 then 3
  else 4

/-- `encodeDeltaIpc(d)` -/
def encodeDeltaIpc (d : α) : Nat :=
  if d < -1e-4 then 0 else if d < 1e-4 then 1 else 2

/-- `encodeAccuracy(a)` -/
def encodeAccuracy (a : α) : Nat :=
  if a ≤ 0.20 then 0 else if a ≤ 0.60 then 1 else 2

/-- Step 4: `(uint64_t)(accBin * 100 + missBin * 10 + ipcBin)`. -/
def encodeState (deltaSmoothedMiss ipcDelta accuracy : α) : UInt64 :=
  UInt64.ofNat (encodeAccuracy accuracy * 100 + encodeDeltaMiss deltaSmoothedMiss * 10 +
    encodeDeltaIpc ipcDelta)

/-- The accuracy proxy: `raw_improve = lastSmoothedMiss - smoothedMissRate`, clamped to
`[-ACC_MAX_SPAN, ACC_MAX_SPAN]` and mapped linearly onto `[0, 1]`. -/
def accuracyOf (lastSmoothed smoothed : α) : α :=
  let raw := lastSmoothed - smoothed
  let raw := if accMaxSpan < raw then accMaxSpan else raw
  let raw := if raw < -accMaxSpan then -accMaxSpan else raw
  (raw + accMaxSpan) / (2 * accMaxSpan)

/-- `0.5 * ipcSign + 0.5 * accCentered`, with a dead zone of `1e-6` around a zero IPC change
and `accCentered = 2 * accuracy - 1`. -/
def baseReward (ipcDelta accuracy : α) : α :=
  let ipcSign : α := if 1e-6 < ipcDelta then 1 else 0
  let ipcSign : α := if ipcDelta < -1e-6 then -1 else ipcSign
  0.5 * ipcSign + 0.5 * (2 * accuracy - 1)

/-- The penalty step 5 subtracts: `actionPenalties[lastAction]` when `lastAction` indexes the
vector, and nothing otherwise. -/
def penalty (penalties : List α) (lastAction : Int) : α :=
  if 0 ≤ lastAction ∧ lastAction < penalties.length then penalties.getD lastAction.toNat 0 else 0

/-- Step 5: the base reward, less `actionPenalties[lastAction]` when `lastAction` indexes the
vector. -/
def rewardOf (penalties : List α) (lastAction : Int) (ipcDelta accuracy : α) : Option α :=
  let reward := baseReward ipcDelta accuracy
  if 0 ≤ lastAction ∧ lastAction < penalties.length then
    penalties[lastAction.toNat]?.map (reward - ·)
  else some reward

/-- The greedy scan `for (int i = 1; i < numActions; ++i) if (row[i] > bestVal) ...` with `n`
indices left from `i`, and the best index and value so far. -/
def greedyScan (row : List α) : Nat → Nat → Nat × α → Option (Nat × α)
  | 0, _, best => some best
  | n + 1, i, best => do
    let v ← row[i]?
    greedyScan row n (i + 1) (if best.2 < v then (i, v) else best)

end Discretize

namespace MLPrefetchController

variable {α : Type} [LinearOrderedField α]

/-- Step 1: `missRate = dMis / dAcc` over the cache's totals since the last epoch (`0` with
no accesses or no cache), and the new `lastAccesses` and `lastMisses`. -/
def missPhase (c : MLPrefetchController α) (obs : Observation) : α × UInt64 × UInt64 :=
  if c.hasCache then
    let dAcc := obs.accesses - c.lastAccesses
    let dMis := obs.misses - c.lastMisses
    ((if 0 < dAcc then (dMis.toNat : α) / dAcc.toNat else 0), obs.accesses, obs.misses)
  else (0, c.lastAccesses, c.lastMisses)

/-- Step 2: `newIpc` and `ipcDelta`, and the new `lastTotalOps` and `lastIpcTick`; without a
CPU, or with no tick elapsed, IPC carries over and its change is `0`. -/
def ipcPhase (c : MLPrefetchController α) (obs : Observation) : (α × α) × UInt64 × UInt64 :=
  if c.hasCpu then
    let dt := obs.now - c.lastIpcTick
    let ipc := if 0 < dt then
        let newIpc := ((obs.totalOps - c.lastTotalOps).toNat : α) / dt.toNat
        (newIpc, newIpc - c.lastIpc)
      else (c.lastIpc, 0)
    (ipc, obs.totalOps, obs.now)
  else ((c.lastIpc, 0), c.lastTotalOps, c.lastIpcTick)

/-- Step 3: `deltaSmoothedMiss`, and the new `smoothedMissRate` and `lastSmoothedMiss`. The
first epoch seeds the moving average with its own miss rate. -/
def smoothPhase (c : MLPrefetchController α) (missRate : α) : α × α × α :=
  if !c.haveSmoothedMiss then (0, missRate, missRate)
  else
    let s := missSmoothAlpha * missRate + (1 - missSmoothAlpha) * c.smoothedMissRate
    (s - c.smoothedMissRate, s, c.smoothedMissRate)

/-- Steps 1–3 and the history update `lastMissRate = missRate; lastIpc = newIpc;`: the
signals of the epoch, and the controller with its snapshots advanced. -/
def observe (c : MLPrefetchController α) (obs : Observation) : Signals α × MLPrefetchController α :=
  let m := c.missPhase obs
  let i := c.ipcPhase obs
  let s := c.smoothPhase m.1
  (⟨m.1, i.1.1, i.1.2, s.1, accuracyOf s.2.2 s.2.1⟩,
    { c with lastAccesses := m.2.1, lastMisses := m.2.2, lastTotalOps := i.2.1,
             lastIpcTick := i.2.2, smoothedMissRate := s.2.1, lastSmoothedMiss := s.2.2,
             haveSmoothedMiss := true, lastMissRate := m.1, lastIpc := i.1.1 })

/-- Step 6: `auto &row = qTable[lastState]`, zero-extended to `numActions`, then
`row[lastAction] += learningRate * (reward - row[lastAction])` when `lastAction` is a bandit
index. -/
def updateQ (c : MLPrefetchController α) (reward : α) : Option (QTable α) := do
  let row := c.qTable.rowAt c.numActions c.lastState
  let row ← if 0 ≤ c.lastAction ∧ c.lastAction < c.numActions then do
      let old ← row[c.lastAction.toNat]?
      pure (row.set c.lastAction.toNat (old + c.learningRate * (reward - old)))
    else pure row
  pure (c.qTable.insert c.lastState row)

/-- The row of `lastState` as step 6 leaves it. -/
def updatedRow (c : MLPrefetchController α) (reward : α) : List α :=
  let row := c.qTable.rowAt c.numActions c.lastState
  if 0 ≤ c.lastAction ∧ c.lastAction < c.numActions then
    let old := row.getD c.lastAction.toNat 0
    row.set c.lastAction.toNat (old + c.learningRate * (reward - old))
  else row

/-- `selectAction(state)` with `draw` and `pick` the two `random()` values: create and
zero-extend the row of `state`, then explore (`pick % numActions`) when
`draw / RAND_MAX < exploreRate`, and otherwise scan the row for the first maximum. Returns the
bandit index and the table. -/
def selectAction (c : MLPrefetchController α) (state : UInt64) (draw pick : Nat) :
    Option (Nat × QTable α) := do
  let row := c.qTable.rowAt c.numActions state
  let q := c.qTable.ensureRow c.numActions state
  if ((draw : α) / (randMax : α)) < c.exploreRate then pure (pick % c.numActions, q)
  else do
    let v₀ ← row[0]?
    let best ← greedyScan row (c.numActions - 1) 1 (0, v₀)
    pure (best.1, q)

/-- `endEpoch()`: the controller after the epoch, and what the epoch logs. -/
def endEpoch (c : MLPrefetchController α) (obs : Observation) :
    Option (MLPrefetchController α × EpochReport α) := do
  let (sg, c) := c.observe obs
  let state := encodeState sg.deltaSmoothedMiss sg.ipcDelta sg.accuracy
  let reward ← rewardOf c.actionPenalties c.lastAction sg.ipcDelta sg.accuracy
  let q ← c.updateQ reward
  let (idx, q) ← { c with qTable := q }.selectAction state obs.draw obs.pick
  let nextAction := semanticAction c.numActions idx
  pure ({ c with qTable := q, lastReward := reward, actionUse := c.actionUse.bump idx,
                 exploreRate := max exploreMin (c.exploreRate * exploreDecay),
                 currentAction := nextAction, lastState := state, lastAction := idx,
                 epochAccesses := 0, epochMisses := 0 },
    ⟨state, sg, nextAction⟩)

end MLPrefetchController

/-! ## Every access is in range -/

section Spec

variable {α : Type} [LinearOrderedField α]

theorem QTable.le_length_rowAt (q : QTable α) (n : Nat) (k : UInt64) :
    n ≤ (q.rowAt n k).length := by
  rw [QTable.rowAt, QTable.length_padRow]
  exact le_max_left _ _

theorem rewardOf_eq (p : List α) (a : Int) (d acc : α) :
    rewardOf p a d acc = some (baseReward d acc - penalty p a) := by
  unfold rewardOf penalty
  split
  · rename_i h
    have hi : a.toNat < p.length := by omega
    simp [List.getElem?_eq_getElem hi, List.getD_eq_getElem?_getD]
  · simp

/-- The scan reads `row[i .. i + n - 1]`, all in range, and returns the best so far or one of
the indices read. -/
theorem greedyScan_spec (row : List α) : ∀ (n i : Nat) (best : Nat × α), i + n ≤ row.length →
    best.1 < i → ∃ r, greedyScan row n i best = some r ∧ r.1 < i + n
  | 0, i, best, _, hb => ⟨best, rfl, by simpa using hb⟩
  | n + 1, i, best, hl, hb => by
    have hi : i < row.length := by omega
    obtain ⟨r, hr, hlt⟩ := greedyScan_spec row n (i + 1)
      (if best.2 < row[i] then (i, row[i]) else best) (by omega)
      (by split; exacts [Nat.lt_succ_self i, by omega])
    exact ⟨r, by simp [greedyScan, List.getElem?_eq_getElem hi, hr], by omega⟩

namespace MLPrefetchController

/-- `selectAction` reads only inside the zero-extended row and returns a bandit index. -/
theorem selectAction_spec (c : MLPrefetchController α) (state : UInt64) (draw pick : Nat) :
    ∃ idx, idx < c.numActions ∧
      c.selectAction state draw pick = some (idx, c.qTable.ensureRow c.numActions state) := by
  have hlen := QTable.le_length_rowAt c.qTable c.numActions state
  have hpos : 0 < c.numActions := Nat.succ_pos _
  unfold selectAction
  split
  · exact ⟨_, Nat.mod_lt _ hpos, rfl⟩
  · have h0 : 0 < (c.qTable.rowAt c.numActions state).length := by omega
    obtain ⟨r, hr, hlt⟩ := greedyScan_spec (c.qTable.rowAt c.numActions state) (c.numActions - 1) 1
      (0, (c.qTable.rowAt c.numActions state)[0]) (by omega) Nat.one_pos
    exact ⟨r.1, by omega, by simp [List.getElem?_eq_getElem h0, hr]⟩

/-- The bandit index `selectAction` returns (it always returns one: `selectAction_eq`). -/
def chooseAction (c : MLPrefetchController α) (state : UInt64) (draw pick : Nat) : Nat :=
  ((c.selectAction state draw pick).map Prod.fst).getD 0

theorem selectAction_eq (c : MLPrefetchController α) (state : UInt64) (draw pick : Nat) :
    c.selectAction state draw pick =
      some (c.chooseAction state draw pick, c.qTable.ensureRow c.numActions state) := by
  obtain ⟨idx, -, h⟩ := selectAction_spec c state draw pick
  simp [chooseAction, h]

theorem chooseAction_lt (c : MLPrefetchController α) (state : UInt64) (draw pick : Nat) :
    c.chooseAction state draw pick < c.numActions := by
  obtain ⟨idx, hidx, h⟩ := selectAction_spec c state draw pick
  simpa [chooseAction, h] using hidx

/-- Step 6 reads `row[lastAction]` only inside the zero-extended row. -/
theorem updateQ_eq (c : MLPrefetchController α) (reward : α) :
    c.updateQ reward = some (c.qTable.insert c.lastState (c.updatedRow reward)) := by
  unfold updateQ updatedRow
  split
  · rename_i h
    have hi : c.lastAction.toNat < (c.qTable.rowAt c.numActions c.lastState).length := by
      have := QTable.le_length_rowAt c.qTable c.numActions c.lastState
      unfold numActions at h this ⊢
      omega
    simp [List.getElem?_eq_getElem hi, List.getD_eq_getElem?_getD]
  · rfl

/-- Step 4's state key of the epoch `obs` ends. -/
def epochState (c : MLPrefetchController α) (obs : Observation) : UInt64 :=
  let sg := (c.observe obs).1
  encodeState sg.deltaSmoothedMiss sg.ipcDelta sg.accuracy

/-- Step 5's reward of the epoch `obs` ends. -/
def epochReward (c : MLPrefetchController α) (obs : Observation) : α :=
  let sg := (c.observe obs).1
  baseReward sg.ipcDelta sg.accuracy - penalty c.actionPenalties c.lastAction

/-- The controller `endEpoch` leaves when `selectAction` returns the bandit index `idx`: the
snapshots advanced by steps 1–3, the row of `lastState` updated, the row of the new state
created, and `idx` committed. -/
def afterEpoch (c : MLPrefetchController α) (obs : Observation) (idx : Nat) :
    MLPrefetchController α :=
  { (c.observe obs).2 with
    qTable := (c.qTable.insert c.lastState (c.updatedRow (c.epochReward obs))).ensureRow
      c.numActions (c.epochState obs),
    lastReward := c.epochReward obs, actionUse := c.actionUse.bump idx,
    exploreRate := max exploreMin (c.exploreRate * exploreDecay),
    currentAction := semanticAction c.numActions idx, lastState := c.epochState obs,
    lastAction := idx, epochAccesses := 0, epochMisses := 0 }

/-- The bandit index step 7's `selectAction` returns in the epoch `obs` ends: it runs on the
controller with steps 1–3's snapshots and step 6's table. -/
def epochAction (c : MLPrefetchController α) (obs : Observation) : Nat :=
  { (c.observe obs).2 with
    qTable := c.qTable.insert c.lastState (c.updatedRow (c.epochReward obs)) }.chooseAction
      (c.epochState obs) obs.draw obs.pick

theorem epochAction_lt (c : MLPrefetchController α) (obs : Observation) :
    c.epochAction obs < c.numActions :=
  chooseAction_lt _ _ _ _

/-- `endEpoch` commits the bandit index its `selectAction` returned. -/
theorem endEpoch_eq_epochAction (c : MLPrefetchController α) (obs : Observation) :
    c.endEpoch obs = some (c.afterEpoch obs (c.epochAction obs),
      ⟨c.epochState obs, (c.observe obs).1, semanticAction c.numActions (c.epochAction obs)⟩) := by
  simp only [endEpoch, rewardOf_eq, updateQ_eq, selectAction_eq, Option.bind_eq_bind,
    Option.some_bind]
  rfl

/-- **One epoch.** `endEpoch` always completes: every vector it reads, directly or through
`selectAction`, is read in range. It leaves `afterEpoch` for a bandit index `idx` in range. -/
theorem endEpoch_eq (c : MLPrefetchController α) (obs : Observation) :
    ∃ idx, idx < c.numActions ∧ c.endEpoch obs = some (c.afterEpoch obs idx,
      ⟨c.epochState obs, (c.observe obs).1, semanticAction c.numActions idx⟩) :=
  ⟨_, epochAction_lt c obs, endEpoch_eq_epochAction c obs⟩

section AfterEpoch

variable (c : MLPrefetchController α) (obs : Observation) (idx : Nat)

@[simp] theorem afterEpoch_children : (c.afterEpoch obs idx).children = c.children := rfl
@[simp] theorem afterEpoch_numActions : (c.afterEpoch obs idx).numActions = c.numActions := rfl
@[simp] theorem afterEpoch_tracker : (c.afterEpoch obs idx).tracker = c.tracker := rfl
@[simp] theorem afterEpoch_lastAction : (c.afterEpoch obs idx).lastAction = idx := rfl
@[simp] theorem afterEpoch_currentAction :
    (c.afterEpoch obs idx).currentAction = semanticAction c.numActions idx := rfl
@[simp] theorem afterEpoch_actionPenalties :
    (c.afterEpoch obs idx).actionPenalties = c.actionPenalties := rfl
@[simp] theorem afterEpoch_learningRate :
    (c.afterEpoch obs idx).learningRate = c.learningRate := rfl
@[simp] theorem afterEpoch_lastReward : (c.afterEpoch obs idx).lastReward = c.epochReward obs :=
  rfl
@[simp] theorem afterEpoch_qTable : (c.afterEpoch obs idx).qTable =
    (c.qTable.insert c.lastState (c.updatedRow (c.epochReward obs))).ensureRow c.numActions
      (c.epochState obs) := rfl

end AfterEpoch

end MLPrefetchController

end Spec

end MLPrefetch
