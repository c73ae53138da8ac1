import MLPrefetch.Learning

/-!
# MLPrefetch — Epochs without a cache or a CPU

`startup()` leaves `cachePtr` null when the lookup of `cacheName` or its cast to `BaseCache`
fails, and the constructor leaves `cpuPtr` null when `p->cpu` is unset. Steps 1 and 2 of
`endEpoch` then read no totals: the miss rate stays `0` and the IPC change `0`.

* Without a cache the smoothed miss rate is `0` in every state of a simulation
  (`smoothedMissRate_of_noCache`): the first epoch seeds it with the miss rate `0`, and every
  later one averages `0` into `0`.
* So every epoch of such a simulation sees no miss signal: `deltaSmoothedMiss = 0`,
  `accuracy = 1/2`, and a state `120 + ipcBin` that carries the IPC bin alone
  (`noCache_epoch`).
* Without a CPU as well, every epoch computes the one state `121` and the reward
  `-actionPenalties[lastAction]` (`noSensors_epoch`). Every credit of a pair `(k, a)` then
  carries `-actionPenalties[a]`, so over any run its value is the code's move towards that one
  reward, once per credit: the bandit learns the penalties alone (`qValue_noSensors`).
-/

namespace MLPrefetch

namespace MLPrefetchController

variable {α : Type} [LinearOrderedField α]

/-! ## One epoch -/

theorem missPhase_of_noCache {c : MLPrefetchController α} (h : c.hasCache = false)
    (obs : Observation) : c.missPhase obs = (0, c.lastAccesses, c.lastMisses) := by
  simp [missPhase, h]

theorem ipcPhase_of_noCpu {c : MLPrefetchController α} (h : c.hasCpu = false)
    (obs : Observation) : (c.ipcPhase obs).1 = (c.lastIpc, 0) := by
  simp [ipcPhase, h]

/-- A smoothed miss rate of `0` averages a miss rate of `0` into `0`, on the first epoch and on
every later one. -/
theorem smoothPhase_zero {c : MLPrefetchController α} (h : c.smoothedMissRate = 0) :
    c.smoothPhase 0 = (0, 0, 0) := by
  unfold smoothPhase
  split <;> simp [h]

/-- The signals of an epoch without a cache, from a smoothed miss rate of `0`, and the smoothed
miss rate it leaves. -/
theorem observe_of_noCache {c : MLPrefetchController α} (hc : c.hasCache = false)
    (hs : c.smoothedMissRate = 0) (obs : Observation) :
    (c.observe obs).1 = ⟨0, (c.ipcPhase obs).1.1, (c.ipcPhase obs).1.2, 0, 1 / 2⟩ ∧
      (c.observe obs).2.smoothedMissRate = 0 := by
  simp only [observe, missPhase_of_noCache hc, smoothPhase_zero hs, accuracyOf, accMaxSpan]
  norm_num

/-! ## Every state of a simulation -/

/-- Without a cache, the smoothed miss rate is `0` in every state of a simulation. -/
theorem smoothedMissRate_of_noCache {c : MLPrefetchController α} (h : Reachable c)
    (hc : c.hasCache = false) : c.smoothedMissRate = 0 := by
  induction h with
  | ofParams => rfl
  | startup p now ops ofBits file cache =>
    obtain ⟨_, _, _, h⟩ := startup_eq (ofParams p now ops) ofBits file cache
    rw [h]
    rfl
  | @step c _ e _ hs ih =>
    rcases step_cases hs with ⟨addr, miss, rfl⟩ | ⟨now, cands, rfl⟩ | ⟨obs, idx, -, rfl⟩
    · simpa using ih (by simpa using hc)
    · exact ih hc
    · have hc : c.hasCache = false := hc
      exact (observe_of_noCache hc (ih hc) obs).2

/-- **No miss signal without a cache.** In every state of a simulation whose cache lookup
failed, every epoch has miss rate `0`, `deltaSmoothedMiss = 0` and `accuracy = 1/2`, and its
state is `120 + ipcBin`: the miss and accuracy bins are fixed and only the IPC bin varies. -/
theorem noCache_epoch {c : MLPrefetchController α} (h : Reachable c) (hc : c.hasCache = false)
    (obs : Observation) :
    ∃ c' r, c.endEpoch obs = some (c', r) ∧ r.signals.missRate = 0 ∧
      r.signals.deltaSmoothedMiss = 0 ∧ r.signals.accuracy = 1 / 2 ∧
      r.state = UInt64.ofNat (120 + encodeDeltaIpc r.signals.ipcDelta) := by
  have hsig := (observe_of_noCache hc (smoothedMissRate_of_noCache h hc) obs).1
  have hacc : encodeAccuracy (1 / 2 : α) = 1 := by norm_num [encodeAccuracy]
  have hmiss : encodeDeltaMiss (0 : α) = 2 := by norm_num [encodeDeltaMiss]
  refine ⟨_, _, endEpoch_eq_epochAction c obs, by rw [hsig], by rw [hsig], by rw [hsig], ?_⟩
  simp only [epochState, encodeState, hsig, hacc, hmiss]

/-- The epoch of a controller started without a cache, from the two-child parameters. -/
theorem noCache_epoch_startup :
    ∃ c' r, ((ofParams twoChildParams 0 0).startup (fun _ => 0) none none).endEpoch
        ⟨0, 0, 0, 0, 0, 0⟩ = some (c', r) ∧ r.signals.missRate = 0 ∧
      r.signals.deltaSmoothedMiss = 0 ∧ r.signals.accuracy = 1 / 2 ∧
      r.state = UInt64.ofNat (120 + encodeDeltaIpc r.signals.ipcDelta) :=
  noCache_epoch (.startup twoChildParams 0 0 _ none none) rfl _

/-- The signals of an epoch with neither sensor: no change at all, and `accuracy = 1/2`. -/
theorem observe_of_noSensors {c : MLPrefetchController α} (h : Reachable c)
    (hc : c.hasCache = false) (hcpu : c.hasCpu = false) (obs : Observation) :
    (c.observe obs).1 = ⟨0, c.lastIpc, 0, 0, 1 / 2⟩ := by
  have hsig := (observe_of_noCache hc (smoothedMissRate_of_noCache h hc) obs).1
  rwa [ipcPhase_of_noCpu hcpu] at hsig

theorem epochState_of_noSensors {c : MLPrefetchController α} (h : Reachable c)
    (hc : c.hasCache = false) (hcpu : c.hasCpu = false) (obs : Observation) :
    c.epochState obs = 121 := by
  simp only [epochState, observe_of_noSensors h hc hcpu obs, encodeState]
  norm_num [encodeAccuracy, encodeDeltaMiss, encodeDeltaIpc]
  rfl

theorem epochReward_of_noSensors {c : MLPrefetchController α} (h : Reachable c)
    (hc : c.hasCache = false) (hcpu : c.hasCpu = false) (obs : Observation) :
    c.epochReward obs = -penalty c.actionPenalties c.lastAction := by
  simp only [epochReward, observe_of_noSensors h hc hcpu obs, baseReward]
  norm_num

/-- **One state and the penalties alone without either sensor.** In every state of a
simulation with neither a cache nor a CPU, every epoch computes the state `121` and the reward
`-actionPenalties[lastAction]`. -/
theorem noSensors_epoch {c : MLPrefetchController α} (h : Reachable c)
    (hc : c.hasCache = false) (hcpu : c.hasCpu = false) (obs : Observation) :
    ∃ c' r, c.endEpoch obs = some (c', r) ∧ r.state = 121 ∧
      c'.lastReward = -penalty c.actionPenalties c.lastAction :=
  ⟨_, _, endEpoch_eq_epochAction c obs, epochState_of_noSensors h hc hcpu obs,
    epochReward_of_noSensors h hc hcpu obs⟩

/-- The epoch of the two-child controller, which has no CPU, started without a cache. -/
theorem noSensors_epoch_startup :
    ∃ c' r, ((ofParams twoChildParams 0 0).startup (fun _ => 0) none none).endEpoch
        ⟨0, 0, 0, 0, 0, 0⟩ = some (c', r) ∧ r.state = 121 ∧
      c'.lastReward = -penalty (defaultPenalties 3) 0 :=
  noSensors_epoch (.startup twoChildParams 0 0 _ none none) rfl rfl _

/-! ## What the bandit learns without sensors -/

/-- The callbacks keep the sensors and the penalties. -/
theorem step_sensors {c c' : MLPrefetchController α} {e : Event} (hs : c.step e = some c') :
    c'.hasCache = c.hasCache ∧ c'.hasCpu = c.hasCpu ∧ c'.actionPenalties = c.actionPenalties := by
  rcases step_cases hs with ⟨addr, miss, rfl⟩ | ⟨now, cands, rfl⟩ | ⟨obs, idx, -, rfl⟩
  · simp
  · exact ⟨rfl, rfl, rfl⟩
  · exact ⟨rfl, rfl, rfl⟩

/-- A run keeps the sensors. -/
theorem Run.sensors {c c' : MLPrefetchController α} (hr : Run c c') :
    c'.hasCache = c.hasCache ∧ c'.hasCpu = c.hasCpu := by
  induction hr with
  | refl => exact ⟨rfl, rfl⟩
  | tail _ hs ih =>
    obtain ⟨e, hs⟩ := hs
    obtain ⟨hc, hcpu, -⟩ := step_sensors hs
    exact ⟨hc.trans ih.1, hcpu.trans ih.2⟩

/-- With neither sensor, an epoch credits its pair `(lastState, a)` with `-actionPenalties[a]`. -/
theorem credits_of_noSensors {c : MLPrefetchController α} (h : Reachable c)
    (hc : c.hasCache = false) (hcpu : c.hasCpu = false) (e : Event) :
    ∀ x ∈ c.credits e, x.2.2 = -penalty c.actionPenalties x.2.1 := by
  cases e with
  | endEpoch obs =>
    simp only [credits]
    split
    · rename_i hv
      rintro x hx
      obtain rfl := List.mem_singleton.1 hx
      show c.epochReward obs = -penalty c.actionPenalties (c.lastAction.toNat : Int)
      rw [epochReward_of_noSensors h hc hcpu obs, Int.toNat_of_nonneg hv.1]
    · simp
  | notify => simp [credits]
  | calculatePrefetch => simp [credits]

/-- The run lemma: every credit of a run with neither sensor carries the penalty of its action. -/
theorem credits_of_noSensors_exec (es : List Event) {c c' : MLPrefetchController α}
    {log : List (UInt64 × Nat × α)} (h : Reachable c) (hc : c.hasCache = false)
    (hcpu : c.hasCpu = false) (hrun : execWith credits c es = some (c', log)) :
    ∀ x ∈ log, x.2.2 = -penalty c.actionPenalties x.2.1 := by
  induction es generalizing c c' log with
  | nil =>
    cases hrun
    simp
  | cons e es ih =>
    cases hs : c.step e with
    | none => simp [execWith, hs] at hrun
    | some c₁ =>
      simp only [execWith, hs, Option.some_bind, Option.map_eq_some'] at hrun
      obtain ⟨⟨c₂, log₁⟩, h₁, heq⟩ := hrun
      cases heq
      obtain ⟨hc₁, hcpu₁, hps⟩ := step_sensors hs
      intro x hx
      rcases List.mem_append.1 hx with hx | hx
      · exact credits_of_noSensors h hc hcpu e x hx
      · rw [← hps]
        exact ih (.step e h hs) (hc₁.trans hc) (hcpu₁.trans hcpu) h₁ x hx

/-- **Without sensors the bandit learns the penalties alone.** In every state of a simulation
with neither a cache nor a CPU, over every run, the value of every pair `(k, a)` is the code's
update `v + learningRate * (-actionPenalties[a] - v)` applied to its value before the run, once
for each of the `m` credits to the pair: the one reward it ever moves towards is the penalty. -/
theorem qValue_noSensors {c : MLPrefetchController α} (h : Reachable c)
    (hc : c.hasCache = false) (hcpu : c.hasCpu = false) (es : List Event) :
    ∃ c' log, execWith credits c es = some (c', log) ∧ ∀ k a,
      c'.qTable.value k a =
        (fun v => towards c.learningRate v (-penalty c.actionPenalties a))^[log.countP
          fun x => x.1 = k ∧ x.2.1 = a] (c.qTable.value k a) := by
  obtain ⟨c', log, hrun, hv⟩ := value_exec c es
  refine ⟨c', log, hrun, fun k a => ?_⟩
  rw [hv]
  exact movingAverage_const c.learningRate k a log (c.qTable.value k a) _
    fun x hx _ ha => by rw [credits_of_noSensors_exec es h hc hcpu hrun x hx, ha]

/-- One epoch of the two-child controller, which has no CPU, started without a cache. -/
theorem qValue_noSensors_startup :
    let c := (ofParams twoChildParams 0 0).startup (fun _ => (0 : ℚ)) none none
    ∃ c' log, execWith credits c [.endEpoch ⟨0, 0, 0, 0, 0, 0⟩] = some (c', log) ∧ ∀ k a,
      c'.qTable.value k a =
        (fun v => towards c.learningRate v (-penalty c.actionPenalties a))^[log.countP
          fun x => x.1 = k ∧ x.2.1 = a] (c.qTable.value k a) :=
  qValue_noSensors (.startup twoChildParams 0 0 _ none none) rfl rfl _

end MLPrefetchController

end MLPrefetch
