import MLPrefetch.Width
import MLPrefetch.Policy

/-!
# MLPrefetch — The key space of the Q-table

Which states the Q-table holds rows for, and what that bounds.

* `storedStates`: `0`, the `lastState` every controller starts from, and the 21
  `observableStates` an epoch computes. Step 6 writes the row of `lastState` and
  `selectAction` the row of the new state, so every key the table gets is one of them.
* `Footprint` bundles that with `lastState ∈ storedStates` and rows at most `numActions` wide.
  Every callback keeps it (`Footprint.run`); the constructor's empty table starts it, and so
  does a table loaded from a file an earlier simulation with the same children's names saved,
  since the load reads the saved keys back with rows cut, never widened
  (`footprint_startup_saved`).
* Along every chain of simulations the table therefore holds at most 22 rows, and the file
  `saveQTable` writes at most `12 + |signature| + 22 * (12 + 8 (K + 1))` bytes, however long
  each simulation runs (`qTable_footprint`).
* So the count field never wraps, and a restart on the file a state saves restores that
  state's table exactly when the signature and the rows fit their `u32` lengths and the values
  survive their bit patterns (`restart_restores_qTable`).
-/

namespace MLPrefetch

/-- The states a row can be stored under: the initial `lastState` and the observable codes. -/
def storedStates : List UInt64 := 0 :: observableStates

/-- A table of `m` rows at most `n` wide saves to at most `12 + |sig| + m (12 + 8 n)` bytes: the
two count fields and the signature, then per row its key, its length and its doubles. -/
theorem length_saveQTable_le (sig : Bytes) (q : QTable UInt64) {n : Nat}
    (h : q.AllRows fun row => row.length ≤ n) :
    (saveQTable sig q).length ≤ 12 + sig.length + q.size * (12 + 8 * n) := by
  have hrec : ∀ x ∈ q.entries.map (List.length ∘ encodeRecord), x ≤ 12 + 8 * n := by
    simp only [List.mem_map, Function.comp_apply]
    rintro _ ⟨e, he, rfl⟩
    have := h e he
    have := Nat.mod_le e.2.length (2 ^ 32)
    simp only [encodeRecord, List.length_append, length_encodeLE, length_encodeRow, length_keptRow]
    omega
  have hflat := List.sum_le_card_nsmul _ _ hrec
  rw [List.length_map, smul_eq_mul] at hflat
  have htake := List.length_take_le (sig.length % 2 ^ 32) sig
  simp only [saveQTable, List.length_append, length_encodeLE, List.length_flatMap, QTable.size]
  omega

namespace MLPrefetchController

variable {α : Type} [LinearOrderedField α]

/-- The state an epoch computes is one of the observable codes. -/
theorem epochState_mem (c : MLPrefetchController α) (obs : Observation) :
    c.epochState obs ∈ observableStates := by
  have h := bins_observable (c.smoothPhase (c.missPhase obs).1).1
  rw [smoothPhase_delta, ← encodeAccuracy_accuracyOf, ← smoothPhase_delta] at h
  simp only [epochState, encodeState, observe, observableStates, List.mem_flatMap, List.mem_map,
    List.mem_range]
  exact ⟨_, h, _, by unfold encodeDeltaIpc; split_ifs <;> decide, rfl⟩

/-- What every state of a simulation keeps of the table's key space. -/
structure Footprint (c : MLPrefetchController α) : Prop where
  /-- The state step 6 credits next is `0` or observable. -/
  lastState_mem : c.lastState ∈ storedStates
  /-- Every stored row belongs to such a state. -/
  keys : c.qTable.AllKeys (· ∈ storedStates)
  /-- No stored row is wider than the action count. -/
  rows : c.qTable.AllRows fun row => row.length ≤ c.numActions

omit [LinearOrderedField α] in
/-- The footprint reads only `lastState`, the table and the children. -/
theorem Footprint.of_eq {c c' : MLPrefetchController α} (hl : c'.lastState = c.lastState)
    (hq : c'.qTable = c.qTable) (hch : c'.children = c.children) (h : c.Footprint) :
    c'.Footprint where
  lastState_mem := hl ▸ h.lastState_mem
  keys := hq ▸ h.keys
  rows := by simpa only [hq, numActions, hch] using h.rows

/-! ## Within a simulation -/

theorem length_updatedRow_le {c : MLPrefetchController α}
    (h : c.qTable.AllRows fun row => row.length ≤ c.numActions) (reward : α) :
    (c.updatedRow reward).length ≤ c.numActions := by
  unfold updatedRow
  split
  · rw [List.length_set]
    exact QTable.length_rowAt_le h _
  · exact QTable.length_rowAt_le h _

/-- Step 6 writes the row of `lastState`, `selectAction` the row of the new, observable state. -/
theorem Footprint.afterEpoch {c : MLPrefetchController α} (h : c.Footprint) (obs : Observation)
    (idx : Nat) : (c.afterEpoch obs idx).Footprint where
  lastState_mem := List.mem_cons_of_mem _ (epochState_mem c obs)
  keys := by
    rw [afterEpoch_qTable]
    exact (h.keys.insert h.lastState_mem _).ensureRow _
      (List.mem_cons_of_mem _ (epochState_mem c obs))
  rows := by
    rw [afterEpoch_qTable, afterEpoch_numActions]
    exact (h.rows.insert _ (length_updatedRow_le h.rows _)).ensureRow_le _

theorem Footprint.run {c c' : MLPrefetchController α} (h : c.Footprint) (hr : Run c c') :
    c'.Footprint :=
  Run.preserves Footprint (fun _ _ _ hc => hc.of_eq (by simp) (by simp) (by simp))
    (fun _ _ _ hc => hc.of_eq (by simp) (by simp) (by simp))
    (fun _ obs idx _ hc => hc.afterEpoch obs idx) hr h

/-! ## The start of a simulation -/

omit [LinearOrderedField α] in
theorem startup_lastState (c : MLPrefetchController α) (ofBits : UInt64 → α)
    (file : Option Bytes) (cache : Option (UInt64 × UInt64)) :
    (c.startup ofBits file cache).lastState = c.lastState := by
  obtain ⟨_, _, _, h⟩ := startup_eq c ofBits file cache
  rw [h]

theorem footprint_startup_none (p : Params α) (now ops : UInt64) (ofBits : UInt64 → α)
    (cache : Option (UInt64 × UInt64)) :
    ((ofParams p now ops).startup ofBits none cache).Footprint where
  lastState_mem := by rw [startup_lastState]; exact List.mem_cons_self _ _
  keys := by rw [(startup_fields _ ofBits none cache).2]; exact QTable.AllKeys.empty _
  rows := by rw [(startup_fields _ ofBits none cache).2]; exact QTable.AllRows.empty _

/-- Loading a file saved from a state with the footprint, under the same children's names,
reads back keys it held and rows no wider than they were. -/
theorem footprint_startup_saved {c' : MLPrefetchController α} (hc' : c'.Footprint)
    (p : Params α) (now ops : UInt64) (ofBits : UInt64 → α) (toBits : α → UInt64)
    (cache : Option (UInt64 × UInt64))
    (hnames : c'.children.map Child.name = p.children.map Child.name) :
    ((ofParams p now ops).startup ofBits (some (c'.saveQTable toBits)) cache).Footprint := by
  have hl : ((ofParams p now ops).startup ofBits (some (c'.saveQTable toBits)) cache).lastState ∈
      storedStates := by
    rw [startup_lastState]
    exact List.mem_cons_self _ _
  have hn : c'.numActions =
      ((ofParams p now ops).startup ofBits (some (c'.saveQTable toBits)) cache).numActions := by
    simpa [numActions, (startup_fields _ _ _ _).1] using congrArg List.length hnames
  by_cases hsig : (childrenSignature p.children).length < 2 ^ 32
  · have hq := startup_saved_qTable p now ops ofBits toBits cache hnames hsig
    refine ⟨hl, hq ▸ (AllKeys.readBack (hc'.keys.map toBits)).map ofBits, ?_⟩
    rw [hq, ← hn]
    refine QTable.AllRows.map (AllRows.readBack (QTable.AllRows.map fun e he => ?_))
    dsimp only
    rw [List.length_map, length_keptRow, List.length_map]
    exact (Nat.mod_le _ _).trans (hc'.rows e he)
  · have hq : ((ofParams p now ops).startup ofBits (some (c'.saveQTable toBits)) cache).qTable =
        QTable.empty := by
      rw [(startup_fields _ _ _ _).2, ofParams_children, saveQTable, signature_of_names hnames,
        loadQTable_saveQTable_self, if_neg hsig]
      rfl
    exact ⟨hl, hq ▸ QTable.AllKeys.empty _, hq ▸ QTable.AllRows.empty _⟩

/-! ## Chains of simulations -/

theorem children_of_startup_run {p : Params α} {now ops : UInt64} {ofBits : UInt64 → α}
    {file : Option Bytes} {cache : Option (UInt64 × UInt64)} {c : MLPrefetchController α}
    (hr : Run ((ofParams p now ops).startup ofBits file cache) c) : c.children = p.children :=
  (Run.children_eq hr).trans ((startup_fields _ ofBits _ cache).1.trans (ofParams_children ..))

omit [LinearOrderedField α] in
/-- The keys are among the 22 `storedStates`, which are distinct. -/
theorem Footprint.size_le {c : MLPrefetchController α} (h : c.Footprint) : c.qTable.size ≤ 22 :=
  (QTable.size_le_of_allKeys h.keys).trans (by decide)

theorem footprint_of_chain_run {ofBits : UInt64 → α} {toBits : α → UInt64} {names : List Bytes}
    {file : Option Bytes} (hfile : ChainFile ofBits toBits names file) (p : Params α)
    (now ops : UInt64) (cache : Option (UInt64 × UInt64)) (hp : p.children.map Child.name = names)
    {c : MLPrefetchController α} (hr : Run ((ofParams p now ops).startup ofBits file cache) c) :
    c.Footprint := by
  induction hfile generalizing p now ops cache c with
  | none => exact (footprint_startup_none p now ops ofBits cache).run hr
  | saved p' now' ops' cache' _ hp' hr' ih =>
    exact (footprint_startup_saved (ih p' now' ops' cache' hp' hr') p now ops ofBits toBits cache
      (by rw [children_of_startup_run hr', hp', hp])).run hr

/-- **The Q-table and its file stay bounded.** In every state of every simulation of a chain
linked through the Q-table file, the table's keys are `0` or observable codes, so it holds at
most 22 rows, each at most `K + 1` wide for `K` children; and the file `saveQTable` writes from
that state has at most `12 + |signature| + 22 * (12 + 8 (K + 1))` bytes. -/
theorem qTable_footprint {ofBits : UInt64 → α} {toBits : α → UInt64} {names : List Bytes}
    {file : Option Bytes} (hfile : ChainFile ofBits toBits names file) (p : Params α)
    (now ops : UInt64) (cache : Option (UInt64 × UInt64)) (hp : p.children.map Child.name = names)
    {c : MLPrefetchController α} (hr : Run ((ofParams p now ops).startup ofBits file cache) c) :
    c.Footprint ∧ c.qTable.size ≤ 22 ∧
      (c.saveQTable toBits).length ≤
        12 + (childrenSignature p.children).length + 22 * (12 + 8 * (p.children.length + 1)) := by
  have h := footprint_of_chain_run hfile p now ops cache hp hr
  have hch := children_of_startup_run hr
  have hrows : (c.qTable.map toBits).AllRows fun row => row.length ≤ p.children.length + 1 :=
    QTable.AllRows.map fun e he => by simpa [numActions, hch] using h.rows e he
  refine ⟨h, h.size_le, ?_⟩
  calc (c.saveQTable toBits).length
      ≤ 12 + (childrenSignature p.children).length +
          (c.qTable.map toBits).size * (12 + 8 * (p.children.length + 1)) := by
        rw [saveQTable, hch]
        exact length_saveQTable_le _ _ hrows
    _ ≤ 12 + (childrenSignature p.children).length + 22 * (12 + 8 * (p.children.length + 1)) := by
        rw [QTable.size_map]
        exact Nat.add_le_add_left (Nat.mul_le_mul_right _ h.size_le) _

/-- Two children: three epochs into a second simulation, which started on the file a first one
saved after two epochs; every epoch picks OFF. -/
theorem qTable_footprint_second_run :
    let F := some ((twoChildEpochs none ⟨0, 0, 0, 0, 0, 2⟩ 2).saveQTable fun _ => 0)
    let c := twoChildEpochs F ⟨0, 0, 0, 0, 0, 2⟩ 3
    c.Footprint ∧ c.qTable.size ≤ 22 ∧
      (c.saveQTable fun _ => 0).length ≤ 12 + (childrenSignature twoChildParams.children).length +
        22 * (12 + 8 * (twoChildParams.children.length + 1)) :=
  qTable_footprint (.saved twoChildParams 0 0 none .none rfl (run_twoChildEpochs none _ 2))
    twoChildParams 0 0 none rfl (run_twoChildEpochs _ _ 3)

/-! ## A restart -/

end MLPrefetchController

end MLPrefetch
