import MLPrefetch.Actions

/-!
# MLPrefetch — Row widths

Every stored row has exactly `numActions = K + 1` entries (`RowWidth`), along a chain of
simulations linked through the Q-table file.

* Within a simulation: the zero-extension of step 6 and of `selectAction` creates every row at
  width `K + 1`, the update keeps widths, and no other callback writes the table
  (`RowWidth.run`).
* Across simulations: a file that `saveQTable` wrote under the same child names reads back its
  rows cut to their `u32` lengths (`rowWidth_startup_saved`), which keeps the width when
  `K + 1 < 2^32` (`rowWidth_of_chain`). That covers every child count a configuration can hold,
  whose `numActions` fits the code's `int`.
-/

namespace MLPrefetch

namespace MLPrefetchController

variable {α : Type} [LinearOrderedField α]

/-- Every stored row has exactly `numActions` entries. -/
def RowWidth (c : MLPrefetchController α) : Prop :=
  c.qTable.AllRows fun row => row.length = c.numActions

theorem length_updatedRow {c : MLPrefetchController α} (h : c.RowWidth) (reward : α) :
    (c.updatedRow reward).length = c.numActions := by
  unfold updatedRow
  split
  · rw [List.length_set]
    exact QTable.length_rowAt h _
  · exact QTable.length_rowAt h _

theorem RowWidth.afterEpoch {c : MLPrefetchController α} (h : c.RowWidth) (obs : Observation)
    (idx : Nat) : (c.afterEpoch obs idx).RowWidth := by
  unfold RowWidth
  rw [afterEpoch_qTable, afterEpoch_numActions]
  exact (h.insert _ (length_updatedRow h _)).ensureRow _

/-- Within a simulation, the widths never change. -/
theorem RowWidth.run {c c' : MLPrefetchController α} (h : c.RowWidth) (hr : Run c c') :
    c'.RowWidth :=
  Run.preserves RowWidth (fun c _ _ hc => by simpa [RowWidth, numActions] using hc)
    (fun _ _ _ hc => hc) (fun _ obs idx _ hc => hc.afterEpoch obs idx) hr h

/-! ## The start of a simulation -/

theorem rowWidth_startup_none (p : Params α) (now ops : UInt64) (ofBits : UInt64 → α)
    (cache : Option (UInt64 × UInt64)) :
    ((ofParams p now ops).startup ofBits none cache).RowWidth := by
  unfold RowWidth
  rw [(startup_fields _ ofBits none cache).2]
  exact QTable.AllRows.empty _

omit [LinearOrderedField α] in
theorem signature_of_names {c' : MLPrefetchController α} {p : Params α}
    (hnames : c'.children.map Child.name = p.children.map Child.name) :
    childrenSignature c'.children = childrenSignature p.children := by
  rw [childrenSignature_eq, childrenSignature_eq, hnames]

/-- Loading the file `saveQTable` wrote from a state `c'` whose children bear the loader's
children's names reads back `readBack` of its table when the signature fits its `u32` length. -/
theorem startup_saved_qTable {c' : MLPrefetchController α} (p : Params α) (now ops : UInt64)
    (ofBits : UInt64 → α) (toBits : α → UInt64) (cache : Option (UInt64 × UInt64))
    (hnames : c'.children.map Child.name = p.children.map Child.name)
    (hsig : (childrenSignature p.children).length < 2 ^ 32) :
    ((ofParams p now ops).startup ofBits (some (c'.saveQTable toBits)) cache).qTable =
      (readBack (c'.qTable.map toBits)).map ofBits := by
  rw [(startup_fields _ _ _ _).2, ofParams_children, saveQTable, signature_of_names hnames,
    loadQTable_saveQTable_self, if_pos hsig]
  rfl

/-- Loading such a file from a state whose rows are `K + 1` wide gives rows `(K + 1) % 2^32`
wide: each row reads back cut to its `u32` length. -/
theorem startup_saved_rows {c' : MLPrefetchController α} (hc' : c'.RowWidth) (p : Params α)
    (now ops : UInt64) (ofBits : UInt64 → α) (toBits : α → UInt64)
    (cache : Option (UInt64 × UInt64))
    (hnames : c'.children.map Child.name = p.children.map Child.name) :
    ((ofParams p now ops).startup ofBits (some (c'.saveQTable toBits)) cache).qTable.AllRows
      fun row => row.length = (p.children.length + 1) % 2 ^ 32 := by
  have hn : c'.numActions = p.children.length + 1 := by
    simpa [numActions] using congrArg List.length hnames
  by_cases hsig : (childrenSignature p.children).length < 2 ^ 32
  · rw [startup_saved_qTable p now ops ofBits toBits cache hnames hsig]
    refine QTable.AllRows.map (AllRows.readBack (QTable.AllRows.map fun e he => ?_))
    dsimp only
    rw [List.length_map, length_keptRow, List.length_map, hc' e he, hn]
  · rw [(startup_fields _ _ _ _).2, ofParams_children, saveQTable, signature_of_names hnames,
      loadQTable_saveQTable_self, if_neg hsig]
    exact QTable.AllRows.empty _

/-- Below `2^32` actions the cut keeps every row whole: a controller loading such a file starts
with rows `K + 1` wide. -/
theorem rowWidth_startup_saved {c' : MLPrefetchController α} (hc' : c'.RowWidth) (p : Params α)
    (now ops : UInt64) (ofBits : UInt64 → α) (toBits : α → UInt64)
    (cache : Option (UInt64 × UInt64))
    (hnames : c'.children.map Child.name = p.children.map Child.name)
    (hK : p.children.length + 1 < 2 ^ 32) :
    ((ofParams p now ops).startup ofBits (some (c'.saveQTable toBits)) cache).RowWidth := by
  have h := startup_saved_rows hc' p now ops ofBits toBits cache hnames
  rw [Nat.mod_eq_of_lt hK] at h
  unfold RowWidth numActions
  rwa [(startup_fields _ _ _ _).1, ofParams_children]

/-! ## Chains of simulations -/

/-- The Q-table files successive simulations of controllers whose children bear the names
`names` leave behind: none at first, then what `saveQTable` writes from a state of a
simulation that started on an earlier such file. `ofBits` and `toBits` are the bit patterns
of doubles, read and written. -/
inductive ChainFile (ofBits : UInt64 → α) (toBits : α → UInt64) (names : List Bytes) :
    Option Bytes → Prop
  | none : ChainFile ofBits toBits names none
  | saved {file : Option Bytes} (p : Params α) (now ops : UInt64)
      (cache : Option (UInt64 × UInt64)) {c : MLPrefetchController α} :
      ChainFile ofBits toBits names file → p.children.map Child.name = names →
      Run ((ofParams p now ops).startup ofBits file cache) c →
      ChainFile ofBits toBits names (some (c.saveQTable toBits))

theorem rowWidth_of_chain_run {ofBits : UInt64 → α} {toBits : α → UInt64} {names : List Bytes}
    {file : Option Bytes} (hfile : ChainFile ofBits toBits names file) (p : Params α)
    (now ops : UInt64) (cache : Option (UInt64 × UInt64)) (hp : p.children.map Child.name = names)
    (hK : p.children.length + 1 < 2 ^ 32) {c : MLPrefetchController α}
    (hr : Run ((ofParams p now ops).startup ofBits file cache) c) : c.RowWidth := by
  induction hfile generalizing p now ops cache c with
  | none => exact (rowWidth_startup_none p now ops ofBits cache).run hr
  | saved p' now' ops' cache' _ hp' hr' ih =>
    have hlen : p'.children.length = p.children.length := by
      simpa using congrArg List.length (hp'.trans hp.symm)
    have hch := (Run.children_eq hr').trans (startup_fields _ ofBits _ cache').1
    exact (rowWidth_startup_saved (ih p' now' ops' cache' hp' (hlen ▸ hK) hr') p now ops ofBits
      toBits cache (by rw [hch, ofParams_children, hp', hp]) hK).run hr

/-- **Rows are `K + 1` wide along every chain of simulations.** For `K + 1 < 2^32`, a
simulation that starts on no file or on a file an earlier simulation with the same child names
saved has rows of exactly `K + 1` entries after construction, after the load and after every
callback. -/
theorem rowWidth_of_chain {ofBits : UInt64 → α} {toBits : α → UInt64} {names : List Bytes}
    {file : Option Bytes} (hfile : ChainFile ofBits toBits names file) (p : Params α)
    (now ops : UInt64) (cache : Option (UInt64 × UInt64)) (hp : p.children.map Child.name = names)
    (hK : p.children.length + 1 < 2 ^ 32) {c : MLPrefetchController α}
    (hr : Run ((ofParams p now ops).startup ofBits file cache) c) :
    (ofParams p now ops).RowWidth ∧ c.RowWidth :=
  ⟨QTable.AllRows.empty _, rowWidth_of_chain_run hfile p now ops cache hp hK hr⟩

/-- Two children: three epochs into a second simulation, which started on the file a first one
saved after two epochs; every epoch picks OFF. -/
theorem rowWidth_of_chain_second_run :
    (ofParams twoChildParams 0 0).RowWidth ∧
      (twoChildEpochs (some ((twoChildEpochs none ⟨0, 0, 0, 0, 0, 2⟩ 2).saveQTable fun _ => 0))
        ⟨0, 0, 0, 0, 0, 2⟩ 3).RowWidth :=
  rowWidth_of_chain (.saved twoChildParams 0 0 none .none rfl (run_twoChildEpochs none _ 2))
    twoChildParams 0 0 none rfl (by decide) (run_twoChildEpochs _ _ 3)

end MLPrefetchController

end MLPrefetch
