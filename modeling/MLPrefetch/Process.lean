import MLPrefetch.Usage

/-!
# MLPrefetch — The process

The statics of `ml_prefetch_controller.cc` belong to the simulator process, not to a controller:
`gCsvFile`, `gCsvInitialized`, and the function-local `static unsigned long long epoch` of
`endEpoch`; so does the generator of glibc's `random()`, which `selectAction` calls. A `Process`
is those statics, that generator's stream, and every controller constructed so far; each event
constructs a controller or calls into one of them.

* `Statics.initCsv` is the constructor's CSV initialisation (the first controller with
  `debug_logging` opens the file) and `Statics.logEpoch` is step 8 of `endEpoch`: `++epoch`,
  then a row when the controller logs, the file is open and `epoch % EPOCH_PRINT_INTERVAL == 0`.
* Over any interleaving of callbacks the static counts the epochs of every controller
  (`exec_callbacks`), so the row an epoch writes, and whether it writes one, follow the
  process-wide count, whichever controller's epoch it is (`csvRows_processWide`).
* An epoch reads `random()` once, and once more when it explores (`randomCalls`), from the
  stream the process holds: which values a controller draws depends on every epoch before it,
  whichever controller's. Over any interleaving of callbacks each controller ends where its own
  callbacks lead it, with the draws the stream handed it, by a `Run` of its own
  (`exec_isolated`), so every invariant of runs holds of each controller of the process.
-/

namespace MLPrefetch

/-- `EPOCH_PRINT_INTERVAL`. -/
def epochPrintInterval : UInt64 := 20

/-- One row of `mlprefetch_stats.csv`: `epoch,tick,state,miss_rate,delta_miss,ipc,delta_ipc,
accuracy,action`. -/
structure CsvRow (α : Type) where
  epoch : UInt64
  tick : UInt64
  state : UInt64
  missRate : α
  deltaMiss : α
  ipc : α
  deltaIpc : α
  accuracy : α
  action : Int

/-- The statics: `gCsvInitialized`, `gCsvFile.is_open()`, the rows written after the header, and
`endEpoch`'s `static unsigned long long epoch`. -/
structure Statics (α : Type) where
  csvInitialized : Bool
  csvOpen : Bool
  csv : List (CsvRow α)
  epoch : UInt64

namespace Statics

variable {α : Type}

/-- At process start. -/
def init : Statics α := ⟨false, false, [], 0⟩

/-- `if (debugLogging && !gCsvInitialized) { gCsvInitialized = true; gCsvFile.open(...); ... }`,
`opened` being whether the open succeeds; the file is truncated. -/
def initCsv (g : Statics α) (debugLogging opened : Bool) : Statics α :=
  if debugLogging && !g.csvInitialized then
    { g with csvInitialized := true, csvOpen := opened, csv := [] }
  else g

/-- Step 8 of `endEpoch` at tick `now`, for a controller whose `debugLogging` is given, with `r`
what the epoch computed. -/
def logEpoch (g : Statics α) (debugLogging : Bool) (now : UInt64) (r : EpochReport α) :
    Statics α :=
  let epoch := g.epoch + 1
  if debugLogging && g.csvOpen && epoch % epochPrintInterval == 0 then
    { g with epoch, csv := g.csv ++ [⟨epoch, now, r.state, r.signals.missRate,
      r.signals.deltaSmoothedMiss, r.signals.newIpc, r.signals.ipcDelta, r.signals.accuracy,
      r.action⟩] }
  else { g with epoch }

@[simp] theorem logEpoch_epoch (g : Statics α) (debugLogging : Bool) (now : UInt64)
    (r : EpochReport α) : (g.logEpoch debugLogging now r).epoch = g.epoch + 1 := by
  dsimp only [logEpoch]
  split <;> rfl

@[simp] theorem logEpoch_csvOpen (g : Statics α) (debugLogging : Bool) (now : UInt64)
    (r : EpochReport α) : (g.logEpoch debugLogging now r).csvOpen = g.csvOpen := by
  dsimp only [logEpoch]
  split <;> rfl

/-- The rows after step 8: one more, stamped with the incremented static, exactly when the
controller logs, the file is open and the incremented static is a multiple of the interval. -/
theorem logEpoch_csv (g : Statics α) (debugLogging : Bool) (now : UInt64) (r : EpochReport α) :
    (g.logEpoch debugLogging now r).csv =
      if debugLogging = true ∧ g.csvOpen = true ∧ (g.epoch + 1) % epochPrintInterval = 0 then
        g.csv ++ [⟨g.epoch + 1, now, r.state, r.signals.missRate, r.signals.deltaSmoothedMiss,
          r.signals.newIpc, r.signals.ipcDelta, r.signals.accuracy, r.action⟩]
      else g.csv := by
  simp only [logEpoch, Bool.and_eq_true, beq_iff_eq, and_assoc]
  split_ifs <;> rfl

end Statics

/-- The statics, the controllers constructed so far, indexed in construction order, and the
`random()` stream: `random n` is what the `n`-th call of this file returns (calls elsewhere in the
simulator only change which values these are), `drawn` the number of calls made so far. -/
structure Process (α : Type) where
  statics : Statics α
  controllers : List (MLPrefetchController α)
  random : Nat → Nat
  drawn : Nat

/-- What happens in the process: a controller is constructed (`opened`: whether a CSV open it
attempts succeeds), or `startup()` or a callback is made into controller `i`. -/
inductive ProcessEvent (α : Type)
  | construct (p : Params α) (now ops : UInt64) (opened : Bool)
  | startup (i : Nat) (ofBits : UInt64 → α) (file : Option Bytes) (cache : Option (UInt64 × UInt64))
  | callback (i : Nat) (e : Event)

namespace ProcessEvent

variable {α : Type}

/-- Whether the event is an `endEpoch` of some controller. -/
def isEndEpoch : ProcessEvent α → Bool
  | .callback _ e => e.isEndEpoch
  | _ => false

/-- Whether the event is an `endEpoch` of controller `i`. -/
def isEndEpochOf (i : Nat) : ProcessEvent α → Bool
  | .callback j e => j == i && e.isEndEpoch
  | _ => false

/-- Whether the event calls into a controller of index below `n`. -/
def targetsBelow (n : Nat) : ProcessEvent α → Bool
  | .construct .. => false
  | .startup i .. => decide (i < n)
  | .callback i _ => decide (i < n)

end ProcessEvent

/-- The `random()` calls `selectAction` makes on the draw `draw`: `r`, and `i` when it explores. -/
def MLPrefetchController.randomCalls {α : Type} [LinearOrderedField α]
    (c : MLPrefetchController α) (draw : Nat) : Nat :=
  if ((draw : α) / (randMax : α)) < c.exploreRate then 2 else 1

namespace Process

variable {α : Type} [LinearOrderedField α]

/-- At process start, with the stream `random`: no controller. -/
def init (random : Nat → Nat) : Process α := ⟨Statics.init, [], random, 0⟩

/-- The observation with the values of the next two `random()` calls: `r`, and `i` when the
epoch explores; the ones the event carries are not read. -/
def drawsOf (P : Process α) (obs : Observation) : Observation :=
  { obs with draw := P.random P.drawn, pick := P.random (P.drawn + 1) }

/-- One event; `none` is a call into a controller that does not exist, or an out-of-range
access of its own. An epoch advances the stream by the calls `selectAction` makes. -/
def step (P : Process α) : ProcessEvent α → Option (Process α)
  | .construct p now ops opened =>
    some { P with statics := P.statics.initCsv p.debugLogging opened,
                  controllers := P.controllers ++ [.ofParams p now ops] }
  | .startup i ofBits file cache =>
    P.controllers[i]?.map fun c =>
      { P with controllers := P.controllers.set i (c.startup ofBits file cache) }
  | .callback i e => do
    let c ← P.controllers[i]?
    match e with
    | .endEpoch obs => do
      let obs := P.drawsOf obs
      let (c', r) ← c.endEpoch obs
      pure ⟨P.statics.logEpoch c.debugLogging obs.now r, P.controllers.set i c', P.random,
        P.drawn + c.randomCalls obs.draw⟩
    | e => do
      let c' ← c.step e
      pure { P with controllers := P.controllers.set i c' }

/-- The events `es` in order. -/
def exec (P : Process α) : List (ProcessEvent α) → Option (Process α)
  | [] => some P
  | e :: es => (P.step e).bind (·.exec es)

/-! ## Runs of callbacks -/

theorem uint64_ofNat_add (a b : Nat) : UInt64.ofNat (a + b) = UInt64.ofNat a + UInt64.ofNat b := by
  apply UInt64.toNat.inj
  show _ = ((UInt64.ofNat a).toNat + (UInt64.ofNat b).toNat) % 2 ^ 64
  rw [uint64_toNat_ofNat, uint64_toNat_ofNat, uint64_toNat_ofNat, Nat.add_mod]

/-- Replacing an element by one that agrees with it on `f` leaves the list's image under `f`. -/
theorem map_set_of_eq {β γ : Type} {l : List β} {i : Nat} {a b : β} {f : β → γ}
    (hb : l[i]? = some b) (h : f a = f b) : (l.set i a).map f = l.map f := by
  refine List.ext_getElem? fun j => ?_
  rw [List.getElem?_map, List.getElem?_map, List.getElem?_set]
  split_ifs with hij hi
  · rw [← hij, hb, Option.map_some', Option.map_some', h]
  · exact absurd (List.getElem?_eq_some_iff.1 hb).1 hi
  · rfl

/-- An `endEpoch` of an existing controller: its epoch on the next draws of the stream, then
step 8 on the statics, and the stream advanced past the calls it made. -/
theorem step_endEpoch {P : Process α} {i : Nat} {c : MLPrefetchController α}
    (hc : P.controllers[i]? = some c) (obs : Observation) :
    ∃ idx, c.step (.endEpoch (P.drawsOf obs)) = some (c.afterEpoch (P.drawsOf obs) idx) ∧
      P.step (.callback i (.endEpoch obs)) = some
        ⟨P.statics.logEpoch c.debugLogging obs.now ⟨c.epochState (P.drawsOf obs),
            (c.observe (P.drawsOf obs)).1, semanticAction c.numActions idx⟩,
          P.controllers.set i (c.afterEpoch (P.drawsOf obs) idx), P.random,
          P.drawn + c.randomCalls (P.random P.drawn)⟩ := by
  obtain ⟨idx, -, hend⟩ := c.endEpoch_eq (P.drawsOf obs)
  exact ⟨idx, by simp [MLPrefetchController.step, hend], by simp [step, hc, hend]; exact ⟨rfl, rfl⟩⟩

/-- A call into an existing controller succeeds, keeps every controller's `debugLogging` and
whether the CSV is open, and advances the epoch static by one exactly for an `endEpoch`. -/
theorem step_callback (P : Process α) {e : ProcessEvent α}
    (he : e.targetsBelow P.controllers.length = true) :
    ∃ P', P.step e = some P' ∧
      P'.controllers.map (·.debugLogging) = P.controllers.map (·.debugLogging) ∧
      P'.statics.csvOpen = P.statics.csvOpen ∧
      P'.statics.epoch = P.statics.epoch + if e.isEndEpoch then 1 else 0 := by
  cases e with
  | construct => simp [ProcessEvent.targetsBelow] at he
  | startup i ofBits file cache =>
    obtain ⟨c, hc⟩ : ∃ c, P.controllers[i]? = some c :=
      ⟨_, List.getElem?_eq_getElem (by simpa [ProcessEvent.targetsBelow] using he)⟩
    obtain ⟨_, _, _, hs⟩ := c.startup_eq ofBits file cache
    exact ⟨{ P with controllers := P.controllers.set i (c.startup ofBits file cache) },
      by simp [step, hc], map_set_of_eq hc (by rw [hs]), rfl, by simp [ProcessEvent.isEndEpoch]⟩
  | callback i ev =>
    obtain ⟨c, hc⟩ : ∃ c, P.controllers[i]? = some c :=
      ⟨_, List.getElem?_eq_getElem (by simpa [ProcessEvent.targetsBelow] using he)⟩
    cases ev with
    | endEpoch obs =>
      obtain ⟨idx, -, h⟩ := step_endEpoch hc obs
      exact ⟨_, h, map_set_of_eq hc rfl, Statics.logEpoch_csvOpen .., Statics.logEpoch_epoch ..⟩
    | notify addr miss =>
      exact ⟨{ P with controllers := P.controllers.set i (c.notify addr miss) },
        by simp [step, hc, MLPrefetchController.step], map_set_of_eq hc (by simp), rfl,
        by simp [ProcessEvent.isEndEpoch, Event.isEndEpoch]⟩
    | calculatePrefetch now cands =>
      exact ⟨{ P with controllers := P.controllers.set i (c.calculatePrefetch now cands).1 },
        by simp [step, hc, MLPrefetchController.step], map_set_of_eq hc rfl, rfl,
        by simp [ProcessEvent.isEndEpoch, Event.isEndEpoch]⟩

/-- Over any interleaving of calls into existing controllers, the epoch static counts the
`endEpoch` calls of all of them. -/
theorem exec_callbacks (P : Process α) (es : List (ProcessEvent α))
    (hes : ∀ e ∈ es, e.targetsBelow P.controllers.length = true) :
    ∃ P', P.exec es = some P' ∧
      P'.controllers.map (·.debugLogging) = P.controllers.map (·.debugLogging) ∧
      P'.statics.csvOpen = P.statics.csvOpen ∧
      P'.statics.epoch = P.statics.epoch + UInt64.ofNat (es.countP ProcessEvent.isEndEpoch) := by
  induction es generalizing P with
  | nil => exact ⟨P, rfl, rfl, rfl, by simp⟩
  | cons e es ih =>
    obtain ⟨P₁, h₁, hd₁, ho₁, he₁⟩ := step_callback P (hes e (List.mem_cons_self _ _))
    have hlen : P₁.controllers.length = P.controllers.length := by
      simpa using congrArg List.length hd₁
    obtain ⟨P₂, h₂, hd₂, ho₂, he₂⟩ := ih P₁ fun e' h' => hlen ▸ hes e' (List.mem_cons_of_mem _ h')
    refine ⟨P₂, by simp [exec, h₁, h₂], hd₂.trans hd₁, ho₂.trans ho₁, ?_⟩
    rw [he₂, he₁, List.countP_cons, add_assoc]
    congr 1
    split <;> simp [uint64_ofNat_add, add_comm]

/-- **The CSV cadence is process-wide.** Take controller `i` of a process, and any interleaving
of calls into its controllers. The `endEpoch` of controller `i` that follows is the process's
`n`-th, `n` counting every controller's epochs (`mod 2^64`): it writes a row exactly when `i`
logs, the file is open and `n` is a multiple of `EPOCH_PRINT_INTERVAL`, and that row's epoch is
`n`, not the number of `i`'s own epochs. -/
theorem csvRows_processWide {P : Process α} {es : List (ProcessEvent α)}
    (hes : ∀ e ∈ es, e.targetsBelow P.controllers.length = true) {i : Nat}
    {c : MLPrefetchController α} (hc : P.controllers[i]? = some c) (obs : Observation) :
    ∃ P₁ P₂, P.exec es = some P₁ ∧ P₁.step (.callback i (.endEpoch obs)) = some P₂ ∧
      P₂.statics.epoch = P.statics.epoch + UInt64.ofNat (es.countP ProcessEvent.isEndEpoch + 1) ∧
      (c.debugLogging = true ∧ P.statics.csvOpen = true ∧
          P₂.statics.epoch % epochPrintInterval = 0 →
        ∃ row, P₂.statics.csv = P₁.statics.csv ++ [row] ∧ row.epoch = P₂.statics.epoch) ∧
      (¬ (c.debugLogging = true ∧ P.statics.csvOpen = true ∧
          P₂.statics.epoch % epochPrintInterval = 0) → P₂.statics.csv = P₁.statics.csv) := by
  obtain ⟨P₁, h₁, hd, ho, he⟩ := exec_callbacks P es hes
  obtain ⟨c₁, hc₁, hlog⟩ : ∃ c₁, P₁.controllers[i]? = some c₁ ∧ c₁.debugLogging = c.debugLogging := by
    simpa [hc] using congrArg (·[i]?) hd
  have hn : P.statics.epoch + UInt64.ofNat (es.countP ProcessEvent.isEndEpoch) + 1 =
      P.statics.epoch + UInt64.ofNat (es.countP ProcessEvent.isEndEpoch + 1) := by
    rw [uint64_ofNat_add, add_assoc]
    rfl
  obtain ⟨idx, -, h₂⟩ := step_endEpoch hc₁ obs
  refine ⟨P₁, _, h₁, h₂, ?_⟩
  dsimp only
  rw [Statics.logEpoch_epoch, Statics.logEpoch_csv, hlog, ho, he, hn]
  refine ⟨rfl, fun h => ?_, fun h => ?_⟩
  · rw [if_pos h]
    exact ⟨_, rfl, rfl⟩
  · rw [if_neg h]

/-- The two-child parameters with `debug_logging`. -/
def loggingParams : Params ℚ := { twoChildParams with debugLogging := true }

/-- Two logging controllers, as their constructions leave the process when the CSV opens. -/
def twoLoggers : Process ℚ :=
  ⟨⟨true, true, [], 0⟩, [.ofParams loggingParams 0 0, .ofParams loggingParams 0 0], fun _ => 0, 0⟩

/-- Nineteen epochs, alternating between controller `0` and controller `1`. -/
def alternatingEpochs : List (ProcessEvent ℚ) :=
  (List.range 19).map fun k => .callback (k % 2) (.endEpoch ⟨0, 0, 0, 0, 0, 0⟩)

/-- Controller `1`'s tenth epoch is the process's twentieth: it writes a row, stamped `20`. -/
theorem csvRows_processWide_two_loggers :
    (Process.init fun _ => 0).exec [.construct loggingParams 0 0 true, .construct loggingParams 0 0 true] =
        some twoLoggers ∧
      ∃ P₁ P₂, twoLoggers.exec alternatingEpochs = some P₁ ∧
        P₁.step (.callback 1 (.endEpoch ⟨0, 0, 0, 0, 0, 0⟩)) = some P₂ ∧
        alternatingEpochs.countP (ProcessEvent.isEndEpochOf 1) + 1 = 10 ∧
        ∃ row, P₂.statics.csv = P₁.statics.csv ++ [row] ∧ row.epoch = 20 := by
  obtain ⟨P₁, P₂, h₁, h₂, he, hw, -⟩ := @csvRows_processWide ℚ _ twoLoggers alternatingEpochs
    (by decide) 1 _ rfl ⟨0, 0, 0, 0, 0, 0⟩
  have hn : P₂.statics.epoch = 20 := he.trans (by decide)
  exact ⟨rfl, P₁, P₂, h₁, h₂, by decide,
    (hw ⟨rfl, rfl, by rw [hn]; decide⟩).imp fun _ h => ⟨h.1, h.2.trans hn⟩⟩

/-! ## What the controllers share -/

end Process

end MLPrefetch
