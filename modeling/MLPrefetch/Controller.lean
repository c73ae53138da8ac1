import MLPrefetch.Persistence
import MLPrefetch.Tracker
import Mathlib.Data.UInt

/-!
# MLPrefetch — Controller

The state of one `MLPrefetchController` and the callbacks around the epoch: the constructor,
`startup()`, `notify()` and `calculatePrefetch()`.

* `MLPrefetchController α` has one field per data member of the class that the modelled code
  reads or writes (`numActions` is `children.size() + 1` and never changes, so it is computed);
  the statistics families are `Slots`, the attribution state is a `PfTracker`.
* `ofParams` is the constructor: it validates `current_action`, sets up `actionPenalties` and
  derives `qfileName`.
* `startup` loads the Q-table file and resolves the cache; scheduling the first epoch belongs
  to the event queue, outside the controller.
* `calculatePrefetch` asks every `Queued` child for candidates, so that each trains, and lets
  only the active child's candidates through, attributing each one.
-/

namespace MLPrefetch

/-- The construction parameters the controller reads (`MLPrefetchControllerParams`), the CPU
pointer reduced to whether it is set. `ticks_per_epoch` is left out: only the scheduling of
`update_event` reads it. -/
structure Params (α : Type) where
  name : Bytes
  cacheName : Bytes
  children : List Child
  currentAction : Int
  learningRate : α
  exploreRate : α
  debugLogging : Bool
  cpu : Bool

/-- The data members of `MLPrefetchController`; `hasCache` and `hasCpu` stand for
`cachePtr != nullptr` and `cpuPtr != nullptr`. `epoch_ticks` and `update_event` belong to the
scheduling, which no modelled function does. -/
structure MLPrefetchController (α : Type) where
  hasCache : Bool
  cacheName : Bytes
  children : List Child
  currentAction : Int
  lastAccesses : UInt64
  lastMisses : UInt64
  epochAccesses : UInt64
  epochMisses : UInt64
  lastMissRate : α
  smoothedMissRate : α
  lastSmoothedMiss : α
  haveSmoothedMiss : Bool
  qTable : QTable α
  lastState : UInt64
  lastAction : Int
  lastReward : α
  learningRate : α
  exploreRate : α
  actionPenalties : List α
  debugLogging : Bool
  hasCpu : Bool
  lastTotalOps : UInt64
  lastIpc : α
  lastIpcTick : UInt64
  tracker : PfTracker
  actionUse : Slots
  qfileName : Bytes
  qtableLoaded : Bool

/-- The initial `actionPenalties`: `numActions` zeros, then `0.02` at index 1 and `0.03` at
index 2 when those indices exist. -/
def defaultPenalties {α : Type} [LinearOrderedField α] (numActions : Nat) : List α :=
  let p := List.replicate numActions 0
  let p := if 2 ≤ numActions then p.set 1 0.02 else p
  if 3 ≤ numActions then p.set 2 0.03 else p

/-- `qtable_<safeName>.bin`, where `safeName` is the cache name (or the controller's own name
when that is empty) with every byte that is not ASCII alphanumeric replaced by `_`. -/
def qfileNameOf (name cacheName : Bytes) : Bytes :=
  let safeName := if cacheName.isEmpty then name else cacheName
  "qtable_".toUTF8.toList ++ safeName.map (fun ch => if ch.isASCIIAlphanum then ch else 95) ++
    ".bin".toUTF8.toList

/-- `(int)n` for an unsigned `n` on the code's targets: the low 32 bits, in two's complement. -/
def intOfSize (n : Nat) : Int :=
  let m : Nat := n % 2 ^ 32
  if m < 2 ^ 31 then (m : Int) else (m : Int) - 2 ^ 32

/-- Below `2^31` the conversion keeps the value: the model's counts are the code's there. -/
theorem intOfSize_of_lt {n : Nat} (h : n < 2 ^ 31) : intOfSize n = n := by
  simp only [intOfSize, Nat.mod_eq_of_lt (h.trans (by decide : 2 ^ 31 < 2 ^ 32)), if_pos h]

namespace MLPrefetchController

variable {α : Type} [LinearOrderedField α]

/-- `numActions`: one bandit index per child, and the last one for OFF. The code holds it in an
`int`, `intOfSize (K + 1)`; the model reads the natural number `K + 1`, which is the code's value
for every `K + 1 < 2^31` (`intOfSize_of_lt`), the only child counts a configuration can hold. The
casts `(int)children.size()` of the constructor and of `calculatePrefetch` agree with
`children.length` on the same domain. -/
def numActions (c : MLPrefetchController α) : Nat := c.children.length + 1

/-- The constructor `MLPrefetchController(const Params &p)`, at tick `now`, with `ops` the
CPU's `totalOps()` then. An initial action outside `-1 .. children.size() - 1` is reset to 0. -/
def ofParams (p : Params α) (now ops : UInt64) : MLPrefetchController α where
  hasCache := false
  cacheName := p.cacheName
  children := p.children
  currentAction :=
    if p.currentAction < -1 ∨ (p.children.length : Int) ≤ p.currentAction then 0
    else p.currentAction
  lastAccesses := 0
  lastMisses := 0
  epochAccesses := 0
  epochMisses := 0
  lastMissRate := 0
  smoothedMissRate := 0
  lastSmoothedMiss := 0
  haveSmoothedMiss := false
  qTable := .empty
  lastState := 0
  lastAction := 0
  lastReward := 0
  learningRate := p.learningRate
  exploreRate := p.exploreRate
  actionPenalties := defaultPenalties (p.children.length + 1)
  debugLogging := p.debugLogging
  hasCpu := p.cpu
  lastTotalOps := if p.cpu then ops else 0
  lastIpc := 0
  lastIpcTick := now
  tracker := .empty
  actionUse := {}
  qfileName := qfileNameOf p.name p.cacheName
  qtableLoaded := false

@[simp] theorem ofParams_children (p : Params α) (now ops : UInt64) :
    (ofParams p now ops).children = p.children := rfl

/-- `startup()`: load the Q-table file (`file` is its content, `ofBits` the double a stored bit
pattern holds), then resolve the cache by name (`cache` is the totals of what
`SimObject::find` returns, `none` when the lookup or the cast to `BaseCache` fails). -/
def startup (c : MLPrefetchController α) (ofBits : UInt64 → α) (file : Option Bytes)
    (cache : Option (UInt64 × UInt64)) : MLPrefetchController α :=
  let loaded := (loadQTable (childrenSignature c.children) file).apply ofBits
    (c.qTable, c.qtableLoaded)
  let c := { c with qTable := loaded.1, qtableLoaded := loaded.2 }
  if c.cacheName.isEmpty then c
  else
    match cache with
    | none => { c with hasCache := false }
    | some (acc, mis) => { c with hasCache := true, lastAccesses := acc, lastMisses := mis }

/-- `notify()` for an access to `addr`: count it, and credit a hit on a tracked prefetch.
Forwarding to `Queued::notify`, which queries `calculatePrefetch`, is the caller's part. -/
def notify (c : MLPrefetchController α) (addr : UInt64) (miss : Bool) : MLPrefetchController α :=
  let c := { c with epochAccesses := c.epochAccesses + 1,
                    epochMisses := if miss then c.epochMisses + 1 else c.epochMisses }
  if miss then c else { c with tracker := c.tracker.trackUsefulForAddr addr }

end MLPrefetchController

/-- The inner loop of `calculatePrefetch` for the active child `i`: each candidate is appended
to `addresses` and attributed with `trackIssuedForChild(i, ap.first)`. -/
def issueAll (i : Int) (now : UInt64) : List AddrPriority → PfTracker → PfTracker
  | [], t => t
  | ap :: rest, t => issueAll i now rest (t.trackIssuedForChild i now ap.1)

/-- The loop `for (int i = 0; i < (int)children.size(); ++i)` from child `i` on: a `Queued`
child is asked for its candidates `cands i` (which trains it), and only the child `active`
contributes them. Returns the tracker, the candidates emitted, and the children asked. -/
def fanOut (active : Int) (now : UInt64) (cands : Nat → List AddrPriority) :
    Nat → List Child → PfTracker → PfTracker × List AddrPriority × List Nat
  | _, [], t => (t, [], [])
  | i, ch :: rest, t =>
    if ch.queued then
      let t := if (i : Int) = active then issueAll i now (cands i) t else t
      let r := fanOut active now cands (i + 1) rest t
      (r.1, (if (i : Int) = active then cands i else []) ++ r.2.1, i :: r.2.2)
    else fanOut active now cands (i + 1) rest t

namespace MLPrefetchController

variable {α : Type} [LinearOrderedField α]

/-- `calculatePrefetch()` at tick `now`, child `i` answering `cands i`: the controller after
the attribution, the candidates appended to `addresses`, and the children asked. -/
def calculatePrefetch (c : MLPrefetchController α) (now : UInt64)
    (cands : Nat → List AddrPriority) : MLPrefetchController α × List AddrPriority × List Nat :=
  let r := fanOut c.currentAction now cands 0 c.children c.tracker
  ({ c with tracker := r.1 }, r.2.1, r.2.2)

/-- `saveQTable()`: the bytes written to `qfileName`, each double stored as the bit pattern
`toBits` gives. -/
def saveQTable (c : MLPrefetchController α) (toBits : α → UInt64) : Bytes :=
  MLPrefetch.saveQTable (childrenSignature c.children) (c.qTable.map toBits)

end MLPrefetchController

/-! ## What each callback changes -/

namespace MLPrefetchController

variable {α : Type}

/-- `startup()` changes only the table, `qtableLoaded` and the cache snapshot. -/
theorem startup_eq (c : MLPrefetchController α) (ofBits : UInt64 → α) (file : Option Bytes)
    (cache : Option (UInt64 × UInt64)) :
    ∃ hasCache lastAccesses lastMisses, c.startup ofBits file cache =
      let loaded := (loadQTable (childrenSignature c.children) file).apply ofBits
        (c.qTable, c.qtableLoaded)
      { c with qTable := loaded.1, qtableLoaded := loaded.2, hasCache, lastAccesses,
               lastMisses } := by
  unfold startup
  dsimp only
  split
  · exact ⟨_, _, _, rfl⟩
  · split <;> exact ⟨_, _, _, rfl⟩

theorem startup_fields (c : MLPrefetchController α) (ofBits : UInt64 → α) (file : Option Bytes)
    (cache : Option (UInt64 × UInt64)) :
    (c.startup ofBits file cache).children = c.children ∧
      (c.startup ofBits file cache).qTable =
        ((loadQTable (childrenSignature c.children) file).apply ofBits (c.qTable, c.qtableLoaded)).1 := by
  obtain ⟨_, _, _, h⟩ := startup_eq c ofBits file cache
  rw [h]
  exact ⟨rfl, rfl⟩

/-- `notify()` changes only the epoch counters and, on a hit, the tracker. -/
@[simp] theorem notify_eq (c : MLPrefetchController α) (addr : UInt64) (miss : Bool) :
    c.notify addr miss =
      { c with epochAccesses := c.epochAccesses + 1,
               epochMisses := if miss then c.epochMisses + 1 else c.epochMisses,
               tracker := if miss then c.tracker else c.tracker.trackUsefulForAddr addr } := by
  cases miss <;> rfl

/-- `calculatePrefetch()` changes only the tracker. -/
@[simp] theorem calculatePrefetch_fst (c : MLPrefetchController α) (now : UInt64)
    (cands : Nat → List AddrPriority) : (c.calculatePrefetch now cands).1 =
      { c with tracker := (fanOut c.currentAction now cands 0 c.children c.tracker).1 } := rfl

end MLPrefetchController

end MLPrefetch
