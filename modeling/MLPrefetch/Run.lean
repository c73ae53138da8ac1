import MLPrefetch.Epoch
import Mathlib.Logic.Relation
import Mathlib.Algebra.Order.Field.Rat

/-!
# MLPrefetch — Runs

The controller as a state machine driven by the simulator's callbacks.

* `Event` and `step`: one callback after `startup()`; `Run` is any sequence of them, and
  `execWith f` runs a list of them, recording what `f` reads off each.
* `Reachable`: every state of a simulation — the constructor's, the one `startup()` leaves,
  and every one a callback leads to.
* `step_cases` says once what a callback can do; `step_preserves`, `Run.preserves` and
  `Reachable.induction` derive every invariant from it.
* `endEpoch` never indexes outside a vector (`endEpoch_inBounds`).
* The attribution table stays within `MaxTrackedPrefetches` (`childPfTable_bounded`) and, with
  at most four children, its counters keep their accounting (`usefulCredit_accounting`).
-/

namespace MLPrefetch

/-- The callbacks the simulator makes into the controller after `startup()`. -/
inductive Event
  | notify (addr : UInt64) (miss : Bool)
  | calculatePrefetch (now : UInt64) (cands : Nat → List AddrPriority)
  | endEpoch (obs : Observation)

namespace MLPrefetchController

variable {α : Type} [LinearOrderedField α]

/-- One callback; `none` is an out-of-range vector access. -/
def step (c : MLPrefetchController α) : Event → Option (MLPrefetchController α)
  | .notify addr miss => some (c.notify addr miss)
  | .calculatePrefetch now cands => some (c.calculatePrefetch now cands).1
  | .endEpoch obs => (c.endEpoch obs).map Prod.fst

/-- Some callback leads from `c` to `c'`. -/
def Step (c c' : MLPrefetchController α) : Prop := ∃ e, c.step e = some c'

/-- Any sequence of callbacks. -/
def Run : MLPrefetchController α → MLPrefetchController α → Prop := Relation.ReflTransGen Step

/-- The callbacks `es` in order from `c`, recording what `f` reads off each callback in the
state it is made in. -/
def execWith {β : Type} (f : MLPrefetchController α → Event → List β) :
    MLPrefetchController α → List Event → Option (MLPrefetchController α × List β)
  | c, [] => some (c, [])
  | c, e :: es => (c.step e).bind fun c' => (execWith f c' es).map fun r => (r.1, f c e ++ r.2)

/-- The states of one simulation: the constructor's with any parameters, the one `startup()`
leaves on any file and cache, and every state a callback leads to. -/
inductive Reachable : MLPrefetchController α → Prop
  | ofParams (p : Params α) (now ops : UInt64) : Reachable (ofParams p now ops)
  | startup (p : Params α) (now ops : UInt64) (ofBits : UInt64 → α) (file : Option Bytes)
      (cache : Option (UInt64 × UInt64)) : Reachable ((ofParams p now ops).startup ofBits file cache)
  | step {c c' : MLPrefetchController α} (e : Event) : Reachable c → c.step e = some c' →
      Reachable c'

/-- **No out-of-range access.** Every `operator[]` of `endEpoch` — `actionPenalties[lastAction]`,
`row[lastAction]` of the row of `lastState`, and `row[0 .. numActions - 1]` in
`selectAction` — is in range, from every state: the epoch always completes. -/
theorem endEpoch_inBounds (c : MLPrefetchController α) (obs : Observation) :
    ∃ r, c.endEpoch obs = some r := by
  obtain ⟨idx, -, h⟩ := endEpoch_eq c obs
  exact ⟨_, h⟩

theorem endEpoch_cases {c c' : MLPrefetchController α} {obs : Observation} {r : EpochReport α}
    (h : c.endEpoch obs = some (c', r)) : ∃ idx, idx < c.numActions ∧ c' = c.afterEpoch obs idx := by
  obtain ⟨idx, hidx, he⟩ := endEpoch_eq c obs
  rw [he, Option.some.injEq, Prod.mk.injEq] at h
  exact ⟨idx, hidx, h.1.symm⟩

/-- An epoch steps to `afterEpoch` on the index `selectAction` returns. -/
theorem step_endEpoch_afterEpoch (c : MLPrefetchController α) (obs : Observation) :
    c.step (.endEpoch obs) = some (c.afterEpoch obs (c.epochAction obs)) := by
  rw [step, endEpoch_eq_epochAction]
  rfl

/-- What one callback can do. -/
theorem step_cases {c c' : MLPrefetchController α} {e : Event} (h : c.step e = some c') :
    (∃ addr miss, c' = c.notify addr miss) ∨
    (∃ now cands, c' = (c.calculatePrefetch now cands).1) ∨
    ∃ obs idx, idx < c.numActions ∧ c' = c.afterEpoch obs idx := by
  cases e with
  | notify addr miss => exact .inl ⟨addr, miss, (Option.some.inj h).symm⟩
  | calculatePrefetch now cands => exact .inr (.inl ⟨now, cands, (Option.some.inj h).symm⟩)
  | endEpoch obs =>
    obtain ⟨idx, hidx, he⟩ := endEpoch_eq c obs
    simp only [step, he, Option.map_some', Option.some.injEq] at h
    exact .inr (.inr ⟨obs, idx, hidx, h.symm⟩)

/-! ## Invariants of runs -/

section Invariant

variable (P : MLPrefetchController α → Prop)
  (hnotify : ∀ c addr miss, P c → P (c.notify addr miss))
  (hcalc : ∀ c now cands, P c → P (c.calculatePrefetch now cands).1)
  (hepoch : ∀ c obs idx, idx < c.numActions → P c → P (c.afterEpoch obs idx))
include hnotify hcalc hepoch

theorem step_preserves {c c' : MLPrefetchController α} {e : Event} (h : c.step e = some c')
    (hc : P c) : P c' := by
  rcases step_cases h with ⟨addr, miss, rfl⟩ | ⟨now, cands, rfl⟩ | ⟨obs, idx, hidx, rfl⟩
  exacts [hnotify _ _ _ hc, hcalc _ _ _ hc, hepoch _ _ _ hidx hc]

theorem Run.preserves {c c' : MLPrefetchController α} (h : Run c c') (hc : P c) : P c' := by
  induction h with
  | refl => exact hc
  | tail _ hs ih =>
    obtain ⟨e, he⟩ := hs
    exact step_preserves P hnotify hcalc hepoch he ih

/-- An invariant of the constructor that `startup()` and every callback keep holds in every
reachable state. -/
theorem Reachable.induction (hinit : ∀ p now ops, P (MLPrefetchController.ofParams p now ops))
    (hstartup : ∀ c ofBits file cache, P c → P (c.startup ofBits file cache))
    {c : MLPrefetchController α} (h : Reachable c) : P c := by
  induction h with
  | ofParams p now ops => exact hinit p now ops
  | startup p now ops ofBits file cache => exact hstartup _ ofBits file cache (hinit p now ops)
  | step _ _ he ih => exact step_preserves P hnotify hcalc hepoch he ih

end Invariant

/-- One epoch is a run. -/
theorem Run.endEpoch {c c' : MLPrefetchController α} {obs : Observation} {r : EpochReport α}
    (h : c.endEpoch obs = some (c', r)) : Run c c' :=
  Relation.ReflTransGen.single ⟨.endEpoch obs, by simp [step, h]⟩

/-- The children never change. -/
theorem Run.children_eq {c c' : MLPrefetchController α} (hr : Run c c') :
    c'.children = c.children :=
  Run.preserves (fun x => x.children = c.children) (fun _ _ _ hc => by simpa using hc)
    (fun _ _ _ hc => hc) (fun _ _ _ _ hc => hc) hr rfl

theorem Reachable.run {c c' : MLPrefetchController α} (h : Reachable c) (hr : Run c c') :
    Reachable c' := by
  induction hr with
  | refl => exact h
  | tail _ hs ih =>
    obtain ⟨e, he⟩ := hs
    exact .step e ih he

end MLPrefetchController

/-! ## The attribution table -/

/-- A tracker property that every attribution to child `i` keeps is kept by the loop over the
active child's candidates. -/
theorem issueAll_preserves {P : PfTracker → Prop} {i : Int} {now : UInt64}
    (hP : ∀ t addr, P t → P (t.trackIssuedForChild i now addr)) :
    ∀ (l : List AddrPriority) (t : PfTracker), P t → P (issueAll i now l t)
  | [], _, h => h
  | ap :: rest, t, h => issueAll_preserves hP rest _ (hP t ap.1 h)

/-- A tracker property that every attribution to a child below `k` keeps is kept by
`calculatePrefetch`'s loop over the children from `i` on, when they all lie below `k`. -/
theorem fanOut_preserves {P : PfTracker → Prop} {active : Int} {now : UInt64}
    {cands : Nat → List AddrPriority} {k : Nat}
    (hP : ∀ (j : Nat) t addr, j < k → P t → P (t.trackIssuedForChild j now addr)) :
    ∀ (i : Nat) (l : List Child) (t : PfTracker), i + l.length ≤ k → P t →
      P (fanOut active now cands i l t).1
  | _, [], _, _, h => h
  | i, ch :: rest, t, hk, h => by
    have hi : i < k := by simp only [List.length_cons] at hk; omega
    have hrest : i + 1 + rest.length ≤ k := by simp only [List.length_cons] at hk; omega
    unfold fanOut
    split
    · refine fanOut_preserves hP (i + 1) rest _ hrest ?_
      split
      · exact issueAll_preserves (fun t addr => hP i t addr hi) _ _ h
      · exact h
    · exact fanOut_preserves hP (i + 1) rest t hrest h

/-- Parameters of a controller over two children named `s` and `t`, starting on child 1, with
learning and exploration rates `0.1`. -/
def twoChildParams : Params ℚ :=
  ⟨[], [], [⟨[115], true⟩, ⟨[116], true⟩], 1, 1 / 10, 1 / 10, false, false⟩

namespace MLPrefetchController

variable {α : Type} [LinearOrderedField α]

/-- The two-child controller, started on `file` without a cache, after `n` epochs that all
observe `obs`. -/
def twoChildEpochs (file : Option Bytes) (obs : Observation) : Nat → MLPrefetchController ℚ
  | 0 => (ofParams twoChildParams 0 0).startup (fun _ => 0) file none
  | n + 1 => (twoChildEpochs file obs n).afterEpoch obs ((twoChildEpochs file obs n).epochAction obs)

theorem run_twoChildEpochs (file : Option Bytes) (obs : Observation) :
    ∀ n, Run (twoChildEpochs file obs 0) (twoChildEpochs file obs n)
  | 0 => .refl
  | n + 1 =>
    (run_twoChildEpochs file obs n).tail ⟨.endEpoch obs, step_endEpoch_afterEpoch _ obs⟩

/-- **Bounded attribution table.** In every state of every simulation the attribution table
holds at most `MaxTrackedPrefetches` entries. -/
theorem childPfTable_bounded {c : MLPrefetchController α} (h : Reachable c) : c.tracker.Bounded :=
  Reachable.induction (fun c => c.tracker.Bounded)
    (fun c addr miss hc => by
      simp only [notify_eq]
      split
      · exact hc
      · exact hc.trackUsefulForAddr addr)
    (fun c now cands hc =>
      fanOut_preserves (fun _ t addr _ ht => ht.trackIssuedForChild _ now addr) 0 c.children _
        (Nat.zero_add _).le hc)
    (fun _ _ _ _ hc => hc) (fun _ _ _ => PfTracker.Bounded.empty)
    (fun c ofBits file cache hc => by
      obtain ⟨_, _, _, h⟩ := startup_eq c ofBits file cache
      rw [h]
      exact hc) h

/-- The table after the active child's first candidate. -/
theorem childPfTable_bounded_first_issue :
    ((ofParams twoChildParams 0 0).calculatePrefetch 0 fun _ => [(64, 0)]).1.tracker.Bounded :=
  childPfTable_bounded (.step (.calculatePrefetch 0 fun _ => [(64, 0)]) (.ofParams _ 0 0) rfl)

/-- **Useful-credit accounting.** In every state of every simulation of a controller with at
most four children (the counters the code declares), the tracker's counters and table satisfy
`Accounting`: per child, useful credits plus the prefetches still tracked for it are at most
its issued plus redundant ones, and summed over the children, useful credits plus the table's
size are at most the issued prefetches. -/
theorem usefulCredit_accounting {c : MLPrefetchController α} (h : Reachable c)
    (hK : c.children.length ≤ 4) : c.tracker.Accounting := by
  refine Reachable.induction (fun c => c.children.length ≤ 4 → c.tracker.Accounting)
    (fun c addr miss hc hK => ?_) (fun c now cands hc hK => ?_)
    (fun c _ _ _ hc => hc) (fun _ _ _ _ => PfTracker.Accounting.empty)
    (fun c ofBits file cache hc => ?_) h hK
  · simp only [notify_eq] at hK ⊢
    split
    · exact hc hK
    · exact (hc hK).trackUsefulForAddr addr
  · simp only [calculatePrefetch_fst] at hK ⊢
    exact fanOut_preserves (fun (j : Nat) t addr (hj : j < c.children.length) ht =>
        ht.trackIssuedForChild (.inr ⟨Int.ofNat_nonneg j, by omega⟩) now addr)
      0 c.children _ (Nat.zero_add _).le (hc hK)
  · obtain ⟨_, _, _, h⟩ := startup_eq c ofBits file cache
    rw [h]
    exact hc

/-- The counters after the active child's first candidate. -/
theorem usefulCredit_accounting_first_issue :
    ((ofParams twoChildParams 0 0).calculatePrefetch 0 fun _ => [(64, 0)]).1.tracker.Accounting :=
  usefulCredit_accounting (.step (.calculatePrefetch 0 fun _ => [(64, 0)]) (.ofParams _ 0 0) rfl)
    (by decide)

end MLPrefetchController

end MLPrefetch
