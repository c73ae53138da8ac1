import Mathlib.Algebra.Order.Field.Basic
import Mathlib.Algebra.Order.Ring.Unbundled.Rat
import Mathlib.Tactic.NormNum.OfScientific

/-!
# MLPrefetch — Basic

The vocabulary every part of the model of `ml_prefetch_controller.{hh,cc}` shares:

* the file-scope constants of the `.cc` the learner reads (`MISS_SMOOTH_ALPHA`, `EXPLORE_MIN`,
  `EXPLORE_DECAY`, `ACC_MAX_SPAN`), the header's `MaxTrackedPrefetches` and the host's
  `RAND_MAX`;
* `Slots` — the four hard-coded `statistics::Scalar`s of each counter family
  (`actionUse0..3`, `child0PfIssued..child3PfIssued`, ...) and the `switch` that bumps one of
  them, dropping any other index in its `default:` arm;
* `Child` — what the controller sees of a child prefetcher;
* `semanticAction` — the bandit-index-to-action map at the end of `endEpoch`.

A `double` of the source is a value of an ordered field `α`: the learner's arithmetic is read
as exact. `uint64_t`, `Addr` and `Tick` are `UInt64`, so the code's unsigned subtractions wrap
here as they do there; `int` is `Int`.
-/

namespace MLPrefetch

/-- A `std::string`, or any raw run of bytes, as the bytes it holds. -/
abbrev Bytes := List UInt8

/-- `MaxTrackedPrefetches`: the attribution table's size cap. -/
def maxTrackedPrefetches : Nat := 2048

/-- glibc's `RAND_MAX`, the largest value `random()` returns. -/
def randMax : Nat := 2147483647

section Constants

variable {α : Type} [LinearOrderedField α]

/-- `MISS_SMOOTH_ALPHA`: weight of the new miss rate in the moving average. -/
def missSmoothAlpha : α := 0.3

/-- `EXPLORE_MIN`: the floor of the decaying exploration rate. -/
def exploreMin : α := 0.01

/-- `EXPLORE_DECAY`: the per-epoch factor of the exploration rate. -/
def exploreDecay : α := 0.9995

/-- `ACC_MAX_SPAN`: the half-width of the miss-rate improvement mapped onto `[0, 1]`. -/
def accMaxSpan : α := 0.2

end Constants

/-! ## The four-slot counter families -/

/-- Four `statistics::Scalar` counters for the indices `0..3`. The code declares exactly four
of each family (`actionUse0..3`, `child0PfIssued..3`, `child0PfUseful..3`,
`child0PfRedundant..3`); a `Scalar` is bumped by one, so a count is a `Nat`. -/
structure Slots where
  s0 : Nat := 0
  s1 : Nat := 0
  s2 : Nat := 0
  s3 : Nat := 0
deriving DecidableEq, Repr

namespace Slots

/-- The counter of index `i`; an index with no counter reads `0`. -/
def get (c : Slots) : Int → Nat
  | 0 => c.s0
  | 1 => c.s1
  | 2 => c.s2
  | 3 => c.s3
  | _ => 0

/-- `switch (i) { case 0: c0++; break; ... case 3: c3++; break; default: break; }` -/
def bump (c : Slots) : Int → Slots
  | 0 => { c with s0 := c.s0 + 1 }
  | 1 => { c with s1 := c.s1 + 1 }
  | 2 => { c with s2 := c.s2 + 1 }
  | 3 => { c with s3 := c.s3 + 1 }
  | _ => c

/-- The sum of the four counters. -/
def total (c : Slots) : Nat := c.s0 + c.s1 + c.s2 + c.s3

/-- An index has a counter exactly when it lies in `0..3`. -/
def Counted (i : Int) : Prop := 0 ≤ i ∧ i < 4

instance (i : Int) : Decidable (Counted i) := inferInstanceAs (Decidable (0 ≤ i ∧ i < 4))

theorem get_bump (c : Slots) (i j : Int) :
    (c.bump i).get j = c.get j + if i = j ∧ Counted i then 1 else 0 := by
  unfold bump get Counted
  split <;> split <;> simp_all
  omega

theorem total_bump (c : Slots) (i : Int) :
    (c.bump i).total = c.total + if Counted i then 1 else 0 := by
  unfold bump total Counted
  split <;> simp_all <;> omega

theorem get_eq_zero {c : Slots} {i : Int} (h : ¬ Counted i) : c.get i = 0 := by
  unfold get
  unfold Counted at h
  split <;> simp_all

/-- Bumping the counters of the bandit indices `l` in turn adds to counter `b` the number of
times `b` occurs in `l`. -/
theorem get_foldl_bump (c : Slots) (l : List Nat) {b : Nat} (hb : b < 4) :
    (l.foldl (fun s (i : Nat) => s.bump i) c).get b = c.get b + l.count b := by
  induction l generalizing c with
  | nil => rfl
  | cons i l ih =>
    rw [List.foldl_cons, ih, get_bump, List.count_cons]
    have : ((i : Int) = b ∧ Counted i) ↔ (i == b) = true := by
      simp only [Counted, beq_iff_eq]
      omega
    simp only [this]
    split <;> omega

/-- Bumping indices that all have counters adds their number to the total. -/
theorem total_foldl_bump (c : Slots) {l : List Nat} (hl : ∀ i ∈ l, i < 4) :
    (l.foldl (fun s (i : Nat) => s.bump i) c).total = c.total + l.length := by
  induction l generalizing c with
  | nil => rfl
  | cons i l ih =>
    have hi : Counted i := ⟨Int.ofNat_nonneg i, by have := hl i (List.mem_cons_self _ _); omega⟩
    rw [List.foldl_cons, ih _ fun j hj => hl j (List.mem_cons_of_mem _ hj), total_bump,
      if_pos hi, List.length_cons]
    omega

@[simp] theorem get_empty (i : Int) : (({} : Slots)).get i = 0 := by
  unfold get
  split <;> rfl

@[simp] theorem total_empty : ({} : Slots).total = 0 := rfl

end Slots

/-! ## Children and actions -/

/-- A child prefetcher as the controller uses it: its `name()`, which enters the Q-table
signature, and whether `dynamic_cast<Queued*>` succeeds on it, which decides whether
`calculatePrefetch` consults it at all. -/
structure Child where
  name : Bytes
  queued : Bool
deriving DecidableEq, Repr

/-- `std::pair<Addr, int32_t>`: a prefetch candidate and its priority. -/
abbrev AddrPriority := UInt64 × Int

/-- The map from a bandit index to the semantic action in `endEpoch`: the last index
`numActions - 1` is OFF (`-1`), any other index is the child of that index. -/
def semanticAction (numActions idx : Nat) : Int :=
  if idx = numActions - 1 then -1 else idx

theorem semanticAction_range {k idx : Nat} (h : idx < k + 1) :
    -1 ≤ semanticAction (k + 1) idx ∧ semanticAction (k + 1) idx < k := by
  unfold semanticAction
  split <;> omega

end MLPrefetch
