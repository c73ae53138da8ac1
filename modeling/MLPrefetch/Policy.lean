import MLPrefetch.Run

/-!
# MLPrefetch — Policy

What the learner chooses from and what it sees.

* `selectAction` without exploring returns the least index of a maximum of the zero-extended
  row over the `numActions` bandit indices: the scan's invariant (`ScanInv`) holds of every
  prefix (`greedyScan_scanInv`), so its strict `>` keeps the first maximum
  (`selectAction_greedy`).
* The accuracy proxy is a clamped affine function of the same change of the smoothed miss rate
  that `encodeDeltaMiss` bins (`encodeAccuracy_accuracyOf`), so of the `3 · 5` pairs of accuracy
  and miss bins only seven occur (`bins_observable`), and of the `45` state codes only the
  `21` of `observableStates` (`stateCodes_observable`); the initial `lastState = 0` is not
  among them.
-/

namespace MLPrefetch

section Greedy

variable {α : Type} [LinearOrderedField α]

/-- Entry `b` of `row` is at least every entry below `k`. -/
def IsMaxAt (row : List α) (k b : Nat) : Prop := ∀ j < k, row.getD j 0 ≤ row.getD b 0

/-- `b` is the least index below `k` whose entry is a maximum of the entries below `k`. -/
def IsFirstMax (row : List α) (k b : Nat) : Prop :=
  b < k ∧ IsMaxAt row k b ∧ ∀ j < b, ¬ IsMaxAt row k j

/-- The invariant of `greedyScan` after reading `row[0 .. i - 1]`: `best` holds an index read,
its entry, which bounds every entry read and strictly exceeds every entry before it. -/
def ScanInv (row : List α) (i : Nat) (best : Nat × α) : Prop :=
  best.1 < i ∧ row.getD best.1 0 = best.2 ∧ (∀ j < i, row.getD j 0 ≤ best.2) ∧
    ∀ j < best.1, row.getD j 0 < best.2

theorem scanInv_one {row : List α} (h : 0 < row.length) : ScanInv row 1 (0, row[0]) := by
  refine ⟨Nat.one_pos, ?_, fun j hj => ?_, fun j hj => absurd hj (Nat.not_lt_zero j)⟩
  · simp [List.getD_eq_getElem?_getD, List.getElem?_eq_getElem h]
  · simp [Nat.lt_one_iff.1 hj, List.getD_eq_getElem?_getD, List.getElem?_eq_getElem h]

/-- One round of the loop: `if (row[i] > bestVal) { bestVal = row[i]; bestIdx = i; }`. -/
theorem ScanInv.step {row : List α} {i : Nat} {best : Nat × α} (h : ScanInv row i best)
    (hi : i < row.length) :
    ScanInv row (i + 1) (if best.2 < row[i] then (i, row[i]) else best) := by
  obtain ⟨hb, hv, hle, hlt⟩ := h
  have hget : row.getD i 0 = row[i] := by
    simp [List.getD_eq_getElem?_getD, List.getElem?_eq_getElem hi]
  split
  · rename_i hgt
    refine ⟨Nat.lt_succ_self i, hget, fun j hj => ?_, fun j hj => (hle j hj).trans_lt hgt⟩
    rcases Nat.lt_succ_iff_lt_or_eq.1 hj with hj | rfl
    · exact (hle j hj).trans hgt.le
    · exact hget.le
  · rename_i hngt
    refine ⟨Nat.lt_succ_of_lt hb, hv, fun j hj => ?_, hlt⟩
    rcases Nat.lt_succ_iff_lt_or_eq.1 hj with hj | rfl
    · exact hle j hj
    · exact hget ▸ not_lt.1 hngt

/-- The whole scan keeps the invariant. -/
theorem greedyScan_scanInv (row : List α) : ∀ (n i : Nat) (best : Nat × α), i + n ≤ row.length →
    ScanInv row i best → ∃ r, greedyScan row n i best = some r ∧ ScanInv row (i + n) r
  | 0, _, best, _, h => ⟨best, rfl, h⟩
  | n + 1, i, best, hl, h => by
    have hi : i < row.length := by omega
    obtain ⟨r, hr, hinv⟩ := greedyScan_scanInv row n (i + 1) _ (by omega) (h.step hi)
    refine ⟨r, by simp [greedyScan, List.getElem?_eq_getElem hi, hr], ?_⟩
    rwa [Nat.add_right_comm, Nat.add_assoc] at hinv

/-- At the end of the scan, the best index is the first maximum. -/
theorem ScanInv.isFirstMax {row : List α} {k : Nat} {r : Nat × α} (h : ScanInv row k r) :
    IsFirstMax row k r.1 := by
  obtain ⟨hb, hv, hle, hlt⟩ := h
  refine ⟨hb, fun j hj => (hle j hj).trans hv.ge, fun j hj hmax => ?_⟩
  have := hmax r.1 hb
  rw [hv] at this
  exact absurd (hlt j hj) (not_lt.2 this)

end Greedy

namespace MLPrefetchController

variable {α : Type} [LinearOrderedField α]

/-- **Greedy selection is the least arg-max.** For every table and state key, when the draw
does not explore (`r ≥ exploreRate`), `selectAction` returns the least bandit index whose entry
of the zero-extended row is a maximum over all `numActions` indices. -/
theorem selectAction_greedy (c : MLPrefetchController α) (state : UInt64) (draw pick : Nat)
    (hr : c.exploreRate ≤ (draw : α) / (randMax : α)) :
    ∃ b, c.selectAction state draw pick = some (b, c.qTable.ensureRow c.numActions state) ∧
      IsFirstMax (c.qTable.rowAt c.numActions state) c.numActions b := by
  have hlen := QTable.le_length_rowAt c.qTable c.numActions state
  have h0 : 0 < (c.qTable.rowAt c.numActions state).length := (Nat.succ_pos _).trans_le hlen
  obtain ⟨r, hr', hinv⟩ := greedyScan_scanInv _ (c.numActions - 1) 1 _ (by omega) (scanInv_one h0)
  have hk : 1 + (c.numActions - 1) = c.numActions := Nat.add_sub_cancel' (Nat.succ_pos _)
  rw [hk] at hinv
  refine ⟨r.1, ?_, hinv.isFirstMax⟩
  simp [selectAction, not_lt.2 hr, List.getElem?_eq_getElem h0, hr']

/-- The constructed two-child controller drawing `RAND_MAX` does not explore: it returns the
least maximum of the zero row it creates for state `0`. -/
theorem selectAction_greedy_no_explore :
    (ofParams twoChildParams 0 0).exploreRate ≤ ((randMax : Nat) : ℚ) / (randMax : ℚ) ∧
      ∃ b, (ofParams twoChildParams 0 0).selectAction 0 randMax 0 =
          some (b, (ofParams twoChildParams 0 0).qTable.ensureRow 3 0) ∧
        IsFirstMax ((ofParams twoChildParams 0 0).qTable.rowAt 3 0) 3 b := by
  have h : (ofParams twoChildParams 0 0).exploreRate ≤ ((randMax : Nat) : ℚ) / (randMax : ℚ) := by
    show (1 / 10 : ℚ) ≤ ((randMax : Nat) : ℚ) / (randMax : ℚ)
    norm_num [randMax]
  exact ⟨h, selectAction_greedy _ 0 randMax 0 h⟩

end MLPrefetchController

/-! ## Which state codes occur -/

section Codes

variable {α : Type} [LinearOrderedField α]

/-- The pairs `(accBin, missBin)` a computed state can carry. -/
def observablePairs : List (Nat × Nat) := [(0, 4), (1, 1), (1, 2), (1, 3), (1, 4), (2, 0), (2, 1)]

/-- The state codes `accBin * 100 + missBin * 10 + ipcBin` of those pairs. -/
def observableStates : List UInt64 :=
  observablePairs.flatMap fun b => (List.range 3).map fun i => UInt64.ofNat (b.1 * 100 + b.2 * 10 + i)

example : observableStates.length = 21 ∧ observableStates.Nodup ∧ (0 : UInt64) ∉ observableStates := by
  decide

/-- The clamp of `raw_improve` to `[-a, a]`, as the code writes it, is `max (-a) (min a raw)`. -/
theorem clamp_eq_max_min (a r : α) :
    (if (if a < r then a else r) < -a then -a else if a < r then a else r) = max (-a) (min a r) := by
  have h : (if a < r then a else r) = min a r := by
    split_ifs with h
    exacts [(min_eq_left h.le).symm, (min_eq_right (not_lt.1 h)).symm]
  rw [h]
  split_ifs with h
  exacts [(max_eq_left h.le).symm, (max_eq_right (not_lt.1 h)).symm]

/-- A threshold `t` of the accuracy inside the clamp's range is a threshold of `raw_improve`. -/
theorem accuracyOf_le_iff (l s t : α) (h₁ : -0.2 ≤ t * (2 * 0.2) - 0.2)
    (h₂ : t * (2 * 0.2) - 0.2 < 0.2) : accuracyOf l s ≤ t ↔ l - s ≤ t * (2 * 0.2) - 0.2 := by
  unfold accuracyOf accMaxSpan
  dsimp only
  rw [clamp_eq_max_min, div_le_iff₀ (by norm_num), ← le_sub_iff_add_le, max_le_iff, min_le_iff]
  simp only [h₁, true_and, h₂.not_le, false_or]

/-- The accuracy proxy is `0.5 - 2.5 d` clamped to `[0, 1]`, for `d` the change of the smoothed
miss rate: at most `0.2` exactly when `d ≥ 0.12`, at most `0.6` exactly when `d ≥ -0.04`. -/
theorem encodeAccuracy_accuracyOf (l s : α) :
    encodeAccuracy (accuracyOf l s) =
      if 0.12 ≤ s - l then 0 else if -0.04 ≤ s - l then 1 else 2 := by
  have e₁ : (0.20 : α) * (2 * 0.2) - 0.2 = -0.12 := by norm_num
  have e₂ : (0.60 : α) * (2 * 0.2) - 0.2 = -(-0.04) := by norm_num
  simp only [encodeAccuracy, accuracyOf_le_iff l s 0.20 (by norm_num) (by norm_num),
    accuracyOf_le_iff l s 0.60 (by norm_num) (by norm_num), e₁, e₂, ← neg_sub s l, neg_le_neg_iff]

/-- The accuracy bin and the miss bin of one change `d` of the smoothed miss rate, region by
region of `encodeDeltaMiss`. -/
theorem bins_observable (d : α) :
    ((if 0.12 ≤ d then 0 else if -0.04 ≤ d then 1 else 2), encodeDeltaMiss d) ∈ observablePairs := by
  have lt : ∀ {a b : α}, a < b → ¬ b ≤ a := fun h => not_le.2 h
  unfold encodeDeltaMiss
  rcases lt_or_le d (-0.10) with h₀ | h₀
  · rw [if_neg (lt (h₀.trans (by norm_num))), if_neg (lt (h₀.trans (by norm_num))), if_pos h₀]
    decide
  rw [if_neg h₀.not_lt]
  rcases lt_or_le d (-0.02) with h₁ | h₁
  · rw [if_neg (lt (h₁.trans (by norm_num))), if_pos h₁]
    split_ifs <;> decide
  have h₄ : -0.04 ≤ d := (by norm_num : (-0.04 : α) ≤ -0.02).trans h₁
  rw [if_neg h₁.not_lt]
  rcases lt_or_le d 0.02 with h₂ | h₂
  · rw [if_neg (lt (h₂.trans (by norm_num))), if_pos h₄, if_pos h₂]
    decide
  rw [if_neg h₂.not_lt]
  rcases lt_or_le d 0.10 with h₃ | h₃
  · rw [if_neg (lt (h₃.trans (by norm_num))), if_pos h₄, if_pos h₃]
    decide
  rw [if_neg h₃.not_lt, if_pos h₄]
  split_ifs <;> decide

end Codes

namespace MLPrefetchController

variable {α : Type} [LinearOrderedField α]

/-- Step 3's `deltaSmoothedMiss` is the new smoothed miss rate less the one it records as the
last. -/
theorem smoothPhase_delta (c : MLPrefetchController α) (missRate : α) :
    (c.smoothPhase missRate).1 = (c.smoothPhase missRate).2.1 - (c.smoothPhase missRate).2.2 := by
  unfold smoothPhase
  split <;> simp

/-- **Observable state codes.** With exact arithmetic, every epoch, from every state and on
every observation, computes a state key `accBin * 100 + missBin * 10 + ipcBin` whose bins form
one of the seven `observablePairs`, so one of the 21 `observableStates`; in particular never
`0`, the `lastState` every controller starts with. -/
theorem stateCodes_observable (c : MLPrefetchController α) (obs : Observation) :
    ∃ c' r, c.endEpoch obs = some (c', r) ∧ c'.lastState = r.state ∧ r.state ∈ observableStates ∧
      ∀ (p : Params α) now ops, r.state ≠ (ofParams p now ops).lastState := by
  obtain ⟨idx, -, he⟩ := endEpoch_eq c obs
  have hmem : c.epochState obs ∈ observableStates := by
    have h := bins_observable (c.smoothPhase (c.missPhase obs).1).1
    rw [smoothPhase_delta, ← encodeAccuracy_accuracyOf, ← smoothPhase_delta] at h
    simp only [epochState, encodeState, observe, observableStates, List.mem_flatMap, List.mem_map,
      List.mem_range]
    exact ⟨_, h, _, by unfold encodeDeltaIpc; split_ifs <;> decide, rfl⟩
  refine ⟨_, _, he, rfl, hmem, fun p now ops h0 => ?_⟩
  have h0' : c.epochState obs = 0 := h0
  rw [h0'] at hmem
  exact absurd hmem (by decide)

end MLPrefetchController

end MLPrefetch
