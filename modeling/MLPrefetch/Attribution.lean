import MLPrefetch.Actions

/-!
# MLPrefetch — Attribution

What `calculatePrefetch`, `trackIssuedForChild` and `notify` do to the attribution table and
the per-child counters, callback by callback.

* `fanOut_eq`: with every child `Queued`, the loop asks each child once, in index order, and
  emits exactly the active child's candidates, attributing each in turn (`issueAll`); so the
  active child's `issued + redundant` grows by the number emitted when it has counters, and no
  other counter moves (`calculatePrefetch_routes`). A child of index `4` or more has no counters
  at all (`calculatePrefetch_uncounted_child`).
* On a full table `trackIssuedForChild` clears before it looks: a tracked address re-issued
  then counts as issued, not redundant, and every other entry is dropped
  (`trackIssued_full_reissue`); a full table is reachable (`reachable_fullState`).
* `notify` credits a hit by its exact address: a hit elsewhere in a tracked prefetch's cache
  line credits nobody and leaves it tracked (`notify_credits_exact_address`).
* Whichever children are `Queued`, the loop attributes exactly the candidates it emits
  (`fanOut_tracker`); so over any run `issued + redundant` of a child with counters grows by
  exactly the candidates emitted while it was active, clears of the full table included
  (`issuedRedundant_exec`).
-/

namespace MLPrefetch

/-! ## The active child's loop -/

section Loop

variable {i : Int} {now : UInt64}

/-- The loop over the active child's candidates bumps `issued[i] + redundant[i]` once per
candidate when `i` has counters, and leaves the useful counters alone. -/
theorem issueAll_counts (j : Int) : ∀ (l : List AddrPriority) (t : PfTracker),
    (issueAll i now l t).issued.get j + (issueAll i now l t).redundant.get j =
      t.issued.get j + t.redundant.get j + (if i = j ∧ Slots.Counted i then l.length else 0) ∧
    (issueAll i now l t).useful = t.useful
  | [], t => by simp [issueAll]
  | ap :: rest, t => by
    obtain ⟨h₁, h₂⟩ := issueAll_counts j rest (t.trackIssuedForChild i now ap.1)
    obtain ⟨h₃, h₄⟩ := t.trackIssuedForChild_counts i now ap.1 j
    refine ⟨?_, h₂.trans h₄⟩
    simp only [issueAll, List.length_cons] at h₁ ⊢
    split_ifs at h₁ h₃ ⊢ <;> omega

/-- Distinct addresses none of which is tracked, issued into a table with room for all of them,
are all inserted: the table grows by their number and keeps what it held. -/
theorem issueAll_fresh (hi : 0 ≤ i) : ∀ (l : List AddrPriority) (t : PfTracker),
    (l.map Prod.fst).Nodup → (∀ ap ∈ l, ap.1 ∉ t.childPfTable) →
    t.size + l.length ≤ maxTrackedPrefetches →
    (issueAll i now l t).size = t.size + l.length ∧
      ∀ a, a ∈ t.childPfTable ∨ (∃ ap ∈ l, ap.1 = a) → a ∈ (issueAll i now l t).childPfTable
  | [], t, _, _, _ => ⟨rfl, fun a ha => ha.resolve_right (by simp)⟩
  | ap :: rest, t, hnd, hfresh, hroom => by
    rw [List.length_cons] at hroom
    rw [List.map_cons, List.nodup_cons] at hnd
    obtain ⟨hs, hmem⟩ := PfTracker.trackIssuedForChild_fresh hi (by omega) now
      (hfresh ap (List.mem_cons_self _ _))
    obtain ⟨hsize, hkeep⟩ := issueAll_fresh hi rest _ hnd.2
      (fun ap' hap' h => ((hmem _).1 h).elim
        (fun he => hnd.1 (he ▸ List.mem_map_of_mem _ hap'))
        (hfresh ap' (List.mem_cons_of_mem _ hap')))
      (by rw [hs]; omega)
    refine ⟨by rw [issueAll, hsize, hs, List.length_cons]; omega, fun a ha => hkeep a ?_⟩
    rcases ha with ha | ⟨ap', hap', rfl⟩
    · exact .inl ((hmem a).2 (.inr ha))
    · rcases List.mem_cons.1 hap' with rfl | hap'
      · exact .inl ((hmem _).2 (.inl rfl))
      · exact .inr ⟨ap', hap', rfl⟩

theorem issueAll_append (l₁ l₂ : List AddrPriority) (t : PfTracker) :
    issueAll i now (l₁ ++ l₂) t = issueAll i now l₂ (issueAll i now l₁ t) := by
  induction l₁ generalizing t with
  | nil => rfl
  | cons ap l₁ ih => exact ih _

end Loop

/-- Whichever children are `Queued`, the loop's tracker is the attribution to `active` of
exactly the candidates it emits, in order. -/
theorem fanOut_tracker {active : Int} {now : UInt64} {cands : Nat → List AddrPriority} :
    ∀ (i : Nat) (l : List Child) (t : PfTracker),
      (fanOut active now cands i l t).1 = issueAll active now (fanOut active now cands i l t).2.1 t
  | _, [], _ => rfl
  | i, ch :: rest, t => by
    unfold fanOut
    split
    · dsimp only
      rw [fanOut_tracker (i + 1) rest, issueAll_append]
      by_cases h : (i : Int) = active
      · subst h
        simp
      · simp only [h, if_false]
        rfl
    · exact fanOut_tracker (i + 1) rest t

/-- With every child `Queued`, the loop from child `i` on asks each child once, in order, emits
the active child's candidates if it is among them, and attributes each one it emits. -/
theorem fanOut_eq {active : Int} {now : UInt64} {cands : Nat → List AddrPriority} :
    ∀ (i : Nat) (l : List Child) (t : PfTracker), (∀ ch ∈ l, ch.queued = true) →
      fanOut active now cands i l t =
        (issueAll active now
            (if (i : Int) ≤ active ∧ active < i + l.length then cands active.toNat else []) t,
          if (i : Int) ≤ active ∧ active < i + l.length then cands active.toNat else [],
          List.range' i l.length)
  | i, [], t, _ => by
    simp only [fanOut, List.length_nil, Nat.cast_zero, add_zero]
    rw [if_neg (by omega)]
    rfl
  | i, ch :: rest, t, hq => by
    rw [fanOut, if_pos (hq ch (List.mem_cons_self _ _))]
    dsimp only
    rw [fanOut_eq (i + 1) rest _ fun ch' h => hq ch' (List.mem_cons_of_mem _ h)]
    by_cases h : (i : Int) = active
    · subst h
      simp [issueAll, List.range'_succ]
    · have hiff : ((i + 1 : Nat) : Int) ≤ active ∧ active < ↑(i + 1) + ↑rest.length ↔
          (i : Int) ≤ active ∧ active < ↑i + ↑(ch :: rest).length := by
        simp only [List.length_cons]
        omega
      simp only [h, if_false, List.nil_append, hiff]
      rfl

namespace MLPrefetchController

variable {α : Type}

/-- **Prefetch routing.** From every state whose children are all `Queued`, on every access and
every candidate lists the children return, `calculatePrefetch` asks the children `0, …, K-1`
once each, in order; emits exactly the candidates of the child `currentAction`, in order, and
nothing when `currentAction` is `-1`; attributes each emitted candidate to it with
`trackIssuedForChild`, in order; and so grows `issued[c] + redundant[c]` by the number emitted
for `c = currentAction` when `c` has counters (`0 ≤ c ≤ 3`), changing no other counter. -/
theorem calculatePrefetch_routes (c : MLPrefetchController α) (now : UInt64)
    (cands : Nat → List AddrPriority) (hq : ∀ ch ∈ c.children, ch.queued = true) :
    let emitted := if 0 ≤ c.currentAction ∧ c.currentAction < c.children.length then
      cands c.currentAction.toNat else []
    (c.calculatePrefetch now cands).2.2 = List.range c.children.length ∧
      (c.calculatePrefetch now cands).2.1 = emitted ∧
      (c.calculatePrefetch now cands).1 =
        { c with tracker := issueAll c.currentAction now emitted c.tracker } ∧
      (c.calculatePrefetch now cands).1.tracker.useful = c.tracker.useful ∧
      ∀ j, (c.calculatePrefetch now cands).1.tracker.issued.get j +
          (c.calculatePrefetch now cands).1.tracker.redundant.get j =
        c.tracker.issued.get j + c.tracker.redundant.get j +
          if c.currentAction = j ∧ Slots.Counted c.currentAction then emitted.length else 0 := by
  have h := @fanOut_eq c.currentAction now cands 0 c.children c.tracker hq
  simp only [Nat.cast_zero, zero_add] at h
  simp only [calculatePrefetch, h, List.range_eq_range', true_and]
  exact ⟨(issueAll_counts 0 _ _).2, fun j => (issueAll_counts j _ _).1⟩

/-- The tracker `calculatePrefetch` leaves, when every child is `Queued`. -/
theorem calculatePrefetch_tracker (c : MLPrefetchController α) (now : UInt64)
    (cands : Nat → List AddrPriority) (hq : ∀ ch ∈ c.children, ch.queued = true) :
    (c.calculatePrefetch now cands).1.tracker = issueAll c.currentAction now
      (if 0 ≤ c.currentAction ∧ c.currentAction < c.children.length then
        cands c.currentAction.toNat else []) c.tracker := by
  rw [calculatePrefetch_fst, fanOut_eq 0 _ _ hq, Nat.cast_zero, zero_add]

/-- The two-child controller starting on child 1, every child answering with one candidate. -/
theorem calculatePrefetch_routes_two :
    let c := ofParams twoChildParams 0 0
    let emitted := if 0 ≤ c.currentAction ∧ c.currentAction < c.children.length then
      (fun _ => [((64 : UInt64), (0 : Int))]) c.currentAction.toNat else []
    (c.calculatePrefetch 0 fun _ => [(64, 0)]).2.2 = List.range c.children.length ∧
      (c.calculatePrefetch 0 fun _ => [(64, 0)]).2.1 = emitted ∧
      (c.calculatePrefetch 0 fun _ => [(64, 0)]).1 =
        { c with tracker := issueAll c.currentAction 0 emitted c.tracker } ∧
      (c.calculatePrefetch 0 fun _ => [(64, 0)]).1.tracker.useful = c.tracker.useful ∧
      ∀ j, (c.calculatePrefetch 0 fun _ => [(64, 0)]).1.tracker.issued.get j +
          (c.calculatePrefetch 0 fun _ => [(64, 0)]).1.tracker.redundant.get j =
        c.tracker.issued.get j + c.tracker.redundant.get j +
          if c.currentAction = j ∧ Slots.Counted c.currentAction then emitted.length else 0 :=
  calculatePrefetch_routes (ofParams twoChildParams 0 0) 0 _ (by decide)

/-- Five children, starting on child 4. -/
def fiveChildParams : Params ℚ :=
  ⟨[], [], List.replicate 5 ⟨[], true⟩, 4, 1 / 10, 1 / 10, false, false⟩

/-- Child 4 has no counters: the candidate it emits is attributed to it, and no counter
moves. -/
theorem calculatePrefetch_uncounted_child :
    Reachable (ofParams fiveChildParams 0 0) ∧ (ofParams fiveChildParams 0 0).currentAction = 4 ∧
      ((ofParams fiveChildParams 0 0).calculatePrefetch 0 fun _ => [(64, 0)]).2.1 = [(64, 0)] ∧
      ((ofParams fiveChildParams 0 0).calculatePrefetch 0 fun _ => [(64, 0)]).1.tracker.issued =
        (ofParams fiveChildParams 0 0).tracker.issued ∧
      ((ofParams fiveChildParams 0 0).calculatePrefetch 0 fun _ => [(64, 0)]).1.tracker.redundant =
        (ofParams fiveChildParams 0 0).tracker.redundant :=
  ⟨.ofParams _ 0 0, rfl, rfl, rfl, rfl⟩

end MLPrefetchController

/-! ## Re-issuing on a full table -/

/-- **A full table forgets before it looks.** On a table holding `MaxTrackedPrefetches`
entries, `trackIssuedForChild(i, addr)` for a child with counters counts an issued prefetch and
no redundant one, and leaves `addr` the only tracked address, whether or not `addr` was
tracked. -/
theorem trackIssued_full_reissue (t : PfTracker) {i : Int} (hi : Slots.Counted i)
    (hfull : maxTrackedPrefetches ≤ t.size) (now addr : UInt64) :
    (t.trackIssuedForChild i now addr).redundant = t.redundant ∧
      (t.trackIssuedForChild i now addr).issued.get i = t.issued.get i + 1 ∧
      (t.trackIssuedForChild i now addr).childPfTable.entries = [⟨addr, ⟨i, now⟩⟩] := by
  rw [PfTracker.trackIssuedForChild_of_full hi.1 hfull]
  refine ⟨rfl, ?_, rfl⟩
  simp [Slots.get_bump, hi]

/-- One child, active from the start. -/
def oneChildParams : Params ℚ := ⟨[], [], [⟨[115], true⟩], 0, 1 / 10, 1 / 10, false, false⟩

/-- `MaxTrackedPrefetches` distinct candidates `0, 1, …, 2047`. -/
def fullCands : List AddrPriority :=
  (List.range maxTrackedPrefetches).map fun k => (UInt64.ofNat k, 0)

/-- The one-child controller after its child emitted `fullCands`. -/
def fullState : MLPrefetchController ℚ :=
  ((MLPrefetchController.ofParams oneChildParams 0 0).calculatePrefetch 0 fun _ => fullCands).1

/-- A full table holding address `0` is reachable. -/
theorem reachable_fullState :
    MLPrefetchController.Reachable fullState ∧ maxTrackedPrefetches ≤ fullState.tracker.size ∧
      (0 : UInt64) ∈ fullState.tracker.childPfTable := by
  have ht : fullState.tracker = issueAll 0 0 fullCands PfTracker.empty := by
    rw [fullState, MLPrefetchController.calculatePrefetch_tracker _ _ _ (by decide),
      if_pos (by decide)]
    rfl
  have hnd : (fullCands.map Prod.fst).Nodup := by
    rw [fullCands, List.map_map]
    refine (List.nodup_range _).map_on fun x hx y hy hxy => ?_
    have h := congrArg UInt64.toNat hxy
    simp only [Function.comp, uint64_toNat_ofNat] at h
    rw [List.mem_range] at hx hy
    rwa [Nat.mod_eq_of_lt (hx.trans (by decide)), Nat.mod_eq_of_lt (hy.trans (by decide))] at h
  have hlen : fullCands.length = maxTrackedPrefetches := by simp [fullCands]
  obtain ⟨hs, hm⟩ := @issueAll_fresh 0 0 (le_refl 0) fullCands PfTracker.empty hnd
    (fun _ _ => AList.not_mem_empty _) (by rw [hlen]; exact Nat.le_refl _)
  refine ⟨.step (.calculatePrefetch 0 fun _ => fullCands) (.ofParams _ 0 0) rfl, ?_, ?_⟩
  · rw [ht, hs, hlen]
    exact Nat.le_add_left _ _
  · rw [ht]
    exact hm 0 (.inr ⟨(0, 0), List.mem_map.2 ⟨0, List.mem_range.2 (by decide), rfl⟩, rfl⟩)

/-- Child 0 re-issues the tracked address `0` on that full table. -/
theorem trackIssued_full_reissue_reachable :
    Slots.Counted 0 ∧ maxTrackedPrefetches ≤ fullState.tracker.size ∧
      (0 : UInt64) ∈ fullState.tracker.childPfTable ∧
      (fullState.tracker.trackIssuedForChild 0 1 0).redundant = fullState.tracker.redundant ∧
      (fullState.tracker.trackIssuedForChild 0 1 0).issued.get 0 =
        fullState.tracker.issued.get 0 + 1 ∧
      (fullState.tracker.trackIssuedForChild 0 1 0).childPfTable.entries = [⟨0, ⟨0, 1⟩⟩] :=
  ⟨by decide, reachable_fullState.2.1, reachable_fullState.2.2,
    trackIssued_full_reissue fullState.tracker (by decide) reachable_fullState.2.1 1 0⟩

/-! ## Useful credit by exact address -/

/-- `blockAddress(a)` of a cache with `blkSize`-byte lines: `a & ~(Addr(blkSize) - 1)`. -/
def blockAddress (blkSize a : UInt64) : UInt64 := a &&& ~~~(blkSize - 1)

namespace MLPrefetchController

variable {α : Type}

/-- **Credit goes by exact address.** A hit at an address `x` other than a tracked prefetch
`p` — in `p`'s cache line or not — leaves `p` tracked as it was; when `x` itself is not
tracked, no child is credited. -/
theorem notify_credits_exact_address (c : MLPrefetchController α) {p x : UInt64}
    {m : ChildPfMeta} (hp : c.tracker.childPfTable.lookup p = some m) (hx : x ≠ p) :
    (c.notify x false).tracker.childPfTable.lookup p = some m ∧
      (c.tracker.childPfTable.lookup x = none →
        (c.notify x false).tracker.useful = c.tracker.useful) := by
  simp only [notify_eq, Bool.false_eq_true, if_false, PfTracker.trackUsefulForAddr]
  refine ⟨?_, fun hxu => by rw [hxu]⟩
  split
  · exact hp
  · exact (AList.lookup_erase_ne hx.symm).trans hp

/-- Child 0 of the one-child controller prefetched `64`; the demand hit at `65`, in the same
64-byte line, credits nobody. -/
theorem notify_credits_exact_address_same_line :
    let c := ((ofParams oneChildParams 0 0).calculatePrefetch 0 fun _ => [(64, 0)]).1
    blockAddress 64 65 = blockAddress 64 64 ∧ Reachable c ∧
      c.tracker.childPfTable.lookup 64 = some ⟨0, 0⟩ ∧ c.tracker.childPfTable.lookup 65 = none ∧
      (c.notify 65 false).tracker.childPfTable.lookup 64 = some ⟨0, 0⟩ ∧
      (c.tracker.childPfTable.lookup 65 = none →
        (c.notify 65 false).tracker.useful = c.tracker.useful) :=
  ⟨by decide, .step (.calculatePrefetch 0 fun _ => [(64, 0)]) (.ofParams _ 0 0) rfl, rfl, rfl,
    notify_credits_exact_address _ rfl (by decide)⟩

/-! ## Whole runs -/

/-- Whichever children are `Queued`, `calculatePrefetch` attributes to `currentAction` exactly
the candidates it emits. -/
theorem calculatePrefetch_tracker_emitted (c : MLPrefetchController α) (now : UInt64)
    (cands : Nat → List AddrPriority) :
    (c.calculatePrefetch now cands).1.tracker =
      issueAll c.currentAction now (c.calculatePrefetch now cands).2.1 c.tracker :=
  fanOut_tracker 0 c.children c.tracker

variable [LinearOrderedField α]

/-- The child each candidate a callback emits is attributed to: `currentAction`, once per
candidate `calculatePrefetch` emits. The other callbacks emit none. -/
def attributed (c : MLPrefetchController α) : Event → List Int
  | .calculatePrefetch now cands =>
    List.replicate (c.calculatePrefetch now cands).2.1.length c.currentAction
  | _ => []

/-- One callback moves `issued[j] + redundant[j]` by the candidates it attributes to `j`, when
`j` has counters. -/
theorem issuedRedundant_step (c : MLPrefetchController α) (e : Event) :
    ∃ c', c.step e = some c' ∧ ∀ j,
      c'.tracker.issued.get j + c'.tracker.redundant.get j =
        c.tracker.issued.get j + c.tracker.redundant.get j +
          if Slots.Counted j then (c.attributed e).count j else 0 := by
  cases e with
  | notify addr miss =>
    refine ⟨_, rfl, fun j => ?_⟩
    cases miss <;> simp [attributed]
  | calculatePrefetch now cands =>
    refine ⟨_, rfl, fun j => ?_⟩
    rw [calculatePrefetch_tracker_emitted, (issueAll_counts j _ _).1]
    simp only [attributed, List.count_replicate, beq_iff_eq]
    by_cases hj : c.currentAction = j
    · subst hj
      simp
    · simp [hj]
  | endEpoch obs =>
    exact ⟨_, step_endEpoch_afterEpoch c obs, fun j => by simp [attributed]⟩

/-- **No prefetch lost or counted twice.** From every state, over every list of callbacks, the
`issued + redundant` counters of each child with counters grow by exactly the number of
candidates `calculatePrefetch` emitted while that child was `currentAction`: across clears of
the full table, useful credits and epochs. A child without counters has none to move. -/
theorem issuedRedundant_exec (c : MLPrefetchController α) (es : List Event) :
    ∃ c' log, execWith attributed c es = some (c', log) ∧ ∀ j,
      c'.tracker.issued.get j + c'.tracker.redundant.get j =
        c.tracker.issued.get j + c.tracker.redundant.get j +
          if Slots.Counted j then log.count j else 0 := by
  induction es generalizing c with
  | nil => exact ⟨c, [], rfl, fun j => by simp⟩
  | cons e es ih =>
    obtain ⟨c₁, h₁, hc₁⟩ := issuedRedundant_step c e
    obtain ⟨c₂, log, h₂, hc₂⟩ := ih c₁
    refine ⟨c₂, c.attributed e ++ log, by simp [execWith, h₁, h₂], fun j => ?_⟩
    rw [hc₂, hc₁, List.count_append]
    split_ifs <;> omega

end MLPrefetchController

end MLPrefetch
