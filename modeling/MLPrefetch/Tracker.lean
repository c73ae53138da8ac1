import MLPrefetch.Basic
import Mathlib.Data.List.AList

/-!
# MLPrefetch — Tracker

The per-child prefetch attribution: `childPfTable`, `trackIssuedForChild`,
`trackUsefulForAddr`, and the `issued` / `useful` / `redundant` counter families.

`childPfTable` is a `std::unordered_map<Addr, ChildPfMeta>`; its iteration order is never
observed, so it is an `AList` (an association list with distinct keys). Overwriting the
metadata of a tracked address and emplacing an untracked one both leave the address mapped to
the new metadata, which is `AList.insert`.

Two invariants hold along every sequence of operations:

* `Bounded` — the table never holds more than `MaxTrackedPrefetches` entries;
* `Accounting` — per child, useful credits plus the prefetches still tracked for it never
  exceed what it issued plus what it re-issued, and in total useful credits plus the table
  never exceed what was issued. Its step lemma needs the issuing child to have counters.
-/

namespace MLPrefetch

/-- `ChildPfMeta`: the child a tracked prefetch is attributed to, and its issue tick. -/
structure ChildPfMeta where
  actionIndex : Int
  issueTick : UInt64
deriving DecidableEq, Repr

/-- `std::unordered_map<Addr, ChildPfMeta>`. -/
abbrev PfTable := AList fun _ : UInt64 => ChildPfMeta

/-- The attribution state of the controller. -/
structure PfTracker where
  childPfTable : PfTable
  issued : Slots
  useful : Slots
  redundant : Slots

namespace PfTracker

/-- As constructed: an empty table and all counters zero. -/
def empty : PfTracker := ⟨∅, {}, {}, {}⟩

/-- `childPfTable.size()`. -/
def size (t : PfTracker) : Nat := t.childPfTable.entries.length

/-- `if (childPfTable.size() >= MaxTrackedPrefetches) childPfTable.clear();` -/
def clearIfFull (t : PfTracker) : PfTracker :=
  if maxTrackedPrefetches ≤ t.size then { t with childPfTable := ∅ } else t

/-- The rest of `trackIssuedForChild`: a tracked `addr` counts as a redundant prefetch of
`childIndex`, an untracked one as an issued one, and either way `addr` is attributed to
`childIndex` from tick `now` on. -/
def recordIssue (t : PfTracker) (childIndex : Int) (now addr : UInt64) : PfTracker :=
  if addr ∈ t.childPfTable then
    { t with childPfTable := t.childPfTable.insert addr ⟨childIndex, now⟩,
             redundant := t.redundant.bump childIndex }
  else
    { t with childPfTable := t.childPfTable.insert addr ⟨childIndex, now⟩,
             issued := t.issued.bump childIndex }

/-- `trackIssuedForChild(childIndex, addr)` at tick `now`. -/
def trackIssuedForChild (t : PfTracker) (childIndex : Int) (now addr : UInt64) : PfTracker :=
  if childIndex < 0 then t else t.clearIfFull.recordIssue childIndex now addr

/-- `trackUsefulForAddr(addr)`: a tracked `addr` earns its child one useful prefetch and stops
being tracked. -/
def trackUsefulForAddr (t : PfTracker) (addr : UInt64) : PfTracker :=
  match t.childPfTable.lookup addr with
  | none => t
  | some m => { t with useful := t.useful.bump m.actionIndex,
                       childPfTable := t.childPfTable.erase addr }

@[simp] theorem trackUsefulForAddr_issued (t : PfTracker) (addr : UInt64) :
    (t.trackUsefulForAddr addr).issued = t.issued := by
  unfold trackUsefulForAddr
  split <;> rfl

@[simp] theorem trackUsefulForAddr_redundant (t : PfTracker) (addr : UInt64) :
    (t.trackUsefulForAddr addr).redundant = t.redundant := by
  unfold trackUsefulForAddr
  split <;> rfl

/-! ## Counting entries -/

/-- Taking out the key `a`, which holds `o`, removes exactly the entry `⟨a, o⟩`. -/
theorem countP_kerase {s : PfTable} {a : UInt64} {o : ChildPfMeta} (h : s.lookup a = some o)
    (p : (_ : UInt64) × ChildPfMeta → Bool) :
    (s.entries.kerase a).countP p + (if p ⟨a, o⟩ then 1 else 0) = s.entries.countP p := by
  obtain ⟨b, l₁, l₂, -, he, hk⟩ :=
    List.exists_of_kerase (AList.mem_keys.1 (AList.lookup_isSome.1 (by rw [h]; rfl)))
  have hb : Sigma.mk a b ∈ s.entries := by rw [he]; simp
  rw [← AList.mem_lookup_iff, h] at hb
  cases Option.some_inj.1 (Option.mem_def.1 hb)
  rw [hk, he, List.countP_append, List.countP_append, List.countP_cons]
  omega

/-- Inserting under `a` trades the entry `a` held, if any, for the new one. -/
theorem countP_insert (s : PfTable) (a : UInt64) (m : ChildPfMeta)
    (p : (_ : UInt64) × ChildPfMeta → Bool) :
    (s.insert a m).entries.countP p +
        (match s.lookup a with | some o => if p ⟨a, o⟩ then 1 else 0 | none => 0) =
      s.entries.countP p + if p ⟨a, m⟩ then 1 else 0 := by
  rw [AList.insert_entries, List.countP_cons]
  cases h : s.lookup a with
  | none =>
    rw [List.kerase_of_not_mem_keys (AList.lookup_eq_none.1 h)]
    simp
  | some o =>
    have := countP_kerase h p
    dsimp only
    omega

theorem countP_erase {s : PfTable} {a : UInt64} {o : ChildPfMeta} (h : s.lookup a = some o)
    (p : (_ : UInt64) × ChildPfMeta → Bool) :
    (s.erase a).entries.countP p + (if p ⟨a, o⟩ then 1 else 0) = s.entries.countP p :=
  countP_kerase h p

/-- The prefetches of `s` attributed to child `i`. -/
def ownedIn (s : PfTable) (i : Int) : Nat := s.entries.countP fun e => e.2.actionIndex = i

theorem ownedIn_insert_le (s : PfTable) (a : UInt64) (m : ChildPfMeta) (j : Int) :
    ownedIn (s.insert a m) j ≤ ownedIn s j + if m.actionIndex = j then 1 else 0 := by
  have := countP_insert s a m fun e => e.2.actionIndex = j
  simp only [ownedIn, decide_eq_true_eq] at this ⊢
  omega

theorem ownedIn_erase {s : PfTable} {a : UInt64} {o : ChildPfMeta} (h : s.lookup a = some o)
    (j : Int) : ownedIn (s.erase a) j + (if o.actionIndex = j then 1 else 0) = ownedIn s j := by
  simpa [ownedIn] using countP_erase h fun e => e.2.actionIndex = j

theorem length_insert_of_not_mem {s : PfTable} {a : UInt64} (h : a ∉ s) (m : ChildPfMeta) :
    (s.insert a m).entries.length = s.entries.length + 1 := by
  rw [AList.insert_entries_of_neg h]; rfl

theorem length_insert_of_lookup {s : PfTable} {a : UInt64} {o : ChildPfMeta}
    (h : s.lookup a = some o) (m : ChildPfMeta) :
    (s.insert a m).entries.length = s.entries.length := by
  have := countP_insert s a m fun _ => true
  rw [h] at this
  simpa using this

theorem length_erase {s : PfTable} {a : UInt64} {o : ChildPfMeta} (h : s.lookup a = some o) :
    (s.erase a).entries.length + 1 = s.entries.length := by
  simpa using countP_erase h fun _ => true

theorem length_insert_le (s : PfTable) (a : UInt64) (m : ChildPfMeta) :
    (s.insert a m).entries.length ≤ s.entries.length + 1 := by
  have := countP_insert s a m fun _ => true
  simp only [List.countP_true, if_true] at this
  omega

/-! ## What one attribution does -/

@[simp] theorem clearIfFull_issued (t : PfTracker) : t.clearIfFull.issued = t.issued := by
  unfold clearIfFull; split <;> rfl

@[simp] theorem clearIfFull_useful (t : PfTracker) : t.clearIfFull.useful = t.useful := by
  unfold clearIfFull; split <;> rfl

@[simp] theorem clearIfFull_redundant (t : PfTracker) : t.clearIfFull.redundant = t.redundant := by
  unfold clearIfFull; split <;> rfl

theorem recordIssue_table (t : PfTracker) (i : Int) (now addr : UInt64) :
    (t.recordIssue i now addr).childPfTable = t.childPfTable.insert addr ⟨i, now⟩ := by
  unfold recordIssue
  split <;> rfl

/-- `recordIssue` to `i` bumps exactly one of `issued[i]` and `redundant[i]`, when `i` has
counters, and no useful counter. -/
theorem recordIssue_counts (t : PfTracker) (i : Int) (now addr : UInt64) (j : Int) :
    (t.recordIssue i now addr).issued.get j + (t.recordIssue i now addr).redundant.get j =
      t.issued.get j + t.redundant.get j + (if i = j ∧ Slots.Counted i then 1 else 0) ∧
    (t.recordIssue i now addr).useful = t.useful := by
  unfold recordIssue
  split <;> simp only [Slots.get_bump, and_true] <;> omega

/-- An attribution to `i` bumps exactly one of `issued[i]` and `redundant[i]`, when `i` has
counters, and no useful counter. -/
theorem trackIssuedForChild_counts (t : PfTracker) (i : Int) (now addr : UInt64) (j : Int) :
    (t.trackIssuedForChild i now addr).issued.get j +
        (t.trackIssuedForChild i now addr).redundant.get j =
      t.issued.get j + t.redundant.get j + (if i = j ∧ Slots.Counted i then 1 else 0) ∧
    (t.trackIssuedForChild i now addr).useful = t.useful := by
  unfold trackIssuedForChild
  split
  · rename_i hneg
    rw [if_neg fun h => absurd h.2.1 (not_le.2 hneg)]
    exact ⟨rfl, rfl⟩
  · simpa only [clearIfFull_issued, clearIfFull_redundant, clearIfFull_useful] using
      recordIssue_counts t.clearIfFull i now addr j

/-- On a full table the attribution clears it first, so `addr` is never found: whether it was
tracked or not, it counts as issued and becomes the only entry. -/
theorem trackIssuedForChild_of_full {t : PfTracker} {i : Int} (hi : 0 ≤ i)
    (hfull : maxTrackedPrefetches ≤ t.size) (now addr : UInt64) :
    t.trackIssuedForChild i now addr =
      { t with childPfTable := (∅ : PfTable).insert addr ⟨i, now⟩, issued := t.issued.bump i } := by
  unfold trackIssuedForChild clearIfFull recordIssue
  rw [if_neg (not_lt.2 hi), if_pos hfull, if_neg (AList.not_mem_empty addr)]

/-- Below the cap, the attribution is `recordIssue`: a tracked `addr` is overwritten and counted
redundant, an untracked one inserted and counted issued. -/
theorem trackIssuedForChild_of_lt {t : PfTracker} {i : Int} (hi : 0 ≤ i)
    (hroom : t.size < maxTrackedPrefetches) (now addr : UInt64) :
    t.trackIssuedForChild i now addr = t.recordIssue i now addr := by
  unfold trackIssuedForChild clearIfFull
  rw [if_neg (not_lt.2 hi), if_neg (not_le.2 hroom)]

/-- Below the cap, an untracked `addr` is inserted: the table grows by one. -/
theorem trackIssuedForChild_fresh {t : PfTracker} {i : Int} (hi : 0 ≤ i)
    (hroom : t.size < maxTrackedPrefetches) (now : UInt64) {addr : UInt64}
    (hnot : addr ∉ t.childPfTable) :
    (t.trackIssuedForChild i now addr).size = t.size + 1 ∧
      ∀ a, a ∈ (t.trackIssuedForChild i now addr).childPfTable ↔ a = addr ∨ a ∈ t.childPfTable := by
  rw [trackIssuedForChild_of_lt hi hroom, size, recordIssue_table]
  exact ⟨length_insert_of_not_mem hnot _, fun a => AList.mem_insert _⟩

/-! ## The table stays bounded -/

/-- The table holds at most `MaxTrackedPrefetches` entries. -/
def Bounded (t : PfTracker) : Prop := t.size ≤ maxTrackedPrefetches

theorem Bounded.empty : Bounded PfTracker.empty := Nat.zero_le _

theorem size_clearIfFull_lt (t : PfTracker) : t.clearIfFull.size < maxTrackedPrefetches := by
  unfold clearIfFull
  split
  · simp [size, maxTrackedPrefetches]
  · omega

/-- `recordIssue` grows the table by one exactly when it counts an issued prefetch. -/
theorem size_recordIssue (t : PfTracker) {i : Int} (hi : Slots.Counted i) (now addr : UInt64) :
    (t.recordIssue i now addr).size + t.issued.total =
      t.size + (t.recordIssue i now addr).issued.total := by
  unfold recordIssue
  split
  · obtain ⟨o, ho⟩ := Option.isSome_iff_exists.1 (AList.lookup_isSome.2 ‹_›)
    simp only [size, length_insert_of_lookup ho]
  · simp only [size, length_insert_of_not_mem ‹_›, Slots.total_bump, hi, if_true]
    omega

theorem Bounded.trackIssuedForChild {t : PfTracker} (h : Bounded t) (i : Int) (now addr : UInt64) :
    Bounded (t.trackIssuedForChild i now addr) := by
  unfold PfTracker.trackIssuedForChild
  split
  · exact h
  · have h₁ := length_insert_le t.clearIfFull.childPfTable addr ⟨i, now⟩
    have h₂ := size_clearIfFull_lt t
    unfold Bounded size at *
    rw [recordIssue_table]
    omega

theorem Bounded.trackUsefulForAddr {t : PfTracker} (h : Bounded t) (addr : UInt64) :
    Bounded (t.trackUsefulForAddr addr) := by
  unfold PfTracker.trackUsefulForAddr
  split
  · exact h
  · rename_i o ho
    have := length_erase ho
    unfold Bounded size at *
    dsimp only
    omega

/-! ## Useful credits never outnumber the prefetches that earned them -/

/-- The counters against the live table: per child, useful credits plus the prefetches still
tracked for it are at most its issued plus redundant prefetches; summed, useful credits plus
the tracked prefetches are at most the issued ones; and every tracked prefetch belongs to a
child that has counters. -/
structure Accounting (t : PfTracker) : Prop where
  perChild : ∀ i, t.useful.get i + ownedIn t.childPfTable i ≤ t.issued.get i + t.redundant.get i
  total : t.useful.total + t.size ≤ t.issued.total
  counted : ∀ e ∈ t.childPfTable.entries, Slots.Counted e.2.actionIndex

theorem Accounting.empty : Accounting PfTracker.empty :=
  ⟨fun i => by simp [PfTracker.empty, ownedIn], by simp [PfTracker.empty, size],
    fun e he => absurd he (List.not_mem_nil e)⟩

theorem Accounting.clearIfFull {t : PfTracker} (h : Accounting t) : Accounting t.clearIfFull := by
  unfold PfTracker.clearIfFull
  split
  · refine ⟨fun i => ?_, ?_, fun e he => absurd he (List.not_mem_nil e)⟩
    · have := h.perChild i
      simp only [ownedIn, AList.empty_entries, List.countP_nil] at this ⊢
      omega
    · have := h.total
      simp only [size, AList.empty_entries, List.length_nil] at this ⊢
      omega
  · exact h

theorem Accounting.recordIssue {t : PfTracker} (h : Accounting t) {i : Int} (hi : Slots.Counted i)
    (now addr : UInt64) : Accounting (t.recordIssue i now addr) := by
  refine ⟨fun j => ?_, ?_, fun e he => ?_⟩
  · have h₁ := ownedIn_insert_le t.childPfTable addr ⟨i, now⟩ j
    obtain ⟨h₂, hu⟩ := recordIssue_counts t i now addr j
    have h₃ := h.perChild j
    rw [hu, recordIssue_table]
    simp only [hi, and_true] at h₁ h₂
    split_ifs at h₁ h₂ <;> omega
  · have h₁ := size_recordIssue t hi now addr
    have h₂ := h.total
    rw [(recordIssue_counts t i now addr 0).2]
    omega
  · rw [recordIssue_table, AList.insert_entries] at he
    rcases List.mem_cons.1 he with rfl | he
    · exact hi
    · exact h.counted e (List.Sublist.subset (List.kerase_sublist _ _) he)

theorem Accounting.trackIssuedForChild {t : PfTracker} (h : Accounting t) {i : Int}
    (hi : i < 0 ∨ Slots.Counted i) (now addr : UInt64) :
    Accounting (t.trackIssuedForChild i now addr) := by
  unfold PfTracker.trackIssuedForChild
  split
  · exact h
  · rename_i hneg
    exact h.clearIfFull.recordIssue (hi.resolve_left hneg) now addr

theorem Accounting.trackUsefulForAddr {t : PfTracker} (h : Accounting t) (addr : UInt64) :
    Accounting (t.trackUsefulForAddr addr) := by
  unfold PfTracker.trackUsefulForAddr
  split
  · exact h
  · rename_i o ho
    have hc : Slots.Counted o.actionIndex :=
      h.counted ⟨addr, o⟩ (AList.mem_lookup_iff.1 (Option.mem_def.2 ho))
    refine ⟨fun j => ?_, ?_, fun e he => h.counted e (List.Sublist.subset (List.kerase_sublist _ _) he)⟩
    · have h₁ := ownedIn_erase ho j
      have h₂ := h.perChild j
      simp only [Slots.get_bump, hc, and_true]
      split_ifs at h₁ ⊢ <;> omega
    · have h₁ := length_erase ho
      have h₂ := h.total
      simp only [size, Slots.total_bump, hc, if_true] at h₂ ⊢
      omega

end PfTracker

end MLPrefetch
