import MLPrefetch.QTable
import MLPrefetch.Encoding

/-!
# MLPrefetch — Persistence

`childrenSignature()`, `saveQTable()` and `loadQTable()` over the bytes of the Q-table file.
The file layout, in the order `saveQTable` writes it:

```
u32  sigLen               static_cast<uint32_t>(sig.size())
u8[] sig                  the first sigLen bytes of the signature
u64  numStates            qTable.size()
repeat numStates:  u64 state, u32 rowLen, f64[rowLen] row
```

Both casts to `uint32_t` drop high bits, and the writes that follow them write only as many
bytes as the cast value says; `keptRow` is what of a row survives. The loader is the exact
sequence of reads and `in.good()` checks of the source; its outcome (`LoadResult`) records
which `return` it took, and `LoadResult.apply` what that leaves in `qTable` and
`qtableLoaded`. The round trip `loadQTable_saveQTable` reads back the first
`numStates mod 2^64` records, each row cut to its `u32` length.
-/

namespace MLPrefetch

/-- `';'`, written after each child name. -/
def semicolon : UInt8 := 59

/-- `childrenSignature()`: every child's `name()` followed by `;`, in child order. -/
def childrenSignature (children : List Child) : Bytes :=
  children.flatMap fun c => c.name ++ [semicolon]

/-- The signature depends on the children's names only. -/
theorem childrenSignature_eq (children : List Child) :
    childrenSignature children = (children.map Child.name).flatMap fun n => n ++ [semicolon] := by
  induction children <;> simp_all [childrenSignature]

/-- The part of a row its record keeps: `rowLen = static_cast<uint32_t>(row.size())` entries. -/
def keptRow (row : List UInt64) : List UInt64 := row.take (row.length % 2 ^ 32)

/-- One state record: `state`, `rowLen`, then the `rowLen` doubles written from `row.data()`. -/
def encodeRecord (e : UInt64 × List UInt64) : Bytes :=
  encodeLE 8 e.1.toNat ++ encodeLE 4 e.2.length ++ encodeRow (keptRow e.2)

/-- `saveQTable()`: the bytes it writes to `qfileName`, its rows given as bit patterns. -/
def saveQTable (sig : Bytes) (q : QTable UInt64) : Bytes :=
  let sigLen := sig.length % 2 ^ 32
  encodeLE 4 sigLen ++ sig.take sigLen ++ encodeLE 8 q.size ++ q.entries.flatMap encodeRecord

/-- The warnings of `loadQTable()`, one for each early `return`; the texts `warn()` prints are
left out, as nothing reads them. -/
inductive LoadWarning
  | noFile
  | noSigLen
  | noSig
  | sigMismatch (saved current : Bytes)
  | noNumStates
  | noStateHeader
  | noStateRow
deriving DecidableEq, Repr

/-- Which `return` `loadQTable()` took. -/
inductive LoadResult
  /-- A `return` before `qTable.clear()`: table and `qtableLoaded` untouched. -/
  | keep (w : LoadWarning)
  /-- A record failed: `qTable.clear(); return;`, `qtableLoaded` untouched. -/
  | cleared (w : LoadWarning)
  /-- Every record was read into the cleared table, and `qtableLoaded = true`. -/
  | loaded (q : QTable UInt64)

/-- The record loop `for (uint64_t i = 0; i < numStates; i++)` with `n` iterations left,
reading from the rest `s` of the file into `q`. The reads of `state` and `rowLen` share one
`in.good()` check: a failed first read leaves the second a no-op. -/
def loadRecords : Nat → Bytes → QTable UInt64 → Except LoadWarning (QTable UInt64)
  | 0, _, q => .ok q
  | n + 1, s, q =>
    match readU64 s with
    | none => .error .noStateHeader
    | some (state, s) =>
      match readU32 s with
      | none => .error .noStateHeader
      | some (rowLen, s) =>
        match read (rowLen * 8) s with
        | none => .error .noStateRow
        | some (data, s) => loadRecords n s (q.insert state (decodeRow rowLen data))

/-- The end of `loadQTable()` once `qTable.clear()` has run: a record cut short clears the
table again and returns, complete records leave it loaded. -/
def LoadResult.ofRecords : Except LoadWarning (QTable UInt64) → LoadResult
  | .error w => .cleared w
  | .ok q => .loaded q

/-- `loadQTable()` run by a controller whose `childrenSignature()` is `sig`, on the content
of `qfileName` (`none` when `in.is_open()` fails). -/
def loadQTable (sig : Bytes) : Option Bytes → LoadResult
  | none => .keep .noFile
  | some s =>
    match readU32 s with
    | none => .keep .noSigLen
    | some (sigLen, s) =>
      match read sigLen s with
      | none => .keep .noSig
      | some (savedSig, s) =>
        if savedSig = sig then
          match readU64 s with
          | none => .keep .noNumStates
          | some (numStates, s) => .ofRecords (loadRecords numStates.toNat s .empty)
        else .keep (.sigMismatch savedSig sig)

/-- `qTable` and `qtableLoaded` after the load, from their values before it; `ofBits` is the
double a bit pattern holds. -/
def LoadResult.apply {α : Type} (ofBits : UInt64 → α) :
    LoadResult → QTable α × Bool → QTable α × Bool
  | .keep _, s => s
  | .cleared _, s => (.empty, s.2)
  | .loaded q, _ => (q.map ofBits, true)

/-! ## Reading back what was saved -/

theorem length_keptRow (row : List UInt64) : (keptRow row).length = row.length % 2 ^ 32 := by
  simp [keptRow, Nat.mod_le]

theorem keptRow_of_lt {row : List UInt64} (h : row.length < 2 ^ 32) : keptRow row = row := by
  rw [keptRow, Nat.mod_eq_of_lt h, List.take_of_length_le (le_refl _)]

theorem readU32_encodeLE_mod (n : Nat) (r : Bytes) :
    readU32 (encodeLE 4 n ++ r) = some (n % 2 ^ 32, r) := by
  simp only [readU32, read_append (length_encodeLE 4 n), Option.map_some', decodeLE_encodeLE]
  rfl

/-- One record reads back as its key and kept row. -/
theorem loadRecords_cons (n : Nat) (e : UInt64 × List UInt64) (rest : Bytes)
    (q : QTable UInt64) :
    loadRecords (n + 1) (encodeRecord e ++ rest) q =
      loadRecords n rest (q.insert e.1 (keptRow e.2)) := by
  have hlen : (encodeRow (keptRow e.2)).length = e.2.length % 2 ^ 32 * 8 := by
    rw [length_encodeRow, length_keptRow, Nat.mul_comm]
  simp only [encodeRecord, List.append_assoc, loadRecords, readU64_encodeLE, uint64_ofNat_toNat,
    readU32_encodeLE_mod, read_append hlen]
  rw [← length_keptRow, decodeRow_encodeRow]

/-- Records written one after another read back in order. -/
theorem loadRecords_flatMap (l : List (UInt64 × List UInt64)) (rest : Bytes)
    (q : QTable UInt64) :
    loadRecords l.length (l.flatMap encodeRecord ++ rest) q =
      .ok (l.foldl (fun q e => q.insert e.1 (keptRow e.2)) q) := by
  induction l generalizing q with
  | nil => rfl
  | cons e l ih =>
    rw [List.flatMap_cons, List.append_assoc, List.length_cons, loadRecords_cons, ih]
    rfl

/-- The first `n` records of a list read back, whatever follows them. -/
theorem loadRecords_take (l : List (UInt64 × List UInt64)) {n : Nat} (hn : n ≤ l.length)
    (rest : Bytes) (q : QTable UInt64) :
    loadRecords n (l.flatMap encodeRecord ++ rest) q =
      .ok ((l.take n).foldl (fun q e => q.insert e.1 (keptRow e.2)) q) := by
  conv_lhs => rw [← List.take_append_drop n l, List.flatMap_append, List.append_assoc]
  rw [← loadRecords_flatMap, List.length_take, Nat.min_eq_left hn]

/-- The map of the records `loadQTable` reads back from `saveQTable`'s output: the first
`numStates` entries, each row cut to its `u32` length. -/
def readBack (q : QTable UInt64) : QTable UInt64 :=
  QTable.ofRecords ((q.entries.take (q.size % 2 ^ 64)).map fun e => (e.1, keptRow e.2))

theorem ofRecords_map_foldl (l : List (UInt64 × List UInt64)) :
    QTable.ofRecords (l.map fun e => (e.1, keptRow e.2)) =
      l.foldl (fun q e => q.insert e.1 (keptRow e.2)) QTable.empty := by
  simp [QTable.ofRecords, List.foldl_map]

/-- **Save, then load.** A loader whose signature equals what `saveQTable` wrote of its
signature reads back `readBack q`. -/
theorem loadQTable_saveQTable (sig : Bytes) (q : QTable UInt64) :
    loadQTable (sig.take (sig.length % 2 ^ 32)) (some (saveQTable sig q)) = .loaded (readBack q) := by
  have hsig : (sig.take (sig.length % 2 ^ 32)).length = sig.length % 2 ^ 32 := by
    simp [Nat.mod_le]
  have hq : q.size % 2 ^ 64 ≤ q.entries.length := Nat.le_trans (Nat.mod_le _ _) le_rfl
  simp only [saveQTable, loadQTable, List.append_assoc, readU32_encodeLE_mod, Nat.mod_mod,
    read_append hsig, if_true]
  have h := loadRecords_take q.entries hq [] QTable.empty
  rw [List.append_nil] at h
  simp only [readU64_encodeLE, uint64_toNat_ofNat, h, LoadResult.ofRecords, readBack,
    ofRecords_map_foldl]

/-- A loader whose signature differs from what was written ignores the file. -/
theorem loadQTable_saveQTable_of_ne {sig sig' : Bytes} (h : sig.take (sig.length % 2 ^ 32) ≠ sig')
    (q : QTable UInt64) :
    loadQTable sig' (some (saveQTable sig q)) =
      .keep (.sigMismatch (sig.take (sig.length % 2 ^ 32)) sig') := by
  have hsig : (sig.take (sig.length % 2 ^ 32)).length = sig.length % 2 ^ 32 := by
    simp [Nat.mod_le]
  simp only [saveQTable, loadQTable, List.append_assoc, readU32_encodeLE_mod, Nat.mod_mod,
    read_append hsig, if_neg h]

/-- Rows that fit their `u32` length and a table that fits its `u64` count read back whole. -/
theorem readBack_eq {q : QTable UInt64} (hrows : q.AllRows fun row => row.length < 2 ^ 32)
    (hsize : q.size < 2 ^ 64) : readBack q = q := by
  have hmap : (q.entries.map fun e => (e.1, keptRow e.2)) = q.entries :=
    (List.map_congr_left fun e he => by rw [keptRow_of_lt (hrows e he)]; rfl).trans (List.map_id _)
  rw [readBack, Nat.mod_eq_of_lt hsize, QTable.size, List.take_of_length_le (le_refl _), hmap,
    QTable.ofRecords_entries]

/-- A loader reading back a file written under its own signature gets `readBack q` when the
signature fits its `u32` length; a longer one is written cut and then fails the comparison. -/
theorem loadQTable_saveQTable_self (sig : Bytes) (q : QTable UInt64) :
    loadQTable sig (some (saveQTable sig q)) =
      if sig.length < 2 ^ 32 then .loaded (readBack q)
      else .keep (.sigMismatch (sig.take (sig.length % 2 ^ 32)) sig) := by
  split
  · rename_i h
    have h₁ := loadQTable_saveQTable sig q
    rwa [Nat.mod_eq_of_lt h, List.take_length] at h₁
  · rename_i h
    refine loadQTable_saveQTable_of_ne (fun heq => h ?_) q
    have hlen := congrArg List.length heq
    rw [List.length_take] at hlen
    have := Nat.mod_lt sig.length (show 0 < 2 ^ 32 by decide)
    omega

theorem AllRows.readBack {P : List UInt64 → Prop} {q : QTable UInt64}
    (h : q.AllRows fun row => P (keptRow row)) : (readBack q).AllRows P :=
  QTable.AllRows.ofRecords fun r hr => by
    obtain ⟨e, he, rfl⟩ := List.mem_map.1 hr
    exact h e (List.mem_of_mem_take he)

theorem AllKeys.readBack {P : UInt64 → Prop} {q : QTable UInt64} (h : q.AllKeys P) :
    (readBack q).AllKeys P :=
  QTable.AllKeys.ofRecords fun r hr => by
    obtain ⟨e, he, rfl⟩ := List.mem_map.1 hr
    exact h e (List.mem_of_mem_take he)

/-- **Q-table round trip.** A controller whose children bear the names the table was saved
under loads back exactly the saved table — every key, every row length, every bit pattern —
whatever table and flag it held before, and sets `qtableLoaded`. The hypotheses are the widths
of the file's fields: the signature and every row fit their `u32` lengths, and the table fits
the `u64` count, as any `std::map` does (its `max_size()` is below `2^64`). -/
theorem loadQTable_roundTrip (C C' : List Child) (hnames : C.map Child.name = C'.map Child.name)
    (T : QTable UInt64) (hsig : (childrenSignature C).length < 2 ^ 32)
    (hrows : T.AllRows fun row => row.length < 2 ^ 32) (hsize : T.size < 2 ^ 64)
    (prior : QTable UInt64 × Bool) :
    (loadQTable (childrenSignature C') (some (saveQTable (childrenSignature C) T))).apply id prior =
      (T, true) := by
  have hC : childrenSignature C' = (childrenSignature C).take ((childrenSignature C).length % 2 ^ 32) := by
    rw [Nat.mod_eq_of_lt hsig, List.take_of_length_le (le_refl _), childrenSignature_eq,
      childrenSignature_eq, hnames]
  rw [hC, loadQTable_saveQTable, readBack_eq hrows hsize]
  simp [LoadResult.apply]

/-- Two children, one saved row `[0, 5]` under state `121`, loaded over an empty table. -/
theorem loadQTable_roundTrip_one_row :
    (loadQTable (childrenSignature [⟨[115], true⟩, ⟨[116], true⟩])
        (some (saveQTable (childrenSignature [⟨[115], true⟩, ⟨[116], true⟩])
          ⟨[(121, [0, 5])], List.sorted_singleton _⟩))).apply id (QTable.empty, false) =
      (⟨[(121, [0, 5])], List.sorted_singleton _⟩, true) :=
  loadQTable_roundTrip [⟨[115], true⟩, ⟨[116], true⟩] [⟨[115], true⟩, ⟨[116], true⟩] rfl
    ⟨[(121, [0, 5])], List.sorted_singleton _⟩ (by decide)
    (fun e he => by simp only [List.mem_singleton] at he; subst he; decide) (by decide) _

end MLPrefetch
