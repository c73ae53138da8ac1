import MLPrefetch.Persistence

/-!
# MLPrefetch — Loader

What `loadQTable()` does with an arbitrary file. The file is described independently of the
loader, as byte strings:

* `HasHeader sig B m rest` — `B` begins with a complete header carrying `sig` whole and a
  record count `m`, and `rest` follows it;
* `HasRecords m rest recs` — `rest` begins with `m` complete records `recs`.

`loadQTable_atomic` then says the load ends in one of three ways: all records loaded, the
table and flag untouched (no file, a short header, another signature), or the table emptied
(a record cut short). No prefix of the records is ever left behind: the loader builds into the
cleared table and clears it again on the first failing record.
-/

namespace MLPrefetch

/-- `B` starts with a complete header carrying the signature `sig`: its `u32` length, `sig`
itself, and a `u64` record count `m`; `rest` follows. -/
def HasHeader (sig B : Bytes) (m : UInt64) (rest : Bytes) : Prop :=
  sig.length < 2 ^ 32 ∧ B = encodeLE 4 sig.length ++ sig ++ encodeLE 8 m.toNat ++ rest

/-- `rest` starts with `m` complete records `recs` — a `u64` state, a `u32` row length and
that many doubles each — and anything may follow them. -/
def HasRecords (m : UInt64) (rest : Bytes) (recs : List (UInt64 × List UInt64)) : Prop :=
  recs.length = m.toNat ∧ (∀ r ∈ recs, r.2.length < 2 ^ 32) ∧
    ∃ tail, rest = recs.flatMap encodeRecord ++ tail

/-- A successful record loop read complete records, and built the table from them. -/
theorem loadRecords_eq_ok : ∀ {n : Nat} {s : Bytes} {q q' : QTable UInt64},
    loadRecords n s q = .ok q' →
      ∃ (recs : List (UInt64 × List UInt64)) (tail : Bytes), recs.length = n ∧
        (∀ r ∈ recs, r.2.length < 2 ^ 32) ∧ s = recs.flatMap encodeRecord ++ tail ∧
        q' = recs.foldl (fun q e => q.insert e.1 e.2) q
  | 0, s, q, q', h => ⟨[], s, rfl, by simp, rfl, by cases h; rfl⟩
  | n + 1, s, q, q', h => by
    simp only [loadRecords] at h
    cases h₁ : readU64 s with
    | none => simp [h₁] at h
    | some p =>
      obtain ⟨state, s₁⟩ := p
      cases h₂ : readU32 s₁ with
      | none => simp [h₁, h₂] at h
      | some p =>
        obtain ⟨rowLen, s₂⟩ := p
        cases h₃ : read (rowLen * 8) s₂ with
        | none => simp [h₁, h₂, h₃] at h
        | some p =>
          obtain ⟨data, s₃⟩ := p
          simp only [h₁, h₂, h₃] at h
          obtain ⟨recs, tail, hlen, hrows, rfl, rfl⟩ := loadRecords_eq_ok h
          obtain ⟨hn, rfl⟩ := readU32_eq_some.1 h₂
          obtain ⟨hd, rfl⟩ := read_eq_some.1 h₃
          refine ⟨(state, decodeRow rowLen data) :: recs, tail, by simp [hlen], ?_, ?_, rfl⟩
          · intro r hr
            rcases List.mem_cons.1 hr with rfl | hr
            · simpa using hn
            · exact hrows r hr
          · rw [readU64_eq_some.1 h₁, List.flatMap_cons, encodeRecord, length_decodeRow,
              keptRow_of_lt (by simpa using hn), encodeRow_decodeRow rowLen data (by omega)]
            simp

/-- Complete records whose rows fit their `u32` lengths load whole. -/
theorem loadRecords_complete {m : UInt64} {rest : Bytes} {recs : List (UInt64 × List UInt64)}
    (h : HasRecords m rest recs) (q : QTable UInt64) :
    loadRecords m.toNat rest q = .ok (recs.foldl (fun q e => q.insert e.1 e.2) q) := by
  obtain ⟨hlen, hrows, tail, rfl⟩ := h
  rw [← hlen, loadRecords_flatMap]
  exact congrArg _ (List.foldl_ext _ _ _ fun q e he => by rw [keptRow_of_lt (hrows e he)])

/-- Past a complete header with the loader's own signature, only the records decide. -/
theorem loadQTable_of_header {sig B rest : Bytes} {m : UInt64} (h : HasHeader sig B m rest) :
    loadQTable sig (some B) = .ofRecords (loadRecords m.toNat rest .empty) := by
  obtain ⟨hs, rfl⟩ := h
  simp only [loadQTable, List.append_assoc, readU32_encodeLE hs, read_append rfl, if_true,
    readU64_encodeLE, uint64_ofNat_toNat]

/-- Without a complete header carrying its signature the loader returns before clearing. -/
theorem loadQTable_of_not_header {sig B : Bytes} (h : ¬ ∃ m rest, HasHeader sig B m rest) :
    ∃ w, loadQTable sig (some B) = .keep w := by
  simp only [loadQTable]
  cases h₁ : readU32 B with
  | none => exact ⟨_, rfl⟩
  | some p =>
    obtain ⟨n, s₁⟩ := p
    dsimp only
    cases h₂ : read n s₁ with
    | none => exact ⟨_, rfl⟩
    | some p =>
      obtain ⟨saved, s₂⟩ := p
      dsimp only
      by_cases hsig : saved = sig
      · cases h₃ : readU64 s₂ with
        | none => exact ⟨.noNumStates, by rw [if_pos hsig]⟩
        | some p =>
          obtain ⟨m, s₃⟩ := p
          obtain ⟨hn, rfl⟩ := readU32_eq_some.1 h₁
          obtain ⟨hl, rfl⟩ := read_eq_some.1 h₂
          subst hsig hl
          exact absurd ⟨m, s₃, hn, by rw [readU64_eq_some.1 h₃]; simp⟩ h
      · exact ⟨_, if_neg hsig⟩

/-- **Atomic load.** For every content `B` of the Q-table file, and for a missing file,
`loadQTable()` leaves exactly one of: (a) with a complete header carrying its signature and
complete records, the table those records build in file order (a later record for a repeated
state overriding an earlier one) with `qtableLoaded` set; (b) with no such header, or no file,
the table and flag it had; (c) with such a header but a record cut short, the empty table. -/
theorem loadQTable_atomic {α : Type} (ofBits : UInt64 → α) (sig B : Bytes)
    (prior : QTable α × Bool) :
    (∀ m rest recs, HasHeader sig B m rest → HasRecords m rest recs →
      (loadQTable sig (some B)).apply ofBits prior = ((QTable.ofRecords recs).map ofBits, true)) ∧
    ((¬ ∃ m rest, HasHeader sig B m rest) → (loadQTable sig (some B)).apply ofBits prior = prior) ∧
    (∀ m rest, HasHeader sig B m rest → (¬ ∃ recs, HasRecords m rest recs) →
      (loadQTable sig (some B)).apply ofBits prior = (QTable.empty, prior.2)) ∧
    (loadQTable sig none).apply ofBits prior = prior := by
  refine ⟨fun m rest recs hh hr => ?_, fun h => ?_, fun m rest hh hr => ?_, rfl⟩
  · rw [loadQTable_of_header hh, loadRecords_complete hr]
    rfl
  · obtain ⟨w, hw⟩ := loadQTable_of_not_header h
    rw [hw]
    rfl
  · rw [loadQTable_of_header hh]
    cases hq : loadRecords m.toNat rest .empty with
    | error w => rfl
    | ok q =>
      obtain ⟨recs, tail, hlen, hrows, hs, -⟩ := loadRecords_eq_ok hq
      exact absurd ⟨recs, hlen, hrows, tail, hs⟩ hr

end MLPrefetch
