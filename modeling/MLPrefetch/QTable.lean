import MLPrefetch.Basic
import Mathlib.Data.List.Sort
import Mathlib.Data.List.GetD

/-!
# MLPrefetch — QTable

`std::map<uint64_t, std::vector<double>> qTable`. A `std::map` iterates its entries in
increasing key order — the order `saveQTable` writes them — so the model is the sorted
association list of those entries, and the structure carries the sortedness:

* `find?` is `qTable.find`, `insert` is `qTable[k] = v`, `size` is `qTable.size()`;
* `rowAt` / `ensureRow` are the lazy row creation the code performs twice (in `selectAction`
  and for `lastState` in `endEpoch`): `auto &row = qTable[k]; if (row.size() < n)
  row.resize(n, 0.0);`;
* `ofRecords` is the loader's `qTable[state] = row` over the records of a file, in order.

Keys are `UInt64`; they are compared through `toNat`, so `omega` decides their order.
-/

namespace MLPrefetch

theorem uint64_lt_iff (a b : UInt64) : a < b ↔ a.toNat < b.toNat := Iff.rfl

theorem uint64_eq_iff (a b : UInt64) : a = b ↔ a.toNat = b.toNat :=
  ⟨congrArg _, UInt64.toNat.inj⟩

/-- Stored rows have increasing keys. -/
def KeyLt {α : Type} (a b : UInt64 × List α) : Prop := a.1 < b.1

/-- `std::map<uint64_t, std::vector<double>>`, as its entries in key order. -/
structure QTable (α : Type) where
  entries : List (UInt64 × List α)
  sorted : entries.Sorted KeyLt

namespace QTable

variable {α β : Type}

/-! ## Insertion into the sorted entries -/

/-- Store `v` under `k` in a key-sorted entry list, replacing the row already there. -/
def insertEntry (k : UInt64) (v : List α) : List (UInt64 × List α) → List (UInt64 × List α)
  | [] => [(k, v)]
  | e :: es =>
    if k < e.1 then (k, v) :: e :: es
    else if k = e.1 then (k, v) :: es
    else e :: insertEntry k v es

theorem mem_insertEntry {k : UInt64} {v : List α} {x : UInt64 × List α} :
    ∀ {es : List (UInt64 × List α)}, x ∈ insertEntry k v es → x = (k, v) ∨ x ∈ es
  | [], h => by simp_all [insertEntry]
  | e :: es, h => by
    unfold insertEntry at h
    split at h
    · simpa using h
    · split at h <;> simp at h
      · rcases h with h | h <;> simp [h]
      · rcases h with h | h
        · simp [h]
        · rcases mem_insertEntry h with h | h <;> simp [h]

theorem sorted_insertEntry (k : UInt64) (v : List α) :
    ∀ {es : List (UInt64 × List α)}, es.Sorted KeyLt → (insertEntry k v es).Sorted KeyLt
  | [], _ => List.sorted_singleton _
  | e :: es, h => by
    rw [List.sorted_cons] at h
    unfold insertEntry
    split
    · rename_i hk
      refine List.sorted_cons.2 ⟨fun y hy => ?_, List.sorted_cons.2 h⟩
      rcases List.mem_cons.1 hy with rfl | hy
      · exact hk
      · exact UInt64.lt_trans hk (h.1 y hy)
    · split
      · rename_i heq
        exact List.sorted_cons.2 ⟨fun y hy => heq ▸ h.1 y hy, h.2⟩
      · rename_i hlt hne
        have hek : e.1 < k := by
          rw [uint64_lt_iff] at hlt ⊢; rw [uint64_eq_iff] at hne; omega
        refine List.sorted_cons.2 ⟨fun y hy => ?_, sorted_insertEntry k v h.2⟩
        rcases mem_insertEntry hy with rfl | hy
        · exact hek
        · exact h.1 y hy

/-- The row stored under `k` in an entry list. -/
def lookupEntry (k : UInt64) : List (UInt64 × List α) → Option (List α)
  | [] => none
  | e :: es => if k = e.1 then some e.2 else lookupEntry k es

theorem lookupEntry_insertEntry (k k' : UInt64) (v : List α) :
    ∀ es : List (UInt64 × List α),
      lookupEntry k' (insertEntry k v es) = if k' = k then some v else lookupEntry k' es
  | [] => rfl
  | e :: es => by
    unfold insertEntry
    split
    · rfl
    · split
      · rename_i heq
        by_cases h3 : k' = k <;> simp_all [lookupEntry]
      · rename_i hne
        simp only [lookupEntry, lookupEntry_insertEntry k k' v es]
        by_cases h3 : k' = k <;> by_cases h4 : k' = e.1 <;> simp_all

theorem insertEntry_of_lt {k : UInt64} {v : List α} :
    ∀ {es : List (UInt64 × List α)}, (∀ e ∈ es, e.1 < k) → insertEntry k v es = es ++ [(k, v)]
  | [], _ => rfl
  | e :: es, h => by
    have he := h e (by simp)
    have hnlt : ¬ k < e.1 := fun h' => UInt64.lt_asymm he h'
    have hne : k ≠ e.1 := fun h' => UInt64.lt_irrefl k (h' ▸ he)
    simp only [insertEntry, hnlt, hne, if_false, List.cons_append]
    rw [insertEntry_of_lt fun x hx => h x (by simp [hx])]

theorem length_insertEntry_le (k : UInt64) (v : List α) :
    ∀ es : List (UInt64 × List α), (insertEntry k v es).length ≤ es.length + 1
  | [] => by simp [insertEntry]
  | e :: es => by
    unfold insertEntry
    have := length_insertEntry_le k v es
    split <;> (try split) <;> simp [this]

/-! ## The map operations -/

/-- The empty map, as constructed and as left by `qTable.clear()`. -/
def empty : QTable α := ⟨[], List.sorted_nil⟩

/-- `qTable.size()`. -/
def size (q : QTable α) : Nat := q.entries.length

/-- `qTable.find(k)`: the row stored under `k`, if any. -/
def find? (q : QTable α) (k : UInt64) : Option (List α) := lookupEntry k q.entries

/-- `qTable[k] = v`. -/
def insert (q : QTable α) (k : UInt64) (v : List α) : QTable α :=
  ⟨insertEntry k v q.entries, sorted_insertEntry k v q.sorted⟩

/-- `if (row.size() < n) row.resize(n, 0.0);` -/
def padRow [Zero α] (n : Nat) (row : List α) : List α :=
  if row.length < n then row ++ List.replicate (n - row.length) 0 else row

/-- The row `auto &row = qTable[k]` refers to once it has been zero-extended to `n`
entries; `qTable[k]` creates a missing row as the empty vector. -/
def rowAt [Zero α] (q : QTable α) (n : Nat) (k : UInt64) : List α :=
  padRow n ((q.find? k).getD [])

/-- The map after `auto &row = qTable[k]; if (row.size() < n) row.resize(n, 0.0);`. -/
def ensureRow [Zero α] (q : QTable α) (n : Nat) (k : UInt64) : QTable α :=
  q.insert k (q.rowAt n k)

/-- The same map with every stored value passed through `f`. -/
def map (f : α → β) (q : QTable α) : QTable β :=
  ⟨q.entries.map fun e => (e.1, e.2.map f), by
    unfold List.Sorted
    rw [List.pairwise_map]
    exact q.sorted⟩

/-- The map `qTable[state] = row` builds from the records of a file, in order, starting from
the cleared table. -/
def ofRecords (recs : List (UInt64 × List α)) : QTable α :=
  recs.foldl (fun q r => q.insert r.1 r.2) empty

/-- Every row stored in the map satisfies `P`. -/
def AllRows (P : List α → Prop) (q : QTable α) : Prop := ∀ e ∈ q.entries, P e.2

/-! ## Lemmas -/

theorem ext {q q' : QTable α} (h : q.entries = q'.entries) : q = q' := by
  cases q; cases q'; cases h; rfl

@[simp] theorem entries_empty : (empty : QTable α).entries = [] := rfl

@[simp] theorem find?_empty (k : UInt64) : (empty : QTable α).find? k = none := rfl

@[simp] theorem map_id (q : QTable α) : q.map id = q :=
  ext (by simp [map])

theorem find?_insert (q : QTable α) (k k' : UInt64) (v : List α) :
    (q.insert k v).find? k' = if k' = k then some v else q.find? k' :=
  lookupEntry_insertEntry k k' v q.entries

theorem find?_ensureRow [Zero α] (q : QTable α) (n : Nat) (k k' : UInt64) :
    (q.ensureRow n k).find? k' = if k' = k then some (q.rowAt n k) else q.find? k' :=
  find?_insert _ _ _ _

theorem size_insert_le (q : QTable α) (k : UInt64) (v : List α) :
    (q.insert k v).size ≤ q.size + 1 :=
  length_insertEntry_le k v q.entries

theorem length_padRow [Zero α] (n : Nat) (row : List α) :
    (padRow n row).length = max n row.length := by
  unfold padRow
  split <;> simp <;> omega

theorem padRow_of_le [Zero α] {n : Nat} {row : List α} (h : n ≤ row.length) : padRow n row = row :=
  if_neg (not_lt.2 h)

theorem mem_padRow [Zero α] {n : Nat} {row : List α} {x : α} (h : x ∈ padRow n row) :
    x ∈ row ∨ x = 0 := by
  unfold padRow at h
  split at h
  · rcases List.mem_append.1 h with h | h
    · exact .inl h
    · exact .inr (List.eq_of_mem_replicate h)
  · exact .inl h

theorem lookupEntry_mem {k : UInt64} {row : List α} :
    ∀ {es : List (UInt64 × List α)}, lookupEntry k es = some row → (k, row) ∈ es
  | [], h => by simp [lookupEntry] at h
  | e :: es, h => by
    unfold lookupEntry at h
    split at h
    · rename_i hk
      cases h
      simp [hk]
    · exact List.mem_cons_of_mem _ (lookupEntry_mem h)

theorem find?_mem {q : QTable α} {k : UInt64} {row : List α} (h : q.find? k = some row) :
    (k, row) ∈ q.entries :=
  lookupEntry_mem h

theorem AllRows.empty (P : List α → Prop) : AllRows P (QTable.empty : QTable α) :=
  fun _ h => absurd h (List.not_mem_nil _)

theorem AllRows.insert {P : List α → Prop} {q : QTable α} (h : AllRows P q) (k : UInt64)
    {v : List α} (hv : P v) : AllRows P (q.insert k v) := by
  intro e he
  rcases mem_insertEntry he with rfl | he
  · exact hv
  · exact h e he

theorem AllRows.find? {P : List α → Prop} {q : QTable α} (h : AllRows P q) {k : UInt64}
    {row : List α} (hk : q.find? k = some row) : P row :=
  h _ (find?_mem hk)

theorem AllRows.rowAt [Zero α] {P : List α → Prop} {q : QTable α} (h : AllRows P q)
    (hnil : P []) (hpad : ∀ r, P r → P (padRow n r)) (k : UInt64) : P (q.rowAt n k) := by
  unfold QTable.rowAt
  apply hpad
  cases hk : q.find? k with
  | none => exact hnil
  | some r => exact h.find? hk

theorem length_rowAt [Zero α] {q : QTable α} {n : Nat} (h : AllRows (fun row => row.length = n) q)
    (k : UInt64) : (q.rowAt n k).length = n := by
  rw [rowAt, length_padRow]
  cases hk : q.find? k with
  | none => simp
  | some r => simp [h.find? hk]

theorem AllRows.ensureRow [Zero α] {q : QTable α} {n : Nat}
    (h : AllRows (fun row => row.length = n) q) (k : UInt64) :
    AllRows (fun row => row.length = n) (q.ensureRow n k) :=
  h.insert k (length_rowAt h k)

theorem AllRows.map {P : List β → Prop} {q : QTable α} {f : α → β}
    (h : AllRows (fun row => P (row.map f)) q) : AllRows P (q.map f) := by
  intro e he
  obtain ⟨e', he', rfl⟩ := List.mem_map.1 he
  exact h e' he'

theorem AllRows.ofRecords {P : List α → Prop} {recs : List (UInt64 × List α)}
    (h : ∀ r ∈ recs, P r.2) : AllRows P (ofRecords recs) := by
  suffices ∀ (l : List (UInt64 × List α)) (acc : QTable α), (∀ r ∈ l, P r.2) → AllRows P acc →
      AllRows P (l.foldl (fun q r => q.insert r.1 r.2) acc) from
    this recs QTable.empty h (AllRows.empty P)
  intro l
  induction l with
  | nil => exact fun _ _ hacc => hacc
  | cons r l ih =>
    intro acc hl hacc
    exact ih _ (fun r' hr' => hl r' (List.mem_cons_of_mem _ hr'))
      (hacc.insert r.1 (hl r (List.mem_cons_self _ _)))

/-- Inserting the entries of a sorted map in order, starting from the cleared table, rebuilds
the map. -/
theorem ofRecords_entries (q : QTable α) : ofRecords q.entries = q := by
  suffices ∀ (l : List (UInt64 × List α)) (acc : QTable α), (acc.entries ++ l).Sorted KeyLt →
      (l.foldl (fun q r => q.insert r.1 r.2) acc).entries = acc.entries ++ l by
    have h := this q.entries empty (by simpa using q.sorted)
    exact ext (by simpa using h)
  intro l
  induction l with
  | nil => simp
  | cons r l ih =>
    intro acc hs
    have hlt : ∀ e ∈ acc.entries, e.1 < r.1 :=
      fun e he => (List.pairwise_append.1 hs).2.2 e he r (by simp)
    rw [List.foldl_cons, ih]
    · simp [insert, insertEntry_of_lt hlt]
    · simpa [insert, insertEntry_of_lt hlt] using hs

theorem length_rowAt_le [Zero α] {q : QTable α} {n : Nat}
    (h : AllRows (fun row => row.length ≤ n) q) (k : UInt64) : (q.rowAt n k).length ≤ n :=
  h.rowAt (Nat.zero_le n) (fun r hr => by rw [length_padRow]; exact max_le le_rfl hr) k

theorem AllRows.ensureRow_le [Zero α] {q : QTable α} {n : Nat}
    (h : AllRows (fun row => row.length ≤ n) q) (k : UInt64) :
    AllRows (fun row => row.length ≤ n) (q.ensureRow n k) :=
  h.insert k (length_rowAt_le h k)

@[simp] theorem size_map (f : α → β) (q : QTable α) : (q.map f).size = q.size :=
  List.length_map _ _

/-- The value the table holds for `(k, a)`: entry `a` of the row stored under `k`, and `0`
where the row or the entry is missing. The lazy `qTable[k]` and `resize(n, 0.0)` create
exactly those zeros, so they never change a value. -/
def value [Zero α] (q : QTable α) (k : UInt64) (a : Nat) : α := ((q.find? k).getD []).getD a 0

theorem getD_padRow [Zero α] (n : Nat) (row : List α) (a : Nat) :
    (padRow n row).getD a 0 = row.getD a 0 := by
  unfold padRow
  split
  · rcases lt_or_le a row.length with ha | ha
    · exact List.getD_append _ _ _ _ ha
    · rw [List.getD_append_right _ _ _ _ ha, List.getD_eq_default _ _ ha,
        List.getD_eq_getElem?_getD, List.getElem?_getD_replicate_default_eq]
  · rfl

theorem getD_rowAt [Zero α] (q : QTable α) (n : Nat) (k : UInt64) (a : Nat) :
    (q.rowAt n k).getD a 0 = q.value k a :=
  getD_padRow _ _ _

theorem value_insert [Zero α] (q : QTable α) (k : UInt64) (v : List α) (k' : UInt64) (a : Nat) :
    (q.insert k v).value k' a = if k' = k then v.getD a 0 else q.value k' a := by
  unfold value
  rw [find?_insert]
  split <;> rfl

/-- Creating and zero-extending a row changes no value. -/
theorem value_ensureRow [Zero α] (q : QTable α) (n : Nat) (k k' : UInt64) (a : Nat) :
    (q.ensureRow n k).value k' a = q.value k' a := by
  rw [ensureRow, value_insert, getD_rowAt]
  split
  · rename_i h
    rw [h]
  · rfl

/-! ## The keys the table holds -/

/-- Every key stored in the map satisfies `P`. -/
def AllKeys (P : UInt64 → Prop) (q : QTable α) : Prop := ∀ e ∈ q.entries, P e.1

theorem AllKeys.empty (P : UInt64 → Prop) : AllKeys P (empty : QTable α) :=
  fun _ h => absurd h (List.not_mem_nil _)

theorem AllKeys.insert {P : UInt64 → Prop} {q : QTable α} (h : AllKeys P q) {k : UInt64}
    (hk : P k) (v : List α) : AllKeys P (q.insert k v) := by
  intro e he
  rcases mem_insertEntry he with rfl | he
  · exact hk
  · exact h e he

theorem AllKeys.ensureRow [Zero α] {P : UInt64 → Prop} {q : QTable α} (h : AllKeys P q)
    (n : Nat) {k : UInt64} (hk : P k) : AllKeys P (q.ensureRow n k) :=
  h.insert hk _

theorem AllKeys.map {P : UInt64 → Prop} {q : QTable α} (h : AllKeys P q) (f : α → β) :
    AllKeys P (q.map f) := by
  intro e he
  obtain ⟨e', he', rfl⟩ := List.mem_map.1 he
  exact h e' he'

theorem AllKeys.ofRecords {P : UInt64 → Prop} {recs : List (UInt64 × List α)}
    (h : ∀ r ∈ recs, P r.1) : AllKeys P (ofRecords recs) := by
  suffices ∀ (l : List (UInt64 × List α)) (acc : QTable α), (∀ r ∈ l, P r.1) → AllKeys P acc →
      AllKeys P (l.foldl (fun q r => q.insert r.1 r.2) acc) from
    this recs QTable.empty h (AllKeys.empty P)
  intro l
  induction l with
  | nil => exact fun _ _ hacc => hacc
  | cons r l ih =>
    intro acc hl hacc
    exact ih _ (fun r' hr' => hl r' (List.mem_cons_of_mem _ hr'))
      (hacc.insert (hl r (List.mem_cons_self _ _)) r.2)

/-- A map whose keys all lie in a list has at most that many entries: its keys are distinct. -/
theorem size_le_of_allKeys {S : List UInt64} {q : QTable α}
    (h : AllKeys (· ∈ S) q) : q.size ≤ S.length := by
  have hnd : (q.entries.map Prod.fst).Nodup :=
    List.pairwise_map.2 (List.Pairwise.imp (fun {a b} (hlt : KeyLt a b) (heq : a.1 = b.1) =>
      UInt64.lt_irrefl a.1 (by unfold KeyLt at hlt; rwa [← heq] at hlt)) q.sorted)
  rw [size, ← List.length_map q.entries Prod.fst]
  refine (List.subperm_of_subset hnd fun k hk => ?_).length_le
  obtain ⟨e, he, rfl⟩ := List.mem_map.1 hk
  exact h e he

end QTable

end MLPrefetch
