import MLPrefetch.Basic

/-!
# MLPrefetch — Encoding

How the Q-table file holds its numbers, and how the loader's `std::ifstream` gives them back:

* `encodeLE w n` / `decodeLE` — an unsigned `w`-byte field as `out.write` stores it from the
  object on a little-endian host, and as `in.read` rebuilds it;
* `read n s` — `in.read(buf, n)` on the unread rest `s` of the file, failing (and turning
  `in.good()` false) when fewer than `n` bytes are left;
* `encodeRow` / `decodeRow` — a row of doubles as the 8-byte bit pattern of each entry.

Doubles cross the file as their 64-bit object representation, so at this level a row is a
list of `UInt64` bit patterns.
-/

namespace MLPrefetch

theorem uint8_toNat_ofNat (m : Nat) : (UInt8.ofNat m).toNat = m % 256 :=
  BitVec.toNat_ofNat m 8

theorem uint64_toNat_ofNat (m : Nat) : (UInt64.ofNat m).toNat = m % 2 ^ 64 :=
  BitVec.toNat_ofNat m 64

theorem uint64_toNat_lt (v : UInt64) : v.toNat < 256 ^ 8 :=
  lt_of_lt_of_eq v.toNat_lt_size rfl

theorem uint64_ofNat_toNat (v : UInt64) : UInt64.ofNat v.toNat = v :=
  UInt64.toNat.inj (by rw [uint64_toNat_ofNat]; exact Nat.mod_eq_of_lt v.toNat_lt_size)

/-! ## Little-endian fields -/

/-- The `w` bytes stored for an unsigned `w`-byte integer holding `n`, least significant
first. Bits from `8 * w` up are dropped, as the `static_cast<uint32_t>` of a length drops
them. -/
def encodeLE : Nat → Nat → Bytes
  | 0, _ => []
  | w + 1, n => UInt8.ofNat (n % 256) :: encodeLE w (n / 256)

/-- The unsigned integer whose bytes, least significant first, are `bs`. -/
def decodeLE : Bytes → Nat
  | [] => 0
  | b :: bs => b.toNat + 256 * decodeLE bs

@[simp] theorem length_encodeLE (w n : Nat) : (encodeLE w n).length = w := by
  induction w generalizing n with
  | zero => rfl
  | succ w ih => simp [encodeLE, ih]

theorem decodeLE_encodeLE (w n : Nat) : decodeLE (encodeLE w n) = n % 256 ^ w := by
  induction w generalizing n with
  | zero => simp [encodeLE, decodeLE, Nat.mod_one]
  | succ w ih =>
    rw [encodeLE, decodeLE, ih, uint8_toNat_ofNat, Nat.mod_mod, Nat.pow_succ, Nat.mul_comm _ 256,
      Nat.mod_mul]

theorem decodeLE_lt : ∀ bs : Bytes, decodeLE bs < 256 ^ bs.length
  | [] => by simp [decodeLE]
  | b :: bs => by
    have h1 : b.toNat < 256 := b.toNat_lt_size
    have h2 := decodeLE_lt bs
    rw [decodeLE, List.length_cons, Nat.pow_succ]
    omega

theorem encodeLE_decodeLE : ∀ bs : Bytes, encodeLE bs.length (decodeLE bs) = bs
  | [] => rfl
  | b :: bs => by
    have hb : b.toNat < 256 := b.toNat_lt_size
    rw [List.length_cons, encodeLE, decodeLE, Nat.add_mul_mod_self_left, Nat.mod_eq_of_lt hb,
      Nat.add_mul_div_left _ _ (by decide), Nat.div_eq_of_lt hb, Nat.zero_add, encodeLE_decodeLE]
    exact congrArg (· :: bs) (UInt8.toNat.inj (by rw [uint8_toNat_ofNat, Nat.mod_eq_of_lt hb]))

/-! ## The input stream -/

/-- `in.read(buf, n)` on the unread rest `s` of the file: the next `n` bytes and what follows
them, or `none` when fewer than `n` are left — the read then sets `failbit` and the caller's
`in.good()` check fails. Reading exactly the bytes that are left sets no flag. -/
def read (n : Nat) (s : Bytes) : Option (Bytes × Bytes) :=
  if n ≤ s.length then some (s.take n, s.drop n) else none

/-- A `uint32_t` field read with `in.read`. -/
def readU32 (s : Bytes) : Option (Nat × Bytes) :=
  (read 4 s).map fun r => (decodeLE r.1, r.2)

/-- A `uint64_t` field read with `in.read`. -/
def readU64 (s : Bytes) : Option (UInt64 × Bytes) :=
  (read 8 s).map fun r => (UInt64.ofNat (decodeLE r.1), r.2)

theorem read_append {n : Nat} {l : Bytes} (h : l.length = n) (r : Bytes) :
    read n (l ++ r) = some (l, r) := by
  subst h
  simp [read]

theorem read_eq_none {n : Nat} {s : Bytes} : read n s = none ↔ s.length < n := by
  unfold read
  split <;> simp <;> omega

theorem read_eq_some {n : Nat} {s l r : Bytes} :
    read n s = some (l, r) ↔ l.length = n ∧ s = l ++ r := by
  unfold read
  constructor
  · intro h
    split at h
    · cases h
      exact ⟨by simpa, (List.take_append_drop n s).symm⟩
    · cases h
  · rintro ⟨rfl, rfl⟩
    simp

theorem readU32_encodeLE {n : Nat} (h : n < 2 ^ 32) (r : Bytes) :
    readU32 (encodeLE 4 n ++ r) = some (n, r) := by
  have h' : n % 256 ^ 4 = n := Nat.mod_eq_of_lt (lt_of_lt_of_eq h rfl)
  simp only [readU32, read_append (length_encodeLE 4 n), Option.map_some', decodeLE_encodeLE, h']

theorem readU64_encodeLE (n : Nat) (r : Bytes) :
    readU64 (encodeLE 8 n ++ r) = some (UInt64.ofNat n, r) := by
  simp only [readU64, read_append (length_encodeLE 8 n), Option.map_some', decodeLE_encodeLE]
  exact congrArg (some ∘ (·, r)) (UInt64.toNat.inj (by simp [uint64_toNat_ofNat]))

/-- A `u32` field that reads back is the encoding of its value. -/
theorem readU32_eq_some {s r : Bytes} {n : Nat} :
    readU32 s = some (n, r) ↔ n < 2 ^ 32 ∧ s = encodeLE 4 n ++ r := by
  constructor
  · intro h
    simp only [readU32, Option.map_eq_some'] at h
    obtain ⟨⟨b, r'⟩, hb, he⟩ := h
    cases he
    obtain ⟨hl, rfl⟩ := read_eq_some.1 hb
    have hlt := decodeLE_lt b
    rw [hl] at hlt
    refine ⟨lt_of_lt_of_eq hlt rfl, ?_⟩
    rw [← hl, encodeLE_decodeLE]
  · rintro ⟨hn, rfl⟩
    have h' : n % 256 ^ 4 = n := Nat.mod_eq_of_lt (lt_of_lt_of_eq hn rfl)
    simp only [readU32, read_append (length_encodeLE 4 n), Option.map_some', decodeLE_encodeLE, h']

/-- A `u64` field that reads back is the encoding of its value. -/
theorem readU64_eq_some {s r : Bytes} {k : UInt64} :
    readU64 s = some (k, r) ↔ s = encodeLE 8 k.toNat ++ r := by
  constructor
  · intro h
    simp only [readU64, Option.map_eq_some'] at h
    obtain ⟨⟨b, r'⟩, hb, he⟩ := h
    simp only [Prod.mk.injEq] at he
    obtain ⟨rfl, rfl⟩ := he
    obtain ⟨hl, rfl⟩ := read_eq_some.1 hb
    have hlt := decodeLE_lt b
    rw [hl] at hlt
    rw [uint64_toNat_ofNat, Nat.mod_eq_of_lt (show decodeLE b < 2 ^ 64 from hlt), ← hl, encodeLE_decodeLE]
  · rintro rfl
    rw [readU64_encodeLE, uint64_ofNat_toNat]

/-! ## Rows -/

/-- `out.write(row.data(), rowLen * sizeof(double))` for the entries written: each double as
the 8 bytes of its bit pattern. -/
def encodeRow (row : List UInt64) : Bytes :=
  row.flatMap fun v => encodeLE 8 v.toNat

/-- The `n` doubles `in.read(row.data(), n * sizeof(double))` fills from `8 * n` bytes. -/
def decodeRow : Nat → Bytes → List UInt64
  | 0, _ => []
  | n + 1, s => UInt64.ofNat (decodeLE (s.take 8)) :: decodeRow n (s.drop 8)

@[simp] theorem length_encodeRow (row : List UInt64) : (encodeRow row).length = 8 * row.length := by
  induction row with
  | nil => rfl
  | cons v row ih => simp [encodeRow, List.flatMap_cons] at ih ⊢; omega

@[simp] theorem length_decodeRow (n : Nat) (s : Bytes) : (decodeRow n s).length = n := by
  induction n generalizing s with
  | zero => rfl
  | succ n ih => simp [decodeRow, ih]

theorem encodeRow_decodeRow : ∀ (n : Nat) (s : Bytes), s.length = 8 * n →
    encodeRow (decodeRow n s) = s
  | 0, s, h => (List.eq_nil_of_length_eq_zero h).symm
  | n + 1, s, h => by
    have ht : (s.take 8).length = 8 := by simp; omega
    have hk := decodeLE_lt (s.take 8)
    have he := encodeLE_decodeLE (s.take 8)
    rw [ht] at hk he
    simp only [decodeRow, encodeRow, List.flatMap_cons]
    rw [uint64_toNat_ofNat, Nat.mod_eq_of_lt (show decodeLE (s.take 8) < 2 ^ 64 from hk), he]
    conv_rhs => rw [← List.take_append_drop 8 s]
    exact congrArg _ (encodeRow_decodeRow n _ (by simp; omega))

theorem decodeRow_encodeRow (row : List UInt64) : decodeRow row.length (encodeRow row) = row := by
  induction row with
  | nil => rfl
  | cons v row ih =>
    have h8 := length_encodeLE 8 v.toNat
    simp only [List.length_cons, decodeRow, encodeRow, List.flatMap_cons]
    rw [List.take_append_of_le_length (by omega), List.take_of_length_le (by omega),
      List.drop_append_of_le_length (by omega), List.drop_of_length_le (by omega),
      List.nil_append, decodeLE_encodeLE, Nat.mod_eq_of_lt (uint64_toNat_lt v), uint64_ofNat_toNat]
    exact congrArg _ ih

end MLPrefetch
