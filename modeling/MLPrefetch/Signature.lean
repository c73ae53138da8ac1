import MLPrefetch.Persistence

/-!
# MLPrefetch — Signature

The signature guard of `loadQTable()`. `childrenSignature()` writes each name followed by a
`;`, so it is injective on name sequences whose names hold no `;`: the first `;` ends the
first name (`append_semicolon_inj`), and an induction over the names does the rest.

What reaches the file, though, is only the first `static_cast<uint32_t>(sig.size())` bytes of
the signature. A signature of `2^32` bytes or more is cut down, and its surviving prefix can
be another child set's whole signature: the guard then accepts a foreign table
(`loadQTable_truncated_signature_accepted`). Below `2^32` bytes the guard holds
(`loadQTable_foreign_signature`).
-/

namespace MLPrefetch

/-- A name with no `;` ends at the first `;`. -/
theorem append_semicolon_inj {a b x y : Bytes} (ha : semicolon ∉ a) (hb : semicolon ∉ b)
    (h : a ++ semicolon :: x = b ++ semicolon :: y) : a = b ∧ x = y := by
  induction a generalizing b with
  | nil =>
    cases b with
    | nil => simpa using h
    | cons c b => simp only [List.nil_append, List.cons_append, List.cons.injEq] at h
                  exact absurd (h.1 ▸ List.mem_cons_self c b) hb
  | cons c a ih =>
    cases b with
    | nil => simp only [List.nil_append, List.cons_append, List.cons.injEq] at h
             exact absurd (h.1 ▸ List.mem_cons_self c a) ha
    | cons d b =>
      simp only [List.cons_append, List.cons.injEq] at h
      obtain ⟨rfl, h⟩ := h
      have := ih (fun hm => ha (List.mem_cons_of_mem _ hm)) (fun hm => hb (List.mem_cons_of_mem _ hm)) h
      exact ⟨by rw [this.1], this.2⟩

/-- Names with no `;`, each followed by a `;`, determine the names. -/
theorem flatMap_semicolon_inj :
    ∀ {l₁ l₂ : List Bytes}, (∀ n ∈ l₁, semicolon ∉ n) → (∀ n ∈ l₂, semicolon ∉ n) →
      l₁.flatMap (fun n => n ++ [semicolon]) = l₂.flatMap (fun n => n ++ [semicolon]) → l₁ = l₂
  | [], [], _, _, _ => rfl
  | [], n :: l, _, _, h => by simp at h
  | n :: l, [], _, _, h => by simp at h
  | n₁ :: l₁, n₂ :: l₂, h₁, h₂, h => by
    simp only [List.flatMap_cons, List.append_assoc, List.singleton_append] at h
    obtain ⟨rfl, htail⟩ := append_semicolon_inj (h₁ n₁ (by simp)) (h₂ n₂ (by simp)) h
    rw [flatMap_semicolon_inj (fun n hn => h₁ n (by simp [hn]))
      (fun n hn => h₂ n (by simp [hn])) htail]

/-- **Signature guard.** Different name sequences with no `;` in any name have different
signatures, so a controller loading a table saved under another child set — with a signature
short enough to be written whole — leaves its table and `qtableLoaded` as they were. -/
theorem loadQTable_foreign_signature {α : Type} (ofBits : UInt64 → α) (C₁ C₂ : List Child)
    (hne : C₁.map Child.name ≠ C₂.map Child.name) (hsemi : ∀ c ∈ C₁ ++ C₂, semicolon ∉ c.name)
    (T : QTable UInt64) (prior : QTable α × Bool) :
    childrenSignature C₁ ≠ childrenSignature C₂ ∧
      ((childrenSignature C₁).length < 2 ^ 32 →
        (loadQTable (childrenSignature C₂) (some (saveQTable (childrenSignature C₁) T))).apply
          ofBits prior = prior) := by
  have hsig_ne : childrenSignature C₁ ≠ childrenSignature C₂ := fun h => hne <| by
    rw [childrenSignature_eq, childrenSignature_eq] at h
    exact flatMap_semicolon_inj (by simpa using fun c hc => hsemi c (by simp [hc]))
      (by simpa using fun c hc => hsemi c (by simp [hc])) h
  refine ⟨hsig_ne, fun hsig => ?_⟩
  rw [loadQTable_saveQTable_of_ne (by
    rwa [Nat.mod_eq_of_lt hsig, List.take_of_length_le (le_refl _)])]
  rfl

/-- `"stride"` and `"tagged"` saved, `"stride2"` and `"tagged"` loading (names as their ASCII
bytes). -/
theorem loadQTable_foreign_signature_renamed :
    childrenSignature [⟨[115, 116, 114, 105, 100, 101], true⟩, ⟨[116, 97, 103, 103, 101, 100], true⟩] ≠
        childrenSignature [⟨[115, 116, 114, 105, 100, 101, 50], true⟩,
          ⟨[116, 97, 103, 103, 101, 100], true⟩] ∧
      (loadQTable (childrenSignature [⟨[115, 116, 114, 105, 100, 101, 50], true⟩,
          ⟨[116, 97, 103, 103, 101, 100], true⟩])
        (some (saveQTable (childrenSignature [⟨[115, 116, 114, 105, 100, 101], true⟩,
          ⟨[116, 97, 103, 103, 101, 100], true⟩]) QTable.empty))).apply id (QTable.empty, false) =
        (QTable.empty, false) :=
  have h := loadQTable_foreign_signature id
    [⟨[115, 116, 114, 105, 100, 101], true⟩, ⟨[116, 97, 103, 103, 101, 100], true⟩]
    [⟨[115, 116, 114, 105, 100, 101, 50], true⟩, ⟨[116, 97, 103, 103, 101, 100], true⟩]
    (by decide) (by decide) QTable.empty (QTable.empty, false)
  ⟨h.1, h.2 (by decide)⟩

/-- A second name of `2^32 - 1` bytes after `"a"` cuts the written signature down to `"a;"`. -/
theorem take_signature_long_second {x : Bytes} (hx : x.length = 2 ^ 32 - 1) :
    (childrenSignature [⟨[97], true⟩, ⟨x, true⟩]).take
      ((childrenSignature [⟨[97], true⟩, ⟨x, true⟩]).length % 2 ^ 32) =
      childrenSignature [⟨[97], true⟩] := by
  simp [childrenSignature, hx]

/-- **Counterexample.** Children `["a", x]` with `x` a name of `2^32 - 1` zero bytes save their
table under a signature of `2^32 + 2` bytes, of which the file keeps `"a;"` — the whole
signature of the single child `"a"`. A controller with that one child accepts the file and
loads the foreign table over its empty one. -/
theorem loadQTable_truncated_signature_accepted :
    [⟨[97], true⟩, ⟨List.replicate (2 ^ 32 - 1) 0, true⟩].map Child.name ≠
        ([⟨[97], true⟩] : List Child).map Child.name ∧
      (∀ c ∈ ([⟨[97], true⟩, ⟨List.replicate (2 ^ 32 - 1) 0, true⟩, ⟨[97], true⟩] : List Child),
        semicolon ∉ c.name) ∧
      (loadQTable (childrenSignature [⟨[97], true⟩])
        (some (saveQTable (childrenSignature [⟨[97], true⟩, ⟨List.replicate (2 ^ 32 - 1) 0, true⟩])
          ⟨[(0, [])], List.sorted_singleton _⟩))).apply id (QTable.empty, false) =
        (⟨[(0, [])], List.sorted_singleton _⟩, true) := by
  refine ⟨fun h => absurd (congrArg List.length h) (by rw [List.length_map, List.length_map]; decide),
    fun c hc => ?_, ?_⟩
  · rcases List.mem_cons.1 hc with rfl | hc
    · decide
    rcases List.mem_cons.1 hc with rfl | hc
    · exact fun h => absurd (List.eq_of_mem_replicate h) (by decide)
    · rw [List.mem_singleton.1 hc]; decide
  · rw [← take_signature_long_second (List.length_replicate _ _), loadQTable_saveQTable,
      readBack_eq (fun e he => by rw [List.mem_singleton.1 he]; decide) (by decide)]
    rfl

end MLPrefetch
