import GlbBackend.Backend

/-!
# The `RANDOM` algorithm against the `NONE` algorithm

`getIPSNoneAlgo` tests a record's type against the mask; `getIPSRandomAlgo` collects the positions of the
records that pass a test of its own, shuffles them, and copies.  Whatever the shuffle, the copy is a
permutation of the records that pass (`getIPSRandomAlgo_eq`), so the two algorithms serve the same records
exactly where the two tests select the same ones.

They do not always: the second test reads `getIPType() & (ipType != 0)`, and the comparison binds the mask
before the bit test sees it, so what is asked is whether the type is odd.  `random_serves_none_iff` is the
exact condition.
-/

namespace GlbBackend

/-! ### A shuffle: one pass of random transpositions -/

/-- `iter_swap` of two positions of a list; out of range it does nothing. -/
def swapAt (xs : List ℕ) (i j : ℕ) : List ℕ :=
  if h : i < xs.length ∧ j < xs.length then (xs.set i xs[j]).set j xs[i] else xs

theorem swapAt_perm (xs : List ℕ) (i j : ℕ) : (swapAt xs i j).Perm xs := by
  rw [swapAt]
  split_ifs with h
  · exact List.set_set_perm h.1 h.2
  · exact List.Perm.refl xs

/-- The loop of `random_shuffle`: position `i` is swapped with a position drawn below `i + 1`, for `i`
from the given one on, `k` times. -/
def shuffleFrom {ρ : Type} (gen : Generator ρ) : ℕ → ℕ → ρ → List ℕ → List ℕ × ρ
  | 0, _, s, xs => (xs, s)
  | k + 1, i, s, xs =>
      let d := gen.rn s (i + 1)
      shuffleFrom gen k (i + 1) d.2 (swapAt xs i d.1)

theorem shuffleFrom_perm {ρ : Type} (gen : Generator ρ) (k i : ℕ) (s : ρ) (xs : List ℕ) :
    (shuffleFrom gen k i s xs).1.Perm xs := by
  induction k generalizing i s xs with
  | zero => exact List.Perm.refl xs
  | succ k ih => exact (ih (i + 1) _ _).trans (swapAt_perm xs i _)

/-- The shuffle of the GNU library. -/
def RandomShuffle.transpositions (ρ : Type) : RandomShuffle ρ where
  shuffle gen s xs := shuffleFrom gen (xs.length - 1) 1 s xs
  shuffle_perm gen s xs := shuffleFrom_perm gen (xs.length - 1) 1 s xs

/-- A counter as generator: draws run through the range one after the other. -/
def Generator.counter : Generator ℕ where
  rn s n := (s % n, s + 1)
  rn_lt _ _ hn := Nat.mod_lt _ hn

/-- The shuffle of the GNU library with a counter as its generator. -/
def Randomness.counting : Randomness := ⟨Generator.counter, RandomShuffle.transpositions ℕ⟩

/-! ### What each algorithm appends -/

theorem getIPSNoneAlgo_eq (ips dq : List IPRecord) (ipType : ℤ) :
    getIPSNoneAlgo ips dq ipType = dq ++ ips.filter (noneTest ipType) := by
  induction ips generalizing dq with
  | nil => simp [getIPSNoneAlgo]
  | cons r rs ih =>
      have hstep : getIPSNoneAlgo (r :: rs) dq ipType
          = getIPSNoneAlgo rs (if noneTest ipType r then dq ++ [r] else dq) ipType := rfl
      rw [hstep, ih, List.filter_cons]
      split_ifs <;> simp

/-- The collected positions, read back, are the records that pass. -/
theorem ipIndexes_filterMap (ipType : ℤ) (pre rs : List IPRecord) :
    (ipIndexes ipType pre.length rs).filterMap (fun i => (pre ++ rs)[i]?)
      = rs.filter (randomTest ipType) := by
  induction rs generalizing pre with
  | nil => rfl
  | cons r rs ih =>
      have ih' := ih (pre ++ [r])
      rw [List.length_append, List.length_singleton, List.append_assoc, List.singleton_append] at ih'
      rw [ipIndexes, List.filter_cons]
      split_ifs with h
      · rw [List.filterMap_cons, ih']
        simp
      · exact ih'

theorem ipIndexes_lt (ipType : ℤ) (k : ℕ) (rs : List IPRecord) :
    ∀ i ∈ ipIndexes ipType k rs, i < k + rs.length := by
  induction rs generalizing k with
  | nil =>
      intro i hi
      simp [ipIndexes] at hi
  | cons r rs ih =>
      intro i hi
      have ih' : i ∈ ipIndexes ipType (k + 1) rs → i < k + (r :: rs).length := by
        intro h
        have := ih (k + 1) i h
        rw [List.length_cons]
        omega
      rw [ipIndexes] at hi
      split_ifs at hi
      · rcases List.mem_cons.mp hi with rfl | hi
        · rw [List.length_cons]
          omega
        · exact ih' hi
      · exact ih' hi

/-- The copying loop, over positions that are all in range. -/
theorem copy_eq (ips dq : List IPRecord) (is : List ℕ) (his : ∀ i ∈ is, i < ips.length) :
    is.foldl (fun dq i => dq.bind fun dq => ips[i]?.map fun r => dq ++ [r]) (some dq)
      = some (dq ++ is.filterMap fun i => ips[i]?) := by
  induction is generalizing dq with
  | nil => simp
  | cons i is ih =>
      have hi : i < ips.length := his i List.mem_cons_self
      rw [List.foldl_cons, List.filterMap_cons, List.getElem?_eq_getElem hi]
      simp only [Option.bind_some, Option.map_some]
      rw [ih _ fun j hj => his j (List.mem_cons_of_mem i hj)]
      simp

/-- **What `getIPSRandomAlgo` appends** is a permutation of the records that pass its test. -/
theorem getIPSRandomAlgo_eq {ρ : Type} (lib : RandomShuffle ρ) (gen : Generator ρ) (rng : ρ)
    (ips dq : List IPRecord) (ipType : ℤ) :
    ∃ served, (getIPSRandomAlgo lib gen rng ips dq ipType).1 = some (dq ++ served) ∧
      served.Perm (ips.filter (randomTest ipType)) := by
  have hperm := lib.shuffle_perm gen rng (ipIndexes ipType 0 ips)
  refine ⟨_, copy_eq ips dq _ fun i hi => ?_, ?_⟩
  · have := ipIndexes_lt ipType 0 ips i (hperm.subset hi)
    omega
  · have h := hperm.filterMap fun i => ips[i]?
    rwa [show ipIndexes ipType 0 ips = ipIndexes ipType ([] : List IPRecord).length ips from rfl,
      show (fun i => ips[i]?) = fun i => (([] : List IPRecord) ++ ips)[i]? from rfl,
      ipIndexes_filterMap] at h

/-! ### Where the two tests agree -/

/-- On address records the test of `getIPSRandomAlgo` selects the IPv4 ones, whatever the mask. -/
theorem randomTest_iff {r : IPRecord} {ipType : ℤ}
    (hr : r.ipType = IPRecordType.IPv4 ∨ r.ipType = IPRecordType.IPv6) (hm : ipType ≠ 0) :
    randomTest ipType r = true ↔ r.ipType = IPRecordType.IPv4 := by
  rw [randomTest, if_pos hm]
  rcases hr with hr | hr <;> rw [hr] <;> decide

theorem noneTest_iff {r : IPRecord} {ipType : ℤ}
    (hr : r.ipType = IPRecordType.IPv4 ∨ r.ipType = IPRecordType.IPv6)
    (hm : ipType = 1 ∨ ipType = 2 ∨ ipType = 3) :
    noneTest ipType r = true ↔ ipType = 3 ∨ r.ipType = ipType := by
  rw [noneTest]
  rcases hr with hr | hr <;> rcases hm with rfl | rfl | rfl <;> rw [hr] <;> decide

/-- `getIPSRandomAlgo` appends to the deque a permutation of what `getIPSNoneAlgo` appends. -/
def ServesLikeNone {ρ : Type} (lib : RandomShuffle ρ) (gen : Generator ρ) (rng : ρ)
    (ips dq : List IPRecord) (ipType : ℤ) : Prop :=
  ∃ random none, (getIPSRandomAlgo lib gen rng ips dq ipType).1 = some (dq ++ random) ∧
    getIPSNoneAlgo ips dq ipType = dq ++ none ∧ random.Perm none

theorem servesLikeNone_iff_filter {ρ : Type} (lib : RandomShuffle ρ) (gen : Generator ρ) (rng : ρ)
    (ips dq : List IPRecord) (ipType : ℤ) :
    ServesLikeNone lib gen rng ips dq ipType
      ↔ (ips.filter (randomTest ipType)).Perm (ips.filter (noneTest ipType)) := by
  obtain ⟨served, hserved, hperm⟩ := getIPSRandomAlgo_eq lib gen rng ips dq ipType
  constructor
  · rintro ⟨random, none, h1, h2, h3⟩
    rw [hserved, Option.some.injEq] at h1
    rw [getIPSNoneAlgo_eq] at h2
    obtain rfl := List.append_cancel_left h1
    obtain rfl := List.append_cancel_left h2
    exact hperm.symm.trans h3
  · intro h
    exact ⟨served, _, hserved, getIPSNoneAlgo_eq ips dq ipType, hperm.trans h⟩

/-- **The exact condition.**  Over address records and the masks `lookup` passes, the `RANDOM` algorithm
serves what `NONE` serves, up to order, if and only if the mask asks for IPv4 only, or for both families
with no IPv6 record stored, or nothing is stored. -/
theorem random_serves_none_iff {ρ : Type} (lib : RandomShuffle ρ) (gen : Generator ρ) (rng : ρ)
    (ips dq : List IPRecord) (ipType : ℤ)
    (hips : ∀ r ∈ ips, r.ipType = IPRecordType.IPv4 ∨ r.ipType = IPRecordType.IPv6)
    (hmask : ipType = IPRecordType.IPv4 ∨ ipType = IPRecordType.IPv6 ∨
      ipType = Int.lor IPRecordType.IPv4 IPRecordType.IPv6) :
    ServesLikeNone lib gen rng ips dq ipType ↔
      ipType = IPRecordType.IPv4 ∨
      (ipType = Int.lor IPRecordType.IPv4 IPRecordType.IPv6 ∧
        ∀ r ∈ ips, r.ipType = IPRecordType.IPv4) ∨
      ips = [] := by
  have hboth : Int.lor IPRecordType.IPv4 IPRecordType.IPv6 = 3 := by decide
  rw [hboth] at hmask ⊢
  rw [servesLikeNone_iff_filter]
  have hmask' : ipType = 1 ∨ ipType = 2 ∨ ipType = 3 := hmask
  have hm0 : ipType ≠ 0 := by omega
  constructor
  · intro hperm
    have hmem : ∀ r ∈ ips, (r.ipType = IPRecordType.IPv4 ↔ ipType = 3 ∨ r.ipType = ipType) := by
      intro r hr
      have h := hperm.mem_iff (a := r)
      rw [List.mem_filter, List.mem_filter, randomTest_iff (hips r hr) hm0,
        noneTest_iff (hips r hr) hmask'] at h
      simpa [hr] using h
    rcases hmask with h4 | h6 | h46
    · exact Or.inl h4
    · -- an IPv6 query: no record passes both tests, so there is no record
      right; right
      rw [List.eq_nil_iff_forall_not_mem]
      intro r hr
      have h := hmem r hr
      rw [h6] at h
      rcases hips r hr with ht | ht <;> rw [ht] at h <;> exact absurd h (by decide)
    · exact Or.inr (Or.inl ⟨h46, fun r hr => (hmem r hr).mpr (Or.inl h46)⟩)
  · intro h
    have htests : ips.filter (randomTest ipType) = ips.filter (noneTest ipType) := by
      apply List.filter_congr
      intro r hr
      rw [Bool.eq_iff_iff, randomTest_iff (hips r hr) hm0, noneTest_iff (hips r hr) hmask']
      rcases h with h4 | ⟨h46, hall⟩ | hnil
      · rw [h4]
        exact ⟨Or.inr, fun h => h.resolve_left (by decide)⟩
      · exact ⟨fun _ => Or.inl h46, fun _ => hall r hr⟩
      · rw [hnil] at hr
        simp at hr
    rw [htests]

/-- Two stored IPv4 records and a query for both families meet the condition. -/
theorem random_serves_none_two :
    ServesLikeNone (RandomShuffle.transpositions ℕ) Generator.counter 5
      [⟨1, "127.0.0.1".toList, 30⟩, ⟨1, "127.0.0.2".toList, 30⟩] [] 3 :=
  (random_serves_none_iff (RandomShuffle.transpositions ℕ) Generator.counter 5
    [⟨1, "127.0.0.1".toList, 30⟩, ⟨1, "127.0.0.2".toList, 30⟩] [] 3 (by decide)
    (Or.inr (Or.inr (by decide)))).mpr (Or.inr (Or.inl ⟨by decide, by decide⟩))

/-- **The two algorithms differ**: a stored IPv6 record is served to an IPv6 query by `NONE` and not by
`RANDOM`. -/
theorem random_drops_ipv6 :
    ¬ ServesLikeNone (RandomShuffle.transpositions ℕ) Generator.counter 5
      [⟨IPRecordType.IPv6, "ffee::".toList, 30⟩] [] IPRecordType.IPv6 := by
  rw [servesLikeNone_iff_filter]
  intro h
  exact absurd h.length_eq (by decide)

end GlbBackend
