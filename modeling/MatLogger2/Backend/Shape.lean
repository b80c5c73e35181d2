import MatLogger2.Backend.Decode

/-! How many elements of an array the decoder maps. It takes the first two dimensions
as `int`, and the third if it is the last one: that is the whole array if `Shaped`. -/

namespace XBot

namespace MatioBackend

/-- The first dimensions fit an `int`, and those that are not looked at are 1. -/
def Shaped (dims : List ℕ) : Prop :=
  (∀ n ∈ dims.take 3, n < 2 ^ 31) ∧ (dims.length = 3 ∨ (dims.drop 2).prod = 1)

/-- Rows times columns of the map. -/
def mappedSize (dims : List ℕ) : ℕ :=
  (intDim dims 0).toNat * (intDim dims 1 * slicesOf dims).toNat

theorem slicesOf_long (n k l j : ℕ) (dims : List ℕ) : slicesOf (n :: k :: l :: j :: dims) = 1 :=
  if_pos (by simp)

theorem mul_eq_mul_iff_of_le {a b x y : ℕ} (ha : a ≤ x) (hb : b ≤ y) (hx : 0 < x) (hy : 0 < y) :
    a * b = x * y ↔ a = x ∧ b = y := by
  refine ⟨fun h => ?_, fun h => by rw [h.1, h.2]⟩
  have hax : a = x := by
    by_contra hne
    exact h.not_lt (Nat.mul_lt_mul_of_lt_of_le (ha.lt_of_ne hne) hb hy)
  subst hax
  exact ⟨rfl, Nat.eq_of_mul_eq_mul_left hx h⟩

/-- Two dimensions, multiplied as `int`. -/
theorem toNat_mul_toInt_le (c s : ℕ) : (toInt c * toInt s).toNat ≤ c * s := by
  have habs := Nat.mul_le_mul (natAbs_toInt_le c) (natAbs_toInt_le s)
  rw [← Int.natAbs_mul] at habs
  omega

theorem toNat_mul_toInt_eq_iff {c s : ℕ} (hc : 0 < c) (hs : 0 < s)
    (hlt : toInt c * toInt s < 2 ^ 31) :
    (toInt c * toInt s).toNat = c * s ↔ c < 2 ^ 31 ∧ s < 2 ^ 31 := by
  constructor
  · intro h
    have hpos : 0 < c * s := Nat.mul_pos hc hs
    have habs : (toInt c).natAbs * (toInt s).natAbs = c * s := by
      rw [← Int.natAbs_mul]
      omega
    obtain ⟨hc', hs'⟩ := (mul_eq_mul_iff_of_le (natAbs_toInt_le c) (natAbs_toInt_le s) hc hs).mp habs
    have hcr := toInt_range c
    have hsr := toInt_range s
    -- negative factors would both be -2^31
    by_contra hbig
    have hneg : toInt c < 0 ∨ toInt s < 0 := by omega
    have hprod : 0 < toInt c * toInt s := by omega
    have hboth : toInt c < 0 ∧ toInt s < 0 := by
      rcases hneg with hneg | hneg
      · exact ⟨hneg, neg_of_mul_pos_right hprod hneg.le⟩
      · exact ⟨neg_of_mul_pos_left hprod hneg.le, hneg⟩
    rw [toInt_of_neg hboth.1 hc', toInt_of_neg hboth.2 hs'] at hlt
    norm_num at hlt
  · rintro ⟨hc', hs'⟩
    rw [toInt_natCast hc', toInt_natCast hs']
    norm_cast

/-- Not more than all elements are mapped. -/
theorem mappedSize_le {dims : List ℕ} (hrank : 2 ≤ dims.length) (hprod : dims.prod ≠ 0) :
    mappedSize dims ≤ dims.prod := by
  match dims, hrank with
  | [r, c], _ =>
    rw [mappedSize, intDim_zero, intDim_one, slicesOf_matrix, mul_one]
    simpa using Nat.mul_le_mul (toNat_toInt_le r) (toNat_toInt_le c)
  | [r, c, s], _ =>
    rw [mappedSize, intDim_zero, intDim_one, slicesOf_cube]
    simpa using Nat.mul_le_mul (toNat_toInt_le r) (toNat_mul_toInt_le c s)
  | r :: c :: s :: t :: rest, _ =>
    have hrest : 0 < (s :: t :: rest).prod := by
      rw [Nat.pos_iff_ne_zero]
      intro h
      rw [List.prod_cons, List.prod_cons, h] at hprod
      simp at hprod
    rw [mappedSize, intDim_zero, intDim_one, slicesOf_long, mul_one, List.prod_cons, List.prod_cons]
    exact Nat.mul_le_mul (toNat_toInt_le r)
      ((toNat_toInt_le c).trans (Nat.le_mul_of_pos_right c hrest))

/-- All elements are mapped, if the array is shaped so. -/
theorem mappedSize_eq_iff {dims : List ℕ} (hrank : 2 ≤ dims.length) (hprod : dims.prod ≠ 0)
    (hlt : intDim dims 1 * slicesOf dims < 2 ^ 31) :
    mappedSize dims = dims.prod ↔ Shaped dims := by
  match dims, hrank with
  | [r, c], _ =>
    rw [List.prod_pair] at hprod
    obtain ⟨hr, hc⟩ := Nat.mul_ne_zero_iff.mp hprod
    rw [mappedSize, intDim_zero, intDim_one, slicesOf_matrix, mul_one, List.prod_pair,
      mul_eq_mul_iff_of_le (toNat_toInt_le r) (toNat_toInt_le c) (by omega) (by omega),
      toNat_toInt_eq_iff, toNat_toInt_eq_iff]
    simp [Shaped]
  | [r, c, s], _ =>
    have hprod' : [r, c, s].prod = r * (c * s) := by simp
    rw [hprod'] at hprod
    obtain ⟨hr, hcs⟩ := Nat.mul_ne_zero_iff.mp hprod
    obtain ⟨hc, hs⟩ := Nat.mul_ne_zero_iff.mp hcs
    rw [intDim_one, slicesOf_cube] at hlt
    rw [mappedSize, intDim_zero, intDim_one, slicesOf_cube, hprod',
      mul_eq_mul_iff_of_le (toNat_toInt_le r) (toNat_mul_toInt_le c s) (by omega) (by omega),
      toNat_toInt_eq_iff, toNat_mul_toInt_eq_iff (by omega) (by omega) hlt]
    simp [Shaped]
  | r :: c :: s :: t :: rest, _ =>
    have hprod' : (r :: c :: s :: t :: rest).prod = r * (c * (s :: t :: rest).prod) := by simp
    rw [hprod'] at hprod
    obtain ⟨hr, hcs⟩ := Nat.mul_ne_zero_iff.mp hprod
    obtain ⟨hc, hrest⟩ := Nat.mul_ne_zero_iff.mp hcs
    have hle := (toNat_toInt_le c).trans (Nat.le_mul_of_pos_right c (Nat.pos_of_ne_zero hrest))
    rw [mappedSize, intDim_zero, intDim_one, slicesOf_long, mul_one, hprod',
      mul_eq_mul_iff_of_le (toNat_toInt_le r) hle (by omega) (Nat.pos_of_ne_zero hcs),
      toNat_toInt_eq_iff, ← mul_one (toInt c).toNat,
      mul_eq_mul_iff_of_le (toNat_toInt_le c) (Nat.one_le_iff_ne_zero.mpr hrest) (by omega) (by omega),
      toNat_toInt_eq_iff]
    have hs : 1 = (s :: t :: rest).prod → s < 2 ^ 31 := by
      intro h
      rw [List.prod_cons] at h
      rw [Nat.eq_one_of_mul_eq_one_right h.symm]
      norm_num
    have hlen : ¬ (r :: c :: s :: t :: rest).length = 3 := by simp
    rw [Shaped]
    constructor
    · rintro ⟨hr', hc', hrest'⟩
      have hs' := hs hrest'
      refine ⟨?_, .inr hrest'.symm⟩
      simp only [List.take_succ_cons, List.take_zero, List.mem_cons, List.not_mem_nil, or_false]
      rintro n (rfl | rfl | rfl)
      exacts [hr', hc', hs']
    · rintro ⟨hall, hlen' | hrest'⟩
      · exact absurd hlen' hlen
      · exact ⟨hall r (by simp), hall c (by simp), hrest'.symm⟩

end MatioBackend
end XBot
