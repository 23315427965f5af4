import Mathlib.Data.Int.Log
import Mathlib.Algebra.Order.Field.Basic
import Mathlib.Algebra.Order.Ring.Abs
import Mathlib.Tactic.Linarith
import Mathlib.Tactic.Ring
import Mathlib.Tactic.NormNum

/-!
# Rounding to binary floating point

Nearest rounding, ties to even, of the elements of an ordered field to `p`
significant bits with exponents from `emin` up. There is no largest exponent
here: overflow is for the number format to decide. Nothing representable is
ever crossed by rounding.
-/

set_option autoImplicit false

namespace LuaRecovery.Lib
variable {K : Type} [Field K] [LinearOrder K] [IsStrictOrderedRing K] [FloorRing K]

def nearestInt (x : K) : ℤ :=
  let k := ⌊x⌋
  if x-k < 1/2 then k
  else if 1/2 < x-k then k+1
  else k+k%2

omit [IsStrictOrderedRing K] in
theorem nearestInt_floor_le (x : K) : ⌊x⌋ ≤ nearestInt x := by
  have h := Int.emod_nonneg ⌊x⌋ (by omega : (2 : ℤ) ≠ 0)
  unfold nearestInt
  dsimp only
  split_ifs <;> omega

theorem nearestInt_le_ceil (x : K) : nearestInt x ≤ ⌈x⌉ := by
  have hm := Int.emod_lt_of_pos ⌊x⌋ (by omega : (0 : ℤ) < 2)
  by_cases hx : x-⌊x⌋ < 1/2
  · have heq : nearestInt x = ⌊x⌋ := by simp only [nearestInt, if_pos hx]
    rw [heq]
    exact_mod_cast (Int.floor_le x).trans (Int.le_ceil x)
  · have hlt : ⌊x⌋ < ⌈x⌉ := by
      rw [Int.lt_ceil]
      have : (0 : K) < 1/2 := by norm_num
      linarith
    unfold nearestInt
    dsimp only
    split_ifs <;> omega

omit [IsStrictOrderedRing K] in
theorem le_nearestInt {x : K} {k : ℤ} (h : (k : K) ≤ x) : k ≤ nearestInt x :=
  (Int.le_floor.mpr h).trans (nearestInt_floor_le x)

theorem nearestInt_le {x : K} {k : ℤ} (h : x ≤ k) : nearestInt x ≤ k :=
  (nearestInt_le_ceil x).trans (Int.ceil_le.mpr h)

/-- The exponent of the last of `p` bits of `x`. -/
def lastExponent (p : ℕ) (emin : ℤ) (x : K) : ℤ := max (Int.log 2 |x| - (p-1)) emin

def roundTo (p : ℕ) (emin : ℤ) (x : K) : K :=
  if x = 0 then 0
  else nearestInt (x / 2^lastExponent p emin x) * 2^lastExponent p emin x

def Representable (p : ℕ) (emin : ℤ) (x : K) : Prop :=
  ∃ m e : ℤ, |m| ≤ 2^p ∧ emin ≤ e ∧ x = m * 2^e

section Grid
variable {p : ℕ} {emin : ℤ}

theorem two_zpow_pos (e : ℤ) : (0 : K) < 2^e := zpow_pos (by norm_num) e

omit [LinearOrder K] [IsStrictOrderedRing K] [FloorRing K] in
theorem two_zpow_split [CharZero K] {e E : ℤ} (h : E ≤ e) :
    (2 : K)^e = ((2^(e-E).toNat : ℤ) : K) * 2^E := by
  push_cast
  rw [← zpow_natCast, ← zpow_add₀ (by norm_num : (2 : K) ≠ 0), Int.toNat_of_nonneg (by omega)]
  congr 1
  omega

/-- What is representable lies on the grid of `x`, or within the power of two below `x`. -/
theorem Representable.on_grid {d : K} (hd : Representable p emin d) (hp : 0 < p) (x : K) :
    (∃ k : ℤ, d = k * 2^lastExponent p emin x) ∨
      (|d| ≤ 2^Int.log 2 |x| ∧ ∃ k : ℤ, (2 : K)^Int.log 2 |x| = k * 2^lastExponent p emin x) := by
  obtain ⟨m, e, hm, he, rfl⟩ := hd
  by_cases hE : lastExponent p emin x ≤ e
  · refine .inl ⟨m * 2^(e-lastExponent p emin x).toNat, ?_⟩
    rw [two_zpow_split hE]
    push_cast
    ring
  · have hlast : lastExponent p emin x = Int.log 2 |x| - (p-1) := by
      rw [lastExponent] at hE ⊢
      omega
    refine .inr ⟨?_, 2^(Int.log 2 |x| - lastExponent p emin x).toNat,
      two_zpow_split (by omega)⟩
    have hm' : |(m : K)| ≤ 2^p := by exact_mod_cast hm
    calc |(m : K) * 2^e| = |(m : K)| * 2^e := by rw [abs_mul, abs_of_pos (two_zpow_pos (K := K) e)]
      _ ≤ 2^p * 2^e := mul_le_mul_of_nonneg_right hm' (two_zpow_pos e).le
      _ = 2^((p : ℤ)+e) := by rw [zpow_add₀ (by norm_num), zpow_natCast]
      _ ≤ 2^Int.log 2 |x| := zpow_le_zpow_right₀ (by norm_num) (by omega)

theorem grid_le_roundTo {x : K} (hx : x ≠ 0) {k : ℤ}
    (h : (k : K) * 2^lastExponent p emin x ≤ x) :
    (k : K) * 2^lastExponent p emin x ≤ roundTo p emin x := by
  have hpos := two_zpow_pos (K := K) (lastExponent p emin x)
  have hk := le_nearestInt ((le_div_iff₀ hpos).mpr h)
  rw [roundTo, if_neg hx]
  exact mul_le_mul_of_nonneg_right (by exact_mod_cast hk) hpos.le

theorem roundTo_le_grid {x : K} (hx : x ≠ 0) {k : ℤ}
    (h : x ≤ (k : K) * 2^lastExponent p emin x) :
    roundTo p emin x ≤ (k : K) * 2^lastExponent p emin x := by
  have hpos := two_zpow_pos (K := K) (lastExponent p emin x)
  have hk := nearestInt_le ((div_le_iff₀ hpos).mpr h)
  rw [roundTo, if_neg hx]
  exact mul_le_mul_of_nonneg_right (by exact_mod_cast hk) hpos.le

theorem le_roundTo (hp : 0 < p) {d x : K} (hd : Representable p emin d) (h : d ≤ x) :
    d ≤ roundTo p emin x := by
  by_cases hx : x = 0
  · rw [roundTo, if_pos hx]
    exact hx ▸ h
  rcases hd.on_grid hp x with ⟨k, hk⟩ | ⟨hle, k, hk⟩
  · rw [hk] at h ⊢
    exact grid_le_roundTo hx h
  · have hlog := Int.zpow_log_le_self (b := 2) (by norm_num) (abs_pos.mpr hx)
    rw [Nat.cast_ofNat] at hlog
    obtain ⟨hlo, hhi⟩ := abs_le.mp hle
    rcases lt_or_gt_of_ne hx with hneg | hpos
    · rw [abs_of_neg hneg] at hlog hk hlo hhi
      have hd : d = ((-k : ℤ) : K) * 2^lastExponent p emin x := by
        push_cast
        rw [neg_mul, ← hk]
        linarith
      rw [hd] at h ⊢
      exact grid_le_roundTo hx h
    · rw [abs_of_pos hpos] at hlog hk hlo hhi
      rw [hk] at hlog
      exact (hhi.trans hk.le).trans (grid_le_roundTo hx hlog)

theorem roundTo_le (hp : 0 < p) {d x : K} (hd : Representable p emin d) (h : x ≤ d) :
    roundTo p emin x ≤ d := by
  by_cases hx : x = 0
  · rw [roundTo, if_pos hx]
    exact hx ▸ h
  rcases hd.on_grid hp x with ⟨k, hk⟩ | ⟨hle, k, hk⟩
  · rw [hk] at h ⊢
    exact roundTo_le_grid hx h
  · have hlog := Int.zpow_log_le_self (b := 2) (by norm_num) (abs_pos.mpr hx)
    rw [Nat.cast_ofNat] at hlog
    obtain ⟨hlo, hhi⟩ := abs_le.mp hle
    rcases lt_or_gt_of_ne hx with hneg | hpos
    · rw [abs_of_neg hneg] at hlog hk hlo hhi
      have hx' : x ≤ ((-k : ℤ) : K) * 2^lastExponent p emin x := by
        push_cast
        rw [neg_mul, ← hk]
        linarith
      refine (roundTo_le_grid hx hx').trans ?_
      push_cast
      rw [neg_mul, ← hk]
      exact hlo
    · rw [abs_of_pos hpos] at hlog hk hlo hhi
      have hd : d = (k : K) * 2^lastExponent p emin x := by
        rw [← hk]
        linarith
      rw [hd] at h ⊢
      exact roundTo_le_grid hx h

theorem roundTo_eq (hp : 0 < p) {d : K} (hd : Representable p emin d) : roundTo p emin d = d :=
  le_antisymm (roundTo_le hp hd le_rfl) (le_roundTo hp hd le_rfl)

theorem roundTo_spec (p : ℕ) (emin : ℤ) {x : K} (hx : x ≠ 0) :
    ∃ m : ℤ, |m| ≤ 2^p ∧ roundTo p emin x = m * 2^lastExponent p emin x := by
  refine ⟨nearestInt (x / 2^lastExponent p emin x), ?_, by rw [roundTo, if_neg hx]⟩
  have hpos := two_zpow_pos (K := K) (lastExponent p emin x)
  have hlog := Int.lt_zpow_succ_log_self (b := 2) (by norm_num) |x|
  have hbound : |x / 2^lastExponent p emin x| ≤ ((2^p : ℤ) : K) := by
    rw [abs_div, abs_of_pos hpos, div_le_iff₀ hpos]
    refine hlog.le.trans ?_
    push_cast
    rw [← zpow_natCast, ← zpow_add₀ (by norm_num : (2 : K) ≠ 0)]
    refine zpow_le_zpow_right₀ (by norm_num) ?_
    rw [lastExponent]
    omega
  obtain ⟨hlo, hhi⟩ := abs_le.mp hbound
  rw [abs_le]
  constructor
  · exact le_nearestInt (by push_cast at hlo ⊢; exact hlo)
  · exact nearestInt_le hhi

theorem representable_roundTo (p : ℕ) (emin : ℤ) (x : K) :
    Representable p emin (roundTo p emin x) := by
  by_cases hx : x = 0
  · exact ⟨0, emin, by simp, le_rfl, by rw [roundTo, if_pos hx]; simp⟩
  · obtain ⟨m, hm, heq⟩ := roundTo_spec p emin hx
    exact ⟨m, _, hm, le_max_right _ _, heq⟩

omit [LinearOrder K] [IsStrictOrderedRing K] [FloorRing K] in
theorem representable_int {n : ℤ} (hmin : emin ≤ 0) (hn : |n| ≤ 2^p) :
    Representable p emin (n : K) :=
  ⟨n, 0, hn, hmin, by simp⟩

omit [IsStrictOrderedRing K] in
theorem Representable.double {d : K} (hd : Representable p emin d) :
    Representable p emin (2*d) := by
  obtain ⟨m, e, hm, he, rfl⟩ := hd
  refine ⟨m, e+1, hm, by omega, ?_⟩
  rw [zpow_add_one₀ (by norm_num)]
  ring

end Grid
end LuaRecovery.Lib
