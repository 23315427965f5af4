import LuaRecovery.Lib.Rounding
import LuaRecovery.Lua.Number
import Mathlib.Data.Rat.Floor

/-!
# Double precision numbers

The numbers of JavaScript and of Lua: each operation is the exact one, rounded.
The two zeros are one value. Powers and the spelling of numbers are the host's.
-/

set_option autoImplicit false

namespace LuaRecovery.Lua
open LuaRecovery.Lib

/-- Numbers with infinities. -/
class JsNumber (N : Type) extends LuaNumber N where
  infinity : N

/-- At most 53 significant bits, no bit below `2^-1074`, and below `2^1024`. -/
def IsDouble (q : ℚ) : Prop := Representable 53 (-1074) q ∧ |q| < 2^1024

inductive Double : Type where
  | finite (q : ℚ) (representable : IsDouble q)
  | infinity (negative : Bool)
  | nan

namespace Double

def round (q : ℚ) : ℚ := roundTo 53 (-1074) q

theorem round_eq {q : ℚ} (h : IsDouble q) : round q = q := roundTo_eq (by norm_num) h.1

theorem round_le {d q : ℚ} (hd : Representable 53 (-1074) d) (h : q ≤ d) : round q ≤ d :=
  roundTo_le (by norm_num) hd h

theorem le_round {d q : ℚ} (hd : Representable 53 (-1074) d) (h : d ≤ q) : d ≤ round q :=
  le_roundTo (by norm_num) hd h

theorem isDouble_int {n : ℤ} (h : |n| ≤ 2^53) : IsDouble (n : ℚ) := by
  refine ⟨representable_int (by norm_num) h, ?_⟩
  have hcast : |(n : ℚ)| ≤ 2^53 := by exact_mod_cast h
  exact hcast.trans_lt (pow_lt_pow_right₀ (by norm_num) (by norm_num))

theorem isDouble_neg {q : ℚ} (h : IsDouble q) : IsDouble (-q) := by
  obtain ⟨⟨m, e, hm, he, rfl⟩, hlt⟩ := h
  exact ⟨⟨-m, e, by rwa [abs_neg], he, by push_cast; ring⟩, by rwa [abs_neg]⟩

/-- The floor of a double is a double: it has no bits below one. -/
theorem isDouble_floor {q : ℚ} (h : IsDouble q) : IsDouble (⌊q⌋ : ℤ) := by
  obtain ⟨⟨m, e, hm, he, rfl⟩, hlt⟩ := h
  by_cases hpos : 0 ≤ e
  · have heq : (m : ℚ) * 2^e = ((m * 2^e.toNat : ℤ) : ℚ) := by
      push_cast
      rw [← zpow_natCast, Int.toNat_of_nonneg hpos]
    rw [heq, Int.floor_intCast, ← heq]
    exact ⟨⟨m, e, hm, he, rfl⟩, hlt⟩
  · have hm' : |(m : ℚ)| ≤ 2^53 := by exact_mod_cast hm
    have hpow : (2 : ℚ)^e ≤ 1 := zpow_le_one_of_nonpos₀ (by norm_num) (by omega)
    have hsmall : |(m : ℚ) * 2^e| ≤ 2^53 := by
      rw [abs_mul, abs_of_pos (two_zpow_pos (K := ℚ) e)]
      calc |(m : ℚ)| * 2^e ≤ |(m : ℚ)| * 1 := mul_le_mul_of_nonneg_left hpow (abs_nonneg _)
        _ ≤ 2^53 := by rwa [mul_one]
    obtain ⟨hlo, hhi⟩ := abs_le.mp hsmall
    apply isDouble_int
    rw [abs_le]
    constructor
    · rw [Int.le_floor]
      push_cast
      exact hlo
    · rw [← Int.cast_le (R := ℚ)]
      push_cast
      exact (Int.floor_le _).trans hhi

/-- Half a rounded integer is a double: integers leave room for one more bit. -/
theorem isDouble_half {n : ℤ} (h : |round n| < 2^1024) : IsDouble (round n / 2) := by
  refine ⟨?_, ?_⟩
  · by_cases hn : (n : ℚ) = 0
    · rw [hn, round, roundTo, if_pos rfl]
      exact ⟨0, 0, by norm_num, by norm_num, by norm_num⟩
    · obtain ⟨m, hm, heq⟩ := roundTo_spec 53 (-1074) hn
      refine ⟨m, lastExponent 53 (-1074) (n : ℚ) - 1, hm, ?_, ?_⟩
      · have hone : (1 : ℚ) ≤ |(n : ℚ)| := by
          have hz : n ≠ 0 := by exact_mod_cast hn
          exact_mod_cast Int.one_le_abs hz
        have hlog : 0 ≤ Int.log 2 |(n : ℚ)| := by
          rw [Int.log_of_one_le_right 2 hone]
          omega
        rw [lastExponent]
        omega
      · rw [round, heq, zpow_sub_one₀ (by norm_num)]
        ring
  · rw [abs_div, abs_of_pos (by norm_num : (0 : ℚ) < 2)]
    exact (div_le_self (abs_nonneg _) (by norm_num)).trans_lt h

/-- One less than a double that is not below one half is a double, up to `2^53`. -/
theorem representable_pred {q : ℚ} (h : IsDouble q) (hlo : 1/2 ≤ q) (hhi : q ≤ 2^53) :
    Representable 53 (-1074) (q-1) := by
  obtain ⟨⟨m, e, hm, he, rfl⟩, -⟩ := h
  have hpos := two_zpow_pos (K := ℚ) e
  by_cases hint : 0 ≤ e
  · have heq : (m : ℚ) * 2^e = ((m * 2^e.toNat : ℤ) : ℚ) := by
      push_cast
      rw [← zpow_natCast, Int.toNat_of_nonneg hint]
    rw [heq] at hlo hhi ⊢
    have hge : 0 ≤ m * 2^e.toNat := by
      have hcast : ((0 : ℤ) : ℚ) ≤ (m * 2^e.toNat : ℤ) := by push_cast at hlo ⊢; linarith
      exact_mod_cast hcast
    have hle : m * 2^e.toNat ≤ 2^53 := by exact_mod_cast hhi
    have hpred : Representable 53 (-1074) ((m * 2^e.toNat - 1 : ℤ) : ℚ) :=
      representable_int (by norm_num) (abs_le.mpr ⟨by omega, by omega⟩)
    simpa using hpred
  · -- `1` is on the grid of `q`, and the difference has no more bits than `q`
    have hone : ((2^(-e).toNat : ℤ) : ℚ) * 2^e = 1 := by
      push_cast
      rw [← zpow_natCast, Int.toNat_of_nonneg (by omega), ← zpow_add₀ (by norm_num)]
      simp
    have hlow : (2^(-e).toNat : ℤ) ≤ 2*m := by
      have hmul : ((2^(-e).toNat : ℤ) : ℚ) * 2^e ≤ ((2*m : ℤ) : ℚ) * 2^e := by
        rw [hone]
        push_cast
        linarith
      exact_mod_cast le_of_mul_le_mul_right hmul hpos
    have hm' := abs_le.mp hm
    have hgrid : (0 : ℤ) < 2^(-e).toNat := by positivity
    refine ⟨m - 2^(-e).toNat, e, abs_le.mpr ⟨by omega, by omega⟩, he, ?_⟩
    rw [Int.cast_sub, sub_mul, hone]

/-- Subtracting one from a double loses nothing where the result is a small number from zero on. -/
theorem round_pred {q : ℚ} (h : IsDouble q) (hlo : 0 ≤ round (q-1)) (hhi : round (q-1) < 2^52) :
    round (q-1) = q-1 := by
  have hhalf : 1/2 ≤ q := by
    by_contra hlt
    have hd : Representable 53 (-1074) (-(1/2) : ℚ) := ⟨-1, -1, by norm_num, by norm_num, by norm_num⟩
    have hle : round (q-1) ≤ -(1/2) := round_le hd (by linarith)
    linarith
  have hbound : q ≤ 2^53 := by
    by_contra hgt
    have hd : Representable 53 (-1074) ((2^52 : ℤ) : ℚ) :=
      representable_int (by norm_num) (by norm_num)
    have hle : ((2^52 : ℤ) : ℚ) ≤ round (q-1) := le_round hd (by push_cast; linarith)
    push_cast at hle
    linarith
  exact roundTo_eq (by norm_num) (representable_pred h hhalf hbound)

theorem isDouble_round {q : ℚ} (h : |round q| < 2^1024) : IsDouble (round q) :=
  ⟨representable_roundTo 53 (-1074) q, h⟩

/-- The double nearest to an exact result. -/
def ofRat (q : ℚ) : Double :=
  if h : |round q| < 2^1024 then finite (round q) (isDouble_round h)
  else infinity (round q < 0)

theorem finite_congr {a b : ℚ} (ha : IsDouble a) (h : a = b) :
    finite a ha = finite b (h ▸ ha) := by
  subst h
  rfl

theorem ofRat_eq {q : ℚ} (h : IsDouble q) : ofRat q = finite q h := by
  have hr : |round q| < 2^1024 := by rw [round_eq h]; exact h.2
  rw [ofRat, dif_pos hr]
  exact finite_congr _ (round_eq h)

def neg : Double → Double
  | finite q h => finite (-q) (isDouble_neg h)
  | infinity negative => infinity (!negative)
  | nan => nan

def add : Double → Double → Double
  | finite a _, finite b _ => ofRat (a+b)
  | infinity a, infinity b => if a = b then infinity a else nan
  | infinity a, finite _ _ => infinity a
  | finite _ _, infinity b => infinity b
  | _, _ => nan

def mul : Double → Double → Double
  | finite a _, finite b _ => ofRat (a*b)
  | infinity a, infinity b => infinity (a != b)
  | infinity a, finite b _ => if b = 0 then nan else infinity (a != decide (b < 0))
  | finite a _, infinity b => if a = 0 then nan else infinity (decide (a < 0) != b)
  | _, _ => nan

def div : Double → Double → Double
  | finite a _, finite b _ =>
      if b = 0 then if a = 0 then nan else infinity (decide (a < 0)) else ofRat (a/b)
  | infinity a, finite b _ => infinity (a != decide (b < 0))
  | finite _ _, infinity _ => ofRat 0
  | _, _ => nan

def floor : Double → Double
  | finite q _ => ofRat ⌊q⌋
  | x => x

def abs : Double → Double
  | finite q h => if q < 0 then finite (-q) (isDouble_neg h) else finite q h
  | infinity _ => infinity false
  | nan => nan

def lt : Double → Double → Bool
  | finite a _, finite b _ => a < b
  | finite _ _, infinity b => !b
  | infinity a, finite _ _ => a
  | infinity a, infinity b => a && !b
  | _, _ => false

def eq : Double → Double → Bool
  | finite a _, finite b _ => a = b
  | infinity a, infinity b => a == b
  | _, _ => false

def isFinite : Double → Bool
  | finite _ _ => true
  | _ => false

end Double

/-- What the standard leaves to the host. -/
class Host where
  pow : Double → Double → Double
  text : Double → String

instance [Host] : JsNumber Double where
  ofNat n := .ofRat n
  neg := .neg
  add := .add
  sub a b := .add a b.neg
  mul := .mul
  div := .div
  pow := Host.pow
  floor := .floor
  abs := .abs
  lt := Double.lt
  le a b := a.lt b || a.eq b
  eq := Double.eq
  isFinite := Double.isFinite
  text := Host.text
  infinity := .infinity false

namespace Double

theorem isDouble_natCast {n : ℕ} (h : n ≤ 2^53) : IsDouble (n : ℚ) := by
  have hint := isDouble_int (n := n) (by rw [abs_of_nonneg (by omega)]; exact_mod_cast h)
  exact_mod_cast hint

variable [Host]

theorem ofNat_eq {n : ℕ} (h : n ≤ 2^53) :
    (LuaNumber.ofNat n : Double) = finite n (isDouble_natCast h) := ofRat_eq _

omit [Host] in
theorem zero_isDouble : IsDouble 0 := by
  simpa using isDouble_natCast (n := 0) (by omega)

omit [Host] in
theorem one_isDouble : IsDouble 1 := by
  simpa using isDouble_natCast (n := 1) (by omega)

theorem zero_eq : (LuaNumber.zero : Double) = finite 0 zero_isDouble := by
  rw [LuaNumber.zero, ofNat_eq (by omega)]
  exact finite_congr _ (by norm_num)

theorem one_eq : (LuaNumber.one : Double) = finite 1 one_isDouble := by
  rw [LuaNumber.one, ofNat_eq (by omega)]
  exact finite_congr _ (by norm_num)

/-- One less than a finite number. -/
theorem sub_one_finite (q : ℚ) (h : IsDouble q) :
    LuaNumber.sub (finite q h) LuaNumber.one = ofRat (q-1) := by
  rw [one_eq, sub_eq_add_neg]
  rfl

theorem add_zero_finite (q : ℚ) (h : IsDouble q) :
    LuaNumber.add (finite q h) LuaNumber.zero = finite q h := by
  rw [zero_eq]
  show ofRat (q+0) = _
  rw [add_zero, ofRat_eq h]

end Double
end LuaRecovery.Lua
