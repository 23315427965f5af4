import LuaRecovery.Lib.ListEntries
import LuaRecovery.Lua.Double
import LuaRecovery.Lua.Lexer
import Mathlib.Data.Nat.Digits.Defs

/-!
# Numbers and their texts

JavaScript's `Number` on what the lexer reads as a number, and its `String` on
numbers. Zero has a sign here, which its text does not show.
-/

set_option autoImplicit false

namespace LuaRecovery.Lua
open Lexer

inductive SignedDouble where
  | finite (negative : Bool) (magnitude : ℚ) (nonneg : 0 ≤ magnitude)
      (representable : IsDouble magnitude)
  | infinity (negative : Bool)
  | nan

namespace SignedDouble

def isNegative : SignedDouble → Bool
  | finite negative _ _ _ => negative
  | infinity negative => negative
  | nan => false

def neg : SignedDouble → SignedDouble
  | finite negative q h hq => finite (!negative) q h hq
  | infinity negative => infinity (!negative)
  | nan => nan

theorem round_nonneg {q : ℚ} (h : 0 ≤ q) : 0 ≤ Double.round q :=
  Double.le_round ⟨0, 0, by norm_num, by norm_num, by norm_num⟩ h

/-- The double nearest to an exact value that is not negative. -/
def ofRat (q : ℚ) (h : 0 ≤ q) : SignedDouble :=
  if hlt : |Double.round q| < 2^1024 then
    finite false (Double.round q) (round_nonneg h) (Double.isDouble_round hlt)
  else infinity false

theorem finite_congr {negative : Bool} {a b : ℚ} (ha : 0 ≤ a) (hd : IsDouble a) (h : a = b) :
    finite negative a ha hd = finite negative b (h ▸ ha) (h ▸ hd) := by
  subst h
  rfl

theorem ofRat_eq {q d : ℚ} (h : 0 ≤ q) (hround : Double.round q = d) (hd : IsDouble d) :
    ofRat q h = finite false d (hround ▸ round_nonneg h) hd := by
  have hlt : |Double.round q| < 2^1024 := by rw [hround]; exact hd.2
  rw [ofRat, dif_pos hlt]
  exact finite_congr _ _ hround

end SignedDouble

section Reading

def hexDigits (digits : List Char) : ℕ := digits.foldl (fun n c => 16 * n + hexValue c) 0

/-- `Number` takes no fraction and no exponent of a hexadecimal number. -/
def hexNumber (digits : List Char) : SignedDouble :=
  if digits ≠ [] ∧ digits.all isHexDigit then .ofRat (hexDigits digits) (Nat.cast_nonneg _)
  else .nan

/-- The value of an exponent, which must have digits. -/
def exponentValue : List Char → Option ℤ
  | [] => some 0
  | [_] => none
  | _::sign::digits =>
      if sign = '+' then if digits = [] then none else some (ByteString.digitsValue digits)
      else if sign = '-' then if digits = [] then none else some (-ByteString.digitsValue digits)
      else some (ByteString.digitsValue (sign::digits))

theorem scaled_nonneg (n : ℕ) (e : ℤ) : (0 : ℚ) ≤ n * 10^e :=
  mul_nonneg (Nat.cast_nonneg n) (zpow_nonneg (by norm_num) e)

def decimalNumber (raw : List Char) : SignedDouble :=
  let fraction := readFraction (raw.dropWhile Char.isDigit)
  let digits := fraction.1.drop 1
  match exponentValue (readExponent isExponent fraction.2).1 with
  | none => .nan
  | some e =>
      .ofRat (ByteString.digitsValue (raw.takeWhile Char.isDigit ++ digits) * 10^(e - digits.length))
        (scaled_nonneg _ _)

/-- `Number(raw)` for what the lexer reads as a number. -/
def numberOf (raw : List Char) : SignedDouble :=
  match raw with
  | '0' :: 'x' :: digits => hexNumber digits
  | '0' :: 'X' :: digits => hexNumber digits
  | raw => decimalNumber raw

end Reading

section Writing

def decimalDigits (n : ℕ) : List Char := (Nat.digits 10 n).reverse.map Nat.digitChar

/-- The digits that are printed of a double, and how many of them stand before the point: their
value reads back as the double. -/
class DecimalDigits where
  digits : ℚ → ℕ × ℤ
  spec : ∀ q, 0 < q → IsDouble q → 0 < (digits q).1 ∧
    Double.round ((digits q).1 * 10^((digits q).2 - (decimalDigits (digits q).1).length)) = q

variable [DecimalDigits]

/-- The text of a double that is positive. -/
def magnitudeText (q : ℚ) : List Char :=
  let s := decimalDigits (DecimalDigits.digits q).1
  let n := (DecimalDigits.digits q).2
  if s.length ≤ n ∧ n ≤ 21 then s ++ List.replicate (n - s.length).toNat '0'
  else if 0 < n ∧ n ≤ 21 then s.take n.toNat ++ '.' :: s.drop n.toNat
  else if -6 < n ∧ n ≤ 0 then '0' :: '.' :: (List.replicate (-n).toNat '0' ++ s)
  else
    s.take 1 ++ (if s.length = 1 then [] else '.' :: s.drop 1) ++
      'e' :: (if 0 < n then '+' else '-') :: decimalDigits (n - 1).natAbs

/-- `String(value)`. -/
def numberText : SignedDouble → List Char
  | .finite negative q _ _ =>
      if q = 0 then ['0'] else if negative then '-' :: magnitudeText q else magnitudeText q
  | .infinity negative => if negative then "-Infinity".toList else "Infinity".toList
  | .nan => "NaN".toList

instance : Numerals SignedDouble where
  number := numberOf
  text := numberText

end Writing
end LuaRecovery.Lua
