import Mathlib.Data.List.Basic
import Mathlib.Logic.Function.Basic

/-!
# Base64

Three bytes are four digits to the base 64, most significant first. A last
group of one or two bytes is filled with zero bits, and the text with a pad
character.
-/

set_option autoImplicit false

namespace LuaRecovery.Lib.Base64

/-- Which character stands for which digit. -/
structure Alphabet (α : Type) (pad : α) where
  letter : Fin 64 → α
  injective : Function.Injective letter
  ne_pad : ∀ i, letter i ≠ pad

def digit (n : ℕ) : Fin 64 := Fin.ofNat 64 n

/-- The digits of a list of bytes. -/
def digits : List UInt8 → List (Fin 64)
  | [] => []
  | [a] => [digit (a.toNat/4), digit (a.toNat*16)]
  | [a, b] => [digit (a.toNat/4), digit (a.toNat*16+b.toNat/16), digit (b.toNat*4)]
  | a::b::c::bytes =>
      digit (a.toNat/4) :: digit (a.toNat*16+b.toNat/16) ::
        digit (b.toNat*4+c.toNat/64) :: digit c.toNat :: digits bytes

/-- How many pad characters follow the digits of `n` bytes. -/
def padding (n : ℕ) : ℕ := (3-n%3)%3

def Alphabet.encode {α : Type} {pad : α} (A : Alphabet α pad) (bytes : List UInt8) : List α :=
  (digits bytes).map A.letter ++ List.replicate (padding bytes.length) pad

@[simp] theorem padding_add_three (n : ℕ) : padding (n+3) = padding n := by
  simp [padding]

theorem encode_cons_three {α : Type} {pad : α} (A : Alphabet α pad) (a b c : UInt8)
    (bytes : List UInt8) :
    A.encode (a::b::c::bytes) = A.letter (digit (a.toNat/4)) ::
      A.letter (digit (a.toNat*16+b.toNat/16)) :: A.letter (digit (b.toNat*4+c.toNat/64)) ::
        A.letter (digit c.toNat) :: A.encode bytes := by
  simp [Alphabet.encode, digits]

/-- The value of up to four digits, the first one with the weight `64^3`. -/
def weigh (a b c d : Fin 64) : ℕ := a.val*262144+b.val*4096+c.val*64+d.val

theorem weigh_one (a : UInt8) :
    weigh (digit (a.toNat/4)) (digit (a.toNat*16)) 0 0 = a.toNat*65536 := by
  have ha := a.toNat_lt
  simp only [weigh, digit, Fin.val_ofNat, Fin.val_zero]
  omega

theorem weigh_two (a b : UInt8) :
    weigh (digit (a.toNat/4)) (digit (a.toNat*16+b.toNat/16)) (digit (b.toNat*4)) 0 =
      a.toNat*65536+b.toNat*256 := by
  have ha := a.toNat_lt
  have hb := b.toNat_lt
  simp only [weigh, digit, Fin.val_ofNat, Fin.val_zero]
  omega

theorem weigh_three (a b c : UInt8) :
    weigh (digit (a.toNat/4)) (digit (a.toNat*16+b.toNat/16)) (digit (b.toNat*4+c.toNat/64))
      (digit c.toNat) = a.toNat*65536+b.toNat*256+c.toNat := by
  have ha := a.toNat_lt
  have hb := b.toNat_lt
  have hc := c.toNat_lt
  simp only [weigh, digit, Fin.val_ofNat]
  omega

end LuaRecovery.Lib.Base64
