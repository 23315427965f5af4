import Mathlib.Data.Int.Order.Basic

/-!
# Numbers of the analysed programs

Numbers are abstract: the folder and the interpreter compute with the same
operations. The integers are an instance, with truncating powers: the results on
traces and the concrete programs beside those on folding, cleanup, the pipeline,
points-to sets and varargs use them.
-/

set_option autoImplicit false

namespace LuaRecovery.Lua

/-- The number operations that both the JavaScript tool and Lua perform. -/
class LuaNumber (N : Type) where
  ofNat : ℕ → N
  neg : N → N
  add : N → N → N
  sub : N → N → N
  mul : N → N → N
  div : N → N → N
  pow : N → N → N
  floor : N → N
  abs : N → N
  lt : N → N → Bool
  le : N → N → Bool
  eq : N → N → Bool
  isFinite : N → Bool
  text : N → String

namespace LuaNumber
variable {N : Type} [LuaNumber N]

def zero : N := ofNat 0
def one : N := ofNat 1

/-- Lua's modulo: the result takes the sign of the divisor. -/
def mod (l r : N) : N := sub l (mul (floor (div l r)) r)

end LuaNumber

instance : LuaNumber ℤ where
  ofNat n := n
  neg a := -a
  add a b := a+b
  sub a b := a-b
  mul a b := a*b
  div a b := a/b
  pow a b := Int.pow a b.toNat
  floor a := a
  abs a := a.natAbs
  lt a b := decide (a < b)
  le a b := decide (a ≤ b)
  eq a b := decide (a = b)
  isFinite _ := true
  text a := toString a

@[simp] theorem int_ofNat (n : ℕ) : (LuaNumber.ofNat n : ℤ) = n := rfl
@[simp] theorem int_add (a b : ℤ) : LuaNumber.add a b = a+b := rfl
@[simp] theorem int_sub (a b : ℤ) : LuaNumber.sub a b = a-b := rfl
@[simp] theorem int_mul (a b : ℤ) : LuaNumber.mul a b = a*b := rfl
@[simp] theorem int_lt (a b : ℤ) : LuaNumber.lt a b = decide (a < b) := rfl
@[simp] theorem int_le (a b : ℤ) : LuaNumber.le a b = decide (a ≤ b) := rfl
@[simp] theorem int_eq (a b : ℤ) : LuaNumber.eq a b = decide (a = b) := rfl
@[simp] theorem int_zero : (LuaNumber.zero : ℤ) = 0 := rfl
@[simp] theorem int_one : (LuaNumber.one : ℤ) = 1 := rfl

end LuaRecovery.Lua
