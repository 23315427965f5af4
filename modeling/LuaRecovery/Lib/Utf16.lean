import Mathlib.Algebra.GroupWithZero.Nat
import Mathlib.Data.List.Basic
import Mathlib.Tactic.SplitIfs
import Mathlib.Tactic.ByContra

/-!
# Text as UTF-16

A JavaScript string is a list of 16-bit code units; a character outside the
basic plane takes two. The length of a text in UTF-8 bytes is never below its
length in code units, and equals it for ASCII text only.
-/

set_option autoImplicit false

namespace LuaRecovery.Lib

abbrev CodeUnits := List ℕ

def charUnits (c : Char) : CodeUnits :=
  if c.toNat < 0x10000 then [c.toNat]
  else [0xD800+(c.toNat-0x10000)/0x400, 0xDC00+(c.toNat-0x10000)%0x400]

def utf16 (text : List Char) : CodeUnits := text.flatMap charUnits

def utf8Length (text : List Char) : ℕ := (text.map Char.utf8Size).sum

def IsAscii (text : List Char) : Prop := ∀ c ∈ text, c.toNat < 128

instance (text : List Char) : Decidable (IsAscii text) :=
  inferInstanceAs (Decidable (∀ c ∈ text, c.toNat < 128))

@[simp] theorem utf16_nil : utf16 [] = [] := rfl

@[simp] theorem utf16_cons (c : Char) (text : List Char) :
    utf16 (c::text) = charUnits c ++ utf16 text := rfl

@[simp] theorem utf16_append (text rest : List Char) :
    utf16 (text++rest) = utf16 text ++ utf16 rest := List.flatMap_append

theorem charUnits_ascii {c : Char} (h : c.toNat < 128) : charUnits c = [c.toNat] := by
  rw [charUnits, if_pos (by omega)]

theorem utf16_ascii {text : List Char} (h : IsAscii text) : utf16 text = text.map Char.toNat := by
  induction text with
  | nil => rfl
  | cons c text ih =>
    have hc : c.toNat < 128 := h c (by simp)
    have ht : IsAscii text := fun d hd => h d (by simp [hd])
    simp [charUnits_ascii hc, ih ht]

/-- A code unit below the surrogates is the character itself. -/
theorem mem_charUnits {c : Char} {u : ℕ} (h : u ∈ charUnits c) (hu : u < 0xD800) :
    u = c.toNat := by
  unfold charUnits at h
  split_ifs at h with hc
  · simpa using h
  · simp only [List.mem_cons, List.not_mem_nil, or_false] at h
    omega

theorem utf8Size_le (c : Char) :
    (charUnits c).length ≤ c.utf8Size ∧ ((charUnits c).length = c.utf8Size ↔ c.toNat < 128) := by
  have hval : c.toNat = c.val.toNat := rfl
  unfold charUnits Char.utf8Size
  simp only [UInt32.le_iff_toNat_le, ← hval, UInt32.toNat_ofNatLT]
  split_ifs <;> simp <;> omega

theorem length_utf16_le (text : List Char) : (utf16 text).length ≤ utf8Length text := by
  induction text with
  | nil => exact Nat.le_refl _
  | cons c text ih =>
    have hc := (utf8Size_le c).1
    simp only [utf16_cons, List.length_append, utf8Length, List.map_cons, List.sum_cons]
    exact Nat.add_le_add hc ih

theorem length_utf16_eq_iff (text : List Char) :
    (utf16 text).length = utf8Length text ↔ IsAscii text := by
  induction text with
  | nil => simp [utf8Length, IsAscii]
  | cons c text ih =>
    have hc := utf8Size_le c
    have ht := length_utf16_le text
    have hsplit : IsAscii (c::text) ↔ c.toNat < 128 ∧ IsAscii text := by simp [IsAscii]
    rw [hsplit, ← ih, ← hc.2]
    simp only [utf16_cons, List.length_append, utf8Length, List.map_cons, List.sum_cons] at ht ⊢
    omega

section Characters

def isHighSurrogate (u : ℕ) : Bool := 0xD800 ≤ u && u < 0xDC00

def isLowSurrogate (u : ℕ) : Bool := 0xDC00 ≤ u && u < 0xE000

/-- A code unit outside a pair; a surrogate is replaced. -/
def loneChar (u : ℕ) : Char :=
  if isHighSurrogate u || isLowSurrogate u || 0x10000 ≤ u then Char.ofNat 0xFFFD else Char.ofNat u

def pairChar (u v : ℕ) : Char := Char.ofNat (0x10000 + ((u-0xD800)*0x400 + (v-0xDC00)))

/-- The characters that are written for a string, a surrogate without its other half replaced. -/
def chars : CodeUnits → List Char
  | [] => []
  | [u] => [loneChar u]
  | u::v::rest =>
      if isHighSurrogate u && isLowSurrogate v then pairChar u v :: chars rest
      else loneChar u :: chars (v::rest)

/-- The length of a string in UTF-8. -/
def byteLength (units : CodeUnits) : ℕ := utf8Length (chars units)

end Characters

end LuaRecovery.Lib
