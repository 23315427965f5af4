import LuaRecovery.Lib.Utf16
import LuaRecovery.Lua.Ast

/-!
# String literals

The byte strings of `shared/src/bytestring.js`. A source is a text; the code
units that JavaScript sees of it are those of its characters.
-/

set_option autoImplicit false

namespace LuaRecovery.Lua
open LuaRecovery.Lib

def byteOf (unit : ℕ) : UInt8 := UInt8.ofNat (unit % 256)

def isHexDigit (c : Char) : Bool :=
  c.isDigit || ('a' ≤ c && c ≤ 'f') || ('A' ≤ c && c ≤ 'F')

def hexValue (c : Char) : ℕ :=
  if c.isDigit then c.toNat - '0'.toNat
  else if 'a' ≤ c then c.toNat - 'a'.toNat + 10 else c.toNat - 'A'.toNat + 10

/-- JavaScript's `\s`. -/
def isJsSpace (c : Char) : Bool :=
  c.toNat ∈ [9, 10, 11, 12, 13, 32, 160, 0x1680, 0x2028, 0x2029, 0x202f, 0x205f, 0x3000, 0xfeff] ||
    (0x2000 ≤ c.toNat && c.toNat ≤ 0x200a)

namespace ByteString

/-- The low bytes of the code units of a character. -/
def latin1 (c : Char) : ByteString := (charUnits c).map byteOf

def escaped (quoteChar : Char) (b : UInt8) : List Char :=
  if b = 0 then ['\\', '0']
  else if b = 7 then ['\\', 'a']
  else if b = 8 then ['\\', 'b']
  else if b = 9 then ['\\', 't']
  else if b = 10 then ['\\', 'n']
  else if b = 11 then ['\\', 'v']
  else if b = 12 then ['\\', 'f']
  else if b = 13 then ['\\', 'r']
  else if b = 92 then ['\\', '\\']
  else if b.toNat = quoteChar.toNat then ['\\', quoteChar]
  else if 32 ≤ b ∧ b ≤ 126 then [Char.ofNat b.toNat]
  else '\\' :: [Nat.digitChar (b.toNat / 100), Nat.digitChar (b.toNat / 10 % 10),
    Nat.digitChar (b.toNat % 10)]

def toLuaLiteral (bytes : ByteString) (quoteChar : Char) : List Char :=
  quoteChar :: bytes.flatMap (escaped quoteChar) ++ [quoteChar]

/-- Up to three digits of a decimal escape, its first digit being there. -/
def decimalEscape (first : Char) (rest : List Char) : List Char × List Char :=
  match rest with
  | a::b::rest' =>
      if a.isDigit then
        if b.isDigit then ([first, a, b], rest') else ([first, a], b::rest')
      else ([first], rest)
  | [a] => if a.isDigit then ([first, a], []) else ([first], rest)
  | [] => ([first], [])

theorem length_decimalEscape_le (first : Char) (rest : List Char) :
    (decimalEscape first rest).2.length ≤ rest.length := by
  unfold decimalEscape
  split
  · split
    · split
      · simp
        omega
      · simp
    · simp
  · split <;> simp
  · simp

def digitsValue (digits : List Char) : ℕ :=
  digits.foldl (fun n c => 10 * n + (c.toNat - '0'.toNat)) 0

def simpleEscape : Char → Option UInt8
  | 'a' => some 7
  | 'b' => some 8
  | 'f' => some 12
  | 'n' => some 10
  | 'r' => some 13
  | 't' => some 9
  | 'v' => some 11
  | '\\' => some 92
  | '"' => some 34
  | '\'' => some 39
  | _ => none

/-- Two hexadecimal digits, if they are there. -/
def hexEscape : List Char → Option (UInt8 × List Char)
  | a::b::rest =>
      if isHexDigit a ∧ isHexDigit b then some (byteOf (16 * hexValue a + hexValue b), rest)
      else none
  | _ => none

/-- The bytes of an escape, and the text after it. -/
def escape (next : Char) (rest : List Char) : ByteString × List Char :=
  if next.isDigit then
    ([byteOf (digitsValue (decimalEscape next rest).1)], (decimalEscape next rest).2)
  else if next = 'x' ∨ next = 'X' then
    match hexEscape rest with
    | some (b, rest) => ([b], rest)
    | none => ([byteOf 'x'.toNat], rest)
  else if next = 'z' then ([], rest.dropWhile isJsSpace)
  else match simpleEscape next with
    | some b => ([b], rest)
    | none => (latin1 next, rest)

theorem length_escape_le (next : Char) (rest : List Char) :
    (escape next rest).2.length ≤ rest.length := by
  unfold escape
  split
  · exact length_decimalEscape_le next rest
  · split
    · split
      next hhex =>
        unfold hexEscape at hhex
        split at hhex
        · split at hhex
          · cases hhex
            simp
            omega
          · cases hhex
        · cases hhex
      next => exact Nat.le_refl _
    · split
      · exact (List.dropWhile_sublist isJsSpace).length_le
      · split <;> exact Nat.le_refl _

/-- The bytes of the text between the quotes. -/
def decode : List Char → ByteString
  | [] => []
  | '\\' :: next::rest => (escape next rest).1 ++ decode (escape next rest).2
  | c::rest => latin1 c ++ decode rest
termination_by cs => cs.length
decreasing_by
  · have hle := length_escape_le next rest
    simp only [List.length_cons]
    omega
  · simp

/-- What a long bracket holds, where the text is one: `[`, some `=`, `[` and the same at its end. -/
def longContent (raw : List Char) : Option (List Char) :=
  match raw with
  | '[' :: rest =>
      let level := (rest.takeWhile (· = '=')).length
      match rest.drop level with
      | '[' :: body =>
          let close := ']' :: List.replicate level '=' ++ [']']
          if close <:+ body then some (body.take (body.length - close.length)) else none
      | _ => none
  | _ => none

def fromLuaLiteral (raw : List Char) : ByteString :=
  if (raw.head? = some '"' ∧ raw.getLast? = some '"') ∨
      (raw.head? = some '\'' ∧ raw.getLast? = some '\'') then
    decode (raw.drop 1).dropLast
  else match longContent raw with
    | some ('\n' :: content) => content.flatMap latin1
    | some content => content.flatMap latin1
    | none => decode raw

end ByteString
end LuaRecovery.Lua
