import LuaRecovery.Lib.Utf16
import LuaRecovery.Lua.Double
import Mathlib.Data.Nat.Digits.Defs
import Mathlib.Data.List.Forall2

/-!
# The reply format of Redis

A server writes a value as a line, and a bulk string as a line with its length
in bytes and the text. The client reads the stream decoded from UTF-8, a string
of code units, and takes the lengths for numbers of those.
-/

set_option autoImplicit false

namespace LuaRecovery.Queue
open LuaRecovery.Lib LuaRecovery.Lua

/-- A text that fits on one line. -/
structure Line where
  text : List Char
  unbroken : ∀ c ∈ text, c ≠ '\r' ∧ c ≠ '\n'

inductive RespValue where
  | simple (line : Line)
  | error (line : Line)
  | integer (n : ℤ)
  | bulk (text : List Char)
  | nilBulk
  | array (items : List RespValue)
  | nilArray

def decimal : ℤ → List Char
  | .ofNat n => Nat.toDigits 10 n
  | .negSucc n => '-' :: Nat.toDigits 10 (n+1)

def crlf : List Char := ['\r', '\n']

namespace RespValue

def typeChar : RespValue → Char
  | .simple _ => '+'
  | .error _ => '-'
  | .integer _ => ':'
  | .bulk _ => '$'
  | .nilBulk => '$'
  | .array _ => '*'
  | .nilArray => '*'

/-- What stands on the first line of a value, after its type. -/
def header : RespValue → List Char
  | .simple line => line.text
  | .error line => line.text
  | .integer n => decimal n
  | .bulk text => decimal (utf8Length text)
  | .nilBulk => decimal (-1)
  | .array items => decimal items.length
  | .nilArray => decimal (-1)

mutual

/-- What follows the first line of a value. -/
def body : RespValue → List Char
  | .bulk text => text ++ crlf
  | .array items => wires items
  | _ => []

def wires : List RespValue → List Char
  | [] => []
  | v::vs => v.typeChar :: (v.header ++ crlf ++ body v) ++ wires vs

end

/-- The text that a server sends for a value. -/
def wire (v : RespValue) : List Char := v.typeChar :: (v.header ++ crlf ++ v.body)

def isError : RespValue → Bool
  | .error _ => true
  | _ => false

end RespValue

inductive JsValue where
  | text (units : CodeUnits)
  | number (x : Double)
  | null
  | array (items : List JsValue)

/-- What `_parseResp` comes back with, if its recursion ends. -/
inductive Attempt where
  | incomplete
  | parsed (value : JsValue) (isError : Bool) (bytesConsumed : Option ℤ)
  | overflow

section Strings

/-- A position given to `slice`: one below zero counts from the end, NaN is zero. -/
def relativeIndex (length : ℕ) (i : Option ℤ) : ℕ :=
  match i with
  | none => 0
  | some i => if i < 0 then (length+i).toNat else min i.toNat length

def sliceFrom (s : CodeUnits) (start : Option ℤ) : CodeUnits :=
  s.drop (relativeIndex s.length start)

def slice (s : CodeUnits) (start stop : Option ℤ) : CodeUnits :=
  (s.take (relativeIndex s.length stop)).drop (relativeIndex s.length start)

/-- `indexOf` for the two characters that end a line. -/
def crlfIndex : CodeUnits → Option ℕ
  | [] => none
  | u::us => if u = 13 ∧ us.head? = some 10 then some 0 else (crlfIndex us).map (·+1)

def isSpace (u : ℕ) : Bool :=
  u ∈ [9, 10, 11, 12, 13, 32, 0xA0, 0x1680, 0x2028, 0x2029, 0x202F, 0x205F, 0x3000, 0xFEFF] ||
    (0x2000 ≤ u && u ≤ 0x200A)

def isDigit (u : ℕ) : Bool := 48 ≤ u && u ≤ 57

def parseDigits (units : CodeUnits) : Option ℕ :=
  match units.takeWhile isDigit with
  | [] => none
  | ds => some (ds.foldl (fun n d => 10*n+(d-48)) 0)

/-- `parseInt` to base ten; what it reads off a line is a length or an integer reply. -/
def parseInt (line : CodeUnits) : Option ℤ :=
  match line.dropWhile isSpace with
  | 45 :: rest => (parseDigits rest).map (fun n : ℕ => -(n : ℤ))
  | 43 :: rest => (parseDigits rest).map (fun n : ℕ => (n : ℤ))
  | rest => (parseDigits rest).map (fun n : ℕ => (n : ℤ))

/-- The number that `parseInt` returns: the nearest double. -/
def jsNumber (n : Option ℤ) : Double :=
  match n with
  | some n => .ofRat n
  | none => .nan

end Strings

section Parser

/-- The items of an array, each read from the buffer behind the one before. -/
def parseItems (parse : CodeUnits → Attempt) (buf : CodeUnits) (items : List JsValue) :
    ℕ → Option ℤ → Attempt
  | 0, offset => .parsed (.array items) false offset
  | count+1, offset =>
      match parse (sliceFrom buf offset) with
      | .parsed value _ consumed =>
          parseItems parse buf (items ++ [value]) count (do return (← offset)+(← consumed))
      | .incomplete => .incomplete
      | .overflow => .overflow

/-- `_parseResp` once the first line and its end are known. -/
def parseTyped (parse : CodeUnits → Attempt) (buf : CodeUnits) (type : ℕ) (line : CodeUnits)
    (start : ℤ) : Attempt :=
  if type = '+'.toNat then .parsed (.text line) false (some start)
  else if type = '-'.toNat then .parsed (.text line) true (some start)
  else if type = ':'.toNat then .parsed (.number (jsNumber (parseInt line))) false (some start)
  else if type = '$'.toNat then
    let len := parseInt line
    if len = some (-1) then .parsed .null false (some start)
    else
      let dataEnd := len.map (start+·)
      if dataEnd.any (fun stop => (buf.length : ℤ) < stop+2) then .incomplete
      else .parsed (.text (slice buf (some start) dataEnd)) false (dataEnd.map (·+2))
  else if type = '*'.toNat then
    let count := parseInt line
    if count = some (-1) then .parsed .null false (some start)
    else parseItems parse buf [] (count.getD 0).toNat (some start)
  else .incomplete

/-- Fuel bounds the depth of the recursion. -/
def parseResp : ℕ → CodeUnits → Attempt
  | 0, _ => .overflow
  | fuel+1, buf =>
      if buf.length < 3 then .incomplete
      else match crlfIndex buf with
        | none => .incomplete
        | some i => parseTyped (parseResp fuel) buf (buf.headD 0) ((buf.take i).drop 1) (i+2)

/-- A nested call gets a shorter buffer, unless it gets the same one again and never ends. -/
def parse (buf : CodeUnits) : Attempt := parseResp (buf.length+1) buf

end Parser
end LuaRecovery.Queue
