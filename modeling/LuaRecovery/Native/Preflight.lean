import LuaRecovery.Lib.Scanner
import LuaRecovery.Lua.ByteString

/-!
# The preflight profiles

`native/preflight.js`, whose fallback reads the code units of the source, and
the engine of `native/src/main.cpp`, which reads its bytes. Both count the
columns of a line as they go.
-/

set_option autoImplicit false

namespace LuaRecovery.Native
open LuaRecovery.Lib LuaRecovery.Lua

inductive Stage where
  | l0 | l1 | l2 | l3 | l4 | l5
  deriving DecidableEq, Repr

def Stage.index : Stage → ℕ
  | l0 => 0
  | l1 => 1
  | l2 => 2
  | l3 => 3
  | l4 => 4
  | l5 => 5

structure Profile where
  bytes : ℕ
  tokens : ℕ
  lines : ℕ
  maxDepth : ℕ
  maxLineLength : ℕ
  deriving DecidableEq, Repr

/-- The limits are the same in both engines. -/
def recommendStage (p : Profile) : Stage :=
  if p.bytes > 1200000 ∨ p.tokens > 350000 ∨ p.maxLineLength > 1200000 then .l2
  else if p.bytes > 640000 ∨ p.tokens > 190000 ∨ p.maxDepth > 1000 then .l3
  else if p.bytes > 320000 ∨ p.tokens > 100000 ∨ p.maxDepth > 350 then .l4
  else .l5

/-- The lines so far: their number, the columns of the current one, and the most columns. -/
structure Lines where
  lines : ℕ
  current : ℕ
  longest : ℕ
  deriving DecidableEq, Repr

namespace Lines

def newline (l : Lines) : Lines := ⟨l.lines+1, 0, max l.longest l.current⟩

def advance (l : Lines) (columns : ℕ) : Lines := { l with current := l.current+columns }

/-- `consume_line_character`. -/
def consume (l : Lines) (u : ℕ) : Lines := if u = '\n'.toNat then l.newline else l.advance 1

end Lines

/-- What a scan has counted. -/
structure Counts where
  tokens : ℕ
  depth : ℕ
  maxDepth : ℕ
  lines : Lines
  deriving DecidableEq, Repr

namespace Counts

def initial : Counts := ⟨0, 0, 0, ⟨1, 0, 0⟩⟩

def withLines (s : Counts) (l : Lines) : Counts := { s with lines := l }

def token (s : Counts) : Counts := { s with tokens := s.tokens+1 }

/-- A bracket opens a level; a closing one leaves a level, where there is one. -/
def bracket (s : Counts) (u : ℕ) : Counts :=
  if u = '('.toNat ∨ u = '{'.toNat ∨ u = '['.toNat then
    { s with depth := s.depth+1, maxDepth := max s.maxDepth (s.depth+1) }
  else if (u = ')'.toNat ∨ u = '}'.toNat ∨ u = ']'.toNat) ∧ 0 < s.depth then
    { s with depth := s.depth-1 }
  else s

def profile (s : Counts) (bytes : ℕ) : Profile :=
  ⟨bytes, s.tokens, s.lines.lines, s.maxDepth, max s.lines.longest s.lines.current⟩

end Counts

def isLetter (u : ℕ) : Bool :=
  ('a'.toNat ≤ u && u ≤ 'z'.toNat) || ('A'.toNat ≤ u && u ≤ 'Z'.toNat)

def isDigit (u : ℕ) : Bool := '0'.toNat ≤ u && u ≤ '9'.toNat

def isIdentifierStart (u : ℕ) : Bool := isLetter u || u = '_'.toNat

def isIdentifierPart (u : ℕ) : Bool := isLetter u || isDigit u || u = '_'.toNat

def isQuote (u : ℕ) : Bool := u = '"'.toNat || u = '\''.toNat

/-- Two brackets stand at the front. -/
def opensLong (l : List ℕ) : Bool := l.take 2 = ['['.toNat, '['.toNat]

def closesLong (l : List ℕ) : Bool := l.take 2 = [']'.toNat, ']'.toNat]

/-! The fallback. -/

namespace Fallback

/-- `/\s/`: no surrogate is a space. -/
def isSpace (u : ℕ) : Bool := isJsSpace (Char.ofNat u)

/-- The characters that a numeral goes on with. -/
def isNumeralPart (u : ℕ) : Bool :=
  ('A'.toNat ≤ u && u ≤ 'F'.toNat) || ('a'.toNat ≤ u && u ≤ 'f'.toNat) || isDigit u ||
    u = '.'.toNat || u = '_'.toNat || u = 'x'.toNat || u = 'X'.toNat || u = 'p'.toNat ||
    u = 'P'.toNat || u = '+'.toNat || u = '-'.toNat

/-- The inside of a long bracket. The two closing brackets take no columns. -/
def longBody : List ℕ → Lines → List ℕ × Lines
  | [], l => ([], l)
  | u::us, l => if closesLong (u::us) then (us.drop 1, l) else longBody us (l.consume u)

/-- The inside of a string. An escape is jumped over, and the closing quote takes no column. -/
def stringBody (quote : ℕ) : List ℕ → Lines → List ℕ × Lines
  | [], l => ([], l)
  | [u], l => if u = '\\'.toNat ∨ u = quote then ([], l) else ([], l.consume u)
  | u::v::us, l =>
      if u = '\\'.toNat then stringBody quote us l
      else if u = quote then (v::us, l)
      else stringBody quote (v::us) (l.consume u)

def step (u : ℕ) (us : List ℕ) (s : Counts) : List ℕ × Counts :=
  if u = '\n'.toNat then (us, s.withLines s.lines.newline)
  else
    let l := s.lines.advance 1
    if isSpace u then (us, s.withLines l)
    else if u = '-'.toNat ∧ us.head? = some '-'.toNat then
      if opensLong (us.drop 1) then
        let body := longBody (us.drop 3) l
        (body.1, s.withLines body.2)
      else ((us.drop 1).dropWhile (· ≠ '\n'.toNat), s.withLines l)
    else if isQuote u then
      let body := stringBody u us l
      (body.1, s.token.withLines body.2)
    else if u = '['.toNat ∧ us.head? = some '['.toNat then
      let body := longBody (us.drop 1) l
      (body.1, s.token.withLines body.2)
    else if isIdentifierStart u then (us.dropWhile isIdentifierPart, s.token.withLines l)
    else if isDigit u then (us.dropWhile isNumeralPart, s.token.withLines l)
    else (us, (s.token.withLines l).bracket u)

/-- `profileSourceJs`. -/
def profileSourceJs (text : List Char) : Profile :=
  (scanAll step (utf16 text) .initial).profile (utf8Length text)

end Fallback

/-! The native engine. -/

namespace Engine

/-- `std::isspace`. -/
def isSpace (u : ℕ) : Bool := u = ' '.toNat || ('\t'.toNat ≤ u && u ≤ '\r'.toNat)

def longBody : List ℕ → Lines → List ℕ × Lines
  | [], l => ([], l)
  | u::us, l => if closesLong (u::us) then (us.drop 1, l.advance 2) else longBody us (l.consume u)

def stringBody (quote : ℕ) : List ℕ → Lines → List ℕ × Lines
  | [], l => ([], l)
  | [u], l => if u = '\\'.toNat then ([], l.advance 1) else ([], l.consume u)
  | u::v::us, l =>
      if u = '\\'.toNat then stringBody quote us ((l.advance 1).consume v)
      else if u = quote then (v::us, l.consume u)
      else stringBody quote (v::us) (l.consume u)

/-- A sign belongs to a numeral after an exponent's letter, and after such a sign. -/
def numeral (seenExponent : Bool) : List ℕ → Lines → List ℕ × Lines
  | [], l => ([], l)
  | u::us, l =>
      let sign := u = '+'.toNat || u = '-'.toNat
      if isLetter u || isDigit u || u = '.'.toNat || u = '_'.toNat || (sign && seenExponent) then
        numeral
          (if u = 'e'.toNat || u = 'E'.toNat || u = 'p'.toNat || u = 'P'.toNat then true
            else if sign then seenExponent else false) us (l.advance 1)
      else (u::us, l)

def step (u : ℕ) (us : List ℕ) (s : Counts) : List ℕ × Counts :=
  let l := s.lines
  if isSpace u then (us, s.withLines (l.consume u))
  else if u = '-'.toNat ∧ us.head? = some '-'.toNat then
    if opensLong (us.drop 1) then
      let body := longBody (us.drop 3) ((l.advance 2).advance 2)
      (body.1, s.withLines body.2)
    else
      ((us.drop 1).dropWhile (· ≠ '\n'.toNat),
        s.withLines ((l.advance 2).advance ((us.drop 1).takeWhile (· ≠ '\n'.toNat)).length))
  else if isQuote u then
    let body := stringBody u us (l.advance 1)
    (body.1, s.token.withLines body.2)
  else if u = '['.toNat ∧ us.head? = some '['.toNat then
    let body := longBody (us.drop 1) (l.advance 2)
    (body.1, s.token.withLines body.2)
  else if isIdentifierStart u then
    ((u::us).dropWhile isIdentifierPart,
      s.token.withLines (l.advance ((u::us).takeWhile isIdentifierPart).length))
  else if isDigit u then
    let body := numeral false (u::us) l
    (body.1, s.token.withLines body.2)
  else (us, (s.token.withLines (l.advance 1)).bracket u)

/-- `scan`, with the profile that it returns. -/
def profile (bytes : List ℕ) : Profile := (scanAll step bytes .initial).profile bytes.length

end Engine
end LuaRecovery.Native
