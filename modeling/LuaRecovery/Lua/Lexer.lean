import LuaRecovery.Lua.ByteString
import Mathlib.Data.List.TakeWhile

/-!
# The lexer

`lexer/tokens.js` and `lexer/lexer.js`. One step of the scan skips blanks or a
comment, or reads a token. A bracket that opens no long string is read again,
and the columns that were counted on the way stay counted.
-/

set_option autoImplicit false

namespace LuaRecovery.Lua
open LuaRecovery.Lib

/-- What the lexer and the generator do with numbers. -/
class Numerals (N : Type) where
  /-- JavaScript's `Number(raw)`. -/
  number : List Char → N
  /-- JavaScript's `String(value)`. -/
  text : N → List Char

/-- The types of the tokens; `inherited` stands for what `KEYWORDS` has of `Object.prototype`. -/
inductive TokenType where
  | andWord
  | breakWord
  | doWord
  | elseWord
  | elseifWord
  | endWord
  | falseWord
  | forWord
  | functionWord
  | ifWord
  | inWord
  | localWord
  | nilWord
  | notWord
  | orWord
  | repeatWord
  | returnWord
  | thenWord
  | trueWord
  | untilWord
  | whileWord
  | continueWord
  | ident
  | number
  | string
  | plus
  | minus
  | star
  | slash
  | percent
  | caret
  | hash
  | eqEq
  | tildeEq
  | ltEq
  | gtEq
  | lt
  | gt
  | assign
  | lparen
  | rparen
  | lbrace
  | rbrace
  | lbracket
  | rbracket
  | semicolon
  | colon
  | comma
  | dot
  | dotDot
  | dotDotDot
  | plusEq
  | minusEq
  | starEq
  | slashEq
  | concatEq
  | eof
  | inherited (property : String)
  deriving DecidableEq

def KEYWORDS : List (String × TokenType) :=
  [("and", .andWord), ("break", .breakWord), ("do", .doWord), ("else", .elseWord),
    ("elseif", .elseifWord), ("end", .endWord), ("false", .falseWord), ("for", .forWord),
    ("function", .functionWord), ("if", .ifWord), ("in", .inWord), ("local", .localWord),
    ("nil", .nilWord), ("not", .notWord), ("or", .orWord), ("repeat", .repeatWord),
    ("return", .returnWord), ("then", .thenWord), ("true", .trueWord), ("until", .untilWord),
    ("while", .whileWord), ("continue", .continueWord)]

/-- The properties that every JavaScript object inherits. -/
def objectProperties : List String :=
  ["constructor", "__defineGetter__", "__defineSetter__", "hasOwnProperty", "__lookupGetter__",
    "__lookupSetter__", "isPrototypeOf", "propertyIsEnumerable", "toString", "valueOf",
    "__proto__", "toLocaleString"]

/-- `KEYWORDS[name]`. -/
def keyword (name : String) : Option TokenType :=
  match KEYWORDS.lookup name with
  | some type => some type
  | none => if name ∈ objectProperties then some (.inherited name) else none

inductive TokenValue (N : Type) where
  | null
  | boolean (b : Bool)
  | number (n : N)
  | bytes (s : ByteString)
  | text (s : String)

/-- A token without its place in the source. -/
structure Lexeme (N : Type) where
  type : TokenType
  value : TokenValue N
  raw : String

structure Position where
  line : ℕ
  column : ℕ
  offset : ℕ

structure Token (N : Type) extends Lexeme N where
  position : Position

structure ParseError where
  message : String
  position : Position

namespace Lexeme
variable {N : Type}

def eof : Lexeme N := ⟨.eof, .null, ""⟩

def punctuation (type : TokenType) (text : String) : Lexeme N := ⟨type, .text text, text⟩

def word (name : String) : Lexeme N :=
  match keyword name with
  | some .trueWord => ⟨.trueWord, .boolean true, name⟩
  | some .falseWord => ⟨.falseWord, .boolean false, name⟩
  | some .nilWord => ⟨.nilWord, .null, name⟩
  | some type => ⟨type, .text name, name⟩
  | none => ⟨.ident, .text name, name⟩

def numeral [Numerals N] (raw : List Char) : Lexeme N :=
  ⟨.number, .number (Numerals.number raw), String.ofList raw⟩

def quoted (raw : List Char) : Lexeme N :=
  ⟨.string, .bytes (ByteString.fromLuaLiteral raw), String.ofList raw⟩

end Lexeme

namespace Lexer

def isBlank (c : Char) : Bool := c = ' ' || c = '\t' || c = '\r' || c = '\n'

def isNameStart (c : Char) : Bool := c.isAlpha || c = '_'

def isNamePart (c : Char) : Bool := c.isAlphanum || c = '_'

def readExponent (mark : Char → Bool) (cs : List Char) : List Char × List Char :=
  match cs with
  | e::cs =>
      if mark e then
        match cs with
        | sign::cs' =>
            if sign = '+' ∨ sign = '-' then
              (e :: sign :: cs'.takeWhile Char.isDigit, cs'.dropWhile Char.isDigit)
            else (e :: cs.takeWhile Char.isDigit, cs.dropWhile Char.isDigit)
        | [] => ([e], [])
      else ([], e::cs)
  | [] => ([], [])

def isHexExponent (c : Char) : Bool := c = 'p' || c = 'P'

def isExponent (c : Char) : Bool := c = 'e' || c = 'E'

def readHexFraction : List Char → List Char × List Char
  | '.' :: cs => ('.' :: cs.takeWhile isHexDigit, cs.dropWhile isHexDigit)
  | cs => ([], cs)

/-- A number ends before two dots. -/
def readFraction : List Char → List Char × List Char
  | '.' :: cs =>
      if cs.head? = some '.' then ([], '.' :: cs)
      else ('.' :: cs.takeWhile Char.isDigit, cs.dropWhile Char.isDigit)
  | cs => ([], cs)

/-- What follows `0x`. -/
def readHex (cs : List Char) : List Char × List Char :=
  let whole := cs.takeWhile isHexDigit
  let fraction := readHexFraction (cs.dropWhile isHexDigit)
  let exponent := readExponent isHexExponent fraction.2
  (whole ++ fraction.1 ++ exponent.1, exponent.2)

def readDecimal (cs : List Char) : List Char × List Char :=
  let whole := cs.takeWhile Char.isDigit
  let fraction := readFraction (cs.dropWhile Char.isDigit)
  let exponent := readExponent isExponent fraction.2
  (whole ++ fraction.1 ++ exponent.1, exponent.2)

def readNumber (cs : List Char) : List Char × List Char :=
  match cs with
  | '0' :: 'x' :: cs => ('0' :: 'x' :: (readHex cs).1, (readHex cs).2)
  | '0' :: 'X' :: cs => ('0' :: 'X' :: (readHex cs).1, (readHex cs).2)
  | cs => readDecimal cs

/-- The text up to the quote that closes it, the quote included. -/
def readString (quote : Char) : List Char → Except String (List Char × List Char)
  | [] => .error "Unterminated string literal at EOF"
  | ['\\'] => .error "Unterminated string literal at EOF"
  | '\\' :: c::cs => do
      let (content, rest) ← readString quote cs
      return ('\\' :: c :: content, rest)
  | c::cs =>
      if c = quote then .ok ([c], cs)
      else if c = '\n' ∨ c = '\r' then .error "Unfinished string literal before newline"
      else do
        let (content, rest) ← readString quote cs
        return (c :: content, rest)

def closing (level : ℕ) : List Char := ']' :: List.replicate level '=' ++ [']']

/-- The text up to a closing sequence, the sequence included. -/
def readUntil (close : List Char) : List Char → Option (List Char × List Char)
  | [] => none
  | c::cs =>
      if close <+: c::cs then some (close, (c::cs).drop close.length)
      else (readUntil close cs).map fun (content, rest) => (c :: content, rest)

/-- What follows the first bracket: the number of its `=`, and what comes after a second bracket. -/
def longBracket (cs : List Char) : ℕ × Option (List Char) :=
  let level := (cs.takeWhile (· = '=')).length
  match cs.dropWhile (· = '=') with
  | '[' :: body => (level, some body)
  | _ => (level, none)

/-- What is left after the two dashes of a comment, and the columns that are counted twice. -/
def skipComment (cs : List Char) : List Char × ℕ :=
  match cs with
  | '[' :: cs' =>
      if cs'.head? = some '[' ∨ cs'.head? = some '=' then
        match longBracket cs' with
        | (level, some body) =>
          match readUntil (closing level) body with
          | some (_, rest) => (rest, 0)
          | none => ([], 0)
        | (level, none) => (cs.dropWhile (· ≠ '\n'), level + 1)
      else (cs.dropWhile (· ≠ '\n'), 0)
  | cs => (cs.dropWhile (· ≠ '\n'), 0)

def singleTokens (c : Char) : Option TokenType :=
  match c with
  | '+' => some .plus
  | '-' => some .minus
  | '*' => some .star
  | '/' => some .slash
  | '%' => some .percent
  | '^' => some .caret
  | '#' => some .hash
  | '=' => some .assign
  | '<' => some .lt
  | '>' => some .gt
  | '(' => some .lparen
  | ')' => some .rparen
  | '{' => some .lbrace
  | '}' => some .rbrace
  | '[' => some .lbracket
  | ']' => some .rbracket
  | ';' => some .semicolon
  | ':' => some .colon
  | ',' => some .comma
  | '.' => some .dot
  | _ => none

/-- The type of an operator, its text, and what is left of the source after its first character. -/
def readPunctuation (ch : Char) (cs : List Char) : Option (TokenType × String × List Char) :=
  match ch, cs with
  | '.', '.' :: '.' :: cs => some (.dotDotDot, "...", cs)
  | '.', '.' :: '=' :: cs => some (.concatEq, "..=", cs)
  | '=', '=' :: cs => some (.eqEq, "==", cs)
  | '~', '=' :: cs => some (.tildeEq, "~=", cs)
  | '<', '=' :: cs => some (.ltEq, "<=", cs)
  | '>', '=' :: cs => some (.gtEq, ">=", cs)
  | '.', '.' :: cs => some (.dotDot, "..", cs)
  | '+', '=' :: cs => some (.plusEq, "+=", cs)
  | '-', '=' :: cs => some (.minusEq, "-=", cs)
  | '*', '=' :: cs => some (.starEq, "*=", cs)
  | '/', '=' :: cs => some (.slashEq, "/=", cs)
  | ch, cs => (singleTokens ch).map fun type => (type, String.singleton ch, cs)

/-- What one round of the scan does. -/
inductive Scan (N : Type) where
  | blank (rest : List Char) (drift : ℕ)
  | token (t : Lexeme N) (rest : List Char) (drift : ℕ)
  | fail (message : String) (seen : List Char)

variable {N : Type}

def scanPunctuation (ch : Char) (cs : List Char) (drift : ℕ) : Scan N :=
  match readPunctuation ch cs with
  | some (type, text, rest) => .token (.punctuation type text) rest drift
  | none =>
      .fail s!"Unexpected character: '{String.singleton ch}' (ASCII {(charUnits ch).headD 0})" []

def scan [Numerals N] (ch : Char) (cs : List Char) : Scan N :=
  if isBlank ch then .blank cs 0
  else if ch = '-' ∧ cs.head? = some '-' then
    .blank (skipComment (cs.drop 1)).1 (skipComment (cs.drop 1)).2
  else if ch = '"' ∨ ch = '\'' then
    match readString ch cs with
    | .ok (content, rest) => .token (.quoted (ch :: content)) rest 0
    | .error message => .fail message []
  else if ch = '[' ∧ (cs.head? = some '[' ∨ cs.head? = some '=') then
    match longBracket cs with
    | (level, some body) =>
      match readUntil (closing level) body with
      | some (content, rest) =>
          .token (.quoted ('[' :: List.replicate level '=' ++ '[' :: content)) rest 0
      | none => .fail "Unterminated long bracket string" (ch :: cs)
    | (level, none) => scanPunctuation ch cs (level + 1)
  else if ch.isDigit ∨ (ch = '.' ∧ cs.head?.any Char.isDigit) then
    .token (.numeral (readNumber (ch :: cs)).1) (readNumber (ch :: cs)).2 0
  else if isNameStart ch then
    .token (.word (String.ofList ((ch :: cs).takeWhile isNamePart))) (cs.dropWhile isNamePart) 0
  else scanPunctuation ch cs 0

/-! What is read and what is left make up the source. -/

theorem isAlpha_eq (c : Char) :
    c.isAlpha = (decide (c.val ≥ 65 ∧ c.val ≤ 90) || decide (c.val ≥ 97) && decide (c.val ≤ 122)) :=
  rfl

theorem readExponent_append (mark : Char → Bool) (cs : List Char) :
    (readExponent mark cs).1 ++ (readExponent mark cs).2 = cs := by
  unfold readExponent
  split
  · split
    · split
      · split <;> simp [List.takeWhile_append_dropWhile]
      · rfl
    · rfl
  · rfl

theorem readHexFraction_append (cs : List Char) :
    (readHexFraction cs).1 ++ (readHexFraction cs).2 = cs := by
  unfold readHexFraction
  split
  · simp [List.takeWhile_append_dropWhile]
  · rfl

theorem readFraction_append (cs : List Char) : (readFraction cs).1 ++ (readFraction cs).2 = cs := by
  unfold readFraction
  split
  · split
    · rfl
    · simp [List.takeWhile_append_dropWhile]
  · rfl

theorem readHex_append (cs : List Char) : (readHex cs).1 ++ (readHex cs).2 = cs := by
  simp only [readHex, List.append_assoc]
  rw [readExponent_append, readHexFraction_append, List.takeWhile_append_dropWhile]

theorem readDecimal_append (cs : List Char) : (readDecimal cs).1 ++ (readDecimal cs).2 = cs := by
  simp only [readDecimal, List.append_assoc]
  rw [readExponent_append, readFraction_append, List.takeWhile_append_dropWhile]

theorem readNumber_append (cs : List Char) : (readNumber cs).1 ++ (readNumber cs).2 = cs := by
  unfold readNumber
  split
  · simp [readHex_append]
  · simp [readHex_append]
  · exact readDecimal_append _

theorem readString_append {quote : Char} {cs content rest : List Char}
    (h : readString quote cs = .ok (content, rest)) : content ++ rest = cs := by
  fun_induction readString quote cs generalizing content rest with
  | case1 => cases h
  | case2 => cases h
  | case3 c cs ih =>
    cases hread : readString quote cs with
    | error message =>
      rw [hread] at h
      cases h
    | ok result =>
      rw [hread] at h
      cases h
      simp [ih hread]
  | case4 cs hquote =>
    cases h
    rfl
  | case5 c cs _ _ => cases h
  | case6 c cs _ _ _ _ ih =>
    cases hread : readString quote cs with
    | error message =>
      rw [hread] at h
      cases h
    | ok result =>
      rw [hread] at h
      cases h
      simp [ih hread]

theorem readUntil_append {close cs content rest : List Char}
    (h : readUntil close cs = some (content, rest)) : content ++ rest = cs := by
  induction cs generalizing content with
  | nil => cases h
  | cons c cs ih =>
    unfold readUntil at h
    split at h
    next hclose =>
      cases h
      exact List.prefix_iff_eq_append.mp hclose
    next =>
      obtain ⟨⟨content', rest'⟩, hread, heq⟩ := Option.map_eq_some_iff.mp h
      cases heq
      simp [ih hread]

theorem longBracket_append {cs body : List Char} {level : ℕ}
    (h : longBracket cs = (level, some body)) : List.replicate level '=' ++ '[' :: body = cs := by
  unfold longBracket at h
  dsimp only at h
  split at h
  next hdrop =>
    cases h
    have hequals : cs.takeWhile (· = '=') = List.replicate (cs.takeWhile (· = '=')).length '=' :=
      List.eq_replicate_length.mpr fun c hc => by simpa using List.mem_takeWhile_imp hc
    rw [← hequals, ← hdrop, List.takeWhile_append_dropWhile]
  next => cases h

theorem skipComment_suffix (cs : List Char) : (skipComment cs).1 <:+ cs := by
  unfold skipComment
  split
  next cs' =>
    split
    · split
      next level body hbracket =>
        have hbody := longBracket_append hbracket
        split
        next content rest hread =>
          refine ⟨'[' :: List.replicate level '=' ++ '[' :: content, ?_⟩
          rw [← hbody, ← readUntil_append hread]
          simp
        next => exact List.nil_suffix
      next => exact List.dropWhile_suffix _
    · exact List.dropWhile_suffix _
  next => exact List.dropWhile_suffix _

theorem readPunctuation_append {ch : Char} {cs rest : List Char} {type : TokenType} {text : String}
    (h : readPunctuation ch cs = some (type, text, rest)) :
    ∃ raw, text.toList = ch :: raw ∧ raw ++ rest = cs := by
  unfold readPunctuation at h
  split at h
  case h_12 =>
    obtain ⟨type, -, heq⟩ := Option.map_eq_some_iff.mp h
    cases heq
    exact ⟨[], by simp, rfl⟩
  all_goals
    cases h
    exact ⟨_, rfl, rfl⟩

theorem readNumber_head {ch : Char} {cs : List Char}
    (h : ch.isDigit = true ∨ (ch = '.' ∧ cs.head?.any Char.isDigit = true)) :
    ∃ raw, (readNumber (ch :: cs)).1 = ch :: raw := by
  unfold readNumber
  split
  next heq =>
    cases heq
    exact ⟨_, rfl⟩
  next heq =>
    cases heq
    exact ⟨_, rfl⟩
  next heq =>
    rcases h with hdigit | ⟨rfl, hdigit⟩
    · simp [readDecimal, hdigit]
    · have hdot : cs.head? ≠ some '.' := by
        intro hdot
        rw [hdot] at hdigit
        cases hdigit
      simp [readDecimal, readFraction, hdot, List.takeWhile, List.dropWhile,
        show Char.isDigit '.' = false from rfl]

theorem scanPunctuation_token {ch : Char} {cs rest : List Char} {t : Lexeme N} {drift drift' : ℕ}
    (h : scanPunctuation ch cs drift' = .token t rest drift) :
    ∃ raw, t.raw.toList = ch :: raw ∧ raw ++ rest = cs := by
  unfold scanPunctuation at h
  split at h
  next type text rest' hread =>
    cases h
    exact readPunctuation_append hread
  next => cases h

theorem isNamePart_of_start {ch : Char} (h : isNameStart ch = true) : isNamePart ch = true := by
  unfold isNameStart at h
  unfold isNamePart
  cases halpha : ch.isAlpha <;> simp_all [Char.isAlphanum]

@[simp] theorem raw_word (name : String) : (Lexeme.word name : Lexeme N).raw = name := by
  unfold Lexeme.word
  split <;> rfl

section
variable [Numerals N]

/-- A token's text is what the scan has read. -/
theorem scan_token {ch : Char} {cs rest : List Char} {t : Lexeme N} {drift : ℕ}
    (h : scan ch cs = .token t rest drift) :
    ∃ raw, t.raw.toList = ch :: raw ∧ raw ++ rest = cs := by
  unfold scan at h
  split at h
  · cases h
  split at h
  · cases h
  split at h
  · split at h
    next content rest hread =>
      cases h
      exact ⟨content, by simp [Lexeme.quoted], readString_append hread⟩
    next => cases h
  split at h
  next hopen =>
    split at h
    next level body hbracket =>
      split at h
      next content rest hread =>
        cases h
        refine ⟨List.replicate level '=' ++ '[' :: content, by simp [Lexeme.quoted, hopen.1], ?_⟩
        have hbody := longBracket_append hbracket
        rw [← readUntil_append hread] at hbody
        simpa using hbody
      next => cases h
    next => exact scanPunctuation_token h
  split at h
  next hdigit =>
    cases h
    obtain ⟨raw, hraw⟩ := readNumber_head hdigit
    have happend := readNumber_append (ch :: cs)
    rw [hraw, List.cons_append, List.cons.injEq] at happend
    exact ⟨raw, by simp [Lexeme.numeral, hraw], happend.2⟩
  split at h
  next hname =>
    cases h
    refine ⟨cs.takeWhile isNamePart, ?_, List.takeWhile_append_dropWhile⟩
    simp [isNamePart_of_start hname]
  next => exact scanPunctuation_token h

theorem scan_blank {ch : Char} {cs rest : List Char} {drift : ℕ}
    (h : (scan ch cs : Scan N) = .blank rest drift) : rest <:+ cs := by
  unfold scan at h
  split at h
  · cases h
    exact List.suffix_rfl
  split at h
  · cases h
    exact (skipComment_suffix _).trans (List.drop_suffix 1 cs)
  split at h
  · split at h <;> cases h
  split at h
  · split at h
    · split at h <;> cases h
    · unfold scanPunctuation at h
      split at h <;> cases h
  split at h
  · cases h
  split at h
  · cases h
  · unfold scanPunctuation at h
    split at h <;> cases h

end
end Lexer

def Position.advance (p : Position) (c : Char) : Position :=
  if c = '\n' then ⟨p.line + 1, 1, p.offset + 1⟩
  else ⟨p.line, p.column + (charUnits c).length, p.offset + (charUnits c).length⟩

def Position.past (p : Position) (cs : List Char) : Position := cs.foldl Position.advance p

def Position.drifted (p : Position) (drift : ℕ) : Position := { p with column := p.column + drift }

namespace Lexer
variable {N : Type} [Numerals N]

/-- The tokens of a source from a place on. -/
def tokenizeFrom (p : Position) (cs : List Char) : Except ParseError (List (Token N)) :=
  match cs with
  | [] => .ok [⟨.eof, p⟩]
  | ch::cs =>
    match h : (scan ch cs : Scan N) with
    | .blank rest drift =>
        tokenizeFrom ((p.past ((ch::cs).take (cs.length + 1 - rest.length))).drifted drift) rest
    | .token t rest drift => do
        let start := p.drifted drift
        let tokens ← tokenizeFrom (start.past t.raw.toList) rest
        return ⟨t, start⟩ :: tokens
    | .fail message seen =>
        .error ⟨message, { p.past seen with offset := p.offset }⟩
termination_by cs.length
decreasing_by
  · have hle := (scan_blank h).length_le
    simp only [List.length_cons]
    omega
  · obtain ⟨raw, -, rfl⟩ := scan_token h
    simp only [List.length_append, List.length_cons]
    omega

def tokenize (source : String) : Except ParseError (List (Token N)) :=
  tokenizeFrom ⟨1, 1, 0⟩ source.toList

/-- Wherever a source starts, its tokens are the given ones and the end of the file. -/
def Lexes (cs : List Char) (ts : List (Lexeme N)) : Prop :=
  ∀ p, ∃ tokens : List (Token N), tokenizeFrom p cs = .ok tokens ∧
    tokens.map Token.toLexeme = ts ++ [.eof]

theorem lexes_nil : Lexes [] ([] : List (Lexeme N)) := by
  intro p
  rw [tokenizeFrom]
  exact ⟨_, rfl, rfl⟩

theorem Lexes.token {ch : Char} {cs rest : List Char} {t : Lexeme N} {ts : List (Lexeme N)}
    {drift : ℕ} (h : Lexes rest ts) (hscan : scan ch cs = .token t rest drift) :
    Lexes (ch :: cs) (t :: ts) := by
  intro p
  rw [tokenizeFrom]
  split
  next heq =>
    rw [hscan] at heq
    cases heq
  next t' rest' drift' heq =>
    rw [hscan] at heq
    cases heq
    obtain ⟨tokens, hok, hmap⟩ := h ((p.drifted drift).past t.raw.toList)
    simp only [hok]
    exact ⟨_, rfl, by simp [hmap]⟩
  next heq =>
    rw [hscan] at heq
    cases heq

theorem Lexes.blank {ch : Char} {cs rest : List Char} {ts : List (Lexeme N)} {drift : ℕ}
    (h : Lexes rest ts) (hscan : (scan ch cs : Scan N) = .blank rest drift) :
    Lexes (ch :: cs) ts := by
  intro p
  rw [tokenizeFrom]
  split
  next rest' drift' heq =>
    rw [hscan] at heq
    cases heq
    exact h _
  next heq =>
    rw [hscan] at heq
    cases heq
  next heq =>
    rw [hscan] at heq
    cases heq

end Lexer
end LuaRecovery.Lua
