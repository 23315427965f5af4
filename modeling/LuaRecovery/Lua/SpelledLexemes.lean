import LuaRecovery.Lua.LiteralMeaning

/-!
# Lexing what is spelled

The lexemes of the language by their spellings, each with the token it should
be, and the lexer on a list of them with single spaces in between.
-/

set_option autoImplicit false

namespace LuaRecovery.Lua
open Lexer

section Spellings

def AreDigits (p : Char → Bool) (ds : List Char) : Prop := ∀ d ∈ ds, p d = true

/-- Nothing, or a mark, perhaps a sign, and digits. -/
inductive ExponentPart (mark : Char → Bool) : List Char → Prop
  | absent : ExponentPart mark []
  | marked {e : Char} {sign ds : List Char} : mark e = true →
      sign = [] ∨ sign = ['+'] ∨ sign = ['-'] → ds ≠ [] → AreDigits Char.isDigit ds →
      ExponentPart mark (e :: sign ++ ds)

/-- Digits with perhaps a dot among them, at least one digit. -/
inductive Mantissa (p : Char → Bool) : List Char → List Char → Prop
  | whole {ds : List Char} : ds ≠ [] → AreDigits p ds → Mantissa p ds []
  | fraction {ds fs : List Char} : ds ≠ [] ∨ fs ≠ [] → AreDigits p ds → AreDigits p fs →
      Mantissa p ds ('.' :: fs)

inductive Numeral : List Char → Prop
  | decimal {ds fraction exponent : List Char} : Mantissa Char.isDigit ds fraction →
      ExponentPart isExponent exponent → Numeral (ds ++ fraction ++ exponent)
  | hex {x : Char} {ds fraction exponent : List Char} : x = 'x' ∨ x = 'X' →
      Mantissa isHexDigit ds fraction → ExponentPart isHexExponent exponent →
      Numeral ('0' :: x :: (ds ++ fraction ++ exponent))

/-- What may stand between quotes: a backslash takes the next character with it. -/
inductive QuotedContent (quote : Char) : List Char → Prop
  | nil : QuotedContent quote []
  | plain {c : Char} {content : List Char} : c ≠ quote → c ≠ '\\' → c ≠ '\n' → c ≠ '\r' →
      QuotedContent quote content → QuotedContent quote (c::content)
  | escape {c : Char} {content : List Char} : QuotedContent quote content →
      QuotedContent quote ('\\' :: c::content)

def longOperators : List (TokenType × List Char) :=
  [(.dotDotDot, ['.', '.', '.']), (.concatEq, ['.', '.', '='])]

def pairOperators : List (TokenType × List Char) :=
  [(.eqEq, ['=', '=']), (.tildeEq, ['~', '=']), (.ltEq, ['<', '=']), (.gtEq, ['>', '=']),
    (.dotDot, ['.', '.']), (.plusEq, ['+', '=']), (.minusEq, ['-', '=']), (.starEq, ['*', '=']),
    (.slashEq, ['/', '='])]

def singleOperators : List (TokenType × List Char) :=
  [(.plus, ['+']), (.minus, ['-']), (.star, ['*']), (.slash, ['/']), (.percent, ['%']),
    (.caret, ['^']), (.hash, ['#']), (.assign, ['=']), (.lt, ['<']), (.gt, ['>']),
    (.lparen, ['(']), (.rparen, [')']), (.lbrace, ['{']), (.rbrace, ['}']),
    (.lbracket, ['[']), (.rbracket, [']']), (.semicolon, [';']), (.colon, [':']), (.comma, [',']),
    (.dot, ['.'])]

/-- The operators and punctuation marks of `TokenType`. -/
def operators : List (TokenType × List Char) := longOperators ++ pairOperators ++ singleOperators

/-- A lexeme by its spelling. -/
inductive Spelled where
  | word (name : List Char) (isWord : IsWord name)
  | numeral (raw : List Char) (isNumeral : Numeral raw)
  | quoted (quote : Char) (isQuote : quote = '"' ∨ quote = '\'') (content : List Char)
      (isContent : QuotedContent quote content)
  | long (level : ℕ) (content : List Char) (first : FirstAt (closing level) content)
  | operator (type : TokenType) (text : List Char) (isOperator : (type, text) ∈ operators)

namespace Spelled

def text : Spelled → List Char
  | word name _ => name
  | numeral raw _ => raw
  | quoted quote _ content _ => quote :: content ++ [quote]
  | long level content _ =>
      '[' :: List.replicate level '=' ++ '[' :: content ++ closing level
  | operator _ text _ => text

/-- The token of a word: a keyword if it is listed as one, and else an identifier. -/
def wordToken {N : Type} (name : String) : Lexeme N :=
  match KEYWORDS.lookup name with
  | some .trueWord => ⟨.trueWord, .boolean true, name⟩
  | some .falseWord => ⟨.falseWord, .boolean false, name⟩
  | some .nilWord => ⟨.nilWord, .null, name⟩
  | some type => ⟨type, .text name, name⟩
  | none => ⟨.ident, .text name, name⟩

/-- The token that the spelling stands for. -/
def token {N : Type} [Numerals N] : Spelled → Lexeme N
  | word name _ => wordToken (String.ofList name)
  | numeral raw _ => .numeral raw
  | quoted quote _ content _ => .quoted (quote :: content ++ [quote])
  | long level content _ =>
      .quoted ('[' :: List.replicate level '=' ++ '[' :: content ++ closing level)
  | operator type text _ => .punctuation type (String.ofList text)

/-- The token that the lexer makes of it. -/
def lexed {N : Type} [Numerals N] : Spelled → Lexeme N
  | word name _ => .word (String.ofList name)
  | spelled => spelled.token

/-- The word is spelled like a property that every JavaScript object has. -/
def IsInherited : Spelled → Prop
  | word name _ => String.ofList name ∈ objectProperties
  | _ => False

end Spelled

/-- The lexemes with single spaces in between. -/
def joined (ls : List Spelled) : List Char := [' '].intercalate (ls.map Spelled.text)

end Spellings

section Operators

theorem readPunctuation_long {e : TokenType × List Char} (he : e ∈ longOperators) {ch : Char}
    {cs : List Char} (h : e.2 <+: ch::cs) :
    ∃ text rest, readPunctuation ch cs = some (e.1, text, rest) ∧ text.length = e.2.length := by
  simp only [longOperators, List.mem_cons, List.not_mem_nil, or_false] at he
  rcases he with rfl | rfl
  · obtain ⟨rest, heq⟩ := h
    cases heq
    exact ⟨_, rest, rfl, by decide⟩
  · obtain ⟨rest, heq⟩ := h
    cases heq
    exact ⟨_, rest, rfl, by decide⟩

/-- Two dots are read as such, or as a part of a longer operator. -/
theorem readPunctuation_dots (cs : List Char) :
    ∃ type text rest, readPunctuation '.' ('.' :: cs) = some (type, text, rest) ∧
      2 ≤ text.length := by
  unfold readPunctuation
  split
  case h_12 => simp_all
  all_goals exact ⟨_, _, _, rfl, by decide⟩

theorem readPunctuation_pair {e : TokenType × List Char} (he : e ∈ pairOperators) {ch : Char}
    {cs : List Char} (h : e.2 <+: ch::cs) :
    ∃ type text rest, readPunctuation ch cs = some (type, text, rest) ∧ 2 ≤ text.length := by
  obtain ⟨rest, heq⟩ := h
  simp only [pairOperators, List.mem_cons, List.not_mem_nil, or_false] at he
  rcases he with rfl | rfl | rfl | rfl | rfl | rfl | rfl | rfl | rfl
  case inr.inr.inr.inr.inl =>
    cases heq
    exact readPunctuation_dots rest
  all_goals
    cases heq
    exact ⟨_, _, rest, rfl, by decide⟩

theorem singleTokens_mem {c : Char} {type : TokenType} (h : singleTokens c = some type) :
    (type, [c]) ∈ singleOperators := by
  unfold singleTokens at h
  split at h <;> cases h <;> decide

theorem readPunctuation_mem {ch : Char} {cs rest : List Char} {type : TokenType} {text : String}
    (h : readPunctuation ch cs = some (type, text, rest)) : (type, text.toList) ∈ operators := by
  unfold readPunctuation at h
  split at h
  case h_12 =>
    obtain ⟨type, hsingle, heq⟩ := Option.map_eq_some_iff.mp h
    cases heq
    rw [String.toList_singleton]
    exact List.mem_append_right _ (singleTokens_mem hsingle)
  all_goals
    cases h
    decide

/-- An operator is the longest one that the source goes on with. -/
def LongestMatch : Prop :=
  ∀ ch cs type text rest, readPunctuation ch cs = some (type, text, rest) →
    (type, text.toList) ∈ operators ∧ text.toList ++ rest = ch::cs ∧
      ∀ e ∈ operators, e.2 <+: ch::cs → e.2.length ≤ text.length

theorem longestMatch : LongestMatch := by
  intro ch cs type text rest h
  obtain ⟨raw, htext, hrest⟩ := readPunctuation_append h
  have hmem := readPunctuation_mem h
  refine ⟨hmem, by rw [htext, List.cons_append, hrest], fun e he hprefix => ?_⟩
  have hpositive : ∀ e ∈ operators, 1 ≤ e.2.length := by decide
  have hpositive : 1 ≤ text.length := by
    rw [← String.length_toList]
    exact hpositive (type, text.toList) hmem
  rcases List.mem_append.mp he with he | he
  · rcases List.mem_append.mp he with he | he
    · obtain ⟨text', rest', hread, hlength⟩ := readPunctuation_long he hprefix
      rw [h] at hread
      cases hread
      exact hlength.ge
    · have htwo : ∀ e ∈ pairOperators, e.2.length = 2 := by decide
      obtain ⟨type', text', rest', hread, hlength⟩ := readPunctuation_pair he hprefix
      rw [h] at hread
      cases hread
      rw [htwo e he]
      exact hlength
  · have hone : ∀ e ∈ singleOperators, e.2.length = 1 := by decide
    rw [hone e he]
    exact hpositive

end Operators

section Words
variable {N : Type}

/-- Only a word that every object has as a property is not the token it should be. -/
theorem word_eq_wordToken_iff (name : String) :
    (Lexeme.word name : Lexeme N) = Spelled.wordToken name ↔ name ∉ objectProperties := by
  have hdisjoint : ∀ word ∈ objectProperties, KEYWORDS.lookup word = none := by decide
  cases hlookup : KEYWORDS.lookup name with
  | some type =>
    have hkeyword : keyword name = some type := by rw [keyword, hlookup]
    have hnot : name ∉ objectProperties := by
      intro hmem
      rw [hdisjoint name hmem] at hlookup
      cases hlookup
    have heq : (Lexeme.word name : Lexeme N) = Spelled.wordToken name := by
      cases type <;> simp only [Lexeme.word, Spelled.wordToken, hkeyword, hlookup]
    simp [heq, hnot]
  | none =>
    have hexpected : (Spelled.wordToken name : Lexeme N) = ⟨.ident, .text name, name⟩ := by
      rw [Spelled.wordToken, hlookup]
    rw [hexpected]
    by_cases hmem : name ∈ objectProperties
    · have hword : (Lexeme.word name : Lexeme N) = ⟨.inherited name, .text name, name⟩ := by
        rw [Lexeme.word, keyword, hlookup]
        simp [hmem]
      rw [hword]
      simp [hmem]
    · have hword : (Lexeme.word name : Lexeme N) = ⟨.ident, .text name, name⟩ := by
        rw [Lexeme.word, keyword, hlookup]
        simp [hmem]
      simp [hword, hmem]

end Words

section Numbers

theorem readExponent_part {mark : Char → Bool} {exponent : List Char}
    (h : ExponentPart mark exponent) : readExponent mark exponent = (exponent, []) := by
  cases h with
  | absent => rfl
  | @marked e sign ds he hsign hne hdigits =>
    obtain ⟨d, ds, rfl⟩ := List.exists_cons_of_ne_nil hne
    have htake : (d::ds).takeWhile Char.isDigit = d::ds := List.takeWhile_eq_self_iff.mpr hdigits
    have hdrop : (d::ds).dropWhile Char.isDigit = [] := List.dropWhile_eq_nil_iff.mpr hdigits
    have hd : d ≠ '+' ∧ d ≠ '-' := by
      have hdigit := hdigits d (by simp)
      constructor <;> (rintro rfl; cases hdigit)
    rcases hsign with rfl | rfl | rfl
    · simp [readExponent, he, hd, htake, hdrop]
    · simp [readExponent, he, htake, hdrop]
    · simp [readExponent, he, htake, hdrop]

/-- What follows the digits of a number, in which no digit comes first. -/
def Stops (p : Char → Bool) (cs : List Char) : Prop := ∀ c ∈ cs.head?, p c = false

theorem ExponentPart.stops {mark p : Char → Bool} {exponent : List Char}
    (h : ExponentPart mark exponent) (hmark : ∀ c, mark c = true → p c = false) :
    Stops p exponent := by
  cases h with
  | absent => exact fun c hc => by cases hc
  | marked he =>
    intro c hc
    cases hc
    exact hmark _ he

theorem Mantissa.stops {p : Char → Bool} {ds fraction exponent : List Char}
    (h : Mantissa p ds fraction) (hdot : p '.' = false) (hexponent : Stops p exponent) :
    Stops p (fraction ++ exponent) := by
  cases h with
  | whole => exact hexponent
  | fraction =>
    intro c hc
    cases hc
    exact hdot

theorem Mantissa.digits {p : Char → Bool} {ds fraction : List Char} (h : Mantissa p ds fraction) :
    AreDigits p ds := by
  cases h with
  | whole _ hds => exact hds
  | fraction _ hds _ => exact hds

theorem takeWhile_digits {p : Char → Bool} {ds rest : List Char} (hds : AreDigits p ds)
    (hrest : Stops p rest) :
    (ds++rest).takeWhile p = ds ∧ (ds++rest).dropWhile p = rest := by
  rw [takeWhile_append_stop hrest, dropWhile_append_stop hrest,
    List.takeWhile_eq_self_iff.mpr hds, List.dropWhile_eq_nil_iff.mpr hds]
  exact ⟨rfl, List.nil_append _⟩

theorem isExponent_cases {c : Char} (h : isExponent c = true) : c = 'e' ∨ c = 'E' := by
  simpa [isExponent] using h

theorem isHexExponent_cases {c : Char} (h : isHexExponent c = true) : c = 'p' ∨ c = 'P' := by
  simpa [isHexExponent] using h

theorem exponent_not_digit (c : Char) (h : isExponent c = true) : c.isDigit = false := by
  rcases isExponent_cases h with rfl | rfl <;> rfl

theorem hexExponent_not_digit (c : Char) (h : isHexExponent c = true) : isHexDigit c = false := by
  rcases isHexExponent_cases h with rfl | rfl <;> rfl

/-- An exponent does not begin with a dot. -/
theorem ExponentPart.head_ne_dot {mark : Char → Bool} {exponent : List Char}
    (h : ExponentPart mark exponent) (hmark : mark '.' = false) : exponent.head? ≠ some '.' := by
  cases h with
  | absent => simp
  | @marked e sign ds he =>
    intro hhead
    have hdot : e = '.' := by simpa using hhead
    rw [hdot, hmark] at he
    cases he

theorem readFraction_part {ds fraction exponent : List Char}
    (h : Mantissa Char.isDigit ds fraction) (he : ExponentPart isExponent exponent) :
    readFraction (fraction ++ exponent) = (fraction, exponent) := by
  have hhead := he.head_ne_dot rfl
  cases h with
  | whole =>
    cases exponent with
    | nil => rfl
    | cons c exponent =>
      have hc : c ≠ '.' := by simpa using hhead
      rw [List.nil_append, readFraction]
      exact fun cs heq => hc (List.cons.inj heq).1
  | @fraction fs _ _ hfs =>
    obtain ⟨htake, hdrop⟩ := takeWhile_digits hfs (he.stops exponent_not_digit)
    have hdot : (fs ++ exponent).head? ≠ some '.' := by
      cases fs with
      | nil => exact hhead
      | cons d fs =>
        intro heq
        have hd : d = '.' := by simpa using heq
        have hdigit := hfs d (by simp)
        rw [hd] at hdigit
        cases hdigit
    rw [List.cons_append, readFraction, if_neg hdot, htake, hdrop]

theorem readHexFraction_part {ds fraction exponent : List Char}
    (h : Mantissa isHexDigit ds fraction) (he : ExponentPart isHexExponent exponent) :
    readHexFraction (fraction ++ exponent) = (fraction, exponent) := by
  cases h with
  | whole =>
    cases exponent with
    | nil => rfl
    | cons c exponent =>
      have hc : c ≠ '.' := by simpa using he.head_ne_dot rfl
      rw [List.nil_append, readHexFraction]
      exact fun cs heq => hc (List.cons.inj heq).1
  | @fraction fs _ _ hfs =>
    obtain ⟨htake, hdrop⟩ := takeWhile_digits hfs (he.stops hexExponent_not_digit)
    rw [List.cons_append, readHexFraction, htake, hdrop]

/-- A number starts with a digit, or with a dot and a digit. -/
theorem Mantissa.starts {ds fraction : List Char} (h : Mantissa Char.isDigit ds fraction)
    (exponent : List Char) : ∃ c cs, ds ++ fraction ++ exponent = c::cs ∧
      (c.isDigit = true ∨ (c = '.' ∧ cs.head?.any Char.isDigit = true)) := by
  have hdigits := h.digits
  cases ds with
  | cons d ds => exact ⟨d, _, rfl, Or.inl (hdigits d (by simp))⟩
  | nil =>
    cases h with
    | whole hne => exact absurd rfl hne
    | @fraction fs hne _ hfs =>
      obtain ⟨f, fs, rfl⟩ := List.exists_cons_of_ne_nil (hne.resolve_left (fun h => h rfl))
      exact ⟨'.', _, rfl, Or.inr ⟨rfl, by simpa using hfs f (by simp)⟩⟩

/-- A decimal number is not taken for a hexadecimal one. -/
theorem decimal_ne_hex {ds fraction exponent : List Char} (h : Mantissa Char.isDigit ds fraction)
    (he : ExponentPart isExponent exponent) (x : Char) (hx : x = 'x' ∨ x = 'X') (cs : List Char) :
    ds ++ fraction ++ exponent ≠ '0' :: x::cs := by
  intro heq
  obtain ⟨htake, hdrop⟩ := takeWhile_digits h.digits
    (h.stops rfl (he.stops exponent_not_digit))
  rw [List.append_assoc] at heq
  rw [heq] at htake hdrop
  have hxdigit : x.isDigit = false := by rcases hx with rfl | rfl <;> rfl
  have hrest : fraction ++ exponent = x::cs := by
    rw [← hdrop, List.dropWhile_cons_of_pos rfl, List.dropWhile_cons_of_neg (by simp [hxdigit])]
  cases h with
  | fraction =>
    have hdot : '.' = x := (List.cons.inj hrest).1
    rcases hx with rfl | rfl <;> cases hdot
  | whole =>
    cases he with
    | absent => cases hrest
    | marked hmark =>
      obtain ⟨rfl, -⟩ := List.cons.inj hrest
      rcases hx with rfl | rfl <;> cases hmark

theorem Numeral.isNumeral {raw : List Char} (h : Numeral raw) : IsNumeral raw := by
  cases h with
  | @decimal ds fraction exponent h he =>
    refine ⟨h.starts exponent, ?_⟩
    obtain ⟨htake, hdrop⟩ := takeWhile_digits h.digits
      (h.stops rfl (he.stops exponent_not_digit))
    have hread : readDecimal (ds ++ fraction ++ exponent) = (ds ++ fraction ++ exponent, []) := by
      rw [List.append_assoc, readDecimal, htake, hdrop]
      simp only [readFraction_part h he, readExponent_part he, List.append_assoc]
    unfold readNumber
    split
    next cs heq => exact absurd heq (decimal_ne_hex h he 'x' (Or.inl rfl) cs)
    next cs heq => exact absurd heq (decimal_ne_hex h he 'X' (Or.inr rfl) cs)
    next => exact hread
  | @hex x ds fraction exponent hx h he =>
    refine ⟨⟨'0', _, rfl, Or.inl rfl⟩, ?_⟩
    obtain ⟨htake, hdrop⟩ := takeWhile_digits h.digits
      (h.stops rfl (he.stops hexExponent_not_digit))
    have hread : readHex (ds ++ fraction ++ exponent) = (ds ++ fraction ++ exponent, []) := by
      rw [List.append_assoc, readHex, htake, hdrop]
      simp only [readHexFraction_part h he, readExponent_part he, List.append_assoc]
    rcases hx with rfl | rfl
    · rw [readNumber, hread]
    · rw [readNumber, hread]

end Numbers

section Strings

theorem readString_content {quote : Char} (hq : quote = '"' ∨ quote = '\'') {content : List Char}
    (h : QuotedContent quote content) (rest : List Char) :
    readString quote (content ++ quote :: rest) = .ok (content ++ [quote], rest) := by
  induction h with
  | nil => rcases hq with rfl | rfl <;> rfl
  | plain hquote hslash hn hr _ ih => exact readString_plain ih hslash hquote hn hr
  | escape _ ih => exact readString_escape ih _

theorem scan_quote {N : Type} [Numerals N] {quote : Char} (hq : quote = '"' ∨ quote = '\'')
    {content cs rest : List Char} (h : readString quote cs = .ok (content, rest)) :
    (scan quote cs : Scan N) = .token (.quoted (quote::content)) rest 0 := by
  rcases hq with rfl | rfl
  · simp [scan, isBlank, h]
  · simp [scan, isBlank, h]

end Strings

section Lists
variable {N : Type} [Numerals N] {cs : List Char} {ts : List (Lexeme N)}

/-- The source ends here, or goes on with a space. -/
def Spaced (cs : List Char) : Prop := cs = [] ∨ ∃ rest, cs = ' ' :: rest

theorem Spaced.numberEnd (h : Spaced cs) : NumberEnd cs := by
  rcases h with rfl | ⟨rest, rfl⟩
  · intro c hc
    cases hc
  · intro c hc
    cases hc
    exact ⟨rfl, by decide⟩

theorem lexes_operatorText {e : TokenType × List Char} (he : e ∈ operators) (hcs : Spaced cs)
    (h : Lexes cs ts) : Lexes (e.2 ++ cs) (.punctuation e.1 (String.ofList e.2) :: ts) := by
  simp only [operators, longOperators, pairOperators, singleOperators, List.cons_append,
    List.nil_append, List.mem_cons, List.not_mem_nil, or_false] at he
  rcases hcs with rfl | ⟨rest, rfl⟩
  all_goals
    rcases he with rfl | rfl | rfl | rfl | rfl | rfl | rfl | rfl | rfl | rfl | rfl | rfl | rfl | rfl | rfl | rfl |
      rfl | rfl | rfl | rfl | rfl | rfl | rfl | rfl | rfl | rfl | rfl | rfl | rfl | rfl | rfl
    all_goals
      exact lexes_punctuation rfl rfl (by simp) (by decide) (by simp) ⟨rfl, fun _ => rfl⟩ rfl h

theorem lexes_spelled (l : Spelled) (hcs : Spaced cs) (h : Lexes cs ts) :
    Lexes (l.text ++ cs) (l.lexed :: ts) := by
  cases l with
  | word name hword => exact lexes_word hword hcs.numberEnd.wordEnd h
  | numeral raw hraw => exact lexes_numeral hraw.isNumeral hcs.numberEnd h
  | quoted quote hq content hcontent =>
    have hread := scan_quote (N := N) hq (readString_content hq hcontent cs)
    rw [← List.cons_append] at hread
    simpa [Spelled.text, Spelled.lexed, Spelled.token] using h.token hread
  | long level content hfirst =>
    simpa [Spelled.text, Spelled.lexed, Spelled.token] using h.token (scan_long hfirst cs)
  | operator type text hoperator => exact lexes_operatorText hoperator hcs h

theorem lexes_joined (ls : List Spelled) :
    Lexes (joined ls) (ls.map Spelled.lexed : List (Lexeme N)) := by
  induction ls with
  | nil => exact lexes_nil
  | cons l ls ih =>
    cases ls with
    | nil => simpa [joined] using lexes_spelled l (Or.inl rfl) lexes_nil
    | cons l' ls =>
      have hrest := lexes_blank (c := ' ') rfl ih
      have hall := lexes_spelled l (Or.inr ⟨_, rfl⟩) hrest
      simpa [joined, List.intercalate_cons_cons] using hall

theorem lexed_eq_token_iff (l : Spelled) :
    (l.lexed : Lexeme N) = l.token ↔ ¬ l.IsInherited := by
  cases l with
  | word name hword => exact word_eq_wordToken_iff _
  | numeral => exact iff_of_true rfl id
  | quoted => exact iff_of_true rfl id
  | long => exact iff_of_true rfl id
  | operator => exact iff_of_true rfl id

/-- `tokenize` gives the tokens of the spelled lexemes, and every operator is the longest one. -/
def LexesAsSpelled (N : Type) [Numerals N] (ls : List Spelled) : Prop :=
  (∃ tokens : List (Token N), tokenize (String.ofList (joined ls)) = .ok tokens ∧
    tokens.map Token.toLexeme = ls.map Spelled.token ++ [.eof]) ∧ LongestMatch

theorem lexesAsSpelled_iff_same (ls : List Spelled) :
    LexesAsSpelled N ls ↔ (ls.map Spelled.lexed : List (Lexeme N)) = ls.map Spelled.token := by
  obtain ⟨tokens, hok, hmap⟩ := lexes_joined (N := N) ls ⟨1, 1, 0⟩
  have htokenize : tokenize (String.ofList (joined ls)) = .ok tokens := by
    rw [tokenize, String.toList_ofList, hok]
  constructor
  · rintro ⟨⟨tokens', hok', hmap'⟩, -⟩
    rw [htokenize] at hok'
    cases hok'
    rw [hmap, List.append_left_inj] at hmap'
    exact hmap'
  · intro heq
    exact ⟨⟨tokens, htokenize, by rw [hmap, heq]⟩, longestMatch⟩

/-- The lexer inverts spelling exactly for lists without a word that is spelled like a property of
`Object.prototype`. -/
theorem lexesAsSpelled_iff (ls : List Spelled) :
    LexesAsSpelled N ls ↔ ∀ l ∈ ls, ¬ l.IsInherited := by
  rw [lexesAsSpelled_iff_same, List.map_inj_left]
  exact forall₂_congr fun l _ => lexed_eq_token_iff l

/-- The word `constructor` is no keyword, and its token is no identifier. -/
theorem constructor_not_ident :
    ¬ @LexesAsSpelled ℕ naturalNumerals [.word "constructor".toList (by decide)] := by
  rw [@lexesAsSpelled_iff_same ℕ naturalNumerals]
  intro heq
  have hword := (word_eq_wordToken_iff "constructor").mp (List.cons.inj heq).1
  exact absurd hword (by decide)

end Lists

end LuaRecovery.Lua
