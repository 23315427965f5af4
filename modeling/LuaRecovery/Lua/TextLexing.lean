import LuaRecovery.Lua.Legibility
import LuaRecovery.Lua.LiteralRoundTrip

/-!
# How the lexer reads pieces of text

One lemma for each kind of piece: what it is read as, whatever follows it,
provided that it ends there.
-/

set_option autoImplicit false

namespace LuaRecovery.Lua
open Lexer Spelling

/-- No word goes on here. -/
def WordEnd (cs : List Char) : Prop := ∀ c ∈ cs.head?, isNamePart c = false

/-- No number goes on here. -/
def NumberEnd (cs : List Char) : Prop :=
  ∀ c ∈ cs.head?, isNamePart c = false ∧ c ≠ '.' ∧ c ≠ '+' ∧ c ≠ '-'

theorem NumberEnd.wordEnd {cs : List Char} (h : NumberEnd cs) : WordEnd cs :=
  fun c hc => (h c hc).1

theorem isNamePart_of_hexDigit {c : Char} (h : isHexDigit c = true) : isNamePart c = true := by
  simp only [isHexDigit, Bool.or_eq_true, Bool.and_eq_true, decide_eq_true_eq, Char.le_def,
    UInt32.le_iff_toNat_le] at h
  simp only [isNamePart, Char.isAlphanum, isAlpha_eq, Bool.or_eq_true, Bool.and_eq_true,
    decide_eq_true_eq, ge_iff_le, UInt32.le_iff_toNat_le]
  rcases h with (h | h) | h
  · exact Or.inl (Or.inr h)
  · exact Or.inl (Or.inl (Or.inr ⟨h.1, h.2.trans (by decide)⟩))
  · exact Or.inl (Or.inl (Or.inl ⟨h.1, h.2.trans (by decide)⟩))

theorem isNamePart_of_digit {c : Char} (h : c.isDigit = true) : isNamePart c = true := by
  simp [isNamePart, Char.isAlphanum, h]

section Stops
variable {p : Char → Bool} {cs : List Char} (hcs : ∀ c ∈ cs.head?, p c = false)
include hcs

theorem takeWhile_append_stop (ds : List Char) : (ds ++ cs).takeWhile p = ds.takeWhile p := by
  induction ds with
  | nil =>
    cases cs with
    | nil => rfl
    | cons c cs => simp [hcs c rfl]
  | cons d ds ih => simp [List.takeWhile_cons, ih]

theorem dropWhile_append_stop (ds : List Char) :
    (ds ++ cs).dropWhile p = ds.dropWhile p ++ cs := by
  induction ds with
  | nil =>
    cases cs with
    | nil => rfl
    | cons c cs => simp [hcs c rfl]
  | cons d ds ih =>
    simp only [List.cons_append, List.dropWhile_cons, ih]
    split <;> rfl

end Stops

section Numbers
variable {cs : List Char} (hcs : NumberEnd cs)
include hcs

theorem NumberEnd.not_of_part {p : Char → Bool} (hp : ∀ c, p c = true → isNamePart c = true) :
    ∀ c ∈ cs.head?, p c = false := by
  intro c hc
  by_contra hpc
  have hpart := hp c (by simpa using hpc)
  rw [(hcs c hc).1] at hpart
  cases hpart

theorem NumberEnd.not_digit : ∀ c ∈ cs.head?, Char.isDigit c = false :=
  hcs.not_of_part fun _ hc => isNamePart_of_digit hc

theorem NumberEnd.not_hexDigit : ∀ c ∈ cs.head?, isHexDigit c = false :=
  hcs.not_of_part fun _ hc => isNamePart_of_hexDigit hc

theorem readExponent_append_end {mark : Char → Bool}
    (hmark : ∀ c, mark c = true → isNamePart c = true) (ds : List Char) :
    readExponent mark (ds ++ cs) =
      ((readExponent mark ds).1, (readExponent mark ds).2 ++ cs) := by
  have htake := takeWhile_append_stop hcs.not_digit
  have hdrop := dropWhile_append_stop hcs.not_digit
  match ds with
  | [] =>
    cases cs with
    | nil => rfl
    | cons c cs => simp [readExponent, hcs.not_of_part hmark c rfl]
  | [e] =>
    have htake' := htake []
    have hdrop' := hdrop []
    cases cs with
    | nil => simp [readExponent]
    | cons c cs =>
      obtain ⟨-, -, hplus, hminus⟩ := hcs c rfl
      simp only [List.nil_append, List.takeWhile_nil, List.dropWhile_nil] at htake' hdrop'
      by_cases he : mark e
      · simp [readExponent, he, hplus, hminus, htake', hdrop']
      · simp [readExponent, he]
  | e::sign::ds =>
    by_cases he : mark e
    · by_cases hsign : sign = '+' ∨ sign = '-'
      · simp [readExponent, he, hsign, htake, hdrop]
      · have htake' := htake (sign::ds)
        have hdrop' := hdrop (sign::ds)
        rw [List.cons_append] at htake' hdrop'
        simp [readExponent, he, hsign, htake', hdrop']
    · simp [readExponent, he]

theorem readHexFraction_append_end (ds : List Char) :
    readHexFraction (ds ++ cs) = ((readHexFraction ds).1, (readHexFraction ds).2 ++ cs) := by
  have htake := takeWhile_append_stop hcs.not_hexDigit
  have hdrop := dropWhile_append_stop hcs.not_hexDigit
  cases ds with
  | nil =>
    cases cs with
    | nil => rfl
    | cons c cs =>
      have hdot := (hcs c rfl).2.1
      simp [readHexFraction, hdot]
  | cons d ds =>
    by_cases hd : d = '.'
    · subst hd
      simp [readHexFraction, htake, hdrop]
    · simp [readHexFraction, hd]

theorem readFraction_append_end (ds : List Char) :
    readFraction (ds ++ cs) = ((readFraction ds).1, (readFraction ds).2 ++ cs) := by
  have htake := takeWhile_append_stop hcs.not_digit
  have hdrop := dropWhile_append_stop hcs.not_digit
  cases ds with
  | nil =>
    cases cs with
    | nil => rfl
    | cons c cs =>
      have hdot := (hcs c rfl).2.1
      simp [readFraction, hdot]
  | cons d ds =>
    by_cases hd : d = '.'
    · subst hd
      have hhead : (ds ++ cs).head? = some '.' ↔ ds.head? = some '.' := by
        cases ds with
        | nil =>
          simp only [List.nil_append, List.head?_nil, reduceCtorEq, iff_false]
          exact fun h => (hcs '.' h).2.1 rfl
        | cons d ds => rfl
      rw [List.cons_append]
      simp only [readFraction, hhead, htake, hdrop]
      split <;> rfl
    · simp [readFraction, hd]

theorem readHex_append_end (ds : List Char) :
    readHex (ds ++ cs) = ((readHex ds).1, (readHex ds).2 ++ cs) := by
  have hmark : ∀ c, isHexExponent c = true → isNamePart c = true := by
    intro c hc
    simp only [isHexExponent, Bool.or_eq_true, decide_eq_true_eq] at hc
    rcases hc with rfl | rfl <;> rfl
  simp only [readHex, takeWhile_append_stop hcs.not_hexDigit,
    dropWhile_append_stop hcs.not_hexDigit, readHexFraction_append_end hcs,
    readExponent_append_end hcs hmark]

theorem readDecimal_append_end (ds : List Char) :
    readDecimal (ds ++ cs) = ((readDecimal ds).1, (readDecimal ds).2 ++ cs) := by
  have hmark : ∀ c, isExponent c = true → isNamePart c = true := by
    intro c hc
    simp only [isExponent, Bool.or_eq_true, decide_eq_true_eq] at hc
    rcases hc with rfl | rfl <;> rfl
  simp only [readDecimal, takeWhile_append_stop hcs.not_digit,
    dropWhile_append_stop hcs.not_digit, readFraction_append_end hcs,
    readExponent_append_end hcs hmark]

theorem readNumber_append_end {raw : List Char} (hraw : raw ≠ [])
    (h : readNumber raw = (raw, [])) : readNumber (raw ++ cs) = (raw, cs) := by
  unfold readNumber at h
  split at h
  next ds =>
    have hhex := readHex_append_end hcs ds
    simp_all [readNumber]
  next ds =>
    have hhex := readHex_append_end hcs ds
    simp_all [readNumber]
  next hx hX =>
    have hdecimal := readDecimal_append_end hcs raw
    rw [h, List.nil_append] at hdecimal
    have hother : ∀ x ds, isNamePart x = true → (∀ ds, raw ≠ '0' :: x :: ds) →
        raw ++ cs ≠ '0' :: x :: ds := by
      intro x ds hpart hne heq
      match raw with
      | [] => exact hraw rfl
      | [_] =>
        have hhead : cs = x :: ds := (List.cons.inj heq).2
        rw [(hcs x (by rw [hhead]; rfl)).1] at hpart
        cases hpart
      | _::_::_ =>
        obtain ⟨hd, htail⟩ := List.cons.inj heq
        obtain ⟨he, -⟩ := List.cons.inj htail
        exact hne _ (by rw [hd, he])
    unfold readNumber
    split
    next ds heq => exact absurd heq (hother 'x' ds rfl fun ds h => hx ds h)
    next ds heq => exact absurd heq (hother 'X' ds rfl fun ds h => hX ds h)
    next => exact hdecimal

end Numbers

section Strings
variable {quote : Char} {cs content rest : List Char}
  (h : readString quote cs = .ok (content, rest))
include h

theorem readString_escape (c : Char) :
    readString quote ('\\' :: c :: cs) = .ok ('\\' :: c :: content, rest) := by
  simp only [readString, h]
  rfl

theorem readString_plain {c : Char} (hslash : c ≠ '\\') (hquote : c ≠ quote) (hnewline : c ≠ '\n')
    (hreturn : c ≠ '\r') : readString quote (c :: cs) = .ok (c :: content, rest) := by
  rw [readString]
  · simp [hquote, hnewline, hreturn, h]
  · exact fun hc _ => hslash hc
  · exact fun _ _ hc _ => hslash hc

end Strings

theorem readString_escaped {cs content rest : List Char} (b : UInt8)
    (h : readString '"' cs = .ok (content, rest)) :
    readString '"' (ByteString.escaped '"' b ++ cs) =
      .ok (ByteString.escaped '"' b ++ content, rest) := by
  have hdigit : ∀ n, n < 10 → Nat.digitChar n ≠ '\\' ∧ Nat.digitChar n ≠ '"' ∧
      Nat.digitChar n ≠ '\n' ∧ Nat.digitChar n ≠ '\r' := by decide
  have hplain : ∀ n, n < 127 → 32 ≤ n ∧ n ≠ 92 ∧ n ≠ 34 → Char.ofNat n ≠ '\\' ∧
      Char.ofNat n ≠ '"' ∧ Char.ofNat n ≠ '\n' ∧ Char.ofNat n ≠ '\r' := by decide
  have hb : b.toNat < 256 := b.toNat_lt
  rcases ByteString.escaped_cases (Or.inl rfl) b with
    ⟨-, htext⟩ | ⟨c, -, htext⟩ | ⟨hlow, hhigh, hslash, hquote, htext⟩ | ⟨-, htext⟩
  · rw [htext]
    exact readString_escape h _
  · rw [htext]
    exact readString_escape h _
  · obtain ⟨h₁, h₂, h₃, h₄⟩ := hplain b.toNat (by omega) ⟨hlow, hslash, hquote⟩
    rw [htext]
    exact readString_plain h h₁ h₂ h₃ h₄
  · obtain ⟨h₁, h₂, h₃, h₄⟩ := hdigit (b.toNat % 10) (by omega)
    obtain ⟨h₅, h₆, h₇, h₈⟩ := hdigit (b.toNat / 10 % 10) (by omega)
    rw [htext]
    exact readString_escape (readString_plain (readString_plain h h₁ h₂ h₃ h₄) h₅ h₆ h₇ h₈) _

theorem readString_literal (value : ByteString) (cs : List Char) :
    readString '"' (value.flatMap (ByteString.escaped '"') ++ '"' :: cs) =
      .ok (value.flatMap (ByteString.escaped '"') ++ ['"'], cs) := by
  induction value with
  | nil => rfl
  | cons b value ih =>
    rw [List.flatMap_cons, List.append_assoc, readString_escaped b ih, List.append_assoc]

section
variable {N : Type} [Numerals N] {cs : List Char} {ts : List (Lexeme N)}

theorem lexes_blank {c : Char} (hc : isBlank c = true) (h : Lexes cs ts) : Lexes (c :: cs) ts :=
  h.blank (show scan c cs = .blank cs 0 by simp [scan, hc])

theorem lexes_blanks {bs : List Char} (hbs : ∀ c ∈ bs, isBlank c = true) (h : Lexes cs ts) :
    Lexes (bs ++ cs) ts := by
  induction bs with
  | nil => exact h
  | cons b bs ih =>
    exact lexes_blank (hbs b (by simp)) (ih fun c hc => hbs c (by simp [hc]))

/-- What starts a word starts nothing else. -/
theorem scan_word {c : Char} (hc : isNameStart c = true) :
    (scan c cs : Scan N) =
      .token (.word (String.ofList ((c :: cs).takeWhile isNamePart))) (cs.dropWhile isNamePart) 0 := by
  have hother : ∀ d : Char, isNameStart d = false → c ≠ d := by
    rintro d hd rfl
    rw [hc] at hd
    cases hd
  have hblank : isBlank c = false := by
    simp [isBlank, hother ' ' rfl, hother '\t' rfl, hother '\r' rfl, hother '\n' rfl]
  simp [scan, hblank, hother '-' rfl, hother '"' rfl, hother '\'' rfl, hother '[' rfl,
    hother '.' rfl, not_isDigit_of_start hc, hc]

theorem lexes_word {name : List Char} (hname : IsWord name) (hcs : WordEnd cs) (h : Lexes cs ts) :
    Lexes (name ++ cs) (.word (String.ofList name) :: ts) := by
  obtain ⟨hstart, hparts⟩ := hname
  cases name with
  | nil => cases hstart
  | cons c name =>
    have htake := takeWhile_append_stop hcs (c::name)
    rw [List.takeWhile_eq_self_iff.mpr hparts, List.cons_append] at htake
    have hdrop := dropWhile_append_stop hcs name
    rw [List.dropWhile_eq_nil_iff.mpr fun d hd => hparts d (List.mem_cons_of_mem c hd),
      List.nil_append] at hdrop
    have hscan : (scan c (name ++ cs) : Scan N) =
        .token (.word (String.ofList (c::name))) cs 0 := by
      rw [scan_word hstart, htake, hdrop]
    exact h.token hscan

/-- What starts a number starts neither a blank nor any other token. -/
theorem lexes_numeral {raw : List Char} (hraw : IsNumeral raw) (hcs : NumberEnd cs)
    (h : Lexes cs ts) : Lexes (raw ++ cs) (.numeral raw :: ts) := by
  obtain ⟨⟨c, ds, rfl, hc⟩, hread⟩ := hraw
  have hread' := readNumber_append_end hcs (by simp) hread
  have hstart : c.isDigit = true ∨ (c = '.' ∧ (ds ++ cs).head?.any Char.isDigit = true) := by
    rcases hc with hc | ⟨hc, hds⟩
    · exact Or.inl hc
    · cases ds with
      | nil => cases hds
      | cons d ds => exact Or.inr ⟨hc, hds⟩
  have hother : ∀ d : Char, d.isDigit = false → d ≠ '.' → c ≠ d := by
    rintro d hd hdot rfl
    rcases hc with hc | ⟨hc, -⟩
    · rw [hd] at hc
      cases hc
    · exact hdot hc
  have hblank : isBlank c = false := by
    simp [isBlank, hother ' ' rfl, hother '\t' rfl, hother '\r' rfl, hother '\n' rfl]
  have hscan : (scan c (ds ++ cs) : Scan N) = .token (.numeral (c::ds)) cs 0 := by
    rw [List.cons_append] at hread'
    unfold scan
    rw [if_neg (by simp [hblank]), if_neg (by simp [hother '-' rfl]),
      if_neg (by simp [hother '"' rfl, hother '\'' rfl]), if_neg (by simp [hother '[' rfl]),
      if_pos hstart, hread']
  exact h.token hscan

theorem lexes_quoted (value : ByteString) (h : Lexes cs ts) :
    Lexes (ByteString.toLuaLiteral value '"' ++ cs)
      (.quoted (ByteString.toLuaLiteral value '"') :: ts) := by
  have hread := readString_literal value cs
  have hscan : (scan '"' (value.flatMap (ByteString.escaped '"') ++ '"' :: cs) : Scan N) =
      .token (.quoted (ByteString.toLuaLiteral value '"')) cs 0 := by
    simp [scan, isBlank, hread, ByteString.toLuaLiteral]
  rw [ByteString.toLuaLiteral, List.cons_append, List.cons_append, List.append_assoc]
  exact h.token hscan

/-- A character that starts nothing but an operator here. -/
theorem lexes_punctuation {c : Char} {rest : List Char} {type : TokenType} {text : String}
    (hread : readPunctuation c rest = some (type, text, cs)) (hblank : isBlank c = false)
    (hcomment : c = '-' → rest.head? ≠ some '-') (hquote : c ≠ '"' ∧ c ≠ '\'')
    (hlong : c = '[' → rest.head? ≠ some '[' ∧ rest.head? ≠ some '=')
    (hnumber : c.isDigit = false ∧ (c = '.' → rest.head?.any Char.isDigit = false))
    (hword : isNameStart c = false) (h : Lexes cs ts) :
    Lexes (c :: rest) (.punctuation type text :: ts) := by
  have hscan : (scan c rest : Scan N) = .token (.punctuation type text) cs 0 := by
    unfold scan
    rw [if_neg (by simp [hblank]), if_neg (by simpa using hcomment), if_neg (by simp [hquote]),
      if_neg (by simpa using hlong), if_neg (by simpa [hnumber.1] using hnumber.2),
      if_neg (by simp [hword]), scanPunctuation, hread]
  exact h.token hscan

/-- The characters of which nothing but an operator can start. -/
def isOperatorStart (c : Char) : Bool := c ∈ "(),:;\x7b\x7d]#+*/%^=~<>".toList

theorem lexes_operator {c : Char} {rest : List Char} {type : TokenType} {text : String}
    (hread : readPunctuation c rest = some (type, text, cs)) (hc : isOperatorStart c = true)
    (h : Lexes cs ts) : Lexes (c :: rest) (.punctuation type text :: ts) := by
  have hother : ∀ d : Char, isOperatorStart d = false → c ≠ d := by
    rintro d hd rfl
    rw [hc] at hd
    cases hd
  have hplain : isBlank c = false ∧ c.isDigit = false ∧ isNameStart c = false := by
    have hall : ∀ d ∈ "(),:;\x7b\x7d]#+*/%^=~<>".toList,
        (!isBlank d && !d.isDigit && !isNameStart d) = true := List.all_eq_true.mp (by decide)
    simpa [and_assoc] using hall c (by simpa [isOperatorStart] using hc)
  exact lexes_punctuation hread hplain.1 (fun h => absurd h (hother '-' rfl))
    ⟨hother '"' rfl, hother '\'' rfl⟩ (fun h => absurd h (hother '[' rfl))
    ⟨hplain.2.1, fun h => absurd h (hother '.' rfl)⟩ hplain.2.2 h

end
end LuaRecovery.Lua
