import LuaRecovery.Lua.GeneratedText
import LuaRecovery.Lua.TokenPositions

/-!
# Names and numbers among the tokens of a source
-/

set_option autoImplicit false

namespace LuaRecovery.Lua
open Lexer LuaGenerator

section Numbers

theorem dropWhile_takeWhile (p : Char → Bool) (cs : List Char) :
    (cs.takeWhile p).dropWhile p = [] :=
  List.dropWhile_eq_nil_iff.mpr fun _ hc => List.mem_takeWhile_imp hc

theorem sign_notMem_digits {c : Char} {cs : List Char} (h : c ∈ cs.takeWhile Char.isDigit) :
    ¬ (c = '+' ∨ c = '-') := by
  have hdigit : c.isDigit = true := List.mem_takeWhile_imp h
  rintro (rfl | rfl) <;> cases hdigit

/-! What is read of a text is read again as a whole. -/

theorem readExponent_again (mark : Char → Bool) (cs : List Char) :
    readExponent mark (readExponent mark cs).1 = ((readExponent mark cs).1, []) := by
  cases cs with
  | nil => rfl
  | cons e cs =>
    by_cases hmark : mark e = true
    · cases cs with
      | nil => simp [readExponent, hmark]
      | cons sign cs =>
        by_cases hsign : sign = '+' ∨ sign = '-'
        · simp only [readExponent, hmark, if_true, if_pos hsign, List.takeWhile_idem,
            dropWhile_takeWhile]
        · have hread : (readExponent mark (e::sign::cs)).1 =
              e :: (sign::cs).takeWhile Char.isDigit := by
            simp [readExponent, hmark, hsign]
          rw [hread]
          cases hdigits : (sign::cs).takeWhile Char.isDigit with
          | nil => simp [readExponent, hmark]
          | cons d ds =>
            have hd : ¬ (d = '+' ∨ d = '-') :=
              sign_notMem_digits (hdigits ▸ List.mem_cons_self)
            have htake : (d::ds).takeWhile Char.isDigit = d::ds := by
              rw [← hdigits, List.takeWhile_idem]
            have hdrop : (d::ds).dropWhile Char.isDigit = [] := by
              rw [← hdigits, dropWhile_takeWhile]
            simp only [readExponent, hmark, if_true, if_neg hd, htake, hdrop]
    · simp [readExponent, hmark]

theorem head_readExponent {mark : Char → Bool} {cs : List Char} {c : Char}
    (hc : c ∈ (readExponent mark cs).1.head?) : mark c = true := by
  cases cs with
  | nil => cases hc
  | cons e cs =>
    by_cases hmark : mark e = true
    · have hhead : (readExponent mark (e::cs)).1.head? = some e := by
        cases cs with
        | nil => simp [readExponent, hmark]
        | cons sign cs =>
          simp only [readExponent, hmark, if_true]
          split <;> rfl
      rw [hhead] at hc
      cases hc
      exact hmark
    · simp [readExponent, hmark] at hc

section Fractions
variable {rest : List Char}

theorem readHexFraction_cases (cs : List Char) : (readHexFraction cs).1 = [] ∨
    ∃ ds : List Char, (readHexFraction cs).1 = '.' :: ds.takeWhile isHexDigit := by
  unfold readHexFraction
  split
  next ds => exact Or.inr ⟨ds, rfl⟩
  next => exact Or.inl rfl

theorem readFraction_cases (cs : List Char) : (readFraction cs).1 = [] ∨
    ∃ ds : List Char, (readFraction cs).1 = '.' :: ds.takeWhile Char.isDigit := by
  unfold readFraction
  split
  next ds =>
    split
    · exact Or.inl rfl
    · exact Or.inr ⟨ds, rfl⟩
  next => exact Or.inl rfl

theorem head_ne_dot (h : ∀ c ∈ rest.head?, c ≠ '.') : ∀ ds, rest = '.'::ds → False := by
  rintro ds rfl
  exact h '.' rfl rfl

theorem readHexFraction_again (cs : List Char) (hdot : ∀ c ∈ rest.head?, c ≠ '.')
    (hdigit : ∀ c ∈ rest.head?, isHexDigit c = false) :
    readHexFraction ((readHexFraction cs).1 ++ rest) = ((readHexFraction cs).1, rest) := by
  rcases readHexFraction_cases cs with h | ⟨ds, h⟩
  · rw [h, List.nil_append, readHexFraction.eq_2 _ (head_ne_dot hdot)]
  · rw [h, List.cons_append, readHexFraction, takeWhile_append_stop hdigit,
      dropWhile_append_stop hdigit, List.takeWhile_idem, dropWhile_takeWhile, List.nil_append]

theorem readFraction_again (cs : List Char) (hdot : ∀ c ∈ rest.head?, c ≠ '.')
    (hdigit : ∀ c ∈ rest.head?, Char.isDigit c = false) :
    readFraction ((readFraction cs).1 ++ rest) = ((readFraction cs).1, rest) := by
  rcases readFraction_cases cs with h | ⟨ds, h⟩
  · rw [h, List.nil_append, readFraction.eq_2 _ (head_ne_dot hdot)]
  · have hone : (ds.takeWhile Char.isDigit ++ rest).head? ≠ some '.' := by
      intro hhead
      cases hdigits : ds.takeWhile Char.isDigit with
      | nil =>
        rw [hdigits, List.nil_append] at hhead
        exact hdot '.' hhead rfl
      | cons d digits =>
        rw [hdigits] at hhead
        have hd : d.isDigit = true :=
          List.mem_takeWhile_imp (l := ds) (hdigits ▸ List.mem_cons_self)
        cases hhead
        cases hd
    rw [h, List.cons_append, readFraction, if_neg hone, takeWhile_append_stop hdigit,
      dropWhile_append_stop hdigit, List.takeWhile_idem, dropWhile_takeWhile, List.nil_append]

end Fractions

theorem head_append_of {p : Char → Prop} {cs ds : List Char} (hcs : ∀ c ∈ cs.head?, p c)
    (hds : ∀ c ∈ ds.head?, p c) : ∀ c ∈ (cs ++ ds).head?, p c := by
  cases cs with
  | nil => exact hds
  | cons c cs => exact hcs

theorem readHex_again (cs : List Char) : readHex (readHex cs).1 = ((readHex cs).1, []) := by
  have hmark : ∀ c ∈
      (readExponent isHexExponent (readHexFraction (cs.dropWhile isHexDigit)).2).1.head?,
      c ≠ '.' ∧ isHexDigit c = false := by
    intro c hc
    have hc := head_readExponent hc
    rcases (by simpa [isHexExponent] using hc : c = 'p' ∨ c = 'P') with rfl | rfl <;>
      exact ⟨by decide, rfl⟩
  have hstop : ∀ c ∈ ((readHexFraction (cs.dropWhile isHexDigit)).1 ++
      (readExponent isHexExponent (readHexFraction (cs.dropWhile isHexDigit)).2).1).head?,
      isHexDigit c = false := by
    refine head_append_of (fun c hc => ?_) fun c hc => (hmark c hc).2
    rcases readHexFraction_cases (cs.dropWhile isHexDigit) with h | ⟨ds, h⟩
    · rw [h] at hc
      cases hc
    · rw [h] at hc
      cases hc
      rfl
  simp only [readHex, List.append_assoc]
  rw [takeWhile_append_stop hstop, dropWhile_append_stop hstop, List.takeWhile_idem,
    dropWhile_takeWhile, List.nil_append,
    readHexFraction_again _ (fun c hc => (hmark c hc).1) fun c hc => (hmark c hc).2,
    readExponent_again]

theorem readDecimal_again (cs : List Char) :
    readDecimal (readDecimal cs).1 = ((readDecimal cs).1, []) := by
  have hmark : ∀ c ∈ (readExponent isExponent (readFraction (cs.dropWhile Char.isDigit)).2).1.head?,
      c ≠ '.' ∧ c.isDigit = false := by
    intro c hc
    have hc := head_readExponent hc
    rcases (by simpa [isExponent] using hc : c = 'e' ∨ c = 'E') with rfl | rfl <;>
      exact ⟨by decide, rfl⟩
  have hstop : ∀ c ∈ ((readFraction (cs.dropWhile Char.isDigit)).1 ++
      (readExponent isExponent (readFraction (cs.dropWhile Char.isDigit)).2).1).head?,
      c.isDigit = false := by
    refine head_append_of (fun c hc => ?_) fun c hc => (hmark c hc).2
    rcases readFraction_cases (cs.dropWhile Char.isDigit) with h | ⟨ds, h⟩
    · rw [h] at hc
      cases hc
    · rw [h] at hc
      cases hc
      rfl
  simp only [readDecimal, List.append_assoc]
  rw [takeWhile_append_stop hstop, dropWhile_append_stop hstop, List.takeWhile_idem,
    dropWhile_takeWhile, List.nil_append,
    readFraction_again _ (fun c hc => (hmark c hc).1) fun c hc => (hmark c hc).2,
    readExponent_again]

/-- A number is a hexadecimal one or a decimal one. -/
theorem readNumber_cases (cs : List Char) :
    (∃ x ds, (x = 'x' ∨ x = 'X') ∧ readNumber cs = ('0' :: x :: (readHex ds).1, (readHex ds).2)) ∨
      readNumber cs = readDecimal cs ∧
        readNumber (readDecimal cs).1 = readDecimal (readDecimal cs).1 := by
  by_cases hx : ∃ ds, cs = '0' :: 'x' :: ds
  · obtain ⟨ds, rfl⟩ := hx
    exact Or.inl ⟨'x', ds, Or.inl rfl, rfl⟩
  by_cases hX : ∃ ds, cs = '0' :: 'X' :: ds
  · obtain ⟨ds, rfl⟩ := hX
    exact Or.inl ⟨'X', ds, Or.inr rfl, rfl⟩
  have happend := readDecimal_append cs
  refine Or.inr ⟨readNumber.eq_3 cs (fun ds h => hx ⟨ds, h⟩) fun ds h => hX ⟨ds, h⟩,
    readNumber.eq_3 _ (fun ds h => hx ?_) fun ds h => hX ?_⟩
  · rw [h] at happend
    exact ⟨_, happend.symm⟩
  · rw [h] at happend
    exact ⟨_, happend.symm⟩

theorem readNumber_again (cs : List Char) :
    readNumber (readNumber cs).1 = ((readNumber cs).1, []) := by
  rcases readNumber_cases cs with ⟨x, ds, hx, h⟩ | ⟨h, hagain⟩
  · rw [h]
    rcases hx with rfl | rfl
    · rw [readNumber, readHex_again]
    · rw [readNumber, readHex_again]
  · rw [h, hagain, readDecimal_again]

/-- A number that starts with a dot has a digit after it. -/
theorem readNumber_dot {d : Char} (hdigit : d.isDigit = true) (cs : List Char) :
    ∃ raw, (readNumber ('.' :: d :: cs)).1 = '.' :: d :: raw := by
  have hdot : d ≠ '.' := by
    rintro rfl
    cases hdigit
  refine ⟨cs.takeWhile Char.isDigit ++ (readExponent isExponent (cs.dropWhile Char.isDigit)).1, ?_⟩
  rw [readNumber.eq_3 _ (by simp) (by simp), readDecimal]
  simp [List.takeWhile, List.dropWhile, show Char.isDigit '.' = false from rfl, readFraction,
    hdot, hdigit]

theorem isNumeral_read {ch : Char} {cs : List Char}
    (h : ch.isDigit = true ∨ (ch = '.' ∧ cs.head?.any Char.isDigit = true)) :
    IsNumeral (readNumber (ch::cs)).1 := by
  refine ⟨?_, readNumber_again (ch::cs)⟩
  rcases h with hdigit | ⟨rfl, hdigit⟩
  · obtain ⟨raw, hraw⟩ := @readNumber_head ch cs (Or.inl hdigit)
    exact ⟨ch, raw, hraw, Or.inl hdigit⟩
  · cases cs with
    | nil => cases hdigit
    | cons d cs =>
      obtain ⟨raw, hraw⟩ := readNumber_dot hdigit cs
      exact ⟨'.', d::raw, hraw, Or.inr ⟨rfl, hdigit⟩⟩

end Numbers

section Tokens
variable {N : Type} [Numerals N]

/-- Names are names, and numbers are the numbers of their texts. -/
def Lexed (t : Lexeme N) : Prop :=
  (t.type = .ident → ∃ name, t.value = .text name ∧ IsName name) ∧
    ∀ n, t.type = .number → t.value = .number n →
      IsNumeral t.raw.toList ∧ n = Numerals.number t.raw.toList

theorem Lexed.other {t : Lexeme N} (hident : t.type ≠ .ident) (hnumber : t.type ≠ .number) :
    Lexed t :=
  ⟨fun h => absurd h hident, fun _ h => absurd h hnumber⟩

theorem keyword_other {name : String} {type : TokenType} (h : keyword name = some type) :
    type ≠ .ident ∧ type ≠ .number := by
  unfold keyword at h
  split at h
  next type' hlookup =>
    cases h
    have hall : ∀ entry ∈ KEYWORDS, entry.2 ≠ .ident ∧ entry.2 ≠ .number := by decide
    obtain ⟨l₁, l₂, heq, -⟩ := List.lookup_eq_some_iff.mp hlookup
    exact hall (name, type) (by rw [heq]; simp)
  next =>
    split at h
    · cases h
      exact ⟨by simp, by simp⟩
    · cases h

theorem lexed_word {name : List Char} (hname : IsWord name) :
    Lexed (.word (String.ofList name) : Lexeme N) := by
  unfold Lexeme.word
  split
  next => exact .other (fun h => by cases h) fun h => by cases h
  next => exact .other (fun h => by cases h) fun h => by cases h
  next => exact .other (fun h => by cases h) fun h => by cases h
  next type _ _ _ htype => exact .other (keyword_other htype).1 (keyword_other htype).2
  next hnone =>
    refine ⟨fun _ => ⟨_, rfl, ?_, hnone⟩, by simp⟩
    rwa [String.toList_ofList]

theorem readPunctuation_other {ch : Char} {cs rest : List Char} {type : TokenType} {text : String}
    (h : readPunctuation ch cs = some (type, text, rest)) : type ≠ .ident ∧ type ≠ .number := by
  unfold readPunctuation at h
  split at h
  case h_12 =>
    obtain ⟨type, htype, heq⟩ := Option.map_eq_some_iff.mp h
    cases heq
    unfold singleTokens at htype
    split at htype <;> cases htype <;> exact ⟨by simp, by simp⟩
  all_goals
    cases h
    exact ⟨by simp, by simp⟩

theorem lexed_punctuation {ch : Char} {cs rest : List Char} {t : Lexeme N} {drift drift' : ℕ}
    (h : scanPunctuation ch cs drift = .token t rest drift') : Lexed t := by
  unfold scanPunctuation at h
  split at h
  next hread =>
    cases h
    exact .other (readPunctuation_other hread).1 (readPunctuation_other hread).2
  next => cases h

theorem scan_lexed {ch : Char} {cs rest : List Char} {t : Lexeme N} {drift : ℕ}
    (h : scan ch cs = .token t rest drift) : Lexed t := by
  have hquoted : ∀ raw, Lexed (.quoted raw : Lexeme N) :=
    fun raw => .other (fun h => by cases h) fun h => by cases h
  unfold scan at h
  split at h
  · cases h
  split at h
  · cases h
  split at h
  · split at h <;> cases h
    exact hquoted _
  split at h
  · split at h
    · split at h <;> cases h
      exact hquoted _
    · exact lexed_punctuation h
  split at h
  next hdigit =>
    cases h
    refine ⟨by simp [Lexeme.numeral], fun n _ hn => ?_⟩
    cases hn
    rw [Lexeme.numeral, String.toList_ofList]
    exact ⟨isNumeral_read hdigit, rfl⟩
  split at h
  next hname =>
    cases h
    refine lexed_word ⟨?_, fun c hc => List.mem_takeWhile_imp hc⟩
    rw [List.takeWhile_cons, if_pos (isNamePart_of_start hname)]
    exact hname
  next => exact lexed_punctuation h

theorem Scanned.ne_nil {p : Position} {cs : List Char} {tokens : List (Token N)}
    (h : Scanned p cs tokens) : tokens ≠ [] := by
  induction h with
  | eof => exact List.cons_ne_nil _ _
  | blank _ _ _ ih => exact ih
  | token => exact List.cons_ne_nil _ _

theorem Scanned.lexed {p : Position} {cs : List Char} {tokens : List (Token N)}
    (h : Scanned p cs tokens) : ∀ t ∈ (tokens.map Token.toLexeme).dropLast, Lexed t := by
  induction h with
  | eof => exact List.forall_mem_nil _
  | blank _ _ _ ih => exact ih
  | @token p ch tail rest t drift tokens hscan _ hrest ih =>
    rw [List.map_cons, List.dropLast_cons_of_ne_nil (by simpa using hrest.ne_nil)]
    exact List.forall_mem_cons.mpr ⟨scan_lexed hscan, ih⟩

theorem tokenize_lexed {source : String} {tokens : List (Token N)}
    (h : tokenize source = .ok tokens) : ∀ t ∈ (tokens.map Token.toLexeme).dropLast, Lexed t :=
  (scanned_of_tokenizeFrom _ _ _ h).lexed

end Tokens

end LuaRecovery.Lua
