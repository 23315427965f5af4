import LuaRecovery.Lua.ByteString

/-!
# Printing a byte string and reading it back

Every escape that `toLuaLiteral` writes has a fixed length but `\0`, whose
digits go on as long as digits follow.
-/

set_option autoImplicit false

namespace LuaRecovery.Lua
namespace ByteString
open LuaRecovery.Lib

theorem decode_escape (next : Char) (rest : List Char) :
    decode ('\\' :: next :: rest) = (escape next rest).1 ++ decode (escape next rest).2 := by
  rw [decode]

theorem decode_plain {c : Char} (h : c ≠ '\\') (rest : List Char) :
    decode (c :: rest) = latin1 c ++ decode rest := by
  rw [decode]
  exact fun _ _ hc _ => h hc

theorem latin1_of_lt {c : Char} (h : c.toNat < 256) : latin1 c = [UInt8.ofNat c.toNat] := by
  rw [latin1, charUnits, if_pos (by omega), List.map_singleton, byteOf, Nat.mod_eq_of_lt h]

theorem decode_simple {next : Char} {b : UInt8} (h : simpleEscape next = some b)
    (rest : List Char) : decode ('\\' :: next :: rest) = b :: decode rest := by
  have hescape : escape next rest = ([b], rest) := by
    unfold simpleEscape at h
    split at h <;> cases h <;> rfl
  rw [decode_escape, hescape]
  rfl

theorem isDigit_digitChar {n : ℕ} (h : n < 10) : (Nat.digitChar n).isDigit = true := by
  have hall : ∀ n, n < 10 → (Nat.digitChar n).isDigit = true := by decide
  exact hall n h

theorem toNat_digitChar {n : ℕ} (h : n < 10) : (Nat.digitChar n).toNat - '0'.toNat = n := by
  have hall : ∀ n, n < 10 → (Nat.digitChar n).toNat - '0'.toNat = n := by decide
  exact hall n h

/-- Three digits of an escape are all of it. -/
theorem decode_decimal (b : UInt8) (rest : List Char) :
    decode ('\\' :: Nat.digitChar (b.toNat/100) :: Nat.digitChar (b.toNat/10%10) ::
      Nat.digitChar (b.toNat%10) :: rest) = b :: decode rest := by
  have hb := b.toNat_lt
  have hd₁ := toNat_digitChar (n := b.toNat/100) (by omega)
  have hd₂ := toNat_digitChar (n := b.toNat/10%10) (by omega)
  have hd₃ := toNat_digitChar (n := b.toNat%10) (by omega)
  have hvalue : digitsValue [Nat.digitChar (b.toNat/100), Nat.digitChar (b.toNat/10%10),
      Nat.digitChar (b.toNat%10)] = b.toNat := by
    simp only [digitsValue, List.foldl_cons, List.foldl_nil, hd₁, hd₂, hd₃]
    omega
  have hescape : escape (Nat.digitChar (b.toNat/100)) (Nat.digitChar (b.toNat/10%10) ::
      Nat.digitChar (b.toNat%10) :: rest) = ([b], rest) := by
    rw [escape, if_pos (isDigit_digitChar (by omega)), decimalEscape,
      if_pos (isDigit_digitChar (by omega)), if_pos (isDigit_digitChar (by omega)), hvalue,
      byteOf, Nat.mod_eq_of_lt hb, UInt8.ofNat_toNat]
  rw [decode_escape, hescape]
  rfl

/-- Whether the byte is the code of a digit. -/
def isDigitByte (b : UInt8) : Bool := 48 ≤ b && b ≤ 57

def headIsDigit (cs : List Char) : Bool := cs.head?.any Char.isDigit

theorem decode_nul {rest : List Char} (h : headIsDigit rest = false) :
    decode ('\\' :: '0' :: rest) = 0 :: decode rest := by
  have hescape : escape '0' rest = ([0], rest) := by
    rw [escape, if_pos (by decide)]
    unfold decimalEscape
    split
    next a b rest' =>
      have ha : a.isDigit = false := h
      rw [if_neg (by simp [ha])]
      rfl
    next a =>
      have ha : a.isDigit = false := h
      rw [if_neg (by simp [ha])]
      rfl
    next => rfl
  rw [decode_escape, hescape]
  rfl

theorem ofNat_printable {n : ℕ} (hlo : 32 ≤ n) (hhi : n ≤ 126) :
    (Char.ofNat n).toNat = n ∧ (Char.ofNat n).isDigit = (decide (48 ≤ n) && decide (n ≤ 57)) := by
  have hall : ∀ n, n < 127 → 32 ≤ n →
      (Char.ofNat n).toNat = n ∧ (Char.ofNat n).isDigit = (decide (48 ≤ n) && decide (n ≤ 57)) := by
    decide
  exact hall n (by omega) hlo

section Escaped
variable {quoteChar : Char} (hq : quoteChar = '"' ∨ quoteChar = '\'')

include hq in
/-- The four ways in which a byte is written. -/
theorem escaped_cases (b : UInt8) :
    (b = 0 ∧ escaped quoteChar b = ['\\', '0']) ∨
    (∃ c, simpleEscape c = some b ∧ escaped quoteChar b = ['\\', c]) ∨
    (32 ≤ b.toNat ∧ b.toNat ≤ 126 ∧ b.toNat ≠ 92 ∧ b.toNat ≠ quoteChar.toNat ∧
      escaped quoteChar b = [Char.ofNat b.toNat]) ∨
    (¬ (32 ≤ b.toNat ∧ b.toNat ≤ 126) ∧
      escaped quoteChar b = ['\\', Nat.digitChar (b.toNat/100), Nat.digitChar (b.toNat/10%10),
        Nat.digitChar (b.toNat%10)]) := by
  by_cases h₀ : b = 0
  · exact .inl ⟨h₀, by rw [h₀]; rfl⟩
  refine .inr ?_
  have hsimple : ∀ k c, simpleEscape c = some k → escaped quoteChar k = ['\\', c] →
      b = k → ∃ c, simpleEscape c = some b ∧ escaped quoteChar b = ['\\', c] := by
    rintro k c hc hk rfl
    exact ⟨c, hc, hk⟩
  by_cases h₇ : b = 7
  · exact .inl (hsimple 7 'a' rfl rfl h₇)
  by_cases h₈ : b = 8
  · exact .inl (hsimple 8 'b' rfl rfl h₈)
  by_cases h₉ : b = 9
  · exact .inl (hsimple 9 't' rfl rfl h₉)
  by_cases h₁₀ : b = 10
  · exact .inl (hsimple 10 'n' rfl rfl h₁₀)
  by_cases h₁₁ : b = 11
  · exact .inl (hsimple 11 'v' rfl rfl h₁₁)
  by_cases h₁₂ : b = 12
  · exact .inl (hsimple 12 'f' rfl rfl h₁₂)
  by_cases h₁₃ : b = 13
  · exact .inl (hsimple 13 'r' rfl rfl h₁₃)
  by_cases h₉₂ : b = 92
  · exact .inl (hsimple 92 '\\' rfl rfl h₉₂)
  have hplain : escaped quoteChar b = if b.toNat = quoteChar.toNat then ['\\', quoteChar]
      else if 32 ≤ b ∧ b ≤ 126 then [Char.ofNat b.toNat]
      else ['\\', Nat.digitChar (b.toNat/100), Nat.digitChar (b.toNat/10%10),
        Nat.digitChar (b.toNat%10)] := by
    rw [escaped, if_neg h₀, if_neg h₇, if_neg h₈, if_neg h₉, if_neg h₁₀, if_neg h₁₁, if_neg h₁₂,
      if_neg h₁₃, if_neg h₉₂]
  by_cases hquote : b.toNat = quoteChar.toNat
  · rcases hq with rfl | rfl
    · exact .inl (hsimple 34 '"' rfl rfl (UInt8.toNat_inj.mp hquote))
    · exact .inl (hsimple 39 '\'' rfl rfl (UInt8.toNat_inj.mp hquote))
  have hrange : (32 ≤ b ∧ b ≤ 126) ↔ (32 ≤ b.toNat ∧ b.toNat ≤ 126) := by
    rw [UInt8.le_iff_toNat_le, UInt8.le_iff_toNat_le]
    rfl
  rw [hplain, if_neg hquote]
  by_cases hprint : 32 ≤ b ∧ b ≤ 126
  · rw [if_pos hprint]
    have hne : b.toNat ≠ 92 := fun heq => h₉₂ (UInt8.toNat_inj.mp heq)
    exact .inr (.inl ⟨(hrange.mp hprint).1, (hrange.mp hprint).2, hne, hquote, rfl⟩)
  · rw [if_neg hprint]
    exact .inr (.inr ⟨fun h => hprint (hrange.mpr h), rfl⟩)

include hq in
/-- The byte's text, whatever follows: only after `\0` a digit would be read along. -/
theorem decode_escaped (b : UInt8) {rest : List Char} (h : b = 0 → headIsDigit rest = false) :
    decode (escaped quoteChar b ++ rest) = b :: decode rest := by
  rcases escaped_cases hq b with
    ⟨rfl, htext⟩ | ⟨c, hc, htext⟩ | ⟨hlo, hhi, hne, -, htext⟩ | ⟨-, htext⟩
  · rw [htext]
    exact decode_nul (h rfl)
  · rw [htext]
    exact decode_simple hc rest
  · have hchar := (ofNat_printable hlo hhi).1
    have hslash : Char.ofNat b.toNat ≠ '\\' := by
      intro heq
      rw [heq] at hchar
      exact hne hchar.symm
    rw [htext, List.singleton_append, decode_plain hslash, latin1_of_lt (by omega), hchar,
      UInt8.ofNat_toNat]
    rfl
  · rw [htext]
    exact decode_decimal b rest

theorem isDigitByte_eq (b : UInt8) :
    isDigitByte b = (decide (48 ≤ b.toNat) && decide (b.toNat ≤ 57)) := by
  simp only [isDigitByte, UInt8.le_iff_toNat_le]
  rfl

theorem not_isDigit_of_simple {c : Char} {b : UInt8} (h : simpleEscape c = some b) :
    isDigitByte b = false := by
  unfold simpleEscape at h
  split at h <;> cases h <;> rfl

include hq in
/-- The text of a byte starts with a digit exactly if the byte is a digit. -/
theorem headIsDigit_escaped (b : UInt8) (rest : List Char) :
    headIsDigit (escaped quoteChar b ++ rest) = isDigitByte b := by
  rcases escaped_cases hq b with
    ⟨rfl, htext⟩ | ⟨c, hc, htext⟩ | ⟨hlo, hhi, -, -, htext⟩ | ⟨hnot, htext⟩
  · rw [htext]
    rfl
  · rw [htext, not_isDigit_of_simple hc]
    rfl
  · rw [htext, isDigitByte_eq, ← (ofNat_printable hlo hhi).2]
    rfl
  · rw [htext, isDigitByte_eq, ← Bool.decide_and, decide_eq_false (by omega)]
    rfl

include hq in
theorem escaped_digit {b : UInt8} (hb : isDigitByte b = true) :
    ∃ d : Char, d.isDigit = true ∧ escaped quoteChar b = [d] := by
  have hhead := headIsDigit_escaped hq b []
  rw [hb, List.append_nil] at hhead
  rcases escaped_cases hq b with
    ⟨-, htext⟩ | ⟨c, -, htext⟩ | ⟨-, -, -, -, htext⟩ | ⟨-, htext⟩
  · rw [htext] at hhead
    cases hhead
  · rw [htext] at hhead
    cases hhead
  · rw [htext] at hhead
    exact ⟨_, hhead, htext⟩
  · rw [htext] at hhead
    cases hhead

end Escaped

/-- No digit directly after a zero byte. -/
def NulSeparated (bytes : ByteString) : Prop :=
  bytes.IsChain fun a b => ¬ (a = 0 ∧ isDigitByte b = true)

instance (bytes : ByteString) : Decidable (NulSeparated bytes) :=
  inferInstanceAs (Decidable (List.IsChain _ _))

/-- A digit that another digit does not follow ends the escape. -/
theorem decimalEscape_short (first d : Char) {rest : List Char} (hd : d.isDigit = true)
    (h : headIsDigit rest = false) : decimalEscape first (d::rest) = ([first, d], rest) := by
  cases rest with
  | nil => rw [decimalEscape, if_pos hd]
  | cons c rest =>
    have hc : c.isDigit = false := h
    rw [decimalEscape, if_pos hd, if_neg (by simp [hc])]

theorem decode_zero_digits (rest : List Char) :
    decode ('\\' :: '0' :: rest) = byteOf (digitsValue (decimalEscape '0' rest).1) ::
      decode (decimalEscape '0' rest).2 := by
  rw [decode_escape, escape, if_pos (by decide)]
  rfl

/-- The text of a zero byte and a digit: the digit, and perhaps one more, is lost in the escape. -/
theorem decode_merged {quoteChar : Char} (hq : quoteChar = '"' ∨ quoteChar = '\'') {b : UInt8}
    (hb : isDigitByte b = true) (bytes : ByteString) :
    ∃ merged rest, rest <:+ bytes ∧
      decode ((0 :: b :: bytes).flatMap (escaped quoteChar)) =
        merged :: decode (rest.flatMap (escaped quoteChar)) := by
  obtain ⟨d, hd, htext⟩ := escaped_digit hq hb
  have hnul : escaped quoteChar 0 = ['\\', '0'] := rfl
  rw [List.flatMap_cons, List.flatMap_cons, hnul, htext]
  show ∃ merged rest, rest <:+ bytes ∧
    decode ('\\' :: '0' :: d :: bytes.flatMap (escaped quoteChar)) = _
  rw [decode_zero_digits]
  cases bytes with
  | nil => exact ⟨_, [], List.suffix_rfl, by rw [decimalEscape_short '0' d hd rfl]⟩
  | cons b' bytes =>
    cases hb' : isDigitByte b' with
    | true =>
      obtain ⟨d', hd', htext'⟩ := escaped_digit hq hb'
      refine ⟨byteOf (digitsValue ['0', d, d']), bytes, List.suffix_cons b' bytes, ?_⟩
      rw [List.flatMap_cons, htext', List.singleton_append, decimalEscape, if_pos hd, if_pos hd']
    | false =>
      refine ⟨byteOf (digitsValue ['0', d]), b'::bytes, List.suffix_rfl, ?_⟩
      rw [decimalEscape_short '0' d hd]
      rw [List.flatMap_cons, headIsDigit_escaped hq, hb']

/-- Decoding gives at most the bytes that were printed. -/
theorem length_decode_le {quoteChar : Char} (hq : quoteChar = '"' ∨ quoteChar = '\'')
    (bytes : ByteString) : (decode (bytes.flatMap (escaped quoteChar))).length ≤ bytes.length := by
  induction h : bytes.length using Nat.strongRecOn generalizing bytes with
  | ind n ih =>
    cases bytes with
    | nil => simp [decode]
    | cons b bytes =>
      simp only [List.length_cons] at h
      by_cases hmerge : b = 0 ∧ headIsDigit (bytes.flatMap (escaped quoteChar)) = true
      · obtain ⟨rfl, hhead⟩ := hmerge
        cases bytes with
        | nil => cases hhead
        | cons b' bytes =>
          rw [List.flatMap_cons, headIsDigit_escaped hq] at hhead
          obtain ⟨merged, rest, hrest, heq⟩ := decode_merged hq hhead bytes
          have hle := hrest.length_le
          simp only [List.length_cons] at h
          have hdecoded := ih rest.length (by omega) rest rfl
          rw [heq, List.length_cons]
          omega
      · have hsplit : b = 0 → headIsDigit (bytes.flatMap (escaped quoteChar)) = false :=
          fun hb => by simpa [hb] using hmerge
        have hdecoded := ih bytes.length (by omega) bytes rfl
        rw [List.flatMap_cons, decode_escaped hq b hsplit, List.length_cons]
        omega

theorem decode_flatMap_iff {quoteChar : Char} (hq : quoteChar = '"' ∨ quoteChar = '\'')
    (bytes : ByteString) :
    decode (bytes.flatMap (escaped quoteChar)) = bytes ↔ NulSeparated bytes := by
  induction bytes with
  | nil => simp [decode, NulSeparated]
  | cons b bytes ih =>
    cases bytes with
    | nil =>
      rw [List.flatMap_cons, List.flatMap_nil, decode_escaped hq b (fun _ => rfl)]
      simp [decode, NulSeparated]
    | cons b' bytes =>
      by_cases hmerge : b = 0 ∧ isDigitByte b' = true
      · obtain ⟨merged, rest, hrest, heq⟩ := decode_merged hq hmerge.2 bytes
        have hle := hrest.length_le
        have hdecoded := length_decode_le hq rest
        constructor
        · intro heq'
          rw [hmerge.1, heq] at heq'
          have hlen := congrArg List.length heq'
          simp only [List.length_cons] at hlen
          omega
        · intro hseparated
          exact absurd hmerge (List.isChain_cons_cons.mp hseparated).1
      · have hsplit : b = 0 → headIsDigit ((b'::bytes).flatMap (escaped quoteChar)) = false := by
          intro hb
          rw [List.flatMap_cons, headIsDigit_escaped hq]
          simpa [hb] using hmerge
        rw [List.flatMap_cons, decode_escaped hq b hsplit, List.cons.injEq, ih, NulSeparated,
          NulSeparated, List.isChain_cons_cons]
        simp [hmerge]

theorem fromLuaLiteral_quoted {quoteChar : Char} (hq : quoteChar = '"' ∨ quoteChar = '\'')
    (content : List Char) :
    fromLuaLiteral (quoteChar :: content ++ [quoteChar]) = decode content := by
  have hlast : (quoteChar :: content ++ [quoteChar]).getLast? = some quoteChar :=
    List.getLast?_concat
  rw [fromLuaLiteral, if_pos]
  · simp
  · rcases hq with rfl | rfl
    · exact Or.inl ⟨rfl, hlast⟩
    · exact Or.inr ⟨rfl, hlast⟩

/-- A byte string comes back from its literal exactly if no zero byte stands before a digit. -/
theorem fromLuaLiteral_toLuaLiteral_iff (bytes : ByteString) (quoteChar : Char)
    (hq : quoteChar = '"' ∨ quoteChar = '\'') :
    fromLuaLiteral (toLuaLiteral bytes quoteChar) = bytes ↔ NulSeparated bytes := by
  rw [toLuaLiteral, fromLuaLiteral_quoted hq, decode_flatMap_iff hq]

/-- A string without a zero byte, in single quotes. -/
theorem fromLuaLiteral_toLuaLiteral_plain :
    fromLuaLiteral (toLuaLiteral [39, 0, 65, 255] '\'') = [39, 0, 65, 255] :=
  (fromLuaLiteral_toLuaLiteral_iff [39, 0, 65, 255] '\'' (Or.inr rfl)).mpr (by decide)

/-- A zero byte and the digit `1`: the literal is that of the byte 1. -/
theorem fromLuaLiteral_toLuaLiteral_digit :
    fromLuaLiteral (toLuaLiteral [0, 49] '"') = [1] ∧
      fromLuaLiteral (toLuaLiteral [0, 49] '"') ≠ [0, 49] := by
  decide +kernel

end ByteString
end LuaRecovery.Lua
