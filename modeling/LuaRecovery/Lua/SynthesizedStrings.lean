import LuaRecovery.Lua.LiteralRoundTrip
import LuaRecovery.Lua.TextLexing

/-!
# Strings that the tool makes up

The `StringLiteral` case of `exprToString` in `generator/lua-generator.js`, for
a value that is a `ByteString` or a JavaScript string. The latter is printed as
JSON, whose escapes are not all of them Lua's.
-/

set_option autoImplicit false

namespace LuaRecovery.Lua
open LuaRecovery.Lib

/-- The value of a string node. -/
inductive LiteralValue where
  | bytes (value : ByteString)
  | text (value : List Char)
  | other

/-- A character in the text of `JSON.stringify`. -/
def jsonEscaped (c : Char) : List Char :=
  if c = '"' then ['\\', '"']
  else if c = '\\' then ['\\', '\\']
  else if c.toNat = 8 then ['\\', 'b']
  else if c.toNat = 9 then ['\\', 't']
  else if c.toNat = 10 then ['\\', 'n']
  else if c.toNat = 12 then ['\\', 'f']
  else if c.toNat = 13 then ['\\', 'r']
  else if c.toNat < 32 then
    ['\\', 'u', '0', '0', Nat.digitChar (c.toNat / 16), Nat.digitChar (c.toNat % 16)]
  else [c]

def jsonText (s : List Char) : List Char := '"' :: s.flatMap jsonEscaped ++ ['"']

def stringLiteralText (value : LiteralValue) (raw : List Char) : List Char :=
  match value with
  | .bytes value => ByteString.toLuaLiteral value '"'
  | .text value => jsonText value
  | .other => if raw = [] then ['"', '"'] else raw

/-- The text is read as one string of the given bytes, whatever follows it. -/
def ReadsAs (N : Type) [Numerals N] (text : List Char) (bytes : ByteString) : Prop :=
  ∀ ch cs rest, text ++ rest = ch::cs → ∃ t : Lexeme N, Lexer.scan ch cs = .token t rest 0 ∧
    t.type = .string ∧ t.value = .bytes bytes

/-- The control characters that JSON has no short escape for. -/
def isLongControl (c : Char) : Bool :=
  c.toNat < 32 && c.toNat ∉ [8, 9, 10, 12, 13]

def charBytes (s : List Char) : ByteString := s.map fun c => UInt8.ofNat c.toNat

section Reading

theorem jsonEscaped_control {c : Char} (h : isLongControl c = true) :
    jsonEscaped c =
      ['\\', 'u', '0', '0', Nat.digitChar (c.toNat / 16), Nat.digitChar (c.toNat % 16)] := by
  simp only [isLongControl, Bool.and_eq_true, decide_eq_true_eq, List.mem_cons,
    List.not_mem_nil, or_false, not_or] at h
  obtain ⟨hlt, h₁, h₂, h₃, h₄, h₅⟩ := h
  have hquote : c ≠ '"' := by
    rintro rfl
    exact absurd hlt (by decide)
  have hslash : c ≠ '\\' := by
    rintro rfl
    exact absurd hlt (by decide)
  rw [jsonEscaped, if_neg hquote, if_neg hslash, if_neg h₁, if_neg h₂, if_neg h₃, if_neg h₄,
    if_neg h₅, if_pos hlt]

/-- The lexer goes over a character's text as over a part of the string. -/
theorem readString_jsonEscaped {cs content rest : List Char} (c : Char)
    (h : Lexer.readString '"' cs = .ok (content, rest)) :
    Lexer.readString '"' (jsonEscaped c ++ cs) = .ok (jsonEscaped c ++ content, rest) := by
  have hdigit : ∀ n, n < 16 → Nat.digitChar n ≠ '\\' ∧ Nat.digitChar n ≠ '"' ∧
      Nat.digitChar n ≠ '\n' ∧ Nat.digitChar n ≠ '\r' := by decide
  unfold jsonEscaped
  iterate 7
    split
    · exact readString_escape h _
  split
  · obtain ⟨h₁, h₂, h₃, h₄⟩ := hdigit (c.toNat % 16) (by omega)
    obtain ⟨h₅, h₆, h₇, h₈⟩ := hdigit (c.toNat / 16) (by omega)
    have hzero : '0' ≠ '\\' ∧ '0' ≠ '"' ∧ '0' ≠ '\n' ∧ '0' ≠ '\r' := by decide
    obtain ⟨z₁, z₂, z₃, z₄⟩ := hzero
    have hlow := readString_plain h h₁ h₂ h₃ h₄
    have hhigh := readString_plain hlow h₅ h₆ h₇ h₈
    exact readString_escape
      (readString_plain (readString_plain hhigh z₁ z₂ z₃ z₄) z₁ z₂ z₃ z₄) 'u'
  next hquote hslash h₁ h₂ h₃ h₄ h₅ hlt =>
    refine readString_plain h hslash hquote ?_ ?_
    · rintro rfl
      exact h₃ rfl
    · rintro rfl
      exact h₅ rfl

theorem readString_jsonText (s cs : List Char) :
    Lexer.readString '"' (s.flatMap jsonEscaped ++ '"' :: cs) =
      .ok (s.flatMap jsonEscaped ++ ['"'], cs) := by
  induction s with
  | nil => rfl
  | cons c s ih =>
    rw [List.flatMap_cons, List.append_assoc, readString_jsonEscaped c ih, List.append_assoc]

theorem scan_jsonText {N : Type} [Numerals N] (s rest : List Char) :
    (Lexer.scan '"' (s.flatMap jsonEscaped ++ '"' :: rest) : Lexer.Scan N) =
      .token (.quoted (jsonText s)) rest 0 := by
  simp [Lexer.scan, Lexer.isBlank, readString_jsonText, jsonText]

/-- Reading a JSON text gives the bytes that its escapes decode to. -/
theorem readsAs_jsonText_iff {N : Type} [Numerals N] (s : List Char) (bytes : ByteString) :
    ReadsAs N (jsonText s) bytes ↔ ByteString.decode (s.flatMap jsonEscaped) = bytes := by
  have hdecode : ByteString.fromLuaLiteral (jsonText s) =
      ByteString.decode (s.flatMap jsonEscaped) := ByteString.fromLuaLiteral_quoted (Or.inl rfl) _
  have hsource : ∀ rest, jsonText s ++ rest = '"' :: (s.flatMap jsonEscaped ++ '"' :: rest) := by
    intro rest
    simp [jsonText]
  constructor
  · intro h
    obtain ⟨t, hscan, -, hvalue⟩ := h '"' _ [] (hsource [])
    rw [scan_jsonText] at hscan
    cases hscan
    rw [← hdecode]
    exact TokenValue.bytes.inj hvalue
  · intro h ch cs rest heq
    rw [hsource] at heq
    cases heq
    exact ⟨_, scan_jsonText s rest, rfl, by rw [← h, ← hdecode]; rfl⟩

end Reading

section Decoding

/-- What the text of a character decodes to. -/
def jsonBytes (c : Char) : ByteString :=
  if isLongControl c then
    [117, 48, 48, UInt8.ofNat (Nat.digitChar (c.toNat / 16)).toNat,
      UInt8.ofNat (Nat.digitChar (c.toNat % 16)).toNat]
  else [UInt8.ofNat c.toNat]

theorem decode_jsonEscaped {c : Char} (hc : c.toNat < 256) (rest : List Char) :
    ByteString.decode (jsonEscaped c ++ rest) = jsonBytes c ++ ByteString.decode rest := by
  by_cases hcontrol : isLongControl c = true
  · have hdigit : ∀ n, n < 16 → Nat.digitChar n ≠ '\\' ∧ (Nat.digitChar n).toNat < 256 := by decide
    obtain ⟨h₁, h₂⟩ := hdigit (c.toNat / 16) (by omega)
    obtain ⟨h₃, h₄⟩ := hdigit (c.toNat % 16) (by omega)
    have hu : ∀ cs, ByteString.escape 'u' cs = ([117], cs) := fun cs => rfl
    have hzero : ByteString.latin1 '0' = [48] := rfl
    rw [jsonEscaped_control hcontrol, jsonBytes, if_pos hcontrol]
    simp only [List.cons_append, List.nil_append]
    rw [ByteString.decode_escape, hu, ByteString.decode_plain (by decide),
      ByteString.decode_plain (by decide), ByteString.decode_plain h₁, ByteString.decode_plain h₃,
      ByteString.latin1_of_lt h₂, ByteString.latin1_of_lt h₄, hzero]
    rfl
  · rw [jsonBytes, if_neg hcontrol]
    unfold jsonEscaped
    split
    next heq =>
      subst heq
      exact ByteString.decode_simple rfl rest
    split
    next heq =>
      subst heq
      exact ByteString.decode_simple rfl rest
    iterate 5
      split
      next heq =>
        rw [heq]
        exact ByteString.decode_simple rfl rest
    split
    next h₁ h₂ h₃ h₄ h₅ hlt =>
      exact absurd (by simp [isLongControl, hlt, h₁, h₂, h₃, h₄, h₅]) hcontrol
    next hquote hslash h₁ h₂ h₃ h₄ h₅ hlt =>
      rw [List.singleton_append, ByteString.decode_plain hslash, ByteString.latin1_of_lt hc]

theorem decode_flatMap_jsonEscaped {s : List Char} (hs : ∀ c ∈ s, c.toNat < 256) :
    ByteString.decode (s.flatMap jsonEscaped) = s.flatMap jsonBytes := by
  induction s with
  | nil => simp [ByteString.decode]
  | cons c s ih =>
    rw [List.flatMap_cons, decode_jsonEscaped (hs c (by simp)),
      ih fun d hd => hs d (by simp [hd]), List.flatMap_cons]

theorem length_le_flatMap_jsonBytes (s : List Char) :
    s.length ≤ (s.flatMap jsonBytes).length := by
  induction s with
  | nil => simp
  | cons c s ih =>
    have hc : 1 ≤ (jsonBytes c).length := by
      unfold jsonBytes
      split <;> simp
    simp only [List.flatMap_cons, List.length_append, List.length_cons]
    omega

/-- A long escape makes five bytes of one, and no other text makes up for them. -/
theorem flatMap_jsonBytes_iff (s : List Char) :
    s.flatMap jsonBytes = charBytes s ↔ ∀ c ∈ s, isLongControl c = false := by
  induction s with
  | nil => simp [charBytes]
  | cons c s ih =>
    cases hc : isLongControl c with
    | true =>
      have hlen := length_le_flatMap_jsonBytes s
      constructor
      · intro heq
        have hfive : (jsonBytes c).length = 5 := by simp [jsonBytes, hc]
        have hlength := congrArg List.length heq
        rw [List.flatMap_cons, List.length_append, hfive, charBytes, List.length_map,
          List.length_cons] at hlength
        omega
      · intro h
        have hfalse := h c (by simp)
        rw [hc] at hfalse
        cases hfalse
    | false =>
      have hhead : jsonBytes c = [UInt8.ofNat c.toNat] := by simp [jsonBytes, hc]
      rw [List.flatMap_cons, hhead, charBytes, List.map_cons, List.singleton_append,
        List.cons.injEq, ← charBytes, ih]
      simp [hc]

end Decoding

/-- A string of one-byte characters is printed as it should be exactly if it has no control
character that JSON spells with `\u`. -/
theorem stringLiteralText_reads_iff {N : Type} [Numerals N] (s raw : List Char)
    (hs : ∀ c ∈ s, c.toNat < 256) :
    ReadsAs N (stringLiteralText (.text s) raw) (charBytes s) ↔
      ∀ c ∈ s, isLongControl c = false := by
  rw [stringLiteralText, readsAs_jsonText_iff, decode_flatMap_jsonEscaped hs,
    flatMap_jsonBytes_iff]

/-- The numerals of the natural numbers; there are none in what follows. -/
@[reducible] def naturalNumerals : Numerals ℕ where
  number := ByteString.digitsValue
  text := Nat.toDigits 10

/-- A string with a tab, a quote, a digit after a backslash and a high byte. -/
theorem stringLiteralText_reads_mixed :
    @ReadsAs ℕ naturalNumerals (stringLiteralText (.text ['\t', '"', '\\', '7', 'é']) [])
      [9, 34, 92, 55, 233] :=
  (@stringLiteralText_reads_iff ℕ naturalNumerals ['\t', '"', '\\', '7', 'é'] []
    (by simp)).mpr (by simp [isLongControl])

/-- The string of the character U+0001 is printed as `"\u0001"`, whose bytes are `u0001`. -/
theorem stringLiteralText_control :
    stringLiteralText (.text [Char.ofNat 1]) [] = "\"\\u0001\"".toList ∧
      ¬ @ReadsAs ℕ naturalNumerals (stringLiteralText (.text [Char.ofNat 1]) []) [1] := by
  refine ⟨by decide, fun h => ?_⟩
  rw [stringLiteralText, @readsAs_jsonText_iff ℕ naturalNumerals] at h
  exact absurd h (by decide +kernel)

end LuaRecovery.Lua
