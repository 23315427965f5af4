import LuaRecovery.Lua.SynthesizedStrings

/-!
# What Lua makes of a string literal

Lua reads the bytes of a source and the tool its UTF-16 code units. The
relations below say which bytes Lua gives a literal; the texts they do not
mention are no literals, or have escapes that the decoder does not document.
-/

set_option autoImplicit false

namespace LuaRecovery.Lua
open LuaRecovery.Lib Lexer

def luaEscape : Char → Option UInt8
  | 'a' => some 7
  | 'b' => some 8
  | 'f' => some 12
  | 'n' => some 10
  | 'r' => some 13
  | 't' => some 9
  | 'v' => some 11
  | '\\' => some 92
  | '"' => some 34
  | '\'' => some 39
  | _ => none

def isLuaSpace (c : Char) : Bool := c.toNat ∈ [9, 10, 11, 12, 13, 32]

/-- One line break, of one or two characters. -/
def IsNewline (nl : List Char) : Prop :=
  nl = ['\n'] ∨ nl = ['\r'] ∨ nl = ['\r', '\n'] ∨ nl = ['\n', '\r']

def headIs (p : Char → Bool) (cs : List Char) : Bool := cs.head?.any p

/-- The text between the quotes, and its bytes. -/
inductive LuaQuoted (quote : Char) : List Char → ByteString → Prop
  | nil : LuaQuoted quote [] []
  | plain {c : Char} {content : List Char} {bytes : ByteString} : c ≠ quote → c ≠ '\\' →
      c ≠ '\n' → c ≠ '\r' → LuaQuoted quote content bytes →
      LuaQuoted quote (c::content) (String.utf8EncodeChar c ++ bytes)
  | simple {c : Char} {b : UInt8} {content : List Char} {bytes : ByteString} :
      luaEscape c = some b → LuaQuoted quote content bytes →
      LuaQuoted quote ('\\' :: c::content) (b::bytes)
  | decimal {ds content : List Char} {bytes : ByteString} : ds ≠ [] → ds.length ≤ 3 →
      (∀ d ∈ ds, d.isDigit = true) → (ds.length < 3 → headIs Char.isDigit content = false) →
      ByteString.digitsValue ds ≤ 255 → LuaQuoted quote content bytes →
      LuaQuoted quote ('\\' :: ds ++ content) (UInt8.ofNat (ByteString.digitsValue ds) :: bytes)
  | hex {a b : Char} {content : List Char} {bytes : ByteString} : isHexDigit a = true →
      isHexDigit b = true → LuaQuoted quote content bytes →
      LuaQuoted quote ('\\' :: 'x' :: a::b::content)
        (UInt8.ofNat (16 * hexValue a + hexValue b) :: bytes)
  | skip {spaces content : List Char} {bytes : ByteString} :
      (∀ c ∈ spaces, isLuaSpace c = true) → headIs isLuaSpace content = false →
      LuaQuoted quote content bytes → LuaQuoted quote ('\\' :: 'z' :: spaces ++ content) bytes
  | newline {nl content : List Char} {bytes : ByteString} : IsNewline nl →
      LuaQuoted quote content bytes → LuaQuoted quote ('\\' :: nl ++ content) (10::bytes)

/-- The bytes of the lines of a long string: every line break is a newline. -/
def luaLines : List Char → ByteString
  | '\r' :: '\n' :: cs => 10 :: luaLines cs
  | '\n' :: '\r' :: cs => 10 :: luaLines cs
  | '\r' :: cs => 10 :: luaLines cs
  | '\n' :: cs => 10 :: luaLines cs
  | c::cs => String.utf8EncodeChar c ++ luaLines cs
  | [] => []

def dropNewline : List Char → List Char
  | '\r' :: '\n' :: cs => cs
  | '\n' :: '\r' :: cs => cs
  | '\r' :: cs => cs
  | '\n' :: cs => cs
  | cs => cs

/-- The sequence does not begin before the end of the content. -/
def FirstAt (close content : List Char) : Prop :=
  ∀ before after, content ++ close = before ++ close ++ after → after = []

/-- A literal and its bytes. -/
inductive LuaLiteral : List Char → ByteString → Prop
  | quoted {quote : Char} {content : List Char} {bytes : ByteString} :
      quote = '"' ∨ quote = '\'' → LuaQuoted quote content bytes →
      LuaLiteral (quote :: content ++ [quote]) bytes
  | long {level : ℕ} {content : List Char} : FirstAt (closing level) content →
      LuaLiteral ('[' :: List.replicate level '=' ++ '[' :: content ++ closing level)
        (luaLines (dropNewline content))

/-- Every line break stands directly after a backslash that is not itself escaped. -/
def breaksEscaped : List Char → Bool
  | '\\' :: _ :: cs => breaksEscaped cs
  | c::cs => c ≠ '\n' && c ≠ '\r' && breaksEscaped cs
  | [] => true

/-- The literals that the tool reads as Lua does: ASCII text without carriage returns, and without
the newlines that `\z` skips. -/
def IsPortable (text : List Char) : Prop :=
  (∀ c ∈ text, c.toNat < 128 ∧ c ≠ '\r') ∧ (text.head? = some '[' ∨ breaksEscaped text = true)

instance (text : List Char) : Decidable (IsPortable text) :=
  @instDecidableAnd _ _ (List.decidableBAll _ text) _

section Bytes

theorem utf8EncodeChar_ascii {c : Char} (h : c.toNat < 128) :
    String.utf8EncodeChar c = [UInt8.ofNat c.toNat] := by
  rw [String.utf8EncodeChar]
  exact if_pos (by show c.toNat ≤ 127; omega)

theorem latin1_length_le (c : Char) :
    (ByteString.latin1 c).length ≤ (String.utf8EncodeChar c).length ∧
      ((ByteString.latin1 c).length = (String.utf8EncodeChar c).length ↔ c.toNat < 128) := by
  rw [ByteString.latin1, List.length_map, String.length_utf8EncodeChar]
  exact utf8Size_le c

theorem latin1_ascii {c : Char} (h : c.toNat < 128) :
    ByteString.latin1 c = String.utf8EncodeChar c := by
  rw [utf8EncodeChar_ascii h, ByteString.latin1_of_lt (by omega)]

theorem simpleEscape_eq (c : Char) : ByteString.simpleEscape c = luaEscape c := by
  unfold ByteString.simpleEscape luaEscape
  rfl

end Bytes

section Breaks

theorem breaksEscaped_plain {c : Char} (h : c ≠ '\\') (cs : List Char) :
    breaksEscaped (c::cs) = (c ≠ '\n' && c ≠ '\r' && breaksEscaped cs) := by
  rw [breaksEscaped]
  exact fun _ _ hc _ => h hc

theorem breaksEscaped_append {cs : List Char} (h : ∀ c ∈ cs, c ≠ '\\') (rest : List Char) :
    breaksEscaped (cs++rest) =
      (cs.all (fun c => c ≠ '\n' && c ≠ '\r') && breaksEscaped rest) := by
  induction cs with
  | nil => rfl
  | cons c cs ih =>
    rw [List.cons_append, breaksEscaped_plain (h c (by simp)), ih fun d hd => h d (by simp [hd]),
      List.all_cons]
    simp only [Bool.and_assoc]

/-- What the lexer accepts has no bare line break. -/
theorem breaksEscaped_of_read {quote : Char} {content rest : List Char}
    (h : readString quote (content ++ quote :: rest) = .ok (content ++ [quote], rest)) :
    breaksEscaped content = true := by
  induction content using breaksEscaped.induct with
  | case1 c cs ih =>
    rw [List.cons_append, List.cons_append] at h
    cases hread : readString quote (cs ++ quote :: rest) with
    | error message =>
      rw [readString, hread] at h
      cases h
    | ok result =>
      rw [readString, hread] at h
      obtain ⟨content', rest'⟩ := result
      rw [breaksEscaped]
      refine ih ?_
      rw [hread]
      have hresult := Except.ok.inj h
      simp only [List.cons_append, Prod.mk.injEq, List.cons.injEq, true_and] at hresult
      rw [hresult.1, hresult.2]
  | case2 c cs hpair ih =>
    by_cases hslash : c = '\\'
    · subst hslash
      cases cs with
      | nil => rfl
      | cons d cs => exact absurd rfl (hpair d cs rfl)
    have hstep := h
    rw [List.cons_append, readString] at hstep
    · by_cases hquote : c = quote
      · rw [if_pos hquote] at hstep
        have hlength := congrArg (fun r => r.1.length) (Except.ok.inj hstep)
        simp at hlength
      rw [if_neg hquote] at hstep
      by_cases hbreak : c = '\n' ∨ c = '\r'
      · rw [if_pos hbreak] at hstep
        cases hstep
      rw [if_neg hbreak] at hstep
      rw [not_or] at hbreak
      cases hread : readString quote (cs ++ quote :: rest) with
      | error message =>
        rw [hread] at hstep
        cases hstep
      | ok result =>
        rw [hread] at hstep
        obtain ⟨content', rest'⟩ := result
        have hresult := Except.ok.inj hstep
        simp only [List.cons_append, Prod.mk.injEq, List.cons.injEq, true_and] at hresult
        rw [hresult.1, hresult.2] at hread
        simp [breaksEscaped_plain hslash, hbreak, ih hread]
    · exact fun hc _ => hslash hc
    · exact fun _ _ hc _ => hslash hc
  | case3 => rfl

end Breaks

section Escapes
open ByteString

theorem decode_digits {ds content : List Char} (hne : ds ≠ []) (hlen : ds.length ≤ 3)
    (hdigits : ∀ d ∈ ds, d.isDigit = true)
    (hstop : ds.length < 3 → headIs Char.isDigit content = false) :
    decode ('\\' :: ds ++ content) = byteOf (digitsValue ds) :: decode content := by
  have hread : ∃ d rest, ds ++ content = d::rest ∧ d.isDigit = true ∧
      decimalEscape d rest = (ds, content) := by
    match ds with
    | [] => exact absurd rfl hne
    | [a] =>
      refine ⟨a, content, rfl, hdigits a (by simp), ?_⟩
      have hhead : headIsDigit content = false := hstop (by simp)
      cases content with
      | nil => rfl
      | cons c content =>
        have hc : c.isDigit = false := hhead
        cases content <;> simp [decimalEscape, hc]
    | [a, b] =>
      exact ⟨a, b::content, rfl, hdigits a (by simp),
        decimalEscape_short a b (hdigits b (by simp)) (hstop (by simp))⟩
    | [a, b, c] =>
      refine ⟨a, b::c::content, rfl, hdigits a (by simp), ?_⟩
      rw [decimalEscape, if_pos (hdigits b (by simp)), if_pos (hdigits c (by simp))]
    | _::_::_::_::_ =>
      simp only [List.length_cons] at hlen
      omega
  obtain ⟨d, rest, heq, hd, hescape⟩ := hread
  rw [List.cons_append, heq, decode_escape, escape, if_pos hd, hescape]
  rfl

theorem decode_hex {a b : Char} (ha : isHexDigit a = true) (hb : isHexDigit b = true)
    (content : List Char) :
    decode ('\\' :: 'x' :: a::b::content) =
      byteOf (16 * hexValue a + hexValue b) :: decode content := by
  have hescape : escape 'x' (a::b::content) =
      ([byteOf (16 * hexValue a + hexValue b)], content) := by
    rw [escape, if_neg (by decide), if_pos (Or.inl rfl), hexEscape, if_pos ⟨ha, hb⟩]
  rw [decode_escape, hescape]
  rfl

theorem decode_skip (content : List Char) :
    decode ('\\' :: 'z' :: content) = decode (content.dropWhile isJsSpace) := by
  have hescape : escape 'z' content = ([], content.dropWhile isJsSpace) := by
    rw [escape, if_neg (by decide), if_neg (by decide), if_pos rfl]
  rw [decode_escape, hescape]
  rfl

theorem isJsSpace_of_lua {c : Char} (h : isLuaSpace c = true) : isJsSpace c = true := by
  simp only [isLuaSpace, List.mem_cons, List.not_mem_nil, or_false, decide_eq_true_eq] at h
  simp only [isJsSpace, List.mem_cons, List.not_mem_nil, or_false, Bool.or_eq_true,
    decide_eq_true_eq]
  omega

/-- The white space of JavaScript that is ASCII is Lua's. -/
theorem isLuaSpace_of_js {c : Char} (h : isJsSpace c = true) (hc : c.toNat < 128) :
    isLuaSpace c = true := by
  simp only [isJsSpace, List.mem_cons, List.not_mem_nil, or_false, Bool.or_eq_true,
    Bool.and_eq_true, decide_eq_true_eq] at h
  simp only [isLuaSpace, List.mem_cons, List.not_mem_nil, or_false, decide_eq_true_eq]
  omega

theorem ne_backslash_of_space {c : Char} (h : isJsSpace c = true) : c ≠ '\\' := by
  rintro rfl
  exact absurd h (by decide)

/-- Dropping spaces loses bytes, if there are any spaces. -/
theorem decode_dropWhile (cs : List Char) :
    cs.dropWhile isJsSpace = cs ∨
      (decode (cs.dropWhile isJsSpace)).length < (decode cs).length := by
  induction cs with
  | nil => exact Or.inl rfl
  | cons c cs ih =>
    cases hc : isJsSpace c with
    | false => exact Or.inl (by rw [List.dropWhile_cons_of_neg (by simp [hc])])
    | true =>
      have hpos : 1 ≤ (latin1 c).length := by
        rw [latin1, List.length_map, charUnits]
        split <;> simp
      rw [List.dropWhile_cons_of_pos hc, decode_plain (ne_backslash_of_space hc),
        List.length_append]
      rcases ih with heq | hlt
      · exact Or.inr (by rw [heq]; omega)
      · exact Or.inr (by omega)

theorem byteOf_eq {n : ℕ} (h : n ≤ 255) : byteOf n = UInt8.ofNat n := by
  rw [byteOf, Nat.mod_eq_of_lt (by omega)]

theorem isDigit_range {c : Char} (h : c.isDigit = true) : 48 ≤ c.toNat ∧ c.toNat ≤ 57 := by
  simp only [Char.isDigit, Bool.and_eq_true, decide_eq_true_eq, UInt32.le_iff_toNat_le] at h
  exact h

theorem isHexDigit_range {c : Char} (h : isHexDigit c = true) :
    (48 ≤ c.toNat ∧ c.toNat ≤ 57) ∨ (97 ≤ c.toNat ∧ c.toNat ≤ 102) ∨
      (65 ≤ c.toNat ∧ c.toNat ≤ 70) := by
  simp only [isHexDigit, Bool.or_eq_true, Bool.and_eq_true, decide_eq_true_eq, Char.le_def,
    UInt32.le_iff_toNat_le] at h
  rcases h with (hdigit | hlower) | hupper
  · exact Or.inl (isDigit_range hdigit)
  · exact Or.inr (Or.inl hlower)
  · exact Or.inr (Or.inr hupper)

theorem hexValue_lt {c : Char} (h : isHexDigit c = true) : hexValue c < 16 := by
  have hrange := isHexDigit_range h
  have hzero : '0'.toNat = 48 := rfl
  have ha : 'a'.toNat = 97 := rfl
  have hA : 'A'.toNat = 65 := rfl
  unfold hexValue
  split
  next hdigit =>
    have := isDigit_range hdigit
    omega
  next hdigit =>
    have hnot : ¬ (48 ≤ c.toNat ∧ c.toNat ≤ 57) := by
      intro hin
      simp only [Char.isDigit, Bool.and_eq_true, decide_eq_true_eq, UInt32.le_iff_toNat_le] at hdigit
      exact hdigit hin
    split
    next hlower =>
      rw [Char.le_def, UInt32.le_iff_toNat_le] at hlower
      have hle : 97 ≤ c.toNat := hlower
      omega
    next hlower =>
      have hlt : ¬ 97 ≤ c.toNat := by
        intro hle
        exact hlower (by rw [Char.le_def, UInt32.le_iff_toNat_le]; exact hle)
      omega

/-- A character that stands for itself, and is read alike by both. -/
def IsPlain (c : Char) : Prop :=
  c ≠ '\\' ∧ c ≠ '"' ∧ c ≠ '\'' ∧ c ≠ '\n' ∧ c ≠ '\r' ∧ c.toNat < 128

theorem isPlain_of_toNat {c : Char} (h : c.toNat < 128)
    (hne : c.toNat ∉ [92, 34, 39, 10, 13]) : IsPlain c := by
  refine ⟨?_, ?_, ?_, ?_, ?_, h⟩
  all_goals
    rintro rfl
    exact hne (by decide)

theorem isPlain_of_digit {c : Char} (h : c.isDigit = true) : IsPlain c := by
  have hrange := isDigit_range h
  exact isPlain_of_toNat (by omega) (by simp; omega)

theorem isPlain_of_hex {c : Char} (h : isHexDigit c = true) : IsPlain c := by
  have hrange := isHexDigit_range h
  exact isPlain_of_toNat (by omega) (by simp; omega)

theorem isPlain_of_space {c : Char} (h : isLuaSpace c = true) (hn : c ≠ '\n') (hr : c ≠ '\r') :
    IsPlain c := by
  simp only [isLuaSpace, List.mem_cons, List.not_mem_nil, or_false, decide_eq_true_eq] at h
  refine ⟨?_, ?_, ?_, hn, hr, by omega⟩
  all_goals
    rintro rfl
    revert h
    decide

end Escapes

section Quoted
variable {quote : Char} {content : List Char} {bytes : ByteString}

/-- A run of plain characters is read as it stands. -/
theorem readString_run (hq : quote = '"' ∨ quote = '\'') {ds cs read rest : List Char}
    (hds : ∀ c ∈ ds, IsPlain c) (h : readString quote cs = .ok (read, rest)) :
    readString quote (ds++cs) = .ok (ds++read, rest) := by
  induction ds with
  | nil => exact h
  | cons c ds ih =>
    obtain ⟨hslash, hdouble, hsingle, hn, hr, -⟩ := hds c (by simp)
    have hquote : c ≠ quote := by
      rcases hq with rfl | rfl
      · exact hdouble
      · exact hsingle
    exact readString_plain (ih fun d hd => hds d (by simp [hd])) hslash hquote hn hr

theorem breaksEscaped_run {ds : List Char} (hds : ∀ c ∈ ds, IsPlain c) (rest : List Char) :
    breaksEscaped (ds++rest) = breaksEscaped rest := by
  rw [breaksEscaped_append fun c hc => (hds c hc).1]
  have hall : ds.all (fun c => c ≠ '\n' && c ≠ '\r') = true := by
    rw [List.all_eq_true]
    intro c hc
    obtain ⟨-, -, -, hn, hr, -⟩ := hds c hc
    simp [hn, hr]
  rw [hall, Bool.true_and]

/-- Spaces that are passed over without a bare line break are plain. -/
theorem isPlain_of_spaces {spaces : List Char} (hspaces : ∀ c ∈ spaces, isLuaSpace c = true)
    (hbreaks : breaksEscaped (spaces++content) = true) : ∀ c ∈ spaces, IsPlain c := by
  have hslash : ∀ c ∈ spaces, c ≠ '\\' := fun c hc =>
    ne_backslash_of_space (isJsSpace_of_lua (hspaces c hc))
  rw [breaksEscaped_append hslash, Bool.and_eq_true, List.all_eq_true] at hbreaks
  intro c hc
  have hline := hbreaks.1 c hc
  simp only [ne_eq, decide_not, Bool.and_eq_true, Bool.not_eq_eq_eq_not, Bool.not_true,
    decide_eq_false_iff_not] at hline
  exact isPlain_of_space (hspaces c hc) hline.1 hline.2

/-- After a backslash, of a line break of two characters the second one is bare. -/
theorem single_of_breaks {nl : List Char} (hnl : IsNewline nl)
    (hbreaks : breaksEscaped ('\\' :: nl ++ content) = true) : nl = ['\n'] ∨ nl = ['\r'] := by
  rcases hnl with rfl | rfl | rfl | rfl
  · exact Or.inl rfl
  · exact Or.inr rfl
  · cases hbreaks
  · cases hbreaks

/-- The lexer reads the whole literal if no line break is bare. -/
theorem readString_quoted (hq : quote = '"' ∨ quote = '\'') (h : LuaQuoted quote content bytes)
    (hbreaks : breaksEscaped content = true) (rest : List Char) :
    readString quote (content ++ quote :: rest) = .ok (content ++ [quote], rest) := by
  induction h with
  | nil =>
    rcases hq with rfl | rfl
    · rfl
    · rfl
  | plain hquote hslash hn hr _ ih =>
    rw [breaksEscaped_plain hslash, Bool.and_eq_true] at hbreaks
    exact readString_plain (ih hbreaks.2) hslash hquote hn hr
  | simple _ _ ih => exact readString_escape (ih hbreaks) _
  | @decimal ds content bytes hne _ hdigits _ _ _ ih =>
    obtain ⟨d, ds, rfl⟩ := List.exists_cons_of_ne_nil hne
    have hplain : ∀ c ∈ ds, IsPlain c := fun c hc =>
      isPlain_of_digit (hdigits c (List.mem_cons_of_mem d hc))
    have hrest : breaksEscaped content = true := by
      rw [← breaksEscaped_run hplain]
      exact hbreaks
    have hread := readString_run hq hplain (ih hrest)
    rw [← List.append_assoc] at hread
    simpa using readString_escape hread d
  | @hex a b content bytes ha hb _ ih =>
    have hplain : ∀ c ∈ [a, b], IsPlain c := by
      intro c hc
      simp only [List.mem_cons, List.not_mem_nil, or_false] at hc
      rcases hc with rfl | rfl
      · exact isPlain_of_hex ha
      · exact isPlain_of_hex hb
    have hrest : breaksEscaped content = true := by
      rw [← breaksEscaped_run hplain]
      exact hbreaks
    exact readString_escape (readString_run hq hplain (ih hrest)) 'x'
  | @skip spaces content bytes hspaces _ _ ih =>
    have hplain := @isPlain_of_spaces content _ hspaces hbreaks
    have hrest : breaksEscaped content = true := by
      rw [← breaksEscaped_run hplain]
      exact hbreaks
    have hread := readString_run hq hplain (ih hrest)
    rw [← List.append_assoc] at hread
    simpa using readString_escape hread 'z'
  | newline hnl _ ih =>
    rcases single_of_breaks hnl hbreaks with rfl | rfl
    · exact readString_escape (ih hbreaks) '\n'
    · exact readString_escape (ih hbreaks) '\r'

/-- Whether a text is ASCII without carriage returns. -/
def AsciiLines (text : List Char) : Prop := ∀ c ∈ text, c.toNat < 128 ∧ c ≠ '\r'

theorem asciiLines_cons {c : Char} {text : List Char} :
    AsciiLines (c::text) ↔ (c.toNat < 128 ∧ c ≠ '\r') ∧ AsciiLines text := by
  simp [AsciiLines]

theorem asciiLines_run {ds : List Char} (hds : ∀ c ∈ ds, IsPlain c) {text : List Char} :
    AsciiLines (ds++text) ↔ AsciiLines text := by
  induction ds with
  | nil => rfl
  | cons c ds ih =>
    obtain ⟨-, -, -, -, hr, hc⟩ := hds c (by simp)
    rw [List.cons_append, asciiLines_cons, ih fun d hd => hds d (by simp [hd])]
    simp [hr, hc]

theorem asciiLines_escape {c : Char} (hc : c.toNat < 128) (hr : c ≠ '\r') {text : List Char} :
    AsciiLines ('\\' :: c::text) ↔ AsciiLines text := by
  rw [asciiLines_cons, asciiLines_cons]
  simp [hc, hr]

/-- One more byte on both sides. -/
theorem agree_cons {decoded bytes : ByteString} {P : Prop} (b : UInt8)
    (h : decoded.length ≤ bytes.length ∧ (decoded = bytes ↔ P)) :
    (b::decoded).length ≤ (b::bytes).length ∧ (b::decoded = b::bytes ↔ P) := by
  simpa using h

theorem ascii_of_escape {c : Char} {b : UInt8} (h : luaEscape c = some b) :
    c.toNat < 128 ∧ c ≠ '\r' := by
  unfold luaEscape at h
  split at h <;> first | exact ⟨by decide, by decide⟩ | cases h

/-- The decoder gives no more bytes than Lua, and Lua's bytes for ASCII text without carriage
returns only. -/
theorem decode_quoted (h : LuaQuoted quote content bytes)
    (hbreaks : breaksEscaped content = true) :
    (ByteString.decode content).length ≤ bytes.length ∧
      (ByteString.decode content = bytes ↔ AsciiLines content) := by
  induction h with
  | nil => simp [ByteString.decode, AsciiLines]
  | @plain c content bytes _ hslash hn hr _ ih =>
    rw [breaksEscaped_plain hslash, Bool.and_eq_true] at hbreaks
    obtain ⟨hle, hiff⟩ := ih hbreaks.2
    obtain ⟨hlen, hascii⟩ := latin1_length_le c
    rw [ByteString.decode_plain hslash, asciiLines_cons, List.length_append, List.length_append]
    refine ⟨by omega, ?_⟩
    by_cases hc : c.toNat < 128
    · rw [latin1_ascii hc, List.append_cancel_left_eq, hiff]
      simp [hc, hr]
    · have hne : ByteString.latin1 c ++ ByteString.decode content ≠
          String.utf8EncodeChar c ++ bytes := by
        intro heq
        have hlength := congrArg List.length heq
        rw [List.length_append, List.length_append] at hlength
        exact hc (hascii.mp (by omega))
      simp [hne, hc]
  | simple hescape _ ih =>
    obtain ⟨hc, hr⟩ := ascii_of_escape hescape
    rw [ByteString.decode_simple (by rw [simpleEscape_eq, hescape]), asciiLines_escape hc hr]
    exact agree_cons _ (ih hbreaks)
  | @decimal ds content bytes hne hlen hdigits hstop hvalue _ ih =>
    rw [decode_digits hne hlen hdigits hstop, byteOf_eq hvalue]
    obtain ⟨d, ds, rfl⟩ := List.exists_cons_of_ne_nil hne
    obtain ⟨-, -, -, -, hr, hd⟩ := isPlain_of_digit (hdigits d (by simp))
    have hplain : ∀ c ∈ ds, IsPlain c := fun c hc =>
      isPlain_of_digit (hdigits c (List.mem_cons_of_mem d hc))
    have hrest : breaksEscaped content = true := by
      rw [← breaksEscaped_run hplain]
      exact hbreaks
    have htext : AsciiLines ('\\' :: (d::ds) ++ content) ↔ AsciiLines content := by
      rw [List.cons_append, List.cons_append, asciiLines_escape hd hr, asciiLines_run hplain]
    rw [htext]
    exact agree_cons _ (ih hrest)
  | @hex a b content bytes ha hb _ ih =>
    have hplain : ∀ c ∈ [a, b], IsPlain c := by
      intro c hc
      simp only [List.mem_cons, List.not_mem_nil, or_false] at hc
      rcases hc with rfl | rfl
      · exact isPlain_of_hex ha
      · exact isPlain_of_hex hb
    have hrest : breaksEscaped content = true := by
      rw [← breaksEscaped_run hplain]
      exact hbreaks
    have hva := hexValue_lt ha
    have hvb := hexValue_lt hb
    have htext : AsciiLines ('\\' :: 'x' :: a::b::content) ↔ AsciiLines content := by
      rw [asciiLines_escape (by decide) (by decide)]
      exact asciiLines_run hplain
    rw [decode_hex ha hb, byteOf_eq (by omega), htext]
    exact agree_cons _ (ih hrest)
  | @skip spaces content bytes hspaces hstop _ ih =>
    have hplain := @isPlain_of_spaces content _ hspaces hbreaks
    have hrest : breaksEscaped content = true := by
      rw [← breaksEscaped_run hplain]
      exact hbreaks
    obtain ⟨hle, hiff⟩ := ih hrest
    have htext : AsciiLines ('\\' :: 'z' :: spaces ++ content) ↔ AsciiLines content := by
      rw [List.cons_append, List.cons_append, asciiLines_escape (by decide) (by decide),
        asciiLines_run hplain]
    have hdrop : (spaces ++ content).dropWhile isJsSpace = content.dropWhile isJsSpace := by
      rw [List.dropWhile_append_of_pos fun c hc => isJsSpace_of_lua (hspaces c hc)]
    rw [htext, List.cons_append, List.cons_append, decode_skip, hdrop]
    rcases decode_dropWhile content with heq | hlt
    · rw [heq]
      exact ⟨hle, hiff⟩
    · refine ⟨by omega, ⟨fun heq => ?_, fun hascii => ?_⟩⟩
      · rw [heq] at hlt
        omega
      · -- ASCII text after the spaces does not go on with white space of JavaScript
        have hstay : content.dropWhile isJsSpace = content := by
          cases content with
          | nil => rfl
          | cons c content =>
            have hc : isJsSpace c = false := by
              cases hjs : isJsSpace c with
              | false => rfl
              | true =>
                have hlua : isLuaSpace c = true := isLuaSpace_of_js hjs (hascii c (by simp)).1
                have hnot : isLuaSpace c = false := hstop
                rw [hlua] at hnot
                cases hnot
            rw [List.dropWhile_cons_of_neg (by simp [hc])]
        rw [hstay] at hlt
        omega
  | @newline nl content bytes hnl _ ih =>
    rcases single_of_breaks hnl hbreaks with rfl | rfl
    · have hdecode : ByteString.decode ('\\' :: '\n' :: content) =
          10 :: ByteString.decode content := by
        rw [ByteString.decode_escape]
        rfl
      have htext : AsciiLines ('\\' :: '\n' :: content) ↔ AsciiLines content :=
        asciiLines_escape (by decide) (by decide)
      show (ByteString.decode ('\\' :: '\n' :: content)).length ≤ _ ∧
        (ByteString.decode ('\\' :: '\n' :: content) = _ ↔ AsciiLines ('\\' :: '\n' :: content))
      rw [hdecode, htext]
      exact agree_cons _ (ih hbreaks)
    · have hdecode : ByteString.decode ('\\' :: '\r' :: content) =
          13 :: ByteString.decode content := by
        rw [ByteString.decode_escape]
        rfl
      have hle := (ih hbreaks).1
      show (ByteString.decode ('\\' :: '\r' :: content)).length ≤ _ ∧
        (ByteString.decode ('\\' :: '\r' :: content) = _ ↔ AsciiLines ('\\' :: '\r' :: content))
      rw [hdecode]
      refine ⟨by simpa using hle, ⟨fun heq => ?_, fun hascii => ?_⟩⟩
      · cases heq
      · exact absurd rfl (hascii '\r' (by simp)).2

theorem scan_quoted {N : Type} [Numerals N] (hq : quote = '"' ∨ quote = '\'')
    {cs rest : List Char} {read : List Char} (hread : readString quote cs = .ok (read, rest)) :
    (scan quote cs : Scan N) = .token (.quoted (quote::read)) rest 0 := by
  rcases hq with rfl | rfl
  · simp [scan, isBlank, hread]
  · simp [scan, isBlank, hread]

theorem scan_unquoted {N : Type} [Numerals N] (hq : quote = '"' ∨ quote = '\'')
    {cs : List Char} {message : String} (hread : readString quote cs = .error message) :
    (scan quote cs : Scan N) = .fail message [] := by
  rcases hq with rfl | rfl
  · simp [scan, isBlank, hread]
  · simp [scan, isBlank, hread]

/-- A quoted literal, whatever follows it. -/
theorem quoted_reads_iff {N : Type} [Numerals N] (hq : quote = '"' ∨ quote = '\'')
    (h : LuaQuoted quote content bytes) :
    ReadsAs N (quote :: content ++ [quote]) bytes ↔
      AsciiLines content ∧ breaksEscaped content = true := by
  have hvalue := ByteString.fromLuaLiteral_quoted hq content
  have hsource : ∀ rest, quote :: content ++ [quote] ++ rest =
      quote :: (content ++ quote :: rest) := by simp
  constructor
  · intro hreads
    obtain ⟨t, ht, -, hbytes⟩ := hreads quote _ [] (hsource [])
    obtain ⟨raw, hraw, happend⟩ := scan_token ht
    cases hread : readString quote (content ++ [quote]) with
    | error message =>
      rw [scan_unquoted hq hread] at ht
      cases ht
    | ok result =>
      obtain ⟨read, rest⟩ := result
      rw [scan_quoted hq hread] at ht
      obtain ⟨ht, hrest⟩ : Lexeme.quoted (quote::read) = t ∧ rest = [] := by simpa using ht
      subst ht hrest
      have hall := readString_append hread
      rw [List.append_nil] at hall
      subst hall
      have hbreaks := breaksEscaped_of_read hread
      have hdecoded : ByteString.decode content = bytes := by
        rw [← hvalue]
        exact TokenValue.bytes.inj hbytes
      exact ⟨(decode_quoted h hbreaks).2.mp hdecoded, hbreaks⟩
  · rintro ⟨hascii, hbreaks⟩ ch cs rest heq
    rw [hsource] at heq
    cases heq
    rw [scan_quoted hq (readString_quoted hq h hbreaks rest)]
    refine ⟨_, rfl, rfl, ?_⟩
    rw [← (decode_quoted h hbreaks).2.mpr hascii, ← hvalue]
    rfl

end Quoted

section Long

theorem readUntil_first {close content : List Char} (hclose : close ≠ [])
    (h : FirstAt close content) (rest : List Char) :
    readUntil close (content ++ close ++ rest) = some (content ++ close, rest) := by
  induction content with
  | nil =>
    obtain ⟨c, cs, rfl⟩ := List.exists_cons_of_ne_nil hclose
    simp [readUntil]
  | cons c content ih =>
    have hrest : FirstAt close content := by
      intro before after heq
      exact h (c::before) after (by simp [heq])
    have hnot : ¬ close <+: c :: (content ++ close ++ rest) := by
      intro hprefix
      have hshort : close <+: c :: (content ++ close) := by
        refine List.prefix_of_prefix_length_le hprefix ⟨rest, by simp⟩ ?_
        simp only [List.length_cons, List.length_append]
        omega
      obtain ⟨after, hafter⟩ := hshort
      have hnil := h [] after (by simpa using hafter.symm)
      have hlength := congrArg List.length hafter
      rw [hnil] at hlength
      simp at hlength
      omega
    rw [List.cons_append, List.cons_append, readUntil, if_neg hnot, ih hrest]
    rfl

theorem takeWhile_equals (level : ℕ) (body : List Char) :
    (List.replicate level '=' ++ '[' :: body).takeWhile (· = '=') = List.replicate level '=' ∧
      (List.replicate level '=' ++ '[' :: body).dropWhile (· = '=') = '[' :: body := by
  have hall : ∀ c ∈ List.replicate level '=', decide (c = '=') = true := by
    intro c hc
    rw [List.eq_of_mem_replicate hc]
    rfl
  constructor
  · rw [List.takeWhile_append_of_pos hall]
    simp
  · rw [List.dropWhile_append_of_pos hall]
    simp

theorem longBracket_equals (level : ℕ) (body : List Char) :
    longBracket (List.replicate level '=' ++ '[' :: body) = (level, some body) := by
  obtain ⟨htake, hdrop⟩ := takeWhile_equals level body
  rw [longBracket, hdrop, htake]
  simp

theorem longContent_equals (level : ℕ) (content : List Char) :
    ByteString.longContent ('[' :: List.replicate level '=' ++ '[' :: content ++ closing level) =
      some content := by
  have hassoc : '[' :: List.replicate level '=' ++ '[' :: content ++ closing level =
      '[' :: (List.replicate level '=' ++ '[' :: (content ++ closing level)) := by simp
  obtain ⟨htake, -⟩ := takeWhile_equals level (content ++ closing level)
  rw [hassoc, ByteString.longContent]
  simp only
  rw [htake, List.length_replicate, List.drop_left' (List.length_replicate ..)]
  simp only
  rw [if_pos (show ']' :: List.replicate level '=' ++ [']'] <:+ content ++ closing level from
    List.suffix_append content (closing level))]
  show some (List.take ((content ++ closing level).length - (closing level).length) _) = _
  rw [List.length_append, Nat.add_sub_cancel, List.take_left]

/-- The bytes of a long string, for the tool. -/
def longBytes : List Char → ByteString
  | '\n' :: content => content.flatMap ByteString.latin1
  | content => content.flatMap ByteString.latin1

theorem fromLuaLiteral_long (level : ℕ) (content : List Char) :
    ByteString.fromLuaLiteral
        ('[' :: List.replicate level '=' ++ '[' :: content ++ closing level) =
      longBytes content := by
  rw [ByteString.fromLuaLiteral, if_neg (by simp), longContent_equals]
  unfold longBytes
  split
  next content' heq =>
    cases heq
    rfl
  next content' hnot heq =>
    cases heq
    split
    next content' => exact absurd rfl (hnot content')
    next => rfl
  next heq => cases heq

theorem scan_long {N : Type} [Numerals N] {level : ℕ} {content : List Char}
    (h : FirstAt (closing level) content) (rest : List Char) :
    (scan '[' (List.replicate level '=' ++ '[' :: (content ++ closing level ++ rest)) : Scan N) =
      .token (.quoted ('[' :: List.replicate level '=' ++ '[' :: content ++ closing level))
        rest 0 := by
  have hopen : (List.replicate level '=' ++ '[' :: (content ++ closing level ++ rest)).head? =
        some '[' ∨
      (List.replicate level '=' ++ '[' :: (content ++ closing level ++ rest)).head? =
        some '=' := by
    cases level with
    | zero => exact Or.inl rfl
    | succ level => exact Or.inr rfl
  rw [scan, if_neg (by decide), if_neg (by simp), if_neg (by decide), if_pos ⟨rfl, hopen⟩,
    longBracket_equals]
  simp only
  rw [readUntil_first (by simp [closing]) h]
  simp

theorem utf8EncodeChar_high {c : Char} (h : ¬ c.toNat < 128) :
    ∀ b ∈ String.utf8EncodeChar c, 128 ≤ b.toNat := by
  have hval : c.toNat = c.val.toNat := rfl
  have hbyte : ∀ n, 128 ≤ n → n < 256 → 128 ≤ (UInt8.ofNat n).toNat := by
    intro n hlo hhi
    rw [UInt8.toNat_ofNat', Nat.mod_eq_of_lt hhi]
    exact hlo
  intro b hb
  revert hb
  fun_cases String.utf8EncodeChar c
  next v hv => omega
  next v _ _ =>
    simp only [List.mem_cons, List.not_mem_nil, or_false]
    rintro (rfl | rfl) <;> exact hbyte _ (by omega) (by omega)
  next v _ _ _ =>
    simp only [List.mem_cons, List.not_mem_nil, or_false]
    rintro (rfl | rfl | rfl) <;> exact hbyte _ (by omega) (by omega)
  next v _ _ _ =>
    simp only [List.mem_cons, List.not_mem_nil, or_false]
    rintro (rfl | rfl | rfl | rfl) <;> exact hbyte _ (by omega) (by omega)

theorem luaLines_return {cs : List Char} (h : ∀ rest, cs ≠ '\n' :: rest) :
    luaLines ('\r' :: cs) = 10 :: luaLines cs := by
  rw [luaLines]
  exact fun rest heq => h rest heq

theorem luaLines_newline {cs : List Char} (h : ∀ rest, cs ≠ '\r' :: rest) :
    luaLines ('\n' :: cs) = 10 :: luaLines cs := by
  rw [luaLines]
  exact fun rest heq => h rest heq

theorem luaLines_char {c : Char} (hr : c ≠ '\r') (hn : c ≠ '\n') (cs : List Char) :
    luaLines (c::cs) = String.utf8EncodeChar c ++ luaLines cs := by
  rw [luaLines]
  · exact fun _ hc _ => hr hc
  · exact fun _ hc _ => hn hc
  · exact hr
  · exact hn

/-- Lua's lines have no carriage returns. -/
theorem not_mem_luaLines (cs : List Char) : (13 : UInt8) ∉ luaLines cs := by
  induction cs using luaLines.induct with
  | case1 cs ih => simpa [luaLines] using ih
  | case2 cs ih => simpa [luaLines] using ih
  | case3 cs hnot ih =>
    rw [luaLines_return fun rest heq => hnot rest heq]
    simpa using ih
  | case4 cs hnot ih =>
    rw [luaLines_newline fun rest heq => hnot rest heq]
    simpa using ih
  | case5 c cs h₁ h₂ hr hn ih =>
    rw [luaLines_char hr hn, List.mem_append, not_or]
    refine ⟨fun hmem => ?_, ih⟩
    by_cases hc : c.toNat < 128
    · rw [utf8EncodeChar_ascii hc, List.mem_singleton] at hmem
      have hval := congrArg UInt8.toNat hmem
      rw [UInt8.toNat_ofNat', Nat.mod_eq_of_lt (by omega)] at hval
      have hchar : c = Char.ofNat 13 := by
        rw [← Char.ofNat_toNat c]
        exact congrArg Char.ofNat hval.symm
      exact hr hchar
    · have hhigh := utf8EncodeChar_high hc 13 hmem
      exact absurd hhigh (by decide)
  | case6 => simp [luaLines]

theorem luaLines_of_no_return {cs : List Char} (h : ∀ c ∈ cs, c ≠ '\r') :
    luaLines cs = cs.flatMap String.utf8EncodeChar := by
  induction cs with
  | nil => simp [luaLines]
  | cons c cs ih =>
    have htail := ih fun d hd => h d (by simp [hd])
    rw [List.flatMap_cons, ← htail]
    by_cases hc : c = '\n'
    · subst hc
      refine luaLines_newline fun rest heq => ?_
      exact h '\r' (by simp [heq]) rfl
    · exact luaLines_char (h c (by simp)) hc cs

theorem flatMap_latin1_iff (cs : List Char) :
    (cs.flatMap ByteString.latin1).length ≤ (cs.flatMap String.utf8EncodeChar).length ∧
      (cs.flatMap ByteString.latin1 = cs.flatMap String.utf8EncodeChar ↔ IsAscii cs) := by
  induction cs with
  | nil => simp [IsAscii]
  | cons c cs ih =>
    obtain ⟨hle, hiff⟩ := ih
    obtain ⟨hlen, hascii⟩ := latin1_length_le c
    have hsplit : IsAscii (c::cs) ↔ c.toNat < 128 ∧ IsAscii cs := by simp [IsAscii]
    rw [List.flatMap_cons, List.flatMap_cons, List.length_append, List.length_append, hsplit]
    refine ⟨by omega, ?_⟩
    by_cases hc : c.toNat < 128
    · rw [latin1_ascii hc, List.append_cancel_left_eq, hiff]
      simp [hc]
    · have hne : ByteString.latin1 c ++ cs.flatMap ByteString.latin1 ≠
          String.utf8EncodeChar c ++ cs.flatMap String.utf8EncodeChar := by
        intro heq
        have hlength := congrArg List.length heq
        rw [List.length_append, List.length_append] at hlength
        exact hc (hascii.mp (by omega))
      simp [hne, hc]

/-- Without carriage returns, both drop the same first newline. -/
theorem exists_dropped (content : List Char) :
    ∃ kept, longBytes content = kept.flatMap ByteString.latin1 ∧
      (content = kept ∨ content = '\n' :: kept) ∧
      ((∀ c ∈ content, c ≠ '\r') → dropNewline content = kept) := by
  cases content with
  | nil => exact ⟨[], rfl, Or.inl rfl, fun _ => rfl⟩
  | cons c content =>
    by_cases hc : c = '\n'
    · subst hc
      refine ⟨content, rfl, Or.inr rfl, fun h => ?_⟩
      rw [dropNewline]
      exact fun rest heq => h '\r' (by simp [heq]) rfl
    · refine ⟨c::content, ?_, Or.inl rfl, fun h => ?_⟩
      · rw [longBytes]
        exact fun rest heq => hc (List.cons.inj heq).1
      · rw [dropNewline]
        · exact fun rest heq => h '\r' (by simp [(List.cons.inj heq).1]) rfl
        · exact fun rest heq => hc (List.cons.inj heq).1
        · exact fun rest heq => h '\r' (by simp [(List.cons.inj heq).1]) rfl
        · exact fun rest heq => hc (List.cons.inj heq).1

theorem longBytes_iff (content : List Char) :
    longBytes content = luaLines (dropNewline content) ↔ AsciiLines content := by
  obtain ⟨kept, hbytes, hkept, hdrop⟩ := exists_dropped content
  by_cases hreturn : '\r' ∈ content
  · -- the tool's bytes have the carriage return, and Lua's have none
    have hmem : (13 : UInt8) ∈ longBytes content := by
      have hin : '\r' ∈ kept := by
        rcases hkept with heq | heq
        · rwa [heq] at hreturn
        · rw [heq] at hreturn
          simpa using hreturn
      rw [hbytes]
      exact List.mem_flatMap.mpr ⟨'\r', hin, by decide⟩
    constructor
    · intro heq
      rw [heq] at hmem
      exact absurd hmem (not_mem_luaLines _)
    · intro hascii
      exact absurd rfl (hascii '\r' hreturn).2
  · have hno : ∀ c ∈ content, c ≠ '\r' := fun c hc heq => hreturn (heq ▸ hc)
    have hno' : ∀ c ∈ kept, c ≠ '\r' := by
      intro c hc
      rcases hkept with heq | heq
      · exact hno c (heq ▸ hc)
      · exact hno c (by rw [heq]; exact List.mem_cons_of_mem _ hc)
    have hascii : IsAscii kept ↔ AsciiLines content := by
      rcases hkept with rfl | rfl
      · exact ⟨fun h c hc => ⟨h c hc, hno c hc⟩, fun h c hc => (h c hc).1⟩
      · rw [asciiLines_cons]
        exact ⟨fun h => ⟨by decide, fun c hc => ⟨h c hc, hno' c hc⟩⟩,
          fun h c hc => (h.2 c hc).1⟩
    rw [hdrop hno, hbytes, luaLines_of_no_return hno', (flatMap_latin1_iff kept).2, hascii]

theorem long_reads_iff {N : Type} [Numerals N] {level : ℕ} {content : List Char}
    (h : FirstAt (closing level) content) :
    ReadsAs N ('[' :: List.replicate level '=' ++ '[' :: content ++ closing level)
        (luaLines (dropNewline content)) ↔ AsciiLines content := by
  have hsource : ∀ rest, '[' :: List.replicate level '=' ++ '[' :: content ++ closing level ++ rest =
      '[' :: (List.replicate level '=' ++ '[' :: (content ++ closing level ++ rest)) := by simp
  rw [← longBytes_iff, ← fromLuaLiteral_long level content]
  constructor
  · intro hreads
    obtain ⟨t, ht, -, hbytes⟩ := hreads '[' _ [] (hsource [])
    rw [scan_long h] at ht
    cases ht
    exact TokenValue.bytes.inj hbytes
  · intro heq ch cs rest hcs
    rw [hsource] at hcs
    cases hcs
    exact ⟨_, scan_long h rest, rfl, by rw [← heq]; rfl⟩

end Long

theorem breaksEscaped_concat {quote : Char} (hq : quote = '"' ∨ quote = '\'') (content : List Char) :
    breaksEscaped (content ++ [quote]) = breaksEscaped content := by
  induction content using breaksEscaped.induct with
  | case1 c cs ih => exact ih
  | case2 c cs hpair ih =>
    by_cases hslash : c = '\\'
    · subst hslash
      cases cs with
      | nil => rfl
      | cons d cs => exact absurd rfl (hpair d cs rfl)
    · rw [List.cons_append, breaksEscaped_plain hslash, breaksEscaped_plain hslash, ih]
  | case3 =>
    rcases hq with rfl | rfl
    · rfl
    · rfl

theorem isPortable_quoted {quote : Char} (hq : quote = '"' ∨ quote = '\'') (content : List Char) :
    IsPortable (quote :: content ++ [quote]) ↔
      AsciiLines content ∧ breaksEscaped content = true := by
  have hquote : quote.toNat < 128 ∧ quote ≠ '\r' := by
    rcases hq with rfl | rfl <;> exact ⟨by decide, by decide⟩
  have hbracket : (quote :: content ++ [quote]).head? ≠ some '[' := by
    rcases hq with rfl | rfl <;> simp
  have hbreaks : breaksEscaped (quote :: content ++ [quote]) = breaksEscaped content := by
    rw [List.cons_append, ← breaksEscaped_concat hq content]
    rcases hq with rfl | rfl
    · exact breaksEscaped_plain (by decide) _
    · exact breaksEscaped_plain (by decide) _
  have hascii : AsciiLines (quote :: content ++ [quote]) ↔ AsciiLines content := by
    rw [List.cons_append, asciiLines_cons]
    constructor
    · exact fun h c hc => h.2 c (List.mem_append_left _ hc)
    · intro h
      refine ⟨hquote, fun c hc => ?_⟩
      rcases List.mem_append.mp hc with hc | hc
      · exact h c hc
      · rw [List.mem_singleton.mp hc]
        exact hquote
  rw [IsPortable, hbreaks]
  exact and_congr hascii (or_iff_right hbracket)

theorem isPortable_long (level : ℕ) (content : List Char) :
    IsPortable ('[' :: List.replicate level '=' ++ '[' :: content ++ closing level) ↔
      AsciiLines content := by
  have hfixed : ∀ c, c ∈ '[' :: List.replicate level '=' ++ ['['] ∨ c ∈ closing level →
      c.toNat < 128 ∧ c ≠ '\r' := by
    intro c hc
    have hone : c ∈ ['[', '=', ']'] := by
      simp only [closing, List.cons_append, List.mem_cons, List.mem_append, List.mem_replicate,
        List.not_mem_nil, or_false] at hc ⊢
      rcases hc with (h | ⟨-, h⟩ | h) | h | ⟨-, h⟩ | h <;> simp [h]
    simp only [List.mem_cons, List.not_mem_nil, or_false] at hone
    rcases hone with rfl | rfl | rfl <;> decide
  have hassoc : '[' :: List.replicate level '=' ++ '[' :: content ++ closing level =
      ('[' :: List.replicate level '=' ++ ['[']) ++ (content ++ closing level) := by simp
  constructor
  · intro h c hc
    refine h.1 c ?_
    rw [hassoc]
    exact List.mem_append_right _ (List.mem_append_left _ hc)
  · intro h
    refine ⟨fun c hc => ?_, Or.inl rfl⟩
    rw [hassoc] at hc
    rcases List.mem_append.mp hc with hc | hc
    · exact hfixed c (Or.inl hc)
    rcases List.mem_append.mp hc with hc | hc
    · exact h c hc
    · exact hfixed c (Or.inr hc)

/-- The token of a literal has Lua's bytes exactly if the literal is ASCII text without carriage
returns and, between quotes, every newline stands after a backslash. -/
theorem literal_reads_iff {N : Type} [Numerals N] {text : List Char} {bytes : ByteString}
    (h : LuaLiteral text bytes) : ReadsAs N text bytes ↔ IsPortable text := by
  cases h with
  | quoted hq h => rw [quoted_reads_iff hq h, isPortable_quoted hq]
  | @long level content h => rw [long_reads_iff h, isPortable_long]

/-- `'\65\z \x42'` has the bytes `AB`. -/
theorem literal_reads_escapes :
    @ReadsAs ℕ naturalNumerals
      ['\'', '\\', '6', '5', '\\', 'z', ' ', '\\', 'x', '4', '2', '\''] [65, 66] := by
  have hbody : LuaQuoted '\'' ['\\', '6', '5', '\\', 'z', ' ', '\\', 'x', '4', '2'] [65, 66] :=
    @LuaQuoted.decimal _ ['6', '5'] _ _ (by decide) (by decide) (List.all_eq_true.mp rfl)
      (fun _ => rfl) (by decide)
      (@LuaQuoted.skip _ [' '] _ _ (List.all_eq_true.mp rfl) rfl (.hex rfl rfl .nil))
  exact (@literal_reads_iff ℕ naturalNumerals _ _ (.quoted (Or.inr rfl) hbody)).mpr (by decide)

/-- The letter `é`: Lua has the two bytes of its UTF-8, and the token one. -/
theorem literal_reads_latin :
    LuaLiteral ['"', 'é', '"'] [0xC3, 0xA9] ∧
      ¬ @ReadsAs ℕ naturalNumerals ['"', 'é', '"'] [0xC3, 0xA9] := by
  have hbody : LuaQuoted '"' ['é'] [0xC3, 0xA9] :=
    .plain (c := 'é') (by decide) (by decide) (by decide) (by decide) .nil
  refine ⟨.quoted (Or.inl rfl) hbody, fun h => ?_⟩
  have hplain := (@quoted_reads_iff '"' ['é'] _ ℕ naturalNumerals (Or.inl rfl) hbody).mp h
  exact absurd (hplain.1 'é' (by simp)).1 (by decide)

end LuaRecovery.Lua
