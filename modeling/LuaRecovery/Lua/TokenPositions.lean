import LuaRecovery.Lua.SynthesizedStrings
import LuaRecovery.Lua.LiteralMeaning
import Mathlib.Logic.Relation

/-!
# Where tokens are

A place in a source is counted in code units. A bracket that opens no long
string, and a comment that looks like a long one, are gone over twice, and the
columns after them are too large up to the next line.
-/

set_option autoImplicit false

namespace LuaRecovery.Lua
open LuaRecovery.Lib Lexer

section Counting

/-- The place after some code units, by counting them. -/
def counted (units : CodeUnits) : Position :=
  ⟨1 + units.count 10, 1 + (units.reverse.takeWhile (· ≠ 10)).length, units.length⟩

theorem counted_newline (units : CodeUnits) :
    counted (units ++ [10]) = ⟨(counted units).line + 1, 1, (counted units).offset + 1⟩ := by
  simp [counted, Nat.add_assoc]

theorem takeWhile_append_all {p : ℕ → Bool} {us : List ℕ} (h : ∀ u ∈ us, p u = true)
    (vs : List ℕ) : ((us ++ vs).takeWhile p).length = us.length + (vs.takeWhile p).length := by
  rw [List.takeWhile_append_of_pos h, List.length_append]

theorem counted_plain (units : CodeUnits) {us : CodeUnits} (h : 10 ∉ us) :
    counted (units ++ us) = ⟨(counted units).line, (counted units).column + us.length,
      (counted units).offset + us.length⟩ := by
  have hall : ∀ u ∈ us.reverse, decide (u ≠ 10) = true := by
    intro u hu
    have hne : u ≠ 10 := by
      rintro rfl
      exact h (List.mem_reverse.mp hu)
    simpa using hne
  rw [counted, List.reverse_append, takeWhile_append_all hall]
  simp only [counted, List.count_append, List.count_eq_zero_of_not_mem h, List.length_reverse,
    List.length_append]
  congr 1
  omega

theorem newline_notMem_charUnits {c : Char} (h : c ≠ '\n') : 10 ∉ charUnits c := by
  intro hmem
  have hval := mem_charUnits hmem (by decide)
  refine h ?_
  rw [← Char.ofNat_toNat c, ← hval]

/-- Going over a character is counting its units. -/
theorem counted_char (units : CodeUnits) (c : Char) :
    counted (units ++ charUnits c) = (counted units).advance c := by
  by_cases hc : c = '\n'
  · subst hc
    exact counted_newline units
  · rw [counted_plain units (newline_notMem_charUnits hc), Position.advance, if_neg hc]

theorem counted_text (units : CodeUnits) (text : List Char) :
    counted (units ++ utf16 text) = (counted units).past text := by
  induction text generalizing units with
  | nil => simp [Position.past]
  | cons c text ih =>
    rw [utf16_cons, ← List.append_assoc, ih, counted_char]
    rfl

@[simp] theorem past_append (p : Position) (text rest : List Char) :
    p.past (text ++ rest) = (p.past text).past rest := List.foldl_append

@[simp] theorem offset_drifted (p : Position) (drift : ℕ) :
    (p.drifted drift).offset = p.offset := rfl

theorem offset_advance (p : Position) (c : Char) :
    (p.advance c).offset = p.offset + (charUnits c).length := by
  unfold Position.advance
  split
  next hc =>
    subst hc
    rfl
  next => rfl

theorem offset_past (p : Position) (text : List Char) :
    (p.past text).offset = p.offset + (utf16 text).length := by
  induction text generalizing p with
  | nil => rfl
  | cons c text ih =>
    show ((p.advance c).past text).offset = _
    rw [ih, offset_advance, utf16_cons, List.length_append, Nat.add_assoc]

/-- Columns counted twice are forgotten at the next newline. -/
theorem past_drifted (p : Position) (drift : ℕ) (text : List Char) :
    (p.drifted drift).past text = (p.past text).drifted (if '\n' ∈ text then 0 else drift) := by
  induction text generalizing p drift with
  | nil => rfl
  | cons c text ih =>
    show ((p.drifted drift).advance c).past text = ((p.advance c).past text).drifted _
    by_cases hc : c = '\n'
    · have hforget : (p.drifted drift).advance c = (p.advance c).drifted 0 := by
        rw [Position.advance, Position.advance, if_pos hc, if_pos hc]
        rfl
      rw [hforget, ih, ite_self, if_pos (by rw [hc]; exact List.mem_cons_self)]
    · have hkeep : (p.drifted drift).advance c = (p.advance c).drifted drift := by
        rw [Position.advance, Position.advance, if_neg hc, if_neg hc]
        simp only [Position.drifted, Position.mk.injEq, and_true, true_and]
        omega
      have hmem : '\n' ∈ c::text ↔ '\n' ∈ text := by
        rw [List.mem_cons, or_iff_right (Ne.symm hc)]
      rw [hkeep, ih]
      simp only [hmem]

theorem drifted_drifted (p : Position) (drift drift' : ℕ) :
    (p.drifted drift).drifted drift' = p.drifted (drift + drift') := by
  simp [Position.drifted, Nat.add_assoc]

theorem drifted_eq_iff {p : Position} {drift : ℕ} : p.drifted drift = p ↔ drift = 0 := by
  rw [Position.drifted]
  constructor
  · intro h
    have hcolumn := congrArg Position.column h
    dsimp only at hcolumn
    omega
  · rintro rfl
    rfl

end Counting

section Gaps

/-- The opening bracket of some level. -/
def opening (level : ℕ) : List Char := '[' :: List.replicate level '=' ++ ['[']

/-- A text that starts with no opening bracket. -/
def OpensNone (text : List Char) : Prop := ∀ level, ¬ opening level <+: text

/-- One blank or one comment, before what follows it. -/
inductive Skips : List Char → List Char → Prop
  | blank {c : Char} {rest : List Char} : c = ' ' ∨ c = '\t' ∨ c = '\r' ∨ c = '\n' → Skips [c] rest
  | line {text rest : List Char} : '\n' ∉ text → rest = [] ∨ rest.head? = some '\n' →
      OpensNone (text ++ rest) → Skips ('-' :: '-' :: text) rest
  | long {level : ℕ} {text rest : List Char} : FirstAt (closing level) text →
      Skips ('-' :: '-' :: opening level ++ text ++ closing level) rest
  | unclosed {level : ℕ} {text : List Char} : ¬ closing level <:+: text →
      Skips ('-' :: '-' :: opening level ++ text) []

/-- An opening bracket that breaks off after its `=`. -/
def BrokenBracket (text : List Char) : Prop :=
  ∃ level rest, text = '[' :: List.replicate (level + 1) '=' ++ rest ∧
    rest.head? ≠ some '=' ∧ rest.head? ≠ some '['

/-- A place where the columns that are counted twice are not forgotten before the next token. -/
inductive Misread : List Char → Prop
  | bracket {text : List Char} : BrokenBracket text → Misread text
  | comment {text : List Char} : BrokenBracket text → '\n' ∉ text → Misread ('-' :: '-' :: text)

theorem opensNone_of_longBracket {cs : List Char} (h : (longBracket cs).2 = none) :
    OpensNone ('[' :: cs) := by
  rintro level ⟨body, heq⟩
  have hcs : List.replicate level '=' ++ '[' :: body = cs := by
    simpa [opening] using heq
  rw [← hcs, longBracket_equals] at h
  cases h

theorem longBracket_broken {cs : List Char} (h : BrokenBracket ('[' :: cs)) :
    ∃ level, longBracket cs = (level + 1, none) ∧ cs.head? = some '=' := by
  obtain ⟨level, rest, heq, hequals, hopen⟩ := h
  have hcs : cs = List.replicate (level + 1) '=' ++ rest := by simpa using heq
  have hall : ∀ c ∈ List.replicate (level + 1) '=', decide (c = '=') = true := by
    intro c hc
    rw [List.eq_of_mem_replicate hc]
    rfl
  have hrest : rest.takeWhile (· = '=') = [] ∧ rest.dropWhile (· = '=') = rest := by
    cases rest with
    | nil => exact ⟨rfl, rfl⟩
    | cons c rest =>
      have hc : c ≠ '=' := fun hc => hequals (by rw [hc]; rfl)
      simp [hc]
  refine ⟨level, ?_, by rw [hcs]; rfl⟩
  rw [longBracket, hcs, List.dropWhile_append_of_pos hall, List.takeWhile_append_of_pos hall,
    hrest.1, hrest.2]
  simp only [List.append_nil, List.length_replicate]
  split
  next => exact absurd rfl hopen
  next => rfl

theorem broken_of_longBracket {cs : List Char} (hhead : cs.head? = some '=')
    (h : (longBracket cs).2 = none) : BrokenBracket ('[' :: cs) := by
  have hequals : cs.takeWhile (· = '=') = List.replicate (cs.takeWhile (· = '=')).length '=' :=
    List.eq_replicate_length.mpr fun c hc => by simpa using List.mem_takeWhile_imp hc
  obtain ⟨tail, rfl⟩ : ∃ tail, cs = '=' :: tail := by
    cases cs with
    | nil => cases hhead
    | cons c tail =>
      cases hhead
      exact ⟨tail, rfl⟩
  have htake : ('=' :: tail).takeWhile (· = '=') = '=' :: tail.takeWhile (· = '=') := by simp
  refine ⟨(tail.takeWhile (· = '=')).length, ('=' :: tail).dropWhile (· = '='), ?_, ?_, ?_⟩
  · rw [List.cons_append, List.cons.injEq]
    refine ⟨rfl, ?_⟩
    rw [show (tail.takeWhile (· = '=')).length + 1 =
      (('=' :: tail).takeWhile (· = '=')).length by rw [htake]; rfl, ← hequals,
      List.takeWhile_append_dropWhile]
  · intro hhead
    have hnot := List.head?_dropWhile_not (fun c => decide (c = '=')) ('=' :: tail)
    rw [hhead] at hnot
    simp at hnot
  · intro hopen
    obtain ⟨body, hbody⟩ : ∃ body, ('=' :: tail).dropWhile (· = '=') = '[' :: body := by
      cases hdrop : ('=' :: tail).dropWhile (· = '=') with
      | nil =>
        rw [hdrop] at hopen
        cases hopen
      | cons c body =>
        rw [hdrop] at hopen
        cases hopen
        exact ⟨body, rfl⟩
    rw [longBracket, hbody] at h
    cases h

theorem longBracket_none {cs : List Char} (h : ¬ (cs.head? = some '[' ∨ cs.head? = some '=')) :
    (longBracket cs).2 = none := by
  have hdrop : cs.dropWhile (· = '=') = cs := by
    cases cs with
    | nil => rfl
    | cons c cs =>
      have hc : c ≠ '=' := fun hc => h (Or.inr (by rw [hc]; rfl))
      simp [hc]
  rw [longBracket, hdrop]
  split
  next => exact absurd (Or.inl rfl) h
  next => rfl

theorem readUntil_some {close cs content rest : List Char}
    (h : readUntil close cs = some (content, rest)) :
    ∃ inner, content = inner ++ close ∧ FirstAt close inner := by
  induction cs generalizing content with
  | nil => cases h
  | cons c cs ih =>
    unfold readUntil at h
    by_cases hclose : close <+: c::cs
    · rw [if_pos hclose] at h
      cases h
      refine ⟨[], rfl, ?_⟩
      intro before after heq
      have hlength := congrArg List.length heq
      simp only [List.nil_append, List.length_append] at hlength
      exact List.eq_nil_of_length_eq_zero (by omega)
    · rw [if_neg hclose] at h
      obtain ⟨⟨content', rest'⟩, hread, heq⟩ := Option.map_eq_some_iff.mp h
      cases heq
      obtain ⟨inner, rfl, hfirst⟩ := ih hread
      refine ⟨c::inner, rfl, ?_⟩
      intro before after heq
      cases before with
      | nil =>
        refine absurd ?_ hclose
        rw [← readUntil_append hread, ← List.cons_append, ← List.cons_append, heq]
        exact ⟨after ++ rest, by simp⟩
      | cons b before => exact hfirst before after (List.cons.inj heq).2

theorem readUntil_none {close cs : List Char} (hclose : close ≠ [])
    (h : readUntil close cs = none) : ¬ close <:+: cs := by
  induction cs with
  | nil =>
    intro hinfix
    exact hclose (List.infix_nil.mp hinfix)
  | cons c cs ih =>
    unfold readUntil at h
    by_cases hprefix : close <+: c::cs
    · rw [if_pos hprefix] at h
      cases h
    · rw [if_neg hprefix] at h
      intro hinfix
      rcases List.infix_cons_iff.mp hinfix with hstart | hlater
      · exact hprefix hstart
      · exact ih (Option.map_eq_none_iff.mp h) hlater

/-- A comment to the end of the line. -/
theorem skips_line {cs : List Char} (h : OpensNone cs) :
    Skips ('-' :: '-' :: cs.takeWhile (· ≠ '\n')) (cs.dropWhile (· ≠ '\n')) := by
  refine Skips.line ?_ ?_ ?_
  · intro hmem
    simpa using List.mem_takeWhile_imp hmem
  · cases hdrop : cs.dropWhile (· ≠ '\n') with
    | nil => exact Or.inl rfl
    | cons c rest =>
      have hnot := List.head?_dropWhile_not (fun c => decide (c ≠ '\n')) cs
      rw [hdrop] at hnot
      exact Or.inr (by simpa using hnot)
  · rw [List.takeWhile_append_dropWhile]
    exact h

/-- A comment is skipped as a whole, and columns are counted twice for a broken bracket only. -/
theorem skipComment_skips (cs : List Char) :
    ∃ text, text ++ (skipComment cs).1 = cs ∧
      Skips ('-' :: '-' :: text) (skipComment cs).1 ∧
      ((skipComment cs).2 = 0 ∨
        BrokenBracket cs ∧ (skipComment cs).1 = cs.dropWhile (· ≠ '\n')) := by
  unfold skipComment
  split
  next cs' =>
    by_cases hopen : cs'.head? = some '[' ∨ cs'.head? = some '='
    · rw [if_pos hopen]
      rcases hbracket : longBracket cs' with ⟨level, body | body⟩
      · have hnone : (longBracket cs').2 = none := by rw [hbracket]
        refine ⟨_, List.takeWhile_append_dropWhile, skips_line (opensNone_of_longBracket hnone),
          Or.inr ⟨?_, rfl⟩⟩
        refine broken_of_longBracket (hopen.resolve_left ?_) hnone
        intro hhead
        cases cs' with
        | nil => cases hhead
        | cons c tail =>
          cases hhead
          cases hnone
      · have hcs := longBracket_append hbracket
        dsimp only
        cases hread : readUntil (closing level) body with
        | none =>
          refine ⟨'[' :: cs', List.append_nil _, ?_, Or.inl rfl⟩
          have hskips := Skips.unclosed (readUntil_none (by simp [closing]) hread)
          rw [← hcs]
          simpa [opening] using hskips
        | some read =>
          obtain ⟨content, rest⟩ := read
          obtain ⟨inner, rfl, hfirst⟩ := readUntil_some hread
          refine ⟨opening level ++ inner ++ closing level, ?_, ?_, Or.inl rfl⟩
          · rw [← hcs, ← readUntil_append hread]
            simp [opening]
          · have hskips := @Skips.long _ _ rest hfirst
            simpa using hskips
    · rw [if_neg hopen]
      exact ⟨_, List.takeWhile_append_dropWhile,
        skips_line (opensNone_of_longBracket (longBracket_none hopen)), Or.inl rfl⟩
  next hnot =>
    refine ⟨_, List.takeWhile_append_dropWhile, skips_line ?_, Or.inl rfl⟩
    rintro level ⟨body, heq⟩
    exact hnot _ heq.symm

variable {N : Type}

/-- From an offset on, a source is made up of the tokens, each at its offset, and of blanks and
comments in between. -/
inductive Tiled : ℕ → List Char → List (Token N) → Prop
  | eof {p : Position} : Tiled p.offset [] [⟨.eof, p⟩]
  | gap {offset : ℕ} {skipped rest : List Char} {tokens : List (Token N)} : Skips skipped rest →
      Tiled (offset + (utf16 skipped).length) rest tokens → Tiled offset (skipped ++ rest) tokens
  | token {t : Token N} {rest : List Char} {tokens : List (Token N)} : t.raw.toList ≠ [] →
      Tiled (t.position.offset + (utf16 t.raw.toList).length) rest tokens →
      Tiled t.position.offset (t.raw.toList ++ rest) (t::tokens)

end Gaps

section Tiles
variable {N : Type} {offset : ℕ} {cs : List Char} {tokens : List (Token N)}

/-- The text of a token is what the source has at its offset. -/
def IsSlice (units : CodeUnits) (t : Token N) : Prop :=
  (units.drop t.position.offset).take (utf16 t.raw.toList).length = utf16 t.raw.toList

theorem Tiled.offset_le (h : Tiled offset cs tokens) :
    ∀ t ∈ tokens, offset ≤ t.position.offset := by
  induction h with
  | eof => simp
  | gap _ _ ih =>
    intro t ht
    have hle := ih t ht
    omega
  | @token t rest tokens _ _ ih =>
    intro t' ht'
    rcases List.mem_cons.mp ht' with rfl | ht'
    · exact Nat.le_refl _
    · have hle := ih t' ht'
      omega

theorem utf16_length_pos {text : List Char} (h : text ≠ []) : 0 < (utf16 text).length := by
  obtain ⟨c, text, rfl⟩ := List.exists_cons_of_ne_nil h
  rw [utf16_cons, List.length_append]
  have hpos : 0 < (charUnits c).length := by
    unfold charUnits
    split <;> simp
  omega

theorem Tiled.increasing (h : Tiled offset cs tokens) :
    tokens.Pairwise fun t t' => t.position.offset < t'.position.offset := by
  induction h with
  | eof => exact List.pairwise_singleton _ _
  | gap _ _ ih => exact ih
  | @token t rest tokens hraw htiled ih =>
    refine List.pairwise_cons.mpr ⟨?_, ih⟩
    intro t' ht'
    have hle := htiled.offset_le t' ht'
    have hpos := utf16_length_pos hraw
    omega

theorem Tiled.slices (h : Tiled offset cs tokens) (before : CodeUnits)
    (hbefore : before.length = offset) : ∀ t ∈ tokens, IsSlice (before ++ utf16 cs) t := by
  induction h generalizing before with
  | eof =>
    intro t ht
    cases List.mem_singleton.mp ht
    rfl
  | @gap offset skipped rest tokens _ _ ih =>
    intro t ht
    rw [utf16_append, ← List.append_assoc]
    exact ih (before ++ utf16 skipped) (by rw [List.length_append, hbefore]) t ht
  | @token t rest tokens _ _ ih =>
    intro t' ht'
    rcases List.mem_cons.mp ht' with rfl | ht'
    · rw [IsSlice, ← hbefore, List.drop_left, utf16_append, List.take_left]
    · rw [utf16_append, ← List.append_assoc]
      exact ih (before ++ utf16 t.raw.toList) (by rw [List.length_append, hbefore]) t' ht'

end Tiles

section Rounds
variable {N : Type} [Numerals N]

/-- What a round leaves of the source. -/
def Lexer.Scan.rest : Scan N → Option (List Char)
  | .blank rest _ => some rest
  | .token _ rest _ => some rest
  | .fail _ _ => none

/-- The rounds of the scan, each with what it leaves for the next. -/
def Round (N : Type) [Numerals N] (cs rest : List Char) : Prop :=
  ∃ ch tail, cs = ch::tail ∧ (scan ch tail : Scan N).rest = some rest

/-- The places at which a round of the scan starts. -/
def Starts (N : Type) [Numerals N] (source rest : List Char) : Prop :=
  Relation.ReflTransGen (Round N) source rest

/-- The tokens that the rounds read from a place on. -/
inductive Scanned : Position → List Char → List (Token N) → Prop
  | eof {p : Position} : Scanned p [] [⟨.eof, p⟩]
  | blank {p : Position} {ch : Char} {tail skipped rest : List Char} {drift : ℕ}
      {tokens : List (Token N)} : (scan ch tail : Scan N) = .blank rest drift →
      skipped ++ rest = ch::tail →
      Scanned ((p.past skipped).drifted drift) rest tokens → Scanned p (ch::tail) tokens
  | token {p : Position} {ch : Char} {tail rest : List Char} {t : Lexeme N} {drift : ℕ}
      {tokens : List (Token N)} : scan ch tail = .token t rest drift →
      t.raw.toList ++ rest = ch::tail →
      Scanned ((p.drifted drift).past t.raw.toList) rest tokens →
      Scanned p (ch::tail) (⟨t, p.drifted drift⟩ :: tokens)

theorem take_skipped {ch : Char} {tail skipped rest : List Char}
    (hskipped : skipped ++ rest = ch::tail) :
    (ch::tail).take (tail.length + 1 - rest.length) = skipped := by
  have hlength := congrArg List.length hskipped
  simp only [List.length_append, List.length_cons] at hlength
  rw [← hskipped, show tail.length + 1 - rest.length = skipped.length by omega, List.take_left]

theorem scanned_of_tokenizeFrom (p : Position) (cs : List Char) (tokens : List (Token N))
    (h : tokenizeFrom p cs = .ok tokens) : Scanned p cs tokens := by
  induction hlen : cs.length using Nat.strong_induction_on generalizing p cs tokens with
  | _ n ih =>
    cases cs with
    | nil =>
      rw [tokenizeFrom] at h
      cases h
      exact .eof
    | cons ch tail =>
      rw [tokenizeFrom] at h
      split at h
      next rest drift hscan =>
        obtain ⟨skipped, hskipped⟩ := (scan_blank hscan).trans (List.suffix_cons ch tail)
        rw [take_skipped hskipped] at h
        refine .blank hscan hskipped (ih rest.length ?_ _ _ _ h rfl)
        have hle := (scan_blank hscan).length_le
        simp only [List.length_cons] at hlen
        omega
      next t rest drift hscan =>
        obtain ⟨raw, hraw, hrest⟩ := scan_token hscan
        dsimp only at h
        cases hlater : tokenizeFrom (N := N) ((p.drifted drift).past t.raw.toList) rest with
        | error e =>
          rw [hlater] at h
          cases h
        | ok later =>
          rw [hlater] at h
          cases h
          refine .token hscan (by rw [hraw, ← hrest]; rfl) (ih rest.length ?_ _ _ _ hlater rfl)
          rw [← hlen, ← hrest]
          simp only [List.length_cons, List.length_append]
          omega
      next => cases h

/-- A round that reads no token reads a blank or a comment. -/
theorem scan_skips {ch : Char} {tail rest : List Char} {drift : ℕ}
    (h : (scan ch tail : Scan N) = .blank rest drift) :
    ∃ skipped, skipped ++ rest = ch::tail ∧ Skips skipped rest ∧
      (drift = 0 ∨ ∃ text, ch::tail = '-' :: '-' :: text ∧ BrokenBracket text ∧
        rest = text.dropWhile (· ≠ '\n')) := by
  unfold scan at h
  split at h
  next hblank =>
    cases h
    refine ⟨[ch], rfl, .blank ?_, Or.inl rfl⟩
    simpa [isBlank, or_assoc] using hblank
  split at h
  next hdashes =>
    obtain ⟨rfl, hhead⟩ := hdashes
    cases tail with
    | nil => cases hhead
    | cons c text =>
      cases hhead
      cases h
      obtain ⟨skipped, hskipped, hskips, hdrift⟩ := skipComment_skips text
      refine ⟨'-' :: '-' :: skipped, by simp [hskipped], hskips, hdrift.imp_right ?_⟩
      rintro ⟨hbroken, hrest⟩
      exact ⟨text, rfl, hbroken, hrest⟩
  split at h
  · split at h <;> cases h
  split at h
  · split at h
    · split at h <;> cases h
    · unfold scanPunctuation at h
      split at h <;> cases h
  split at h
  · cases h
  split at h
  · cases h
  · unfold scanPunctuation at h
    split at h <;> cases h

omit [Numerals N] in
theorem drift_of_punctuation {ch : Char} {cs rest : List Char} {t : Lexeme N} {drift drift' : ℕ}
    (h : scanPunctuation ch cs drift = .token t rest drift') : drift' = drift := by
  unfold scanPunctuation at h
  split at h <;> cases h
  rfl

/-- Before a token, columns are counted twice for a broken bracket only. -/
theorem scan_drift {ch : Char} {tail rest : List Char} {t : Lexeme N} {drift : ℕ}
    (h : scan ch tail = .token t rest drift) : drift = 0 ∨ BrokenBracket (ch::tail) := by
  unfold scan at h
  split at h
  · cases h
  split at h
  · cases h
  split at h
  · split at h
    · cases h
      exact Or.inl rfl
    · cases h
  split at h
  next hopen =>
    obtain ⟨rfl, hhead⟩ := hopen
    split at h
    · split at h
      · cases h
        exact Or.inl rfl
      · cases h
    next level hbracket =>
      have hnone : (longBracket tail).2 = none := by rw [hbracket]
      refine Or.inr (broken_of_longBracket (hhead.resolve_left ?_) hnone)
      intro hhead
      cases tail with
      | nil => cases hhead
      | cons c tail =>
        cases hhead
        cases hnone
  split at h
  · cases h
    exact Or.inl rfl
  split at h
  · cases h
    exact Or.inl rfl
  · exact Or.inl (drift_of_punctuation h)

/-- The tokens and what is skipped make up the source. -/
theorem Scanned.tiled {p : Position} {cs : List Char} {tokens : List (Token N)}
    (h : Scanned p cs tokens) : Tiled p.offset cs tokens := by
  induction h with
  | eof => exact .eof
  | @blank p ch tail skipped rest drift tokens hscan hskipped _ ih =>
    obtain ⟨skipped', hskipped', hskips, -⟩ := scan_skips hscan
    have hsame : skipped' = skipped := List.append_cancel_right (hskipped'.trans hskipped.symm)
    subst hsame
    rw [← hskipped]
    refine .gap hskips ?_
    rwa [offset_drifted, offset_past] at ih
  | @token p ch tail rest t drift tokens hscan hraw _ ih =>
    obtain ⟨raw, hcons, -⟩ := scan_token hscan
    rw [offset_past] at ih
    rw [← hraw]
    exact Tiled.token (t := ⟨t, p.drifted drift⟩) (by rw [hcons]; exact List.cons_ne_nil _ _) ih

end Rounds

section Exactness
variable {N : Type} [Numerals N]

/-- The token is where the source says. -/
def IsExact (source : CodeUnits) (t : Token N) : Prop :=
  t.position = counted (source.take t.position.offset)

/-- Every token is a slice of the source, at a place that counting gives, and nothing but blanks
and comments is in between. -/
structure PositionsExact (source : List Char) (tokens : List (Token N)) : Prop where
  slices : ∀ t ∈ tokens, IsSlice (utf16 source) t
  increasing : tokens.Pairwise fun t t' => t.position.offset < t'.position.offset
  gaps : Tiled 0 source tokens
  counts : ∀ t ∈ tokens, IsExact (utf16 source) t

omit [Numerals N] in
theorem isExact_drifted (before : CodeUnits) (cs : List Char) (t : Lexeme N) (drift : ℕ) :
    IsExact (before ++ utf16 cs) ⟨t, (counted before).drifted drift⟩ ↔ drift = 0 := by
  have htake : (before ++ utf16 cs).take (counted before).offset = before := List.take_left
  rw [IsExact, offset_drifted, htake]
  exact drifted_eq_iff

theorem counted_past (before : CodeUnits) (drift : ℕ) (text : List Char) :
    ((counted before).drifted drift).past text =
      (counted (before ++ utf16 text)).drifted (if '\n' ∈ text then 0 else drift) := by
  rw [past_drifted, counted_text]

theorem starts_cons {ch : Char} {tail rest left : List Char}
    (hscan : (scan ch tail : Scan N).rest = some left) (h : Starts N (ch::tail) rest) :
    rest = ch::tail ∨ Starts N left rest := by
  rcases Relation.ReflTransGen.cases_head h with heq | ⟨next, ⟨ch', tail', heq, hnext⟩, hlater⟩
  · exact Or.inl heq.symm
  · cases heq
    rw [hscan] at hnext
    cases hnext
    exact Or.inr hlater

theorem head_of_skipped {ch : Char} {tail skipped rest : List Char} {drift : ℕ}
    (hscan : (scan ch tail : Scan N) = .blank rest drift) (hskipped : skipped ++ rest = ch::tail) :
    ch ∈ skipped := by
  cases skipped with
  | nil =>
    have hle := (scan_blank hscan).length_le
    rw [show rest = ch::tail from hskipped, List.length_cons] at hle
    omega
  | cons c skipped =>
    cases hskipped
    exact List.mem_cons_self

theorem Scanned.exact {p : Position} {cs : List Char} {tokens : List (Token N)}
    (h : Scanned p cs tokens) {before : CodeUnits} {drift : ℕ}
    (hp : p = (counted before).drifted drift) (hdrift : drift = 0 ∨ cs.head? = some '\n')
    (hread : ∀ rest, Starts N cs rest → ¬ Misread rest) :
    ∀ t ∈ tokens, IsExact (before ++ utf16 cs) t := by
  induction h generalizing before drift with
  | eof =>
    intro t ht
    cases List.mem_singleton.mp ht
    rw [hp]
    exact (isExact_drifted before [] _ drift).mpr (hdrift.resolve_right nofun)
  | @blank p ch tail skipped rest drift' tokens hscan hskipped _ ih =>
    have hforget : (if '\n' ∈ skipped then 0 else drift) = 0 := by
      rcases hdrift with rfl | hnewline
      · exact ite_self 0
      · cases hnewline
        exact if_pos (head_of_skipped hscan hskipped)
    have hplace : (p.past skipped).drifted drift' =
        (counted (before ++ utf16 skipped)).drifted drift' := by
      rw [hp, counted_past, hforget]
      rfl
    rw [← hskipped, utf16_append, ← List.append_assoc]
    refine ih hplace ?_
      fun later hlater => hread later (.head ⟨ch, tail, rfl, by rw [hscan]; rfl⟩ hlater)
    obtain ⟨-, -, -, hzero | ⟨text, heq, hbroken, hrest⟩⟩ := scan_skips hscan
    · exact Or.inl hzero
    · right
      have hmem : '\n' ∈ text := by
        by_contra hnot
        refine hread _ .refl ?_
        rw [heq]
        exact .comment hbroken hnot
      obtain ⟨start, later, htext, hfirst⟩ := List.eq_append_cons_of_mem hmem
      have hall : ∀ c ∈ start, decide (c ≠ '\n') = true := by
        intro c hc
        rw [decide_eq_true_iff]
        rintro rfl
        exact hfirst hc
      rw [hrest, htext, List.dropWhile_append_of_pos hall]
      rfl
  | @token p ch tail rest t drift' tokens hscan hraw _ ih =>
    have hzero : drift = 0 := by
      refine hdrift.resolve_right ?_
      intro hnewline
      cases hnewline
      cases hscan
    have hzero' : drift' = 0 :=
      (scan_drift hscan).resolve_right fun hbroken => hread _ .refl (.bracket hbroken)
    subst hzero hzero' hp
    intro t' ht'
    rcases List.mem_cons.mp ht' with rfl | ht'
    · exact (isExact_drifted before (ch::tail) t 0).mpr rfl
    · rw [← hraw, utf16_append, ← List.append_assoc]
      refine ih ?_ (Or.inl rfl)
        (fun later hlater => hread later (.head ⟨ch, tail, rfl, by rw [hscan]; rfl⟩ hlater)) t' ht'
      rw [drifted_drifted, counted_past, ite_self]

theorem scan_broken {text : List Char} (h : BrokenBracket text) :
    ∃ tail level, text = '[' :: tail ∧ (scan '[' tail : Scan N) =
      .token (.punctuation .lbracket (String.singleton '[')) tail (level + 2) := by
  obtain ⟨tail, rfl⟩ : ∃ tail, text = '[' :: tail := by
    obtain ⟨level, rest, rfl, -, -⟩ := h
    exact ⟨_, rfl⟩
  obtain ⟨level, hbracket, hhead⟩ := longBracket_broken h
  refine ⟨tail, level, rfl, ?_⟩
  rw [scan, if_neg (by decide), if_neg (by simp), if_neg (by decide), if_pos ⟨rfl, Or.inr hhead⟩]
  simp only [hbracket]
  rfl

theorem skipComment_broken {text : List Char} (h : BrokenBracket text) :
    ∃ level, skipComment text = (text.dropWhile (· ≠ '\n'), level + 2) := by
  obtain ⟨tail, rfl⟩ : ∃ tail, text = '[' :: tail := by
    obtain ⟨level, rest, rfl, -, -⟩ := h
    exact ⟨_, rfl⟩
  obtain ⟨level, hbracket, hhead⟩ := longBracket_broken h
  refine ⟨level, ?_⟩
  simp only [skipComment, hhead, or_true, if_true, hbracket]

theorem misread_token {ch : Char} {tail rest : List Char} {t : Lexeme N} {drift : ℕ}
    (hscan : scan ch tail = .token t rest drift) (h : Misread (ch::tail)) : drift ≠ 0 := by
  cases h with
  | bracket hbroken =>
    obtain ⟨tail', level, heq, hbracket⟩ := scan_broken (N := N) hbroken
    cases heq
    rw [hbracket] at hscan
    cases hscan
    exact Nat.succ_ne_zero (level + 1)
  | comment => cases hscan

theorem misread_blank {ch : Char} {tail rest : List Char} {drift : ℕ}
    (hscan : (scan ch tail : Scan N) = .blank rest drift) (h : Misread (ch::tail)) :
    rest = [] ∧ drift ≠ 0 := by
  cases h with
  | bracket hbroken =>
    obtain ⟨tail', level, heq, hbracket⟩ := scan_broken (N := N) hbroken
    cases heq
    rw [hbracket] at hscan
    cases hscan
  | @comment text hbroken hnewline =>
    obtain ⟨level, hskip⟩ := skipComment_broken hbroken
    have hcomment : (scan '-' ('-' :: text) : Scan N) =
        .blank (skipComment text).1 (skipComment text).2 := by
      rw [scan, if_neg (by decide), if_pos ⟨rfl, rfl⟩]
      rfl
    rw [hcomment, hskip] at hscan
    cases hscan
    refine ⟨?_, Nat.succ_ne_zero (level + 1)⟩
    rw [List.dropWhile_eq_nil_iff]
    intro c hc
    rw [decide_eq_true_iff]
    rintro rfl
    exact hnewline hc

theorem not_broken {c : Char} {text : List Char} (h : c ≠ '[') : ¬ BrokenBracket (c::text) := by
  rintro ⟨level, rest, heq, -, -⟩
  cases heq
  exact h rfl

theorem not_misread_nil : ¬ Misread [] := by
  intro h
  cases h with
  | bracket hbroken =>
    obtain ⟨level, rest, heq, -, -⟩ := hbroken
    cases heq

theorem Scanned.read {p : Position} {cs : List Char} {tokens : List (Token N)}
    (h : Scanned p cs tokens) {before : CodeUnits} {drift : ℕ}
    (hp : p = (counted before).drifted drift)
    (hexact : ∀ t ∈ tokens, IsExact (before ++ utf16 cs) t) :
    ∀ rest, Starts N cs rest → ¬ Misread rest := by
  induction h generalizing before drift with
  | eof =>
    intro rest hstarts
    rcases Relation.ReflTransGen.cases_head hstarts with rfl | hround
    · exact not_misread_nil
    · obtain ⟨next, ⟨ch, tail, heq, -⟩, -⟩ := hround
      cases heq
  | @blank p ch tail skipped rest drift' tokens hscan hskipped hlater ih =>
    have hplace : (p.past skipped).drifted drift' = (counted (before ++ utf16 skipped)).drifted
        ((if '\n' ∈ skipped then 0 else drift) + drift') := by
      rw [hp, counted_past, drifted_drifted]
    rw [← hskipped, utf16_append, ← List.append_assoc] at hexact
    intro later hstarts
    rcases starts_cons (by rw [hscan]; rfl) hstarts with rfl | hstarts
    · intro hmisread
      obtain ⟨rfl, hdrift⟩ := misread_blank hscan hmisread
      cases hlater with
      | eof =>
        have heof := hexact _ (List.mem_singleton_self _)
        rw [hplace] at heof
        have hzero := (isExact_drifted _ [] _ _).mp heof
        omega
    · exact ih hplace hexact later hstarts
  | @token p ch tail rest t drift' tokens hscan hraw _ ih =>
    have hfirst := hexact _ List.mem_cons_self
    rw [hp, drifted_drifted] at hfirst
    have hzero := (isExact_drifted before (ch::tail) t _).mp hfirst
    intro later hstarts
    rcases starts_cons (by rw [hscan]; rfl) hstarts with rfl | hstarts
    · intro hmisread
      have hdrift := misread_token hscan hmisread
      omega
    · refine @ih (before ++ utf16 t.raw.toList)
        (if '\n' ∈ t.raw.toList then 0 else drift + drift') ?_ ?_ later hstarts
      · rw [hp, drifted_drifted, counted_past]
      · intro t' ht'
        rw [List.append_assoc, ← utf16_append, hraw]
        exact hexact t' (List.mem_cons_of_mem _ ht')

/-- The positions of the tokens are exact if and only if no round of the scan starts at a bracket
that breaks off after its `=`, or at a comment with one that ends the source. -/
theorem positionsExact_iff (source : String) (tokens : List (Token N))
    (h : tokenize source = .ok tokens) :
    PositionsExact source.toList tokens ↔
      ∀ rest, Starts N source.toList rest → ¬ Misread rest := by
  have hscanned := scanned_of_tokenizeFrom _ _ _ h
  have hstart : (⟨1, 1, 0⟩ : Position) = (counted []).drifted 0 := rfl
  constructor
  · intro hexact
    exact hscanned.read hstart hexact.counts
  · intro hread
    have htiled := hscanned.tiled
    exact ⟨htiled.slices [] rfl, htiled.increasing, htiled,
      hscanned.exact hstart (Or.inl rfl) hread⟩

end Exactness

section Cases

theorem tokenizeFrom_blank {N : Type} [Numerals N] {p : Position} {ch : Char}
    {tail skipped rest : List Char} {drift : ℕ}
    (hscan : (scan ch tail : Scan N) = .blank rest drift)
    (hskipped : skipped ++ rest = ch::tail) :
    tokenizeFrom (N := N) p (ch::tail) = tokenizeFrom ((p.past skipped).drifted drift) rest := by
  rw [tokenizeFrom]
  split
  next rest' drift' heq =>
    rw [hscan] at heq
    cases heq
    rw [take_skipped hskipped]
  next heq =>
    rw [hscan] at heq
    cases heq
  next heq =>
    rw [hscan] at heq
    cases heq

/-- Columns are exact again after the line of a comment with a broken bracket. -/
theorem positionsExact_newline :
    @PositionsExact ℕ "--[=\n".toList [⟨.eof, ⟨2, 1, 5⟩⟩] := by
  let _ := naturalNumerals
  have hcomment : (scan '-' ['-', '[', '=', '\n'] : Scan ℕ) = .blank ['\n'] 2 := rfl
  have hnewline : (scan '\n' [] : Scan ℕ) = .blank [] 0 := rfl
  have htokens : tokenize (N := ℕ) "--[=\n" = .ok [⟨.eof, ⟨2, 1, 5⟩⟩] := by
    show tokenizeFrom ⟨1, 1, 0⟩ ['-', '-', '[', '=', '\n'] = _
    rw [tokenizeFrom_blank hcomment (show ['-', '-', '[', '='] ++ ['\n'] = _ from rfl),
      tokenizeFrom_blank hnewline (show ['\n'] ++ [] = _ from rfl), tokenizeFrom]
    rfl
  refine (positionsExact_iff _ _ htokens).mpr ?_
  rw [show "--[=\n".toList = ['-', '-', '[', '=', '\n'] from rfl]
  intro rest hstarts
  rcases starts_cons (N := ℕ) (by rw [hcomment]; rfl) hstarts with rfl | hstarts
  · intro hmisread
    cases hmisread with
    | bracket hbroken => exact not_broken (by decide) hbroken
    | comment _ hnewline => exact hnewline (by decide)
  rcases starts_cons (N := ℕ) (by rw [hnewline]; rfl) hstarts with rfl | hstarts
  · intro hmisread
    cases hmisread with
    | bracket hbroken => exact not_broken (by decide) hbroken
  · rcases Relation.ReflTransGen.cases_head hstarts with rfl | hround
    · exact not_misread_nil
    · obtain ⟨next, ⟨ch, tail, heq, -⟩, -⟩ := hround
      cases heq

/-- At the end of a source, the columns of a broken bracket are still counted twice. -/
theorem broken_comment_inexact :
    ∃ tokens, @tokenize ℕ naturalNumerals "--[=" = .ok tokens ∧
      ¬ PositionsExact "--[=".toList tokens := by
  let _ := naturalNumerals
  have hcomment : (scan '-' ['-', '[', '='] : Scan ℕ) = .blank [] 2 := rfl
  have htokens : tokenize (N := ℕ) "--[=" = .ok [⟨.eof, ⟨1, 7, 4⟩⟩] := by
    show tokenizeFrom ⟨1, 1, 0⟩ ['-', '-', '[', '='] = _
    rw [tokenizeFrom_blank hcomment (show ['-', '-', '[', '='] ++ [] = _ from rfl), tokenizeFrom]
    rfl
  refine ⟨_, htokens, ?_⟩
  intro hexact
  have hcolumn := congrArg Position.column (hexact.counts _ (List.mem_singleton_self _))
  exact absurd hcolumn (by decide)

end Cases

end LuaRecovery.Lua
