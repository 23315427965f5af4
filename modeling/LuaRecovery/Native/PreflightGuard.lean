import LuaRecovery.Lua.TokenPositions
import LuaRecovery.Native.PreflightAgreement

/-!
# The preflight as a guard

The fallback against the lexer. Where every numeral ends at the lexer's end and
no long bracket has a level, each round of the lexer is some steps of the
fallback, which count its token and follow its brackets.
-/

set_option autoImplicit false

namespace LuaRecovery.Native
open LuaRecovery.Lib LuaRecovery.Lua LuaRecovery.Lua.Lexer
open Fallback (next step)

/-! Characters and their code units. -/

theorem units_high {c : Char} (h : ¬ c.toNat < 128) : ∀ u ∈ charUnits c, 128 ≤ u := by
  intro u hu
  unfold charUnits at hu
  split_ifs at hu
  · rw [List.mem_singleton.mp hu]
    omega
  · rcases List.mem_cons.mp hu with rfl | hu
    · omega
    · rw [List.mem_singleton.mp hu]
      omega

theorem units_cons (c : Char) : ∃ u us, charUnits c = u::us := by
  unfold charUnits
  split_ifs
  · exact ⟨_, _, rfl⟩
  · exact ⟨_, _, rfl⟩

/-- An ASCII character is among the units of no other character. -/
theorem mem_units {c d : Char} (hd : d.toNat < 128) (h : d.toNat ∈ charUnits c) : c = d := by
  by_cases hc : c.toNat < 128
  · rw [charUnits_ascii hc, List.mem_singleton] at h
    exact Char.toNat_inj.mp h.symm
  · have hhigh := units_high hc _ h
    omega

theorem utf16_ascii_cons {c : Char} (h : c.toNat < 128) (cs : List Char) :
    utf16 (c::cs) = c.toNat :: utf16 cs := by
  rw [utf16_cons, charUnits_ascii h]
  rfl

/-- The first unit of a text is an ASCII one exactly when its first character is. -/
theorem head_utf16 {d : Char} (hd : d.toNat < 128) (cs : List Char) :
    (utf16 cs).head? = some d.toNat ↔ cs.head? = some d := by
  cases cs with
  | nil => simp
  | cons c cs =>
    obtain ⟨u, us, hunits⟩ := units_cons c
    rw [utf16_cons, hunits, List.cons_append, List.head?_cons, List.head?_cons]
    constructor
    · intro h
      have hmem : d.toNat ∈ charUnits c := by
        rw [hunits, ← Option.some.inj h]
        simp
      rw [mem_units hd hmem]
    · intro h
      rw [Option.some.inj h, charUnits_ascii hd] at hunits
      rw [(List.cons.inj hunits).1]

theorem dropWhile_utf16 {p : ℕ → Bool} {q : Char → Bool}
    (htrue : ∀ c, q c = true → ∀ u ∈ charUnits c, p u = true)
    (hfalse : ∀ c, q c = false → ∀ u ∈ charUnits c, p u = false) (cs : List Char) :
    (utf16 cs).dropWhile p = utf16 (cs.dropWhile q) := by
  induction cs with
  | nil => rfl
  | cons c cs ih =>
    cases hq : q c with
    | true =>
      rw [List.dropWhile_cons_of_pos hq, ← ih, utf16_cons]
      exact List.dropWhile_append_of_pos (htrue c hq)
    | false =>
      obtain ⟨u, us, hunits⟩ := units_cons c
      have hu : p u = false := hfalse c hq u (by simp [hunits])
      rw [List.dropWhile_cons_of_neg (by simp [hq]), utf16_cons, hunits, List.cons_append,
        List.dropWhile_cons_of_neg (by simp [hu])]

theorem isDigit_units (c : Char) : c.isDigit = isDigit c.toNat := by
  show (decide (c.val ≥ 48) && decide (c.val ≤ 57)) = _
  rw [Bool.eq_iff_iff]
  simp only [isDigit, Bool.and_eq_true, decide_eq_true_eq, UInt32.le_iff_toNat_le, ge_iff_le]
  rfl

theorem isNamePart_units (c : Char) : isNamePart c = isIdentifierPart c.toNat := by
  have hletter : c.isAlpha = isLetter c.toNat := by
    rw [isAlpha_eq, Bool.eq_iff_iff]
    simp only [isLetter, Bool.or_eq_true, Bool.and_eq_true, decide_eq_true_eq,
      UInt32.le_iff_toNat_le, ge_iff_le]
    exact or_comm
  have hscore : decide (c = '_') = decide (c.toNat = '_'.toNat) := by
    rw [Bool.eq_iff_iff, decide_eq_true_eq, decide_eq_true_eq]
    exact Char.toNat_inj.symm
  show (c.isAlpha || c.isDigit || decide (c = '_')) = _
  rw [hletter, isDigit_units, hscore]
  rfl

/-! Where comments and strings end. -/

theorem longMarks_run {us : List ℕ} (h : ∀ u ∈ us, u ≠ ']'.toNat) (rest : List ℕ) :
    (Fallback.longMarks (us++rest)).2 = (Fallback.longMarks rest).2 := by
  induction us with
  | nil => rfl
  | cons u us ih =>
    have hopen : closesLong (u :: (us++rest)) ≠ true := by
      intro hclose
      have heads := List.cons.inj (eq_of_take_two (of_decide_eq_true hclose))
      exact h u (by simp) heads.1
    rw [List.cons_append, Fallback.longMarks, if_neg hopen]
    exact ih fun v hv => h v (by simp [hv])

theorem closesLong_utf16 (cs : List Char) :
    closesLong (utf16 (']'::cs)) = true ↔ closing 0 <+: ']'::cs := by
  have hhead := head_utf16 (d := ']') (by decide) cs
  rw [utf16_ascii_cons (by decide)]
  show decide (_ = _) = true ↔ [']', ']'] <+: ']'::cs
  rw [decide_eq_true_eq, List.prefix_cons_inj, List.take_succ_cons, List.cons.injEq]
  simp only [true_and]
  constructor
  · intro htake
    have hfirst : (utf16 cs).head? = some ']'.toNat := by
      rw [← List.take_append_drop 1 (utf16 cs), htake]
      rfl
    obtain ⟨tail, hcs⟩ : ∃ tail, cs = ']'::tail := ⟨_, List.eq_cons_of_mem_head? (hhead.mp hfirst)⟩
    exact ⟨tail, by rw [hcs]; rfl⟩
  · rintro ⟨tail, rfl⟩
    rw [List.singleton_append, utf16_ascii_cons (by decide)]
    rfl

/-- Both scanners leave a long bracket without level behind the same bracket. -/
theorem longMarks_utf16 (cs : List Char) :
    (Fallback.longMarks (utf16 cs)).2 =
      utf16 (((readUntil (closing 0) cs).map Prod.snd).getD []) := by
  induction cs with
  | nil => rfl
  | cons c cs ih =>
    by_cases hclose : closing 0 <+: c::cs
    · obtain ⟨tail, htail⟩ := hclose
      have hc : c = ']' := (List.cons.inj htail).1.symm
      subst hc
      have hcs : cs = ']'::tail := (List.cons.inj htail).2.symm
      have hclosed : closing 0 <+: ']'::cs := ⟨tail, htail⟩
      rw [readUntil, if_pos hclosed, utf16_ascii_cons (by decide), Fallback.longMarks,
        ← utf16_ascii_cons (by decide), if_pos ((closesLong_utf16 cs).mpr hclosed), hcs]
      rw [utf16_ascii_cons (by decide)]
      rfl
    · have hstep : (Fallback.longMarks (utf16 (c::cs))).2 = (Fallback.longMarks (utf16 cs)).2 := by
        by_cases hc : c = ']'
        · subst hc
          rw [utf16_ascii_cons (by decide), Fallback.longMarks, ← utf16_ascii_cons (by decide),
            if_neg (fun h => hclose ((closesLong_utf16 cs).mp h))]
        · rw [utf16_cons]
          exact longMarks_run (fun u hu heq => hc (mem_units (d := ']') (by decide) (heq ▸ hu))) _
      rw [hstep, ih, readUntil, if_neg hclose]
      cases readUntil (closing 0) cs <;> rfl

theorem stringMarks_cons (quote u : ℕ) (us : List ℕ) :
    (Fallback.stringMarks quote (u::us)).2 =
      if u = '\\'.toNat then (Fallback.stringMarks quote (us.drop 1)).2
      else if u = quote then us else (Fallback.stringMarks quote us).2 := by
  cases us with
  | nil =>
    show (if u = '\\'.toNat ∨ u = quote then (hidden [u], []) else (counted [u], [])).2 = _
    by_cases hescape : u = '\\'.toNat
    · rw [if_pos (Or.inl hescape), if_pos hescape]
      rfl
    · by_cases hquote : u = quote
      · rw [if_pos (Or.inr hquote), if_neg hescape, if_pos hquote]
      · rw [if_neg (by tauto), if_neg hescape, if_neg hquote]
        rfl
  | cons v us =>
    rw [Fallback.stringMarks]
    split_ifs <;> rfl

theorem stringMarks_run {quote : ℕ} {us : List ℕ} (h : ∀ u ∈ us, u ≠ '\\'.toNat ∧ u ≠ quote)
    (rest : List ℕ) :
    (Fallback.stringMarks quote (us++rest)).2 = (Fallback.stringMarks quote rest).2 := by
  induction us with
  | nil => rfl
  | cons u us ih =>
    obtain ⟨hescape, hquote⟩ := h u (by simp)
    rw [List.cons_append, stringMarks_cons, if_neg hescape, if_neg hquote]
    exact ih fun v hv => h v (by simp [hv])

/-- Both scanners leave a string behind the same quote. -/
theorem stringMarks_utf16 {quote : Char} (hquote : quote.toNat < 128) (hescape : quote ≠ '\\')
    {cs content rest : List Char} (h : readString quote cs = .ok (content, rest)) :
    (Fallback.stringMarks quote.toNat (utf16 cs)).2 = utf16 rest := by
  fun_induction readString quote cs generalizing content rest with
  | case1 => cases h
  | case2 => cases h
  | case3 c cs ih =>
    cases hread : readString quote cs with
    | error message =>
      rw [hread] at h
      cases h
    | ok result =>
      rw [hread] at h
      cases h
      rw [utf16_ascii_cons (by decide), stringMarks_cons, if_pos rfl, utf16_cons, ← ih hread]
      by_cases hc : c.toNat < 128
      · rw [charUnits_ascii hc]
        rfl
      · obtain ⟨u, us, hunits⟩ := units_cons c
        rw [hunits, List.cons_append, List.drop_one, List.tail_cons]
        apply stringMarks_run
        intro v hv
        have hhigh := units_high hc v (by simp [hunits, hv])
        have hslash : '\\'.toNat < 128 := by decide
        exact ⟨by omega, by omega⟩
  | case4 cs hne =>
    cases h
    rw [utf16_ascii_cons hquote, stringMarks_cons, if_neg (fun heq => hescape (Char.toNat_inj.mp heq)),
      if_pos rfl]
  | case5 c cs _ _ => cases h
  | case6 c cs hne hslash hc hline ih =>
    cases hread : readString quote cs with
    | error message =>
      rw [hread] at h
      cases h
    | ok result =>
      rw [hread] at h
      cases h
      rw [utf16_cons, ← ih hread]
      apply stringMarks_run
      intro u hu
      constructor
      · rintro rfl
        have heq := mem_units (d := '\\') (by decide) hu
        cases cs with
        | nil => exact hne heq rfl
        | cons d cs => exact hslash d cs heq rfl
      · rintro rfl
        exact hc (mem_units hquote hu)

/-! What a step counts. -/

def Counts.levels (s : Counts) : ℕ × ℕ := (s.depth, s.maxDepth)

/-- The depth and the greatest depth after a token. A closing bracket without an
opening one leaves the depth at zero. -/
def nest (d : ℕ × ℕ) (type : TokenType) : ℕ × ℕ :=
  match type with
  | .lparen => (d.1+1, max d.2 (d.1+1))
  | .lbrace => (d.1+1, max d.2 (d.1+1))
  | .lbracket => (d.1+1, max d.2 (d.1+1))
  | .rparen => (d.1-1, d.2)
  | .rbrace => (d.1-1, d.2)
  | .rbracket => (d.1-1, d.2)
  | _ => d

/-- From one state to the other the scan counts the tokens and passes the bracket levels. -/
def Passes (us : List ℕ) (s : Counts) (rest : List ℕ) (tokens : ℕ) (levels : ℕ × ℕ) : Prop :=
  ∃ s', scanAll step us s = scanAll step rest s' ∧ s'.tokens = s.tokens+tokens ∧ s'.levels = levels

theorem Passes.step {u : ℕ} {us : List ℕ} {s : Counts} {tokens : ℕ} {levels : ℕ × ℕ}
    (htokens : (step u us s).2.tokens = s.tokens+tokens) (hlevels : (step u us s).2.levels = levels) :
    Passes (u::us) s (next u us) tokens levels := by
  refine ⟨(Fallback.step u us s).2, ?_, htokens, hlevels⟩
  rw [scanAll_cons Fallback.step_shrinks, (Fallback.step_lines u us s).1]

theorem Passes.trans {us vs rest : List ℕ} {s : Counts} {k m : ℕ} {levels levels' : ℕ × ℕ}
    (h : Passes us s vs k levels)
    (h' : ∀ s', s'.levels = levels → Passes vs s' rest m levels') :
    Passes us s rest (k+m) levels' := by
  obtain ⟨s', hscan, htokens, hlevels⟩ := h
  obtain ⟨s'', hscan', htokens', hlevels'⟩ := h' s' hlevels
  exact ⟨s'', hscan.trans hscan', by omega, hlevels'⟩

/-- A character that makes a token by itself wherever it stands. -/
def symbols : List Char :=
  ['+', '*', '/', '%', '^', '#', '=', '<', '>', '(', ')', '{', '}', ']', ';', ':', ',', '.', '~']

/-- The scan reads the character as a token of its own. -/
def Alone (u : ℕ) (us : List ℕ) : Prop :=
  u ≠ '\n'.toNat ∧ Fallback.isSpace u = false ∧ ¬ (u = '-'.toNat ∧ us.head? = some '-'.toNat) ∧
    isQuote u = false ∧ ¬ (u = '['.toNat ∧ us.head? = some '['.toNat) ∧
    isIdentifierStart u = false ∧ isDigit u = false

/-- No symbol is anything else to the scan. -/
def isSymbol (u : ℕ) : Bool :=
  u < 128 && u ≠ '\n'.toNat && !Fallback.isSpace u && u ≠ '-'.toNat && !isQuote u &&
    u ≠ '['.toNat && !isIdentifierStart u && !isDigit u

theorem isSymbol_of_mem {c : Char} (h : c ∈ symbols) : isSymbol c.toNat = true := by
  have hall : symbols.all (fun c => isSymbol c.toNat) = true := by decide
  exact List.all_eq_true.mp hall c h

theorem alone_symbol (c : Char) (hc : c ∈ symbols) (us : List ℕ) : Alone c.toNat us := by
  have hsymbol := isSymbol_of_mem hc
  simp only [isSymbol, Bool.and_eq_true, Bool.not_eq_true', decide_eq_true_eq] at hsymbol
  obtain ⟨⟨⟨⟨⟨⟨⟨-, hline⟩, hspace⟩, hdash⟩, hquote⟩, hbracket⟩, hstart⟩, hdigit⟩ := hsymbol
  exact ⟨hline, hspace, fun h => hdash h.1, hquote, fun h => hbracket h.1, hstart, hdigit⟩

theorem bracket_levels {s t : Counts} (h : s.levels = t.levels) (u : ℕ) :
    (s.bracket u).levels = (t.bracket u).levels := by
  obtain ⟨hdepth, hmax⟩ := Prod.mk.inj h
  unfold Counts.bracket
  rw [hdepth, hmax]
  split_ifs
  · rfl
  · rfl
  · exact h

theorem bracket_tokens (s : Counts) (u : ℕ) : (s.bracket u).tokens = s.tokens := by
  unfold Counts.bracket
  split_ifs <;> rfl

theorem passes_alone {u : ℕ} {us : List ℕ} (h : Alone u us) (s : Counts) :
    Passes (u::us) s us 1 (s.bracket u).levels := by
  obtain ⟨hline, hspace, hcomment, hquote, hlong, hstart, hdigit⟩ := h
  have hstep : Fallback.step u us s = (us, (s.token.withLines (s.lines.advance 1)).bracket u) := by
    rw [Fallback.step, if_neg hline]
    dsimp only
    rw [if_neg (by simp [hspace]), if_neg hcomment, if_neg (by simp [hquote]), if_neg hlong,
      if_neg (by simp [hstart]), if_neg (by simp [hdigit])]
  have hnext : next u us = us := by rw [← (Fallback.step_lines u us s).1, hstep]
  have hpass : Passes (u::us) s (next u us) 1 (s.bracket u).levels := by
    apply Passes.step
    · rw [hstep, bracket_tokens]
      rfl
    · have hsame : (s.token.withLines (s.lines.advance 1)).levels = s.levels := rfl
      rw [hstep]
      exact bracket_levels hsame u
  rwa [hnext] at hpass

/-- Blanks and comments make no token. -/
def Quiet (u : ℕ) (us : List ℕ) : Prop :=
  u = '\n'.toNat ∨ Fallback.isSpace u = true ∨ u = '-'.toNat ∧ us.head? = some '-'.toNat

instance (u : ℕ) (us : List ℕ) : Decidable (Quiet u us) :=
  inferInstanceAs (Decidable (_ ∨ _ ∨ _ ∧ _))

/-- A step over anything but a symbol leaves the brackets as they are. -/
theorem passes_step {u : ℕ} {us : List ℕ} (h : ¬ Alone u us) (s : Counts) :
    Passes (u::us) s (next u us) (if Quiet u us then 0 else 1) s.levels := by
  have hcounts : (Fallback.step u us s).2.tokens = s.tokens + (if Quiet u us then 0 else 1) ∧
      (Fallback.step u us s).2.levels = s.levels := by
    unfold Fallback.step
    by_cases hline : u = '\n'.toNat
    · have hquiet : Quiet u us := .inl hline
      rw [if_pos hline, if_pos hquiet]
      exact ⟨rfl, rfl⟩
    · rw [if_neg hline]
      dsimp only
      by_cases hspace : Fallback.isSpace u = true
      · have hquiet : Quiet u us := .inr (.inl hspace)
        rw [if_pos hspace, if_pos hquiet]
        exact ⟨rfl, rfl⟩
      · rw [if_neg hspace]
        by_cases hcomment : u = '-'.toNat ∧ us.head? = some '-'.toNat
        · have hquiet : Quiet u us := .inr (.inr hcomment)
          rw [if_pos hcomment, if_pos hquiet]
          split_ifs
          · exact ⟨rfl, rfl⟩
          · exact ⟨rfl, rfl⟩
        · have hquiet : ¬ Quiet u us := by
            rintro (h | h | h)
            · exact hline h
            · exact hspace h
            · exact hcomment h
          rw [if_neg hcomment, if_neg hquiet]
          split_ifs with hquote hlong hstart hdigit
          · exact ⟨rfl, rfl⟩
          · exact ⟨rfl, rfl⟩
          · exact ⟨rfl, rfl⟩
          · exact ⟨rfl, rfl⟩
          · refine absurd
              ⟨hline, by simpa using hspace, hcomment, by simpa using hquote, hlong, ?_⟩ h
            exact ⟨by simpa using hstart, by simpa using hdigit⟩
  exact Passes.step hcounts.1 hcounts.2

theorem quote_class : ∀ u < 128, isQuote u = true →
    u ≠ '\n'.toNat ∧ Fallback.isSpace u = false ∧ u ≠ '-'.toNat := by decide

theorem start_class : ∀ u < 128, isIdentifierStart u = true →
    u ≠ '\n'.toNat ∧ Fallback.isSpace u = false ∧ u ≠ '-'.toNat ∧ isQuote u = false ∧
      u ≠ '['.toNat := by decide

theorem digit_class : ∀ u < 128, isDigit u = true →
    u ≠ '\n'.toNat ∧ Fallback.isSpace u = false ∧ u ≠ '-'.toNat ∧ isQuote u = false ∧
      u ≠ '['.toNat ∧ isIdentifierStart u = false := by decide

theorem not_quiet {u : ℕ} (hline : u ≠ '\n'.toNat) (hspace : Fallback.isSpace u = false)
    (hdash : u ≠ '-'.toNat) (us : List ℕ) : ¬ Quiet u us := by
  rintro (h | h | ⟨h, -⟩)
  · exact hline h
  · simp [hspace] at h
  · exact hdash h

theorem passes_blank {u : ℕ} {us : List ℕ} (h : u = '\n'.toNat ∨ Fallback.isSpace u = true)
    (s : Counts) : Passes (u::us) s us 0 s.levels := by
  have hquiet : Quiet u us := h.elim .inl fun hspace => .inr (.inl hspace)
  have halone : ¬ Alone u us := by
    rintro ⟨hline, hspace, -⟩
    rcases h with rfl | h
    · exact hline rfl
    · simp [h] at hspace
  have hnext : next u us = us := by
    unfold Fallback.next Fallback.piece
    by_cases hline : u = '\n'.toNat
    · rw [if_pos hline]
    · rw [if_neg hline, if_pos (h.resolve_left hline)]
  have hpass := passes_step halone s
  rwa [if_pos hquiet, hnext] at hpass

theorem passes_comment {us : List ℕ} (h : us.head? = some '-'.toNat) (s : Counts) :
    Passes ('-'.toNat::us) s
      (if opensLong (us.drop 1) then (Fallback.longMarks (us.drop 3)).2
        else (us.drop 1).dropWhile (· ≠ '\n'.toNat)) 0 s.levels := by
  have hquiet : Quiet '-'.toNat us := .inr (.inr ⟨rfl, h⟩)
  have halone : ¬ Alone '-'.toNat us := fun halone => halone.2.2.1 ⟨rfl, h⟩
  have hnext : next '-'.toNat us = if opensLong (us.drop 1) then (Fallback.longMarks (us.drop 3)).2
      else (us.drop 1).dropWhile (· ≠ '\n'.toNat) := by
    unfold Fallback.next Fallback.piece
    rw [if_neg (by decide), if_neg (by decide), if_pos ⟨rfl, h⟩]
    split_ifs <;> rfl
  have hpass := passes_step halone s
  rwa [if_pos hquiet, hnext] at hpass

theorem passes_string {u : ℕ} (hu : u < 128) (h : isQuote u = true) (us : List ℕ) (s : Counts) :
    Passes (u::us) s (Fallback.stringMarks u us).2 1 s.levels := by
  obtain ⟨hline, hspace, hdash⟩ := quote_class u hu h
  have hquiet : ¬ Quiet u us := not_quiet hline hspace hdash us
  have halone : ¬ Alone u us := by
    rintro ⟨-, -, -, hquote, -⟩
    simp [h] at hquote
  have hnext : next u us = (Fallback.stringMarks u us).2 := by
    unfold Fallback.next Fallback.piece
    rw [if_neg hline, if_neg (by simp [hspace]), if_neg (fun h' => hdash h'.1), if_pos h]
  have hpass := passes_step halone s
  rwa [if_neg hquiet, hnext] at hpass

theorem passes_long {us : List ℕ} (h : us.head? = some '['.toNat) (s : Counts) :
    Passes ('['.toNat::us) s (Fallback.longMarks (us.drop 1)).2 1 s.levels := by
  have hquiet : ¬ Quiet '['.toNat us := not_quiet (by decide) (by decide) (by decide) us
  have halone : ¬ Alone '['.toNat us := fun halone => halone.2.2.2.2.1 ⟨rfl, h⟩
  have hnext : next '['.toNat us = (Fallback.longMarks (us.drop 1)).2 := by
    unfold Fallback.next Fallback.piece
    rw [if_neg (by decide), if_neg (by decide), if_neg (by rintro ⟨h', -⟩; exact absurd h' (by decide)),
      if_neg (by decide), if_pos ⟨rfl, h⟩]
  have hpass := passes_step halone s
  rwa [if_neg hquiet, hnext] at hpass

theorem passes_name {u : ℕ} (hu : u < 128) (h : isIdentifierStart u = true) (us : List ℕ)
    (s : Counts) : Passes (u::us) s (us.dropWhile isIdentifierPart) 1 s.levels := by
  obtain ⟨hline, hspace, hdash, hquote, hbracket⟩ := start_class u hu h
  have hquiet : ¬ Quiet u us := not_quiet hline hspace hdash us
  have halone : ¬ Alone u us := by
    rintro ⟨-, -, -, -, -, hstart, -⟩
    simp [h] at hstart
  have hnext : next u us = us.dropWhile isIdentifierPart := by
    unfold Fallback.next Fallback.piece
    rw [if_neg hline, if_neg (by simp [hspace]), if_neg (fun h' => hdash h'.1),
      if_neg (by simp [hquote]), if_neg (fun h' => hbracket h'.1), if_pos h]
  have hpass := passes_step halone s
  rwa [if_neg hquiet, hnext] at hpass

theorem passes_numeral {u : ℕ} (hu : u < 128) (h : isDigit u = true) (us : List ℕ)
    (s : Counts) : Passes (u::us) s (us.dropWhile Fallback.isNumeralPart) 1 s.levels := by
  obtain ⟨hline, hspace, hdash, hquote, hbracket, hstart⟩ := digit_class u hu h
  have hquiet : ¬ Quiet u us := not_quiet hline hspace hdash us
  have halone : ¬ Alone u us := by
    rintro ⟨-, -, -, -, -, -, hdigit⟩
    simp [h] at hdigit
  have hnext : next u us = us.dropWhile Fallback.isNumeralPart := by
    unfold Fallback.next Fallback.piece
    rw [if_neg hline, if_neg (by simp [hspace]), if_neg (fun h' => hdash h'.1),
      if_neg (by simp [hquote]), if_neg (fun h' => hbracket h'.1), if_neg (by simp [hstart]),
      if_pos h]
  have hpass := passes_step halone s
  rwa [if_neg hquiet, hnext] at hpass

/-! Rounds of the lexer. -/

def numeralPart (c : Char) : Bool := Fallback.isNumeralPart c.toNat

/-- At a place of the lexer: the fallback's numeral ends where the lexer's does, and a
long bracket, of a string or a comment, has no level. -/
structure Plain (ch : Char) (cs : List Char) : Prop where
  numeral : ch.isDigit = true → cs.dropWhile numeralPart = (readNumber (ch::cs)).2
  fraction : ch = '.' → cs.head?.any Char.isDigit = true →
    (cs.drop 1).dropWhile numeralPart = (readNumber (ch::cs)).2
  string : ch = '[' → ∀ level body, longBracket cs = (level, some body) → level = 0
  comment : ch = '-' → ∀ inner, cs = '-' :: '[' :: inner →
    ∀ level body, longBracket inner = (level, some body) → level = 0

theorem ascii_of_digit {c : Char} (h : c.isDigit = true) : c.toNat < 128 := by
  rw [isDigit_units] at h
  simp only [isDigit, Bool.and_eq_true, decide_eq_true_eq] at h
  have hnine : '9'.toNat = 57 := rfl
  omega

theorem numeralPart_ascii (u : ℕ) (h : Fallback.isNumeralPart u = true) : u < 128 := by
  simp [Fallback.isNumeralPart, isDigit] at h
  omega

theorem identifierPart_ascii (u : ℕ) (h : isIdentifierPart u = true) : u < 128 := by
  simp [isIdentifierPart, isLetter, isDigit] at h
  omega

theorem dropWhile_ascii {p : ℕ → Bool} (h : ∀ u, p u = true → u < 128) (cs : List Char) :
    (utf16 cs).dropWhile p = utf16 (cs.dropWhile fun c => p c.toNat) := by
  apply dropWhile_utf16
  · intro c hc u hu
    rw [charUnits_ascii (h _ hc), List.mem_singleton] at hu
    rw [hu]
    exact hc
  · intro c hc u hu
    by_cases hascii : c.toNat < 128
    · rw [charUnits_ascii hascii, List.mem_singleton] at hu
      rw [hu]
      exact hc
    · have hhigh := units_high hascii u hu
      cases hp : p u with
      | false => rfl
      | true =>
        have hlow := h u hp
        omega

theorem dropWhile_line (cs : List Char) :
    (utf16 cs).dropWhile (· ≠ '\n'.toNat) = utf16 (cs.dropWhile (· ≠ '\n')) := by
  apply dropWhile_utf16
  · intro c hc u hu
    simp only [ne_eq, decide_eq_true_eq] at hc ⊢
    rintro rfl
    exact hc (mem_units (d := '\n') (by decide) hu)
  · intro c hc u hu
    have heq : c = '\n' := by simpa using hc
    rw [heq, charUnits_ascii (by decide), List.mem_singleton] at hu
    simp [hu]

theorem longBracket_plain {cs body : List Char} (h : longBracket cs = (0, some body)) :
    cs = '['::body := by
  have happend := longBracket_append h
  exact happend.symm

theorem opensLong_utf16 (cs : List Char) :
    opensLong (utf16 cs) = true ↔ ∃ body, cs = '[' :: '[' :: body := by
  constructor
  · intro h
    have htake := of_decide_eq_true h
    have hfirst : (utf16 cs).head? = some '['.toNat := by
      rw [eq_of_take_two htake]
      rfl
    have hcs := List.eq_cons_of_mem_head? ((head_utf16 (d := '[') (by decide) cs).mp hfirst)
    rw [hcs, utf16_ascii_cons (by decide)] at htake
    have hsecond : (utf16 cs.tail).head? = some '['.toNat := by
      rw [List.take_succ_cons, List.cons.injEq] at htake
      rw [← List.take_append_drop 1 (utf16 cs.tail), htake.2]
      rfl
    have htail := List.eq_cons_of_mem_head? ((head_utf16 (d := '[') (by decide) _).mp hsecond)
    exact ⟨_, by rw [← htail, ← hcs]⟩
  · rintro ⟨body, rfl⟩
    rw [utf16_ascii_cons (by decide), utf16_ascii_cons (by decide)]
    rfl

/-- Both scanners leave a comment at the same place. -/
theorem afterComment_utf16 {cs : List Char} (hplain : ∀ inner, cs = '['::inner →
    ∀ level body, longBracket inner = (level, some body) → level = 0) :
    (if opensLong (utf16 cs) then (Fallback.longMarks ((utf16 cs).drop 2)).2
      else (utf16 cs).dropWhile (· ≠ '\n'.toNat)) = utf16 (skipComment cs).1 := by
  by_cases hopen : opensLong (utf16 cs) = true
  · obtain ⟨body, rfl⟩ := (opensLong_utf16 cs).mp hopen
    have hbracket : longBracket ('['::body) = (0, some body) := rfl
    have hskip : (skipComment ('[' :: '[' :: body)).1 =
        ((readUntil (closing 0) body).map Prod.snd).getD [] := by
      cases hread : readUntil (closing 0) body with
      | none => simp [skipComment, hbracket, hread]
      | some result => simp [skipComment, hbracket, hread]
    have hdrop : (utf16 ('[' :: '[' :: body)).drop 2 = utf16 body := by
      rw [utf16_ascii_cons (by decide), utf16_ascii_cons (by decide)]
      rfl
    rw [if_pos hopen, hdrop, longMarks_utf16, hskip]
  · have hskip : (skipComment cs).1 = cs.dropWhile (· ≠ '\n') := by
      unfold skipComment
      split
      next inner =>
        split
        · split
          next level body hbracket =>
            have hlevel := hplain inner rfl level body hbracket
            subst hlevel
            rw [longBracket_plain hbracket] at hopen
            exact absurd ((opensLong_utf16 _).mpr ⟨body, rfl⟩) hopen
          next => rfl
        · rfl
      next => rfl
    rw [if_neg hopen, dropWhile_line, hskip]

/-- What a round of the lexer asks of the fallback. -/
def Follows {N : Type} (cs : List Char) (s : Counts) : Scan N → Prop
  | .blank rest _ => Passes (utf16 cs) s (utf16 rest) 0 s.levels
  | .token t rest _ => ∃ k, 1 ≤ k ∧ Passes (utf16 cs) s (utf16 rest) k (nest s.levels t.type)
  | .fail _ _ => True

section Rounds
variable {N : Type}

theorem symbols_run {raw : List Char} (hraw : ∀ c ∈ raw, c = '.' ∨ c = '=') (rest : List Char)
    (s : Counts) : Passes (utf16 (raw++rest)) s (utf16 rest) raw.length s.levels := by
  induction raw generalizing s with
  | nil => exact ⟨s, rfl, rfl, rfl⟩
  | cons c raw ih =>
    have hlevels : ∀ t : Counts, (t.bracket c.toNat).levels = t.levels := by
      intro t
      rcases hraw c (by simp) with rfl | rfl
      · rfl
      · rfl
    have hsymbol : c ∈ symbols := by
      rcases hraw c (by simp) with rfl | rfl
      · decide
      · decide
    have hascii : c.toNat < 128 := by
      rcases hraw c (by simp) with rfl | rfl
      · decide
      · decide
    have hfirst := passes_alone (alone_symbol c hsymbol (utf16 (raw++rest))) s
    rw [hlevels] at hfirst
    rw [List.cons_append, utf16_ascii_cons hascii, List.length_cons, Nat.add_comm]
    refine hfirst.trans fun s' hs' => ?_
    rw [← hs']
    exact ih (fun d hd => hraw d (by simp [hd])) s'

/-- An operator: one character, or one that dots and an equals sign follow. -/
theorem readPunctuation_cases {ch : Char} {cs rest : List Char} {type : TokenType} {text : String}
    (h : readPunctuation ch cs = some (type, text, rest)) :
    (singleTokens ch = some type ∧ rest = cs) ∨
      (ch ∈ symbols ∨ ch = '-') ∧ (∀ s : Counts, (s.bracket ch.toNat).levels = s.levels) ∧
        (∀ d, nest d type = d) ∧ ∃ raw, cs = raw++rest ∧ raw ≠ [] ∧ ∀ c ∈ raw, c = '.' ∨ c = '=' := by
  unfold readPunctuation at h
  split at h
  case h_12 =>
    obtain ⟨type, htype, heq⟩ := Option.map_eq_some_iff.mp h
    cases heq
    exact .inl ⟨htype, rfl⟩
  case h_1 =>
    cases h
    exact .inr ⟨.inl (by decide), fun _ => rfl, fun _ => rfl, ['.', '.'], rfl, by simp, by simp⟩
  case h_2 =>
    cases h
    exact .inr ⟨.inl (by decide), fun _ => rfl, fun _ => rfl, ['.', '='], rfl, by simp, by simp⟩
  case h_9 =>
    cases h
    exact .inr ⟨.inr rfl, fun _ => rfl, fun _ => rfl, ['='], rfl, by simp, by simp⟩
  case h_7 =>
    cases h
    exact .inr ⟨.inl (by decide), fun _ => rfl, fun _ => rfl, ['.'], rfl, by simp, by simp⟩
  all_goals
    cases h
    exact .inr ⟨.inl (by decide), fun _ => rfl, fun _ => rfl, ['='], rfl, by simp, by simp⟩

def isBracket (type : TokenType) : Bool :=
  type ∈ [.lparen, .lbrace, .lbracket, .rparen, .rbrace, .rbracket]

theorem nest_of_not_bracket {type : TokenType} (h : isBracket type = false) (d : ℕ × ℕ) :
    nest d type = d := by
  cases type <;> first | rfl | exact absurd h (by decide)

theorem isBracket_word (name : String) : isBracket (Lexeme.word name : Lexeme N).type = false := by
  have hkeyword : ∀ type, keyword name = some type → isBracket type = false := by
    intro type h
    unfold keyword at h
    split at h
    next type' hlookup =>
      cases h
      obtain ⟨before, after, heq, -⟩ := List.lookup_eq_some_iff.mp hlookup
      have hall : ∀ entry ∈ KEYWORDS, isBracket entry.2 = false := by decide
      exact hall (name, type) (by rw [heq]; simp)
    next =>
      split_ifs at h
      cases h
      rfl
  unfold Lexeme.word
  split
  next => rfl
  next => rfl
  next => rfl
  next type _ _ _ heq => exact hkeyword type heq
  next => rfl

theorem single_levels {ch : Char} {type : TokenType} (h : singleTokens ch = some type) :
    (ch ∈ symbols ∨ ch = '-' ∨ ch = '[') ∧
      ∀ s : Counts, (s.bracket ch.toNat).levels = nest s.levels type := by
  have hclose : ∀ u : ℕ, u = ')'.toNat ∨ u = '}'.toNat ∨ u = ']'.toNat → ∀ s : Counts,
      (s.bracket u).levels = (s.depth-1, s.maxDepth) := by
    intro u hu s
    have hopen : ¬ (u = '('.toNat ∨ u = '{'.toNat ∨ u = '['.toNat) := by
      rcases hu with rfl | rfl | rfl <;> decide
    unfold Counts.bracket
    rw [if_neg hopen]
    by_cases hdepth : 0 < s.depth
    · rw [if_pos ⟨hu, hdepth⟩]
      rfl
    · rw [if_neg (fun h' => hdepth h'.2), Nat.sub_eq_zero_of_le (by omega)]
      show (s.depth, s.maxDepth) = (0, s.maxDepth)
      rw [Nat.eq_zero_of_not_pos hdepth]
  unfold singleTokens at h
  split at h
  case h_12 =>
    cases h
    exact ⟨by decide, hclose _ (by decide)⟩
  case h_14 =>
    cases h
    exact ⟨by decide, hclose _ (by decide)⟩
  case h_16 =>
    cases h
    exact ⟨by decide, hclose _ (by decide)⟩
  case h_21 => cases h
  all_goals
    cases h
    exact ⟨by decide, fun _ => rfl⟩

/-- A symbol is a token of its own when it opens no comment and no long bracket. -/
theorem alone_single {ch : Char} {type : TokenType} {cs : List Char}
    (h : singleTokens ch = some type) (hdash : ch = '-' → cs.head? ≠ some '-')
    (hbracket : ch = '[' → cs.head? ≠ some '[') : Alone ch.toNat (utf16 cs) := by
  rcases (single_levels h).1 with hsymbol | rfl | rfl
  · exact alone_symbol ch hsymbol _
  · refine ⟨by decide, by decide, ?_, by decide, fun h' => absurd h'.1 (by decide), by decide,
      by decide⟩
    rintro ⟨-, hhead⟩
    exact hdash rfl ((head_utf16 (d := '-') (by decide) cs).mp hhead)
  · refine ⟨by decide, by decide, fun h' => absurd h'.1 (by decide), by decide, ?_, by decide,
      by decide⟩
    rintro ⟨-, hhead⟩
    exact hbracket rfl ((head_utf16 (d := '[') (by decide) cs).mp hhead)

theorem single_ascii {ch : Char} (h : ch ∈ symbols ∨ ch = '-' ∨ ch = '[') : ch.toNat < 128 := by
  rcases h with h | rfl | rfl
  · have hsymbol := isSymbol_of_mem h
    simp only [isSymbol, Bool.and_eq_true, decide_eq_true_eq] at hsymbol
    tauto
  · decide
  · decide

theorem follows_punctuation {ch : Char} {cs : List Char} (drift : ℕ)
    (hdash : ch = '-' → cs.head? ≠ some '-') (hbracket : ch = '[' → cs.head? ≠ some '[')
    (s : Counts) : Follows (ch::cs) s (scanPunctuation ch cs drift : Scan N) := by
  unfold scanPunctuation
  split
  next type text rest hread =>
    rcases readPunctuation_cases hread with
      ⟨htype, rfl⟩ | ⟨hsymbol, hlevels, hnest, raw, rfl, hne, hraw⟩
    · obtain ⟨hsingle, hlevels⟩ := single_levels htype
      refine ⟨1, Nat.le_refl 1, ?_⟩
      rw [utf16_ascii_cons (single_ascii hsingle)]
      show Passes _ s _ 1 (nest s.levels type)
      rw [← hlevels s]
      exact passes_alone (alone_single htype hdash hbracket) s
    · have hascii : ch.toNat < 128 := single_ascii (hsymbol.imp_right Or.inl)
      have halone : Alone ch.toNat (utf16 (raw++rest)) := by
        rcases hsymbol with hsymbol | rfl
        · exact alone_symbol ch hsymbol _
        · have hminus : singleTokens '-' = some .minus := rfl
          exact alone_single hminus hdash fun h => absurd h (by decide)
      have hfirst := passes_alone halone s
      rw [hlevels] at hfirst
      refine ⟨1+raw.length, by omega, ?_⟩
      show Passes _ s _ _ (nest s.levels type)
      rw [hnest, utf16_ascii_cons hascii]
      refine hfirst.trans fun s' hs' => ?_
      rw [← hs']
      exact symbols_run hraw rest s'
  next => trivial

theorem follows_comment {cs : List Char} (hplain : Plain '-' ('-'::cs)) (s : Counts) :
    Passes (utf16 ('-' :: '-' :: cs)) s (utf16 (skipComment cs).1) 0 s.levels := by
  have hafter : ∀ inner, cs = '['::inner →
      ∀ level body, longBracket inner = (level, some body) → level = 0 := by
    rintro inner rfl
    exact hplain.comment rfl inner rfl
  have hhead : (utf16 ('-'::cs)).head? = some '-'.toNat :=
    (head_utf16 (d := '-') (by decide) _).mpr rfl
  have hpass := passes_comment hhead s
  rw [← afterComment_utf16 hafter, utf16_ascii_cons (by decide)]
  rw [utf16_ascii_cons (by decide)] at hpass ⊢
  exact hpass

theorem follows_fraction {cs : List Char} (hplain : Plain '.' cs)
    (h : cs.head?.any Char.isDigit = true) (s : Counts) :
    ∃ k, 1 ≤ k ∧ Passes (utf16 ('.' :: cs)) s (utf16 (readNumber ('.' :: cs)).2) k s.levels := by
  cases cs with
  | nil => simp at h
  | cons d cs =>
    have hd : d.isDigit = true := by simpa using h
    have hascii := ascii_of_digit hd
    have hfirst := passes_alone (alone_symbol '.' (by decide) (utf16 (d::cs))) s
    refine ⟨1+1, by omega, ?_⟩
    rw [← hplain.fraction rfl h, utf16_ascii_cons (by decide)]
    refine hfirst.trans fun s' hs' => ?_
    have hlevels : s'.levels = s.levels := hs'
    rw [← hlevels, utf16_ascii_cons hascii]
    show Passes _ s' (utf16 (cs.dropWhile fun c => Fallback.isNumeralPart c.toNat)) _ _
    rw [← dropWhile_ascii numeralPart_ascii]
    exact passes_numeral hascii (by rw [← isDigit_units]; exact hd) (utf16 cs) s'

theorem follows_scan [Numerals N] {ch : Char} {cs : List Char} (hplain : Plain ch cs) (s : Counts) :
    Follows (ch::cs) s (scan ch cs : Scan N) := by
  unfold scan
  split_ifs with hblank hcomment hquote hopen hdigit hname
  · have hcases : (ch = ' ' ∨ ch = '\t') ∨ (ch = '\r' ∨ ch = '\n') := by
      simpa [isBlank, or_assoc] using hblank
    show Passes (utf16 (ch::cs)) s (utf16 cs) 0 s.levels
    have hclass : ch.toNat < 128 ∧
        (ch.toNat = '\n'.toNat ∨ Fallback.isSpace ch.toNat = true) := by
      rcases hcases with (rfl | rfl) | (rfl | rfl)
      · decide
      · decide
      · decide
      · decide
    rw [utf16_ascii_cons hclass.1]
    exact passes_blank hclass.2 s
  · obtain ⟨rfl, hdash⟩ := hcomment
    have hcs := List.eq_cons_of_mem_head? hdash
    rw [hcs] at hplain ⊢
    exact follows_comment hplain s
  · have hclass : ch.toNat < 128 ∧ isQuote ch.toNat = true ∧ ch ≠ '\\' := by
      rcases hquote with rfl | rfl
      · decide
      · decide
    obtain ⟨hascii, hunit, hescape⟩ := hclass
    cases hread : readString ch cs with
    | error message => trivial
    | ok result =>
      refine ⟨1, Nat.le_refl 1, ?_⟩
      show Passes _ s _ 1 s.levels
      rw [utf16_ascii_cons hascii, ← stringMarks_utf16 hascii hescape hread]
      exact passes_string hascii hunit (utf16 cs) s
  · obtain ⟨rfl, hhead⟩ := hopen
    cases hbracket : longBracket cs with
    | mk level opened =>
      cases opened with
      | none =>
        have hno : cs.head? ≠ some '[' := by
          intro hfirst
          have hcs := List.eq_cons_of_mem_head? hfirst
          rw [hcs] at hbracket
          exact absurd hbracket (by simp [longBracket])
        exact follows_punctuation _ (fun h => absurd h (by decide)) (fun _ => hno) s
      | some body =>
        have hlevel := hplain.string rfl level body hbracket
        subst hlevel
        have hcs := longBracket_plain hbracket
        subst hcs
        dsimp only
        cases hread : readUntil (closing 0) body with
        | none => trivial
        | some result =>
          refine ⟨1, Nat.le_refl 1, ?_⟩
          show Passes _ s (utf16 result.2) 1 s.levels
          have hhead : (utf16 ('['::body)).head? = some '['.toNat :=
            (head_utf16 (d := '[') (by decide) _).mpr rfl
          have hpass := passes_long hhead s
          have hdrop : (utf16 ('['::body)).drop 1 = utf16 body := by
            rw [utf16_ascii_cons (by decide)]
            rfl
          rw [hdrop, longMarks_utf16, hread] at hpass
          rw [utf16_ascii_cons (by decide)]
          exact hpass
  · by_cases hstart : ch.isDigit = true
    · have hascii := ascii_of_digit hstart
      refine ⟨1, Nat.le_refl 1, ?_⟩
      show Passes _ s _ 1 s.levels
      rw [utf16_ascii_cons hascii, ← hplain.numeral hstart]
      show Passes _ s (utf16 (cs.dropWhile fun c => Fallback.isNumeralPart c.toNat)) _ _
      rw [← dropWhile_ascii numeralPart_ascii]
      exact passes_numeral hascii (by rw [← isDigit_units]; exact hstart) (utf16 cs) s
    · obtain ⟨rfl, hfraction⟩ := hdigit.resolve_left hstart
      exact follows_fraction hplain hfraction s
  · have hpart := isNamePart_of_start hname
    have hascii : ch.toNat < 128 := by
      rw [isNamePart_units] at hpart
      exact identifierPart_ascii _ hpart
    have hunit : isIdentifierStart ch.toNat = true := by
      rw [isNamePart_units] at hpart
      have hno : isDigit ch.toNat = false := by
        rw [← isDigit_units]
        have hboth := not_or.mp hdigit
        simpa using hboth.1
      unfold isIdentifierPart at hpart
      unfold isIdentifierStart
      rwa [hno, Bool.or_false] at hpart
    refine ⟨1, Nat.le_refl 1, ?_⟩
    show Passes _ s _ 1 (nest s.levels (Lexeme.word _ : Lexeme N).type)
    rw [nest_of_not_bracket (isBracket_word _), utf16_ascii_cons hascii]
    have hrest : cs.dropWhile isNamePart = cs.dropWhile fun c => isIdentifierPart c.toNat := by
      congr 1
      funext c
      exact isNamePart_units c
    rw [hrest, ← dropWhile_ascii identifierPart_ascii]
    exact passes_name hascii hunit (utf16 cs) s
  · apply follows_punctuation
    · rintro rfl hhead
      exact hcomment ⟨rfl, hhead⟩
    · rintro rfl hhead
      exact hopen ⟨rfl, Or.inl hhead⟩

end Rounds

/-! The guard. -/

section Guard
variable {N : Type}

/-- The tokens of the lexer, the end of the file excluded. -/
def tokenCount (tokens : List (Token N)) : ℕ := (tokens.filter (·.type ≠ .eof)).length

def nestTokens (d : ℕ × ℕ) (tokens : List (Token N)) : ℕ × ℕ :=
  tokens.foldl (fun d t => nest d t.type) d

def deepestNesting (tokens : List (Token N)) : ℕ := (nestTokens (0, 0) tokens).2

/-- The most expensive stage that the limits allow for the real tokens and their nesting. -/
def stageLimit (tokens : List (Token N)) : Stage :=
  recommendStage ⟨0, tokenCount tokens, 0, deepestNesting tokens, 0⟩

/-- The profile counts all tokens and levels, and its stage keeps to their limits. -/
def Guarded (source : List Char) (tokens : List (Token N)) : Prop :=
  tokenCount tokens ≤ (Fallback.profileSourceJs source).tokens ∧
    deepestNesting tokens ≤ (Fallback.profileSourceJs source).maxDepth ∧
    (recommendStage (Fallback.profileSourceJs source)).index ≤ (stageLimit tokens).index

/-- More of anything never recommends a more expensive stage. -/
theorem recommendStage_index_le {p q : Profile} (hbytes : p.bytes ≤ q.bytes)
    (htokens : p.tokens ≤ q.tokens) (hdepth : p.maxDepth ≤ q.maxDepth)
    (hlength : p.maxLineLength ≤ q.maxLineLength) :
    (recommendStage q).index ≤ (recommendStage p).index := by
  unfold recommendStage
  split_ifs <;> first | exact Nat.le_refl _ | exact Nat.le_of_ble_eq_true rfl | omega

variable [Numerals N]

theorem scanAll_of_scanned {p : Position} {cs : List Char} {tokens : List (Token N)}
    (h : Scanned p cs tokens) (hplain : ∀ ch tail, Starts N cs (ch::tail) → Plain ch tail)
    (s : Counts) : s.tokens + tokenCount tokens ≤ (scanAll step (utf16 cs) s).tokens ∧
      (scanAll step (utf16 cs) s).levels = nestTokens s.levels tokens := by
  induction h generalizing s with
  | eof => exact ⟨Nat.le_refl _, rfl⟩
  | @blank p ch tail skipped rest drift tokens hscan _ _ ih =>
    have hround : Round N (ch::tail) rest := ⟨ch, tail, rfl, by rw [hscan]; rfl⟩
    have hfollows := follows_scan (N := N) (hplain ch tail .refl) s
    rw [hscan] at hfollows
    obtain ⟨s', heq, htokens, hlevels⟩ := hfollows
    have hrest := ih (fun c t hstart => hplain c t (hstart.head hround)) s'
    rw [heq, ← hlevels]
    exact ⟨by omega, hrest.2⟩
  | @token p ch tail rest t drift tokens hscan _ _ ih =>
    have hround : Round N (ch::tail) rest := ⟨ch, tail, rfl, by rw [hscan]; rfl⟩
    have hfollows := follows_scan (N := N) (hplain ch tail .refl) s
    rw [hscan] at hfollows
    obtain ⟨k, hk, s', heq, htokens, hlevels⟩ := hfollows
    have hrest := ih (fun c t hstart => hplain c t (hstart.head hround)) s'
    have hcount : tokenCount (⟨t, p.drifted drift⟩ :: tokens) ≤ tokenCount tokens + 1 := by
      unfold tokenCount
      rw [List.filter_cons]
      split_ifs
      · exact Nat.le_refl _
      · omega
    rw [heq]
    refine ⟨by omega, ?_⟩
    rw [hrest.2, hlevels]
    rfl

/-- Where numerals end alike and long brackets have no level, nothing is hidden from the guard. -/
theorem guarded_of_plain {source : String} {tokens : List (Token N)}
    (h : tokenize source = .ok tokens)
    (hplain : ∀ ch tail, Starts N source.toList (ch::tail) → Plain ch tail) :
    Guarded source.toList tokens := by
  obtain ⟨hcount, hlevels⟩ := scanAll_of_scanned (scanned_of_tokenizeFrom _ _ _ h) hplain .initial
  have htokens : tokenCount tokens ≤ (Fallback.profileSourceJs source.toList).tokens := by
    rwa [show Counts.initial.tokens = 0 from rfl, Nat.zero_add] at hcount
  have hdepth : deepestNesting tokens = (Fallback.profileSourceJs source.toList).maxDepth :=
    congrArg Prod.snd hlevels.symm
  refine ⟨htokens, hdepth.le, ?_⟩
  exact recommendStage_index_le (Nat.zero_le _) htokens hdepth.le (Nat.zero_le _)

end Guard

section Examples

theorem tokenCount_of_lexemes {N : Type} {tokens : List (Token N)} {ts : List (Lexeme N)}
    (h : tokens.map Token.toLexeme = ts) :
    tokenCount tokens = (ts.filter (·.type ≠ .eof)).length := by
  rw [← h, List.filter_map, List.length_map]
  rfl

section PlainLexes
variable {N : Type} [Numerals N]

/-- The lexer reads these tokens, and only from plain places. -/
structure LexesPlainly (cs : List Char) (ts : List (Lexeme N)) : Prop where
  lexes : Lexes cs ts
  plain : ∀ ch tail, Starts N cs (ch::tail) → Plain ch tail

theorem lexesPlainly_nil : LexesPlainly [] ([] : List (Lexeme N)) := by
  refine ⟨lexes_nil, fun ch tail hstart => ?_⟩
  rcases Relation.ReflTransGen.cases_head hstart with heq | ⟨rest, ⟨ch', tail', heq, -⟩, -⟩
  · cases heq
  · cases heq

theorem plain_round {ch : Char} {tail rest : List Char}
    (hrest : ∀ c t, Starts N rest (c::t) → Plain c t)
    (hround : (scan ch tail : Scan N).rest = some rest) (hplain : Plain ch tail) :
    ∀ c t, Starts N (ch::tail) (c::t) → Plain c t := by
  intro c t hstart
  rcases Relation.ReflTransGen.cases_head hstart with heq | ⟨next, ⟨ch', tail', heq, hnext⟩, hlater⟩
  · cases heq
    exact hplain
  · cases heq
    obtain rfl : rest = next := Option.some.inj (hround.symm.trans hnext)
    exact hrest c t hlater

theorem LexesPlainly.token {ch : Char} {cs rest : List Char} {t : Lexeme N} {ts : List (Lexeme N)}
    {drift : ℕ} (h : LexesPlainly rest ts) (hscan : scan ch cs = .token t rest drift)
    (hplain : Plain ch cs) : LexesPlainly (ch :: cs) (t :: ts) :=
  ⟨h.lexes.token hscan, plain_round h.plain (by rw [hscan]; rfl) hplain⟩

theorem LexesPlainly.blank {ch : Char} {cs rest : List Char} {ts : List (Lexeme N)} {drift : ℕ}
    (h : LexesPlainly rest ts) (hscan : (scan ch cs : Scan N) = .blank rest drift)
    (hplain : Plain ch cs) : LexesPlainly (ch :: cs) ts :=
  ⟨h.lexes.blank hscan, plain_round h.plain (by rw [hscan]; rfl) hplain⟩

theorem plain_of_mark {ch : Char} {cs : List Char}
    (h : ch.isDigit = false ∧ ch ≠ '.' ∧ ch ≠ '[' ∧ ch ≠ '-') : Plain ch cs :=
  ⟨fun hdigit => absurd hdigit (by simp [h.1]), fun hdot => absurd hdot h.2.1,
    fun hopen => absurd hopen h.2.2.1, fun hminus => absurd hminus h.2.2.2⟩

end PlainLexes

/-- A call with a numeral before an operator, both kinds of strings, nested brackets and a comment
behind it is guarded. -/
theorem guarded_call :
    let _ : Numerals Unit := ⟨fun _ => (), fun _ => []⟩
    ∃ tokens : List (Token Unit), tokenize "f\x7bg(2*x,\"s\",[[t]])\x7d--c" = .ok tokens ∧
      deepestNesting tokens = 2 ∧ Guarded "f\x7bg(2*x,\"s\",[[t]])\x7d--c".toList tokens := by
  intro _
  have hcomment : Plain '-' ['-', 'c'] := by
    refine ⟨by decide, by decide, fun h => absurd h (by decide), fun _ inner h => ?_⟩
    simp at h
  have hlong : Plain '[' "[t]])\x7d--c".toList := by
    refine ⟨by decide, by decide, fun _ level body h => ?_, fun h => absurd h (by decide)⟩
    exact (congrArg Prod.fst h).symm
  have htwo : Plain '2' "*x,\"s\",[[t]])\x7d--c".toList :=
    ⟨fun _ => rfl, by decide, fun h => absurd h (by decide), fun h => absurd h (by decide)⟩
  have hend : LexesPlainly "--c".toList ([] : List (Lexeme Unit)) :=
    lexesPlainly_nil.blank rfl hcomment
  have hclose : LexesPlainly ")\x7d--c".toList
      [(.punctuation .rparen ")" : Lexeme Unit), .punctuation .rbrace "\x7d"] :=
    (hend.token rfl (plain_of_mark (by decide))).token rfl (plain_of_mark (by decide))
  have hstrings : LexesPlainly ",\"s\",[[t]])\x7d--c".toList
      ([.punctuation .comma ",", .quoted "\"s\"".toList, .punctuation .comma ",",
        .quoted "[[t]]".toList, .punctuation .rparen ")", .punctuation .rbrace "\x7d"] :
          List (Lexeme Unit)) :=
    (((hclose.token rfl hlong).token rfl (plain_of_mark (by decide))).token rfl
      (plain_of_mark (by decide))).token rfl (plain_of_mark (by decide))
  have hproduct : LexesPlainly "2*x,\"s\",[[t]])\x7d--c".toList
      ([.numeral ['2'], .punctuation .star "*", .word "x", .punctuation .comma ",",
        .quoted "\"s\"".toList, .punctuation .comma ",", .quoted "[[t]]".toList,
        .punctuation .rparen ")", .punctuation .rbrace "\x7d"] : List (Lexeme Unit)) :=
    ((hstrings.token rfl (plain_of_mark (by decide))).token rfl (plain_of_mark (by decide))).token
      rfl htwo
  have hall : LexesPlainly "f\x7bg(2*x,\"s\",[[t]])\x7d--c".toList
      ([.word "f", .punctuation .lbrace "\x7b", .word "g", .punctuation .lparen "(", .numeral ['2'],
        .punctuation .star "*", .word "x", .punctuation .comma ",", .quoted "\"s\"".toList,
        .punctuation .comma ",", .quoted "[[t]]".toList, .punctuation .rparen ")",
        .punctuation .rbrace "\x7d"] : List (Lexeme Unit)) :=
    (((hproduct.token rfl (plain_of_mark (by decide))).token rfl (plain_of_mark (by decide))).token
      rfl (plain_of_mark (by decide))).token rfl (plain_of_mark (by decide))
  obtain ⟨tokens, htokens, hlexemes⟩ := hall.lexes ⟨1, 1, 0⟩
  refine ⟨tokens, htokens, ?_, guarded_of_plain htokens hall.plain⟩
  have hnest : ∀ (d : ℕ × ℕ) (tokens : List (Token Unit)), nestTokens d tokens =
      (tokens.map Token.toLexeme).foldl (fun d t => nest d t.type) d := by
    intro d tokens
    rw [List.foldl_map]
    rfl
  rw [deepestNesting, hnest, hlexemes]
  rfl

/-- The sign and the second number of a sum are hidden from the guard. -/
theorem sum_not_guarded :
    let _ : Numerals Unit := ⟨fun _ => (), fun _ => []⟩
    ∃ tokens : List (Token Unit), tokenize "1+2" = .ok tokens ∧ ¬ Guarded "1+2".toList tokens := by
  intro _
  have hsecond : (scan '2' [] : Scan Unit) = .token (.numeral ['2']) [] 0 := rfl
  have hplus : (scan '+' ['2'] : Scan Unit) = .token (.punctuation .plus "+") ['2'] 0 := rfl
  have hfirst : (scan '1' ['+', '2'] : Scan Unit) = .token (.numeral ['1']) ['+', '2'] 0 := rfl
  obtain ⟨tokens, htokens, hlexemes⟩ :=
    ((lexes_nil.token hsecond).token hplus).token hfirst ⟨1, 1, 0⟩
  refine ⟨tokens, htokens, fun hguarded => ?_⟩
  have hcount : tokenCount tokens = 3 := by
    rw [tokenCount_of_lexemes hlexemes]
    rfl
  have hle := hguarded.1
  rw [hcount] at hle
  exact absurd hle (by decide)

end Examples
end LuaRecovery.Native
