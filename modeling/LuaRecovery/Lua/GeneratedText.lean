import LuaRecovery.Lua.ReadPrograms
import LuaRecovery.Lua.SpellingLexes

/-!
# The generated text is read back

Every line that the generator writes ends in something other than a space, so
trimming the text takes nothing away that the lexer reads.
-/

set_option autoImplicit false

namespace LuaRecovery.Lua
open LuaRecovery.Lib Comp Lexer LuaGenerator Spelling Lua.Parser

/-- A text whose last character is not a space. -/
def Firm (cs : List Char) : Prop := ∃ ds c, cs = ds ++ [c] ∧ isJsSpace c = false

theorem Firm.append {ds : List Char} (h : Firm ds) (cs : List Char) : Firm (cs ++ ds) := by
  obtain ⟨es, c, rfl, hc⟩ := h
  exact ⟨cs ++ es, c, (List.append_assoc _ _ _).symm, hc⟩

theorem Firm.cons {ds : List Char} (h : Firm ds) (c : Char) : Firm (c::ds) := h.append [c]

theorem firm_of_forall {cs : List Char} (hcs : cs ≠ []) (h : ∀ c ∈ cs, isJsSpace c = false) :
    Firm cs :=
  ⟨cs.dropLast, cs.getLast hcs, (List.dropLast_append_getLast hcs).symm,
    h _ (List.getLast_mem hcs)⟩

theorem isJsSpace_of_part {c : Char} (h : isNamePart c = true) : isJsSpace c = false := by
  have hrange : 48 ≤ c.toNat ∧ c.toNat ≤ 122 := by
    rw [isNamePart, Bool.or_eq_true] at h
    rcases h with h | h
    · simp only [Char.isAlphanum, isAlpha_eq, Char.isDigit, Bool.or_eq_true, Bool.and_eq_true,
        decide_eq_true_eq, UInt32.le_iff_toNat_le, ge_iff_le] at h
      simp only [Char.toNat]
      rcases h with (⟨h, h'⟩ | ⟨h, h'⟩) | ⟨h, h'⟩ <;>
        exact ⟨le_trans (by decide) h, h'.trans (by decide)⟩
    · rw [decide_eq_true_eq.mp h]
      decide
  rw [Bool.eq_false_iff]
  intro hspace
  simp only [isJsSpace, List.mem_cons, List.not_mem_nil, or_false, Bool.or_eq_true,
    decide_eq_true_eq, Bool.and_eq_true] at hspace
  omega

section Numbers

/-- What a number is written with. -/
def IsNumberPart (c : Char) : Prop := isNamePart c = true ∨ c = '.' ∨ c = '+' ∨ c = '-'

theorem isJsSpace_of_numberPart {c : Char} (h : IsNumberPart c) : isJsSpace c = false := by
  rcases h with h | rfl | rfl | rfl
  · exact isJsSpace_of_part h
  all_goals rfl

variable {p : Char → Bool} (hp : ∀ c, p c = true → isNamePart c = true)

include hp in
theorem numberPart_takeWhile {cs : List Char} {c : Char} (h : c ∈ cs.takeWhile p) :
    IsNumberPart c :=
  Or.inl (hp c (List.mem_takeWhile_imp h))

include hp in
theorem numberPart_exponent {cs : List Char} {c : Char} (h : c ∈ (readExponent p cs).1) :
    IsNumberPart c := by
  have hdigits : ∀ ds : List Char, c ∈ ds.takeWhile Char.isDigit → IsNumberPart c :=
    fun _ => numberPart_takeWhile fun d hd => isNamePart_of_digit hd
  unfold readExponent at h
  split at h
  next e cs =>
    split at h
    next hmark =>
      split at h
      next sign ds =>
        split at h
        next hsign =>
          rcases List.mem_cons.mp h with rfl | h
          · exact Or.inl (hp _ hmark)
          rcases List.mem_cons.mp h with rfl | h
          · exact Or.inr (Or.inr hsign)
          · exact hdigits _ h
        next =>
          rcases List.mem_cons.mp h with rfl | h
          · exact Or.inl (hp _ hmark)
          · exact hdigits _ h
      next =>
        rw [List.mem_singleton.mp h]
        exact Or.inl (hp _ hmark)
    next => cases h
  next => cases h

omit hp in
theorem numberPart_hexFraction {cs : List Char} {c : Char} (h : c ∈ (readHexFraction cs).1) :
    IsNumberPart c := by
  unfold readHexFraction at h
  split at h
  next =>
    rcases List.mem_cons.mp h with rfl | h
    · exact Or.inr (Or.inl rfl)
    · exact numberPart_takeWhile (fun _ hd => isNamePart_of_hexDigit hd) h
  next => cases h

omit hp in
theorem numberPart_fraction {cs : List Char} {c : Char} (h : c ∈ (readFraction cs).1) :
    IsNumberPart c := by
  unfold readFraction at h
  split at h
  next =>
    split at h
    next => cases h
    next =>
      rcases List.mem_cons.mp h with rfl | h
      · exact Or.inr (Or.inl rfl)
      · exact numberPart_takeWhile (fun _ hd => isNamePart_of_digit hd) h
  next => cases h

theorem numberPart_hex {cs : List Char} {c : Char} (h : c ∈ (readHex cs).1) : IsNumberPart c := by
  have hmark : ∀ c, isHexExponent c = true → isNamePart c = true := by
    intro c hc
    rcases (by simpa [isHexExponent] using hc : c = 'p' ∨ c = 'P') with rfl | rfl <;> rfl
  simp only [readHex, List.mem_append] at h
  rcases h with (h | h) | h
  · exact numberPart_takeWhile (fun _ hd => isNamePart_of_hexDigit hd) h
  · exact numberPart_hexFraction h
  · exact numberPart_exponent hmark h

theorem numberPart_decimal {cs : List Char} {c : Char} (h : c ∈ (readDecimal cs).1) :
    IsNumberPart c := by
  have hmark : ∀ c, isExponent c = true → isNamePart c = true := by
    intro c hc
    rcases (by simpa [isExponent] using hc : c = 'e' ∨ c = 'E') with rfl | rfl <;> rfl
  simp only [readDecimal, List.mem_append] at h
  rcases h with (h | h) | h
  · exact numberPart_takeWhile (fun _ hd => isNamePart_of_digit hd) h
  · exact numberPart_fraction h
  · exact numberPart_exponent hmark h

theorem numberPart_number {cs : List Char} {c : Char} (h : c ∈ (readNumber cs).1) :
    IsNumberPart c := by
  unfold readNumber at h
  split at h
  next =>
    rcases List.mem_cons.mp h with rfl | h
    · exact Or.inl rfl
    rcases List.mem_cons.mp h with rfl | h
    · exact Or.inl rfl
    · exact numberPart_hex h
  next =>
    rcases List.mem_cons.mp h with rfl | h
    · exact Or.inl rfl
    rcases List.mem_cons.mp h with rfl | h
    · exact Or.inl rfl
    · exact numberPart_hex h
  next => exact numberPart_decimal h

theorem firm_numeral {text : List Char} (h : IsNumeral text) : Firm text := by
  obtain ⟨⟨c, cs, rfl, -⟩, hread⟩ := h
  refine firm_of_forall (List.cons_ne_nil c cs) fun d hd => isJsSpace_of_numberPart ?_
  exact numberPart_number (by rwa [hread])

end Numbers

theorem firm_word {text : List Char} (h : IsWord text) : Firm text := by
  refine firm_of_forall ?_ fun c hc => isJsSpace_of_part (h.2 c hc)
  rintro rfl
  cases h.1

theorem firm_atom {text : List Char} (h : IsAtom text) : Firm text := by
  rcases h with h | h
  · exact firm_numeral h
  · simpa using firm_word h.1

theorem firm_parenthesized (low : Bool) {text : String} (h : Firm text.toList) :
    Firm (parenthesized low text).toList := by
  cases low with
  | false => exact h
  | true => exact ⟨"(".toList ++ text.toList, ')', by simp [parenthesized], rfl⟩

theorem firm_text {text : String} (h : Firm text.toList) (start : String) :
    Firm (start ++ text).toList := by
  rw [String.toList_append]
  exact h.append _

theorem firm_intercalate {sep : String} {texts : List String} (hne : texts ≠ [])
    (h : ∀ text ∈ texts, Firm text.toList) : Firm (sep.intercalate texts).toList := by
  induction texts with
  | nil => exact absurd rfl hne
  | cons text texts ih =>
    cases texts with
    | nil =>
      rw [String.intercalate_singleton]
      exact h text List.mem_cons_self
    | cons t texts =>
      rw [String.intercalate_cons_cons]
      exact firm_text (ih (List.cons_ne_nil t texts) fun u hu => h u (List.mem_cons_of_mem _ hu)) _

theorem firm_quoted (value : ByteString) : Firm (ByteString.toLuaLiteral value '"') :=
  ⟨_, '"', rfl, rfl⟩

section
variable {N : Type} [Numerals N] (indentStr : String)

omit [Numerals N] in
theorem firm_name {e : Expr N} (h : e.IsNamed) : Firm (nameText e).toList := by
  obtain ⟨name, rfl, hname⟩ := h
  exact firm_word hname.1

theorem firm_number {value : N} {raw : String} (h : (Expr.numericLiteral value raw).Legible) :
    Firm (numericText value raw).toList := by
  rw [Expr.Legible] at h
  split at h
  next htext =>
    rw [htext]
    exact (firm_atom h).cons _
  next => exact firm_atom h

theorem firm_expr : ∀ (e : Expr N), e.Legible → ∀ level p,
    Firm (exprToString indentStr level e p).toList
  | .identifier name, h, level, p => by
    rw [exprToString]
    exact firm_parenthesized _ (firm_word h.1)
  | .numericLiteral value raw, h, level, p => by
    rw [exprToString]
    exact firm_parenthesized _ (firm_number h)
  | .stringLiteral value, _, level, p => by
    rw [exprToString]
    refine firm_parenthesized _ ?_
    rw [String.toList_ofList]
    exact firm_quoted value
  | .booleanLiteral value, _, level, p => by
    rw [exprToString]
    refine firm_parenthesized _ (firm_word ?_)
    cases value <;> decide
  | .nilLiteral, _, level, p => by
    rw [exprToString]
    exact firm_parenthesized _ (firm_word (by decide))
  | .varargLiteral inParens, _, level, p => by
    rw [exprToString]
    refine firm_parenthesized _ ?_
    cases inParens
    · exact ⟨['.', '.'], '.', rfl, rfl⟩
    · exact ⟨['(', '.', '.', '.'], ')', rfl, rfl⟩
  | .unaryExpression operator argument, h, level, p => by
    rw [exprToString]
    exact firm_parenthesized _ (firm_text (firm_expr argument h.2 level 70) _)
  | .binaryExpression operator left right, h, level, p => by
    rw [exprToString]
    exact firm_parenthesized _ (firm_text (firm_expr right h.2 level _) _)
  | .logicalExpression operator left right, h, level, p => by
    rw [exprToString]
    exact firm_parenthesized _ (firm_text (firm_expr right h.2 level _) _)
  | .callExpression base args _, _, level, p => by
    rw [exprToString]
    exact firm_parenthesized _ (firm_text ⟨[], ')', rfl, rfl⟩ _)
  | .methodCallExpression base method args _, _, level, p => by
    rw [exprToString]
    exact firm_parenthesized _ (firm_text ⟨[], ')', rfl, rfl⟩ _)
  | .memberExpression base property, h, level, p => by
    rw [exprToString]
    exact firm_parenthesized _ (firm_text (firm_name h.2.2) _)
  | .indexExpression base index, _, level, p => by
    rw [exprToString]
    exact firm_parenthesized _ (firm_text ⟨[], ']', rfl, rfl⟩ _)
  | .functionExpression params isVararg body, _, level, p => by
    rw [exprToString]
    exact firm_parenthesized _ (firm_text (firm_word (by decide)) _)
  | .tableConstructor fields, _, level, p => by
    rw [exprToString]
    refine firm_parenthesized _ ?_
    split
    next => exact ⟨['\x7b'], '\x7d', rfl, rfl⟩
    next =>
      split
      next => exact firm_text ⟨[' '], '\x7d', rfl, rfl⟩ _
      next => exact firm_text ⟨[], '\x7d', rfl, rfl⟩ _

theorem firm_exprs {es : List (Expr N)} (h : exprsLegible es) (level : ℕ) :
    ∀ text ∈ exprsToStrings indentStr level es, Firm text.toList := by
  induction es with
  | nil => exact List.forall_mem_nil _
  | cons e es ih => exact List.forall_mem_cons.mpr ⟨firm_expr indentStr e h.1 level 0, ih h.2⟩

theorem firm_list {es : List (Expr N)} (hne : es ≠ []) (h : exprsLegible es) (level : ℕ)
    (start : String) :
    Firm (start ++ ", ".intercalate (exprsToStrings indentStr level es)).toList := by
  refine firm_text (firm_intercalate ?_ (firm_exprs indentStr h level)) start
  cases es with
  | nil => exact absurd rfl hne
  | cons e es => exact List.cons_ne_nil _ _

/-- A text that ends in a line which the generator has written. -/
def IsLine (cs : List Char) : Prop := ∃ ds, cs = ds ++ ['\n'] ∧ Firm ds

theorem IsLine.append {ds : List Char} (h : IsLine ds) (cs : List Char) : IsLine (cs ++ ds) := by
  obtain ⟨es, rfl, hes⟩ := h
  exact ⟨cs ++ es, (List.append_assoc _ _ _).symm, hes.append cs⟩

theorem isLine_writeln (level : ℕ) {str : String} (h : Firm str.toList) :
    IsLine (writeln indentStr level str).toList := by
  have hne : str ≠ "" := by
    rintro rfl
    obtain ⟨ds, c, heq, -⟩ := h
    exact List.append_ne_nil_of_right_ne_nil ds (List.cons_ne_nil c []) heq.symm
  rw [writeln, if_neg hne]
  exact ⟨_, String.toList_append, firm_text h _⟩

theorem isLine_end (level : ℕ) (start : String) :
    IsLine (start ++ writeln indentStr level "end").toList := by
  rw [String.toList_append]
  exact (isLine_writeln indentStr level (firm_word (by decide))).append _

theorem isLine_stmt {s : Stmt N} (h : s.Legible) (hprinted : s.IsPrinted = true) (level : ℕ) :
    IsLine (generateNode indentStr level s).toList := by
  have hword : ∀ w : String, IsWord w.toList → IsLine (writeln indentStr level w).toList :=
    fun w hw => isLine_writeln indentStr level (firm_word hw)
  cases s with
  | localStatement vars init =>
    rw [Stmt.Legible] at h
    rw [generateNode]
    split
    next =>
      exact isLine_writeln _ _ (firm_list indentStr h.1 (exprsLegible_of_named h.2.1) level _)
    next hinit =>
      refine isLine_writeln _ _ (firm_list indentStr ?_ h.2.2 level _)
      rintro rfl
      exact hinit rfl
  | assignmentStatement vars init =>
    rw [Stmt.Legible] at h
    rw [generateNode]
    exact isLine_writeln _ _ (firm_list indentStr h.2.2.2.1 h.2.2.2.2 level _)
  | callStatement expression =>
    rw [Stmt.Legible] at h
    rw [generateNode]
    exact isLine_writeln _ _ (firm_expr indentStr expression h.2 level 0)
  | repeatStatement condition body =>
    rw [Stmt.Legible] at h
    rw [generateNode, String.toList_append]
    exact (isLine_writeln _ _ (firm_text (firm_expr indentStr condition h.1 level 0) _)).append _
  | returnStatement args =>
    rw [Stmt.Legible] at h
    rw [generateNode]
    split
    next => exact hword "return" (by decide)
    next hargs =>
      refine isLine_writeln _ _ (firm_list indentStr ?_ h level _)
      rintro rfl
      exact hargs rfl
  | breakStatement =>
    rw [generateNode]
    exact hword "break" (by decide)
  | continueStatement =>
    rw [generateNode]
    exact hword "continue" (by decide)
  | emptyStatement => cases hprinted
  | _ =>
    rw [generateNode.eq_def]
    exact isLine_end indentStr level _

theorem isLine_block {ss : List (Stmt N)} (h : blockLegible ss) (level : ℕ) :
    (generateBlock indentStr level ss).toList = [] ∨
      IsLine (generateBlock indentStr level ss).toList := by
  induction ss with
  | nil => exact Or.inl rfl
  | cons s ss ih =>
    rw [generateBlock, String.toList_append]
    rcases ih h.2.1 with hrest | hrest
    · rw [hrest, List.append_nil]
      by_cases hprinted : s.IsPrinted = true
      · exact Or.inr (isLine_stmt indentStr h.1 hprinted level)
      · cases s with
        | emptyStatement => exact Or.inl rfl
        | _ => exact absurd rfl hprinted
    · exact Or.inr (hrest.append _)

/-- Trimming the text and ending its last line again changes nothing, but where there is no line. -/
theorem generate_eq {chunk : Chunk N} (h : blockLegible chunk.body) :
    (generate indentStr chunk).toList = (generateBlock indentStr 0 chunk.body).toList ∨
      (generateBlock indentStr 0 chunk.body).toList = [] ∧
        (generate indentStr chunk).toList = ['\n'] := by
  rw [generate, String.toList_append, String.toList_ofList]
  rcases isLine_block indentStr h 0 with hempty | ⟨ds, heq, es, c, rfl, hc⟩
  · rw [hempty]
    exact Or.inr ⟨rfl, rfl⟩
  · refine Or.inl ?_
    have hspace : isJsSpace '\n' = true := rfl
    rw [heq]
    simp [hc, hspace]

theorem parseChunk_tokens {chunk : Chunk N} (h : blockLegible chunk.body) {tokens : List (Token N)}
    (htokens : tokens.map Token.toLexeme = blockTokens chunk.body [] ++ [.eof]) :
    ∃ depth, parseChunk depth tokens = some (.ok ⟨blockReread chunk.body⟩) := by
  have hblock := readings_block chunk.body h [] (List.mem_of_elem_eq_true rfl)
  obtain ⟨depth, hdepth⟩ := call_eq_some.mp hblock
  have hbody : chunkBody depth (blockTokens chunk.body []) =
      some (.ok (⟨blockReread chunk.body⟩, [])) := by
    rw [chunkBody, bind_ok hdepth, bind_is]
    rfl
  refine ⟨depth, ?_⟩
  rw [parseChunk, htokens, List.dropLast_concat]
  exact congrArg _ hbody

variable (hindent : IsIndent indentStr)
include hindent

theorem lexes_generate {chunk : Chunk N} (h : blockLegible chunk.body) :
    Lexes (generate indentStr chunk).toList (blockTokens chunk.body []) := by
  have hblock := lexes_block indentStr hindent chunk.body h 0 lexes_nil
  rw [List.append_nil] at hblock
  rcases generate_eq indentStr h with heq | ⟨hempty, heq⟩
  · rwa [heq]
  · rw [hempty] at hblock
    rw [heq]
    exact lexes_newline hblock

/-- Every legible program is read back from the text that is generated for it. -/
theorem parse_generate {chunk : Chunk N} (h : blockLegible chunk.body) :
    ∃ (tokens : List (Token N)) (depth : ℕ), tokenize (generate indentStr chunk) = .ok tokens ∧
      parseChunk depth tokens = some (.ok ⟨blockReread chunk.body⟩) := by
  obtain ⟨tokens, htokens, hlexemes⟩ := lexes_generate indentStr hindent h ⟨1, 1, 0⟩
  obtain ⟨depth, hparse⟩ := parseChunk_tokens h hlexemes
  exact ⟨tokens, depth, htokens, hparse⟩

end

section Cases

/-- Whole numbers, read and written in decimal. -/
@[reducible] def wholeNumerals : Numerals ℕ := ⟨ByteString.digitsValue, Nat.toDigits 10⟩

attribute [local instance] wholeNumerals

theorem isIndent_spaces : IsIndent "  " := by
  intro c hc
  rw [List.eq_of_mem_replicate (n := 2) hc]
  rfl

/-- `x = -1 ^ y`, with a negative number for the base. -/
def powerProgram : Chunk ℕ :=
  ⟨[.assignmentStatement [.identifier "x"]
    [.binaryExpression .pow (.numericLiteral 0 "-1") (.identifier "y")]]⟩

/-- The power of the negative number comes back as the negative of the power. -/
theorem parse_generate_power :
    ∃ (tokens : List (Token ℕ)) (depth : ℕ), tokenize (generate "  " powerProgram) = .ok tokens ∧
      parseChunk depth tokens = some (.ok ⟨[.assignmentStatement [.identifier "x"]
        [.unaryExpression .minus
          (.binaryExpression .pow (.numericLiteral 1 "1") (.identifier "y"))]]⟩) := by
  have hx : IsName "x" := ⟨by decide, rfl⟩
  have hy : IsName "y" := ⟨by decide, rfl⟩
  have hone : IsAtom ['1'] := Or.inl ⟨⟨'1', [], rfl, Or.inl rfl⟩, rfl⟩
  have hlegible : blockLegible powerProgram.body := by
    have hbase : (Expr.numericLiteral 0 "-1" : Expr ℕ).Legible := by
      rw [Expr.Legible]
      exact hone
    exact ⟨⟨by simp, by simp [Expr.IsTarget], ⟨hx, trivial⟩, by simp, ⟨hbase, hy⟩, trivial⟩, trivial,
      by simp⟩
  exact parse_generate "  " isIndent_spaces hlegible

end Cases

end LuaRecovery.Lua
