import LuaRecovery.Lua.TextLexing
import Mathlib.Data.List.Forall2

/-!
# The generated text lexes into its tokens
-/

set_option autoImplicit false

namespace LuaRecovery.Lua
open Lexer LuaGenerator Spelling

/-- What may follow a text: where it ends in a number, nothing that a number could go on with. -/
def Ends (isOpen : Bool) (cs : List Char) : Prop :=
  WordEnd cs ∧ (isOpen = false → NumberEnd cs)

theorem NumberEnd.ends {cs : List Char} (h : NumberEnd cs) (isOpen : Bool) : Ends isOpen cs :=
  ⟨h.wordEnd, fun _ => h⟩

theorem numberEnd_cons {c : Char} {cs : List Char} (hpart : isNamePart c = false)
    (hsign : c ≠ '.' ∧ c ≠ '+' ∧ c ≠ '-') : NumberEnd (c::cs) := by
  rintro d ⟨rfl⟩
  exact ⟨hpart, hsign⟩

theorem wordEnd_dot (cs : List Char) : WordEnd ('.' :: cs) := by
  rintro d ⟨rfl⟩
  rfl

theorem numberEnd_space (cs : List Char) : NumberEnd (' ' :: cs) :=
  numberEnd_cons rfl (by decide)

theorem numberEnd_newline (cs : List Char) : NumberEnd ('\n' :: cs) :=
  numberEnd_cons rfl (by decide)

theorem numberEnd_close (cs : List Char) : NumberEnd (')' :: cs) :=
  numberEnd_cons rfl (by decide)

theorem numberEnd_comma (cs : List Char) : NumberEnd (',' :: cs) :=
  numberEnd_cons rfl (by decide)

section
variable {N : Type} [Numerals N] {cs : List Char} {ts : List (Lexeme N)}

theorem lexes_space (h : Lexes cs ts) : Lexes (' ' :: cs) ts := lexes_blank rfl h

theorem lexes_newline (h : Lexes cs ts) : Lexes ('\n' :: cs) ts := lexes_blank rfl h

theorem lexes_open (h : Lexes cs ts) : Lexes ('(' :: cs) (openParen :: ts) :=
  lexes_operator rfl rfl h

theorem lexes_close (h : Lexes cs ts) : Lexes (')' :: cs) (closeParen :: ts) :=
  lexes_operator rfl rfl h

theorem lexes_comma (h : Lexes cs ts) : Lexes (',' :: cs) (comma :: ts) :=
  lexes_operator rfl rfl h

theorem lexes_colon (h : Lexes cs ts) : Lexes (':' :: cs) (.punctuation .colon ":" :: ts) :=
  lexes_operator rfl rfl h

theorem lexes_openBrace (h : Lexes cs ts) :
    Lexes ('\x7b' :: cs) (.punctuation .lbrace "\x7b" :: ts) :=
  lexes_operator rfl rfl h

theorem lexes_closeBrace (h : Lexes cs ts) :
    Lexes ('\x7d' :: cs) (.punctuation .rbrace "\x7d" :: ts) :=
  lexes_operator rfl rfl h

theorem lexes_closeBracket (h : Lexes cs ts) :
    Lexes (']' :: cs) (.punctuation .rbracket "]" :: ts) :=
  lexes_operator rfl rfl h

theorem lexes_hash (h : Lexes cs ts) : Lexes ('#' :: cs) (.punctuation .hash "#" :: ts) :=
  lexes_operator rfl rfl h

theorem lexes_dots (h : Lexes cs ts) : Lexes ('.' :: '.' :: '.' :: cs) (dots :: ts) :=
  lexes_punctuation rfl rfl (fun h => by cases h) (by decide) (fun h => by cases h)
    ⟨rfl, fun _ => rfl⟩ rfl h

theorem lexes_assign (h : Lexes cs ts) : Lexes ('=' :: ' ' :: cs) (assign :: ts) :=
  lexes_operator rfl rfl (lexes_space h)

/-- A bracket before what opens no long string. -/
theorem lexes_openBracket {c : Char} (hc : c ≠ '[' ∧ c ≠ '=') (h : Lexes (c::cs) ts) :
    Lexes ('[' :: c :: cs) (.punctuation .lbracket "[" :: ts) :=
  lexes_punctuation rfl rfl (fun h => by cases h) (by decide) (fun _ => by simpa using hc)
    ⟨rfl, fun h => by cases h⟩ rfl h

theorem lexes_dot {c : Char} (hc : isNameStart c = true) (h : Lexes (c::cs) ts) :
    Lexes ('.' :: c :: cs) (.punctuation .dot "." :: ts) := by
  have hdot : c ≠ '.' := by
    rintro rfl
    cases hc
  have hsingle : singleTokens '.' = some .dot := rfl
  have hread : readPunctuation '.' (c::cs) = some (.dot, ".", c::cs) := by
    simp [readPunctuation, hdot, hsingle]
  exact lexes_punctuation hread rfl (fun h => by cases h) (by decide) (fun h => by cases h)
    ⟨rfl, fun _ => by simp [not_isDigit_of_start hc]⟩ rfl h

/-- A minus before what is not one. -/
theorem lexes_minus {c : Char} (hc : c ≠ '-' ∧ c ≠ '=') (h : Lexes (c::cs) ts) :
    Lexes ('-' :: c :: cs) (.punctuation .minus "-" :: ts) := by
  have hsingle : singleTokens '-' = some .minus := rfl
  have hread : readPunctuation '-' (c::cs) = some (.minus, "-", c::cs) := by
    simp [readPunctuation, hc.2, hsingle]
  exact lexes_punctuation hread rfl (fun _ => by simpa using hc.1) (by decide)
    (fun h => by cases h) ⟨rfl, fun h => by cases h⟩ rfl h

theorem lexes_binary (operator : BinaryOperator) (h : Lexes cs ts) :
    Lexes ((binaryText operator).toList ++ ' ' :: cs) (binaryToken operator :: ts) := by
  have hspace := lexes_space h
  cases operator with
  | sub => exact lexes_minus (by decide) hspace
  | concat =>
    exact lexes_punctuation rfl rfl (fun h => by cases h) (by decide) (fun h => by cases h)
      ⟨rfl, fun _ => rfl⟩ rfl hspace
  | _ => exact lexes_operator rfl rfl hspace

theorem lexes_name {name : String} (hname : IsWord name.toList) (hcs : WordEnd cs)
    (h : Lexes cs ts) : Lexes (name.toList ++ cs) (.word name :: ts) := by
  have hlexes := lexes_word hname hcs h
  rwa [String.ofList_toList] at hlexes

theorem lexes_atom {text : List Char} (htext : IsAtom text) (hcs : Ends (startsName text) cs)
    (h : Lexes cs ts) : Lexes (text ++ cs) (atomToken text :: ts) := by
  unfold atomToken
  rcases htext with hnumeral | ⟨hword, -⟩
  · have hstart := startsName_numeral hnumeral
    rw [hstart, if_neg Bool.false_ne_true]
    exact lexes_numeral hnumeral (hcs.2 hstart) h
  · rw [String.toList_ofList] at hword
    have hstart : startsName text = true := hword.1
    rw [hstart, if_pos rfl]
    exact lexes_word hword hcs.1 h

/-- How the text of an expression starts. -/
structure StartsPlainly (isMinus : Bool) (cs : List Char) : Prop where
  start : ∃ c ds, cs = c::ds ∧ c ≠ '=' ∧ c ≠ '[' ∧ (c = '-' ↔ isMinus = true)

theorem StartsPlainly.of_cons {c : Char} {isMinus : Bool} (heq : c ≠ '=') (hbracket : c ≠ '[')
    (hminus : c = '-' ↔ isMinus = true) (ds : List Char) : StartsPlainly isMinus (c::ds) :=
  ⟨c, ds, rfl, heq, hbracket, hminus⟩

theorem StartsPlainly.append {isMinus : Bool} {ds : List Char} (h : StartsPlainly isMinus ds)
    (cs : List Char) : StartsPlainly isMinus (ds ++ cs) := by
  obtain ⟨c, ds, rfl, hc⟩ := h
  exact ⟨c, ds ++ cs, rfl, hc⟩

theorem starts_word {name : List Char} (hname : IsWord name) : StartsPlainly false name := by
  obtain ⟨hstart, -⟩ := hname
  cases name with
  | nil => cases hstart
  | cons c ds =>
    have hother : ∀ d : Char, isNameStart d = false → c ≠ d := by
      rintro d hd rfl
      have hc : isNameStart c = true := hstart
      rw [hd] at hc
      cases hc
    exact .of_cons (hother '=' rfl) (hother '[' rfl) (by simp [hother '-' rfl]) ds

theorem starts_atom {text : List Char} (htext : IsAtom text) : StartsPlainly false text := by
  rcases htext with ⟨⟨c, ds, rfl, hc⟩, -⟩ | ⟨hword, -⟩
  · have hother : ∀ d : Char, d.isDigit = false → d ≠ '.' → c ≠ d := by
      rintro d hd hdot rfl
      rcases hc with hc | ⟨hc, -⟩
      · rw [hd] at hc
        cases hc
      · exact hdot hc
    exact .of_cons (hother '=' rfl (by decide)) (hother '[' rfl (by decide))
      (by simp [hother '-' rfl]) ds
  · rw [String.toList_ofList] at hword
    exact starts_word hword

theorem starts_parenthesized (low isMinus : Bool) {result : String}
    (h : StartsPlainly isMinus result.toList) :
    StartsPlainly (!low && isMinus) (parenthesized low result).toList := by
  cases low with
  | false => exact h
  | true =>
    simp only [parenthesized, if_true, String.toList_append]
    cases isMinus <;> exact .of_cons (by decide) (by decide) (by decide) _

variable (indentStr : String)

/-- A function is put in parentheses before a suffix, and starts with no minus anyway. -/
theorem starts_base {base : Expr N} {text : String}
    (h : StartsPlainly (startsMinus base 990) text.toList) :
    StartsPlainly (startsMinus base 990) (parenthesized (isFunction base) text).toList := by
  cases base with
  | functionExpression params isVararg body =>
    exact starts_parenthesized true false h
  | _ => exact h

theorem starts_expr : ∀ (e : Expr N), e.Legible → ∀ level p,
    StartsPlainly (startsMinus e p) (exprToString indentStr level e p).toList
  | .identifier name, h, level, p => by
    rw [exprToString]
    exact starts_parenthesized _ false (starts_word h.1)
  | .numericLiteral value raw, h, level, p => by
    rw [exprToString]
    refine starts_parenthesized _ (decide ((numericText value raw).toList.head? = some '-')) ?_
    rw [Expr.Legible] at h
    split at h
    next text htext =>
      rw [htext]
      exact .of_cons (by decide) (by decide) (by simp) text
    next hminus =>
      obtain ⟨c, ds, htext, heq, hbracket, hc⟩ := starts_atom h
      rw [htext]
      exact .of_cons heq hbracket (by simp) ds
  | .stringLiteral value, _, level, p => by
    rw [exprToString]
    refine starts_parenthesized _ false ?_
    rw [String.toList_ofList]
    exact .of_cons (by decide) (by decide) (by decide) _
  | .booleanLiteral value, _, level, p => by
    rw [exprToString]
    refine starts_parenthesized _ false ?_
    cases value <;> exact .of_cons (by decide) (by decide) (by decide) _
  | .nilLiteral, _, level, p => by
    rw [exprToString]
    exact starts_parenthesized _ false (.of_cons (by decide) (by decide) (by decide) _)
  | .varargLiteral inParens, _, level, p => by
    rw [exprToString]
    refine starts_parenthesized _ false ?_
    cases inParens <;> exact .of_cons (by decide) (by decide) (by decide) _
  | .unaryExpression operator argument, _, level, p => by
    rw [exprToString]
    refine starts_parenthesized _ (decide (operator = .minus)) ?_
    simp only [String.toList_append, List.append_assoc]
    refine StartsPlainly.append ?_ _
    cases operator <;> exact .of_cons (by decide) (by decide) (by decide) _
  | .binaryExpression operator left right, h, level, p => by
    rw [exprToString, startsMinus]
    refine starts_parenthesized _ _ ?_
    simp only [String.toList_append, List.append_assoc]
    exact (starts_expr left h.1 level _).append _
  | .logicalExpression operator left right, h, level, p => by
    rw [exprToString, startsMinus]
    refine starts_parenthesized _ _ ?_
    simp only [String.toList_append, List.append_assoc]
    exact (starts_expr left h.1 level _).append _
  | .callExpression base args inParens, h, level, p => by
    rw [exprToString, startsMinus]
    refine starts_parenthesized _ _ ?_
    simp only [String.toList_append, List.append_assoc]
    exact (starts_base (starts_expr base h.2.1 level 990)).append _
  | .methodCallExpression base method args inParens, h, level, p => by
    rw [exprToString, startsMinus]
    refine starts_parenthesized _ _ ?_
    simp only [String.toList_append, List.append_assoc]
    exact (starts_base (starts_expr base h.2.1 level 990)).append _
  | .memberExpression base property, h, level, p => by
    rw [exprToString, startsMinus]
    refine starts_parenthesized _ _ ?_
    simp only [String.toList_append, List.append_assoc]
    exact (starts_base (starts_expr base h.2.1 level 990)).append _
  | .indexExpression base index, h, level, p => by
    rw [exprToString, startsMinus]
    refine starts_parenthesized _ _ ?_
    simp only [String.toList_append, List.append_assoc]
    exact (starts_base (starts_expr base h.2.1 level 990)).append _
  | .functionExpression params isVararg body, _, level, p => by
    rw [exprToString]
    refine starts_parenthesized _ false ?_
    simp only [String.toList_append, List.append_assoc]
    exact .of_cons (by decide) (by decide) (by decide) _
  | .tableConstructor fields, _, level, p => by
    rw [exprToString]
    refine starts_parenthesized _ false ?_
    split
    · exact .of_cons (by decide) (by decide) (by decide) _
    · split <;> simp only [String.toList_append, List.append_assoc] <;>
        exact .of_cons (by decide) (by decide) (by decide) _

theorem lexes_enclosed (isOpen : Bool) {low : Bool} {result : String}
    {f : List (Lexeme N) → List (Lexeme N)}
    (hf : ∀ cs k, Ends isOpen cs → Lexes cs k → Lexes (result.toList ++ cs) (f k))
    (hcs : Ends (low || isOpen) cs) (h : Lexes cs ts) :
    Lexes ((parenthesized low result).toList ++ cs) (enclosed low ts f) := by
  cases low with
  | false => exact hf cs ts hcs h
  | true =>
    have hclose := hf _ _ ((numberEnd_close cs).ends isOpen) (lexes_close h)
    simp only [parenthesized, enclosed, if_true, String.toList_append, List.append_assoc]
    exact lexes_open hclose

/-- A base ends where a suffix can follow it. -/
theorem endsOpen_base {base : Expr N} (hbase : base.IsBase) :
    (isFunction base || endsOpen base 990) = true := by
  cases base with
  | numericLiteral value raw => cases hbase
  | stringLiteral value => cases hbase
  | booleanLiteral value => cases hbase
  | nilLiteral => cases hbase
  | tableConstructor fields => cases hbase
  | varargLiteral inParens =>
    have hparens : inParens = true := hbase
    simp [isFunction, endsOpen, hparens]
  | binaryExpression operator left right =>
    cases operator <;> simp [isFunction, endsOpen, getPrecedence, binaryPrecedence]
  | logicalExpression operator left right =>
    cases operator <;> simp [isFunction, endsOpen, getPrecedence, logicalPrecedence]
  | unaryExpression operator argument => simp [isFunction, endsOpen, getPrecedence]
  | _ => simp [isFunction, endsOpen]

theorem lexes_base {base : Expr N} (hbase : base.IsBase) {text : String}
    (hf : ∀ cs k, Ends (endsOpen base 990) cs → Lexes cs k →
      Lexes (text.toList ++ cs) (exprTokens base 990 k))
    (hcs : WordEnd cs) (h : Lexes cs ts) :
    Lexes ((parenthesized (isFunction base) text).toList ++ cs)
      (enclosed (isFunction base) ts (exprTokens base 990)) := by
  refine lexes_enclosed (endsOpen base 990) hf ⟨hcs, fun hopen => ?_⟩ h
  rw [endsOpen_base hbase] at hopen
  cases hopen

theorem numberEndsOpen_unsigned {text : List Char} (h : ∀ ds, text = '-'::ds → False) :
    numberEndsOpen text = startsName text := by
  unfold numberEndsOpen
  split
  next => exact (h _ rfl).elim
  next => rfl

theorem lexes_number {value : N} {raw : String} (h : (Expr.numericLiteral value raw).Legible)
    (hcs : Ends (numberEndsOpen (numericText value raw).toList) cs) (hk : Lexes cs ts) :
    Lexes ((numericText value raw).toList ++ cs)
      (numberTokens (numericText value raw).toList ts) := by
  rw [Expr.Legible] at h
  split at h
  next text htext =>
    rw [htext] at hcs ⊢
    obtain ⟨c, ds, rfl, heq, -, hminus⟩ := starts_atom h
    exact lexes_minus ⟨by simpa using hminus, heq⟩ (lexes_atom h hcs hk)
  next htext =>
    rw [numberEndsOpen_unsigned htext] at hcs
    rw [numberTokens_unsigned htext]
    exact lexes_atom h hcs hk

theorem lexes_unary {operator : UnaryOperator} {text : String} {isMinus : Bool}
    (hstart : StartsPlainly isMinus text.toList) (hminus : operator = .minus → isMinus = false)
    (h : Lexes (text.toList ++ cs) ts) :
    Lexes ((unaryText operator ++ (if operator = .not then " " else "") ++ text).toList ++ cs)
      (unaryToken operator :: ts) := by
  obtain ⟨c, ds, htext, heq, -, hc⟩ := hstart
  simp only [String.toList_append, List.append_assoc]
  cases operator with
  | minus =>
    rw [htext] at h ⊢
    refine lexes_minus ⟨?_, heq⟩ h
    intro hminus'
    have htrue := hc.mp hminus'
    rw [hminus rfl] at htrue
    cases htrue
  | not =>
    exact lexes_name (show IsWord "not".toList by decide) (numberEnd_space _).wordEnd (lexes_space h)
  | length => exact lexes_hash h

/-- One text for one token, wherever it ends. -/
def Piece (text : String) (t : Lexeme N) : Prop :=
  ∀ cs k, NumberEnd cs → Lexes cs k → Lexes (text.toList ++ cs) (t :: k)

theorem lexes_separated {texts : List String} {tokens : List (Lexeme N)}
    (hpieces : List.Forall₂ Piece texts tokens) (hcs : NumberEnd cs) (h : Lexes cs ts) :
    Lexes ((", ".intercalate texts).toList ++ cs) (separated tokens ts) := by
  induction hpieces with
  | nil => exact h
  | @cons text t texts tokens hpiece hpieces ih =>
    cases hpieces with
    | nil =>
      rw [String.intercalate_singleton]
      exact hpiece cs ts hcs h
    | cons =>
      rw [String.intercalate_cons_cons]
      simp only [String.toList_append, List.append_assoc]
      exact hpiece _ _ (numberEnd_comma _) (lexes_comma (lexes_space ih))

/-- What stands between the items of a list. -/
def IsSeparator (sep : String) : Prop := sep = ", " ∨ sep = ",\n"

/-- The texts of a list after its first, each with a separator before it. -/
def moreText (sep : String) (texts : List String) : List Char :=
  texts.flatMap fun text => sep.toList ++ text.toList

theorem toList_intercalate_cons (sep text : String) (texts : List String) :
    (sep.intercalate (text::texts)).toList = text.toList ++ moreText sep texts := by
  induction texts generalizing text with
  | nil => simp [moreText]
  | cons t texts ih =>
    rw [String.intercalate_cons_cons, String.toList_append, String.toList_append, ih]
    simp [moreText]

theorem lexes_separator {sep : String} (hsep : IsSeparator sep) (h : Lexes cs ts) :
    Lexes (sep.toList ++ cs) (comma :: ts) := by
  rcases hsep with rfl | rfl
  · exact lexes_comma (lexes_space h)
  · exact lexes_comma (lexes_newline h)

theorem numberEnd_moreText {sep : String} (hsep : IsSeparator sep) (texts : List String)
    (hcs : NumberEnd cs) : NumberEnd (moreText sep texts ++ cs) := by
  cases texts with
  | nil => exact hcs
  | cons t texts => rcases hsep with rfl | rfl <;> exact numberEnd_comma _

theorem piece_name {name : String} (hname : IsName name) : Piece (N := N) name (.word name) :=
  fun _ _ hcs h => lexes_name hname.1 hcs.wordEnd h

theorem piece_named {e : Expr N} (he : e.IsNamed) :
    Piece (N := N) (nameText e) (.word (nameText e)) := by
  obtain ⟨name, rfl, hname⟩ := he
  exact piece_name hname

theorem lexes_params {params : List (Expr N)} (hparams : ∀ p ∈ params, p.IsNamed)
    (isVararg : Bool) (hcs : NumberEnd cs) (h : Lexes cs ts) :
    Lexes ((paramsText params isVararg).toList ++ cs) (paramsTokens params isVararg ts) := by
  have hnames : List.Forall₂ Piece (params.map fun p => p.name?.getD "")
      (params.map fun p => (.word (p.name?.getD "") : Lexeme N)) := by
    induction params with
    | nil => exact .nil
    | cons p params ih =>
      have hp := hparams p (by simp)
      refine .cons ?_ (ih fun q hq => hparams q (by simp [hq]))
      obtain ⟨name, rfl, hname⟩ := hp
      exact piece_name hname
  have hdots : List.Forall₂ Piece (if isVararg then ["..."] else [])
      (if isVararg then [(dots : Lexeme N)] else []) := by
    cases isVararg with
    | false => exact .nil
    | true => exact .cons (fun cs k _ h => lexes_dots h) .nil
  exact lexes_separated (List.rel_append hnames hdots) hcs h

def IsIndent (indentStr : String) : Prop := ∀ c ∈ indentStr.toList, isBlank c = true

theorem isBlank_of_indent (hindent : IsIndent indentStr) (level : ℕ) :
    ∀ c ∈ (indent indentStr level).toList, isBlank c = true := by
  have hjoin : ∀ text : String, (∀ c ∈ text.toList, isBlank c = true) →
      ∀ c ∈ ((List.replicate level indentStr).foldl (· ++ ·) text).toList, isBlank c = true := by
    induction level with
    | zero => exact fun text htext => htext
    | succ level ih =>
      intro text htext
      refine ih (text ++ indentStr) fun c hc => ?_
      rw [String.toList_append, List.mem_append] at hc
      exact hc.elim (htext c) (hindent c)
  exact hjoin "" (by simp)

/-- A line with what is in it before its end. -/
theorem lexes_line (hindent : IsIndent indentStr) (level : ℕ) {str : String}
    (h : Lexes (str.toList ++ '\n' :: cs) ts) :
    Lexes ((writeln indentStr level str).toList ++ cs) ts := by
  unfold writeln
  split
  next hempty =>
    subst hempty
    exact h
  next =>
    simp only [String.toList_append, List.append_assoc]
    exact lexes_blanks (isBlank_of_indent indentStr hindent level) h

theorem lexes_keyword {w text : String} (hw : IsWord w.toList)
    (htext : text.toList = w.toList ++ [' ']) (h : Lexes cs ts) :
    Lexes (text.toList ++ cs) (.word w :: ts) := by
  rw [htext, List.append_assoc]
  exact lexes_name hw (numberEnd_space cs).wordEnd (lexes_space h)

theorem lexes_property {name : String} (hname : IsWord name.toList) (hcs : WordEnd cs)
    (h : Lexes cs ts) :
    Lexes (".".toList ++ (name.toList ++ cs)) (.punctuation .dot "." :: .word name :: ts) := by
  have hword := lexes_name hname hcs h
  obtain ⟨hstart, -⟩ := hname
  cases hchars : name.toList with
  | nil =>
    rw [hchars] at hstart
    cases hstart
  | cons c ds =>
    rw [hchars] at hstart hword
    exact lexes_dot hstart hword

theorem lexes_bracketed {text : String} {isMinus : Bool} (hstart : StartsPlainly isMinus text.toList)
    (h : Lexes (text.toList ++ cs) ts) :
    Lexes ("[".toList ++ (text.toList ++ cs)) (.punctuation .lbracket "[" :: ts) := by
  obtain ⟨c, ds, htext, heq, hbracket, -⟩ := hstart
  rw [htext] at h ⊢
  exact lexes_openBracket ⟨hbracket, heq⟩ h

theorem exprsLegible_of_named {es : List (Expr N)} (h : ∀ e ∈ es, e.IsNamed) :
    exprsLegible es := by
  induction es with
  | nil => trivial
  | cons e es ih =>
    obtain ⟨name, rfl, hname⟩ := h e (by simp)
    exact ⟨hname, ih fun e he => h e (by simp [he])⟩

theorem fieldsLegible_cons {f : TableField N} {fs : List (TableField N)}
    (h : fieldsLegible (f::fs)) : fieldsLegible [f] ∧ fieldsLegible fs := by
  cases f with
  | tableKey key value => exact ⟨⟨h.1, h.2.1, trivial⟩, h.2.2⟩
  | tableKeyString key value => exact ⟨⟨h.1, h.2.1, trivial⟩, h.2.2⟩
  | tableValue value => exact ⟨⟨h.1, trivial⟩, h.2⟩

/-- A word at the end of a line. -/
theorem lexes_lastWord {w : String} (hw : IsWord w.toList) (h : Lexes cs ts) :
    Lexes (w.toList ++ '\n' :: cs) (.word w :: ts) :=
  lexes_name hw (numberEnd_newline cs).wordEnd (lexes_newline h)

theorem lexes_end (hindent : IsIndent indentStr) (level : ℕ) (h : Lexes cs ts) :
    Lexes ((writeln indentStr level "end").toList ++ cs) (.word "end" :: ts) :=
  lexes_line indentStr hindent level (lexes_lastWord (by decide) h)

mutual

theorem lexes_expr (hindent : IsIndent indentStr) :
    ∀ (e : Expr N), e.Legible → ∀ level p {cs : List Char}
    {ts : List (Lexeme N)}, Ends (endsOpen e p) cs → Lexes cs ts →
    Lexes ((exprToString indentStr level e p).toList ++ cs) (exprTokens e p ts)
  | .identifier name, h, level, p, _, _, hend, hk => by
    rw [exprToString, exprTokens]
    exact lexes_enclosed true (fun cs k hcs hk => lexes_name h.1 hcs.1 hk) hend hk
  | .numericLiteral value raw, h, level, p, _, _, hend, hk => by
    rw [exprToString, exprTokens]
    exact lexes_enclosed _ (fun cs k hcs hk => lexes_number h hcs hk) hend hk
  | .stringLiteral value, _, level, p, _, _, hend, hk => by
    rw [exprToString, exprTokens]
    refine lexes_enclosed false (fun cs k hcs hk => ?_) hend hk
    rw [String.toList_ofList]
    exact lexes_quoted value hk
  | .booleanLiteral value, _, level, p, _, _, hend, hk => by
    rw [exprToString, exprTokens]
    refine lexes_enclosed false (fun cs k hcs hk => ?_) hend hk
    cases value <;> exact lexes_name (by decide) hcs.1 hk
  | .nilLiteral, _, level, p, _, _, hend, hk => by
    rw [exprToString, exprTokens]
    exact lexes_enclosed false (fun cs k hcs hk => lexes_name (by decide) hcs.1 hk) hend hk
  | .varargLiteral inParens, _, level, p, _, _, hend, hk => by
    rw [exprToString, exprTokens]
    refine lexes_enclosed inParens (fun cs k hcs hk => ?_) hend hk
    cases inParens with
    | false => exact lexes_dots hk
    | true => exact lexes_open (lexes_dots (lexes_close hk))
  | .unaryExpression operator argument, h, level, p, _, _, hend, hk => by
    rw [exprToString, exprTokens]
    refine lexes_enclosed (endsOpen argument 70) (fun cs k hcs hk => ?_) hend hk
    have hclash : ¬(operator = .minus ∧ startsMinus argument 70 = true) := by
      rintro ⟨hminus, hstart⟩
      rw [h.1 hminus] at hstart
      cases hstart
    dsimp only
    rw [if_neg hclash]
    exact lexes_unary (starts_expr indentStr argument h.2 level 70) h.1
      (lexes_expr hindent argument h.2 level 70 hcs hk)
  | .binaryExpression operator left right, h, level, p, _, _, hend, hk => by
    rw [exprToString, exprTokens]
    refine lexes_enclosed (endsOpen right (operandPrecedences operator).2)
      (fun cs k hcs hk => ?_) hend hk
    simp only [String.toList_append, List.append_assoc]
    have hright := lexes_expr hindent right h.2 level (operandPrecedences operator).2 hcs hk
    exact lexes_expr hindent left h.1 level _ ((numberEnd_space _).ends _)
      (lexes_space (lexes_binary operator hright))
  | .logicalExpression operator left right, h, level, p, _, _, hend, hk => by
    rw [exprToString, exprTokens]
    refine lexes_enclosed (endsOpen right (10 * logicalPrecedence operator + 1))
      (fun cs k hcs hk => ?_) hend hk
    simp only [String.toList_append, List.append_assoc]
    have hright := lexes_expr hindent right h.2 level (10 * logicalPrecedence operator + 1) hcs hk
    have hword : IsWord (logicalText operator).toList := by cases operator <;> decide
    have hoperator := lexes_name hword (numberEnd_space _).wordEnd (lexes_space hright)
    exact lexes_expr hindent left h.1 level _ ((numberEnd_space _).ends _) (lexes_space hoperator)
  | .callExpression base args inParens, h, level, p, _, _, hend, hk => by
    rw [exprToString, exprTokens]
    refine lexes_enclosed true (fun cs k hcs hk => ?_) hend hk
    simp only [String.toList_append, List.append_assoc]
    have hargs := lexes_exprs hindent args h.2.2 level (numberEnd_close cs) (lexes_close hk)
    exact lexes_base h.1 (fun _ _ hcs hk => lexes_expr hindent base h.2.1 level 990 hcs hk)
      (numberEnd_cons rfl (by decide)).wordEnd (lexes_open hargs)
  | .methodCallExpression base method args inParens, h, level, p, _, _, hend, hk => by
    rw [exprToString, exprTokens]
    refine lexes_enclosed true (fun cs k hcs hk => ?_) hend hk
    simp only [String.toList_append, List.append_assoc]
    have hargs := lexes_exprs hindent args h.2.2.2 level (numberEnd_close cs) (lexes_close hk)
    have hmethod := piece_named h.2.2.1 _ _ (numberEnd_cons rfl (by decide)) (lexes_open hargs)
    exact lexes_base h.1 (fun _ _ hcs hk => lexes_expr hindent base h.2.1 level 990 hcs hk)
      (numberEnd_cons rfl (by decide)).wordEnd (lexes_colon hmethod)
  | .memberExpression base property, h, level, p, _, _, hend, hk => by
    rw [exprToString, exprTokens]
    refine lexes_enclosed true (fun cs k hcs hk => ?_) hend hk
    simp only [String.toList_append, List.append_assoc]
    obtain ⟨name, rfl, hname⟩ := h.2.2
    exact lexes_base h.1 (fun _ _ hcs hk => lexes_expr hindent base h.2.1 level 990 hcs hk)
      (wordEnd_dot _) (lexes_property hname.1 hcs.1 hk)
  | .indexExpression base index, h, level, p, _, _, hend, hk => by
    rw [exprToString, exprTokens]
    refine lexes_enclosed true (fun cs k hcs hk => ?_) hend hk
    simp only [String.toList_append, List.append_assoc]
    have hclose := lexes_closeBracket hk
    have hindex := lexes_expr hindent index h.2.2 level 0
      ((numberEnd_cons rfl (by decide)).ends _) hclose
    exact lexes_base h.1 (fun _ _ hcs hk => lexes_expr hindent base h.2.1 level 990 hcs hk)
      (numberEnd_cons rfl (by decide)).wordEnd
      (lexes_bracketed (starts_expr indentStr index h.2.2 level 0) hindex)
  | .functionExpression params isVararg body, h, level, p, _, _, hend, hk => by
    rw [exprToString, exprTokens]
    refine lexes_enclosed false (fun cs k hcs hk => ?_) hend hk
    simp only [String.toList_append, List.append_assoc]
    have hkeyword := lexes_blanks (isBlank_of_indent indentStr hindent level)
      (lexes_name (show IsWord "end".toList by decide) hcs.1 hk)
    have hbody := lexes_newline (lexes_block hindent body h.2 (level + 1) hkeyword)
    have hparams := lexes_params h.1 isVararg (numberEnd_close _) (lexes_close hbody)
    exact lexes_name (show IsWord "function".toList by decide)
      (numberEnd_cons rfl (by decide)).wordEnd (lexes_open hparams)
  | .tableConstructor fields, h, level, p, _, _, hend, hk => by
    rw [exprToString, exprTokens]
    refine lexes_enclosed false (fun cs k hcs hk => ?_) hend hk
    have hclose := lexes_closeBrace hk
    split
    next hempty =>
      rw [List.isEmpty_iff.mp hempty]
      exact lexes_openBrace hclose
    next =>
      split
      next =>
        simp only [String.toList_append, List.append_assoc]
        exact lexes_openBrace (lexes_space (lexes_fields hindent fields h (Or.inl rfl) level
          (fun c hc => by cases hc) (numberEnd_space _) (lexes_space hclose)))
      next =>
        simp only [String.toList_append, List.append_assoc]
        have hblank := isBlank_of_indent indentStr hindent
        have hlast := lexes_blanks (hblank level) hclose
        exact lexes_openBrace (lexes_newline (lexes_fields hindent fields h (Or.inr rfl) level
          (hblank (level + 1)) (numberEnd_newline _) (lexes_newline hlast)))

theorem lexes_exprs (hindent : IsIndent indentStr) :
    ∀ (es : List (Expr N)), exprsLegible es → ∀ level {cs : List Char}
    {ts : List (Lexeme N)}, NumberEnd cs → Lexes cs ts →
    Lexes ((", ".intercalate (exprsToStrings indentStr level es)).toList ++ cs)
      (exprsTokens es ts)
  | [], _, _, _, _, _, hk => hk
  | e::es, h, level, _, _, hcs, hk => by
    rw [exprsToStrings, toList_intercalate_cons, List.append_assoc, exprsTokens]
    exact lexes_expr hindent e h.1 level 0 ((numberEnd_moreText (Or.inl rfl) _ hcs).ends _)
      (lexes_moreExprs hindent es h.2 level hcs hk)

theorem lexes_moreExprs (hindent : IsIndent indentStr) :
    ∀ (es : List (Expr N)), exprsLegible es → ∀ level {cs : List Char}
    {ts : List (Lexeme N)}, NumberEnd cs → Lexes cs ts →
    Lexes (moreText ", " (exprsToStrings indentStr level es) ++ cs) (moreExprsTokens es ts)
  | [], _, _, _, _, _, hk => hk
  | e::es, h, level, _, _, hcs, hk => by
    rw [exprsToStrings, moreText, List.flatMap_cons, ← moreText, moreExprsTokens]
    simp only [List.append_assoc]
    exact lexes_separator (Or.inl rfl)
      (lexes_expr hindent e h.1 level 0 ((numberEnd_moreText (Or.inl rfl) _ hcs).ends _)
        (lexes_moreExprs hindent es h.2 level hcs hk))

theorem lexes_field (hindent : IsIndent indentStr) :
    ∀ (f : TableField N), fieldsLegible [f] → ∀ level {cs : List Char}
    {ts : List (Lexeme N)}, NumberEnd cs → Lexes cs ts →
    Lexes ((fieldToString indentStr level f).toList ++ cs) (fieldTokens f ts)
  | .tableKey key value, h, level, _, _, hcs, hk => by
    rw [fieldToString, fieldTokens]
    simp only [String.toList_append, List.append_assoc]
    have hvalue := lexes_expr hindent value h.2.1 level 0 (hcs.ends _) hk
    have hkey := lexes_expr hindent key h.1 level 0 ((numberEnd_cons rfl (by decide)).ends _)
      (lexes_closeBracket (lexes_space (lexes_assign hvalue)))
    exact lexes_bracketed (starts_expr indentStr key h.1 level 0) hkey
  | .tableKeyString key value, h, level, _, _, hcs, hk => by
    rw [fieldToString, fieldTokens]
    simp only [String.toList_append, List.append_assoc]
    have hvalue := lexes_expr hindent value h.2.1 level 0 (hcs.ends _) hk
    exact piece_named h.1 _ _ (numberEnd_space _) (lexes_space (lexes_assign hvalue))
  | .tableValue value, h, level, _, _, hcs, hk => by
    rw [fieldToString, fieldTokens]
    exact lexes_expr hindent value h.1 level 0 (hcs.ends _) hk

theorem lexes_fields (hindent : IsIndent indentStr) :
    ∀ (fs : List (TableField N)), fieldsLegible fs → ∀ {sep : String},
    IsSeparator sep → ∀ level {bs : String}, (∀ c ∈ bs.toList, isBlank c = true) →
    ∀ {cs : List Char} {ts : List (Lexeme N)}, NumberEnd cs → Lexes cs ts →
    Lexes ((sep.intercalate (fieldsToStrings indentStr level bs fs)).toList ++ cs)
      (fieldsTokens fs ts)
  | [], _, _, _, _, _, _, _, _, _, hk => by
    rw [fieldsToStrings, String.intercalate_nil]
    exact hk
  | f::fs, h, sep, hsep, level, bs, hbs, _, _, hcs, hk => by
    rw [fieldsToStrings, toList_intercalate_cons, String.toList_append, fieldsTokens]
    simp only [List.append_assoc]
    have hmore := lexes_moreFields hindent fs (fieldsLegible_cons h).2 hsep level hbs hcs hk
    exact lexes_blanks hbs (lexes_field hindent f (fieldsLegible_cons h).1 level
      (numberEnd_moreText hsep _ hcs) hmore)

theorem lexes_moreFields (hindent : IsIndent indentStr) :
    ∀ (fs : List (TableField N)), fieldsLegible fs → ∀ {sep : String},
    IsSeparator sep → ∀ level {bs : String}, (∀ c ∈ bs.toList, isBlank c = true) →
    ∀ {cs : List Char} {ts : List (Lexeme N)}, NumberEnd cs → Lexes cs ts →
    Lexes (moreText sep (fieldsToStrings indentStr level bs fs) ++ cs) (moreFieldsTokens fs ts)
  | [], _, _, _, _, _, _, _, _, _, hk => hk
  | f::fs, h, sep, hsep, level, bs, hbs, _, _, hcs, hk => by
    rw [fieldsToStrings, moreText, List.flatMap_cons, ← moreText, String.toList_append,
      moreFieldsTokens]
    simp only [List.append_assoc]
    have hmore := lexes_moreFields hindent fs (fieldsLegible_cons h).2 hsep level hbs hcs hk
    exact lexes_separator hsep (lexes_blanks hbs
      (lexes_field hindent f (fieldsLegible_cons h).1 level (numberEnd_moreText hsep _ hcs) hmore))

theorem lexes_stmt (hindent : IsIndent indentStr) :
    ∀ (s : Stmt N), s.Legible → ∀ level {cs : List Char}
    {ts : List (Lexeme N)}, Lexes cs ts →
    Lexes ((generateNode indentStr level s).toList ++ cs) (stmtTokens s ts)
  | .localStatement vars init, h, level, _, _, hk => by
    rw [generateNode, stmtTokens]
    have hvars := exprsLegible_of_named h.2.1
    have hline := lexes_newline hk
    split
    next hempty =>
      refine lexes_line indentStr hindent level ?_
      simp only [String.toList_append, List.append_assoc]
      exact lexes_keyword (by decide) rfl
        (lexes_exprs hindent vars hvars level (numberEnd_newline _) hline)
    next hempty =>
      refine lexes_line indentStr hindent level ?_
      simp only [String.toList_append, List.append_assoc]
      have hinit := lexes_exprs hindent init h.2.2 level (numberEnd_newline _) hline
      exact lexes_keyword (by decide) rfl (lexes_exprs hindent vars hvars level (numberEnd_space _)
        (lexes_space (lexes_assign hinit)))
  | .assignmentStatement vars init, h, level, _, _, hk => by
    rw [generateNode, stmtTokens]
    refine lexes_line indentStr hindent level ?_
    simp only [String.toList_append, List.append_assoc]
    have hinit := lexes_exprs hindent init h.2.2.2.2 level (numberEnd_newline _) (lexes_newline hk)
    exact lexes_exprs hindent vars h.2.2.1 level (numberEnd_space _)
      (lexes_space (lexes_assign hinit))
  | .localFunctionStatement identifier params isVararg body, h, level, _, _, hk => by
    rw [generateNode, stmtTokens]
    simp only [String.toList_append, List.append_assoc]
    have hbody := lexes_block hindent body h.2.2 (level + 1) (lexes_end indentStr hindent level hk)
    refine lexes_line indentStr hindent level ?_
    simp only [String.toList_append, List.append_assoc]
    have hparams := lexes_params h.2.1 isVararg (numberEnd_close _)
      (lexes_close (lexes_newline hbody))
    have hname := piece_named h.1 _ _ (numberEnd_cons rfl (by decide)) (lexes_open hparams)
    have hfunction := lexes_name (show IsWord "function".toList by decide)
      (numberEnd_space _).wordEnd (lexes_space hname)
    exact lexes_name (show IsWord "local".toList by decide) (numberEnd_space _).wordEnd
      (lexes_space hfunction)
  | .functionDeclaration name params isVararg body isMethod, h, level, _, _, hk => by
    rw [generateNode, stmtTokens]
    simp only [String.toList_append, List.append_assoc]
    have hbody := lexes_block hindent body h.2.2.2 (level + 1)
      (lexes_end indentStr hindent level hk)
    refine lexes_line indentStr hindent level ?_
    simp only [String.toList_append, List.append_assoc]
    have hparams := lexes_params h.2.2.1 isVararg (numberEnd_close _)
      (lexes_close (lexes_newline hbody))
    have hname := lexes_expr hindent name h.2.1 level 0 ((numberEnd_cons rfl (by decide)).ends _)
      (lexes_open hparams)
    exact lexes_keyword (by decide) rfl hname
  | .callStatement expression, h, level, _, _, hk => by
    rw [generateNode, stmtTokens]
    refine lexes_line indentStr hindent level ?_
    exact lexes_expr hindent expression h.2 level 0 ((numberEnd_newline _).ends _)
      (lexes_newline hk)
  | .ifStatement clauses none, h, level, _, _, hk => by
    rw [generateNode, stmtTokens]
    · simp only [String.toList_append, List.append_assoc]
      have hend := lexes_end indentStr hindent level hk
      exact lexes_clauses hindent clauses h.2.1 (by decide) rfl level hend
    all_goals exact fun _ _ h => by cases h
  | .ifStatement clauses (some []), h, level, _, _, hk => by
    rw [generateNode, stmtTokens]
    · simp only [String.toList_append, List.append_assoc]
      have hend := lexes_end indentStr hindent level hk
      exact lexes_clauses hindent clauses h.2.1 (by decide) rfl level hend
    all_goals exact fun _ _ h => by cases h
  | .ifStatement clauses (some (s::ss)), h, level, _, _, hk => by
    rw [generateNode, stmtTokens]
    simp only [String.toList_append, List.append_assoc]
    have hend := lexes_end indentStr hindent level hk
    have hbody := lexes_stmt hindent s h.2.2.1 (level + 1)
      (lexes_block hindent ss h.2.2.2.1 (level + 1) hend)
    exact lexes_clauses hindent clauses h.2.1 (by decide) rfl level
      (lexes_line indentStr hindent level (lexes_lastWord (by decide) hbody))
  | .whileStatement condition body, h, level, _, _, hk => by
    rw [generateNode, stmtTokens]
    simp only [String.toList_append, List.append_assoc]
    have hbody := lexes_block hindent body h.2 (level + 1) (lexes_end indentStr hindent level hk)
    refine lexes_line indentStr hindent level ?_
    simp only [String.toList_append, List.append_assoc]
    have hdo := lexes_name (show IsWord "do".toList by decide) (numberEnd_newline _).wordEnd
      (lexes_newline hbody)
    exact lexes_keyword (by decide) rfl
      (lexes_expr hindent condition h.1 level 0 ((numberEnd_space _).ends _) (lexes_space hdo))
  | .repeatStatement condition body, h, level, cs, ts, hk => by
    rw [generateNode, stmtTokens]
    simp only [String.toList_append, List.append_assoc]
    have hlast : Lexes (("until " ++ exprToString indentStr level condition 0).toList ++ '\n' :: cs)
        (.word "until" :: exprTokens condition 0 ts) := by
      rw [String.toList_append, List.append_assoc]
      exact lexes_keyword (by decide) rfl
        (lexes_expr hindent condition h.1 level 0 ((numberEnd_newline _).ends _) (lexes_newline hk))
    have hbody := lexes_block hindent body h.2 (level + 1)
      (lexes_line indentStr hindent level hlast)
    refine lexes_line indentStr hindent level ?_
    exact lexes_lastWord (by decide) hbody
  | .numericForStatement variableName start stop none body, h, level, _, _, hk => by
    rw [generateNode, stmtTokens]
    simp only [String.toList_append, List.append_assoc]
    obtain ⟨hname, hstart, hstop, -, hblock⟩ := h
    have hbody := lexes_block hindent body hblock (level + 1) (lexes_end indentStr hindent level hk)
    have hdo := lexes_space (lexes_lastWord (show IsWord "do".toList by decide) hbody)
    refine lexes_line indentStr hindent level ?_
    simp only [String.toList_append, List.append_assoc]
    have hlast := lexes_expr hindent stop hstop level 0 ((numberEnd_space _).ends _) hdo
    have hfirst := lexes_expr hindent start hstart level 0 ((numberEnd_comma _).ends _)
      (lexes_comma (lexes_space hlast))
    exact lexes_keyword (by decide) rfl
      (piece_named hname _ _ (numberEnd_space _) (lexes_space (lexes_assign hfirst)))
  | .numericForStatement variableName start stop (some step) body, h, level, _, _, hk => by
    rw [generateNode, stmtTokens]
    simp only [String.toList_append, List.append_assoc]
    obtain ⟨hname, hstart, hstop, hstep, hblock⟩ := h
    have hbody := lexes_block hindent body hblock (level + 1) (lexes_end indentStr hindent level hk)
    have hdo := lexes_space (lexes_lastWord (show IsWord "do".toList by decide) hbody)
    refine lexes_line indentStr hindent level ?_
    simp only [String.toList_append, List.append_assoc]
    have hlast := lexes_expr hindent step hstep level 0 ((numberEnd_space _).ends _) hdo
    have hsecond := lexes_expr hindent stop hstop level 0 ((numberEnd_comma _).ends _)
      (lexes_comma (lexes_space hlast))
    have hfirst := lexes_expr hindent start hstart level 0 ((numberEnd_comma _).ends _)
      (lexes_comma (lexes_space hsecond))
    exact lexes_keyword (by decide) rfl
      (piece_named hname _ _ (numberEnd_space _) (lexes_space (lexes_assign hfirst)))
  | .genericForStatement vars iterators body, h, level, _, _, hk => by
    rw [generateNode, stmtTokens]
    simp only [String.toList_append, List.append_assoc]
    obtain ⟨-, hvars, -, hiterators, hblock⟩ := h
    have hbody := lexes_block hindent body hblock (level + 1) (lexes_end indentStr hindent level hk)
    have hdo := lexes_space (lexes_lastWord (show IsWord "do".toList by decide) hbody)
    refine lexes_line indentStr hindent level ?_
    simp only [String.toList_append, List.append_assoc]
    have hlast := lexes_exprs hindent iterators hiterators level (numberEnd_space _) hdo
    have hin : Lexes ("in ".toList ++ _) (.word "in" :: _) := lexes_keyword (by decide) rfl hlast
    exact lexes_keyword (by decide) rfl
      (lexes_params hvars false (numberEnd_space _) (lexes_space hin))
  | .doStatement body, h, level, _, _, hk => by
    rw [generateNode, stmtTokens]
    simp only [String.toList_append, List.append_assoc]
    have hbody := lexes_block hindent body h (level + 1) (lexes_end indentStr hindent level hk)
    refine lexes_line indentStr hindent level ?_
    exact lexes_lastWord (by decide) (hbody)
  | .returnStatement args, h, level, _, _, hk => by
    rw [generateNode, stmtTokens]
    have hline := lexes_newline hk
    split
    next hempty =>
      rw [List.isEmpty_iff.mp hempty]
      refine lexes_line indentStr hindent level ?_
      exact lexes_lastWord (by decide) hk
    next =>
      refine lexes_line indentStr hindent level ?_
      simp only [String.toList_append, List.append_assoc]
      exact lexes_keyword (by decide) rfl
        (lexes_exprs hindent args h level (numberEnd_newline _) hline)
  | .breakStatement, _, level, _, _, hk => by
    rw [generateNode, stmtTokens]
    refine lexes_line indentStr hindent level ?_
    exact lexes_lastWord (by decide) (hk)
  | .continueStatement, _, level, _, _, hk => by
    rw [generateNode, stmtTokens]
    refine lexes_line indentStr hindent level ?_
    exact lexes_lastWord (by decide) (hk)
  | .emptyStatement, _, _, _, _, hk => by
    rw [generateNode, stmtTokens]
    exact hk

theorem lexes_block (hindent : IsIndent indentStr) :
    ∀ (ss : List (Stmt N)), blockLegible ss → ∀ level {cs : List Char}
    {ts : List (Lexeme N)}, Lexes cs ts →
    Lexes ((generateBlock indentStr level ss).toList ++ cs) (blockTokens ss ts)
  | [], _, _, _, _, hk => hk
  | s::ss, h, level, _, _, hk => by
    rw [generateBlock, String.toList_append, List.append_assoc, blockTokens]
    exact lexes_stmt hindent s h.1 level (lexes_block hindent ss h.2.1 level hk)

theorem lexes_clauses (hindent : IsIndent indentStr) :
    ∀ (clauses : List (IfClause N)), clausesLegible clauses →
    ∀ {w text : String}, IsWord w.toList → text.toList = w.toList ++ [' '] → ∀ level
    {cs : List Char} {ts : List (Lexeme N)}, Lexes cs ts →
    Lexes ((generateClauses indentStr level text clauses).toList ++ cs) (clausesTokens w clauses ts)
  | [], _, _, _, _, _, _, _, _, hk => hk
  | .mk condition body :: clauses, h, w, text, hw, htext, level, _, _, hk => by
    rw [generateClauses, clausesTokens]
    simp only [String.toList_append, List.append_assoc]
    have hmore := lexes_clauses hindent clauses h.2.2 (show IsWord "elseif".toList by decide)
      (show "elseif ".toList = _ from rfl) level hk
    have hbody := lexes_block hindent body h.2.1 (level + 1) hmore
    refine lexes_line indentStr hindent level ?_
    simp only [String.toList_append, List.append_assoc]
    have hthen := lexes_space (lexes_lastWord (show IsWord "then".toList by decide) hbody)
    exact lexes_keyword hw htext
      (lexes_expr hindent condition h.1 level 0 ((numberEnd_space _).ends _) hthen)

end

end
end LuaRecovery.Lua
