import LuaRecovery.Lua.Legibility
import LuaRecovery.Lua.ParserRuns

/-!
# The first tokens of a text

What the text of an expression or of a statement starts with, as far as the
parser looks.
-/

set_option autoImplicit false

namespace LuaRecovery.Lua
open LuaGenerator Spelling Lua.Parser

section
variable {N : Type}

def exprStarts : List TokenType :=
  [.ident, .number, .string, .trueWord, .falseWord, .nilWord, .dotDotDot, .lbrace, .functionWord,
    .minus, .notWord, .hash, .lparen]

theorem word_of_name {name : String} (h : keyword name = none) :
    (.word name : Lexeme N) = ⟨.ident, .text name, name⟩ := by
  unfold Lexeme.word
  rw [h]

/-- An expression starts as one, and with a parenthesis only where it is said to. -/
def StartsAs (isParen : Bool) (ts : List (Lexeme N)) : Prop :=
  nextType ts ∈ exprStarts ∧ (nextType ts = .lparen → isParen = true)

theorem startsAs_cons {t : Lexeme N}
    (h : decide (t.type ∈ exprStarts ∧ t.type ≠ .lparen) = true) (k : List (Lexeme N)) :
    StartsAs false (t::k) := by
  have hstart := of_decide_eq_true h
  exact ⟨hstart.1, fun hparen => absurd hparen hstart.2⟩

theorem startsAs_open (k : List (Lexeme N)) : StartsAs true (openParen :: k) :=
  ⟨show TokenType.lparen ∈ exprStarts by decide, fun _ => rfl⟩

theorem startsAs_enclosed (low isParen : Bool) {f : List (Lexeme N) → List (Lexeme N)}
    (k : List (Lexeme N)) (h : ∀ k, StartsAs isParen (f k)) :
    StartsAs (low || isParen) (enclosed low k f) := by
  cases low with
  | false => exact h k
  | true => exact startsAs_open _

theorem startsAs_name {name : String} (h : keyword name = none) (k : List (Lexeme N)) :
    StartsAs false (.word name :: k) := by
  rw [word_of_name h]
  exact startsAs_cons rfl k

variable [Numerals N]

theorem startsAs_atom {text : List Char} (htext : IsAtom text) (k : List (Lexeme N)) :
    StartsAs false (atomToken text :: k) := by
  unfold atomToken
  rcases htext with hnumeral | ⟨hword, hkeyword⟩
  · rw [startsName_numeral hnumeral, if_neg Bool.false_ne_true]
    exact startsAs_cons rfl k
  · rw [String.toList_ofList] at hword
    have hstart : startsName text = true := hword.1
    rw [hstart, if_pos rfl]
    exact startsAs_name hkeyword k

theorem startsAs_expr : ∀ (e : Expr N), e.Legible → ∀ p k,
    StartsAs (startsParen e p) (exprTokens e p k)
  | .identifier name, h, p, k => by
    rw [exprTokens]
    exact startsAs_enclosed _ false k fun k => startsAs_name h.2 k
  | .numericLiteral value raw, h, p, k => by
    rw [exprTokens]
    refine startsAs_enclosed _ false k fun k => ?_
    rw [Expr.Legible] at h
    show StartsAs false (numberTokens (numericText value raw).toList k)
    split at h
    next htext =>
      rw [htext]
      exact startsAs_cons rfl _
    next htext =>
      rw [numberTokens_unsigned htext]
      exact startsAs_atom h k
  | .stringLiteral value, _, p, k => by
    rw [exprTokens]
    exact startsAs_enclosed _ false k fun k => startsAs_cons rfl _
  | .booleanLiteral value, _, p, k => by
    rw [exprTokens]
    refine startsAs_enclosed _ false k fun k => ?_
    cases value <;> exact startsAs_cons rfl _
  | .nilLiteral, _, p, k => by
    rw [exprTokens]
    exact startsAs_enclosed _ false k fun k => startsAs_cons rfl _
  | .varargLiteral inParens, _, p, k => by
    rw [exprTokens]
    refine startsAs_enclosed _ inParens k fun k => ?_
    cases inParens with
    | false => exact startsAs_cons rfl _
    | true => exact startsAs_open _
  | .unaryExpression operator argument, h, p, k => by
    rw [exprTokens]
    refine startsAs_enclosed _ false k fun k => ?_
    have hclash : ¬(operator = .minus ∧ startsMinus argument 70 = true) := by
      rintro ⟨hminus, hstart⟩
      rw [h.1 hminus] at hstart
      cases hstart
    dsimp only
    rw [if_neg hclash]
    cases operator <;> exact startsAs_cons rfl _
  | .binaryExpression operator left right, h, p, k => by
    rw [exprTokens, startsParen]
    exact startsAs_enclosed _ _ k fun k => startsAs_expr left h.1 _ _
  | .logicalExpression operator left right, h, p, k => by
    rw [exprTokens, startsParen]
    exact startsAs_enclosed _ _ k fun k => startsAs_expr left h.1 _ _
  | .callExpression base args inParens, h, p, k => by
    rw [exprTokens, startsParen]
    exact startsAs_enclosed _ _ k fun k =>
      startsAs_enclosed _ _ _ fun k => startsAs_expr base h.2.1 _ _
  | .methodCallExpression base method args inParens, h, p, k => by
    rw [exprTokens, startsParen]
    exact startsAs_enclosed _ _ k fun k =>
      startsAs_enclosed _ _ _ fun k => startsAs_expr base h.2.1 _ _
  | .memberExpression base property, h, p, k => by
    rw [exprTokens, startsParen]
    exact startsAs_enclosed _ _ k fun k =>
      startsAs_enclosed _ _ _ fun k => startsAs_expr base h.2.1 _ _
  | .indexExpression base index, h, p, k => by
    rw [exprTokens, startsParen]
    exact startsAs_enclosed _ _ k fun k =>
      startsAs_enclosed _ _ _ fun k => startsAs_expr base h.2.1 _ _
  | .functionExpression params isVararg body, _, p, k => by
    rw [exprTokens]
    exact startsAs_enclosed _ false k fun k => startsAs_cons rfl _
  | .tableConstructor fields, _, p, k => by
    rw [exprTokens]
    exact startsAs_enclosed _ false k fun k => startsAs_cons rfl _

/-- A name that starts the tokens is not assigned to. -/
def NotAssigned (ts : List (Lexeme N)) : Prop := nextType ts = .ident → nextType ts.tail ≠ .assign

omit [Numerals N] in
theorem notAssigned_enclosed (low : Bool) {f : List (Lexeme N) → List (Lexeme N)}
    {k : List (Lexeme N)} (hk : nextType k ≠ .assign)
    (h : ∀ k, nextType k ≠ .assign → NotAssigned (f k)) : NotAssigned (enclosed low k f) := by
  cases low with
  | false => exact h k hk
  | true => exact fun h => by cases h

theorem notAssigned_expr : ∀ (e : Expr N), e.Legible → ∀ p k, nextType k ≠ .assign →
    NotAssigned (exprTokens e p k)
  | .identifier name, _, p, k, hk => by
    rw [exprTokens]
    exact notAssigned_enclosed _ hk fun k hk _ => hk
  | .numericLiteral value raw, _, p, k, hk => by
    rw [exprTokens]
    refine notAssigned_enclosed _ hk fun k hk hident => ?_
    by_cases hminus : ∃ text, (numericText value raw).toList = '-'::text
    · obtain ⟨text, htext⟩ := hminus
      change nextType (numberTokens (numericText value raw).toList k) = .ident at hident
      rw [htext] at hident
      cases hident
    · change nextType (numberTokens (numericText value raw).toList k).tail ≠ .assign
      rw [numberTokens_unsigned fun text htext => hminus ⟨text, htext⟩]
      exact hk
  | .stringLiteral value, _, p, k, hk => by
    rw [exprTokens]
    exact notAssigned_enclosed _ hk fun k hk h => by cases h
  | .booleanLiteral value, _, p, k, hk => by
    rw [exprTokens]
    exact notAssigned_enclosed _ hk fun k hk h => hk
  | .nilLiteral, _, p, k, hk => by
    rw [exprTokens]
    exact notAssigned_enclosed _ hk fun k hk h => by cases h
  | .varargLiteral inParens, _, p, k, hk => by
    rw [exprTokens]
    exact notAssigned_enclosed _ hk fun k hk => notAssigned_enclosed _ hk fun k hk h => by cases h
  | .unaryExpression operator argument, h, p, k, hk => by
    rw [exprTokens]
    refine notAssigned_enclosed _ hk fun k hk hident => ?_
    dsimp only at hident ⊢
    split at hident
    next => cases hident
    next => cases operator <;> cases hident
  | .binaryExpression operator left right, h, p, k, hk => by
    rw [exprTokens]
    refine notAssigned_enclosed _ hk fun k hk => notAssigned_expr left h.1 _ _ ?_
    cases operator <;> exact fun h => by cases h
  | .logicalExpression operator left right, h, p, k, hk => by
    rw [exprTokens]
    refine notAssigned_enclosed _ hk fun k hk => notAssigned_expr left h.1 _ _ ?_
    cases operator <;> exact fun h => by cases h
  | .callExpression base args inParens, h, p, k, hk => by
    rw [exprTokens]
    exact notAssigned_enclosed _ hk fun k hk =>
      notAssigned_enclosed _ (fun h => by cases h) fun k => notAssigned_expr base h.2.1 _ k
  | .methodCallExpression base method args inParens, h, p, k, hk => by
    rw [exprTokens]
    exact notAssigned_enclosed _ hk fun k hk =>
      notAssigned_enclosed _ (fun h => by cases h) fun k => notAssigned_expr base h.2.1 _ k
  | .memberExpression base property, h, p, k, hk => by
    rw [exprTokens]
    exact notAssigned_enclosed _ hk fun k hk =>
      notAssigned_enclosed _ (fun h => by cases h) fun k => notAssigned_expr base h.2.1 _ k
  | .indexExpression base index, h, p, k, hk => by
    rw [exprTokens]
    exact notAssigned_enclosed _ hk fun k hk =>
      notAssigned_enclosed _ (fun h => by cases h) fun k => notAssigned_expr base h.2.1 _ k
  | .functionExpression params isVararg body, _, p, k, hk => by
    rw [exprTokens]
    exact notAssigned_enclosed _ hk fun k hk h => by cases h
  | .tableConstructor fields, _, p, k, hk => by
    rw [exprTokens]
    exact notAssigned_enclosed _ hk fun k hk h => by cases h

theorem binaryPrecedence_le (operator : BinaryOperator) : binaryPrecedence operator ≤ 8 := by
  cases operator <;> decide

theorem logicalPrecedence_le (operator : LogicalOperator) : logicalPrecedence operator ≤ 2 := by
  cases operator <;> decide

/-- The tokens of an expression are those that it has alone, in parentheses where it binds less
than it must. -/
theorem exprTokens_eq (e : Expr N) (p : ℕ) (k : List (Lexeme N)) :
    exprTokens e p k =
      if 10 * getPrecedence e < p then openParen :: exprTokens e 0 (closeParen :: k)
      else exprTokens e 0 k := by
  rw [exprTokens.eq_def e p, exprTokens.eq_def e 0, exprTokens.eq_def e 0]
  by_cases hlow : 10 * getPrecedence e < p
  · rw [if_pos hlow, decide_eq_true hlow]
    rfl
  · rw [if_neg hlow, decide_eq_false hlow]
    rfl

/-- What a base or a target starts with. -/
def prefixStarts : List TokenType := [.ident, .lparen]

theorem nextType_low {e : Expr N} (h : 10 * getPrecedence e < 990) (k : List (Lexeme N)) :
    nextType (exprTokens e 990 k) ∈ prefixStarts := by
  rw [exprTokens_eq, if_pos h]
  exact List.mem_cons_of_mem _ List.mem_cons_self

theorem nextType_base : ∀ (e : Expr N), e.Legible → e.IsBase → ∀ k,
    nextType (enclosed (isFunction e) k (exprTokens e 990)) ∈ prefixStarts
  | .identifier name, h, _, k => by
    show nextType (exprTokens _ 990 k) ∈ prefixStarts
    rw [exprTokens]
    show (Lexeme.word name : Lexeme N).type ∈ prefixStarts
    rw [word_of_name h.2]
    exact List.mem_cons_self
  | .varargLiteral true, _, _, k => by
    show nextType (exprTokens _ 990 k) ∈ prefixStarts
    rw [exprTokens]
    exact List.mem_cons_of_mem _ List.mem_cons_self
  | .varargLiteral false, _, h, _ => by cases h
  | .numericLiteral _ _, _, h, _ => h.elim
  | .stringLiteral _, _, h, _ => h.elim
  | .booleanLiteral _, _, h, _ => h.elim
  | .nilLiteral, _, h, _ => h.elim
  | .tableConstructor _, _, h, _ => h.elim
  | .functionExpression _ _ _, _, _, _ => List.mem_cons_of_mem _ List.mem_cons_self
  | .unaryExpression operator argument, _, _, k =>
    nextType_low (e := .unaryExpression operator argument) (by simp [getPrecedence]) k
  | .binaryExpression operator left right, _, _, k => by
    have hle := binaryPrecedence_le operator
    exact nextType_low (e := .binaryExpression operator left right)
      (by simp only [getPrecedence]; omega) k
  | .logicalExpression operator left right, _, _, k => by
    have hle := logicalPrecedence_le operator
    exact nextType_low (e := .logicalExpression operator left right)
      (by simp only [getPrecedence]; omega) k
  | .callExpression base args _, h, _, k => by
    show nextType (exprTokens _ 990 k) ∈ prefixStarts
    rw [exprTokens]
    exact nextType_base base h.2.1 h.1 _
  | .methodCallExpression base method args _, h, _, k => by
    show nextType (exprTokens _ 990 k) ∈ prefixStarts
    rw [exprTokens]
    exact nextType_base base h.2.1 h.1 _
  | .memberExpression base property, h, _, k => by
    show nextType (exprTokens _ 990 k) ∈ prefixStarts
    rw [exprTokens]
    exact nextType_base base h.2.1 h.1 _
  | .indexExpression base index, h, _, k => by
    show nextType (exprTokens _ 990 k) ∈ prefixStarts
    rw [exprTokens]
    exact nextType_base base h.2.1 h.1 _

end
end LuaRecovery.Lua
