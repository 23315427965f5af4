import LuaRecovery.Lua.Spelling

/-!
# Texts that can be read

What a tree must be for the parser to find it again in its text: names are
names, a suffix has something before it that a suffix can follow, no two
minuses meet, and no statement runs into the next one.
-/

set_option autoImplicit false

namespace LuaRecovery.Lua
open LuaGenerator Spelling

/-- A word of the lexer, of whatever type. -/
def IsWord (name : List Char) : Prop :=
  name.head?.any Lexer.isNameStart = true ∧ ∀ c ∈ name, Lexer.isNamePart c = true

instance (name : List Char) : Decidable (IsWord name) :=
  @instDecidableAnd _ _ _ (List.decidableBAll _ name)

/-- A word that is neither a keyword nor a property that every object has. -/
def IsName (name : String) : Prop := IsWord name.toList ∧ keyword name = none

/-- A text that the lexer reads as one number. -/
def IsNumeral (raw : List Char) : Prop :=
  (∃ c cs, raw = c::cs ∧ (c.isDigit = true ∨ (c = '.' ∧ cs.head?.any Char.isDigit = true))) ∧
    Lexer.readNumber raw = (raw, [])

theorem not_isDigit_of_start {c : Char} (hc : Lexer.isNameStart c = true) : c.isDigit = false := by
  rw [Bool.eq_false_iff]
  intro hdigit
  simp only [Lexer.isNameStart, Lexer.isAlpha_eq, Char.isDigit, Bool.or_eq_true, Bool.and_eq_true,
    decide_eq_true_eq, UInt32.le_iff_toNat_le, ge_iff_le] at hc hdigit
  rcases hc with (hc | hc) | rfl
  · exact absurd (hc.1.trans hdigit.2) (by decide)
  · exact absurd (hc.1.trans hdigit.2) (by decide)
  · exact absurd hdigit.2 (by decide)

theorem startsName_numeral {text : List Char} (h : IsNumeral text) : startsName text = false := by
  obtain ⟨⟨c, ds, rfl, hc⟩, -⟩ := h
  rw [startsName, Bool.eq_false_iff]
  intro hstart
  rcases hc with hdigit | ⟨rfl, -⟩
  · rw [not_isDigit_of_start hstart] at hdigit
    cases hdigit
  · cases hstart

def IsAtom (text : List Char) : Prop := IsNumeral text ∨ IsName (String.ofList text)

namespace Expr
variable {N : Type}

def IsNamed (node : Expr N) : Prop := ∃ name, node = .identifier name ∧ IsName name

/-- Nodes whose text, before a suffix, can be followed by one. -/
def IsBase : Expr N → Prop
  | .numericLiteral _ _ => False
  | .stringLiteral _ => False
  | .booleanLiteral _ => False
  | .nilLiteral => False
  | .varargLiteral inParens => inParens = true
  | .tableConstructor _ => False
  | _ => True

/-- Nodes whose text, at the start of a statement, can be assigned to. -/
def IsTarget : Expr N → Prop
  | .identifier _ => True
  | .varargLiteral inParens => inParens = true
  | .callExpression _ _ _ => True
  | .methodCallExpression _ _ _ _ => True
  | .memberExpression _ _ => True
  | .indexExpression _ _ => True
  | _ => False

def IsCall : Expr N → Prop
  | .callExpression _ _ _ => True
  | .methodCallExpression _ _ _ _ => True
  | _ => False

/-- Names with dots between them. -/
def IsFunctionName : Expr N → Prop
  | .identifier _ => True
  | .memberExpression base _ => base.IsFunctionName
  | _ => False

end Expr

section
variable {N : Type} [Numerals N]

/-- Whether a number's text ends in a name, as that of an infinity does. -/
def numberEndsOpen (text : List Char) : Bool :=
  match text with
  | '-' :: text => startsName text
  | text => startsName text

/-- Whether a suffix could follow the text. -/
def endsOpen (node : Expr N) (parentPrecedence : ℕ) : Bool :=
  decide (10 * getPrecedence node < parentPrecedence) ||
    match node with
    | .identifier _ => true
    | .numericLiteral value raw => numberEndsOpen (numericText value raw).toList
    | .varargLiteral inParens => inParens
    | .unaryExpression _ argument => endsOpen argument 70
    | .binaryExpression operator _ right => endsOpen right (operandPrecedences operator).2
    | .logicalExpression operator _ right => endsOpen right (10 * logicalPrecedence operator + 1)
    | .callExpression _ _ _ => true
    | .methodCallExpression _ _ _ _ => true
    | .memberExpression _ _ => true
    | .indexExpression _ _ => true
    | _ => false

def startsParen (node : Expr N) (parentPrecedence : ℕ) : Bool :=
  decide (10 * getPrecedence node < parentPrecedence) ||
    match node with
    | .varargLiteral inParens => inParens
    | .binaryExpression operator left _ => startsParen left (operandPrecedences operator).1
    | .logicalExpression operator left _ => startsParen left (10 * logicalPrecedence operator)
    | .callExpression base _ _ => isFunction base || startsParen base 990
    | .methodCallExpression base _ _ _ => isFunction base || startsParen base 990
    | .memberExpression base _ => isFunction base || startsParen base 990
    | .indexExpression base _ => isFunction base || startsParen base 990
    | _ => false

def lastEndsOpen : List (Expr N) → Bool
  | [] => false
  | [e] => endsOpen e 0
  | _::es => lastEndsOpen es

namespace Stmt

def IsPrinted : Stmt N → Bool
  | .emptyStatement => false
  | _ => true

def endsOpen : Stmt N → Bool
  | .localStatement _ init => lastEndsOpen init
  | .assignmentStatement _ init => lastEndsOpen init
  | .callStatement expression => Lua.endsOpen expression 0
  | .repeatStatement condition _ => Lua.endsOpen condition 0
  | .returnStatement args => lastEndsOpen args
  | _ => false

def startsParen : Stmt N → Bool
  | .assignmentStatement vars _ => vars.head?.any (Lua.startsParen · 0)
  | .callStatement expression => Lua.startsParen expression 0
  | _ => false

def IsBareReturn : Stmt N → Bool
  | .returnStatement args => args.isEmpty
  | _ => false

/-- The first statement does not go on in the second one. -/
def Apart (s t : Stmt N) : Prop :=
  s.IsBareReturn = false ∧ (s.endsOpen = true → t.startsParen = false)

end Stmt

mutual

def Expr.Legible : Expr N → Prop
  | .identifier name => IsName name
  | .numericLiteral value raw =>
      match (numericText value raw).toList with
      | '-' :: text => IsAtom text
      | text => IsAtom text
  | .stringLiteral _ => True
  | .booleanLiteral _ => True
  | .nilLiteral => True
  | .varargLiteral _ => True
  | .unaryExpression operator argument =>
      (operator = .minus → startsMinus argument 70 = false) ∧ argument.Legible
  | .binaryExpression _ left right => left.Legible ∧ right.Legible
  | .logicalExpression _ left right => left.Legible ∧ right.Legible
  | .callExpression base args _ => base.IsBase ∧ base.Legible ∧ exprsLegible args
  | .methodCallExpression base method args _ =>
      base.IsBase ∧ base.Legible ∧ method.IsNamed ∧ exprsLegible args
  | .memberExpression base property => base.IsBase ∧ base.Legible ∧ property.IsNamed
  | .indexExpression base index => base.IsBase ∧ base.Legible ∧ index.Legible
  | .functionExpression params _ body => (∀ p ∈ params, p.IsNamed) ∧ blockLegible body
  | .tableConstructor fields => fieldsLegible fields

def exprsLegible : List (Expr N) → Prop
  | [] => True
  | e::es => e.Legible ∧ exprsLegible es

def fieldsLegible : List (TableField N) → Prop
  | [] => True
  | .tableKey key value :: fs => key.Legible ∧ value.Legible ∧ fieldsLegible fs
  | .tableKeyString key value :: fs => key.IsNamed ∧ value.Legible ∧ fieldsLegible fs
  | .tableValue value :: fs => value.Legible ∧ fieldsLegible fs

def Stmt.Legible : Stmt N → Prop
  | .localStatement vars init => vars ≠ [] ∧ (∀ v ∈ vars, v.IsNamed) ∧ exprsLegible init
  | .assignmentStatement vars init =>
      vars ≠ [] ∧ (∀ v ∈ vars, v.IsTarget) ∧ exprsLegible vars ∧ init ≠ [] ∧ exprsLegible init
  | .localFunctionStatement identifier params _ body =>
      identifier.IsNamed ∧ (∀ p ∈ params, p.IsNamed) ∧ blockLegible body
  | .functionDeclaration name params _ body _ =>
      name.IsFunctionName ∧ name.Legible ∧ (∀ p ∈ params, p.IsNamed) ∧ blockLegible body
  | .callStatement expression => expression.IsCall ∧ expression.Legible
  | .ifStatement clauses elseBody =>
      clauses ≠ [] ∧ clausesLegible clauses ∧ (match elseBody with
        | none => True
        | some body => blockLegible body)
  | .whileStatement condition body => condition.Legible ∧ blockLegible body
  | .repeatStatement condition body => condition.Legible ∧ blockLegible body
  | .numericForStatement variableName start stop step body =>
      variableName.IsNamed ∧ start.Legible ∧ stop.Legible ∧ (match step with
        | none => True
        | some step => step.Legible) ∧ blockLegible body
  | .genericForStatement vars iterators body =>
      vars ≠ [] ∧ (∀ v ∈ vars, v.IsNamed) ∧ iterators ≠ [] ∧ exprsLegible iterators ∧
        blockLegible body
  | .doStatement body => blockLegible body
  | .returnStatement args => exprsLegible args
  | .breakStatement => True
  | .continueStatement => True
  | .emptyStatement => True

def blockLegible : List (Stmt N) → Prop
  | [] => True
  | s::ss =>
      s.Legible ∧ blockLegible ss ∧
        (s.IsPrinted = true → ∀ t ∈ (ss.filter Stmt.IsPrinted).head?, s.Apart t)

def clausesLegible : List (IfClause N) → Prop
  | [] => True
  | .mk condition body :: clauses =>
      condition.Legible ∧ blockLegible body ∧ clausesLegible clauses

end
end
end LuaRecovery.Lua
