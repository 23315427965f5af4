import LuaRecovery.Lua.Generator
import LuaRecovery.Lua.Parser

/-!
# The tokens of the generated text

What the lexer is to make of a text of the generator, put before the tokens
that follow. A minus before a text that starts with one begins a comment, and
nothing is left of the line.
-/

set_option autoImplicit false

namespace LuaRecovery.Lua
namespace Spelling
open LuaGenerator
variable {N : Type}

def unaryToken : UnaryOperator → Lexeme N
  | .minus => .punctuation .minus "-"
  | .not => .word "not"
  | .length => .punctuation .hash "#"

def binaryType : BinaryOperator → TokenType
  | .add => .plus
  | .sub => .minus
  | .mul => .star
  | .div => .slash
  | .mod => .percent
  | .pow => .caret
  | .concat => .dotDot
  | .lt => .lt
  | .le => .ltEq
  | .gt => .gt
  | .ge => .gtEq
  | .eq => .eqEq
  | .ne => .tildeEq

def binaryToken (operator : BinaryOperator) : Lexeme N :=
  .punctuation (binaryType operator) (binaryText operator)

def logicalToken (operator : LogicalOperator) : Lexeme N := .word (logicalText operator)

def openParen : Lexeme N := .punctuation .lparen "("
def closeParen : Lexeme N := .punctuation .rparen ")"
def comma : Lexeme N := .punctuation .comma ","
def assign : Lexeme N := .punctuation .assign "="
def dots : Lexeme N := .punctuation .dotDotDot "..."

def startsName (text : List Char) : Bool := text.head?.any Lexer.isNameStart

/-- What precedes the tokens that follow in parentheses, where there are some. -/
def enclosed (low : Bool) (k : List (Lexeme N)) (f : List (Lexeme N) → List (Lexeme N)) :
    List (Lexeme N) :=
  if low then openParen :: f (closeParen :: k) else f k

def separated (ts : List (Lexeme N)) (k : List (Lexeme N)) : List (Lexeme N) :=
  match ts with
  | [] => k
  | t::ts => t :: (ts.flatMap fun t => [comma, t]) ++ k

def paramsTokens (params : List (Expr N)) (isVararg : Bool) (k : List (Lexeme N)) :
    List (Lexeme N) :=
  separated (params.map (fun p => .word (p.name?.getD "")) ++ if isVararg then [dots] else []) k

section
variable [Numerals N]

def atomToken (text : List Char) : Lexeme N :=
  if startsName text then .word (String.ofList text) else .numeral text

/-- A number that is written with a sign is two tokens. -/
def numberTokens (text : List Char) (k : List (Lexeme N)) : List (Lexeme N) :=
  match text with
  | '-' :: text => .punctuation .minus "-" :: atomToken text :: k
  | text => atomToken text :: k

theorem numberTokens_unsigned {text : List Char} {k : List (Lexeme N)}
    (h : ∀ ds, text = '-'::ds → False) : numberTokens text k = atomToken text :: k := by
  unfold numberTokens
  split
  next => exact (h _ rfl).elim
  next => rfl

def startsMinus (node : Expr N) (parentPrecedence : ℕ) : Bool :=
  !(decide (10 * getPrecedence node < parentPrecedence)) &&
    match node with
    | .numericLiteral value raw => (numericText value raw).toList.head? = some '-'
    | .unaryExpression operator _ => operator = .minus
    | .binaryExpression operator left _ => startsMinus left (operandPrecedences operator).1
    | .logicalExpression operator left _ => startsMinus left (10 * logicalPrecedence operator)
    | .callExpression base _ _ => startsMinus base 990
    | .methodCallExpression base _ _ _ => startsMinus base 990
    | .memberExpression base _ => startsMinus base 990
    | .indexExpression base _ => startsMinus base 990
    | _ => false

mutual

def exprTokens (node : Expr N) (parentPrecedence : ℕ) (k : List (Lexeme N)) : List (Lexeme N) :=
  enclosed (10 * getPrecedence node < parentPrecedence) k fun k =>
    match node with
    | .identifier name => .word name :: k
    | .numericLiteral value raw => numberTokens (numericText value raw).toList k
    | .stringLiteral value => .quoted (ByteString.toLuaLiteral value '"') :: k
    | .booleanLiteral value => .word (if value then "true" else "false") :: k
    | .nilLiteral => .word "nil" :: k
    | .varargLiteral inParens => enclosed inParens k fun k => dots :: k
    | .unaryExpression operator argument =>
        if operator = .minus ∧ startsMinus argument 70 then []
        else unaryToken operator :: exprTokens argument 70 k
    | .binaryExpression operator left right =>
        exprTokens left (operandPrecedences operator).1
          (binaryToken operator :: exprTokens right (operandPrecedences operator).2 k)
    | .logicalExpression operator left right =>
        exprTokens left (10 * logicalPrecedence operator)
          (logicalToken operator :: exprTokens right (10 * logicalPrecedence operator + 1) k)
    | .callExpression base args _ =>
        enclosed (isFunction base) (openParen :: exprsTokens args (closeParen :: k))
          (exprTokens base 990)
    | .methodCallExpression base method args _ =>
        enclosed (isFunction base)
          (.punctuation .colon ":" :: .word (nameText method) :: openParen ::
            exprsTokens args (closeParen :: k))
          (exprTokens base 990)
    | .memberExpression base property =>
        enclosed (isFunction base) (.punctuation .dot "." :: .word (nameText property) :: k)
          (exprTokens base 990)
    | .indexExpression base index =>
        enclosed (isFunction base)
          (.punctuation .lbracket "[" :: exprTokens index 0 (.punctuation .rbracket "]" :: k))
          (exprTokens base 990)
    | .functionExpression params isVararg body =>
        .word "function" :: openParen ::
          paramsTokens params isVararg (closeParen :: blockTokens body (.word "end" :: k))
    | .tableConstructor fields =>
        .punctuation .lbrace "\x7b" :: fieldsTokens fields (.punctuation .rbrace "\x7d" :: k)

def exprsTokens : List (Expr N) → List (Lexeme N) → List (Lexeme N)
  | [], k => k
  | e::es, k => exprTokens e 0 (moreExprsTokens es k)

def moreExprsTokens : List (Expr N) → List (Lexeme N) → List (Lexeme N)
  | [], k => k
  | e::es, k => comma :: exprTokens e 0 (moreExprsTokens es k)

def fieldTokens : TableField N → List (Lexeme N) → List (Lexeme N)
  | .tableKey key value, k =>
      .punctuation .lbracket "[" :: exprTokens key 0
        (.punctuation .rbracket "]" :: assign :: exprTokens value 0 k)
  | .tableKeyString key value, k => .word (nameText key) :: assign :: exprTokens value 0 k
  | .tableValue value, k => exprTokens value 0 k

def fieldsTokens : List (TableField N) → List (Lexeme N) → List (Lexeme N)
  | [], k => k
  | f::fs, k => fieldTokens f (moreFieldsTokens fs k)

def moreFieldsTokens : List (TableField N) → List (Lexeme N) → List (Lexeme N)
  | [], k => k
  | f::fs, k => comma :: fieldTokens f (moreFieldsTokens fs k)

def stmtTokens (node : Stmt N) (k : List (Lexeme N)) : List (Lexeme N) :=
  match node with
  | .localStatement vars init =>
      .word "local" :: exprsTokens vars
        (if init.isEmpty then k else assign :: exprsTokens init k)
  | .assignmentStatement vars init => exprsTokens vars (assign :: exprsTokens init k)
  | .localFunctionStatement identifier params isVararg body =>
      .word "local" :: .word "function" :: .word (nameText identifier) :: openParen ::
        paramsTokens params isVararg (closeParen :: blockTokens body (.word "end" :: k))
  | .functionDeclaration name params isVararg body _ =>
      .word "function" :: exprTokens name 0
        (openParen :: paramsTokens params isVararg
          (closeParen :: blockTokens body (.word "end" :: k)))
  | .callStatement expression => exprTokens expression 0 k
  | .ifStatement clauses elseBody =>
      clausesTokens "if" clauses (match elseBody with
        | some (s::ss) => .word "else" :: stmtTokens s (blockTokens ss (.word "end" :: k))
        | _ => .word "end" :: k)
  | .whileStatement condition body =>
      .word "while" :: exprTokens condition 0
        (.word "do" :: blockTokens body (.word "end" :: k))
  | .repeatStatement condition body =>
      .word "repeat" :: blockTokens body (.word "until" :: exprTokens condition 0 k)
  | .numericForStatement variableName start stop step body =>
      .word "for" :: .word (nameText variableName) :: assign :: exprTokens start 0
        (comma :: exprTokens stop 0 (match step with
          | some step =>
              comma :: exprTokens step 0 (.word "do" :: blockTokens body (.word "end" :: k))
          | none => .word "do" :: blockTokens body (.word "end" :: k)))
  | .genericForStatement vars iterators body =>
      .word "for" :: paramsTokens vars false
        (.word "in" :: exprsTokens iterators (.word "do" :: blockTokens body (.word "end" :: k)))
  | .doStatement body => .word "do" :: blockTokens body (.word "end" :: k)
  | .returnStatement args => .word "return" :: exprsTokens args k
  | .breakStatement => .word "break" :: k
  | .continueStatement => .word "continue" :: k
  | .emptyStatement => k

def blockTokens : List (Stmt N) → List (Lexeme N) → List (Lexeme N)
  | [], k => k
  | s::ss, k => stmtTokens s (blockTokens ss k)

def clausesTokens (keyword : String) : List (IfClause N) → List (Lexeme N) → List (Lexeme N)
  | [], k => k
  | .mk condition body :: clauses, k =>
      .word keyword :: exprTokens condition 0
        (.word "then" :: blockTokens body (clausesTokens "elseif" clauses k))

end

attribute [simp] stmtTokens

end
end Spelling
end LuaRecovery.Lua
