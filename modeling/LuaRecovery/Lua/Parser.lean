import LuaRecovery.Lib.Recursion
import LuaRecovery.Lua.Lexer

/-!
# The parser

`parser/parser.js`. Its state is the list of tokens that are left before the
one for the end of the file, which is never passed. Its functions call each
other, so that each is given with what the others do.
-/

set_option autoImplicit false

namespace LuaRecovery.Lua
open LuaRecovery.Lib

namespace TokenType

/-- The text of the type in messages. -/
def name : TokenType → String
  | andWord => "AND"
  | breakWord => "BREAK"
  | doWord => "DO"
  | elseWord => "ELSE"
  | elseifWord => "ELSEIF"
  | endWord => "END"
  | falseWord => "FALSE"
  | forWord => "FOR"
  | functionWord => "FUNCTION"
  | ifWord => "IF"
  | inWord => "IN"
  | localWord => "LOCAL"
  | nilWord => "NIL"
  | notWord => "NOT"
  | orWord => "OR"
  | repeatWord => "REPEAT"
  | returnWord => "RETURN"
  | thenWord => "THEN"
  | trueWord => "TRUE"
  | untilWord => "UNTIL"
  | whileWord => "WHILE"
  | continueWord => "CONTINUE"
  | ident => "IDENT"
  | number => "NUMBER"
  | string => "STRING"
  | plus => "+"
  | minus => "-"
  | star => "*"
  | slash => "/"
  | percent => "%"
  | caret => "^"
  | hash => "#"
  | eqEq => "=="
  | tildeEq => "~="
  | ltEq => "<="
  | gtEq => ">="
  | lt => "<"
  | gt => ">"
  | assign => "="
  | lparen => "("
  | rparen => ")"
  | lbrace => "\x7b"
  | rbrace => "\x7d"
  | lbracket => "["
  | rbracket => "]"
  | semicolon => ";"
  | colon => ":"
  | comma => ","
  | dot => "."
  | dotDot => ".."
  | dotDotDot => "..."
  | plusEq => "+="
  | minusEq => "-="
  | starEq => "*="
  | slashEq => "/="
  | concatEq => "..="
  | eof => "EOF"
  | inherited property => property

/-- The operator of a binary expression, and how it is built. -/
inductive Infix where
  | binary (operator : BinaryOperator)
  | logical (operator : LogicalOperator)
  deriving DecidableEq

/-- The operators of binary expressions, which are the token types with a precedence. -/
def infixOperator : TokenType → Option Infix
  | orWord => some (.logical .or)
  | andWord => some (.logical .and)
  | lt => some (.binary .lt)
  | gt => some (.binary .gt)
  | ltEq => some (.binary .le)
  | gtEq => some (.binary .ge)
  | tildeEq => some (.binary .ne)
  | eqEq => some (.binary .eq)
  | dotDot => some (.binary .concat)
  | plus => some (.binary .add)
  | minus => some (.binary .sub)
  | star => some (.binary .mul)
  | slash => some (.binary .div)
  | percent => some (.binary .mod)
  | caret => some (.binary .pow)
  | _ => none

end TokenType

/-- Why a parse came to an end: at a token that does not fit, or with a node whose operator is
none, which the source returns with the token's type for an operator. -/
inductive Failure where
  | parseError (message : String) (remaining : ℕ)
  | unknownOperator (type : TokenType)

abbrev Parser (N α : Type) := Comp (List (Lexeme N)) Failure α

namespace Parser
variable {N : Type}

def peek : Parser N (Lexeme N) := do
  return (← get).headD .eof

def peekNext : Parser N (Lexeme N) := do
  return ((← get).drop 1).headD .eof

def advance : Parser N (Lexeme N) := do
  let t ← peek
  modify List.tail
  return t

def is (type : TokenType) : Parser N Bool := do
  return (← peek).type = type

def fail {α : Type} (message : String) : Parser N α := do
  throw (.parseError message (← get).length)

def consume (type : TokenType) (errorMsg : String) : Parser N (Lexeme N) := do
  if (← peek).type = type then advance else fail errorMsg

/-- The source's `match`. -/
def accept (type : TokenType) : Parser N Bool := do
  if ← is type then
    let _ ← advance
    return true
  else return false

def isOneOf (types : List TokenType) : Parser N Bool := do
  return (← peek).type ∈ types

def acceptSeparator : Parser N Bool := do
  if ← accept .comma then return true else accept .semicolon

/-- The text of a token in messages. -/
def shown (t : Lexeme N) : String := if t.raw = "" then "null" else t.raw

/-- The type of a node. -/
def typeName : Expr N → String
  | .identifier _ => "Identifier"
  | .numericLiteral _ _ => "NumericLiteral"
  | .stringLiteral _ => "StringLiteral"
  | .booleanLiteral _ => "BooleanLiteral"
  | .nilLiteral => "NilLiteral"
  | .varargLiteral _ => "VarargLiteral"
  | .unaryExpression _ _ => "UnaryExpression"
  | .binaryExpression _ _ _ => "BinaryExpression"
  | .logicalExpression _ _ _ => "LogicalExpression"
  | .callExpression _ _ _ => "CallExpression"
  | .methodCallExpression _ _ _ _ => "MethodCallExpression"
  | .memberExpression _ _ => "MemberExpression"
  | .indexExpression _ _ => "IndexExpression"
  | .functionExpression _ _ _ => "FunctionExpression"
  | .tableConstructor _ => "TableConstructor"

/-- The value of a token for a name. -/
def nameOf (t : Lexeme N) : Expr N :=
  match t.value with
  | .text name => .identifier name
  | _ => .identifier t.raw

def identifier (errorMsg : String) : Parser N (Expr N) := do
  return nameOf (← consume .ident errorMsg)

def getBinaryPrecedence (type : TokenType) : ℕ :=
  match type with
  | .orWord => 1
  | .andWord => 2
  | .lt => 3
  | .gt => 3
  | .ltEq => 3
  | .gtEq => 3
  | .tildeEq => 3
  | .eqEq => 3
  | .dotDot => 4
  | .plus => 5
  | .minus => 5
  | .star => 6
  | .slash => 6
  | .percent => 6
  | .caret => 8
  | _ => 0

def isRightAssociative (type : TokenType) : Bool := type = .dotDot || type = .caret

def infixNode (operator : TokenType.Infix) (left right : Expr N) : Expr N :=
  match operator with
  | .binary operator => .binaryExpression operator left right
  | .logical operator => .logicalExpression operator left right

/-- The mark on a node in parentheses. -/
def inParens : Expr N → Expr N
  | .varargLiteral _ => .varargLiteral true
  | .callExpression base args _ => .callExpression base args true
  | .methodCallExpression base method args _ => .methodCallExpression base method args true
  | e => e

/-- What a number, a string, a word or `...` stands for. -/
def literal (t : Lexeme N) : Option (Expr N) :=
  match t.type, t.value with
  | .number, .number n => some (.numericLiteral n t.raw)
  | .string, .bytes s => some (.stringLiteral s)
  | .trueWord, _ => some (.booleanLiteral true)
  | .falseWord, _ => some (.booleanLiteral false)
  | .nilWord, _ => some .nilLiteral
  | .dotDotDot, _ => some (.varargLiteral false)
  | _, _ => none

def unary (type : TokenType) : Option UnaryOperator :=
  match type with
  | .notWord => some .not
  | .hash => some .length
  | .minus => some .minus
  | _ => none

def endsBlock : List TokenType := [.eof, .endWord, .elseifWord, .elseWord, .untilWord]

def assignmentTypes : List TokenType :=
  [.comma, .assign, .plusEq, .minusEq, .starEq, .slashEq, .concatEq]

/-- The operator of a compound assignment, whose type is that of the token without its `=`. -/
def compoundOperator (type : TokenType) : Option BinaryOperator :=
  match type with
  | .plusEq => some .add
  | .minusEq => some .sub
  | .starEq => some .mul
  | .slashEq => some .div
  | .concatEq => some .concat
  | .ltEq => some .lt
  | .gtEq => some .gt
  | type =>
    match type.infixOperator with
    | some (.binary .eq) => none
    | some (.binary .ne) => none
    | some (.binary operator) => some operator
    | _ => none

/-- The functions of the parser, with what they return. -/
inductive Rule (N : Type) : Type → Type 1 where
  /-- The names after the first one of a list. -/
  | moreIdentifiers (errorMsg : String) : Rule N (List (Expr N))
  /-- The parameters after the first one. -/
  | moreParams : Rule N (List (Expr N) × Bool)
  /-- The name of a function after its first part. -/
  | moreName (name : Expr N) : Rule N (Expr N)
  | parseBlock : Rule N (List (Stmt N))
  | parseStatement : Rule N (Stmt N)
  | parseLocalFunction : Rule N (Stmt N)
  | parseLocalVariables : Rule N (Stmt N)
  | parseFunctionDeclaration : Rule N (Stmt N)
  | parseFunctionBody : Rule N (List (Expr N) × Bool × List (Stmt N))
  | parseIfStatement : Rule N (Stmt N)
  | parseElseifs : Rule N (List (IfClause N))
  | parseWhileStatement : Rule N (Stmt N)
  | parseRepeatStatement : Rule N (Stmt N)
  | parseForStatement : Rule N (Stmt N)
  | parseCallOrAssignment : Rule N (Stmt N)
  /-- The targets of an assignment after the first one. -/
  | moreTargets : Rule N (List (Expr N))
  | parseExpression : Rule N (Expr N)
  /-- An expression, and those that follow it after commas. -/
  | parseExpressions : Rule N (List (Expr N))
  | moreExpressions : Rule N (List (Expr N))
  | parseSubExpression (minPrec : ℕ) : Rule N (Expr N)
  /-- The loop over the operators that follow an operand. -/
  | parseOperators (minPrec : ℕ) (left : Expr N) : Rule N (Expr N)
  | parseSimpleExpression : Rule N (Expr N)
  | parsePrefixExp : Rule N (Expr N)
  /-- The loop over the suffixes that follow a base. -/
  | parseSuffixes (base : Expr N) : Rule N (Expr N)
  | parseCallArgs : Rule N (List (Expr N))
  | parseTableConstructor : Rule N (Expr N)
  | parseFields : Rule N (List (TableField N))
  | parseField : Rule N (TableField N)

abbrev Rules (N : Type) := Handler (List (Lexeme N)) Failure (Rule N)

def body (self : Rules N) : {α : Type} → Rule N α → Parser N α
  | _, .moreIdentifiers errorMsg => do
    if ← accept .comma then
      let name ← identifier errorMsg
      return name :: (← self.call (.moreIdentifiers errorMsg))
    else return []
  | _, .moreParams => do
    if ← accept .comma then
      if ← accept .dotDotDot then return ([], true)
      else
        let param ← identifier "Expected parameter name after comma"
        let (params, isVararg) ← self.call .moreParams
        return (param :: params, isVararg)
    else return ([], false)
  | _, .moreName name => do
    if ← accept .dot then
      self.call (.moreName (.memberExpression name (← identifier "Expected property name after .")))
    else return name
  | _, .parseBlock => do
    if ← isOneOf endsBlock then return []
    else
      let statement ← self.call .parseStatement
      return statement :: (← self.call .parseBlock)
  | _, .parseStatement => do
    if ← accept .semicolon then return .emptyStatement
    else if ← accept .localWord then
      if ← accept .functionWord then self.call .parseLocalFunction
      else self.call .parseLocalVariables
    else if ← accept .functionWord then self.call .parseFunctionDeclaration
    else if ← accept .ifWord then self.call .parseIfStatement
    else if ← accept .whileWord then self.call .parseWhileStatement
    else if ← accept .repeatWord then self.call .parseRepeatStatement
    else if ← accept .doWord then
      let body ← self.call .parseBlock
      let _ ← consume .endWord "Expected 'end' to close 'do' block"
      return .doStatement body
    else if ← accept .forWord then self.call .parseForStatement
    else if ← accept .breakWord then
      let _ ← accept .semicolon
      return .breakStatement
    else if ← accept .continueWord then
      let _ ← accept .semicolon
      return .continueStatement
    else if ← accept .returnWord then
      let args ←
        if ← isOneOf (.semicolon :: endsBlock) then pure [] else self.call .parseExpressions
      let _ ← accept .semicolon
      return .returnStatement args
    else self.call .parseCallOrAssignment
  | _, .parseLocalFunction => do
    let name ← identifier "Expected function name after local function"
    let (params, isVararg, body) ← self.call .parseFunctionBody
    return .localFunctionStatement name params isVararg body
  | _, .parseLocalVariables => do
    let first ← identifier "Expected variable name in local statement"
    let more ← self.call (.moreIdentifiers "Expected variable name after comma in local statement")
    let init ← if ← accept .assign then self.call .parseExpressions else pure []
    let _ ← accept .semicolon
    return .localStatement (first :: more) init
  | _, .parseFunctionDeclaration => do
    let first ← identifier "Expected function name"
    let name ← self.call (.moreName first)
    let (name, isMethod) ←
      if ← accept .colon then do
        let method ← identifier "Expected method name after :"
        pure (.memberExpression name method, true)
      else pure (name, false)
    let (params, isVararg, body) ← self.call .parseFunctionBody
    return .functionDeclaration name params isVararg body isMethod
  | _, .parseFunctionBody => do
    let _ ← consume .lparen "Expected '(' for parameter list"
    let (params, isVararg) ←
      if ← is .rparen then pure ([], false)
      else if ← accept .dotDotDot then pure ([], true)
      else do
        let param ← identifier "Expected parameter name"
        let (params, isVararg) ← self.call .moreParams
        pure (param :: params, isVararg)
    let _ ← consume .rparen "Expected ')' to close parameter list"
    let body ← self.call .parseBlock
    let _ ← consume .endWord "Expected 'end' to close function body"
    return (params, isVararg, body)
  | _, .parseIfStatement => do
    let condition ← self.call .parseExpression
    let _ ← consume .thenWord "Expected 'then' after if condition"
    let body ← self.call .parseBlock
    let clauses ← self.call .parseElseifs
    let elseBody ←
      if ← accept .elseWord then (do return some (← self.call .parseBlock)) else pure none
    let _ ← consume .endWord "Expected 'end' to close if statement"
    return .ifStatement (.mk condition body :: clauses) elseBody
  | _, .parseElseifs => do
    if ← accept .elseifWord then
      let condition ← self.call .parseExpression
      let _ ← consume .thenWord "Expected 'then' after elseif condition"
      let body ← self.call .parseBlock
      return .mk condition body :: (← self.call .parseElseifs)
    else return []
  | _, .parseWhileStatement => do
    let condition ← self.call .parseExpression
    let _ ← consume .doWord "Expected 'do' after while condition"
    let body ← self.call .parseBlock
    let _ ← consume .endWord "Expected 'end' to close while loop"
    return .whileStatement condition body
  | _, .parseRepeatStatement => do
    let body ← self.call .parseBlock
    let _ ← consume .untilWord "Expected 'until' after repeat block"
    let condition ← self.call .parseExpression
    let _ ← accept .semicolon
    return .repeatStatement condition body
  | _, .parseForStatement => do
    let first ← identifier "Expected variable name after for"
    if ← accept .assign then
      let start ← self.call .parseExpression
      let _ ← consume .comma "Expected ',' after for start expression"
      let stop ← self.call .parseExpression
      let step ←
        if ← accept .comma then (do return some (← self.call .parseExpression)) else pure none
      let _ ← consume .doWord "Expected 'do' in numeric for loop"
      let body ← self.call .parseBlock
      let _ ← consume .endWord "Expected 'end' to close numeric for loop"
      return .numericForStatement first start stop step body
    else
      let more ← self.call (.moreIdentifiers "Expected variable name after comma")
      let _ ← consume .inWord "Expected '=' or 'in' in for loop"
      let iterators ← self.call .parseExpressions
      let _ ← consume .doWord "Expected 'do' in generic for loop"
      let body ← self.call .parseBlock
      let _ ← consume .endWord "Expected 'end' to close generic for loop"
      return .genericForStatement (first :: more) iterators body
  | _, .parseCallOrAssignment => do
    let first ← self.call .parsePrefixExp
    if ← isOneOf assignmentTypes then
      let more ← self.call .moreTargets
      let assignOp ← advance
      let init ← self.call .parseExpressions
      let _ ← accept .semicolon
      if assignOp.type = .assign then return .assignmentStatement (first :: more) init
      else match compoundOperator assignOp.type, init with
        | some operator, value::rest =>
            return .assignmentStatement (first :: more)
              (.binaryExpression operator first value :: rest)
        | _, _ => throw (.unknownOperator assignOp.type)
    else match first with
      | .callExpression .. | .methodCallExpression .. =>
        let _ ← accept .semicolon
        return .callStatement first
      | _ => fail ("Expected assignment or function call, found " ++ typeName first)
  | _, .moreTargets => do
    if ← accept .comma then
      let target ← self.call .parsePrefixExp
      return target :: (← self.call .moreTargets)
    else return []
  | _, .parseExpression => self.call (.parseSubExpression 0)
  | _, .parseExpressions => do
    let first ← self.call .parseExpression
    return first :: (← self.call .moreExpressions)
  | _, .moreExpressions => do
    if ← accept .comma then
      let next ← self.call .parseExpression
      return next :: (← self.call .moreExpressions)
    else return []
  | _, .parseSubExpression minPrec => do
    let left ← self.call .parseSimpleExpression
    self.call (.parseOperators minPrec left)
  | _, .parseOperators minPrec left => do
    let type := (← peek).type
    match type.infixOperator with
    | none => return left
    | some operator =>
      let prec := getBinaryPrecedence type
      if prec < minPrec then return left
      else
        let _ ← advance
        let nextMinPrec := if isRightAssociative type then prec else prec + 1
        let right ← self.call (.parseSubExpression nextMinPrec)
        self.call (.parseOperators minPrec (infixNode operator left right))
  | _, .parseSimpleExpression => do
    let t ← peek
    match unary t.type with
    | some operator =>
      let _ ← advance
      return .unaryExpression operator (← self.call (.parseSubExpression 7))
    | none =>
      match literal t with
      | some e =>
        let _ ← advance
        return e
      | none =>
        if t.type = .lbrace then self.call .parseTableConstructor
        else if ← accept .functionWord then
          let (params, isVararg, body) ← self.call .parseFunctionBody
          return .functionExpression params isVararg body
        else self.call .parsePrefixExp
  | _, .parsePrefixExp => do
    if ← accept .lparen then
      let base ← self.call .parseExpression
      let _ ← consume .rparen "Expected ')' after parenthesized expression"
      self.call (.parseSuffixes (inParens base))
    else if ← is .ident then
      self.call (.parseSuffixes (nameOf (← advance)))
    else
      let t ← peek
      fail ("Unexpected token in expression: '" ++ t.type.name ++ "' (" ++ shown t ++ ")")
  | _, .parseSuffixes base => do
    if ← accept .lbracket then
      let index ← self.call .parseExpression
      let _ ← consume .rbracket "Expected ']' after indexing expression"
      self.call (.parseSuffixes (.indexExpression base index))
    else if ← accept .dot then
      let prop ← identifier "Expected property name after ."
      self.call (.parseSuffixes (.memberExpression base prop))
    else if ← accept .colon then
      let method ← identifier "Expected method name after :"
      let args ← self.call .parseCallArgs
      self.call (.parseSuffixes (.methodCallExpression base method args false))
    else if ← isOneOf [.lparen, .string, .lbrace] then
      let args ← self.call .parseCallArgs
      self.call (.parseSuffixes (.callExpression base args false))
    else return base
  | _, .parseCallArgs => do
    let t ← peek
    if ← accept .lparen then
      let args ← if ← is .rparen then pure [] else self.call .parseExpressions
      let _ ← consume .rparen "Expected ')' to close function arguments"
      return args
    else if t.type = .lbrace then return [← self.call .parseTableConstructor]
    else match literal t with
      | some (.stringLiteral s) =>
        let _ ← advance
        return [.stringLiteral s]
      | _ => fail ("Expected function arguments, found '" ++ t.type.name ++ "'")
  | _, .parseTableConstructor => do
    let _ ← consume .lbrace "Expected '\x7b'"
    let fields ← self.call .parseFields
    let _ ← consume .rbrace "Expected '\x7d' to close table constructor"
    return .tableConstructor fields
  | _, .parseFields => do
    if ← isOneOf [.rbrace, .eof] then return []
    else
      let field ← self.call .parseField
      if ← acceptSeparator then return field :: (← self.call .parseFields) else return [field]
  | _, .parseField => do
    if ← accept .lbracket then
      let key ← self.call .parseExpression
      let _ ← consume .rbracket "Expected ']' after table key"
      let _ ← consume .assign "Expected '=' after table key"
      return .tableKey key (← self.call .parseExpression)
    else if (← peek).type = .ident ∧ (← peekNext).type = .assign then
      let key := nameOf (← advance)
      let _ ← consume .assign "Expected '=' after field name"
      return .tableKeyString key (← self.call .parseExpression)
    else return .tableValue (← self.call .parseExpression)

/-- What a function of the parser does within a depth of calls. -/
def within (depth : ℕ) {α : Type} (r : Rule N α) : Parser N α :=
  (Handler.bounded (fun self => ⟨body self⟩) depth).call r

def chunkBody (depth : ℕ) : Parser N (Chunk N) := do
  let body ← within depth .parseBlock
  if ← is .eof then return ⟨body⟩
  else
    let t ← peek
    fail ("Unexpected token '" ++ t.type.name ++ "' (" ++ shown t ++ ") after chunk")

/-- Where a failure came up, and what it says. -/
def located (tokens : List (Token N)) : Failure → ParseError ⊕ TokenType
  | .unknownOperator type => .inr type
  | .parseError message remaining =>
    match tokens[tokens.length - 1 - remaining]? with
    | some t => .inl ⟨message, t.position⟩
    | none => .inl ⟨message, ⟨1, 1, 0⟩⟩

/-- The statements of a source; a failure is located at the token that it came at. -/
def parseChunk (depth : ℕ) (tokens : List (Token N)) :
    Option (Except (ParseError ⊕ TokenType) (Chunk N)) :=
  (((chunkBody depth).run (tokens.map Token.toLexeme).dropLast).run).map fun result =>
    match result with
    | .ok (chunk, _) => .ok chunk
    | .error failure => .error (located tokens failure)

end Parser
end LuaRecovery.Lua
