import LuaRecovery.Lua.Lexer

/-!
# The generator

`generator/lua-generator.js`. The precedence that an operand must have is
counted in tenths, as the source adds a tenth to it.
-/

set_option autoImplicit false

namespace LuaRecovery.Lua
namespace LuaGenerator
variable {N : Type}

def unaryText : UnaryOperator → String
  | .minus => "-"
  | .not => "not"
  | .length => "#"

def binaryText : BinaryOperator → String
  | .add => "+"
  | .sub => "-"
  | .mul => "*"
  | .div => "/"
  | .mod => "%"
  | .pow => "^"
  | .concat => ".."
  | .lt => "<"
  | .le => "<="
  | .gt => ">"
  | .ge => ">="
  | .eq => "=="
  | .ne => "~="

def logicalText : LogicalOperator → String
  | .and => "and"
  | .or => "or"

def binaryPrecedence : BinaryOperator → ℕ
  | .lt => 3
  | .gt => 3
  | .le => 3
  | .ge => 3
  | .ne => 3
  | .eq => 3
  | .concat => 4
  | .add => 5
  | .sub => 5
  | .mul => 6
  | .div => 6
  | .mod => 6
  | .pow => 8

def logicalPrecedence : LogicalOperator → ℕ
  | .or => 1
  | .and => 2

def getPrecedence : Expr N → ℕ
  | .logicalExpression operator _ _ => logicalPrecedence operator
  | .binaryExpression operator _ _ => binaryPrecedence operator
  | .unaryExpression _ _ => 7
  | _ => 99

def isRightAssoc (operator : BinaryOperator) : Bool := operator = .concat || operator = .pow

/-- The precedences, in tenths, that the operands of a binary expression must have. -/
def operandPrecedences (operator : BinaryOperator) : ℕ × ℕ :=
  let currentPrec := 10 * binaryPrecedence operator
  if isRightAssoc operator then (currentPrec + 1, currentPrec) else (currentPrec, currentPrec + 1)

def nameText (e : Expr N) : String := e.name?.getD "undefined"

/-- A list of parameters; `join` leaves a name that is not there empty. -/
def paramsText (params : List (Expr N)) (isVararg : Bool) : String :=
  ", ".intercalate (params.map (fun p => p.name?.getD "") ++ if isVararg then ["..."] else [])

def isFunction : Expr N → Bool
  | .functionExpression _ _ _ => true
  | _ => false

def isTableValue : TableField N → Bool
  | .tableValue _ => true
  | _ => false

/-- The result in parentheses, if its precedence is too low for its place. -/
def parenthesized (low : Bool) (result : String) : String :=
  if low then "(" ++ result ++ ")" else result

section
variable [Numerals N] (indentStr : String)

def indent (indentLevel : ℕ) : String := String.join (List.replicate indentLevel indentStr)

def writeln (indentLevel : ℕ) (str : String) : String :=
  if str = "" then "\n" else indent indentStr indentLevel ++ str ++ "\n"

def numericText (value : N) (raw : String) : String :=
  if raw = "" then String.ofList (Numerals.text value) else raw

mutual

def exprToString (indentLevel : ℕ) (node : Expr N) (parentPrecedence : ℕ) : String :=
  parenthesized (10 * getPrecedence node < parentPrecedence)
    (match node with
    | .identifier name => name
    | .numericLiteral value raw => numericText value raw
    | .stringLiteral value => String.ofList (ByteString.toLuaLiteral value '"')
    | .booleanLiteral value => if value then "true" else "false"
    | .nilLiteral => "nil"
    | .varargLiteral inParens => if inParens then "(...)" else "..."
    | .unaryExpression operator argument =>
        unaryText operator ++ (if operator = .not then " " else "") ++
          exprToString indentLevel argument 70
    | .binaryExpression operator left right =>
        exprToString indentLevel left (operandPrecedences operator).1 ++ " " ++
          binaryText operator ++ " " ++
          exprToString indentLevel right (operandPrecedences operator).2
    | .logicalExpression operator left right =>
        exprToString indentLevel left (10 * logicalPrecedence operator) ++ " " ++
          logicalText operator ++ " " ++
          exprToString indentLevel right (10 * logicalPrecedence operator + 1)
    | .callExpression base args _ =>
        parenthesized (isFunction base) (exprToString indentLevel base 990) ++
          "(" ++ ", ".intercalate (exprsToStrings indentLevel args) ++ ")"
    | .methodCallExpression base method args _ =>
        parenthesized (isFunction base) (exprToString indentLevel base 990) ++
          ":" ++ nameText method ++
          "(" ++ ", ".intercalate (exprsToStrings indentLevel args) ++ ")"
    | .memberExpression base property =>
        parenthesized (isFunction base) (exprToString indentLevel base 990) ++
          "." ++ nameText property
    | .indexExpression base index =>
        parenthesized (isFunction base) (exprToString indentLevel base 990) ++
          "[" ++ exprToString indentLevel index 0 ++ "]"
    | .functionExpression params isVararg body =>
        "function(" ++ paramsText params isVararg ++ ")\n" ++
          generateBlock (indentLevel + 1) body ++ indent indentStr indentLevel ++ "end"
    | .tableConstructor fields =>
        if fields.isEmpty then "\x7b\x7d"
        else if fields.length ≤ 4 ∧ fields.all isTableValue then
          "\x7b " ++ ", ".intercalate (fieldsToStrings indentLevel "" fields) ++ " \x7d"
        else
          "\x7b\n" ++
            ",\n".intercalate
              (fieldsToStrings indentLevel (indent indentStr (indentLevel + 1)) fields) ++
            "\n" ++ indent indentStr indentLevel ++ "\x7d")

def exprsToStrings (indentLevel : ℕ) : List (Expr N) → List String
  | [] => []
  | e::es => exprToString indentLevel e 0 :: exprsToStrings indentLevel es

def fieldToString (indentLevel : ℕ) : TableField N → String
  | .tableKey key value =>
      "[" ++ exprToString indentLevel key 0 ++ "] = " ++ exprToString indentLevel value 0
  | .tableKeyString key value => nameText key ++ " = " ++ exprToString indentLevel value 0
  | .tableValue value => exprToString indentLevel value 0

def fieldsToStrings (indentLevel : ℕ) (innerIndent : String) : List (TableField N) → List String
  | [] => []
  | f::fs =>
      (innerIndent ++ fieldToString indentLevel f) :: fieldsToStrings indentLevel innerIndent fs

def generateNode (indentLevel : ℕ) (node : Stmt N) : String :=
  match node with
  | .localStatement vars init =>
      if init.isEmpty then
        writeln indentStr indentLevel
          ("local " ++ ", ".intercalate (exprsToStrings indentLevel vars))
      else
        writeln indentStr indentLevel
          ("local " ++ ", ".intercalate (exprsToStrings indentLevel vars) ++ " = " ++
            ", ".intercalate (exprsToStrings indentLevel init))
  | .assignmentStatement vars init =>
      writeln indentStr indentLevel
        (", ".intercalate (exprsToStrings indentLevel vars) ++ " = " ++
          ", ".intercalate (exprsToStrings indentLevel init))
  | .localFunctionStatement identifier params isVararg body =>
      writeln indentStr indentLevel
          ("local function " ++ nameText identifier ++ "(" ++ paramsText params isVararg ++ ")") ++
        generateBlock (indentLevel + 1) body ++ writeln indentStr indentLevel "end"
  | .functionDeclaration name params isVararg body _ =>
      writeln indentStr indentLevel
          ("function " ++ exprToString indentLevel name 0 ++ "(" ++ paramsText params isVararg ++
            ")") ++
        generateBlock (indentLevel + 1) body ++ writeln indentStr indentLevel "end"
  | .callStatement expression => writeln indentStr indentLevel (exprToString indentLevel expression 0)
  | .ifStatement clauses elseBody =>
      generateClauses indentLevel "if " clauses ++
        (match elseBody with
        | some (s::ss) =>
            writeln indentStr indentLevel "else" ++ generateNode (indentLevel + 1) s ++
              generateBlock (indentLevel + 1) ss
        | _ => "") ++ writeln indentStr indentLevel "end"
  | .whileStatement condition body =>
      writeln indentStr indentLevel ("while " ++ exprToString indentLevel condition 0 ++ " do") ++
        generateBlock (indentLevel + 1) body ++ writeln indentStr indentLevel "end"
  | .repeatStatement condition body =>
      writeln indentStr indentLevel "repeat" ++ generateBlock (indentLevel + 1) body ++
        writeln indentStr indentLevel ("until " ++ exprToString indentLevel condition 0)
  | .numericForStatement variableName start stop step body =>
      writeln indentStr indentLevel
          ("for " ++ nameText variableName ++ " = " ++ exprToString indentLevel start 0 ++ ", " ++
            exprToString indentLevel stop 0 ++
            (match step with
            | some step => ", " ++ exprToString indentLevel step 0
            | none => "") ++ " do") ++
        generateBlock (indentLevel + 1) body ++ writeln indentStr indentLevel "end"
  | .genericForStatement vars iterators body =>
      writeln indentStr indentLevel
          ("for " ++ paramsText vars false ++ " in " ++
            ", ".intercalate (exprsToStrings indentLevel iterators) ++ " do") ++
        generateBlock (indentLevel + 1) body ++ writeln indentStr indentLevel "end"
  | .doStatement body =>
      writeln indentStr indentLevel "do" ++ generateBlock (indentLevel + 1) body ++
        writeln indentStr indentLevel "end"
  | .returnStatement args =>
      if args.isEmpty then writeln indentStr indentLevel "return"
      else
        writeln indentStr indentLevel
          ("return " ++ ", ".intercalate (exprsToStrings indentLevel args))
  | .breakStatement => writeln indentStr indentLevel "break"
  | .continueStatement => writeln indentStr indentLevel "continue"
  | .emptyStatement => ""

def generateBlock (indentLevel : ℕ) : List (Stmt N) → String
  | [] => ""
  | s::ss => generateNode indentLevel s ++ generateBlock indentLevel ss

def generateClauses (indentLevel : ℕ) (keyword : String) : List (IfClause N) → String
  | [] => ""
  | .mk condition body :: clauses =>
      writeln indentStr indentLevel
          (keyword ++ exprToString indentLevel condition 0 ++ " then") ++
        generateBlock (indentLevel + 1) body ++ generateClauses indentLevel "elseif " clauses

end

/-- `trimEnd`, and a newline. -/
def generate (chunk : Chunk N) : String :=
  String.ofList (((generateBlock indentStr 0 chunk.body).toList.reverse.dropWhile isJsSpace).reverse) ++
    "\n"

end
end LuaGenerator
end LuaRecovery.Lua
