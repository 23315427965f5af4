import LuaRecovery.Evaluator.FoldValue

/-!
# Rewriting programs

The rewritings that the cleanup passes are made of, as a relation between two
programs: constants folded, names replaced by the constants they are bound to,
dead branches cut and empty statements dropped. A scope says what is known of
each name at a point of the program. A name is `leaked` where the two programs
may bind it differently, because a branch was spliced into the block around it.
-/

set_option autoImplicit false

namespace LuaRecovery.Transforms
open LuaRecovery.Lib LuaRecovery.Lua LuaRecovery.Evaluator

inductive Status (N : Type) : Type where
  | unknown
  | constant (literal : Expr N)
  | leaked

abbrev Scope (N : Type) := String → Status N

section Scopes
variable {N : Type}

/-- Names bound by parameters and loop variables: nothing is known of them. -/
def bindAll (σ : Scope N) : List (Expr N) → Scope N
  | [] => σ
  | x::xs => match x.name? with
      | some name => bindAll (Function.update σ name .unknown) xs
      | none => bindAll σ xs

def leakAll (σ : Scope N) (names : List String) : Scope N :=
  fun x => if x ∈ names then .leaked else σ x

/-- The names that a block binds at its top level. -/
def declaredNames : Block N → List String
  | [] => []
  | .localStatement vars _ :: ss => vars.filterMap Expr.name? ++ declaredNames ss
  | .localFunctionStatement identifier _ _ _ :: ss =>
      identifier.name?.toList ++ declaredNames ss
  | _::ss => declaredNames ss

/-- The scope after `local vars = init`: a name given a literal may be taken for a constant. -/
inductive Declares : Scope N → List (Expr N) → List (Expr N) → Scope N → Prop
  | nil {σ : Scope N} {init : List (Expr N)} : Declares σ [] init σ
  | unknown {σ σ' : Scope N} {x : Expr N} {xs init : List (Expr N)} {name : String}
      (hx : x.name? = some name)
      (rest : Declares (Function.update σ name .unknown) xs init.tail σ') :
      Declares σ (x::xs) init σ'
  | constant {σ σ' : Scope N} {x e : Expr N} {xs init : List (Expr N)} {name : String}
      (hx : x.name? = some name) (he : (literalValue e).isSome)
      (rest : Declares (Function.update σ name (.constant e)) xs init σ') :
      Declares σ (x::xs) (e::init) σ'
  | malformed {σ σ' : Scope N} {x : Expr N} {xs init : List (Expr N)} (hx : x.name? = none) :
      Declares σ (x::xs) init σ'

/-- The rewriting lets several values through where one was. -/
def Exposes (e e' : Expr N) : Prop := e'.isMulti = true ∧ e.isMulti = false

def isLvalue : Expr N → Bool
  | .identifier _ => true
  | .memberExpression _ _ => true
  | .indexExpression _ _ => true
  | _ => false

/-- `and` stops at a falsy left operand, `or` at a truthy one. -/
def stopsAt : LogicalOperator → Bool
  | .and => false
  | .or => true

/-- Statements that do nothing. -/
def isVacuous : Stmt N → Bool
  | .emptyStatement => true
  | .doStatement [] => true
  | _ => false

end Scopes

section Inert
variable {N : Type} [LuaNumber N]

def validLiteralKey (e : Expr N) : Bool :=
  match literalValue e with
  | some v => validKey v
  | none => false

mutual

/-- Evaluation ends in a value, raises nothing and leaves the state as it is. -/
def inert (test : Bool) : Expr N → Bool
  | .identifier _ => true
  | .numericLiteral _ _ => true
  | .stringLiteral _ => true
  | .booleanLiteral _ => true
  | .nilLiteral => true
  | .varargLiteral _ => true
  | .unaryExpression .not a => inert true a
  | .unaryExpression _ _ => false
  | .binaryExpression op l r =>
      (op = .eq || op = .ne) && inert false l && inert false r &&
        ((literalValue l).isSome || (literalValue r).isSome)
  | .logicalExpression .and l r => inert true l && inert test r
  | .logicalExpression .or l r => inert test l && inert test r
  | .functionExpression _ _ _ => test
  | .tableConstructor fields => test && inertFields fields
  | .callExpression _ _ _ => false
  | .methodCallExpression _ _ _ _ => false
  | .memberExpression _ _ => false
  | .indexExpression _ _ => false

def inertFields : List (TableField N) → Bool
  | [] => true
  | .tableKey key value :: fs => validLiteralKey key && inert true value && inertFields fs
  | .tableKeyString key value :: fs => key.name?.isSome && inert true value && inertFields fs
  | .tableValue value :: fs => inert true value && inertFields fs

end

end Inert

section Rewriting
variable {N : Type} [LuaNumber N]

mutual

inductive Rewrites : Scope N → Expr N → Expr N → Prop
  | identifier {σ : Scope N} {x : String} (hx : σ x ≠ .leaked) :
      Rewrites σ (.identifier x) (.identifier x)
  | constant {σ : Scope N} {x : String} {e e' : Expr N} (hx : σ x = .constant e)
      (he : literalValue e' = literalValue e) : Rewrites σ (.identifier x) e'
  | numericLiteral {σ : Scope N} {value : N} {raw raw' : String} :
      Rewrites σ (.numericLiteral value raw) (.numericLiteral value raw')
  | stringLiteral {σ : Scope N} {value : ByteString} :
      Rewrites σ (.stringLiteral value) (.stringLiteral value)
  | booleanLiteral {σ : Scope N} {value : Bool} :
      Rewrites σ (.booleanLiteral value) (.booleanLiteral value)
  | nilLiteral {σ : Scope N} : Rewrites σ .nilLiteral .nilLiteral
  | varargLiteral {σ : Scope N} {inParens : Bool} :
      Rewrites σ (.varargLiteral inParens) (.varargLiteral inParens)
  | unary {σ : Scope N} {op : UnaryOperator} {a a' : Expr N} (ha : Rewrites σ a a') :
      Rewrites σ (.unaryExpression op a) (.unaryExpression op a')
  | foldUnary {σ : Scope N} {op : UnaryOperator} {a a' e : Expr N} (ha : Rewrites σ a a')
      (he : evalUnary op a' = some e) (hinert : inert (op = .not) a' = true) :
      Rewrites σ (.unaryExpression op a) e
  | binary {σ : Scope N} {op : BinaryOperator} {l l' r r' : Expr N} (hl : Rewrites σ l l')
      (hr : Rewrites σ r r') : Rewrites σ (.binaryExpression op l r) (.binaryExpression op l' r')
  | foldBinary {σ : Scope N} {op : BinaryOperator} {l l' r r' e : Expr N} (hl : Rewrites σ l l')
      (hr : Rewrites σ r r') (he : evalBinary op l' r' = some e) :
      Rewrites σ (.binaryExpression op l r) e
  | logical {σ : Scope N} {op : LogicalOperator} {l l' r r' : Expr N} (hl : Rewrites σ l l')
      (hr : Rewrites σ r r') :
      Rewrites σ (.logicalExpression op l r) (.logicalExpression op l' r')
  | keepLeft {σ : Scope N} {op : LogicalOperator} {l l' r : Expr N} (hl : Rewrites σ l l')
      (hstop : isStaticallyTruthy l' = some (stopsAt op)) :
      Rewrites σ (.logicalExpression op l r) l'
  | keepRight {σ : Scope N} {op : LogicalOperator} {l l' r r' : Expr N} (hl : Rewrites σ l l')
      (hr : Rewrites σ r r') (hgo : isStaticallyTruthy l' = some (!stopsAt op))
      (hinert : inert true l' = true) : Rewrites σ (.logicalExpression op l r) r'
  | call {σ : Scope N} {base base' : Expr N} {args args' : List (Expr N)} {inParens : Bool}
      (hbase : Rewrites σ base base') (hargs : RewritesArgs true σ args args') :
      Rewrites σ (.callExpression base args inParens) (.callExpression base' args' inParens)
  | methodCall {σ : Scope N} {base base' method : Expr N} {args args' : List (Expr N)}
      {inParens : Bool} (hbase : Rewrites σ base base') (hargs : RewritesArgs true σ args args') :
      Rewrites σ (.methodCallExpression base method args inParens)
        (.methodCallExpression base' method args' inParens)
  | member {σ : Scope N} {base base' property : Expr N} (hbase : Rewrites σ base base') :
      Rewrites σ (.memberExpression base property) (.memberExpression base' property)
  | index {σ : Scope N} {base base' i i' : Expr N} (hbase : Rewrites σ base base')
      (hi : Rewrites σ i i') : Rewrites σ (.indexExpression base i) (.indexExpression base' i')
  | function {σ σ' : Scope N} {exits : List (Scope N)} {params : List (Expr N)} {isVararg : Bool}
      {body body' : List (Stmt N)} (hbody : RewritesBlock exits (bindAll σ params) σ' body body') :
      Rewrites σ (.functionExpression params isVararg body)
        (.functionExpression params isVararg body')
  | table {σ : Scope N} {fields fields' : List (TableField N)}
      (hfields : RewritesFields σ fields fields') :
      Rewrites σ (.tableConstructor fields) (.tableConstructor fields')

/-- Lists of expressions; with `multi`, the number of values matters. -/
inductive RewritesArgs : Bool → Scope N → List (Expr N) → List (Expr N) → Prop
  | nil {multi : Bool} {σ : Scope N} : RewritesArgs multi σ [] []
  | last {multi : Bool} {σ : Scope N} {e e' : Expr N} (he : Rewrites σ e e')
      (hexposes : multi = true → ¬Exposes e e') : RewritesArgs multi σ [e] [e']
  | cons {multi : Bool} {σ : Scope N} {e e' f f' : Expr N} {es es' : List (Expr N)}
      (he : Rewrites σ e e') (hes : RewritesArgs multi σ (f::es) (f'::es')) :
      RewritesArgs multi σ (e::f::es) (e'::f'::es')

inductive RewritesFields : Scope N → List (TableField N) → List (TableField N) → Prop
  | nil {σ : Scope N} : RewritesFields σ [] []
  | last {σ : Scope N} {e e' : Expr N} (he : Rewrites σ e e') (hexposes : ¬Exposes e e') :
      RewritesFields σ [.tableValue e] [.tableValue e']
  | value {σ : Scope N} {e e' : Expr N} {f f' : TableField N} {fs fs' : List (TableField N)}
      (he : Rewrites σ e e') (hfs : RewritesFields σ (f::fs) (f'::fs')) :
      RewritesFields σ (.tableValue e :: f :: fs) (.tableValue e' :: f' :: fs')
  | key {σ : Scope N} {k k' v v' : Expr N} {fs fs' : List (TableField N)} (hk : Rewrites σ k k')
      (hv : Rewrites σ v v') (hfs : RewritesFields σ fs fs') :
      RewritesFields σ (.tableKey k v :: fs) (.tableKey k' v' :: fs')
  | keyString {σ : Scope N} {k v v' : Expr N} {fs fs' : List (TableField N)}
      (hv : Rewrites σ v v') (hfs : RewritesFields σ fs fs') :
      RewritesFields σ (.tableKeyString k v :: fs) (.tableKeyString k v' :: fs')

/-- Targets of an assignment; the cell of a constant is never assigned. -/
inductive RewritesTargets : Scope N → List (Expr N) → List (Expr N) → Prop
  | nil {σ : Scope N} : RewritesTargets σ [] []
  | name {σ : Scope N} {x : String} {es es' : List (Expr N)} (hx : σ x = .unknown)
      (hes : RewritesTargets σ es es') :
      RewritesTargets σ (.identifier x :: es) (.identifier x :: es')
  | member {σ : Scope N} {base base' property : Expr N} {es es' : List (Expr N)}
      (hbase : Rewrites σ base base') (hes : RewritesTargets σ es es') :
      RewritesTargets σ (.memberExpression base property :: es)
        (.memberExpression base' property :: es')
  | index {σ : Scope N} {base base' i i' : Expr N} {es es' : List (Expr N)}
      (hbase : Rewrites σ base base') (hi : Rewrites σ i i') (hes : RewritesTargets σ es es') :
      RewritesTargets σ (.indexExpression base i :: es) (.indexExpression base' i' :: es')
  | malformed {σ : Scope N} {e e' : Expr N} {es es' : List (Expr N)} (he : isLvalue e = false)
      (he' : isLvalue e' = false) : RewritesTargets σ (e::es) (e'::es')

inductive RewritesOption : Scope N → Option (Expr N) → Option (Expr N) → Prop
  | none {σ : Scope N} : RewritesOption σ none none
  | some {σ : Scope N} {e e' : Expr N} (he : Rewrites σ e e') :
      RewritesOption σ (some e) (some e')

/-- Statements, with the scopes before and after. `exits` lists the scopes in
which a `continue` may leave the statement for the condition of a `repeat`. -/
inductive RewritesStmt :
    List (Scope N) → Scope N → Scope N → Stmt N → Stmt N → Prop
  | localStatement {exits : List (Scope N)} {σ σ' : Scope N} {vars init init' : List (Expr N)}
      (hinit : RewritesArgs (decide (init.length < vars.length)) σ init init')
      (hdeclares : Declares σ vars init' σ') :
      RewritesStmt exits σ σ' (.localStatement vars init) (.localStatement vars init')
  | assignment {exits : List (Scope N)} {σ : Scope N} {vars vars' init init' : List (Expr N)}
      (hvars : RewritesTargets σ vars vars')
      (hinit : RewritesArgs (decide (init.length < vars.length)) σ init init') :
      RewritesStmt exits σ σ (.assignmentStatement vars init) (.assignmentStatement vars' init')
  | localFunction {exits inner : List (Scope N)} {σ σ' : Scope N} {identifier : Expr N}
      {params : List (Expr N)} {isVararg : Bool} {body body' : List (Stmt N)}
      (hbody : RewritesBlock inner (bindAll (bindAll σ [identifier]) params) σ' body body') :
      RewritesStmt exits σ (bindAll σ [identifier])
        (.localFunctionStatement identifier params isVararg body)
        (.localFunctionStatement identifier params isVararg body')
  | function {exits inner : List (Scope N)} {σ σ' : Scope N} {name : Expr N}
      {params : List (Expr N)} {isVararg isMethod : Bool} {body body' : List (Stmt N)}
      (hname : ∀ root path, functionName name = some (root, path) →
        σ root ≠ .leaked ∧ (path = [] → σ root = .unknown))
      (hbody : RewritesBlock inner
        (bindAll σ (if isMethod then .identifier "self" :: params else params)) σ' body body') :
      RewritesStmt exits σ σ (.functionDeclaration name params isVararg body isMethod)
        (.functionDeclaration name params isVararg body' isMethod)
  | call {exits : List (Scope N)} {σ : Scope N} {e e' : Expr N} (he : Rewrites σ e e') :
      RewritesStmt exits σ σ (.callStatement e) (.callStatement e')
  | ifStatement {exits inner : List (Scope N)} {σ : Scope N} {cs cs' : List (IfClause N)}
      {els els' : Option (List (Stmt N))} (hinner : inner = [] ∨ σ ∈ exits)
      (hcs : RewritesClauses inner σ cs cs') (hels : RewritesElse inner σ els els') :
      RewritesStmt exits σ σ (.ifStatement cs els) (.ifStatement cs' els')
  | shift {exits inner : List (Scope N)} {σ : Scope N} {c : Expr N} {body : List (Stmt N)}
      {cs cs' : List (IfClause N)} {els els' : Option (List (Stmt N))}
      (hinner : inner = [] ∨ σ ∈ exits) (hc : Rewrites σ c (.booleanLiteral false))
      (hcs : RewritesClauses inner σ cs cs') (hels : RewritesElse inner σ els els') :
      RewritesStmt exits σ σ (.ifStatement (.mk c body :: cs) els) (.ifStatement cs' els')
  | drop {exits inner : List (Scope N)} {σ : Scope N} {c : Expr N} {body : List (Stmt N)}
      {els els' : Option (List (Stmt N))} (hinner : inner = [] ∨ σ ∈ exits)
      (hc : Rewrites σ c (.booleanLiteral false)) (hels : RewritesElse inner σ els els')
      (hempty : els' = none ∨ els' = some []) :
      RewritesStmt exits σ σ (.ifStatement [.mk c body] els) .emptyStatement
  | whileStatement {exits inner : List (Scope N)} {σ σ' : Scope N} {c c' : Expr N}
      {body body' : List (Stmt N)} (hc : Rewrites σ c c')
      (hbody : RewritesBlock inner σ σ' body body') :
      RewritesStmt exits σ σ (.whileStatement c body) (.whileStatement c' body')
  | repeatStatement {exits inner : List (Scope N)} {σ σ' : Scope N} {c c' : Expr N}
      {body body' : List (Stmt N)} (hbody : RewritesBlock inner σ σ' body body')
      (hc : ∀ τ, τ ∈ σ' :: inner → Rewrites τ c c') :
      RewritesStmt exits σ σ (.repeatStatement c body) (.repeatStatement c' body')
  | numericFor {exits inner : List (Scope N)} {σ σ' : Scope N} {x a a' b b' : Expr N}
      {step step' : Option (Expr N)} {body body' : List (Stmt N)} (ha : Rewrites σ a a')
      (hb : Rewrites σ b b') (hstep : RewritesOption σ step step')
      (hbody : RewritesBlock inner (bindAll σ [x]) σ' body body') :
      RewritesStmt exits σ σ (.numericForStatement x a b step body)
        (.numericForStatement x a' b' step' body')
  | genericFor {exits inner : List (Scope N)} {σ σ' : Scope N}
      {vars iterators iterators' : List (Expr N)} {body body' : List (Stmt N)}
      (hits : RewritesArgs (decide (iterators.length < 3)) σ iterators iterators')
      (hbody : RewritesBlock inner (bindAll σ vars) σ' body body') :
      RewritesStmt exits σ σ (.genericForStatement vars iterators body)
        (.genericForStatement vars iterators' body')
  | doStatement {exits inner : List (Scope N)} {σ σ' : Scope N} {body body' : List (Stmt N)}
      (hinner : inner = [] ∨ σ ∈ exits) (hbody : RewritesBlock inner σ σ' body body') :
      RewritesStmt exits σ σ (.doStatement body) (.doStatement body')
  | returnStatement {exits : List (Scope N)} {σ : Scope N} {args args' : List (Expr N)}
      (hargs : RewritesArgs true σ args args') :
      RewritesStmt exits σ σ (.returnStatement args) (.returnStatement args')
  | breakStatement {exits : List (Scope N)} {σ : Scope N} :
      RewritesStmt exits σ σ .breakStatement .breakStatement
  | continueStatement {exits : List (Scope N)} {σ : Scope N} (hexit : σ ∈ exits) :
      RewritesStmt exits σ σ .continueStatement .continueStatement
  | emptyStatement {exits : List (Scope N)} {σ : Scope N} :
      RewritesStmt exits σ σ .emptyStatement .emptyStatement

inductive RewritesBlock :
    List (Scope N) → Scope N → Scope N → List (Stmt N) → List (Stmt N) → Prop
  | nil {exits : List (Scope N)} {σ : Scope N} : RewritesBlock exits σ σ [] []
  | cons {exits : List (Scope N)} {σ σ₁ σ₂ : Scope N} {s s' : Stmt N} {ss ss' : List (Stmt N)}
      (hs : RewritesStmt exits σ σ₁ s s') (hss : RewritesBlock exits σ₁ σ₂ ss ss') :
      RewritesBlock exits σ σ₂ (s::ss) (s'::ss')
  | skip {exits : List (Scope N)} {σ σ₁ σ₂ : Scope N} {s s' : Stmt N} {ss ss' : List (Stmt N)}
      (hs : RewritesStmt exits σ σ₁ s s') (hvacuous : isVacuous s' = true)
      (hss : RewritesBlock exits σ₁ σ₂ ss ss') : RewritesBlock exits σ σ₂ (s::ss) ss'
  | spliceThen {exits inner : List (Scope N)} {σ σ₁ σ₂ : Scope N} {c : Expr N}
      {body body' ss ss' : List (Stmt N)} {cs : List (IfClause N)}
      {els : Option (List (Stmt N))}
      (hinner : inner = [] ∨ leakAll σ (declaredNames body') ∈ exits)
      (hc : Rewrites σ c (.booleanLiteral true)) (hbody : RewritesBlock inner σ σ₁ body body')
      (hss : RewritesBlock exits (leakAll σ (declaredNames body')) σ₂ ss ss') :
      RewritesBlock exits σ σ₂ (.ifStatement (.mk c body :: cs) els :: ss) (body' ++ ss')
  | spliceElse {exits inner : List (Scope N)} {σ σ₁ σ₂ : Scope N} {c : Expr N}
      {dead body body' ss ss' : List (Stmt N)}
      (hinner : inner = [] ∨ leakAll σ (declaredNames body') ∈ exits)
      (hc : Rewrites σ c (.booleanLiteral false)) (hbody : RewritesBlock inner σ σ₁ body body')
      (hss : RewritesBlock exits (leakAll σ (declaredNames body')) σ₂ ss ss') :
      RewritesBlock exits σ σ₂ (.ifStatement [.mk c dead] (some body) :: ss) (body' ++ ss')

inductive RewritesElse :
    List (Scope N) → Scope N → Option (List (Stmt N)) → Option (List (Stmt N)) → Prop
  | none {exits : List (Scope N)} {σ : Scope N} : RewritesElse exits σ none none
  | some {exits : List (Scope N)} {σ σ' : Scope N} {body body' : List (Stmt N)}
      (hbody : RewritesBlock exits σ σ' body body') : RewritesElse exits σ (some body) (some body')

inductive RewritesClauses :
    List (Scope N) → Scope N → List (IfClause N) → List (IfClause N) → Prop
  | nil {exits : List (Scope N)} {σ : Scope N} : RewritesClauses exits σ [] []
  | cons {exits : List (Scope N)} {σ σ' : Scope N} {c c' : Expr N} {body body' : List (Stmt N)}
      {cs cs' : List (IfClause N)} (hc : Rewrites σ c c')
      (hbody : RewritesBlock exits σ σ' body body') (hcs : RewritesClauses exits σ cs cs') :
      RewritesClauses exits σ (.mk c body :: cs) (.mk c' body' :: cs')

end

end Rewriting
end LuaRecovery.Transforms
