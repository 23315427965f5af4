import LuaRecovery.Lua.ShownTrees
import LuaRecovery.Lua.Nodes
import LuaRecovery.Transforms.CleanupSound

/-!
# What is read back means the same

A program and what is read back from its text fold to one and the same program:
the sign of a negative number is folded into it, and empty statements are
dropped. They run alike, where every number and string is read back with its
own value, no call is in parentheses, no method is declared, no `else` is empty
and no power has a negative number for its base.
-/

set_option autoImplicit false

namespace LuaRecovery.Transforms
open LuaRecovery.Lib LuaRecovery.Lua LuaRecovery.Evaluator LuaGenerator Spelling

section
variable {N : Type} [Numerals N] [LuaNumber N]

/-- The text of a number, which is read back as the number or as the negation of it. -/
def Spells (value : N) : List Char → Prop
  | '-' :: text => startsName text = false ∧ LuaNumber.neg (Numerals.number text) = value
  | text => startsName text = false ∧ Numerals.number text = value

/-- What its text keeps of a node. -/
def Kept : Lua.Node N → Prop
  | .expr (.numericLiteral value raw) => Spells value (numericText value raw).toList
  | .expr (.stringLiteral value) =>
      ByteString.fromLuaLiteral (ByteString.toLuaLiteral value '"') = value
  | .expr (.binaryExpression operator left _) => operator = .pow → negated left = none
  | .expr (.callExpression _ _ inParens) => inParens = false
  | .expr (.methodCallExpression _ _ _ inParens) => inParens = false
  | .stmt (.functionDeclaration _ _ _ _ isMethod) => isMethod = false
  | .stmt (.ifStatement _ elseBody) => elseBody ≠ some []
  | _ => True

def AllKept (nodes : List (Lua.Node N)) : Prop := ∀ n ∈ nodes, Kept n

theorem allKept_cons {n : Lua.Node N} {ns : List (Lua.Node N)} :
    AllKept (n::ns) ↔ Kept n ∧ AllKept ns := List.forall_mem_cons

theorem allKept_append {ns ms : List (Lua.Node N)} :
    AllKept (ns ++ ms) ↔ AllKept ns ∧ AllKept ms := List.forall_mem_append

omit [Numerals N] [LuaNumber N] in
/-- Expressions that may stand in the same places. -/
def SamePlace (e e' : Expr N) : Prop := e'.isMulti = e.isMulti ∧ isLvalue e' = isLvalue e

omit [Numerals N] [LuaNumber N] in
theorem SamePlace.not_exposes {e e' : Expr N} (h : SamePlace e e') : ¬Exposes e e' :=
  fun hexposes => absurd (hexposes.2.symm.trans (h.1.symm.trans hexposes.1)) nofun

/-- Both expressions fold to one. -/
def Merge (e e' : Expr N) : Prop :=
  ∃ c, (Rewrites plain e c ∧ SamePlace e c) ∧ Rewrites plain e' c ∧ SamePlace e' c

def MergeArgs (multi : Bool) (es es' : List (Expr N)) : Prop :=
  ∃ cs, RewritesArgs multi plain es cs ∧ RewritesArgs multi plain es' cs

def MergeFields (fs fs' : List (TableField N)) : Prop :=
  ∃ cs, RewritesFields plain fs cs ∧ RewritesFields plain fs' cs

def MergeBlock (ss ss' : List (Stmt N)) : Prop :=
  ∃ cs, RewritesBlock [plain] plain plain ss cs ∧ RewritesBlock [plain] plain plain ss' cs

def MergeTargets (es es' : List (Expr N)) : Prop :=
  ∃ cs, RewritesTargets plain es cs ∧ RewritesTargets plain es' cs

def MergeOption (e e' : Option (Expr N)) : Prop :=
  ∃ c, RewritesOption plain e c ∧ RewritesOption plain e' c

def MergeElse (els els' : Option (List (Stmt N))) : Prop :=
  ∃ cs, RewritesElse [plain] plain els cs ∧ RewritesElse [plain] plain els' cs

def MergeClauses (clauses clauses' : List (IfClause N)) : Prop :=
  ∃ cs, RewritesClauses [plain] plain clauses cs ∧ RewritesClauses [plain] plain clauses' cs

def MergeStmt (s s' : Stmt N) : Prop :=
  ∃ c, RewritesStmt [plain] plain plain s c ∧ RewritesStmt [plain] plain plain s' c

omit [Numerals N] in
theorem Merge.self (e : Expr N) : Merge e e :=
  ⟨e, ⟨rewrites_self e, rfl, rfl⟩, rewrites_self e, rfl, rfl⟩

/-- A number and the negation of its magnitude. -/
theorem merge_number {value : N} {raw : String} (text : List Char) (h : Spells value text) :
    Merge (.numericLiteral value raw) (numberNode text) := by
  by_cases hsign : ∃ ds, text = '-'::ds
  · obtain ⟨ds, rfl⟩ := hsign
    rw [Spells] at h
    have hnode : numberNode ('-'::ds) = (.unaryExpression .minus
        (.numericLiteral (Numerals.number ds) (String.ofList ds)) : Expr N) := by
      rw [numberNode, atomNode, h.1]
      rfl
    rw [hnode]
    refine ⟨numericResult value, ⟨.numericLiteral, rfl, rfl⟩,
      .foldUnary (rewrites_self _) ?_ rfl, rfl, rfl⟩
    rw [evalUnary, h.2]
  · have hplain : ∀ ds, text = '-'::ds → False := fun ds heq => hsign ⟨ds, heq⟩
    rw [Spells.eq_2 value text hplain] at h
    have hnode : numberNode text = (.numericLiteral value (String.ofList text) : Expr N) := by
      rw [numberNode.eq_2 text hplain, atomNode, h.1, h.2]
      rfl
    rw [hnode]
    exact ⟨.numericLiteral value raw, ⟨.numericLiteral, rfl, rfl⟩, .numericLiteral, rfl, rfl⟩

section Congruence
omit [Numerals N]
variable {a a' b b' c c' : Expr N} {es es' : List (Expr N)} {body body' : List (Stmt N)}

theorem RewritesArgs.more {multi : Bool} {e e' f : Expr N} {es es' : List (Expr N)}
    (he : Rewrites plain e e') (hes : RewritesArgs multi plain (f::es) es') :
    RewritesArgs multi plain (e::f::es) (e'::es') := by
  cases hes with
  | last he' hexposes => exact .cons he (.last he' hexposes)
  | cons he' hes => exact .cons he (.cons he' hes)

theorem RewritesFields.more {e e' : Expr N} {f : TableField N} {fs fs' : List (TableField N)}
    (he : Rewrites plain e e') (hfs : RewritesFields plain (f::fs) fs') :
    RewritesFields plain (.tableValue e :: f :: fs) (.tableValue e' :: fs') := by
  cases hfs with
  | last he' hexposes => exact .value he (.last he' hexposes)
  | value he' hfs => exact .value he (.value he' hfs)
  | key hk hv hfs => exact .value he (.key hk hv hfs)
  | keyString hv hfs => exact .value he (.keyString hv hfs)

theorem MergeArgs.nil {multi : Bool} : MergeArgs multi ([] : List (Expr N)) [] :=
  ⟨[], .nil, .nil⟩

theorem MergeArgs.last {multi : Bool} (h : Merge a a') : MergeArgs multi [a] [a'] := by
  obtain ⟨d, ⟨hd, hplace⟩, hd', hplace'⟩ := h
  exact ⟨[d], .last hd fun _ => hplace.not_exposes, .last hd' fun _ => hplace'.not_exposes⟩

theorem MergeArgs.cons {multi : Bool} (h : Merge a a') (hes : MergeArgs multi (b::es) (b'::es')) :
    MergeArgs multi (a::b::es) (a'::b'::es') := by
  obtain ⟨d, ⟨hd, -⟩, hd', -⟩ := h
  obtain ⟨ds, hds, hds'⟩ := hes
  exact ⟨d::ds, .more hd hds, .more hd' hds'⟩

theorem MergeFields.last (h : Merge a a') : MergeFields [.tableValue a] [.tableValue a'] := by
  obtain ⟨d, ⟨hd, hplace⟩, hd', hplace'⟩ := h
  exact ⟨[.tableValue d], .last hd hplace.not_exposes, .last hd' hplace'.not_exposes⟩

theorem MergeFields.value {f f' : TableField N} {fs fs' : List (TableField N)} (h : Merge a a')
    (hfs : MergeFields (f::fs) (f'::fs')) :
    MergeFields (.tableValue a :: f :: fs) (.tableValue a' :: f' :: fs') := by
  obtain ⟨d, ⟨hd, -⟩, hd', -⟩ := h
  obtain ⟨ds, hds, hds'⟩ := hfs
  exact ⟨.tableValue d :: ds, .more hd hds, .more hd' hds'⟩

theorem MergeFields.key {fs fs' : List (TableField N)} (hk : Merge a a') (hv : Merge b b')
    (hfs : MergeFields fs fs') :
    MergeFields (.tableKey a b :: fs) (.tableKey a' b' :: fs') := by
  obtain ⟨d, ⟨hd, -⟩, hd', -⟩ := hk
  obtain ⟨v, ⟨hv, -⟩, hv', -⟩ := hv
  obtain ⟨ds, hds, hds'⟩ := hfs
  exact ⟨.tableKey d v :: ds, .key hd hv hds, .key hd' hv' hds'⟩

theorem MergeFields.keyString {fs fs' : List (TableField N)} (hv : Merge b b')
    (hfs : MergeFields fs fs') :
    MergeFields (.tableKeyString a b :: fs) (.tableKeyString a b' :: fs') := by
  obtain ⟨v, ⟨hv, -⟩, hv', -⟩ := hv
  obtain ⟨ds, hds, hds'⟩ := hfs
  exact ⟨.tableKeyString a v :: ds, .keyString hv hds, .keyString hv' hds'⟩

theorem Merge.unary {operator : UnaryOperator} (h : Merge a a') :
    Merge (.unaryExpression operator a) (.unaryExpression operator a') := by
  obtain ⟨d, ⟨hd, -⟩, hd', -⟩ := h
  exact ⟨.unaryExpression operator d, ⟨.unary hd, rfl, rfl⟩, .unary hd', rfl, rfl⟩

theorem Merge.binary {operator : BinaryOperator} (ha : Merge a a') (hb : Merge b b') :
    Merge (.binaryExpression operator a b) (.binaryExpression operator a' b') := by
  obtain ⟨d, ⟨hd, -⟩, hd', -⟩ := ha
  obtain ⟨f, ⟨hf, -⟩, hf', -⟩ := hb
  exact ⟨.binaryExpression operator d f, ⟨.binary hd hf, rfl, rfl⟩, .binary hd' hf', rfl, rfl⟩

theorem Merge.logical {operator : LogicalOperator} (ha : Merge a a') (hb : Merge b b') :
    Merge (.logicalExpression operator a b) (.logicalExpression operator a' b') := by
  obtain ⟨d, ⟨hd, -⟩, hd', -⟩ := ha
  obtain ⟨f, ⟨hf, -⟩, hf', -⟩ := hb
  exact ⟨.logicalExpression operator d f, ⟨.logical hd hf, rfl, rfl⟩, .logical hd' hf', rfl, rfl⟩

theorem Merge.call {inParens : Bool} (ha : Merge a a') (hes : MergeArgs true es es') :
    Merge (.callExpression a es inParens) (.callExpression a' es' inParens) := by
  obtain ⟨d, ⟨hd, -⟩, hd', -⟩ := ha
  obtain ⟨ds, hds, hds'⟩ := hes
  exact ⟨.callExpression d ds inParens, ⟨.call hd hds, rfl, rfl⟩, .call hd' hds', rfl, rfl⟩

theorem Merge.methodCall {inParens : Bool} (ha : Merge a a') (hes : MergeArgs true es es') :
    Merge (.methodCallExpression a b es inParens) (.methodCallExpression a' b es' inParens) := by
  obtain ⟨d, ⟨hd, -⟩, hd', -⟩ := ha
  obtain ⟨ds, hds, hds'⟩ := hes
  exact ⟨.methodCallExpression d b ds inParens, ⟨.methodCall hd hds, rfl, rfl⟩,
    .methodCall hd' hds', rfl, rfl⟩

theorem Merge.member (ha : Merge a a') :
    Merge (.memberExpression a b) (.memberExpression a' b) := by
  obtain ⟨d, ⟨hd, -⟩, hd', -⟩ := ha
  exact ⟨.memberExpression d b, ⟨.member hd, rfl, rfl⟩, .member hd', rfl, rfl⟩

theorem Merge.index (ha : Merge a a') (hb : Merge b b') :
    Merge (.indexExpression a b) (.indexExpression a' b') := by
  obtain ⟨d, ⟨hd, -⟩, hd', -⟩ := ha
  obtain ⟨f, ⟨hf, -⟩, hf', -⟩ := hb
  exact ⟨.indexExpression d f, ⟨.index hd hf, rfl, rfl⟩, .index hd' hf', rfl, rfl⟩

theorem Merge.function {params : List (Expr N)} {isVararg : Bool} (h : MergeBlock body body') :
    Merge (.functionExpression params isVararg body)
      (.functionExpression params isVararg body') := by
  obtain ⟨ds, hds, hds'⟩ := h
  exact ⟨.functionExpression params isVararg ds, ⟨.function (hds.afterBinding _), rfl, rfl⟩,
    .function (hds'.afterBinding _), rfl, rfl⟩

theorem Merge.table {fs fs' : List (TableField N)} (h : MergeFields fs fs') :
    Merge (.tableConstructor fs) (.tableConstructor fs') := by
  obtain ⟨ds, hds, hds'⟩ := h
  exact ⟨.tableConstructor ds, ⟨.table hds, rfl, rfl⟩, .table hds', rfl, rfl⟩

theorem MergeTargets.nil : MergeTargets ([] : List (Expr N)) [] := ⟨[], .nil, .nil⟩

theorem MergeTargets.name {x : String} (hes : MergeTargets es es') :
    MergeTargets (.identifier x :: es) (.identifier x :: es') := by
  obtain ⟨ds, hds, hds'⟩ := hes
  exact ⟨.identifier x :: ds, .name rfl hds, .name rfl hds'⟩

theorem MergeTargets.member (ha : Merge a a') (hes : MergeTargets es es') :
    MergeTargets (.memberExpression a b :: es) (.memberExpression a' b :: es') := by
  obtain ⟨d, ⟨hd, -⟩, hd', -⟩ := ha
  obtain ⟨ds, hds, hds'⟩ := hes
  exact ⟨.memberExpression d b :: ds, .member hd hds, .member hd' hds'⟩

theorem MergeTargets.index (ha : Merge a a') (hb : Merge b b') (hes : MergeTargets es es') :
    MergeTargets (.indexExpression a b :: es) (.indexExpression a' b' :: es') := by
  obtain ⟨d, ⟨hd, -⟩, hd', -⟩ := ha
  obtain ⟨f, ⟨hf, -⟩, hf', -⟩ := hb
  obtain ⟨ds, hds, hds'⟩ := hes
  exact ⟨.indexExpression d f :: ds, .index hd hf hds, .index hd' hf' hds'⟩

theorem MergeTargets.malformed (ha : Merge a a') (hlvalue : isLvalue a = false) :
    MergeTargets (a::es) (a'::es') := by
  obtain ⟨d, ⟨-, -, hd⟩, -, -, hd'⟩ := ha
  have hplace : isLvalue d = false := hd.trans hlvalue
  exact ⟨d::es, .malformed hlvalue hplace, .malformed (hd'.symm.trans hplace) hplace⟩

theorem MergeBlock.nil : MergeBlock ([] : List (Stmt N)) [] := ⟨[], .nil, .nil⟩

theorem MergeBlock.cons {s s' : Stmt N} {ss ss' : List (Stmt N)} (h : MergeStmt s s')
    (hss : MergeBlock ss ss') : MergeBlock (s::ss) (s'::ss') := by
  obtain ⟨d, hd, hd'⟩ := h
  obtain ⟨ds, hds, hds'⟩ := hss
  exact ⟨d::ds, .cons hd hds, .cons hd' hds'⟩

theorem MergeBlock.skip {ss ss' : List (Stmt N)} (hss : MergeBlock ss ss') :
    MergeBlock (.emptyStatement :: ss) ss' := by
  obtain ⟨ds, hds, hds'⟩ := hss
  exact ⟨ds, .skip .emptyStatement rfl hds, hds'⟩

theorem MergeClauses.nil : MergeClauses ([] : List (IfClause N)) [] := ⟨[], .nil, .nil⟩

theorem MergeClauses.cons {cs cs' : List (IfClause N)} (h : Merge a a')
    (hbody : MergeBlock body body') (hcs : MergeClauses cs cs') :
    MergeClauses (.mk a body :: cs) (.mk a' body' :: cs') := by
  obtain ⟨d, ⟨hd, -⟩, hd', -⟩ := h
  obtain ⟨bs, hbs, hbs'⟩ := hbody
  obtain ⟨ds, hds, hds'⟩ := hcs
  exact ⟨.mk d bs :: ds, .cons hd hbs hds, .cons hd' hbs' hds'⟩

theorem MergeElse.none : MergeElse (none : Option (List (Stmt N))) none :=
  ⟨_, .none, .none⟩

theorem MergeElse.some (h : MergeBlock body body') : MergeElse (some body) (some body') := by
  obtain ⟨ds, hds, hds'⟩ := h
  exact ⟨_, .some hds, .some hds'⟩

theorem MergeOption.none : MergeOption (none : Option (Expr N)) none := ⟨_, .none, .none⟩

theorem MergeOption.some (h : Merge a a') : MergeOption (some a) (some a') := by
  obtain ⟨d, ⟨hd, -⟩, hd', -⟩ := h
  exact ⟨_, .some hd, .some hd'⟩

/-- A list of initial values, of which the last one may stand for several. -/
def MergeInit (es es' : List (Expr N)) : Prop :=
  es'.length = es.length ∧ ∀ multi, MergeArgs multi es es'

theorem MergeStmt.localStatement {vars : List (Expr N)} (h : MergeInit es es') :
    MergeStmt (.localStatement vars es) (.localStatement vars es') := by
  obtain ⟨hlen, hes⟩ := h
  obtain ⟨ds, hds, hds'⟩ := hes (decide (es.length < vars.length))
  rw [← hlen] at hds'
  exact ⟨.localStatement vars ds, .localStatement hds (declares_plain _ _),
    .localStatement hds' (declares_plain _ _)⟩

theorem MergeStmt.assignment {vars vars' : List (Expr N)} (hlength : vars'.length = vars.length)
    (hvars : MergeTargets vars vars') (h : MergeInit es es') :
    MergeStmt (.assignmentStatement vars es) (.assignmentStatement vars' es') := by
  obtain ⟨hlen, hes⟩ := h
  obtain ⟨fs, hfs, hfs'⟩ := hvars
  obtain ⟨ds, hds, hds'⟩ := hes (decide (es.length < vars.length))
  rw [← hlen, ← hlength] at hds'
  exact ⟨.assignmentStatement fs ds, .assignment hfs hds, .assignment hfs' hds'⟩

theorem MergeStmt.localFunction {params : List (Expr N)} {isVararg : Bool}
    (h : MergeBlock body body') :
    MergeStmt (.localFunctionStatement a params isVararg body)
      (.localFunctionStatement a params isVararg body') := by
  obtain ⟨ds, hds, hds'⟩ := h
  exact ⟨.localFunctionStatement a params isVararg ds, .plainLocalFunction hds,
    .plainLocalFunction hds'⟩

theorem MergeStmt.function {params : List (Expr N)} {isVararg isMethod : Bool}
    (h : MergeBlock body body') :
    MergeStmt (.functionDeclaration a params isVararg body isMethod)
      (.functionDeclaration a params isVararg body' isMethod) := by
  obtain ⟨ds, hds, hds'⟩ := h
  exact ⟨.functionDeclaration a params isVararg ds isMethod, .plainFunction hds,
    .plainFunction hds'⟩

theorem MergeStmt.call (h : Merge a a') : MergeStmt (.callStatement a) (.callStatement a') := by
  obtain ⟨d, ⟨hd, -⟩, hd', -⟩ := h
  exact ⟨.callStatement d, .call hd, .call hd'⟩

omit [LuaNumber N] in
theorem plain_inside : [(plain : Scope N)] = [] ∨ plain ∈ [(plain : Scope N)] :=
  .inr (List.mem_singleton_self _)

theorem MergeStmt.ifStatement {cs cs' : List (IfClause N)} {els els' : Option (List (Stmt N))}
    (hcs : MergeClauses cs cs') (hels : MergeElse els els') :
    MergeStmt (.ifStatement cs els) (.ifStatement cs' els') := by
  obtain ⟨ds, hds, hds'⟩ := hcs
  obtain ⟨fs, hfs, hfs'⟩ := hels
  exact ⟨.ifStatement ds fs, .ifStatement plain_inside hds hfs, .ifStatement plain_inside hds' hfs'⟩

theorem MergeStmt.whileStatement (h : Merge a a') (hbody : MergeBlock body body') :
    MergeStmt (.whileStatement a body) (.whileStatement a' body') := by
  obtain ⟨d, ⟨hd, -⟩, hd', -⟩ := h
  obtain ⟨ds, hds, hds'⟩ := hbody
  exact ⟨.whileStatement d ds, .whileStatement hd hds, .whileStatement hd' hds'⟩

theorem MergeStmt.repeatStatement (h : Merge a a') (hbody : MergeBlock body body') :
    MergeStmt (.repeatStatement a body) (.repeatStatement a' body') := by
  obtain ⟨d, ⟨hd, -⟩, hd', -⟩ := h
  obtain ⟨ds, hds, hds'⟩ := hbody
  exact ⟨.repeatStatement d ds, .repeatStatement hds (rewrites_in_plain hd),
    .repeatStatement hds' (rewrites_in_plain hd')⟩

theorem MergeStmt.numericFor {x : Expr N} {step step' : Option (Expr N)} (ha : Merge a a')
    (hb : Merge b b') (hstep : MergeOption step step') (hbody : MergeBlock body body') :
    MergeStmt (.numericForStatement x a b step body)
      (.numericForStatement x a' b' step' body') := by
  obtain ⟨d, ⟨hd, -⟩, hd', -⟩ := ha
  obtain ⟨f, ⟨hf, -⟩, hf', -⟩ := hb
  obtain ⟨g, hg, hg'⟩ := hstep
  obtain ⟨ds, hds, hds'⟩ := hbody
  exact ⟨.numericForStatement x d f g ds, .numericFor hd hf hg (hds.afterBinding _),
    .numericFor hd' hf' hg' (hds'.afterBinding _)⟩

theorem MergeStmt.genericFor {vars : List (Expr N)} (h : MergeInit es es')
    (hbody : MergeBlock body body') :
    MergeStmt (.genericForStatement vars es body) (.genericForStatement vars es' body') := by
  obtain ⟨hlen, hes⟩ := h
  obtain ⟨ds, hds, hds'⟩ := hes (decide (es.length < 3))
  obtain ⟨bs, hbs, hbs'⟩ := hbody
  rw [← hlen] at hds'
  exact ⟨.genericForStatement vars ds bs, .genericFor hds (hbs.afterBinding _),
    .genericFor hds' (hbs'.afterBinding _)⟩

theorem MergeStmt.doStatement (hbody : MergeBlock body body') :
    MergeStmt (.doStatement body) (.doStatement body') := by
  obtain ⟨ds, hds, hds'⟩ := hbody
  exact ⟨.doStatement ds, .doStatement plain_inside hds, .doStatement plain_inside hds'⟩

theorem MergeStmt.returnStatement (h : MergeArgs true es es') :
    MergeStmt (.returnStatement es) (.returnStatement es') := by
  obtain ⟨ds, hds, hds'⟩ := h
  exact ⟨.returnStatement ds, .returnStatement hds, .returnStatement hds'⟩

theorem MergeStmt.self (s : Stmt N) : MergeStmt s s :=
  ⟨s, rewritesStmt_self s, rewritesStmt_self s⟩

end Congruence

omit [LuaNumber N] in
theorem exprsReread_length (es : List (Expr N)) : (exprsReread es).length = es.length := by
  induction es with
  | nil => rfl
  | cons e es ih =>
    rw [exprsReread, List.length_cons, List.length_cons, ih]

omit [Numerals N] [LuaNumber N] in
theorem eq_empty {s : Stmt N} (h : ¬s.IsPrinted = true) : s = .emptyStatement := by
  cases s with
  | emptyStatement => rfl
  | _ => exact absurd rfl h

omit [LuaNumber N] in
/-- Where no power has a negative number for its base, the operator stays on top. -/
theorem binaryNode_kept {operator : BinaryOperator} {left a b : Expr N}
    (h : operator = .pow → negated left = none) :
    binaryNode operator (negated left) a b = .binaryExpression operator a b := by
  cases operator with
  | pow => rw [h rfl, binaryNode.eq_def]
  | _ => rw [binaryNode.eq_def]

theorem kept_head {n : Lua.Node N} {ns : List (Lua.Node N)} (h : AllKept (n::ns)) : Kept n :=
  (allKept_cons.mp h).1

theorem kept_tail {n : Lua.Node N} {ns : List (Lua.Node N)} (h : AllKept (n::ns)) : AllKept ns :=
  (allKept_cons.mp h).2

theorem kept_left {ns ms : List (Lua.Node N)} (h : AllKept (ns ++ ms)) : AllKept ns :=
  (allKept_append.mp h).1

theorem kept_right {ns ms : List (Lua.Node N)} (h : AllKept (ns ++ ms)) : AllKept ms :=
  (allKept_append.mp h).2

mutual

theorem merge_expr : ∀ e : Expr N, AllKept (exprNodes e) → Merge e e.reread
  | .identifier _, _ => .self _
  | .numericLiteral value raw, h => by
    rw [Expr.reread]
    exact merge_number _ (kept_head h)
  | .stringLiteral value, h => by
    have hvalue : ByteString.fromLuaLiteral (ByteString.toLuaLiteral value '"') = value :=
      kept_head h
    rw [Expr.reread, hvalue]
    exact .self _
  | .booleanLiteral _, _ => .self _
  | .nilLiteral, _ => .self _
  | .varargLiteral _, _ => .self _
  | .unaryExpression _ argument, h => (merge_expr argument (kept_tail h)).unary
  | .binaryExpression operator left right, h => by
    have hleft := merge_expr left (kept_left (kept_tail h))
    have hright := merge_expr right (kept_right (kept_tail h))
    have hpow : operator = .pow → negated left = none := kept_head h
    rw [Expr.reread, binaryNode_kept hpow]
    exact hleft.binary hright
  | .logicalExpression _ left right, h =>
    (merge_expr left (kept_left (kept_tail h))).logical
      (merge_expr right (kept_right (kept_tail h)))
  | .callExpression base args inParens, h => by
    have hparens : inParens = false := kept_head h
    subst hparens
    exact (merge_expr base (kept_left (kept_tail h))).call
      (merge_exprs true args (kept_right (kept_tail h)))
  | .methodCallExpression base method args inParens, h => by
    have hparens : inParens = false := kept_head h
    subst hparens
    exact (merge_expr base (kept_left (kept_left (kept_tail h)))).methodCall
      (merge_exprs true args (kept_right (kept_tail h)))
  | .memberExpression base _, h => (merge_expr base (kept_left (kept_tail h))).member
  | .indexExpression base index, h =>
    (merge_expr base (kept_left (kept_tail h))).index (merge_expr index (kept_right (kept_tail h)))
  | .functionExpression _ _ body, h => .function (merge_block body (kept_right (kept_tail h)))
  | .tableConstructor fields, h => .table (merge_fields fields (kept_tail h))

theorem merge_exprs (multi : Bool) : ∀ es : List (Expr N), AllKept (exprsNodes es) →
    MergeArgs multi es (exprsReread es)
  | [], _ => .nil
  | [e], h => .last (merge_expr e (kept_left h))
  | e::f::es, h => .cons (merge_expr e (kept_left h)) (merge_exprs multi (f::es) (kept_right h))

theorem merge_fields : ∀ fs : List (TableField N), AllKept (fieldsNodes fs) →
    MergeFields fs (fieldsReread fs)
  | [], _ => ⟨[], .nil, .nil⟩
  | [.tableValue value], h => .last (merge_expr value (kept_left h))
  | .tableValue value :: f :: fs, h =>
    .value (merge_expr value (kept_left h)) (merge_fields (f::fs) (kept_right h))
  | .tableKey key value :: fs, h =>
    .key (merge_expr key (kept_left (kept_left h))) (merge_expr value (kept_right (kept_left h)))
      (merge_fields fs (kept_right h))
  | .tableKeyString _ value :: fs, h =>
    .keyString (merge_expr value (kept_right (kept_left h))) (merge_fields fs (kept_right h))

theorem merge_targets : ∀ es : List (Expr N), AllKept (exprsNodes es) →
    MergeTargets es (exprsReread es)
  | [], _ => .nil
  | .identifier _ :: es, h => .name (merge_targets es (kept_right h))
  | .memberExpression base _ :: es, h =>
    .member (merge_expr base (kept_left (kept_tail (kept_left h))))
      (merge_targets es (kept_right h))
  | .indexExpression base index :: es, h =>
    .index (merge_expr base (kept_left (kept_tail (kept_left h))))
      (merge_expr index (kept_right (kept_tail (kept_left h)))) (merge_targets es (kept_right h))
  | .numericLiteral value raw :: _, h =>
    .malformed (merge_expr (.numericLiteral value raw) (kept_left h)) rfl
  | .stringLiteral value :: _, h =>
    .malformed (merge_expr (.stringLiteral value) (kept_left h)) rfl
  | .booleanLiteral value :: _, h =>
    .malformed (merge_expr (.booleanLiteral value) (kept_left h)) rfl
  | .nilLiteral :: _, h => .malformed (merge_expr .nilLiteral (kept_left h)) rfl
  | .varargLiteral inParens :: _, h =>
    .malformed (merge_expr (.varargLiteral inParens) (kept_left h)) rfl
  | .unaryExpression operator argument :: _, h =>
    .malformed (merge_expr (.unaryExpression operator argument) (kept_left h)) rfl
  | .binaryExpression operator left right :: _, h =>
    .malformed (merge_expr (.binaryExpression operator left right) (kept_left h)) rfl
  | .logicalExpression operator left right :: _, h =>
    .malformed (merge_expr (.logicalExpression operator left right) (kept_left h)) rfl
  | .callExpression base args inParens :: _, h =>
    .malformed (merge_expr (.callExpression base args inParens) (kept_left h)) rfl
  | .methodCallExpression base method args inParens :: _, h =>
    .malformed (merge_expr (.methodCallExpression base method args inParens) (kept_left h)) rfl
  | .functionExpression params isVararg body :: _, h =>
    .malformed (merge_expr (.functionExpression params isVararg body) (kept_left h)) rfl
  | .tableConstructor fields :: _, h =>
    .malformed (merge_expr (.tableConstructor fields) (kept_left h)) rfl

theorem merge_stmt : ∀ s : Stmt N, AllKept (stmtNodes s) → MergeStmt s s.reread
  | .localStatement _ init, h =>
    .localStatement ⟨exprsReread_length init,
      fun multi => merge_exprs multi init (kept_right (kept_tail h))⟩
  | .assignmentStatement vars init, h =>
    .assignment (exprsReread_length vars) (merge_targets vars (kept_left (kept_tail h)))
      ⟨exprsReread_length init, fun multi => merge_exprs multi init (kept_right (kept_tail h))⟩
  | .localFunctionStatement _ _ _ body, h =>
    .localFunction (merge_block body (kept_right (kept_tail h)))
  | .functionDeclaration _ _ _ body isMethod, h => by
    have hmethod : isMethod = false := kept_head h
    subst hmethod
    exact .function (merge_block body (kept_right (kept_tail h)))
  | .callStatement expression, h => .call (merge_expr expression (kept_tail h))
  | .ifStatement clauses none, h =>
    .ifStatement (merge_clauses clauses (kept_left (kept_tail h))) .none
  | .ifStatement clauses (some body), h => by
    have hne : some body ≠ some [] := kept_head h
    rw [reread_else clauses fun heq => hne (congrArg some heq)]
    exact .ifStatement (merge_clauses clauses (kept_left (kept_tail h)))
      (.some (merge_block body (kept_right (kept_tail h))))
  | .whileStatement condition body, h =>
    .whileStatement (merge_expr condition (kept_left (kept_tail h)))
      (merge_block body (kept_right (kept_tail h)))
  | .repeatStatement condition body, h =>
    .repeatStatement (merge_expr condition (kept_left (kept_tail h)))
      (merge_block body (kept_right (kept_tail h)))
  | .numericForStatement variableName start stop none body, h => by
    have h := kept_tail h
    have hstops := kept_left (kept_left h)
    exact .numericFor (merge_expr start (kept_right (kept_left hstops)))
      (merge_expr stop (kept_right hstops)) .none (merge_block body (kept_right h))
  | .numericForStatement variableName start stop (some step) body, h => by
    have h := kept_tail h
    have hstops := kept_left (kept_left h)
    exact .numericFor (merge_expr start (kept_right (kept_left hstops)))
      (merge_expr stop (kept_right hstops))
      (.some (merge_expr step (kept_right (kept_left h)))) (merge_block body (kept_right h))
  | .genericForStatement _ iterators body, h =>
    .genericFor ⟨exprsReread_length iterators, fun multi =>
        merge_exprs multi iterators (kept_right (kept_left (kept_tail h)))⟩
      (merge_block body (kept_right (kept_tail h)))
  | .doStatement body, h => .doStatement (merge_block body (kept_tail h))
  | .returnStatement args, h => .returnStatement (merge_exprs true args (kept_tail h))
  | .breakStatement, _ => .self _
  | .continueStatement, _ => .self _
  | .emptyStatement, _ => .self _

theorem merge_block : ∀ ss : List (Stmt N), AllKept (blockNodes ss) →
    MergeBlock ss (blockReread ss)
  | [], _ => .nil
  | s::ss, h => by
    have hs := merge_stmt s (kept_left h)
    have hss := merge_block ss (kept_right h)
    rw [blockReread]
    by_cases hprinted : s.IsPrinted = true
    · rw [if_pos hprinted]
      exact .cons hs hss
    · rw [if_neg hprinted, eq_empty hprinted]
      exact hss.skip

theorem merge_clauses : ∀ cs : List (IfClause N), AllKept (clausesNodes cs) →
    MergeClauses cs (clausesReread cs)
  | [], _ => .nil
  | .mk condition body :: clauses, h =>
    .cons (merge_expr condition (kept_left (kept_left h)))
      (merge_block body (kept_right (kept_left h))) (merge_clauses clauses (kept_right h))

end

/-- A program and what is read back from its text run alike, and so do the functions that they
leave behind. -/
theorem reread_alike {body : Block N} (h : AllKept (blockNodes body)) (runtime : Runtime N)
    (fuel : ℕ) (calls : List (ℕ × List (Value N))) (globals : String → Value N) :
    Alike (program runtime fuel calls body (initialState globals))
      (program runtime fuel calls (blockReread body) (initialState globals)) := by
  obtain ⟨c, hc, hc'⟩ := merge_block body h
  exact (alike_of_rewritesBlock hc runtime fuel calls globals).trans
    (alike_of_rewritesBlock hc' runtime fuel calls globals).symm

end
end LuaRecovery.Transforms
