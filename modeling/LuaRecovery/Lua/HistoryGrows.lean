import LuaRecovery.Lib.Growth
import LuaRecovery.Lua.Interpreter

/-!
# The history of a run

What a program asked of its runtime is never forgotten: whatever a run does, it
adds to the history.
-/

set_option autoImplicit false

namespace LuaRecovery.Lua
open LuaRecovery.Lib Prog

section Histories
variable {N : Type}

/-- The one history starts with the other. -/
def Longer (s t : State N) : Prop := s.history <+: t.history

instance : IsPreorder (State N) Longer where
  refl _ := List.prefix_rfl
  trans _ _ _ h h' := h.trans h'

theorem longer_of_eq {s t : State N} (h : s.history = t.history) : Longer s t := by
  unfold Longer
  exact h ▸ List.prefix_rfl

/-- The program only adds to the history. -/
abbrev AppendsOnly {α : Type} (p : Run N α) : Prop := Grows Longer p

theorem appendsOnly_malformed {α : Type} : AppendsOnly (malformed : Run N α) := .raise _

theorem appendsOnly_newCell (v : Value N) : AppendsOnly (newCell v) := fun _ => longer_of_eq rfl

theorem appendsOnly_writeCell (a : ℕ) (v : Value N) : AppendsOnly (writeCell a v) :=
  .write fun _ => longer_of_eq rfl

theorem appendsOnly_writeGlobal (name : String) (v : Value N) : AppendsOnly (writeGlobal name v) :=
  .write fun _ => longer_of_eq rfl

theorem appendsOnly_newClosure (c : Closure N) : AppendsOnly (newClosure c) :=
  fun _ => longer_of_eq rfl

theorem appendsOnly_newTable (entries : List (Value N × Value N)) :
    AppendsOnly (newTable entries) := fun _ => longer_of_eq rfl

theorem appendsOnly_setHeap (heap : Heap N) : AppendsOnly (setHeap heap) :=
  .write fun _ => longer_of_eq rfl

/-- The calls of a machine only add to the history. -/
def CallsAppend (m : Machine N) : Prop := ∀ id args, AppendsOnly (m.call id args)

variable {m : Machine N} (hm : CallsAppend m)
include hm

theorem appendsOnly_runReply (reply : Reply N) : AppendsOnly (runReply m reply) := by
  induction reply with
  | values heap results => exact .bind (appendsOnly_setHeap heap) fun _ => .pure _
  | raise heap error => exact .bind (appendsOnly_setHeap heap) fun _ => .raise _
  | callback heap callee args resume ih =>
    refine .bind (appendsOnly_setHeap heap) fun _ => .bind (.attempt ?_) fun r =>
      .bind (.read _) fun heap' => ih heap' r
    split
    · exact hm _ _
    · exact .raise _

theorem appendsOnly_perform (action : Action N) (args : List (Value N)) :
    AppendsOnly (perform m action args) :=
  .bind (.write fun _ => List.prefix_append _ _) fun _ =>
    .bind (.read _) fun reply => appendsOnly_runReply hm reply

theorem appendsOnly_first (action : Action N) (args : List (Value N)) :
    AppendsOnly (do return first (← perform m action args)) :=
  .bind (appendsOnly_perform hm action args) fun _ => .pure _

theorem appendsOnly_apply (f : Value N) (args : List (Value N)) : AppendsOnly (apply m f args) := by
  cases f with
  | closure id => exact hm id args
  | _ => exact appendsOnly_perform hm _ args

variable [LuaNumber N]

theorem appendsOnly_indexValue (o k : Value N) : AppendsOnly (indexValue m o k) := by
  cases o with
  | table id =>
    refine .bind (.read _) fun t => ?_
    split
    · exact .pure _
    · exact .ite (appendsOnly_first hm _ _) (.pure _)
  | _ => exact appendsOnly_first hm _ _

theorem appendsOnly_setIndexValue (o k v : Value N) : AppendsOnly (setIndexValue m o k v) := by
  have hset : AppendsOnly (do let _ ← perform m .setIndex [o, k, v]) :=
    .bind (appendsOnly_perform hm _ _) fun _ => .pure _
  cases o with
  | table id =>
    refine .bind (.read _) fun t => .ite hset (.ite ?_ (.raise _))
    exact .write fun _ => longer_of_eq rfl
  | _ => exact hset

theorem appendsOnly_unaryOp (op : UnaryOperator) (v : Value N) : AppendsOnly (unaryOp m op v) := by
  cases op <;> cases v <;>
    first
      | exact .pure _
      | exact appendsOnly_first hm _ _

theorem appendsOnly_equalValues (l r : Value N) : AppendsOnly (equalValues m l r) := by
  unfold equalValues
  split
  · refine .ite (.pure _) (.bind (.read _) fun ta => .bind (.read _) fun tb => .ite ?_ (.pure _))
    exact .bind (appendsOnly_perform hm _ _) fun _ => .pure _
  · exact .pure _

theorem appendsOnly_binaryOp (op : BinaryOperator) (l r : Value N) :
    AppendsOnly (binaryOp m op l r) := by
  cases op with
  | eq => exact .bind (appendsOnly_equalValues hm l r) fun _ => .pure _
  | ne => exact .bind (appendsOnly_equalValues hm l r) fun _ => .pure _
  | _ =>
    cases l <;> cases r <;>
      first
        | exact appendsOnly_first hm _ _
        | exact .pure _

omit hm [LuaNumber N] in
theorem appendsOnly_readName (env : Env) (name : String) :
    AppendsOnly (readName env name : Run N (Value N)) := by
  unfold readName
  split
  · exact .read _
  · exact .read _

theorem appendsOnly_store (env : Env) (t : Target N) (v : Value N) :
    AppendsOnly (store m env t v) := by
  cases t with
  | name x =>
    rw [store]
    split
    · exact appendsOnly_writeCell _ v
    · exact appendsOnly_writeGlobal x v
  | slot o k => exact appendsOnly_setIndexValue hm o k v

theorem appendsOnly_storeAll (env : Env) (ts : List (Target N)) (vs : List (Value N)) :
    AppendsOnly (storeAll m env ts vs) := by
  induction ts generalizing vs with
  | nil => exact .pure _
  | cons t ts ih => exact .bind (ih _) fun _ => appendsOnly_store hm env t _

omit hm [LuaNumber N] in
theorem appendsOnly_declare (env : Env) (xs : List (Expr N)) (vs : List (Value N)) :
    AppendsOnly (declare env xs vs) := by
  induction xs generalizing env vs with
  | nil => exact .pure _
  | cons x xs ih =>
    rw [declare]
    split
    · exact .bind (appendsOnly_newCell _) fun a => ih _ _
    · exact appendsOnly_malformed

omit hm [LuaNumber N] in
theorem appendsOnly_one {p : Run N (List (Value N))} (h : AppendsOnly p) : AppendsOnly (one p) :=
  .bind h fun _ => .pure _

omit hm [LuaNumber N] in
theorem appendsOnly_nameKey (e : Expr N) : AppendsOnly (nameKey e) := by
  unfold nameKey
  split
  · exact .pure _
  · exact appendsOnly_malformed

omit hm in
theorem appendsOnly_fieldEntry (k v : Value N) : AppendsOnly (fieldEntry k v) :=
  .ite (.pure _) (.raise _)

omit hm [LuaNumber N] in
theorem appendsOnly_buildTable (test : Bool) (entries : List (Value N × Value N)) :
    AppendsOnly (buildTable test entries) :=
  .ite (.pure _) (appendsOnly_newTable _)

omit hm [LuaNumber N] in
theorem appendsOnly_makeClosure (test : Bool) (c : Closure N) :
    AppendsOnly (makeClosure test c) :=
  .ite (.pure _) (appendsOnly_newClosure c)

end Histories

section Calls
variable {N : Type} [LuaNumber N] {m : Machine N}

mutual

theorem appendsOnly_eval (hm : CallsAppend m) (env : Env) (va : List (Value N)) :
    ∀ (test : Bool) (e : Expr N), AppendsOnly (eval m env va test e)
  | _, .identifier name => .bind (appendsOnly_readName env name) fun _ => .pure _
  | _, .numericLiteral _ _ => .pure _
  | _, .stringLiteral _ => .pure _
  | _, .booleanLiteral _ => .pure _
  | _, .nilLiteral => .pure _
  | _, .varargLiteral _ => .pure _
  | _, .unaryExpression op a =>
      .bind (appendsOnly_one (appendsOnly_eval hm env va _ a)) fun v =>
        .bind (appendsOnly_unaryOp hm op v) fun _ => .pure _
  | _, .binaryExpression op l r =>
      .bind (appendsOnly_one (appendsOnly_eval hm env va _ l)) fun a =>
        .bind (appendsOnly_one (appendsOnly_eval hm env va _ r)) fun b =>
          .bind (appendsOnly_binaryOp hm op a b) fun _ => .pure _
  | test, .logicalExpression .and l r =>
      .bind (appendsOnly_one (appendsOnly_eval hm env va _ l)) fun _ =>
        .ite (.bind (appendsOnly_one (appendsOnly_eval hm env va test r)) fun _ => .pure _) (.pure _)
  | test, .logicalExpression .or l r =>
      .bind (appendsOnly_one (appendsOnly_eval hm env va _ l)) fun _ =>
        .ite (.pure _) (.bind (appendsOnly_one (appendsOnly_eval hm env va test r)) fun _ => .pure _)
  | _, .callExpression base args _ =>
      .bind (appendsOnly_one (appendsOnly_eval hm env va _ base)) fun f =>
        .bind (appendsOnly_evalList hm env va args) fun vs =>
          .bind (appendsOnly_apply hm f vs) fun _ => .pure _
  | _, .methodCallExpression base method args _ =>
      .bind (appendsOnly_one (appendsOnly_eval hm env va _ base)) fun o =>
        .bind (appendsOnly_nameKey method) fun k =>
          .bind (appendsOnly_indexValue hm o k) fun f =>
            .bind (appendsOnly_evalList hm env va args) fun vs =>
              .bind (appendsOnly_apply hm f (o::vs)) fun _ => .pure _
  | _, .memberExpression base property =>
      .bind (appendsOnly_one (appendsOnly_eval hm env va _ base)) fun o =>
        .bind (appendsOnly_nameKey property) fun k =>
          .bind (appendsOnly_indexValue hm o k) fun _ => .pure _
  | _, .indexExpression base index =>
      .bind (appendsOnly_one (appendsOnly_eval hm env va _ base)) fun o =>
        .bind (appendsOnly_one (appendsOnly_eval hm env va _ index)) fun k =>
          .bind (appendsOnly_indexValue hm o k) fun _ => .pure _
  | _, .functionExpression _ _ _ => .bind (appendsOnly_makeClosure _ _) fun _ => .pure _
  | test, .tableConstructor fields =>
      .bind (appendsOnly_evalFields hm env va test 1 fields) fun entries =>
        .bind (appendsOnly_buildTable test entries) fun _ => .pure _

theorem appendsOnly_evalList (hm : CallsAppend m) (env : Env) (va : List (Value N)) :
    ∀ es : List (Expr N), AppendsOnly (evalList m env va es)
  | [] => .pure _
  | [e] => appendsOnly_eval hm env va false e
  | e::e'::es =>
      .bind (appendsOnly_one (appendsOnly_eval hm env va false e)) fun _ =>
        .bind (appendsOnly_evalList hm env va (e'::es)) fun _ => .pure _

theorem appendsOnly_evalFields (hm : CallsAppend m) (env : Env) (va : List (Value N)) (test : Bool) :
    ∀ (position : ℕ) (fs : List (TableField N)),
      AppendsOnly (evalFields m env va test position fs)
  | _, [] => .pure _
  | _, [.tableValue e] => .bind (appendsOnly_eval hm env va test e) fun _ => .pure _
  | position, .tableValue e :: f :: fs =>
      .bind (appendsOnly_one (appendsOnly_eval hm env va test e)) fun _ =>
        .bind (appendsOnly_evalFields hm env va test (position+1) (f::fs)) fun _ => .pure _
  | position, .tableKey key value :: fs =>
      .bind (appendsOnly_one (appendsOnly_eval hm env va test key)) fun k =>
        .bind (appendsOnly_one (appendsOnly_eval hm env va test value)) fun v =>
          .bind (appendsOnly_fieldEntry k v) fun _ =>
            .bind (appendsOnly_evalFields hm env va test position fs) fun _ => .pure _
  | position, .tableKeyString key value :: fs =>
      .bind (appendsOnly_nameKey key) fun _ =>
        .bind (appendsOnly_one (appendsOnly_eval hm env va test value)) fun _ =>
          .bind (appendsOnly_evalFields hm env va test position fs) fun _ => .pure _

end

theorem appendsOnly_targetOf (hm : CallsAppend m) (env : Env) (va : List (Value N)) (e : Expr N) :
    AppendsOnly (targetOf m env va e) := by
  cases e with
  | identifier name => exact .pure _
  | memberExpression base property =>
    exact .bind (appendsOnly_one (appendsOnly_eval hm env va false base)) fun _ =>
      .bind (appendsOnly_nameKey property) fun _ => .pure _
  | indexExpression base index =>
    exact .bind (appendsOnly_one (appendsOnly_eval hm env va false base)) fun _ =>
      .bind (appendsOnly_one (appendsOnly_eval hm env va false index)) fun _ => .pure _
  | _ => exact appendsOnly_malformed

theorem appendsOnly_targetsOf (hm : CallsAppend m) (env : Env) (va : List (Value N))
    (es : List (Expr N)) : AppendsOnly (targetsOf m env va es) := by
  induction es with
  | nil => exact .pure _
  | cons e es ih => exact .bind (appendsOnly_targetOf hm env va e) fun _ => .bind ih fun _ => .pure _

theorem appendsOnly_stepValue (hm : CallsAppend m) (env : Env) (va : List (Value N))
    (step : Option (Expr N)) : AppendsOnly (stepValue m env va step) := by
  cases step with
  | none => exact .pure _
  | some e => exact appendsOnly_one (appendsOnly_eval hm env va false e)

omit [LuaNumber N] in
theorem appendsOnly_loopBounds (a b c : Value N) : AppendsOnly (loopBounds a b c) := by
  unfold loopBounds
  split
  · exact .pure _
  · exact .raise _

theorem appendsOnly_followPath (hm : CallsAppend m) (o : Value N) (path : List String) :
    AppendsOnly (followPath m o path) := by
  induction path generalizing o with
  | nil => exact .pure _
  | cons p path ih => exact .bind (appendsOnly_indexValue hm o _) fun o' => ih o'

theorem appendsOnly_storeFunction (hm : CallsAppend m) (env : Env) (root : String)
    (path : List String) (f : Value N) : AppendsOnly (storeFunction m env root path f) := by
  unfold storeFunction
  split
  · exact appendsOnly_store hm env _ f
  · exact .bind (appendsOnly_readName env root) fun o =>
      .bind (appendsOnly_followPath hm o _) fun o' => appendsOnly_setIndexValue hm o' _ f

theorem appendsOnly_numericRound {body : N → Run N (Signal N)} (hbody : ∀ x, AppendsOnly (body x))
    (stop step x : N) : AppendsOnly (numericRound stop step body x) := by
  refine .ite (.bind (hbody x) fun sig => ?_) (.pure _)
  split <;> exact .pure _

omit [LuaNumber N] in
theorem appendsOnly_genericRound (hm : CallsAppend m) {body : List (Value N) → Run N (Signal N)}
    (hbody : ∀ vs, AppendsOnly (body vs)) (f state control : Value N) :
    AppendsOnly (genericRound m f state body control) := by
  refine .bind (appendsOnly_apply hm f _) fun vs => ?_
  split
  · exact .pure _
  · refine .bind (hbody vs) fun sig => ?_
    split <;> exact .pure _

mutual

theorem appendsOnly_exec (hm : CallsAppend m) (env : Env) (va : List (Value N)) :
    ∀ s : Stmt N, AppendsOnly (exec m env va s)
  | .localStatement _ init =>
      .bind (appendsOnly_evalList hm env va init) fun _ =>
        .bind (appendsOnly_declare env _ _) fun _ => .pure _
  | .assignmentStatement vars init =>
      .bind (appendsOnly_targetsOf hm env va vars) fun ts =>
        .bind (appendsOnly_evalList hm env va init) fun vs =>
          .bind (appendsOnly_storeAll hm env ts vs) fun _ => .pure _
  | .localFunctionStatement identifier params isVararg body => by
      refine .bind (appendsOnly_declare env _ _) fun env' =>
        .bind (appendsOnly_newClosure _) fun f => ?_
      split
      · exact .bind (appendsOnly_store hm env' _ f) fun _ => .pure _
      · exact .bind appendsOnly_malformed fun _ => .pure _
  | .functionDeclaration name params isVararg body isMethod => by
      rw [exec]
      split
      · exact .bind (appendsOnly_newClosure _) fun f =>
          .bind (appendsOnly_storeFunction hm env _ _ f) fun _ => .pure _
      · exact appendsOnly_malformed
  | .callStatement expression =>
      .bind (appendsOnly_eval hm env va false expression) fun _ => .pure _
  | .ifStatement clauses elseBody => by
      rw [exec_if]
      refine .bind (appendsOnly_execClauses hm env va clauses) fun sig => ?_
      split
      · exact .pure _
      · split
        · exact .pure _
        next body => exact .bind (appendsOnly_execBlock hm env va body) fun _ => .pure _
  | .whileStatement condition body => by
      refine .bind (.iterate (fun _ => ?_) _ _) fun _ => .pure _
      refine .bind (appendsOnly_one (appendsOnly_eval hm env va true condition)) fun c =>
        .ite (.bind (appendsOnly_execBlock hm env va body) fun r => ?_) (.pure _)
      split <;> exact .pure _
  | .repeatStatement condition body => by
      refine .bind (.iterate (fun _ => ?_) _ _) fun _ => .pure _
      refine .bind (appendsOnly_execBlock hm env va body) fun r => ?_
      split
      · exact .pure _
      · exact .bind (appendsOnly_one (appendsOnly_eval hm r.1 va true condition)) fun _ => .pure _
  | .numericForStatement variableName start stop step body =>
      .bind (appendsOnly_one (appendsOnly_eval hm env va false start)) fun a =>
        .bind (appendsOnly_one (appendsOnly_eval hm env va false stop)) fun b =>
          .bind (appendsOnly_stepValue hm env va step) fun c =>
            .bind (appendsOnly_loopBounds a b c) fun r =>
              .bind (.iterate (appendsOnly_numericRound (fun x =>
                .bind (appendsOnly_declare env _ _) fun env' =>
                  .bind (appendsOnly_execBlock hm env' va body) fun _ => .pure _) _ _) _ _)
                fun _ => .pure _
  | .genericForStatement vars iterators body =>
      .bind (appendsOnly_evalList hm env va iterators) fun vs =>
        .bind (.iterate (appendsOnly_genericRound hm (fun ws =>
          .bind (appendsOnly_declare env _ ws) fun env' =>
            .bind (appendsOnly_execBlock hm env' va body) fun _ => .pure _) _ _) _ _)
          fun _ => .pure _
  | .doStatement body => .bind (appendsOnly_execBlock hm env va body) fun _ => .pure _
  | .returnStatement args => .bind (appendsOnly_evalList hm env va args) fun _ => .pure _
  | .breakStatement => .pure _
  | .continueStatement => .pure _
  | .emptyStatement => .pure _

theorem appendsOnly_execBlock (hm : CallsAppend m) (env : Env) (va : List (Value N)) :
    ∀ ss : List (Stmt N), AppendsOnly (execBlock m env va ss)
  | [] => .pure _
  | s::ss => by
      refine .bind (appendsOnly_exec hm env va s) fun r => ?_
      split
      · exact appendsOnly_execBlock hm r.1 va ss
      · exact .pure _

theorem appendsOnly_execClauses (hm : CallsAppend m) (env : Env) (va : List (Value N)) :
    ∀ cs : List (IfClause N), AppendsOnly (execClauses m env va cs)
  | [] => .pure _
  | .mk condition body :: cs =>
      .bind (appendsOnly_one (appendsOnly_eval hm env va true condition)) fun _ =>
        .ite (.bind (appendsOnly_execBlock hm env va body) fun _ => .pure _)
          (appendsOnly_execClauses hm env va cs)

end

theorem appendsOnly_callClosure (runtime : Runtime N) (n id : ℕ) (args : List (Value N)) :
    AppendsOnly (callClosure runtime n id args) := by
  induction n generalizing id args with
  | zero => exact .stop
  | succ n ih =>
    refine .bind (.read _) fun c => ?_
    split
    · exact appendsOnly_malformed
    next c =>
      have hbind : AppendsOnly (bindArgs c args) :=
        .bind (appendsOnly_declare _ _ _) fun _ => .pure _
      have hcalls : CallsAppend (machine runtime n) := ih
      exact .bind hbind fun bound =>
        .bind (appendsOnly_execBlock hcalls bound.1 bound.2 c.body) fun _ => .pure _

/-- Whatever a program calls, its history stays. -/
theorem callsAppend_machine (runtime : Runtime N) (fuel : ℕ) :
    CallsAppend (machine runtime fuel) := appendsOnly_callClosure runtime fuel

end Calls

end LuaRecovery.Lua
