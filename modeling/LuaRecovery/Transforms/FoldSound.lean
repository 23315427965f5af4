import LuaRecovery.Transforms.FoldSafety
import LuaRecovery.Transforms.RewritingSound

/-!
# Folding preserves the run

Where folding is safe, a parsed program and its folded form are related by the
rewriting rules. They therefore run alike from every state, whatever the
runtime answers, and so do the functions they leave behind.
-/

set_option autoImplicit false

namespace LuaRecovery.Transforms
open LuaRecovery.Lib LuaRecovery.Lua LuaRecovery.Evaluator

section Plain
variable {N : Type}

theorem bindAll_plain (xs : List (Expr N)) : bindAll plain xs = plain := by
  induction xs with
  | nil => rfl
  | cons x xs ih =>
    rw [bindAll]
    cases x.name? with
    | none => exact ih
    | some name =>
      have hupdate : Function.update (plain : Scope N) name .unknown = plain :=
        Function.update_eq_self name plain
      show bindAll (Function.update plain name .unknown) xs = plain
      rw [hupdate]
      exact ih

theorem declares_plain (vars init : List (Expr N)) : Declares plain vars init plain := by
  have h := declares_bindAll plain vars init
  rwa [bindAll_plain] at h

end Plain

section Reflexive
variable {N : Type} [LuaNumber N]

omit [LuaNumber N] in
theorem not_exposes_self (e : Expr N) : ¬Exposes e e :=
  fun h => absurd (h.1.symm.trans h.2) nofun

theorem RewritesBlock.afterBinding {body body' : List (Stmt N)} (params : List (Expr N))
    (h : RewritesBlock [plain] plain plain body body') :
    RewritesBlock [plain] (bindAll plain params) plain body body' := by
  rwa [bindAll_plain]

theorem RewritesStmt.plainFunction {name : Expr N} {params : List (Expr N)}
    {isVararg isMethod : Bool} {body body' : List (Stmt N)}
    (h : RewritesBlock [plain] plain plain body body') :
    RewritesStmt [plain] plain plain (.functionDeclaration name params isVararg body isMethod)
      (.functionDeclaration name params isVararg body' isMethod) :=
  .function (fun root path _ => ⟨(fun h => by cases h), fun _ => rfl⟩) (h.afterBinding _)

theorem RewritesStmt.plainLocalFunction {identifier : Expr N} {params : List (Expr N)}
    {isVararg : Bool} {body body' : List (Stmt N)}
    (h : RewritesBlock [plain] plain plain body body') :
    RewritesStmt [plain] plain plain (.localFunctionStatement identifier params isVararg body)
      (.localFunctionStatement identifier params isVararg body') := by
  have hafter : RewritesStmt [plain] plain (bindAll plain [identifier])
      (.localFunctionStatement identifier params isVararg body)
      (.localFunctionStatement identifier params isVararg body') := by
    have hbody : RewritesBlock [plain] (bindAll (bindAll plain [identifier]) params) plain body
        body' := by
      rw [bindAll_plain [identifier]]
      exact h.afterBinding params
    exact .localFunction hbody
  rwa [bindAll_plain] at hafter

/-- Every scope in sight is the plain one. -/
theorem rewrites_in_plain {c c' : Expr N} (h : Rewrites plain c c') :
    ∀ τ : Scope N, τ ∈ plain :: [plain] → Rewrites τ c c' := by
  intro τ hτ
  have hplain : τ = plain := by simpa using hτ
  rw [hplain]
  exact h

mutual

theorem rewrites_self : ∀ e : Expr N, Rewrites plain e e
  | .identifier _ => .identifier nofun
  | .numericLiteral _ _ => .numericLiteral
  | .stringLiteral _ => .stringLiteral
  | .booleanLiteral _ => .booleanLiteral
  | .nilLiteral => .nilLiteral
  | .varargLiteral _ => .varargLiteral
  | .unaryExpression _ a => .unary (rewrites_self a)
  | .binaryExpression _ l r => .binary (rewrites_self l) (rewrites_self r)
  | .logicalExpression _ l r => .logical (rewrites_self l) (rewrites_self r)
  | .callExpression base args _ => .call (rewrites_self base) (rewritesArgs_self true args)
  | .methodCallExpression base _ args _ =>
      .methodCall (rewrites_self base) (rewritesArgs_self true args)
  | .memberExpression base _ => .member (rewrites_self base)
  | .indexExpression base i => .index (rewrites_self base) (rewrites_self i)
  | .functionExpression params _ body =>
      .function ((rewritesBlock_self body).afterBinding params)
  | .tableConstructor fields => .table (rewritesFields_self fields)

theorem rewritesArgs_self (multi : Bool) : ∀ es : List (Expr N), RewritesArgs multi plain es es
  | [] => .nil
  | [e] => .last (rewrites_self e) (fun _ => not_exposes_self e)
  | e::f::es => .cons (rewrites_self e) (rewritesArgs_self multi (f::es))

theorem rewritesFields_self : ∀ fs : List (TableField N), RewritesFields plain fs fs
  | [] => .nil
  | [.tableValue e] => .last (rewrites_self e) (not_exposes_self e)
  | .tableValue e :: f :: fs => .value (rewrites_self e) (rewritesFields_self (f::fs))
  | .tableKey k v :: fs => .key (rewrites_self k) (rewrites_self v) (rewritesFields_self fs)
  | .tableKeyString _ v :: fs => .keyString (rewrites_self v) (rewritesFields_self fs)

theorem rewritesTargets_self : ∀ es : List (Expr N), RewritesTargets plain es es
  | [] => .nil
  | .identifier _ :: es => .name rfl (rewritesTargets_self es)
  | .memberExpression base _ :: es => .member (rewrites_self base) (rewritesTargets_self es)
  | .indexExpression base i :: es =>
      .index (rewrites_self base) (rewrites_self i) (rewritesTargets_self es)
  | .numericLiteral _ _ :: _ => .malformed rfl rfl
  | .stringLiteral _ :: _ => .malformed rfl rfl
  | .booleanLiteral _ :: _ => .malformed rfl rfl
  | .nilLiteral :: _ => .malformed rfl rfl
  | .varargLiteral _ :: _ => .malformed rfl rfl
  | .unaryExpression _ _ :: _ => .malformed rfl rfl
  | .binaryExpression _ _ _ :: _ => .malformed rfl rfl
  | .logicalExpression _ _ _ :: _ => .malformed rfl rfl
  | .callExpression _ _ _ :: _ => .malformed rfl rfl
  | .methodCallExpression _ _ _ _ :: _ => .malformed rfl rfl
  | .functionExpression _ _ _ :: _ => .malformed rfl rfl
  | .tableConstructor _ :: _ => .malformed rfl rfl

theorem rewritesStmt_self : ∀ s : Stmt N, RewritesStmt [plain] plain plain s s
  | .localStatement vars init =>
      .localStatement (rewritesArgs_self _ init) (declares_plain vars init)
  | .assignmentStatement vars init =>
      .assignment (rewritesTargets_self vars) (rewritesArgs_self _ init)
  | .localFunctionStatement _ _ _ body => .plainLocalFunction (rewritesBlock_self body)
  | .functionDeclaration _ _ _ body _ => .plainFunction (rewritesBlock_self body)
  | .callStatement e => .call (rewrites_self e)
  | .ifStatement cs els => .ifStatement (.inr (List.mem_singleton_self _)) (rewritesClauses_self cs) (match els with
        | none => .none
        | some body => .some (rewritesBlock_self body))
  | .whileStatement c body =>
      .whileStatement (rewrites_self c) (rewritesBlock_self body)
  | .repeatStatement c body =>
      .repeatStatement (rewritesBlock_self body) (rewrites_in_plain (rewrites_self c))
  | .numericForStatement _ a b step body =>
      .numericFor (rewrites_self a) (rewrites_self b) (match step with
        | none => .none
        | some e => .some (rewrites_self e)) ((rewritesBlock_self body).afterBinding _)
  | .genericForStatement _ iterators body =>
      .genericFor (rewritesArgs_self _ iterators) ((rewritesBlock_self body).afterBinding _)
  | .doStatement body =>
      .doStatement (.inr (List.mem_singleton_self _)) (rewritesBlock_self body)
  | .returnStatement args => .returnStatement (rewritesArgs_self true args)
  | .breakStatement => .breakStatement
  | .continueStatement => .continueStatement (List.mem_singleton_self _)
  | .emptyStatement => .emptyStatement

theorem rewritesBlock_self : ∀ ss : List (Stmt N), RewritesBlock [plain] plain plain ss ss
  | [] => .nil
  | s::ss => .cons (rewritesStmt_self s) (rewritesBlock_self ss)

theorem rewritesClauses_self : ∀ cs : List (IfClause N), RewritesClauses [plain] plain cs cs
  | [] => .nil
  | .mk c body :: cs => .cons (rewrites_self c) (rewritesBlock_self body) (rewritesClauses_self cs)

end

end Reflexive

section Names
variable {N : Type} [LuaNumber N]

theorem fold_name {e : Expr N} (h : isName e = true) : fold e = e := by
  cases e with
  | identifier name => rfl
  | _ => cases h

theorem foldList_names {es : List (Expr N)} (h : es.all isName = true) : foldList es = es := by
  induction es with
  | nil => rfl
  | cons e es ih =>
    rw [List.all_cons, Bool.and_eq_true] at h
    rw [foldList, fold_name h.1, ih h.2]

theorem fold_functionName : ∀ {e : Expr N}, (functionName e).isSome = true → fold e = e
  | .identifier _, _ => rfl
  | .memberExpression base property, h => by
      obtain ⟨rp, hrp⟩ := Option.isSome_iff_exists.mp h
      rw [functionName] at hrp
      obtain ⟨r, hbase, hrp⟩ := Option.bind_eq_some_iff.mp hrp
      obtain ⟨name, hname, -⟩ := Option.bind_eq_some_iff.mp hrp
      have hproperty : isName property = true := Option.isSome_iff_exists.mpr ⟨name, hname⟩
      rw [fold, fold_functionName (Option.isSome_iff_exists.mpr ⟨r, hbase⟩), fold_name hproperty]

end Names

section Folding
variable {N : Type} [LuaNumber N]

/-- One `not`, `#` or `-` whose operand is folded. -/
theorem rewrites_reduce_unary {op : UnaryOperator} {a : Expr N} (ha : Rewrites plain a (fold a))
    (hsafe : op ≠ .not ∨ droppable a = true) :
    Rewrites plain (.unaryExpression op a) (reduce (.unaryExpression op (fold a))) := by
  rw [reduce_unary]
  cases he : evalUnary op (fold a) with
  | none => exact .unary ha
  | some e =>
    apply Rewrites.foldUnary ha he
    have hshape := evalUnary_outward op (fold a)
    rw [he, outward_fold] at hshape
    have hdrop : ∀ test, (shape a).isConstant = true → inert test (fold a) = true := by
      intro test hconstant
      apply inert_literal
      rwa [outward_fold]
    cases hs : shape a with
    | constant v => exact hdrop _ (by rw [hs]; rfl)
    | table =>
      rw [hs] at hshape
      cases op with
      | not =>
        have hquiet := hsafe.resolve_left (fun h => h rfl)
        exact inert_of_droppable (b := true) hquiet (by rw [hs]; rfl)
      | minus => cases hshape
      | length => cases hshape
    | _ => rw [hs] at hshape; cases op <;> cases hshape

theorem rewrites_reduce_binary {op : BinaryOperator} {l r : Expr N}
    (hl : Rewrites plain l (fold l)) (hr : Rewrites plain r (fold r)) :
    Rewrites plain (.binaryExpression op l r) (reduce (.binaryExpression op (fold l) (fold r))) := by
  rw [reduce_binary]
  cases he : evalBinary op (fold l) (fold r) with
  | none => exact .binary hl hr
  | some e => exact .foldBinary hl hr he

/-- One `and` or `or`; the right operand matters only where it is kept. -/
theorem rewrites_reduce_logical {op : LogicalOperator} {l r : Expr N}
    (hl : Rewrites plain l (fold l))
    (hr : (shape l).truth ≠ some (stopsAt op) → Rewrites plain r (fold r))
    (hdrop : (shape l).truth = some (!stopsAt op) → droppable l = true) :
    Rewrites plain (.logicalExpression op l r)
      (reduce (.logicalExpression op (fold l) (fold r))) := by
  have htruth := fold_truth l
  rw [reduce_logical]
  cases hs : (shape l).truth with
  | none =>
    rw [evalLogical_none (htruth.trans hs)]
    exact .logical hl (hr (by rw [hs]; nofun))
  | some b =>
    by_cases hb : b = stopsAt op
    · subst hb
      rw [evalLogical_stop _ (htruth.trans hs)]
      exact .keepLeft hl (htruth.trans hs)
    · have hgo : b = !stopsAt op := Bool.eq_not_of_ne hb
      subst hgo
      rw [evalLogical_go _ (htruth.trans hs)]
      have hright := hr (by rw [hs]; exact fun h => hb (Option.some.inj h))
      exact .keepRight hl hright (htruth.trans hs) (inert_of_droppable (hdrop hs) hs)

omit [LuaNumber N] in
theorem stays_several [LuaNumber N] {multi : Bool} {e : Expr N}
    (h : (!(multi && spills e)) = true) : multi = true → ¬Exposes e (fold e) := by
  intro hmulti hexposes
  rw [hmulti, (exposes_fold e).mp hexposes] at h
  cases h

mutual

theorem rewrites_fold : ∀ e : Expr N, parsed e = true → foldSafe e = true →
    Rewrites plain e (fold e)
  | .identifier _, _, _ => .identifier nofun
  | .numericLiteral _ _, _, _ => .numericLiteral
  | .stringLiteral _, _, _ => .stringLiteral
  | .booleanLiteral _, _, _ => .booleanLiteral
  | .nilLiteral, _, _ => .nilLiteral
  | .varargLiteral _, _, _ => .varargLiteral
  | .unaryExpression op a, hp, hs => by
      simp only [foldSafe, Bool.and_eq_true, Bool.or_eq_true, decide_eq_true_eq] at hs
      exact rewrites_reduce_unary (rewrites_fold a hp hs.1) hs.2
  | .binaryExpression op l r, hp, hs => by
      rw [parsed, Bool.and_eq_true] at hp
      rw [foldSafe, Bool.and_eq_true] at hs
      exact rewrites_reduce_binary (rewrites_fold l hp.1 hs.1) (rewrites_fold r hp.2 hs.2)
  | .logicalExpression op l r, hp, hs => by
      rw [parsed, Bool.and_eq_true] at hp
      rw [foldSafe, Bool.and_eq_true] at hs
      apply rewrites_reduce_logical (rewrites_fold l hp.1 hs.1)
      · intro hgo
        apply rewrites_fold r hp.2
        have hright := hs.2
        cases ht : (shape l).truth with
        | none => rwa [ht] at hright
        | some b =>
          rw [ht] at hright hgo
          have hb : b ≠ stopsAt op := fun h => hgo (congrArg some h)
          simp only [hb, decide_false, Bool.false_or, Bool.and_eq_true] at hright
          exact hright.2
      · intro ht
        have hright := hs.2
        rw [ht] at hright
        have hb : (!stopsAt op) ≠ stopsAt op := by simp
        simp only [hb, decide_false, Bool.false_or, Bool.and_eq_true] at hright
        exact hright.1
  | .callExpression base args _, hp, hs => by
      rw [parsed, Bool.and_eq_true] at hp
      rw [foldSafe, Bool.and_eq_true] at hs
      exact .call (rewrites_fold base hp.1 hs.1) (rewrites_foldList true args hp.2 hs.2)
  | .methodCallExpression base method args inParens, hp, hs => by
      simp only [parsed, Bool.and_eq_true] at hp
      rw [foldSafe, Bool.and_eq_true] at hs
      rw [fold, fold_name hp.1.2]
      exact .methodCall (rewrites_fold base hp.1.1 hs.1) (rewrites_foldList true args hp.2 hs.2)
  | .memberExpression base property, hp, hs => by
      rw [parsed, Bool.and_eq_true] at hp
      rw [fold, fold_name hp.2]
      exact .member (rewrites_fold base hp.1 hs)
  | .indexExpression base i, hp, hs => by
      rw [parsed, Bool.and_eq_true] at hp
      rw [foldSafe, Bool.and_eq_true] at hs
      exact .index (rewrites_fold base hp.1 hs.1) (rewrites_fold i hp.2 hs.2)
  | .functionExpression params _ body, hp, hs => by
      rw [parsed, Bool.and_eq_true] at hp
      rw [fold, foldList_names hp.1]
      exact .function ((rewrites_foldBlock body hp.2 hs).afterBinding params)
  | .tableConstructor fields, hp, hs => .table (rewrites_foldFields fields hp hs)

theorem rewrites_foldList (multi : Bool) : ∀ es : List (Expr N), parsedList es = true →
    safeList multi es = true → RewritesArgs multi plain es (foldList es)
  | [], _, _ => .nil
  | [e], hp, hs => by
      rw [parsedList, Bool.and_eq_true] at hp
      rw [safeList, Bool.and_eq_true] at hs
      exact .last (rewrites_fold e hp.1 hs.1) (stays_several hs.2)
  | e::f::es, hp, hs => by
      rw [parsedList, Bool.and_eq_true] at hp
      rw [safeList, Bool.and_eq_true] at hs
      exact .cons (rewrites_fold e hp.1 hs.1) (rewrites_foldList multi (f::es) hp.2 hs.2)

theorem rewrites_foldFields : ∀ fs : List (TableField N), parsedFields fs = true →
    safeFields fs = true → RewritesFields plain fs (foldFields fs)
  | [], _, _ => .nil
  | [.tableValue e], hp, hs => by
      rw [parsedFields, Bool.and_eq_true] at hp
      rw [safeFields, Bool.and_eq_true] at hs
      have hstays : true = true → ¬Exposes e (fold e) := stays_several hs.2
      exact .last (rewrites_fold e hp.1 hs.1) (hstays rfl)
  | .tableValue e :: f :: fs, hp, hs => by
      rw [parsedFields, Bool.and_eq_true] at hp
      rw [safeFields, Bool.and_eq_true] at hs
      have hrest := rewrites_foldFields (f::fs) hp.2 hs.2
      cases f with
      | tableValue v => exact .value (rewrites_fold e hp.1 hs.1) hrest
      | tableKey k v => exact .value (rewrites_fold e hp.1 hs.1) hrest
      | tableKeyString k v => exact .value (rewrites_fold e hp.1 hs.1) hrest
  | .tableKey k v :: fs, hp, hs => by
      simp only [parsedFields, Bool.and_eq_true] at hp
      simp only [safeFields, Bool.and_eq_true] at hs
      exact .key (rewrites_fold k hp.1.1 hs.1.1) (rewrites_fold v hp.1.2 hs.1.2)
        (rewrites_foldFields fs hp.2 hs.2)
  | .tableKeyString k v :: fs, hp, hs => by
      simp only [parsedFields, Bool.and_eq_true] at hp
      simp only [safeFields, Bool.and_eq_true] at hs
      rw [foldFields, fold_name hp.1.1]
      exact .keyString (rewrites_fold v hp.1.2 hs.1) (rewrites_foldFields fs hp.2 hs.2)

theorem rewrites_foldTargets : ∀ es : List (Expr N), parsedList es = true →
    safeTargets es = true → RewritesTargets plain es (foldList es)
  | [], _, _ => .nil
  | e::es, hp, hs => by
      rw [parsedList, Bool.and_eq_true] at hp
      simp only [safeTargets, Bool.and_eq_true, Bool.or_eq_true, Bool.not_eq_true'] at hs
      have hrest := rewrites_foldTargets es hp.2 hs.2
      by_cases hplace : isLvalue e = true
      · cases e with
        | identifier x => exact .name rfl hrest
        | memberExpression base property =>
          have hmember := hp.1
          rw [parsed, Bool.and_eq_true] at hmember
          rw [foldList, fold, fold_name hmember.2]
          exact .member (rewrites_fold base hmember.1 hs.1.1) hrest
        | indexExpression base i =>
          have hindex := hp.1
          have hparts := hs.1.1
          rw [parsed, Bool.and_eq_true] at hindex
          rw [foldSafe, Bool.and_eq_true] at hparts
          exact .index (rewrites_fold base hindex.1 hparts.1) (rewrites_fold i hindex.2 hparts.2)
            hrest
        | _ => cases hplace
      · have hfold : isLvalue (fold e) = false := by
          rw [isLvalue_fold]
          exact hs.1.2.resolve_left hplace
        exact .malformed (by simpa using hplace) hfold

theorem rewrites_foldStmt : ∀ s : Stmt N, parsedStmt s = true → safeStmt s = true →
    RewritesStmt [plain] plain plain s (foldStmt s)
  | .localStatement vars init, hp, hs => by
      rw [parsedStmt, Bool.and_eq_true] at hp
      rw [foldStmt, foldList_names hp.1]
      exact .localStatement (rewrites_foldList _ init hp.2 hs) (declares_plain vars _)
  | .assignmentStatement vars init, hp, hs => by
      rw [parsedStmt, Bool.and_eq_true] at hp
      rw [safeStmt, Bool.and_eq_true] at hs
      exact .assignment (rewrites_foldTargets vars hp.1 hs.1)
        (rewrites_foldList _ init hp.2 hs.2)
  | .localFunctionStatement identifier params _ body, hp, hs => by
      simp only [parsedStmt, Bool.and_eq_true] at hp
      rw [foldStmt, fold_name hp.1.1, foldList_names hp.1.2]
      exact .plainLocalFunction (rewrites_foldBlock body hp.2 hs)
  | .functionDeclaration name params _ body _, hp, hs => by
      simp only [parsedStmt, Bool.and_eq_true] at hp
      rw [foldStmt, fold_functionName hp.1.1, foldList_names hp.1.2]
      exact .plainFunction (rewrites_foldBlock body hp.2 hs)
  | .callStatement e, hp, hs => .call (rewrites_fold e hp hs)
  | .ifStatement cs none, hp, hs => by
      rw [parsedStmt, Bool.and_eq_true] at hp
      rw [safeStmt, Bool.and_eq_true] at hs
      exact .ifStatement (.inr (List.mem_singleton_self _)) (rewrites_foldClauses cs hp.1 hs.1) .none
  | .ifStatement cs (some body), hp, hs => by
      rw [parsedStmt, Bool.and_eq_true] at hp
      rw [safeStmt, Bool.and_eq_true] at hs
      exact .ifStatement (.inr (List.mem_singleton_self _)) (rewrites_foldClauses cs hp.1 hs.1)
        (.some (rewrites_foldBlock body hp.2 hs.2))
  | .whileStatement c body, hp, hs => by
      rw [parsedStmt, Bool.and_eq_true] at hp
      rw [safeStmt, Bool.and_eq_true] at hs
      exact .whileStatement (rewrites_fold c hp.1 hs.1) (rewrites_foldBlock body hp.2 hs.2)
  | .repeatStatement c body, hp, hs => by
      rw [parsedStmt, Bool.and_eq_true] at hp
      rw [safeStmt, Bool.and_eq_true] at hs
      exact .repeatStatement (rewrites_foldBlock body hp.2 hs.2)
        (rewrites_in_plain (rewrites_fold c hp.1 hs.1))
  | .numericForStatement x a b none body, hp, hs => by
      simp only [parsedStmt, Bool.and_eq_true] at hp
      simp only [safeStmt, Bool.and_eq_true] at hs
      obtain ⟨⟨⟨⟨hx, hpa⟩, hpb⟩, hpbody⟩, -⟩ := hp
      rw [foldStmt, fold_name hx]
      exact .numericFor (rewrites_fold a hpa hs.1.1.1) (rewrites_fold b hpb hs.1.1.2) .none
        ((rewrites_foldBlock body hpbody hs.1.2).afterBinding _)
  | .numericForStatement x a b (some step) body, hp, hs => by
      simp only [parsedStmt, Bool.and_eq_true] at hp
      simp only [safeStmt, Bool.and_eq_true] at hs
      obtain ⟨⟨⟨⟨hx, hpa⟩, hpb⟩, hpbody⟩, hpstep⟩ := hp
      rw [foldStmt, fold_name hx]
      exact .numericFor (rewrites_fold a hpa hs.1.1.1) (rewrites_fold b hpb hs.1.1.2)
        (.some (rewrites_fold step hpstep hs.2))
        ((rewrites_foldBlock body hpbody hs.1.2).afterBinding _)
  | .genericForStatement vars iterators body, hp, hs => by
      simp only [parsedStmt, Bool.and_eq_true] at hp
      rw [safeStmt, Bool.and_eq_true] at hs
      rw [foldStmt, foldList_names hp.1.1]
      exact .genericFor (rewrites_foldList _ iterators hp.1.2 hs.1)
        ((rewrites_foldBlock body hp.2 hs.2).afterBinding _)
  | .doStatement body, hp, hs =>
      .doStatement (.inr (List.mem_singleton_self _)) (rewrites_foldBlock body hp hs)
  | .returnStatement args, hp, hs => .returnStatement (rewrites_foldList true args hp hs)
  | .breakStatement, _, _ => .breakStatement
  | .continueStatement, _, _ => .continueStatement (List.mem_singleton_self _)
  | .emptyStatement, _, _ => .emptyStatement

theorem rewrites_foldBlock : ∀ ss : List (Stmt N), parsedBlock ss = true → safeBlock ss = true →
    RewritesBlock [plain] plain plain ss (foldBlock ss)
  | [], _, _ => .nil
  | s::ss, hp, hs => by
      rw [parsedBlock, Bool.and_eq_true] at hp
      rw [safeBlock, Bool.and_eq_true] at hs
      exact .cons (rewrites_foldStmt s hp.1 hs.1) (rewrites_foldBlock ss hp.2 hs.2)

theorem rewrites_foldClauses : ∀ cs : List (IfClause N), parsedClauses cs = true →
    safeClauses cs = true → RewritesClauses [plain] plain cs (foldClauses cs)
  | [], _, _ => .nil
  | .mk c body :: cs, hp, hs => by
      simp only [parsedClauses, Bool.and_eq_true] at hp
      simp only [safeClauses, Bool.and_eq_true] at hs
      exact .cons (rewrites_fold c hp.1.1 hs.1.1) (rewrites_foldBlock body hp.1.2 hs.1.2)
        (rewrites_foldClauses cs hp.2 hs.2)

end

end Folding

section Sessions
variable {N : Type} [LuaNumber N]

/-- A node of the tree; an expression together with whether all its values count. -/
inductive Node (N : Type) : Type where
  | expression (multi : Bool) (e : Expr N)
  | statement (s : Stmt N)
  | chunk (body : Block N)

namespace Node

def fold : Node N → Node N
  | .expression multi e => .expression multi (Evaluator.fold e)
  | .statement s => .statement (foldStmt s)
  | .chunk body => .chunk (foldBlock body)

omit [LuaNumber N] in
def parsed : Node N → Bool
  | .expression _ e => Transforms.parsed e
  | .statement s => parsedStmt s
  | .chunk body => parsedBlock body

def foldSafe : Node N → Bool
  | .expression multi e => safeList multi [e]
  | .statement s => safeStmt s
  | .chunk body => safeBlock body

omit [LuaNumber N] in
/-- The signal of a statement, with the names it binds where the run goes on. -/
def outcome (r : Env × Signal N) : Signal N × (String → Option ℕ) :=
  match r.2 with
  | .normal => (.normal, fun x => r.1.lookup x)
  | sig => (sig, fun _ => none)

/-- What the node yields: the values of an expression, or the signal of a statement. -/
def run (m : Machine N) (env : Env) (va : List (Value N)) :
    Node N → Run N (Signal N × (String → Option ℕ))
  | .expression multi e => do
      let vs ← eval m env va false e
      return (.returned (if multi then vs else [first vs]), fun _ => none)
  | .statement s => do return outcome (← exec m env va s)
  | .chunk body => do return outcome (← execBlock m env va body)

end Node

/-- Calls that the host makes afterwards of functions the program left behind. -/
def hostCalls (m : Machine N) :
    List (ℕ × List (Value N)) → Run N (List (Except (Value N) (List (Value N))))
  | [] => pure []
  | c::cs => do
      let r ← Prog.attempt (m.call c.1 c.2)
      let rs ← hostCalls m cs
      pure (r::rs)

/-- A run of a node and the calls after it, which are made even if the run raised an error. -/
def session (m : Machine N) (env : Env) (va : List (Value N)) (calls : List (ℕ × List (Value N)))
    (n : Node N) : Run N (Except (Value N) (Signal N × (String → Option ℕ)) ×
      List (Except (Value N) (List (Value N)))) := do
  let r ← Prog.attempt (n.run m env va)
  let rs ← hostCalls m calls
  pure (r, rs)

omit [LuaNumber N] in
theorem envRel_plain {w : Frozen N} {env env' : Env} (h : EnvRel w plain env env') :
    (fun x => env.lookup x) = fun x => env'.lookup x := by
  funext x
  exact (h x).1

omit [LuaNumber N] in
theorem outcome_eq [LuaNumber N] {exits : List (Scope N)} {w : Frozen N}
    {r r' : Env × Signal N} (h : ExitRel exits plain w r r') :
    Node.outcome r = Node.outcome r' := by
  rw [Node.outcome, Node.outcome, ← h.signal]
  cases hsig : r.2 with
  | normal => rw [envRel_plain (h.normal hsig)]
  | _ => rfl

theorem sim_attempt_same {α : Type} {w : Frozen N} {p q : Run N α}
    (h : Sim Corresponds Same w p q) :
    Sim Corresponds Same w (Prog.attempt p) (Prog.attempt q) := by
  apply h.attempt.conseq
  intro w' _ r r' hr
  cases hr with
  | ok hvalues => exact congrArg Except.ok hvalues
  | error => rfl

theorem sim_hostCalls {m m' : Machine N} (calls : List (ℕ × List (Value N))) :
    ∀ w : Frozen N, SameMachine Corresponds w m m' →
      Sim Corresponds Same w (hostCalls m calls) (hostCalls m' calls) := by
  induction calls with
  | nil => exact fun w _ => sim_same
  | cons c cs ih =>
    intro w hm
    rw [hostCalls, hostCalls]
    apply sim_bind_same (sim_attempt_same (hm.call c.1 c.2))
    intro w₁ hw₁ r
    exact sim_bind_same (ih w₁ (hm.later hw₁)) (fun _ _ _ => sim_same)

theorem sim_node {w : Frozen N} {m m' : Machine N} {env env' : Env}
    (h : Related w plain m m' env env') (va : List (Value N)) (n : Node N)
    (hparsed : n.parsed = true) (hsafe : n.foldSafe = true) :
    Sim Corresponds Same w (n.run m env va) (n.fold.run m' env' va) := by
  cases n with
  | expression multi e =>
    rw [Node.foldSafe, safeList, Bool.and_eq_true] at hsafe
    have hexpr := (rewrites_fold e hparsed hsafe.1).sim _ _ _ _ _ h va false
    cases multi with
    | true => exact sim_bind_same (hexpr.2 (stays_several hsafe.2 rfl)) (fun _ _ _ => sim_same)
    | false =>
      apply Sim.bind (sim_of_one hexpr.1)
      intro w₁ _ vs vs' hvs
      simp only [hvs]
      exact sim_same
  | statement s =>
    apply Sim.bind ((rewrites_foldStmt s hparsed hsafe).sim _ _ _ _ _ h va)
    intro w₁ _ r r' hr
    exact Sim.pure (fun _ _ => outcome_eq hr)
  | chunk body =>
    apply Sim.bind ((rewrites_foldBlock body hparsed hsafe).sim _ _ _ _ _ h va)
    intro w₁ _ r r' hr
    exact Sim.pure (fun _ _ => outcome_eq hr)

/-- A state corresponds to itself if no code in it refers to cells not yet allocated. -/
theorem corresponds_self {env : Env} {s : State N} (h : WellScoped env s) :
    Corresponds (⟨fun _ => none, s.nextCell⟩ : Frozen N) s s where
  cells := rfl
  nextCell := rfl
  heap := rfl
  globals := rfl
  history := rfl
  next := rfl
  frozen := nofun
  closures := by
    apply List.forall₂_same.mpr
    intro c hc
    exact ⟨rfl, rfl, [plain], plain, plain, fun x => ⟨rfl, fun a ha => ⟨h.closures c hc x a ha, rfl⟩⟩,
      (rewritesBlock_self c.body).afterBinding c.params⟩

/-- Folding a node changes neither what it yields, nor the events of its run, nor
what the host sees of the functions it leaves behind. -/
theorem fold_evaluates_alike (runtime : Runtime N) (fuel : ℕ) (env : Env) (va : List (Value N))
    (s : State N) (calls : List (ℕ × List (Value N))) (n : Node N) (hs : WellScoped env s)
    (hparsed : n.parsed = true) (hsafe : n.foldSafe = true) :
    Alike (session (machine runtime fuel) env va calls n s)
      (session (machine runtime fuel) env va calls n.fold s) := by
  let w : Frozen N := ⟨fun _ => none, s.nextCell⟩
  have hrelated : Related w plain (machine runtime fuel) (machine runtime fuel) env env :=
    ⟨sameMachine_machine runtime fuel w, fun x => ⟨rfl, fun a ha => ⟨hs.env x a ha, rfl⟩⟩⟩
  have hsession : Sim Corresponds Same w (session (machine runtime fuel) env va calls n)
      (session (machine runtime fuel) env va calls n.fold) := by
    apply sim_bind_same (sim_attempt_same (sim_node hrelated va n hparsed hsafe))
    intro w₁ hw₁ r
    exact sim_bind_same (sim_hostCalls calls w₁ (hrelated.machine.later hw₁))
      (fun _ _ _ => sim_same)
  exact alike_of_ends (hsession w le_rfl s s (corresponds_self hs))

end Sessions

section Examples

/-- A runtime whose functions return nothing. -/
def idle {N : Type} : Runtime N := fun _ heap => .values heap []

/-- `local t = not {x}; f(1 + 1, ...)`, which folds to `local t = false; f(2, ...)`. -/
def keptCall : Node ℤ := .chunk [
  .localStatement [.identifier "t"]
    [.unaryExpression .not (.tableConstructor [.tableValue (.identifier "x")])],
  .callStatement (.callExpression (.identifier "f")
    [.binaryExpression .add (.numericLiteral LuaNumber.one "1") (.numericLiteral LuaNumber.one "1"),
      .varargLiteral false] false)]

theorem keptCall_alike :
    Alike (session (machine idle 1) [] [] [] keptCall (initialState (fun _ => .nil)))
      (session (machine idle 1) [] [] [] keptCall.fold (initialState (fun _ => .nil))) :=
  fold_evaluates_alike idle 1 [] [] (initialState (fun _ => .nil)) [] keptCall
    (wellScoped_initialState _) rfl rfl

/-- `true and ...` where all values count: `...` alone is not cut to one value. -/
theorem fold_lets_values_through : ¬∀ (runtime : Runtime ℤ) (fuel : ℕ) (env : Env)
    (va : List (Value ℤ)) (s : State ℤ) (calls : List (ℕ × List (Value ℤ)))
    (n : Node ℤ), WellScoped env s → n.parsed = true →
      Alike (session (machine runtime fuel) env va calls n s)
        (session (machine runtime fuel) env va calls n.fold s) := by
  intro h
  have halike := h idle 1 [] [.nil, .nil] (initialState (fun _ => .nil)) []
    (.expression true (.logicalExpression .and (.booleanLiteral true) (.varargLiteral false)))
    (wellScoped_initialState _) rfl
  nomatch halike

end Examples
end LuaRecovery.Transforms
