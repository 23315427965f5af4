import LuaRecovery.Transforms.CleanupSafety
import LuaRecovery.Transforms.FoldSound

/-!
# Cleaning up preserves the run

A pass that fits a program rewrites it by the rules of the rewriting relation.
A cleanup all of whose passes fit what they are given therefore runs like the
program it started from.
-/

set_option autoImplicit false

namespace LuaRecovery.Transforms
open LuaRecovery.Lib LuaRecovery.Lua LuaRecovery.Evaluator

/-- A pass that looks at conditions replaces no names. -/
def Pass.Sane {N : Type} (p : Pass N) : Prop :=
  p.prunes = true → ∀ body x, p.constants body x = none

/-- A pruning pass comes with no constants. -/
def Pass.Bare {N : Type} (p : Pass N) (K : Consts N) : Prop := p.prunes = true → ∀ x, K x = none

section Walk
variable {N : Type}

theorem Pass.bare_none (p : Pass N) : p.Bare (fun _ => none) := fun _ _ => rfl

theorem Pass.Bare.enter {p : Pass N} {K : Consts N} (hp : p.Sane) (hK : p.Bare K)
    (body : Block N) : p.Bare (p.enter K body) := by
  intro hprunes x
  rw [Pass.enter, hK hprunes, hp hprunes]
  rfl

theorem visit_keeps (p : Pass N) {K : Consts N} {e : Expr N} (h : keeps K e = true) :
    visit p K e = e := by
  cases e with
  | identifier x =>
    have hx : K x = none := Option.isNone_iff_eq_none.mp h
    rw [visit, hx]
    rfl
  | _ => cases h

theorem visitList_keeps (p : Pass N) {K : Consts N} {es : List (Expr N)}
    (h : es.all (keeps K) = true) : visitList p K es = es := by
  induction es with
  | nil => rfl
  | cons e es ih =>
    rw [List.all_cons, Bool.and_eq_true] at h
    rw [visitList, visit_keeps p h.1, ih h.2]

theorem visitDirect_names (p : Pass N) (K : Consts N) {es : List (Expr N)}
    (h : es.all isName = true) : visitDirect p K es = es := by
  induction es with
  | nil => rfl
  | cons e es ih =>
    rw [List.all_cons, Bool.and_eq_true] at h
    rw [visitDirect, if_pos (show e.name?.isSome = true from h.1), ih h.2]

theorem visit_functionName (p : Pass N) {K : Consts N} :
    ∀ {e : Expr N} {root : String} {path : List String}, functionName e = some (root, path) →
      K root = none → visit p K e = e
  | .identifier x, root, path, h, hroot => by
      cases h
      rw [visit, hroot]
      rfl
  | .memberExpression base property, root, path, h, hroot => by
      rw [functionName] at h
      obtain ⟨r, hbase, h⟩ := Option.bind_eq_some_iff.mp h
      obtain ⟨name, hname, h⟩ := Option.bind_eq_some_iff.mp h
      cases h
      rw [visit, visit_functionName p hbase hroot]

theorem leakAll_nil (σ : Scope N) : leakAll σ [] = σ := by
  funext x
  rw [leakAll, if_neg List.not_mem_nil]

end Walk

section Exits
variable {N : Type} [DecidableEq N]

theorem exitScopes_eq_nil (p : Pass N) (K : Consts N) {ss : List (Stmt N)}
    (h : continueInBlock ss = false) : ∀ σ : Scope N, exitScopes p K σ ss = [] := by
  induction ss with
  | nil => exact fun σ => rfl
  | cons s ss ih =>
    intro σ
    rw [continueInBlock, Bool.or_eq_false_iff] at h
    rw [exitScopes, ih h.2, h.1]
    rfl

/-- The exit scopes of all clauses. -/
def clauseExits (p : Pass N) (K : Consts N) (σ : Scope N) : List (IfClause N) → List (Scope N)
  | [] => []
  | .mk _ body :: cs => exitScopes p (p.enter K body) σ body ++ clauseExits p K σ cs

def elseExits (p : Pass N) (K : Consts N) (σ : Scope N) : Option (List (Stmt N)) → List (Scope N)
  | none => []
  | some body => exitScopes p K σ body

theorem clauseExits_eq_nil (p : Pass N) (K : Consts N) (σ : Scope N) :
    ∀ {cs : List (IfClause N)}, continueInClauses cs = false → clauseExits p K σ cs = []
  | [], _ => rfl
  | .mk _ body :: cs, h => by
      rw [continueInClauses, Bool.or_eq_false_iff] at h
      rw [clauseExits, exitScopes_eq_nil p _ h.1, clauseExits_eq_nil p K σ h.2]
      rfl

end Exits

section Tidy
variable {N : Type} [LuaNumber N]

omit [LuaNumber N] in
theorem declaredNames_cleanBlock (ss : List (Stmt N)) :
    declaredNames (cleanBlock ss) = declaredNames ss := by
  induction ss with
  | nil => rfl
  | cons s ss ih =>
    rw [cleanBlock] at ih
    by_cases h : isVacuous s = true
    · rw [cleanBlock, List.filter_cons_of_neg (by simp [h]), ih, declaredNames_cons]
      cases s <;> first | rfl | cases h
    · rw [cleanBlock, List.filter_cons_of_pos (by simp [h]), declaredNames_cons, ih,
        declaredNames_cons s ss]

section
variable {exits inner : List (Scope N)} {σ σ₁ σ₂ : Scope N} {body body' ss ss' : List (Stmt N)}

theorem RewritesBlock.cons_clean {s s' : Stmt N} (hs : RewritesStmt exits σ σ₁ s s')
    (hss : RewritesBlock exits σ₁ σ₂ ss (cleanBlock ss')) :
    RewritesBlock exits σ σ₂ (s::ss) (cleanBlock (s'::ss')) := by
  by_cases h : isVacuous s' = true
  · rw [cleanBlock, List.filter_cons_of_neg (by simp [h])]
    exact .skip hs h hss
  · rw [cleanBlock, List.filter_cons_of_pos (by simp [h])]
    exact .cons hs hss

theorem RewritesBlock.spliceThen_clean {c : Expr N} {cs : List (IfClause N)}
    {els : Option (List (Stmt N))}
    (hinner : inner = [] ∨ leakAll σ (declaredNames body') ∈ exits)
    (hc : Rewrites σ c (.booleanLiteral true))
    (hbody : RewritesBlock inner σ σ₁ body (cleanBlock body'))
    (hss : RewritesBlock exits (leakAll σ (declaredNames body')) σ₂ ss (cleanBlock ss')) :
    RewritesBlock exits σ σ₂ (.ifStatement (.mk c body :: cs) els :: ss)
      (cleanBlock (body' ++ ss')) := by
  rw [← declaredNames_cleanBlock body'] at hinner hss
  rw [cleanBlock, List.filter_append]
  exact .spliceThen hinner hc hbody hss

theorem RewritesBlock.spliceElse_clean {c : Expr N} {dead : List (Stmt N)}
    (hinner : inner = [] ∨ leakAll σ (declaredNames body') ∈ exits)
    (hc : Rewrites σ c (.booleanLiteral false))
    (hbody : RewritesBlock inner σ σ₁ body (cleanBlock body'))
    (hss : RewritesBlock exits (leakAll σ (declaredNames body')) σ₂ ss (cleanBlock ss')) :
    RewritesBlock exits σ σ₂ (.ifStatement [.mk c dead] (some body) :: ss)
      (cleanBlock (body' ++ ss')) := by
  rw [← declaredNames_cleanBlock body'] at hinner hss
  rw [cleanBlock, List.filter_append]
  exact .spliceElse hinner hc hbody hss

end

/-- Statements that do nothing may be left out of the rewritten block. -/
theorem rewrites_cleanBlock : ∀ {b b' : List (Stmt N)} {exits : List (Scope N)} {σ σ' : Scope N},
    RewritesBlock exits σ σ' b b' → RewritesBlock exits σ σ' b (cleanBlock b')
  | _, _, _, _, _, .nil => .nil
  | _, _, _, _, _, .cons hs hss => .cons_clean hs (rewrites_cleanBlock hss)
  | _, _, _, _, _, .skip hs hvacuous hss => .skip hs hvacuous (rewrites_cleanBlock hss)
  | _, _, _, _, _, .spliceThen hinner hc hbody hss =>
      .spliceThen_clean hinner hc (rewrites_cleanBlock hbody) (rewrites_cleanBlock hss)
  | _, _, _, _, _, .spliceElse hinner hc hbody hss =>
      .spliceElse_clean hinner hc (rewrites_cleanBlock hbody) (rewrites_cleanBlock hss)

theorem Pass.rewrites_tidy (p : Pass N) {exits : List (Scope N)} {σ σ' : Scope N}
    {b b' : List (Stmt N)} (h : RewritesBlock exits σ σ' b b') :
    RewritesBlock exits σ σ' b (p.tidy b') := by
  by_cases hcleans : p.cleans = true
  · rw [Pass.tidy, if_pos hcleans]
    exact rewrites_cleanBlock h
  · rw [Pass.tidy, if_neg hcleans]
    exact h

end Tidy

section Pruning
variable {N : Type}

/-- With no constants, a name stays a name and anything else does too. -/
theorem visit_name? (p : Pass N) {K : Consts N} (hK : ∀ x, K x = none) (e : Expr N) :
    (visit p K e).name? = e.name? := by
  cases e with
  | identifier x => rw [visit, hK]; rfl
  | _ => rfl

theorem visitDirect_names? (p : Pass N) {K : Consts N} (hK : ∀ x, K x = none)
    (es : List (Expr N)) :
    (visitDirect p K es).filterMap Expr.name? = es.filterMap Expr.name? := by
  induction es with
  | nil => rfl
  | cons e es ih =>
    rw [visitDirect]
    by_cases he : e.name?.isSome = true
    · rw [if_pos he, List.filterMap_cons, List.filterMap_cons, ih]
    · rw [if_neg he, List.filterMap_cons, List.filterMap_cons, ih, visit_name? p hK]

theorem visit_booleanLiteral (p : Pass N) {K : Consts N} (hK : ∀ x, K x = none) {e : Expr N}
    {b : Bool} (h : visit p K e = .booleanLiteral b) : e = .booleanLiteral b := by
  cases e with
  | identifier x => rw [visit, hK] at h; cases h
  | booleanLiteral value => exact h
  | _ => cases h

theorem declaredNames_append (ss ts : List (Stmt N)) :
    declaredNames (ss ++ ts) = declaredNames ss ++ declaredNames ts := by
  induction ss with
  | nil => rfl
  | cons s ss ih =>
    rw [List.cons_append, declaredNames_cons, ih, declaredNames_cons s ss, List.append_assoc]

theorem deadBranch_undecided {c : Expr N} {body : List (Stmt N)} {cs : List (IfClause N)}
    {els : Option (List (Stmt N))} (h : ∀ b, c ≠ .booleanLiteral b) :
    deadBranch (.ifStatement (.mk c body :: cs) els) = [.ifStatement (.mk c body :: cs) els] := by
  cases c with
  | booleanLiteral b => exact absurd rfl (h b)
  | _ => rfl

theorem surfacing_undecided {c : Expr N} {body : List (Stmt N)} {cs : List (IfClause N)}
    {els : Option (List (Stmt N))} (h : ∀ b, c ≠ .booleanLiteral b) :
    surfacing (.ifStatement (.mk c body :: cs) els) = [] := by
  cases c with
  | booleanLiteral b => exact absurd rfl (h b)
  | _ => rfl

theorem visitClauses_cons (p : Pass N) (K : Consts N) (c : Expr N) (body : List (Stmt N))
    (cs : List (IfClause N)) : visitClauses p K (.mk c body :: cs) =
      .mk (visit p K c) (visitBlock p (p.enter K body) body) :: visitClauses p K cs := rfl

theorem visitStmt_if (p : Pass N) (K : Consts N) (cs : List (IfClause N))
    (els : Option (List (Stmt N))) : visitStmt p K (.ifStatement cs els) =
      .ifStatement (visitClauses p K cs) (els.map (visitBlock p K)) := by
  cases els <;> rfl

/-- What an `if` leaves in its block, given what its branches would leave. -/
theorem declaredNames_visitIf (p : Pass N) {K : Consts N} (hprunes : p.prunes = true)
    (hK : ∀ x, K x = none) {c : Expr N} {body : List (Stmt N)} {cs : List (IfClause N)}
    {els : Option (List (Stmt N))}
    (hbody : declaredNames (visitBlock p (p.enter K body) body) = surfacingBlock body)
    (hels : ∀ b, els = some b → declaredNames (visitBlock p K b) = surfacingBlock b) :
    declaredNames (p.replace (visitStmt p K (.ifStatement (.mk c body :: cs) els))) =
      surfacing (.ifStatement (.mk c body :: cs) els) := by
  rw [Pass.replace, if_pos hprunes, visitStmt_if, visitClauses_cons]
  by_cases hliteral : ∃ b, c = .booleanLiteral b
  · obtain ⟨b, rfl⟩ := hliteral
    cases b with
    | true => exact hbody
    | false => cases cs with
      | cons c' cs =>
        cases c'
        rfl
      | nil => cases els with
        | none => rfl
        | some b =>
          have hb := hels b rfl
          show declaredNames (deadBranch (.ifStatement [.mk (.booleanLiteral false) _]
            (some (visitBlock p K b)))) = surfacingBlock b
          cases hvisit : visitBlock p K b with
          | nil =>
            rw [← hb, hvisit]
            rfl
          | cons s ss =>
            rw [← hb, hvisit]
            rfl
  · have hundecided : ∀ b, c ≠ .booleanLiteral b := fun b hb => hliteral ⟨b, hb⟩
    have hvisited : ∀ b, visit p K c ≠ .booleanLiteral b :=
      fun b hb => hundecided b (visit_booleanLiteral p hK hb)
    rw [deadBranch_undecided hvisited, surfacing_undecided hundecided]
    rfl

mutual

theorem declaredNames_visitStmt (p : Pass N) (hp : p.Sane) (hprunes : p.prunes = true) :
    ∀ (s : Stmt N) (K : Consts N), p.Bare K →
      declaredNames (p.replace (visitStmt p K s)) = surfacing s
  | .localStatement vars init, K, hK => by
      rw [Pass.replace, if_pos hprunes]
      show (visitDirect p K vars).filterMap Expr.name? ++ [] = _
      rw [visitDirect_names? p (hK hprunes), List.append_nil]
      rfl
  | .localFunctionStatement identifier params isVararg body, K, hK => by
      rw [Pass.replace, if_pos hprunes]
      show (visit p K identifier).name?.toList ++ [] = _
      rw [visit_name? p (hK hprunes), List.append_nil]
      rfl
  | .ifStatement [] els, K, hK => by
      rw [Pass.replace, if_pos hprunes]
      rfl
  | .ifStatement (.mk c body :: cs) els, K, hK =>
      declaredNames_visitIf p hprunes (hK hprunes)
        (declaredNames_visitBlock p hp hprunes body _ (hK.enter hp body))
        (match els with
          | none => nofun
          | some b => fun b' h => by
              cases h
              exact declaredNames_visitBlock p hp hprunes b K hK)
  | .assignmentStatement _ _, _, _ => by rw [Pass.replace, if_pos hprunes]; rfl
  | .functionDeclaration _ _ _ _ _, _, _ => by rw [Pass.replace, if_pos hprunes]; rfl
  | .callStatement _, _, _ => by rw [Pass.replace, if_pos hprunes]; rfl
  | .whileStatement _ _, _, _ => by rw [Pass.replace, if_pos hprunes]; rfl
  | .repeatStatement _ _, _, _ => by rw [Pass.replace, if_pos hprunes]; rfl
  | .numericForStatement _ _ _ _ _, _, _ => by rw [Pass.replace, if_pos hprunes]; rfl
  | .genericForStatement _ _ _, _, _ => by rw [Pass.replace, if_pos hprunes]; rfl
  | .doStatement _, _, _ => by rw [Pass.replace, if_pos hprunes]; rfl
  | .returnStatement _, _, _ => by rw [Pass.replace, if_pos hprunes]; rfl
  | .breakStatement, _, _ => by rw [Pass.replace, if_pos hprunes]; rfl
  | .continueStatement, _, _ => by rw [Pass.replace, if_pos hprunes]; rfl
  | .emptyStatement, _, _ => by rw [Pass.replace, if_pos hprunes]; rfl

theorem declaredNames_visitBlock (p : Pass N) (hp : p.Sane) (hprunes : p.prunes = true) :
    ∀ (ss : List (Stmt N)) (K : Consts N), p.Bare K →
      declaredNames (visitBlock p K ss) = surfacingBlock ss
  | [], _, _ => rfl
  | s::ss, K, hK => by
      rw [visitBlock, declaredNames_append, declaredNames_visitStmt p hp hprunes s K hK,
        declaredNames_visitBlock p hp hprunes ss K hK]
      rfl

end

end Pruning

section Conditionals
variable {N : Type} [LuaNumber N] [DecidableEq N]

/-- A statement and its visited form may head related blocks. -/
def Step (p : Pass N) (K : Consts N) (exits : List (Scope N)) (σ : Scope N) (s : Stmt N) : Prop :=
  ∀ (σ₂ : Scope N) (ss ss' : List (Stmt N)), RewritesBlock exits (afterStmt p K σ s) σ₂ ss ss' →
    RewritesBlock exits σ σ₂ (s::ss) (p.replace (visitStmt p K s) ++ ss')

omit [LuaNumber N] [DecidableEq N] in
theorem Pass.replace_single (p : Pass N) {s : Stmt N} (h : deadBranch s = [s]) :
    p.replace s = [s] := by
  rw [Pass.replace, h, ite_self]

theorem Step.single {p : Pass N} {K : Consts N} {exits : List (Scope N)} {σ : Scope N}
    {s : Stmt N} (hs : RewritesStmt exits σ (afterStmt p K σ s) s (visitStmt p K s))
    (hdead : deadBranch (visitStmt p K s) = [visitStmt p K s]) : Step p K exits σ s := by
  intro σ₂ ss ss' hss
  rw [p.replace_single hdead]
  exact .cons hs hss

def fitsElse (p : Pass N) (K : Consts N) (σ : Scope N) : Option (List (Stmt N)) → Bool
  | none => true
  | some body => fitsBlock p K σ body

omit [LuaNumber N] in
theorem fitsStmt_if (p : Pass N) (K : Consts N) (σ : Scope N) (c : Expr N) (body : List (Stmt N))
    (cs : List (IfClause N)) (els : Option (List (Stmt N))) :
    fitsStmt p K σ (.ifStatement (.mk c body :: cs) els) = match p.decided c with
      | some true => fitsBlock p (p.enter K body) σ body
      | some false => fitsClauses p K σ cs && fitsElse p K σ els
      | none => fits p K σ c && fitsBlock p (p.enter K body) σ body && fitsClauses p K σ cs &&
          fitsElse p K σ els := by
  cases els <;> rfl

omit [LuaNumber N] [DecidableEq N] in
theorem hasContinue_if (cs : List (IfClause N)) (els : Option (List (Stmt N))) :
    hasContinue (.ifStatement cs els) = (continueInClauses cs || (match els with
      | none => false
      | some body => continueInBlock body)) := by
  cases els <;> rfl

omit [LuaNumber N] in
/-- A branch hands on a `continue` only if the statement does. -/
theorem branchExits_eq_nil (p : Pass N) (K : Consts N) (σ : Scope N) {cs : List (IfClause N)}
    {els : Option (List (Stmt N))} (h : hasContinue (.ifStatement cs els) = false) :
    clauseExits p K σ cs ++ elseExits p K σ els = [] := by
  rw [hasContinue_if, Bool.or_eq_false_iff] at h
  rw [clauseExits_eq_nil p K σ h.1]
  cases els with
  | none => rfl
  | some body => exact exitScopes_eq_nil p K h.2 σ

omit [LuaNumber N] [DecidableEq N] in
theorem Pass.decided_eq_some {p : Pass N} {c : Expr N} {b : Bool} (h : p.decided c = some b) :
    p.prunes = true ∧ c = .booleanLiteral b := by
  unfold Pass.decided at h
  split at h
  next hprunes =>
    cases h
    exact ⟨hprunes, rfl⟩
  next => cases h

omit [LuaNumber N] [DecidableEq N] in
theorem Pass.decided_literal {p : Pass N} (hprunes : p.prunes = true) (b : Bool) :
    p.decided (.booleanLiteral b) = some b := by
  simp [Pass.decided, hprunes]

omit [LuaNumber N] [DecidableEq N] in
theorem Pass.decided_eq_none {p : Pass N} {c : Expr N} (h : p.decided c = none)
    (hprunes : p.prunes = true) (b : Bool) : c ≠ .booleanLiteral b := by
  intro hc
  rw [hc, Pass.decided_literal hprunes] at h
  cases h

omit [LuaNumber N] in
/-- An `if` that the pass leaves standing keeps the scope. -/
theorem afterStmt_undecided {p : Pass N} (K : Consts N) (σ : Scope N) {c : Expr N}
    {body : List (Stmt N)} {cs : List (IfClause N)} {els : Option (List (Stmt N))}
    (h : p.decided c = none) : afterStmt p K σ (.ifStatement (.mk c body :: cs) els) = σ := by
  rw [afterStmt]
  by_cases hprunes : p.prunes = true
  · rw [if_pos hprunes, surfacing_undecided (Pass.decided_eq_none h hprunes), leakAll_nil]
  · rw [if_neg hprunes]

omit [LuaNumber N] [DecidableEq N] in
theorem replace_undecided {p : Pass N} {K : Consts N} (hK : p.Bare K) {c : Expr N}
    {body : List (Stmt N)} {cs : List (IfClause N)} {els : Option (List (Stmt N))}
    (h : p.decided c = none) : p.replace (visitStmt p K (.ifStatement (.mk c body :: cs) els)) =
      [visitStmt p K (.ifStatement (.mk c body :: cs) els)] := by
  by_cases hprunes : p.prunes = true
  · apply p.replace_single
    rw [visitStmt_if, visitClauses_cons]
    apply deadBranch_undecided
    intro b hb
    exact Pass.decided_eq_none h hprunes b (visit_booleanLiteral p (hK hprunes) hb)
  · rw [Pass.replace, if_neg hprunes]

/-- The parts of an `if`, each rewritten wherever the pass fits it. -/
structure Branches (p : Pass N) (K : Consts N) (σ : Scope N) (c : Expr N) (body : List (Stmt N))
    (cs : List (IfClause N)) (els : Option (List (Stmt N))) (inner : List (Scope N)) : Prop where
  condition : fits p K σ c = true → Rewrites σ c (visit p K c)
  body : fitsBlock p (p.enter K body) σ body = true →
    RewritesBlock inner σ (afterBlock p (p.enter K body) σ body) body
      (visitBlock p (p.enter K body) body)
  clauses : fitsClauses p K σ cs = true → RewritesClauses inner σ cs (visitClauses p K cs)
  elseBody : fitsElse p K σ els = true → RewritesElse inner σ els (els.map (visitBlock p K))

variable {p : Pass N} {K : Consts N} {exits inner : List (Scope N)} {σ : Scope N} {c : Expr N}
  {body : List (Stmt N)} {cs : List (IfClause N)} {els : Option (List (Stmt N))}

theorem step_if_undecided (hK : p.Bare K) (hparts : Branches p K σ c body cs els inner)
    (hdecided : p.decided c = none)
    (hfits : fitsStmt p K σ (.ifStatement (.mk c body :: cs) els) = true)
    (hinner : inner = [] ∨ afterStmt p K σ (.ifStatement (.mk c body :: cs) els) ∈ exits) :
    Step p K exits σ (.ifStatement (.mk c body :: cs) els) := by
  intro σ₂ ss ss' hss
  rw [afterStmt_undecided K σ hdecided] at hss hinner
  rw [fitsStmt_if, hdecided] at hfits
  simp only [Bool.and_eq_true] at hfits
  obtain ⟨⟨⟨hc, hbody⟩, hcs⟩, hels⟩ := hfits
  rw [replace_undecided hK hdecided, visitStmt_if]
  exact .cons (.ifStatement hinner
    (.cons (hparts.condition hc) (hparts.body hbody) (hparts.clauses hcs))
    (hparts.elseBody hels)) hss

theorem step_if_true (hp : p.Sane) (hK : p.Bare K) (hprunes : p.prunes = true)
    (hparts : Branches p K σ (.booleanLiteral true) body cs els inner)
    (hfits : fitsStmt p K σ (.ifStatement (.mk (.booleanLiteral true) body :: cs) els) = true)
    (hinner : inner = [] ∨
      afterStmt p K σ (.ifStatement (.mk (.booleanLiteral true) body :: cs) els) ∈ exits) :
    Step p K exits σ (.ifStatement (.mk (.booleanLiteral true) body :: cs) els) := by
  intro σ₂ ss ss' hss
  rw [fitsStmt_if, Pass.decided_literal hprunes] at hfits
  have hnames := declaredNames_visitBlock p hp hprunes body (p.enter K body) (hK.enter hp body)
  have hafter : afterStmt p K σ (.ifStatement (.mk (.booleanLiteral true) body :: cs) els) =
      leakAll σ (declaredNames (visitBlock p (p.enter K body) body)) := by
    rw [afterStmt, if_pos hprunes, hnames]
    rfl
  rw [hafter] at hss hinner
  rw [Pass.replace, if_pos hprunes]
  exact .spliceThen hinner .booleanLiteral (hparts.body hfits) hss

theorem step_if_false (hp : p.Sane) (hK : p.Bare K) (hprunes : p.prunes = true)
    (hparts : Branches p K σ (.booleanLiteral false) body cs els inner)
    (hfits : fitsStmt p K σ (.ifStatement (.mk (.booleanLiteral false) body :: cs) els) = true)
    (hinner : inner = [] ∨
      afterStmt p K σ (.ifStatement (.mk (.booleanLiteral false) body :: cs) els) ∈ exits) :
    Step p K exits σ (.ifStatement (.mk (.booleanLiteral false) body :: cs) els) := by
  intro σ₂ ss ss' hss
  rw [fitsStmt_if, Pass.decided_literal hprunes, Bool.and_eq_true] at hfits
  have hclauses := hparts.clauses hfits.1
  have helse := hparts.elseBody hfits.2
  rw [afterStmt, if_pos hprunes] at hss hinner
  rw [Pass.replace, if_pos hprunes, visitStmt_if, visitClauses_cons]
  cases cs with
  | cons c' cs =>
    -- the first clause goes, the others stay
    have hkeep : leakAll σ (surfacing (.ifStatement
        (.mk (.booleanLiteral false) body :: c' :: cs) els)) = σ := by
      cases els <;> exact leakAll_nil σ
    rw [hkeep] at hss hinner
    cases c'
    exact .cons (.shift hinner .booleanLiteral hclauses helse) hss
  | nil => cases els with
    | none =>
      have hkeep : leakAll σ (surfacing (.ifStatement
          [.mk (.booleanLiteral false) body] none)) = σ := leakAll_nil σ
      rw [hkeep] at hss hinner
      exact .cons (.drop hinner .booleanLiteral helse (.inl rfl)) hss
    | some b =>
      have hnames := declaredNames_visitBlock p hp hprunes b K hK
      have hafter : leakAll σ (surfacing (.ifStatement
          [.mk (.booleanLiteral false) body] (some b))) =
            leakAll σ (declaredNames (visitBlock p K b)) := by
        rw [hnames]
        rfl
      rw [hafter] at hss hinner
      rw [Option.map_some] at helse ⊢
      cases hvisit : visitBlock p K b with
      | nil =>
        rw [hvisit] at hss hinner helse
        rw [show declaredNames ([] : List (Stmt N)) = [] from rfl, leakAll_nil] at hss hinner
        exact .cons (.drop hinner .booleanLiteral helse (.inr rfl)) hss
      | cons s₀ ss₀ =>
        rw [hvisit] at hss hinner helse
        cases helse with
        | some hbody => exact .spliceElse hinner .booleanLiteral hbody hss

theorem step_if (hp : p.Sane) (hK : p.Bare K) (hparts : Branches p K σ c body cs els inner)
    (hfits : fitsStmt p K σ (.ifStatement (.mk c body :: cs) els) = true)
    (hinner : inner = [] ∨ afterStmt p K σ (.ifStatement (.mk c body :: cs) els) ∈ exits) :
    Step p K exits σ (.ifStatement (.mk c body :: cs) els) := by
  cases hdecided : p.decided c with
  | none => exact step_if_undecided hK hparts hdecided hfits hinner
  | some b =>
    obtain ⟨hprunes, rfl⟩ := Pass.decided_eq_some hdecided
    cases b with
    | true => exact step_if_true hp hK hprunes hparts hfits hinner
    | false => exact step_if_false hp hK hprunes hparts hfits hinner

end Conditionals

section Occurrences
variable {N : Type} [LuaNumber N] [DecidableEq N] {p : Pass N} {K : Consts N} {σ : Scope N}

omit [LuaNumber N] [DecidableEq N] in
theorem ne_leaked_of_notLeaked {status : Status N} (h : notLeaked status = true) :
    status ≠ .leaked := by
  intro hs
  rw [hs] at h
  cases h

omit [LuaNumber N] [DecidableEq N] in
theorem eq_unknown_of_isUnknown {status : Status N} (h : isUnknown status = true) :
    status = .unknown := by
  cases status with
  | unknown => rfl
  | _ => cases h

omit [LuaNumber N] in
theorem agrees_eq_true {e : Expr N} {status : Status N} (h : agrees e status = true) :
    (literalValue e).isSome = true ∧ ∃ e', status = .constant e' ∧
      literalValue e = literalValue e' := by
  cases status with
  | constant e' =>
    rw [agrees, Bool.and_eq_true, decide_eq_true_eq] at h
    exact ⟨h.1, e', rfl, h.2⟩
  | _ => cases h

/-- A name stays, or is replaced by the constant it is known to be. -/
theorem rewrites_occurrence (p : Pass N) {x : String} (h : fitsName K σ x = true) :
    Rewrites σ (.identifier x) (visit p K (.identifier x)) := by
  rw [fitsName] at h
  rw [visit]
  cases hx : K x with
  | none =>
    rw [hx] at h
    exact .identifier (ne_leaked_of_notLeaked h)
  | some e =>
    rw [hx] at h
    obtain ⟨-, e', hstatus, hvalue⟩ := agrees_eq_true h
    exact .constant hstatus hvalue

omit [LuaNumber N] in
theorem not_exposes_visit {e : Expr N} (h : fits p K σ e = true) :
    ¬Exposes e (visit p K e) := by
  intro hexposes
  have hmulti := hexposes.1
  cases e with
  | identifier x =>
    rw [fits, fitsName] at h
    rw [visit] at hmulti
    cases hx : K x with
    | none =>
      rw [hx] at hmulti
      cases hmulti
    | some e =>
      rw [hx] at h hmulti
      obtain ⟨hliteral, -⟩ := agrees_eq_true h
      change e.isMulti = true at hmulti
      cases e <;> first | cases hmulti | cases hliteral
  | varargLiteral inParens => exact absurd (hmulti.symm.trans hexposes.2) nofun
  | callExpression base args inParens => exact absurd (hmulti.symm.trans hexposes.2) nofun
  | methodCallExpression base method args inParens =>
    exact absurd (hmulti.symm.trans hexposes.2) nofun
  | _ => cases hmulti

omit [LuaNumber N] [DecidableEq N] in
theorem visit_literal (p : Pass N) (K : Consts N) {e : Expr N}
    (h : (literalValue e).isSome = true) : visit p K e = e ∧ e.name? = none := by
  cases e <;> first | exact ⟨rfl, rfl⟩ | cases h

omit [LuaNumber N] [DecidableEq N] in
theorem visitDirect_tail (p : Pass N) (K : Consts N) (es : List (Expr N)) :
    (visitDirect p K es).tail = visitDirect p K es.tail := by
  cases es <;> rfl

omit [LuaNumber N] in
/-- The scope that the check computes after a local statement is one the rules allow. -/
theorem declares_declareScope (p : Pass N) (K : Consts N) (vars : List (Expr N)) :
    ∀ (σ : Scope N) (init : List (Expr N)),
      Declares σ vars (visitDirect p K init) (declareScope K σ vars init) := by
  induction vars with
  | nil => exact fun σ init => .nil
  | cons x xs ih =>
    intro σ init
    rw [declareScope]
    cases hx : x.name? with
    | none => exact .malformed hx
    | some name =>
      have hunknown : declaredStatus K name init = .unknown →
          Declares σ (x::xs) (visitDirect p K init)
            (declareScope K (Function.update σ name (declaredStatus K name init)) xs init.tail) := by
        intro hstatus
        rw [hstatus]
        apply Declares.unknown hx
        rw [visitDirect_tail]
        exact ih _ _
      cases init with
      | nil => exact hunknown rfl
      | cons e es =>
        cases hname : K name with
        | none => exact hunknown (by simp only [declaredStatus, hname])
        | some e' =>
          by_cases hagrees : agrees e' (.constant e) = true
          · obtain ⟨hsome, e'', hstatus, hvalue⟩ := agrees_eq_true hagrees
            cases hstatus
            rw [hvalue] at hsome
            have hvisit := visit_literal p K hsome
            have hconstant : declaredStatus K name (e::es) = .constant e := by
              simp only [declaredStatus, hname, hagrees, if_true]
            show Declares σ (x::xs) (visitDirect p K (e::es))
              (declareScope K (Function.update σ name (declaredStatus K name (e::es))) xs es)
            rw [hconstant, visitDirect, hvisit.2, hvisit.1]
            exact .constant hx hsome (ih _ _)
          · apply hunknown
            simp only [declaredStatus, hname, hagrees]
            rfl

end Occurrences

section Passes
variable {N : Type} [LuaNumber N] [DecidableEq N]

/-- A child of a local statement: a name stays, anything else is visited. -/
theorem direct_rewrites {p : Pass N} {K : Consts N} {σ : Scope N} {e : Expr N}
    {es : List (Expr N)} (he : fits p K σ e = true → Rewrites σ e (visit p K e))
    (h : fitsInit p K σ (e::es) = true) :
    Rewrites σ e (if e.name?.isSome then e else visit p K e) ∧
      ¬Exposes e (if e.name?.isSome then e else visit p K e) := by
  rw [fitsInit, Bool.and_eq_true] at h
  by_cases hname : e.name?.isSome = true
  · rw [if_pos hname]
    cases e with
    | identifier x => exact ⟨.identifier (ne_leaked_of_notLeaked h.1), not_exposes_self _⟩
    | _ => cases hname
  · rw [if_neg hname]
    have hfits : fits p K σ e = true := by
      have hhead := h.1
      rw [Option.not_isSome_iff_eq_none.mp hname] at hhead
      exact hhead
    exact ⟨he hfits, not_exposes_visit hfits⟩

mutual

theorem visit_rewrites (p : Pass N) (hp : p.Sane) : ∀ (e : Expr N) (K : Consts N) (σ : Scope N),
    p.Bare K → fits p K σ e = true → Rewrites σ e (visit p K e)
  | .identifier x, _, _, _, h => rewrites_occurrence p h
  | .numericLiteral _ _, _, _, _, _ => .numericLiteral
  | .stringLiteral _, _, _, _, _ => .stringLiteral
  | .booleanLiteral _, _, _, _, _ => .booleanLiteral
  | .nilLiteral, _, _, _, _ => .nilLiteral
  | .varargLiteral _, _, _, _, _ => .varargLiteral
  | .unaryExpression _ a, K, σ, hK, h => .unary (visit_rewrites p hp a K σ hK h)
  | .binaryExpression _ l r, K, σ, hK, h => by
      rw [fits, Bool.and_eq_true] at h
      exact .binary (visit_rewrites p hp l K σ hK h.1) (visit_rewrites p hp r K σ hK h.2)
  | .logicalExpression _ l r, K, σ, hK, h => by
      rw [fits, Bool.and_eq_true] at h
      exact .logical (visit_rewrites p hp l K σ hK h.1) (visit_rewrites p hp r K σ hK h.2)
  | .callExpression base args _, K, σ, hK, h => by
      rw [fits, Bool.and_eq_true] at h
      exact .call (visit_rewrites p hp base K σ hK h.1) (visitList_rewrites p hp true args K σ hK h.2)
  | .methodCallExpression base method args _, K, σ, hK, h => by
      simp only [fits, Bool.and_eq_true] at h
      rw [visit, visit_keeps p h.1.2]
      exact .methodCall (visit_rewrites p hp base K σ hK h.1.1)
        (visitList_rewrites p hp true args K σ hK h.2)
  | .memberExpression base _, K, σ, hK, h => .member (visit_rewrites p hp base K σ hK h)
  | .indexExpression base i, K, σ, hK, h => by
      rw [fits, Bool.and_eq_true] at h
      exact .index (visit_rewrites p hp base K σ hK h.1) (visit_rewrites p hp i K σ hK h.2)
  | .functionExpression params _ body, K, σ, hK, h => by
      rw [fits, Bool.and_eq_true] at h
      rw [visit, visitList_keeps p h.1]
      exact .function (p.rewrites_tidy (visitBlock_rewrites p hp body (p.enter K body) _ _
        (hK.enter hp body) h.2 (fun _ hτ => hτ)))
  | .tableConstructor fields, K, σ, hK, h => .table (visitFields_rewrites p hp fields K σ hK h)

theorem visitList_rewrites (p : Pass N) (hp : p.Sane) (multi : Bool) : ∀ (es : List (Expr N))
    (K : Consts N) (σ : Scope N), p.Bare K → fitsList p K σ es = true →
      RewritesArgs multi σ es (visitList p K es)
  | [], _, _, _, _ => .nil
  | [e], K, σ, hK, h => by
      rw [fitsList, Bool.and_eq_true] at h
      exact .last (visit_rewrites p hp e K σ hK h.1) (fun _ => not_exposes_visit h.1)
  | e::f::es, K, σ, hK, h => by
      rw [fitsList, Bool.and_eq_true] at h
      exact .cons (visit_rewrites p hp e K σ hK h.1)
        (visitList_rewrites p hp multi (f::es) K σ hK h.2)

theorem visitInit_rewrites (p : Pass N) (hp : p.Sane) (multi : Bool) : ∀ (es : List (Expr N))
    (K : Consts N) (σ : Scope N), p.Bare K → fitsInit p K σ es = true →
      RewritesArgs multi σ es (visitDirect p K es)
  | [], _, _, _, _ => .nil
  | [e], K, σ, hK, h => by
      have hhead := direct_rewrites (visit_rewrites p hp e K σ hK) h
      exact .last hhead.1 (fun _ => hhead.2)
  | e::f::es, K, σ, hK, h => by
      have hhead := direct_rewrites (visit_rewrites p hp e K σ hK) h
      rw [fitsInit, Bool.and_eq_true] at h
      exact .cons hhead.1 (visitInit_rewrites p hp multi (f::es) K σ hK h.2)

theorem visitFields_rewrites (p : Pass N) (hp : p.Sane) : ∀ (fs : List (TableField N))
    (K : Consts N) (σ : Scope N), p.Bare K → fitsFields p K σ fs = true →
      RewritesFields σ fs (visitFields p K fs)
  | [], _, _, _, _ => .nil
  | [.tableValue e], K, σ, hK, h => by
      rw [fitsFields, Bool.and_eq_true] at h
      exact .last (visit_rewrites p hp e K σ hK h.1) (not_exposes_visit h.1)
  | .tableValue e :: f :: fs, K, σ, hK, h => by
      rw [fitsFields, Bool.and_eq_true] at h
      have hhead := visit_rewrites p hp e K σ hK h.1
      have hrest := visitFields_rewrites p hp (f::fs) K σ hK h.2
      cases f with
      | tableValue v => exact .value hhead hrest
      | tableKey k v => exact .value hhead hrest
      | tableKeyString k v => exact .value hhead hrest
  | .tableKey k v :: fs, K, σ, hK, h => by
      simp only [fitsFields, Bool.and_eq_true] at h
      exact .key (visit_rewrites p hp k K σ hK h.1.1) (visit_rewrites p hp v K σ hK h.1.2)
        (visitFields_rewrites p hp fs K σ hK h.2)
  | .tableKeyString k v :: fs, K, σ, hK, h => by
      simp only [fitsFields, Bool.and_eq_true] at h
      rw [visitFields, visit_keeps p h.1.1]
      exact .keyString (visit_rewrites p hp v K σ hK h.1.2) (visitFields_rewrites p hp fs K σ hK h.2)

theorem visitTargets_rewrites (p : Pass N) (hp : p.Sane) : ∀ (es : List (Expr N)) (K : Consts N)
    (σ : Scope N), p.Bare K → fitsTargets p K σ es = true →
      RewritesTargets σ es (visitDirect p K es)
  | [], _, _, _, _ => .nil
  | .identifier x :: es, K, σ, hK, h => by
      rw [fitsTargets, Bool.and_eq_true] at h
      exact .name (eq_unknown_of_isUnknown h.1) (visitTargets_rewrites p hp es K σ hK h.2)
  | .memberExpression base property :: es, K, σ, hK, h => by
      rw [fitsTargets, Bool.and_eq_true] at h
      exact .member (visit_rewrites p hp base K σ hK h.1) (visitTargets_rewrites p hp es K σ hK h.2)
  | .indexExpression base i :: es, K, σ, hK, h => by
      rw [fitsTargets, Bool.and_eq_true] at h
      have hparts : (fits p K σ base && fits p K σ i) = true := h.1
      rw [Bool.and_eq_true] at hparts
      exact .index (visit_rewrites p hp base K σ hK hparts.1) (visit_rewrites p hp i K σ hK hparts.2)
        (visitTargets_rewrites p hp es K σ hK h.2)
  | .numericLiteral _ _ :: _, _, _, _, _ => .malformed rfl rfl
  | .stringLiteral _ :: _, _, _, _, _ => .malformed rfl rfl
  | .booleanLiteral _ :: _, _, _, _, _ => .malformed rfl rfl
  | .nilLiteral :: _, _, _, _, _ => .malformed rfl rfl
  | .varargLiteral _ :: _, _, _, _, _ => .malformed rfl rfl
  | .unaryExpression _ _ :: _, _, _, _, _ => .malformed rfl rfl
  | .binaryExpression _ _ _ :: _, _, _, _, _ => .malformed rfl rfl
  | .logicalExpression _ _ _ :: _, _, _, _, _ => .malformed rfl rfl
  | .callExpression _ _ _ :: _, _, _, _, _ => .malformed rfl rfl
  | .methodCallExpression _ _ _ _ :: _, _, _, _, _ => .malformed rfl rfl
  | .functionExpression _ _ _ :: _, _, _, _, _ => .malformed rfl rfl
  | .tableConstructor _ :: _, _, _, _, _ => .malformed rfl rfl

theorem visitStmt_step (p : Pass N) (hp : p.Sane) : ∀ (s : Stmt N) (K : Consts N) (σ : Scope N)
    (exits : List (Scope N)), p.Bare K → fitsStmt p K σ s = true →
      (hasContinue s = true → afterStmt p K σ s ∈ exits) → Step p K exits σ s
  | .localStatement vars init, K, σ, exits, hK, h, _ => by
      rw [fitsStmt, Bool.and_eq_true] at h
      apply Step.single _ rfl
      rw [visitStmt, visitDirect_names p K h.1]
      exact .localStatement (visitInit_rewrites p hp _ init K σ hK h.2)
        (declares_declareScope p K vars σ init)
  | .assignmentStatement vars init, K, σ, exits, hK, h, _ => by
      rw [fitsStmt, Bool.and_eq_true] at h
      exact .single (.assignment (visitTargets_rewrites p hp vars K σ hK h.1)
        (visitList_rewrites p hp _ init K σ hK h.2)) rfl
  | .localFunctionStatement identifier params _ body, K, σ, exits, hK, h, _ => by
      simp only [fitsStmt, Bool.and_eq_true] at h
      apply Step.single _ rfl
      rw [visitStmt, visit_keeps p h.1.1, visitList_keeps p h.1.2]
      exact .localFunction (p.rewrites_tidy (visitBlock_rewrites p hp body (p.enter K body) _ _
        (hK.enter hp body) h.2 (fun _ hτ => hτ)))
  | .functionDeclaration name params _ body isMethod, K, σ, exits, hK, h, _ => by
      simp only [fitsStmt, Bool.and_eq_true] at h
      obtain ⟨⟨hparams, hname⟩, hbody⟩ := h
      apply Step.single _ rfl
      cases hf : functionName name with
      | none => rw [hf] at hname; cases hname
      | some rp =>
        obtain ⟨root, path⟩ := rp
        rw [hf] at hname
        simp only [Bool.and_eq_true, Bool.or_eq_true, Bool.not_eq_true'] at hname
        have hroot : K root = none := Option.isNone_iff_eq_none.mp hname.1.1
        rw [visitStmt, visit_functionName p hf hroot, visitList_keeps p hparams]
        refine .function ?_ (p.rewrites_tidy (visitBlock_rewrites p hp body (p.enter K body) _ _
          (hK.enter hp body) hbody (fun _ hτ => hτ)))
        intro root' path' hf'
        rw [hf] at hf'
        cases hf'
        refine ⟨ne_leaked_of_notLeaked hname.1.2, fun hpath => ?_⟩
        apply eq_unknown_of_isUnknown
        apply hname.2.resolve_right
        rw [hpath]
        nofun
  | .callStatement e, K, σ, exits, hK, h, _ => .single (.call (visit_rewrites p hp e K σ hK h)) rfl
  | .ifStatement [] none, K, σ, exits, hK, _, _ => by
      have hafter : afterStmt p K σ (.ifStatement [] none) = σ := by
        rw [afterStmt]
        exact ite_eq_right_iff.mpr (fun _ => leakAll_nil σ)
      apply Step.single _ rfl
      rw [hafter]
      exact .ifStatement (.inl (rfl : ([] : List (Scope N)) = [])) .nil .none
  | .ifStatement [] (some body), K, σ, exits, hK, h, hcontinue => by
      have hafter : afterStmt p K σ (.ifStatement [] (some body)) = σ := by
        rw [afterStmt]
        exact ite_eq_right_iff.mpr (fun _ => leakAll_nil σ)
      rw [hafter] at hcontinue
      apply Step.single _ rfl
      rw [hafter]
      apply RewritesStmt.ifStatement _ .nil
        (.some (visitBlock_rewrites p hp body K σ (exitScopes p K σ body) hK h (fun _ hτ => hτ)))
      by_cases hc : continueInBlock body = true
      · exact .inr (hcontinue hc)
      · exact .inl (exitScopes_eq_nil p K (Bool.not_eq_true _ ▸ hc) σ)
  | .ifStatement (.mk c body :: cs) els, K, σ, exits, hK, h, hcontinue => by
      have helse : ∀ inner, (∀ τ, τ ∈ elseExits p K σ els → τ ∈ inner) →
          fitsElse p K σ els = true → RewritesElse inner σ els (els.map (visitBlock p K)) :=
        match els with
        | none => fun _ _ _ => .none
        | some b => fun inner hexits hfits =>
            .some (visitBlock_rewrites p hp b K σ inner hK hfits hexits)
      let inner := clauseExits p K σ (.mk c body :: cs) ++ elseExits p K σ els
      have hbody : ∀ τ, τ ∈ exitScopes p (p.enter K body) σ body → τ ∈ inner :=
        fun τ hτ => List.mem_append_left _ (List.mem_append_left _ hτ)
      have hclauses : ∀ τ, τ ∈ clauseExits p K σ cs → τ ∈ inner :=
        fun τ hτ => List.mem_append_left _ (List.mem_append_right _ hτ)
      have hparts : Branches p K σ c body cs els inner := {
        condition := visit_rewrites p hp c K σ hK
        body := fun hfits => visitBlock_rewrites p hp body (p.enter K body) σ inner
          (hK.enter hp body) hfits hbody
        clauses := fun hfits => visitClauses_rewrites p hp cs K σ inner hK hfits hclauses
        elseBody := helse inner (fun τ hτ => List.mem_append_right _ hτ) }
      apply step_if hp hK hparts h
      by_cases hc : hasContinue (.ifStatement (.mk c body :: cs) els) = true
      · exact .inr (hcontinue hc)
      · exact .inl (branchExits_eq_nil p K σ (by simpa using hc))
  | .whileStatement c body, K, σ, exits, hK, h, _ => by
      rw [fitsStmt, Bool.and_eq_true] at h
      exact .single (.whileStatement (visit_rewrites p hp c K σ hK h.1)
        (p.rewrites_tidy (visitBlock_rewrites p hp body (p.enter K body) σ _ (hK.enter hp body) h.2
          (fun _ hτ => hτ)))) rfl
  | .repeatStatement c body, K, σ, exits, hK, h, _ => by
      rw [fitsStmt, Bool.and_eq_true, List.all_eq_true] at h
      exact .single (.repeatStatement (p.rewrites_tidy (visitBlock_rewrites p hp body
        (p.enter K body) σ _ (hK.enter hp body) h.1 (fun _ hτ => hτ)))
        (fun τ hτ => visit_rewrites p hp c K τ hK (h.2 τ hτ))) rfl
  | .numericForStatement x a b none body, K, σ, exits, hK, h, _ => by
      simp only [fitsStmt, Bool.and_eq_true] at h
      obtain ⟨⟨⟨⟨hx, ha⟩, hb⟩, -⟩, hbody⟩ := h
      apply Step.single _ rfl
      rw [visitStmt, visit_keeps p hx]
      exact .numericFor (visit_rewrites p hp a K σ hK ha) (visit_rewrites p hp b K σ hK hb) .none
        (p.rewrites_tidy (visitBlock_rewrites p hp body (p.enter K body) _ _ (hK.enter hp body)
          hbody (fun _ hτ => hτ)))
  | .numericForStatement x a b (some step) body, K, σ, exits, hK, h, _ => by
      simp only [fitsStmt, Bool.and_eq_true] at h
      obtain ⟨⟨⟨⟨hx, ha⟩, hb⟩, hstep⟩, hbody⟩ := h
      apply Step.single _ rfl
      rw [visitStmt, visit_keeps p hx]
      exact .numericFor (visit_rewrites p hp a K σ hK ha) (visit_rewrites p hp b K σ hK hb)
        (.some (visit_rewrites p hp step K σ hK hstep))
        (p.rewrites_tidy (visitBlock_rewrites p hp body (p.enter K body) _ _ (hK.enter hp body)
          hbody (fun _ hτ => hτ)))
  | .genericForStatement vars iterators body, K, σ, exits, hK, h, _ => by
      simp only [fitsStmt, Bool.and_eq_true] at h
      apply Step.single _ rfl
      rw [visitStmt, visitList_keeps p h.1.1]
      exact .genericFor (visitList_rewrites p hp _ iterators K σ hK h.1.2)
        (p.rewrites_tidy (visitBlock_rewrites p hp body (p.enter K body) _ _ (hK.enter hp body)
          h.2 (fun _ hτ => hτ)))
  | .doStatement body, K, σ, exits, hK, h, hcontinue => by
      apply Step.single _ rfl
      apply RewritesStmt.doStatement _ (p.rewrites_tidy (visitBlock_rewrites p hp body
        (p.enter K body) σ (exitScopes p (p.enter K body) σ body) (hK.enter hp body) h
        (fun _ hτ => hτ)))
      by_cases hc : continueInBlock body = true
      · exact .inr (hcontinue hc)
      · exact .inl (exitScopes_eq_nil p _ (Bool.not_eq_true _ ▸ hc) σ)
  | .returnStatement args, K, σ, exits, hK, h, _ =>
      .single (.returnStatement (visitList_rewrites p hp true args K σ hK h)) rfl
  | .breakStatement, _, _, _, _, _, _ => .single .breakStatement rfl
  | .continueStatement, _, _, _, _, _, hcontinue => .single (.continueStatement (hcontinue rfl)) rfl
  | .emptyStatement, _, _, _, _, _, _ => .single .emptyStatement rfl

theorem visitBlock_rewrites (p : Pass N) (hp : p.Sane) : ∀ (ss : List (Stmt N)) (K : Consts N)
    (σ : Scope N) (exits : List (Scope N)), p.Bare K → fitsBlock p K σ ss = true →
      (∀ τ, τ ∈ exitScopes p K σ ss → τ ∈ exits) →
      RewritesBlock exits σ (afterBlock p K σ ss) ss (visitBlock p K ss)
  | [], _, _, _, _, _, _ => .nil
  | s::ss, K, σ, exits, hK, h, hexits => by
      rw [fitsBlock, Bool.and_eq_true] at h
      rw [exitScopes] at hexits
      apply visitStmt_step p hp s K σ exits hK h.1
      · intro hc
        apply hexits
        rw [if_pos hc]
        exact List.mem_append_left _ (List.mem_singleton_self _)
      · exact visitBlock_rewrites p hp ss K (afterStmt p K σ s) exits hK h.2
          (fun τ hτ => hexits τ (List.mem_append_right _ hτ))

theorem visitClauses_rewrites (p : Pass N) (hp : p.Sane) : ∀ (cs : List (IfClause N))
    (K : Consts N) (σ : Scope N) (exits : List (Scope N)), p.Bare K →
      fitsClauses p K σ cs = true → (∀ τ, τ ∈ clauseExits p K σ cs → τ ∈ exits) →
      RewritesClauses exits σ cs (visitClauses p K cs)
  | [], _, _, _, _, _, _ => .nil
  | .mk c body :: cs, K, σ, exits, hK, h, hexits => by
      simp only [fitsClauses, Bool.and_eq_true] at h
      exact .cons (visit_rewrites p hp c K σ hK h.1.1)
        (visitBlock_rewrites p hp body (p.enter K body) σ exits (hK.enter hp body) h.1.2
          (fun τ hτ => hexits τ (List.mem_append_left _ hτ)))
        (visitClauses_rewrites p hp cs K σ exits hK h.2
          (fun τ hτ => hexits τ (List.mem_append_right _ hτ)))

end

theorem Pass.over_rewrites (p : Pass N) (hp : p.Sane) {body : Block N}
    (h : p.fitsChunk body = true) : ∃ exits σ', RewritesBlock exits plain σ' body (p.over body) :=
  ⟨_, _, p.rewrites_tidy (visitBlock_rewrites p hp body (p.enter (fun _ => none) body) plain _
    (p.bare_none.enter hp body) h (fun _ hτ => hτ))⟩

end Passes

section Rounds
variable {N : Type} [LuaNumber N] [DecidableEq N]

omit [LuaNumber N] [DecidableEq N] in
theorem sane_propagation : (propagation : Pass N).Sane := nofun

omit [LuaNumber N] [DecidableEq N] in
theorem sane_pruning : (pruning : Pass N).Sane := fun _ _ _ => rfl

omit [LuaNumber N] [DecidableEq N] in
theorem sane_cleaning : (cleaning : Pass N).Sane := nofun

/-- Each pass of a round fits the tree that it is given. -/
structure RoundFits (body : Block N) : Prop where
  propagates : propagation.fitsChunk body = true
  parsed : parsedBlock (propagateLocalConstants body) = true
  folds : safeBlock (propagateLocalConstants body) = true
  prunes : pruning.fitsChunk (foldBlock (propagateLocalConstants body)) = true
  cleans : cleaning.fitsChunk
    (eliminateDeadBranches (foldBlock (propagateLocalConstants body))) = true

/-- Every round of a cleanup fits. -/
def CleanupFits : ℕ → Block N → Prop
  | 0, _ => True
  | maxPasses+1, body => RoundFits body ∧ CleanupFits maxPasses (cleanupRound body)

/-- A run of a chunk and the calls that the host makes afterwards. -/
def program (runtime : Runtime N) (fuel : ℕ) (calls : List (ℕ × List (Value N)))
    (body : Block N) : Run N (Except (Value N) (List (Value N)) ×
      List (Except (Value N) (List (Value N)))) := do
  let r ← Prog.attempt (runChunk runtime fuel ⟨body⟩)
  let rs ← hostCalls (machine runtime fuel) calls
  pure (r, rs)

omit [DecidableEq N] in
theorem alike_of_rewritesBlock {exits : List (Scope N)} {σ : Scope N} {b b' : Block N}
    (h : RewritesBlock exits plain σ b b') (runtime : Runtime N) (fuel : ℕ)
    (calls : List (ℕ × List (Value N))) (globals : String → Value N) :
    Alike (program runtime fuel calls b (initialState globals))
      (program runtime fuel calls b' (initialState globals)) := by
  have hprogram : Sim Corresponds Same Frozen.start (program runtime fuel calls b)
      (program runtime fuel calls b') := by
    apply sim_bind_same (sim_attempt_same (sim_runChunk h runtime fuel))
    intro w₁ _ r
    exact sim_bind_same (sim_hostCalls calls w₁ (sameMachine_machine runtime fuel w₁))
      (fun _ _ _ => sim_same)
  exact alike_of_ends (hprogram _ le_rfl _ _ (corresponds_initialState globals))

theorem cleanupRound_alike {body : Block N} (h : RoundFits body) (runtime : Runtime N) (fuel : ℕ)
    (calls : List (ℕ × List (Value N))) (globals : String → Value N) :
    Alike (program runtime fuel calls body (initialState globals))
      (program runtime fuel calls (cleanupRound body) (initialState globals)) := by
  obtain ⟨_, _, hpropagates⟩ := propagation.over_rewrites sane_propagation h.propagates
  obtain ⟨_, _, hprunes⟩ := pruning.over_rewrites sane_pruning h.prunes
  obtain ⟨_, _, hcleans⟩ := cleaning.over_rewrites sane_cleaning h.cleans
  have hfolds := rewrites_foldBlock (propagateLocalConstants body) h.parsed h.folds
  exact (((alike_of_rewritesBlock hpropagates runtime fuel calls globals).trans
    (alike_of_rewritesBlock hfolds runtime fuel calls globals)).trans
    (alike_of_rewritesBlock hprunes runtime fuel calls globals)).trans
    (alike_of_rewritesBlock hcleans runtime fuel calls globals)

/-- A cleanup that fits in every round changes nothing that can be observed of the
run, nor of the functions that it leaves behind. -/
theorem run_alike (maxPasses : ℕ) (body : Block N) (h : CleanupFits maxPasses body)
    (runtime : Runtime N) (fuel : ℕ) (calls : List (ℕ × List (Value N)))
    (globals : String → Value N) :
    Alike (program runtime fuel calls body (initialState globals))
      (program runtime fuel calls (run maxPasses body) (initialState globals)) := by
  induction maxPasses generalizing body with
  | zero =>
    rw [run]
    exact Alike.refl _
  | succ maxPasses ih =>
    rw [run]
    exact (cleanupRound_alike h.1 runtime fuel calls globals).trans (ih (cleanupRound body) h.2)

end Rounds

section Examples

/-- The call `print(e)` as a statement. -/
def printing (e : Expr ℤ) : Stmt ℤ := .callStatement (.callExpression (.identifier "print") [e] false)

/-- `local n = 2; if n == 2 then print(n) end; do end`. -/
def decidedProgram : Block ℤ := [
  .localStatement [.identifier "n"] [.numericLiteral 2 "2"],
  .ifStatement [.mk (.binaryExpression .eq (.identifier "n") (.numericLiteral 2 "2"))
    [printing (.identifier "n")]] none,
  .doStatement []]

theorem decidedProgram_fits : CleanupFits 2 decidedProgram :=
  ⟨⟨by decide, by decide, by decide, by decide, by decide⟩,
    ⟨⟨by decide, by decide, by decide, by decide, by decide⟩, trivial⟩⟩

theorem decidedProgram_alike :
    Alike (program idle 5 [] decidedProgram (initialState (fun x => .foreign x)))
      (program idle 5 [] (run 2 decidedProgram) (initialState (fun x => .foreign x))) :=
  run_alike 2 decidedProgram decidedProgram_fits idle 5 [] (fun x => .foreign x)

/-- `local x = 1; do x = 2 end; print(x)`: the assignment in the inner block goes unseen. -/
def nestedAssignment : Block ℤ := [
  .localStatement [.identifier "x"] [.numericLiteral 1 "1"],
  .doStatement [.assignmentStatement [.identifier "x"] [.numericLiteral 2 "2"]],
  printing (.identifier "x")]

theorem run_misses_assignment : ¬∀ (runtime : Runtime ℤ) (fuel : ℕ)
    (calls : List (ℕ × List (Value ℤ))) (globals : String → Value ℤ) (maxPasses : ℕ)
    (body : Block ℤ), parsedBlock body = true →
      Alike (program runtime fuel calls body (initialState globals))
        (program runtime fuel calls (run maxPasses body) (initialState globals)) := by
  intro h
  have hhistory := (h idle 1 [] (fun x => .foreign x) 1 nestedAssignment rfl).history
  have hargs := congrArg (List.map Event.args) hhistory
  have hprinted : [[Value.number (2 : ℤ)]] = [[.number 1]] := hargs
  cases hprinted

end Examples
end LuaRecovery.Transforms
