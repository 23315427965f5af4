import LuaRecovery.Lua.WellFormed

/-!
# Which of the accepted trees are well-formed

A tree is, where the parser came to no target that ends otherwise than with a
name or a bracket, to no compound assignment to several targets, and to no
return statement with more of its block after it.
-/

set_option autoImplicit false

namespace LuaRecovery.Lua
open LuaRecovery.Lib Comp

namespace Parser
variable {N : Type}

/-- The functions for the other statements. -/
def OtherStatement (r : Rule N (Stmt N)) : Prop :=
  r ∈ [Rule.parseLocalFunction, .parseLocalVariables, .parseFunctionDeclaration, .parseIfStatement,
    .parseWhileStatement, .parseRepeatStatement, .parseForStatement, .parseCallOrAssignment]

theorem isReturn_other {r : Rule N (Stmt N)} (h : OtherStatement r) :
    Ensures (parser.call r) fun s => s.isReturn = false := by
  rw [call_eq]
  simp only [OtherStatement, List.mem_cons, List.not_mem_nil, or_false] at h
  rcases h with rfl | rfl | rfl | rfl | rfl | rfl | rfl | rfl
  all_goals
    dsimp only [body]
    repeat' with_reducible first
      | refine Ensures.bind_bind ?_
      | refine Ensures.bind_ite ?_ ?_
      | refine Ensures.pure_bind ?_
      | refine Ensures.bind (.any _) fun _ _ => ?_
      | refine Ensures.ite ?_ ?_
      | exact Ensures.pure rfl
      | exact Ensures.throw _
      | exact ensures_fail _ _
      | split

/-- A statement is no return statement, if it is none with and without a first token. -/
theorem isReturn_accept {type : TokenType} {f : Bool → Parser N (Stmt N)} {ts ts' : List (Lexeme N)}
    {s : Stmt N} (h : (accept type >>= f) ts = some (.ok (s, ts')))
    (htrue : nextType ts = type → Ensures (f true) fun s => s.isReturn = false)
    (hfalse : f false ts = some (.ok (s, ts')) → s.isReturn = false) : s.isReturn = false := by
  rw [bind_accept] at h
  split at h
  next hnext => exact htrue hnext _ _ _ h
  next => exact hfalse h

/-- A return statement is what starts with its word. -/
theorem isReturn_iff {ts rest : List (Lexeme N)} {s : Stmt N}
    (h : parser.call .parseStatement ts = some (.ok (s, rest))) :
    s.isReturn = true ↔ nextType ts = .returnWord := by
  rw [call_eq] at h
  by_cases hnext : nextType ts = .returnWord
  · simp only [body, bind_accept, hnext, reduceCtorEq, if_true, if_false, Bool.false_eq_true] at h
    refine iff_of_true ((?_ : Ensures _ fun s => s.isReturn = true) _ _ _ h) hnext
    exact .bind (.any _) fun _ _ => .ite (.bind (.any _) fun _ _ => .bind (.any _) fun _ _ =>
      .pure rfl) (.bind (.any _) fun _ _ => .bind (.any _) fun _ _ => .pure rfl)
  · refine iff_of_false ?_ hnext
    rw [Bool.not_eq_true]
    dsimp only [body] at h
    refine isReturn_accept h (fun _ => .pure rfl) fun h => ?_
    refine isReturn_accept h (fun _ => .bind (.any _) fun _ _ => .ite
      (isReturn_other (by simp [OtherStatement])) (isReturn_other (by simp [OtherStatement])))
      fun h => ?_
    refine isReturn_accept h (fun _ => isReturn_other (by simp [OtherStatement])) fun h => ?_
    refine isReturn_accept h (fun _ => isReturn_other (by simp [OtherStatement])) fun h => ?_
    refine isReturn_accept h (fun _ => isReturn_other (by simp [OtherStatement])) fun h => ?_
    refine isReturn_accept h (fun _ => isReturn_other (by simp [OtherStatement])) fun h => ?_
    refine isReturn_accept h (fun _ => .bind (.any _) fun _ _ => .bind (.any _) fun _ _ => .pure rfl)
      fun h => ?_
    refine isReturn_accept h (fun _ => isReturn_other (by simp [OtherStatement])) fun h => ?_
    refine isReturn_accept h (fun _ => .bind (.any _) fun _ _ => .pure rfl) fun h => ?_
    refine isReturn_accept h (fun _ => .bind (.any _) fun _ _ => .pure rfl) fun h => ?_
    refine isReturn_accept h (fun hreturn => absurd hreturn hnext) fun h => ?_
    exact isReturn_other (by simp [OtherStatement]) _ _ _ h

theorem block_nil {ts rest : List (Lexeme N)}
    (h : parser.call .parseBlock ts = some (.ok ([], rest))) : nextType ts ∈ endsBlock := by
  rw [call_eq] at h
  simp only [body] at h
  rw [bind_isOneOf] at h
  by_cases hends : nextType ts ∈ endsBlock
  · exact hends
  · rw [decide_eq_false hends] at h
    obtain ⟨s, ts₁, -, h⟩ := bind_eq_ok h
    obtain ⟨ss, ts₂, -, h⟩ := bind_eq_ok h
    cases h

theorem block_ends {ts rest : List (Lexeme N)} {ss : List (Stmt N)}
    (h : parser.call .parseBlock ts = some (.ok (ss, rest))) (hends : nextType ts ∈ endsBlock) :
    ss = [] := by
  rw [call_eq] at h
  simp only [body] at h
  rw [bind_isOneOf, decide_eq_true hends] at h
  cases h
  rfl

/-- What the functions give is what the parser gives. -/
theorem body_below {self : Rules N} (h : self.Below parser) : (rules self).Below parser := by
  intro α r ts x hx
  rw [call_eq]
  exact (finitary_body r).mono self parser h ts x hx

section Step
variable {self : Rules N} (hself : self.Below parser)
  (hgood : ∀ {α : Type} (r : Rule N α), Given r → Ensures (self.call r) (Good r))
  {ts : List (Lexeme N)}
include hself hgood

theorem good_block {ss : List (Stmt N)} {rest : List (Lexeme N)} (hreturn : ¬ ReturnsEarly ts)
    (h : body self .parseBlock ts = some (.ok (ss, rest))) : WellFormedBlock ss := by
  simp only [body] at h
  rw [bind_isOneOf] at h
  split at h
  next =>
    cases h
    trivial
  next =>
    obtain ⟨s, ts₁, hs, h⟩ := bind_eq_ok h
    obtain ⟨ss', ts₂, hss, h⟩ := bind_eq_ok h
    cases h
    refine ⟨hgood .parseStatement trivial ts s ts₁ hs, fun hlast => ?_,
      hgood .parseBlock trivial ts₁ ss' rest hss⟩
    have hs' := hself _ _ _ hs
    have hends : nextType ts₁ ∈ endsBlock := by
      by_contra hmore
      exact hreturn ⟨(isReturn_iff hs').mp hlast, s, ts₁, hs', hmore⟩
    exact block_ends (hself _ _ _ hss) hends

theorem good_moreTargets {es : List (Expr N)} {rest : List (Lexeme N)}
    (hplace : ¬ Misplaced .moreTargets ts)
    (h : body self .moreTargets ts = some (.ok (es, rest))) : Good .moreTargets es := by
  simp only [body] at h
  rw [bind_accept] at h
  split at h
  next hcomma =>
    simp only [if_true] at h
    obtain ⟨e, ts₁, he, h⟩ := bind_eq_ok h
    obtain ⟨es', ts₂, hes, h⟩ := bind_eq_ok h
    cases h
    have he' := hself _ _ _ he
    have hends : EndsInPlace ts.tail ts₁ := by
      by_contra hends
      exact hplace ⟨hcomma, e, ts₁, he', hends⟩
    have hmore := hgood .moreTargets trivial ts₁ es' rest hes
    exact ⟨List.forall_mem_cons.mpr ⟨((endsInPlace_iff he').mp hends).1, hmore.1⟩,
      hgood .parsePrefixExp trivial ts.tail e ts₁ he, hmore.2⟩
  next =>
    cases h
    exact ⟨List.forall_mem_nil _, trivial⟩

theorem good_assignment {s : Stmt N} {rest : List (Lexeme N)}
    (hplace : ¬ Misplaced .parseCallOrAssignment ts)
    (h : body self .parseCallOrAssignment ts = some (.ok (s, rest))) : WellFormedStmt s := by
  simp only [body] at h
  obtain ⟨first, ts₁, hfirst, h⟩ := bind_eq_ok h
  have hfirst' := hself _ _ _ hfirst
  have hgoodFirst : WellFormedExpr first := hgood .parsePrefixExp trivial ts first ts₁ hfirst
  rw [bind_isOneOf] at h
  split at h
  next hnext =>
    obtain ⟨more, ts₂, hmore, h⟩ := bind_eq_ok h
    rw [bind_advance] at h
    obtain ⟨init, ts₃, hinit, h⟩ := bind_eq_ok h
    obtain ⟨-, ts₄, -, h⟩ := bind_eq_ok h
    have hends : EndsInPlace ts ts₁ := by
      by_contra hends
      exact hplace ⟨first, ts₁, hfirst', of_decide_eq_true hnext, Or.inl hends⟩
    have htargets := hgood .moreTargets trivial ts₁ more ts₂ hmore
    have hvalues : WellFormedExprs init := hgood .parseExpressions trivial _ init ts₃ hinit
    have hvars : ∀ v ∈ first :: more, v.isTarget = true :=
      List.forall_mem_cons.mpr ⟨((endsInPlace_iff hfirst').mp hends).1, htargets.1⟩
    split at h
    next =>
      cases h
      exact ⟨hvars, ⟨hgoodFirst, htargets.2⟩, hvalues⟩
    next =>
      cases hoperator : compoundOperator (ts₂.headD .eof).type with
      | none =>
        rw [hoperator] at h
        cases h
      | some operator =>
        rw [hoperator] at h
        cases init with
        | nil => cases h
        | cons value others =>
          cases h
          exact ⟨hvars, ⟨hgoodFirst, htargets.2⟩, ⟨hgoodFirst, hvalues.1⟩, hvalues.2⟩
  next =>
    cases first with
    | callExpression =>
      obtain ⟨-, ts₂, -, h⟩ := bind_eq_ok h
      cases h
      exact hgoodFirst
    | methodCallExpression =>
      obtain ⟨-, ts₂, -, h⟩ := bind_eq_ok h
      cases h
      exact hgoodFirst
    | _ => cases h

end Step

/-- Away from what is misplaced, all that is returned is well-formed. -/
theorem good_of_avoiding {α : Type} {r : Rule N α} {ts rest : List (Lexeme N)} {a : α}
    (h : (Handler.avoiding rules Misplaced).call r ts = some (.ok (a, rest))) (hgiven : Given r) :
    Good r a := by
  refine (Handler.avoiding_induction
    (P := fun r ts x => parser.call r ts = some x ∧
      ∀ a rest, x = .ok (a, rest) → Given r → Good r a) ?_ h).2 a rest rfl hgiven
  intro self hself α r ts x hplace hx
  have hbelow : self.Below parser := fun r ts x hx => (hself r ts x hx).1
  refine ⟨body_below hbelow r ts x hx, fun a rest heq hgiven => ?_⟩
  subst heq
  have hgood : ∀ {α : Type} (r : Rule N α), Given r → Ensures (self.call r) (Good r) :=
    fun r hgiven ts a rest hx => (hself r ts _ hx).2 a rest rfl hgiven
  by_cases hr : Lenient r
  · cases r with
    | parseBlock => exact good_block hbelow hgood hplace hx
    | parseCallOrAssignment => exact good_assignment hbelow hgood hplace hx
    | moreTargets => exact good_moreTargets hbelow hgood hplace hx
    | _ => exact hr.elim
  · exact good_body hgood r hr hgiven ts a rest hx

/-- What the tree does not show is misplaced. -/
theorem misplaced_of_hidden {α : Type} {r : Rule N α} {ts : List (Lexeme N)} (h : Hidden r ts) :
    Misplaced r ts := by
  cases r with
  | parseCallOrAssignment =>
    obtain ⟨e, rest, he, hnext, hwrong⟩ := h
    refine ⟨e, rest, he, hnext, hwrong.imp_left fun hparens hends => ?_⟩
    exact ((endsInPlace_iff he).mp hends).2 hparens
  | moreTargets =>
    obtain ⟨hcomma, e, rest, he, hparens⟩ := h
    exact ⟨hcomma, e, rest, he, fun hends => ((endsInPlace_iff he).mp hends).2 hparens⟩
  | _ => exact h.elim

section Shown
variable {ts rest : List (Lexeme N)}

theorem block_in_place {ss : List (Stmt N)}
    (h : parser.call .parseBlock ts = some (.ok (ss, rest))) (hgood : WellFormedBlock ss) :
    ¬ ReturnsEarly ts := by
  rintro ⟨hnext, s, ts₁, hs, hmore⟩
  rw [call_eq] at h
  simp only [body] at h
  rw [bind_isOneOf, hnext] at h
  obtain ⟨s', ts₁', hs', h⟩ := bind_eq_ok h
  rw [hs] at hs'
  cases hs'
  obtain ⟨ss', ts₂, hss, h⟩ := bind_eq_ok h
  cases h
  cases hgood.2.1 ((isReturn_iff hs).mpr hnext)
  exact hmore (block_nil hss)

theorem moreTargets_in_place {es : List (Expr N)}
    (h : parser.call .moreTargets ts = some (.ok (es, rest))) (hgood : Good .moreTargets es)
    (hhidden : ¬ Hidden .moreTargets ts) : ¬ Misplaced .moreTargets ts := by
  rintro ⟨hcomma, e, ts₁, he, hends⟩
  rw [call_eq] at h
  simp only [body] at h
  rw [bind_accept, if_pos hcomma] at h
  obtain ⟨e', ts₁', he', h⟩ := bind_eq_ok h
  rw [he] at he'
  cases he'
  obtain ⟨es', ts₂, hes, h⟩ := bind_eq_ok h
  cases h
  refine hends ((endsInPlace_iff he).mpr ⟨hgood.1 e List.mem_cons_self, fun hparens => ?_⟩)
  exact hhidden ⟨hcomma, e, ts₁, he, hparens⟩

/-- The targets of a well-formed assignment are targets. -/
theorem isTarget_first {e : Expr N} {s : Stmt N} {ts₁ : List (Lexeme N)}
    (h : parser.call .parseCallOrAssignment ts = some (.ok (s, rest)))
    (he : parser.call .parsePrefixExp ts = some (.ok (e, ts₁)))
    (hnext : nextType ts₁ ∈ assignmentTypes) (hgood : WellFormedStmt s) : e.isTarget = true := by
  rw [call_eq] at h
  simp only [body] at h
  rw [bind_ok he, bind_isOneOf, decide_eq_true hnext] at h
  obtain ⟨more, ts₂, -, h⟩ := bind_eq_ok h
  rw [bind_advance] at h
  obtain ⟨init, ts₃, -, h⟩ := bind_eq_ok h
  obtain ⟨-, ts₄, -, h⟩ := bind_eq_ok h
  split at h
  next =>
    cases h
    exact hgood.1 e List.mem_cons_self
  next =>
    cases hoperator : compoundOperator (ts₂.headD .eof).type with
    | none =>
      rw [hoperator] at h
      cases h
    | some operator =>
      rw [hoperator] at h
      cases init with
      | nil => cases h
      | cons value others =>
        cases h
        exact hgood.1 e List.mem_cons_self

theorem assignment_in_place {s : Stmt N}
    (h : parser.call .parseCallOrAssignment ts = some (.ok (s, rest))) (hgood : WellFormedStmt s)
    (hhidden : ¬ Hidden .parseCallOrAssignment ts) : ¬ Misplaced .parseCallOrAssignment ts := by
  rintro ⟨e, ts₁, he, hnext, hends | hseveral⟩
  · refine hends ((endsInPlace_iff he).mpr ⟨isTarget_first h he hnext hgood, fun hparens => ?_⟩)
    exact hhidden ⟨e, ts₁, he, hnext, Or.inl hparens⟩
  · exact hhidden ⟨e, ts₁, he, hnext, Or.inr hseveral⟩

/-- Where all that is returned is well-formed, what is misplaced is hidden. -/
theorem in_place {α : Type} {r : Rule N α} {a : α} (h : parser.call r ts = some (.ok (a, rest)))
    (hgood : Good r a) (hhidden : ¬ Hidden r ts) : ¬ Misplaced r ts := by
  cases r with
  | parseBlock => exact block_in_place h hgood
  | moreTargets => exact moreTargets_in_place h hgood hhidden
  | parseCallOrAssignment => exact assignment_in_place h hgood hhidden
  | _ => exact hhidden

end Shown

theorem includes_below {self : Rules N} (h : self.Below parser) : Includes self := by
  have hparser : Includes (parser : Rules N) := by
    intro α r ts a rest hx
    refine Handler.limit_induction
      (P := fun r _ x => ∀ a rest, x = .ok (a, rest) → Good r a → Given r) ?_ hx a rest rfl
    intro self hself α r ts x hx a rest heq
    subst heq
    exact includes_body (fun r ts a rest hx => hself r ts _ hx a rest rfl) r ts a rest hx
  exact fun {_} r ts a rest hx => hparser r ts a rest (h r ts _ hx)

theorem bounded_below (n : ℕ) : (Handler.bounded rules n : Rules N).Below parser :=
  fun _ _ _ hx => (Handler.limit_eq_some finitary_body).mpr ⟨n, hx⟩

/-- A well-formed result that came to nothing hidden came to nothing misplaced. -/
theorem keeps_bounded (n : ℕ) {α : Type} (r : Rule N α) :
    Keeps ((Handler.bounded (fun self => (rules self).except Hidden) n).call r)
      ((Handler.bounded (fun self => (rules self).except Misplaced) n).call r) (Good r) := by
  induction n generalizing α with
  | zero =>
    intro ts a rest hx
    cases hx
  | succ n ih =>
    intro ts a rest hx hgood
    have hbelow : ∀ n, (Handler.bounded (fun self => (rules self).except Hidden) n).Below
        (parser : Rules N) :=
      fun n _ r ts x hx => bounded_below n r ts x
        (Handler.bounded_except_below finitary_body Hidden n r ts x hx)
    have hparser := hbelow (n + 1) r ts _ hx
    obtain ⟨hhidden, hbody⟩ := Handler.except_eq_some.mp hx
    refine Handler.except_eq_some.mpr ⟨in_place hparser hgood hhidden, ?_⟩
    exact keeps_body (includes_below (hbelow n)) (fun r => ih r) r ts a rest hbody hgood

/-! Failures at a node whose operator is none. -/

def IsParseError : Failure → Prop
  | .parseError _ _ => True
  | .unknownOperator _ => False

theorem raises_accept (type : TokenType) (Q : Failure → Prop) :
    Raises (accept type : Parser N Bool) Q := by
  intro ts e h
  rw [accept_run] at h
  split at h <;> cases h

theorem raises_consume (type : TokenType) (errorMsg : String) :
    Raises (consume type errorMsg : Parser N (Lexeme N)) IsParseError := by
  intro ts e h
  rw [consume_run] at h
  split at h
  · cases h
  · cases h
    trivial

theorem raises_fail {α : Type} (message : String) :
    Raises (fail message : Parser N α) IsParseError := by
  intro ts e h
  cases h
  trivial

theorem raises_identifier (errorMsg : String) :
    Raises (identifier errorMsg : Parser N (Expr N)) IsParseError :=
  .bind (raises_consume _ _) fun _ => .pure _

theorem raises_peek (Q : Failure → Prop) : Raises (peek : Parser N (Lexeme N)) Q :=
  fun _ _ h => by cases h

theorem raises_peekNext (Q : Failure → Prop) : Raises (peekNext : Parser N (Lexeme N)) Q :=
  fun _ _ h => by cases h

theorem raises_advance (Q : Failure → Prop) : Raises (advance : Parser N (Lexeme N)) Q :=
  fun _ _ h => by cases h

theorem raises_is (type : TokenType) (Q : Failure → Prop) : Raises (is type : Parser N Bool) Q :=
  fun _ _ h => by cases h

theorem raises_isOneOf (types : List TokenType) (Q : Failure → Prop) :
    Raises (isOneOf types : Parser N Bool) Q := fun _ _ h => by cases h

theorem raises_acceptSeparator (Q : Failure → Prop) :
    Raises (acceptSeparator : Parser N Bool) Q :=
  .bind (raises_accept _ _) fun _ => .ite (.pure _) (raises_accept _ _)

/-- An operator that is none comes after several targets. -/
theorem compoundOperator_of_single {type : TokenType} (h : type ∈ assignmentTypes)
    (hcomma : type ≠ .comma) (hassign : type ≠ .assign) :
    ∃ operator, compoundOperator type = some operator := by
  simp only [assignmentTypes, List.mem_cons, List.not_mem_nil, or_false] at h
  rcases h with rfl | rfl | rfl | rfl | rfl | rfl | rfl
  · exact absurd rfl hcomma
  · exact absurd rfl hassign
  all_goals exact ⟨_, rfl⟩

theorem moreTargets_single {ts rest : List (Lexeme N)} {es : List (Expr N)}
    (h : parser.call .moreTargets ts = some (.ok (es, rest))) (hcomma : nextType ts ≠ .comma) :
    rest = ts := by
  rw [call_eq] at h
  simp only [body] at h
  rw [bind_accept, if_neg hcomma] at h
  cases h
  rfl

theorem expressions_cons {ts rest : List (Lexeme N)} {es : List (Expr N)}
    (h : parser.call .parseExpressions ts = some (.ok (es, rest))) : ∃ e es', es = e::es' := by
  rw [call_eq] at h
  simp only [body] at h
  obtain ⟨e, ts₁, -, h⟩ := bind_eq_ok h
  obtain ⟨es', ts₂, -, h⟩ := bind_eq_ok h
  cases h
  exact ⟨e, es', rfl⟩

section Failures
variable {self : Rules N} (hself : self.Below parser)
  (h : ∀ {α : Type} (r : Rule N α), Raises (self.call r) IsParseError)
include hself h

theorem raises_assignment {ts : List (Lexeme N)} {e : Failure}
    (hplace : ¬ Hidden .parseCallOrAssignment ts)
    (he : body self .parseCallOrAssignment ts = some (.error e)) : IsParseError e := by
  simp only [body] at he
  rcases bind_eq_error he with he | ⟨first, ts₁, hfirst, he⟩
  · exact h _ ts e he
  rw [bind_isOneOf] at he
  split at he
  next hnext =>
    have hnext := of_decide_eq_true hnext
    rcases bind_eq_error he with he | ⟨more, ts₂, hmore, he⟩
    · exact h _ ts₁ e he
    rw [bind_advance] at he
    rcases bind_eq_error he with he | ⟨init, ts₃, hinit, he⟩
    · exact h _ _ e he
    rcases bind_eq_error he with he | ⟨-, ts₄, -, he⟩
    · exact raises_accept _ _ _ _ he
    split at he
    next => cases he
    next hassign =>
      have hmore' := hself _ _ _ hmore
      have hcomma : nextType ts₁ ≠ .comma := fun hcomma => hplace
        ⟨first, ts₁, hself _ _ _ hfirst, hnext, .inr ⟨hcomma, more, ts₂, hmore', hassign⟩⟩
      obtain rfl := moreTargets_single hmore' hcomma
      obtain ⟨operator, hoperator⟩ := compoundOperator_of_single hnext hcomma hassign
      have hoperator' : compoundOperator (ts₂.headD .eof).type = some operator := hoperator
      obtain ⟨value, others, rfl⟩ := expressions_cons (hself _ _ _ hinit)
      rw [hoperator'] at he
      cases he
  next =>
    cases first with
    | callExpression => exact Raises.bind (raises_accept _ _) (fun _ => .pure _) _ _ he
    | methodCallExpression => exact Raises.bind (raises_accept _ _) (fun _ => .pure _) _ _ he
    | _ => exact raises_fail _ _ _ he

theorem raises_body {α : Type} (r : Rule N α) {ts : List (Lexeme N)} {e : Failure}
    (hplace : ¬ Hidden r ts) (he : body self r ts = some (.error e)) : IsParseError e := by
  cases r
  case parseCallOrAssignment => exact raises_assignment hself h hplace he
  -- the others differ in what they call, not in how they fail
  all_goals
    refine (?_ : Raises _ IsParseError) _ _ he
    dsimp only [body]
    repeat' with_reducible first
      | refine Raises.bind_bind ?_
      | refine Raises.bind_ite ?_ ?_
      | refine Raises.pure_bind ?_
      | exact Raises.pure _
      | exact h _
      | exact raises_fail _
      | refine Raises.ite ?_ ?_
      | refine Raises.bind (h _) fun _ => ?_
      | refine Raises.bind (raises_accept _ _) fun _ => ?_
      | refine Raises.bind (raises_acceptSeparator _) fun _ => ?_
      | refine Raises.bind (raises_consume _ _) fun _ => ?_
      | refine Raises.bind (raises_identifier _) fun _ => ?_
      | refine Raises.bind (raises_isOneOf _ _) fun _ => ?_
      | refine Raises.bind (raises_is _ _) fun _ => ?_
      | refine Raises.bind (raises_peek _) fun _ => ?_
      | refine Raises.bind (raises_peekNext _) fun _ => ?_
      | refine Raises.bind (raises_advance _) fun _ => ?_
      | split

end Failures

/-- Away from what is hidden, no node has an operator that is none. -/
theorem avoiding_raises {α : Type} {r : Rule N α} {ts : List (Lexeme N)} {e : Failure}
    (h : (Handler.avoiding rules Hidden).call r ts = some (.error e)) : IsParseError e := by
  refine (Handler.avoiding_induction
    (P := fun r ts x => parser.call r ts = some x ∧ ∀ e, x = .error e → IsParseError e) ?_ h).2 e rfl
  intro self hself α r ts x hplace hx
  have hbelow : self.Below parser := fun r ts x hx => (hself r ts x hx).1
  refine ⟨body_below hbelow r ts x hx, fun e heq => ?_⟩
  subst heq
  exact raises_body hbelow (fun r ts e he => (hself r ts _ he).2 e rfl) r hplace hx

/-- In reading a block, the parser comes to one of the places. -/
def ComesTo (bad : Handler.Places (List (Lexeme N)) (Rule N)) (ts : List (Lexeme N)) : Prop :=
  (Handler.avoiding rules bad).call .parseBlock ts ≠ parser.call .parseBlock ts

/-- The tokens before the end of the file. -/
def lexemes (tokens : List (Token N)) : List (Lexeme N) := (tokens.map Token.toLexeme).dropLast

theorem parseBlock_of_parseChunk {depth : ℕ} {tokens : List (Token N)} {chunk : Chunk N}
    (h : parseChunk depth tokens = some (.ok chunk)) :
    ∃ rest, parser.call .parseBlock (lexemes tokens) = some (.ok (chunk.body, rest)) := by
  simp only [parseChunk, Option.map_eq_some_iff] at h
  obtain ⟨result, hresult, h⟩ := h
  cases result with
  | error failure => cases h
  | ok result =>
    obtain ⟨accepted, rest⟩ := result
    cases h
    obtain ⟨body, rest, hbody, hend⟩ := bind_eq_ok hresult
    rw [bind_is] at hend
    split at hend
    next =>
      cases hend
      exact ⟨_, call_eq_some.mpr ⟨depth, hbody⟩⟩
    next => cases hend

theorem comesTo_misplaced {ts : List (Lexeme N)}
    {x : Except Failure (List (Stmt N) × List (Lexeme N))}
    (hx : parser.call .parseBlock ts = some x) (h : ComesTo Hidden ts) : ComesTo Misplaced ts := by
  intro hplace
  rw [hx] at hplace
  refine h ?_
  rw [hx]
  exact Handler.avoiding_anti finitary_body (fun _ _ => misplaced_of_hidden) _ _ _ hplace

/-- A parse that ends with a node whose operator is none came to something hidden. -/
theorem hidden_of_unknownOperator {depth : ℕ} {tokens : List (Token N)} {type : TokenType}
    (h : parseChunk depth tokens = some (.error (.inr type))) :
    parser.call .parseBlock (lexemes tokens) = some (.error (.unknownOperator type)) ∧
      ComesTo Hidden (lexemes tokens) := by
  simp only [parseChunk, Option.map_eq_some_iff] at h
  obtain ⟨result, hresult, h⟩ := h
  cases result with
  | ok result => cases h
  | error failure =>
    obtain rfl : failure = .unknownOperator type := by
      cases failure with
      | unknownOperator other =>
        cases h
        rfl
      | parseError message remaining =>
        simp only [located, Except.error.injEq] at h
        split at h <;> cases h
    have hblock : parser.call .parseBlock (lexemes tokens) =
        some (.error (.unknownOperator type)) := by
      rcases bind_eq_error hresult with hblock | ⟨body, rest, -, hend⟩
      · exact call_eq_some.mpr ⟨depth, hblock⟩
      · rw [bind_is] at hend
        split at hend <;> cases hend
    refine ⟨hblock, fun hhidden => ?_⟩
    rw [hblock] at hhidden
    exact avoiding_raises hhidden

/-- The accepted tree is well-formed, if and only if no target ends otherwise than with a name or a
bracket, a compound assignment has one target, and no return statement stands before the end of its
block. Where the tree would have a node with another token for its operator, after several targets,
the parser came to what is misplaced too. -/
theorem accepted_iff (depth : ℕ) (tokens : List (Token N)) :
    (∀ chunk, parseChunk depth tokens = some (.ok chunk) →
      (WellFormedBlock chunk.body ∧ ¬ ComesTo Hidden (lexemes tokens) ↔
        ¬ ComesTo Misplaced (lexemes tokens))) ∧
    (∀ type, parseChunk depth tokens = some (.error (.inr type)) →
      ComesTo Hidden (lexemes tokens) ∧ ComesTo Misplaced (lexemes tokens)) := by
  refine ⟨fun chunk h => ?_, fun type h => ?_⟩
  · obtain ⟨rest, h⟩ := parseBlock_of_parseChunk h
    constructor
    · rintro ⟨hgood, hhidden⟩ hmisplaced
      refine hmisplaced ?_
      simp only [ComesTo, h, not_not] at hhidden ⊢
      obtain ⟨n, hn⟩ := (Handler.avoiding_eq_some finitary_body).mp hhidden
      exact (Handler.avoiding_eq_some finitary_body).mpr
        ⟨n, keeps_bounded n .parseBlock _ _ rest hn hgood⟩
    · intro hplace
      refine ⟨?_, fun hhidden => hplace (comesTo_misplaced h hhidden)⟩
      simp only [ComesTo, h, not_not] at hplace
      exact good_of_avoiding hplace trivial
  · obtain ⟨hblock, hhidden⟩ := hidden_of_unknownOperator h
    exact ⟨hhidden, comesTo_misplaced hblock hhidden⟩

section Cases

/-- The tokens of `f() = 1`. -/
def callTarget : List (Token ℕ) :=
  [⟨⟨.ident, .text "f", "f"⟩, ⟨1, 1, 0⟩⟩, ⟨.punctuation .lparen "(", ⟨1, 2, 1⟩⟩,
    ⟨.punctuation .rparen ")", ⟨1, 3, 2⟩⟩, ⟨.punctuation .assign "=", ⟨1, 5, 4⟩⟩,
    ⟨⟨.number, .number 1, "1"⟩, ⟨1, 7, 6⟩⟩, ⟨.eof, ⟨1, 8, 7⟩⟩]

/-- The tokens of `a, b == c`. -/
def targetsCompared : List (Token ℕ) :=
  [⟨⟨.ident, .text "a", "a"⟩, ⟨1, 1, 0⟩⟩, ⟨.punctuation .comma ",", ⟨1, 2, 1⟩⟩,
    ⟨⟨.ident, .text "b", "b"⟩, ⟨1, 4, 3⟩⟩, ⟨.punctuation .eqEq "==", ⟨1, 6, 5⟩⟩,
    ⟨⟨.ident, .text "c", "c"⟩, ⟨1, 9, 8⟩⟩, ⟨.eof, ⟨1, 10, 9⟩⟩]

/-- The value of a call is assigned to. -/
def callAssignment : Chunk ℕ :=
  ⟨[.assignmentStatement [.callExpression (.identifier "f") [] false] [.numericLiteral 1 "1"]]⟩

theorem callAssignment_illFormed : ¬ WellFormedBlock callAssignment.body :=
  fun h => Bool.false_ne_true (h.1.1 _ List.mem_cons_self)

/-- In reading `f() = 1` and `a, b == c`, the parser comes to what is misplaced. -/
theorem callTarget_misplaced :
    ComesTo Misplaced (lexemes callTarget) ∧ ComesTo Misplaced (lexemes targetsCompared) := by
  have hparse : parseChunk 9 callTarget = some (.ok callAssignment) := rfl
  have hunknown : parseChunk 9 targetsCompared = some (.error (.inr .eqEq)) := rfl
  refine ⟨?_, ((accepted_iff 9 targetsCompared).2 .eqEq hunknown).2⟩
  by_contra hplace
  exact callAssignment_illFormed (((accepted_iff 9 callTarget).1 _ hparse).mpr hplace).1

/-- An assignment to a call is accepted. -/
theorem accepts_callTarget :
    ∃ chunk, parseChunk 9 callTarget = some (.ok chunk) ∧ ¬ WellFormedBlock chunk.body :=
  ⟨callAssignment, rfl, callAssignment_illFormed⟩

end Cases

end Parser
end LuaRecovery.Lua
