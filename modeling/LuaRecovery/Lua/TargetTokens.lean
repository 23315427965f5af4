import LuaRecovery.Lua.TokenConsumption

/-!
# The last token of a prefix expression

A name, a member and an index expression end with a name or a bracket, and no
call and nothing in parentheses does.
-/

set_option autoImplicit false

namespace LuaRecovery.Lua
open LuaRecovery.Lib Comp

/-- What an assignment can store to. -/
def Expr.isTarget {N : Type} : Expr N → Bool
  | .identifier _ => true
  | .memberExpression _ _ => true
  | .indexExpression _ _ => true
  | _ => false

namespace Parser
variable {N : Type}

/-- The tokens that are gone end with one of the types. -/
def LastTaken (types : List TokenType) (ts ts' : List (Lexeme N)) : Prop :=
  ∃ taken t, ts = taken ++ t::ts' ∧ t.type ∈ types

/-- The program takes one of the types last. -/
def EndsIn {α : Type} (types : List TokenType) (c : Parser N α) : Prop :=
  ∀ ts a ts', c ts = some (.ok (a, ts')) → LastTaken types ts ts'

theorem LastTaken.before {types : List TokenType} {ts ts₁ ts' : List (Lexeme N)}
    (h : LastTaken types ts₁ ts') (hleaves : Leaves ts ts₁) : LastTaken types ts ts' := by
  obtain ⟨taken, t, rfl, ht⟩ := h
  obtain ⟨before, rfl⟩ := hleaves
  exact ⟨before ++ taken, t, by simp, ht⟩

theorem EndsIn.after {α β : Type} {types : List TokenType} {c : Parser N α} {f : α → Parser N β}
    (hc : Consumes c) (hf : ∀ a, EndsIn types (f a)) : EndsIn types (c >>= f) := by
  intro ts b ts' h
  obtain ⟨a, ts₁, ha, hb⟩ := bind_eq_ok h
  exact (hf a ts₁ b ts' hb).before (hc ts a ts₁ ha)

theorem EndsIn.returning {α β : Type} {types : List TokenType} {c : Parser N α} (hc : EndsIn types c)
    (g : α → β) : EndsIn types (c >>= fun a => pure (g a)) := by
  intro ts b ts' h
  obtain ⟨a, ts₁, ha, hb⟩ := bind_eq_ok h
  cases hb
  exact hc ts a ts' ha

theorem cons_of_nextType {ts : List (Lexeme N)} {type : TokenType} (h : nextType ts = type)
    (htype : type ≠ .eof) : ∃ t, ts = t :: ts.tail ∧ t.type = type := by
  cases ts with
  | nil => exact absurd h.symm htype
  | cons t ts => exact ⟨t, rfl, h⟩

theorem endsIn_consume {types : List TokenType} {type : TokenType} (hmem : type ∈ types)
    (htype : type ≠ .eof) (errorMsg : String) : EndsIn (N := N) types (consume type errorMsg) := by
  intro ts a ts' h
  rw [consume_run] at h
  split at h
  next hnext =>
    cases h
    obtain ⟨t, hts, ht⟩ := cons_of_nextType hnext htype
    exact ⟨[], t, hts, by rwa [ht]⟩
  next => cases h

theorem endsIn_table : EndsIn (N := N) [.rparen, .string, .rbrace]
    (parser.call .parseTableConstructor) := by
  rw [call_eq]
  exact .after (consumes_consume _ _) fun _ => .after (consumes_call _) fun _ =>
    (endsIn_consume (by decide) (by decide) _).returning _

theorem string_of_literal {t : Lexeme N} {s : ByteString}
    (h : literal t = some (.stringLiteral s)) : t.type = .string := by
  unfold literal at h
  split at h
  next => cases h
  next htype _ => exact htype
  all_goals cases h

theorem endsIn_callArgs : EndsIn (N := N) [.rparen, .string, .rbrace]
    (parser.call .parseCallArgs) := by
  rw [call_eq]
  intro ts args ts' h
  simp only [body] at h
  rw [bind_peek, bind_accept] at h
  split at h
  next hparen =>
    refine LastTaken.before ?_ (List.tail_suffix ts)
    simp only [if_true] at h
    refine EndsIn.after (consumes_is _) (fun b => ?_) _ _ _ h
    cases b with
    | true =>
      exact .after (.pure _) fun _ => (endsIn_consume (by decide) (by decide) _).returning _
    | false =>
      exact .after (consumes_call _) fun _ =>
        (endsIn_consume (by decide) (by decide) _).returning _
  next =>
    simp only [Bool.false_eq_true, if_false] at h
    split at h
    next => exact endsIn_table.returning (fun e => [e]) _ _ _ h
    next =>
      cases hliteral : literal (ts.headD .eof) with
      | none =>
        rw [hliteral] at h
        cases h
      | some e =>
        rw [hliteral] at h
        cases e with
        | stringLiteral s =>
          dsimp only at h
          rw [bind_advance] at h
          cases h
          obtain ⟨t, hts, ht⟩ := cons_of_nextType (string_of_literal hliteral) (by decide)
          exact ⟨[], t, hts, by rw [ht]; decide⟩
        | _ => cases h

/-- The tokens of an expression end as those of a target do, if and only if it is one. -/
def EndsAsTarget (e : Expr N) (ts ts' : List (Lexeme N)) : Prop :=
  ∃ taken t, ts = taken ++ t::ts' ∧ (e.isTarget = true ↔ t.type ∈ [.ident, .rbracket])

theorem EndsAsTarget.before {e : Expr N} {ts ts₁ ts' : List (Lexeme N)}
    (h : EndsAsTarget e ts₁ ts') (hleaves : Leaves ts ts₁) : EndsAsTarget e ts ts' := by
  obtain ⟨taken, t, rfl, ht⟩ := h
  obtain ⟨before, rfl⟩ := hleaves
  exact ⟨before ++ taken, t, by simp, ht⟩

theorem endsAsTarget_call {e : Expr N} {ts ts' : List (Lexeme N)} (he : e.isTarget = false)
    (h : LastTaken [.rparen, .string, .rbrace] ts ts') : EndsAsTarget e ts ts' := by
  obtain ⟨taken, t, hts, ht⟩ := h
  refine ⟨taken, t, hts, ?_⟩
  simp only [List.mem_cons, List.not_mem_nil, or_false] at ht
  rcases ht with ht | ht | ht <;> simp [he, ht]

theorem endsAsTarget_next {e : Expr N} {ts : List (Lexeme N)} {type : TokenType}
    (he : e.isTarget = true) (h : nextType ts = type) (htype : type ∈ [.ident, .rbracket]) :
    EndsAsTarget e ts ts.tail := by
  have heof : type ≠ .eof := by
    rintro rfl
    revert htype
    decide
  obtain ⟨t, hts, ht⟩ := cons_of_nextType h heof
  exact ⟨[], t, hts, iff_of_true he (by rwa [ht])⟩

theorem EndsAsTarget.length_lt {e : Expr N} {ts ts' : List (Lexeme N)} (h : EndsAsTarget e ts ts') :
    ts'.length < ts.length := by
  obtain ⟨taken, t, rfl, -⟩ := h
  simp only [List.length_append, List.length_cons]
  omega

/-- After a suffix come the others. -/
theorem EndsAsTarget.more {base e : Expr N} {ts ts₁ ts' : List (Lexeme N)}
    (h : EndsAsTarget base ts ts₁) (hmore : e = base ∧ ts' = ts₁ ∨ EndsAsTarget e ts₁ ts') :
    EndsAsTarget e ts ts' := by
  rcases hmore with ⟨rfl, rfl⟩ | hmore
  · exact h
  · obtain ⟨taken, t, rfl, -⟩ := h
    exact hmore.before ⟨taken ++ [t], by simp⟩

/-- One suffix, and what is left for the others. -/
theorem suffixes_step {base e : Expr N} {ts ts' : List (Lexeme N)}
    (h : parser.call (.parseSuffixes base) ts = some (.ok (e, ts'))) :
    (e = base ∧ ts' = ts) ∨ ∃ base' ts₁, EndsAsTarget base' ts ts₁ ∧
      parser.call (.parseSuffixes base') ts₁ = some (.ok (e, ts')) := by
  rw [call_eq] at h
  simp only [body] at h
  rw [bind_accept] at h
  split at h
  next hbracket =>
    simp only [if_true] at h
    obtain ⟨index, ts₁, hindex, h⟩ := bind_eq_ok h
    rw [bind_consume] at h
    split at h
    next hclose =>
      exact Or.inr ⟨_, ts₁.tail, (endsAsTarget_next rfl hclose (by decide)).before
        ((consumes_call _ _ _ _ hindex).trans (List.tail_suffix ts)), h⟩
    next => cases h
  next =>
    simp only [Bool.false_eq_true, if_false] at h
    rw [bind_accept] at h
    split at h
    next =>
      simp only [if_true] at h
      rw [bind_identifier] at h
      split at h
      next hname =>
        exact Or.inr ⟨_, ts.tail.tail, (endsAsTarget_next rfl hname (by decide)).before
          (List.tail_suffix ts), h⟩
      next => cases h
    next =>
      simp only [Bool.false_eq_true, if_false] at h
      rw [bind_accept] at h
      split at h
      next =>
        simp only [if_true] at h
        rw [bind_identifier] at h
        split at h
        next =>
          obtain ⟨args, ts₁, hargs, h⟩ := bind_eq_ok h
          exact Or.inr ⟨_, ts₁, (endsAsTarget_call rfl (endsIn_callArgs _ _ _ hargs)).before
            ((List.tail_suffix _).trans (List.tail_suffix ts)), h⟩
        next => cases h
      next =>
        simp only [Bool.false_eq_true, if_false] at h
        rw [bind_isOneOf] at h
        split at h
        next =>
          obtain ⟨args, ts₁, hargs, h⟩ := bind_eq_ok h
          exact Or.inr ⟨_, ts₁, endsAsTarget_call rfl (endsIn_callArgs _ _ _ hargs), h⟩
        next =>
          cases h
          exact Or.inl ⟨rfl, rfl⟩

/-- Suffixes end as a target does where they end in one. -/
theorem suffixes_end {base e : Expr N} {ts ts' : List (Lexeme N)}
    (h : parser.call (.parseSuffixes base) ts = some (.ok (e, ts'))) :
    (e = base ∧ ts' = ts) ∨ EndsAsTarget e ts ts' := by
  induction hlen : ts.length using Nat.strong_induction_on generalizing base ts with
  | _ n ih =>
    rcases suffixes_step h with hsame | ⟨base', ts₁, hsuffix, hmore⟩
    · exact Or.inl hsame
    · have hlt := hsuffix.length_lt
      exact Or.inr (hsuffix.more (ih ts₁.length (by omega) hmore rfl))

/-- The expression is in parentheses, with nothing after them. -/
def InParentheses (ts ts' : List (Lexeme N)) : Prop :=
  nextType ts = .lparen ∧ ∃ e t, parser.call .parseExpression ts.tail = some (.ok (e, t::ts')) ∧
    t.type = .rparen

/-- The expression ends with a name or a bracket. -/
abbrev EndsInPlace (ts ts' : List (Lexeme N)) : Prop := LastTaken [.ident, .rbracket] ts ts'

theorem lastTaken_iff {types : List TokenType} {taken ts ts' : List (Lexeme N)} {t : Lexeme N}
    (h : ts = taken ++ t::ts') : LastTaken types ts ts' ↔ t.type ∈ types := by
  constructor
  · rintro ⟨taken', t', h', ht'⟩
    rw [h] at h'
    have hlength : (t::ts').length = (t'::ts').length := rfl
    cases (List.append_inj' h' hlength).2
    exact ht'
  · intro ht
    exact ⟨taken, t, h, ht⟩

theorem EndsAsTarget.endsInPlace_iff {e : Expr N} {ts ts' : List (Lexeme N)}
    (h : EndsAsTarget e ts ts') : EndsInPlace ts ts' ↔ e.isTarget = true := by
  obtain ⟨taken, t, hts, ht⟩ := h
  rw [EndsInPlace, lastTaken_iff hts, ht]

theorem isTarget_nameOf (t : Lexeme N) : (nameOf t).isTarget = true := by
  unfold nameOf
  split <;> rfl

/-- A prefix expression ends with a name or a bracket, if and only if it is a target that is not
in parentheses. -/
theorem endsInPlace_iff {e : Expr N} {ts ts' : List (Lexeme N)}
    (h : parser.call .parsePrefixExp ts = some (.ok (e, ts'))) :
    EndsInPlace ts ts' ↔ e.isTarget = true ∧ ¬ InParentheses ts ts' := by
  rw [call_eq] at h
  simp only [body] at h
  rw [bind_accept] at h
  split at h
  next hopen =>
    simp only [if_true] at h
    obtain ⟨base, ts₁, hbase, h⟩ := bind_eq_ok h
    rw [bind_consume] at h
    split at h
    next hclose =>
      obtain ⟨t, hts₁, ht⟩ := cons_of_nextType hclose (by decide)
      rcases suffixes_end h with ⟨rfl, rfl⟩ | hends
      · have hparens : InParentheses ts ts₁.tail := ⟨hopen, base, t, by rw [← hts₁]; exact hbase, ht⟩
        obtain ⟨before, hbefore⟩ := (consumes_call _ _ _ _ hbase).trans (List.tail_suffix ts)
        have htaken : ts = before ++ t::ts₁.tail := by rw [← hts₁, hbefore]
        rw [EndsInPlace, lastTaken_iff htaken, ht]
        exact iff_of_false (by decide) fun hnot => hnot.2 hparens
      · have hleaves : Leaves ts ts₁.tail := (List.tail_suffix ts₁).trans
          ((consumes_call _ _ _ _ hbase).trans (List.tail_suffix ts))
        rw [(hends.before hleaves).endsInPlace_iff, iff_self_and]
        rintro - ⟨-, e', t', hparens, -⟩
        rw [hbase] at hparens
        cases hparens
        exact absurd hends.length_lt (lt_irrefl _)
    next => cases h
  next hopen =>
    have hparens : ¬ InParentheses ts ts' := fun hparens => hopen hparens.1
    simp only [Bool.false_eq_true, if_false] at h
    rw [bind_is] at h
    split at h
    next hname =>
      rw [bind_advance] at h
      have hfirst : EndsAsTarget (nameOf (ts.headD .eof)) ts ts.tail :=
        endsAsTarget_next (isTarget_nameOf _) (of_decide_eq_true hname) (by decide)
      rw [(hfirst.more (suffixes_end h)).endsInPlace_iff, and_iff_left hparens]
    next => cases h

end Parser
end LuaRecovery.Lua
