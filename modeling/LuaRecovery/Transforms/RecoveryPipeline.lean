import LuaRecovery.Cfg.Dispatcher
import LuaRecovery.Lua.ParsedTrees
import LuaRecovery.Transforms.AliasRecovery
import LuaRecovery.Transforms.PrintedMeaning

/-!
# The recovery pipeline on unprotected scripts

`RecoveryPipeline.run`: constants are folded, the strings of an adapter that
answers are put in, constants are folded again, aliases are put back,
dispatchers are taken apart, and the cleanup passes run. Each stage stops after
its own step, and what it has is printed. What happens to a protected script is
a parameter; the results are about scripts that nothing recognises as protected.
-/

set_option autoImplicit false

namespace LuaRecovery.Transforms
open LuaRecovery.Lib LuaRecovery.Lua LuaRecovery.Evaluator LuaRecovery.Cfg Lexer LuaGenerator
open Lua.Parser

section Names
variable {N : Type}

theorem isName_named {e : Expr N} (h : e.IsNamed) : isName e = true := by
  obtain ⟨name, rfl, -⟩ := h
  rfl

theorem isName_all {es : List (Expr N)} (h : ∀ e ∈ es, e.IsNamed) : es.all isName = true :=
  List.all_eq_true.mpr fun e he => isName_named (h e he)

end Names

section Parsed
variable {N : Type} [Numerals N]

theorem functionName_isSome {e : Expr N} (h : e.IsFunctionName) (hparsed : e.Parsed) :
    (functionName e).isSome = true := by
  induction e using functionName.induct with
  | case1 name => rfl
  | case2 base property ih =>
    obtain ⟨name, rfl, -⟩ := hparsed.2
    obtain ⟨path, hpath⟩ := Option.isSome_iff_exists.mp (ih h hparsed.1)
    rw [functionName, hpath]
    rfl
  | case3 e hname hmember =>
    cases e with
    | identifier name => exact (hname name rfl).elim
    | memberExpression base property => exact (hmember base property rfl).elim
    | _ => exact h.elim

mutual

theorem parsed_expr : ∀ e : Expr N, e.Parsed → parsed e = true
  | .identifier _, _ => rfl
  | .numericLiteral _ _, _ => rfl
  | .stringLiteral _, _ => rfl
  | .booleanLiteral _, _ => rfl
  | .nilLiteral, _ => rfl
  | .varargLiteral _, _ => rfl
  | .unaryExpression _ argument, h => parsed_expr argument h
  | .binaryExpression _ left right, h => by
    rw [parsed, parsed_expr left h.1, parsed_expr right h.2]
    rfl
  | .logicalExpression _ left right, h => by
    rw [parsed, parsed_expr left h.1, parsed_expr right h.2]
    rfl
  | .callExpression base args _, h => by
    rw [parsed, parsed_expr base h.1, parsed_exprs args h.2]
    rfl
  | .methodCallExpression base method args _, h => by
    rw [parsed, parsed_expr base h.1, isName_named h.2.1, parsed_exprs args h.2.2]
    rfl
  | .memberExpression base property, h => by
    rw [parsed, parsed_expr base h.1, isName_named h.2]
    rfl
  | .indexExpression base index, h => by
    rw [parsed, parsed_expr base h.1, parsed_expr index h.2]
    rfl
  | .functionExpression params _ body, h => by
    rw [parsed, isName_all h.1, parsed_block body h.2]
    rfl
  | .tableConstructor fields, h => parsed_fields fields h

theorem parsed_exprs : ∀ es : List (Expr N), exprsParsed es → parsedList es = true
  | [], _ => rfl
  | e::es, h => by
    rw [parsedList, parsed_expr e h.1, parsed_exprs es h.2]
    rfl

theorem parsed_fields : ∀ fs : List (TableField N), fieldsParsed fs → parsedFields fs = true
  | [], _ => rfl
  | .tableKey key value :: fs, h => by
    rw [parsedFields, parsed_expr key h.1.1, parsed_expr value h.1.2, parsed_fields fs h.2]
    rfl
  | .tableKeyString key value :: fs, h => by
    rw [parsedFields, isName_named h.1.1, parsed_expr value h.1.2, parsed_fields fs h.2]
    rfl
  | .tableValue value :: fs, h => by
    have hvalue : value.Parsed := h.1
    rw [parsedFields, parsed_expr value hvalue, parsed_fields fs h.2]
    rfl

theorem parsed_stmt : ∀ s : Stmt N, s.Parsed → parsedStmt s = true
  | .localStatement vars init, h => by
    rw [parsedStmt, isName_all h.2.1, parsed_exprs init h.2.2]
    rfl
  | .assignmentStatement vars init, h => by
    rw [parsedStmt, parsed_exprs vars h.2.1, parsed_exprs init h.2.2.2]
    rfl
  | .localFunctionStatement identifier params _ body, h => by
    rw [parsedStmt, isName_named h.1, isName_all h.2.1, parsed_block body h.2.2]
    rfl
  | .functionDeclaration name params _ body _, h => by
    rw [parsedStmt, functionName_isSome h.1.1 h.1.2, isName_all h.2.1, parsed_block body h.2.2]
    rfl
  | .callStatement expression, h => parsed_expr expression h.2
  | .ifStatement clauses none, h => by
    rw [parsedStmt, parsed_clauses clauses h.2.1]
    rfl
  | .ifStatement clauses (some body), h => by
    have hbody : blockParsed body := h.2.2
    rw [parsedStmt, parsed_clauses clauses h.2.1]
    exact parsed_block body hbody
  | .whileStatement condition body, h => by
    rw [parsedStmt, parsed_expr condition h.1, parsed_block body h.2]
    rfl
  | .repeatStatement condition body, h => by
    rw [parsedStmt, parsed_expr condition h.1, parsed_block body h.2]
    rfl
  | .numericForStatement variableName start stop none body, h => by
    rw [parsedStmt, isName_named h.1, parsed_expr start h.2.1, parsed_expr stop h.2.2.1,
      parsed_block body h.2.2.2.2]
    rfl
  | .numericForStatement variableName start stop (some step) body, h => by
    have hstep : step.Parsed := h.2.2.2.1
    rw [parsedStmt, isName_named h.1, parsed_expr start h.2.1, parsed_expr stop h.2.2.1,
      parsed_block body h.2.2.2.2]
    exact parsed_expr step hstep
  | .genericForStatement vars iterators body, h => by
    rw [parsedStmt, isName_all h.2.1, parsed_exprs iterators h.2.2.2.1,
      parsed_block body h.2.2.2.2]
    rfl
  | .doStatement body, h => parsed_block body h
  | .returnStatement args, h => parsed_exprs args h
  | .breakStatement, _ => rfl
  | .continueStatement, _ => rfl
  | .emptyStatement, _ => rfl

theorem parsed_block : ∀ ss : List (Stmt N), blockParsed ss → parsedBlock ss = true
  | [], _ => rfl
  | s::ss, h => by
    rw [parsedBlock, parsed_stmt s h.1, parsed_block ss h.2]
    rfl

theorem parsed_clauses : ∀ cs : List (IfClause N), clausesParsed cs → parsedClauses cs = true
  | [], _ => rfl
  | .mk condition body :: clauses, h => by
    rw [parsedClauses, parsed_expr condition h.1, parsed_block body h.2.1,
      parsed_clauses clauses h.2.2]
    rfl

end

/-- `parse` answers with this tree. -/
def Parses (source : String) (chunk : Chunk N) : Prop :=
  ∃ (tokens : List (Token N)) (depth : ℕ), tokenize source = .ok tokens ∧
    parseChunk depth tokens = some (.ok chunk)

theorem parses_generate {body : Block N} (h : blockLegible body) :
    Parses (generate "  " ⟨body⟩) (⟨blockReread body⟩ : Chunk N) := by
  have hlegible : blockLegible (⟨body⟩ : Chunk N).body := h
  obtain ⟨tokens, htokens, hlexemes⟩ := lexes_generate "  " isIndent_spaces hlegible ⟨1, 1, 0⟩
  obtain ⟨depth, hparse⟩ := parseChunk_tokens hlegible hlexemes
  exact ⟨tokens, depth, htokens, hparse⟩

end Parsed

section Pipeline
variable {N : Type} [LuaNumber N] [DecidableEq N]

/-- How far the pipeline goes. -/
inductive RecoveryStage where
  | l0
  | l1
  | l2
  | l3
  | l4
  | l5

def envVarNames : List String := ["A", "env"]

omit [LuaNumber N] [DecidableEq N] in
/-- A script that returns what a function makes whose first local is a large table. -/
def returnsLargeTable : Block N → Bool
  | .returnStatement (.callExpression (.functionExpression _ _
      (.localStatement _ (.tableConstructor fields :: _) :: _)) _ _ :: _) :: _ => 100 < fields.length
  | _ => false

omit [LuaNumber N] [DecidableEq N] in
/-- `detect` of `adapters/wearedevs/wearedevs-adapter.js`, the only adapter. -/
def detect (body : Block N) (rawSource : String) : Bool :=
  "wearedevs.net/obfuscator".toList <:+: rawSource.toList || returnsLargeTable body

/-- What is done to protected scripts only. -/
structure Protection (N : Type) where
  /-- What the strings of the adapter make of a tree. -/
  inline : Block N → Block N
  /-- The functions that the first dispatcher is split into, with the steps after the split. -/
  split : DispatcherLoop N → Block N → Block N
  /-- What the oracle puts in the place of the cleaned tree. -/
  synthesize : DispatcherLoop N → Block N → Block N

/-- The tree with the strings of the adapter put in. -/
def recoverStrings (p : Protection N) (source : String) (body : Block N) : Block N :=
  if detect body source then p.inline (foldBlock body) else foldBlock body

/-- The tree with its aliases put back, where the search for dispatchers begins. -/
def recoverAliases (p : Protection N) (source : String) (body : Block N) : Block N :=
  aliasRecovery envVarNames (foldBlock (recoverStrings p source body))

/-- What the pipeline makes of the tree of a source. -/
def recoverTree (p : Protection N) (stage : RecoveryStage) (source : String) (body : Block N) :
    Block N :=
  match stage with
  | .l0 => body
  | .l1 => foldBlock body
  | .l2 => foldBlock (recoverStrings p source body)
  | .l3 => recoverAliases p source body
  | .l4 => match findDispatchers ⟨recoverAliases p source body⟩ with
      | [] => recoverAliases p source body
      | d::_ => p.split d (recoverAliases p source body)
  | .l5 => match findDispatchers ⟨recoverAliases p source body⟩ with
      | [] => run 5 (recoverAliases p source body)
      | d::_ => p.synthesize d (run 5 (p.split d (recoverAliases p source body)))

/-- Up to the stage nothing takes the script for a protected one. -/
def Unprotected (stage : RecoveryStage) (source : String) (body : Block N) : Prop :=
  match stage with
  | .l0 => True
  | .l1 => True
  | .l2 => detect body source = false
  | .l3 => detect body source = false
  | .l4 => detect body source = false ∧ findDispatchers ⟨foldBlock body⟩ = []
  | .l5 => detect body source = false ∧ findDispatchers ⟨foldBlock body⟩ = []

/-- The script gives a stage nothing that it would get wrong. -/
def StageFits (stage : RecoveryStage) (body : Block N) : Prop :=
  match stage with
  | .l0 => True
  | .l1 => safeBlock body = true
  | .l2 => safeBlock body = true
  | .l3 => safeBlock body = true ∧ NoAliases envVarNames (blockNodes (foldBlock body))
  | .l4 => safeBlock body = true ∧ NoAliases envVarNames (blockNodes (foldBlock body))
  | .l5 => safeBlock body = true ∧ NoAliases envVarNames (blockNodes (foldBlock body)) ∧
      CleanupFits 5 (foldBlock body)

variable {body : Block N} (runtime : Runtime N) (fuel : ℕ) (calls : List (ℕ × List (Value N)))
  (globals : String → Value N)

omit [DecidableEq N] in
theorem foldBlock_alike (hparsed : parsedBlock body = true) (hsafe : safeBlock body = true) :
    Alike (program runtime fuel calls body (initialState globals))
      (program runtime fuel calls (foldBlock body) (initialState globals)) :=
  alike_of_rewritesBlock (rewrites_foldBlock body hparsed hsafe) runtime fuel calls globals

theorem cleanup_alike (maxPasses : ℕ) {body : Block N} (h : CleanupFits maxPasses body) :
    Alike (program runtime fuel calls body (initialState globals))
      (program runtime fuel calls (run maxPasses body) (initialState globals)) := by
  induction maxPasses generalizing body with
  | zero => exact Alike.refl _
  | succ maxPasses ih => exact (cleanupRound_alike h.1 runtime fuel calls globals).trans (ih h.2)

variable {p : Protection N} {source : String}

omit [DecidableEq N] in
theorem recoverStrings_eq (hadapter : detect body source = false) :
    recoverStrings p source body = foldBlock body := by
  rw [recoverStrings, if_neg (by rw [hadapter]; exact Bool.false_ne_true)]

omit [DecidableEq N] in
/-- Without an adapter and without aliases the first stages only fold. -/
theorem recoverAliases_eq (hadapter : detect body source = false)
    (h : NoAliases envVarNames (blockNodes (foldBlock body))) :
    recoverAliases p source body = foldBlock body := by
  rw [recoverAliases, recoverStrings_eq hadapter, foldBlock_foldBlock, aliasRecovery_self h]

/-- Every stage leaves a program that runs like the script. -/
theorem recoverTree_alike (stage : RecoveryStage) (hparsed : parsedBlock body = true)
    (hplain : Unprotected stage source body) (h : StageFits stage body) :
    Alike (program runtime fuel calls body (initialState globals))
      (program runtime fuel calls (recoverTree p stage source body) (initialState globals)) := by
  cases stage with
  | l0 => exact Alike.refl _
  | l1 => exact foldBlock_alike runtime fuel calls globals hparsed h
  | l2 =>
    rw [recoverTree, recoverStrings_eq hplain, foldBlock_foldBlock]
    exact foldBlock_alike runtime fuel calls globals hparsed h
  | l3 =>
    rw [recoverTree, recoverAliases_eq hplain h.2]
    exact foldBlock_alike runtime fuel calls globals hparsed h.1
  | l4 =>
    rw [recoverTree, recoverAliases_eq hplain.1 h.2, hplain.2]
    exact foldBlock_alike runtime fuel calls globals hparsed h.1
  | l5 =>
    rw [recoverTree, recoverAliases_eq hplain.1 h.2.1, hplain.2]
    exact (foldBlock_alike runtime fuel calls globals hparsed h.1).trans
      (cleanup_alike runtime fuel calls globals 5 h.2.2)

/-- `finish`: the code that the pipeline returns. -/
def recoverCode [Numerals N] (p : Protection N) (stage : RecoveryStage) (source : String)
    (chunk : Chunk N) : String :=
  generate "  " ⟨recoverTree p stage source chunk.body⟩

/-- Where nothing takes the script for a protected one, each pass fits the tree that it is given
and the last one can be printed, the code that the pipeline returns is accepted again, and runs
like the source. -/
theorem recoverCode_alike [Numerals N] (p : Protection N) (stage : RecoveryStage)
    {source : String} {chunk : Chunk N} (hparses : Parses source chunk)
    (hplain : Unprotected stage source chunk.body) (hfits : StageFits stage chunk.body)
    (hlegible : blockLegible (recoverTree p stage source chunk.body))
    (hkept : AllKept (blockNodes (recoverTree p stage source chunk.body))) :
    ∃ chunk' : Chunk N, Parses (recoverCode p stage source chunk) chunk' ∧
      ∀ (runtime : Runtime N) (fuel : ℕ) (calls : List (ℕ × List (Value N)))
        (globals : String → Value N),
        Alike (program runtime fuel calls chunk.body (initialState globals))
          (program runtime fuel calls chunk'.body (initialState globals)) := by
  obtain ⟨tokens, depth, htokens, hparse⟩ := hparses
  have hparsed := parsed_block chunk.body (parsed_of_source htokens hparse)
  refine ⟨⟨blockReread (recoverTree p stage source chunk.body)⟩, parses_generate hlegible, ?_⟩
  intro runtime fuel calls globals
  exact (recoverTree_alike runtime fuel calls globals stage hparsed hplain hfits).trans
    (reread_alike hkept runtime fuel calls globals)

end Pipeline

section Cases

/-- Integers, read and written in decimal. -/
@[reducible] def integerNumerals : Numerals ℤ where
  number text := ByteString.digitsValue text
  text n := (toString n).toList

attribute [local instance] integerNumerals

/-- `x = f(1 + 2)` -/
def sumProgram : Block ℤ := [
  .assignmentStatement [.identifier "x"] [.callExpression (.identifier "f")
    [.binaryExpression .add (.numericLiteral 1 "1") (.numericLiteral 2 "2")] false]]

def sumChunk : Chunk ℤ := ⟨sumProgram⟩

/-- `x = f(3)` -/
def recoveredSum : Block ℤ := [
  .assignmentStatement [.identifier "x"]
    [.callExpression (.identifier "f") [.numericLiteral 3 "3"] false]]

def sumSource : String := generate "  " ⟨sumProgram⟩

/-- None of the steps for protected scripts is reached. -/
def unreached : Protection ℤ := ⟨fun body => body, fun _ body => body, fun _ body => body⟩

theorem unprotected_sum : Unprotected .l5 sumSource sumChunk.body := ⟨rfl, rfl⟩

theorem recoverTree_sum :
    recoverTree unreached .l5 sumSource sumChunk.body = recoveredSum := rfl

theorem legible_call {e : Expr ℤ} (h : e.Legible) :
    blockLegible [.assignmentStatement [.identifier "x"]
      [.callExpression (.identifier "f") [e] false]] := by
  have hx : IsName "x" := ⟨by decide, rfl⟩
  have hf : IsName "f" := ⟨by decide, rfl⟩
  have hcall : (Expr.callExpression (.identifier "f") [e] false).Legible :=
    ⟨trivial, hf, h, trivial⟩
  exact ⟨⟨by simp, by simp [Expr.IsTarget], ⟨hx, trivial⟩, by simp, hcall, trivial⟩, trivial,
    by simp⟩

theorem legible_one : (Expr.numericLiteral 1 "1" : Expr ℤ).Legible := by
  rw [Expr.Legible]
  exact Or.inl ⟨⟨'1', [], rfl, Or.inl rfl⟩, rfl⟩

theorem legible_two : (Expr.numericLiteral 2 "2" : Expr ℤ).Legible := by
  rw [Expr.Legible]
  exact Or.inl ⟨⟨'2', [], rfl, Or.inl rfl⟩, rfl⟩

theorem legible_three : (Expr.numericLiteral 3 "3" : Expr ℤ).Legible := by
  rw [Expr.Legible]
  exact Or.inl ⟨⟨'3', [], rfl, Or.inl rfl⟩, rfl⟩

theorem sumProgram_fits : StageFits .l5 sumChunk.body := by
  have haliases : NoAliases envVarNames (blockNodes recoveredSum) := by
    constructor <;> simp [recoveredSum, blockNodes, stmtNodes, exprNodes, exprsNodes]
  refine ⟨by decide, haliases, ?_⟩
  exact ⟨⟨by decide, by decide, by decide, by decide, by decide⟩,
    ⟨by decide, by decide, by decide, by decide, by decide⟩,
    ⟨by decide, by decide, by decide, by decide, by decide⟩,
    ⟨by decide, by decide, by decide, by decide, by decide⟩,
    ⟨by decide, by decide, by decide, by decide, by decide⟩, trivial⟩

theorem reread_sum : (⟨blockReread sumProgram⟩ : Chunk ℤ) = sumChunk := rfl

theorem parses_sum : Parses sumSource sumChunk := by
  have hsource : blockLegible sumProgram := by
    unfold sumProgram
    refine legible_call ?_
    rw [Expr.Legible]
    exact ⟨legible_one, legible_two⟩
  have hparses := parses_generate hsource
  rwa [reread_sum] at hparses

theorem recovered_kept : AllKept (blockNodes recoveredSum) := by
  have hspells : Spells (3 : ℤ) (numericText (3 : ℤ) "3").toList := ⟨rfl, rfl⟩
  simp [recoveredSum, blockNodes, stmtNodes, exprNodes, exprsNodes, AllKept, Kept, hspells]

/-- The cleaned up program is printed, accepted and runs like its source. -/
theorem recoverCode_alike_sum :
    ∃ chunk' : Chunk ℤ, Parses (recoverCode unreached .l5 sumSource sumChunk) chunk' ∧
      ∀ (runtime : Runtime ℤ) (fuel : ℕ) (calls : List (ℕ × List (Value ℤ)))
        (globals : String → Value ℤ),
        Alike (program runtime fuel calls sumProgram (initialState globals))
          (program runtime fuel calls chunk'.body (initialState globals)) := by
  have hrecovered := recoverCode_alike unreached .l5 parses_sum unprotected_sum sumProgram_fits
  rw [recoverTree_sum] at hrecovered
  exact hrecovered (legible_call legible_three) recovered_kept

end Cases
end LuaRecovery.Transforms
