import LuaRecovery.Analysis.SemanticEmitter
import LuaRecovery.Analysis.VmDependency

/-!
# Detachment of the emitted trees

The names that the emitter makes up have two characters at least, and the names
of the virtual machine have one. What it calls and indexes it has made up, so an
emitted tree depends on the virtual machine only by a display name that it kept.
-/

set_option autoImplicit false

namespace LuaRecovery.Analysis.SemanticEmitter
open LuaRecovery.Lib LuaRecovery.Lua

/-- No name of the virtual machine. -/
def Long (name : String) : Prop := 2 ≤ name.length

instance (name : String) : Decidable (Long name) := Nat.decLe 2 name.length

theorem long_numbered {stem : String} (h : 0 < stem.length) (n : ℕ) :
    Long (stem ++ toString n) := by
  have hdigits : 0 < (toString n).length := Nat.length_repr_pos
  show 2 ≤ (stem ++ toString n).length
  rw [String.length_append]
  omega

section Nodes
variable {shown : String → Prop}

/-- A name that the emitter made up, or one that it kept. -/
def Known (shown : String → Prop) (name : String) : Prop := Long name ∨ shown name

/-- What an emitted node may refer to. -/
def Fits (shown : String → Prop) : Lua.Node Double → Prop
  | .expr (.identifier name) => Known shown name
  | .expr (.memberExpression base _) => ∀ name, base.name? = some name → Long name
  | .expr (.indexExpression base _) => ∀ name, base.name? = some name → Long name
  | .expr (.callExpression base _ _) => ∀ name, base.name? = some name → Long name
  | _ => True

def Fitting (shown : String → Prop) (nodes : List (Lua.Node Double)) : Prop :=
  ∀ n ∈ nodes, Fits shown n

theorem fitting_nil : Fitting shown [] := nofun

theorem fitting_cons {n : Lua.Node Double} {ns : List (Lua.Node Double)} :
    Fitting shown (n::ns) ↔ Fits shown n ∧ Fitting shown ns := List.forall_mem_cons

theorem fitting_append {ns ms : List (Lua.Node Double)} :
    Fitting shown (ns ++ ms) ↔ Fitting shown ns ∧ Fitting shown ms := List.forall_mem_append

theorem fitting_block {ss : Block Double} :
    Fitting shown (blockNodes ss) ↔ ∀ s ∈ ss, Fitting shown (stmtNodes s) := by
  induction ss with
  | nil => exact ⟨fun _ => nofun, fun _ => fitting_nil⟩
  | cons s ss ih => rw [blockNodes, fitting_append, ih, List.forall_mem_cons]

theorem fitting_exprs {es : List (Expr Double)} :
    Fitting shown (exprsNodes es) ↔ ∀ e ∈ es, Fitting shown (exprNodes e) := by
  induction es with
  | nil => exact ⟨fun _ => nofun, fun _ => fitting_nil⟩
  | cons e es ih => rw [exprsNodes, fitting_append, ih, List.forall_mem_cons]

theorem fitting_identifier {name : String} :
    Fitting shown (exprNodes (.identifier name)) ↔ Known shown name := by
  rw [exprNodes, fitting_cons]
  exact and_iff_left fitting_nil

theorem fitting_named {e : Expr Double} (h : ∃ name, e = .identifier name ∧ Known shown name) :
    Fitting shown (exprNodes e) := by
  obtain ⟨name, rfl, hname⟩ := h
  exact fitting_identifier.mpr hname

theorem fitting_numeral (n : ℕ) : Fitting shown (exprNodes (numeral n)) :=
  fitting_cons.mpr ⟨trivial, fitting_nil⟩

theorem fitting_local {name : String} (hname : Known shown name) {e : Expr Double}
    (he : Fitting shown (exprNodes e)) :
    Fitting shown (stmtNodes (.localStatement [.identifier name] [e])) := by
  rw [stmtNodes, fitting_cons, fitting_append, exprsNodes, exprsNodes, fitting_append,
    fitting_identifier, exprsNodes, exprsNodes, fitting_append]
  exact ⟨trivial, ⟨hname, fitting_nil⟩, he, fitting_nil⟩

theorem fitting_branchValues {captured : Captured} {param : String} (index arity : ℕ)
    (hroot : Known shown captured.root) (htable : ∀ t, captured.table = some t → Long t)
    (hcell : ∀ c, captured.cell = some c → Known shown c) (hparam : Long param) :
    Fitting shown (exprsNodes (branchValues captured param index arity)) := by
  have hbase : Long (captured.table.getD "t1") := by
    cases ht : captured.table with
    | none => exact (by decide : Long "t1")
    | some t => exact htable t ht
  have hcells : Known shown (captured.cell.getD "c1") := by
    cases hc : captured.cell with
    | none => exact .inl (by decide : Long "c1")
    | some c => exact hcell c hc
  have hindex : Fitting shown (exprNodes
      (.indexExpression (.identifier (captured.table.getD "t1")) (numeral index))) := by
    rw [exprNodes, fitting_cons, fitting_append]
    refine ⟨?_, fitting_identifier.mpr (.inl hbase), fitting_numeral index⟩
    intro name hname
    rwa [← Option.some.inj hname]
  rw [fitting_exprs]
  intro e he
  have hmem := List.mem_of_mem_take he
  simp only [List.mem_append, List.mem_cons, List.not_mem_nil, or_false,
    List.mem_replicate] at hmem
  rcases hmem with (rfl | rfl | rfl) | ⟨-, rfl⟩
  · exact fitting_identifier.mpr hroot
  · exact hindex
  · exact fitting_identifier.mpr (.inl hparam)
  · exact fitting_identifier.mpr hcells

theorem fitting_increment {cell : String} (h : Known shown cell) :
    Fitting shown (stmtNodes (increment cell)) := by
  simp only [increment, stmtNodes, exprsNodes, exprNodes, numeral, fitting_cons, fitting_append,
    Fits, List.append_nil]
  exact ⟨trivial, ⟨h, fitting_nil⟩, trivial, ⟨h, fitting_nil⟩, trivial, fitting_nil⟩

theorem fitting_innerBody {captured : Captured} {param : String} (arity : ℕ)
    (hroot : Known shown captured.root) (htable : ∀ t, captured.table = some t → Long t)
    (hcell : ∀ c, captured.cell = some c → Known shown c) (hparam : Long param) :
    Fitting shown (blockNodes (innerBody captured param arity)) := by
  have hvalues := fun index => fitting_branchValues index arity hroot htable hcell hparam
  have hcells : Known shown (captured.cell.getD "c1") := by
    cases hc : captured.cell with
    | none => exact .inl (by decide : Long "c1")
    | some c => exact hcell c hc
  have hif : Fitting shown (stmtNodes (.ifStatement
      [.mk (.binaryExpression .eq (.identifier (captured.cell.getD "c1")) (numeral 1))
        [.returnStatement (branchValues captured param 1 arity)]]
      (some [.returnStatement (branchValues captured param 2 arity)]))) := by
    simp only [stmtNodes, clausesNodes, blockNodes, exprNodes, fitting_cons, fitting_append,
      List.append_nil, Fits]
    exact ⟨trivial, ⟨⟨trivial, ⟨hcells, fitting_nil⟩, fitting_numeral 1⟩, trivial, hvalues 1⟩,
      trivial, hvalues 2⟩
  rw [innerBody, fitting_block]
  intro s hs
  rcases List.mem_append.mp hs with hs | hs
  · obtain ⟨cell, hc, rfl⟩ := Option.map_eq_some_iff.mp (Option.mem_toList.mp hs)
    exact fitting_increment (hcell cell hc)
  · rw [List.mem_singleton.mp hs]
    exact hif

end Nodes

section Supply
variable {shown : String → Prop} {preserved : Bool}

/-- The names on record are such names, those of closures and of the instance made up. -/
structure Apt (shown : String → Prop) (names : Names) : Prop where
  bindings : ∀ id name, names.bindingVarMap.get id = some name → Known shown name
  closures : ∀ id name, names.closureVarMap.get id = some name → Long name
  called : ∀ name, names.instanceVarName = some name → Long name

theorem apt_initial : Apt shown .initial := ⟨nofun, nofun, nofun⟩

theorem apt_next {names : Names} (h : Apt shown names) (stem : String) :
    Apt shown (names.nextIdent stem).2 :=
  ⟨h.bindings, h.closures, h.called⟩

theorem apt_bind {names : Names} (h : Apt shown names) {id name : String}
    (hname : Known shown name) : Apt shown (names.bind id name) where
  bindings i n hget := by
    rw [Names.bind, InsertionMap.get_set] at hget
    split at hget
    next => rwa [← Option.some.inj hget]
    next => exact h.bindings i n hget
  closures := h.closures
  called := h.called

theorem apt_identFor {names : Names} (h : Apt shown names) {displayName : Option String}
    (hshown : ∀ name, preservedName preserved displayName = some name → shown name) {stem : String}
    (hstem : 0 < stem.length) :
    Known shown (names.identFor preserved displayName stem).1 ∧
      Apt shown (names.identFor preserved displayName stem).2 := by
  unfold Names.identFor
  cases hname : preservedName preserved displayName with
  | none => exact ⟨.inl (long_numbered hstem _), apt_next h stem⟩
  | some name => exact ⟨.inr (hshown name hname), h⟩

variable [Host]

theorem fitting_literal (v : Recorded) : Fitting shown (exprNodes (createLiteral v)) := by
  cases v <;> exact fitting_cons.mpr ⟨trivial, fitting_nil⟩

theorem fitting_cellLiteral (v : Recorded) : Fitting shown (exprNodes (cellLiteral v)) := by
  cases v <;> exact fitting_cons.mpr ⟨trivial, fitting_nil⟩

/-- What the declarations so far leave behind. -/
structure Declared (shown : String → Prop) (d : Declarations) : Prop where
  names : Apt shown d.names
  last : ∀ name, d.last = some name → Known shown name
  statements : ∀ s ∈ d.statements, Fitting shown (stmtNodes s)

omit [Host] in
theorem declared_none {names : Names} (h : Apt shown names) : Declared shown ⟨names, none, []⟩ :=
  ⟨h, nofun, nofun⟩

theorem declared_roots {entries : List (String × Binding)}
    (hshown : ∀ entry ∈ entries, ∀ name,
      preservedName preserved entry.2.displayName = some name → shown name) {d : Declarations}
    (h : Declared shown d) : Declared shown (entries.foldl (declareRoot preserved) d) := by
  induction entries generalizing d with
  | nil => exact h
  | cons entry entries ih =>
    refine ih (fun e he => hshown e (List.mem_cons_of_mem _ he)) ?_
    obtain ⟨hname, hnames⟩ := apt_identFor h.names (hshown entry List.mem_cons_self)
      (by decide : 0 < "v".length)
    refine ⟨apt_bind hnames hname, fun name hlast => ?_, fun s hs => ?_⟩
    · rwa [← Option.some.inj hlast]
    · rcases List.mem_append.mp hs with hs | hs
      · exact h.statements s hs
      · rw [List.mem_singleton.mp hs]
        exact fitting_local hname (fitting_literal _)

omit [Host] in
theorem declared_tables (tables : List String) {d : Declarations} (h : Declared shown d)
    (hlong : ∀ name, d.last = some name → Long name) :
    Declared shown (tables.foldl declareTable d) ∧
      ∀ name, (tables.foldl declareTable d).last = some name → Long name := by
  induction tables generalizing d with
  | nil => exact ⟨h, hlong⟩
  | cons tableId tables ih =>
    have hname : Long (d.names.nextIdent "t").1 := long_numbered (by decide : 0 < "t".length) _
    have hlast : ∀ name, (declareTable d tableId).last = some name → Long name :=
      fun name hlast => Option.some.inj hlast ▸ hname
    refine ih ⟨apt_bind (apt_next h.names "t") (.inl hname),
      fun name hn => .inl (hlast name hn), fun s hs => ?_⟩ hlast
    rcases List.mem_append.mp hs with hs | hs
    · exact h.statements s hs
    · rw [List.mem_singleton.mp hs]
      refine fitting_local (.inl hname) ?_
      simp only [exprNodes, fieldsNodes, fitting_cons, List.append_nil]
      exact ⟨trivial, trivial, fitting_nil⟩

theorem declared_cells {entries : List (String × Binding)}
    (hshown : ∀ entry ∈ entries, entry.2.storage = .mutableCell → ∀ name,
      preservedName preserved entry.2.displayName = some name → shown name) {d : Declarations}
    (h : Declared shown d) : Declared shown (entries.foldl (declareCell preserved) d) := by
  induction entries generalizing d with
  | nil => exact h
  | cons entry entries ih =>
    refine ih (fun e he => hshown e (List.mem_cons_of_mem _ he)) ?_
    unfold declareCell
    split_ifs with hcell
    · obtain ⟨hname, hnames⟩ := apt_identFor h.names (hshown entry List.mem_cons_self hcell)
        (by decide : 0 < "c".length)
      refine ⟨apt_bind hnames hname, fun name hlast => ?_, fun s hs => ?_⟩
      · rwa [← Option.some.inj hlast]
      · rcases List.mem_append.mp hs with hs | hs
        · exact h.statements s hs
        · rw [List.mem_singleton.mp hs]
          exact fitting_local hname (fitting_cellLiteral _)
    · exact h

variable {g : EnvironmentGraph} {lifted : LiftedBlocks}

omit [Host] in
theorem emitInner_fitting {table cell : Option String} (htable : ∀ t, table = some t → Long t)
    (hcell : ∀ c, cell = some c → Known shown c) {names : Names} {inner : ClosureNode}
    {r : EmittedClosure × Names} (h : Apt shown names)
    (hr : emitInner g lifted table cell names inner = .ok r) :
    Fitting shown (stmtNodes r.1.statement) ∧ Apt shown r.2 := by
  have hparam : Long (names.nextIdent "p").1 := long_numbered (by decide : 0 < "p".length) _
  have hroot : Known shown ((names.bindingVarMap.get "B_PREFIX").getD "v1") := by
    cases hget : names.bindingVarMap.get "B_PREFIX" with
    | none => exact .inl (by decide : Long "v1")
    | some name => exact h.bindings _ name hget
  unfold emitInner at hr
  cases hcount : valueCount (closureReturnArity g lifted inner.closureId) with
  | error f => simp [hcount] at hr
  | ok arity =>
    have hbody : Fitting shown (blockNodes (innerBody
        ⟨(names.bindingVarMap.get "B_PREFIX").getD "v1", table, cell⟩ (names.nextIdent "p").1
        arity)) := fitting_innerBody arity hroot htable hcell hparam
    simp only [hcount, Except.ok.injEq] at hr
    subst hr
    refine ⟨?_, apt_next h "p"⟩
    simp only [EmittedClosure.statement, stmtNodes, exprsNodes, exprNodes, fitting_cons,
      fitting_append, List.append_nil, Fits]
    exact ⟨trivial, trivial, ⟨.inl hparam, fitting_nil⟩, hbody⟩

omit [Host] in
theorem emitInners_fitting {table cell : Option String} (htable : ∀ t, table = some t → Long t)
    (hcell : ∀ c, cell = some c → Known shown c) {names : Names} {closures : List ClosureNode}
    {inner : List EmittedClosure × Names} (h : Apt shown names)
    (hinner : traverse (emitInner g lifted table cell) names closures = .ok inner) :
    (∀ i ∈ inner.1, Fitting shown (stmtNodes i.statement)) ∧ Apt shown inner.2 :=
  traverse_keeps (P := Apt shown) (Q := fun i => Fitting shown (stmtNodes i.statement))
    (fun _ _ _ hnames hr => emitInner_fitting htable hcell hnames hr) h hinner

theorem emitFactory_fitting {env : EnvironmentNode}
    (hshown : ∀ entry ∈ env.bindings.entries, entry.2.storage = .mutableCell → ∀ name,
      preservedName preserved entry.2.displayName = some name → shown name) {names : Names}
    {factory : ClosureNode} {r : EmittedFactory × Names} (h : Apt shown names)
    (hr : emitFactory preserved g lifted env names factory = .ok r) :
    Fitting shown (stmtNodes r.1.statement) ∧ Apt shown r.2 := by
  have hname : Long (names.nextIdent "fn").1 := long_numbered (by decide : 0 < "fn".length) _
  unfold emitFactory at hr
  dsimp only at hr
  split at hr
  · exact nomatch hr
  · rename_i inner hinner
    have hcalled : Apt shown { (names.nextIdent "fn").2 with
        closureVarMap := (names.nextIdent "fn").2.closureVarMap.set factory.closureId
          (names.nextIdent "fn").1 } := by
      refine ⟨h.bindings, fun id n hget => ?_, h.called⟩
      rw [InsertionMap.get_set] at hget
      split at hget
      next => rwa [← Option.some.inj hget]
      next => exact h.closures id n hget
    obtain ⟨htables, hlong⟩ := declared_tables env.allocatedTables (declared_none hcalled) nofun
    have hcells := declared_cells hshown (declared_none htables.names)
    obtain ⟨hinners, hend⟩ := emitInners_fitting hlong hcells.last hcells.names hinner
    cases hr
    refine ⟨?_, hend⟩
    rw [EmittedFactory.statement, stmtNodes, fitting_cons, fitting_append, fitting_append,
      fitting_identifier, fitting_block]
    refine ⟨trivial, ⟨.inl hname, fitting_nil⟩, fun s hs => ?_⟩
    rcases List.mem_append.mp hs with hs | hs
    · rcases List.mem_append.mp hs with hs | hs
      · exact htables.statements s hs
      · exact hcells.statements s hs
    · obtain ⟨i, hi, rfl⟩ := List.mem_map.mp hs
      exact hinners i hi

theorem emitCall_fitting {names : Names} {call : CallEdge} {r : EmittedCall × Names}
    (h : Apt shown names) (hr : emitCall lifted names call = .ok r) :
    (∀ s ∈ r.1.statements, Fitting shown (stmtNodes s)) ∧ Apt shown r.2 := by
  have hstatements : ∀ c : EmittedCall, Long c.base → (∀ name ∈ c.results, Long name) →
      ∀ s ∈ c.statements, Fitting shown (stmtNodes s) := by
    intro c hbase hresults s hs
    have hargs : Fitting shown (exprsNodes (c.edge.args.map createLiteral)) := by
      rw [fitting_exprs]
      intro e he
      obtain ⟨v, -, rfl⟩ := List.mem_map.mp he
      exact fitting_literal v
    rcases List.mem_cons.mp hs with rfl | hs
    · rw [stmtNodes, fitting_cons, fitting_append, fitting_exprs, exprsNodes, exprsNodes,
        List.append_nil, exprNodes, fitting_cons, fitting_append]
      refine ⟨trivial, fun e he => ?_, fun name hname => ?_, fitting_identifier.mpr (.inl hbase),
        hargs⟩
      · obtain ⟨name, hname, rfl⟩ := List.mem_map.mp he
        exact fitting_identifier.mpr (.inl (hresults name hname))
      · rwa [← Option.some.inj hname]
    · obtain ⟨name, hname, rfl⟩ := List.mem_map.mp hs
      have hprinted : Long name := by
        unfold EmittedCall.printed at hname
        split at hname
        · cases hname
        · exact hresults name hname
      have hprint : Long "print" := by decide
      rw [stmtNodes, fitting_cons, exprNodes, fitting_cons, fitting_append, exprsNodes, exprsNodes,
        List.append_nil]
      refine ⟨trivial, fun base hbase => ?_, fitting_identifier.mpr (.inl hprint),
        fitting_identifier.mpr (.inl hprinted)⟩
      rwa [← Option.some.inj hbase]
  unfold emitCall at hr
  split_ifs at hr with hfactory
  · have hname : Long (names.nextIdent "inst").1 := long_numbered (by decide : 0 < "inst".length) _
    have hbase : Long ((names.closureVarMap.get call.callee).getD "fn1") := by
      cases hget : names.closureVarMap.get call.callee with
      | none => exact (by decide : Long "fn1")
      | some name => exact h.closures _ name hget
    cases hr
    refine ⟨hstatements _ hbase fun name hn => ?_, h.bindings, h.closures, fun name hn => ?_⟩
    · rwa [List.mem_singleton.mp hn]
    · rwa [← Option.some.inj hn]
  · have hbase : Long (names.instanceVarName.getD "inst1") := by
      cases hget : names.instanceVarName with
      | none => exact (by decide : Long "inst1")
      | some name => exact h.called name hget
    cases hcount : call.nameCount lifted with
    | error f => simp [hcount] at hr
    | ok count =>
      rw [hcount] at hr
      cases hr
      refine ⟨hstatements _ hbase fun name hn => ?_, h.bindings, h.closures, h.called⟩
      obtain ⟨i, -, rfl⟩ := List.mem_map.mp hn
      exact long_numbered (by decide : 0 < "r".length) _

/-- A display name that the emitter keeps: of a root binding, or of a cell of the factory. -/
def EnvironmentGraph.Shows (g : EnvironmentGraph) (preserved : Bool) (name : String) : Prop :=
  (∃ env0, g.environments.get "E0" = some env0 ∧
    ∃ entry ∈ env0.bindings.entries, preservedName preserved entry.2.displayName = some name) ∨
  ∃ env, g.factoryEnv = some env ∧ g.factoryClosures ≠ [] ∧
    ∃ entry ∈ env.bindings.entries, entry.2.storage = .mutableCell ∧
      preservedName preserved entry.2.displayName = some name

theorem emitFactories_fitting {names : Names} {r : List EmittedFactory × Names}
    (h : Apt (g.Shows preserved) names) (hr : emitFactories preserved g lifted names = .ok r) :
    (∀ f ∈ r.1, Fitting (g.Shows preserved) (stmtNodes f.statement)) ∧
      Apt (g.Shows preserved) r.2 := by
  unfold emitFactories at hr
  cases henv : g.factoryEnv with
  | none =>
    rw [henv] at hr
    cases hr
    exact ⟨nofun, h⟩
  | some env =>
    rw [henv] at hr
    by_cases hclosures : g.factoryClosures = []
    · rw [hclosures] at hr
      cases hr
      exact ⟨nofun, h⟩
    · have hshown : ∀ entry ∈ env.bindings.entries, entry.2.storage = .mutableCell → ∀ name,
          preservedName preserved entry.2.displayName = some name → g.Shows preserved name :=
        fun entry hentry hcell name hname =>
          .inr ⟨env, henv, hclosures, entry, hentry, hcell, hname⟩
      exact traverse_keeps (P := Apt (g.Shows preserved))
        (Q := fun f => Fitting (g.Shows preserved) (stmtNodes f.statement))
        (fun _ _ _ hnames hr => emitFactory_fitting hshown hnames hr) h hr

theorem emitTree_fitting {env0 : EnvironmentNode} (henv0 : g.environments.get "E0" = some env0)
    {e : Emission} (he : emitTree preserved g lifted env0 = .ok e) :
    Fitting (g.Shows preserved) e.ast.nodes := by
  have hroots : Declared (g.Shows preserved)
      (env0.bindings.entries.foldl (declareRoot preserved) ⟨.initial, none, []⟩) :=
    declared_roots (fun entry hentry name hname => .inl ⟨env0, henv0, entry, hentry, hname⟩)
      (declared_none apt_initial)
  unfold emitTree at he
  dsimp only at he
  split at he
  · exact nomatch he
  · rename_i factories hfactories
    obtain ⟨hfitting, hnames⟩ := emitFactories_fitting hroots.names hfactories
    split at he
    · exact nomatch he
    · rename_i calls hcalls
      have hcalled := (traverse_keeps (P := Apt (g.Shows preserved))
        (Q := fun c => ∀ s ∈ c.statements, Fitting (g.Shows preserved) (stmtNodes s))
        (fun _ _ _ hnames hr => emitCall_fitting hnames hr) hnames hcalls).1
      cases he
      rw [Chunk.nodes, Emission.ast, fitting_block]
      intro s hs
      rcases List.mem_append.mp hs with hs | hs
      · rcases List.mem_append.mp hs with hs | hs
        · exact hroots.statements s hs
        · obtain ⟨f, hf, rfl⟩ := List.mem_map.mp hs
          exact hfitting f hf
      · obtain ⟨c, hc, hs⟩ := List.mem_flatMap.mp hs
        exact hcalled c hc s hs

theorem emit_eq_ok {e : Emission} (h : emit preserved g lifted = .ok e) :
    ∃ env0, g.environments.get "E0" = some env0 ∧ emitTree preserved g lifted env0 = .ok e := by
  unfold emit at h
  split_ifs at h
  split at h
  · exact nomatch h
  · rename_i env0 henv0
    split_ifs at h
    exact ⟨env0, henv0, h⟩

/-- A local of that name is declared. -/
def Declares (name : String) (ss : Block Double) : Prop :=
  ∃ init, .localStatement [.identifier name] [init] ∈ ss

theorem declares_roots {entries : List (String × Binding)} {name : String} (d : Declarations)
    (h : Declares name d.statements ∨
      ∃ entry ∈ entries, preservedName preserved entry.2.displayName = some name) :
    Declares name (entries.foldl (declareRoot preserved) d).statements := by
  induction entries generalizing d with
  | nil =>
    rcases h with h | ⟨e, he, -⟩
    · exact h
    · cases he
  | cons entry entries ih =>
    apply ih
    rcases h with ⟨init, hinit⟩ | ⟨e, he, hname⟩
    · exact .inl ⟨init, List.mem_append_left _ hinit⟩
    · rcases List.mem_cons.mp he with rfl | he
      · have hnamed : (d.names.identFor preserved e.2.displayName "v").1 = name := by
          rw [Names.identFor, hname]
        refine .inl ⟨createLiteral e.2.initialValue, List.mem_append_right _ ?_⟩
        rw [hnamed]
        exact List.mem_singleton_self _
      · exact .inr ⟨e, he, hname⟩

theorem declares_cells {entries : List (String × Binding)} {name : String} (d : Declarations)
    (h : Declares name d.statements ∨ ∃ entry ∈ entries, entry.2.storage = .mutableCell ∧
      preservedName preserved entry.2.displayName = some name) :
    Declares name (entries.foldl (declareCell preserved) d).statements := by
  induction entries generalizing d with
  | nil =>
    rcases h with h | ⟨e, he, -⟩
    · exact h
    · cases he
  | cons entry entries ih =>
    apply ih
    rcases h with ⟨init, hinit⟩ | ⟨e, he, hcell, hname⟩
    · left
      unfold declareCell
      split_ifs
      · exact ⟨init, List.mem_append_left _ hinit⟩
      · exact ⟨init, hinit⟩
    · rcases List.mem_cons.mp he with rfl | he
      · have hnamed : (d.names.identFor preserved e.2.displayName "c").1 = name := by
          rw [Names.identFor, hname]
        left
        rw [declareCell, if_pos hcell]
        refine ⟨cellLiteral e.2.initialValue, List.mem_append_right _ ?_⟩
        rw [hnamed]
        exact List.mem_singleton_self _
      · exact .inr ⟨e, he, hcell, hname⟩

theorem emitFactory_declares {env : EnvironmentNode} {name : String}
    (h : ∃ entry ∈ env.bindings.entries, entry.2.storage = .mutableCell ∧
      preservedName preserved entry.2.displayName = some name) {names : Names}
    {factory : ClosureNode} {r : EmittedFactory × Names}
    (hr : emitFactory preserved g lifted env names factory = .ok r) :
    Declares name r.1.declarations := by
  unfold emitFactory at hr
  dsimp only at hr
  split at hr
  · exact nomatch hr
  · cases hr
    obtain ⟨init, hinit⟩ := declares_cells (d := ⟨_, none, []⟩) (.inr h)
    exact ⟨init, List.mem_append_right _ hinit⟩

omit [Host] in
theorem mem_blockNodes {ss : Block Double} {s : Stmt Double} (hs : s ∈ ss) {n : Lua.Node Double}
    (hn : n ∈ stmtNodes s) : n ∈ blockNodes ss := by
  induction ss with
  | nil => cases hs
  | cons t ss ih =>
    rcases List.mem_cons.mp hs with rfl | hs
    · exact List.mem_append_left _ hn
    · exact List.mem_append_right _ (ih hs)

omit [Host] in
theorem mem_of_declares {name : String} {ss : Block Double} (h : Declares name ss) :
    .expr (.identifier name) ∈ blockNodes ss := by
  obtain ⟨init, hinit⟩ := h
  refine mem_blockNodes hinit ?_
  simp [stmtNodes, exprsNodes, exprNodes]

theorem mem_emitTree {env0 : EnvironmentNode} (henv0 : g.environments.get "E0" = some env0)
    {e : Emission} (he : emitTree preserved g lifted env0 = .ok e) {name : String}
    (hshows : g.Shows preserved name) : .expr (.identifier name) ∈ e.ast.nodes := by
  unfold emitTree at he
  dsimp only at he
  split at he
  · exact nomatch he
  · rename_i factories hfactories
    split at he
    · exact nomatch he
    · cases he
      rcases hshows with ⟨root, hroot, hentry⟩ | ⟨env, henv, hclosures, hcell⟩
      · obtain rfl : env0 = root := Option.some.inj (henv0.symm.trans hroot)
        obtain ⟨init, hinit⟩ := declares_roots ⟨.initial, none, []⟩ (.inr hentry)
        exact mem_of_declares ⟨init, List.mem_append_left _ (List.mem_append_left _ hinit)⟩
      · rw [emitFactories, henv] at hfactories
        have hall := traverse_forall₂ (R := fun _ f => Declares name f.declarations)
          (fun _ _ _ hr => emitFactory_declares hcell hr) hfactories
        obtain ⟨c, hc⟩ := List.exists_mem_of_ne_nil _ hclosures
        obtain ⟨f, hf, hdeclares⟩ := forall₂_exists_right hall hc
        obtain ⟨init, hinit⟩ := hdeclares
        have hbody : (.expr (.identifier name) : Lua.Node Double) ∈ blockNodes f.body :=
          mem_of_declares ⟨init, List.mem_append_left _ hinit⟩
        have hstatement : (.expr (.identifier name) : Lua.Node Double) ∈ stmtNodes f.statement := by
          rw [EmittedFactory.statement, stmtNodes]
          exact List.mem_cons_of_mem _ (List.mem_append_right _ hbody)
        exact mem_blockNodes (List.mem_append_left _ (List.mem_append_right _
          (List.mem_map_of_mem hf))) hstatement

omit [Host] in
/-- What is made up is none of the names of one character that the walk looks for. -/
theorem count_bases {nodes : List (Lua.Node Double)} (h : Fitting shown nodes) {bases : List String}
    (hbases : ∀ base ∈ bases, ¬ Long base) :
    (Reference.element bases).count nodes = 0 ∧ (Reference.call bases).count nodes = 0 := by
  have hbase : ∀ base : Expr Double, (∀ name, base.name? = some name → Long name) →
      isBase bases base = false := by
    intro base hlong
    cases hname : base.name? with
    | none => rw [isBase, hname, Option.any_none]
    | some name =>
      rw [isBase, hname, Option.any_some]
      exact decide_eq_false fun hmem => hbases name hmem (hlong name hname)
  simp only [Reference.count, List.countP_eq_zero]
  constructor
  · intro n hn
    have hfits := h n hn
    cases n with
    | stmt s => exact Bool.false_ne_true
    | expr e =>
      cases e with
      | memberExpression base property => simpa [Reference.holds] using hbase base hfits
      | indexExpression base index => simpa [Reference.holds] using hbase base hfits
      | _ => exact Bool.false_ne_true
  · intro n hn
    have hfits := h n hn
    cases n with
    | stmt s => exact Bool.false_ne_true
    | expr e =>
      cases e with
      | callExpression base args inParens => simpa [Reference.holds] using hbase base hfits
      | _ => exact Bool.false_ne_true

omit [Host] in
theorem count_identifier {nodes : List (Lua.Node Double)} (h : Fitting shown nodes) {name : String}
    (hshort : ¬ Long name) (hhidden : ¬ shown name) :
    (Reference.identifier name).count nodes = 0 := by
  rw [Reference.count, List.countP_eq_zero]
  intro n hn hholds
  have hfits := h n hn
  cases n with
  | stmt s => cases hholds
  | expr e =>
    cases e with
    | identifier name' =>
      have heq : name' = name := of_decide_eq_true hholds
      subst heq
      exact hfits.elim hshort hhidden
    | _ => cases hholds

/-- No emitted tree indexes a register or calls a helper of the virtual machine, and it is detached
unless the emitter kept the dispatcher's name for a binding. With neutral names all are. -/
theorem emit_dependency {e : Emission} (h : emit preserved g lifted = .ok e) :
    let report := analyzeDependency (some e.ast) none
    report.vmRegisterReferences = 0 ∧ report.runtimeHelperReferences = 0 ∧
      report.decoderReferences = 0 ∧ report.vmTupleTransportReferences = 0 ∧
      (report.detached = true ↔ ¬ g.Shows preserved "G") ∧
      (preserved = false → report.detached = true) := by
  intro report
  obtain ⟨env0, henv0, htree⟩ := emit_eq_ok h
  have hfitting := emitTree_fitting henv0 htree
  have hcount : ∀ bases : List String, (∀ base ∈ bases, ¬ Long base) →
      (Reference.element bases).count e.ast.nodes = 0 ∧
        (Reference.call bases).count e.ast.nodes = 0 := fun _ => count_bases hfitting
  have hregisters := (hcount vmRegisters (by decide)).1
  have hhelpers := (hcount vmHelpers (by decide)).2
  have hdecoders := (hcount vmDecoders (by decide)).2
  have htuples := (hcount ["U"] (by decide)).2
  have hdetached : report.detached = true ↔ ¬ g.Shows preserved "G" := by
    have hiff : report.detached = true ↔ (Reference.identifier "G").count e.ast.nodes = 0 := by
      simp [report, analyzeDependency, vmDependency, hregisters, hhelpers, hdecoders, htuples]
    rw [hiff]
    constructor
    · intro hzero hshows
      rw [Reference.count, List.countP_eq_zero] at hzero
      exact hzero _ (mem_emitTree henv0 htree hshows) rfl
    · exact count_identifier hfitting (by decide)
  refine ⟨hregisters, hhelpers, hdecoders, htuples, hdetached, ?_⟩
  rintro rfl
  refine hdetached.mpr ?_
  rintro (⟨_, _, _, _, hname⟩ | ⟨_, _, _, _, _, _, hname⟩) <;> cases hname

end Supply

section Cases

/-- One root binding, under the dispatcher's name. -/
def dispatcherNamed : EnvironmentGraph :=
  EnvironmentGraph.empty.addEnvironment
    ((⟨"E0", none, .root, .empty, []⟩ : EnvironmentNode).addBinding
      ⟨"B_PREFIX", some "G", .upvalueCell, .string "hi"⟩)

/-- It is detached under neutral names only. -/
theorem emit_dependency_named :
    let _ : Host := ⟨fun _ _ => .nan, fun _ => ""⟩
    (∃ e, emit false dispatcherNamed none = .ok e ∧
      (analyzeDependency (some e.ast) none).detached = true) ∧
    ∃ e, emit true dispatcherNamed none = .ok e ∧
      (analyzeDependency (some e.ast) none).detached = false := by
  intro _
  constructor
  · have hemit : ∃ e, emit false dispatcherNamed none = .ok e := ⟨_, rfl⟩
    obtain ⟨e, he⟩ := hemit
    exact ⟨e, he, (emit_dependency he).2.2.2.2.2 rfl⟩
  · have hemit : ∃ e, emit true dispatcherNamed none = .ok e := ⟨_, rfl⟩
    obtain ⟨e, he⟩ := hemit
    have hshows : dispatcherNamed.Shows true "G" :=
      .inl ⟨_, rfl, _, List.mem_singleton_self _, rfl⟩
    refine ⟨e, he, Bool.eq_false_iff.mpr fun hdetached => ?_⟩
    exact (emit_dependency he).2.2.2.2.1.mp hdetached hshows

end Cases
end LuaRecovery.Analysis.SemanticEmitter
