import Mathlib.Data.List.Forall2

/-!
# Trace comparison

`SemanticTrace.compare` and `differentialTrace` of `oracle/semantic-oracle.js`,
on the events that the harness records. The comparison reads `type`, `value`,
`id` and `path`; the harness puts what a call was made with under `target` and
`args`.
-/

set_option autoImplicit false

namespace LuaRecovery.Oracle

/-- What `JSON.parse` gives, the fields of an object being listed by their names. A number is never
NaN, and zero has no sign. -/
inductive Json (N : Type) : Type where
  | null
  | boolean (b : Bool)
  | number (n : N)
  | string (s : String)
  | array (items : List (Json N))
  | object (fields : List (String × Json N))

abbrev JsonObject (N : Type) := List (String × Json N)

section
variable {N : Type}

section
variable [DecidableEq N]

/-- JavaScript's `===` on what two parsed texts hold; a field that is missing is undefined. -/
def strictEq : Option (Json N) → Option (Json N) → Bool
  | none, none => true
  | some .null, some .null => true
  | some (.boolean a), some (.boolean b) => a = b
  | some (.number a), some (.number b) => a = b
  | some (.string a), some (.string b) => a = b
  | _, _ => false

namespace SemanticTrace

inductive Reason (N : Type) : Type where
  | lengthMismatch (a b : ℕ)
  | eventMismatch (i : ℕ) (a b : JsonObject N)
  | identical

structure Comparison (N : Type) : Type where
  isMatch : Bool
  reason : Reason N
  firstDifferenceIndex : Option ℕ

def sameField (key : String) (a b : JsonObject N) : Bool :=
  strictEq (a.lookup key) (b.lookup key)

def compareFrom : ℕ → List (JsonObject N) → List (JsonObject N) → Comparison N
  | i, a::as, b::bs =>
      if !sameField "type" a b || !sameField "value" a b || !sameField "id" a b ||
          !sameField "path" a b then
        ⟨false, .eventMismatch i a b, some i⟩
      else compareFrom (i+1) as bs
  | _, _, _ => ⟨true, .identical, none⟩

def compare (a b : List (JsonObject N)) : Comparison N :=
  if a.length ≠ b.length then
    ⟨false, .lengthMismatch a.length b.length, some (min a.length b.length)⟩
  else compareFrom 0 a b

end SemanticTrace
end

/-- A value of the observed program; a table is what its fields serialise to. -/
inductive Observed (N : Type) : Type where
  | nil
  | boolean (b : Bool)
  | number (n : N)
  | string (s : String)
  | table (text : Json N)
  | function
  | userdata
  | thread

namespace Observed

def type : Observed N → String
  | nil => "nil"
  | boolean _ => "boolean"
  | number _ => "number"
  | string _ => "string"
  | table _ => "table"
  | function => "function"
  | userdata => "userdata"
  | thread => "thread"

/-- The value as a field; Lua has no field that is nil. -/
def value : Observed N → Option (Json N)
  | nil => none
  | boolean b => some (.boolean b)
  | number n => some (.number n)
  | string s => some (.string s)
  | table text => some text
  | function | userdata | thread => some .null

/-- A result of the program that is recorded. -/
def isRecorded (v : Observed N) : Bool :=
  match v with
  | nil | function | table _ => false
  | _ => true

def fields (v : Observed N) : JsonObject N :=
  ("type", .string v.type) :: v.value.toList.map fun value => ("value", value)

end Observed

/-- An event that the harness records: a call of a spy, or the result of the program. -/
inductive HarnessEvent (N : Type) : Type where
  | call (target : String) (args : List (Observed N))
  | ret (value : { v : Observed N // v.isRecorded = true })

/-- The fields of an event. `record` writes its own `type` over that of a result. -/
def HarnessEvent.fields : HarnessEvent N → JsonObject N
  | .call target args =>
      [("args", .array (args.map fun arg => .object arg.fields)), ("target", .string target),
        ("type", .string "CALL")]
  | .ret value =>
      ("type", .string "RETURN") :: value.1.value.toList.map fun value => ("value", value)

def recorded (events : List (HarnessEvent N)) : List (JsonObject N) :=
  events.map HarnessEvent.fields

inductive TraceResult (N : Type) : Type where
  | succeeded (events : List (HarnessEvent N))
  | failed (reason : String)

namespace TraceResult

def success : TraceResult N → Bool
  | succeeded _ => true
  | failed _ => false

/-- The events of a run, which are none where it failed. -/
def observed : TraceResult N → List (HarnessEvent N)
  | succeeded events => events
  | failed _ => []

end TraceResult

structure Differential (Config N : Type) : Type where
  runs : List (Config × TraceResult N)
  allMatch : Bool
  mergedEvents : List (JsonObject N)

section
variable {Config : Type}

/-- The events of the first run. -/
def baseEvents (runs : List (Config × TraceResult N)) : List (HarnessEvent N) :=
  match runs with
  | [] => []
  | run::_ => run.2.observed

/-- Runs the program under each configuration; a run need not give what an earlier one gave. -/
def differentialTrace [DecidableEq N] (trace : ℕ → Config → TraceResult N) (variationConfigs : List Config) :
    Differential Config N :=
  let runs := variationConfigs.mapIdx fun i config => (config, trace i config)
  let base := recorded (baseEvents runs)
  { runs := runs
    allMatch := runs.tail.all fun run =>
      (SemanticTrace.compare base (recorded run.2.observed)).isMatch
    mergedEvents := base }

/-- Every run succeeded, with the events of the first one. -/
def SameAsFirst (runs : List (Config × TraceResult N)) : Prop :=
  ∀ run ∈ runs, run.2.success = true ∧
    recorded run.2.observed = recorded (baseEvents runs)

end

/-- The events are of one kind, and if they are results, they have the same value. -/
def HarnessEvent.Alike : HarnessEvent N → HarnessEvent N → Prop
  | .call _ _, .call _ _ => True
  | .ret v, .ret w => v.1.value = w.1.value
  | _, _ => False

/-- The traces are of one length, and alike event by event. -/
def Alike (a b : List (HarnessEvent N)) : Prop := List.Forall₂ HarnessEvent.Alike a b

def HarnessEvent.CallsAgree : HarnessEvent N → HarnessEvent N → Prop
  | .call target args, .call target' args' =>
      target = target' ∧ args.map Observed.fields = args'.map Observed.fields
  | _, _ => True

/-- Where both traces have a call, its target and its arguments are the same. -/
def CallsAgree (a b : List (HarnessEvent N)) : Prop := ∀ p ∈ a.zip b, p.1.CallsAgree p.2

theorem lookup_toList (value : Option (Json N)) :
    (value.toList.map fun value => ("value", value)).lookup "value" = value := by
  cases value <;> rfl

theorem lookup_other {key : String} (hkey : key ≠ "value") (value : Option (Json N)) :
    (value.toList.map fun value => ("value", value)).lookup key = none := by
  cases value with
  | none => rfl
  | some value =>
    have hbeq : (key == "value") = false := by simpa using hkey
    simp only [Option.toList_some, List.map_cons, List.map_nil, List.lookup_cons, hbeq,
      List.lookup_nil]

section
variable [DecidableEq N]

@[simp] theorem strictEq_none : strictEq (none : Option (Json N)) none = true := rfl

@[simp] theorem strictEq_string (a b : String) :
    strictEq (some (.string a : Json N)) (some (.string b)) = decide (a = b) := rfl

theorem strictEq_value {v w : Observed N} (hv : v.isRecorded = true) (hw : w.isRecorded = true) :
    strictEq v.value w.value = true ↔ v.value = w.value := by
  cases v <;> cases w <;>
    simp_all [Observed.isRecorded, Observed.value, strictEq]

/-- What the comparison reads of two events. -/
theorem sameFields_iff (x y : HarnessEvent N) :
    (!SemanticTrace.sameField "type" x.fields y.fields ||
      !SemanticTrace.sameField "value" x.fields y.fields ||
      !SemanticTrace.sameField "id" x.fields y.fields ||
      !SemanticTrace.sameField "path" x.fields y.fields) = false ↔ x.Alike y := by
  cases x with
  | call target args =>
    cases y with
    | call target' args' =>
      simp [SemanticTrace.sameField, HarnessEvent.fields, HarnessEvent.Alike, List.lookup_cons]
    | ret w =>
      simp [SemanticTrace.sameField, HarnessEvent.fields, HarnessEvent.Alike, List.lookup_cons]
  | ret v =>
    cases y with
    | call target' args' =>
      simp [SemanticTrace.sameField, HarnessEvent.fields, HarnessEvent.Alike, List.lookup_cons]
    | ret w =>
      have hvalue := strictEq_value v.2 w.2
      simp [SemanticTrace.sameField, HarnessEvent.fields, HarnessEvent.Alike, List.lookup_cons,
        lookup_toList, lookup_other, hvalue]

theorem compareFrom_isMatch (a b : List (HarnessEvent N)) (i : ℕ) :
    (SemanticTrace.compareFrom i (recorded a) (recorded b)).isMatch = true ↔
      ∀ p ∈ a.zip b, p.1.Alike p.2 := by
  induction a generalizing b i with
  | nil => simp [recorded, SemanticTrace.compareFrom]
  | cons x as ih =>
    cases b with
    | nil => simp [recorded, SemanticTrace.compareFrom]
    | cons y bs =>
      rw [List.zip_cons_cons, List.forall_mem_cons, ← sameFields_iff, ← ih bs (i+1)]
      show (ite _ _ _ : SemanticTrace.Comparison N).isMatch = true ↔ _
      split
      next hdiffer => simp [hdiffer]
      next hsame => simp [hsame, recorded]

theorem compare_isMatch (a b : List (HarnessEvent N)) :
    (SemanticTrace.compare (recorded a) (recorded b)).isMatch = true ↔ Alike a b := by
  unfold SemanticTrace.compare
  rw [Alike, List.forall₂_iff_zip]
  split
  next hlength =>
    have hne : a.length ≠ b.length := by simpa [recorded] using hlength
    simp [hne]
  next hlength =>
    have heq : a.length = b.length := by simpa [recorded] using hlength
    rw [compareFrom_isMatch]
    simp [heq]

end

theorem fields_eq_iff {x y : HarnessEvent N} (h : x.Alike y) :
    x.fields = y.fields ↔ x.CallsAgree y := by
  cases x with
  | call target args =>
    cases y with
    | call target' args' =>
      have hobject : Function.Injective (Json.object : JsonObject N → Json N) :=
        fun _ _ h => Json.object.inj h
      have hargs : (args.map fun arg => Json.object arg.fields) =
          (args'.map fun arg => Json.object arg.fields) ↔
            args.map Observed.fields = args'.map Observed.fields := by
        rw [← (List.map_injective_iff.mpr hobject).eq_iff, List.map_map, List.map_map]
        rfl
      simp [HarnessEvent.fields, HarnessEvent.CallsAgree, hargs, and_comm]
    | ret w => cases h
  | ret v =>
    cases y with
    | call target args => cases h
    | ret w =>
      rw [HarnessEvent.Alike] at h
      simp [HarnessEvent.fields, HarnessEvent.CallsAgree, h]

theorem alike_of_fields_eq {x y : HarnessEvent N} (h : x.fields = y.fields) : x.Alike y := by
  cases x with
  | call target args =>
    cases y with
    | call target' args' => trivial
    | ret w => simp [HarnessEvent.fields] at h
  | ret v =>
    cases y with
    | call target args => simp [HarnessEvent.fields] at h
    | ret w =>
      have hvalues := congrArg (List.lookup "value") (List.cons.inj h).2
      rwa [lookup_toList, lookup_toList] at hvalues

/-- Traces that are alike are equal exactly if their calls agree. -/
theorem recorded_eq_iff {a b : List (HarnessEvent N)} (h : Alike a b) :
    recorded a = recorded b ↔ CallsAgree a b := by
  induction h with
  | nil => simp [recorded, CallsAgree]
  | cons hxy _ ih =>
    rw [CallsAgree, List.zip_cons_cons, List.forall_mem_cons, ← fields_eq_iff hxy]
    rw [CallsAgree] at ih
    simp only [recorded, List.map_cons, List.cons.injEq]
    exact and_congr_right fun _ => ih

theorem alike_of_recorded_eq {a b : List (HarnessEvent N)} (h : recorded a = recorded b) :
    Alike a b := by
  induction a generalizing b with
  | nil =>
    cases b with
    | nil => exact .nil
    | cons y bs => cases h
  | cons x as ih =>
    cases b with
    | nil => cases h
    | cons y bs =>
      obtain ⟨hxy, hrest⟩ := List.cons.inj h
      exact .cons (alike_of_fields_eq hxy) (ih hrest)

section
variable {Config : Type}

/-- The runs tell of a difference, or there is none. -/
def Discerned (runs : List (Config × TraceResult N)) : Prop :=
  (∃ run ∈ runs.tail, ¬ Alike (baseEvents runs) run.2.observed) ∨
    ((∀ run ∈ runs, run.2.success = true) ∧
      ∀ run ∈ runs.tail, CallsAgree (baseEvents runs) run.2.observed)

/-- When the later runs are alike the first, the runs are the same exactly if all succeeded and
their calls agree. -/
theorem sameAsFirst_iff {runs : List (Config × TraceResult N)}
    (halike : ∀ run ∈ runs.tail, Alike (baseEvents runs) run.2.observed) :
    SameAsFirst runs ↔ (∀ run ∈ runs, run.2.success = true) ∧
      ∀ run ∈ runs.tail, CallsAgree (baseEvents runs) run.2.observed := by
  cases runs with
  | nil => simp [SameAsFirst]
  | cons first rest =>
    rw [SameAsFirst, forall₂_and]
    refine and_congr_right fun _ => ?_
    have hfirst : recorded first.2.observed = recorded (baseEvents (first::rest)) := rfl
    rw [List.forall_mem_cons, and_iff_right hfirst]
    exact forall₂_congr fun run hrun => eq_comm.trans (recorded_eq_iff (halike run hrun))

section
variable [DecidableEq N]

theorem allMatch_iff (trace : ℕ → Config → TraceResult N) (configs : List Config) :
    (differentialTrace trace configs).allMatch = true ↔
      ∀ run ∈ (differentialTrace trace configs).runs.tail,
        Alike (baseEvents (differentialTrace trace configs).runs) run.2.observed := by
  simp only [differentialTrace, List.all_eq_true, compare_isMatch]

/-- The comparison tells two traces apart exactly if they are different, and runs that are said to
match do so, just when no two calls differ in their target or their arguments alone and no failed
run passes for one without events. -/
theorem comparison_exact_iff :
    (∀ a b : List (HarnessEvent N),
      ((SemanticTrace.compare (recorded a) (recorded b)).isMatch = true ↔
          recorded a = recorded b) ↔ ¬ Alike a b ∨ CallsAgree a b) ∧
      ∀ (trace : ℕ → Config → TraceResult N) (configs : List Config),
        ((differentialTrace trace configs).allMatch = true →
            SameAsFirst (differentialTrace trace configs).runs) ↔
          Discerned (differentialTrace trace configs).runs := by
  constructor
  · intro a b
    rw [compare_isMatch]
    by_cases halike : Alike a b
    · rw [recorded_eq_iff halike]
      simp [halike]
    · have hne : recorded a ≠ recorded b := fun h => halike (alike_of_recorded_eq h)
      simp [halike, hne]
  · intro trace configs
    rw [allMatch_iff, Discerned]
    by_cases halike : ∀ run ∈ (differentialTrace trace configs).runs.tail,
        Alike (baseEvents (differentialTrace trace configs).runs) run.2.observed
    · have hno : ¬ ∃ run ∈ (differentialTrace trace configs).runs.tail,
          ¬ Alike (baseEvents (differentialTrace trace configs).runs) run.2.observed := by
        simpa using halike
      rw [forall_prop_of_true halike, sameAsFirst_iff halike, or_iff_right hno]
    · have hsome : ∃ run ∈ (differentialTrace trace configs).runs.tail,
          ¬ Alike (baseEvents (differentialTrace trace configs).runs) run.2.observed := by
        simpa using halike
      exact iff_of_true (fun h => absurd h halike) (.inl hsome)

end

def spied (target text : String) : List (HarnessEvent ℕ) := [.call target [.string text]]

def timeOuts : Differential Unit ℕ := differentialTrace (fun _ _ => .failed "TIMEOUT") [(), ()]

/-- A run that prints passes for one that warns of something else, and failed runs for runs that
match. -/
theorem different_calls_match :
    ¬ ((SemanticTrace.compare (recorded (spied "print" "a")) (recorded (spied "warn" "b"))).isMatch
        = true ↔ recorded (spied "print" "a") = recorded (spied "warn" "b")) ∧
      ¬ (timeOuts.allMatch = true → SameAsFirst timeOuts.runs) := by
  constructor
  · intro h
    have hcalls := h.mp (by decide)
    simp [recorded, spied, HarnessEvent.fields] at hcalls
  · intro h
    have hfirst := (h (by decide) _ (List.mem_cons_self)).1
    cases hfirst

end
end
end LuaRecovery.Oracle
