import LuaRecovery.Oracle.TraceReplay
import LuaRecovery.Oracle.Progression
import Mathlib.Algebra.Order.Ring.Int

/-!
# When synthesis reproduces the trace

The emitted loop puts its variable wherever the moving call has a number equal
to the first value of the progression, and a recorded result is always emitted
as a string. Apart from these two the chunk repeats the trace.
-/

set_option autoImplicit false

namespace LuaRecovery.Oracle
open LuaRecovery.Lib LuaRecovery.Lua

/-- Calls of the spies with scalar arguments, and at most one scalar result at the end. -/
inductive SpyEvents : List (TraceEvent ℤ) → Prop
  | nil : SpyEvents []
  | ret (value : Recorded ℤ) (hvalue : value.IsScalar) : SpyEvents [.ret value]
  | call (target : String) (args : List (Recorded ℤ)) (events : List (TraceEvent ℤ))
      (htarget : IsSpy target) (hargs : ∀ x ∈ args, x.IsScalar) (hevents : SpyEvents events) :
      SpyEvents (.call target args :: events)

structure SpyTrace where
  events : List (TraceEvent ℤ)
  spied : SpyEvents events

def callsOf : List (TraceEvent ℤ) → List (Event ℤ)
  | .call t args :: es => callEvent t (args.map Recorded.value) :: callsOf es
  | .ret _ :: es => callsOf es
  | [] => []

def resultsOf : List (TraceEvent ℤ) → List (Value ℤ)
  | .call _ _ :: es => resultsOf es
  | .ret v :: _ => [v.value]
  | [] => []

/-- The harness's spies record the call and return nothing. -/
def spyRuntime : Runtime ℤ := fun _ heap => .values heap []

def spyGlobals (globals : String → Value ℤ) (name : String) : Value ℤ :=
  if name = "print" ∨ name = "warn" then .foreign name else globals name

/-- The synthesized chunk ends, makes exactly the recorded calls and returns the recorded result. -/
def Reproduces (events : List (TraceEvent ℤ)) : Prop :=
  ∃ n, ∀ fuel ≥ n, ∀ globals, ∃ s',
    runChunk spyRuntime fuel (synthesizeAST events) (initialState (spyGlobals globals)) =
      .done (resultsOf events) s' ∧ s'.history = callsOf events

/-- In the moving call, only the moving number has the first value of the progression. -/
def NoEcho (info : LoopInfo ℤ) (events : List (TraceEvent ℤ)) : Prop :=
  ∀ b, numberAt (events.take info.period) info.offset b = some info.start → b = info.arg

/-- Read from the left, no progression of the trace has an echo. -/
inductive Unambiguous : List (TraceEvent ℤ) → Prop
  | nil : Unambiguous []
  | event (e : TraceEvent ℤ) (es : List (TraceEvent ℤ))
      (hno : ∀ P ≤ 4, ∀ p a start step, ¬ Progression P p a start step 2 (e::es))
      (hrest : Unambiguous es) : Unambiguous (e::es)
  | loop (info : LoopInfo ℤ) (events : List (TraceEvent ℤ)) (hdetected : Detected info events)
      (hecho : NoEcho info events)
      (hrest : Unambiguous (events.drop (info.iterations*info.period))) : Unambiguous events

/-- The result, if there is one, is a string. -/
def TextResult (events : List (TraceEvent ℤ)) : Prop :=
  ∀ v, TraceEvent.ret v ∈ events → ∃ s, v = .string s

section Traces
variable {events : List (TraceEvent ℤ)}

theorem SpyEvents.scalarArgs (h : SpyEvents events) : ScalarArgs events := by
  induction h with
  | nil => exact fun t args hm => by cases hm
  | ret v _ => exact fun t args hm => by simp at hm
  | call t args es _ hargs _ ih =>
    intro t' args' hm
    rcases List.mem_cons.mp hm with heq | hm
    · cases heq
      exact hargs
    · exact ih t' args' hm

theorem SpyEvents.spyCalls (h : SpyEvents events) : SpyCalls events := by
  induction h with
  | nil => exact fun t args hm => by cases hm
  | ret v _ => exact fun t args hm => by simp at hm
  | call t args es ht _ _ ih =>
    intro t' args' hm
    rcases List.mem_cons.mp hm with heq | hm
    · cases heq
      exact ht
    · exact ih t' args' hm

theorem SpyEvents.drop (h : SpyEvents events) (k : ℕ) : SpyEvents (events.drop k) := by
  induction h generalizing k with
  | nil => simpa using SpyEvents.nil
  | ret v hv =>
    cases k with
    | zero => exact .ret v hv
    | succ k => simpa using SpyEvents.nil
  | call t args es ht hargs hes ih =>
    cases k with
    | zero => exact .call t args es ht hargs hes
    | succ k => exact ih k

theorem callsOf_append (xs ys : List (TraceEvent ℤ)) :
    callsOf (xs++ys) = callsOf xs ++ callsOf ys := by
  induction xs with
  | nil => rfl
  | cons e es ih => cases e <;> simp [callsOf, ih]

theorem resultsOf_append {xs : List (TraceEvent ℤ)} (h : ∀ e ∈ xs, e.IsCall)
    (ys : List (TraceEvent ℤ)) : resultsOf (xs++ys) = resultsOf ys := by
  induction xs with
  | nil => rfl
  | cons e es ih =>
    obtain ⟨he, hes⟩ := List.forall_mem_cons.mp h
    cases e with
    | call t args => exact ih hes
    | ret v => exact he.elim

theorem length_callsOf {xs : List (TraceEvent ℤ)} (h : ∀ e ∈ xs, e.IsCall) :
    (callsOf xs).length = xs.length := by
  induction xs with
  | nil => rfl
  | cons e es ih =>
    obtain ⟨he, hes⟩ := List.forall_mem_cons.mp h
    cases e with
    | call t args => simp [callsOf, ih hes]
    | ret v => exact he.elim

theorem isCall_setNumber {xs : List (TraceEvent ℤ)} (h : ∀ e ∈ xs, e.IsCall) (p a : ℕ) (v : ℤ) :
    ∀ e ∈ setNumber p a v xs, e.IsCall := by
  induction xs generalizing p with
  | nil => simp
  | cons e es ih =>
    obtain ⟨he, hes⟩ := List.forall_mem_cons.mp h
    cases p with
    | zero =>
      refine List.forall_mem_cons.mpr ⟨?_, hes⟩
      cases e with
      | call t args => trivial
      | ret r => exact he.elim
    | succ p => exact List.forall_mem_cons.mpr ⟨he, ih hes p⟩

variable {P p a : ℕ} {start step : ℤ}

/-- The stretch that a progression covers, period by period. -/
theorem Progression.unroll {k : ℕ} (h : Progression P p a start step k events) :
    events.take (k*P) =
      (List.range k).flatMap (fun j : ℕ => setNumber p a (start+j*step) (events.take P)) := by
  induction k with
  | zero => simp
  | succ k ih =>
    rw [Nat.succ_mul, List.take_add, ih (h.mono (by omega)), h.repeats k (by omega),
      List.range_succ, List.flatMap_append]
    simp

theorem Progression.isCall {k : ℕ} (h : Progression P p a start step k events) :
    ∀ e ∈ events.take (k*P), e.IsCall := by
  intro e he
  rw [h.unroll] at he
  obtain ⟨j, -, hj⟩ := List.mem_flatMap.mp he
  exact isCall_setNumber h.calls p a _ e hj

theorem callsOf_flatMap {α : Type} (f : α → List (TraceEvent ℤ)) (as : List α) :
    callsOf (as.flatMap f) = as.flatMap (fun x => callsOf (f x)) := by
  induction as with
  | nil => rfl
  | cons b bs ih => simp [callsOf_append, ih]

end Traces

section Loop

theorem loopValues_int {step : ℤ} (hstep : step ≠ 0) (k n : ℕ) (hn : k < n) (x : ℤ) :
    loopValues (x+k*step-step) step n x = some ((List.range k).map (fun j : ℕ => x+j*step)) := by
  induction k generalizing n x with
  | zero =>
    obtain ⟨n, rfl⟩ : ∃ n', n = n'+1 := ⟨n-1, by omega⟩
    have hout : ¬ inRange x (x+(0 : ℕ)*step-step) step = true := by
      by_cases hpos : 0 < step
      · simp [inRange, hpos]
      · simp [inRange, hpos]
        omega
    rw [loopValues, if_neg hout]
    rfl
  | succ k ih =>
    obtain ⟨n, rfl⟩ : ∃ n', n = n'+1 := ⟨n-1, by omega⟩
    have hin : inRange x (x+(k+1 : ℕ)*step-step) step = true := by
      by_cases hpos : 0 < step
      · have := mul_nonneg (Int.natCast_nonneg k) hpos.le
        simp [inRange, hpos, add_mul]
        omega
      · have := mul_nonpos_of_nonneg_of_nonpos (Int.natCast_nonneg k) (not_lt.mp hpos)
        simp [inRange, hpos, add_mul]
        omega
    have hstop : x+(k+1 : ℕ)*step-step = (x+step)+k*step-step := by
      push_cast
      ring
    have hvalues : (List.range (k+1)).map (fun j : ℕ => x+j*step) =
        x :: (List.range k).map (fun j : ℕ => (x+step)+j*step) := by
      rw [List.range_succ_eq_map, List.map_cons, List.map_map]
      congr 1
      · simp
      · apply List.map_congr_left
        intro j _
        simp only [Function.comp_apply, Nat.succ_eq_add_one, Nat.cast_add, Nat.cast_one]
        ring
    rw [loopValues, if_pos hin, hstop, int_add, ih n (by omega) (x+step), hvalues]
    rfl

theorem substituted_of_ne {start x : ℤ} {r : Recorded ℤ} (h : r ≠ .number start) :
    substituted start x r = r.value := by
  cases r with
  | number n =>
    have hn : n ≠ start := fun h' => h (congrArg Recorded.number h')
    simp [substituted, Recorded.value, hn]
  | string s => rfl
  | boolean b => rfl
  | nil => rfl
  | object type text => rfl
  | other type => rfl

@[simp] theorem substituted_start (start x : ℤ) :
    substituted start x (.number start) = .number x := by
  simp [substituted]

theorem map_substituted {start x : ℤ} {a : ℕ} {args : List (Recorded ℤ)}
    (hecho : ∀ b, args[b]? = some (.number start) → b = a)
    (ha : args[a]? = some (.number start)) :
    args.map (substituted start x) = (args.set a (.number x)).map Recorded.value := by
  apply List.ext_getElem?
  intro b
  rw [List.getElem?_map, List.getElem?_map, List.getElem?_set]
  by_cases hb : a = b
  · subst hb
    obtain ⟨hlt, -⟩ := List.getElem?_eq_some_iff.mp ha
    rw [if_pos rfl, if_pos hlt, ha]
    simp [Recorded.value]
  · rw [if_neg hb]
    cases hr : args[b]? with
    | none => rfl
    | some r => simp [substituted_of_ne (fun h => hb (hecho b (h ▸ hr)).symm)]

theorem echo_of_map_substituted {start x : ℤ} (hx : x ≠ start) {a : ℕ} {args : List (Recorded ℤ)}
    (h : args.map (substituted start x) = (args.set a (.number x)).map Recorded.value) (b : ℕ)
    (hb : args[b]? = some (.number start)) : b = a := by
  by_contra hne
  have hget := congrArg (fun l => l[b]?) h
  simp only [List.getElem?_map, List.getElem?_set_ne (Ne.symm hne), hb, Option.map_some,
    substituted_start, Recorded.value, Option.some.injEq, Value.number.injEq] at hget
  exact hx hget

theorem bodyCalls_past {info : LoopInfo ℤ} {x : ℤ} {q : ℕ} (hq : info.offset < q)
    (es : List (TraceEvent ℤ)) : bodyCalls info x q es = callsOf es := by
  induction es generalizing q with
  | nil => rfl
  | cons e es ih =>
    have hrest := ih (Nat.lt_succ_of_lt hq)
    cases e with
    | call t args => rw [bodyCalls, callsOf, if_neg (Nat.ne_of_gt hq), hrest]
    | ret v => rw [bodyCalls, callsOf, hrest]

/-- Without an echo, a round of the loop makes the calls of the period it stands for. -/
theorem bodyCalls_eq {info : LoopInfo ℤ} {q r : ℕ} (hr : info.offset = q+r) (x : ℤ)
    {es : List (TraceEvent ℤ)} (hbase : numberAt es r info.arg = some info.start)
    (hecho : ∀ b, numberAt es r b = some info.start → b = info.arg) :
    bodyCalls info x q es = callsOf (setNumber r info.arg x es) := by
  induction es generalizing q r with
  | nil => simp [numberAt] at hbase
  | cons e es ih =>
    cases r with
    | zero =>
      cases e with
      | ret v => simp [numberAt] at hbase
      | call t args =>
        rw [bodyCalls, setNumber_zero, TraceEvent.setArg, callsOf, if_pos (by omega),
          bodyCalls_past (by omega),
          map_substituted (fun b hb => hecho b ((numberAt_zero ..).mpr hb))
            ((numberAt_zero ..).mp hbase)]
    | succ r =>
      have hrest := ih (q := q+1) (r := r) (by omega) hbase hecho
      cases e with
      | ret v => rw [bodyCalls, setNumber_succ, callsOf, hrest]
      | call t args =>
        rw [bodyCalls, setNumber_succ, callsOf, if_neg (by omega), hrest]

theorem echo_of_bodyCalls_eq {info : LoopInfo ℤ} {q r : ℕ} (hr : info.offset = q+r) {x : ℤ}
    (hx : x ≠ info.start) {es : List (TraceEvent ℤ)} (hes : ∀ e ∈ es, e.IsCall)
    (h : bodyCalls info x q es = callsOf (setNumber r info.arg x es)) (b : ℕ)
    (hb : numberAt es r b = some info.start) : b = info.arg := by
  induction es generalizing q r with
  | nil => simp [numberAt] at hb
  | cons e es ih =>
    cases e with
    | ret v => exact (hes _ List.mem_cons_self).elim
    | call t args =>
      have hes' := (List.forall_mem_cons.mp hes).2
      cases r with
      | zero =>
        rw [bodyCalls, setNumber_zero, TraceEvent.setArg, callsOf, if_pos (by omega)] at h
        have hargs := congrArg Event.args (List.cons.inj h).1
        exact echo_of_map_substituted hx hargs b ((numberAt_zero ..).mp hb)
      | succ r =>
        rw [bodyCalls, setNumber_succ, callsOf] at h
        exact ih (q := q+1) (r := r) (by omega) hes' (List.cons.inj h).2 hb

theorem length_bodyCalls {info : LoopInfo ℤ} {x : ℤ} {q : ℕ} {es : List (TraceEvent ℤ)}
    (h : ∀ e ∈ es, e.IsCall) : (bodyCalls info x q es).length = es.length := by
  induction es generalizing q with
  | nil => rfl
  | cons e es ih =>
    obtain ⟨he, hes⟩ := List.forall_mem_cons.mp h
    cases e with
    | call t args => simp [bodyCalls, ih hes]
    | ret v => exact he.elim

/-- The calls of the emitted loop. -/
def loopCalls (info : LoopInfo ℤ) (events : List (TraceEvent ℤ)) : List (Event ℤ) :=
  (List.range info.iterations).flatMap (fun j : ℕ =>
    bodyCalls info (info.start+j*info.step) 0 (events.take info.period))

variable {info : LoopInfo ℤ} {events : List (TraceEvent ℤ)}

theorem Detected.covered (hd : Detected info events) :
    callsOf (events.take (info.iterations*info.period)) =
      (List.range info.iterations).flatMap (fun j : ℕ =>
        callsOf (setNumber info.offset info.arg (info.start+j*info.step)
          (events.take info.period))) := by
  rw [hd.progression.unroll, callsOf_flatMap]

theorem Detected.length_loopCalls (hd : Detected info events) :
    (loopCalls info events).length =
      (callsOf (events.take (info.iterations*info.period))).length := by
  rw [hd.covered, loopCalls, List.length_flatMap, List.length_flatMap]
  congr 2
  ext j
  rw [length_bodyCalls hd.progression.calls,
    length_callsOf (isCall_setNumber hd.progression.calls _ _ _), length_setNumber]

/-- The emitted loop makes the calls it replaces exactly when nothing else echoes the start. -/
theorem Detected.loopCalls_eq_iff (hd : Detected info events) :
    loopCalls info events = callsOf (events.take (info.iterations*info.period)) ↔
      NoEcho info events := by
  have hcalls := hd.progression.calls
  rw [hd.covered, loopCalls]
  constructor
  · intro h
    obtain ⟨k, hk⟩ : ∃ k, info.iterations = (k+1)+1 := ⟨info.iterations-2, by have := hd.two; omega⟩
    rw [hk, List.range_succ_eq_map, List.flatMap_cons, List.flatMap_cons, List.range_succ_eq_map,
      List.map_cons, List.flatMap_cons, List.flatMap_cons] at h
    have hlen : ∀ j : ℕ, (bodyCalls info (info.start+j*info.step) 0
        (events.take info.period)).length = (callsOf (setNumber info.offset info.arg
          (info.start+j*info.step) (events.take info.period))).length := by
      intro j
      rw [length_bodyCalls hcalls, length_callsOf (isCall_setNumber hcalls _ _ _), length_setNumber]
    have hrest := (List.append_inj h (hlen 0)).2
    have hsecond := (List.append_inj hrest (hlen 1)).1
    have hmoved : info.start+(Nat.succ 0 : ℕ)*info.step ≠ info.start := by
      have := hd.progression.moves
      simpa using this
    exact echo_of_bodyCalls_eq (Nat.zero_add _).symm hmoved hcalls hsecond
  · intro hecho
    congr 1
    ext1 j
    exact bodyCalls_eq (Nat.zero_add _).symm _ hd.progression.base hecho

theorem Detected.replay_eq (hd : Detected info events) {n : ℕ} (hn : events.length < n) :
    loopValues info.stop info.step n info.start =
      some ((List.range info.iterations).map (fun j : ℕ => info.start+j*info.step)) := by
  have hk : info.iterations ≤ events.length :=
    (Nat.le_mul_of_pos_right _ hd.progression.pos).trans hd.progression.fits
  have hstop : info.stop = info.start+info.iterations*info.step-info.step := by
    obtain ⟨k, hk⟩ : ∃ k, info.iterations = k+1 := ⟨info.iterations-1, by have := hd.two; omega⟩
    rw [LoopInfo.stop, hk]
    simp only [Nat.add_sub_cancel, int_ofNat, int_add, int_mul]
    push_cast
    ring
  rw [hstop]
  exact loopValues_int hd.progression.moves _ _ (by omega) _

theorem unambiguous_event {e : TraceEvent ℤ} {es : List (TraceEvent ℤ)}
    (hno : ∀ P ≤ 4, ∀ p a start step, ¬ Progression P p a start step 2 (e::es)) :
    Unambiguous (e::es) ↔ Unambiguous es := by
  constructor
  · intro h
    cases h with
    | event _ _ _ hrest => exact hrest
    | loop info _ hd _ _ => exact absurd (hd.progression.mono hd.two) (hno _ hd.bounded _ _ _ _)
  · exact Unambiguous.event e es hno

theorem Detected.unambiguous_iff (h : ScalarArgs events) (hd : Detected info events) :
    Unambiguous events ↔
      NoEcho info events ∧ Unambiguous (events.drop (info.iterations*info.period)) := by
  constructor
  · intro hu
    cases hu with
    | nil =>
      have hfits := hd.progression.fits
      have := Nat.mul_pos (Nat.lt_of_lt_of_le two_pos hd.two) hd.progression.pos
      rw [List.length_nil] at hfits
      omega
    | event e es hno _ => exact absurd (hd.progression.mono hd.two) (hno _ hd.bounded _ _ _ _)
    | loop info' _ hd' hecho hrest =>
      obtain rfl := hd.unique h hd'
      exact ⟨hecho, hrest⟩
  · rintro ⟨hecho, hrest⟩
    exact .loop info events hd hecho hrest

end Loop

section Main
variable {events : List (TraceEvent ℤ)}

theorem textResult_cons_call (t : String) (args : List (Recorded ℤ)) :
    TextResult (.call t args :: events) ↔ TextResult events := by
  simp [TextResult]

theorem Detected.textResult_iff {info : LoopInfo ℤ} (hd : Detected info events) :
    TextResult events ↔ TextResult (events.drop (info.iterations*info.period)) := by
  have hcalls := hd.progression.isCall
  constructor
  · intro h v hv
    exact h v (List.mem_of_mem_drop hv)
  · intro h v hv
    rw [← List.take_append_drop (info.iterations*info.period) events] at hv
    rcases List.mem_append.mp hv with hv | hv
    · exact (hcalls _ hv).elim
    · exact h v hv

theorem textResult_ret {v : Recorded ℤ} (hv : v.IsScalar) :
    TextResult [.ret v] ↔ v.value = .string v.jsString := by
  cases v with
  | object type text => exact hv.elim
  | other type => exact hv.elim
  | string s => simp [TextResult, Recorded.value, Recorded.jsString]
  | number n => simp [TextResult, Recorded.value]
  | boolean b => simp [TextResult, Recorded.value]
  | nil => simp [TextResult, Recorded.value]

/-- The replay is what was recorded exactly when nothing in the trace is ambiguous. -/
theorem replay_eq_iff {n : ℕ} (fuel : ℕ) (h : SpyEvents events) (hfuel : events.length ≤ fuel)
    (hn : events.length < n) :
    ∃ r, replay n fuel events = some r ∧
      (r = (callsOf events, resultsOf events) ↔ Unambiguous events ∧ TextResult events) := by
  induction fuel generalizing events with
  | zero =>
    obtain rfl : events = [] := List.length_eq_zero_iff.mp (by omega)
    exact ⟨_, rfl, by simp [callsOf, resultsOf, Unambiguous.nil, TextResult]⟩
  | succ fuel ih =>
    cases events with
    | nil => exact ⟨_, rfl, by simp [callsOf, resultsOf, Unambiguous.nil, TextResult]⟩
    | cons e es =>
      rw [replay.eq_def]
      cases hdetect : detectLoop (e::es) 4 1 with
      | some info =>
        have hd := (detectLoop_eq_some h.scalarArgs).mp hdetect
        have hpos := Nat.mul_pos (Nat.lt_of_lt_of_le two_pos hd.two) hd.progression.pos
        have hlen : ((e::es).drop (info.iterations*info.period)).length < (e::es).length := by
          rw [List.length_drop, List.length_cons]
          omega
        obtain ⟨r, hr, hiff⟩ := ih (h.drop (info.iterations*info.period)) (by omega) (by omega)
        refine ⟨(loopCalls info (e::es) ++ r.1, r.2), ?_, ?_⟩
        · simp [hdetect, hd.replay_eq hn, hr, loopCalls, List.flatMap_map]
        · have hcalls : callsOf (e::es) = callsOf ((e::es).take (info.iterations*info.period)) ++
              callsOf ((e::es).drop (info.iterations*info.period)) := by
            rw [← callsOf_append, List.take_append_drop]
          have hresults : resultsOf (e::es) =
              resultsOf ((e::es).drop (info.iterations*info.period)) := by
            have happend := resultsOf_append hd.progression.isCall
              ((e::es).drop (info.iterations*info.period))
            rwa [List.take_append_drop] at happend
          rw [hd.unambiguous_iff h.scalarArgs, hd.textResult_iff, and_assoc, ← hiff,
            ← hd.loopCalls_eq_iff, hcalls, hresults, Prod.mk.injEq,
            List.append_eq_append_iff_of_size_eq_left hd.length_loopCalls, and_assoc, Prod.ext_iff]
      | none =>
        have hno := (detectLoop_eq_none h.scalarArgs).mp hdetect
        rw [unambiguous_event hno]
        cases h with
        | ret v hv =>
          refine ⟨_, rfl, ?_⟩
          rw [textResult_ret hv]
          simp [callsOf, resultsOf, Unambiguous.nil, eq_comm]
        | call t args es ht hargs hes =>
          simp only [List.length_cons] at hfuel hn
          obtain ⟨r, hr, hiff⟩ := ih hes (by omega) (by omega)
          refine ⟨(callEvent t (args.map Recorded.value) :: r.1, r.2), by simp [hdetect, hr], ?_⟩
          rw [textResult_cons_call, ← hiff, callsOf, resultsOf, Prod.mk.injEq, Prod.ext_iff]
          simp

theorem answersSpies_spyRuntime : AnswersSpies spyRuntime :=
  fun _ heap _ _ _ => ⟨heap, [], rfl⟩

theorem spiesBound_spyGlobals (globals : String → Value ℤ) : SpiesBound (spyGlobals globals) := by
  intro name h
  exact if_pos h

theorem run_events (h : SpyEvents events) {n : ℕ} (hn : events.length < n)
    (globals : String → Value ℤ) :
    ∃ r s', runChunk spyRuntime n (synthesizeAST events) (initialState (spyGlobals globals)) =
      .done r.2 s' ∧ s'.history = r.1 ∧
      (r = (callsOf events, resultsOf events) ↔ Unambiguous events ∧ TextResult events) := by
  obtain ⟨r, hr, hiff⟩ := replay_eq_iff events.length h le_rfl hn
  obtain ⟨s', hs', hc⟩ := run_synthesizeAST answersSpies_spyRuntime
    (fun x hx => by simpa using hx) h.spyCalls hr (initialState (spyGlobals globals))
    (spiesBound_spyGlobals globals)
  exact ⟨r, s', hs', hc.1, hiff⟩

theorem clean_of_reproduces (h : SpyEvents events) (hr : Reproduces events) :
    Unambiguous events ∧ TextResult events := by
  obtain ⟨n, hn⟩ := hr
  have hlt : events.length < max n (events.length+1) := by omega
  obtain ⟨r, s, hs, hcalls, hiff⟩ := run_events h hlt (fun _ => .nil)
  obtain ⟨s', hs', hcalls'⟩ := hn (max n (events.length+1)) (by omega) (fun _ => .nil)
  obtain ⟨hresults, rfl⟩ := Outcome.done.inj (hs.symm.trans hs')
  exact hiff.mp (Prod.ext (hcalls.symm.trans hcalls') hresults)

theorem reproduces_of_clean (h : SpyEvents events) (hu : Unambiguous events)
    (ht : TextResult events) : Reproduces events := by
  refine ⟨events.length+1, fun n hn globals => ?_⟩
  obtain ⟨r, s, hs, hcalls, hiff⟩ := run_events h (n := n) (by omega) globals
  obtain rfl := hiff.mpr ⟨hu, ht⟩
  exact ⟨s, hs, hcalls⟩

/-- A trace is reproduced if and only if it has no echo and no result but a string. -/
theorem synthesis_reproduces_iff (t : SpyTrace) :
    Reproduces t.events ↔ Unambiguous t.events ∧ TextResult t.events :=
  ⟨clean_of_reproduces t.spied, fun h => reproduces_of_clean t.spied h.1 h.2⟩

/-- `print(1, 1)` and `print(1, 2)`: both arguments start at one, only the second moves. -/
def echoTrace : SpyTrace where
  events := [.call "print" [.number 1, .number 1], .call "print" [.number 1, .number 2]]
  spied := .call _ _ _ (.inl rfl) (by simp [Recorded.IsScalar])
    (.call _ _ _ (.inl rfl) (by simp [Recorded.IsScalar]) .nil)

/-- The chunk for `echoTrace` is `for i = 1, 2 do print(i, i) end`. -/
theorem synthesis_echoes : ¬ Reproduces echoTrace.events := by
  intro h
  have hdetected : Detected ⟨1, 0, 1, 1, 1, 2⟩ echoTrace.events :=
    (detectLoop_eq_some echoTrace.spied.scalarArgs).mp rfl
  have hclean := clean_of_reproduces echoTrace.spied h
  have hecho := ((hdetected.unambiguous_iff echoTrace.spied.scalarArgs).mp hclean.1).1
  exact absurd (hecho 0 rfl) (by decide)

end Main
end LuaRecovery.Oracle
