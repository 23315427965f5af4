import LuaRecovery.Oracle.SemanticOracle
import Mathlib.Tactic.Ring
import Mathlib.Data.List.Infix

/-!
# Progressions in a trace

The trace synthesizer looks for periods of calls that repeat with one number
moving by a constant step. `Progression` says what that means, without the
search; the search is shown to find exactly the shortest period and the
longest run.
-/

set_option autoImplicit false

namespace LuaRecovery.Oracle
open LuaRecovery.Lua

/-- Strings, integers, booleans and `nil`. -/
def Recorded.IsScalar : Recorded ℤ → Prop
  | .object _ _ => False
  | .other _ => False
  | _ => True

def TraceEvent.IsCall : TraceEvent ℤ → Prop
  | .call _ _ => True
  | .ret _ => False

/-- Every argument of every call is scalar. -/
def ScalarArgs (events : List (TraceEvent ℤ)) : Prop :=
  ∀ t args, TraceEvent.call t args ∈ events → ∀ x ∈ args, x.IsScalar

def TraceEvent.setArg (a : ℕ) (v : ℤ) : TraceEvent ℤ → TraceEvent ℤ
  | .call t args => .call t (args.set a (.number v))
  | .ret r => .ret r

/-- The events with another number at argument `a` of event `p`. -/
def setNumber (p a : ℕ) (v : ℤ) (events : List (TraceEvent ℤ)) : List (TraceEvent ℤ) :=
  events.modify p (TraceEvent.setArg a v)

/-- The events start with `k` periods of `P` calls that agree but for argument
`a` of call `p`, which runs from `start` by `step`. -/
structure Progression (P p a : ℕ) (start step : ℤ) (k : ℕ) (events : List (TraceEvent ℤ)) :
    Prop where
  fits : k*P ≤ events.length
  calls : ∀ e ∈ events.take P, e.IsCall
  moves : step ≠ 0
  base : numberAt (events.take P) p a = some start
  repeats : ∀ j < k, (events.drop (j*P)).take P = setNumber p a (start+j*step) (events.take P)

section Arguments

theorem same_iff {x y : Recorded ℤ} (hx : x.IsScalar) (hy : y.IsScalar) :
    (x.sameType y = true ∧ x.sameValue y = true) ↔ x = y := by
  cases x <;> cases y <;> simp_all [Recorded.sameType, Recorded.sameValue, Recorded.IsScalar]

theorem scanArgs_eq {p a : ℕ} {w : Option (ℕ × ℕ)} {x : Recorded ℤ} (hx : x.IsScalar)
    (xs ys : List (Recorded ℤ)) :
    scanArgs p a w (x::xs) (x::ys) = scanArgs p (a+1) w xs ys := by
  obtain ⟨h1, h2⟩ := (same_iff hx hx).mpr rfl
  simp [scanArgs, h1, h2]

theorem scanArgs_number {p a : ℕ} {w : Option (ℕ × ℕ)} {n m : ℤ} (h : n ≠ m)
    (xs ys : List (Recorded ℤ)) :
    scanArgs p a w (.number n::xs) (.number m::ys) =
      if w.isNone || w = some (p, a) then scanArgs p (a+1) (some (p, a)) xs ys else none := by
  simp [scanArgs, Recorded.sameType, Recorded.sameValue, h]

theorem scanArgs_other {p a : ℕ} {w : Option (ℕ × ℕ)} {x y : Recorded ℤ} (h : x ≠ y)
    (hx : x.IsScalar) (hy : y.IsScalar) (hn : ∀ n m, x = .number n → y = .number m → False)
    (xs ys : List (Recorded ℤ)) : scanArgs p a w (x::xs) (y::ys) = none := by
  cases x <;> cases y <;>
    simp_all [scanArgs, Recorded.sameType, Recorded.sameValue, Recorded.IsScalar]

/-- Once a position varies, everything behind it must agree. -/
theorem scanArgs_settled {p a : ℕ} {v w : Option (ℕ × ℕ)} (hv : v ≠ none)
    (hpast : ∀ b, a ≤ b → v ≠ some (p, b)) {xs ys : List (Recorded ℤ)}
    (hxs : ∀ x ∈ xs, x.IsScalar) (hys : ∀ y ∈ ys, y.IsScalar) (hlen : xs.length = ys.length) :
    scanArgs p a v xs ys = some w ↔ w = v ∧ ys = xs := by
  induction xs generalizing a ys with
  | nil =>
    cases ys with
    | nil => simp [scanArgs, eq_comm]
    | cons y ys => simp at hlen
  | cons x xs ih =>
    cases ys with
    | nil => simp at hlen
    | cons y ys =>
      have hx : x.IsScalar := hxs x List.mem_cons_self
      have hy : y.IsScalar := hys y List.mem_cons_self
      by_cases hxy : x = y
      · subst hxy
        rw [scanArgs_eq hx, ih (fun b hb => hpast b (by omega))
          (fun z hz => hxs z (List.mem_cons_of_mem _ hz))
          (fun z hz => hys z (List.mem_cons_of_mem _ hz)) (by simpa using hlen)]
        simp
      · have hne : ¬ (y::ys = x::xs) := fun h => hxy (List.cons.inj h).1.symm
        have hnone : scanArgs p a v (x::xs) (y::ys) = none := by
          by_cases hn : ∃ n m, x = .number n ∧ y = .number m
          · obtain ⟨n, m, rfl, rfl⟩ := hn
            rw [scanArgs_number (fun h => hxy (congrArg Recorded.number h)), if_neg]
            simpa [hv] using hpast a le_rfl
          · exact scanArgs_other hxy hx hy (fun n m h h' => hn ⟨n, m, h, h'⟩) xs ys
        simp [hnone, hne]

/-- A scan with nothing varying yet finds at most one number that changes. -/
theorem scanArgs_fresh {p a : ℕ} {w : Option (ℕ × ℕ)} {xs ys : List (Recorded ℤ)}
    (hxs : ∀ x ∈ xs, x.IsScalar) (hys : ∀ y ∈ ys, y.IsScalar) (hlen : xs.length = ys.length) :
    scanArgs p a none xs ys = some w ↔
      (w = none ∧ ys = xs) ∨ ∃ b n m, w = some (p, a+b) ∧ xs[b]? = some (.number n) ∧ n ≠ m ∧
        ys = xs.set b (.number m) := by
  induction xs generalizing a ys with
  | nil =>
    cases ys with
    | nil => simp [scanArgs, eq_comm]
    | cons y ys => simp at hlen
  | cons x xs ih =>
    cases ys with
    | nil => simp at hlen
    | cons y ys =>
      have hx : x.IsScalar := hxs x List.mem_cons_self
      have hy : y.IsScalar := hys y List.mem_cons_self
      have hxs' : ∀ z ∈ xs, z.IsScalar := fun z hz => hxs z (List.mem_cons_of_mem _ hz)
      have hys' : ∀ z ∈ ys, z.IsScalar := fun z hz => hys z (List.mem_cons_of_mem _ hz)
      have hlen' : xs.length = ys.length := by simpa using hlen
      by_cases hxy : x = y
      · subst hxy
        rw [scanArgs_eq hx, ih hxs' hys' hlen']
        constructor
        · rintro (⟨rfl, rfl⟩ | ⟨b, n, m, rfl, hb, hnm, rfl⟩)
          · exact .inl ⟨rfl, rfl⟩
          · exact .inr ⟨b+1, n, m, by rw [Nat.add_assoc, Nat.add_comm 1 b], hb, hnm, rfl⟩
        · rintro (⟨rfl, h⟩ | ⟨b, n, m, rfl, hb, hnm, h⟩)
          · exact .inl ⟨rfl, (List.cons.inj h).2⟩
          · cases b with
            | zero =>
              have h1 : x = .number n := by simpa using hb
              have h2 : x = .number m := by simpa using (List.cons.inj h).1
              exact absurd (Recorded.number.inj (h1.symm.trans h2)) hnm
            | succ b =>
              exact .inr ⟨b, n, m, by rw [Nat.add_assoc, Nat.add_comm 1 b], by simpa using hb, hnm,
                (List.cons.inj h).2⟩
      · by_cases hn : ∃ n m, x = .number n ∧ y = .number m
        · obtain ⟨n, m, rfl, rfl⟩ := hn
          have hnm : n ≠ m := fun h => hxy (h ▸ rfl)
          rw [scanArgs_number hnm, if_pos (by rfl),
            scanArgs_settled (by simp) (fun b hb h => by simp at h; omega) hxs' hys' hlen']
          constructor
          · rintro ⟨rfl, rfl⟩
            exact .inr ⟨0, n, m, rfl, rfl, hnm, rfl⟩
          · rintro (⟨rfl, h⟩ | ⟨b, n', m', rfl, hb, hnm', h⟩)
            · exact absurd (List.cons.inj h).1.symm hxy
            · cases b with
              | zero => exact ⟨rfl, (List.cons.inj h).2⟩
              | succ b => exact absurd (List.cons.inj h).1.symm hxy
        · rw [scanArgs_other hxy hx hy (fun n m h h' => hn ⟨n, m, h, h'⟩)]
          constructor
          · intro h
            cases h
          · rintro (⟨rfl, h⟩ | ⟨b, n, m, rfl, hb, hnm, h⟩)
            · exact absurd (List.cons.inj h).1.symm hxy
            · cases b with
              | zero => exact absurd ⟨n, m, by simpa using hb, (List.cons.inj h).1⟩ hn
              | succ b => exact absurd (List.cons.inj h).1.symm hxy

theorem matchArgs_settled {v : Option ℕ} {m : ℤ} {a : ℕ} (hpast : ∀ b, a ≤ b → v ≠ some b)
    {xs ys : List (Recorded ℤ)} (hxs : ∀ x ∈ xs, x.IsScalar) (hys : ∀ y ∈ ys, y.IsScalar) :
    matchArgs v m a xs ys = true ↔ ys = xs := by
  induction xs generalizing a ys with
  | nil => cases ys <;> simp [matchArgs]
  | cons x xs ih =>
    cases ys with
    | nil => simp [matchArgs]
    | cons y ys =>
      have hsame := same_iff (hys y List.mem_cons_self) (hxs x List.mem_cons_self)
      have hrest := ih (a := a+1) (fun b hb => hpast b (by omega))
        (fun z hz => hxs z (List.mem_cons_of_mem _ hz))
        (fun z hz => hys z (List.mem_cons_of_mem _ hz))
      simp [matchArgs, hpast a le_rfl, hsame, hrest]

theorem matchArgs_varying {m : ℤ} {a b : ℕ} {xs ys : List (Recorded ℤ)}
    (hxs : ∀ x ∈ xs, x.IsScalar) (hys : ∀ y ∈ ys, y.IsScalar) :
    matchArgs (some (a+b)) m a xs ys = true ↔ ys = xs.set b (.number m) := by
  induction xs generalizing a b ys with
  | nil => cases ys <;> simp [matchArgs]
  | cons x xs ih =>
    cases ys with
    | nil => cases b <;> simp [matchArgs]
    | cons y ys =>
      have hxs' : ∀ z ∈ xs, z.IsScalar := fun z hz => hxs z (List.mem_cons_of_mem _ hz)
      have hys' : ∀ z ∈ ys, z.IsScalar := fun z hz => hys z (List.mem_cons_of_mem _ hz)
      cases b with
      | zero =>
        have hrest := matchArgs_settled (v := some (a+0)) (m := m) (a := a+1)
          (fun b hb h => by simp at h; omega) hxs' hys'
        cases y <;> simp_all [matchArgs]
      | succ b =>
        have hsame := same_iff (hys y List.mem_cons_self) (hxs x List.mem_cons_self)
        have hrest := ih (a := a+1) (b := b) hxs' hys'
        rw [Nat.add_assoc, Nat.add_comm 1 b] at hrest
        simp [matchArgs, hsame, hrest]

end Arguments

section Periods

theorem ScalarArgs.tail {e : TraceEvent ℤ} {es : List (TraceEvent ℤ)} (h : ScalarArgs (e::es)) :
    ScalarArgs es :=
  fun t args hm => h t args (List.mem_cons_of_mem _ hm)

theorem ScalarArgs.head {t : String} {args : List (Recorded ℤ)} {es : List (TraceEvent ℤ)}
    (h : ScalarArgs (.call t args :: es)) : ∀ x ∈ args, x.IsScalar :=
  h t args List.mem_cons_self

theorem ScalarArgs.sublist {es es' : List (TraceEvent ℤ)} (h : ScalarArgs es)
    (hs : es'.Sublist es) : ScalarArgs es' :=
  fun t args hm => h t args (hs.subset hm)

@[simp] theorem setNumber_zero (a : ℕ) (v : ℤ) (e : TraceEvent ℤ) (es : List (TraceEvent ℤ)) :
    setNumber 0 a v (e::es) = e.setArg a v :: es := rfl

@[simp] theorem setNumber_succ (p a : ℕ) (v : ℤ) (e : TraceEvent ℤ) (es : List (TraceEvent ℤ)) :
    setNumber (p+1) a v (e::es) = e :: setNumber p a v es := rfl

@[simp] theorem setNumber_nil (p a : ℕ) (v : ℤ) : setNumber p a v [] = [] := by
  simp [setNumber]

@[simp] theorem length_setNumber (p a : ℕ) (v : ℤ) (es : List (TraceEvent ℤ)) :
    (setNumber p a v es).length = es.length := by
  simp [setNumber]

@[simp] theorem numberAt_succ (e : TraceEvent ℤ) (es : List (TraceEvent ℤ)) (p a : ℕ) :
    numberAt (e::es) (p+1) a = numberAt es p a := rfl

theorem numberAt_zero (t : String) (args : List (Recorded ℤ)) (es : List (TraceEvent ℤ)) (a : ℕ)
    (n : ℤ) : numberAt (.call t args :: es) 0 a = some n ↔ args[a]? = some (.number n) := by
  simp only [numberAt, List.getElem?_cons_zero]
  split <;> simp_all

theorem scanPeriod_call {p : ℕ} {v w : Option (ℕ × ℕ)} {t t' : String}
    {xs ys : List (Recorded ℤ)} {es es' : List (TraceEvent ℤ)} :
    scanPeriod p v (.call t xs :: es) (.call t' ys :: es') = some w ↔
      t' = t ∧ xs.length = ys.length ∧
        ∃ u, scanArgs p 0 v xs ys = some u ∧ scanPeriod (p+1) u es es' = some w := by
  rw [scanPeriod]
  by_cases ht : t = t'
  · by_cases hl : xs.length = ys.length
    · cases hs : scanArgs p 0 v xs ys <;> simp [ht, hl]
    · simp [ht, hl]
  · simp [ht, eq_comm]

theorem scanPeriod_settled {p : ℕ} {v w : Option (ℕ × ℕ)} (hv : v ≠ none)
    (hpast : ∀ q b, p ≤ q → v ≠ some (q, b)) {es es' : List (TraceEvent ℤ)}
    (hes : ScalarArgs es) (hes' : ScalarArgs es') :
    scanPeriod p v es es' = some w ↔ w = v ∧ es' = es ∧ ∀ e ∈ es, e.IsCall := by
  induction es generalizing p es' with
  | nil => cases es' <;> simp [scanPeriod, eq_comm]
  | cons e es ih =>
    cases es' with
    | nil => cases e <;> simp [scanPeriod]
    | cons e' es' =>
      cases e with
      | ret r => cases e' <;> simp [scanPeriod, TraceEvent.IsCall]
      | call t xs =>
        cases e' with
        | ret r => simp [scanPeriod]
        | call t' ys =>
          rw [scanPeriod_call]
          constructor
          · rintro ⟨rfl, hl, u, hu, hrest⟩
            obtain ⟨rfl, rfl⟩ := (scanArgs_settled hv (fun b _ => hpast p b le_rfl) hes.head
              hes'.head hl).mp hu
            obtain ⟨rfl, rfl, hcalls⟩ := (ih (fun q b hq => hpast q b (by omega)) hes.tail
              hes'.tail).mp hrest
            exact ⟨rfl, rfl, List.forall_mem_cons.mpr ⟨trivial, hcalls⟩⟩
          · rintro ⟨rfl, heq, hcalls⟩
            cases heq
            refine ⟨rfl, rfl, w, ?_, ?_⟩
            · exact (scanArgs_settled hv (fun b _ => hpast p b le_rfl) hes.head hes.head rfl).mpr
                ⟨rfl, rfl⟩
            · exact (ih (fun q b hq => hpast q b (by omega)) hes.tail hes.tail).mpr
                ⟨rfl, rfl, (List.forall_mem_cons.mp hcalls).2⟩

/-- Two periods that match: they are equal, or differ in exactly one number. -/
theorem scanPeriod_fresh {p : ℕ} {w : Option (ℕ × ℕ)} {es es' : List (TraceEvent ℤ)}
    (hes : ScalarArgs es) (hes' : ScalarArgs es') :
    scanPeriod p none es es' = some w ↔ (∀ e ∈ es, e.IsCall) ∧
      ((w = none ∧ es' = es) ∨ ∃ q a n m, w = some (p+q, a) ∧ numberAt es q a = some n ∧ n ≠ m ∧
        es' = setNumber q a m es) := by
  induction es generalizing p es' with
  | nil => cases es' <;> simp [scanPeriod, eq_comm, numberAt]
  | cons e es ih =>
    cases es' with
    | nil =>
      constructor
      · cases e <;> simp [scanPeriod]
      · rintro ⟨-, ⟨-, h⟩ | ⟨q, a, n, m, -, -, -, h⟩⟩
        · cases h
        · cases q <;> cases h
    | cons e' es' =>
      cases e with
      | ret r => cases e' <;> simp [scanPeriod, TraceEvent.IsCall]
      | call t xs =>
        cases e' with
        | ret r =>
          constructor
          · simp [scanPeriod]
          · rintro ⟨-, ⟨-, h⟩ | ⟨q, a, n, m, -, -, -, h⟩⟩
            · cases h
            · cases q <;> cases h
        | call t' ys =>
          rw [scanPeriod_call]
          constructor
          · rintro ⟨rfl, hl, u, hu, hrest⟩
            rcases (scanArgs_fresh hes.head hes'.head hl).mp hu with
              ⟨rfl, rfl⟩ | ⟨b, n, m, rfl, hb, hnm, rfl⟩
            · obtain ⟨hcalls, h⟩ := (ih hes.tail hes'.tail).mp hrest
              refine ⟨List.forall_mem_cons.mpr ⟨trivial, hcalls⟩, ?_⟩
              rcases h with ⟨rfl, rfl⟩ | ⟨q, a, n, m, rfl, hn, hnm, rfl⟩
              · exact .inl ⟨rfl, rfl⟩
              · exact .inr ⟨q+1, a, n, m, by rw [Nat.add_assoc, Nat.add_comm 1 q], hn, hnm, rfl⟩
            · obtain ⟨rfl, rfl, hcalls⟩ := (scanPeriod_settled (by simp)
                (fun q c hq h => by simp at h; omega) hes.tail hes'.tail).mp hrest
              exact ⟨List.forall_mem_cons.mpr ⟨trivial, hcalls⟩,
                .inr ⟨0, b, n, m, by simp, (numberAt_zero ..).mpr hb, hnm, rfl⟩⟩
          · rintro ⟨hcalls, h⟩
            have hcalls' := (List.forall_mem_cons.mp hcalls).2
            rcases h with ⟨rfl, h⟩ | ⟨q, a, n, m, rfl, hn, hnm, h⟩
            · cases h
              exact ⟨rfl, rfl, none, (scanArgs_fresh hes.head hes.head rfl).mpr (.inl ⟨rfl, rfl⟩),
                (ih hes.tail hes.tail).mpr ⟨hcalls', .inl ⟨rfl, rfl⟩⟩⟩
            · cases q with
              | zero =>
                cases h
                refine ⟨rfl, by simp, some (p, a), ?_, ?_⟩
                · exact (scanArgs_fresh hes.head hes'.head (by simp)).mpr
                    (.inr ⟨a, n, m, by simp, (numberAt_zero ..).mp hn, hnm, rfl⟩)
                · exact (scanPeriod_settled (by simp) (fun q c hq h => by simp at h; omega)
                    hes.tail hes.tail).mpr ⟨rfl, rfl, hcalls'⟩
              | succ q =>
                cases h
                refine ⟨rfl, rfl, none, ?_, ?_⟩
                · exact (scanArgs_fresh hes.head hes.head rfl).mpr (.inl ⟨rfl, rfl⟩)
                · exact (ih hes.tail hes'.tail).mpr ⟨hcalls', .inr ⟨q, a, n, m,
                    by rw [Nat.add_assoc, Nat.add_comm 1 q], hn, hnm, rfl⟩⟩

theorem matchPeriod_settled {q b p : ℕ} {m : ℤ} (hp : q < p)
    {base cur : List (TraceEvent ℤ)} (hb : ScalarArgs base) (hc : ScalarArgs cur) :
    matchPeriod q b m p base cur = true ↔ cur = base ∧ ∀ e ∈ base, e.IsCall := by
  induction base generalizing p cur with
  | nil => cases cur <;> simp [matchPeriod]
  | cons e es ih =>
    cases cur with
    | nil => cases e <;> simp [matchPeriod]
    | cons e' es' =>
      cases e with
      | ret r => cases e' <;> simp [matchPeriod, TraceEvent.IsCall]
      | call t xs =>
        cases e' with
        | ret r => simp [matchPeriod]
        | call t' ys =>
          have hargs := matchArgs_settled (v := if p = q then some b else none)
            (m := m) (a := 0) (fun b _ h => by simp at h; omega) hb.head hc.head
          have hrest := ih (p := p+1) (by omega) hb.tail hc.tail
          simp only [matchPeriod, Bool.and_eq_true, hargs, hrest]
          simp [TraceEvent.IsCall]
          grind

theorem matchPeriod_varying {b p q : ℕ} {m : ℤ} {base cur : List (TraceEvent ℤ)}
    (hb : ScalarArgs base) (hc : ScalarArgs cur) :
    matchPeriod (p+q) b m p base cur = true ↔
      cur = setNumber q b m base ∧ ∀ e ∈ base, e.IsCall := by
  induction base generalizing p q cur with
  | nil => cases cur <;> simp [matchPeriod]
  | cons e es ih =>
    cases cur with
    | nil => cases e <;> cases q <;> simp [matchPeriod]
    | cons e' es' =>
      cases e with
      | ret r => cases e' <;> simp [matchPeriod, TraceEvent.IsCall]
      | call t xs =>
        cases e' with
        | ret r => cases q <;> simp [matchPeriod, TraceEvent.setArg]
        | call t' ys =>
          cases q with
          | zero =>
            have hargs := matchArgs_varying (m := m) (a := 0) (b := b)
              hb.head hc.head
            rw [Nat.zero_add] at hargs
            have hrest := matchPeriod_settled (q := p+0) (b := b) (p := p+1)
              (m := m) (by omega) hb.tail hc.tail
            simp only [matchPeriod, Bool.and_eq_true, hrest]
            simp [TraceEvent.IsCall, TraceEvent.setArg, hargs]
            grind
          | succ q =>
            have hargs := matchArgs_settled (v := none) (m := m) (a := 0)
              (by simp) hb.head hc.head
            have hrest := ih (p := p+1) (q := q) hb.tail hc.tail
            rw [Nat.add_assoc, Nat.add_comm 1 q] at hrest
            simp only [matchPeriod, Bool.and_eq_true, hrest]
            simp [TraceEvent.IsCall, hargs]
            grind

theorem numberAt_eq_some {es : List (TraceEvent ℤ)} {p a : ℕ} {n : ℤ} :
    numberAt es p a = some n ↔
      ∃ t args, es[p]? = some (.call t args) ∧ args[a]? = some (.number n) := by
  rw [numberAt]
  split
  · rename_i t args he
    split <;> simp_all
  · simp_all

theorem numberAt_take {es : List (TraceEvent ℤ)} {P p a : ℕ} {n : ℤ}
    (h : numberAt (es.take P) p a = some n) : numberAt es p a = some n := by
  obtain ⟨t, args, he, ha⟩ := numberAt_eq_some.mp h
  rw [List.getElem?_take] at he
  split at he
  · exact numberAt_eq_some.mpr ⟨t, args, he, ha⟩
  · cases he

theorem numberAt_drop (es : List (TraceEvent ℤ)) (P p a : ℕ) :
    numberAt (es.drop P) p a = numberAt es (P+p) a := by
  simp [numberAt]

theorem numberAt_setNumber {es : List (TraceEvent ℤ)} {p a : ℕ} {n : ℤ} (m : ℤ)
    (h : numberAt es p a = some n) : numberAt (setNumber p a m es) p a = some m := by
  obtain ⟨t, args, he, ha⟩ := numberAt_eq_some.mp h
  refine numberAt_eq_some.mpr ⟨t, args.set a (.number m), ?_, ?_⟩
  · simp [setNumber, he, TraceEvent.setArg]
  · obtain ⟨hlt, -⟩ := List.getElem?_eq_some_iff.mp ha
    simp [hlt]

theorem setNumber_self {es : List (TraceEvent ℤ)} {p a : ℕ} {n : ℤ}
    (h : numberAt es p a = some n) : setNumber p a n es = es := by
  obtain ⟨t, args, he, ha⟩ := numberAt_eq_some.mp h
  obtain ⟨hlt, heq⟩ := List.getElem?_eq_some_iff.mp ha
  apply List.ext_getElem?
  intro q
  rw [setNumber, List.getElem?_modify]
  by_cases hq : p = q
  · subst hq
    simp [he, TraceEvent.setArg, ← heq]
  · simp [hq]

end Periods

section Search
variable {P p a : ℕ} {start step : ℤ} {events : List (TraceEvent ℤ)}

theorem Progression.mono {k k' : ℕ} (h : Progression P p a start step k events) (hk : k' ≤ k) :
    Progression P p a start step k' events where
  fits := (Nat.mul_le_mul_right P hk).trans h.fits
  calls := h.calls
  moves := h.moves
  base := h.base
  repeats j hj := h.repeats j (hj.trans_le hk)

theorem Progression.pos {k : ℕ} (h : Progression P p a start step k events) : 0 < P := by
  rcases Nat.eq_zero_or_pos P with rfl | hP
  · have hb := h.base
    simp [numberAt] at hb
  · exact hP

/-- The first two periods decide whether there is a progression. -/
theorem progression_two :
    Progression P p a start step 2 events ↔ 2*P ≤ events.length ∧
      (∀ e ∈ events.take P, e.IsCall) ∧ step ≠ 0 ∧ numberAt (events.take P) p a = some start ∧
      (events.drop P).take P = setNumber p a (start+step) (events.take P) := by
  constructor
  · intro h
    have h1 := h.repeats 1 (by omega)
    simp only [Nat.cast_one, one_mul] at h1
    exact ⟨h.fits, h.calls, h.moves, h.base, h1⟩
  · rintro ⟨hfits, hcalls, hmoves, hbase, h1⟩
    refine ⟨hfits, hcalls, hmoves, hbase, fun j hj => ?_⟩
    have hj' : j = 0 ∨ j = 1 := by omega
    rcases hj' with rfl | rfl
    · simp [setNumber_self hbase]
    · simpa using h1

theorem progression_succ {k : ℕ} : Progression P p a start step (k+1) events ↔
    Progression P p a start step k events ∧ (k+1)*P ≤ events.length ∧
      (events.drop (k*P)).take P = setNumber p a (start+k*step) (events.take P) := by
  constructor
  · intro h
    exact ⟨h.mono (by omega), h.fits, h.repeats k (by omega)⟩
  · rintro ⟨h, hfits, hk⟩
    refine ⟨hfits, h.calls, h.moves, h.base, fun j hj => ?_⟩
    rcases Nat.lt_succ_iff_lt_or_eq.mp hj with hj | rfl
    · exact h.repeats j hj
    · exact hk

theorem scanPeriod_iff (h : ScalarArgs events) (hlen : P*2 ≤ events.length) :
    scanPeriod 0 none (events.take P) ((events.drop P).take P) = some (some (p, a)) ↔
      ∃ start step, Progression P p a start step 2 events := by
  rw [scanPeriod_fresh (h.sublist (List.take_sublist ..))
    (h.sublist ((List.take_sublist ..).trans (List.drop_sublist ..)))]
  constructor
  · rintro ⟨hcalls, ⟨h, -⟩ | ⟨q, b, n, m, hw, hn, hnm, heq⟩⟩
    · cases h
    · cases hw
      refine ⟨n, m-n, progression_two.mpr ⟨by omega, hcalls, by omega, by simpa using hn, ?_⟩⟩
      rw [heq, add_sub_cancel, Nat.zero_add]
  · rintro ⟨start, step, hp⟩
    obtain ⟨-, hcalls, hmoves, hbase, heq⟩ := progression_two.mp hp
    exact ⟨hcalls, .inr ⟨p, a, start, start+step, by rw [Nat.zero_add], hbase, by omega, heq⟩⟩

/-- The iteration count is extended exactly as long as the progression goes on. -/
theorem growIterations_spec (h : ScalarArgs events) (hP : 0 < P) (fuel k : ℕ)
    (hk : Progression P p a start step k events) (hfuel : events.length ≤ fuel + k*P) :
    ∃ k', growIterations P p a (events.take P) start step fuel k (events.drop (k*P)) = k' ∧
      k ≤ k' ∧ Progression P p a start step k' events ∧
      ¬ Progression P p a start step (k'+1) events := by
  induction fuel generalizing k with
  | zero =>
    refine ⟨k, rfl, le_rfl, hk, fun hnext => ?_⟩
    have hfits := hnext.fits
    rw [Nat.succ_mul] at hfits
    omega
  | succ fuel ih =>
    have hmatch : matchPeriod p a (start+k*step) 0 (events.take P) ((events.drop (k*P)).take P) =
        true ↔ (events.drop (k*P)).take P = setNumber p a (start+k*step) (events.take P) := by
      have := matchPeriod_varying (b := a) (p := 0) (q := p) (m := start+k*step)
        (h.sublist (List.take_sublist P events))
        (h.sublist ((List.take_sublist P (events.drop (k*P))).trans (List.drop_sublist ..)))
      rw [Nat.zero_add] at this
      rw [this, and_iff_left hk.calls]
    have hnext : (P ≤ (events.drop (k*P)).length && matchPeriod p a (start+k*step) 0
        (events.take P) ((events.drop (k*P)).take P)) = true ↔
        Progression P p a start step (k+1) events := by
      rw [progression_succ, Bool.and_eq_true, decide_eq_true_iff, hmatch, List.length_drop,
        Nat.succ_mul]
      have := hk.fits
      constructor
      · rintro ⟨hl, heq⟩
        exact ⟨hk, by omega, heq⟩
      · rintro ⟨-, hl, heq⟩
        exact ⟨by omega, heq⟩
    by_cases hp : Progression P p a start step (k+1) events
    · have hdrop : (events.drop (k*P)).drop P = events.drop ((k+1)*P) := by
        rw [List.drop_drop, Nat.succ_mul]
      obtain ⟨k', hgrow, hle, hk', hmax⟩ := ih (k+1) hp (by rw [Nat.succ_mul]; omega)
      refine ⟨k', ?_, by omega, hk', hmax⟩
      rw [growIterations, int_add, int_mul, int_ofNat, if_pos (hnext.mpr hp), hdrop]
      exact hgrow
    · refine ⟨k, ?_, le_rfl, hk, hp⟩
      rw [growIterations, int_add, int_mul, int_ofNat, if_neg (fun hc => hp (hnext.mp hc))]

/-- The loop that the search is to find: of the shortest period, and as long as it goes on. -/
structure Detected (info : LoopInfo ℤ) (events : List (TraceEvent ℤ)) : Prop where
  progression : Progression info.period info.offset info.arg info.start info.step
    info.iterations events
  two : 2 ≤ info.iterations
  longest : ¬ Progression info.period info.offset info.arg info.start info.step
    (info.iterations+1) events
  bounded : info.period ≤ 4
  shortest : ∀ P < info.period, ∀ p a start step, ¬ Progression P p a start step 2 events

theorem detectPeriod_progression (h : ScalarArgs events)
    (hp : Progression P p a start step 2 events) :
    ∃ k, detectPeriod P events = some ⟨P, p, a, start, step, k⟩ ∧ 2 ≤ k ∧
      Progression P p a start step k events ∧ ¬ Progression P p a start step (k+1) events := by
  have hfits := hp.fits
  obtain ⟨k, hgrow, hle, hk, hmax⟩ := growIterations_spec h hp.pos events.length 2 hp (by omega)
  refine ⟨k, ?_, hle, hk, hmax⟩
  have hscan := (scanPeriod_iff h (by omega)).mpr ⟨start, step, hp⟩
  obtain ⟨-, -, -, hbase, heq⟩ := progression_two.mp hp
  have hsecond : numberAt events (P+p) a = some (start+step) := by
    rw [← numberAt_drop]
    apply numberAt_take
    rw [heq]
    exact numberAt_setNumber _ hbase
  rw [detectPeriod, hscan]
  simp [numberAt_take hbase, hsecond, hp.moves, hgrow]

theorem detectPeriod_none (h : ScalarArgs events) (hlen : P*2 ≤ events.length)
    (hno : ∀ p a start step, ¬ Progression P p a start step 2 events) :
    detectPeriod P events = none := by
  rw [detectPeriod]
  split
  · rename_i p a hscan
    obtain ⟨start, step, hp⟩ := (scanPeriod_iff h hlen).mp hscan
    exact absurd hp (hno p a start step)
  · rfl

theorem detectLoop_spec (h : ScalarArgs events) (tries P : ℕ) (hP : P+tries = 5)
    (hshort : ∀ P' < P, ∀ p a start step, ¬ Progression P' p a start step 2 events) :
    (∃ info, detectLoop events tries P = some info ∧ Detected info events) ∨
      (detectLoop events tries P = none ∧
        ∀ P' ≤ 4, ∀ p a start step, ¬ Progression P' p a start step 2 events) := by
  induction tries generalizing P with
  | zero => exact .inr ⟨rfl, fun P' hP' => hshort P' (by omega)⟩
  | succ tries ih =>
    rw [detectLoop]
    by_cases hlen : P*2 ≤ events.length
    · rw [if_pos hlen]
      by_cases hex : ∃ p a start step, Progression P p a start step 2 events
      · obtain ⟨p, a, start, step, hp⟩ := hex
        obtain ⟨k, hdetect, hle, hk, hmax⟩ := detectPeriod_progression h hp
        refine .inl ⟨⟨P, p, a, start, step, k⟩, ?_, hk, hle, hmax, ?_, hshort⟩
        · rw [hdetect]
        · show P ≤ 4
          omega
      · have hno : ∀ p a start step, ¬ Progression P p a start step 2 events :=
          fun p a start step hp => hex ⟨p, a, start, step, hp⟩
        rw [detectPeriod_none h hlen hno]
        refine ih (P+1) (by omega) (fun P' hP' => ?_)
        rcases Nat.lt_succ_iff_lt_or_eq.mp hP' with hP' | rfl
        · exact hshort P' hP'
        · exact hno
    · rw [if_neg hlen]
      refine .inr ⟨rfl, fun P' hP' p a start step hp => ?_⟩
      have hfits := hp.fits
      exact hshort P' (by omega) p a start step hp

/-- At most one loop meets the description, so the search is a function of the trace. -/
theorem Detected.unique {info info' : LoopInfo ℤ} (h : ScalarArgs events)
    (hd : Detected info events) (hd' : Detected info' events) : info = info' := by
  have h2 := hd.progression.mono hd.two
  have h2' := hd'.progression.mono hd'.two
  have hperiod : info.period = info'.period := by
    rcases Nat.lt_trichotomy info.period info'.period with hlt | heq | hlt
    · exact absurd h2 (hd'.shortest _ hlt _ _ _ _)
    · exact heq
    · exact absurd h2' (hd.shortest _ hlt _ _ _ _)
  obtain ⟨P, p, a, start, step, k⟩ := info
  obtain ⟨P', p', a', start', step', k'⟩ := info'
  obtain rfl : P = P' := hperiod
  obtain ⟨k₁, hdetect, -, hk₁, hmax₁⟩ := detectPeriod_progression h h2
  obtain ⟨k₂, hdetect', -, -, -⟩ := detectPeriod_progression h h2'
  have heq := Option.some.inj (hdetect.symm.trans hdetect')
  simp only [LoopInfo.mk.injEq, true_and] at heq
  obtain ⟨rfl, rfl, rfl, rfl, rfl⟩ := heq
  have hk : k = k' := by
    rcases Nat.lt_trichotomy k k' with hlt | heq | hlt
    · exact absurd (hd'.progression.mono hlt) hd.longest
    · exact heq
    · exact absurd (hd.progression.mono hlt) hd'.longest
  rw [hk]

theorem detectLoop_eq_some (h : ScalarArgs events) {info : LoopInfo ℤ} :
    detectLoop events 4 1 = some info ↔ Detected info events := by
  have hzero : ∀ P' < 1, ∀ p a start step, ¬ Progression P' p a start step 2 events :=
    fun P' hP' p a start step hp => absurd hp.pos (by omega)
  constructor
  · intro hsome
    rcases detectLoop_spec h 4 1 rfl hzero with ⟨info', hsome', hd⟩ | ⟨hnone, -⟩
    · rw [hsome] at hsome'
      cases hsome'
      exact hd
    · rw [hsome] at hnone
      cases hnone
  · intro hd
    rcases detectLoop_spec h 4 1 rfl hzero with ⟨info', hsome', hd'⟩ | ⟨-, hno⟩
    · rw [hsome', hd'.unique h hd]
    · exact absurd (hd.progression.mono hd.two) (hno _ hd.bounded _ _ _ _)

theorem detectLoop_eq_none (h : ScalarArgs events) : detectLoop events 4 1 = none ↔
    ∀ P ≤ 4, ∀ p a start step, ¬ Progression P p a start step 2 events := by
  constructor
  · intro hnone
    rcases detectLoop_spec h 4 1 rfl
      (fun P' hP' p a start step hp => absurd hp.pos (by omega)) with ⟨info, hsome, -⟩ | ⟨-, hno⟩
    · rw [hnone] at hsome
      cases hsome
    · exact hno
  · intro hno
    cases hd : detectLoop events 4 1 with
    | none => rfl
    | some info =>
      have hdet := (detectLoop_eq_some h).mp hd
      exact absurd (hdet.progression.mono hdet.two) (hno _ hdet.bounded _ _ _ _)

end Search
end LuaRecovery.Oracle
