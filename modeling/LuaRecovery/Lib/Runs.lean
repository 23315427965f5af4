import Mathlib.Data.Option.Basic

/-!
# Runs of a system

An event moves a system from one state to the next, where it can happen at all.
Conditions are put on the steps of a run, laws on the states that it goes
through.
-/

set_option autoImplicit false

namespace LuaRecovery.Lib

structure System (S E : Type) where
  start : S
  step : S → E → Option S

namespace System
variable {S E : Type} (sys : System S E)

def runFrom (s : S) : List E → Option S
  | [] => some s
  | e::es => (sys.step s e).bind (runFrom · es)

/-- Each event that happens in the run does so in a state that meets the condition. -/
def MeetsFrom (cond : S → E → Prop) (s : S) : List E → Prop
  | [] => True
  | e::es => ∀ s', sys.step s e = some s' → cond s e ∧ MeetsFrom cond s' es

/-- The law holds in each state of the run. -/
def AlwaysFrom (law : S → Prop) (s : S) : List E → Prop
  | [] => law s
  | e::es => law s ∧ ∀ s', sys.step s e = some s' → AlwaysFrom law s' es

def run (es : List E) : Option S := sys.runFrom sys.start es
def Meets (cond : S → E → Prop) (es : List E) : Prop := sys.MeetsFrom cond sys.start es
def Always (law : S → Prop) (es : List E) : Prop := sys.AlwaysFrom law sys.start es

variable {sys}

theorem meetsFrom_cons {cond : S → E → Prop} {s s' : S} {e : E} {es : List E}
    (hs : sys.step s e = some s') :
    sys.MeetsFrom cond s (e::es) ↔ cond s e ∧ sys.MeetsFrom cond s' es := by
  simp [MeetsFrom, hs]

theorem meetsFrom_of_forall {cond : S → E → Prop} {es : List E} (h : ∀ e ∈ es, ∀ s, cond s e)
    (s : S) : sys.MeetsFrom cond s es := by
  induction es generalizing s with
  | nil => exact trivial
  | cons e es ih =>
    obtain ⟨he, hrest⟩ := List.forall_mem_cons.mp h
    exact fun s' _ => ⟨he s, ih hrest s'⟩

theorem AlwaysFrom.last {law : S → Prop} {s t : S} {es : List E} (h : sys.AlwaysFrom law s es)
    (ht : sys.runFrom s es = some t) : law t := by
  induction es generalizing s with
  | nil =>
    rw [runFrom, Option.some.injEq] at ht
    exact ht ▸ h
  | cons e es ih =>
    obtain ⟨s', hs, ht⟩ := Option.bind_eq_some_iff.mp ht
    exact ih (h.2 s' hs) ht

theorem always_of_invariant {cond : S → E → Prop} {law inv : S → Prop}
    (hlaw : ∀ s, inv s → law s)
    (hstep : ∀ s e s', inv s → cond s e → sys.step s e = some s' → inv s') {s : S} {es : List E}
    (hs : inv s) (h : sys.MeetsFrom cond s es) : sys.AlwaysFrom law s es := by
  induction es generalizing s with
  | nil => exact hlaw s hs
  | cons e es ih =>
    refine ⟨hlaw s hs, fun s' hs' => ?_⟩
    obtain ⟨hcond, hrest⟩ := h s' hs'
    exact ih (hstep s e s' hs hcond hs') hrest

/-- Two conditions that agree wherever an invariant holds. -/
theorem meets_congr {cond cond' : S → E → Prop} {inv : S → Prop}
    (hcond : ∀ s e, inv s → (cond s e ↔ cond' s e))
    (hstep : ∀ s e s', inv s → sys.step s e = some s' → inv s') {s : S} (es : List E)
    (hs : inv s) : sys.MeetsFrom cond s es ↔ sys.MeetsFrom cond' s es := by
  induction es generalizing s with
  | nil => exact Iff.rfl
  | cons e es ih =>
    refine forall₂_congr fun s' hs' => ?_
    rw [hcond s e hs, ih (hstep s e s' hs hs')]

theorem runFrom_kept {kept : S → Prop} (hkept : ∀ s e s', kept s → sys.step s e = some s' → kept s')
    {s t : S} {es : List E} (hs : kept s) (ht : sys.runFrom s es = some t) : kept t := by
  induction es generalizing s with
  | nil => exact Option.some.inj ht ▸ hs
  | cons e es ih =>
    obtain ⟨s', hs', ht⟩ := Option.bind_eq_some_iff.mp ht
    exact ih (hkept s e s' hs hs') ht

/-- A step that misses the condition leads to states from which every run that is over ends
against the law. -/
theorem meets_of_always {cond : S → E → Prop} {law inv doomed ended : S → Prop}
    (hstep : ∀ s e s', inv s → sys.step s e = some s' → inv s')
    (hdoom : ∀ s e s', inv s → sys.step s e = some s' → ¬ cond s e → doomed s')
    (hkeep : ∀ s e s', inv s ∧ doomed s → sys.step s e = some s' → inv s' ∧ doomed s')
    (hlaw : ∀ s, doomed s → ended s → ¬ law s) {s t : S} {es : List E} (hs : inv s)
    (ht : sys.runFrom s es = some t) (hended : ended t) (h : sys.AlwaysFrom law s es) :
    sys.MeetsFrom cond s es := by
  induction es generalizing s with
  | nil => exact trivial
  | cons e es ih =>
    obtain ⟨next, hnext, ht⟩ := Option.bind_eq_some_iff.mp ht
    refine (meetsFrom_cons hnext).mpr ⟨?_, ih (hstep s e next hs hnext) ht (h.2 next hnext)⟩
    by_contra hmiss
    obtain ⟨-, hdoomed⟩ :=
      runFrom_kept hkeep ⟨hstep s e next hs hnext, hdoom s e next hs hnext hmiss⟩ ht
    exact hlaw t hdoomed hended ((h.2 next hnext).last ht)

/-- A run ends outside the doomed states, which no step leaves, exactly when no step of it enters
them. -/
theorem meets_iff_not_doomed {cond : S → E → Prop} {inv doomed : S → Prop}
    (hstep : ∀ s e s', inv s → sys.step s e = some s' → inv s')
    (hdoom : ∀ s e s', inv s → ¬ doomed s → sys.step s e = some s' → (cond s e ↔ ¬ doomed s'))
    (hkeep : ∀ s e s', inv s ∧ doomed s → sys.step s e = some s' → inv s' ∧ doomed s') {s t : S}
    {es : List E} (hs : inv s) (hfree : ¬ doomed s) (ht : sys.runFrom s es = some t) :
    sys.MeetsFrom cond s es ↔ ¬ doomed t := by
  induction es generalizing s with
  | nil =>
    obtain rfl := Option.some.inj ht
    exact iff_of_true trivial hfree
  | cons e es ih =>
    obtain ⟨next, hnext, ht⟩ := Option.bind_eq_some_iff.mp ht
    have hinv := hstep s e next hs hnext
    have hcond := hdoom s e next hs hfree hnext
    rw [meetsFrom_cons hnext]
    by_cases hdoomed : doomed next
    · have hend := (runFrom_kept hkeep ⟨hinv, hdoomed⟩ ht).2
      exact iff_of_false (fun h => hcond.mp h.1 hdoomed) (fun h => h hend)
    · rw [ih hinv hdoomed ht]
      exact and_iff_right (hcond.mpr hdoomed)

theorem AlwaysFrom.head {law : S → Prop} {s : S} {es : List E} (h : sys.AlwaysFrom law s es) :
    law s := by
  cases es with
  | nil => exact h
  | cons _ _ => exact h.1

theorem AlwaysFrom.and {law law' : S → Prop} {s : S} {es : List E} (h : sys.AlwaysFrom law s es)
    (h' : sys.AlwaysFrom law' s es) : sys.AlwaysFrom (fun s => law s ∧ law' s) s es := by
  induction es generalizing s with
  | nil => exact ⟨h, h'⟩
  | cons e es ih => exact ⟨⟨h.1, h'.1⟩, fun s' hs' => ih (h.2 s' hs') (h'.2 s' hs')⟩

theorem always_of_kept {inv : S → Prop} (hstep : ∀ s e s', inv s → sys.step s e = some s' → inv s')
    {s : S} (es : List E) (hs : inv s) : sys.AlwaysFrom inv s es := by
  induction es generalizing s with
  | nil => exact hs
  | cons e es ih => exact ⟨hs, fun s' hs' => ih (hstep s e s' hs hs')⟩

theorem MeetsFrom.imp {cond prop : S → E → Prop} {inv : S → Prop}
    (himp : ∀ s e, inv s → cond s e → prop s e) {s : S} {es : List E}
    (hinv : sys.AlwaysFrom inv s es) (h : sys.MeetsFrom cond s es) : sys.MeetsFrom prop s es := by
  induction es generalizing s with
  | nil => trivial
  | cons e es ih =>
    intro s' hs'
    obtain ⟨hcond, hrest⟩ := h s' hs'
    exact ⟨himp s e hinv.1 hcond, ih (hinv.2 s' hs') hrest⟩

/-- A law that a step keeps exactly when it meets the condition, as long as the run keeps to an
invariant. -/
theorem always_iff_meets_of {cond : S → E → Prop} {law inv : S → Prop}
    (hstep : ∀ s e s', inv s → law s → sys.step s e = some s' → (law s' ↔ cond s e)) {s : S}
    {es : List E} (hinv : sys.AlwaysFrom inv s es) (hs : law s) :
    sys.AlwaysFrom law s es ↔ sys.MeetsFrom cond s es := by
  constructor
  · intro h
    induction es generalizing s with
    | nil => trivial
    | cons e es ih =>
      intro s' hs'
      have hlaw' : law s' := (h.2 s' hs').head
      exact ⟨(hstep s e s' hinv.1 hs hs').mp hlaw', ih (hinv.2 s' hs') hlaw' (h.2 s' hs')⟩
  · intro h
    induction es generalizing s with
    | nil => exact hs
    | cons e es ih =>
      refine ⟨hs, fun s' hs' => ?_⟩
      obtain ⟨hcond, hrest⟩ := h s' hs'
      exact ih (hinv.2 s' hs') ((hstep s e s' hinv.1 hs hs').mpr hcond) hrest

/-- The same with an invariant that is only known to be kept while the law holds. -/
theorem always_iff_meets_while {cond : S → E → Prop} {law inv : S → Prop}
    (hkeep : ∀ s e s', inv s → law s → sys.step s e = some s' → law s' → inv s')
    (hstep : ∀ s e s', inv s → law s → sys.step s e = some s' → (law s' ↔ cond s e)) {s : S}
    {es : List E} (hinv : inv s) (hs : law s) :
    sys.AlwaysFrom law s es ↔ sys.MeetsFrom cond s es := by
  induction es generalizing s with
  | nil => exact iff_of_true hs trivial
  | cons e es ih =>
    rw [AlwaysFrom, and_iff_right hs]
    refine forall₂_congr fun s' hs' => ?_
    rw [← hstep s e s' hinv hs hs']
    constructor
    · exact fun h => ⟨h.head, (ih (hkeep s e s' hinv hs hs' h.head) h.head).mp h⟩
    · exact fun h => (ih (hkeep s e s' hinv hs hs' h.1) h.1).mpr h.2

/-- The same for runs whose steps all meet a second condition. -/
theorem always_iff_meets_given {given cond : S → E → Prop} {law : S → Prop}
    (hstep : ∀ s e s', given s e → law s → sys.step s e = some s' → (law s' ↔ cond s e)) {s : S}
    {es : List E} (hgiven : sys.MeetsFrom given s es) (hs : law s) :
    sys.AlwaysFrom law s es ↔ sys.MeetsFrom cond s es := by
  induction es generalizing s with
  | nil => exact iff_of_true hs trivial
  | cons e es ih =>
    rw [AlwaysFrom, and_iff_right hs]
    refine forall₂_congr fun s' hs' => ?_
    obtain ⟨hg, hrest⟩ := hgiven s' hs'
    rw [← hstep s e s' hg hs hs']
    constructor
    · exact fun h => ⟨h.head, (ih hrest h.head).mp h⟩
    · exact fun h => (ih hrest h.1).mpr h.2

/-- A law that a step keeps exactly when it meets the condition. -/
theorem always_iff_meets {cond : S → E → Prop} {law : S → Prop}
    (hstep : ∀ s e s', law s → sys.step s e = some s' → (law s' ↔ cond s e)) {s : S} {es : List E}
    (hs : law s) : sys.AlwaysFrom law s es ↔ sys.MeetsFrom cond s es :=
  always_iff_meets_of (fun s e s' _ => hstep s e s')
    (always_of_kept (fun _ _ _ _ _ => True.intro) es True.intro) hs

end System
end LuaRecovery.Lib
