import LuaRecovery.Lib.Histories
import Mathlib.Algebra.Order.Group.Defs
import Mathlib.Algebra.Order.Monoid.Unbundled.Basic
import Mathlib.Algebra.Order.Group.Basic

/-!
# Sliding windows over a log of times

A time joins the log only where fewer than a limit of entries lie in the window
that ends with it. Then no interval of the window's length holds more than the
limit, wherever it lies.
-/

set_option autoImplicit false

namespace LuaRecovery.Lib
variable {T : Type} [AddCommGroup T] [LinearOrder T]

/-- The entries of the log in the window of length `w` that ends now. -/
def inWindow (w now : T) (log : List T) : List T := log.filter (fun ts => now - ts < w)

/-- Each entry has joined with fewer than `limit` entries in its window. -/
def Spaced (w : T) (limit : ℕ) (log : List T) : Prop :=
  AtEach (fun before ts => (inWindow w ts before).length < limit) log

theorem inWindow_append (w now : T) (log log' : List T) :
    inWindow w now (log ++ log') = inWindow w now log ++ inWindow w now log' := List.filter_append ..

theorem spaced_nil (w : T) (limit : ℕ) : Spaced w limit [] := atEach_nil

theorem Spaced.concat {w now : T} {limit : ℕ} {log : List T} (h : Spaced w limit log)
    (hroom : (inWindow w now log).length < limit) : Spaced w limit (log ++ [now]) :=
  AtEach.snoc h hroom

/-- A set of times that lie less than `w` apart holds at most `limit` entries. -/
theorem Spaced.countP_le {w : T} {limit : ℕ} {log : List T} (h : Spaced w limit log) {p : T → Bool}
    (hp : ∀ x y, p x = true → p y = true → x - y < w) : log.countP p ≤ limit := by
  induction log using List.reverseRecOn with
  | nil => exact Nat.zero_le limit
  | append_singleton log now ih =>
    have hlog : Spaced w limit log := AtEach.take h
    rw [List.countP_append, List.countP_singleton]
    by_cases hnow : p now = true
    · rw [if_pos hnow]
      have hroom := AtEach.last h
      have hle : log.countP p ≤ (inWindow w now log).length := by
        rw [inWindow, ← List.countP_eq_length_filter]
        exact List.countP_mono_left fun ts _ hts => decide_eq_true (hp now ts hnow hts)
      omega
    · rw [if_neg hnow]
      exact ih hlog

variable [IsOrderedAddMonoid T]

theorem inWindow_inWindow {w w' now later : T} (hnow : now ≤ later) (hw : w' ≤ w) (log : List T) :
    inWindow w' later (inWindow w now log) = inWindow w' later log := by
  rw [inWindow, inWindow, inWindow, List.filter_filter]
  apply List.filter_congr
  intro ts _
  by_cases hts : later - ts < w'
  · have hearlier : now - ts < w := (sub_le_sub_right hnow ts).trans_lt (hts.trans_le hw)
    simp [hts, hearlier]
  · simp [hts]

/-- An interval that contains its start. -/
theorem Spaced.countP_Ico {w : T} {limit : ℕ} {log : List T} (h : Spaced w limit log) (t : T) :
    log.countP (fun x => decide (t ≤ x ∧ x < t + w)) ≤ limit := by
  apply h.countP_le
  intro x y hx hy
  have hx := of_decide_eq_true hx
  have hy := of_decide_eq_true hy
  exact sub_lt_iff_lt_add'.mpr (hx.2.trans_le (add_le_add_left hy.1 w))

/-- An interval that contains its end. -/
theorem Spaced.countP_Ioc {w : T} {limit : ℕ} {log : List T} (h : Spaced w limit log) (t : T) :
    log.countP (fun x => decide (t < x ∧ x ≤ t + w)) ≤ limit := by
  apply h.countP_le
  intro x y hx hy
  have hx := of_decide_eq_true hx
  have hy := of_decide_eq_true hy
  exact sub_lt_iff_lt_add'.mpr (hx.2.trans_lt (add_lt_add_left hy.1 w))

end LuaRecovery.Lib
