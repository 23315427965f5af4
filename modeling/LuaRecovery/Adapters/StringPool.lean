import LuaRecovery.Adapters.CustomBase64
import LuaRecovery.Evaluator.ConstantEvaluator
import LuaRecovery.Lua.Double
import Mathlib.Logic.Function.Basic
import Mathlib.Data.List.Perm.Basic

/-!
# The rotated string pool and its lookups

The reversals of `extractAndDecode` and `resolveLookup` in
`adapters/wearedevs/wearedevs-adapter.js`, and `_resolveKey` of
`analysis/environment-access-analyzer.js`. A Lua table is what it has at each
integer.
-/

set_option autoImplicit false

namespace LuaRecovery.Adapters
open LuaRecovery.Lib LuaRecovery.Lua LuaRecovery.Evaluator

section Rotation
variable {α : Type}

def swapEntries (entries : List α) (l r : ℕ) : List α :=
  match entries[l]?, entries[r]? with
  | some tmp, some other => (entries.set l other).set r tmp
  | _, _ => entries

/-- The inner loop, from the indices `l` and `r` on. -/
def reverseEntries (entries : List α) (l r : ℤ) : List α :=
  if l < r ∧ 0 ≤ l ∧ r < entries.length then
    reverseEntries (swapEntries entries l.toNat r.toNat) (l+1) (r-1)
  else entries
termination_by (r-l).toNat

def applyRotations (entries : List α) (rotationRanges : List (ℤ × ℤ)) : List α :=
  rotationRanges.foldl (fun entries range => reverseEntries entries (range.1-1) (range.2-1)) entries

abbrev LuaTable (α : Type) := ℤ → Option α

/-- The program's own loop: while `Q[1] < Q[2]`, it swaps `A[Q[1]]` with `A[Q[2]]` and moves both. -/
def luaReverse (A : LuaTable α) (lo hi : ℤ) : LuaTable α :=
  if lo < hi then luaReverse (Function.update (Function.update A lo (A hi)) hi (A lo)) (lo+1) (hi-1)
  else A
termination_by (hi-lo).toNat

def luaRotations (A : LuaTable α) (ranges : List (ℤ × ℤ)) : LuaTable α :=
  ranges.foldl (fun A range => luaReverse A range.1 range.2) A

/-- The table that holds a pool from index 1 on. -/
def tableOf (entries : List α) : LuaTable α :=
  fun i => if 1 ≤ i then entries[(i-1).toNat]? else none

def InRange (entries : List α) (range : ℤ × ℤ) : Prop :=
  1 ≤ range.1 ∧ range.2 ≤ entries.length

instance (entries : List α) (range : ℤ × ℤ) : Decidable (InRange entries range) :=
  inferInstanceAs (Decidable (_ ∧ _))

theorem swapEntries_perm (entries : List α) (l r : ℕ) : (swapEntries entries l r).Perm entries := by
  unfold swapEntries
  split
  next tmp other hl hr =>
    obtain ⟨hl', rfl⟩ := List.getElem?_eq_some_iff.mp hl
    obtain ⟨hr', rfl⟩ := List.getElem?_eq_some_iff.mp hr
    exact List.set_set_perm hl' hr'
  next => exact .refl _

theorem reverseEntries_perm (entries : List α) (l r : ℤ) :
    (reverseEntries entries l r).Perm entries := by
  fun_induction reverseEntries entries l r with
  | case1 entries l r _ ih => exact ih.trans (swapEntries_perm _ _ _)
  | case2 => exact .refl _

theorem applyRotations_perm (entries : List α) (ranges : List (ℤ × ℤ)) :
    (applyRotations entries ranges).Perm entries := by
  induction ranges generalizing entries with
  | nil => exact .refl _
  | cons range ranges ih => exact (ih _).trans (reverseEntries_perm _ _ _)

/-- One swap on both sides. -/
theorem tableOf_swapEntries (entries : List α) (l r : ℤ) (hlr : l < r) (hl : 0 ≤ l)
    (hr : r < entries.length) :
    tableOf (swapEntries entries l.toNat r.toNat) =
      Function.update (Function.update (tableOf entries) (l+1) (tableOf entries (r+1))) (r+1)
        (tableOf entries (l+1)) := by
  have hl' : l.toNat < entries.length := by omega
  have hr' : r.toNat < entries.length := by omega
  have hswap : swapEntries entries l.toNat r.toNat =
      (entries.set l.toNat entries[r.toNat]).set r.toNat entries[l.toNat] := by
    rw [swapEntries, List.getElem?_eq_getElem hl', List.getElem?_eq_getElem hr']
  have hat : ∀ k : ℤ, 0 ≤ k → tableOf entries (k+1) = entries[k.toNat]? := by
    intro k hk
    rw [tableOf, if_pos (by omega), show k+1-1 = k by omega]
  rw [hswap, hat l hl, hat r (by omega), List.getElem?_eq_getElem hl',
    List.getElem?_eq_getElem hr']
  funext i
  by_cases hir : i = r+1
  · subst hir
    rw [Function.update_self, tableOf, if_pos (by omega), show r+1-1 = r by omega,
      List.getElem?_set_self (by simpa using hr')]
  rw [Function.update_of_ne hir]
  by_cases hil : i = l+1
  · subst hil
    rw [Function.update_self, tableOf, if_pos (by omega), show l+1-1 = l by omega,
      List.getElem?_set_ne (by omega), List.getElem?_set_self hl']
  · rw [Function.update_of_ne hil, tableOf, tableOf]
    by_cases hi : 1 ≤ i
    · rw [if_pos hi, if_pos hi, List.getElem?_set_ne (by omega), List.getElem?_set_ne (by omega)]
    · rw [if_neg hi, if_neg hi]

theorem tableOf_reverseEntries (entries : List α) (l r : ℤ) (hl : 0 ≤ l)
    (hr : r < entries.length) :
    tableOf (reverseEntries entries l r) = luaReverse (tableOf entries) (l+1) (r+1) := by
  fun_induction reverseEntries entries l r with
  | case1 entries l r h ih =>
    have hlen := (swapEntries_perm entries l.toNat r.toNat).length_eq
    rw [luaReverse, if_pos (by omega), ← tableOf_swapEntries entries l r h.1 hl hr,
      ih (by omega) (by omega)]
    congr 1
    omega
  | case2 entries l r h => rw [luaReverse, if_neg (by omega)]

/-- The reversals, range after range: the adapter's pool is the table of the program. -/
theorem tableOf_applyRotations (entries : List α) (ranges : List (ℤ × ℤ))
    (h : ∀ range ∈ ranges, InRange entries range) :
    tableOf (applyRotations entries ranges) = luaRotations (tableOf entries) ranges := by
  induction ranges generalizing entries with
  | nil => rfl
  | cons range ranges ih =>
    obtain ⟨hlo, hhi⟩ := h range (by simp)
    have hlen := (reverseEntries_perm entries (range.1-1) (range.2-1)).length_eq
    have hrest : ∀ other ∈ ranges,
        InRange (reverseEntries entries (range.1-1) (range.2-1)) other := by
      intro other hother
      rw [InRange, hlen]
      exact h other (by simp [hother])
    have hstep := tableOf_reverseEntries entries (range.1-1) (range.2-1) (by omega) (by omega)
    rw [Int.sub_add_cancel, Int.sub_add_cancel] at hstep
    calc tableOf (applyRotations entries (range::ranges))
        = luaRotations (tableOf (reverseEntries entries (range.1-1) (range.2-1))) ranges :=
          ih _ hrest
      _ = luaRotations (tableOf entries) (range::ranges) := by rw [hstep]; rfl

/-- The reversals do not look at the entries. -/
theorem applyRotations_map {β : Type} (f : α → β) (entries : List α) (ranges : List (ℤ × ℤ)) :
    applyRotations (entries.map f) ranges = (applyRotations entries ranges).map f := by
  have hswap : ∀ (entries : List α) (l r : ℕ),
      swapEntries (entries.map f) l r = (swapEntries entries l r).map f := by
    intro entries l r
    unfold swapEntries
    rw [List.getElem?_map, List.getElem?_map]
    cases entries[l]? <;> cases entries[r]? <;> simp [List.map_set]
  have hreverse : ∀ (entries : List α) (l r : ℤ),
      reverseEntries (entries.map f) l r = (reverseEntries entries l r).map f := by
    intro entries l r
    fun_induction reverseEntries entries l r with
    | case1 entries l r h ih =>
      rw [reverseEntries, if_pos (by simpa using h), hswap, ih]
    | case2 entries l r h => rw [reverseEntries, if_neg (by simpa using h)]
  induction ranges generalizing entries with
  | nil => rfl
  | cons range ranges ih =>
    show applyRotations (reverseEntries (entries.map f) (range.1-1) (range.2-1)) ranges = _
    rw [hreverse, ih]
    rfl

/-- It makes no difference whether the entries are turned round before they are decoded, as the
adapter does it, or after. -/
theorem decodedTable_applyRotations (entries : List ByteString) (alphabet : AlphabetMap)
    (ranges : List (ℤ × ℤ)) :
    decodedTable (applyRotations entries ranges) alphabet =
      applyRotations (decodedTable entries alphabet) ranges :=
  (applyRotations_map _ entries ranges).symm

end Rotation

section Resolvers

/-- What the lookups read of the adapter. -/
structure PoolAccessor where
  accessorName : Option String
  accessorOffset : Option Double
  stringTable : List ByteString
  /-- The bound on the length of a JavaScript array. -/
  length_lt : stringTable.length < 2^32

/-- `stringTable[index]`, with `none` for `undefined`. -/
def element (stringTable : List ByteString) : Double → Option ByteString
  | .finite q _ => if q.den = 1 ∧ 0 ≤ q.num then stringTable[q.num.toNat]? else none
  | _ => none

/-- What a lookup hands back. -/
inductive Lookup where
  | string (s : ByteString)
  | undefined
  | null
  deriving DecidableEq

/-- `toString('latin1')`. -/
def latin1Text (s : ByteString) : CodeUnits := s.map UInt8.toNat

/-- The text of the string that a lookup finds. -/
def Lookup.text? : Lookup → Option CodeUnits
  | .string s => some (latin1Text s)
  | _ => none

variable [Host]

def resolveLookup (adapter : PoolAccessor) (argOffset : Double) : Lookup :=
  let index := LuaNumber.add argOffset (adapter.accessorOffset.getD LuaNumber.zero)
  let idx0 := LuaNumber.sub index LuaNumber.one
  if LuaNumber.le LuaNumber.zero idx0 &&
      LuaNumber.lt idx0 (LuaNumber.ofNat adapter.stringTable.length) then
    match element adapter.stringTable idx0 with
    | some s => .string s
    | none => .undefined
  else .null

inductive KeyKind where
  | unresolved
  | numericIndex
  | staticString
  | dynamicExpr
  deriving DecidableEq

inductive KeyValue where
  | null
  | number (n : Double)
  | string (s : CodeUnits)

structure KeyResolution where
  kind : KeyKind
  value : KeyValue
  provenance : String

/-- The string of a key that is known. -/
def KeyResolution.text? (r : KeyResolution) : Option CodeUnits :=
  match r.kind, r.value with
  | .staticString, .string s => some s
  | _, _ => none

/-- `adapter.accessorOffset || 0`: what is falsy counts as zero. -/
def offsetOrZero : Option Double → Double
  | some .nan => LuaNumber.zero
  | some offset => offset
  | none => LuaNumber.zero

/-- Step 3 of `_resolveKey` for an argument with a known value. -/
def poolEntry (adapter : PoolAccessor) (argument : Double) : Option KeyResolution :=
  let rawIdx := LuaNumber.add argument (offsetOrZero adapter.accessorOffset)
  let entryIdx := LuaNumber.sub rawIdx LuaNumber.one
  if LuaNumber.le LuaNumber.zero entryIdx &&
      LuaNumber.lt entryIdx (LuaNumber.ofNat adapter.stringTable.length) then
    (element adapter.stringTable entryIdx).map fun s =>
      ⟨.staticString, .string (latin1Text s), s!"DECODED_STRING_POOL[{LuaNumber.text entryIdx}]"⟩
  else none

/-- A name that is there and not empty. -/
def isTruthyName : Option String → Bool
  | some name => name ≠ ""
  | none => false

def poolAccess (adapter : Option PoolAccessor) (indexNode : Expr Double) : Option KeyResolution :=
  match adapter, indexNode with
  | some adapter, .callExpression base [argument] _ =>
      if isTruthyName adapter.accessorName && base.name? = adapter.accessorName then
        match fold argument with
        | .numericLiteral value _ => poolEntry adapter value
        | _ => none
      else none
  | _, _ => none

omit [Host] in
/-- Step 2b: a local of the block with a known string. -/
def localBinding (localConstants : Option (InsertionMap String CodeUnits))
    (indexNode : Expr Double) : Option KeyResolution :=
  match localConstants, indexNode with
  | some constants, .identifier name => (constants.get name).map fun s =>
      ⟨.staticString, .string s, s!"LOCAL_BINDING[{name}]"⟩
  | _, _ => none

def resolveKey (indexNode : Option (Expr Double)) (adapter : Option PoolAccessor)
    (localConstants : Option (InsertionMap String CodeUnits)) : KeyResolution :=
  match indexNode with
  | none => ⟨.unresolved, .null, "NULL_INDEX"⟩
  | some (.numericLiteral value _) => ⟨.numericIndex, .number value, "AST_NUMERIC_LITERAL"⟩
  | some indexNode => match fold indexNode with
      | .numericLiteral value _ => ⟨.numericIndex, .number value, "CONSTANT_FOLDED_NUMBER"⟩
      | folded => match indexNode, folded with
          | .stringLiteral s, _ => ⟨.staticString, .string (latin1Text s), "AST_STRING_LITERAL"⟩
          | _, .stringLiteral s =>
              ⟨.staticString, .string (latin1Text s), "CONSTANT_FOLDED_STRING"⟩
          | _, _ => match localBinding localConstants indexNode with
              | some resolution => resolution
              | none => match poolAccess adapter indexNode with
                  | some resolution => resolution
                  | none => ⟨.dynamicExpr, .null, "DYNAMIC_AST_EXPRESSION"⟩

end Resolvers

section Agreement

/-- What the pool has at a 1-based index; an index outside it has nothing. -/
def poolAt (stringTable : List ByteString) : Double → Option ByteString
  | .finite q _ => if q.den = 1 ∧ 1 ≤ q.num then stringTable[(q.num-1).toNat]? else none
  | _ => none

/-- Whether the index is one of the pool's, which start at 1. -/
def InPool (stringTable : List ByteString) : Double → Prop
  | .finite q _ => q.den = 1 ∧ 1 ≤ q.num ∧ q.num ≤ stringTable.length
  | _ => False

theorem poolAt_eq_none_iff (stringTable : List ByteString) (index : Double) :
    poolAt stringTable index = none ↔ ¬ InPool stringTable index := by
  cases index with
  | nan => simp [poolAt, InPool]
  | infinity negative => simp [poolAt, InPool]
  | finite q h =>
    by_cases hint : q.den = 1 ∧ 1 ≤ q.num
    · simp only [poolAt, InPool, if_pos hint, List.getElem?_eq_none_iff]
      omega
    · simp only [poolAt, InPool, if_neg hint, true_iff]
      exact fun h => hint ⟨h.1, h.2.1⟩

variable [Host]

/-- The read of a place from zero on, below the length. -/
def guarded (stringTable : List ByteString) (idx0 : Double) : Option ByteString :=
  if LuaNumber.le LuaNumber.zero idx0 &&
      LuaNumber.lt idx0 (LuaNumber.ofNat stringTable.length) then element stringTable idx0
  else none

theorem guarded_finite (stringTable : List ByteString) (hlen : stringTable.length < 2^32) (q : ℚ)
    (h : IsDouble q) :
    guarded stringTable (.finite q h) =
      if 0 ≤ q ∧ q < stringTable.length then element stringTable (.finite q h) else none := by
  have hle : (LuaNumber.le LuaNumber.zero (.finite q h : Double)) = decide (0 ≤ q) := by
    rw [Double.zero_eq]
    show (decide (0 < q) || decide (0 = q)) = decide (0 ≤ q)
    rw [← Bool.decide_or, decide_eq_decide]
    exact le_iff_lt_or_eq.symm
  have hlt : (LuaNumber.lt (.finite q h : Double) (LuaNumber.ofNat stringTable.length)) =
      decide (q < stringTable.length) := by
    rw [Double.ofNat_eq (by omega)]
    rfl
  simp [guarded, hle, hlt]

theorem guarded_infinity (stringTable : List ByteString) (hlen : stringTable.length < 2^32)
    (negative : Bool) : guarded stringTable (.infinity negative) = none := by
  rw [guarded, Double.zero_eq, Double.ofNat_eq (by omega)]
  cases negative <;> rfl

theorem guarded_nan (stringTable : List ByteString) : guarded stringTable .nan = none := by
  rw [guarded, Double.zero_eq]
  rfl

omit [Host] in
theorem element_int (stringTable : List ByteString) (k : ℤ) (h : IsDouble (k : ℚ)) (hk : 0 ≤ k) :
    element stringTable (.finite k h) = stringTable[k.toNat]? := by
  simp [element, hk]

omit [Host] in
theorem element_fraction (stringTable : List ByteString) {q : ℚ} (h : IsDouble q)
    (hq : q.den ≠ 1) : element stringTable (.finite q h) = none := by
  simp [element, hq]

omit [Host] in
theorem poolAt_int (stringTable : List ByteString) (k : ℤ) (h : IsDouble (k : ℚ)) :
    poolAt stringTable (.finite k h) = if 1 ≤ k then stringTable[(k-1).toNat]? else none := by
  simp [poolAt]

omit [Host] in
theorem poolAt_fraction (stringTable : List ByteString) {q : ℚ} (h : IsDouble q)
    (hq : q.den ≠ 1) : poolAt stringTable (.finite q h) = none := by
  simp [poolAt, hq]

omit [Host] in
theorem eq_int_of_den {q : ℚ} (h : q.den = 1) : ∃ k : ℤ, q = k :=
  ⟨q.num, ((Rat.den_eq_one_iff q).mp h).symm⟩

/-- The place before an index of the pool is a place of the list. -/
theorem guarded_pred_inside (stringTable : List ByteString) (q : ℚ) (h : IsDouble q)
    (hlen : stringTable.length < 2^32) (hlo : 0 ≤ Double.round (q-1))
    (hhi : Double.round (q-1) < stringTable.length) :
    guarded stringTable (Double.ofRat (q-1)) = poolAt stringTable (.finite q h) := by
  have hlen' : (stringTable.length : ℚ) < 2^32 := by exact_mod_cast hlen
  have hround : Double.round (q-1) = q-1 := Double.round_pred h hlo (by linarith)
  have hsmall : |Double.round (q-1)| < 2^1024 := by
    rw [abs_of_nonneg hlo]
    exact (hhi.trans hlen').trans (pow_lt_pow_right₀ (by norm_num) (by norm_num))
  have hdouble : IsDouble (q-1) := hround ▸ Double.isDouble_round hsmall
  rw [hround] at hlo hhi
  rw [Double.ofRat_eq hdouble, guarded_finite stringTable hlen, if_pos ⟨hlo, hhi⟩]
  by_cases hint : q.den = 1
  · obtain ⟨k, rfl⟩ := eq_int_of_den hint
    have hk : 0 ≤ k-1 := by exact_mod_cast hlo
    have hcast : ((k-1 : ℤ) : ℚ) = (k : ℚ) - 1 := by push_cast; rfl
    rw [Double.finite_congr hdouble hcast.symm, element_int stringTable _ _ hk, poolAt_int,
      if_pos (by omega)]
  · have hpred : (q-1).den ≠ 1 := by
      intro hden
      obtain ⟨k, hk⟩ := eq_int_of_den hden
      have hq : q = ((k+1 : ℤ) : ℚ) := by push_cast; linarith
      exact hint (by rw [hq]; exact Rat.den_intCast _)
    rw [element_fraction stringTable _ hpred, poolAt_fraction stringTable _ hint]

/-- What is no place of the list comes of an index outside the pool. -/
theorem guarded_pred_outside (stringTable : List ByteString) (q : ℚ) (h : IsDouble q)
    (hlen : stringTable.length < 2^32)
    (hout : ¬ (0 ≤ Double.round (q-1) ∧ Double.round (q-1) < stringTable.length)) :
    guarded stringTable (Double.ofRat (q-1)) = none ∧
      poolAt stringTable (.finite q h) = none := by
  constructor
  · by_cases hsmall : |Double.round (q-1)| < 2^1024
    · rw [Double.ofRat, dif_pos hsmall, guarded_finite stringTable hlen, if_neg hout]
    · rw [Double.ofRat, dif_neg hsmall, guarded_infinity stringTable hlen]
  · by_cases hint : q.den = 1
    · obtain ⟨k, rfl⟩ := eq_int_of_den hint
      rw [poolAt_int]
      split
      next hk =>
        apply List.getElem?_eq_none
        by_contra hlt
        have hround : Double.round ((k : ℚ) - 1) = (k : ℚ) - 1 := by
          have hpred := Double.isDouble_int (n := k-1) (abs_le.mpr ⟨by omega, by omega⟩)
          push_cast at hpred
          exact Double.round_eq hpred
        have hlow : (0 : ℚ) ≤ ((k-1 : ℤ) : ℚ) := by exact_mod_cast (by omega : (0 : ℤ) ≤ k-1)
        have hhigh : ((k-1 : ℤ) : ℚ) < ((stringTable.length : ℤ) : ℚ) := by
          exact_mod_cast (by omega : k-1 < (stringTable.length : ℤ))
        push_cast at hlow hhigh
        exact hout (by rw [hround]; exact ⟨hlow, hhigh⟩)
      next => rfl
    · exact poolAt_fraction stringTable h hint

/-- Reading the place before an index is reading the pool at the index: subtracting one loses
nothing where the place is one of the pool. -/
theorem guarded_pred (stringTable : List ByteString) (hlen : stringTable.length < 2^32)
    (index : Double) :
    guarded stringTable (LuaNumber.sub index LuaNumber.one) = poolAt stringTable index := by
  cases index with
  | nan =>
    rw [Double.one_eq]
    exact guarded_nan stringTable
  | infinity negative =>
    rw [Double.one_eq]
    exact guarded_infinity stringTable hlen negative
  | finite q h =>
    rw [Double.sub_one_finite]
    by_cases hin : 0 ≤ Double.round (q-1) ∧ Double.round (q-1) < stringTable.length
    · exact guarded_pred_inside stringTable q h hlen hin.1 hin.2
    · obtain ⟨hleft, hright⟩ := guarded_pred_outside stringTable q h hlen hin
      rw [hleft, hright]

theorem text?_resolveLookup (adapter : PoolAccessor) (argOffset : Double) :
    (resolveLookup adapter argOffset).text? =
      (poolAt adapter.stringTable (LuaNumber.add argOffset
        (adapter.accessorOffset.getD LuaNumber.zero))).map latin1Text := by
  rw [← guarded_pred _ adapter.length_lt, guarded, resolveLookup]
  split
  · cases element adapter.stringTable _ <;> rfl
  · rfl

theorem text?_poolEntry (adapter : PoolAccessor) (argument : Double) :
    (poolEntry adapter argument).bind KeyResolution.text? =
      (poolAt adapter.stringTable (LuaNumber.add argument
        (offsetOrZero adapter.accessorOffset))).map latin1Text := by
  rw [← guarded_pred _ adapter.length_lt, guarded, poolEntry]
  split
  · cases element adapter.stringTable _ <;> rfl
  · rfl

/-- The key of a call of the accessor, whose argument folds to a number. -/
theorem text?_resolveKey (adapter : PoolAccessor) (name : String)
    (hname : adapter.accessorName = some name) (hne : name ≠ "") (argument : Expr Double)
    (value : Double) (raw : String) (hfold : fold argument = .numericLiteral value raw)
    (inParens : Bool) (localConstants : Option (InsertionMap String CodeUnits)) :
    (resolveKey (some (.callExpression (.identifier name) [argument] inParens)) (some adapter)
      localConstants).text? =
      (poolAt adapter.stringTable (LuaNumber.add value
        (offsetOrZero adapter.accessorOffset))).map latin1Text := by
  have haccess : poolAccess (some adapter)
      (.callExpression (.identifier name) [argument] inParens) = poolEntry adapter value := by
    simp [poolAccess, hname, isTruthyName, hne, Expr.name?, hfold]
  rw [← text?_poolEntry, ← haccess]
  cases localConstants <;>
    cases h : poolAccess (some adapter) (.callExpression (.identifier name) [argument] inParens) <;>
      simp [resolveKey, fold, localBinding, h, KeyResolution.text?]

/-- The two lookups of an argument find the same string, and none exactly for an index outside the
pool. -/
def LookupsAgree (adapter : PoolAccessor) (node argument : Expr Double)
    (localConstants : Option (InsertionMap String CodeUnits)) : Prop :=
  ∀ value raw, fold argument = .numericLiteral value raw →
    (resolveLookup adapter value).text? =
        (resolveKey (some node) (some adapter) localConstants).text? ∧
      ((resolveLookup adapter value).text? = none ↔
        ¬ InPool adapter.stringTable
          (LuaNumber.add value (adapter.accessorOffset.getD LuaNumber.zero)))

theorem text?_resolveLookup_eq_none (adapter : PoolAccessor) (value : Double) :
    (resolveLookup adapter value).text? = none ↔
      ¬ InPool adapter.stringTable
        (LuaNumber.add value (adapter.accessorOffset.getD LuaNumber.zero)) := by
  rw [text?_resolveLookup, Option.map_eq_none_iff, poolAt_eq_none_iff]

omit [Host] in
theorem poolAt_nan (stringTable : List ByteString) : poolAt stringTable .nan = none := rfl

theorem add_nan (value : Double) : LuaNumber.add value .nan = Double.nan := by
  cases value <;> rfl

theorem add_zero_eq (value : Double) : LuaNumber.add value LuaNumber.zero = value := by
  cases value with
  | finite q h => exact Double.add_zero_finite q h
  | infinity negative =>
    rw [Double.zero_eq]
    rfl
  | nan => rfl

/-- The pool is that of the program's loops, a permutation of what it was. The lookups of an
accessor's call agree unless the offset is no number and the argument itself is an index. -/
theorem rotated_pool_lookups_iff (entries : List ByteString) (ranges : List (ℤ × ℤ))
    (hranges : ∀ range ∈ ranges, InRange entries range) (adapter : PoolAccessor) (name : String)
    (hname : adapter.accessorName = some name) (hne : name ≠ "") (argument : Expr Double)
    (value : Double) (raw : String) (hfold : fold argument = .numericLiteral value raw)
    (inParens : Bool) (localConstants : Option (InsertionMap String CodeUnits)) :
    (tableOf (applyRotations entries ranges) = luaRotations (tableOf entries) ranges ∧
        (applyRotations entries ranges).Perm entries ∧
        LookupsAgree adapter (.callExpression (.identifier name) [argument] inParens) argument
          localConstants) ↔
      (adapter.accessorOffset = some .nan → ¬ InPool adapter.stringTable value) := by
  have hkey := text?_resolveKey adapter name hname hne argument value raw hfold inParens
    localConstants
  constructor
  · rintro ⟨-, -, hagree⟩ hnan
    obtain ⟨hsame, -⟩ := hagree value raw hfold
    rw [hkey, text?_resolveLookup, hnan, Option.getD_some, add_nan, poolAt_nan, offsetOrZero,
      add_zero_eq] at hsame
    exact (poolAt_eq_none_iff _ _).mp (Option.map_eq_none_iff.mp hsame.symm)
  · intro hwhen
    refine ⟨tableOf_applyRotations entries ranges hranges, applyRotations_perm entries ranges, ?_⟩
    intro value' raw' hfold'
    obtain ⟨rfl, -⟩ : value = value' ∧ raw = raw' := by simpa using hfold.symm.trans hfold'
    refine ⟨?_, text?_resolveLookup_eq_none adapter value⟩
    rw [hkey, text?_resolveLookup]
    cases hoffset : adapter.accessorOffset with
    | none => rfl
    | some offset =>
      cases offset with
      | finite q h => rfl
      | infinity negative => rfl
      | nan =>
        rw [Option.getD_some, add_nan, poolAt_nan, offsetOrZero, add_zero_eq,
          (poolAt_eq_none_iff _ _).mpr (hwhen hoffset)]

end Agreement

section Offsets

/-- A host that spells the integers; there are no powers in what follows. -/
@[reducible] def integerHost : Host where
  pow _ _ := .nan
  text
    | .finite q _ => toString q.num
    | .infinity negative => if negative then "-Infinity" else "Infinity"
    | .nan => "NaN"

theorem isDouble_one : IsDouble ((1 : ℤ) : ℚ) := Double.isDouble_int (by norm_num)

/-- The pool of the string `print`, with the accessor `J`. -/
def printPool (accessorOffset : Double) : PoolAccessor where
  accessorName := some "J"
  accessorOffset := some accessorOffset
  stringTable := [[112, 114, 105, 110, 116]]
  length_lt := by decide

def oneLiteral : Expr Double := .numericLiteral (.finite (1 : ℤ) isDouble_one) "1"

/-- After `local function J(W) return A[W+0x1p4] end`, whose numeral JavaScript reads as `NaN`, one
lookup of `J(1)` finds nothing and the other one finds the first string. -/
theorem lookups_differ_at_nan :
    (@resolveLookup integerHost (printPool .nan) (.finite (1 : ℤ) isDouble_one)).text? = none ∧
      (@resolveKey integerHost (some (.callExpression (.identifier "J") [oneLiteral] false))
        (some (printPool .nan)) none).text? = some [112, 114, 105, 110, 116] := by
  let host := integerHost
  constructor
  · rw [text?_resolveLookup]
    rfl
  · rw [text?_resolveKey (printPool .nan) "J" rfl (by decide) oneLiteral
      (.finite (1 : ℤ) isDouble_one) "1" rfl]
    rw [show offsetOrZero (printPool .nan).accessorOffset = LuaNumber.zero from rfl, add_zero_eq,
      poolAt_int]
    rfl

def threeStrings : List ByteString := [[97], [98], [99]]

/-- First the whole pool is turned round, then its first two strings. -/
def twoRotations : List (ℤ × ℤ) := [(1, 3), (1, 2)]

theorem rotated_threeStrings :
    applyRotations threeStrings twoRotations = [[98], [99], [97]] := by
  have hwhole : reverseEntries threeStrings 0 2 = [[99], [98], [97]] := by
    rw [reverseEntries, if_pos (by decide), reverseEntries, if_neg (by decide)]
    rfl
  have hfirst : reverseEntries ([[99], [98], [97]] : List ByteString) 0 1 =
      [[98], [99], [97]] := by
    rw [reverseEntries, if_pos (by decide), reverseEntries, if_neg (by decide)]
    rfl
  calc applyRotations threeStrings twoRotations
      = reverseEntries (reverseEntries threeStrings 0 2) 0 1 := rfl
    _ = [[98], [99], [97]] := by rw [hwhole, hfirst]

/-- The accessor `J` adds one to its argument. -/
def rotatedPool : PoolAccessor where
  accessorName := some "J"
  accessorOffset := some (.finite (1 : ℤ) isDouble_one)
  stringTable := applyRotations threeStrings twoRotations
  length_lt := by rw [rotated_threeStrings]; decide

theorem isDouble_two : IsDouble ((2 : ℤ) : ℚ) := Double.isDouble_int (by norm_num)

theorem one_add_one [Host] :
    LuaNumber.add (Double.finite (1 : ℤ) isDouble_one) (.finite (1 : ℤ) isDouble_one) =
      .finite (2 : ℤ) isDouble_two := by
  have hsum : ((1 : ℤ) : ℚ) + ((1 : ℤ) : ℚ) = ((2 : ℤ) : ℚ) := by norm_num
  show Double.ofRat (((1 : ℤ) : ℚ) + ((1 : ℤ) : ℚ)) = _
  rw [hsum, Double.ofRat_eq isDouble_two]

/-- Both lookups of `J(1)` find the string that the rotations brought to the second place. -/
theorem rotated_pool_lookups_three :
    tableOf (applyRotations threeStrings twoRotations) =
        luaRotations (tableOf threeStrings) twoRotations ∧
      (applyRotations threeStrings twoRotations).Perm threeStrings ∧
      (@resolveLookup integerHost rotatedPool (.finite (1 : ℤ) isDouble_one)).text? = some [99] ∧
      (@resolveKey integerHost (some (.callExpression (.identifier "J") [oneLiteral] false))
        (some rotatedPool) none).text? = some [99] := by
  let host := integerHost
  obtain ⟨htable, hperm, hagree⟩ := (rotated_pool_lookups_iff threeStrings twoRotations (by decide)
    rotatedPool "J" rfl (by decide) oneLiteral (.finite (1 : ℤ) isDouble_one) "1" rfl false
    none).mpr (fun h => by cases h)
  have hfound : (resolveLookup rotatedPool (.finite (1 : ℤ) isDouble_one)).text? = some [99] := by
    rw [text?_resolveLookup]
    rw [show rotatedPool.accessorOffset.getD LuaNumber.zero = .finite (1 : ℤ) isDouble_one from rfl,
      one_add_one, poolAt_int, show rotatedPool.stringTable = [[98], [99], [97]] from
        rotated_threeStrings]
    rfl
  exact ⟨htable, hperm, hfound, (hagree _ "1" rfl).1.symm.trans hfound⟩

end Offsets

end LuaRecovery.Adapters
