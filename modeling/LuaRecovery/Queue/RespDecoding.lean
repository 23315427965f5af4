import LuaRecovery.Queue.Resp
import Mathlib.Data.List.TakeWhile

/-!
# What the client reads off the stream

A value is decoded as it was sent exactly when none of its bulk strings leaves
ASCII, each of its integers is a double and no error stands within an array.
-/

set_option autoImplicit false

namespace LuaRecovery.Queue
open LuaRecovery.Lib LuaRecovery.Lua

section Lines

theorem crlfIndex_append {l : CodeUnits} (h : 13 ∉ l) (rest : CodeUnits) :
    crlfIndex (l ++ 13 :: 10 :: rest) = some l.length := by
  induction l with
  | nil => simp [crlfIndex]
  | cons u us ih =>
    simp only [List.mem_cons, not_or] at h
    have hu : u ≠ 13 := fun heq => h.1 heq.symm
    simp [crlfIndex, hu, ih h.2]

theorem crlfIndex_none {l : CodeUnits} (h : 13 ∉ l) : crlfIndex l = none := by
  induction l with
  | nil => rfl
  | cons u us ih =>
    simp only [List.mem_cons, not_or] at h
    have hu : u ≠ 13 := fun heq => h.1 heq.symm
    simp [crlfIndex, hu, ih h.2]

theorem crlfIndex_half {l : CodeUnits} (h : 13 ∉ l) : crlfIndex (l ++ [13]) = none := by
  induction l with
  | nil => simp [crlfIndex]
  | cons u us ih =>
    simp only [List.mem_cons, not_or] at h
    have hu : u ≠ 13 := fun heq => h.1 heq.symm
    simp [crlfIndex, hu, ih h.2]

theorem utf16_crlf : utf16 crlf = [13, 10] := by decide

theorem utf16_unbroken {text : List Char} (h : ∀ c ∈ text, c ≠ '\r') : 13 ∉ utf16 text := by
  intro hmem
  obtain ⟨c, hc, hu⟩ := List.mem_flatMap.mp hmem
  have heq := mem_charUnits hu (by decide)
  exact h c hc (Char.ext (UInt32.toNat_inj.mp heq.symm))

theorem isDigit_toDigits {n : ℕ} {c : Char} (h : c ∈ Nat.toDigits 10 n) :
    48 ≤ c.toNat ∧ c.toNat ≤ 57 := by
  have hd := Nat.isDigit_of_mem_toDigits (by decide) (by decide) h
  simp only [Char.isDigit, Bool.and_eq_true, decide_eq_true_eq, UInt32.le_iff_toNat_le] at hd
  exact hd

theorem mem_decimal {n : ℤ} {c : Char} (h : c ∈ decimal n) :
    c = '-' ∨ 48 ≤ c.toNat ∧ c.toNat ≤ 57 := by
  cases n with
  | ofNat n => exact .inr (isDigit_toDigits h)
  | negSucc n =>
    rcases List.mem_cons.mp h with rfl | h
    · exact .inl rfl
    · exact .inr (isDigit_toDigits h)

theorem decimal_unbroken (n : ℤ) : ∀ c ∈ decimal n, c ≠ '\r' := by
  intro c hc heq
  rcases mem_decimal hc with rfl | hdigit
  · cases heq
  · rw [heq] at hdigit
    revert hdigit
    decide

theorem parseDigits_toDigits (n : ℕ) : parseDigits (utf16 (Nat.toDigits 10 n)) = some n := by
  have hascii : IsAscii (Nat.toDigits 10 n) := by
    intro c hc
    have h := isDigit_toDigits hc
    omega
  have hall : ∀ u ∈ (Nat.toDigits 10 n).map Char.toNat, isDigit u = true := by
    intro u hu
    obtain ⟨c, hc, rfl⟩ := List.mem_map.mp hu
    have h := isDigit_toDigits hc
    simp [isDigit, h]
  have hne : Nat.toDigits 10 n ≠ [] := Nat.toDigits_ne_nil
  have hfold := Nat.ofDigitChars_ten_toDigits (n := n)
  rw [Nat.ofDigitChars_eq_foldl] at hfold
  rw [utf16_ascii hascii, parseDigits, List.takeWhile_eq_self_iff.mpr hall]
  cases hds : Nat.toDigits 10 n with
  | nil => exact absurd hds hne
  | cons d ds =>
    rw [hds] at hfold
    rw [← hfold]
    show some (((d::ds).map Char.toNat).foldl _ 0) = _
    rw [List.foldl_map]
    rfl

theorem parseInt_of_digits {d : ℕ} {ds : CodeUnits} (h : 48 ≤ d ∧ d ≤ 57) :
    parseInt (d::ds) = (parseDigits (d::ds)).map (fun n : ℕ => (n : ℤ)) := by
  have hspace : isSpace d = false := by
    simp [isSpace]
    omega
  unfold parseInt
  rw [List.dropWhile_cons_of_neg (by simp [hspace])]
  split
  next heq =>
    simp only [List.cons.injEq] at heq
    omega
  next heq =>
    simp only [List.cons.injEq] at heq
    omega
  next => rfl

/-- A number is read back off the line it was written on. -/
theorem parseInt_decimal (n : ℤ) : parseInt (utf16 (decimal n)) = some n := by
  have hdigits : ∀ k : ℕ, ∃ d ds, utf16 (Nat.toDigits 10 k) = d::ds ∧ 48 ≤ d ∧ d ≤ 57 := by
    intro k
    cases hds : Nat.toDigits 10 k with
    | nil => exact absurd hds Nat.toDigits_ne_nil
    | cons c cs =>
      have hc := isDigit_toDigits (n := k) (c := c) (by simp [hds])
      exact ⟨c.toNat, utf16 cs, by simp [charUnits_ascii (c := c) (by omega)], hc⟩
  cases n with
  | ofNat k =>
    obtain ⟨d, ds, hd, hrange⟩ := hdigits k
    have hparse := parseDigits_toDigits k
    rw [hd] at hparse
    rw [decimal, hd, parseInt_of_digits hrange, hparse]
    rfl
  | negSucc k =>
    have hminus : utf16 ('-' :: Nat.toDigits 10 (k+1)) = 45 :: utf16 (Nat.toDigits 10 (k+1)) := rfl
    rw [decimal, hminus, parseInt, List.dropWhile_cons_of_neg (by decide)]
    simp [parseDigits_toDigits, Int.negSucc_eq]

end Lines

section Meaning

mutual

/-- The JavaScript value that stands for a value of the protocol; an error within an array has
none among those that the parser builds. -/
def Denotes : RespValue → JsValue → Prop
  | .simple line, x => x = .text (utf16 line.text)
  | .error _, _ => False
  | .integer n, x => ∃ q h, x = .number (.finite q h) ∧ q = n
  | .bulk text, x => x = .text (utf16 text)
  | .nilBulk, x => x = .null
  | .array items, x => ∃ xs, x = .array xs ∧ DenotesAll items xs
  | .nilArray, x => x = .null

def DenotesAll : List RespValue → List JsValue → Prop
  | [], xs => xs = []
  | v::vs, xs => ∃ y ys, xs = y::ys ∧ Denotes v y ∧ DenotesAll vs ys

end

mutual

/-- ASCII bulk strings, integers that are doubles, and no errors. -/
def Plain : RespValue → Prop
  | .simple _ => True
  | .error _ => False
  | .integer n => IsDouble n
  | .bulk text => IsAscii text
  | .nilBulk => True
  | .array items => PlainAll items
  | .nilArray => True

def PlainAll : List RespValue → Prop
  | [] => True
  | v::vs => Plain v ∧ PlainAll vs

end

/-- The reply to a command that the server answered with `v`. -/
def Answers (v : RespValue) (x : JsValue) (isError : Bool) : Prop :=
  match v with
  | .error line => isError = true ∧ x = .text (utf16 line.text)
  | v => isError = false ∧ Denotes v x

/-- The parser returns the value and consumes its encoding, whatever follows, and waits for the
rest of a part of it. -/
def Decodes (v : RespValue) : Prop :=
  (∀ rest, ∃ x isError, Answers v x isError ∧
    parse (utf16 v.wire ++ rest) = .parsed x isError (some (utf16 v.wire).length)) ∧
  (∀ p, p <+: utf16 v.wire → p ≠ utf16 v.wire → parse p = .incomplete)

def Decodable (v : RespValue) : Prop := v.isError = true ∨ Plain v

end Meaning

section Headers

/-- The code units of a value: its type, the rest of the first line and what follows. -/
def lineUnits (v : RespValue) : CodeUnits := utf16 v.header

theorem utf16_wire (v : RespValue) :
    utf16 v.wire = v.typeChar.toNat :: (lineUnits v ++ 13 :: 10 :: utf16 v.body) := by
  have htype : charUnits v.typeChar = [v.typeChar.toNat] := by cases v <;> rfl
  simp [RespValue.wire, htype, utf16_crlf, lineUnits]

theorem utf16_wires_cons (v : RespValue) (vs : List RespValue) :
    utf16 (RespValue.wires (v::vs)) = utf16 v.wire ++ utf16 (RespValue.wires vs) := by
  simp [RespValue.wires, RespValue.wire]

theorem lineUnits_unbroken (v : RespValue) : 13 ∉ lineUnits v := by
  apply utf16_unbroken
  cases v with
  | simple line => exact fun c hc => (line.unbroken c hc).1
  | error line => exact fun c hc => (line.unbroken c hc).1
  | integer n => exact decimal_unbroken n
  | bulk text => exact decimal_unbroken (utf8Length text)
  | nilBulk => exact decimal_unbroken (-1)
  | array items => exact decimal_unbroken items.length
  | nilArray => exact decimal_unbroken (-1)

theorem typeChar_ne (v : RespValue) : v.typeChar.toNat ≠ 13 := by
  cases v <;> exact Nat.ne_of_beq_eq_false rfl

variable {t : ℕ} {h : CodeUnits} (ht : t ≠ 13) (hh : 13 ∉ h)
include ht hh

/-- A buffer with a whole first line is taken by its type. -/
theorem parseResp_line (fuel : ℕ) (q : CodeUnits) :
    parseResp (fuel+1) (t :: (h ++ 13 :: 10 :: q)) =
      parseTyped (parseResp fuel) (t :: (h ++ 13 :: 10 :: q)) t h (h.length+3) := by
  have hindex : crlfIndex (t :: (h ++ 13 :: 10 :: q)) = some (h.length+1) := by
    have hnot : 13 ∉ t::h := by
      simp only [List.mem_cons, not_or]
      exact ⟨fun heq => ht heq.symm, hh⟩
    exact crlfIndex_append hnot q
  have hlen : ¬ (t :: (h ++ 13 :: 10 :: q)).length < 3 := by
    simp only [List.length_cons, List.length_append]
    omega
  have hline : ((t :: (h ++ 13 :: 10 :: q)).take (h.length+1)).drop 1 = h := by simp
  have hstart : ((h.length+1 : ℕ) : ℤ)+2 = h.length+3 := by omega
  rw [parseResp, if_neg hlen, hindex]
  simp only [hline, hstart, List.headD_cons]

/-- Without its whole first line a buffer is incomplete. -/
theorem parseResp_short (fuel : ℕ) {p q : CodeUnits} (hp : p <+: t :: (h ++ 13 :: 10 :: q))
    (hlen : p.length < h.length+3) : parseResp (fuel+1) p = .incomplete := by
  have hnot : 13 ∉ t::h := by
    simp only [List.mem_cons, not_or]
    exact ⟨fun heq => ht heq.symm, hh⟩
  have hindex : crlfIndex p = none := by
    have htake := List.prefix_iff_eq_take.mp hp
    by_cases hfull : p.length ≤ h.length+1
    · have hsub : p = (t::h).take p.length := by
        rw [htake]
        have heq : t :: (h ++ 13 :: 10 :: q) = (t::h) ++ 13 :: 10 :: q := rfl
        rw [heq, List.take_append_of_le_length (by simpa using by omega)]
        simp
      rw [hsub]
      exact crlfIndex_none (fun hmem => hnot (List.mem_of_mem_take hmem))
    · have hlast : p.length = (t::h).length+1 := by
        simp only [List.length_cons]
        omega
      have heq : p = (t::h) ++ [13] := by
        rw [htake, hlast]
        have hsplit : t :: (h ++ 13 :: 10 :: q) = ((t::h) ++ [13]) ++ 10 :: q := by simp
        rw [hsplit]
        exact List.take_left' (by simp)
      rw [heq]
      exact crlfIndex_half hnot
  by_cases h3 : p.length < 3
  · rw [parseResp, if_pos h3]
  · rw [parseResp, if_neg h3, hindex]

end Headers

section Slices

theorem relativeIndex_nat {length i : ℕ} (h : i ≤ length) :
    relativeIndex length (some (i : ℤ)) = i := by
  have hneg : ¬ (i : ℤ) < 0 := by omega
  simp [relativeIndex, hneg, h]

theorem sliceFrom_nat {s : CodeUnits} {k : ℕ} (h : k ≤ s.length) :
    sliceFrom s (some (k : ℤ)) = s.drop k := by
  rw [sliceFrom, relativeIndex_nat h]

theorem slice_nat {s : CodeUnits} {i n : ℕ} (h : i+n ≤ s.length) :
    slice s (some (i : ℤ)) (some ((i+n : ℕ) : ℤ)) = (s.drop i).take n := by
  rw [slice, relativeIndex_nat (by omega), relativeIndex_nat h, List.drop_take,
    Nat.add_sub_cancel_left]

end Slices

section Typed
variable (parse : CodeUnits → Attempt) (buf line : CodeUnits) (start : ℤ)

theorem parseTyped_nil {t : ℕ} (ht : t = '$'.toNat ∨ t = '*'.toNat)
    (hline : parseInt line = some (-1)) :
    parseTyped parse buf t line start = .parsed .null false (some start) := by
  rcases ht with rfl | rfl <;> simp [parseTyped, hline]

theorem parseTyped_bulk {len : ℕ} (hline : parseInt line = some (len : ℤ)) :
    parseTyped parse buf '$'.toNat line start =
      if (buf.length : ℤ) < start+len+2 then .incomplete
      else .parsed (.text (slice buf (some start) (some (start+len)))) false
        (some (start+len+2)) := by
  have hne : ¬ (len : ℤ) = -1 := by omega
  simp [parseTyped, hline, hne]

theorem parseTyped_array {count : ℕ} (hline : parseInt line = some (count : ℤ)) :
    parseTyped parse buf '*'.toNat line start = parseItems parse buf [] count (some start) := by
  have hne : ¬ (count : ℤ) = -1 := by omega
  simp [parseTyped, hline, hne]

theorem parseInt_header_bulk (text : List Char) :
    parseInt (lineUnits (.bulk text)) = some (utf8Length text : ℤ) :=
  parseInt_decimal (utf8Length text)

theorem parseInt_header_array (items : List RespValue) :
    parseInt (lineUnits (.array items)) = some (items.length : ℤ) :=
  parseInt_decimal items.length

theorem parseInt_header_nil {v : RespValue} (h : v.header = decimal (-1)) :
    parseInt (lineUnits v) = some (-1) := by
  rw [lineUnits, h]
  exact parseInt_decimal (-1)

end Typed

section Whole

theorem parseResp_wire_line (v : RespValue) (fuel : ℕ) (rest : CodeUnits) :
    parseResp (fuel+1) (utf16 v.wire ++ rest) =
      parseTyped (parseResp fuel) (utf16 v.wire ++ rest) v.typeChar.toNat (lineUnits v)
        ((lineUnits v).length+3) := by
  have hsplit : utf16 v.wire ++ rest =
      v.typeChar.toNat :: (lineUnits v ++ 13 :: 10 :: (utf16 v.body ++ rest)) := by
    simp [utf16_wire]
  rw [hsplit]
  exact parseResp_line (typeChar_ne v) (lineUnits_unbroken v) fuel _

theorem length_wire (v : RespValue) :
    (utf16 v.wire).length = (lineUnits v).length+3+(utf16 v.body).length := by
  rw [utf16_wire]
  simp only [List.length_cons, List.length_append]
  omega

theorem drop_wire (v : RespValue) (rest : CodeUnits) :
    (utf16 v.wire ++ rest).drop ((lineUnits v).length+3) = utf16 v.body ++ rest := by
  have hsplit : utf16 v.wire ++ rest =
      (v.typeChar.toNat :: (lineUnits v ++ [13, 10])) ++ (utf16 v.body ++ rest) := by
    simp [utf16_wire]
  rw [hsplit]
  exact List.drop_left' (by simp)

/-- A bulk string is read by the number of code units that its length in bytes names. -/
theorem parseResp_bulk (text : List Char) (fuel : ℕ) (rest : CodeUnits) :
    parseResp (fuel+1) (utf16 (RespValue.bulk text).wire ++ rest) =
      if (utf16 text).length+rest.length < utf8Length text then .incomplete
      else .parsed (.text ((utf16 text ++ ([13, 10] ++ rest)).take (utf8Length text))) false
        (some ((lineUnits (.bulk text)).length+3+utf8Length text+2)) := by
  have hbody : utf16 (RespValue.bulk text).body = utf16 text ++ [13, 10] := by
    simp [RespValue.body, utf16_crlf]
  have hwire := length_wire (.bulk text)
  have hdrop := drop_wire (.bulk text) rest
  rw [hbody, List.length_append] at hwire
  rw [hbody, List.append_assoc] at hdrop
  rw [parseResp_wire_line]
  show parseTyped _ _ '$'.toNat _ _ = _
  rw [parseTyped_bulk _ _ _ _ (parseInt_header_bulk text)]
  have hlen : (utf16 (RespValue.bulk text).wire ++ rest).length =
      (lineUnits (.bulk text)).length+3+((utf16 text).length+2)+rest.length := by
    rw [List.length_append, hwire]
    rfl
  by_cases hshort : (utf16 text).length+rest.length < utf8Length text
  · rw [if_pos hshort, if_pos (by omega)]
  · rw [if_neg hshort, if_neg (by omega)]
    have hslice := slice_nat (s := utf16 (RespValue.bulk text).wire ++ rest)
      (i := (lineUnits (.bulk text)).length+3) (n := utf8Length text) (by omega)
    rw [hdrop] at hslice
    push_cast at hslice
    rw [hslice]

theorem length_wire_line {v : RespValue} (h : v.body = []) :
    ((utf16 v.wire).length : ℤ) = (lineUnits v).length+3 := by
  rw [length_wire, h]
  simp

/-- Reading one item moves the offset behind it. -/
theorem parseItems_cons (parse : CodeUnits → Attempt) {buf : CodeUnits} {k len : ℕ}
    {value : JsValue} {isError : Bool} (hk : k ≤ buf.length)
    (h : parse (buf.drop k) = .parsed value isError (some (len : ℤ))) (items : List JsValue)
    (count : ℕ) :
    parseItems parse buf items (count+1) (some (k : ℤ)) =
      parseItems parse buf (items ++ [value]) count (some ((k+len : ℕ) : ℤ)) := by
  rw [parseItems, sliceFrom_nat hk, h]
  rfl

mutual

/-- A plain value is read as it was sent, whatever follows it. -/
theorem parseResp_wire : ∀ v : RespValue, Plain v → ∀ (fuel : ℕ) (rest : CodeUnits),
    (utf16 v.wire ++ rest).length < fuel → ∃ x, Denotes v x ∧
      parseResp fuel (utf16 v.wire ++ rest) = .parsed x false (some ((utf16 v.wire).length : ℤ))
  | _, _, 0, _, hfuel => absurd hfuel (Nat.not_lt_zero _)
  | .simple line, _, fuel+1, rest, _ => by
      refine ⟨.text (utf16 line.text), rfl, ?_⟩
      rw [parseResp_wire_line, length_wire_line rfl]
      rfl
  | .integer n, h, fuel+1, rest, _ => by
      refine ⟨.number (.finite n h), ⟨n, h, rfl, rfl⟩, ?_⟩
      have hnumber : jsNumber (parseInt (lineUnits (.integer n))) = .finite n h := by
        have hline : parseInt (lineUnits (.integer n)) = some n := parseInt_decimal n
        rw [hline]
        exact Double.ofRat_eq h
      rw [parseResp_wire_line, length_wire_line rfl]
      show Attempt.parsed (.number (jsNumber (parseInt (lineUnits (.integer n))))) _ _ = _
      rw [hnumber]
  | .bulk text, h, fuel+1, rest, _ => by
      have hlen := (length_utf16_eq_iff text).mpr h
      have hwire := length_wire (.bulk text)
      refine ⟨.text (utf16 text), rfl, ?_⟩
      rw [parseResp_bulk, if_neg (by omega), ← hlen, List.take_left' rfl, hwire]
      simp only [RespValue.body, utf16_append, utf16_crlf, List.length_append, List.length_cons,
        List.length_nil]
      congr 2
  | .nilBulk, _, fuel+1, rest, _ => by
      refine ⟨.null, rfl, ?_⟩
      rw [parseResp_wire_line, length_wire_line rfl]
      exact parseTyped_nil _ _ _ _ (.inl rfl) (parseInt_header_nil rfl)
  | .array items, h, fuel+1, rest, hfuel => by
      have hwire := length_wire (.array items)
      have hlen : (utf16 (RespValue.array items).wire ++ rest).length =
          (lineUnits (.array items)).length+3+(utf16 (RespValue.wires items)).length+
            rest.length := by
        rw [List.length_append, hwire]
        rfl
      have hdrop := drop_wire (.array items) rest
      obtain ⟨xs, hxs, hparse⟩ := parseItems_wires items h fuel
        (utf16 (RespValue.array items).wire ++ rest) ((lineUnits (.array items)).length+3) rest []
        hdrop (by omega) (by rw [List.length_drop]; omega)
      refine ⟨.array xs, ⟨xs, rfl, hxs⟩, ?_⟩
      rw [parseResp_wire_line]
      show parseTyped _ _ '*'.toNat _ _ = _
      rw [parseTyped_array _ _ _ _ (parseInt_header_array items), hwire]
      exact hparse
  | .nilArray, _, fuel+1, rest, _ => by
      refine ⟨.null, rfl, ?_⟩
      rw [parseResp_wire_line, length_wire_line rfl]
      exact parseTyped_nil _ _ _ _ (.inr rfl) (parseInt_header_nil rfl)

theorem parseItems_wires : ∀ vs : List RespValue, PlainAll vs → ∀ (fuel : ℕ) (buf : CodeUnits)
    (k : ℕ) (rest : CodeUnits) (items : List JsValue),
    buf.drop k = utf16 (RespValue.wires vs) ++ rest → k ≤ buf.length →
    (buf.drop k).length < fuel → ∃ xs, DenotesAll vs xs ∧
      parseItems (parseResp fuel) buf items vs.length (some (k : ℤ)) =
        .parsed (.array (items ++ xs)) false
          (some ((k+(utf16 (RespValue.wires vs)).length : ℕ) : ℤ))
  | [], _, fuel, buf, k, rest, items, _, _, _ => by
      refine ⟨[], rfl, ?_⟩
      simp [parseItems, RespValue.wires]
  | v::vs, h, fuel, buf, k, rest, items, hdrop, hk, hfuel => by
      rw [utf16_wires_cons, List.append_assoc] at hdrop
      have hfuel' := hfuel
      rw [hdrop] at hfuel'
      obtain ⟨x, hx, hparse⟩ := parseResp_wire v h.1 fuel _ hfuel'
      rw [← hdrop] at hparse
      have hlen : (buf.drop k).length = (utf16 v.wire).length +
          (utf16 (RespValue.wires vs) ++ rest).length := by
        rw [hdrop, List.length_append]
      rw [List.length_drop] at hlen hfuel
      have hnext : buf.drop (k+(utf16 v.wire).length) = utf16 (RespValue.wires vs) ++ rest := by
        rw [← List.drop_drop, hdrop, List.drop_left' rfl]
      obtain ⟨xs, hxs, hrest⟩ := parseItems_wires vs h.2 fuel buf _ rest (items ++ [x]) hnext
        (by omega) (by rw [List.length_drop]; omega)
      refine ⟨x::xs, ⟨x, xs, rfl, hx, hxs⟩, ?_⟩
      rw [List.length_cons, parseItems_cons _ hk hparse, hrest, utf16_wires_cons,
        List.length_append, List.append_assoc, List.singleton_append, Nat.add_assoc]

end

end Whole

section Parts

theorem length_lt_of_proper {p w : CodeUnits} (hp : p <+: w) (hne : p ≠ w) :
    p.length < w.length :=
  Nat.lt_of_le_of_ne hp.length_le (fun h => hne (hp.eq_of_length h))

/-- A part with the whole first line is that line and a part of the body. -/
theorem part_of_wire {v : RespValue} {p : CodeUnits} (hp : p <+: utf16 v.wire)
    (hlen : (lineUnits v).length+3 ≤ p.length) :
    ∃ q, p = v.typeChar.toNat :: (lineUnits v ++ 13 :: 10 :: q) ∧ q <+: utf16 v.body := by
  have hsplit : utf16 v.wire =
      (v.typeChar.toNat :: (lineUnits v ++ [13, 10])) ++ utf16 v.body := by
    simp [utf16_wire]
  have hshort : (v.typeChar.toNat :: (lineUnits v ++ [13, 10])).length ≤ p.length := by
    rw [List.length_cons, List.length_append]
    exact hlen
  have hline : v.typeChar.toNat :: (lineUnits v ++ [13, 10]) <+: p :=
    List.prefix_of_prefix_length_le (hsplit ▸ List.prefix_append _ _) hp hshort
  obtain ⟨q, rfl⟩ := hline
  refine ⟨q, by simp, ?_⟩
  rw [hsplit] at hp
  exact (List.prefix_append_right_inj _).mp hp

theorem parseResp_part_short {v : RespValue} (fuel : ℕ) {p : CodeUnits} (hp : p <+: utf16 v.wire)
    (hlen : p.length < (lineUnits v).length+3) : parseResp (fuel+1) p = .incomplete := by
  rw [utf16_wire] at hp
  exact parseResp_short (typeChar_ne v) (lineUnits_unbroken v) fuel hp hlen

/-- A value that is all on its first line. -/
theorem parseResp_part_line {v : RespValue} (hbody : v.body = []) (fuel : ℕ) {p : CodeUnits}
    (hp : p <+: utf16 v.wire) (hne : p ≠ utf16 v.wire) :
    parseResp (fuel+1) p = .incomplete := by
  apply parseResp_part_short fuel hp
  have hlen := length_lt_of_proper hp hne
  rw [length_wire, hbody] at hlen
  exact hlen

mutual

/-- A proper part of a plain value is waited for. -/
theorem parseResp_part : ∀ v : RespValue, Plain v → ∀ (fuel : ℕ) (p : CodeUnits),
    p.length < fuel → p <+: utf16 v.wire → p ≠ utf16 v.wire → parseResp fuel p = .incomplete
  | _, _, 0, _, hfuel, _, _ => absurd hfuel (Nat.not_lt_zero _)
  | .simple _, _, fuel+1, _, _, hp, hne => parseResp_part_line rfl fuel hp hne
  | .integer _, _, fuel+1, _, _, hp, hne => parseResp_part_line rfl fuel hp hne
  | .nilBulk, _, fuel+1, _, _, hp, hne => parseResp_part_line rfl fuel hp hne
  | .nilArray, _, fuel+1, _, _, hp, hne => parseResp_part_line rfl fuel hp hne
  | .bulk text, h, fuel+1, p, _, hp, hne => by
      by_cases hlen : p.length < (lineUnits (.bulk text)).length+3
      · exact parseResp_part_short fuel hp hlen
      · obtain ⟨q, rfl, hq⟩ := part_of_wire hp (by omega)
        have hunits := (length_utf16_eq_iff text).mpr h
        have hshort := length_lt_of_proper hp hne
        rw [length_wire, RespValue.body, utf16_append, utf16_crlf, List.length_append] at hshort
        rw [parseResp_line (typeChar_ne _) (lineUnits_unbroken _)]
        show parseTyped _ _ '$'.toNat _ _ = _
        rw [parseTyped_bulk _ _ _ _ (parseInt_header_bulk text), if_pos]
        simp only [List.length_cons, List.length_nil] at hshort ⊢
        omega
  | .array items, h, fuel+1, p, hfuel, hp, hne => by
      by_cases hlen : p.length < (lineUnits (.array items)).length+3
      · exact parseResp_part_short fuel hp hlen
      · obtain ⟨q, rfl, hq⟩ := part_of_wire hp (by omega)
        have hdrop : ((RespValue.array items).typeChar.toNat ::
            (lineUnits (.array items) ++ 13 :: 10 :: q)).drop
              ((lineUnits (.array items)).length+3) = q := by
          have hsplit : (RespValue.array items).typeChar.toNat ::
              (lineUnits (.array items) ++ 13 :: 10 :: q) =
                ((RespValue.array items).typeChar.toNat ::
                  (lineUnits (.array items) ++ [13, 10])) ++ q := by simp
          rw [hsplit]
          exact List.drop_left' (by simp)
        have hproper : q ≠ utf16 (RespValue.wires items) := by
          intro heq
          apply hne
          rw [utf16_wire, heq]
          rfl
        rw [parseResp_line (typeChar_ne _) (lineUnits_unbroken _)]
        show parseTyped _ _ '*'.toNat _ _ = _
        rw [parseTyped_array _ _ _ _ (parseInt_header_array items)]
        simp only [List.length_cons, List.length_append] at hfuel
        exact parseItems_part items h fuel _ ((lineUnits (.array items)).length+3) []
          (by rw [hdrop]; exact hq) (by rw [hdrop]; exact hproper)
          (by simp only [List.length_cons, List.length_append]; omega) (by rw [hdrop]; omega)

theorem parseItems_part : ∀ vs : List RespValue, PlainAll vs → ∀ (fuel : ℕ) (buf : CodeUnits)
    (k : ℕ) (items : List JsValue), buf.drop k <+: utf16 (RespValue.wires vs) →
    buf.drop k ≠ utf16 (RespValue.wires vs) → k ≤ buf.length → (buf.drop k).length < fuel →
    parseItems (parseResp fuel) buf items vs.length (some (k : ℤ)) = .incomplete
  | [], _, fuel, buf, k, items, hp, hne, _, _ => absurd (List.prefix_nil.mp hp) hne
  | v::vs, h, fuel, buf, k, items, hp, hne, hk, hfuel => by
      rw [utf16_wires_cons] at hp hne
      by_cases hwhole : utf16 v.wire <+: buf.drop k
      · obtain ⟨q, hq⟩ := hwhole
        rw [← hq] at hp hne
        have hqp := (List.prefix_append_right_inj _).mp hp
        have hqne : q ≠ utf16 (RespValue.wires vs) := fun heq => hne (by rw [heq])
        have hfuel' := hfuel
        rw [← hq] at hfuel'
        obtain ⟨x, -, hparse⟩ := parseResp_wire v h.1 fuel q hfuel'
        rw [hq] at hparse
        have hnext : buf.drop (k+(utf16 v.wire).length) = q := by
          rw [← List.drop_drop, ← hq, List.drop_left' rfl]
        have hlen : (buf.drop k).length = (utf16 v.wire).length + q.length := by
          rw [← hq, List.length_append]
        rw [List.length_drop] at hlen
        rw [List.length_cons, parseItems_cons _ hk hparse]
        exact parseItems_part vs h.2 fuel buf _ _ (hnext ▸ hqp) (hnext ▸ hqne) (by omega)
          (by rw [hnext]; rw [List.length_drop] at hfuel; omega)
      · have hshort : buf.drop k <+: utf16 v.wire := by
          rcases List.prefix_or_prefix_of_prefix hp (List.prefix_append (utf16 v.wire) _) with h | h
          · exact h
          · exact absurd h hwhole
        have hproper : buf.drop k ≠ utf16 v.wire :=
          fun heq => hwhole (heq ▸ List.prefix_refl _)
        rw [List.length_cons, parseItems, sliceFrom_nat hk,
          parseResp_part v h.1 fuel _ hfuel hshort hproper]

end

end Parts

section Converse

theorem parseItems_extends (parse : CodeUnits → Attempt) (buf : CodeUnits) {count : ℕ}
    {items ys : List JsValue} {offset consumed : Option ℤ} {isError : Bool}
    (h : parseItems parse buf items count offset = .parsed (.array ys) isError consumed) :
    ∃ zs, ys = items ++ zs := by
  induction count generalizing items offset with
  | zero =>
    cases h
    exact ⟨[], by simp⟩
  | succ count ih =>
    rw [parseItems] at h
    cases hparse : parse (sliceFrom buf offset) with
    | incomplete =>
      rw [hparse] at h
      cases h
    | overflow =>
      rw [hparse] at h
      cases h
    | parsed value e c =>
      rw [hparse] at h
      obtain ⟨zs, hzs⟩ := ih h
      exact ⟨value::zs, by rw [hzs]; simp⟩

mutual

/-- Only plain values come back as what they are. -/
theorem plain_of_parseResp : ∀ (v : RespValue) (fuel : ℕ) (rest : CodeUnits) (x : JsValue)
    (isError : Bool) (consumed : Option ℤ), (utf16 v.wire ++ rest).length < fuel →
    parseResp fuel (utf16 v.wire ++ rest) = .parsed x isError consumed → Denotes v x → Plain v
  | _, 0, _, _, _, _, hfuel, _, _ => absurd hfuel (Nat.not_lt_zero _)
  | .simple _, _+1, _, _, _, _, _, _, _ => trivial
  | .error _, _+1, _, _, _, _, _, _, hx => hx.elim
  | .integer n, _+1, _, _, _, _, _, _, hx => by
      obtain ⟨q, hq, -, heq⟩ := hx
      show IsDouble n
      rw [← heq]
      exact hq
  | .nilBulk, _+1, _, _, _, _, _, _, _ => trivial
  | .nilArray, _+1, _, _, _, _, _, _, _ => trivial
  | .bulk text, fuel+1, rest, x, isError, consumed, _, hparse, hx => by
      rw [parseResp_bulk] at hparse
      by_cases hshort : (utf16 text).length+rest.length < utf8Length text
      · rw [if_pos hshort] at hparse
        cases hparse
      · rw [if_neg hshort] at hparse
        have hread : JsValue.text ((utf16 text ++ ([13, 10] ++ rest)).take (utf8Length text)) =
            .text (utf16 text) := (Attempt.parsed.inj hparse).1.trans hx
        have hlen := congrArg List.length (JsValue.text.inj hread)
        simp only [List.length_take, List.length_append, List.length_cons, List.length_nil] at hlen
        apply (length_utf16_eq_iff text).mp
        have hle := length_utf16_le text
        omega
  | .array items, fuel+1, rest, x, isError, consumed, hfuel, hparse, hx => by
      obtain ⟨xs, rfl, hxs⟩ := hx
      have hlen : (utf16 (RespValue.array items).wire ++ rest).length =
          (lineUnits (.array items)).length+3+(utf16 (RespValue.wires items)).length+
            rest.length := by
        rw [List.length_append, length_wire]
        rfl
      rw [parseResp_wire_line] at hparse
      have htyped := parseTyped_array (parseResp fuel) (utf16 (RespValue.array items).wire ++ rest)
        (lineUnits (.array items)) ((lineUnits (.array items)).length+3)
        (parseInt_header_array items)
      exact plain_of_parseItems items fuel (utf16 (RespValue.array items).wire ++ rest)
        ((lineUnits (.array items)).length+3) rest [] xs isError consumed
        (drop_wire (.array items) rest) (by omega) (by rw [List.length_drop]; omega)
        (htyped.symm.trans hparse) hxs

theorem plain_of_parseItems : ∀ (vs : List RespValue) (fuel : ℕ) (buf : CodeUnits) (k : ℕ)
    (rest : CodeUnits) (items xs : List JsValue) (isError : Bool) (consumed : Option ℤ),
    buf.drop k = utf16 (RespValue.wires vs) ++ rest → k ≤ buf.length →
    (buf.drop k).length < fuel →
    parseItems (parseResp fuel) buf items vs.length (some (k : ℤ)) =
      .parsed (.array (items ++ xs)) isError consumed → DenotesAll vs xs → PlainAll vs
  | [], _, _, _, _, _, _, _, _, _, _, _, _, _ => trivial
  | v::vs, fuel, buf, k, rest, items, xs, isError, consumed, hdrop, hk, hfuel, hparse, hxs => by
      obtain ⟨y, ys, rfl, hy, hys⟩ := hxs
      rw [utf16_wires_cons, List.append_assoc] at hdrop
      have hfuel' := hfuel
      rw [hdrop] at hfuel'
      have hplain : Plain v := by
        rw [List.length_cons, parseItems, sliceFrom_nat hk, hdrop] at hparse
        cases hv : parseResp fuel (utf16 v.wire ++ (utf16 (RespValue.wires vs) ++ rest)) with
        | incomplete =>
          rw [hv] at hparse
          cases hparse
        | overflow =>
          rw [hv] at hparse
          cases hparse
        | parsed value e c =>
          rw [hv] at hparse
          obtain ⟨zs, hzs⟩ := parseItems_extends _ _ hparse
          have hvalue : value = y := by
            rw [List.append_assoc, List.append_cancel_left_eq] at hzs
            exact (List.cons.inj hzs).1.symm
          rw [hvalue] at hv
          exact plain_of_parseResp v fuel _ y e c hfuel' hv hy
      obtain ⟨x, hx, hwhole⟩ := parseResp_wire v hplain fuel _ hfuel'
      rw [← hdrop] at hwhole
      have hlen : (buf.drop k).length = (utf16 v.wire).length +
          (utf16 (RespValue.wires vs) ++ rest).length := by
        rw [hdrop, List.length_append]
      rw [List.length_drop] at hlen hfuel
      have hnext : buf.drop (k+(utf16 v.wire).length) = utf16 (RespValue.wires vs) ++ rest := by
        rw [← List.drop_drop, hdrop, List.drop_left' rfl]
      rw [List.length_cons, parseItems_cons _ hk hwhole] at hparse
      obtain ⟨zs, hzs⟩ := parseItems_extends _ _ hparse
      rw [List.append_assoc, List.append_cancel_left_eq] at hzs
      have hys' : zs = ys := (List.cons.inj hzs).2.symm
      have happ : items ++ y::ys = (items ++ [x]) ++ ys := by
        rw [hzs, hys']
        simp
      rw [happ] at hparse
      exact ⟨hplain, plain_of_parseItems vs fuel buf _ rest _ ys isError consumed hnext (by omega)
        (by rw [List.length_drop]; omega) hparse hys⟩

end

theorem decodes_of_plain {v : RespValue} (h : Plain v) : Decodes v := by
  have hanswers : ∀ x, Denotes v x → Answers v x false := by
    intro x hx
    cases v with
    | error line => exact hx.elim
    | _ => exact ⟨rfl, hx⟩
  constructor
  · intro rest
    obtain ⟨x, hx, hparse⟩ := parseResp_wire v h _ rest (Nat.lt_succ_self _)
    exact ⟨x, false, hanswers x hx, hparse⟩
  · intro p hp hne
    exact parseResp_part v h _ p (Nat.lt_succ_self _) hp hne

theorem decodes_error (line : Line) : Decodes (.error line) := by
  constructor
  · intro rest
    refine ⟨.text (utf16 line.text), true, ⟨rfl, rfl⟩, ?_⟩
    rw [parse, parseResp_wire_line, length_wire_line rfl]
    rfl
  · intro p hp hne
    exact parseResp_part_line rfl p.length hp hne

theorem decodes_iff (v : RespValue) : Decodes v ↔ Decodable v := by
  constructor
  · intro h
    obtain ⟨x, isError, hx, hparse⟩ := h.1 []
    have hplain := plain_of_parseResp v _ [] x isError _ (Nat.lt_succ_self _) hparse
    cases v with
    | error line => exact .inl rfl
    | _ => exact .inr (hplain hx.2)
  · intro h
    cases v with
    | error line => exact decodes_error line
    | _ => exact decodes_of_plain (h.resolve_left Bool.false_ne_true)

end Converse
end LuaRecovery.Queue
