import LuaRecovery.Lib.Base64
import LuaRecovery.Lib.InsertionMap
import LuaRecovery.Lua.ByteString
import Mathlib.Data.List.Induction
import Mathlib.Data.List.Nodup

/-!
# Decoding the string pool

`decodeBase64Custom` of `adapters/wearedevs/wearedevs-adapter.js`. A string is
its code units, and the alphabet maps strings of one unit to digit values.
-/

set_option autoImplicit false

namespace LuaRecovery.Adapters
open LuaRecovery.Lib LuaRecovery.Lua

abbrev AlphabetMap := InsertionMap CodeUnits ℕ

/-- The code unit of `=`. -/
def padUnit : ℕ := 61

/-- The loop from a state: the accumulator `f`, the place `U` in the group, and the string from
`i` on. -/
def decodeFrom (alphabet : AlphabetMap) : ℕ → ℕ → CodeUnits → List UInt8
  | _, _, [] => []
  | f, U, ch::rest => match alphabet.get [ch] with
      | some val =>
          let f := f + val * 64^(3-U)
          if U+1 = 4 then
            byteOf (f/65536) :: byteOf (f%65536/256) :: byteOf (f%256) ::
              decodeFrom alphabet 0 0 rest
          else decodeFrom alphabet f (U+1) rest
      | none =>
          if ch = padUnit then
            byteOf (f/65536) ::
              (if rest.head? ≠ some padUnit then [byteOf (f%65536/256)] else [])
          else decodeFrom alphabet f U rest

def decodeBase64Custom (str : CodeUnits) (alphabet : AlphabetMap) : List UInt8 :=
  decodeFrom alphabet 0 0 str

def stdAlphabet : List Char :=
  "ABCDEFGHIJKLMNOPQRSTUVWXYZabcdefghijklmnopqrstuvwxyz0123456789+/".toList

/-- The map that the fallback builds of a list of letters. -/
def alphabetOf (letters : List ℕ) : AlphabetMap :=
  letters.zipIdx.foldl (fun alphabet e => alphabet.set [e.1] e.2) .empty

/-- The map has the letters of the alphabet, each with its digit, and no other character. -/
def Spells (alphabet : AlphabetMap) (A : Base64.Alphabet ℕ padUnit) : Prop :=
  ∀ ch val, alphabet.get [ch] = some val ↔ ∃ i : Fin 64, A.letter i = ch ∧ i.val = val

section Decoding
variable {alphabet : AlphabetMap} {A : Base64.Alphabet ℕ padUnit}

theorem Spells.get_letter (h : Spells alphabet A) (i : Fin 64) :
    alphabet.get [A.letter i] = some i.val := (h _ _).mpr ⟨i, rfl, rfl⟩

theorem Spells.get_pad (h : Spells alphabet A) : alphabet.get [padUnit] = none := by
  cases hget : alphabet.get [padUnit] with
  | none => rfl
  | some val =>
    obtain ⟨i, hi, -⟩ := (h _ _).mp hget
    exact absurd hi (A.ne_pad i)

/-- Whether a code unit is a letter of the alphabet. -/
def isLetter (alphabet : AlphabetMap) (ch : ℕ) : Bool := (alphabet.get [ch]).isSome

/-- Before the padding, the characters outside the alphabet are passed over. -/
theorem decodeFrom_filter (f U : ℕ) (noisy tail : CodeUnits) (hpad : padUnit ∉ noisy) :
    decodeFrom alphabet f U (noisy++tail) =
      decodeFrom alphabet f U (noisy.filter (isLetter alphabet) ++ tail) := by
  induction noisy generalizing f U with
  | nil => rfl
  | cons ch rest ih =>
    have hne : ch ≠ padUnit := fun h => hpad (by simp [h])
    have hrest := fun f U => ih f U (fun h => hpad (List.mem_cons_of_mem _ h))
    cases hget : alphabet.get [ch] with
    | none =>
      have hl : isLetter alphabet ch = false := by simp [isLetter, hget]
      rw [List.filter_cons_of_neg (by simp [hl]), List.cons_append, decodeFrom, hget]
      simp [hne, hrest]
    | some val =>
      have hl : isLetter alphabet ch = true := by simp [isLetter, hget]
      rw [List.filter_cons_of_pos hl, List.cons_append, List.cons_append, decodeFrom, decodeFrom,
        hget]
      simp [hrest]

/-- One letter inside a group. -/
theorem decodeFrom_letter (h : Spells alphabet A) (f U : ℕ) (hU : U < 3) (i : Fin 64)
    (rest : CodeUnits) :
    decodeFrom alphabet f U (A.letter i :: rest) =
      decodeFrom alphabet (f + i.val * 64^(3-U)) (U+1) rest := by
  rw [decodeFrom, h.get_letter]
  simp only
  rw [if_neg (by omega)]

/-- The letter that completes a group. -/
theorem decodeFrom_last (h : Spells alphabet A) (f : ℕ) (i : Fin 64) (rest : CodeUnits) :
    decodeFrom alphabet f 3 (A.letter i :: rest) =
      byteOf ((f+i.val)/65536) :: byteOf ((f+i.val)%65536/256) :: byteOf ((f+i.val)%256) ::
        decodeFrom alphabet 0 0 rest := by
  rw [decodeFrom, h.get_letter]
  simp

theorem decodeFrom_pad (h : Spells alphabet A) (f U : ℕ) (rest : CodeUnits) :
    decodeFrom alphabet f U (padUnit::rest) =
      byteOf (f/65536) :: (if rest.head? ≠ some padUnit then [byteOf (f%65536/256)] else []) := by
  rw [decodeFrom, h.get_pad]
  simp

/-- A byte is read back off a number between the multiples of its place. -/
theorem byteOf_of_eq {n : ℕ} {a : UInt8} (h : n = a.toNat) : byteOf n = a := by
  rw [byteOf, h, Nat.mod_eq_of_lt a.toNat_lt, UInt8.ofNat_toNat]

theorem decodeFrom_group (h : Spells alphabet A) (a b c d : Fin 64) (rest : CodeUnits) :
    decodeFrom alphabet 0 0 (A.letter a :: A.letter b :: A.letter c :: A.letter d :: rest) =
      byteOf (Base64.weigh a b c d / 65536) :: byteOf (Base64.weigh a b c d % 65536 / 256) ::
        byteOf (Base64.weigh a b c d % 256) :: decodeFrom alphabet 0 0 rest := by
  rw [decodeFrom_letter h _ 0 (by decide), decodeFrom_letter h _ 1 (by decide),
    decodeFrom_letter h _ 2 (by decide), decodeFrom_last h]
  simp [Base64.weigh]

theorem decodeFrom_two (h : Spells alphabet A) (a b : Fin 64) :
    decodeFrom alphabet 0 0 [A.letter a, A.letter b, padUnit, padUnit] =
      [byteOf (Base64.weigh a b 0 0 / 65536)] := by
  rw [decodeFrom_letter h _ 0 (by decide), decodeFrom_letter h _ 1 (by decide),
    decodeFrom_pad h]
  simp [Base64.weigh]

theorem decodeFrom_three (h : Spells alphabet A) (a b c : Fin 64) :
    decodeFrom alphabet 0 0 [A.letter a, A.letter b, A.letter c, padUnit] =
      [byteOf (Base64.weigh a b c 0 / 65536), byteOf (Base64.weigh a b c 0 % 65536 / 256)] := by
  rw [decodeFrom_letter h _ 0 (by decide), decodeFrom_letter h _ 1 (by decide),
    decodeFrom_letter h _ 2 (by decide), decodeFrom_pad h]
  simp [Base64.weigh]

/-- Decoding inverts encoding, group by group. -/
theorem decodeFrom_encode (h : Spells alphabet A) (bytes : List UInt8) :
    decodeFrom alphabet 0 0 (A.encode bytes) = bytes := by
  induction bytes using Base64.digits.induct with
  | case1 => rfl
  | case2 a =>
    have ha := a.toNat_lt
    rw [show A.encode [a] = [A.letter (Base64.digit (a.toNat/4)),
      A.letter (Base64.digit (a.toNat*16)), padUnit, padUnit] from rfl, decodeFrom_two h,
      Base64.weigh_one, byteOf_of_eq (a := a) (by omega)]
  | case3 a b =>
    have ha := a.toNat_lt
    have hb := b.toNat_lt
    rw [show A.encode [a, b] = [A.letter (Base64.digit (a.toNat/4)),
      A.letter (Base64.digit (a.toNat*16+b.toNat/16)), A.letter (Base64.digit (b.toNat*4)),
      padUnit] from rfl, decodeFrom_three h, Base64.weigh_two,
      byteOf_of_eq (a := a) (by omega), byteOf_of_eq (a := b) (by omega)]
  | case4 a b c bytes ih =>
    have ha := a.toNat_lt
    have hb := b.toNat_lt
    have hc := c.toNat_lt
    rw [Base64.encode_cons_three, decodeFrom_group h, Base64.weigh_three,
      byteOf_of_eq (a := a) (by omega), byteOf_of_eq (a := b) (by omega),
      byteOf_of_eq (a := c) (by omega), ih]

end Decoding

section Alphabets

theorem alphabetOf_concat (letters : List ℕ) (last : ℕ) :
    alphabetOf (letters++[last]) = (alphabetOf letters).set [last] letters.length := by
  simp [alphabetOf, List.zipIdx_append]

/-- A letter that comes once has its place as its digit. -/
theorem get_alphabetOf (letters : List ℕ) (hl : letters.Nodup) (ch val : ℕ) :
    (alphabetOf letters).get [ch] = some val ↔ letters[val]? = some ch := by
  induction letters using List.reverseRecOn with
  | nil => simp [alphabetOf]
  | append_singleton letters last ih =>
    obtain ⟨hnodup, -, hlast⟩ := List.nodup_append.mp hl
    have hnot : last ∉ letters := fun h => hlast last h last (by simp) rfl
    rw [alphabetOf_concat, InsertionMap.get_set]
    by_cases hch : ch = last
    · subst hch
      rw [if_pos rfl]
      constructor
      · intro h
        cases h
        simp
      · intro h
        by_cases hval : val < letters.length
        · rw [List.getElem?_append_left hval] at h
          exact absurd (List.mem_of_getElem? h) hnot
        · have hlt := (List.getElem?_eq_some_iff.mp h).1
          simp only [List.length_append, List.length_singleton] at hlt
          rw [show val = letters.length by omega]
    · rw [if_neg (by simpa using hch), ih hnodup]
      by_cases hval : val < letters.length
      · rw [List.getElem?_append_left hval]
      · rw [List.getElem?_eq_none (by omega)]
        have hne : ¬ last = ch := fun h => hch h.symm
        simp [List.getElem?_append_right (Nat.le_of_not_lt hval), List.getElem?_singleton, hne]

/-- The alphabet of 64 letters, its map being the one that is built of them. -/
def alphabetLetters (letters : List ℕ) (hl : letters.Nodup) (hlen : letters.length = 64)
    (hpad : padUnit ∉ letters) : Base64.Alphabet ℕ padUnit where
  letter i := letters.get (i.cast hlen.symm)
  injective i j h := by
    have hcast : i.cast hlen.symm = j.cast hlen.symm := List.nodup_iff_injective_get.mp hl h
    simpa [Fin.ext_iff] using hcast
  ne_pad i h := hpad (h ▸ List.get_mem letters _)

theorem alphabetOf_spells (letters : List ℕ) (hl : letters.Nodup) (hlen : letters.length = 64)
    (hpad : padUnit ∉ letters) :
    Spells (alphabetOf letters) (alphabetLetters letters hl hlen hpad) := by
  intro ch val
  rw [get_alphabetOf letters hl, List.getElem?_eq_some_iff]
  constructor
  · rintro ⟨hlt, hget⟩
    exact ⟨⟨val, hlen ▸ hlt⟩, hget, rfl⟩
  · rintro ⟨i, hget, rfl⟩
    exact ⟨by omega, hget⟩

/-- The units of the standard alphabet are an alphabet, which the fallback's map spells. -/
def standard : Base64.Alphabet ℕ padUnit :=
  alphabetLetters (stdAlphabet.map Char.toNat) (by decide +kernel) (by decide +kernel)
    (by decide +kernel)

theorem standard_spells : Spells (alphabetOf (stdAlphabet.map Char.toNat)) standard :=
  alphabetOf_spells _ _ _ _

end Alphabets

/-- Decoding inverts encoding over any alphabet, and characters outside the alphabet that stand
before the padding change nothing. -/
theorem decodeBase64Custom_encode (alphabet : AlphabetMap) (A : Base64.Alphabet ℕ padUnit)
    (h : Spells alphabet A) (bytes : List UInt8) :
    decodeBase64Custom (A.encode bytes) alphabet = bytes ∧
      ∀ noisy : CodeUnits, padUnit ∉ noisy →
        noisy.filter (isLetter alphabet) = (Base64.digits bytes).map A.letter →
        decodeBase64Custom
          (noisy ++ List.replicate (Base64.padding bytes.length) padUnit) alphabet = bytes := by
  refine ⟨decodeFrom_encode h bytes, fun noisy hpad hnoisy => ?_⟩
  rw [decodeBase64Custom, decodeFrom_filter 0 0 noisy _ hpad, hnoisy]
  exact decodeFrom_encode h bytes

/-- Two bytes over the standard alphabet, with a line break in their text. -/
theorem decodeBase64Custom_encode_standard :
    decodeBase64Custom [83, 71, 10, 107, 61]
      (alphabetOf (stdAlphabet.map Char.toNat)) = [72, 105] :=
  (decodeBase64Custom_encode _ standard standard_spells [72, 105]).2 [83, 71, 10, 107]
    (by decide) (by decide +kernel)

/-- Step 5 of `extractAndDecode`. -/
def decodedTable (entries : List ByteString) (alphabet : AlphabetMap) : List ByteString :=
  entries.map (fun entry => decodeBase64Custom (entry.map UInt8.toNat) alphabet)

end LuaRecovery.Adapters
