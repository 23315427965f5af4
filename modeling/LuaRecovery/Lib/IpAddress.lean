import Mathlib.Data.List.Basic
import Mathlib.Data.List.Induction
import Mathlib.Data.Nat.Notation

/-!
# Texts of IP addresses

A text is a list of code units. An IPv4 address is written as four octets, an
IPv6 address as eight groups, of which a run may be left out for a double colon
and the last two may be written as an IPv4 address. Networks are told by the
leading bits of the digits.
-/

set_option autoImplicit false

namespace LuaRecovery.Lib

/-- An address by its digits: four to base 256 or eight to base 65536. -/
inductive Address where
  | v4 (octets : List ℕ)
  | v6 (groups : List ℕ)
  deriving DecidableEq

namespace Address

def isDecimal (u : ℕ) : Bool := 48 ≤ u && u ≤ 57

def decimal (part : List ℕ) : ℕ := part.foldl (fun n u => 10*n+(u-48)) 0

/-- A number up to 255 without a leading zero. -/
def octet (part : List ℕ) : Option ℕ :=
  if part ≠ [] ∧ part.all isDecimal = true ∧ (part.head? = some 48 → part.length = 1) ∧
      decimal part ≤ 255 then some (decimal part)
  else none

def parseIPv4 (text : List ℕ) : Option (List ℕ) :=
  match text.splitOn 46 with
  | [a, b, c, d] => do
      let a ← octet a
      let b ← octet b
      let c ← octet c
      let d ← octet d
      some [a, b, c, d]
  | _ => none

def isHex (u : ℕ) : Bool := (48 ≤ u && u ≤ 57) || (65 ≤ u && u ≤ 70) || (97 ≤ u && u ≤ 102)

def hexValue (u : ℕ) : ℕ := if u ≤ 57 then u-48 else if u ≤ 70 then u-55 else u-87

def hexadecimal (part : List ℕ) : ℕ := part.foldl (fun n u => 16*n+hexValue u) 0

/-- A group of one to four digits to base 16. -/
def hextet (part : List ℕ) : Option ℕ :=
  if 1 ≤ part.length ∧ part.length ≤ 4 ∧ part.all isHex = true then some (hexadecimal part)
  else none

/-- The two groups that an IPv4 address makes. -/
def twoGroups : List ℕ → List ℕ
  | [a, b, c, d] => [256*a+b, 256*c+d]
  | _ => []

/-- The groups between colons; the last one may be an IPv4 address. -/
def parseGroups (dotted : Bool) : List (List ℕ) → Option (List ℕ)
  | [] => some []
  | [part] =>
      match hextet part with
      | some g => some [g]
      | none => if dotted then (parseIPv4 part).map twoGroups else none
  | part::part'::parts => do
      let g ← hextet part
      let gs ← parseGroups dotted (part'::parts)
      some (g::gs)

/-- What stands on one side of the double colon. -/
def parseSide (dotted : Bool) (text : List ℕ) : Option (List ℕ) :=
  if text = [] then some [] else parseGroups dotted (text.splitOn 58)

/-- The sides of the first double colon. -/
def splitDouble : List ℕ → Option (List ℕ × List ℕ)
  | [] => none
  | [_] => none
  | u::v::rest =>
      if u = 58 ∧ v = 58 then some ([], rest)
      else (splitDouble (v::rest)).map fun p => (u::p.1, p.2)

def parseIPv6 (text : List ℕ) : Option (List ℕ) :=
  match splitDouble text with
  | none => (parseGroups true (text.splitOn 58)).filter (fun gs => gs.length = 8)
  | some (l, r) => do
      let left ← parseSide false l
      let right ← parseSide true r
      if left.length + right.length ≤ 7 then
        some (left ++ List.replicate (8 - (left.length + right.length)) 0 ++ right)
      else none

/-- The address begins with the given number of bits of the network. -/
def inNetwork (width : ℕ) : List ℕ → ℕ → List ℕ → Bool
  | n::ns, length, a::as =>
      if length = 0 then true
      else if length < width then a >>> (width-length) == n >>> (width-length)
      else a == n && inNetwork width ns (length-width) as
  | _, _, _ => true

/-- The IPv4 address that an IPv6 address embeds, in the mapped form. -/
def embedded : List ℕ → Option (List ℕ)
  | [0, 0, 0, 0, 0, 65535, h, l] => some [h / 256, h % 256, l / 256, l % 256]
  | _ => none

/-- The address that groups stand for: in the mapped form, an IPv4 address. -/
def ofGroups (groups : List ℕ) : Address :=
  match embedded groups with
  | some octets => .v4 octets
  | none => .v6 groups

theorem embedded_head {groups octets : List ℕ} (h : embedded groups = some octets) :
    groups.head? = some 0 := by
  unfold embedded at h
  split at h
  next => rfl
  next => cases h

theorem ofGroups_cases (groups : List ℕ) :
    groups.head? = some 0 ∨ ofGroups groups = .v6 groups := by
  rw [ofGroups]
  cases hos : embedded groups with
  | none => exact .inr rfl
  | some os => exact .inl (embedded_head hos)

theorem inNetwork_nil (width length : ℕ) (as : List ℕ) : inNetwork width [] length as = true := by
  cases as <;> rfl

theorem inNetwork_short {width length n a : ℕ} {ns as : List ℕ} (hpos : length ≠ 0)
    (hlt : length < width) : inNetwork width (n::ns) length (a::as) = true ↔
      a >>> (width-length) = n >>> (width-length) := by
  rw [inNetwork, if_neg hpos, if_pos hlt, beq_iff_eq]

theorem inNetwork_long {width length n a : ℕ} {ns as : List ℕ} (hpos : width ≠ 0)
    (hle : width ≤ length) : inNetwork width (n::ns) length (a::as) = true ↔
      a = n ∧ inNetwork width ns (length-width) as = true := by
  rw [inNetwork, if_neg (by omega), if_neg (by omega), Bool.and_eq_true, beq_iff_eq]

section Pieces
variable {text part : List ℕ} {parts : List (List ℕ)} {gs : List ℕ} {dotted : Bool}

theorem splitOn_head (sep : ℕ) (text : List ℕ) :
    ∃ parts, text.splitOn sep = text.takeWhile (· ≠ sep) :: parts := by
  induction text with
  | nil => exact ⟨[], rfl⟩
  | cons u text ih =>
    obtain ⟨parts, hparts⟩ := ih
    rw [List.splitOn_cons_eq_if_modifyHead, hparts]
    by_cases hu : u = sep
    · rw [if_pos (beq_iff_eq.mpr hu), List.takeWhile_cons_of_neg (by simp [hu])]
      exact ⟨_, rfl⟩
    · rw [if_neg (by simpa using hu), List.takeWhile_cons_of_pos (by simpa using hu)]
      exact ⟨parts, rfl⟩

theorem takeWhile_append_sep {sep : ℕ} (l r : List ℕ) :
    (l ++ sep :: r).takeWhile (· ≠ sep) = l.takeWhile (· ≠ sep) := by
  induction l with
  | nil => exact List.takeWhile_cons_of_neg (by simp)
  | cons u l ih =>
    rw [List.cons_append]
    by_cases hu : u = sep
    · rw [List.takeWhile_cons_of_neg (by simp [hu]), List.takeWhile_cons_of_neg (by simp [hu])]
    · rw [List.takeWhile_cons_of_pos (by simpa using hu), ih,
        List.takeWhile_cons_of_pos (by simpa using hu)]

theorem splitDouble_eq {l r : List ℕ} (h : splitDouble text = some (l, r)) :
    text = l ++ 58 :: 58 :: r := by
  induction text using splitDouble.induct generalizing l with
  | case1 => cases h
  | case2 => cases h
  | case3 u v rest heq =>
    rw [splitDouble, if_pos heq] at h
    cases h
    rw [heq.1, heq.2, List.nil_append]
  | case4 u v rest hne ih =>
    rw [splitDouble, if_neg hne] at h
    obtain ⟨p, hp, hpair⟩ := Option.map_eq_some_iff.mp h
    cases hpair
    rw [ih hp, List.cons_append]

theorem octet_eq_some {n : ℕ} (h : octet part = some n) :
    part ≠ [] ∧ part.all isDecimal = true ∧ decimal part = n ∧ n ≤ 255 := by
  rw [octet] at h
  split at h
  next hpart =>
    cases h
    exact ⟨hpart.1, hpart.2.1, rfl, hpart.2.2.2⟩
  next => cases h

theorem parseIPv4_eq_some {os : List ℕ} (h : parseIPv4 text = some os) :
    ∃ a b c d oa ob oc od, text.splitOn 46 = [a, b, c, d] ∧ octet a = some oa ∧
      octet b = some ob ∧ octet c = some oc ∧ octet d = some od ∧ os = [oa, ob, oc, od] := by
  rw [parseIPv4] at h
  split at h
  next a b c d hparts =>
    simp only [Option.bind_eq_bind, Option.bind_eq_some_iff] at h
    obtain ⟨oa, ha, ob, hb, oc, hc, od, hd, hall⟩ := h
    exact ⟨a, b, c, d, oa, ob, oc, od, hparts, ha, hb, hc, hd, (Option.some.inj hall).symm⟩
  next => cases h

theorem hextet_eq_some {g : ℕ} (h : hextet part = some g) :
    1 ≤ part.length ∧ part.length ≤ 4 ∧ (∀ u ∈ part, isHex u = true) ∧ hexadecimal part = g := by
  rw [hextet] at h
  split at h
  next hpart =>
    cases h
    exact ⟨hpart.1, hpart.2.1, List.all_eq_true.mp hpart.2.2, rfl⟩
  next => cases h

theorem hexValue_lt {u : ℕ} (h : isHex u = true) : hexValue u < 16 := by
  simp only [isHex, Bool.or_eq_true, Bool.and_eq_true, decide_eq_true_eq] at h
  rw [hexValue]
  split
  · omega
  · split <;> omega

/-- A group that does not fit into three digits has four. -/
theorem hextet_four {g : ℕ} (h : hextet part = some g) (hg : 4096 ≤ g) :
    ∃ x y z w, part = [x, y, z, w] ∧
      g = 4096 * hexValue x + 256 * hexValue y + 16 * hexValue z + hexValue w := by
  obtain ⟨hpos, hlen, hhex, rfl⟩ := hextet_eq_some h
  have hlt : ∀ u ∈ part, hexValue u < 16 := fun u hu => hexValue_lt (hhex u hu)
  match part, hlen with
  | [], _ => cases hpos
  | [x], _ =>
    have hx := hlt x (by simp)
    simp only [hexadecimal, List.foldl_cons, List.foldl_nil] at hg
    omega
  | [x, y], _ =>
    have hx := hlt x (by simp)
    have hy := hlt y (by simp)
    simp only [hexadecimal, List.foldl_cons, List.foldl_nil] at hg
    omega
  | [x, y, z], _ =>
    have hx := hlt x (by simp)
    have hy := hlt y (by simp)
    have hz := hlt z (by simp)
    simp only [hexadecimal, List.foldl_cons, List.foldl_nil] at hg
    omega
  | [x, y, z, w], _ =>
    refine ⟨x, y, z, w, rfl, ?_⟩
    simp only [hexadecimal, List.foldl_cons, List.foldl_nil]
    omega

theorem hextet_plain {g : ℕ} (h : hextet part = some g) : 46 ∉ part := by
  intro hdot
  have hhex := (hextet_eq_some h).2.2.1 46 hdot
  cases hhex

theorem hextet_lt {g : ℕ} (h : hextet part = some g) : g < 65536 := by
  by_contra hge
  obtain ⟨x, y, z, w, hpart, hvalue⟩ := hextet_four h (by omega)
  have hhex := (hextet_eq_some h).2.2.1
  rw [hpart] at hhex
  have hx := hexValue_lt (hhex x (by simp))
  have hy := hexValue_lt (hhex y (by simp))
  have hz := hexValue_lt (hhex z (by simp))
  have hw := hexValue_lt (hhex w (by simp))
  omega

/-- The digits of a group that is zero are zeros. -/
theorem hexadecimal_zero (hhex : ∀ u ∈ part, isHex u = true) (h : hexadecimal part = 0) :
    ∀ u ∈ part, u = 48 := by
  induction part using List.reverseRecOn with
  | nil => simp
  | append_singleton part u ih =>
    rw [hexadecimal, List.foldl_append, List.foldl_cons, List.foldl_nil] at h
    have hzero : hexadecimal part = 0 := by
      rw [hexadecimal]
      omega
    have hu : hexValue u = 0 := by omega
    have hdigit := hhex u (by simp)
    intro v hv
    rcases List.mem_append.mp hv with hv | hv
    · exact ih (fun w hw => hhex w (List.mem_append_left _ hw)) hzero v hv
    · rw [List.mem_singleton.mp hv]
      simp only [isHex, Bool.or_eq_true, Bool.and_eq_true, decide_eq_true_eq] at hdigit
      rw [hexValue] at hu
      split at hu
      · omega
      · split at hu <;> omega

theorem parseGroups_head (h : parseGroups dotted (part :: parts) = some gs) :
    (∃ g, hextet part = some g ∧ gs.head? = some g) ∨ (dotted = true ∧ gs.length = 2) := by
  cases parts with
  | nil =>
    rw [parseGroups] at h
    split at h
    next g hg =>
      cases h
      exact .inl ⟨g, hg, rfl⟩
    next =>
      split at h
      next hdotted =>
        obtain ⟨os, hos, rfl⟩ := Option.map_eq_some_iff.mp h
        obtain ⟨a, b, c, d, oa, ob, oc, od, -, -, -, -, -, rfl⟩ := parseIPv4_eq_some hos
        exact .inr ⟨hdotted, rfl⟩
      next => cases h
  | cons part' parts =>
    rw [parseGroups] at h
    simp only [Option.bind_eq_bind, Option.bind_eq_some_iff] at h
    obtain ⟨g, hg, rest, -, hall⟩ := h
    cases hall
    exact .inl ⟨g, hg, rfl⟩

/-- The first group of an address is the text before the first colon, unless the address begins
with a double colon. -/
theorem parseIPv6_head (h : parseIPv6 text = some gs) :
    (∃ r, text = 58 :: 58 :: r) ∨
      ∃ g, hextet (text.takeWhile (· ≠ 58)) = some g ∧ gs.head? = some g := by
  rw [parseIPv6] at h
  split at h
  next hnone =>
    obtain ⟨hgroups, hlength⟩ := Option.filter_eq_some_iff.mp h
    obtain ⟨parts, hparts⟩ := splitOn_head 58 text
    rw [hparts] at hgroups
    rcases parseGroups_head hgroups with hfirst | ⟨-, htwo⟩
    · exact .inr hfirst
    · rw [htwo] at hlength
      cases hlength
  next l r hsplit =>
    simp only [Option.bind_eq_bind, Option.bind_eq_some_iff] at h
    obtain ⟨left, hleft, right, -, hall⟩ := h
    have htext := splitDouble_eq hsplit
    by_cases hl : l = []
    · rw [hl, List.nil_append] at htext
      exact .inl ⟨r, htext⟩
    · rw [parseSide, if_neg hl] at hleft
      obtain ⟨parts, hparts⟩ := splitOn_head 58 l
      rw [hparts] at hleft
      split at hall
      next =>
        cases hall
        rw [htext, takeWhile_append_sep]
        rcases parseGroups_head hleft with ⟨g, hg, hhead⟩ | ⟨hdotted, -⟩
        · refine .inr ⟨g, hg, ?_⟩
          rw [List.append_assoc, List.head?_append, hhead]
          rfl
        · cases hdotted
      next => cases hall

theorem parseIPv6_double {r : List ℕ} (h : parseIPv6 (58 :: 58 :: r) = some gs) :
    gs.head? = some 0 := by
  rw [parseIPv6, splitDouble, if_pos ⟨rfl, rfl⟩] at h
  simp only [Option.bind_eq_bind, Option.bind_eq_some_iff] at h
  obtain ⟨left, hleft, right, -, hall⟩ := h
  cases hleft
  split at hall
  next hle =>
    cases hall
    obtain ⟨k, hk⟩ : ∃ k, 8 - (([] : List ℕ).length + right.length) = k + 1 :=
      ⟨7 - right.length, by rw [List.length_nil] at hle ⊢; omega⟩
    rw [hk, List.nil_append, List.replicate_succ]
    rfl
  next => cases hall

/-- A dot is found in the last piece only, which is then an IPv4 address. -/
theorem parseGroups_dot (h : parseGroups dotted parts = some gs) :
    (∀ part ∈ parts, 46 ∉ part) ∨ dotted = true ∧ ∃ init part os, parts = init ++ [part] ∧
      parseIPv4 part = some os ∧ ∀ part ∈ init, 46 ∉ part := by
  induction parts generalizing gs with
  | nil => exact .inl (by simp)
  | cons part parts ih =>
    cases parts with
    | nil =>
      rw [parseGroups] at h
      split at h
      next g hg => exact .inl (by simpa using hextet_plain hg)
      next =>
        split at h
        next hdotted =>
          obtain ⟨os, hos, -⟩ := Option.map_eq_some_iff.mp h
          exact .inr ⟨hdotted, [], part, os, rfl, hos, by simp⟩
        next => cases h
    | cons part' parts =>
      rw [parseGroups] at h
      simp only [Option.bind_eq_bind, Option.bind_eq_some_iff] at h
      obtain ⟨g, hg, rest, hrest, -⟩ := h
      rcases ih hrest with hall | ⟨hdotted, init, last, os, hparts, hos, hinit⟩
      · exact .inl (List.forall_mem_cons.mpr ⟨hextet_plain hg, hall⟩)
      · exact .inr ⟨hdotted, part :: init, last, os, by rw [hparts, List.cons_append], hos,
          List.forall_mem_cons.mpr ⟨hextet_plain hg, hinit⟩⟩

/-- What stands before the first separator of a text goes into the first piece. -/
theorem splitOn_append_left {sep : ℕ} {l : List ℕ} (h : sep ∉ l) (text : List ℕ) :
    (l ++ text).splitOn sep = (text.splitOn sep).modifyHead (l ++ ·) := by
  obtain ⟨parts, hparts⟩ := splitOn_head sep text
  induction l with
  | nil => rw [hparts, List.nil_append, hparts, List.modifyHead_cons, List.nil_append]
  | cons u l ih =>
    have hu : ¬(u == sep) = true := by
      intro heq
      exact h (beq_iff_eq.mp heq ▸ List.mem_cons_self)
    rw [List.cons_append, List.splitOn_cons_eq_if_modifyHead, if_neg hu,
      ih (fun hmem => h (List.mem_cons_of_mem u hmem)), hparts]
    rfl

theorem intercalate_concat (sep : ℕ) (init : List (List ℕ)) (part : List ℕ) :
    ∃ l, sep :: [sep].intercalate (init ++ [part]) = l ++ sep :: part ∧
      ∀ u ∈ l, u = sep ∨ ∃ p ∈ init, u ∈ p := by
  induction init with
  | nil => exact ⟨[], by simp, by simp⟩
  | cons p init ih =>
    obtain ⟨l, hl, hmem⟩ := ih
    refine ⟨sep :: p ++ l, ?_, ?_⟩
    · rw [show p :: init ++ [part] = p :: (init ++ [part]) from rfl,
        List.intercalate_cons_of_ne_nil (by simp)]
      simp only [List.append_assoc, List.cons_append, List.nil_append]
      rw [hl]
    · intro u hu
      rcases List.mem_append.mp hu with hu | hu
      · rcases List.mem_cons.mp hu with hu | hu
        · exact .inl hu
        · exact .inr ⟨p, List.mem_cons_self, hu⟩
      · rcases hmem u hu with heq | ⟨q, hq, huq⟩
        · exact .inl heq
        · exact .inr ⟨q, List.mem_cons_of_mem p hq, huq⟩

/-- A side with a dot ends in an IPv4 address, and the dots are those of the IPv4 address. -/
theorem parseSide_dot (h : parseGroups dotted (text.splitOn 58) = some gs) (hdot : 46 ∈ text) :
    dotted = true ∧ ∃ l part os, 58 :: text = l ++ 58 :: part ∧ 46 ∉ l ∧
      parseIPv4 part = some os := by
  have hjoin : [58].intercalate (text.splitOn 58) = text := List.intercalate_splitOn 58
  have hclean : ∀ {init : List (List ℕ)} {l : List ℕ}, (∀ p ∈ init, 46 ∉ p) →
      (∀ u ∈ l, u = 58 ∨ ∃ p ∈ init, u ∈ p) → 46 ∉ l := by
    intro init l hinit hl hmem
    rcases hl 46 hmem with heq | ⟨p, hp, hdotp⟩
    · cases heq
    · exact hinit p hp hdotp
  rcases parseGroups_dot h with hnone | ⟨hdotted, init, part, os, hparts, hos, hinit⟩
  · exfalso
    have hconcat := List.dropLast_concat_getLast (List.splitOn_ne_nil 58 text)
    obtain ⟨l, hl, hmem⟩ := intercalate_concat 58 (text.splitOn 58).dropLast
      ((text.splitOn 58).getLast (List.splitOn_ne_nil 58 text))
    rw [hconcat, hjoin] at hl
    have hl' := hclean (fun p hp => hnone p (List.dropLast_subset _ hp)) hmem
    have hlast := hnone _ (List.getLast_mem (List.splitOn_ne_nil 58 text))
    have hmem' : 46 ∈ l ++ 58 :: (text.splitOn 58).getLast (List.splitOn_ne_nil 58 text) :=
      hl ▸ List.mem_cons_of_mem 58 hdot
    rcases List.mem_append.mp hmem' with hin | hin
    · exact hl' hin
    · rcases List.mem_cons.mp hin with heq | hin
      · cases heq
      · exact hlast hin
  · obtain ⟨l, hl, hmem⟩ := intercalate_concat 58 init part
    rw [← hparts, hjoin] at hl
    exact ⟨hdotted, l, part, os, hl, hclean hinit hmem, hos⟩

theorem parseIPv6_dot (h : parseIPv6 text = some gs) (hdot : 46 ∈ text) :
    ∃ l part os, 58 :: text = l ++ 58 :: part ∧ 46 ∉ l ∧ parseIPv4 part = some os := by
  rw [parseIPv6] at h
  split at h
  next => exact (parseSide_dot (Option.filter_eq_some_iff.mp h).1 hdot).2
  next l r hsplit =>
    simp only [Option.bind_eq_bind, Option.bind_eq_some_iff] at h
    obtain ⟨left, hleft, right, hright, -⟩ := h
    have hl : 46 ∉ l := by
      intro hmem
      rw [parseSide, if_neg (List.ne_nil_of_mem hmem)] at hleft
      cases (parseSide_dot hleft hmem).1
    have htext := splitDouble_eq hsplit
    have hr : 46 ∈ r := by
      rw [htext] at hdot
      simpa [hl] using hdot
    rw [parseSide, if_neg (List.ne_nil_of_mem hr)] at hright
    obtain ⟨-, l', part, os, heq, hl', hos⟩ := parseSide_dot hright hr
    refine ⟨58 :: l ++ 58 :: l', part, os, ?_, ?_, hos⟩
    · rw [htext, heq]
      simp
    · simp [hl, hl']

/-- The mapped form with the address in dots. -/
theorem parseIPv6_mapped {tail : List ℕ}
    (h : parseIPv6 (58 :: 58 :: 102 :: 102 :: 102 :: 102 :: 58 :: tail) = some gs)
    (hdot : 46 ∈ tail.takeWhile (· ≠ 58)) :
    ∃ os, parseIPv4 tail = some os ∧ gs = [0, 0, 0, 0, 0, 65535] ++ twoGroups os := by
  have hfour : hextet [102, 102, 102, 102] = some 65535 := by decide
  have hparts : ([102, 102, 102, 102] ++ 58 :: tail).splitOn 58 =
      [102, 102, 102, 102] :: tail.splitOn 58 :=
    List.splitOn_append_cons_self_of_not_mem (by decide) tail
  rw [List.cons_append, List.cons_append, List.cons_append, List.cons_append,
    List.nil_append] at hparts
  obtain ⟨parts, htail⟩ := splitOn_head 58 tail
  rw [parseIPv6, splitDouble, if_pos ⟨rfl, rfl⟩] at h
  simp only [Option.bind_eq_bind, Option.bind_eq_some_iff] at h
  obtain ⟨left, hleft, right, hright, hall⟩ := h
  cases hleft
  rw [parseSide, if_neg (by simp), hparts, htail, parseGroups, hfour] at hright
  simp only [Option.bind_eq_bind, Option.bind_eq_some_iff] at hright
  obtain ⟨g, hg, rest, hrest, hgroups⟩ := hright
  cases hg
  cases hgroups
  have hlast : hextet (tail.takeWhile (· ≠ 58)) = none := by
    by_contra hsome
    obtain ⟨g, hg⟩ := Option.ne_none_iff_exists'.mp hsome
    exact hextet_plain hg hdot
  cases parts with
  | nil =>
    have hself : tail.takeWhile (· ≠ 58) = tail := by
      have hjoin : [58].intercalate (tail.splitOn 58) = tail := List.intercalate_splitOn 58
      rw [htail] at hjoin
      simpa using hjoin
    rw [parseGroups, hlast, hself] at hrest
    obtain ⟨os, hos, rfl⟩ := Option.map_eq_some_iff.mp hrest
    obtain ⟨a, b, c, d, oa, ob, oc, od, -, -, -, -, -, rfl⟩ := parseIPv4_eq_some hos
    exact ⟨_, hos, (Option.some.inj hall).symm⟩
  | cons part parts =>
    rw [parseGroups, hlast] at hrest
    cases hrest

theorem ofGroups_mapped {os : List ℕ} (h : parseIPv4 text = some os) :
    ofGroups ([0, 0, 0, 0, 0, 65535] ++ twoGroups os) = .v4 os := by
  obtain ⟨a, b, c, d, oa, ob, oc, od, -, ha, hb, hc, hd, rfl⟩ := parseIPv4_eq_some h
  have hb' := (octet_eq_some hb).2.2.2
  have hd' := (octet_eq_some hd).2.2.2
  have hfirst : (256*oa+ob) / 256 = oa ∧ (256*oa+ob) % 256 = ob := by omega
  have hsecond : (256*oc+od) / 256 = oc ∧ (256*oc+od) % 256 = od := by omega
  rw [ofGroups]
  simp only [twoGroups, List.cons_append, List.nil_append, embedded, hfirst.1, hfirst.2,
    hsecond.1, hsecond.2]

/-- A change of the units that leaves the digits and the separators as they are. -/
structure KeepsDigits (f : ℕ → ℕ) : Prop where
  colon : ∀ u, f u = 58 ↔ u = 58
  dot : ∀ u, f u = 46 ↔ u = 46
  decimal : ∀ u, isDecimal (f u) = isDecimal u
  same : ∀ u, isDecimal u = true → f u = u
  hex : ∀ u, isHex (f u) = isHex u
  value : ∀ u, isHex u = true → hexValue (f u) = hexValue u

variable {f : ℕ → ℕ}

theorem splitOn_map {sep : ℕ} (hsep : ∀ u, f u = sep ↔ u = sep) (text : List ℕ) :
    (text.map f).splitOn sep = (text.splitOn sep).map (List.map f) := by
  induction text with
  | nil => rfl
  | cons u text ih =>
    obtain ⟨parts, hparts⟩ := splitOn_head sep text
    rw [List.map_cons, List.splitOn_cons_eq_if_modifyHead, List.splitOn_cons_eq_if_modifyHead, ih]
    by_cases hu : u = sep
    · rw [if_pos (beq_iff_eq.mpr ((hsep u).mpr hu)), if_pos (beq_iff_eq.mpr hu)]
      rfl
    · rw [if_neg (by simpa using mt (hsep u).mp hu), if_neg (by simpa using hu), hparts]
      rfl

theorem splitDouble_map (hf : KeepsDigits f) (text : List ℕ) :
    splitDouble (text.map f) = (splitDouble text).map fun p => (p.1.map f, p.2.map f) := by
  induction text using splitDouble.induct with
  | case1 => rfl
  | case2 => rfl
  | case3 u v rest heq =>
    have hfuv : f u = 58 ∧ f v = 58 := ⟨(hf.colon u).mpr heq.1, (hf.colon v).mpr heq.2⟩
    simp only [List.map_cons, splitDouble, if_pos heq, if_pos hfuv, Option.map_some, List.map_nil]
  | case4 u v rest hne ih =>
    have hfuv : ¬(f u = 58 ∧ f v = 58) := by rwa [hf.colon, hf.colon]
    rw [List.map_cons] at ih
    simp only [List.map_cons, splitDouble, if_neg hne, if_neg hfuv, ih, Option.map_map]
    congr 1

theorem octet_map (hf : KeepsDigits f) (part : List ℕ) : octet (part.map f) = octet part := by
  have hall : (part.map f).all isDecimal = part.all isDecimal := by
    rw [List.all_map]
    congr 1
    ext u
    exact hf.decimal u
  by_cases hdec : part.all isDecimal = true
  · have hself : part.map f = part := by
      calc part.map f = part.map id :=
            List.map_congr_left fun u hu => hf.same u (List.all_eq_true.mp hdec u hu)
        _ = part := List.map_id part
    rw [hself]
  · rw [octet, octet, if_neg (fun h => hdec (hall ▸ h.2.1)), if_neg (fun h => hdec h.2.1)]

theorem parseIPv4_map (hf : KeepsDigits f) (text : List ℕ) :
    parseIPv4 (text.map f) = parseIPv4 text := by
  rw [parseIPv4, parseIPv4, splitOn_map hf.dot]
  match text.splitOn 46 with
  | [] => rfl
  | [_] => rfl
  | [_, _] => rfl
  | [_, _, _] => rfl
  | [a, b, c, d] =>
    simp only [List.map_cons, List.map_nil, octet_map hf]
  | _ :: _ :: _ :: _ :: _ :: _ => rfl

theorem hextet_map (hf : KeepsDigits f) (part : List ℕ) : hextet (part.map f) = hextet part := by
  have hall : (part.map f).all isHex = part.all isHex := by
    rw [List.all_map]
    congr 1
    ext u
    exact hf.hex u
  rw [hextet, hextet, List.length_map, hall]
  by_cases hhex : part.all isHex = true
  · have hvalue : hexadecimal (part.map f) = hexadecimal part := by
      rw [hexadecimal, hexadecimal, List.foldl_map]
      exact List.foldl_ext _ _ _ fun n u hu => by rw [hf.value u (List.all_eq_true.mp hhex u hu)]
    rw [hvalue]
  · rw [if_neg (fun h => hhex h.2.2), if_neg (fun h => hhex h.2.2)]

theorem parseGroups_map (hf : KeepsDigits f) (dotted : Bool) (parts : List (List ℕ)) :
    parseGroups dotted (parts.map (List.map f)) = parseGroups dotted parts := by
  induction parts with
  | nil => rfl
  | cons part parts ih =>
    cases parts with
    | nil =>
      simp only [List.map_cons, List.map_nil, parseGroups, hextet_map hf, parseIPv4_map hf]
    | cons part' parts =>
      rw [List.map_cons] at ih
      simp only [List.map_cons, parseGroups, hextet_map hf, ih]

theorem parseSide_map (hf : KeepsDigits f) (dotted : Bool) (text : List ℕ) :
    parseSide dotted (text.map f) = parseSide dotted text := by
  rw [parseSide, parseSide, splitOn_map hf.colon, parseGroups_map hf]
  simp only [List.map_eq_nil_iff]

theorem parseIPv6_map (hf : KeepsDigits f) (text : List ℕ) :
    parseIPv6 (text.map f) = parseIPv6 text := by
  rw [parseIPv6, parseIPv6, splitDouble_map hf, splitOn_map hf.colon, parseGroups_map hf]
  cases splitDouble text with
  | none => rfl
  | some p => simp only [Option.map_some, parseSide_map hf]

end Pieces

end Address
end LuaRecovery.Lib
