import LuaRecovery.Discord.PrivateIp
import Mathlib.Data.List.TakeWhile

/-!
# Spellings of private addresses

An address has many spellings. Both classifiers read the text, so which private
addresses they find, and whether two spellings get one answer, depends on the
kind of spelling.
-/

set_option autoImplicit false

namespace LuaRecovery.Discord
open LuaRecovery.Lib LuaRecovery.Lib.Address LuaRecovery.Api

/-- The texts of an address: a literal, or an IPv6 literal in brackets, as a URL writes it. The
mapped form of an IPv4 address is a spelling of the IPv4 address. -/
inductive Denotes : CodeUnits → Address → Prop
  | ipv4 {text os : List ℕ} (h : parseIPv4 text = some os) : Denotes text (.v4 os)
  | ipv6 {text gs : List ℕ} (h : parseIPv6 text = some gs) : Denotes text (ofGroups gs)
  | host {text gs : List ℕ} (h : parseIPv6 text = some gs) :
      Denotes (91 :: text ++ [93]) (ofGroups gs)

def uniqueLocal : List ℕ × ℕ := ([64512], 7)

def linkLocal : List ℕ × ℕ := ([65152], 10)

def IsLocal (groups : List ℕ) : Prop :=
  inNetwork 16 uniqueLocal.1 uniqueLocal.2 groups = true ∨
    inNetwork 16 linkLocal.1 linkLocal.2 groups = true

/-- Unspecified, loopback, unique-local and link-local. -/
def closedIPv6 : List (List ℕ × ℕ) :=
  [([0, 0, 0, 0, 0, 0, 0, 0], 128), ([0, 0, 0, 0, 0, 0, 0, 1], 128), uniqueLocal, linkLocal]

/-- Unspecified, loopback, private and link-local. -/
def closedIPv4 : List (List ℕ × ℕ) :=
  [([0], 8), ([127], 8), ([10], 8), ([172, 16], 12), ([192, 168], 16), ([169, 254], 16)]

/-- What the bot keeps out beside these. -/
def SafeFetch.refusedIPv4 : List (List ℕ × ℕ) :=
  closedIPv4 ++ [([100, 64], 10), ([198, 18], 15), ([224], 3)]

def blocked (networks : List (List ℕ × ℕ)) : Address → Bool
  | .v4 octets => networks.any fun n => inNetwork 8 n.1 n.2 octets
  | .v6 groups => closedIPv6.any fun n => inNetwork 16 n.1 n.2 groups

/-- What is asked of a classifier at two texts of one address. -/
def AnswersByAddress (isPrivateIp : CodeUnits → Bool) (networks : List (List ℕ × ℕ))
    (text text' : CodeUnits) (address : Address) : Prop :=
  (blocked networks address = true → isPrivateIp text = true ∧ isPrivateIp text' = true) ∧
    isPrivateIp text = isPrivateIp text'

/-- Both texts are of a kind that is recognised, or, where the address is open, both or neither
of a kind that is mistaken for a closed one. -/
def SpelledAlike (recognised mistaken : CodeUnits → Prop) (networks : List (List ℕ × ℕ))
    (text text' : CodeUnits) (address : Address) : Prop :=
  (blocked networks address = true → recognised text ∧ recognised text') ∧
    (¬ blocked networks address = true → (mistaken text ↔ mistaken text'))

/-- IPv4 addresses, hosts in brackets, local addresses, the shortest spellings of the
unspecified and the loopback address, and four networks in the mapped form with dots. -/
def SafeFetch.Recognised (text : CodeUnits) : Prop :=
  (parseIPv4 text).isSome = true ∨ text.head? = some 91 ∨
    (∃ groups, parseIPv6 text = some groups ∧ IsLocal groups) ∨
    text = units "::" ∨ text = units "::1" ∨
    SafeFetch.startsWithOneOf SafeFetch.mappedStarts (text.map toLowerUnit) = true

/-- Hosts in brackets, and addresses that begin with a short group such as `fc`. -/
def SafeFetch.Mistaken (text : CodeUnits) : Prop :=
  text.head? = some 91 ∨
    SafeFetch.startsWithOneOf SafeFetch.privateStarts (text.map toLowerUnit) = true

/-- IPv4 addresses, three lower-case spellings, and a last part in dots behind a first group that
is written as a zero. -/
def AttachmentFetcher.Recognised (text : CodeUnits) : Prop :=
  (parseIPv4 text).isSome = true ∨ text = units "::1" ∨ text = units "::" ∨
    (units "fe80:").isPrefixOf text = true ∨ (46 ∈ text ∧ text.head? = some 48)

/-- The first group of an address with a last part in dots is taken for an octet. -/
def AttachmentFetcher.Mistaken (text : CodeUnits) : Prop :=
  AttachmentFetcher.isPrivateQuad ((text.splitOn 46).map Queue.parseInt) = true

theorem answersByAddress_iff {isPrivateIp : CodeUnits → Bool}
    {networks : List (List ℕ × ℕ)} {recognised mistaken : CodeUnits → Prop}
    {text text' : CodeUnits} {address : Address}
    (hclosed : ∀ t, Denotes t address → blocked networks address = true →
      (isPrivateIp t = true ↔ recognised t))
    (hopen : ∀ t, Denotes t address → ¬ blocked networks address = true →
      (isPrivateIp t = true ↔ mistaken t))
    (h : Denotes text address) (h' : Denotes text' address) :
    AnswersByAddress isPrivateIp networks text text' address ↔
      SpelledAlike recognised mistaken networks text text' address := by
  have heq : isPrivateIp text = isPrivateIp text' ↔
      (isPrivateIp text = true ↔ isPrivateIp text' = true) := Bool.eq_iff_iff
  rw [AnswersByAddress, SpelledAlike, heq]
  by_cases hblocked : blocked networks address = true
  · rw [hclosed text h hblocked, hclosed text' h' hblocked]
    constructor
    · intro hanswers
      exact ⟨hanswers.1, fun hnot => absurd hblocked hnot⟩
    · intro halike
      have hboth := halike.1 hblocked
      exact ⟨fun _ => hboth, iff_of_true hboth.1 hboth.2⟩
  · rw [hopen text h hblocked, hopen text' h' hblocked]
    constructor
    · intro hanswers
      exact ⟨fun hin => absurd hin hblocked, fun _ => hanswers.2⟩
    · intro halike
      exact ⟨fun hin => absurd hin hblocked, halike.2 hblocked⟩

section Texts
variable {text os gs : List ℕ}

theorem mem_dotted {a b c d : List ℕ} (h : text.splitOn 46 = [a, b, c, d]) :
    text = a ++ 46 :: (b ++ 46 :: (c ++ 46 :: d)) := by
  have hjoin : [46].intercalate (text.splitOn 46) = text := List.intercalate_splitOn 46
  rw [h] at hjoin
  simpa using hjoin.symm

theorem parseIPv4_units (h : parseIPv4 text = some os) : ∀ u ∈ text, 46 ≤ u ∧ u ≤ 57 := by
  obtain ⟨a, b, c, d, oa, ob, oc, od, hparts, ha, hb, hc, hd, -⟩ := parseIPv4_eq_some h
  have hoctet : ∀ {part : List ℕ} {n : ℕ}, octet part = some n → ∀ u ∈ part, 46 ≤ u ∧ u ≤ 57 := by
    intro part n hn u hu
    have hdec := List.all_eq_true.mp (octet_eq_some hn).2.1 u hu
    simp only [isDecimal, Bool.and_eq_true, decide_eq_true_eq] at hdec
    omega
  intro u hu
  rw [mem_dotted hparts] at hu
  simp only [List.mem_append, List.mem_cons] at hu
  rcases hu with hu | rfl | hu | rfl | hu | rfl | hu
  · exact hoctet ha u hu
  · omega
  · exact hoctet hb u hu
  · omega
  · exact hoctet hc u hu
  · omega
  · exact hoctet hd u hu

/-- No text is an address of both kinds. -/
theorem parseIPv6_none (h : parseIPv4 text = some os) : parseIPv6 text = none := by
  have hunits := parseIPv4_units h
  by_contra hsome
  obtain ⟨gs, hgs⟩ := Option.ne_none_iff_exists'.mp hsome
  rcases parseIPv6_head hgs with ⟨r, rfl⟩ | ⟨g, hg, -⟩
  · have hcolon := hunits 58 (by simp)
    omega
  · have hall : text.takeWhile (· ≠ 58) = text := by
      rw [List.takeWhile_eq_self_iff]
      intro u hu
      have := hunits u hu
      simp only [ne_eq, decide_eq_true_eq]
      omega
    obtain ⟨a, b, c, d, -, -, -, -, hparts, -, -, -, -, -⟩ := parseIPv4_eq_some h
    rw [hall] at hg
    apply hextet_plain hg
    rw [mem_dotted hparts]
    simp

theorem parseIPv4_none (h : parseIPv6 text = some gs) : parseIPv4 text = none := by
  by_contra hsome
  obtain ⟨os, hos⟩ := Option.ne_none_iff_exists'.mp hsome
  rw [parseIPv6_none hos] at h
  cases h

theorem parseIPv4_bracket (text : List ℕ) : parseIPv4 (91 :: text) = none := by
  by_contra hsome
  obtain ⟨os, hos⟩ := Option.ne_none_iff_exists'.mp hsome
  have := parseIPv4_units hos 91 List.mem_cons_self
  omega

theorem parseIPv6_bracket (text : List ℕ) : parseIPv6 (91 :: text) = none := by
  by_contra hsome
  obtain ⟨gs, hgs⟩ := Option.ne_none_iff_exists'.mp hsome
  rcases parseIPv6_head hgs with ⟨r, hr⟩ | ⟨g, hg, -⟩
  · cases hr
  · rw [List.takeWhile_cons_of_pos (by decide)] at hg
    cases (hextet_eq_some hg).2.2.1 91 List.mem_cons_self

/-- The first digit of a text tells whether its first group is zero. -/
theorem head_zero (h : parseIPv6 text = some gs) (hzero : gs.head? = some 0) :
    (∃ r, text = 58 :: r) ∨ ∃ zeros, (∀ u ∈ zeros, u = 48) ∧ zeros ≠ [] ∧
      text.takeWhile (· ≠ 58) = zeros := by
  rcases parseIPv6_head h with ⟨r, rfl⟩ | ⟨g, hg, hhead⟩
  · exact .inl ⟨_, rfl⟩
  · rw [hzero] at hhead
    cases hhead
    obtain ⟨hpos, -, hhex, hvalue⟩ := hextet_eq_some hg
    exact .inr ⟨_, hexadecimal_zero hhex hvalue, List.ne_nil_of_length_pos hpos, rfl⟩

theorem head_zeros {zeros : List ℕ} (hzeros : ∀ u ∈ zeros, u = 48) (hne : zeros ≠ [])
    (htake : text.takeWhile (· ≠ 58) = zeros) : text.head? = some 48 := by
  obtain ⟨u, zeros', rfl⟩ := List.exists_cons_of_ne_nil hne
  obtain ⟨rest, hrest⟩ := List.takeWhile_prefix (l := text) (· ≠ 58)
  rw [htake, hzeros u List.mem_cons_self] at hrest
  rw [← hrest]
  rfl

theorem head_of_zero (h : parseIPv6 text = some gs) (hzero : gs.head? = some 0) :
    text.head? = some 58 ∨ text.head? = some 48 := by
  rcases head_zero h hzero with ⟨r, rfl⟩ | ⟨zeros, hzeros, hne, htake⟩
  · exact .inl rfl
  · exact .inr (head_zeros hzeros hne htake)

theorem head_ne_bracket (h : parseIPv6 text = some gs) : text.head? ≠ some 91 := by
  intro hhead
  obtain ⟨rest, rfl⟩ := List.head?_eq_some_iff.mp hhead
  rw [parseIPv6_bracket] at h
  cases h

theorem isLocal_head {g : ℕ} (hg : g < 65536) (hhead : gs.head? = some g) :
    IsLocal gs ↔ (64512 ≤ g ∧ g ≤ 65023) ∨ (65152 ≤ g ∧ g ≤ 65215) := by
  cases gs with
  | nil => cases hhead
  | cons g' gs =>
    cases hhead
    rw [IsLocal, uniqueLocal, linkLocal, inNetwork_short (by decide) (by decide),
      inNetwork_short (by decide) (by decide)]
    simp only [Nat.shiftRight_eq_div_pow, Nat.reduceSub, Nat.reducePow, Nat.reduceDiv]
    omega

theorem isLocal_or_zero {networks : List (List ℕ × ℕ)} (h : parseIPv6 text = some gs)
    (hblocked : blocked networks (ofGroups gs) = true) :
    IsLocal gs ∨ gs.head? = some 0 := by
  have hne : gs ≠ [] := by
    rintro rfl
    rcases parseIPv6_head h with ⟨r, rfl⟩ | ⟨g, -, hhead⟩
    · cases parseIPv6_double h
    · cases hhead
  obtain ⟨g, gs', rfl⟩ := List.exists_cons_of_ne_nil hne
  rcases ofGroups_cases (g :: gs') with hzero | hgroups
  · exact .inr hzero
  · rw [hgroups] at hblocked
    simp only [blocked, closedIPv6, List.any_cons, List.any_nil, Bool.or_false,
      Bool.or_eq_true] at hblocked
    rcases hblocked with hin | hin | hin | hin
    · rw [inNetwork_long (by decide) (by decide)] at hin
      rw [hin.1]
      exact .inr rfl
    · rw [inNetwork_long (by decide) (by decide)] at hin
      rw [hin.1]
      exact .inr rfl
    · exact .inl (.inl hin)
    · exact .inl (.inr hin)

theorem blocked_local {networks : List (List ℕ × ℕ)} (h : gs.head? ≠ some 0)
    (hlocal : IsLocal gs) : blocked networks (ofGroups gs) = true := by
  rw [(ofGroups_cases gs).resolve_left h]
  simp only [blocked, closedIPv6, List.any_cons, List.any_nil, Bool.or_false, Bool.or_eq_true]
  exact .inr (.inr hlocal)

/-- A group of this size has four digits, of which the first is the greatest. -/
theorem isLocal_digits (h : parseIPv6 text = some gs) (hlocal : IsLocal gs) :
    ∃ x y z w rest, text = x :: y :: z :: w :: rest ∧ (∀ u ∈ [x, y, z, w], isHex u = true) ∧
      hexValue x = 15 ∧ (hexValue y = 12 ∨ hexValue y = 13 ∨
        hexValue y = 14 ∧ 8 ≤ hexValue z ∧ hexValue z ≤ 11) := by
  rcases parseIPv6_head h with ⟨r, rfl⟩ | ⟨g, hg, hhead⟩
  · have hzero := parseIPv6_double h
    rw [isLocal_head (by decide) hzero] at hlocal
    omega
  · have hhex := (hextet_eq_some hg).2.2.1
    rw [isLocal_head (hextet_lt hg) hhead] at hlocal
    obtain ⟨x, y, z, w, hfour, hvalue⟩ := hextet_four hg (by omega)
    rw [hfour] at hhex
    have hx := hexValue_lt (hhex x (by simp))
    have hy := hexValue_lt (hhex y (by simp))
    have hz := hexValue_lt (hhex z (by simp))
    have hw := hexValue_lt (hhex w (by simp))
    obtain ⟨rest, hrest⟩ := List.takeWhile_prefix (l := text) (· ≠ 58)
    rw [hfour] at hrest
    exact ⟨x, y, z, w, rest, hrest.symm, hhex, by omega, by omega⟩

end Texts

section Starts
open SafeFetch
variable {text gs : List ℕ} {starts : List String} {networks : List (List ℕ × ℕ)}

theorem keepsDigits_toLowerUnit : KeepsDigits toLowerUnit where
  colon u := by rw [toLowerUnit]; split <;> omega
  dot u := by rw [toLowerUnit]; split <;> omega
  decimal u := by
    rw [toLowerUnit, isDecimal, isDecimal, Bool.eq_iff_iff]
    simp only [Bool.and_eq_true, decide_eq_true_eq]
    split <;> omega
  same u hu := by
    simp only [isDecimal, Bool.and_eq_true, decide_eq_true_eq] at hu
    rw [toLowerUnit, if_neg (by omega)]
  hex u := by
    rw [toLowerUnit, isHex, isHex, Bool.eq_iff_iff]
    simp only [Bool.or_eq_true, Bool.and_eq_true, decide_eq_true_eq]
    split <;> omega
  value u hu := by
    simp only [isHex, Bool.or_eq_true, Bool.and_eq_true, decide_eq_true_eq] at hu
    rw [toLowerUnit]
    by_cases hupper : 65 ≤ u ∧ u ≤ 90
    · rw [if_pos hupper, hexValue, hexValue, if_neg (by omega), if_neg (by omega),
        if_neg (by omega), if_pos (by omega)]
      omega
    · rw [if_neg hupper]

theorem startsWithOneOf_iff :
    startsWithOneOf starts text = true ↔ ∃ start ∈ starts.map units, start <+: text := by
  rw [startsWithOneOf, List.any_eq_true]
  simp only [List.isPrefixOf_iff_prefix, List.mem_map, exists_exists_and_eq_and]

theorem privateStarts_units : privateStarts.map units =
    [[102, 99], [102, 100], [102, 101, 56], [102, 101, 57], [102, 101, 97], [102, 101, 98]] := by
  decide

theorem mappedStarts_units : mappedStarts.map units =
    [[58, 58, 102, 102, 102, 102, 58, 49, 50, 55, 46], [58, 58, 102, 102, 102, 102, 58, 49, 48, 46],
      [58, 58, 102, 102, 102, 102, 58, 49, 57, 50, 46, 49, 54, 56, 46],
      [58, 58, 102, 102, 102, 102, 58, 49, 54, 57, 46, 50, 53, 52, 46]] := by
  decide

theorem privateStarts_head (h : startsWithOneOf privateStarts text = true) :
    text.head? = some 102 := by
  rw [startsWithOneOf_iff, privateStarts_units] at h
  obtain ⟨start, hstart, rest, rfl⟩ := h
  simp only [List.mem_cons, List.not_mem_nil, or_false] at hstart
  rcases hstart with rfl | rfl | rfl | rfl | rfl | rfl <;> rfl

/-- A local address begins with one of the starts that the bot knows, once it is in lower case. -/
theorem privateStarts_local (h : parseIPv6 text = some gs) (hlocal : IsLocal gs) :
    startsWithOneOf privateStarts (text.map toLowerUnit) = true := by
  have hlower : parseIPv6 (text.map toLowerUnit) = some gs := by
    rw [parseIPv6_map keepsDigits_toLowerUnit, h]
  obtain ⟨x, y, z, w, rest, htext, hhex, hx, hyz⟩ := isLocal_digits hlower hlocal
  have hplain : ∀ u ∈ text.map toLowerUnit, ¬(65 ≤ u ∧ u ≤ 90) := by
    intro u hu
    obtain ⟨v, -, rfl⟩ := List.mem_map.mp hu
    rw [toLowerUnit]
    split <;> omega
  rw [htext] at hplain ⊢
  have hdigit : ∀ u ∈ [x, y, z], (10 ≤ hexValue u → u = hexValue u + 87) ∧
      (hexValue u < 10 → u = hexValue u + 48) := by
    intro u hu
    have hu' := hhex u (by simp at hu ⊢; tauto)
    have hu'' := hplain u (by simp at hu ⊢; tauto)
    simp only [isHex, Bool.or_eq_true, Bool.and_eq_true, decide_eq_true_eq] at hu'
    rw [hexValue]
    split
    · omega
    · split <;> omega
  have hfirst : x = 102 := by
    have := (hdigit x (by simp)).1 (by omega)
    omega
  have hsecond := (hdigit y (by simp)).1 (by omega)
  rw [startsWithOneOf_iff, privateStarts_units, hfirst]
  rcases hyz with hy | hy | ⟨hy, hlow, hhigh⟩
  · have hy' : y = 99 := by omega
    rw [hy']
    exact ⟨[102, 99], by simp, z :: w :: rest, rfl⟩
  · have hy' : y = 100 := by omega
    rw [hy']
    exact ⟨[102, 100], by simp, z :: w :: rest, rfl⟩
  · have hy' : y = 101 := by omega
    have hz : z = 56 ∨ z = 57 ∨ z = 97 ∨ z = 98 := by
      have hthird := hdigit z (by simp)
      omega
    rw [hy']
    rcases hz with rfl | rfl | rfl | rfl
    · exact ⟨[102, 101, 56], by simp, w :: rest, rfl⟩
    · exact ⟨[102, 101, 57], by simp, w :: rest, rfl⟩
    · exact ⟨[102, 101, 97], by simp, w :: rest, rfl⟩
    · exact ⟨[102, 101, 98], by simp, w :: rest, rfl⟩

/-- The first octet of an address in dots is the text before the first dot. -/
theorem parseIPv4_first {l rest os : List ℕ} (h : parseIPv4 (l ++ 46 :: rest) = some os)
    (hl : 46 ∉ l) : ∃ a b os', octet l = some a ∧ os = a :: b :: os' ∧
      ∀ m rest', rest = m ++ 46 :: rest' → 46 ∉ m → octet m = some b := by
  obtain ⟨a, b, c, d, oa, ob, oc, od, hparts, ha, hb, -, -, rfl⟩ := parseIPv4_eq_some h
  rw [List.splitOn_append_cons_self_of_not_mem hl] at hparts
  obtain ⟨hla, htail⟩ := List.cons.inj hparts
  refine ⟨oa, ob, [oc, od], hla ▸ ha, rfl, ?_⟩
  rintro m rest' rfl hm
  rw [List.splitOn_append_cons_self_of_not_mem hm] at htail
  exact (List.cons.inj htail).1 ▸ hb

theorem ofGroups_dotted {l rest : List ℕ}
    (h : parseIPv6 (58 :: 58 :: 102 :: 102 :: 102 :: 102 :: 58 :: (l ++ 46 :: rest)) = some gs)
    (hl : ∀ u ∈ l, u ≠ 46 ∧ u ≠ 58) :
    ∃ a b os', octet l = some a ∧ ofGroups gs = .v4 (a :: b :: os') ∧
      ∀ m rest', rest = m ++ 46 :: rest' → 46 ∉ m → octet m = some b := by
  have hdot : 46 ∈ (l ++ 46 :: rest).takeWhile (· ≠ 58) := by
    rw [List.takeWhile_append_of_pos (by simpa using fun u hu => (hl u hu).2)]
    simp
  obtain ⟨os, hos, rfl⟩ := parseIPv6_mapped h hdot
  obtain ⟨a, b, os', ha, rfl, hb⟩ := parseIPv4_first hos (fun hmem => (hl 46 hmem).1 rfl)
  exact ⟨a, b, os', ha, ofGroups_mapped hos, hb⟩

/-- The mapped starts are those of closed addresses. -/
theorem blocked_mapped {more : List (List ℕ × ℕ)} (h : parseIPv6 text = some gs)
    (hstart : startsWithOneOf mappedStarts text = true) :
    blocked (closedIPv4 ++ more) (ofGroups gs) = true := by
  rw [startsWithOneOf_iff, mappedStarts_units] at hstart
  obtain ⟨start, hmem, rest, rfl⟩ := hstart
  have hblocked : ∀ {os : List ℕ}, (closedIPv4.any fun n => inNetwork 8 n.1 n.2 os) = true →
      blocked (closedIPv4 ++ more) (.v4 os) = true := by
    intro os hany
    rw [blocked, List.any_append, hany, Bool.true_or]
  simp only [List.mem_cons, List.not_mem_nil, or_false] at hmem
  rcases hmem with rfl | rfl | rfl | rfl
  · obtain ⟨a, b, os', ha, hgroups, -⟩ := ofGroups_dotted (l := [49, 50, 55]) h (by decide)
    cases (show octet [49, 50, 55] = some 127 by decide).symm.trans ha
    rw [hgroups]
    exact hblocked rfl
  · obtain ⟨a, b, os', ha, hgroups, -⟩ := ofGroups_dotted (l := [49, 48]) h (by decide)
    cases (show octet [49, 48] = some 10 by decide).symm.trans ha
    rw [hgroups]
    exact hblocked rfl
  · obtain ⟨a, b, os', ha, hgroups, hb⟩ := ofGroups_dotted (l := [49, 57, 50]) h (by decide)
    cases (show octet [49, 57, 50] = some 192 by decide).symm.trans ha
    cases (show octet [49, 54, 56] = some 168 by decide).symm.trans
      (hb [49, 54, 56] rest rfl (by decide))
    rw [hgroups]
    exact hblocked rfl
  · obtain ⟨a, b, os', ha, hgroups, hb⟩ := ofGroups_dotted (l := [49, 54, 57]) h (by decide)
    cases (show octet [49, 54, 57] = some 169 by decide).symm.trans ha
    cases (show octet [50, 53, 52] = some 254 by decide).symm.trans
      (hb [50, 53, 52] rest rfl (by decide))
    rw [hgroups]
    exact hblocked rfl

theorem blocked_shortest (h : parseIPv6 text = some gs)
    (hshort : text = units "::" ∨ text = units "::1") : blocked networks (ofGroups gs) = true := by
  rcases hshort with rfl | rfl
  · cases (show parseIPv6 (units "::") = some [0, 0, 0, 0, 0, 0, 0, 0] by decide).symm.trans h
    rfl
  · cases (show parseIPv6 (units "::1") = some [0, 0, 0, 0, 0, 0, 0, 1] by decide).symm.trans h
    rfl

theorem map_toLowerUnit_eq {digits : List ℕ} (hdigits : ∀ u ∈ digits, u < 65) :
    text.map toLowerUnit = digits ↔ text = digits := by
  induction text generalizing digits with
  | nil => simp
  | cons u text ih =>
    cases digits with
    | nil => simp
    | cons v digits =>
      have hv := hdigits v List.mem_cons_self
      rw [List.map_cons, List.cons.injEq, List.cons.injEq,
        ih (fun w hw => hdigits w (List.mem_cons_of_mem v hw))]
      have hunit : toLowerUnit u = v ↔ u = v := by
        rw [toLowerUnit]
        split <;> omega
      rw [hunit]

end Starts

namespace SafeFetch
variable {text os gs : List ℕ}

theorem isPrivateIp_ipv4 (h : parseIPv4 text = some os) :
    isPrivateIp text = true ↔ blocked refusedIPv4 (.v4 os) = true := by
  have hne : text ≠ [] := by
    rintro rfl
    cases h
  have hv4 : isIPv4 text = true := by rw [isIPv4, h, Option.isSome_some]
  obtain ⟨a, b, c, d, oa, ob, oc, od, hparts, ha, hb, hc, hd, rfl⟩ := parseIPv4_eq_some h
  have ha' := octet_eq_some ha
  have hb' := octet_eq_some hb
  rw [isPrivateIp, if_neg hne, if_pos hv4, hparts]
  rw [List.map_cons, List.map_cons, ha'.2.2.1, hb'.2.2.1, blocked, refusedIPv4, closedIPv4]
  simp (disch := decide) only [List.cons_append, List.nil_append, List.any_cons, List.any_nil,
    Bool.or_false, Bool.or_eq_true, Bool.and_eq_true, decide_eq_true_eq, inNetwork_long,
    inNetwork_short, inNetwork_nil, and_true, Nat.shiftRight_eq_div_pow, Nat.reduceSub,
    Nat.reducePow, Nat.reduceDiv, isPrivateOctets]
  rw [show ob / 16 = 1 ↔ 16 ≤ ob ∧ ob ≤ 31 by omega,
    show ob / 64 = 1 ↔ 64 ≤ ob ∧ ob ≤ 127 by omega, show ob / 2 = 9 ↔ ob = 18 ∨ ob = 19 by omega,
    show oa / 32 = 7 ↔ 224 ≤ oa by omega]
  simp only [and_assoc, or_assoc, or_comm, or_left_comm]

theorem isPrivateIp_ipv6 (h : parseIPv6 text = some gs) :
    isPrivateIp text = true ↔ (text = units "::" ∨ text = units "::1") ∨
      startsWithOneOf privateStarts (text.map toLowerUnit) = true ∨
      startsWithOneOf mappedStarts (text.map toLowerUnit) = true := by
  have hne : text ≠ [] := by
    rintro rfl
    cases h
  have hv4 : ¬isIPv4 text = true := by rw [isIPv4, parseIPv4_none h]; decide
  have hv6 : isIPv6 text = true := by rw [isIPv6, h, Option.isSome_some, Bool.true_or]
  rw [isPrivateIp, if_neg hne, if_neg hv4, if_pos hv6]
  simp only [Bool.or_eq_true, decide_eq_true_eq]
  rw [map_toLowerUnit_eq (by decide), map_toLowerUnit_eq (by decide), or_assoc]

theorem isPrivateIp_host (rest : List ℕ) : isPrivateIp (91 :: rest) = true := by
  have hv4 : ¬isIPv4 (91 :: rest) = true := by rw [isIPv4, parseIPv4_bracket]; decide
  have hv6 : ¬isIPv6 (91 :: rest) = true := by
    rw [isIPv6, parseIPv6_bracket, List.takeWhile_cons_of_pos (by decide), parseIPv6_bracket]
    simp
  rw [isPrivateIp, if_neg (List.cons_ne_nil _ _), if_neg hv4, if_neg hv6]

theorem isPrivateIp_closed {text : CodeUnits} {address : Address} (h : Denotes text address)
    (hblocked : blocked refusedIPv4 address = true) :
    isPrivateIp text = true ↔ Recognised text := by
  cases h with
  | ipv4 hos =>
    exact iff_of_true ((isPrivateIp_ipv4 hos).mpr hblocked)
      (.inl (by rw [hos, Option.isSome_some]))
  | host hgs => exact iff_of_true (isPrivateIp_host _) (.inr (.inl rfl))
  | ipv6 hgs =>
    rename_i gs
    rw [isPrivateIp_ipv6 hgs]
    constructor
    · rintro (hshort | hprivate | hmapped)
      · exact .inr (.inr (.inr (or_assoc.mp (.inl hshort))))
      · rcases isLocal_or_zero hgs hblocked with hlocal | hzero
        · exact .inr (.inr (.inl ⟨gs, hgs, hlocal⟩))
        · exfalso
          have hlower : parseIPv6 (text.map toLowerUnit) = some gs := by
            rw [parseIPv6_map keepsDigits_toLowerUnit, hgs]
          have hhead := head_of_zero hlower hzero
          rw [privateStarts_head hprivate] at hhead
          simp at hhead
      · exact .inr (.inr (.inr (.inr (.inr hmapped))))
    · rintro (hv4 | hhost | ⟨gs', hgs', hlocal⟩ | hshort | hshort | hmapped)
      · rw [parseIPv4_none hgs] at hv4
        cases hv4
      · exact absurd hhost (head_ne_bracket hgs)
      · cases hgs.symm.trans hgs'
        exact .inr (.inl (privateStarts_local hgs hlocal))
      · exact .inl (.inl hshort)
      · exact .inl (.inr hshort)
      · exact .inr (.inr hmapped)

theorem isPrivateIp_open {text : CodeUnits} {address : Address} (h : Denotes text address)
    (hopen : ¬ blocked refusedIPv4 address = true) :
    isPrivateIp text = true ↔ Mistaken text := by
  cases h with
  | ipv4 hos =>
    have hhead : ∀ u, text.head? = some u → 46 ≤ u ∧ u ≤ 57 :=
      fun u hu => parseIPv4_units hos u (List.mem_of_mem_head? hu)
    refine iff_of_false (fun hprivate => hopen ((isPrivateIp_ipv4 hos).mp hprivate)) ?_
    rintro (hhost | hprivate)
    · have := hhead 91 hhost
      omega
    · have hlower := privateStarts_head hprivate
      rw [List.head?_map, Option.map_eq_some_iff] at hlower
      obtain ⟨u, hu, hvalue⟩ := hlower
      have := hhead u hu
      rw [toLowerUnit] at hvalue
      split at hvalue <;> omega
  | host hgs => exact iff_of_true (isPrivateIp_host _) (.inl rfl)
  | ipv6 hgs =>
    rename_i gs
    have hlower : parseIPv6 (text.map toLowerUnit) = some gs := by
      rw [parseIPv6_map keepsDigits_toLowerUnit, hgs]
    rw [isPrivateIp_ipv6 hgs]
    constructor
    · rintro (hshort | hprivate | hmapped)
      · exact absurd (blocked_shortest hgs hshort) hopen
      · exact .inr hprivate
      · exact absurd (blocked_mapped hlower hmapped) hopen
    · rintro (hhost | hprivate)
      · exact absurd hhost (head_ne_bracket hgs)
      · exact .inr (.inl hprivate)

end SafeFetch

namespace AttachmentFetcher
variable {text os gs : List ℕ}

theorem parseInt_cons {u : ℕ} (hu : 46 ≤ u ∧ u ≤ 102) (rest : List ℕ) :
    Queue.parseInt (u :: rest) = (Queue.parseDigits (u :: rest)).map fun n : ℕ => (n : ℤ) := by
  have hspace : ¬Queue.isSpace u = true := by
    simp only [Queue.isSpace, Bool.or_eq_true, Bool.and_eq_true, decide_eq_true_eq, List.mem_cons,
      List.not_mem_nil, or_false]
    omega
  rw [Queue.parseInt, List.dropWhile_cons_of_neg hspace]
  split
  next heq =>
    have := (List.cons.inj heq).1
    omega
  next heq =>
    have := (List.cons.inj heq).1
    omega
  next => rfl

theorem parseDigits_append {digits : List ℕ} (rest : List ℕ) (hdigits : digits.all isDecimal = true)
    (hne : digits ≠ []) (hrest : rest.takeWhile Queue.isDigit = []) :
    Queue.parseDigits (digits ++ rest) = some (decimal digits) := by
  have htake : (digits ++ rest).takeWhile Queue.isDigit = digits := by
    rw [List.takeWhile_append_of_pos (p := Queue.isDigit) (List.all_eq_true.mp hdigits), hrest,
      List.append_nil]
  obtain ⟨d, digits', rfl⟩ := List.exists_cons_of_ne_nil hne
  rw [Queue.parseDigits, htake]
  rfl

theorem parseInt_octet {part : List ℕ} {n : ℕ} (h : octet part = some n) :
    Queue.parseInt part = some (n : ℤ) := by
  obtain ⟨hne, hall, rfl, -⟩ := octet_eq_some h
  have hdigits := parseDigits_append [] hall hne rfl
  rw [List.append_nil] at hdigits
  obtain ⟨u, rest, rfl⟩ := List.exists_cons_of_ne_nil hne
  have hu := List.all_eq_true.mp hall u List.mem_cons_self
  simp only [isDecimal, Bool.and_eq_true, decide_eq_true_eq] at hu
  rw [parseInt_cons (by omega), hdigits]
  rfl

theorem parseInt_zeros {zeros : List ℕ} (hzeros : ∀ u ∈ zeros, u = 48) (hne : zeros ≠ [])
    (rest : List ℕ) : Queue.parseInt (zeros ++ 58 :: rest) = some 0 := by
  have hall : zeros.all isDecimal = true := by
    rw [List.all_eq_true]
    intro u hu
    rw [hzeros u hu]
    rfl
  have hvalue : decimal zeros = 0 := by
    rw [List.eq_replicate_of_mem hzeros, decimal]
    generalize zeros.length = n
    induction n with
    | zero => rfl
    | succ n ih => rwa [List.replicate_succ, List.foldl_cons]
  have hdigits := parseDigits_append _ hall hne
    (List.takeWhile_cons_of_neg (p := Queue.isDigit) (a := 58) (l := rest) (by decide))
  obtain ⟨u, zeros', rfl⟩ := List.exists_cons_of_ne_nil hne
  have hu := hzeros u List.mem_cons_self
  rw [List.cons_append] at hdigits ⊢
  rw [parseInt_cons (by omega), hdigits, hvalue]
  rfl

/-- A number begins with a space, a sign or a digit. -/
theorem parseInt_none {u : ℕ} (h : u = 58 ∨ u = 70 ∨ u = 91 ∨ u = 102) (rest : List ℕ) :
    Queue.parseInt (u :: rest) = none := by
  have hdigit : ¬Queue.isDigit u = true := by
    simp only [Queue.isDigit, Bool.and_eq_true, decide_eq_true_eq]
    omega
  rw [parseInt_cons (by omega), Queue.parseDigits, List.takeWhile_cons_of_neg hdigit]
  rfl

theorem isPrivateIp_iff (hne : text ≠ []) : isPrivateIp text = true ↔
    text = units "::1" ∨ text = units "::" ∨ (units "fe80:").isPrefixOf text = true ∨
      Mistaken text := by
  rw [isPrivateIp, if_neg hne, Mistaken]
  split
  next h =>
    simp only [Bool.or_eq_true, decide_eq_true_eq] at h
    tauto
  next h =>
    simp only [Bool.or_eq_true, decide_eq_true_eq] at h
    tauto

theorem mistaken_ipv4 (h : parseIPv4 text = some os) :
    Mistaken text ↔ blocked closedIPv4 (.v4 os) = true := by
  obtain ⟨a, b, c, d, oa, ob, oc, od, hparts, ha, hb, hc, hd, rfl⟩ := parseIPv4_eq_some h
  have hle := (octet_eq_some ha).2.2.2
  have hb' := (octet_eq_some hb).2.2.2
  have hc' := (octet_eq_some hc).2.2.2
  have hd' := (octet_eq_some hd).2.2.2
  rw [Mistaken, hparts, List.map_cons, List.map_cons, List.map_cons, List.map_cons, List.map_nil,
    parseInt_octet ha, parseInt_octet hb, parseInt_octet hc, parseInt_octet hd, blocked, closedIPv4]
  simp (disch := decide) only [List.any_cons, List.any_nil, List.all_cons, List.all_nil,
    Bool.and_true, Bool.or_false, Bool.or_eq_true, Bool.and_eq_true, decide_eq_true_eq,
    inNetwork_long, inNetwork_short, inNetwork_nil, and_true, Nat.shiftRight_eq_div_pow,
    Nat.reduceSub, Nat.reducePow, Nat.reduceDiv, isPrivateQuad]
  omega

theorem not_mistaken {u : ℕ} (hu : u = 58 ∨ u = 70 ∨ u = 91 ∨ u = 102) (rest : List ℕ) :
    ¬Mistaken (u :: rest) := by
  obtain ⟨parts, hparts⟩ := splitOn_head 46 (u :: rest)
  rw [List.takeWhile_cons_of_pos (by simp; omega)] at hparts
  rw [Mistaken, hparts, List.map_cons, parseInt_none hu]
  intro h
  cases h

theorem dot_of_mistaken (h : Mistaken text) : 46 ∈ text := by
  by_contra hdot
  rw [Mistaken, List.splitOn_eq_singleton hdot, List.map_cons, List.map_nil] at h
  cases hfirst : Queue.parseInt text with
  | none =>
    rw [hfirst] at h
    cases h
  | some n =>
    rw [hfirst] at h
    cases h

/-- A zero before a colon is taken for the first octet. -/
theorem mistaken_zeros {zeros : List ℕ} (h : parseIPv6 text = some gs) (hdot : 46 ∈ text)
    (hzeros : ∀ u ∈ zeros, u = 48) (hne : zeros ≠ []) (htake : text.takeWhile (· ≠ 58) = zeros) :
    Mistaken text := by
  obtain ⟨l, part, os, heq, hl, hos⟩ := parseIPv6_dot h hdot
  obtain ⟨a, b, c, d, oa, ob, oc, od, hparts, ha, hb, hc, hd, rfl⟩ := parseIPv4_eq_some hos
  have hb' := (octet_eq_some hb).2.2.2
  have hc' := (octet_eq_some hc).2.2.2
  have hd' := (octet_eq_some hd).2.2.2
  cases l with
  | nil =>
    cases heq
    rw [parseIPv6_none hos] at h
    cases h
  | cons u l =>
    rw [List.cons_append] at heq
    obtain ⟨-, rfl⟩ := List.cons.inj heq
    rw [takeWhile_append_sep] at htake
    obtain ⟨digits, rest, hfirst, hdigits⟩ := List.eq_append_cons_of_mem
      (show 58 ∈ l ++ 58 :: a by simp)
    have hself : digits = zeros := by
      rw [← htake, ← takeWhile_append_sep l a, hfirst, takeWhile_append_sep, eq_comm,
        List.takeWhile_eq_self_iff]
      intro v hv
      simpa using fun heq' : v = 58 => hdigits (heq' ▸ hv)
    have hsplit : (l ++ 58 :: part).splitOn 46 = [l ++ 58 :: a, b, c, d] := by
      have hpre : 46 ∉ l ++ [58] := by
        simpa using fun hmem => hl (List.mem_cons_of_mem u hmem)
      have happend := splitOn_append_left hpre part
      rw [hparts, List.modifyHead_cons] at happend
      simpa using happend
    rw [Mistaken, hsplit, List.map_cons, List.map_cons, List.map_cons, List.map_cons,
      List.map_nil, hfirst, hself, parseInt_zeros hzeros hne, parseInt_octet hb,
      parseInt_octet hc, parseInt_octet hd]
    simp only [List.all_cons, List.all_nil, Bool.and_true, Bool.or_eq_true, Bool.and_eq_true,
      decide_eq_true_eq, or_true, true_or, and_true, isPrivateQuad]
    omega

theorem blocked_start {networks : List (List ℕ × ℕ)} (h : parseIPv6 text = some gs)
    (hstart : (units "fe80:").isPrefixOf text = true) : blocked networks (ofGroups gs) = true := by
  obtain ⟨rest, rfl⟩ := List.isPrefixOf_iff_prefix.mp hstart
  rcases parseIPv6_head h with ⟨r, hr⟩ | ⟨g, hg, hhead⟩
  · cases hr
  · cases (show hextet [102, 101, 56, 48] = some 65152 by decide).symm.trans hg
    apply blocked_local
    · rw [hhead]
      decide
    · rw [isLocal_head (by decide) hhead]
      omega

theorem not_short (h : parseIPv4 text = some os) : text ≠ units "::1" ∧ text ≠ units "::" ∧
    ¬(units "fe80:").isPrefixOf text = true := by
  have hcolon : 58 ∉ text := by
    intro hmem
    have := parseIPv4_units h 58 hmem
    omega
  refine ⟨?_, ?_, ?_⟩
  · rintro rfl
    exact hcolon (by decide)
  · rintro rfl
    exact hcolon (by decide)
  · intro hstart
    exact hcolon ((List.isPrefixOf_iff_prefix.mp hstart).subset (by decide))

theorem not_short_host (rest : List ℕ) : 91 :: rest ≠ units "::1" ∧ 91 :: rest ≠ units "::" ∧
    ¬(units "fe80:").isPrefixOf (91 :: rest) = true := by
  refine ⟨?_, ?_, ?_⟩
  · intro h
    cases h
  · intro h
    cases h
  · intro h
    cases h

theorem isPrivateIp_open {text : CodeUnits} {address : Address} (h : Denotes text address)
    (hopen : ¬ blocked closedIPv4 address = true) :
    isPrivateIp text = true ↔ Mistaken text := by
  have hne : text ≠ [] := by
    rintro rfl
    cases h with
    | ipv4 hos => cases hos
    | ipv6 hgs => cases hgs
  rw [isPrivateIp_iff hne]
  have hothers : text ≠ units "::1" ∧ text ≠ units "::" ∧
      ¬(units "fe80:").isPrefixOf text = true := by
    cases h with
    | ipv4 hos => exact not_short hos
    | host hgs => exact not_short_host _
    | ipv6 hgs =>
      exact ⟨fun hshort => hopen (blocked_shortest hgs (.inr hshort)),
        fun hshort => hopen (blocked_shortest hgs (.inl hshort)),
        fun hstart => hopen (blocked_start hgs hstart)⟩
  tauto

theorem isPrivateIp_closed {text : CodeUnits} {address : Address} (h : Denotes text address)
    (hblocked : blocked closedIPv4 address = true) :
    isPrivateIp text = true ↔ Recognised text := by
  have hne : text ≠ [] := by
    rintro rfl
    cases h with
    | ipv4 hos => cases hos
    | ipv6 hgs => cases hgs
  rw [isPrivateIp_iff hne, Recognised]
  cases h with
  | ipv4 hos =>
    have hsome : (parseIPv4 text).isSome = true := by rw [hos, Option.isSome_some]
    exact iff_of_true (.inr (.inr (.inr ((mistaken_ipv4 hos).mpr hblocked)))) (.inl hsome)
  | host hgs =>
    rename_i inner gs
    have hothers := not_short_host (inner ++ [93])
    have hquad := not_mistaken (.inr (.inr (.inl rfl))) (inner ++ [93])
    rw [List.cons_append, parseIPv4_bracket]
    simp [hothers, hquad]
  | ipv6 hgs =>
    rename_i gs
    have hnone : (parseIPv4 text).isSome = true ↔ False := by simp [parseIPv4_none hgs]
    have hquad : Mistaken text ↔ 46 ∈ text ∧ text.head? = some 48 := by
      rcases isLocal_or_zero hgs hblocked with hlocal | hzero
      · obtain ⟨x, y, z, w, rest, rfl, hhex, hx, -⟩ := isLocal_digits hgs hlocal
        have hfirst : x = 70 ∨ x = 102 := by
          have hdigit := hhex x (by simp)
          simp only [isHex, Bool.or_eq_true, Bool.and_eq_true, decide_eq_true_eq] at hdigit
          rw [hexValue] at hx
          split at hx
          · omega
          · split at hx <;> omega
        refine iff_of_false (not_mistaken (by omega) _) ?_
        rintro ⟨-, hhead⟩
        cases hhead
        omega
      · rcases head_zero hgs hzero with ⟨r, rfl⟩ | ⟨zeros, hzeros, hzne, htake⟩
        · refine iff_of_false (not_mistaken (by omega) _) ?_
          rintro ⟨-, hhead⟩
          cases hhead
        · constructor
          · intro hmistaken
            exact ⟨dot_of_mistaken hmistaken, head_zeros hzeros hzne htake⟩
          · intro hboth
            exact mistaken_zeros hgs hboth.1 hzeros hzne htake
    rw [hnone, hquad, false_or]

end AttachmentFetcher

/-- At two texts of one address each classifier answers by the address exactly if the texts are of
kinds that it treats alike. -/
theorem answers_by_address_iff {text text' : CodeUnits} {address : Address}
    (h : Denotes text address) (h' : Denotes text' address) :
    (AnswersByAddress SafeFetch.isPrivateIp SafeFetch.refusedIPv4 text text' address ↔
      SpelledAlike SafeFetch.Recognised SafeFetch.Mistaken SafeFetch.refusedIPv4
        text text' address) ∧
    (AnswersByAddress AttachmentFetcher.isPrivateIp closedIPv4 text text' address ↔
      SpelledAlike AttachmentFetcher.Recognised AttachmentFetcher.Mistaken closedIPv4
        text text' address) :=
  ⟨answersByAddress_iff (fun _ => SafeFetch.isPrivateIp_closed)
      (fun _ => SafeFetch.isPrivateIp_open) h h',
    answersByAddress_iff (fun _ => AttachmentFetcher.isPrivateIp_closed)
      (fun _ => AttachmentFetcher.isPrivateIp_open) h h'⟩

theorem loopback_spelled_twice :
    (AnswersByAddress SafeFetch.isPrivateIp SafeFetch.refusedIPv4 (units "127.0.0.1")
        (units "::ffff:7f00:1") (.v4 [127, 0, 0, 1]) ↔
      SpelledAlike SafeFetch.Recognised SafeFetch.Mistaken SafeFetch.refusedIPv4
        (units "127.0.0.1") (units "::ffff:7f00:1") (.v4 [127, 0, 0, 1])) ∧
    (AnswersByAddress AttachmentFetcher.isPrivateIp closedIPv4 (units "127.0.0.1")
        (units "::ffff:7f00:1") (.v4 [127, 0, 0, 1]) ↔
      SpelledAlike AttachmentFetcher.Recognised AttachmentFetcher.Mistaken closedIPv4
        (units "127.0.0.1") (units "::ffff:7f00:1") (.v4 [127, 0, 0, 1])) :=
  answers_by_address_iff (.ipv4 (by decide))
    (.ipv6 (show parseIPv6 (units "::ffff:7f00:1") =
      some [0, 0, 0, 0, 0, 65535, 32512, 1] by decide))

/-- The loopback address in the mapped form, to base sixteen, passes for a public one with both
classifiers; with dots it still passes for one with the fetcher. -/
theorem mapped_loopback_passes :
    ¬ (∀ (text text' : CodeUnits) (address : Address), Denotes text address →
        Denotes text' address →
        AnswersByAddress SafeFetch.isPrivateIp SafeFetch.refusedIPv4 text text' address) ∧
    ¬ (∀ (text text' : CodeUnits) (address : Address), Denotes text address →
        Denotes text' address →
        AnswersByAddress AttachmentFetcher.isPrivateIp closedIPv4 text text' address) := by
  have hhex : Denotes (units "::ffff:7f00:1") (.v4 [127, 0, 0, 1]) :=
    .ipv6 (show parseIPv6 (units "::ffff:7f00:1") =
      some [0, 0, 0, 0, 0, 65535, 32512, 1] by decide)
  have hdots : Denotes (units "::ffff:127.0.0.1") (.v4 [127, 0, 0, 1]) :=
    .ipv6 (show parseIPv6 (units "::ffff:127.0.0.1") =
      some [0, 0, 0, 0, 0, 65535, 32512, 1] by decide)
  constructor
  · intro hall
    have hprivate := ((hall _ _ _ hhex hhex).1 (by decide)).1
    exact absurd hprivate (by decide)
  · intro hall
    have hprivate := ((hall _ _ _ hdots hdots).1 (by decide)).1
    exact absurd hprivate (by decide)

end LuaRecovery.Discord
