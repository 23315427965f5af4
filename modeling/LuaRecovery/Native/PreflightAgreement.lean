import LuaRecovery.Native.Preflight
import Mathlib.Data.List.TakeWhile

/-!
# Where the preflight engines agree

Each character of the source is marked by whether the fallback counts a column
for it; the engine counts all of them. The two scans stay in step as long as
their numerals end at the same places.
-/

set_option autoImplicit false

namespace LuaRecovery.Native
open LuaRecovery.Lib LuaRecovery.Lua

/-- A character, and whether the fallback counts it. -/
abbrev Mark := ℕ × Bool

def counted (us : List ℕ) : List Mark := us.map (·, true)

def hidden (us : List ℕ) : List Mark := us.map (·, false)

def Lines.mark (l : Lines) (m : Mark) : Lines := if m.2 then l.consume m.1 else l

namespace Fallback

def longMarks : List ℕ → List Mark × List ℕ
  | [] => ([], [])
  | u::us =>
      if closesLong (u::us) then (hidden (u :: us.take 1), us.drop 1)
      else ((u, true) :: (longMarks us).1, (longMarks us).2)

def stringMarks (quote : ℕ) : List ℕ → List Mark × List ℕ
  | [] => ([], [])
  | [u] => if u = '\\'.toNat ∨ u = quote then (hidden [u], []) else (counted [u], [])
  | u::v::us =>
      if u = '\\'.toNat then (hidden [u, v] ++ (stringMarks quote us).1, (stringMarks quote us).2)
      else if u = quote then (hidden [u], v::us)
      else ((u, true) :: (stringMarks quote (v::us)).1, (stringMarks quote (v::us)).2)

/-- The marks of one step, and what comes after them. -/
def piece (u : ℕ) (us : List ℕ) : List Mark × List ℕ :=
  if u = '\n'.toNat then (counted [u], us)
  else if isSpace u then (counted [u], us)
  else if u = '-'.toNat ∧ us.head? = some '-'.toNat then
    if opensLong (us.drop 1) then
      (counted [u] ++ hidden (us.take 3) ++ (longMarks (us.drop 3)).1, (longMarks (us.drop 3)).2)
    else
      (counted [u] ++ hidden (us.take 1) ++ hidden ((us.drop 1).takeWhile (· ≠ '\n'.toNat)),
        (us.drop 1).dropWhile (· ≠ '\n'.toNat))
  else if isQuote u then (counted [u] ++ (stringMarks u us).1, (stringMarks u us).2)
  else if u = '['.toNat ∧ us.head? = some '['.toNat then
    (counted [u] ++ hidden (us.take 1) ++ (longMarks (us.drop 1)).1, (longMarks (us.drop 1)).2)
  else if isIdentifierStart u then
    (counted [u] ++ hidden (us.takeWhile isIdentifierPart), us.dropWhile isIdentifierPart)
  else if isDigit u then
    (counted [u] ++ hidden (us.takeWhile isNumeralPart), us.dropWhile isNumeralPart)
  else (counted [u], us)

def next (u : ℕ) (us : List ℕ) : List ℕ := (piece u us).2

/-- The source, with its marks. -/
def marks (source : List ℕ) : List Mark :=
  (places next source).flatMap (fun p => (piece p.1 p.2).1)

end Fallback

theorem map_hidden (us : List ℕ) : (hidden us).map Prod.fst = us := by
  simp [hidden, Function.comp_def]

theorem map_counted (us : List ℕ) : (counted us).map Prod.fst = us := by
  simp [counted, Function.comp_def]

/-- Hidden characters take no columns. -/
theorem foldl_mark_hidden (us : List ℕ) (l : Lines) : (hidden us).foldl Lines.mark l = l := by
  induction us generalizing l with
  | nil => rfl
  | cons u us ih => exact ih l

/-! The text of the marks is the source. -/

theorem bracket_lines (s : Counts) (u : ℕ) : (s.bracket u).lines = s.lines := by
  unfold Counts.bracket
  split_ifs <;> rfl

/-- A letter that starts an identifier may also stand inside it. -/
theorem identifierPart_of_start {u : ℕ} (h : isIdentifierStart u = true) :
    isIdentifierPart u = true := by
  unfold isIdentifierStart at h
  unfold isIdentifierPart
  cases hletter : isLetter u <;> simp_all

namespace Fallback

theorem longMarks_text (us : List ℕ) : (longMarks us).1.map Prod.fst ++ (longMarks us).2 = us := by
  induction us with
  | nil => rfl
  | cons u us ih =>
    rw [longMarks]
    split_ifs with hclose
    · rw [map_hidden, List.cons_append, List.take_append_drop]
    · simp [ih]

theorem stringMarks_text (quote : ℕ) (us : List ℕ) :
    (stringMarks quote us).1.map Prod.fst ++ (stringMarks quote us).2 = us := by
  fun_induction stringMarks quote us with
  | case1 => rfl
  | case2 u h => rfl
  | case3 u h => rfl
  | case4 v us ih =>
    simp only [List.map_append, map_hidden, List.append_assoc, ih]
    rfl
  | case5 v us h => rfl
  | case6 u v us h h' ih => simp [ih]

theorem piece_text (u : ℕ) (us : List ℕ) : (piece u us).1.map Prod.fst ++ next u us = u::us := by
  have htake : ∀ n, us.take n ++ us.drop n = us := fun n => List.take_append_drop n us
  unfold next piece
  split_ifs with hline hspace hcomment hopen hquote hlong hstart hdigit
  · rfl
  · rfl
  · simp only [List.map_append, map_counted, map_hidden, List.append_assoc, longMarks_text, htake]
    rfl
  · simp only [List.map_append, map_counted, map_hidden, List.append_assoc,
      List.takeWhile_append_dropWhile, htake]
    rfl
  · simp only [List.map_append, map_counted, List.append_assoc, stringMarks_text]
    rfl
  · simp only [List.map_append, map_counted, map_hidden, List.append_assoc, longMarks_text, htake]
    rfl
  · simp only [List.map_append, map_counted, map_hidden, List.append_assoc,
      List.takeWhile_append_dropWhile]
    rfl
  · simp only [List.map_append, map_counted, map_hidden, List.append_assoc,
      List.takeWhile_append_dropWhile]
    rfl
  · rfl

/-- A piece begins with the character that the step takes. -/
theorem piece_head (u : ℕ) (us : List ℕ) : ∃ ms, (piece u us).1 = (u, true)::ms := by
  unfold piece
  split_ifs
  · exact ⟨_, rfl⟩
  · exact ⟨_, rfl⟩
  · exact ⟨_, rfl⟩
  · exact ⟨_, rfl⟩
  · exact ⟨_, rfl⟩
  · exact ⟨_, rfl⟩
  · exact ⟨_, rfl⟩
  · exact ⟨_, rfl⟩
  · exact ⟨_, rfl⟩

theorem next_suffix (u : ℕ) (us : List ℕ) : next u us <:+ us := by
  obtain ⟨ms, hms⟩ := piece_head u us
  have htext := piece_text u us
  rw [hms, List.map_cons, List.cons_append, List.cons.injEq] at htext
  exact ⟨_, htext.2⟩

theorem next_shrinks : Shrinks next := fun u us => (next_suffix u us).length_le

theorem marks_cons (u : ℕ) (us : List ℕ) : marks (u::us) = (piece u us).1 ++ marks (next u us) := by
  rw [marks, places_cons next_shrinks, List.flatMap_cons]
  rfl

theorem marks_text (source : List ℕ) : (marks source).map Prod.fst = source := by
  induction source using scan_induction next_shrinks with
  | nil => rfl
  | cons u us ih => rw [marks_cons, List.map_append, ih, piece_text]

/-! The fallback counts what is marked. -/

theorem longBody_eq (us : List ℕ) (l : Lines) :
    longBody us l = ((longMarks us).2, (longMarks us).1.foldl Lines.mark l) := by
  induction us generalizing l with
  | nil => rfl
  | cons u us ih =>
    rw [longBody, longMarks]
    split_ifs with hclose
    · rw [foldl_mark_hidden]
    · rw [ih]
      rfl

theorem stringBody_eq (quote : ℕ) (us : List ℕ) (l : Lines) :
    stringBody quote us l = ((stringMarks quote us).2, (stringMarks quote us).1.foldl Lines.mark l) := by
  fun_induction stringMarks quote us generalizing l with
  | case1 => rfl
  | case2 u h =>
    rw [stringBody, if_pos h]
    rfl
  | case3 u h =>
    rw [stringBody, if_neg h]
    rfl
  | case4 v us ih =>
    rw [stringBody, if_pos rfl, ih, List.foldl_append, foldl_mark_hidden]
  | case5 v us h =>
    rw [stringBody, if_neg h, if_pos rfl]
    rfl
  | case6 u v us h h' ih =>
    rw [stringBody, if_neg h, if_neg h', ih]
    rfl

theorem step_lines (u : ℕ) (us : List ℕ) (s : Counts) :
    (step u us s).1 = next u us ∧
      (step u us s).2.lines = (piece u us).1.foldl Lines.mark s.lines := by
  have hfirst : u ≠ '\n'.toNat → s.lines.mark (u, true) = s.lines.advance 1 := fun h => if_neg h
  unfold step next piece
  split_ifs with hline hspace hcomment hopen hquote hlong hstart hdigit
  · refine ⟨rfl, ?_⟩
    show _ = s.lines.mark (u, true)
    rw [Lines.mark, if_pos rfl, Lines.consume, if_pos hline]
    rfl
  · exact ⟨rfl, (hfirst hline).symm⟩
  · simp only [longBody_eq, List.foldl_append, foldl_mark_hidden]
    rw [← hfirst hline]
    exact ⟨trivial, rfl⟩
  · simp only [List.foldl_append, foldl_mark_hidden]
    exact ⟨trivial, (hfirst hline).symm⟩
  · simp only [stringBody_eq, List.foldl_append]
    rw [← hfirst hline]
    exact ⟨trivial, rfl⟩
  · simp only [longBody_eq, List.foldl_append, foldl_mark_hidden]
    rw [← hfirst hline]
    exact ⟨trivial, rfl⟩
  · simp only [List.foldl_append, foldl_mark_hidden]
    exact ⟨trivial, (hfirst hline).symm⟩
  · simp only [List.foldl_append, foldl_mark_hidden]
    exact ⟨trivial, (hfirst hline).symm⟩
  · exact ⟨rfl, (bracket_lines _ u).trans (hfirst hline).symm⟩

theorem step_shrinks (u : ℕ) (us : List ℕ) (s : Counts) : (step u us s).1.length ≤ us.length := by
  rw [(step_lines u us s).1]
  exact next_shrinks u us

theorem scanAll_lines (source : List ℕ) (s : Counts) :
    (scanAll step source s).lines = (marks source).foldl Lines.mark s.lines := by
  induction source using scan_induction next_shrinks generalizing s with
  | nil => rfl
  | cons u us ih =>
    rw [scanAll_cons step_shrinks, marks_cons, List.foldl_append, (step_lines u us s).1, ih,
      (step_lines u us s).2]

end Fallback

/-! The engine counts every character. -/

/-- What is read off the front is counted. -/
def Reads (us : List ℕ) (l : Lines) (result : List ℕ × Lines) : Prop :=
  ∃ read, read ++ result.1 = us ∧ result.2 = read.foldl Lines.consume l

theorem Reads.nil (us : List ℕ) (l : Lines) : Reads us l (us, l) := ⟨[], rfl, rfl⟩

theorem Reads.cons {u : ℕ} {us : List ℕ} {l : Lines} {result : List ℕ × Lines}
    (h : Reads us (l.consume u) result) : Reads (u::us) l result := by
  obtain ⟨read, htext, hlines⟩ := h
  exact ⟨u::read, by rw [List.cons_append, htext], hlines⟩

theorem Reads.length_le {us : List ℕ} {l : Lines} {result : List ℕ × Lines}
    (h : Reads us l result) : result.1.length ≤ us.length := by
  obtain ⟨read, htext, -⟩ := h
  rw [← htext]
  exact (List.suffix_append _ _).length_le

theorem Lines.consume_of_ne {l : Lines} {u : ℕ} (h : u ≠ '\n'.toNat) : l.consume u = l.advance 1 :=
  if_neg h

/-- A run within a line takes its length in columns. -/
theorem Reads.run {read : List ℕ} (h : ∀ u ∈ read, u ≠ '\n'.toNat) (rest : List ℕ) (l : Lines) :
    Reads (read ++ rest) l (rest, l.advance read.length) := by
  induction read generalizing l with
  | nil => exact .nil rest l
  | cons u read ih =>
    have hrest := ih (fun v hv => h v (by simp [hv])) (l.consume u)
    have hcolumns : (l.consume u).advance read.length = l.advance (u::read).length := by
      rw [Lines.consume_of_ne (h u (by simp))]
      simp only [Lines.advance, List.length_cons, Lines.mk.injEq, true_and, and_true]
      omega
    rw [hcolumns] at hrest
    exact hrest.cons

theorem eq_of_head {us : List ℕ} {v : ℕ} (h : us.head? = some v) : us = v :: us.drop 1 := by
  cases us with
  | nil => simp at h
  | cons w us => simpa using h

theorem eq_of_take_two {us : List ℕ} {v : ℕ} (h : us.take 2 = [v, v]) :
    us = v :: v :: us.drop 2 := by
  rw [← List.take_append_drop 2 us, h]
  rfl

theorem Reads.dropWhile {p : ℕ → Bool} (h : ∀ u, p u = true → u ≠ '\n'.toNat) (us : List ℕ)
    (l : Lines) : Reads us l (us.dropWhile p, l.advance (us.takeWhile p).length) := by
  have hline : ∀ u ∈ us.takeWhile p, u ≠ '\n'.toNat :=
    fun u hu => h u (List.mem_takeWhile_imp hu)
  have hrun := Reads.run hline (us.dropWhile p) l
  rwa [List.takeWhile_append_dropWhile] at hrun

namespace Engine

theorem longBody_reads (us : List ℕ) (l : Lines) : Reads us l (longBody us l) := by
  induction us generalizing l with
  | nil => exact .nil [] l
  | cons u us ih =>
    rw [longBody]
    split_ifs with hclose
    · have htake := eq_of_take_two (of_decide_eq_true hclose)
      obtain ⟨hu, hus⟩ := List.cons.inj htake
      rw [hu, hus]
      exact (Reads.nil _ _).cons.cons
    · exact (ih _).cons

theorem stringBody_reads (quote : ℕ) (us : List ℕ) (l : Lines) :
    Reads us l (stringBody quote us l) := by
  fun_induction stringBody quote us l with
  | case1 l => exact .nil [] l
  | case2 l => exact (Reads.nil [] _).cons
  | case3 u l h => exact (Reads.nil [] _).cons
  | case4 v us l ih => exact ih.cons.cons
  | case5 v us l h => exact (Reads.nil _ _).cons
  | case6 u v us l h h' ih => exact ih.cons

theorem numeral_reads (seen : Bool) (us : List ℕ) (l : Lines) : Reads us l (numeral seen us l) := by
  induction us generalizing seen l with
  | nil => exact .nil [] l
  | cons u us ih =>
    rw [numeral]
    split
    next hpart =>
      have hline : u ≠ '\n'.toNat := by
        rintro rfl
        simp [isLetter, isDigit] at hpart
      rw [← Lines.consume_of_ne hline]
      exact (ih _ _).cons
    next => exact .nil _ l

theorem step_reads (u : ℕ) (us : List ℕ) (s : Counts) :
    Reads (u::us) s.lines ((step u us s).1, (step u us s).2.lines) := by
  have hpart : ∀ v, isIdentifierPart v = true → v ≠ '\n'.toNat := by
    rintro v hv rfl
    simp [isIdentifierPart, isLetter, isDigit] at hv
  unfold step
  dsimp only
  split_ifs with hspace hcomment hopen hquote hlong hstart hdigit
  · exact (Reads.nil us _).cons
  · obtain ⟨rfl, hdash⟩ := hcomment
    have htake := eq_of_take_two (of_decide_eq_true hopen)
    have hbody := longBody_reads (us.drop 3) ((s.lines.advance 2).advance 2)
    rw [eq_of_head hdash, htake]
    rw [List.drop_drop] at htake ⊢
    exact hbody.cons.cons.cons.cons
  · obtain ⟨rfl, hdash⟩ := hcomment
    have hrun := Reads.dropWhile (p := (· ≠ '\n'.toNat)) (fun v hv => by simpa using hv)
      (us.drop 1) (s.lines.advance 2)
    rw [eq_of_head hdash]
    exact hrun.cons.cons
  · have hline : u ≠ '\n'.toNat := by
      rintro rfl
      simp [isQuote] at hquote
    have hbody := stringBody_reads u us (s.lines.advance 1)
    rw [← Lines.consume_of_ne hline] at hbody ⊢
    exact hbody.cons
  · obtain ⟨rfl, hsecond⟩ := hlong
    have hbody := longBody_reads (us.drop 1) (s.lines.advance 2)
    rw [eq_of_head hsecond]
    exact hbody.cons.cons
  · exact Reads.dropWhile hpart (u::us) s.lines
  · exact numeral_reads false (u::us) s.lines
  · have hline : u ≠ '\n'.toNat := by
      rintro rfl
      simp [isSpace] at hspace
    rw [bracket_lines]
    show Reads (u::us) s.lines (us, s.lines.advance 1)
    rw [← Lines.consume_of_ne hline]
    exact (Reads.nil us _).cons

theorem numeral_rest (seen : Bool) (us : List ℕ) (l l' : Lines) :
    (numeral seen us l).1 = (numeral seen us l').1 := by
  induction us generalizing seen l l' with
  | nil => rfl
  | cons u us ih =>
    rw [numeral, numeral]
    split
    next => exact ih _ _ _
    next => rfl

/-- What comes after the numeral that begins with a digit. -/
def afterNumeral (u : ℕ) (us : List ℕ) : List ℕ := (numeral false (u::us) Counts.initial.lines).1

theorem afterNumeral_length {u : ℕ} (h : isDigit u = true) (us : List ℕ) :
    (afterNumeral u us).length ≤ us.length := by
  rw [afterNumeral, numeral, if_pos (by simp [h])]
  exact (numeral_reads _ us _).length_le

theorem step_shrinks (u : ℕ) (us : List ℕ) (s : Counts) : (step u us s).1.length ≤ us.length := by
  have hdrop : ∀ n, (us.drop n).length ≤ us.length := fun n => (List.drop_suffix n us).length_le
  unfold step
  dsimp only
  split_ifs with hspace hcomment hopen hquote hlong hstart hdigit
  · exact Nat.le_refl _
  · exact (longBody_reads _ _).length_le.trans (hdrop 3)
  · exact ((List.dropWhile_suffix _).length_le).trans (hdrop 1)
  · exact (stringBody_reads _ _ _).length_le
  · exact (longBody_reads _ _).length_le.trans (hdrop 1)
  · rw [List.dropWhile_cons_of_pos (identifierPart_of_start hstart)]
    exact (List.dropWhile_suffix _).length_le
  · rw [numeral_rest false (u::us) s.lines Counts.initial.lines]
    exact afterNumeral_length hdigit us
  · exact Nat.le_refl _

/-- The engine's lines are those of the source, wherever its tokens end. -/
theorem scanAll_lines (source : List ℕ) (s : Counts) :
    (scanAll step source s).lines = source.foldl Lines.consume s.lines := by
  have hbounded : ∀ n, ∀ source : List ℕ, source.length ≤ n → ∀ s,
      (scanAll step source s).lines = source.foldl Lines.consume s.lines := by
    intro n
    induction n with
    | zero =>
      intro source hn s
      have hnil : source = [] := List.length_eq_zero_iff.mp (by omega)
      rw [hnil]
      rfl
    | succ n ih =>
      intro source hn s
      cases source with
      | nil => rfl
      | cons u us =>
        simp only [List.length_cons] at hn
        have hle := step_shrinks u us s
        obtain ⟨read, htext, hlines⟩ := step_reads u us s
        dsimp only at htext hlines
        rw [scanAll_cons step_shrinks, ih _ (by omega), hlines, ← List.foldl_append, htext]
  exact hbounded source.length source (Nat.le_refl _) s

end Engine

/-! In step. -/

/-- The scans have counted the same tokens and levels. -/
def SameCounts (s t : Counts) : Prop :=
  s.tokens = t.tokens ∧ s.depth = t.depth ∧ s.maxDepth = t.maxDepth

/-- Each numeral of the fallback ends where the engine would end it. -/
def NumeralsAligned (source : List ℕ) : Prop :=
  ∀ p ∈ places Fallback.next source, isDigit p.1 = true →
    p.2.dropWhile Fallback.isNumeralPart = Engine.afterNumeral p.1 p.2

instance (source : List ℕ) : Decidable (NumeralsAligned source) :=
  inferInstanceAs (Decidable (∀ p ∈ places Fallback.next source, isDigit p.1 = true →
    p.2.dropWhile Fallback.isNumeralPart = Engine.afterNumeral p.1 p.2))

theorem isSpace_ascii : ∀ u < 128, Fallback.isSpace u = Engine.isSpace u := by decide

theorem longBody_rest (us : List ℕ) (l l' : Lines) :
    (Fallback.longBody us l).1 = (Engine.longBody us l').1 := by
  induction us generalizing l l' with
  | nil => rfl
  | cons u us ih =>
    rw [Fallback.longBody, Engine.longBody]
    split_ifs with hclose
    · rfl
    · exact ih _ _

theorem stringBody_rest (quote : ℕ) (us : List ℕ) (l l' : Lines) :
    (Fallback.stringBody quote us l).1 = (Engine.stringBody quote us l').1 := by
  fun_induction Engine.stringBody quote us l' generalizing l with
  | case1 => rfl
  | case2 => simp [Fallback.stringBody]
  | case3 u l' h =>
    rw [Fallback.stringBody]
    split_ifs <;> rfl
  | case4 v us l' ih => exact ih l
  | case5 v us l' h => rw [Fallback.stringBody, if_neg h, if_pos rfl]
  | case6 u v us l' h h' ih =>
    rw [Fallback.stringBody, if_neg h, if_neg h']
    exact ih _

theorem SameCounts.bracket {s t : Counts} (h : SameCounts s t) (u : ℕ) :
    SameCounts (s.bracket u) (t.bracket u) := by
  obtain ⟨htokens, hdepth, hmax⟩ := h
  unfold Counts.bracket
  rw [hdepth, hmax]
  split_ifs
  · exact ⟨htokens, rfl, rfl⟩
  · exact ⟨htokens, rfl, rfl⟩
  · exact ⟨htokens, hdepth, hmax⟩

theorem SameCounts.token {s t : Counts} (h : SameCounts s t) (l l' : Lines) :
    SameCounts (s.token.withLines l) (t.token.withLines l') :=
  ⟨congrArg (· + 1) h.1, h.2.1, h.2.2⟩

/-- One step in an ASCII source, where the numerals agree. -/
theorem step_agree {u : ℕ} {us : List ℕ} {s t : Counts} (hascii : u < 128)
    (haligned : isDigit u = true →
      us.dropWhile Fallback.isNumeralPart = Engine.afterNumeral u us) (h : SameCounts s t) :
    (Fallback.step u us s).1 = (Engine.step u us t).1 ∧
      SameCounts (Fallback.step u us s).2 (Engine.step u us t).2 := by
  unfold Fallback.step Engine.step
  by_cases hline : u = '\n'.toNat
  · subst hline
    exact ⟨rfl, h⟩
  · rw [if_neg hline, isSpace_ascii u hascii]
    dsimp only
    split_ifs with hspace hcomment hopen hquote hlong hstart hdigit
    · exact ⟨rfl, h⟩
    · exact ⟨longBody_rest _ _ _, h⟩
    · exact ⟨rfl, h⟩
    · exact ⟨stringBody_rest _ _ _ _, h.token _ _⟩
    · exact ⟨longBody_rest _ _ _, h.token _ _⟩
    · rw [List.dropWhile_cons_of_pos (identifierPart_of_start hstart)]
      exact ⟨rfl, h.token _ _⟩
    · rw [haligned hdigit]
      exact ⟨Engine.numeral_rest _ _ _ _, h.token _ _⟩
    · exact ⟨rfl, (h.token _ _).bracket u⟩

theorem scan_agree {source : List ℕ} (hascii : ∀ u ∈ source, u < 128)
    (haligned : NumeralsAligned source) {s t : Counts} (h : SameCounts s t) :
    SameCounts (scanAll Fallback.step source s) (scanAll Engine.step source t) := by
  induction source using scan_induction Fallback.next_shrinks generalizing s t with
  | nil => exact h
  | cons u us ih =>
    unfold NumeralsAligned at haligned
    rw [places_cons Fallback.next_shrinks] at haligned
    obtain ⟨hrest, hcounts⟩ := step_agree (hascii u (by simp)) (haligned (u, us) (by simp)) h
    rw [scanAll_cons Fallback.step_shrinks, scanAll_cons Engine.step_shrinks, ← hrest,
      (Fallback.step_lines u us s).1]
    apply ih _ _ hcounts
    · intro v hv
      exact hascii v (by simp [(Fallback.next_suffix u us).subset hv])
    · intro p hp
      exact haligned p (by simp [hp])

/-! Lines. -/

/-- The first line and the others. -/
def splitLines : List Mark → List Mark × List (List Mark)
  | [] => ([], [])
  | m::ms =>
      if m.1 = '\n'.toNat then ([], (splitLines ms).1 :: (splitLines ms).2)
      else (m :: (splitLines ms).1, (splitLines ms).2)

def linesOf (ms : List Mark) : List (List Mark) := (splitLines ms).1 :: (splitLines ms).2

/-- The most columns of a line, for those characters that take one. -/
def widest (p : Mark → Bool) (ls : List (List Mark)) : ℕ := (ls.map (List.countP p)).foldr max 0

/-- Every line break is counted: no string escapes one. -/
def NewlinesCounted (source : List ℕ) : Prop :=
  ∀ m ∈ Fallback.marks source, m.1 = '\n'.toNat → m.2 = true

/-- Some line that no other exceeds has a column for each of its characters. -/
def LongestLineCounted (source : List ℕ) : Prop :=
  ∃ line ∈ linesOf (Fallback.marks source), (∀ m ∈ line, m.2 = true) ∧
    ∀ other ∈ linesOf (Fallback.marks source), other.length ≤ line.length

instance (source : List ℕ) : Decidable (NewlinesCounted source) :=
  inferInstanceAs (Decidable (∀ m ∈ Fallback.marks source, m.1 = '\n'.toNat → m.2 = true))

instance (source : List ℕ) : Decidable (LongestLineCounted source) :=
  inferInstanceAs (Decidable (∃ line ∈ linesOf (Fallback.marks source), (∀ m ∈ line, m.2 = true) ∧
    ∀ other ∈ linesOf (Fallback.marks source), other.length ≤ line.length))

theorem le_widest (p : Mark → Bool) {ls : List (List Mark)} {line : List Mark} (h : line ∈ ls) :
    line.countP p ≤ widest p ls := by
  induction ls with
  | nil => simp at h
  | cons first ls ih =>
    show _ ≤ max (first.countP p) (widest p ls)
    rcases List.mem_cons.mp h with rfl | h
    · omega
    · have hle := ih h
      omega

theorem exists_widest (p : Mark → Bool) (first : List Mark) (ls : List (List Mark)) :
    ∃ line ∈ first::ls, line.countP p = widest p (first::ls) := by
  induction ls generalizing first with
  | nil => exact ⟨first, by simp, by simp [widest]⟩
  | cons second ls ih =>
    obtain ⟨line, hline, hwidest⟩ := ih second
    have hmax : widest p (first::second::ls) = max (first.countP p) (widest p (second::ls)) := rfl
    by_cases hle : widest p (second::ls) ≤ first.countP p
    · exact ⟨first, by simp, by omega⟩
    · exact ⟨line, List.mem_cons_of_mem first hline, by omega⟩

/-- All columns of a widest line are counted exactly when the counts have one maximum. -/
theorem widest_eq_iff (p : Mark → Bool) (first : List Mark) (ls : List (List Mark)) :
    widest p (first::ls) = widest (fun _ => true) (first::ls) ↔
      ∃ line ∈ first::ls, (∀ m ∈ line, p m = true) ∧
        ∀ other ∈ first::ls, other.length ≤ line.length := by
  have hlength : ∀ line : List Mark, line.countP (fun _ => true) = line.length :=
    fun line => List.countP_eq_length.mpr (by simp)
  constructor
  · intro heq
    obtain ⟨line, hline, hwidest⟩ := exists_widest p first ls
    have hle := le_widest (fun _ => true) hline
    have hcount : line.countP p ≤ line.length := List.countP_le_length
    rw [hlength] at hle
    refine ⟨line, hline, List.countP_eq_length.mp (by omega), ?_⟩
    intro other hother
    have hother' := le_widest (fun _ => true) hother
    rw [hlength] at hother'
    omega
  · rintro ⟨line, hline, hall, hlongest⟩
    have hcount : line.countP p = line.length := List.countP_eq_length.mpr hall
    have hle := le_widest p hline
    obtain ⟨widestLine, hmem, hwidest⟩ := exists_widest (fun _ => true) first ls
    obtain ⟨countedLine, hmem', hcounted⟩ := exists_widest p first ls
    have hbound := hlongest widestLine hmem
    have hbound' := hlongest countedLine hmem'
    have hcount' : countedLine.countP p ≤ countedLine.length := List.countP_le_length
    have hle' := le_widest (fun _ => true) hline
    rw [hlength] at hwidest hle'
    omega

def Lines.measure (p : Mark → Bool) (l : Lines) (m : Mark) : Lines :=
  if m.1 = '\n'.toNat then l.newline else if p m then l.advance 1 else l

theorem measure_longest (p : Mark → Bool) (ms : List Mark) (l : Lines) :
    max (ms.foldl (Lines.measure p) l).longest (ms.foldl (Lines.measure p) l).current =
      max l.longest (max (l.current + (splitLines ms).1.countP p) (widest p (splitLines ms).2)) := by
  induction ms generalizing l with
  | nil => simp [splitLines, widest]
  | cons m ms ih =>
    rw [List.foldl_cons, ih]
    by_cases hline : m.1 = '\n'.toNat
    · rw [Lines.measure, if_pos hline, splitLines, if_pos hline]
      show max (max l.longest l.current) (max (0 + (splitLines ms).1.countP p) _) =
        max l.longest (max (l.current + 0)
          (max ((splitLines ms).1.countP p) (widest p (splitLines ms).2)))
      omega
    · rw [Lines.measure, if_neg hline, splitLines, if_neg hline, List.countP_cons]
      split_ifs with hcolumn
      · show max l.longest (max (l.current + 1 + _) (widest p (splitLines ms).2)) =
          max l.longest (max _ (widest p (splitLines ms).2))
        omega
      · rfl

theorem measure_initial (p : Mark → Bool) (ms : List Mark) :
    max (ms.foldl (Lines.measure p) Counts.initial.lines).longest
      (ms.foldl (Lines.measure p) Counts.initial.lines).current = widest p (linesOf ms) := by
  rw [measure_longest]
  show max 0 (max (0 + _) _) = max ((splitLines ms).1.countP p) (widest p (splitLines ms).2)
  omega

/-- The engine measures all characters. -/
theorem foldl_consume (ms : List Mark) (l : Lines) :
    (ms.map Prod.fst).foldl Lines.consume l = ms.foldl (Lines.measure (fun _ => true)) l := by
  rw [List.foldl_map]
  rfl

/-- Where no line break is hidden, the fallback measures what it counts. -/
theorem foldl_mark {ms : List Mark} (h : ∀ m ∈ ms, m.1 = '\n'.toNat → m.2 = true) (l : Lines) :
    ms.foldl Lines.mark l = ms.foldl (Lines.measure Prod.snd) l := by
  apply List.foldl_ext
  intro l m hm
  unfold Lines.mark Lines.measure Lines.consume
  by_cases hline : m.1 = '\n'.toNat
  · rw [if_pos (h m hm hline), if_pos hline, if_pos hline]
  · rw [if_neg hline, if_neg hline]

theorem lines_mark (ms : List Mark) (l : Lines) :
    (ms.foldl Lines.mark l).lines =
      l.lines + ((ms.filter (·.1 = '\n'.toNat)).filter Prod.snd).length := by
  induction ms generalizing l with
  | nil => rfl
  | cons m ms ih =>
    rw [List.foldl_cons, ih, Lines.mark]
    by_cases hcolumn : m.2 = true
    · by_cases hline : m.1 = 10
      · simp [hcolumn, hline, Lines.consume, Lines.newline]
        omega
      · simp [hcolumn, hline, Lines.consume, Lines.advance]
    · by_cases hline : m.1 = 10
      · simp [hcolumn, hline]
      · simp [hcolumn, hline]

theorem lines_measure (p : Mark → Bool) (ms : List Mark) (l : Lines) :
    (ms.foldl (Lines.measure p) l).lines =
      l.lines + (ms.filter (·.1 = '\n'.toNat)).length := by
  induction ms generalizing l with
  | nil => rfl
  | cons m ms ih =>
    rw [List.foldl_cons, ih, Lines.measure]
    by_cases hline : m.1 = 10
    · simp [hline, Lines.newline]
      omega
    · by_cases hcolumn : p m = true
      · simp [hline, hcolumn, Lines.advance]
      · simp [hline, hcolumn]

/-- The line counts are the same exactly when no line break is hidden. -/
theorem lines_eq_iff (ms : List Mark) (l : Lines) :
    (ms.foldl Lines.mark l).lines = ((ms.map Prod.fst).foldl Lines.consume l).lines ↔
      ∀ m ∈ ms, m.1 = '\n'.toNat → m.2 = true := by
  rw [lines_mark, foldl_consume, lines_measure, Nat.add_left_cancel_iff,
    List.length_filter_eq_length_iff]
  simp

/-- What the engines report of a source, the stage included. -/
def SameReport (p q : Profile) : Prop :=
  p.tokens = q.tokens ∧ p.lines = q.lines ∧ p.maxDepth = q.maxDepth ∧
    p.maxLineLength = q.maxLineLength ∧ recommendStage p = recommendStage q

/-- The bytes of an ASCII source. -/
def asciiBytes (text : List Char) : List ℕ := text.map Char.toNat

theorem engine_lines (source : List ℕ) :
    (scanAll Engine.step source .initial).lines =
      ((Fallback.marks source).map Prod.fst).foldl Lines.consume Counts.initial.lines := by
  rw [Engine.scanAll_lines, Fallback.marks_text]

/-- The engines agree on the lines of a source when no break is hidden and a
longest line is counted in full, and only then. -/
theorem columns_agree_iff (source : List ℕ) (bytes bytes' : ℕ) :
    (((scanAll Fallback.step source .initial).profile bytes).lines =
        ((scanAll Engine.step source .initial).profile bytes').lines ∧
      ((scanAll Fallback.step source .initial).profile bytes).maxLineLength =
        ((scanAll Engine.step source .initial).profile bytes').maxLineLength) ↔
      NewlinesCounted source ∧ LongestLineCounted source := by
  unfold Counts.profile
  dsimp only
  rw [Fallback.scanAll_lines, engine_lines, lines_eq_iff]
  refine and_congr_right fun hnewlines => ?_
  rw [foldl_mark hnewlines, foldl_consume, measure_initial, measure_initial]
  exact widest_eq_iff Prod.snd _ _

/-- Whatever the engines agree on, they count the same line breaks and a longest
line in full; where they do, they agree if their numerals end at the same places. -/
theorem sameReport_of_aligned {text : List Char} (hascii : IsAscii text) :
    (SameReport (Fallback.profileSourceJs text) (Engine.profile (asciiBytes text)) →
      NewlinesCounted (utf16 text) ∧ LongestLineCounted (utf16 text)) ∧
    (NumeralsAligned (utf16 text) → NewlinesCounted (utf16 text) →
      LongestLineCounted (utf16 text) →
      SameReport (Fallback.profileSourceJs text) (Engine.profile (asciiBytes text))) := by
  have hsource : asciiBytes text = utf16 text := (utf16_ascii hascii).symm
  unfold Fallback.profileSourceJs Engine.profile
  rw [← (length_utf16_eq_iff text).mpr hascii, hsource]
  constructor
  · rintro ⟨-, hlines, -, hlongest, -⟩
    exact (columns_agree_iff _ _ _).mp ⟨hlines, hlongest⟩
  · intro haligned hnewlines hcounted
    have hunits : ∀ u ∈ utf16 text, u < 128 := by
      rw [← hsource]
      intro u hu
      obtain ⟨c, hc, rfl⟩ := List.mem_map.mp hu
      exact hascii c hc
    obtain ⟨htokens, -, hdepth⟩ := scan_agree hunits haligned
      (s := .initial) (t := .initial) ⟨rfl, rfl, rfl⟩
    obtain ⟨hlines, hlongest⟩ := (columns_agree_iff (utf16 text) (utf16 text).length
      (utf16 text).length).mpr ⟨hnewlines, hcounted⟩
    refine ⟨htokens, hlines, hdepth, hlongest, ?_⟩
    rw [recommendStage, recommendStage, hlongest]
    unfold Counts.profile
    dsimp only
    rw [htokens, hdepth]

/-- A call of one argument, all of whose characters are counted. -/
def callText : List Char := ['f', '(', 'x', ')', '\n']

theorem ascii_callText : IsAscii callText := by
  intro c hc
  simp only [callText, List.mem_cons, List.not_mem_nil, or_false] at hc
  rcases hc with rfl | rfl | rfl | rfl | rfl <;> decide

theorem sameReport_callText :
    SameReport (Fallback.profileSourceJs callText) (Engine.profile (asciiBytes callText)) :=
  (sameReport_of_aligned ascii_callText).2 (by decide) (by decide) (by decide)

/-- A sum is one numeral for the fallback and three tokens for the engine. -/
theorem sum_reports_differ :
    ¬ SameReport (Fallback.profileSourceJs ['1', '+', '2'])
      (Engine.profile (asciiBytes ['1', '+', '2'])) := by
  rintro ⟨htokens, -⟩
  exact absurd htokens (by decide)

end LuaRecovery.Native
