import LuaRecovery.Queue.RespDecoding

/-!
# Replies off a stream in chunks

What has arrived is kept in a buffer, and each value that is complete answers
the command that has waited longest. How the stream is cut makes no difference
as long as every value in it can be decoded.
-/

set_option autoImplicit false

namespace LuaRecovery.Queue
open LuaRecovery.Lib LuaRecovery.Lua

/-- How a command's promise is settled by a reply. -/
inductive Reply where
  | resolved (value : JsValue)
  | rejected (error : JsValue)

def replyOf (value : JsValue) (isError : Bool) : Reply :=
  if isError then .rejected value else .resolved value

structure Processed (C : Type) where
  buffer : CodeUnits
  pending : List C
  delivered : List (C × Reply)

section
variable {C : Type}

/-- There is no result where the parser never returns. -/
def processBuffer (buffer : CodeUnits) : List C → Option (Processed C)
  | [] => some ⟨buffer, [], []⟩
  | cb::pending =>
      if buffer = [] then some ⟨buffer, cb::pending, []⟩
      else match parse buffer with
        | .overflow => none
        | .incomplete => some ⟨buffer, cb::pending, []⟩
        | .parsed value isError consumed => do
            let p ← processBuffer (sliceFrom buffer consumed) pending
            some { p with delivered := (cb, replyOf value isError) :: p.delivered }

/-- The chunks of a stream, one `data` event each. -/
def deliver (buffer : CodeUnits) (pending : List C) : List CodeUnits → Option (Processed C)
  | [] => some ⟨buffer, pending, []⟩
  | chunk::chunks => do
      let p ← processBuffer (buffer++chunk) pending
      let r ← deliver p.buffer p.pending chunks
      some { r with delivered := p.delivered ++ r.delivered }

end

/-- The right way to settle a command that the server answered with `v`. -/
def RepliesTo (v : RespValue) (r : Reply) : Prop :=
  ∃ x isError, Answers v x isError ∧ r = replyOf x isError

/-- The replies are the values of the stream, however it is cut. -/
def DeliversStream (vs : List RespValue) : Prop :=
  ∃ replies, List.Forall₂ RepliesTo vs replies ∧
    ∀ (C : Type) (pending : List C) (chunks : List CodeUnits), vs.length ≤ pending.length →
      chunks.flatten = utf16 (RespValue.wires vs) →
      deliver [] pending chunks = some ⟨[], pending.drop vs.length, pending.zip replies⟩

section Uniqueness

mutual

theorem denotes_unique : ∀ (v : RespValue) (x y : JsValue), Denotes v x → Denotes v y → x = y
  | .simple _, _, _, hx, hy => Eq.trans hx (Eq.symm hy)
  | .error _, _, _, hx, _ => hx.elim
  | .integer n, x, y, hx, hy => by
      obtain ⟨q, hq, rfl, rfl⟩ := hx
      obtain ⟨q', hq', rfl, rfl⟩ := hy
      rfl
  | .bulk _, _, _, hx, hy => Eq.trans hx (Eq.symm hy)
  | .nilBulk, _, _, hx, hy => Eq.trans hx (Eq.symm hy)
  | .nilArray, _, _, hx, hy => Eq.trans hx (Eq.symm hy)
  | .array items, x, y, hx, hy => by
      obtain ⟨xs, rfl, hxs⟩ := hx
      obtain ⟨ys, rfl, hys⟩ := hy
      rw [denotesAll_unique items xs ys hxs hys]

theorem denotesAll_unique : ∀ (vs : List RespValue) (xs ys : List JsValue), DenotesAll vs xs →
    DenotesAll vs ys → xs = ys
  | [], _, _, hx, hy => Eq.trans hx (Eq.symm hy)
  | v::vs, xs, ys, hx, hy => by
      obtain ⟨x, xs, rfl, hx, hxs⟩ := hx
      obtain ⟨y, ys, rfl, hy, hys⟩ := hy
      rw [denotes_unique v x y hx hy, denotesAll_unique vs xs ys hxs hys]

end

theorem answers_unique {v : RespValue} {x y : JsValue} {e e' : Bool} (h : Answers v x e)
    (h' : Answers v y e') : x = y ∧ e = e' := by
  cases v with
  | error line => exact ⟨h.2.trans h'.2.symm, h.1.trans h'.1.symm⟩
  | _ => exact ⟨denotes_unique _ x y h.2 h'.2, h.1.trans h'.1.symm⟩

end Uniqueness

section Streams

/-- A value and the reply that it becomes, whatever follows it. -/
def ReadsAs (v : RespValue) (r : Reply) : Prop :=
  ∃ x isError, Answers v x isError ∧ r = replyOf x isError ∧
    ∀ rest, parse (utf16 v.wire ++ rest) = .parsed x isError (some (utf16 v.wire).length)

theorem Decodes.readsAs {v : RespValue} (h : Decodes v) : ∃ r, ReadsAs v r := by
  obtain ⟨x, isError, hx, -⟩ := h.1 []
  refine ⟨replyOf x isError, x, isError, hx, rfl, fun rest => ?_⟩
  obtain ⟨y, e, hy, hparse⟩ := h.1 rest
  obtain ⟨rfl, rfl⟩ := answers_unique hx hy
  exact hparse

theorem readsAs_all {vs : List RespValue} (h : ∀ v ∈ vs, Decodes v) :
    ∃ rs, List.Forall₂ ReadsAs vs rs := by
  induction vs with
  | nil => exact ⟨[], .nil⟩
  | cons v vs ih =>
    obtain ⟨r, hr⟩ := (h v (by simp)).readsAs
    obtain ⟨rs, hrs⟩ := ih (fun v' hv' => h v' (by simp [hv']))
    exact ⟨r::rs, .cons hr hrs⟩

/-- What is left in the buffer is a proper part of the next value, or nothing if none is due. -/
def Waits (q : CodeUnits) : List RespValue → Prop
  | [] => q = []
  | v::_ => q <+: utf16 v.wire ∧ q ≠ utf16 v.wire

theorem wire_ne_nil (v : RespValue) : utf16 v.wire ≠ [] := by
  rw [utf16_wire]
  exact List.cons_ne_nil _ _

theorem waits_nil (vs : List RespValue) : Waits [] vs := by
  cases vs with
  | nil => rfl
  | cons v vs => exact ⟨List.nil_prefix, fun h => wire_ne_nil v h.symm⟩

variable {C : Type}

theorem processBuffer_nil (pending : List C) :
    processBuffer [] pending = some ⟨[], pending, []⟩ := by
  cases pending <;> simp [processBuffer]

theorem processBuffer_incomplete {b : CodeUnits} (pending : List C)
    (h : parse b = .incomplete) : processBuffer b pending = some ⟨b, pending, []⟩ := by
  cases pending with
  | nil => rfl
  | cons cb pending =>
    rw [processBuffer]
    split
    next => rfl
    next => rw [h]

/-- One pass over the buffer delivers the complete values and leaves a part of the next one. -/
theorem processBuffer_part {vs : List RespValue} {rs : List Reply}
    (hrs : List.Forall₂ ReadsAs vs rs) (hvs : ∀ v ∈ vs, Decodes v) {b : CodeUnits}
    (hb : b <+: utf16 (RespValue.wires vs)) (pending : List C) (hp : vs.length ≤ pending.length) :
    ∃ done todo rdone rtodo q, vs = done ++ todo ∧ rs = rdone ++ rtodo ∧
      List.Forall₂ ReadsAs todo rtodo ∧ rdone.length = done.length ∧
      b = utf16 (RespValue.wires done) ++ q ∧ Waits q todo ∧
      processBuffer b pending = some ⟨q, pending.drop done.length, pending.zip rdone⟩ := by
  induction hrs generalizing b pending with
  | nil =>
    have hnil : b = [] := List.prefix_nil.mp hb
    refine ⟨[], [], [], [], [], rfl, rfl, .nil, rfl, hnil, rfl, ?_⟩
    rw [hnil, processBuffer_nil]
    simp
  | @cons v r vs rs hr hrs ih =>
    by_cases hwhole : utf16 v.wire <+: b
    · obtain ⟨b', rfl⟩ := hwhole
      rw [utf16_wires_cons, List.prefix_append_right_inj] at hb
      cases pending with
      | nil => exact absurd hp (by simp)
      | cons cb pending =>
        obtain ⟨done, todo, rdone, rtodo, q, rfl, rfl, htodo, hlen, rfl, hq, hprocess⟩ :=
          ih (fun v' hv' => hvs v' (by simp [hv'])) hb pending (by simpa using hp)
        refine ⟨v::done, todo, r::rdone, rtodo, q, rfl, rfl, htodo, by simp [hlen], ?_, hq, ?_⟩
        · rw [utf16_wires_cons, List.append_assoc]
        · obtain ⟨x, isError, -, hreply, hparse⟩ := hr
          have hne : ¬ utf16 v.wire ++ (utf16 (RespValue.wires done) ++ q) = [] := by
            simp [wire_ne_nil v]
          rw [processBuffer, if_neg hne, hparse]
          simp only
          rw [sliceFrom_nat (by simp), List.drop_left' rfl, hprocess, hreply]
          rfl
    · have hpart : b <+: utf16 v.wire ∧ b ≠ utf16 v.wire := by
        rw [utf16_wires_cons] at hb
        rcases List.prefix_or_prefix_of_prefix hb (List.prefix_append (utf16 v.wire) _) with h | h
        · exact ⟨h, fun heq => hwhole (heq ▸ List.prefix_refl _)⟩
        · exact absurd h hwhole
      have hwait := (hvs v (by simp)).2 b hpart.1 hpart.2
      refine ⟨[], v::vs, [], r::rs, b, rfl, rfl, .cons hr hrs, rfl, rfl, hpart, ?_⟩
      rw [processBuffer_incomplete pending hwait]
      simp

theorem zip_append_drop {α β : Type} (xs : List α) (ys zs : List β) :
    xs.zip (ys++zs) = xs.zip ys ++ (xs.drop ys.length).zip zs := by
  induction ys generalizing xs with
  | nil => simp
  | cons y ys ih =>
    cases xs with
    | nil => simp
    | cons x xs => simp [ih]

theorem wires_append (vs ws : List RespValue) :
    utf16 (RespValue.wires (vs++ws)) =
      utf16 (RespValue.wires vs) ++ utf16 (RespValue.wires ws) := by
  induction vs with
  | nil => rfl
  | cons v vs ih =>
    rw [List.cons_append, utf16_wires_cons, utf16_wires_cons, ih, List.append_assoc]

theorem deliver_chunks {vs : List RespValue} {rs : List Reply}
    (hrs : List.Forall₂ ReadsAs vs rs) (hvs : ∀ v ∈ vs, Decodes v) (chunks : List CodeUnits)
    {q : CodeUnits} (hq : Waits q vs) (pending : List C) (hp : vs.length ≤ pending.length)
    (hchunks : q ++ chunks.flatten = utf16 (RespValue.wires vs)) :
    deliver q pending chunks = some ⟨[], pending.drop vs.length, pending.zip rs⟩ := by
  induction chunks generalizing q pending vs rs with
  | nil =>
    rw [List.flatten_nil, List.append_nil] at hchunks
    cases hrs with
    | nil =>
      have hnil : q = [] := hq
      rw [hnil]
      simp [deliver]
    | @cons v r vs rs hr hrs =>
      rw [hchunks, utf16_wires_cons] at hq
      have hlen := length_lt_of_proper hq.1 hq.2
      rw [List.length_append] at hlen
      omega
  | cons chunk chunks ih =>
    rw [List.flatten_cons, ← List.append_assoc] at hchunks
    obtain ⟨done, todo, rdone, rtodo, q', rfl, rfl, htodo, hlen, hb, hq', hprocess⟩ :=
      processBuffer_part hrs hvs ⟨_, hchunks⟩ pending hp
    have hrest : q' ++ chunks.flatten = utf16 (RespValue.wires todo) := by
      rw [hb, wires_append, List.append_assoc, List.append_cancel_left_eq] at hchunks
      exact hchunks
    rw [List.length_append] at hp
    have hdeliver := ih htodo (fun v hv => hvs v (by simp [hv])) hq' (pending.drop done.length)
      (by rw [List.length_drop]; omega) hrest
    rw [deliver, hprocess]
    simp only [Option.bind_eq_bind, Option.bind_some, hdeliver, List.drop_drop, List.length_append]
    rw [zip_append_drop, hlen]

theorem deliversStream_of_decodes {vs : List RespValue} (h : ∀ v ∈ vs, Decodes v) :
    DeliversStream vs := by
  obtain ⟨rs, hrs⟩ := readsAs_all h
  refine ⟨rs, ?_, fun C pending chunks hp hchunks => ?_⟩
  · apply hrs.imp
    rintro v r ⟨x, isError, hx, hreply, -⟩
    exact ⟨x, isError, hx, hreply⟩
  · exact deliver_chunks hrs h chunks (waits_nil vs) pending hp (by simpa using hchunks)

end Streams

/-- The values of a stream are decoded, whatever follows and however it is cut, exactly when
their bulk strings are ASCII, their integers are doubles and no array holds an error. -/
theorem resp_decoding_iff (vs : List RespValue) :
    ((∀ v ∈ vs, Decodes v) ∧ DeliversStream vs) ↔ ∀ v ∈ vs, Decodable v := by
  constructor
  · exact fun h v hv => (decodes_iff v).mp (h.1 v hv)
  · intro h
    have hdecodes : ∀ v ∈ vs, Decodes v := fun v hv => (decodes_iff v).mpr (h v hv)
    exact ⟨hdecodes, deliversStream_of_decodes hdecodes⟩

/-- `é` is two bytes but one code unit: the client waits for a code unit that never comes. -/
theorem accented_reply_waits :
    parse (utf16 (RespValue.bulk ['é']).wire) = .incomplete ∧
      ¬ ((∀ v ∈ [RespValue.bulk ['é']], Decodes v) ∧ DeliversStream [RespValue.bulk ['é']]) := by
  have hwait : parse (utf16 (RespValue.bulk ['é']).wire) = .incomplete := rfl
  refine ⟨hwait, fun h => ?_⟩
  obtain ⟨x, isError, -, hparse⟩ := (h.1 (.bulk ['é']) (by simp)).1 []
  rw [List.append_nil, hwait] at hparse
  cases hparse

end LuaRecovery.Queue
