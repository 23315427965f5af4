import LuaRecovery.Lib.Runs
import LuaRecovery.Queue.RedisReplies

/-!
# A client that reconnects

The callbacks of the commands that wait and the bytes that have arrived outlive
the connection that they belong to. Commands are numbered as they are sent, and
the server's answer to each is given.
-/

set_option autoImplicit false

namespace LuaRecovery.Queue
open LuaRecovery.Lib

structure Socket where
  /-- The command that waits for the connection to open. -/
  awaiting : Option ℕ
  connectionSettled : Bool
  timer : Bool
  opened : Bool
  destroyed : Bool
  closed : Bool
  /-- What the server has sent over it and the client has not seen. -/
  undelivered : CodeUnits

/-- A callback, with the command that it is for and the connection that this was written to. -/
structure Callback where
  command : ℕ
  connection : ℕ

inductive Outcome where
  | answered (sentOn arrivedOn : ℕ) (reply : Reply)
  | broken
  | unconnected

structure MinimalRedisClient where
  sockets : List Socket
  socket : Option ℕ
  connected : Bool
  buffer : CodeUnits
  pendingCallbacks : List Callback
  /-- The commands whose connection has opened and that are still to be written. -/
  ready : List ℕ
  issued : ℕ
  /-- The connection over which the latest bytes came. -/
  source : Option ℕ
  settled : List (ℕ × Outcome)

inductive ClientEvent where
  | sendCommand
  | connect
  | disconnect
  | resume (command : ℕ)
  | connection (k : ℕ)
  | timeout (k : ℕ)
  | data (k count : ℕ)
  | error (k : ℕ)
  | close (k : ℕ)

namespace Socket

def create (awaiting : Option ℕ) : Socket := ⟨awaiting, false, true, false, false, false, []⟩

def destroy (c : Socket) : Socket := { c with destroyed := true }

/-- The server answers what is written to it, unless the connection is gone. -/
def receive (v : RespValue) (c : Socket) : Socket :=
  if c.destroyed then c else { c with undelivered := c.undelivered ++ utf16 v.wire }

end Socket

namespace MinimalRedisClient

def create : MinimalRedisClient := ⟨[], none, false, [], [], [], 0, none, []⟩

def modifySocket (s : MinimalRedisClient) (k : ℕ) (f : Socket → Socket) : MinimalRedisClient :=
  { s with sockets := s.sockets.modify k f }

/-- The socket, if `sendCommand` does without connecting first. -/
def usable (s : MinimalRedisClient) : Option ℕ :=
  if s.connected then
    s.socket.filter (fun k => (s.sockets[k]?).any (fun c => !c.destroyed))
  else none

def connect (s : MinimalRedisClient) (awaiting : Option ℕ) : MinimalRedisClient :=
  { s with sockets := s.sockets ++ [.create awaiting], socket := some s.sockets.length }

def write (answer : ℕ → RespValue) (s : MinimalRedisClient) (command k : ℕ) :
    MinimalRedisClient :=
  { s.modifySocket k (.receive (answer command)) with
    pendingCallbacks := s.pendingCallbacks ++ [⟨command, k⟩] }

def sendCommand (answer : ℕ → RespValue) (s : MinimalRedisClient) : MinimalRedisClient :=
  let s' := { s with issued := s.issued+1 }
  match s.usable with
  | some k => write answer s' s.issued k
  | none => s'.connect (some s.issued)

def destroySocket (s : MinimalRedisClient) : MinimalRedisClient :=
  match s.socket with
  | some k => s.modifySocket k .destroy
  | none => s

def disconnect (s : MinimalRedisClient) : MinimalRedisClient :=
  match s.socket with
  | some _ => { s.destroySocket with connected := false }
  | none => s

/-- A connection that fails takes the command with it that waits for it. -/
def reject (s : MinimalRedisClient) (awaiting : Option ℕ) : MinimalRedisClient :=
  { s with settled := s.settled ++ awaiting.toList.map (fun c => (c, .unconnected)) }

def onTimeout (s : MinimalRedisClient) (k : ℕ) (c : Socket) : MinimalRedisClient :=
  (s.destroySocket.reject c.awaiting).modifySocket k
    (fun c => { c with timer := false, awaiting := none })

def onConnection (s : MinimalRedisClient) (k : ℕ) (c : Socket) : MinimalRedisClient :=
  let s' := s.modifySocket k (fun c => { c with opened := true })
  if c.connectionSettled then s'
  else
    { s'.modifySocket k (fun c =>
        { c with connectionSettled := true, timer := false, awaiting := none }) with
      connected := true
      ready := s.ready ++ c.awaiting.toList }

def shiftCallback (s : MinimalRedisClient) : MinimalRedisClient :=
  match s.pendingCallbacks with
  | [] => s
  | cb::pending =>
      { s with pendingCallbacks := pending, settled := s.settled ++ [(cb.command, .broken)] }

def breakSocket (s : MinimalRedisClient) (k : ℕ) : MinimalRedisClient :=
  { s with connected := false }.modifySocket k
    (fun c => { c with timer := false, destroyed := true })

def rejectConnection (s : MinimalRedisClient) (k : ℕ) (c : Socket) : MinimalRedisClient :=
  if c.connectionSettled then s
  else
    (s.reject c.awaiting).modifySocket k
      (fun c => { c with connectionSettled := true, awaiting := none })

def onError (s : MinimalRedisClient) (k : ℕ) (c : Socket) : MinimalRedisClient :=
  ((s.breakSocket k).rejectConnection k c).shiftCallback

def onClose (s : MinimalRedisClient) (k : ℕ) : MinimalRedisClient :=
  { s with connected := false }.modifySocket k
    (fun c => { c with destroyed := true, closed := true })

def onData (s : MinimalRedisClient) (k count : ℕ) (c : Socket) : Option MinimalRedisClient := do
  let p ← processBuffer (s.buffer ++ c.undelivered.take count) s.pendingCallbacks
  let s' := s.modifySocket k (fun c => { c with undelivered := c.undelivered.drop count })
  some { s' with
    buffer := p.buffer
    pendingCallbacks := p.pending
    source := some k
    settled := s.settled ++
      p.delivered.map (fun d => (d.1.command, .answered d.1.connection k d.2)) }

def step (answer : ℕ → RespValue) (s : MinimalRedisClient) :
    ClientEvent → Option MinimalRedisClient
  | .sendCommand => some (s.sendCommand answer)
  | .connect => some (s.connect none)
  | .disconnect => some s.disconnect
  | .resume command => do
      let k ← s.socket
      if command ∈ s.ready then
        some ({ s with ready := s.ready.erase command }.write answer command k)
      else none
  | .connection k => do
      let c ← s.sockets[k]?
      if c.destroyed || c.opened then none else some (s.onConnection k c)
  | .timeout k => do
      let c ← s.sockets[k]?
      if c.timer then some (s.onTimeout k c) else none
  | .data k count => do
      let c ← s.sockets[k]?
      if c.destroyed || !c.opened || count = 0 || c.undelivered.length < count then none
      else s.onData k count c
  | .error k => do
      let c ← s.sockets[k]?
      if c.destroyed then none else some (s.onError k c)
  | .close k => do
      let c ← s.sockets[k]?
      if c.closed then none else some (s.onClose k)

def system (answer : ℕ → RespValue) : System MinimalRedisClient ClientEvent where
  start := create
  step := step answer

/-- A reply settles the command that it answers, and came over the connection that this was
written to. -/
def RepliesReachCallers (answer : ℕ → RespValue) (s : MinimalRedisClient) : Prop :=
  ∀ command sentOn arrivedOn reply, (command, .answered sentOn arrivedOn reply) ∈ s.settled →
    sentOn = arrivedOn ∧ RepliesTo (answer command) reply

def Alive (s : MinimalRedisClient) (k : ℕ) : Prop :=
  ∃ c, s.sockets[k]? = some c ∧ c.destroyed = false

/-- Bytes arrive while the buffer has none of another connection, and no more of them than the
replies to the first callbacks, those of this connection; an error strikes while the first
callback does not wait on another connection that is alive. -/
def Orderly (answer : ℕ → RespValue) (s : MinimalRedisClient) : ClientEvent → Prop
  | .data k count => (s.buffer = [] ∨ s.source = some k) ∧
      s.buffer.length + count ≤ (utf16 (RespValue.wires
        ((s.pendingCallbacks.takeWhile (·.connection = k)).map (answer ·.command)))).length
  | .error k => ∀ cb ∈ s.pendingCallbacks.head?, cb.connection = k ∨ ¬ s.Alive cb.connection
  | _ => True

/-- What is left in the buffer of the bytes that came over a connection. -/
def bufferOf (s : MinimalRedisClient) (k : ℕ) : CodeUnits :=
  if s.source = some k then s.buffer else []

def sentOn (s : MinimalRedisClient) (k : ℕ) : List Callback :=
  s.pendingCallbacks.filter (·.connection = k)

/-- What a connection that is alive has still to bring are the replies to the callbacks that
wait on it. -/
structure Matched (answer : ℕ → RespValue) (s : MinimalRedisClient) : Prop where
  stream : ∀ (k : ℕ) (c : Socket), s.sockets[k]? = some c → c.destroyed = false →
    s.bufferOf k ++ c.undelivered =
      utf16 (RespValue.wires ((s.sentOn k).map (answer ·.command)))
  placed : ∀ cb ∈ s.pendingCallbacks, cb.connection < s.sockets.length
  heard : ∀ k ∈ s.source, k < s.sockets.length
  current : ∀ k ∈ s.socket, k < s.sockets.length
  replies : RepliesReachCallers answer s

/-- No byte and no callback moves, no connection comes alive and no reply is given. -/
structure Ages (s s' : MinimalRedisClient) : Prop where
  buffer : s'.buffer = s.buffer
  source : s'.source = s.source
  pending : s'.pendingCallbacks = s.pendingCallbacks
  socket : s'.socket = s.socket
  length : s'.sockets.length = s.sockets.length
  alive : ∀ (k : ℕ) (c' : Socket), s'.sockets[k]? = some c' → c'.destroyed = false →
    ∃ c : Socket, s.sockets[k]? = some c ∧ c.destroyed = false ∧ c.undelivered = c'.undelivered
  settled : ∀ command i j reply, (command, .answered i j reply) ∈ s'.settled →
    (command, .answered i j reply) ∈ s.settled

theorem Ages.refl (s : MinimalRedisClient) : Ages s s where
  buffer := rfl
  source := rfl
  pending := rfl
  socket := rfl
  length := rfl
  alive := fun _ c h hc => ⟨c, h, hc, rfl⟩
  settled := fun _ _ _ _ h => h

theorem Ages.trans {s t u : MinimalRedisClient} (h : Ages s t) (h' : Ages t u) : Ages s u where
  buffer := h'.buffer.trans h.buffer
  source := h'.source.trans h.source
  pending := h'.pending.trans h.pending
  socket := h'.socket.trans h.socket
  length := h'.length.trans h.length
  alive := by
    intro k c hk hc
    obtain ⟨c', hk', hc', hu'⟩ := h'.alive k c hk hc
    obtain ⟨c'', hk'', hc'', hu''⟩ := h.alive k c' hk' hc'
    exact ⟨c'', hk'', hc'', hu''.trans hu'⟩
  settled := fun c i j r hr => h.settled c i j r (h'.settled c i j r hr)

theorem Matched.ages {answer : ℕ → RespValue} {s s' : MinimalRedisClient} (h : Matched answer s)
    (ha : Ages s s') : Matched answer s' where
  stream := by
    intro k c' hk hc
    obtain ⟨c, hk', hc', hu⟩ := ha.alive k c' hk hc
    rw [bufferOf, sentOn, ha.source, ha.buffer, ha.pending, ← hu]
    exact h.stream k c hk' hc'
  placed := by rw [ha.pending, ha.length]; exact h.placed
  heard := by rw [ha.source, ha.length]; exact h.heard
  current := by rw [ha.socket, ha.length]; exact h.current
  replies := fun c i j r hr => h.replies c i j r (ha.settled c i j r hr)

theorem getElem?_modifySocket {s : MinimalRedisClient} {k j : ℕ} {f : Socket → Socket}
    {c' : Socket} (h : (s.modifySocket k f).sockets[j]? = some c') :
    (j = k ∧ ∃ c, s.sockets[k]? = some c ∧ c' = f c) ∨ (j ≠ k ∧ s.sockets[j]? = some c') := by
  rw [modifySocket, List.getElem?_modify] at h
  by_cases hj : k = j
  · subst hj
    obtain ⟨c, hc, rfl⟩ := Option.map_eq_some_iff.mp h
    exact .inl ⟨rfl, c, hc, by simp⟩
  · exact .inr ⟨fun h => hj h.symm, by simpa [hj] using h⟩

theorem ages_modifySocket (s : MinimalRedisClient) (k : ℕ) {f : Socket → Socket}
    (hf : ∀ c, (f c).undelivered = c.undelivered)
    (hd : ∀ c, (f c).destroyed = false → c.destroyed = false) : Ages s (s.modifySocket k f) where
  buffer := rfl
  source := rfl
  pending := rfl
  socket := rfl
  length := List.length_modify _ _ _
  alive := by
    intro j c' hj hc'
    rcases getElem?_modifySocket hj with ⟨rfl, c, hc, rfl⟩ | ⟨-, hc⟩
    · exact ⟨c, hc, hd c hc', (hf c).symm⟩
    · exact ⟨c', hc, hc', rfl⟩
  settled := fun _ _ _ _ h => h

theorem ages_reject (s : MinimalRedisClient) (awaiting : Option ℕ) :
    Ages s (s.reject awaiting) where
  buffer := rfl
  source := rfl
  pending := rfl
  socket := rfl
  length := rfl
  alive := fun _ c h hc => ⟨c, h, hc, rfl⟩
  settled := by
    intro c i j r h
    rcases List.mem_append.mp h with h | h
    · exact h
    · simp at h

theorem ages_destroySocket (s : MinimalRedisClient) : Ages s s.destroySocket := by
  rw [destroySocket]
  split
  · exact ages_modifySocket s _ (fun _ => rfl) (fun _ h => absurd h (by simp [Socket.destroy]))
  · exact .refl s

theorem ages_flags (s : MinimalRedisClient) (connected : Bool) (ready : List ℕ) :
    Ages s { s with connected := connected, ready := ready } where
  buffer := rfl
  source := rfl
  pending := rfl
  socket := rfl
  length := rfl
  alive := fun _ c h hc => ⟨c, h, hc, rfl⟩
  settled := fun _ _ _ _ h => h

theorem ages_disconnect (s : MinimalRedisClient) : Ages s s.disconnect := by
  rw [disconnect]
  split
  · exact (ages_destroySocket s).trans (ages_flags _ _ _)
  · exact .refl s

theorem ages_onTimeout (s : MinimalRedisClient) (k : ℕ) (c : Socket) :
    Ages s (s.onTimeout k c) :=
  ((ages_destroySocket s).trans (ages_reject _ _)).trans
    (ages_modifySocket _ k (fun _ => rfl) (fun _ h => h))

theorem ages_onConnection (s : MinimalRedisClient) (k : ℕ) (c : Socket) :
    Ages s (s.onConnection k c) := by
  have hopened : Ages s (s.modifySocket k (fun c => { c with opened := true })) :=
    ages_modifySocket s k (fun _ => rfl) (fun _ h => h)
  rw [onConnection]
  split
  · exact hopened
  · refine (hopened.trans ?_).trans (ages_flags _ _ _)
    exact ages_modifySocket _ k (fun _ => rfl) (fun _ h => h)

theorem ages_onClose (s : MinimalRedisClient) (k : ℕ) : Ages s (s.onClose k) :=
  (ages_flags s false s.ready).trans
    (ages_modifySocket _ k (fun _ => rfl) (fun _ h => absurd h (by simp)))

theorem Matched.connect {answer : ℕ → RespValue} {s : MinimalRedisClient} (h : Matched answer s)
    (awaiting : Option ℕ) : Matched answer (s.connect awaiting) where
  stream := by
    intro k c hk hc
    simp only [MinimalRedisClient.connect] at hk
    rcases lt_trichotomy k s.sockets.length with hlt | rfl | hgt
    · rw [List.getElem?_append_left hlt] at hk
      exact h.stream k c hk hc
    · have hcreate : c = .create awaiting := by simpa using hk.symm
      have hsource : s.source ≠ some s.sockets.length :=
        fun hs => lt_irrefl _ (h.heard _ hs)
      have hsent : s.sentOn s.sockets.length = [] := by
        apply List.filter_eq_nil_iff.mpr
        intro cb hcb
        have := h.placed cb hcb
        simp only [decide_eq_true_eq]
        omega
      rw [hcreate]
      change s.bufferOf _ ++ [] = utf16 (RespValue.wires ((s.sentOn _).map _))
      rw [hsent, bufferOf, if_neg hsource]
      rfl
    · rw [List.getElem?_eq_none (by simpa using Nat.succ_le_of_lt hgt)] at hk
      cases hk
  placed := by
    intro cb hcb
    have := h.placed cb hcb
    simp only [MinimalRedisClient.connect, List.length_append, List.length_singleton]
    omega
  heard := by
    intro k hk
    have := h.heard k hk
    simp only [MinimalRedisClient.connect, List.length_append, List.length_singleton]
    omega
  current := by simp [MinimalRedisClient.connect]
  replies := h.replies

theorem Matched.write {answer : ℕ → RespValue} {s : MinimalRedisClient} (h : Matched answer s)
    (command : ℕ) {k : ℕ} (hk : k < s.sockets.length) :
    Matched answer (write answer s command k) where
  stream := by
    intro j c' hj hc'
    have hsent : (MinimalRedisClient.write answer s command k).sentOn j =
        s.sentOn j ++ [Callback.mk command k].filter (·.connection = j) := List.filter_append _ _
    change s.bufferOf j ++ _ = _
    rcases getElem?_modifySocket hj with ⟨rfl, c, hc, rfl⟩ | ⟨hne, hc⟩
    · have halive : c.destroyed = false := by
        by_contra hd
        rw [Bool.not_eq_false] at hd
        simp [Socket.receive, hd] at hc'
      rw [hsent, Socket.receive, halive, List.map_append, wires_append, ← h.stream j c hc halive]
      simp [RespValue.wires, RespValue.wire]
    · rw [hsent, h.stream j c' hc hc']
      simp [hne.symm]
  placed := by
    intro cb hcb
    rcases List.mem_append.mp hcb with hcb | hcb
    · simpa [MinimalRedisClient.write, modifySocket] using h.placed cb hcb
    · rw [List.mem_singleton.mp hcb]
      simpa [MinimalRedisClient.write, modifySocket] using hk
  heard := by simpa [MinimalRedisClient.write, modifySocket] using h.heard
  current := by simpa [MinimalRedisClient.write, modifySocket] using h.current
  replies := h.replies

theorem usable_lt {answer : ℕ → RespValue} {s : MinimalRedisClient} (h : Matched answer s)
    {k : ℕ} (hk : s.usable = some k) : k < s.sockets.length := by
  rw [usable] at hk
  split at hk
  · exact h.current k (Option.eq_some_of_filter_eq_some hk)
  · cases hk

theorem Matched.sendCommand {answer : ℕ → RespValue} {s : MinimalRedisClient}
    (h : Matched answer s) : Matched answer (sendCommand answer s) := by
  have hissued : Matched answer { s with issued := s.issued+1 } :=
    ⟨h.stream, h.placed, h.heard, h.current, h.replies⟩
  rw [MinimalRedisClient.sendCommand]
  split
  next k hk => exact hissued.write _ (usable_lt h hk)
  next => exact hissued.connect _

/-- The callback that an error takes was not waiting on a connection that is alive. -/
theorem Matched.shiftCallback {answer : ℕ → RespValue} {s : MinimalRedisClient}
    (h : Matched answer s) (hfirst : ∀ cb ∈ s.pendingCallbacks.head?, ¬ s.Alive cb.connection) :
    Matched answer s.shiftCallback := by
  rw [MinimalRedisClient.shiftCallback]
  split
  next => exact h
  next cb pending hp =>
    rw [hp] at hfirst
    have hdead := hfirst cb rfl
    refine ⟨?_, ?_, h.heard, h.current, ?_⟩
    · intro k c hk hc
      have hne : cb.connection ≠ k := by
        intro heq
        exact hdead ⟨c, heq ▸ hk, hc⟩
      have hsent : s.sentOn k = pending.filter (·.connection = k) := by
        rw [sentOn, hp, List.filter_cons_of_neg (by simpa using hne)]
      have hstream := h.stream k c hk hc
      rw [hsent] at hstream
      exact hstream
    · intro cb' hcb'
      exact h.placed cb' (by rw [hp]; exact List.mem_cons_of_mem _ hcb')
    · intro c i j r hr
      rcases List.mem_append.mp hr with hr | hr
      · exact h.replies c i j r hr
      · simp at hr

theorem ages_breakSocket (s : MinimalRedisClient) (k : ℕ) : Ages s (s.breakSocket k) :=
  (ages_flags s false s.ready).trans
    (ages_modifySocket _ k (fun _ => rfl) (fun _ h => absurd h (by simp)))

theorem ages_rejectConnection (s : MinimalRedisClient) (k : ℕ) (c : Socket) :
    Ages s (s.rejectConnection k c) := by
  rw [rejectConnection]
  split
  · exact .refl s
  · exact (ages_reject s _).trans (ages_modifySocket _ k (fun _ => rfl) (fun _ h => h))

theorem Ages.not_alive {s s' : MinimalRedisClient} (h : Ages s s') {k : ℕ} (hk : ¬ s.Alive k) :
    ¬ s'.Alive k := by
  rintro ⟨c', hc', halive'⟩
  obtain ⟨c, hc, halive, -⟩ := h.alive k c' hc' halive'
  exact hk ⟨c, hc, halive⟩

theorem breakSocket_not_alive (s : MinimalRedisClient) (k : ℕ) : ¬ (s.breakSocket k).Alive k := by
  rintro ⟨c', hc', halive⟩
  rcases getElem?_modifySocket hc' with ⟨-, c'', -, rfl⟩ | ⟨hne, -⟩
  · cases halive
  · exact hne rfl

theorem Matched.onError {answer : ℕ → RespValue} {s : MinimalRedisClient} (h : Matched answer s)
    {k : ℕ} (c : Socket) (hcond : Orderly answer s (.error k)) :
    Matched answer (s.onError k c) := by
  have hages : Ages s ((s.breakSocket k).rejectConnection k c) :=
    (ages_breakSocket s k).trans (ages_rejectConnection _ k c)
  apply (h.ages hages).shiftCallback
  intro cb hcb
  rw [hages.pending] at hcb
  rcases hcond cb hcb with hk | hgone
  · rw [hk]
    exact (ages_rejectConnection _ k c).not_alive (breakSocket_not_alive s k)
  · exact hages.not_alive hgone

section Data
variable {answer : ℕ → RespValue} {s s' : MinimalRedisClient} {k count : ℕ} {c : Socket}

theorem filter_own {own rest : List Callback} (hown : ∀ cb ∈ own, cb.connection = k) (j : ℕ) :
    (own ++ rest).filter (·.connection = j) =
      (if j = k then own else []) ++ rest.filter (·.connection = j) := by
  rw [List.filter_append]
  congr 1
  split
  next hj =>
    apply List.filter_eq_self.mpr
    intro cb hcb
    simp [hown cb hcb, hj]
  next hj =>
    apply List.filter_eq_nil_iff.mpr
    intro cb hcb
    simpa [hown cb hcb] using fun h => hj h.symm

/-- What the buffer holds once the bytes are in is a part of the replies to the first callbacks,
all of them of this connection. -/
theorem Matched.arrives (h : Matched answer s) (hk : s.sockets[k]? = some c)
    (halive : c.destroyed = false) (hcond : Orderly answer s (.data k count)) :
    (∀ j, j ≠ k → s.bufferOf j = []) ∧ s.bufferOf k = s.buffer ∧
      ∃ own rest, s.pendingCallbacks = own ++ rest ∧ (∀ cb ∈ own, cb.connection = k) ∧
        s.buffer ++ c.undelivered.take count <+:
          utf16 (RespValue.wires (own.map (answer ·.command))) := by
  obtain ⟨hsource, hcount⟩ := hcond
  have hbuffer : s.bufferOf k = s.buffer := by
    rw [bufferOf]
    rcases hsource with hnil | hsource
    · rw [hnil, ite_self]
    · rw [if_pos hsource]
  have hother : ∀ j, j ≠ k → s.bufferOf j = [] := by
    intro j hj
    rw [bufferOf]
    rcases hsource with hnil | hsource
    · rw [hnil, ite_self]
    · rw [hsource, if_neg (by simpa using hj.symm)]
  have hown : ∀ cb ∈ s.pendingCallbacks.takeWhile (·.connection = k), cb.connection = k := by
    intro cb hcb
    simpa using List.mem_takeWhile_imp hcb
  refine ⟨hother, hbuffer, _, s.pendingCallbacks.dropWhile (·.connection = k),
    (List.takeWhile_append_dropWhile).symm, hown, ?_⟩
  have hstream := h.stream k c hk halive
  rw [sentOn, ← List.takeWhile_append_dropWhile (p := (·.connection = k))
    (l := s.pendingCallbacks), filter_own hown, if_pos rfl, List.map_append, wires_append,
    hbuffer] at hstream
  have hpart : s.buffer ++ c.undelivered.take count <+: s.buffer ++ c.undelivered :=
    (List.prefix_append_right_inj _).mpr (List.take_prefix _ _)
  rw [hstream] at hpart
  apply List.prefix_of_prefix_length_le hpart (List.prefix_append _ _)
  rw [List.length_append]
  have := List.length_take_le count c.undelivered
  omega

theorem zip_append_left {α β : Type} (xs zs : List α) {ys : List β}
    (h : ys.length ≤ xs.length) : (xs ++ zs).zip ys = xs.zip ys := by
  induction xs generalizing ys with
  | nil =>
    rw [List.length_eq_zero_iff.mp (Nat.le_zero.mp h)]
    simp
  | cons x xs ih =>
    cases ys with
    | nil => simp
    | cons y ys => simp [ih (by simpa using h)]

/-- The callbacks that are called are the first ones, each with the reply to its command. -/
theorem delivered_right {own rest : List Callback} {rdone rtodo : List Reply}
    (hown : ∀ cb ∈ own, cb.connection = k)
    (hrs : List.Forall₂ ReadsAs (own.map (answer ·.command)) (rdone ++ rtodo)) :
    ∀ d ∈ (own ++ rest).zip rdone, d.1.connection = k ∧ RepliesTo (answer d.1.command) d.2 := by
  rw [List.forall₂_map_left_iff, List.forall₂_iff_zip] at hrs
  obtain ⟨hlen, hreads⟩ := hrs
  rw [List.length_append] at hlen
  intro d hd
  rw [zip_append_left own rest (by omega)] at hd
  have hmem : (d.1, d.2) ∈ own.zip (rdone ++ rtodo) := by
    rw [zip_append_drop]
    exact List.mem_append_left _ hd
  obtain ⟨x, isError, hanswers, hreply, -⟩ := hreads hmem
  exact ⟨hown _ (List.of_mem_zip hmem).1, x, isError, hanswers, hreply⟩

theorem Matched.onData (hanswer : ∀ command, Decodable (answer command)) (h : Matched answer s)
    (hk : s.sockets[k]? = some c) (halive : c.destroyed = false)
    (hcond : Orderly answer s (.data k count)) (hs : s.onData k count c = some s') :
    Matched answer s' := by
  obtain ⟨hother, hbuffer, own, rest, hpending, hown, hpart⟩ := h.arrives hk halive hcond
  have hdecodes : ∀ v ∈ own.map (answer ·.command), Decodes v := by
    intro v hv
    obtain ⟨cb, -, rfl⟩ := List.mem_map.mp hv
    exact (decodes_iff _).mpr (hanswer _)
  obtain ⟨rs, hrs⟩ := readsAs_all hdecodes
  obtain ⟨done, todo, rdone, rtodo, q, hvs, rfl, -, -, hb, -, hprocess⟩ :=
    processBuffer_part hrs hdecodes hpart s.pendingCallbacks
      (by rw [hpending, List.length_map, List.length_append]; omega)
  have hdone : done.length ≤ own.length := by
    have hlen := congrArg List.length hvs
    rw [List.length_map, List.length_append] at hlen
    omega
  have htodo : (own.drop done.length).map (answer ·.command) = todo := by
    rw [List.map_drop, hvs, List.drop_left]
  have hdrop : s.pendingCallbacks.drop done.length = own.drop done.length ++ rest := by
    rw [hpending, List.drop_append_of_le_length hdone]
  have hleft : ∀ cb ∈ own.drop done.length, cb.connection = k :=
    fun cb hcb => hown cb (List.mem_of_mem_drop hcb)
  have hsent : ∀ j, s.sentOn j = (if j = k then own else []) ++ rest.filter (·.connection = j) :=
    fun j => by rw [sentOn, hpending, filter_own hown]
  rw [MinimalRedisClient.onData, hprocess] at hs
  simp only [Option.bind_eq_bind, Option.bind_some, Option.some.injEq] at hs
  subst hs
  refine ⟨?_, ?_, ?_, ?_, ?_⟩
  · intro j c' hj hc'
    simp only [sentOn, bufferOf, hdrop, filter_own hleft]
    rcases getElem?_modifySocket hj with ⟨rfl, c'', hc'', rfl⟩ | ⟨hne, hc''⟩
    · rw [hk, Option.some.injEq] at hc''
      subst hc''
      have hstream := h.stream j c hk halive
      rw [hsent, if_pos rfl, List.map_append, hvs, wires_append, wires_append, hbuffer,
        ← List.take_append_drop count c.undelivered, ← List.append_assoc, hb, List.append_assoc,
        List.append_assoc, List.append_cancel_left_eq] at hstream
      rw [if_pos rfl, if_pos rfl, List.map_append, htodo, wires_append]
      exact hstream
    · have hstream := h.stream j c' hc'' hc'
      rw [hsent, if_neg hne, hother j hne] at hstream
      rw [if_neg (by simpa using hne.symm), if_neg hne]
      exact hstream
  · intro cb hcb
    simpa [modifySocket] using h.placed cb (List.mem_of_mem_drop hcb)
  · intro j hj
    obtain rfl : k = j := by simpa using hj
    simpa [modifySocket] using (List.getElem?_eq_some_iff.mp hk).1
  · simpa [modifySocket] using h.current
  · intro command i j reply hr
    rcases List.mem_append.mp hr with hr | hr
    · exact h.replies command i j reply hr
    · obtain ⟨d, hd, heq⟩ := List.mem_map.mp hr
      rw [hpending] at hd
      obtain ⟨hconn, hreply⟩ := delivered_right hown hrs d hd
      cases heq
      exact ⟨hconn, hreply⟩

end Data

theorem matched_create (answer : ℕ → RespValue) : Matched answer create where
  stream := fun _ _ hk _ => by cases hk
  placed := fun _ hcb => by cases hcb
  heard := fun _ hk => by cases hk
  current := fun _ hk => by cases hk
  replies := fun _ _ _ _ hr => by cases hr

theorem Matched.step {answer : ℕ → RespValue} (hanswer : ∀ command, Decodable (answer command))
    {s s' : MinimalRedisClient} {e : ClientEvent} (h : Matched answer s)
    (hcond : Orderly answer s e) (hs : step answer s e = some s') : Matched answer s' := by
  cases e with
  | sendCommand =>
    cases hs
    exact h.sendCommand
  | connect =>
    cases hs
    exact h.connect none
  | disconnect =>
    cases hs
    exact h.ages (ages_disconnect s)
  | resume command =>
    obtain ⟨k, hk, hs⟩ := Option.bind_eq_some_iff.mp hs
    split at hs
    · cases hs
      exact (h.ages (ages_flags s s.connected (s.ready.erase command))).write command
        (h.current k hk)
    · cases hs
  | connection k =>
    obtain ⟨c, -, hs⟩ := Option.bind_eq_some_iff.mp hs
    split at hs
    · cases hs
    · cases hs
      exact h.ages (ages_onConnection s k c)
  | timeout k =>
    obtain ⟨c, -, hs⟩ := Option.bind_eq_some_iff.mp hs
    split at hs
    · cases hs
      exact h.ages (ages_onTimeout s k c)
    · cases hs
  | data k count =>
    obtain ⟨c, hk, hs⟩ := Option.bind_eq_some_iff.mp hs
    split at hs
    next => cases hs
    next hready =>
      have halive : c.destroyed = false := by
        cases hd : c.destroyed
        · rfl
        · simp [hd] at hready
      exact h.onData hanswer hk halive hcond hs
  | error k =>
    obtain ⟨c, -, hs⟩ := Option.bind_eq_some_iff.mp hs
    split at hs
    · cases hs
    · cases hs
      exact h.onError c hcond
  | close k =>
    obtain ⟨c, -, hs⟩ := Option.bind_eq_some_iff.mp hs
    split at hs
    · cases hs
    · cases hs
      exact h.ages (ages_onClose s k)

/-- Where the server's answers can be decoded, each reply reaches its caller through any run whose
bytes and errors come in order. -/
theorem replies_reach_callers (answer : ℕ → RespValue)
    (hanswer : ∀ command, Decodable (answer command)) (events : List ClientEvent)
    (hevents : (system answer).Meets (Orderly answer) events) :
    (system answer).Always (RepliesReachCallers answer) events :=
  System.always_of_invariant (fun _ h => h.replies)
    (fun _ _ _ h hcond hs => h.step hanswer hcond hs) (matched_create answer) hevents

def okLine : Line := ⟨['O', 'K'], by simp⟩

/-- The first command reads a key that is missing, the others write one. -/
def answers (command : ℕ) : RespValue := if command = 0 then .nilBulk else .simple okLine

/-- A connection is lost when no command waits on it. -/
def lostIdle : List ClientEvent :=
  [.sendCommand, .connection 0, .resume 0, .data 0 2, .data 0 3, .close 0, .sendCommand,
    .connection 1, .resume 1, .data 1 5]

/-- A connection is lost while a command waits on it. -/
def lostWaiting : List ClientEvent :=
  [.sendCommand, .connection 0, .resume 0, .close 0, .sendCommand, .connection 1, .resume 1,
    .data 1 5]

theorem answers_decodable (command : ℕ) : Decodable (answers command) := by
  rw [answers]
  split
  · exact .inr True.intro
  · exact .inr True.intro

theorem lostIdle_orderly : (system answers).Meets (Orderly answers) lostIdle := by
  refine (System.meetsFrom_cons rfl).mpr ⟨trivial, ?_⟩
  refine (System.meetsFrom_cons rfl).mpr ⟨trivial, ?_⟩
  refine (System.meetsFrom_cons rfl).mpr ⟨trivial, ?_⟩
  refine (System.meetsFrom_cons rfl).mpr ⟨⟨.inl rfl, by decide⟩, ?_⟩
  refine (System.meetsFrom_cons rfl).mpr ⟨⟨.inr rfl, by decide⟩, ?_⟩
  refine (System.meetsFrom_cons rfl).mpr ⟨trivial, ?_⟩
  refine (System.meetsFrom_cons rfl).mpr ⟨trivial, ?_⟩
  refine (System.meetsFrom_cons rfl).mpr ⟨trivial, ?_⟩
  refine (System.meetsFrom_cons rfl).mpr ⟨trivial, ?_⟩
  exact (System.meetsFrom_cons rfl).mpr ⟨⟨.inl rfl, by decide⟩, trivial⟩

theorem idle_loss_keeps_replies :
    (system answers).Always (RepliesReachCallers answers) lostIdle :=
  replies_reach_callers answers answers_decodable lostIdle lostIdle_orderly

/-- The callback of the lost connection takes the reply to the first command of the next one. -/
theorem reply_of_a_later_command :
    ((system answers).run lostWaiting).map (·.settled) =
        some [(0, .answered 0 1 (.resolved (.text (utf16 okLine.text))))] ∧
      ¬ (system answers).Always (RepliesReachCallers answers) lostWaiting := by
  have hrun : ((system answers).run lostWaiting).map (·.settled) =
      some [(0, .answered 0 1 (.resolved (.text (utf16 okLine.text))))] := rfl
  refine ⟨hrun, fun h => ?_⟩
  obtain ⟨s, hs, hsettled⟩ := Option.map_eq_some_iff.mp hrun
  have hlaw := h.last hs 0 0 1 _ (by rw [hsettled]; exact List.mem_singleton_self _)
  exact absurd hlaw.1 (by decide)

end MinimalRedisClient
end LuaRecovery.Queue
