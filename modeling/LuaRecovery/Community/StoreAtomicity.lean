import LuaRecovery.Community.CommunityStore
import LuaRecovery.Lib.Runs

/-!
# Calls whose save fails

A call changes the memory before it saves. Where the save fails the change
stays, unless the call had none to make.
-/

set_option autoImplicit false

namespace LuaRecovery.Community
open LuaRecovery.Lib

/-- The call as a whole or not at all. -/
def Store.attempt (store : Store) (e : Event) : Store :=
  let outcome := perform store.memory e.draws e.operation
  match outcome.saved with
  | none => ⟨outcome.memory, store.disk⟩
  | some state => if e.saves then ⟨outcome.memory, state⟩ else store

/-- The store and one whose calls are atomic, after the same calls. -/
structure Twin where
  actual : Store
  ideal : Store

def twin : System Twin Event where
  start := ⟨⟨freshState, freshState⟩, ⟨freshState, freshState⟩⟩
  step t e := some ⟨t.actual.call e, t.ideal.attempt e⟩

/-- The call returns without a save, or saves what was there. -/
def Quiet (s : State) (d : Draws) : Operation → Prop
  | .user _ | .balance _ | .leaderboard _ | .inviter _ | .inviteStats _ | .warningsFor _
  | .openTicketForUser _ | .recordActivity _ _ | .snapshot => True
  | .addCoins _ amount _ => safeInteger amount = none
  | .claimDaily userId options =>
      (s.userOf d userId).lastDailyAt ≠ 0 ∧
        d.now < (s.userOf d userId).lastDailyAt + orElse options.cooldownMs 86400000
  | .awardMessageXp userId options =>
      (s.userOf d userId).lastXpAt ≠ 0 ∧
        d.now < (s.userOf d userId).lastXpAt + orElse options.cooldownMs 60000
  | .recordInvite _ memberId _ => s.members.get memberId ≠ none
  | .claimInviteRewards userId milestones =>
      availableMilestones (s.inviterOf userId) milestones = []
  | .createTicket userId _ => openTicket s userId ≠ none
  | .closeTicket ticketId _ _ =>
      ∀ ticket, s.tickets.get ticketId = some ticket → ticket.status ≠ .opened
  | .review collectionName itemId status _ =>
      statusOf status = none ∨
        ¬ (collectionName = "applications" ∧ pendingItem s.applications itemId ≠ none ∨
          collectionName = "leaves" ∧ pendingItem s.leaves itemId ≠ none)
  | .setDropMessage dropId messageId =>
      ∀ drop, s.drops.get dropId = some drop → drop.messageId = messageId
  | .claimDrop dropId _ _ => ∀ drop, s.drops.get dropId = some drop → drop.status ≠ .opened
  | .submitCount _ _ | .addWarning _ _ _ | .clearWarnings _ | .createApplication _ _
  | .createLeave _ _ | .createDrop _ _ _ _ | .recordSystemError => False

/-- The call leaves nothing in memory that was not saved: no new record of a user or an inviter
who was only looked up, and no activity on its own. -/
def Lasting (s : State) : Operation → Prop
  | .user userId | .balance userId => s.users.get userId ≠ none
  | .inviter userId | .inviteStats userId => s.inviters.get userId ≠ none
  | .claimInviteRewards userId milestones =>
      s.inviters.get userId ≠ none ∨ availableMilestones (s.inviterOf userId) milestones ≠ []
  | .recordInvite inviterId memberId details =>
      s.members.get memberId ≠ none ∨ ∀ id, inviterId = some id →
        isEligible inviterId memberId details = true ∨ s.inviters.get id ≠ none
  | .recordActivity _ _ => False
  | _ => True

/-- The id that the call draws for the activity list is new there. -/
def Fresh (s : State) (d : Draws) : Prop := ∀ entry ∈ s.activity, entry.id ≠ d.activityId

section Calls
variable {s : State} {d : Draws}

/-- What the call hands to `save`, if it does, is what was there. -/
def Unchanged (s : State) (o : Outcome Answer) : Prop := ∀ state, o.saved = some state → state = s

theorem unchanged_unsaved {α : Type} {t : State} {answer : α} {f : α → Answer} :
    Unchanged s ((unsaved t answer).map f) := by
  intro state hstate
  cases hstate

theorem unchanged_saving {α : Type} {t : State} {answer : α} {f : α → Answer} :
    Unchanged s ((saving t answer).map f) ↔ t = s := by
  constructor
  · exact fun h => h t rfl
  · intro h state hstate
    cases hstate
    exact h

/-- A new activity is a change. -/
theorem recordActivity_ne (hfresh : Fresh s d) (t : State) (type text : String) :
    t.recordActivity d type text ≠ s := by
  intro heq
  have hactivity : (⟨d.activityId, type, text, d.activityAt⟩ :: t.activity).take 100 = s.activity :=
    congrArg State.activity heq
  apply hfresh ⟨d.activityId, type, text, d.activityAt⟩ _ rfl
  rw [← hactivity]
  exact List.mem_cons_self

theorem loud {α : Type} (hfresh : Fresh s d) {t : State} {type text : String} {answer : α}
    {f : α → Answer} :
    ¬ Unchanged s ((saving (t.recordActivity d type text) answer).map f) := by
  rw [unchanged_saving]
  exact recordActivity_ne hfresh t type text

theorem addCoins_quiet (hfresh : Fresh s d) (userId : Key) (amount : Option ℤ)
    (reason : Option String) :
    Unchanged s ((addCoins s d userId amount reason).map .coins) ↔ safeInteger amount = none := by
  rw [addCoins]
  cases safeInteger amount with
  | none => exact iff_of_true unchanged_unsaved rfl
  | some amount => exact iff_of_false (loud hfresh) (Option.some_ne_none amount)

theorem claimDaily_quiet (hfresh : Fresh s d) (userId : Key) (options : Pace) :
    Unchanged s ((claimDaily s d userId options).map .daily) ↔
      Quiet s d (.claimDaily userId options) := by
  rw [claimDaily, Quiet]
  split
  next hwait => exact iff_of_true unchanged_unsaved hwait
  next hready => exact iff_of_false (loud hfresh) hready

/-- The count of messages tells the memory from what it was. -/
theorem awardMessageXp_quiet (hfresh : Fresh s d) (userId : Key) (options : Pace) :
    Unchanged s ((awardMessageXp s d userId options).map .award) ↔
      Quiet s d (.awardMessageXp userId options) := by
  rw [awardMessageXp, Quiet]
  split
  next hwait => exact iff_of_true unchanged_unsaved hwait
  next hready =>
    refine iff_of_false ?_ hready
    dsimp only
    split
    next => exact loud hfresh
    next =>
      rw [unchanged_saving]
      intro heq
      have hget := congrArg (fun t : State => (t.userOf d userId).messages) heq
      simp only [State.userOf, State.setUser, InsertionMap.get_set_self, Option.getD_some] at hget
      omega

theorem submitCount_loud (hfresh : Fresh s d) (userId : Key) (value : Option ℤ) :
    ¬ Unchanged s ((submitCount s d userId value).map .count) := by
  rw [submitCount]
  split
  next => exact loud hfresh
  next =>
    rw [unchanged_saving]
    intro heq
    have hcurrent : s.counting.current + 1 = s.counting.current :=
      congrArg (fun t : State => t.counting.current) heq
    omega

/-- The member that is recorded was not there before. -/
theorem recordInvite_quiet (inviterId : Option Key) (memberId : Key) (details : InviteDetails) :
    Unchanged s ((recordInvite s d inviterId memberId details).map .invited) ↔
      s.members.get memberId ≠ none := by
  rw [recordInvite]
  cases hget : s.members.get memberId with
  | some member => exact iff_of_true unchanged_unsaved (Option.some_ne_none member)
  | none =>
    refine iff_of_false ?_ (fun h => h rfl)
    intro hsame
    have hadded : ∀ t : State, t.members = (addMember s memberId
        (newMember d inviterId memberId details)).members → t ≠ s := by
      intro t hmembers heq
      rw [heq, addMember] at hmembers
      rw [hmembers, InsertionMap.get_set_self] at hget
      cases hget
    cases inviterId with
    | none => exact hadded _ rfl (unchanged_saving.mp hsame)
    | some inviterId =>
      have heq := hsame _ rfl
      by_cases heligible : isEligible (some inviterId) memberId details = true
      · rw [if_pos heligible] at heq
        exact hadded (credit _ d inviterId) rfl heq
      · rw [if_neg heligible] at heq
        exact hadded _ rfl heq

theorem claimInviteRewards_quiet (hfresh : Fresh s d) (userId : Key)
    (milestones : List Milestone) :
    Unchanged s ((claimInviteRewards s d userId milestones).map .rewards) ↔
      availableMilestones (s.inviterOf userId) milestones = [] := by
  rw [claimInviteRewards]
  split
  next hnone => exact iff_of_true unchanged_unsaved hnone
  next hsome => exact iff_of_false (loud hfresh) hsome

theorem createTicket_quiet (hfresh : Fresh s d) (userId : Key) (channelId : String) :
    Unchanged s ((createTicket s d userId channelId).map .created) ↔
      openTicket s userId ≠ none := by
  rw [createTicket]
  cases openTicket s userId with
  | some ticket => exact iff_of_true unchanged_unsaved (Option.some_ne_none ticket)
  | none => exact iff_of_false (loud hfresh) (fun h => h rfl)

theorem closeTicket_quiet (hfresh : Fresh s d) (ticketId closedBy : Key) (archive : Archive) :
    Unchanged s ((closeTicket s d ticketId closedBy archive).map .ticket) ↔
      Quiet s d (.closeTicket ticketId closedBy archive) := by
  rw [closeTicket, Quiet]
  split
  next hnone =>
    rw [Option.filter_eq_none_iff] at hnone
    refine iff_of_true unchanged_unsaved ?_
    intro ticket hget hopen
    exact hnone ticket hget (decide_eq_true hopen)
  next ticket hticket =>
    obtain ⟨hget, hopen⟩ := Option.filter_eq_some_iff.mp hticket
    exact iff_of_false (loud hfresh) (fun h => h ticket hget (of_decide_eq_true hopen))

theorem claimDrop_quiet (hfresh : Fresh s d) (dropId winnerId : Key) (coinReward : Option ℤ) :
    Unchanged s ((claimDrop s d dropId winnerId coinReward).map .drop) ↔
      Quiet s d (.claimDrop dropId winnerId coinReward) := by
  rw [claimDrop, Quiet]
  split
  next hnone =>
    rw [Option.filter_eq_none_iff] at hnone
    refine iff_of_true unchanged_unsaved ?_
    intro drop hget hopen
    exact hnone drop hget (decide_eq_true hopen)
  next drop hdrop =>
    obtain ⟨hget, hopen⟩ := Option.filter_eq_some_iff.mp hdrop
    exact iff_of_false (loud hfresh) (fun h => h drop hget (of_decide_eq_true hopen))

theorem review_quiet (hfresh : Fresh s d) (collectionName : String) (itemId : Key)
    (status : String) (reviewedBy : Key) :
    Unchanged s ((review s d collectionName itemId status reviewedBy).map .filed) ↔
      Quiet s d (.review collectionName itemId status reviewedBy) := by
  rw [review, Quiet]
  cases hstatus : statusOf status with
  | none =>
    refine iff_of_true ?_ (.inl rfl)
    split
    next =>
      cases pendingItem s.applications itemId with
      | none => exact unchanged_unsaved
      | some item => exact unchanged_unsaved
    next =>
      split
      next =>
        cases pendingItem s.leaves itemId with
        | none => exact unchanged_unsaved
        | some item => exact unchanged_unsaved
      next => exact unchanged_unsaved
  | some verdict =>
    by_cases happlications : collectionName = "applications"
    · rw [if_pos happlications]
      cases hitem : pendingItem s.applications itemId with
      | none => exact iff_of_true unchanged_unsaved (.inr (by simp [happlications]))
      | some item => exact iff_of_false (loud hfresh) (by simp [happlications])
    · rw [if_neg happlications]
      by_cases hleaves : collectionName = "leaves"
      · rw [if_pos hleaves]
        cases hitem : pendingItem s.leaves itemId with
        | none => exact iff_of_true unchanged_unsaved (.inr (by simp [happlications]))
        | some item => exact iff_of_false (loud hfresh) (by simp [hleaves])
      · rw [if_neg hleaves]
        exact iff_of_true unchanged_unsaved (.inr (by simp [happlications, hleaves]))

theorem setDropMessage_quiet (dropId : Key) (messageId : Option String) :
    Unchanged s ((setDropMessage s dropId messageId).map .drop) ↔
      Quiet s d (.setDropMessage dropId messageId) := by
  rw [setDropMessage, Quiet]
  cases hget : s.drops.get dropId with
  | none => exact iff_of_true unchanged_unsaved (by simp)
  | some drop =>
    dsimp only
    rw [unchanged_saving]
    constructor
    · intro heq drop' hdrop
      cases hdrop
      have hset := congrArg (fun t : State => t.drops.get dropId) heq
      simp only [InsertionMap.get_set_self, hget] at hset
      exact (congrArg Drop.messageId (Option.some.inj hset)).symm
    · intro hsame
      have hdrop : { drop with messageId := messageId } = drop := by rw [← hsame drop rfl]
      rw [hdrop, InsertionMap.set_of_get _ hget]

/-- The save of a call hands over what was there exactly if the call is a quiet one. -/
theorem unchanged_quiet (hfresh : Fresh s d) (op : Operation) :
    Unchanged s (perform s d op) ↔ Quiet s d op := by
  cases op with
  | user userId => exact iff_of_true unchanged_unsaved trivial
  | balance userId => exact iff_of_true unchanged_unsaved trivial
  | addCoins userId amount reason => exact addCoins_quiet hfresh userId amount reason
  | claimDaily userId options => exact claimDaily_quiet hfresh userId options
  | leaderboard limit => exact iff_of_true unchanged_unsaved trivial
  | awardMessageXp userId options => exact awardMessageXp_quiet hfresh userId options
  | submitCount userId value => exact iff_of_false (submitCount_loud hfresh userId value) id
  | recordInvite inviterId memberId details => exact recordInvite_quiet inviterId memberId details
  | inviter userId => exact iff_of_true unchanged_unsaved trivial
  | inviteStats userId => exact iff_of_true unchanged_unsaved trivial
  | claimInviteRewards userId milestones =>
    exact claimInviteRewards_quiet hfresh userId milestones
  | addWarning userId moderatorId reason => exact iff_of_false (loud hfresh) id
  | warningsFor userId => exact iff_of_true unchanged_unsaved trivial
  | clearWarnings userId => exact iff_of_false (loud hfresh) id
  | openTicketForUser userId => exact iff_of_true unchanged_unsaved trivial
  | createTicket userId channelId => exact createTicket_quiet hfresh userId channelId
  | closeTicket ticketId closedBy archive =>
    exact closeTicket_quiet hfresh ticketId closedBy archive
  | createApplication userId answers => exact iff_of_false (loud hfresh) id
  | createLeave userId request => exact iff_of_false (loud hfresh) id
  | review collectionName itemId status reviewedBy =>
    exact review_quiet hfresh collectionName itemId status reviewedBy
  | createDrop createdBy prize channelId messageId => exact iff_of_false (loud hfresh) id
  | setDropMessage dropId messageId => exact setDropMessage_quiet dropId messageId
  | claimDrop dropId winnerId coinReward => exact claimDrop_quiet hfresh dropId winnerId coinReward
  | recordActivity type text => exact iff_of_true (unchanged_unsaved (f := id)) trivial
  | recordSystemError =>
    refine iff_of_false ?_ id
    intro hsame
    have herrors : s.stats.systemErrors + 1 = s.stats.systemErrors :=
      congrArg (fun t : State => t.stats.systemErrors) (unchanged_saving.mp hsame)
    omega
  | snapshot => exact iff_of_true unchanged_unsaved trivial

/-- What the call leaves in memory is what it has saved, or what was there. -/
def Settles (s : State) (o : Outcome Answer) : Prop := o.memory = o.saved.getD s

theorem settles_saving {α : Type} {t : State} {answer : α} {f : α → Answer} :
    Settles s ((saving t answer).map f) := rfl

theorem settles_unsaved {α : Type} {t : State} {answer : α} {f : α → Answer} :
    Settles s ((unsaved t answer).map f) ↔ t = s := Iff.rfl

theorem touch_eq_iff {V : Type} (m : InsertionMap Key V) (k : Key) (fresh : V) :
    touch m k fresh = m ↔ m.get k ≠ none := by
  rw [touch]
  cases hget : m.get k with
  | some v => exact iff_of_true rfl (Option.some_ne_none v)
  | none =>
    refine iff_of_false ?_ (fun h => h rfl)
    intro (heq : m.set k fresh = m)
    have hset := m.get_set_self k fresh
    rw [heq, hget] at hset
    cases hset

theorem touchUser_eq_iff (userId : Key) : s.touchUser d userId = s ↔ s.users.get userId ≠ none := by
  rw [← touch_eq_iff s.users userId (State.newUser d)]
  constructor
  · exact fun heq => congrArg State.users heq
  · intro heq
    rw [State.touchUser, heq]

theorem touchInviter_eq_iff (userId : Key) :
    s.touchInviter userId = s ↔ s.inviters.get userId ≠ none := by
  rw [← touch_eq_iff s.inviters userId State.newInviter]
  constructor
  · exact fun heq => congrArg State.inviters heq
  · intro heq
    rw [State.touchInviter, heq]

/-- A user who has to wait has a record. -/
theorem claimDaily_settles (userId : Key) (options : Pace) :
    Settles s ((claimDaily s d userId options).map .daily) := by
  rw [claimDaily]
  split
  next hwait =>
    rw [settles_unsaved, touchUser_eq_iff]
    intro hnone
    rw [State.userOf, hnone] at hwait
    exact hwait.1 rfl
  next => exact settles_saving

theorem awardMessageXp_settles (userId : Key) (options : Pace) :
    Settles s ((awardMessageXp s d userId options).map .award) := by
  rw [awardMessageXp]
  split
  next hwait =>
    rw [settles_unsaved, touchUser_eq_iff]
    intro hnone
    rw [State.userOf, hnone] at hwait
    exact hwait.1 rfl
  next => exact settles_saving

theorem claimInviteRewards_settles (userId : Key) (milestones : List Milestone) :
    Settles s ((claimInviteRewards s d userId milestones).map .rewards) ↔
      Lasting s (.claimInviteRewards userId milestones) := by
  rw [claimInviteRewards, Lasting]
  split
  next hnone => rw [settles_unsaved, touchInviter_eq_iff, or_iff_left (not_not.mpr hnone)]
  next hsome => exact iff_of_true settles_saving (.inr hsome)

theorem recordInvite_settles (inviterId : Option Key) (memberId : Key) (details : InviteDetails) :
    Settles s ((recordInvite s d inviterId memberId details).map .invited) ↔
      Lasting s (.recordInvite inviterId memberId details) := by
  rw [recordInvite, Lasting]
  cases hget : s.members.get memberId with
  | some member => exact iff_of_true rfl (.inl (Option.some_ne_none member))
  | none =>
    rw [or_iff_right (fun h => h rfl)]
    cases inviterId with
    | none => exact iff_of_true settles_saving (by simp)
    | some inviterId =>
      refine Iff.trans (touchInviter_eq_iff inviterId) ?_
      by_cases heligible : isEligible (some inviterId) memberId details = true
      · rw [if_pos heligible, credit, State.recordActivity, State.setInviter,
          InsertionMap.get_set_self]
        refine iff_of_true (Option.some_ne_none _) ?_
        rintro id ⟨⟩
        exact .inl heligible
      · rw [if_neg heligible]
        constructor
        · rintro hthere id ⟨⟩
          exact .inr hthere
        · intro hall
          exact (hall inviterId rfl).resolve_left heligible

/-- What a call leaves in memory is saved, or was there, exactly if the call is a lasting one. -/
theorem settles_lasting (hfresh : Fresh s d) (op : Operation) :
    Settles s (perform s d op) ↔ Lasting s op := by
  cases op with
  | user userId => exact touchUser_eq_iff userId
  | balance userId => exact touchUser_eq_iff userId
  | addCoins userId amount reason =>
    refine iff_of_true ?_ trivial
    show Settles s ((addCoins s d userId amount reason).map .coins)
    rw [addCoins]
    split
    next => exact settles_unsaved.mpr rfl
    next => exact settles_saving
  | claimDaily userId options => exact iff_of_true (claimDaily_settles userId options) trivial
  | leaderboard limit => exact iff_of_true rfl trivial
  | awardMessageXp userId options =>
    exact iff_of_true (awardMessageXp_settles userId options) trivial
  | submitCount userId value =>
    refine iff_of_true ?_ trivial
    show Settles s ((submitCount s d userId value).map .count)
    rw [submitCount]
    split
    next => exact settles_saving
    next => exact settles_saving
  | recordInvite inviterId memberId details => exact recordInvite_settles inviterId memberId details
  | inviter userId => exact touchInviter_eq_iff userId
  | inviteStats userId => exact touchInviter_eq_iff userId
  | claimInviteRewards userId milestones => exact claimInviteRewards_settles userId milestones
  | addWarning userId moderatorId reason => exact iff_of_true settles_saving trivial
  | warningsFor userId => exact iff_of_true rfl trivial
  | clearWarnings userId => exact iff_of_true settles_saving trivial
  | openTicketForUser userId => exact iff_of_true rfl trivial
  | createTicket userId channelId =>
    refine iff_of_true ?_ trivial
    show Settles s ((createTicket s d userId channelId).map .created)
    rw [createTicket]
    split
    next => exact settles_unsaved.mpr rfl
    next => exact settles_saving
  | closeTicket ticketId closedBy archive =>
    refine iff_of_true ?_ trivial
    show Settles s ((closeTicket s d ticketId closedBy archive).map .ticket)
    rw [closeTicket]
    split
    next => exact settles_unsaved.mpr rfl
    next => exact settles_saving
  | createApplication userId answers => exact iff_of_true settles_saving trivial
  | createLeave userId request => exact iff_of_true settles_saving trivial
  | review collectionName itemId status reviewedBy =>
    refine iff_of_true ?_ trivial
    show Settles s ((review s d collectionName itemId status reviewedBy).map .filed)
    rw [review]
    split
    next =>
      split
      next => exact settles_saving
      next => exact settles_unsaved.mpr rfl
    next =>
      split
      next =>
        split
        next => exact settles_saving
        next => exact settles_unsaved.mpr rfl
      next => exact settles_unsaved.mpr rfl
  | createDrop createdBy prize channelId messageId => exact iff_of_true settles_saving trivial
  | setDropMessage dropId messageId =>
    refine iff_of_true ?_ trivial
    show Settles s ((setDropMessage s dropId messageId).map .drop)
    rw [setDropMessage]
    split
    next => exact settles_unsaved.mpr rfl
    next => exact settles_saving
  | claimDrop dropId winnerId coinReward =>
    refine iff_of_true ?_ trivial
    show Settles s ((claimDrop s d dropId winnerId coinReward).map .drop)
    rw [claimDrop]
    split
    next => exact settles_unsaved.mpr rfl
    next => exact settles_saving
  | recordActivity type text => exact iff_of_false (recordActivity_ne hfresh s type text) id
  | recordSystemError => exact iff_of_true settles_saving trivial
  | snapshot => exact iff_of_true rfl trivial

/-- A quiet call that saves is a lasting one. -/
theorem lasting_of_quiet {op : Operation} {state : State} (hquiet : Quiet s d op)
    (hsaved : (perform s d op).saved = some state) : Lasting s op := by
  cases op with
  | user userId => cases hsaved
  | balance userId => cases hsaved
  | inviter userId => cases hsaved
  | inviteStats userId => cases hsaved
  | recordActivity type text => cases hsaved
  | recordInvite inviterId memberId details => exact .inl hquiet
  | claimInviteRewards userId milestones =>
    rw [Quiet] at hquiet
    rw [perform, claimInviteRewards, if_pos hquiet] at hsaved
    cases hsaved
  | _ => trivial

end Calls

/-- A failed call of the atomic store can be made again as if for the first time. -/
theorem attempt_again (store : Store) (e e' : Event) (hfails : e.saves = false)
    (hsaved : (perform store.memory e.draws e.operation).saved ≠ none) :
    (store.attempt e).attempt e' = store.attempt e' := by
  have hsame : store.attempt e = store := by
    rw [Store.attempt]
    split
    next hnone => exact absurd hnone hsaved
    next => rw [if_neg (by simp [hfails])]
  rw [hsame]

theorem call_eq_attempt_iff (store : Store) (e : Event) (hfresh : Fresh store.memory e.draws) :
    store.call e = store.attempt e ↔
      (e.saves = true ∨ Quiet store.memory e.draws e.operation) := by
  rw [← unchanged_quiet hfresh, Store.call, Store.attempt, Unchanged]
  cases hsaved : (perform store.memory e.draws e.operation).saved with
  | none => simp
  | some state =>
    dsimp only
    by_cases hsaves : e.saves = true
    · rw [if_pos hsaves, if_pos hsaves]
      exact iff_of_true rfl (.inl hsaves)
    · rw [if_neg hsaves, if_neg hsaves, or_iff_right hsaves]
      constructor
      · rintro heq _ ⟨⟩
        exact congrArg Store.memory heq
      · intro hsame
        rw [hsame state rfl]

/-- Memory and file agree after a call exactly if it is lasting, and quiet where its save fails. -/
theorem call_synced_iff (s : State) (e : Event) (hfresh : Fresh s e.draws) :
    ((Store.call ⟨s, s⟩ e).memory = (Store.call ⟨s, s⟩ e).disk) ↔
      ((e.saves = true ∨ Quiet s e.draws e.operation) ∧ Lasting s e.operation) := by
  have hquiet := unchanged_quiet hfresh e.operation
  have hlasting := settles_lasting hfresh e.operation
  rw [Store.call]
  cases hsaved : (perform s e.draws e.operation).saved with
  | none =>
    rw [Settles, hsaved] at hlasting
    have hunchanged : Quiet s e.draws e.operation := by
      rw [← hquiet, Unchanged, hsaved]
      intro state hstate
      cases hstate
    rw [and_iff_right (.inr hunchanged)]
    exact hlasting
  | some state =>
    rw [Settles, hsaved] at hlasting
    dsimp only
    by_cases hsaves : e.saves = true
    · rw [if_pos hsaves, and_iff_right (.inl hsaves)]
      exact hlasting
    · rw [if_neg hsaves, or_iff_right hsaves,
        and_iff_left_of_imp (fun h => lasting_of_quiet h hsaved), ← hquiet, Unchanged, hsaved]
      constructor
      · rintro heq _ ⟨⟩
        exact heq
      · intro hsame
        exact hsame state rfl

/-- Over every run from every state, the store keeps up with the atomic one exactly if no save
fails but of quiet calls, and memory and file stay alike exactly if beside that no call leaves
anything unsaved. -/
theorem atomic_iff (s : State) (es : List Event)
    (hfresh : twin.MeetsFrom (fun t e => Fresh t.actual.memory e.draws) ⟨⟨s, s⟩, ⟨s, s⟩⟩ es) :
    (twin.AlwaysFrom (fun t => t.actual = t.ideal) ⟨⟨s, s⟩, ⟨s, s⟩⟩ es ↔
      twin.MeetsFrom (fun t e => e.saves = true ∨ Quiet t.actual.memory e.draws e.operation)
        ⟨⟨s, s⟩, ⟨s, s⟩⟩ es) ∧
    (twin.AlwaysFrom (fun t => t.actual.memory = t.actual.disk) ⟨⟨s, s⟩, ⟨s, s⟩⟩ es ↔
      twin.MeetsFrom (fun t e => (e.saves = true ∨ Quiet t.actual.memory e.draws e.operation) ∧
        Lasting t.actual.memory e.operation) ⟨⟨s, s⟩, ⟨s, s⟩⟩ es) := by
  have hcall : ∀ (t : Twin) (e : Event) (t' : Twin), Fresh t.actual.memory e.draws →
      t.actual = t.ideal → twin.step t e = some t' →
      (t'.actual = t'.ideal ↔
        (e.saves = true ∨ Quiet t.actual.memory e.draws e.operation)) := by
    intro t e t' hnew hlaw hstep
    cases hstep
    rw [← call_eq_attempt_iff _ _ hnew, hlaw]
  have hsynced : ∀ (t : Twin) (e : Event) (t' : Twin), Fresh t.actual.memory e.draws →
      t.actual.memory = t.actual.disk → twin.step t e = some t' →
      (t'.actual.memory = t'.actual.disk ↔
        ((e.saves = true ∨ Quiet t.actual.memory e.draws e.operation) ∧
          Lasting t.actual.memory e.operation)) := by
    intro t e t' hnew hlaw hstep
    cases hstep
    have hstore : t.actual = ⟨t.actual.memory, t.actual.memory⟩ := by
      cases hactual : t.actual with
      | mk memory disk =>
        rw [hactual] at hlaw
        exact congrArg _ hlaw.symm
    rw [← call_synced_iff _ _ hnew, ← hstore]
  exact ⟨System.always_iff_meets_given hcall hfresh rfl,
    System.always_iff_meets_given hsynced hfresh rfl⟩

/-- An award of fifty coins. -/
def award (saves : Bool) : Event := ⟨.addCoins someId (some 50) none, someDraws, saves⟩

theorem award_atomic_iff :
    (twin.AlwaysFrom (fun t => t.actual = t.ideal)
        ⟨⟨freshState, freshState⟩, ⟨freshState, freshState⟩⟩ [award false] ↔
      twin.MeetsFrom (fun t e => e.saves = true ∨ Quiet t.actual.memory e.draws e.operation)
        ⟨⟨freshState, freshState⟩, ⟨freshState, freshState⟩⟩ [award false]) ∧
    (twin.AlwaysFrom (fun t => t.actual.memory = t.actual.disk)
        ⟨⟨freshState, freshState⟩, ⟨freshState, freshState⟩⟩ [award false] ↔
      twin.MeetsFrom (fun t e => (e.saves = true ∨ Quiet t.actual.memory e.draws e.operation) ∧
        Lasting t.actual.memory e.operation)
        ⟨⟨freshState, freshState⟩, ⟨freshState, freshState⟩⟩ [award false]) := by
  apply atomic_iff freshState [award false]
  intro t ht
  refine ⟨?_, trivial⟩
  intro entry hentry
  cases hentry

/-- An award whose save fails is kept in memory. -/
theorem failed_award_is_kept : ¬ ∀ (s : State) (es : List Event),
    twin.AlwaysFrom (fun t => t.actual = t.ideal) ⟨⟨s, s⟩, ⟨s, s⟩⟩ es := by
  intro hall
  have hlaw := (hall freshState [award false]).2 _ rfl
  have husers := congrArg (fun store : Store => store.memory.users.size) hlaw
  exact absurd husers (by decide)

/-- Made again, the award counts twice. -/
example : ((((Store.mk freshState freshState).call (award false)).call
    (award true)).memory.users.get someId).map User.coins = some 100 := by decide

end LuaRecovery.Community
