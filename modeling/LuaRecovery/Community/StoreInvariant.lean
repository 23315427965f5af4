import LuaRecovery.Community.CommunityStore
import LuaRecovery.Lib.Runs
import Mathlib.Algebra.Order.BigOperators.Group.List

/-!
# What holds of the community store

Coins, credits, tickets, counters and the once-only rewards, over every run of
calls, also of calls whose save fails.
-/

set_option autoImplicit false

namespace LuaRecovery.Community
open LuaRecovery.Lib

/-- The calls made so far, each with what it returned, or would have returned but for its save. -/
abbrev History := List (Operation × Answer)

/-- The thresholds that a call has paid, and to whom. -/
def paidMilestones : Operation × Answer → List (Key × ℤ)
  | (.claimInviteRewards userId _, .rewards (.claimed _ milestones _ _)) =>
      milestones.map fun item => (userId, item.invites)
  | _ => []

/-- The drop that a call has paid, and the winner. -/
def paidDrop : Operation × Answer → Option (Key × Key)
  | (.claimDrop dropId winnerId _, .drop (some _)) => some (dropId, winnerId)
  | _ => none

/-- The coins of a user after a call, read off what it answers. -/
def payment (userId : Key) (coins : ℤ) : Operation × Answer → ℤ
  | (.addCoins payeeId (some amount) _, .coins (.ok _)) =>
      if payeeId = userId then max 0 (coins + amount) else coins
  | (.claimDaily payeeId _, .daily (.claimed amount _ _)) =>
      if payeeId = userId then coins + amount else coins
  | (.claimInviteRewards payeeId _, .rewards (.claimed _ milestones _ _)) =>
      if payeeId = userId then coins + (milestones.map Milestone.coins).sum else coins
  | (.claimDrop _ winnerId coinReward, .drop (some _)) =>
      if winnerId = userId then coins + coinReward.getD 250 else coins
  | _ => coins

section Laws

def coinsOf (users : InsertionMap Key User) (userId : Key) : ℤ :=
  ((users.get userId).map User.coins).getD 0

def CoinsSound (users : InsertionMap Key User) : Prop :=
  ∀ userId user, users.get userId = some user → 0 ≤ user.coins

/-- The recorded eligible members that name the inviter. -/
def creditedMembers (members : InsertionMap Key Member) (inviterId : Key) : ℕ :=
  members.entries.countP fun e => e.2.eligible && e.2.inviterId = some inviterId

def CreditsSound (members : InsertionMap Key Member) (inviters : InsertionMap Key Inviter) : Prop :=
  ∀ userId, ((inviters.get userId).getD State.newInviter).credited = creditedMembers members userId

def MilestonesSound (inviters : InsertionMap Key Inviter) (history : History) : Prop :=
  (history.flatMap paidMilestones).Nodup ∧
    ∀ paid ∈ history.flatMap paidMilestones,
      paid.2 ∈ ((inviters.get paid.1).getD State.newInviter).claimedMilestones

def DropsSound (drops : InsertionMap Key Drop) (history : History) : Prop :=
  ((history.filterMap paidDrop).map Prod.fst).Nodup ∧
    ∀ paid ∈ history.filterMap paidDrop, ∃ drop, drops.get paid.1 = some drop ∧
      drop.status = .claimed ∧ drop.winnerId = some paid.2

def OneOpenTicket (tickets : InsertionMap Key Ticket) : Prop :=
  ∀ userId, tickets.entries.countP (fun e => isOpenFor userId e.2) ≤ 1

def closedTickets (tickets : InsertionMap Key Ticket) : ℕ :=
  tickets.entries.countP fun e => e.2.status = .closed

def reviewedItems (collection : InsertionMap Key Filed) : ℕ :=
  collection.entries.countP fun e => e.2.status ≠ .pending

def claimedDrops (drops : InsertionMap Key Drop) : ℕ :=
  drops.entries.countP fun e => e.2.status = .claimed

/-- What holds of the memory, and of what was paid so far. -/
structure Sound (s : State) (history : History) : Prop where
  coins : CoinsSound s.users
  credits : CreditsSound s.members s.inviters
  milestones : MilestonesSound s.inviters history
  drops : DropsSound s.drops history
  tickets : OneOpenTicket s.tickets
  ticketsClosed : s.stats.ticketsClosed = closedTickets s.tickets
  applicationsReviewed : s.stats.applicationsReviewed = reviewedItems s.applications
  leavesReviewed : s.stats.leavesReviewed = reviewedItems s.leaves
  dropsClaimed : s.stats.dropsClaimed = claimedDrops s.drops
  activity : s.activity.length ≤ 100
  counted : 0 ≤ s.counting.current
  counting : s.counting.current ≤ s.counting.highScore

/-- The milestones that a call pays are of its list, and the amount is their sum. -/
def AmountStated : Operation × Answer → Prop
  | (.claimInviteRewards _ milestones, .rewards (.claimed amount paid _ _)) =>
      paid.Sublist milestones ∧ amount = (paid.map Milestone.coins).sum
  | _ => True

/-- Each user has the coins that the answers of the calls come to, and what counts as claimed was
paid by one of them. -/
structure PaidUp (s : State) (history : History) : Prop where
  coins : ∀ userId, coinsOf s.users userId = history.foldl (payment userId) 0
  drops : ∀ dropId drop, s.drops.get dropId = some drop → drop.status = .claimed →
    ∃ winnerId, (dropId, winnerId) ∈ history.filterMap paidDrop
  milestones : ∀ userId, ∀ invites ∈ (s.inviterOf userId).claimedMilestones,
    (userId, invites) ∈ history.flatMap paidMilestones
  amounts : ∀ call ∈ history, AmountStated call

end Laws

/-- Rewards are not negative, the thresholds of a list are distinct, and ids are fresh. -/
def Admissible (s : State) (d : Draws) : Operation → Prop
  | .claimDaily _ options => ∀ n, options.amount = some n → 0 ≤ n
  | .claimInviteRewards _ milestones =>
      (∀ item ∈ milestones, 0 ≤ item.coins) ∧ (milestones.map Milestone.invites).Nodup
  | .claimDrop _ _ coinReward => ∀ n, coinReward = some n → 0 ≤ n
  | .createTicket _ _ => s.tickets.get d.id = none
  | .createApplication _ _ => s.applications.get d.id = none
  | .createLeave _ request => s.leaves.get (request.id.getD d.id) = none
  | .createDrop _ _ _ _ => s.drops.get d.id = none
  | _ => True

structure Ledger where
  store : Store
  history : History

def Ledger.call (l : Ledger) (e : Event) : Ledger where
  store := l.store.call e
  history := l.history ++
    [(e.operation, (perform l.store.memory e.draws e.operation).answer)]

def community : System Ledger Event where
  start := ⟨⟨freshState, freshState⟩, []⟩
  step l e := some (l.call e)

section Collections
variable {tickets : InsertionMap Key Ticket} {collection : InsertionMap Key Filed}
  {drops : InsertionMap Key Drop} {members : InsertionMap Key Member} {history : History}

theorem OneOpenTicket.create (h : OneOpenTicket tickets) (ticket : Ticket) {id : Key}
    (hfresh : tickets.get id = none)
    (hnone : (tickets.entries.map Prod.snd).find? (isOpenFor ticket.userId) = none) :
    OneOpenTicket (tickets.set id ticket) := by
  rw [List.find?_map, Option.map_eq_none_iff, List.find?_eq_none] at hnone
  intro userId
  rw [InsertionMap.countP_set_of_none _ _ _ hfresh]
  by_cases heq : ticket.userId = userId
  · have hzero : tickets.entries.countP (fun e => isOpenFor userId e.2) = 0 :=
      List.countP_eq_zero.mpr (heq ▸ hnone)
    rw [hzero]
    split <;> omega
  · rw [if_neg (by simp [isOpenFor, heq])]
    exact h userId

theorem OneOpenTicket.close (h : OneOpenTicket tickets) {id : Key} {ticket closed : Ticket}
    (hget : tickets.get id = some ticket) (hclosed : closed.status = .closed) :
    OneOpenTicket (tickets.set id closed) := by
  intro userId
  have hle := h userId
  have hcount := InsertionMap.countP_set_of_some tickets (fun e => isOpenFor userId e.2) closed hget
  have hnot : ¬isOpenFor userId closed = true := by simp [isOpenFor, hclosed]
  rw [if_neg hnot] at hcount
  omega

theorem closedTickets_create (ticket : Ticket) {id : Key} (hfresh : tickets.get id = none)
    (hopen : ticket.status = .opened) :
    closedTickets (tickets.set id ticket) = closedTickets tickets := by
  rw [closedTickets, closedTickets, InsertionMap.countP_set_of_none _ _ _ hfresh,
    if_neg (by simp [hopen]), Nat.add_zero]

theorem closedTickets_close {id : Key} {ticket : Ticket} (closed : Ticket)
    (hget : tickets.get id = some ticket) (hopen : ticket.status = .opened)
    (hclosed : closed.status = .closed) :
    closedTickets (tickets.set id closed) = closedTickets tickets + 1 := by
  have hcount := InsertionMap.countP_set_of_some tickets
    (fun e => e.2.status = .closed) closed hget
  rw [if_neg (by simp [hopen]), if_pos (by simp [hclosed])] at hcount
  exact hcount

theorem reviewedItems_file (item : Filed) {id : Key} (hfresh : collection.get id = none)
    (hpending : item.status = .pending) :
    reviewedItems (collection.set id item) = reviewedItems collection := by
  rw [reviewedItems, reviewedItems, InsertionMap.countP_set_of_none _ _ _ hfresh,
    if_neg (by simp [hpending]), Nat.add_zero]

theorem reviewedItems_review {id : Key} {item : Filed} (verdict : Filed)
    (hitem : pendingItem collection id = some item) (hverdict : verdict.status ≠ .pending) :
    reviewedItems (collection.set id verdict) = reviewedItems collection + 1 := by
  obtain ⟨hget, hpending⟩ := Option.filter_eq_some_iff.mp hitem
  rw [decide_eq_true_eq] at hpending
  have hcount := InsertionMap.countP_set_of_some collection
    (fun e => e.2.status ≠ .pending) verdict hget
  rw [if_neg (by simp [hpending]), if_pos (by simp [hverdict])] at hcount
  exact hcount

theorem statusOf_ne {text : String} {verdict : ReviewStatus} (h : statusOf text = some verdict) :
    verdict ≠ .pending := by
  rw [statusOf] at h
  split at h
  next =>
    cases h
    decide
  next =>
    split at h
    next =>
      cases h
      decide
    next => cases h

theorem claimedDrops_create (drop : Drop) {id : Key} (hfresh : drops.get id = none)
    (hopen : drop.status = .opened) : claimedDrops (drops.set id drop) = claimedDrops drops := by
  rw [claimedDrops, claimedDrops, InsertionMap.countP_set_of_none _ _ _ hfresh,
    if_neg (by simp [hopen]), Nat.add_zero]

theorem claimedDrops_edit {id : Key} {drop : Drop} (edited : Drop) (hget : drops.get id = some drop)
    (hstatus : edited.status = drop.status) :
    claimedDrops (drops.set id edited) = claimedDrops drops := by
  have hcount := InsertionMap.countP_set_of_some drops (fun e => e.2.status = .claimed) edited hget
  simp only [hstatus] at hcount
  exact Nat.add_right_cancel hcount

theorem claimedDrops_claim {id : Key} {drop : Drop} (claimed : Drop)
    (hget : drops.get id = some drop) (hopen : drop.status = .opened)
    (hclaimed : claimed.status = .claimed) :
    claimedDrops (drops.set id claimed) = claimedDrops drops + 1 := by
  have hcount := InsertionMap.countP_set_of_some drops (fun e => e.2.status = .claimed) claimed hget
  rw [if_neg (by simp [hopen]), if_pos (by simp [hclaimed])] at hcount
  exact hcount

/-- A drop that was paid stays as it is where another is set, or where only its message is. -/
theorem DropsSound.set (h : DropsSound drops history) {id : Key} {edited : Drop}
    (hedit : ∀ drop, drops.get id = some drop → drop.status = .claimed →
      edited.status = .claimed ∧ edited.winnerId = drop.winnerId) :
    DropsSound (drops.set id edited) history := by
  refine ⟨h.1, ?_⟩
  intro paid hpaid
  obtain ⟨drop, hget, hclaimed, hwinner⟩ := h.2 paid hpaid
  rw [InsertionMap.get_set]
  by_cases heq : paid.1 = id
  · rw [if_pos heq]
    rw [heq] at hget
    obtain ⟨hclaimed', hwinner'⟩ := hedit drop hget hclaimed
    exact ⟨edited, rfl, hclaimed', hwinner'.trans hwinner⟩
  · rw [if_neg heq]
    exact ⟨drop, hget, hclaimed, hwinner⟩

theorem paidMilestones_concat (history : History) (call : Operation × Answer) :
    (history ++ [call]).flatMap paidMilestones =
      history.flatMap paidMilestones ++ paidMilestones call := by
  rw [List.flatMap_append, List.flatMap_singleton]

theorem MilestonesSound.unpaid {inviters : InsertionMap Key Inviter} {call : Operation × Answer}
    (h : MilestonesSound inviters history) (hmilestones : paidMilestones call = []) :
    MilestonesSound inviters (history ++ [call]) := by
  rw [MilestonesSound, paidMilestones_concat, hmilestones, List.append_nil]
  exact h

theorem DropsSound.unpaid {call : Operation × Answer} (h : DropsSound drops history)
    (hdrop : paidDrop call = none) : DropsSound drops (history ++ [call]) := by
  have hfilter : (history ++ [call]).filterMap paidDrop = history.filterMap paidDrop := by
    rw [List.filterMap_append, List.filterMap_cons_none hdrop, List.filterMap_nil, List.append_nil]
  rw [DropsSound, hfilter]
  exact h

/-- No claim is forgotten with the record of an inviter. -/
theorem MilestonesSound.setInviter {inviters : InsertionMap Key Inviter}
    (h : MilestonesSound inviters history) (userId : Key) (inviter : Inviter)
    (hclaimed : ∀ t ∈ ((inviters.get userId).getD State.newInviter).claimedMilestones,
      t ∈ inviter.claimedMilestones) : MilestonesSound (inviters.set userId inviter) history := by
  refine ⟨h.1, ?_⟩
  intro paid hpaid
  have hbefore := h.2 paid hpaid
  rw [InsertionMap.get_set]
  by_cases heq : paid.1 = userId
  · rw [if_pos heq]
    rw [heq] at hbefore
    exact hclaimed paid.2 hbefore
  · rwa [if_neg heq]

theorem creditedMembers_add {memberId : Key} {member : Member}
    (hfresh : members.get memberId = none) (userId : Key) :
    creditedMembers (members.set memberId member) userId =
      creditedMembers members userId +
        if member.eligible && member.inviterId = some userId then 1 else 0 := by
  rw [creditedMembers, creditedMembers, InsertionMap.countP_set_of_none _ _ _ hfresh]

end Collections

section Parts
variable {s : State} {d : Draws} {history : History}

theorem sound_fresh : Sound freshState [] where
  coins userId user h := by cases h
  credits userId := rfl
  milestones := ⟨List.nodup_nil, by simp⟩
  drops := ⟨List.nodup_nil, by simp⟩
  tickets userId := Nat.zero_le 1
  ticketsClosed := rfl
  applicationsReviewed := rfl
  leavesReviewed := rfl
  dropsClaimed := rfl
  activity := Nat.zero_le 100
  counted := Int.le_refl 0
  counting := Int.le_refl 0

theorem Sound.recordActivity (h : Sound s history) (type text : String) :
    Sound (s.recordActivity d type text) history :=
  { h with activity := List.length_take_le 100 _ }

theorem Sound.setUser (h : Sound s history) (userId : Key) (user : User)
    (hcoins : 0 ≤ user.coins) : Sound (s.setUser userId user) history :=
  { h with
    coins := by
      intro userId' user' hget
      rw [State.setUser, InsertionMap.get_set] at hget
      by_cases heq : userId' = userId
      · rw [if_pos heq] at hget
        cases hget
        exact hcoins
      · rw [if_neg heq] at hget
        exact h.coins userId' user' hget }

theorem Sound.userOf (h : Sound s history) (userId : Key) : 0 ≤ (s.userOf d userId).coins := by
  rw [State.userOf]
  cases hget : s.users.get userId with
  | none => exact Int.le_refl 0
  | some user => exact h.coins userId user hget

theorem touchUser_eq (userId : Key) : s.touchUser d userId = s ∨
    s.touchUser d userId = s.setUser userId (State.newUser d) := by
  rw [State.touchUser, touch]
  split
  next => exact .inl rfl
  next => exact .inr rfl

theorem Sound.touchUser (h : Sound s history) (userId : Key) :
    Sound (s.touchUser d userId) history := by
  rcases touchUser_eq (s := s) (d := d) userId with heq | heq
  · rwa [heq]
  · rw [heq]
    exact h.setUser userId _ (Int.le_refl 0)

/-- A change of the record of an inviter that keeps the credits and forgets no claim. -/
theorem Sound.setInviter (h : Sound s history) (userId : Key) (inviter : Inviter)
    (hcredited : inviter.credited = (s.inviterOf userId).credited)
    (hclaimed : ∀ t ∈ (s.inviterOf userId).claimedMilestones, t ∈ inviter.claimedMilestones) :
    Sound (s.setInviter userId inviter) history :=
  { h with
    credits := by
      intro userId'
      have hbefore := h.credits userId'
      rw [State.setInviter, InsertionMap.get_set]
      by_cases heq : userId' = userId
      · rw [if_pos heq]
        rw [heq] at hbefore ⊢
        exact hcredited.trans hbefore
      · rw [if_neg heq]
        exact hbefore
    milestones := h.milestones.setInviter userId inviter hclaimed }

theorem Sound.uncredited (h : Sound s history) {memberId : Key} (member : Member)
    (hfresh : s.members.get memberId = none) (heligible : member.eligible = false) :
    Sound (addMember s memberId member) history :=
  { h with
    credits := by
      intro userId
      rw [addMember, creditedMembers_add hfresh, heligible]
      exact h.credits userId }

/-- A member that counts, together with its credit. -/
theorem Sound.credited (h : Sound s history) {memberId inviterId : Key} (member : Member)
    (hfresh : s.members.get memberId = none) (heligible : member.eligible = true)
    (hinviter : member.inviterId = some inviterId) :
    Sound (credit (addMember s memberId member) d inviterId) history := by
  apply Sound.recordActivity
  exact
    { h with
      credits := by
        intro userId
        have hbefore := h.credits userId
        rw [State.setInviter, InsertionMap.get_set, addMember, creditedMembers_add hfresh,
          heligible, hinviter]
        by_cases heq : userId = inviterId
        · rw [if_pos heq]
          rw [heq] at hbefore ⊢
          simpa [State.inviterOf] using hbefore
        · rw [if_neg heq, if_neg (by simpa using fun h => heq h.symm)]
          exact hbefore
      milestones := h.milestones.setInviter inviterId _ (fun t ht => ht) }

theorem Sound.touchInviter (h : Sound s history) (userId : Key) :
    Sound (s.touchInviter userId) history := by
  rw [State.touchInviter, touch]
  split
  next => exact h
  next hnone =>
    have hnew : s.inviterOf userId = State.newInviter := by rw [State.inviterOf, hnone]; rfl
    exact h.setInviter userId _ (by rw [hnew]) (by rw [hnew]; simp)

/-- A call that pays nothing. -/
theorem Sound.unpaid (h : Sound s history) {op : Operation} {answer : Answer}
    (hmilestones : paidMilestones (op, answer) = []) (hdrop : paidDrop (op, answer) = none) :
    Sound s (history ++ [(op, answer)]) :=
  { h with
    milestones := h.milestones.unpaid hmilestones
    drops := h.drops.unpaid hdrop }

/-- A call that pays milestones which were not paid before and are claimed now. -/
theorem Sound.payMilestones (h : Sound s history) {op : Operation} {answer : Answer}
    (hdrop : paidDrop (op, answer) = none) (hnodup : (paidMilestones (op, answer)).Nodup)
    (hnew : ∀ paid ∈ paidMilestones (op, answer), paid ∉ history.flatMap paidMilestones)
    (hclaimed : ∀ paid ∈ paidMilestones (op, answer),
      paid.2 ∈ (s.inviterOf paid.1).claimedMilestones) :
    Sound s (history ++ [(op, answer)]) :=
  { h with
    milestones := by
      rw [MilestonesSound, paidMilestones_concat]
      constructor
      · rw [List.nodup_append']
        refine ⟨h.milestones.1, hnodup, ?_⟩
        intro paid hold hpaid
        exact hnew paid hpaid hold
      · intro paid hpaid
        rcases List.mem_append.mp hpaid with hold | hpaid
        · exact h.milestones.2 paid hold
        · exact hclaimed paid hpaid
    drops := h.drops.unpaid hdrop }

/-- A call that pays a drop which was not paid before and is claimed now. -/
theorem Sound.payDrop (h : Sound s history) {op : Operation} {answer : Answer} {dropId winner : Key}
    {drop : Drop} (hmilestones : paidMilestones (op, answer) = [])
    (hpaid : paidDrop (op, answer) = some (dropId, winner))
    (hnew : ∀ paid ∈ history.filterMap paidDrop, paid.1 ≠ dropId)
    (hget : s.drops.get dropId = some drop) (hclaimed : drop.status = .claimed)
    (hwinner : drop.winnerId = some winner) : Sound s (history ++ [(op, answer)]) := by
  have hfilter : (history ++ [(op, answer)]).filterMap paidDrop =
      history.filterMap paidDrop ++ [(dropId, winner)] := by
    rw [List.filterMap_append, List.filterMap_cons_some hpaid, List.filterMap_nil]
  exact
    { h with
      milestones := h.milestones.unpaid hmilestones
      drops := by
        rw [DropsSound, hfilter]
        constructor
        · rw [List.map_append, List.nodup_append']
          refine ⟨h.drops.1, List.nodup_singleton _, ?_⟩
          intro id hold hid
          obtain ⟨paid, hmem, rfl⟩ := List.mem_map.mp hold
          exact hnew paid hmem (List.mem_singleton.mp hid)
        · intro paid hmem
          rcases List.mem_append.mp hmem with hold | hmem
          · exact h.drops.2 paid hold
          · rw [List.mem_singleton.mp hmem]
            exact ⟨drop, hget, hclaimed, hwinner⟩ }

/-- The call keeps what holds of the store, both in what it saves and in the memory it leaves. -/
def Keeps (history : History) (op : Operation) (o : Outcome Answer) : Prop :=
  Sound o.memory (history ++ [(op, o.answer)]) ∧
    ∀ state, o.saved = some state → Sound state (history ++ [(op, o.answer)])

theorem keeps_unsaved {α : Type} {op : Operation} {t : State} {answer : α} {f : α → Answer}
    (h : Sound t (history ++ [(op, f answer)])) : Keeps history op ((unsaved t answer).map f) := by
  refine ⟨h, ?_⟩
  intro state hstate
  cases hstate

theorem keeps_saving {α : Type} {op : Operation} {t : State} {answer : α} {f : α → Answer}
    (h : Sound t (history ++ [(op, f answer)])) : Keeps history op ((saving t answer).map f) := by
  refine ⟨h, ?_⟩
  intro state hstate
  cases hstate
  exact h

end Parts

section Calls
variable {s : State} {d : Draws} {history : History} (h : Sound s history)
include h

theorem keeps_addCoins (userId : Key) (amount : Option ℤ) (reason : Option String) :
    Keeps history (.addCoins userId amount reason)
      ((addCoins s d userId amount reason).map .coins) := by
  rw [addCoins]
  split
  next => exact keeps_unsaved (h.unpaid rfl rfl)
  next amount hamount =>
    apply keeps_saving
    apply Sound.unpaid _ rfl rfl
    apply Sound.recordActivity
    exact h.setUser userId _ (Int.le_max_left 0 _)

theorem keeps_claimDaily (userId : Key) (options : Pace)
    (hamount : ∀ n, options.amount = some n → 0 ≤ n) :
    Keeps history (.claimDaily userId options) ((claimDaily s d userId options).map .daily) := by
  have hpos : 0 ≤ orElse options.amount 150 := by
    rw [orElse]
    cases hn : options.amount with
    | none => decide
    | some n =>
      have := hamount n hn
      by_cases hzero : n = 0
      · rw [Option.filter_some, if_neg (by simp [hzero])]
        decide
      · rw [Option.filter_some, if_pos (by simp [hzero])]
        exact this
  rw [claimDaily]
  split
  next => exact keeps_unsaved ((h.touchUser userId).unpaid rfl rfl)
  next =>
    apply keeps_saving
    apply Sound.unpaid _ rfl rfl
    have huser := h.userOf (d := d) userId
    apply Sound.recordActivity
    exact h.setUser userId _ (Int.add_nonneg huser hpos)

theorem keeps_awardMessageXp (userId : Key) (options : Pace) :
    Keeps history (.awardMessageXp userId options)
      ((awardMessageXp s d userId options).map .award) := by
  have huser := h.userOf (d := d) userId
  rw [awardMessageXp]
  split
  next => exact keeps_unsaved ((h.touchUser userId).unpaid rfl rfl)
  next =>
    apply keeps_saving
    apply Sound.unpaid _ rfl rfl
    split
    next =>
      apply Sound.recordActivity
      exact h.setUser userId _ huser
    next => exact h.setUser userId _ huser

theorem keeps_submitCount (userId : Key) (value : Option ℤ) :
    Keeps history (.submitCount userId value) ((submitCount s d userId value).map .count) := by
  have hcounted := h.counted
  have hcounting := h.counting
  rw [submitCount]
  split
  next =>
    apply keeps_saving
    apply Sound.unpaid _ rfl rfl
    apply Sound.recordActivity
    exact
      { h with
        counted := Int.le_refl 0
        counting := Int.le_trans hcounted hcounting }
  next =>
    apply keeps_saving
    apply Sound.unpaid _ rfl rfl
    exact
      { h with
        counted := Int.add_nonneg hcounted (by decide)
        counting := Int.le_max_right _ _ }

theorem keeps_addWarning (userId moderatorId : Key) (reason : String) :
    Keeps history (.addWarning userId moderatorId reason)
      ((addWarning s d userId moderatorId reason).map .warning) := by
  apply keeps_saving
  apply Sound.unpaid _ rfl rfl
  apply Sound.recordActivity
  exact { h with counting := h.counting }

theorem keeps_clearWarnings (userId : Key) :
    Keeps history (.clearWarnings userId) ((clearWarnings s d userId).map .cleared) := by
  apply keeps_saving
  apply Sound.unpaid _ rfl rfl
  apply Sound.recordActivity
  exact { h with counting := h.counting }

theorem keeps_createTicket (userId : Key) (channelId : String)
    (hfresh : s.tickets.get d.id = none) :
    Keeps history (.createTicket userId channelId)
      ((createTicket s d userId channelId).map .created) := by
  rw [createTicket]
  split
  next => exact keeps_unsaved (h.unpaid rfl rfl)
  next hnone =>
    apply keeps_saving
    apply Sound.unpaid _ rfl rfl
    apply Sound.recordActivity
    exact
      { h with
        tickets := h.tickets.create (newTicket d userId channelId) hfresh hnone
        ticketsClosed := by
          rw [closedTickets_create (newTicket d userId channelId) hfresh rfl]
          exact h.ticketsClosed }

theorem keeps_closeTicket (ticketId closedBy : Key) (archive : Archive) :
    Keeps history (.closeTicket ticketId closedBy archive)
      ((closeTicket s d ticketId closedBy archive).map .ticket) := by
  rw [closeTicket]
  split
  next => exact keeps_unsaved (h.unpaid rfl rfl)
  next ticket hticket =>
    obtain ⟨hget, hopen⟩ := Option.filter_eq_some_iff.mp hticket
    rw [decide_eq_true_eq] at hopen
    have hclosed := closedTickets_close (closedTicket d ticket closedBy archive) hget hopen rfl
    apply keeps_saving
    apply Sound.unpaid _ rfl rfl
    apply Sound.recordActivity
    exact
      { h with
        tickets := h.tickets.close hget rfl
        ticketsClosed := by
          rw [hclosed, Int.natCast_add, ← h.ticketsClosed]
          rfl }

theorem keeps_createApplication (userId : Key) (answers : List (String × String))
    (hfresh : s.applications.get d.id = none) :
    Keeps history (.createApplication userId answers)
      ((createApplication s d userId answers).map fun item => .filed (some item)) := by
  apply keeps_saving
  apply Sound.unpaid _ rfl rfl
  apply Sound.recordActivity
  exact
    { h with
      applicationsReviewed := by
        rw [reviewedItems_file (newFiled d d.id userId answers) hfresh rfl]
        exact h.applicationsReviewed }

theorem keeps_createLeave (userId : Key) (request : LeaveRequest)
    (hfresh : s.leaves.get (request.id.getD d.id) = none) :
    Keeps history (.createLeave userId request)
      ((createLeave s d userId request).map fun item => .filed (some item)) := by
  have hfiled := reviewedItems_file
    (newFiled d (request.id.getD d.id) (request.userId.getD userId) request.content) hfresh rfl
  apply keeps_saving
  apply Sound.unpaid _ rfl rfl
  apply Sound.recordActivity
  exact { h with leavesReviewed := h.leavesReviewed.trans (congrArg Nat.cast hfiled.symm) }

theorem keeps_review (collectionName : String) (itemId : Key) (status : String)
    (reviewedBy : Key) :
    Keeps history (.review collectionName itemId status reviewedBy)
      ((review s d collectionName itemId status reviewedBy).map .filed) := by
  rw [review]
  split
  next =>
    split
    next item verdict hitem hverdict =>
      have hreviewed := reviewedItems_review (reviewed d item verdict reviewedBy) hitem
        (statusOf_ne hverdict)
      apply keeps_saving
      apply Sound.unpaid _ rfl rfl
      apply Sound.recordActivity
      exact
        { h with
          applicationsReviewed := by
            rw [hreviewed, Int.natCast_add, ← h.applicationsReviewed]
            rfl }
    next => exact keeps_unsaved (h.unpaid rfl rfl)
  next =>
    split
    next =>
      split
      next item verdict hitem hverdict =>
        have hreviewed := reviewedItems_review (reviewed d item verdict reviewedBy) hitem
          (statusOf_ne hverdict)
        apply keeps_saving
        apply Sound.unpaid _ rfl rfl
        apply Sound.recordActivity
        exact
          { h with
            leavesReviewed := by
              rw [hreviewed, Int.natCast_add, ← h.leavesReviewed]
              rfl }
      next => exact keeps_unsaved (h.unpaid rfl rfl)
    next => exact keeps_unsaved (h.unpaid rfl rfl)

theorem keeps_createDrop (createdBy : Key) (prize channelId : String) (messageId : Option String)
    (hfresh : s.drops.get d.id = none) :
    Keeps history (.createDrop createdBy prize channelId messageId)
      ((createDrop s d createdBy prize channelId messageId).map fun drop => .drop (some drop)) := by
  apply keeps_saving
  apply Sound.unpaid _ rfl rfl
  apply Sound.recordActivity
  exact
    { h with
      drops := h.drops.set (by
        intro drop hget
        cases hfresh.symm.trans hget)
      dropsClaimed := by
        rw [claimedDrops_create (newDrop d createdBy prize channelId messageId) hfresh rfl]
        exact h.dropsClaimed }

theorem keeps_setDropMessage (dropId : Key) (messageId : Option String) :
    Keeps history (.setDropMessage dropId messageId)
      ((setDropMessage s dropId messageId).map .drop) := by
  rw [setDropMessage]
  split
  next => exact keeps_unsaved (h.unpaid rfl rfl)
  next drop hget =>
    apply keeps_saving
    apply Sound.unpaid _ rfl rfl
    exact
      { h with
        drops := h.drops.set (by
          intro drop' hget' hclaimed
          cases hget.symm.trans hget'
          exact ⟨hclaimed, rfl⟩)
        dropsClaimed := by
          rw [claimedDrops_edit { drop with messageId := messageId } hget rfl]
          exact h.dropsClaimed }

theorem keeps_claimDrop (dropId winnerId : Key) (coinReward : Option ℤ)
    (hreward : ∀ n, coinReward = some n → 0 ≤ n) :
    Keeps history (.claimDrop dropId winnerId coinReward)
      ((claimDrop s d dropId winnerId coinReward).map .drop) := by
  have hpos : 0 ≤ coinReward.getD 250 := by
    cases coinReward with
    | none => decide
    | some n => exact hreward n rfl
  rw [claimDrop]
  split
  next => exact keeps_unsaved (h.unpaid rfl rfl)
  next drop hdrop =>
    obtain ⟨hget, hopen⟩ := Option.filter_eq_some_iff.mp hdrop
    rw [decide_eq_true_eq] at hopen
    have hclaimed := claimedDrops_claim (claimedDrop d drop winnerId) hget hopen rfl
    have hdrops : DropsSound (s.drops.set dropId (claimedDrop d drop winnerId)) history := by
      apply h.drops.set
      intro drop' hget' hstatus
      cases hget.symm.trans hget'
      rw [hopen] at hstatus
      cases hstatus
    have hnew : ∀ paid ∈ history.filterMap paidDrop, paid.1 ≠ dropId := by
      intro paid hpaid heq
      obtain ⟨drop', hget', hstatus, -⟩ := h.drops.2 paid hpaid
      rw [heq] at hget'
      cases hget.symm.trans hget'
      rw [hopen] at hstatus
      cases hstatus
    have huser := h.userOf (d := d) winnerId
    have hsound : Sound ({ s with
        drops := s.drops.set dropId (claimedDrop d drop winnerId)
        stats := { s.stats with dropsClaimed := s.stats.dropsClaimed + 1 } }) history :=
      { h with
        drops := hdrops
        dropsClaimed := by
          rw [hclaimed, Int.natCast_add, ← h.dropsClaimed]
          rfl }
    apply keeps_saving
    apply Sound.payDrop _ rfl rfl hnew (InsertionMap.get_set_self _ _ _) rfl rfl
    apply Sound.recordActivity
    exact hsound.setUser winnerId _ (Int.add_nonneg huser hpos)

theorem keeps_claimInviteRewards (userId : Key) (milestones : List Milestone)
    (hcoins : ∀ item ∈ milestones, 0 ≤ item.coins)
    (hdistinct : (milestones.map Milestone.invites).Nodup) :
    Keeps history (.claimInviteRewards userId milestones)
      ((claimInviteRewards s d userId milestones).map .rewards) := by
  have hsub : ∀ item ∈ availableMilestones (s.inviterOf userId) milestones,
      item ∈ milestones ∧ item.invites ∉ (s.inviterOf userId).claimedMilestones := by
    intro item hitem
    obtain ⟨hmem, havailable⟩ := List.mem_filter.mp hitem
    simp only [Bool.and_eq_true, Bool.not_eq_true', List.contains_eq_mem,
      decide_eq_false_iff_not] at havailable
    exact ⟨hmem, havailable.2⟩
  have hnodup : ((availableMilestones (s.inviterOf userId) milestones).map fun item =>
      (userId, item.invites)).Nodup := by
    have hinvites : ((availableMilestones (s.inviterOf userId) milestones).map
        Milestone.invites).Nodup := hdistinct.sublist (List.filter_sublist.map _)
    have hpairs := hinvites.map (Prod.mk_right_injective userId)
    rwa [List.map_map] at hpairs
  have hamount : 0 ≤ ((availableMilestones (s.inviterOf userId) milestones).map
      Milestone.coins).sum := by
    apply List.sum_nonneg
    intro coins hmem
    obtain ⟨item, hitem, rfl⟩ := List.mem_map.mp hmem
    exact hcoins item (hsub item hitem).1
  have huser := h.userOf (d := d) userId
  rw [claimInviteRewards]
  split
  next => exact keeps_unsaved ((h.touchInviter userId).unpaid rfl rfl)
  next =>
    apply keeps_saving
    refine Sound.payMilestones ?_ rfl hnodup ?_ ?_
    · apply Sound.recordActivity
      apply Sound.setUser _ _ _ (Int.add_nonneg huser hamount)
      exact h.setInviter userId _ rfl (fun t ht => List.mem_append_left _ ht)
    · intro paid hpaid hold
      obtain ⟨item, hitem, rfl⟩ := List.mem_map.mp hpaid
      exact (hsub item hitem).2 (h.milestones.2 _ hold)
    · intro paid hpaid
      obtain ⟨item, hitem, rfl⟩ := List.mem_map.mp hpaid
      have hget : ∀ inviter, (s.setInviter userId inviter).inviterOf userId = inviter := by
        intro inviter
        rw [State.inviterOf, State.setInviter, InsertionMap.get_set_self]
        rfl
      exact (hget _).symm ▸ List.mem_append_right _ (List.mem_map_of_mem hitem)

theorem keeps_recordInvite (inviterId : Option Key) (memberId : Key) (details : InviteDetails) :
    Keeps history (.recordInvite inviterId memberId details)
      ((recordInvite s d inviterId memberId details).map .invited) := by
  rw [recordInvite]
  split
  next => exact keeps_unsaved (h.unpaid rfl rfl)
  next hfresh =>
    split
    next =>
      apply keeps_saving
      apply Sound.unpaid _ rfl rfl
      exact h.uncredited _ hfresh (by simp [newMember, isEligible])
    next inviterId =>
      have hsound : Sound (if isEligible (some inviterId) memberId details then
          credit (addMember s memberId (newMember d (some inviterId) memberId details)) d inviterId
          else addMember s memberId (newMember d (some inviterId) memberId details)) history := by
        by_cases heligible : isEligible (some inviterId) memberId details = true
        · rw [if_pos heligible]
          exact h.credited (newMember d (some inviterId) memberId details) hfresh heligible rfl
        · rw [if_neg heligible]
          exact h.uncredited _ hfresh (eq_false_of_ne_true heligible)
      constructor
      · exact (hsound.touchInviter inviterId).unpaid rfl rfl
      · intro state hstate
        cases hstate
        exact hsound.unpaid rfl rfl

/-- A call keeps what holds of the store. -/
theorem keeps_perform (op : Operation) (hop : Admissible s d op) :
    Keeps history op (perform s d op) := by
  cases op with
  | user userId => exact keeps_unsaved ((h.touchUser userId).unpaid rfl rfl)
  | balance userId => exact keeps_unsaved ((h.touchUser userId).unpaid rfl rfl)
  | addCoins userId amount reason => exact keeps_addCoins h userId amount reason
  | claimDaily userId options => exact keeps_claimDaily h userId options hop
  | leaderboard limit => exact keeps_unsaved (h.unpaid rfl rfl)
  | awardMessageXp userId options => exact keeps_awardMessageXp h userId options
  | submitCount userId value => exact keeps_submitCount h userId value
  | recordInvite inviterId memberId details => exact keeps_recordInvite h inviterId memberId details
  | inviter userId => exact keeps_unsaved ((h.touchInviter userId).unpaid rfl rfl)
  | inviteStats userId => exact keeps_unsaved ((h.touchInviter userId).unpaid rfl rfl)
  | claimInviteRewards userId milestones =>
    exact keeps_claimInviteRewards h userId milestones hop.1 hop.2
  | addWarning userId moderatorId reason => exact keeps_addWarning h userId moderatorId reason
  | warningsFor userId => exact keeps_unsaved (h.unpaid rfl rfl)
  | clearWarnings userId => exact keeps_clearWarnings h userId
  | openTicketForUser userId => exact keeps_unsaved (h.unpaid rfl rfl)
  | createTicket userId channelId => exact keeps_createTicket h userId channelId hop
  | closeTicket ticketId closedBy archive => exact keeps_closeTicket h ticketId closedBy archive
  | createApplication userId answers => exact keeps_createApplication h userId answers hop
  | createLeave userId request => exact keeps_createLeave h userId request hop
  | review collectionName itemId status reviewedBy =>
    exact keeps_review h collectionName itemId status reviewedBy
  | createDrop createdBy prize channelId messageId =>
    exact keeps_createDrop h createdBy prize channelId messageId hop
  | setDropMessage dropId messageId => exact keeps_setDropMessage h dropId messageId
  | claimDrop dropId winnerId coinReward => exact keeps_claimDrop h dropId winnerId coinReward hop
  | recordActivity type text =>
    exact keeps_unsaved (f := id) ((h.recordActivity type text).unpaid rfl rfl)
  | recordSystemError =>
    apply keeps_saving
    apply Sound.unpaid _ rfl rfl
    exact { h with counting := h.counting }
  | snapshot => exact keeps_unsaved (h.unpaid rfl rfl)

end Calls

theorem Ledger.call_sound {l : Ledger} {e : Event} (h : Sound l.store.memory l.history)
    (hop : Admissible l.store.memory e.draws e.operation) :
    Sound (l.call e).store.memory (l.call e).history := by
  obtain ⟨hmemory, hsaved⟩ := keeps_perform h (d := e.draws) e.operation hop
  rw [Ledger.call, Store.call]
  dsimp only
  split
  next => exact hmemory
  next state hstate =>
    split
    next => exact hmemory
    next => exact hsaved state hstate

section Accounts
variable {s : State} {d : Draws}

theorem coinsOf_set (users : InsertionMap Key User) (payeeId userId : Key) (user : User) :
    coinsOf (users.set payeeId user) userId =
      if payeeId = userId then user.coins else coinsOf users userId := by
  rw [coinsOf, InsertionMap.get_set]
  by_cases heq : userId = payeeId
  · rw [if_pos heq, if_pos heq.symm]
    rfl
  · rw [if_neg heq, if_neg fun h => heq h.symm]
    rfl

theorem coins_userOf (userId : Key) : (s.userOf d userId).coins = coinsOf s.users userId := by
  rw [State.userOf, coinsOf]
  cases s.users.get userId <;> rfl

theorem coinsOf_touchUser (userId userId' : Key) :
    coinsOf (s.touchUser d userId).users userId' = coinsOf s.users userId' := by
  rw [State.touchUser, touch]
  cases hget : s.users.get userId with
  | some user => rfl
  | none =>
    show coinsOf (s.users.set userId (State.newUser d)) userId' = _
    rw [coinsOf_set]
    split
    next heq =>
      subst heq
      simp [coinsOf, hget, State.newUser]
    next => rfl

theorem inviterOf_setInviter (payeeId userId : Key) (inviter : Inviter) :
    (s.setInviter payeeId inviter).inviterOf userId =
      if payeeId = userId then inviter else s.inviterOf userId := by
  rw [State.setInviter, State.inviterOf, InsertionMap.get_set]
  by_cases heq : userId = payeeId
  · rw [if_pos heq, if_pos heq.symm]
    rfl
  · rw [if_neg heq, if_neg fun h => heq h.symm]
    rfl

theorem inviterOf_touchInviter (userId userId' : Key) :
    (s.touchInviter userId).inviterOf userId' = s.inviterOf userId' := by
  rw [State.touchInviter, touch]
  cases hget : s.inviters.get userId with
  | some inviter => rfl
  | none =>
    refine (inviterOf_setInviter userId userId' State.newInviter).trans ?_
    split
    next heq =>
      subst heq
      simp [State.inviterOf, hget]
    next => rfl

/-- What a call changes is what it says to pay. -/
structure Pays (s t : State) (call : Operation × Answer) : Prop where
  coins : ∀ userId, coinsOf t.users userId = payment userId (coinsOf s.users userId) call
  drops : ∀ dropId drop, t.drops.get dropId = some drop → drop.status = .claimed →
    (∃ before, s.drops.get dropId = some before ∧ before.status = .claimed) ∨
      ∃ winnerId, paidDrop call = some (dropId, winnerId)
  milestones : ∀ userId, ∀ invites ∈ (t.inviterOf userId).claimedMilestones,
    invites ∈ (s.inviterOf userId).claimedMilestones ∨ (userId, invites) ∈ paidMilestones call
  amount : AmountStated call

theorem PaidUp.step {t : State} {history : History} {call : Operation × Answer}
    (h : PaidUp s history) (hpays : Pays s t call) : PaidUp t (history ++ [call]) where
  coins userId := by
    rw [hpays.coins, h.coins, List.foldl_append]
    rfl
  drops dropId drop hget hclaimed := by
    rcases hpays.drops dropId drop hget hclaimed with ⟨before, hbefore, hwas⟩ | ⟨winnerId, hpaid⟩
    · obtain ⟨winnerId, hmem⟩ := h.drops dropId before hbefore hwas
      exact ⟨winnerId, by rw [List.filterMap_append]; exact List.mem_append_left _ hmem⟩
    · refine ⟨winnerId, ?_⟩
      rw [List.filterMap_append, List.filterMap_cons_some hpaid]
      exact List.mem_append_right _ List.mem_cons_self
  milestones userId invites hmem := by
    rw [paidMilestones_concat, List.mem_append]
    exact (hpays.milestones userId invites hmem).imp_left (h.milestones userId invites)
  amounts other hmem := by
    rcases List.mem_append.mp hmem with hmem | hmem
    · exact h.amounts other hmem
    · exact List.mem_singleton.mp hmem ▸ hpays.amount

/-- A call that pays nothing and leaves drops and claims as they are. -/
theorem pays_nothing {t : State} {op : Operation} {answer : Answer}
    (hcoins : ∀ userId, coinsOf t.users userId = coinsOf s.users userId)
    (hdrops : t.drops = s.drops) (hinviters : ∀ userId, (t.inviterOf userId).claimedMilestones =
      (s.inviterOf userId).claimedMilestones)
    (hpayment : ∀ userId coins, payment userId coins (op, answer) = coins)
    (hamount : AmountStated (op, answer)) : Pays s t (op, answer) where
  coins userId := by rw [hcoins, hpayment]
  drops dropId drop hget hclaimed := .inl ⟨drop, hdrops ▸ hget, hclaimed⟩
  milestones userId invites hmem := .inl (hinviters userId ▸ hmem)
  amount := hamount

/-- A call that leaves users, drops and inviters as they are. -/
theorem pays_same {t : State} {op : Operation} {answer : Answer} (husers : t.users = s.users)
    (hdrops : t.drops = s.drops) (hinviters : t.inviters = s.inviters)
    (hpayment : ∀ userId coins, payment userId coins (op, answer) = coins)
    (hamount : AmountStated (op, answer)) : Pays s t (op, answer) := by
  refine pays_nothing (fun userId => by rw [husers]) hdrops (fun userId => ?_) hpayment hamount
  rw [State.inviterOf, hinviters, State.inviterOf]

/-- A call that changes the record of one user alone. -/
theorem pays_user {t : State} {op : Operation} {answer : Answer} (payeeId : Key) (user : User)
    (husers : t.users = s.users.set payeeId user) (hdrops : t.drops = s.drops)
    (hinviters : t.inviters = s.inviters)
    (hpayment : ∀ userId, (if payeeId = userId then user.coins else coinsOf s.users userId) =
      payment userId (coinsOf s.users userId) (op, answer))
    (hamount : AmountStated (op, answer)) : Pays s t (op, answer) where
  coins userId := by rw [husers, coinsOf_set, hpayment]
  drops dropId drop hget hclaimed := .inl ⟨drop, hdrops ▸ hget, hclaimed⟩
  milestones userId invites hmem := .inl (by rwa [State.inviterOf, hinviters] at hmem)
  amount := hamount

/-- The call pays what it says, in what it saves and in the memory it leaves. -/
def PaysWith (s : State) (op : Operation) (o : Outcome Answer) : Prop :=
  Pays s o.memory (op, o.answer) ∧ ∀ state, o.saved = some state → Pays s state (op, o.answer)

theorem paysWith_unsaved {α : Type} {op : Operation} {t : State} {answer : α} {f : α → Answer}
    (h : Pays s t (op, f answer)) : PaysWith s op ((unsaved t answer).map f) := by
  refine ⟨h, ?_⟩
  intro state hstate
  cases hstate

theorem paysWith_saving {α : Type} {op : Operation} {t : State} {answer : α} {f : α → Answer}
    (h : Pays s t (op, f answer)) : PaysWith s op ((saving t answer).map f) := by
  refine ⟨h, ?_⟩
  intro state hstate
  cases hstate
  exact h

theorem paysWith_addCoins (userId : Key) (amount : Option ℤ) (reason : Option String) :
    PaysWith s (.addCoins userId amount reason)
      ((addCoins s d userId amount reason).map .coins) := by
  rw [addCoins]
  split
  next =>
    refine paysWith_unsaved (pays_nothing (fun _ => rfl) rfl (fun _ => rfl) ?_ trivial)
    intro userId' coins
    cases amount <;> rfl
  next n hn =>
    obtain ⟨hamount, -⟩ := Option.filter_eq_some_iff.mp hn
    subst hamount
    refine paysWith_saving (pays_user userId _ rfl rfl rfl (fun userId' => ?_) trivial)
    by_cases heq : userId = userId'
    · subst heq
      simp [payment, coins_userOf]
    · simp [payment, heq]

theorem paysWith_claimDaily (userId : Key) (options : Pace) :
    PaysWith s (.claimDaily userId options) ((claimDaily s d userId options).map .daily) := by
  rw [claimDaily]
  split
  next =>
    exact paysWith_unsaved (pays_nothing (coinsOf_touchUser userId) rfl (fun _ => rfl)
      (fun _ _ => rfl) trivial)
  next =>
    refine paysWith_saving (pays_user userId _ rfl rfl rfl (fun userId' => ?_) trivial)
    by_cases heq : userId = userId'
    · subst heq
      simp [payment, coins_userOf]
    · simp [payment, heq]

theorem paysWith_awardMessageXp (userId : Key) (options : Pace) :
    PaysWith s (.awardMessageXp userId options)
      ((awardMessageXp s d userId options).map .award) := by
  have hkept : ∀ userId', (if userId = userId' then (s.userOf d userId).coins
      else coinsOf s.users userId') = coinsOf s.users userId' := by
    intro userId'
    by_cases heq : userId = userId'
    · rw [if_pos heq, coins_userOf, heq]
    · rw [if_neg heq]
  rw [awardMessageXp]
  split
  next =>
    exact paysWith_unsaved (pays_nothing (coinsOf_touchUser userId) rfl (fun _ => rfl)
      (fun _ _ => rfl) trivial)
  next =>
    apply paysWith_saving
    split
    next => exact pays_user userId _ rfl rfl rfl hkept trivial
    next => exact pays_user userId _ rfl rfl rfl hkept trivial

theorem paysWith_claimInviteRewards (userId : Key) (milestones : List Milestone) :
    PaysWith s (.claimInviteRewards userId milestones)
      ((claimInviteRewards s d userId milestones).map .rewards) := by
  rw [claimInviteRewards]
  split
  next =>
    exact paysWith_unsaved (pays_nothing (fun _ => rfl) rfl
      (fun userId' => congrArg _ (inviterOf_touchInviter userId userId')) (fun _ _ => rfl) trivial)
  next =>
    refine paysWith_saving ⟨fun userId' => ?_, fun dropId drop hget hclaimed =>
      .inl ⟨drop, hget, hclaimed⟩, fun userId' invites hmem => ?_, List.filter_sublist, rfl⟩
    · refine (coinsOf_set _ userId userId' _).trans ?_
      by_cases heq : userId = userId'
      · subst heq
        simp [payment, coins_userOf]
      · simp [payment, heq, State.setInviter]
    · have hinviter := inviterOf_setInviter (s := s) userId userId'
        { s.inviterOf userId with
          claimedMilestones := (s.inviterOf userId).claimedMilestones ++
            (availableMilestones (s.inviterOf userId) milestones).map Milestone.invites }
      by_cases heq : userId = userId'
      · subst heq
        rw [if_pos rfl] at hinviter
        have hmem' : invites ∈ (s.inviterOf userId).claimedMilestones ++
            (availableMilestones (s.inviterOf userId) milestones).map Milestone.invites := by
          rw [show (s.inviterOf userId).claimedMilestones ++ _ = _ from
            congrArg Inviter.claimedMilestones hinviter.symm]
          exact hmem
        refine (List.mem_append.mp hmem').imp_right fun hnew => ?_
        obtain ⟨item, hitem, rfl⟩ := List.mem_map.mp hnew
        exact List.mem_map_of_mem (f := fun item : Milestone => (userId, item.invites)) hitem
      · rw [if_neg heq] at hinviter
        exact .inl (congrArg Inviter.claimedMilestones hinviter ▸ hmem)

theorem paysWith_recordInvite (inviterId : Option Key) (memberId : Key) (details : InviteDetails) :
    PaysWith s (.recordInvite inviterId memberId details)
      ((recordInvite s d inviterId memberId details).map .invited) := by
  rw [recordInvite]
  split
  next =>
    exact paysWith_unsaved (pays_same rfl rfl rfl (fun _ _ => rfl) trivial)
  next =>
    split
    next =>
      exact paysWith_saving (pays_same rfl rfl rfl (fun _ _ => rfl) trivial)
    next inviterId =>
      let member := newMember d (some inviterId) memberId details
      have hcredit : ∀ userId, ((credit (addMember s memberId member) d inviterId).inviterOf
          userId).claimedMilestones = (s.inviterOf userId).claimedMilestones := by
        intro userId
        have hinviter := inviterOf_setInviter (s := addMember s memberId member) inviterId userId
          { s.inviterOf inviterId with credited := (s.inviterOf inviterId).credited + 1 }
        refine (congrArg Inviter.claimedMilestones hinviter).trans ?_
        by_cases heq : inviterId = userId
        · rw [if_pos heq, heq]
        · rw [if_neg heq]
          rfl
      have hsaved : ∀ answer, Pays s (if isEligible (some inviterId) memberId details then
          credit (addMember s memberId member) d inviterId else addMember s memberId member)
          (.recordInvite (some inviterId) memberId details, .invited answer) := by
        intro answer
        split
        next => exact pays_nothing (fun _ => rfl) rfl hcredit (fun _ _ => rfl) trivial
        next => exact pays_nothing (fun _ => rfl) rfl (fun _ => rfl) (fun _ _ => rfl) trivial
      constructor
      · refine { hsaved _ with milestones := fun userId invites hmem => ?_ }
        refine (hsaved _).milestones userId invites ?_
        rw [← inviterOf_touchInviter inviterId userId]
        exact hmem
      · intro state hstate
        cases hstate
        exact hsaved _

theorem paysWith_createDrop (createdBy : Key) (prize channelId : String)
    (messageId : Option String) :
    PaysWith s (.createDrop createdBy prize channelId messageId)
      ((createDrop s d createdBy prize channelId messageId).map fun drop => .drop (some drop)) := by
  refine paysWith_saving ⟨fun _ => rfl, fun dropId drop hget hclaimed => ?_, fun _ _ h => .inl h,
    trivial⟩
  have hset : (s.drops.set d.id (newDrop d createdBy prize channelId messageId)).get dropId =
      some drop := hget
  rw [InsertionMap.get_set] at hset
  by_cases heq : dropId = d.id
  · rw [if_pos heq] at hset
    cases hset
    cases hclaimed
  · rw [if_neg heq] at hset
    exact .inl ⟨drop, hset, hclaimed⟩

theorem paysWith_setDropMessage (dropId : Key) (messageId : Option String) :
    PaysWith s (.setDropMessage dropId messageId)
      ((setDropMessage s dropId messageId).map .drop) := by
  rw [setDropMessage]
  split
  next =>
    exact paysWith_unsaved (pays_same rfl rfl rfl (fun _ _ => rfl) trivial)
  next before hbefore =>
    refine paysWith_saving ⟨fun _ => rfl, fun dropId' drop hget hclaimed => ?_,
      fun _ _ h => .inl h, trivial⟩
    have hset : (s.drops.set dropId { before with messageId := messageId }).get dropId' =
        some drop := hget
    rw [InsertionMap.get_set] at hset
    by_cases heq : dropId' = dropId
    · rw [if_pos heq] at hset
      cases hset
      exact .inl ⟨before, heq ▸ hbefore, hclaimed⟩
    · rw [if_neg heq] at hset
      exact .inl ⟨drop, hset, hclaimed⟩

theorem paysWith_claimDrop (dropId winnerId : Key) (coinReward : Option ℤ) :
    PaysWith s (.claimDrop dropId winnerId coinReward)
      ((claimDrop s d dropId winnerId coinReward).map .drop) := by
  rw [claimDrop]
  split
  next =>
    exact paysWith_unsaved (pays_same rfl rfl rfl (fun _ _ => rfl) trivial)
  next opened _ =>
    refine paysWith_saving ⟨fun userId => ?_, fun dropId' drop hget hclaimed => ?_,
      fun _ _ h => .inl h, trivial⟩
    · refine (coinsOf_set _ winnerId userId _).trans ?_
      by_cases heq : winnerId = userId
      · subst heq
        simp [payment, coins_userOf]
      · simp [payment, heq]
    · have hset : (s.drops.set dropId (claimedDrop d opened winnerId)).get dropId' = some drop :=
        hget
      rw [InsertionMap.get_set] at hset
      by_cases heq : dropId' = dropId
      · exact .inr ⟨winnerId, by rw [heq]; rfl⟩
      · rw [if_neg heq] at hset
        exact .inl ⟨drop, hset, hclaimed⟩

theorem paysWith_perform (op : Operation) : PaysWith s op (perform s d op) := by
  cases op with
  | user userId =>
    exact paysWith_unsaved (pays_nothing (coinsOf_touchUser userId) rfl (fun _ => rfl)
      (fun _ _ => rfl) trivial)
  | balance userId =>
    exact paysWith_unsaved (pays_nothing (coinsOf_touchUser userId) rfl (fun _ => rfl)
      (fun _ _ => rfl) trivial)
  | addCoins userId amount reason => exact paysWith_addCoins userId amount reason
  | claimDaily userId options => exact paysWith_claimDaily userId options
  | awardMessageXp userId options => exact paysWith_awardMessageXp userId options
  | recordInvite inviterId memberId details =>
    exact paysWith_recordInvite inviterId memberId details
  | inviter userId =>
    exact paysWith_unsaved (pays_nothing (fun _ => rfl) rfl
      (fun userId' => congrArg _ (inviterOf_touchInviter userId userId')) (fun _ _ => rfl) trivial)
  | inviteStats userId =>
    exact paysWith_unsaved (pays_nothing (fun _ => rfl) rfl
      (fun userId' => congrArg _ (inviterOf_touchInviter userId userId')) (fun _ _ => rfl) trivial)
  | claimInviteRewards userId milestones => exact paysWith_claimInviteRewards userId milestones
  | createDrop createdBy prize channelId messageId =>
    exact paysWith_createDrop createdBy prize channelId messageId
  | setDropMessage dropId messageId => exact paysWith_setDropMessage dropId messageId
  | claimDrop dropId winnerId coinReward => exact paysWith_claimDrop dropId winnerId coinReward
  | leaderboard limit =>
    exact paysWith_unsaved (pays_same rfl rfl rfl (fun _ _ => rfl) trivial)
  | submitCount userId value =>
    rw [perform, submitCount]
    split
    next => exact paysWith_saving (pays_same rfl rfl rfl (fun _ _ => rfl) trivial)
    next => exact paysWith_saving (pays_same rfl rfl rfl (fun _ _ => rfl) trivial)
  | addWarning userId moderatorId reason =>
    exact paysWith_saving (pays_same rfl rfl rfl (fun _ _ => rfl) trivial)
  | warningsFor userId =>
    exact paysWith_unsaved (pays_same rfl rfl rfl (fun _ _ => rfl) trivial)
  | clearWarnings userId =>
    exact paysWith_saving (pays_same rfl rfl rfl (fun _ _ => rfl) trivial)
  | openTicketForUser userId =>
    exact paysWith_unsaved (pays_same rfl rfl rfl (fun _ _ => rfl) trivial)
  | createTicket userId channelId =>
    rw [perform, createTicket]
    split
    next => exact paysWith_unsaved (pays_same rfl rfl rfl (fun _ _ => rfl) trivial)
    next => exact paysWith_saving (pays_same rfl rfl rfl (fun _ _ => rfl) trivial)
  | closeTicket ticketId closedBy archive =>
    rw [perform, closeTicket]
    split
    next => exact paysWith_unsaved (pays_same rfl rfl rfl (fun _ _ => rfl) trivial)
    next => exact paysWith_saving (pays_same rfl rfl rfl (fun _ _ => rfl) trivial)
  | createApplication userId answers =>
    exact paysWith_saving (pays_same rfl rfl rfl (fun _ _ => rfl) trivial)
  | createLeave userId request =>
    exact paysWith_saving (pays_same rfl rfl rfl (fun _ _ => rfl) trivial)
  | review collectionName itemId status reviewedBy =>
    rw [perform, review]
    split
    next =>
      split
      next => exact paysWith_saving (pays_same rfl rfl rfl (fun _ _ => rfl) trivial)
      next => exact paysWith_unsaved (pays_same rfl rfl rfl (fun _ _ => rfl) trivial)
    next =>
      split
      next =>
        split
        next => exact paysWith_saving (pays_same rfl rfl rfl (fun _ _ => rfl) trivial)
        next => exact paysWith_unsaved (pays_same rfl rfl rfl (fun _ _ => rfl) trivial)
      next => exact paysWith_unsaved (pays_same rfl rfl rfl (fun _ _ => rfl) trivial)
  | recordActivity type text =>
    exact paysWith_unsaved (f := id) (pays_same rfl rfl rfl (fun _ _ => rfl) trivial)
  | recordSystemError =>
    exact paysWith_saving (pays_same rfl rfl rfl (fun _ _ => rfl) trivial)
  | snapshot =>
    exact paysWith_unsaved (pays_same rfl rfl rfl (fun _ _ => rfl) trivial)

theorem Ledger.call_paidUp {l : Ledger} {e : Event} (h : PaidUp l.store.memory l.history) :
    PaidUp (l.call e).store.memory (l.call e).history := by
  obtain ⟨hmemory, hsaved⟩ := paysWith_perform (s := l.store.memory) (d := e.draws) e.operation
  rw [Ledger.call, Store.call]
  dsimp only
  split
  next => exact h.step hmemory
  next state hstate =>
    split
    next => exact h.step hmemory
    next => exact h.step (hsaved state hstate)

theorem paidUp_fresh : PaidUp freshState [] where
  coins userId := rfl
  drops dropId drop h := by cases h
  milestones userId invites h := by cases h
  amounts call h := by cases h

end Accounts

/-- In every run of the store whose rewards and ids are admissible the store stays sound, and the
coins are those that its answers come to. -/
theorem store_sound (es : List Event)
    (h : community.Meets (fun l e => Admissible l.store.memory e.draws e.operation) es) :
    community.Always (fun l => Sound l.store.memory l.history ∧ PaidUp l.store.memory l.history)
      es := by
  have hcall : ∀ l e l', Sound l.store.memory l.history ∧ PaidUp l.store.memory l.history →
      Admissible l.store.memory e.draws e.operation → community.step l e = some l' →
      Sound l'.store.memory l'.history ∧ PaidUp l'.store.memory l'.history := by
    intro l e l' hl hop hstep
    cases hstep
    exact ⟨Ledger.call_sound hl.1 hop, Ledger.call_paidUp hl.2⟩
  exact System.always_of_invariant (fun _ hl => hl) hcall ⟨sound_fresh, paidUp_fresh⟩ h

/-- A drop that is claimed twice, the first time without a save. -/
def dropRun : List Event :=
  [⟨.createDrop someId "nitro" "general" none, someDraws, true⟩,
    ⟨.claimDrop someId someId none, someDraws, false⟩,
    ⟨.claimDrop someId someId none, someDraws, true⟩]

theorem dropRun_sound :
    community.Always (fun l => Sound l.store.memory l.history ∧ PaidUp l.store.memory l.history)
      dropRun := by
  apply store_sound
  intro created hcreated
  refine ⟨rfl, ?_⟩
  cases hcreated
  intro failed hfailed
  constructor
  · intro reward (hreward : (none : Option ℤ) = some reward)
    cases hreward
  cases hfailed
  intro claimed hclaimed
  refine ⟨?_, trivial⟩
  intro reward (hreward : (none : Option ℤ) = some reward)
  cases hreward

end LuaRecovery.Community
