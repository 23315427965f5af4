import LuaRecovery.Lib.InsertionMap
import Mathlib.Algebra.Order.Ring.Int
import Mathlib.Data.Nat.Sqrt

/-!
# The community store

Coins, invites, tickets, applications, leaves, drops and the counting game of a
community, as the bot keeps them in memory. An operation changes the memory in
place and then saves all of it.
-/

set_option autoImplicit false

namespace LuaRecovery.Community
open LuaRecovery.Lib

/-- The names that every plain object has. -/
def objectNames : List String :=
  ["constructor", "__defineGetter__", "__defineSetter__", "hasOwnProperty", "__lookupGetter__",
    "__lookupSetter__", "isPrototypeOf", "propertyIsEnumerable", "toString", "valueOf",
    "__proto__", "toLocaleString"]

/-- An id. No id is empty or a name that every plain object has, so a plain object has the id as
a key exactly if it was set. -/
structure Key where
  name : String
  nonempty : name ≠ ""
  own : name ∉ objectNames
  deriving DecidableEq

theorem snowflake_own : "1180000000000000001" ≠ "" ∧ "1180000000000000001" ∉ objectNames := by
  decide

/-- An id of the kind that the bot gets. -/
def someId : Key := ⟨"1180000000000000001", snowflake_own.1, snowflake_own.2⟩

section Data

structure User where
  coins : ℤ
  xp : ℤ
  messages : ℤ
  lastDailyAt : ℤ
  lastXpAt : ℤ
  createdAt : ℤ
  deriving DecidableEq

inductive TicketStatus where
  | opened
  | closed
  deriving DecidableEq

structure Ticket where
  id : Key
  userId : Key
  channelId : String
  status : TicketStatus
  createdAt : ℤ
  closedAt : Option ℤ
  closedBy : Option Key
  transcriptFile : Option String
  messageCount : Option ℤ
  deriving DecidableEq

inductive ReviewStatus where
  | pending
  | approved
  | rejected
  deriving DecidableEq

/-- An application or a leave, by what it says. -/
structure Filed where
  id : Key
  userId : Key
  content : List (String × String)
  status : ReviewStatus
  createdAt : ℤ
  reviewedAt : Option ℤ
  reviewedBy : Option Key
  deriving DecidableEq

inductive DropStatus where
  | opened
  | claimed
  deriving DecidableEq

structure Drop where
  id : Key
  createdBy : Key
  prize : String
  channelId : String
  messageId : Option String
  status : DropStatus
  winnerId : Option Key
  createdAt : ℤ
  claimedAt : Option ℤ
  deriving DecidableEq

structure Counting where
  current : ℤ
  highScore : ℤ
  lastUserId : Option Key
  deriving DecidableEq

structure Member where
  inviterId : Option Key
  code : Option String
  eligible : Bool
  joinedAt : ℤ
  deriving DecidableEq

structure Inviter where
  credited : ℤ
  claimedMilestones : List ℤ
  deriving DecidableEq

structure Warning where
  id : Key
  userId : Key
  moderatorId : Key
  reason : String
  createdAt : ℤ
  deriving DecidableEq

structure Activity where
  id : Key
  type : String
  text : String
  createdAt : ℤ
  deriving DecidableEq

structure Stats where
  ticketsClosed : ℤ
  applicationsReviewed : ℤ
  leavesReviewed : ℤ
  dropsClaimed : ℤ
  systemErrors : ℤ
  deriving DecidableEq

structure State where
  users : InsertionMap Key User
  tickets : InsertionMap Key Ticket
  applications : InsertionMap Key Filed
  leaves : InsertionMap Key Filed
  drops : InsertionMap Key Drop
  counting : Counting
  members : InsertionMap Key Member
  inviters : InsertionMap Key Inviter
  warnings : InsertionMap Key (List Warning)
  activity : List Activity
  stats : Stats

def freshState : State where
  users := .empty
  tickets := .empty
  applications := .empty
  leaves := .empty
  drops := .empty
  counting := ⟨0, 0, none⟩
  members := .empty
  inviters := .empty
  warnings := .empty
  activity := []
  stats := ⟨0, 0, 0, 0, 0⟩

end Data

/-- The ids and the times that a call draws, each under what it is drawn for. -/
structure Draws where
  id : Key
  activityId : Key
  now : ℤ
  userCreatedAt : ℤ
  activityAt : ℤ

def someDraws : Draws := ⟨someId, someId, 1, 1, 1⟩

/-- What a call returns, what it hands to `save` before, if it does, and the memory it leaves. -/
structure Outcome (α : Type) where
  answer : α
  saved : Option State
  memory : State

def unsaved {α : Type} (s : State) (answer : α) : Outcome α := ⟨answer, none, s⟩

def saving {α : Type} (s : State) (answer : α) : Outcome α := ⟨answer, some s, s⟩

def Outcome.map {α β : Type} (f : α → β) (o : Outcome α) : Outcome β :=
  ⟨f o.answer, o.saved, o.memory⟩

/-- A value that is none is no integer. -/
def safeInteger (value : Option ℤ) : Option ℤ :=
  value.filter (fun n => -9007199254740991 ≤ n && n ≤ 9007199254740991)

/-- `option || otherwise`, for a number. -/
def orElse (option : Option ℤ) (otherwise : ℤ) : ℤ := (option.filter (· ≠ 0)).getD otherwise

def levelForXp (xp : ℤ) : ℕ := Nat.sqrt (xp.toNat / 100) + 1

/-- The entry is there after the call, new if it was not there before. -/
def touch {V : Type} (m : InsertionMap Key V) (k : Key) (fresh : V) : InsertionMap Key V :=
  match m.get k with
  | some _ => m
  | none => m.set k fresh

namespace State
variable (s : State) (d : Draws)

def recordActivity (type text : String) : State :=
  { s with activity := (⟨d.activityId, type, text, d.activityAt⟩ :: s.activity).take 100 }

def newUser : User := ⟨0, 0, 0, 0, 0, d.userCreatedAt⟩

/-- The record of a user, a new one if there is none. -/
def userOf (userId : Key) : User := (s.users.get userId).getD (newUser d)

def setUser (userId : Key) (user : User) : State := { s with users := s.users.set userId user }

def touchUser (userId : Key) : State := { s with users := touch s.users userId (newUser d) }

def newInviter : Inviter := ⟨0, []⟩

def inviterOf (userId : Key) : Inviter := (s.inviters.get userId).getD newInviter

def setInviter (userId : Key) (inviter : Inviter) : State :=
  { s with inviters := s.inviters.set userId inviter }

def touchInviter (userId : Key) : State :=
  { s with inviters := touch s.inviters userId newInviter }

end State

section Operations
variable (s : State) (d : Draws)

def user (userId : Key) : Outcome User := unsaved (s.touchUser d userId) (s.userOf d userId)

structure Balance where
  coins : ℤ
  xp : ℤ
  level : ℕ
  messages : ℤ
  deriving DecidableEq

def balance (userId : Key) : Outcome Balance :=
  let user := s.userOf d userId
  unsaved (s.touchUser d userId) ⟨user.coins, user.xp, levelForXp user.xp, user.messages⟩

def addCoins (userId : Key) (amount : Option ℤ) (reason : Option String) :
    Outcome (Except String ℤ) :=
  match safeInteger amount with
  | none => unsaved s (.error "Coin amount must be an integer.")
  | some amount =>
      let user := s.userOf d userId
      let coins := max 0 (user.coins + amount)
      saving ((s.setUser userId { user with coins := coins }).recordActivity d "economy"
        ((if 0 ≤ amount then "+" else "") ++ toString amount ++ " coins: " ++
          reason.getD "reward")) (.ok coins)

/-- How often a reward is given and how large it is. -/
structure Pace where
  cooldownMs : Option ℤ
  amount : Option ℤ

inductive Daily where
  | waiting (availableAt remainingMs : ℤ)
  | claimed (amount balance availableAt : ℤ)
  deriving DecidableEq

def claimDaily (userId : Key) (options : Pace) : Outcome Daily :=
  let cooldownMs := orElse options.cooldownMs 86400000
  let amount := orElse options.amount 150
  let user := s.userOf d userId
  let availableAt := user.lastDailyAt + cooldownMs
  if user.lastDailyAt ≠ 0 ∧ d.now < availableAt then
    unsaved (s.touchUser d userId) (.waiting availableAt (availableAt - d.now))
  else
    saving ((s.setUser userId
        { user with lastDailyAt := d.now, coins := user.coins + amount }).recordActivity d "economy"
        ("Daily reward claimed: +" ++ toString amount ++ " coins"))
      (.claimed amount (user.coins + amount) (d.now + cooldownMs))

structure Ranked where
  userId : Key
  coins : ℤ
  xp : ℤ
  deriving DecidableEq

/-- More coins come first, among equals more experience. -/
def ranksBefore (left right : Ranked) : Bool :=
  right.coins < left.coins || (right.coins = left.coins && right.xp ≤ left.xp)

def leaderboard (limit : Option ℤ) : Outcome (List Ranked) :=
  unsaved s (((s.users.entries.map fun e => ⟨e.1, e.2.coins, e.2.xp⟩).mergeSort ranksBefore).take
    (max 1 (min 25 (limit.getD 10))).toNat)

inductive Award where
  | waiting
  | awarded (amount xp : ℤ) (level previousLevel : ℕ) (leveledUp : Bool)
  deriving DecidableEq

def awardMessageXp (userId : Key) (options : Pace) : Outcome Award :=
  let cooldownMs := orElse options.cooldownMs 60000
  let amount := orElse options.amount 15
  let user := s.userOf d userId
  if user.lastXpAt ≠ 0 ∧ d.now < user.lastXpAt + cooldownMs then
    unsaved (s.touchUser d userId) .waiting
  else
    let previousLevel := levelForXp user.xp
    let level := levelForXp (user.xp + amount)
    let rewarded := s.setUser userId
      { user with
        lastXpAt := d.now, messages := user.messages + 1, xp := user.xp + amount }
    saving
      (if previousLevel < level then
        rewarded.recordActivity d "level"
          ("A community member reached level " ++ toString level ++ ".")
      else rewarded)
      (.awarded amount (user.xp + amount) level previousLevel (previousLevel < level))

inductive Count where
  | reset (expected previous highScore : ℤ)
  | accepted (current highScore : ℤ)
  deriving DecidableEq

def submitCount (userId : Key) (value : Option ℤ) : Outcome Count :=
  let counting := s.counting
  let expected := counting.current + 1
  if safeInteger value ≠ some expected ∨ counting.lastUserId = some userId then
    saving ({ s with
        counting := { counting with current := 0, lastUserId := none } }.recordActivity d "counting"
        ("Counting reset at " ++ toString counting.current ++ "; next number is 1."))
      (.reset expected counting.current counting.highScore)
  else
    saving { s with counting := ⟨expected, max counting.highScore expected, some userId⟩ }
      (.accepted expected (max counting.highScore expected))

def inviter (userId : Key) : Outcome Inviter :=
  unsaved (s.touchInviter userId) (s.inviterOf userId)

/-- The record of an inviter, copied. -/
def inviteStats (userId : Key) : Outcome Inviter :=
  unsaved (s.touchInviter userId) (s.inviterOf userId)

structure InviteDetails where
  eligible : Option Bool
  code : Option String

inductive Invited where
  | alreadyRecorded
  | recorded (eligible : Bool) (stats : Option Inviter)
  deriving DecidableEq

def isEligible (inviterId : Option Key) (memberId : Key) (details : InviteDetails) : Bool :=
  details.eligible ≠ some false && inviterId.isSome && inviterId ≠ some memberId

def newMember (inviterId : Option Key) (memberId : Key) (details : InviteDetails) : Member where
  inviterId := inviterId
  code := details.code.filter (· ≠ "")
  eligible := isEligible inviterId memberId details
  joinedAt := d.now

def addMember (memberId : Key) (member : Member) : State :=
  { s with members := s.members.set memberId member }

/-- The credit of a member that counts. -/
def credit (inviterId : Key) : State :=
  let inviter := s.inviterOf inviterId
  (s.setInviter inviterId { inviter with credited := inviter.credited + 1 }).recordActivity d
    "invite" "A verified invite was credited."

/-- The stats that are returned are read after the save. -/
def recordInvite (inviterId : Option Key) (memberId : Key) (details : InviteDetails) :
    Outcome Invited :=
  match s.members.get memberId with
  | some _ => unsaved s .alreadyRecorded
  | none =>
      let eligible := isEligible inviterId memberId details
      let recorded := addMember s memberId (newMember d inviterId memberId details)
      match inviterId with
      | none => saving recorded (.recorded eligible none)
      | some inviterId =>
          let credited := if eligible then credit recorded d inviterId else recorded
          { answer := .recorded eligible (some (credited.inviterOf inviterId))
            saved := some credited
            memory := credited.touchInviter inviterId }

structure Milestone where
  invites : ℤ
  coins : ℤ
  deriving DecidableEq

inductive Rewards where
  | unclaimed (stats : Inviter)
  | claimed (amount : ℤ) (milestones : List Milestone) (balance : ℤ) (stats : Inviter)
  deriving DecidableEq

def availableMilestones (inviter : Inviter) (milestones : List Milestone) : List Milestone :=
  milestones.filter fun item =>
    item.invites ≤ inviter.credited && !inviter.claimedMilestones.contains item.invites

def claimInviteRewards (userId : Key) (milestones : List Milestone) : Outcome Rewards :=
  let inviter := s.inviterOf userId
  let available := availableMilestones inviter milestones
  if available = [] then unsaved (s.touchInviter userId) (.unclaimed inviter)
  else
    let amount := (available.map Milestone.coins).sum
    let claimed := { inviter with
      claimedMilestones := inviter.claimedMilestones ++ available.map Milestone.invites }
    let user := s.userOf d userId
    saving (((s.setInviter userId claimed).setUser userId
        { user with coins := user.coins + amount }).recordActivity d "invite"
        ("Invite rewards claimed: +" ++ toString amount ++ " coins."))
      (.claimed amount available (user.coins + amount) claimed)

def warningsFor (userId : Key) : Outcome (List Warning) :=
  unsaved s ((s.warnings.get userId).getD [])

def addWarning (userId moderatorId : Key) (reason : String) : Outcome Warning :=
  let warning := ⟨d.id, userId, moderatorId, reason, d.now⟩
  saving ({ s with
      warnings := s.warnings.set userId
        ((s.warnings.get userId).getD [] ++ [warning]) }.recordActivity d
      "moderation" "A staff warning was recorded.")
    warning

def clearWarnings (userId : Key) : Outcome ℕ :=
  let count := ((s.warnings.get userId).getD []).length
  saving ({ s with warnings := s.warnings.set userId [] }.recordActivity d "moderation"
      (toString count ++ " warning record(s) cleared."))
    count

def isOpenFor (userId : Key) (ticket : Ticket) : Bool :=
  ticket.userId = userId && ticket.status = .opened

def openTicket (userId : Key) : Option Ticket :=
  (s.tickets.entries.map Prod.snd).find? (isOpenFor userId)

def openTicketForUser (userId : Key) : Outcome (Option Ticket) := unsaved s (openTicket s userId)

structure Created where
  created : Bool
  ticket : Ticket
  deriving DecidableEq

def newTicket (userId : Key) (channelId : String) : Ticket :=
  ⟨d.id, userId, channelId, .opened, d.now, none, none, none, none⟩

def createTicket (userId : Key) (channelId : String) : Outcome Created :=
  match openTicket s userId with
  | some existing => unsaved s ⟨false, existing⟩
  | none =>
      let ticket := newTicket d userId channelId
      saving ({ s with tickets := s.tickets.set d.id ticket }.recordActivity d "ticket"
        "A new support ticket was opened.") ⟨true, ticket⟩

structure Archive where
  transcriptFile : Option String
  messageCount : Option ℤ

def closedTicket (ticket : Ticket) (closedBy : Key) (archive : Archive) : Ticket :=
  { ticket with
    status := .closed, closedAt := some d.now, closedBy := some closedBy
    transcriptFile := archive.transcriptFile.filter (· ≠ "")
    messageCount := some ((safeInteger archive.messageCount).getD 0) }

def closeTicket (ticketId closedBy : Key) (archive : Archive) : Outcome (Option Ticket) :=
  match (s.tickets.get ticketId).filter (fun ticket => ticket.status = .opened) with
  | none => unsaved s none
  | some ticket =>
      let closed := closedTicket d ticket closedBy archive
      saving ({ s with
          tickets := s.tickets.set ticketId closed
          stats := { s.stats with
            ticketsClosed := s.stats.ticketsClosed + 1 } }.recordActivity d
          "ticket" "A support ticket was closed.")
        (some closed)

def newFiled (id userId : Key) (content : List (String × String)) : Filed :=
  ⟨id, userId, content, .pending, d.now, none, none⟩

def createApplication (userId : Key) (answers : List (String × String)) : Outcome Filed :=
  let application := newFiled d d.id userId answers
  saving ({ s with applications := s.applications.set d.id application }.recordActivity d
    "application" "A staff application is awaiting review.") application

/-- What a request says may replace the id and the user. -/
structure LeaveRequest where
  id : Option Key
  userId : Option Key
  content : List (String × String)

def createLeave (userId : Key) (request : LeaveRequest) : Outcome Filed :=
  let leave := newFiled d (request.id.getD d.id) (request.userId.getD userId) request.content
  saving ({ s with leaves := s.leaves.set leave.id leave }.recordActivity d
    "leave" "A staff leave request is awaiting review.") leave

def statusOf (status : String) : Option ReviewStatus :=
  if status = "approved" then some .approved
  else if status = "rejected" then some .rejected
  else none

/-- The item that a review is about, if it is pending. -/
def pendingItem (collection : InsertionMap Key Filed) (itemId : Key) : Option Filed :=
  (collection.get itemId).filter (fun item => item.status = .pending)

def reviewed (item : Filed) (status : ReviewStatus) (reviewedBy : Key) : Filed :=
  { item with status := status, reviewedAt := some d.now, reviewedBy := some reviewedBy }

/-- No other collection of the state has items that are pending. -/
def review (collectionName : String) (itemId : Key) (status : String) (reviewedBy : Key) :
    Outcome (Option Filed) :=
  if collectionName = "applications" then
    match pendingItem s.applications itemId, statusOf status with
    | some item, some verdict =>
        let item := reviewed d item verdict reviewedBy
        saving ({ s with
            applications := s.applications.set itemId item
            stats := { s.stats with
              applicationsReviewed := s.stats.applicationsReviewed + 1 } }.recordActivity d
            collectionName ("Application " ++ status ++ "."))
          (some item)
    | _, _ => unsaved s none
  else if collectionName = "leaves" then
    match pendingItem s.leaves itemId, statusOf status with
    | some item, some verdict =>
        let item := reviewed d item verdict reviewedBy
        saving ({ s with
            leaves := s.leaves.set itemId item
            stats := { s.stats with
              leavesReviewed := s.stats.leavesReviewed + 1 } }.recordActivity d
            collectionName ("Leave " ++ status ++ "."))
          (some item)
    | _, _ => unsaved s none
  else unsaved s none

def newDrop (createdBy : Key) (prize channelId : String) (messageId : Option String) : Drop :=
  ⟨d.id, createdBy, prize, channelId, messageId, .opened, none, d.now, none⟩

def createDrop (createdBy : Key) (prize channelId : String) (messageId : Option String) :
    Outcome Drop :=
  let drop := newDrop d createdBy prize channelId messageId
  saving ({ s with drops := s.drops.set d.id drop }.recordActivity d
    "drop" ("A new reward drop opened: " ++ prize)) drop

def setDropMessage (dropId : Key) (messageId : Option String) : Outcome (Option Drop) :=
  match s.drops.get dropId with
  | none => unsaved s none
  | some drop =>
      let drop := { drop with messageId := messageId }
      saving { s with drops := s.drops.set dropId drop } (some drop)

def claimedDrop (drop : Drop) (winnerId : Key) : Drop :=
  { drop with status := .claimed, winnerId := some winnerId, claimedAt := some d.now }

def claimDrop (dropId winnerId : Key) (coinReward : Option ℤ) : Outcome (Option Drop) :=
  match (s.drops.get dropId).filter (fun drop => drop.status = .opened) with
  | none => unsaved s none
  | some drop =>
      let claimed := claimedDrop d drop winnerId
      let user := s.userOf d winnerId
      saving (({ s with
          drops := s.drops.set dropId claimed
          stats := { s.stats with
            dropsClaimed := s.stats.dropsClaimed + 1 } }.setUser winnerId
          { user with coins := user.coins + coinReward.getD 250 }).recordActivity d "drop"
          ("A reward drop was claimed (+" ++ toString (coinReward.getD 250) ++ " coins)."))
        (some claimed)

def recordSystemError : Outcome Unit :=
  saving { s with stats := { s.stats with systemErrors := s.stats.systemErrors + 1 } } ()

structure Snapshot where
  ticketsOpen : ℕ
  ticketsClosed : ℤ
  applicationsPending : ℕ
  applicationsReviewed : ℤ
  leavesPending : ℕ
  leavesReviewed : ℤ
  economyUsers : ℕ
  dropsClaimed : ℤ
  counting : Counting
  creditedInvites : ℤ
  systemErrors : ℤ
  activity : List Activity
  deriving DecidableEq

def snapshot : Outcome Snapshot := unsaved s
  { ticketsOpen := s.tickets.entries.countP fun e => e.2.status = .opened
    ticketsClosed := s.stats.ticketsClosed
    applicationsPending := s.applications.entries.countP fun e => e.2.status = .pending
    applicationsReviewed := s.stats.applicationsReviewed
    leavesPending := s.leaves.entries.countP fun e => e.2.status = .pending
    leavesReviewed := s.stats.leavesReviewed
    economyUsers := s.users.size
    dropsClaimed := s.stats.dropsClaimed
    counting := s.counting
    creditedInvites := (s.inviters.entries.map fun e => e.2.credited).sum
    systemErrors := s.stats.systemErrors
    activity := s.activity.take 12 }

end Operations

inductive Operation where
  | user (userId : Key)
  | balance (userId : Key)
  | addCoins (userId : Key) (amount : Option ℤ) (reason : Option String)
  | claimDaily (userId : Key) (options : Pace)
  | leaderboard (limit : Option ℤ)
  | awardMessageXp (userId : Key) (options : Pace)
  | submitCount (userId : Key) (value : Option ℤ)
  | recordInvite (inviterId : Option Key) (memberId : Key) (details : InviteDetails)
  | inviter (userId : Key)
  | inviteStats (userId : Key)
  | claimInviteRewards (userId : Key) (milestones : List Milestone)
  | addWarning (userId moderatorId : Key) (reason : String)
  | warningsFor (userId : Key)
  | clearWarnings (userId : Key)
  | openTicketForUser (userId : Key)
  | createTicket (userId : Key) (channelId : String)
  | closeTicket (ticketId closedBy : Key) (archive : Archive)
  | createApplication (userId : Key) (answers : List (String × String))
  | createLeave (userId : Key) (request : LeaveRequest)
  | review (collectionName : String) (itemId : Key) (status : String) (reviewedBy : Key)
  | createDrop (createdBy : Key) (prize channelId : String) (messageId : Option String)
  | setDropMessage (dropId : Key) (messageId : Option String)
  | claimDrop (dropId winnerId : Key) (coinReward : Option ℤ)
  | recordActivity (type text : String)
  | recordSystemError
  | snapshot

inductive Answer where
  | user (record : User)
  | balance (record : Balance)
  | coins (result : Except String ℤ)
  | daily (result : Daily)
  | ranking (users : List Ranked)
  | award (result : Award)
  | count (result : Count)
  | invited (result : Invited)
  | inviter (record : Inviter)
  | rewards (result : Rewards)
  | warning (record : Warning)
  | warnings (records : List Warning)
  | cleared (count : ℕ)
  | ticket (record : Option Ticket)
  | created (result : Created)
  | filed (record : Option Filed)
  | drop (record : Option Drop)
  | snapshot (view : Snapshot)
  | nothing

def perform (s : State) (d : Draws) : Operation → Outcome Answer
  | .user userId => (user s d userId).map .user
  | .balance userId => (balance s d userId).map .balance
  | .addCoins userId amount reason => (addCoins s d userId amount reason).map .coins
  | .claimDaily userId options => (claimDaily s d userId options).map .daily
  | .leaderboard limit => (leaderboard s limit).map .ranking
  | .awardMessageXp userId options => (awardMessageXp s d userId options).map .award
  | .submitCount userId value => (submitCount s d userId value).map .count
  | .recordInvite inviterId memberId details =>
      (recordInvite s d inviterId memberId details).map .invited
  | .inviter userId => (inviter s userId).map .inviter
  | .inviteStats userId => (inviteStats s userId).map .inviter
  | .claimInviteRewards userId milestones => (claimInviteRewards s d userId milestones).map .rewards
  | .addWarning userId moderatorId reason => (addWarning s d userId moderatorId reason).map .warning
  | .warningsFor userId => (warningsFor s userId).map .warnings
  | .clearWarnings userId => (clearWarnings s d userId).map .cleared
  | .openTicketForUser userId => (openTicketForUser s userId).map .ticket
  | .createTicket userId channelId => (createTicket s d userId channelId).map .created
  | .closeTicket ticketId closedBy archive =>
      (closeTicket s d ticketId closedBy archive).map .ticket
  | .createApplication userId answers =>
      (createApplication s d userId answers).map fun item => .filed (some item)
  | .createLeave userId request =>
      (createLeave s d userId request).map fun item => .filed (some item)
  | .review collectionName itemId status reviewedBy =>
      (review s d collectionName itemId status reviewedBy).map .filed
  | .createDrop createdBy prize channelId messageId =>
      (createDrop s d createdBy prize channelId messageId).map fun drop => .drop (some drop)
  | .setDropMessage dropId messageId => (setDropMessage s dropId messageId).map .drop
  | .claimDrop dropId winnerId coinReward => (claimDrop s d dropId winnerId coinReward).map .drop
  | .recordActivity type text => unsaved (s.recordActivity d type text) .nothing
  | .recordSystemError => (recordSystemError s).map fun _ => .nothing
  | .snapshot => (snapshot s).map .snapshot

/-- The state in memory and the one in the file. -/
structure Store where
  memory : State
  disk : State

/-- A call, with what it draws and whether a save of it works. -/
structure Event where
  operation : Operation
  draws : Draws
  saves : Bool

/-- Where `save` throws, the memory stays as it was handed to it and the file as it was before. -/
def Store.call (store : Store) (e : Event) : Store :=
  let outcome := perform store.memory e.draws e.operation
  match outcome.saved with
  | none => ⟨outcome.memory, store.disk⟩
  | some state => if e.saves then ⟨outcome.memory, state⟩ else ⟨state, store.disk⟩

end LuaRecovery.Community
