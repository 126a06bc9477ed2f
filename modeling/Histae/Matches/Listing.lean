import Histae.Matches.Cursor
import Histae.Matches.Messages
import Histae.Paging.Keyset

/-!
# The match list and the message list

`MatchService::list` and `MatchService::messages` with the statements they
run. A profile stands for everything the list joins about the other user; the
photo storage that signs photo addresses is a parameter.
-/

namespace Histae.Matches

open Relational Paging

def matchArchiveDays : ℤ := 10

def MatchRecord.isArchivedAt (m : MatchRecord) (now : ℤ) : Bool :=
  m.status = .confirmed && now < m.expiresAt &&
    m.expiresAt ≤ now + days (matchInactivityDays - matchArchiveDays)

/-- `COALESCE(last_message_at, created_at)`. -/
def MatchRecord.activityAt (m : MatchRecord) : ℤ := m.lastMessageAt.getD m.createdAt

/-- Row values are compared by time, then by identifier. -/
def PageCursor.key (c : PageCursor) : ℤ ×ₗ ℕ := toLex (c.at_, c.id.toNat)

def MatchRecord.cursor (m : MatchRecord) : PageCursor := ⟨m.activityAt, m.id⟩

def MessageRecord.cursor (message : MessageRecord) : PageCursor := ⟨message.createdAt, message.id⟩

/-- What the list shows of the other user; the photo is the key of a ready,
approved photo, and a column of its own in the list. -/
structure Profile where
  firstname : String
  age : ℤ
  sex : Option String
  bio : Option String
  photo : Option String
  traits : List String
  profileAnswers : List String
  deriving DecidableEq, Inhabited

structure UserMatchRow where
  record : MatchRecord
  cursorAt : List Char
  otherUserId : Uuid
  otherProfile : Profile
  otherPhoto : Option String
  myRevealed : Bool
  photosRevealed : Bool
  myContinued : Bool
  unreadCount : ℕ
  lastMessage : Option MessageRecord
  deriving DecidableEq

/-- The wire format of an instant keeps milliseconds. -/
def wireTimestamp (at_ : ℤ) : ℤ := at_ / 1000

structure PublicLastMessage where
  id : Uuid
  senderId : Uuid
  content : String
  createdAt : ℤ
  readAt : Option ℤ
  deriving DecidableEq

structure PublicUserMatch where
  id : Uuid
  status : MatchStatus
  archived : Bool
  inactivityExpiresAt : Option ℤ
  expiresAt : ℤ
  purgeAfter : Option ℤ
  createdAt : ℤ
  lastMessageAt : Option ℤ
  otherUserId : Uuid
  otherProfile : Profile
  photo : Option String
  myRevealed : Bool
  photosRevealed : Bool
  myContinued : Bool
  unreadCount : ℕ
  lastMessage : Option PublicLastMessage
  deriving DecidableEq

structure PublicMessage where
  id : Uuid
  matchId : Uuid
  senderId : Uuid
  content : String
  createdAt : ℤ
  readAt : Option ℤ
  deriving DecidableEq

def PublicMessage.ofRecord (m : MessageRecord) : PublicMessage :=
  ⟨m.id, m.matchId, m.senderId, m.content, wireTimestamp m.createdAt, m.readAt.map wireTimestamp⟩

def UserMatchRow.intoPublic (row : UserMatchRow) (photo : Option String) (now : ℤ) :
    PublicUserMatch where
  id := row.record.id
  status := row.record.status
  archived := row.record.isArchivedAt now
  inactivityExpiresAt :=
    if row.record.status = .confirmed then some (wireTimestamp row.record.expiresAt) else none
  expiresAt := wireTimestamp row.record.expiresAt
  purgeAfter := row.record.purgeAfter.map wireTimestamp
  createdAt := wireTimestamp row.record.createdAt
  lastMessageAt := row.record.lastMessageAt.map wireTimestamp
  otherUserId := row.otherUserId
  otherProfile := row.otherProfile
  photo := photo
  myRevealed := row.myRevealed
  photosRevealed := row.photosRevealed
  myContinued := row.myContinued
  unreadCount := row.unreadCount
  lastMessage := row.lastMessage.map fun message ↦
    ⟨message.id, message.senderId, message.content, wireTimestamp message.createdAt,
      message.readAt.map wireTimestamp⟩

section Statements

variable (db : Db) (profiles : Uuid → Option Profile) (userId : Uuid) (statement : ℤ)
  (cursor : Option PageCursor)

/-- The conditions that both branches of the list put on a match with
`otherId`. -/
def isListed (otherId : Uuid) (m : MatchRecord) : Bool :=
  m.status ≠ .ended && (m.status ≠ .confirmed || statement < m.expiresAt) &&
    (db.accounts.find? otherId).any (fun a ↦ a.deletedAt.isNone) && !db.blocked userId otherId

def isAfter (c : PageCursor) : Bool := cursor.all fun last ↦ c.key < last.key

def firstBranch : List (MatchRecord × Uuid) :=
  (db.matchInit.select fun m ↦ m.user1Id = userId && isListed db userId statement m.user2Id m &&
    isAfter cursor m.cursor).map fun m ↦ (m, m.user2Id)

def secondBranch : List (MatchRecord × Uuid) :=
  (db.matchInit.select fun m ↦ m.user2Id = userId && isListed db userId statement m.user1Id m &&
    isAfter cursor m.cursor).map fun m ↦ (m, m.user1Id)

/-- Every row of the list, each with the other participant. -/
def visibleRows : List (MatchRecord × Uuid) :=
  firstBranch db userId statement none ++ secondBranch db userId statement none

def rowKey (row : MatchRecord × Uuid) : ℤ ×ₗ ℕ := row.1.cursor.key

def page (limit offset : ℕ) : List (MatchRecord × Uuid) :=
  ((newestFirst rowKey
    ((newestFirst rowKey (firstBranch db userId statement cursor)).take (limit + offset) ++
      (newestFirst rowKey (secondBranch db userId statement cursor)).take (limit + offset))).drop
    offset).take limit

def revealedBy (matchId : Uuid) (user : Uuid) : Bool :=
  (db.matchState.find? (matchId, user)).any MatchState.revealed

def myContinued (m : MatchRecord) : Bool :=
  (db.matchState.find? (m.id, userId)).any MatchState.continued &&
    (m.status = .confirmed || (db.reservations.find? (m.id, userId)).any fun r ↦
      r.source ≠ .advertising || r.weekStart = startOfUtcWeek statement)

def latestMessage (matchId : Uuid) : Option MessageRecord :=
  (newestFirst (fun x ↦ x.cursor.key) (db.messages.select fun x ↦ x.matchId = matchId)).head?

def userMatchRow (row : MatchRecord × Uuid) (profile : Profile) : UserMatchRow :=
  let revealed := revealedBy db row.1.id userId && revealedBy db row.1.id row.2
  { record := row.1
    cursorAt := cursorAt row.1.activityAt
    otherUserId := row.2
    otherProfile := { profile with photo := none }
    otherPhoto := if revealed && userId ∈ db.approvedPhotos then profile.photo else none
    myRevealed := revealedBy db row.1.id userId
    photosRevealed := revealed
    myContinued := myContinued db userId statement row.1
    unreadCount := db.messages.count fun x ↦
      x.matchId = row.1.id && x.senderId ≠ userId && x.readAt.isNone
    lastMessage := latestMessage db row.1.id }

/-- The row of a match joined with the profile of the other user. -/
def joinRow (row : MatchRecord × Uuid) : Option UserMatchRow :=
  (profiles row.2).map (userMatchRow db userId statement row)

def listForUser (limit offset : ℕ) : List UserMatchRow :=
  newestFirst (fun row ↦ row.record.cursor.key)
    ((page db userId statement cursor limit offset).filterMap (joinRow db profiles userId statement))

end Statements

/-- The status and the deadline that the list shows at `now`. -/
def MatchRecord.projectedAt (now : ℤ) (m : MatchRecord) : MatchRecord :=
  let m := if m.status = .active ∧ m.expiresAt ≤ now then
      { m with
        status := .awaitingContinuation, expiresAt := m.expiresAt + hours matchWindowHours }
    else m
  if m.status = .awaitingContinuation ∧ m.expiresAt ≤ now then { m with status := .expired } else m

section Service

variable (codec : CursorCodec) (urlForKey : Option String → Option (Option String))
  (profiles : Uuid → Option Profile) (db : Db)

def publicRow (now : ℤ) (row : UserMatchRow) : Except MatchError PublicUserMatch :=
  match urlForKey row.otherPhoto with
  | none => .error .photoStorageUnavailable
  | some photo => .ok ({ row with record := row.record.projectedAt now }.intoPublic photo now)

/-- The cursor to the last row of a page that is followed by another one. -/
def nextCursor (limit : ℕ) {α : Type} (at_ : α → List Char) (id : α → Uuid) (rows : List α) :
    Except MatchError (Option (List Char)) :=
  if limit < rows.length then
    match rows[limit - 1]? with
    | none => .ok none
    | some row => (encodeCursor codec (at_ row) (id row)).map some
  else .ok none

def list (userId : Uuid) (limit offset : ℕ) (raw : Option (List Char)) (statement now : ℤ) :
    Except MatchError (Page (List Char) PublicUserMatch) :=
  if userId = 0 || !(1 ≤ limit && limit ≤ 100) ||
      ((raw.any fun text ↦ !text.isEmpty) && offset ≠ 0) then .error .invalidRequest
  else do
    let cursor ← decodeCursor codec raw
    let rows := listForUser db profiles userId statement cursor (limit + 1) offset
    let next ← nextCursor codec limit (fun row ↦ row.cursorAt) (fun row ↦ row.record.id) rows
    let items ← (rows.take limit).mapM (publicRow urlForKey now)
    return ⟨items, next⟩

def messageCommandError : MatchAvailabilityFailure → MatchError
  | .notFound => .notFound
  | .invalidState => .messagingUnavailable
  | .expired => .expired

/-- The rows of `messages_for_user`, each with the text of its cursor. -/
def messagesForUser (db : Db) (matchId : Uuid) (cursor : Option PageCursor) (limit offset : ℕ) :
    List MessageRecord :=
  ((newestFirst (fun x ↦ x.cursor.key)
    (db.messages.select fun x ↦ x.matchId = matchId && isAfter cursor x.cursor)).drop offset).take
    limit

def messages (matchId userId : Uuid) (limit offset : ℕ) (raw : Option (List Char)) (locked : ℤ) :
    Except MatchError (Page (List Char) PublicMessage) :=
  if !(1 ≤ limit && limit ≤ 100) || ((raw.any fun text ↦ !text.isEmpty) && offset ≠ 0) then
    .error .invalidMessageRequest
  else do
    let cursor ← decodeCursor codec raw
    match lockAvailableMatch db matchId userId locked with
    | (.unavailable reason, _) => .error (messageCommandError reason)
    | (.available _, db) =>
        let rows := messagesForUser db matchId cursor (limit + 1) offset
        let next ← nextCursor codec limit (fun x ↦ cursorAt x.createdAt) (fun x ↦ x.id) rows
        return ⟨(rows.take limit).map PublicMessage.ofRecord, next⟩

end Service

section Rows

variable {codec : CursorCodec} {urlForKey : Option String → Option (Option String)}
  {profiles : Uuid → Option Profile} {db : Db} {userId : Uuid} {statement now : ℤ}
  {cursor : Option PageCursor} {row : MatchRecord × Uuid}

theorem mem_firstBranch : row ∈ firstBranch db userId statement cursor ↔
    (row.1 ∈ db.matchInit ∧ row.1.user1Id = userId ∧ row.2 = row.1.user2Id) ∧
      isListed db userId statement row.2 row.1 = true ∧ isAfter cursor row.1.cursor = true := by
  obtain ⟨m, other⟩ := row
  simp only [firstBranch, List.mem_map, Table.mem_select, Bool.and_eq_true, decide_eq_true_eq,
    Prod.mk.injEq]
  constructor
  · rintro ⟨m, ⟨hm, ⟨huser, hlisted⟩, hafter⟩, rfl, rfl⟩
    exact ⟨⟨hm, huser, rfl⟩, hlisted, hafter⟩
  · rintro ⟨⟨hm, huser, rfl⟩, hlisted, hafter⟩
    exact ⟨m, ⟨hm, ⟨huser, hlisted⟩, hafter⟩, rfl, rfl⟩

theorem mem_secondBranch : row ∈ secondBranch db userId statement cursor ↔
    (row.1 ∈ db.matchInit ∧ row.1.user2Id = userId ∧ row.2 = row.1.user1Id) ∧
      isListed db userId statement row.2 row.1 = true ∧ isAfter cursor row.1.cursor = true := by
  obtain ⟨m, other⟩ := row
  simp only [secondBranch, List.mem_map, Table.mem_select, Bool.and_eq_true, decide_eq_true_eq,
    Prod.mk.injEq]
  constructor
  · rintro ⟨m, ⟨hm, ⟨huser, hlisted⟩, hafter⟩, rfl, rfl⟩
    exact ⟨⟨hm, huser, rfl⟩, hlisted, hafter⟩
  · rintro ⟨⟨hm, huser, rfl⟩, hlisted, hafter⟩
    exact ⟨m, ⟨hm, ⟨huser, hlisted⟩, hafter⟩, rfl, rfl⟩

/-- The cursor only narrows the rows of the list. -/
theorem mem_visibleRows_of_mem (h : row ∈ firstBranch db userId statement cursor ∨
    row ∈ secondBranch db userId statement cursor) : row ∈ visibleRows db userId statement := by
  rw [visibleRows, List.mem_append]
  refine h.imp (fun h ↦ ?_) fun h ↦ ?_
  · obtain ⟨hrow, hlisted, _⟩ := mem_firstBranch.mp h
    exact mem_firstBranch.mpr ⟨hrow, hlisted, rfl⟩
  · obtain ⟨hrow, hlisted, _⟩ := mem_secondBranch.mp h
    exact mem_secondBranch.mpr ⟨hrow, hlisted, rfl⟩

theorem mem_visibleRows_of_mem_page {limit offset : ℕ}
    (h : row ∈ page db userId statement cursor limit offset) :
    row ∈ visibleRows db userId statement := by
  have hsorted := List.mem_of_mem_drop (List.mem_of_mem_take h)
  rw [mem_newestFirst, List.mem_append] at hsorted
  exact mem_visibleRows_of_mem (hsorted.imp
    (fun h ↦ mem_newestFirst.mp (List.mem_of_mem_take h))
    fun h ↦ mem_newestFirst.mp (List.mem_of_mem_take h))

theorem exists_of_mapM_eq_ok {α β ε : Type} {f : α → Except ε β} {xs : List α} {ys : List β}
    (h : xs.mapM f = .ok ys) {y : β} (hy : y ∈ ys) : ∃ x ∈ xs, f x = .ok y := by
  induction xs generalizing ys with
  | nil =>
      cases h
      cases hy
  | cons x xs ih =>
      rw [List.mapM_cons] at h
      cases hx : f x with
      | error error => simp [hx, bind, Except.bind] at h
      | ok z =>
          cases hxs : xs.mapM f with
          | error error => simp [hx, hxs, bind, Except.bind] at h
          | ok zs =>
              simp only [hx, hxs, bind, Except.bind, pure, Except.pure, Except.ok.injEq] at h
              subst h
              rcases List.mem_cons.mp hy with rfl | hy
              · exact ⟨x, List.mem_cons_self, hx⟩
              · obtain ⟨a, ha, hfa⟩ := ih hxs hy
                exact ⟨a, List.mem_cons_of_mem x ha, hfa⟩

/-- Every item of a page comes from a visible row and a profile. -/
theorem publicRow_of_list {limit offset : ℕ} {raw : Option (List Char)}
    {answer : Page (List Char) PublicUserMatch} {item : PublicUserMatch}
    (h : list codec urlForKey profiles db userId limit offset raw statement now = .ok answer)
    (hitem : item ∈ answer.items) :
    ∃ row ∈ visibleRows db userId statement, ∃ profile, profiles row.2 = some profile ∧
      publicRow urlForKey now (userMatchRow db userId statement row profile) = .ok item := by
  unfold list at h
  split at h
  · cases h
  cases hcursor : decodeCursor codec raw with
  | error error => simp [hcursor, bind, Except.bind] at h
  | ok cursor =>
      simp only [hcursor, bind, Except.bind] at h
      split at h
      · cases h
      rename_i next hnext
      split at h
      · cases h
      rename_i items hitems
      obtain rfl := Except.ok.inj h
      obtain ⟨listed, hlisted, hpublic⟩ := exists_of_mapM_eq_ok hitems hitem
      have hmem := mem_newestFirst.mp (List.mem_of_mem_take hlisted)
      obtain ⟨row, hrow, hjoin⟩ := List.mem_filterMap.mp hmem
      obtain ⟨profile, hprofile, rfl⟩ := Option.map_eq_some_iff.mp hjoin
      exact ⟨row, mem_visibleRows_of_mem_page hrow, profile, hprofile, hpublic⟩

/-- Every item of a page shows a visible row as it stands at `now`. -/
theorem row_of_list {limit offset : ℕ} {raw : Option (List Char)}
    {answer : Page (List Char) PublicUserMatch} {item : PublicUserMatch}
    (h : list codec urlForKey profiles db userId limit offset raw statement now = .ok answer)
    (hitem : item ∈ answer.items) :
    ∃ row ∈ visibleRows db userId statement, item.id = row.1.id ∧
      item.status = (row.1.projectedAt now).status ∧
      item.expiresAt = wireTimestamp (row.1.projectedAt now).expiresAt := by
  obtain ⟨row, hrow, profile, _, hpublic⟩ := publicRow_of_list h hitem
  refine ⟨row, hrow, ?_⟩
  unfold publicRow at hpublic
  split at hpublic
  · cases hpublic
  · obtain rfl := Except.ok.inj hpublic
    have hid : (row.1.projectedAt now).id = row.1.id := by
      simp only [MatchRecord.projectedAt]
      split <;> split <;> rfl
    exact ⟨hid, rfl, rfl⟩

end Rows

end Histae.Matches
