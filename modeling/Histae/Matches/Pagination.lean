import Histae.Matches.Listing
import Histae.Matches.Lifecycle

/-!
# Exact pagination

On a fixed snapshot, following the cursors of the match list or of the
messages of a match visits every visible row once, newest first.
-/

namespace Histae.Matches

open Relational Paging

section Keys

variable {db : Db} {userId : Uuid} {statement : ℤ} {cursor : Option PageCursor}

/-- The participants of a stored match are two users in order. -/
def OrderedPairs (db : Db) : Prop := ∀ m ∈ db.matchInit, m.user1Id < m.user2Id

theorem firstBranch_eq_filter : firstBranch db userId statement cursor =
    (firstBranch db userId statement none).filter fun row ↦ isAfter cursor row.1.cursor := by
  simp only [firstBranch, Table.select, List.filter_map, List.filter_filter]
  congr 1
  exact List.filter_congr fun m _ ↦ by simp [isAfter, Bool.and_comm]

theorem secondBranch_eq_filter : secondBranch db userId statement cursor =
    (secondBranch db userId statement none).filter fun row ↦ isAfter cursor row.1.cursor := by
  simp only [secondBranch, Table.select, List.filter_map, List.filter_filter]
  congr 1
  exact List.filter_congr fun m _ ↦ by simp [isAfter, Bool.and_comm]

theorem branches_eq_filter :
    firstBranch db userId statement cursor ++ secondBranch db userId statement cursor =
      (visibleRows db userId statement).filter fun row ↦ isAfter cursor row.1.cursor := by
  rw [visibleRows, List.filter_append, ← firstBranch_eq_filter, ← secondBranch_eq_filter]

theorem nodup_visibleRows (h : OrderedPairs db) :
    ((visibleRows db userId statement).map rowKey).Nodup := by
  have hids : ((visibleRows db userId statement).map fun row ↦ row.1.id).Nodup := by
    rw [visibleRows, List.map_append]
    refine List.nodup_append.mpr ⟨?_, ?_, ?_⟩
    · rw [firstBranch, List.map_map]
      exact db.matchInit.nodup.sublist (List.filter_sublist.map _)
    · rw [secondBranch, List.map_map]
      exact db.matchInit.nodup.sublist (List.filter_sublist.map _)
    · intro id hfirst id' hsecond heq
      obtain ⟨row, hrow, rfl⟩ := List.mem_map.mp hfirst
      obtain ⟨row', hrow', rfl⟩ := List.mem_map.mp hsecond
      obtain ⟨⟨hm, huser, _⟩, _⟩ := mem_firstBranch.mp hrow
      obtain ⟨⟨hm', huser', _⟩, _⟩ := mem_secondBranch.mp hrow'
      have hlt := h row.1 hm
      rw [← Table.eq_of_key_eq hm hm' heq] at huser'
      rw [huser, huser'] at hlt
      exact BitVec.lt_irrefl _ hlt
  refine List.Nodup.of_map (fun k ↦ (ofLex k).2) ?_
  rw [List.map_map]
  have htoNat : ((visibleRows db userId statement).map fun row ↦ row.1.id.toNat).Nodup := by
    have hmap := hids.map (f := BitVec.toNat) fun _ _ heq ↦ BitVec.eq_of_toNat_eq heq
    rwa [List.map_map] at hmap
  exact htoNat

/-- The two limited branches of the statement lose nothing: a page is cut from
the sorted union. -/
theorem page_eq (h : OrderedPairs db) (limit offset : ℕ) :
    page db userId statement cursor limit offset =
      ((newestFirst rowKey ((visibleRows db userId statement).filter fun row ↦
        isAfter cursor row.1.cursor)).drop offset).take limit := by
  have hkeys : ((firstBranch db userId statement cursor ++
      secondBranch db userId statement cursor).map rowKey).Nodup := by
    rw [branches_eq_filter]
    exact (nodup_visibleRows h).sublist (List.filter_sublist.map _)
  have hcut (l : List (MatchRecord × Uuid)) :
      (l.drop offset).take limit = (l.take (limit + offset)).drop offset := by
    rw [List.drop_take, Nat.add_sub_cancel]
  rw [page, hcut, take_newestFirst_append hkeys, ← hcut, branches_eq_filter]

end Keys

section Requests

variable {codec : CursorCodec} {α : Type}

/-- The text of the cursor to a row. -/
def cursorText (codec : CursorCodec) (c : PageCursor) : List Char :=
  ((encodeCursor codec (cursorAt c.at_) c.id).toOption).getD []

theorem encodeCursor_eq (h : codec.Lawful) {c : PageCursor} (hrow : Addressable c.at_ c.id) :
    encodeCursor codec (cursorAt c.at_) c.id = .ok (cursorText codec c) ∧
      decodeCursor codec (some (cursorText codec c)) = .ok (some c) := by
  obtain ⟨text, hencode, hdecode⟩ := decodeCursor_encodeCursor h hrow
  have htext : cursorText codec c = text := by
    rw [cursorText, hencode]
    rfl
  rw [htext]
  exact ⟨hencode, hdecode⟩

theorem decodeCursor_last (h : codec.Lawful) {cursor : α → PageCursor} {done : List α}
    (hrows : ∀ row ∈ done, Addressable (cursor row).at_ (cursor row).id) :
    decodeCursor codec (done.getLast?.map fun row ↦ cursorText codec (cursor row)) =
      .ok (done.getLast?.map cursor) := by
  cases hlast : done.getLast? with
  | none => rfl
  | some row => exact (encodeCursor_eq h (hrows row (List.mem_of_getLast? hlast))).2

/-- The look-ahead row tells whether a cursor is returned. -/
theorem nextCursor_eq (h : codec.Lawful) {limit : ℕ} (hlimit : 0 < limit)
    {cursor : α → PageCursor} {rest : List α}
    (hrows : ∀ row ∈ rest, Addressable (cursor row).at_ (cursor row).id) :
    nextCursor codec limit (fun row ↦ cursorAt (cursor row).at_) (fun row ↦ (cursor row).id)
        (rest.take (limit + 1)) =
      .ok (if limit < rest.length then
        (rest[limit - 1]?).map (fun row ↦ cursorText codec (cursor row)) else none) := by
  by_cases hmore : limit < rest.length
  · have hindex : limit - 1 < rest.length := by omega
    have hlength : limit < (rest.take (limit + 1)).length := by
      rw [List.length_take]
      omega
    have hget : (rest.take (limit + 1))[limit - 1]? = some rest[limit - 1] := by
      rw [List.getElem?_take_of_lt (by omega), List.getElem?_eq_getElem hindex]
    have hencode := (encodeCursor_eq h (hrows _ (List.getElem_mem hindex))).1
    simp only [nextCursor, hlength, if_true, hget, hmore, List.getElem?_eq_getElem hindex,
      Option.map_some]
    rw [hencode]
    rfl
  · have hlength : ¬ limit < (rest.take (limit + 1)).length := by
      rw [List.length_take]
      omega
    simp only [nextCursor, hlength, hmore, if_false]

theorem nextCursor_map {β : Type} {limit : ℕ} {at_ : β → List Char} {id : β → Uuid} (f : α → β)
    (rows : List α) : nextCursor codec limit at_ id (rows.map f) =
      nextCursor codec limit (fun row ↦ at_ (f row)) (fun row ↦ id (f row)) rows := by
  simp only [nextCursor, List.length_map, List.getElem?_map]
  cases rows[limit - 1]? <;> rfl

end Requests

section Matches

variable {codec : CursorCodec} {urlForKey : Option String → Option (Option String)}
  {profiles : Uuid → Option Profile} {db : Db} {userId : Uuid} {t : ℤ} {limit n : ℕ}

/-- The public form of a visible row. -/
def shownRow (urlForKey : Option String → Option (Option String))
    (profiles : Uuid → Option Profile) (db : Db) (userId : Uuid) (statement now : ℤ)
    (row : MatchRecord × Uuid) : PublicUserMatch :=
  let joined := userMatchRow db userId statement row ((profiles row.2).getD default)
  { joined with record := joined.record.projectedAt now }.intoPublic
    ((urlForKey joined.otherPhoto).getD none) now

theorem mapM_eq_ok_map {α β ε : Type} {f : α → Except ε β} {g : α → β} {xs : List α}
    (h : ∀ x ∈ xs, f x = .ok (g x)) : xs.mapM f = .ok (xs.map g) := by
  induction xs with
  | nil => rfl
  | cons x xs ih =>
      rw [List.mapM_cons, h x List.mem_cons_self,
        ih fun y hy ↦ h y (List.mem_cons_of_mem x hy)]
      rfl

/-- Every user who may be listed has a profile, and the storage signs photos. -/
structure Renderable (urlForKey : Option String → Option (Option String))
    (profiles : Uuid → Option Profile) (db : Db) : Prop where
  profile : ∀ user, (db.accounts.find? user).any (fun a ↦ a.deletedAt.isNone) = true →
    (profiles user).isSome
  photo : ∀ key, (urlForKey key).isSome

theorem joinRow_eq (h : Renderable urlForKey profiles db) {row : MatchRecord × Uuid}
    (hrow : row ∈ visibleRows db userId t) : joinRow db profiles userId t row =
      some (userMatchRow db userId t row ((profiles row.2).getD default)) := by
  have hlisted : isListed db userId t row.2 row.1 = true := by
    rw [visibleRows, List.mem_append, mem_firstBranch, mem_secondBranch] at hrow
    rcases hrow with ⟨_, hlisted, _⟩ | ⟨_, hlisted, _⟩ <;> exact hlisted
  have haccount : (db.accounts.find? row.2).any (fun a ↦ a.deletedAt.isNone) = true := by
    simp only [isListed, Bool.and_eq_true] at hlisted
    exact hlisted.1.2
  obtain ⟨profile, hprofile⟩ := Option.isSome_iff_exists.mp (h.profile row.2 haccount)
  simp [joinRow, hprofile]

/-- The statement returns the rows of the list below the cursor. -/
theorem listForUser_eq (h : Renderable urlForKey profiles db) (hpairs : OrderedPairs db)
    {done rest : List (MatchRecord × Uuid)}
    (hall : newestFirst rowKey (visibleRows db userId t) = done ++ rest) :
    listForUser db profiles userId t (done.getLast?.map fun row ↦ row.1.cursor) n 0 =
      (rest.take n).map fun row ↦
        userMatchRow db userId t row ((profiles row.2).getD default) := by
  have hkeys := (nodup_visibleRows hpairs : ((visibleRows db userId t).map rowKey).Nodup)
  have hstrict := pairwise_newestFirst hkeys
  have hafter : ∀ row : MatchRecord × Uuid,
      isAfter (done.getLast?.map fun row ↦ row.1.cursor) row.1.cursor =
        (done.getLast?.map rowKey).all fun last ↦ rowKey row < last := by
    intro row
    cases done.getLast? <;> rfl
  have hpage : page db userId t (done.getLast?.map fun row ↦ row.1.cursor) n 0 =
      rest.take n := by
    rw [page_eq hpairs, List.drop_zero, newestFirst_filter hkeys]
    simp only [hafter]
    rw [filter_below_last hstrict hall]
  have hvisible : ∀ row ∈ rest.take n, row ∈ visibleRows db userId t := by
    intro row hrow
    have hmem : row ∈ done ++ rest := List.mem_append_right _ (List.mem_of_mem_take hrow)
    rw [← hall] at hmem
    exact mem_newestFirst.mp hmem
  have hjoined : (rest.take n).filterMap (joinRow db profiles userId t) =
      (rest.take n).map fun row ↦
        userMatchRow db userId t row ((profiles row.2).getD default) := by
    rw [← List.filterMap_eq_map]
    exact List.filterMap_congr fun row hrow ↦ joinRow_eq h (hvisible row hrow)
  rw [listForUser, hpage, hjoined]
  apply newestFirst_idem
  rw [List.pairwise_map]
  rw [hall] at hstrict
  exact (hstrict.sublist (List.sublist_append_right done rest)).sublist (List.take_sublist n rest)

theorem serves_list (hcodec : codec.Lawful) (h : Renderable urlForKey profiles db)
    (hpairs : OrderedPairs db) (huser : userId ≠ 0) (hlimit : 1 ≤ limit ∧ limit ≤ 100)
    (hrows : ∀ row ∈ visibleRows db userId t, Addressable row.1.activityAt row.1.id) :
    Serves (fun raw ↦ list codec urlForKey profiles db userId limit 0 raw t t) limit
      (fun row ↦ cursorText codec row.1.cursor) (shownRow urlForKey profiles db userId t t)
      (newestFirst rowKey (visibleRows db userId t)) := by
  intro done rest hall
  have hmem : ∀ row ∈ done ++ rest, Addressable row.1.cursor.at_ row.1.cursor.id := by
    intro row hrow
    rw [← hall] at hrow
    exact hrows row (mem_newestFirst.mp hrow)
  have hvalid : (userId = 0 || !(1 ≤ limit && limit ≤ 100) ||
      (((done.getLast?.map fun row ↦ cursorText codec row.1.cursor).any fun text ↦
        !text.isEmpty) && (0 : ℕ) ≠ 0)) = false := by
    simp only [hlimit, decide_true, Bool.and_self, Bool.not_true, Bool.or_false, ne_eq,
      not_true_eq_false, decide_false, Bool.and_false, decide_eq_false_iff_not]
    exact huser
  have hdecode := decodeCursor_last hcodec fun row hrow ↦ hmem row (List.mem_append_left _ hrow)
  have hlist := listForUser_eq (n := limit + 1) h hpairs hall
  have hnext := nextCursor_eq hcodec hlimit.1 fun row hrow ↦ hmem row (List.mem_append_right _ hrow)
  have hitems : (((rest.take (limit + 1)).map fun row ↦
      userMatchRow db userId t row ((profiles row.2).getD default)).take limit).mapM
        (publicRow urlForKey t) =
      .ok ((rest.take limit).map (shownRow urlForKey profiles db userId t t)) := by
    rw [← List.map_take, List.take_take, Nat.min_eq_left (Nat.le_succ limit), List.mapM_map]
    refine mapM_eq_ok_map fun row _ ↦ ?_
    obtain ⟨photo, hphoto⟩ := Option.isSome_iff_exists.mp (h.photo
      (userMatchRow db userId t row ((profiles row.2).getD default)).otherPhoto)
    simp [publicRow, shownRow, hphoto]
  dsimp only
  unfold list
  rw [hvalid, if_neg Bool.false_ne_true, hdecode]
  simp only [bind, Except.bind, hlist]
  have hrowNext : nextCursor codec limit (fun row ↦ row.cursorAt) (fun row ↦ row.record.id)
      ((rest.take (limit + 1)).map fun row ↦
        userMatchRow db userId t row ((profiles row.2).getD default)) = _ :=
    (nextCursor_map _ _).trans hnext
  simp only [hrowNext, hitems]
  rfl

end Matches

section Messages

variable {codec : CursorCodec} {db : Db} {matchId userId : Uuid} {t : ℤ} {limit : ℕ}

/-- The messages of a match, newest first. -/
def messagesOf (db : Db) (matchId : Uuid) : List MessageRecord :=
  newestFirst (fun x ↦ x.cursor.key) (db.messages.select fun x ↦ x.matchId = matchId)

theorem nodup_messages (db : Db) (matchId : Uuid) :
    ((db.messages.select fun x ↦ x.matchId = matchId).map fun x ↦ x.cursor.key).Nodup := by
  have hids : ((db.messages.select fun x ↦ x.matchId = matchId).map MessageRecord.id).Nodup :=
    db.messages.nodup.sublist (List.filter_sublist.map _)
  refine List.Nodup.of_map (fun k ↦ (ofLex k).2) ?_
  have hmap := hids.map (f := BitVec.toNat) fun _ _ heq ↦ BitVec.eq_of_toNat_eq heq
  rw [List.map_map] at hmap ⊢
  exact hmap

theorem messagesForUser_eq {done rest : List MessageRecord} {n : ℕ}
    (hall : messagesOf db matchId = done ++ rest) :
    messagesForUser db matchId (done.getLast?.map MessageRecord.cursor) n 0 = rest.take n := by
  have hkeys := nodup_messages db matchId
  have hafter : ∀ x : MessageRecord, isAfter (done.getLast?.map MessageRecord.cursor) x.cursor =
      (done.getLast?.map fun x ↦ x.cursor.key).all fun last ↦ x.cursor.key < last := by
    intro x
    cases done.getLast? <;> rfl
  have hfilter : (db.messages.select fun x ↦
      x.matchId = matchId && isAfter (done.getLast?.map MessageRecord.cursor) x.cursor) =
      (db.messages.select fun x ↦ x.matchId = matchId).filter fun x ↦
        isAfter (done.getLast?.map MessageRecord.cursor) x.cursor := by
    rw [Table.select, Table.select, List.filter_filter]
    exact List.filter_congr fun x _ ↦ Bool.and_comm _ _
  rw [messagesForUser, List.drop_zero, hfilter, newestFirst_filter hkeys]
  simp only [hafter]
  rw [filter_below_last (pairwise_newestFirst hkeys) hall]

theorem LockOutcome.messages {db' : Db} {now : ℤ} {result : MatchCommandResult MatchRecord}
    (h : LockOutcome db matchId userId now result db') : db'.messages = db.messages := by
  cases h <;> rfl

theorem serves_messages (hcodec : codec.Lawful) (hlimit : 1 ≤ limit ∧ limit ≤ 100)
    {m : MatchRecord} {db' : Db}
    (hlock : lockAvailableMatch db matchId userId t = (.available m, db'))
    (hrows : ∀ x ∈ messagesOf db matchId, Addressable x.createdAt x.id) :
    Serves (fun raw ↦ messages codec db matchId userId limit 0 raw t) limit
      (fun x ↦ cursorText codec x.cursor) PublicMessage.ofRecord (messagesOf db matchId) := by
  intro done rest hall
  have hmem : ∀ x ∈ done ++ rest, Addressable x.cursor.at_ x.cursor.id := by
    intro x hx
    rw [← hall] at hx
    exact hrows x hx
  have hsame : db'.messages = db.messages := (LockOutcome.of_eq hlock).messages
  have hvalid : (!(1 ≤ limit && limit ≤ 100) ||
      (((done.getLast?.map fun x ↦ cursorText codec x.cursor).any fun text ↦
        !text.isEmpty) && (0 : ℕ) ≠ 0)) = false := by
    simp [hlimit]
  have hdecode := decodeCursor_last hcodec fun x hx ↦ hmem x (List.mem_append_left _ hx)
  have hlist : messagesForUser db' matchId (done.getLast?.map MessageRecord.cursor) (limit + 1) 0 =
      rest.take (limit + 1) := by
    apply messagesForUser_eq
    rw [messagesOf, hsame]
    exact hall
  have hnext := nextCursor_eq hcodec hlimit.1 fun x hx ↦ hmem x (List.mem_append_right _ hx)
  dsimp only
  unfold messages
  rw [hvalid, if_neg Bool.false_ne_true, hdecode]
  simp only [bind, Except.bind, hlock]
  rw [show messagesForUser db' matchId (done.getLast?.map fun x ↦ x.cursor) (limit + 1) 0 = _ from
    hlist, show nextCursor codec limit (fun x : MessageRecord ↦ cursorAt x.createdAt)
      (fun x ↦ x.id) (rest.take (limit + 1)) = _ from hnext]
  simp only [List.take_take, Nat.min_eq_left (Nat.le_succ limit)]
  rfl

end Messages

/-- On a snapshot whose rows can be addressed by cursors, following the
cursors of the list and of the messages visits every row once, newest first. -/
theorem pagination_exact (codec : CursorCodec) (hcodec : codec.Lawful)
    (urlForKey : Option String → Option (Option String)) (profiles : Uuid → Option Profile)
    (db : Db) (hrender : Renderable urlForKey profiles db) (hpairs : OrderedPairs db)
    (userId : Uuid) (huser : userId ≠ 0) (t : ℤ) (limit : ℕ) (hlimit : 1 ≤ limit ∧ limit ≤ 100)
    (hrows : ∀ m ∈ db.matchInit, Addressable m.activityAt m.id)
    (hmessages : ∀ x ∈ db.messages, Addressable x.createdAt x.id) :
    (∃ pages, follow (fun raw ↦ list codec urlForKey profiles db userId limit 0 raw t t)
        ((visibleRows db userId t).length + 1) none = some pages ∧
      pages.flatMap Page.items = (newestFirst rowKey (visibleRows db userId t)).map
        (shownRow urlForKey profiles db userId t t)) ∧
      (newestFirst rowKey (visibleRows db userId t)).Perm (visibleRows db userId t) ∧
      ((newestFirst rowKey (visibleRows db userId t)).Pairwise fun a b ↦ rowKey b < rowKey a) ∧
      (∀ cursor n offset, page db userId t cursor n offset =
        ((newestFirst rowKey ((visibleRows db userId t).filter fun row ↦
          isAfter cursor row.1.cursor)).drop offset).take n) ∧
      (∀ matchId m db', lockAvailableMatch db matchId userId t = (.available m, db') →
        (∃ pages, follow (fun raw ↦ messages codec db matchId userId limit 0 raw t)
            ((messagesOf db matchId).length + 1) none = some pages ∧
          pages.flatMap Page.items = (messagesOf db matchId).map PublicMessage.ofRecord) ∧
        (messagesOf db matchId).Perm (db.messages.select fun x ↦ x.matchId = matchId) ∧
        (messagesOf db matchId).Pairwise fun a b ↦ b.cursor.key < a.cursor.key) ∧
      ∀ c : PageCursor, (∃ m ∈ db.matchInit, m.cursor = c) ∨ (∃ x ∈ db.messages, x.cursor = c) →
        ∃ text, encodeCursor codec (cursorAt c.at_) c.id = .ok text ∧
          decodeCursor codec (some text) = .ok (some c) := by
  have hkeys : ((visibleRows db userId t).map rowKey).Nodup := nodup_visibleRows hpairs
  have hvisible : ∀ row ∈ visibleRows db userId t, Addressable row.1.activityAt row.1.id := by
    intro row hrow
    rw [visibleRows, List.mem_append, mem_firstBranch, mem_secondBranch] at hrow
    rcases hrow with ⟨⟨hm, _⟩, _⟩ | ⟨⟨hm, _⟩, _⟩ <;> exact hrows row.1 hm
  refine ⟨?_, perm_newestFirst _, pairwise_newestFirst hkeys, fun _ n offset ↦
    page_eq hpairs n offset, ?_, ?_⟩
  · have hserves := serves_list hcodec hrender hpairs huser hlimit hvisible
    apply hserves.follow hlimit.1
    rw [(perm_newestFirst _).length_eq]
    exact Nat.lt_succ_self _
  · intro matchId m db' hlock
    have hserves := serves_messages hcodec hlimit hlock fun x hx ↦
      hmessages x (Table.mem_select.mp (mem_newestFirst.mp hx)).1
    exact ⟨hserves.follow hlimit.1 (Nat.lt_succ_self _), perm_newestFirst _,
      pairwise_newestFirst (nodup_messages db matchId)⟩
  · rintro c (⟨m, hm, rfl⟩ | ⟨x, hx, rfl⟩)
    · exact decodeCursor_encodeCursor hcodec (hrows m hm)
    · exact decodeCursor_encodeCursor hcodec (hmessages x hx)

/-- Two matches of user 1. -/
def twoMatches (first second : Uuid) (h : [first, second].Nodup) : Db :=
  { pairDb with
    accounts := ⟨[⟨1, .user, false, none, false⟩, ⟨3, .user, false, none, false⟩,
      ⟨2, .user, false, none, false⟩], by decide⟩
    matchInit := ⟨[mutualLikeRecord first 1 2 0, mutualLikeRecord second 1 3 1], h⟩ }

theorem renderable_twoMatches {first second : Uuid} (h : [first, second].Nodup) :
    Renderable (fun key ↦ some key) (fun _ ↦ some default) (twoMatches first second h) :=
  ⟨fun _ _ ↦ rfl, fun _ ↦ rfl⟩

theorem orderedPairs_twoMatches {first second : Uuid} (h : [first, second].Nodup) :
    OrderedPairs (twoMatches first second h) := by
  intro m hm
  have hsorted : ∀ other : Uuid, (1 : Uuid) < other →
      (if (1 : Uuid) < other then 1 else other) < if (1 : Uuid) < other then other else 1 := by
    intro other hlt
    rwa [if_pos hlt, if_pos hlt]
  rcases List.mem_cons.mp hm with rfl | hm
  · exact hsorted 2 (by decide)
  · obtain rfl := List.mem_singleton.mp hm
    exact hsorted 3 (by decide)

/-- Two matches with version 4 identifiers. -/
def versionedMatches : Db := twoMatches 0x40008000000000000007 0x40008000000000000008 (by decide)

theorem pagination_exact_versionedMatches :
    (visibleRows versionedMatches 1 2).length = 2 ∧
      ∃ pages, follow (fun raw ↦ list standardCodec (fun key ↦ some key) (fun _ ↦ some default)
          versionedMatches 1 1 0 raw 2 2) ((visibleRows versionedMatches 1 2).length + 1) none =
            some pages ∧
        pages.flatMap Page.items = (newestFirst rowKey (visibleRows versionedMatches 1 2)).map
          (shownRow (fun key ↦ some key) (fun _ ↦ some default) versionedMatches 1 2 2) := by
  have hrows : ∀ m ∈ versionedMatches.matchInit, Addressable m.activityAt m.id := by
    intro m hm
    rcases List.mem_cons.mp hm with rfl | hm
    · exact ⟨by decide, by decide, by decide⟩
    · obtain rfl := List.mem_singleton.mp hm
      exact ⟨by decide, by decide, by decide⟩
  exact ⟨by decide +kernel, (pagination_exact standardCodec standardCodec_lawful _ _
    versionedMatches (renderable_twoMatches _) (orderedPairs_twoMatches _) 1 (by decide) 2 1
    (by decide) hrows nofun).1⟩

/-- Two matches whose identifiers carry no version. -/
def unversionedMatches : Db := twoMatches 7 8 (by decide)

def fetchUnversioned (raw : Option (List Char)) :
    Except MatchError (Page (List Char) PublicUserMatch) :=
  list standardCodec (fun key ↦ some key) (fun _ ↦ some default) unversionedMatches 1 1 0 raw 2 2

/-- An identifier without a version is refused in a cursor, so the second
page is never served. -/
theorem unversioned_id_stops_pagination :
    ¬ ∀ (codec : CursorCodec), codec.Lawful →
      ∀ (urlForKey : Option String → Option (Option String)) (profiles : Uuid → Option Profile)
        (db : Db), Renderable urlForKey profiles db → OrderedPairs db →
      ∀ (userId : Uuid), userId ≠ 0 → ∀ (t : ℤ) (limit : ℕ), 1 ≤ limit ∧ limit ≤ 100 →
        ∃ fuel pages, follow (fun raw ↦ list codec urlForKey profiles db userId limit 0 raw t t)
          fuel none = some pages := by
  intro hclaim
  obtain ⟨fuel, pages, hpages⟩ := hclaim standardCodec standardCodec_lawful _ _
    unversionedMatches (renderable_twoMatches _) (orderedPairs_twoMatches _) 1 (by decide) 2 1
    (by decide)
  have hrefused : ((fetchUnversioned none).toOption.bind Page.nextCursor).map
      (fun next ↦ (fetchUnversioned (some next)).isOk) = some false := by decide +kernel
  cases hfirst : fetchUnversioned none with
  | error error =>
      rw [hfirst] at hrefused
      cases hrefused
  | ok answer =>
      rw [hfirst] at hrefused
      obtain ⟨next, hnext, hfalse⟩ := Option.map_eq_some_iff.mp hrefused
      cases hsecond : fetchUnversioned (some next) with
      | ok second =>
          rw [hsecond] at hfalse
          cases hfalse
      | error error =>
          have hnone : follow fetchUnversioned fuel none = none :=
            follow_eq_none_of_error hfirst hnext hsecond fuel
          exact Option.some_ne_none pages (hpages.symm.trans hnone)

end Histae.Matches
