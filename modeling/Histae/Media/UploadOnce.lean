import Histae.Media.UploadRuns
import Histae.Matches.Cursor

/-!
# An upload is idempotent for a day

What a retry is answered with follows from the row of its key. A photo that is
ready is named by its request until that expires, so a retry finds it; a
request that still names a discarded photo frees its key; and a request whose
photo has been deleted is spent for the rest of its day.
-/

namespace Histae.Media

open Relational Systems

section Answers

variable {codec : UploadCodec} {w : Uploads} {db : PhotoDb} {photo : ProcessingPhoto}
  {r : PhotoUploadRequest}

/-- The same file name and bytes, and the same type up to case and spaces. -/
def SameContent (codec : UploadCodec) (u v : UploadPhoto) : Prop :=
  u.filename = v.filename ∧ normalizedType codec u.mimeType = normalizedType codec v.mimeType ∧
    u.body = v.body

theorem purgeKey_eq_self (hr : r ∈ db.requests) (hkey : r.key = photo.key)
    (hcurrent : photo.createdAt < r.expiresAt) : db.purgeKey photo = db := by
  have hrows : (db.requests.delete fun s ↦
      decide (s.key = photo.key) && decide (s.expiresAt ≤ photo.createdAt)).rows = db.requests.rows := by
    refine List.filter_eq_self.mpr fun s hs ↦ ?_
    by_cases hsame : s.key = photo.key
    · obtain rfl := Table.eq_of_key_eq hs hr (hsame.trans hkey.symm)
      simp only [Bool.not_eq_true', Bool.and_eq_false_iff, decide_eq_false_iff_not]
      exact Or.inr (by omega)
    · simp [hsame]
  have htable : ∀ t : RequestTable, t.rows = db.requests.rows → t = db.requests := by
    rintro ⟨rows, hnodup⟩ rfl
    rfl
  unfold PhotoDb.purgeKey
  rw [htable _ hrows]

/-- The answer to a key whose request is stored and has not expired. -/
theorem createProcessing_retained (hlock : db.lockActiveProfile photo.userId = true)
    (hr : r ∈ db.requests) (hkey : r.key = photo.key) (hcurrent : photo.createdAt < r.expiresAt) (now : ℤ) :
    ∃ result, db.createProcessing photo now = .ok (db, result) ∧ db.existingResult photo = some result := by
  have hfound : db.requests.find? photo.key = some r := Table.find?_eq_some_iff.mpr ⟨hr, hkey⟩
  obtain ⟨result, hresult⟩ : ∃ result, db.existingResult photo = some result := by
    unfold PhotoDb.existingResult
    rw [hfound]
    exact ⟨_, rfl⟩
  refine ⟨result, ?_, hresult⟩
  unfold PhotoDb.createProcessing
  rw [hlock]
  simp only [Bool.not_true, Bool.false_eq_true, if_false]
  rw [purgeKey_eq_self hr hkey hcurrent, hresult]

theorem existingResult_conflict (hr : r ∈ db.requests) (hkey : r.key = photo.key)
    (hother : r.requestSha256 ≠ photo.requestSha256) :
    db.existingResult photo = some .idempotencyConflict := by
  have hfound : db.requests.find? photo.key = some r := Table.find?_eq_some_iff.mpr ⟨hr, hkey⟩
  unfold PhotoDb.existingResult
  rw [hfound, Option.map_some, if_pos hother]

/-- A stored request of the same content is answered by what it names. -/
theorem existingResult_same (hr : r ∈ db.requests) (hkey : r.key = photo.key)
    (hsame : r.requestSha256 = photo.requestSha256) {result : CreationResult}
    (hresult : db.existingResult photo = some result) :
    r.status = .processing ∧ result = .updateInProgress ∨
      r.status ≠ .processing ∧ (result = .idempotencyConsumed ∧
          (∀ p ∈ db.photos, r.photoId = some p.id → r.status = .completed → p.userId = photo.userId →
            p.status ≠ .ready) ∨
        ∃ p ∈ db.photos, r.photoId = some p.id ∧ r.status = .completed ∧ p.status = .ready ∧
          ∃ object, result = .replay object ∧ object.id = p.id ∧ object.userId = photo.userId ∧
            object.objectKey = p.objectKey) := by
  have hfound : db.requests.find? photo.key = some r := Table.find?_eq_some_iff.mpr ⟨hr, hkey⟩
  unfold PhotoDb.existingResult at hresult
  rw [hfound, Option.map_some, if_neg (fun hcontra ↦ hcontra hsame)] at hresult
  obtain rfl := Option.some.inj hresult
  split
  · rename_i hprocessing
    exact Or.inl ⟨hprocessing, rfl⟩
  · rename_i hprocessing
    refine Or.inr ⟨hprocessing, ?_⟩
    dsimp only
    split
    · rename_i hnone
      refine Or.inl ⟨rfl, fun p hp hid _ _ ↦ ?_⟩
      rw [hid, Option.bind_some, Table.find?_key hp] at hnone
      cases hnone
    · rename_i c hsome
      obtain ⟨id, hid, hfind⟩ := Option.bind_eq_some_iff.mp hsome
      obtain ⟨hc, rfl⟩ := Table.find?_eq_some_iff.mp hfind
      split
      · rename_i hready
        exact Or.inr ⟨c, hc, hid, hready.1, hready.2.2, _, rfl, rfl, rfl, rfl⟩
      · rename_i hnot
        refine Or.inl ⟨rfl, fun p hp hpid hcompleted huser hready ↦ hnot ?_⟩
        obtain rfl := Table.eq_of_key_eq hp hc (Option.some.inj (hpid.symm.trans hid))
        exact ⟨hcompleted, huser, hready⟩

variable {k retry : UploadCall}

theorem UploadsInvariant.hash_iff (hw : UploadsInvariant codec w) (hl : codec.Lawful) (hk : k ∈ w.calls)
    (hretry : retry ∈ w.calls) (hof : OfRequest k.photo r) :
    r.requestSha256 = retry.photo.requestSha256 ↔ SameContent codec k.upload retry.upload := by
  obtain ⟨hhash, hreceived, _⟩ := hw.calls.hashed k hk
  obtain ⟨hhash', hreceived', _⟩ := hw.calls.hashed retry hretry
  rw [hof.requestSha256, hhash, hhash']
  exact uploadRequestHash_eq_iff hl hreceived hreceived'

/-- A retry of a request that is retained. -/
theorem UploadsInvariant.retained (hw : UploadsInvariant codec w) (hl : codec.Lawful)
    (hretry : retry ∈ w.calls) (hlock : w.db.lockActiveProfile retry.photo.userId = true)
    (hr : r ∈ w.db.requests) (hkey : r.key = retry.photo.key)
    (hcurrent : retry.photo.createdAt < r.expiresAt) :
    ∃ k ∈ w.calls, k.phase ≠ .received ∧ OfRequest k.photo r ∧
      ∃ result, w.db.createProcessing retry.photo w.clock = .ok (w.db, result) ∧
        (¬ SameContent codec k.upload retry.upload → result = .idempotencyConflict) ∧
        (SameContent codec k.upload retry.upload →
          result = .updateInProgress ∨ result = .idempotencyConsumed ∨
            ∃ object, result = .replay object ∧ object.id ∈ w.activated ∧ r.photoId = some object.id ∧
              ∃ p ∈ w.db.photos, p.id = object.id ∧ p.status = .ready) := by
  obtain ⟨c, hc, hof, _⟩ := hw.db.requests r hr
  obtain ⟨k, hk, rfl, hstarted⟩ := hw.calls.created c hc
  obtain ⟨result, hcreate, hexisting⟩ := createProcessing_retained hlock hr hkey hcurrent w.clock
  have hhash := hw.hash_iff hl hk hretry hof
  refine ⟨k, hk, hstarted, hof, result, hcreate, fun hother ↦ ?_, fun hsame ↦ ?_⟩
  · have hconflict := existingResult_conflict hr hkey fun heq ↦ hother (hhash.mp heq)
    exact Option.some.inj (hexisting.symm.trans hconflict)
  · rcases existingResult_same hr hkey (hhash.mpr hsame) hexisting with
      ⟨_, hprogress⟩ | ⟨_, ⟨hconsumed, _⟩ | ⟨p, hp, hid, _, hready, object, hreplay, hobject, _⟩⟩
    · exact Or.inl hprogress
    · exact Or.inr (Or.inl hconsumed)
    · refine Or.inr (Or.inr ⟨object, hreplay, ?_, ?_, p, hp, hobject.symm, hready⟩)
      · rw [hobject]
        exact hw.db.ready p hp hready
      · rw [hobject]
        exact hid

/-- A retry of an upload that was activated, within its day. -/
theorem UploadsInvariant.replayed (hw : UploadsInvariant codec w) (hl : codec.Lawful) (hk : k ∈ w.calls)
    (hcreated : k.photo ∈ w.created) (hretry : retry ∈ w.calls)
    (hlock : w.db.lockActiveProfile retry.photo.userId = true) (hkey : retry.photo.key = k.photo.key)
    (hactivated : k.photo.id ∈ w.activated) (hcurrent : w.clock < k.photo.expiresAt) :
    ∃ result, w.db.createProcessing retry.photo w.clock = .ok (w.db, result) ∧
      (¬ SameContent codec k.upload retry.upload → result = .idempotencyConflict) ∧
      (SameContent codec k.upload retry.upload →
        (∀ p ∈ w.db.photos, p.id = k.photo.id → p.status = .ready → ∃ object, result = .replay object ∧
          object.id = k.photo.id ∧ object.objectKey = k.photo.objectKey) ∧
        ((∀ p ∈ w.db.photos, p.id = k.photo.id → p.status ≠ .ready) →
          result = .idempotencyConsumed)) := by
  have huser : retry.photo.userId = k.photo.userId := congrArg Prod.fst hkey
  have hopen : k.photo.userId ∉ w.db.closed := huser ▸ (of_decide_eq_true hlock).2
  rcases hw.db.kept k.photo hcreated hactivated with hexpired | hclosed | ⟨r, hr, hof, hstatus, hcompleted⟩
  · omega
  · exact absurd hclosed hopen
  · have hrkey : r.key = retry.photo.key := hof.key.trans hkey.symm
    have hbefore : retry.photo.createdAt < r.expiresAt := by
      rw [hof.expiresAt]
      exact (hw.calls.hashed retry hretry).2.2.trans_lt hcurrent
    obtain ⟨result, hcreate, hexisting⟩ := createProcessing_retained hlock hr hrkey hbefore w.clock
    have hhash := hw.hash_iff hl hk hretry hof
    refine ⟨result, hcreate, fun hother ↦ ?_, fun hsame ↦ ?_⟩
    · have hconflict := existingResult_conflict hr hrkey fun heq ↦ hother (hhash.mp heq)
      exact Option.some.inj (hexisting.symm.trans hconflict)
    · rcases existingResult_same hr hrkey (hhash.mpr hsame) hexisting with
        ⟨hprocessing, _⟩ | ⟨_, ⟨hconsumed, hnotReady⟩ | ⟨p, hp, hid, hdone, hready, object, hreplay, hobject,
          _, hobjectKey⟩⟩
      · exact absurd hprocessing hstatus
      · refine ⟨fun p hp hpid hready ↦ ?_, fun _ ↦ hconsumed⟩
        obtain ⟨s, hs, hofs, hphoto⟩ := hw.linked k.photo hcreated hcurrent hopen p hp hpid
          (by rw [hready]; exact (nomatch ·))
        obtain rfl := Table.eq_of_key_eq hs hr (hofs.key.trans hof.key.symm)
        obtain ⟨d, hd, hdid, hduser, _⟩ := hw.db.photos p hp
        obtain rfl := hw.db.created_eq hd hcreated (hdid.trans hpid)
        obtain ⟨_, _, _, htracks⟩ := hw.db.requests s hs
        obtain ⟨hcid, _, hdone⟩ := htracks.photo hphoto
        refine absurd hready (hnotReady p hp (by rw [hphoto, hpid]) (hdone.mpr (hcid ▸ hactivated)) ?_)
        exact hduser.symm.trans huser.symm
      · have hpid : p.id = k.photo.id := Option.some.inj (hid.symm.trans (hcompleted hdone))
        obtain ⟨d, hd, hdid, _, hdkey⟩ := hw.db.photos p hp
        obtain rfl := hw.db.created_eq hd hcreated (hdid.trans hpid)
        refine ⟨fun _ _ _ _ ↦ ⟨object, hreplay, hobject.trans hpid, hobjectKey.trans hdkey.symm⟩, ?_⟩
        exact fun hnone ↦ absurd hready (hnone p hp hpid)

theorem exists_insert {κ ρ : Type} [DecidableEq κ] {key : ρ → κ} {t : Table key} {row : ρ}
    (h : t.find? (key row) = none) : ∃ t', t.insert? row = some t' := by
  cases hinsert : t.insert? row with
  | none => exact absurd h (Table.insert?_eq_none_iff.mp hinsert)
  | some t' => exact ⟨t', rfl⟩

/-- A discarded upload leaves no request with its key. -/
theorem UploadsInvariant.unkeyed (hw : UploadsInvariant codec w) (hk : k ∈ w.calls)
    (hphase : k.phase ≠ .answered) (hr : r ∈ w.db.requests) (hphoto : r.photoId = some k.photo.id) :
    ∀ s ∈ (w.db.discardProcessing k.photo.id k.photo.userId).requests, s.key ≠ k.photo.key := by
  obtain ⟨c, hc, hof, htracks⟩ := hw.db.requests r hr
  obtain ⟨hid, hconsumed, hcompleted⟩ := htracks.photo hphoto
  obtain ⟨l, hl, rfl, _⟩ := hw.calls.created c hc
  obtain rfl := hw.calls.distinct k hk l hl hid
  have hprocessing : r.status = .processing := by
    cases hcase : r.status with
    | processing => rfl
    | completed => exact absurd (hcompleted.mp hcase) (hw.calls.unfinished k hk hphase)
    | consumed => exact absurd hcase hconsumed
  have his : PhotoDb.isRequestOf k.photo.id k.photo.userId r = true :=
    isRequestOf_iff.mpr ⟨congrArg Prod.fst hof.key, hphoto, hprocessing⟩
  intro s' hs' hkey
  obtain ⟨s, hs, rfl⟩ := (Table.mem_modify PhotoUploadRequest.key_unlink).mp hs'
  obtain ⟨hs, hkeeps⟩ := Table.mem_delete.mp hs
  have hskey : s.key = k.photo.key := by
    split at hkey <;> exact hkey
  obtain rfl := Table.eq_of_key_eq hs hr (hskey.trans hof.key.symm)
  exact Bool.eq_false_iff.mp hkeeps his

/-- An upload that failed, whose request still names its photo, frees its key. -/
theorem UploadsInvariant.freed (hw : UploadsInvariant codec w) (hk : k ∈ w.calls) {error : PhotoError}
    (hphase : k.phase = .failed error) (hr : r ∈ w.db.requests) (hphoto : r.photoId = some k.photo.id)
    {next : ProcessingPhoto} (hkey : next.key = k.photo.key)
    (hlock : w.db.lockActiveProfile next.userId = true)
    (hfresh : ∀ p ∈ w.db.photos, p.id ≠ next.id) (now : ℤ) :
    (∃ db', (w.db.discardProcessing k.photo.id k.photo.userId).createProcessing next now =
        .ok (db', .created)) ∨
      (∃ db', (w.db.discardProcessing k.photo.id k.photo.userId).createProcessing next now =
        .ok (db', .updateInProgress)) ∧
      ∃ p ∈ w.db.photos, p.id ≠ k.photo.id ∧ p.userId = next.userId ∧ p.status.inProgress = true := by
  have hunkeyed := hw.unkeyed hk (by rw [hphase]; exact (nomatch ·)) hr hphoto
  have hphotos : ∀ p ∈ (w.db.discardProcessing k.photo.id k.photo.userId).photos, p ∈ w.db.photos ∧
      (p.id = k.photo.id → p.userId = k.photo.userId → p.status.inProgress = false) := by
    intro p hp
    obtain ⟨hp, hstays⟩ := mem_deletePhotos.mp hp
    refine ⟨hp, fun hid huser ↦ Bool.eq_false_iff.mpr fun hprogress ↦ Bool.eq_false_iff.mp hstays ?_⟩
    simp only [Bool.and_eq_true, decide_eq_true_eq]
    exact ⟨⟨hid, huser⟩, hprogress⟩
  have hlock' : (w.db.discardProcessing k.photo.id k.photo.userId).lockActiveProfile next.userId =
      true := hlock
  generalize w.db.discardProcessing k.photo.id k.photo.userId = db at hunkeyed hphotos hlock' ⊢
  have hnone : (db.purgeKey next).requests.find? next.key = none := by
    refine Table.find?_eq_none_iff.mpr fun s hs hsame ↦ ?_
    exact hunkeyed s (Table.mem_delete.mp hs).1 (hsame.trans hkey)
  have hexisting : (db.purgeKey next).existingResult next = none := by
    unfold PhotoDb.existingResult
    rw [hnone, Option.map_none]
  unfold PhotoDb.createProcessing
  rw [hlock']
  simp only [Bool.not_true, Bool.false_eq_true, if_false, hexisting]
  cases huploading : (db.purgeKey next).isUploading next.userId with
  | true =>
      obtain ⟨p, hp, hpasses⟩ := List.any_eq_true.mp huploading
      simp only [Bool.and_eq_true, decide_eq_true_eq] at hpasses
      obtain ⟨hold, hgone⟩ := hphotos p hp
      refine Or.inr ⟨⟨_, rfl⟩, p, hold, fun hid ↦ ?_, hpasses.1, hpasses.2⟩
      have hidle := hgone hid (hpasses.1.trans (congrArg Prod.fst hkey))
      rw [hpasses.2] at hidle
      cases hidle
  | false =>
      obtain ⟨photos, hinsert⟩ : ∃ photos, (db.purgeKey next).photos.insert?
          (PhotoDb.newPhoto next now) = some photos := by
        refine exists_insert (Table.find?_eq_none_iff.mpr fun p hp ↦ ?_)
        exact hfresh p (hphotos p hp).1
      obtain ⟨requests, hinsert'⟩ : ∃ requests, (db.purgeKey next).requests.insert?
          (PhotoDb.newRequest next) = some requests := exists_insert hnone
      refine Or.inl ⟨{ db.purgeKey next with photos, requests }, ?_⟩
      simp only [Bool.false_eq_true, if_false, hinsert, hinsert']

/-- A stored request that is spent answers every retry. -/
theorem existingResult_spent (hr : r ∈ db.requests) (hkey : r.key = photo.key)
    (hspent : r.status = .consumed) (hsame : r.requestSha256 = photo.requestSha256)
    {result : CreationResult} (hresult : db.existingResult photo = some result) :
    result = .idempotencyConsumed := by
  rcases existingResult_same hr hkey hsame hresult with
    ⟨hprocessing, _⟩ | ⟨_, ⟨hconsumed, _⟩ | ⟨_, _, _, hcompleted, _⟩⟩
  · rw [hspent] at hprocessing
    cases hprocessing
  · exact hconsumed
  · rw [hspent] at hcompleted
    cases hcompleted

end Answers

section Spent

variable {codec : UploadCodec} {w w' : Uploads} {db : PhotoDb} {r : PhotoUploadRequest} {a : UploadStep}
  {p : PhotoUploadRequest → Bool} {f : PhotoUploadRequest → PhotoUploadRequest}

/-- Consumed, and without a photo. -/
structure PhotoUploadRequest.Spent (r : PhotoUploadRequest) : Prop where
  status : r.status = .consumed
  photoId : r.photoId = none

theorem PhotoUploadRequest.spent_consume (r : PhotoUploadRequest) : r.consume.Spent := ⟨rfl, rfl⟩

/-- A spent request leaves its table when it has expired, or its account is
closed. -/
structure KeepsSpent (w w' : Uploads) : Prop where
  clock : w.clock ≤ w'.clock
  closed : ∀ userId ∈ w.db.closed, userId ∈ w'.db.closed
  requests : ∀ r ∈ w.db.requests, r.Spent →
    r ∈ w'.db.requests ∨ r.expiresAt ≤ w.clock ∨ r.userId ∈ w.db.closed

theorem KeepsSpent.same (hclock : w'.clock = w.clock) (hclosed : w'.db.closed = w.db.closed)
    (hrequests : ∀ r ∈ w.db.requests, r.Spent → r ∈ w'.db.requests) : KeepsSpent w w' :=
  ⟨hclock.ge, fun _ h ↦ hclosed ▸ h, fun r hr hspent ↦ Or.inl (hrequests r hr hspent)⟩

theorem mem_modify_of_eq_false (hf : ∀ r, (f r).key = r.key) (hr : r ∈ db.requests)
    (hp : p r = false) : r ∈ db.requests.modify p f hf :=
  (Table.mem_modify hf).mpr ⟨r, hr, by rw [hp]; rfl⟩

theorem PhotoUploadRequest.Spent.not_isRequestOf (h : r.Spent) (photoId userId : Uuid) :
    PhotoDb.isRequestOf photoId userId r = false := by
  simp [PhotoDb.isRequestOf, h.photoId]

theorem PhotoUploadRequest.Spent.mem_deletePhotos (h : r.Spent) (hr : r ∈ db.requests)
    (q : UserPhoto → Bool) : r ∈ (db.deletePhotos q).requests :=
  mem_modify_of_eq_false PhotoUploadRequest.key_unlink hr (by rw [h.photoId]; rfl)

theorem activate_requests {photoId userId : Uuid} {now : ℤ} {db' : PhotoDb}
    (h : db.activate photoId userId now = .ok (db', true)) :
    db'.closed = db.closed ∧ db'.requests = db.requests.modify (PhotoDb.isRequestOf photoId userId)
      PhotoUploadRequest.complete PhotoUploadRequest.key_complete := by
  unfold PhotoDb.activate at h
  split at h
  · exact absurd h (by simp)
  · split at h
    · exact absurd h (by simp)
    · dsimp only at h
      split at h
      · cases h
      · split at h
        · cases h
        · obtain ⟨rfl, -⟩ := Prod.mk.inj (Except.ok.inj h)
          exact ⟨rfl, rfl⟩

theorem UploadsInvariant.keepsSpent_createNext (hw : UploadsInvariant codec w) {k : UploadCall}
    (hk : k ∈ w.calls) (available : Bool) : KeepsSpent w (w.createNext k available) := by
  have hpurged : ∀ r ∈ w.db.requests, r.Spent → r ∈ (w.db.purgeKey k.photo).requests ∨
      r.expiresAt ≤ w.clock ∨ r.userId ∈ w.db.closed := by
    intro r hr _
    by_cases hexpired : r.expiresAt ≤ w.clock
    · exact Or.inr (Or.inl hexpired)
    · have hlater : ¬ r.expiresAt ≤ k.photo.createdAt := fun h ↦
        hexpired (h.trans (hw.calls.hashed k hk).2.2)
      exact Or.inl (Table.mem_delete.mpr ⟨hr, by simp [hlater]⟩)
  unfold Uploads.createNext
  split
  · exact .same rfl rfl fun _ hr _ ↦ hr
  · rename_i db result hcreate
    have hkept : db.closed = w.db.closed ∧ ∀ r ∈ w.db.requests, r.Spent → r ∈ db.requests ∨
        r.expiresAt ≤ w.clock ∨ r.userId ∈ w.db.closed := by
      rcases createProcessing_cases hcreate with ⟨_, rfl⟩ | ⟨_, ⟨_, rfl⟩ | ⟨_, ⟨_, rfl, _⟩ |
        ⟨_, _, photos, requests, _, hrequests, rfl⟩⟩⟩
      · exact ⟨rfl, fun r hr _ ↦ Or.inl hr⟩
      · exact ⟨rfl, hpurged⟩
      · exact ⟨rfl, hpurged⟩
      · exact ⟨rfl, fun r hr hspent ↦ (hpurged r hr hspent).imp_left fun h ↦
          (Table.mem_insert hrequests).mpr (Or.inr h)⟩
    split
    · exact ⟨le_rfl, fun _ h ↦ hkept.1 ▸ h, hkept.2⟩
    · exact ⟨le_rfl, fun _ h ↦ hkept.1 ▸ h, hkept.2⟩

theorem UploadsInvariant.keepsSpent_next (hw : UploadsInvariant codec w) (ha : w.Enabled a) :
    KeepsSpent w (w.next codec a) := by
  have hrefl : KeepsSpent w w := .same rfl rfl fun _ hr _ ↦ hr
  cases a with
  | tick now => exact ⟨ha, fun _ h ↦ h, fun r hr _ ↦ Or.inl hr⟩
  | openProfile userId => exact .same rfl rfl fun _ hr _ ↦ hr
  | closeAccount userId =>
      exact ⟨le_rfl, fun _ h ↦ List.mem_cons_of_mem _ h, fun r hr _ ↦ Or.inl hr⟩
  | receive callId userId key photoId upload =>
      unfold Uploads.next
      dsimp only
      split
      · exact hrefl
      · exact .same rfl rfl fun _ hr _ ↦ hr
  | createProcessing callId available =>
      unfold Uploads.next
      dsimp only
      split
      · rename_i hfound
        exact hw.keepsSpent_createNext (Table.find?_eq_some_iff.mp hfound).1 available
      · exact hrefl
  | process callId result =>
      unfold Uploads.next
      dsimp only
      split
      · exact .same rfl rfl fun _ hr _ ↦ hr
      · exact hrefl
  | discard callId =>
      unfold Uploads.next
      dsimp only
      split
      · refine .same rfl rfl fun r hr hspent ↦ hspent.mem_deletePhotos ?_ _
        exact Table.mem_delete.mpr ⟨hr, hspent.not_isRequestOf _ _⟩
      · exact hrefl
  | recordProcessed callId =>
      unfold Uploads.next
      dsimp only
      split
      · split
        · exact .same rfl rfl fun _ hr _ ↦ hr
        · exact .same rfl rfl fun _ hr _ ↦ hr
        · rename_i hrecord
          rcases onward_recordProcessed hrecord with rfl | rfl
          · exact .same rfl rfl fun _ hr _ ↦ hr
          · exact .same rfl rfl fun _ hr _ ↦ hr
      · exact hrefl
  | put callId stored =>
      unfold Uploads.next
      dsimp only
      split
      · split
        · exact .same rfl rfl fun _ hr _ ↦ hr
        · exact .same rfl rfl fun _ hr _ ↦ hr
      · exact hrefl
  | activate callId available =>
      unfold Uploads.next
      dsimp only
      split
      · split
        · exact .same rfl rfl fun _ hr _ ↦ hr
        · exact .same rfl rfl fun _ hr _ ↦ hr
        · rename_i db' hactivate
          obtain ⟨hclosed, hrequests⟩ := activate_requests hactivate
          refine .same rfl hclosed fun r hr hspent ↦ ?_
          change r ∈ db'.requests
          rw [hrequests]
          exact mem_modify_of_eq_false PhotoUploadRequest.key_complete hr (hspent.not_isRequestOf _ _)
      · exact hrefl
  | abandon callId => exact .same rfl rfl fun _ hr _ ↦ hr
  | beginDelete userId =>
      unfold Uploads.next PhotoDb.beginDelete
      dsimp only
      split
      · exact hrefl
      · exact .same rfl rfl fun _ hr _ ↦ hr
  | beginAccountDeletion userId limit => exact .same rfl rfl fun _ hr _ ↦ hr
  | findDeleting photoId =>
      unfold Uploads.next
      dsimp only
      split
      · exact .same rfl rfl fun _ hr _ ↦ hr
      · exact hrefl
  | completeDeletion photoId =>
      refine .same rfl rfl fun r hr hspent ↦ hspent.mem_deletePhotos ?_ _
      exact mem_modify_of_eq_false PhotoUploadRequest.key_consume hr (by simp [hspent.photoId])
  | claimCleanup now locked limit => exact .same rfl rfl fun _ hr _ ↦ hr
  | purge before limit =>
      refine ⟨le_rfl, fun _ h ↦ h, fun r hr _ ↦ ?_⟩
      by_cases hexpired : r.expiresAt ≤ w.clock
      · exact Or.inr (Or.inl hexpired)
      · refine Or.inl (Table.mem_delete.mpr ⟨hr, decide_eq_false fun hmem ↦ hexpired ?_⟩)
        obtain ⟨s, hs, hkey⟩ := List.mem_map.mp hmem
        obtain ⟨hs, hold⟩ :=
          Table.mem_select.mp ((List.mem_insertionSort _).mp (List.mem_of_mem_take hs))
        obtain rfl := Table.eq_of_key_eq hs hr hkey
        exact (of_decide_eq_true hold).trans ha
  | review photoId rejected =>
      unfold Uploads.next PhotoDb.reviewPhoto
      dsimp only
      split
      · exact hrefl
      · cases rejected with
        | false => exact .same rfl rfl fun _ hr _ ↦ hr
        | true => exact .same rfl rfl fun _ hr _ ↦ hr
  | reconcile photoId staleBefore => exact .same rfl rfl fun _ hr _ ↦ hr
  | anonymize userId =>
      unfold Uploads.next PhotoDb.anonymize
      dsimp only
      split
      · exact hrefl
      · refine ⟨le_rfl, fun _ h ↦ h, fun r hr _ ↦ ?_⟩
        by_cases huser : r.userId = userId
        · exact Or.inr (Or.inr (huser ▸ ha))
        · exact Or.inl (Table.mem_delete.mpr ⟨hr, decide_eq_false huser⟩)

/-- A spent request stays through every run, until it expires or its account
is closed. -/
theorem UploadsInvariant.spent_exec (hw : UploadsInvariant codec w) {as : List UploadStep}
    (hvalid : (uploads codec).Valid w as) (hspent : r.Spent)
    (hr : r ∈ w.db.requests ∨ r.expiresAt ≤ w.clock ∨ r.userId ∈ w.db.closed) :
    r ∈ ((uploads codec).exec w as).db.requests ∨
      r.expiresAt ≤ ((uploads codec).exec w as).clock ∨
      r.userId ∈ ((uploads codec).exec w as).db.closed := by
  induction as generalizing w with
  | nil => exact hr
  | cons a as ih =>
      have hkeeps := hw.keepsSpent_next hvalid.1
      refine ih (hw.next hvalid.1) hvalid.2 ?_
      rcases hr with hr | hexpired | hclosed
      · rcases hkeeps.requests r hr hspent with hstays | hexpired | hclosed
        · exact Or.inl hstays
        · exact Or.inr (Or.inl (hexpired.trans hkeeps.clock))
        · exact Or.inr (Or.inr (hkeeps.closed _ hclosed))
      · exact Or.inr (Or.inl (hexpired.trans hkeeps.clock))
      · exact Or.inr (Or.inr (hkeeps.closed _ hclosed))

/-- A retry after the deletion of the photo that the request names. -/
theorem UploadsInvariant.deleted (hw : UploadsInvariant codec w) (hl : codec.Lawful)
    (hr : r ∈ w.db.requests) {photoId : Uuid} (hphoto : r.photoId = some photoId)
    (hdeleting : photoId ∈ w.deleting) {as : List UploadStep}
    (hvalid : (uploads codec).Valid (w.next codec (.completeDeletion photoId)) as)
    (hcurrent : ((uploads codec).exec (w.next codec (.completeDeletion photoId)) as).clock < r.expiresAt)
    {retry : UploadCall}
    (hretry : retry ∈ ((uploads codec).exec (w.next codec (.completeDeletion photoId)) as).calls)
    (hkey : retry.photo.key = r.key)
    (hlock : ((uploads codec).exec (w.next codec (.completeDeletion photoId)) as).db.lockActiveProfile
      retry.photo.userId = true) :
    ∃ k ∈ ((uploads codec).exec (w.next codec (.completeDeletion photoId)) as).calls,
      OfRequest k.photo r ∧ ∃ result,
        ((uploads codec).exec (w.next codec (.completeDeletion photoId)) as).db.createProcessing
            retry.photo ((uploads codec).exec (w.next codec (.completeDeletion photoId)) as).clock =
          .ok (((uploads codec).exec (w.next codec (.completeDeletion photoId)) as).db, result) ∧
        (¬ SameContent codec k.upload retry.upload → result = .idempotencyConflict) ∧
        (SameContent codec k.upload retry.upload → result = .idempotencyConsumed) := by
  have hfirst := hw.next (a := .completeDeletion photoId) hdeleting
  have hconsumed : r.consume ∈ (w.next codec (.completeDeletion photoId)).db.requests := by
    refine r.spent_consume.mem_deletePhotos ?_ _
    exact (Table.mem_modify PhotoUploadRequest.key_consume).mpr ⟨r, hr, by simp [hphoto]⟩
  have hstays := hfirst.spent_exec hvalid r.spent_consume (Or.inl hconsumed)
  have hlast : UploadsInvariant codec
      ((uploads codec).exec (w.next codec (.completeDeletion photoId)) as) :=
    hvalid.invariant hfirst fun _ _ h ha ↦ h.next ha
  generalize (uploads codec).exec (w.next codec (.completeDeletion photoId)) as = w' at *
  have huser : retry.photo.userId = r.userId := congrArg Prod.fst hkey
  rcases hstays with hstored | hexpired | hclosed
  · obtain ⟨c, hc, hof, _⟩ := hlast.db.requests _ hstored
    obtain ⟨k, hk, rfl, _⟩ := hlast.calls.created c hc
    have hearlier : retry.photo.createdAt < r.consume.expiresAt :=
      (hlast.calls.hashed retry hretry).2.2.trans_lt hcurrent
    obtain ⟨result, hcreate, hexisting⟩ :=
      createProcessing_retained hlock hstored hkey.symm hearlier w'.clock
    have hhash := hlast.hash_iff hl hk hretry hof
    refine ⟨k, hk, ⟨hof.key, hof.requestSha256, hof.expiresAt⟩, result, hcreate, fun hother ↦ ?_,
      fun hsame ↦ existingResult_spent hstored hkey.symm rfl (hhash.mpr hsame) hexisting⟩
    exact Option.some.inj (hexisting.symm.trans
      (existingResult_conflict hstored hkey.symm fun heq ↦ hother (hhash.mp heq)))
  · exact absurd hcurrent (not_lt.mpr hexpired)
  · exact absurd (huser ▸ hclosed) (of_decide_eq_true hlock).2

end Spent

section Day

variable {codec : UploadCodec} {w : Uploads}

def Uploads.Initial (w : Uploads) : Prop := ∃ clock, w = .start clock

theorem uploadsInvariant_of_reachable (hw : (uploads codec).Reachable Uploads.Initial w) :
    UploadsInvariant codec w := by
  refine hw.invariant ?_ fun s a hs ha ↦ hs.next ha
  rintro _ ⟨clock, rfl⟩
  exact uploadsInvariant_start codec clock

theorem photo_upload_idempotent (codec : UploadCodec) (hl : codec.Lawful)
    (hw : (uploads codec).Reachable Uploads.Initial w) :
    (∀ c ∈ w.created, ∀ d ∈ w.created, c.key = d.key → c.id ∈ w.activated → d.id ∈ w.activated →
      w.clock < c.expiresAt → w.clock < d.expiresAt → c = d) ∧
    (∀ k ∈ w.calls, k.photo ∈ w.created → k.photo.id ∈ w.activated → w.clock < k.photo.expiresAt →
      ∀ retry ∈ w.calls, retry.photo.key = k.photo.key →
        w.db.lockActiveProfile retry.photo.userId = true →
        ∃ result, w.db.createProcessing retry.photo w.clock = .ok (w.db, result) ∧
          (¬ SameContent codec k.upload retry.upload → result = .idempotencyConflict) ∧
          (SameContent codec k.upload retry.upload →
            (∀ p ∈ w.db.photos, p.id = k.photo.id → p.status = .ready → ∃ object,
              result = .replay object ∧ object.id = k.photo.id ∧ object.objectKey = k.photo.objectKey) ∧
            ((∀ p ∈ w.db.photos, p.id = k.photo.id → p.status ≠ .ready) →
              result = .idempotencyConsumed))) ∧
    (∀ r ∈ w.db.requests, ∀ retry ∈ w.calls, r.key = retry.photo.key →
      retry.photo.createdAt < r.expiresAt → w.db.lockActiveProfile retry.photo.userId = true →
      ∃ k ∈ w.calls, k.phase ≠ .received ∧ OfRequest k.photo r ∧
        ∃ result, w.db.createProcessing retry.photo w.clock = .ok (w.db, result) ∧
          (¬ SameContent codec k.upload retry.upload → result = .idempotencyConflict) ∧
          (SameContent codec k.upload retry.upload →
            result = .updateInProgress ∨ result = .idempotencyConsumed ∨
              ∃ object, result = .replay object ∧ object.id ∈ w.activated ∧
                r.photoId = some object.id ∧ ∃ p ∈ w.db.photos, p.id = object.id ∧ p.status = .ready)) ∧
    (∀ k ∈ w.calls, ∀ error, k.phase = .failed error →
      (∃ r ∈ w.db.requests, r.photoId = some k.photo.id) → ∀ next : ProcessingPhoto,
        next.key = k.photo.key → w.db.lockActiveProfile next.userId = true →
        (∀ p ∈ w.db.photos, p.id ≠ next.id) → ∀ now,
          (∃ db', (w.db.discardProcessing k.photo.id k.photo.userId).createProcessing next now =
              .ok (db', .created)) ∨
            (∃ db', (w.db.discardProcessing k.photo.id k.photo.userId).createProcessing next now =
              .ok (db', .updateInProgress)) ∧
            ∃ p ∈ w.db.photos, p.id ≠ k.photo.id ∧ p.userId = next.userId ∧
              p.status.inProgress = true) ∧
    ∀ r ∈ w.db.requests, ∀ photoId, r.photoId = some photoId → photoId ∈ w.deleting →
      ∀ as, (uploads codec).Valid (w.next codec (.completeDeletion photoId)) as →
        ∀ w', (uploads codec).exec (w.next codec (.completeDeletion photoId)) as = w' →
          w'.clock < r.expiresAt → ∀ retry ∈ w'.calls, retry.photo.key = r.key →
            w'.db.lockActiveProfile retry.photo.userId = true →
            ∃ k ∈ w'.calls, OfRequest k.photo r ∧
              ∃ result, w'.db.createProcessing retry.photo w'.clock = .ok (w'.db, result) ∧
                (¬ SameContent codec k.upload retry.upload → result = .idempotencyConflict) ∧
                (SameContent codec k.upload retry.upload → result = .idempotencyConsumed) := by
  have hinvariant := uploadsInvariant_of_reachable hw
  refine ⟨?_, ?_, ?_, ?_, ?_⟩
  · intro c hc d hd hkey hactivated hactivated' hcurrent hcurrent'
    by_contra hother
    rcases hinvariant.db.once c hc d hd hkey hactivated hactivated'
      (fun hid ↦ hother (hinvariant.db.created_eq hc hd hid)) with hexpired | hexpired <;> omega
  · intro k hk hcreated hactivated hcurrent retry hretry hkey hlock
    exact hinvariant.replayed hl hk hcreated hretry hlock hkey hactivated hcurrent
  · intro r hr retry hretry hkey hcurrent hlock
    exact hinvariant.retained hl hretry hlock hr hkey hcurrent
  · rintro k hk error hphase ⟨r, hr, hphoto⟩ next hkey hlock hfresh now
    exact hinvariant.freed hk hphase hr hphoto hkey hlock hfresh now
  · rintro r hr photoId hphoto hdeleting as hvalid w' rfl hcurrent retry hretry hkey hlock
    exact hinvariant.deleted hl hr hphoto hdeleting hvalid hcurrent hretry hkey hlock

end Day

section Samples

/-- A codec that keeps what it is given. -/
def plainCodec : UploadCodec := ⟨id, id, Matches.StandardCodec.hyphenated⟩

theorem plainCodec_lawful : plainCodec.Lawful where
  sha256 _ _ hsame := hsame
  toLowercase text := Nat.le_mul_of_pos_left text.length (by decide)

instance (w : Uploads) : DecidablePred w.Enabled
  | .tick now => inferInstanceAs (Decidable (w.clock ≤ now))
  | .openProfile userId => inferInstanceAs (Decidable (userId ∉ w.db.closed))
  | .receive _ _ _ photoId upload =>
      inferInstanceAs (Decidable (photoId ∉ w.issued ∧ upload.Received))
  | .process callId _ =>
      inferInstanceAs (Decidable (((w.calls.find? callId).all fun c ↦ c.phase.inTime w.clock) = true))
  | .completeDeletion photoId => inferInstanceAs (Decidable (photoId ∈ w.deleting))
  | .claimCleanup now _ _ => inferInstanceAs (Decidable (now ≤ w.clock))
  | .purge before _ => inferInstanceAs (Decidable (before ≤ w.clock))
  | .anonymize userId => inferInstanceAs (Decidable (userId ∈ w.db.closed))
  | .closeAccount _ | .createProcessing .. | .discard _ | .recordProcessed _ | .put ..
  | .activate .. | .abandon _ | .beginDelete _ | .beginAccountDeletion .. | .findDeleting _
  | .review .. | .reconcile .. => .isTrue trivial

instance (codec : UploadCodec) (w : Uploads) (a : UploadStep) :
    Decidable ((uploads codec).Enabled w a) :=
  inferInstanceAs (Decidable (w.Enabled a))

def portrait : UploadPhoto := ⟨['a'], ['b'], [1]⟩

def decodedPortrait : ProcessedPhoto := ⟨1000, 10, 10, List.replicate 32 0⟩

/-- A photo is uploaded, and the request is sent again. -/
def uploadedTwice : List UploadStep :=
  [.openProfile 1, .receive 0 1 10 20 portrait, .createProcessing 0 true,
    .process 0 (.ok decodedPortrait), .recordProcessed 0, .put 0 true, .activate 0 true,
    .receive 1 1 10 21 portrait]

/-- A decoding fails, and the process stops before the upload is discarded.
The clean-up takes the photo half an hour later. -/
def stoppedBeforeDiscard : List UploadStep :=
  [.openProfile 1, .receive 0 1 10 20 portrait, .createProcessing 0 true,
    .process 0 (.error (.invalidPhoto .decodeFailed)), .abandon 0, .receive 1 1 10 21 portrait,
    .createProcessing 1 true, .tick (minutes 30), .claimCleanup (minutes 30) (fun _ ↦ false) 100,
    .completeDeletion 20, .receive 2 1 10 22 portrait, .createProcessing 2 true]

theorem photo_upload_idempotent_uploadedTwice :
    ∃ k ∈ ((uploads plainCodec).exec (.start 0) uploadedTwice).calls, k.id = 1 ∧ ∃ result,
      ((uploads plainCodec).exec (.start 0) uploadedTwice).db.createProcessing k.photo 0 =
        .ok (((uploads plainCodec).exec (.start 0) uploadedTwice).db, result) ∧
      ∃ object, result = .replay object ∧ object.id = 20 := by
  have hvalid : (uploads plainCodec).Valid (.start 0) uploadedTwice := by decide +kernel
  have hupload := photo_upload_idempotent plainCodec plainCodec_lawful
    ⟨.start 0, uploadedTwice, ⟨0, rfl⟩, hvalid, rfl⟩
  obtain ⟨k, hk, hid, hcreated, hactivated, hcurrent, retry, hretry, hretryId, hkey, hlock, hsame, hready⟩ :
      ∃ k ∈ ((uploads plainCodec).exec (.start 0) uploadedTwice).calls.rows, k.photo.id = 20 ∧
        k.photo ∈ ((uploads plainCodec).exec (.start 0) uploadedTwice).created ∧
        k.photo.id ∈ ((uploads plainCodec).exec (.start 0) uploadedTwice).activated ∧
        ((uploads plainCodec).exec (.start 0) uploadedTwice).clock < k.photo.expiresAt ∧
        ∃ retry ∈ ((uploads plainCodec).exec (.start 0) uploadedTwice).calls.rows, retry.id = 1 ∧
          retry.photo.key = k.photo.key ∧
          ((uploads plainCodec).exec (.start 0) uploadedTwice).db.lockActiveProfile
            retry.photo.userId = true ∧
          retry.upload = k.upload ∧
          ∃ p ∈ ((uploads plainCodec).exec (.start 0) uploadedTwice).db.photos.rows,
            p.id = k.photo.id ∧ p.status = .ready := by
    decide +kernel
  obtain ⟨p, hp, hpid, hpready⟩ := hready
  obtain ⟨result, hcreate, _, hanswer⟩ :=
    hupload.2.1 k hk hcreated hactivated hcurrent retry hretry hkey hlock
  have hcontent : SameContent plainCodec k.upload retry.upload := by
    rw [hsame]
    exact ⟨rfl, rfl, rfl⟩
  obtain ⟨object, hreplay, hobject, _⟩ := (hanswer hcontent).1 p hp hpid hpready
  exact ⟨retry, hretry, hretryId, result, hcreate, object, hreplay, hobject.trans hid⟩

/-- The key of the failed upload stays taken, and is then consumed. -/
theorem failed_decode_leaves_key :
    (uploads plainCodec).Valid (.start 0) stoppedBeforeDiscard ∧
      ((uploads plainCodec).exec (.start 0) stoppedBeforeDiscard).answers.map
        (fun a ↦ (a.photo.id, match a.result with
          | .ok _ => none
          | .error error => some error)) =
        [(22, some .idempotencyConsumed), (21, some .updateInProgress)] := by
  decide +kernel

end Samples

end Histae.Media
