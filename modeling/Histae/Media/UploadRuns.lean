import Histae.Media.Uploads

/-!
# What holds in every run of uploads

A request names a photo until that photo has gone, and it is completed exactly
when the photo was activated. Whatever marks photos as being deleted, or drops
requests that have expired, keeps this; the remaining transactions are looked
at one by one.
-/

namespace Histae.Media

open Relational Systems

/-- The request is the one that was made with the photo. -/
structure OfRequest (c : ProcessingPhoto) (r : PhotoUploadRequest) : Prop where
  key : r.key = c.key
  requestSha256 : r.requestSha256 = c.requestSha256
  expiresAt : r.expiresAt = c.expiresAt

/-- What a request says about its photo. -/
def Tracks (db : PhotoDb) (activated : List Uuid) (c : ProcessingPhoto) (r : PhotoUploadRequest) :
    Prop :=
  r.status = .consumed ∧ r.photoId = none ∨
    r.status ≠ .consumed ∧ r.photoId = some c.id ∧ (∃ p ∈ db.photos, p.id = c.id) ∧
      (r.status = .completed ↔ c.id ∈ activated)

structure UploadInvariant (db : PhotoDb) (created : List ProcessingPhoto) (activated : List Uuid)
    (clock : ℤ) : Prop where
  photos : ∀ p ∈ db.photos, ∃ c ∈ created, c.id = p.id ∧ c.userId = p.userId ∧ c.objectKey = p.objectKey
  ready : ∀ p ∈ db.photos, p.status = .ready → p.id ∈ activated
  inProgress : ∀ p ∈ db.photos, p.status.inProgress = true → p.id ∉ activated
  single : ∀ p ∈ db.photos, ∀ q ∈ db.photos, p.status.inProgress = true → q.status.inProgress = true →
    p.userId = q.userId → p = q
  requests : ∀ r ∈ db.requests, ∃ c ∈ created, OfRequest c r ∧ Tracks db activated c r
  kept : ∀ c ∈ created, c.id ∈ activated → c.expiresAt ≤ clock ∨ c.userId ∈ db.closed ∨
    ∃ r ∈ db.requests, OfRequest c r ∧ r.status ≠ .processing ∧ (r.status = .completed → r.photoId = some c.id)
  once : ∀ c ∈ created, ∀ d ∈ created, c.key = d.key → c.id ∈ activated → d.id ∈ activated →
    c.id ≠ d.id → c.expiresAt ≤ clock ∨ d.expiresAt ≤ clock
  distinct : (created.map ProcessingPhoto.id).Nodup
  activated : ∀ id ∈ activated, ∃ c ∈ created, c.id = id

section Photos

variable {db : PhotoDb} {created : List ProcessingPhoto} {activated : List Uuid} {clock : ℤ}

theorem UploadInvariant.created_eq (hw : UploadInvariant db created activated clock)
    {c d : ProcessingPhoto} (hc : c ∈ created) (hd : d ∈ created) (h : c.id = d.id) : c = d :=
  List.inj_on_of_nodup_map hw.distinct hc hd h

theorem Tracks.photos {db' : PhotoDb} {c : ProcessingPhoto} {r : PhotoUploadRequest}
    (h : Tracks db activated c r) (hphotos : ∀ p ∈ db.photos, p.id = c.id → ∃ q ∈ db'.photos, q.id = p.id) :
    Tracks db' activated c r := by
  rcases h with hconsumed | ⟨hstatus, hid, ⟨p, hp, hpid⟩, hcompleted⟩
  · exact Or.inl hconsumed
  · obtain ⟨q, hq, hqid⟩ := hphotos p hp hpid
    exact Or.inr ⟨hstatus, hid, ⟨q, hq, hqid.trans hpid⟩, hcompleted⟩

theorem Tracks.photo {c : ProcessingPhoto} {r : PhotoUploadRequest} (h : Tracks db activated c r)
    {id : Uuid} (hid : r.photoId = some id) :
    id = c.id ∧ r.status ≠ .consumed ∧ (r.status = .completed ↔ c.id ∈ activated) := by
  rcases h with ⟨_, hnone⟩ | ⟨hstatus, hid', _, hcompleted⟩
  · rw [hnone] at hid
    cases hid
  · exact ⟨Option.some.inj (hid.symm.trans hid'), hstatus, hcompleted⟩

/-- Photos are rewritten in place, and at most marked as being deleted. -/
theorem UploadInvariant.rewrite (hw : UploadInvariant db created activated clock)
    {p : UserPhoto → Bool} {f : UserPhoto → UserPhoto} (hf : ∀ q, (f q).id = q.id)
    (huser : ∀ q, (f q).userId = q.userId) (hkey : ∀ q, (f q).objectKey = q.objectKey)
    (hstatus : ∀ q, (f q).status = q.status ∨ (f q).status = .deleting) :
    UploadInvariant { db with photos := db.photos.modify p f hf } created activated clock := by
  have hold : ∀ q' ∈ db.photos.modify p f hf, ∃ q ∈ db.photos, q'.id = q.id ∧ q'.userId = q.userId ∧
      q'.objectKey = q.objectKey ∧ (q'.status = q.status ∨ q'.status = .deleting) := by
    intro q' hq'
    obtain ⟨q, hq, rfl⟩ := (Table.mem_modify hf).mp hq'
    refine ⟨q, hq, ?_⟩
    split
    · exact ⟨hf q, huser q, hkey q, hstatus q⟩
    · exact ⟨rfl, rfl, rfl, Or.inl rfl⟩
  refine ⟨fun q' hq' ↦ ?_, fun q' hq' hready ↦ ?_, fun q' hq' hprogress ↦ ?_, ?_, fun r hr ↦ ?_, hw.kept,
    hw.once, hw.distinct, hw.activated⟩
  · obtain ⟨q, hq, hid, huser', hkey', _⟩ := hold q' hq'
    obtain ⟨c, hc, hcid, hcuser, hckey⟩ := hw.photos q hq
    exact ⟨c, hc, hcid.trans hid.symm, hcuser.trans huser'.symm, hckey.trans hkey'.symm⟩
  · obtain ⟨q, hq, hid, _, _, hsame | hdeleting⟩ := hold q' hq'
    · rw [hid]
      exact hw.ready q hq (hsame.symm.trans hready)
    · rw [hready] at hdeleting
      cases hdeleting
  · obtain ⟨q, hq, hid, _, _, hsame | hdeleting⟩ := hold q' hq'
    · rw [hid]
      rw [hsame] at hprogress
      exact hw.inProgress q hq hprogress
    · rw [hdeleting] at hprogress
      cases hprogress
  · intro q' hq' s' hs' hprogress hprogress' huser'
    obtain ⟨q, hq, hid, huser₁, _, hsame | hdeleting⟩ := hold q' hq'
    · obtain ⟨s, hs, hid', huser₂, _, hsame' | hdeleting'⟩ := hold s' hs'
      · rw [hsame] at hprogress
        rw [hsame'] at hprogress'
        have heq := hw.single q hq s hs hprogress hprogress' (huser₁.symm.trans (huser'.trans huser₂))
        exact Table.eq_of_key_eq hq' hs' (hid.trans ((congrArg UserPhoto.id heq).trans hid'.symm))
      · rw [hdeleting'] at hprogress'
        cases hprogress'
    · rw [hdeleting] at hprogress
      cases hprogress
  · obtain ⟨c, hc, hof, htracks⟩ := hw.requests r hr
    refine ⟨c, hc, hof, htracks.photos fun q hq _ ↦ ?_⟩
    refine ⟨if p q then f q else q, (Table.mem_modify hf).mpr ⟨q, hq, rfl⟩, ?_⟩
    split
    · exact hf q
    · rfl

theorem UploadInvariant.markDeleting (hw : UploadInvariant db created activated clock)
    (p : UserPhoto → Bool) (now : ℤ) : UploadInvariant (db.markDeleting p now) created activated clock :=
  hw.rewrite (UserPhoto.id_delete now) (fun _ ↦ rfl) (fun _ ↦ rfl) fun _ ↦ Or.inr rfl

/-- Requests are dropped that have expired or whose account is closed. -/
theorem UploadInvariant.dropRequests (hw : UploadInvariant db created activated clock)
    {p : PhotoUploadRequest → Bool}
    (hp : ∀ r ∈ db.requests, p r = true → r.expiresAt ≤ clock ∨ r.userId ∈ db.closed) :
    UploadInvariant { db with requests := db.requests.delete p } created activated clock := by
  refine ⟨hw.photos, hw.ready, hw.inProgress, hw.single, fun r hr ↦ ?_, fun c hc hactivated ↦ ?_, hw.once,
    hw.distinct, hw.activated⟩
  · exact hw.requests r (Table.mem_delete.mp hr).1
  · rcases hw.kept c hc hactivated with hexpired | hclosed | ⟨r, hr, hof, hrest⟩
    · exact Or.inl hexpired
    · exact Or.inr (Or.inl hclosed)
    · cases hdropped : p r with
      | false => exact Or.inr (Or.inr ⟨r, Table.mem_delete.mpr ⟨hr, hdropped⟩, hof, hrest⟩)
      | true =>
          rcases hp r hr hdropped with hexpired | hclosed
          · exact Or.inl (hof.expiresAt.symm.trans_le hexpired)
          · have huser : r.userId = c.userId := congrArg Prod.fst hof.key
            exact Or.inr (Or.inl (huser ▸ hclosed))

theorem UploadInvariant.later (hw : UploadInvariant db created activated clock) {now : ℤ}
    (h : clock ≤ now) : UploadInvariant db created activated now where
  photos := hw.photos
  ready := hw.ready
  inProgress := hw.inProgress
  single := hw.single
  requests := hw.requests
  kept c hc hactivated := (hw.kept c hc hactivated).imp_left fun hexpired ↦ hexpired.trans h
  once c hc d hd hkey hactivated hactivated' hother :=
    (hw.once c hc d hd hkey hactivated hactivated' hother).imp (·.trans h) (·.trans h)
  distinct := hw.distinct
  activated := hw.activated

/-- Accounts and cases are of no concern, except that a closed account stays so. -/
theorem UploadInvariant.of_eq (hw : UploadInvariant db created activated clock) {db' : PhotoDb}
    (hphotos : db'.photos = db.photos) (hrequests : db'.requests = db.requests)
    (hclosed : ∀ userId ∈ db.closed, userId ∈ db'.closed) :
    UploadInvariant db' created activated clock := by
  constructor
  · rw [hphotos]
    exact hw.photos
  · rw [hphotos]
    exact hw.ready
  · rw [hphotos]
    exact hw.inProgress
  · rw [hphotos]
    exact hw.single
  · rw [hrequests]
    intro r hr
    obtain ⟨c, hc, hof, htracks⟩ := hw.requests r hr
    refine ⟨c, hc, hof, htracks.photos fun q hq _ ↦ ⟨q, ?_, rfl⟩⟩
    rw [hphotos]
    exact hq
  · rw [hrequests]
    intro c hc hactivated
    exact (hw.kept c hc hactivated).imp_right (Or.imp_left (hclosed c.userId))
  · exact hw.once
  · exact hw.distinct
  · exact hw.activated

/-- Photos go that no remaining request names. -/
theorem UploadInvariant.deletePhotos (hw : UploadInvariant db created activated clock)
    {p : UserPhoto → Bool}
    (hunnamed : ∀ r ∈ db.requests, ∀ q ∈ db.photos, p q = true → r.photoId ≠ some q.id) :
    UploadInvariant (db.deletePhotos p) created activated clock := by
  have hlinked : ∀ r ∈ db.requests,
      (r.photoId.any fun id ↦ decide (id ∈ (db.photos.select p).map UserPhoto.id)) = false := by
    intro r hr
    refine Bool.eq_false_iff.mpr fun hany ↦ ?_
    rw [Option.any_eq_true] at hany
    obtain ⟨id, hid, hgone⟩ := hany
    obtain ⟨q, hq, rfl⟩ := List.mem_map.mp (of_decide_eq_true hgone)
    obtain ⟨hq, hpq⟩ := Table.mem_select.mp hq
    exact hunnamed r hr q hq hpq hid
  have hrequests : (db.deletePhotos p).requests = db.requests := by
    have hsame : db.requests.modify (fun r ↦ r.photoId.any fun id ↦
        decide (id ∈ (db.photos.select p).map UserPhoto.id)) PhotoUploadRequest.unlink
        PhotoUploadRequest.key_unlink = db.requests := Table.modify_eq_self hlinked
    exact hsame
  have hphotos : ∀ q, q ∈ (db.deletePhotos p).photos ↔ q ∈ db.photos ∧ p q = false :=
    fun q ↦ Table.mem_delete
  constructor
  · exact fun q hq ↦ hw.photos q ((hphotos q).mp hq).1
  · exact fun q hq ↦ hw.ready q ((hphotos q).mp hq).1
  · exact fun q hq ↦ hw.inProgress q ((hphotos q).mp hq).1
  · exact fun q hq s hs ↦ hw.single q ((hphotos q).mp hq).1 s ((hphotos s).mp hs).1
  · rw [hrequests]
    intro r hr
    obtain ⟨c, hc, hof, hconsumed | ⟨hstatus, hid, ⟨q, hq, hqid⟩, hcompleted⟩⟩ := hw.requests r hr
    · exact ⟨c, hc, hof, Or.inl hconsumed⟩
    · refine ⟨c, hc, hof, Or.inr ⟨hstatus, hid, ⟨q, (hphotos q).mpr ⟨hq, ?_⟩, hqid⟩, hcompleted⟩⟩
      refine Bool.eq_false_iff.mpr fun hpq ↦ hunnamed r hr q hq hpq ?_
      rw [hqid]
      exact hid
  · rw [hrequests]
    exact hw.kept
  · exact hw.once
  · exact hw.distinct
  · exact hw.activated

theorem UploadInvariant.consume (hw : UploadInvariant db created activated clock) (photoId : Uuid) :
    UploadInvariant { db with
      requests := db.requests.modify (fun r ↦ r.photoId = some photoId) PhotoUploadRequest.consume
        PhotoUploadRequest.key_consume } created activated clock := by
  refine ⟨hw.photos, hw.ready, hw.inProgress, hw.single, fun r' hr' ↦ ?_, fun c hc hactivated ↦ ?_, hw.once,
    hw.distinct, hw.activated⟩
  · obtain ⟨r, hr, rfl⟩ := (Table.mem_modify PhotoUploadRequest.key_consume).mp hr'
    obtain ⟨c, hc, hof, htracks⟩ := hw.requests r hr
    split
    · exact ⟨c, hc, ⟨hof.key, hof.requestSha256, hof.expiresAt⟩, Or.inl ⟨rfl, rfl⟩⟩
    · exact ⟨c, hc, hof, htracks⟩
  · rcases hw.kept c hc hactivated with hexpired | hclosed | ⟨r, hr, hof, hstatus, hcompleted⟩
    · exact Or.inl hexpired
    · exact Or.inr (Or.inl hclosed)
    · refine Or.inr (Or.inr ⟨_, (Table.mem_modify PhotoUploadRequest.key_consume).mpr ⟨r, hr, rfl⟩, ?_⟩)
      split
      · refine ⟨⟨hof.key, hof.requestSha256, hof.expiresAt⟩, fun hprocessing ↦ ?_, fun hcontra ↦ ?_⟩
        · cases hprocessing
        · cases hcontra
      · exact ⟨hof, hstatus, hcompleted⟩

theorem UploadInvariant.completeDeletion (hw : UploadInvariant db created activated clock)
    (photoId : Uuid) : UploadInvariant (db.completeDeletion photoId) created activated clock := by
  refine (hw.consume photoId).deletePhotos fun r' hr' q _ hgone hid ↦ ?_
  simp only [Bool.and_eq_true, decide_eq_true_eq] at hgone
  obtain ⟨r, _, rfl⟩ := (Table.mem_modify PhotoUploadRequest.key_consume).mp hr'
  split at hid
  · cases hid
  · rename_i hother
    refine hother (decide_eq_true ?_)
    rw [← hgone.1]
    exact hid

theorem isRequestOf_iff {photoId userId : Uuid} {r : PhotoUploadRequest} :
    PhotoDb.isRequestOf photoId userId r = true ↔
      r.userId = userId ∧ r.photoId = some photoId ∧ r.status = .processing := by
  unfold PhotoDb.isRequestOf
  simp only [Bool.and_eq_true, decide_eq_true_eq, and_assoc]

/-- The account of a request is the account of its photo. -/
theorem UploadInvariant.owner (hw : UploadInvariant db created activated clock)
    {r : PhotoUploadRequest} (hr : r ∈ db.requests) {q : UserPhoto} (hq : q ∈ db.photos)
    (hid : r.photoId = some q.id) : r.userId = q.userId := by
  obtain ⟨c, hc, hof, htracks⟩ := hw.requests r hr
  obtain ⟨d, hd, hdid, hduser, _⟩ := hw.photos q hq
  obtain rfl := hw.created_eq hc hd ((htracks.photo hid).1.symm.trans hdid.symm)
  exact (congrArg Prod.fst hof.key).trans hduser

/-- The request of an upload that is not activated is dropped. -/
theorem UploadInvariant.dropProcessing (hw : UploadInvariant db created activated clock)
    (photoId userId : Uuid) :
    UploadInvariant { db with requests := db.requests.delete (PhotoDb.isRequestOf photoId userId) }
      created activated clock := by
  refine ⟨hw.photos, hw.ready, hw.inProgress, hw.single, fun r hr ↦ ?_, fun c hc hactivated ↦ ?_, hw.once,
    hw.distinct, hw.activated⟩
  · exact hw.requests r (Table.mem_delete.mp hr).1
  · rcases hw.kept c hc hactivated with hexpired | hclosed | ⟨r, hr, hof, hstatus, hcompleted⟩
    · exact Or.inl hexpired
    · exact Or.inr (Or.inl hclosed)
    · refine Or.inr (Or.inr ⟨r, Table.mem_delete.mpr ⟨hr, ?_⟩, hof, hstatus, hcompleted⟩)
      exact Bool.eq_false_iff.mpr fun hdropped ↦ hstatus (isRequestOf_iff.mp hdropped).2.2

theorem UploadInvariant.discardProcessing (hw : UploadInvariant db created activated clock)
    (photoId userId : Uuid) :
    UploadInvariant (db.discardProcessing photoId userId) created activated clock := by
  refine (hw.dropProcessing photoId userId).deletePhotos fun r hr q hq hgone hid ↦ ?_
  simp only [Bool.and_eq_true, decide_eq_true_eq] at hgone
  obtain ⟨⟨rfl, rfl⟩, hprogress⟩ := hgone
  obtain ⟨hr, hother⟩ := Table.mem_delete.mp hr
  obtain ⟨c, hc, hof, htracks⟩ := hw.requests r hr
  obtain ⟨hcid, hconsumed, hcompleted⟩ := htracks.photo hid
  have hunactivated : c.id ∉ activated := hcid ▸ hw.inProgress q hq hprogress
  have hprocessing : r.status = .processing := by
    cases hcase : r.status with
    | processing => rfl
    | completed => exact absurd (hcompleted.mp hcase) hunactivated
    | consumed => exact absurd hcase hconsumed
  exact Bool.eq_false_iff.mp hother
    (isRequestOf_iff.mpr ⟨hw.owner hr hq hid, hid, hprocessing⟩)

/-- What the creation of an upload does, the lock of the profile apart. -/
theorem createProcessing_cases {photo : ProcessingPhoto} {now : ℤ} {db' : PhotoDb}
    {result : CreationResult} (h : db.createProcessing photo now = .ok (db', result)) :
    result = .profileNotFound ∧ db' = db ∨
      db.lockActiveProfile photo.userId = true ∧
        ((db.purgeKey photo).existingResult photo = some result ∧ db' = db.purgeKey photo ∨
          (db.purgeKey photo).existingResult photo = none ∧
            (result = .updateInProgress ∧ db' = db.purgeKey photo ∧
                db.isUploading photo.userId = true ∨
              result = .created ∧ db.isUploading photo.userId = false ∧
                ∃ photos requests, db.photos.insert? (PhotoDb.newPhoto photo now) = some photos ∧
                  (db.purgeKey photo).requests.insert? (PhotoDb.newRequest photo) = some requests ∧
                  db' = { db with photos, requests })) := by
  unfold PhotoDb.createProcessing at h
  split at h
  · obtain ⟨rfl, rfl⟩ := Prod.mk.inj (Except.ok.inj h)
    exact Or.inl ⟨rfl, rfl⟩
  · rename_i hlock
    have hlock' : db.lockActiveProfile photo.userId = true := by simpa using hlock
    refine Or.inr ⟨hlock', ?_⟩
    dsimp only at h
    split at h
    · rename_i hexisting
      obtain ⟨rfl, rfl⟩ := Prod.mk.inj (Except.ok.inj h)
      exact Or.inl ⟨hexisting, rfl⟩
    · rename_i hexisting
      refine Or.inr ⟨hexisting, ?_⟩
      split at h
      · rename_i huploading
        obtain ⟨rfl, rfl⟩ := Prod.mk.inj (Except.ok.inj h)
        exact Or.inl ⟨rfl, rfl, huploading⟩
      · rename_i huploading
        split at h
        · rename_i photos requests hphotos hrequests
          obtain ⟨rfl, rfl⟩ := Prod.mk.inj (Except.ok.inj h)
          exact Or.inr ⟨rfl, Bool.eq_false_iff.mpr huploading, photos, requests, hphotos, hrequests, rfl⟩
        · cases h

theorem existingResult_ne_created {photo : ProcessingPhoto} {result : CreationResult}
    (h : db.existingResult photo = some result) : result ≠ .created := by
  obtain ⟨r, _, rfl⟩ := Option.map_eq_some_iff.mp h
  split
  · exact (nomatch ·)
  · split
    · exact (nomatch ·)
    · dsimp only
      split
      · exact (nomatch ·)
      · split <;> exact (nomatch ·)

theorem UploadInvariant.purgeKey (hw : UploadInvariant db created activated clock)
    {photo : ProcessingPhoto} (hcreated : photo.createdAt ≤ clock) :
    UploadInvariant (db.purgeKey photo) created activated clock := by
  refine hw.dropRequests fun r _ hdropped ↦ Or.inl ?_
  simp only [Bool.and_eq_true, decide_eq_true_eq] at hdropped
  exact hdropped.2.trans hcreated

/-- A new upload. -/
theorem UploadInvariant.insert (hw : UploadInvariant db created activated clock)
    {photo : ProcessingPhoto} {now : ℤ} (hfresh : ∀ c ∈ created, c.id ≠ photo.id)
    (huploading : db.isUploading photo.userId = false) {photos : PhotoTable} {requests : RequestTable}
    (hphotos : db.photos.insert? (PhotoDb.newPhoto photo now) = some photos)
    (hrequests : db.requests.insert? (PhotoDb.newRequest photo) = some requests) :
    UploadInvariant { db with photos, requests } (photo :: created) activated clock := by
  have hunactivated : photo.id ∉ activated := by
    intro hactivated
    obtain ⟨c, hc, hid⟩ := hw.activated photo.id hactivated
    exact hfresh c hc hid
  have hidle : ∀ p ∈ db.photos, p.status.inProgress = true → p.userId ≠ photo.userId := by
    intro p hp hprogress huser
    refine Bool.eq_false_iff.mp huploading (List.any_eq_true.mpr ⟨p, hp, ?_⟩)
    simp only [Bool.and_eq_true, decide_eq_true_eq]
    exact ⟨huser, hprogress⟩
  have hnew : ∀ c ∈ photo :: created, c.id ∈ activated → c ∈ created := by
    intro c hc hactivated
    rcases List.mem_cons.mp hc with rfl | hc
    · exact absurd hactivated hunactivated
    · exact hc
  constructor
  · intro p hp
    rcases (Table.mem_insert hphotos).mp hp with rfl | hp
    · exact ⟨photo, List.mem_cons_self, rfl, rfl, rfl⟩
    · obtain ⟨c, hc, hrest⟩ := hw.photos p hp
      exact ⟨c, List.mem_cons_of_mem _ hc, hrest⟩
  · intro p hp hready
    rcases (Table.mem_insert hphotos).mp hp with rfl | hp
    · cases hready
    · exact hw.ready p hp hready
  · intro p hp hprogress
    rcases (Table.mem_insert hphotos).mp hp with rfl | hp
    · exact hunactivated
    · exact hw.inProgress p hp hprogress
  · intro p hp q hq hprogress hprogress' huser
    rcases (Table.mem_insert hphotos).mp hp with rfl | hp
    · rcases (Table.mem_insert hphotos).mp hq with rfl | hq
      · rfl
      · exact absurd huser.symm (hidle q hq hprogress')
    · rcases (Table.mem_insert hphotos).mp hq with rfl | hq
      · exact absurd huser (hidle p hp hprogress)
      · exact hw.single p hp q hq hprogress hprogress' huser
  · intro r hr
    rcases (Table.mem_insert hrequests).mp hr with rfl | hr
    · refine ⟨photo, List.mem_cons_self, ⟨rfl, rfl, rfl⟩, Or.inr ⟨fun hconsumed ↦ ?_, rfl, ?_, ?_⟩⟩
      · cases hconsumed
      · exact ⟨_, (Table.mem_insert hphotos).mpr (Or.inl rfl), rfl⟩
      · exact iff_of_false (fun hcompleted ↦ by cases hcompleted) hunactivated
    · obtain ⟨c, hc, hof, htracks⟩ := hw.requests r hr
      refine ⟨c, List.mem_cons_of_mem _ hc, hof, htracks.photos fun p hp _ ↦ ?_⟩
      exact ⟨p, (Table.mem_insert hphotos).mpr (Or.inr hp), rfl⟩
  · intro c hc hactivated
    rcases hw.kept c (hnew c hc hactivated) hactivated with hexpired | hclosed | ⟨r, hr, hrest⟩
    · exact Or.inl hexpired
    · exact Or.inr (Or.inl hclosed)
    · exact Or.inr (Or.inr ⟨r, (Table.mem_insert hrequests).mpr (Or.inr hr), hrest⟩)
  · intro c hc d hd hkey hactivated hactivated'
    exact hw.once c (hnew c hc hactivated) d (hnew d hd hactivated') hkey hactivated hactivated'
  · rw [List.map_cons, List.nodup_cons]
    refine ⟨fun hmem ↦ ?_, hw.distinct⟩
    obtain ⟨c, hc, hsame⟩ := List.mem_map.mp hmem
    exact hfresh c hc hsame
  · intro id hactivated
    obtain ⟨c, hc, hid⟩ := hw.activated id hactivated
    exact ⟨c, List.mem_cons_of_mem _ hc, hid⟩

theorem isProcessing_iff {photoId userId : Uuid} {p : UserPhoto} :
    PhotoDb.isProcessing photoId userId p = true ↔
      p.id = photoId ∧ p.userId = userId ∧ p.status = .processing := by
  unfold PhotoDb.isProcessing
  simp only [Bool.and_eq_true, decide_eq_true_eq, and_assoc]

/-- The photo of a request becomes ready, and the request is completed. -/
theorem UploadInvariant.complete (hw : UploadInvariant db created activated clock)
    {photoId userId : Uuid} (now : ℤ) (hopen : userId ∉ db.closed)
    (hphoto : ∃ p ∈ db.photos, PhotoDb.isProcessing photoId userId p = true)
    (hrequest : ∃ r ∈ db.requests, PhotoDb.isRequestOf photoId userId r = true) :
    UploadInvariant { db with
      photos := db.photos.modify (PhotoDb.isProcessing photoId userId) (UserPhoto.activate now)
        (UserPhoto.id_activate now)
      requests := db.requests.modify (PhotoDb.isRequestOf photoId userId) PhotoUploadRequest.complete
        PhotoUploadRequest.key_complete } created (photoId :: activated) clock := by
  obtain ⟨p₀, hp₀, hp₀is⟩ := hphoto
  obtain ⟨r₀, hr₀, hr₀is⟩ := hrequest
  obtain ⟨hp₀id, hp₀user, hp₀status⟩ := isProcessing_iff.mp hp₀is
  obtain ⟨hr₀user, hr₀id, hr₀status⟩ := isRequestOf_iff.mp hr₀is
  obtain ⟨c₀, hc₀, hof₀, htracks₀⟩ := hw.requests r₀ hr₀
  have hc₀id : photoId = c₀.id := (htracks₀.photo hr₀id).1
  have hother : ∀ p ∈ db.photos, PhotoDb.isProcessing photoId userId p = false → p.id ≠ photoId := by
    intro p hp hnot hid
    obtain rfl := Table.eq_of_key_eq hp hp₀ (hid.trans hp₀id.symm)
    rw [hp₀is] at hnot
    cases hnot
  have hcases : ∀ p' ∈ db.photos.modify (PhotoDb.isProcessing photoId userId) (UserPhoto.activate now)
      (UserPhoto.id_activate now), ∃ p ∈ db.photos, p'.id = p.id ∧ p'.userId = p.userId ∧
        p'.objectKey = p.objectKey ∧
        (p'.id = photoId ∧ p'.status = .ready ∨ p'.id ≠ photoId ∧ p' = p) := by
    intro p' hp'
    obtain ⟨p, hp, rfl⟩ := (Table.mem_modify _).mp hp'
    refine ⟨p, hp, ?_⟩
    split
    · rename_i hpasses
      exact ⟨rfl, rfl, rfl, Or.inl ⟨(isProcessing_iff.mp hpasses).1, rfl⟩⟩
    · rename_i hnot
      exact ⟨rfl, rfl, rfl, Or.inr ⟨hother p hp (Bool.eq_false_iff.mpr hnot), rfl⟩⟩
  have hkept : ∀ c ∈ created, c.id ∈ photoId :: activated → c.expiresAt ≤ clock ∨ c.userId ∈ db.closed ∨
      ∃ r ∈ db.requests.modify (PhotoDb.isRequestOf photoId userId) PhotoUploadRequest.complete
        PhotoUploadRequest.key_complete, OfRequest c r ∧ r.status ≠ .processing ∧
          (r.status = .completed → r.photoId = some c.id) := by
    intro c hc hactivated
    rcases List.mem_cons.mp hactivated with hid | hold
    · obtain rfl := hw.created_eq hc hc₀ (hid.trans hc₀id)
      refine Or.inr (Or.inr ⟨r₀.complete, (Table.mem_modify PhotoUploadRequest.key_complete).mpr
        ⟨r₀, hr₀, (if_pos hr₀is).symm⟩, ⟨hof₀.key, hof₀.requestSha256, hof₀.expiresAt⟩, (nomatch ·),
        fun _ ↦ ?_⟩)
      rw [← hc₀id]
      exact hr₀id
    · rcases hw.kept c hc hold with hexpired | hclosed | ⟨r, hr, hof, hstatus, hcompleted⟩
      · exact Or.inl hexpired
      · exact Or.inr (Or.inl hclosed)
      · refine Or.inr (Or.inr ⟨r, (Table.mem_modify PhotoUploadRequest.key_complete).mpr ⟨r, hr, ?_⟩,
          hof, hstatus, hcompleted⟩)
        rw [if_neg]
        exact fun his ↦ hstatus (isRequestOf_iff.mp his).2.2
  have hexpires : ∀ c ∈ created, c.key = c₀.key → c.id ∈ activated → c.id ≠ c₀.id → c.expiresAt ≤ clock := by
    intro c hc hkey hactivated hdistinct
    rcases hw.kept c hc hactivated with hexpired | hclosed | ⟨r, hr, hof, hstatus, hcompleted⟩
    · exact hexpired
    · have huser : c.userId = userId :=
        (congrArg Prod.fst hkey).trans ((congrArg Prod.fst hof₀.key).symm.trans hr₀user)
      exact absurd (huser ▸ hclosed) hopen
    · obtain rfl := Table.eq_of_key_eq hr hr₀ (hof.key.trans (hkey.trans hof₀.key.symm))
      exact absurd hr₀status hstatus
  constructor
  · intro p' hp'
    obtain ⟨p, hp, hid, huser, hkey, _⟩ := hcases p' hp'
    obtain ⟨c, hc, hcid, hcuser, hckey⟩ := hw.photos p hp
    exact ⟨c, hc, hcid.trans hid.symm, hcuser.trans huser.symm, hckey.trans hkey.symm⟩
  · intro p' hp' hready
    obtain ⟨p, hp, _, _, _, ⟨hid, _⟩ | ⟨_, rfl⟩⟩ := hcases p' hp'
    · rw [hid]
      exact List.mem_cons_self
    · exact List.mem_cons_of_mem _ (hw.ready p' hp hready)
  · intro p' hp' hprogress
    obtain ⟨p, hp, _, _, _, ⟨_, hready⟩ | ⟨hid, rfl⟩⟩ := hcases p' hp'
    · rw [hready] at hprogress
      cases hprogress
    · rw [List.mem_cons, not_or]
      exact ⟨hid, hw.inProgress p' hp hprogress⟩
  · intro p' hp' q' hq' hprogress hprogress' huser
    obtain ⟨p, hp, _, _, _, ⟨_, hready⟩ | ⟨_, rfl⟩⟩ := hcases p' hp'
    · rw [hready] at hprogress
      cases hprogress
    · obtain ⟨q, hq, _, _, _, ⟨_, hready⟩ | ⟨_, rfl⟩⟩ := hcases q' hq'
      · rw [hready] at hprogress'
        cases hprogress'
      · exact hw.single p' hp q' hq hprogress hprogress' huser
  · intro r' hr'
    obtain ⟨r, hr, rfl⟩ := (Table.mem_modify PhotoUploadRequest.key_complete).mp hr'
    obtain ⟨c, hc, hof, htracks⟩ := hw.requests r hr
    refine ⟨c, hc, ?_⟩
    rcases htracks with hconsumed | ⟨hstatus, hid, ⟨p, hp, hpid⟩, hcompleted⟩
    · have hnot : ¬ PhotoDb.isRequestOf photoId userId r = true := by
        intro his
        rw [(isRequestOf_iff.mp his).2.2] at hconsumed
        cases hconsumed.1
      rw [if_neg hnot]
      exact ⟨hof, Or.inl hconsumed⟩
    · have hphoto : ∃ q ∈ db.photos.modify (PhotoDb.isProcessing photoId userId) (UserPhoto.activate now)
          (UserPhoto.id_activate now), q.id = c.id := by
        refine ⟨_, (Table.mem_modify (UserPhoto.id_activate now)).mpr ⟨p, hp, rfl⟩, ?_⟩
        split <;> exact hpid
      split
      · rename_i his
        have hcid : c.id = photoId := Option.some.inj (hid.symm.trans (isRequestOf_iff.mp his).2.1)
        refine ⟨⟨hof.key, hof.requestSha256, hof.expiresAt⟩, Or.inr ⟨(nomatch ·), hid, hphoto, ?_⟩⟩
        exact iff_of_true rfl (hcid ▸ List.mem_cons_self)
      · rename_i hnot
        refine ⟨hof, Or.inr ⟨hstatus, hid, hphoto, ?_⟩⟩
        rw [hcompleted, List.mem_cons]
        refine ⟨Or.inr, ?_⟩
        rintro (hcid | hold)
        · obtain rfl := hw.created_eq hc hc₀ (hcid.trans hc₀id)
          obtain rfl := Table.eq_of_key_eq hr hr₀ (hof.key.trans hof₀.key.symm)
          exact absurd hr₀is hnot
        · exact hold
  · exact hkept
  · intro c hc d hd hkey hactivated hactivated' hdistinct
    rcases List.mem_cons.mp hactivated with hid | hold
    · obtain rfl := hw.created_eq hc hc₀ (hid.trans hc₀id)
      rcases List.mem_cons.mp hactivated' with hid' | hold'
      · exact absurd (hid.trans hid'.symm) hdistinct
      · exact Or.inr (hexpires d hd hkey.symm hold' hdistinct.symm)
    · rcases List.mem_cons.mp hactivated' with hid' | hold'
      · obtain rfl := hw.created_eq hd hc₀ (hid'.trans hc₀id)
        exact Or.inl (hexpires c hc hkey hold hdistinct)
      · exact hw.once c hc d hd hkey hold hold' hdistinct
  · exact hw.distinct
  · refine List.forall_mem_cons.mpr ⟨⟨c₀, hc₀, hc₀id.symm⟩, hw.activated⟩

theorem UploadInvariant.activate (hw : UploadInvariant db created activated clock)
    {photoId userId : Uuid} {now : ℤ} {db' : PhotoDb}
    (h : db.activate photoId userId now = .ok (db', true)) :
    UploadInvariant db' created (photoId :: activated) clock ∧ userId ∉ db.closed ∧
      ∃ p ∈ db.photos, p.id = photoId ∧ p.status = .processing := by
  unfold PhotoDb.activate at h
  split at h
  · cases h
  · rename_i hlock
    have hopen : userId ∉ db.closed := by
      have hlock' : db.lockActiveProfile userId = true := by simpa using hlock
      exact (of_decide_eq_true hlock').2
    split at h
    · cases h
    · rename_i hcandidate
      have hany : (db.photos.rows.any fun p ↦
          PhotoDb.isProcessing photoId userId p && p.metadata.isSome) = true := by
        simpa only [Bool.not_eq_true', Bool.not_eq_false] using hcandidate
      obtain ⟨p, hp, hpasses⟩ := List.any_eq_true.mp hany
      have his := (Bool.and_eq_true_iff.mp hpasses).1
      obtain ⟨hid, huser, hstatus⟩ := isProcessing_iff.mp his
      dsimp only at h
      split at h
      · cases h
      · split at h
        · cases h
        · rename_i hcount
          obtain ⟨rfl, _⟩ := Prod.mk.inj (Except.ok.inj h)
          have hone : db.requests.count (PhotoDb.isRequestOf photoId userId) = 1 := by
            by_contra hother
            exact hcount hother
          refine ⟨?_, hopen, p, hp, hid, hstatus⟩
          have hmarked := hw.markDeleting
            (fun p ↦ decide (p.userId = userId) && decide (p.status = .ready)) now
          refine UploadInvariant.of_eq (hmarked.complete now hopen ⟨p, ?_, his⟩ ?_) rfl rfl fun _ h ↦ h
          · refine (Table.mem_modify (UserPhoto.id_delete now)).mpr ⟨p, hp, ?_⟩
            rw [if_neg]
            simp [hstatus]
          · exact Table.count_pos_iff.mp (hone ▸ Nat.one_pos)

end Photos

section Links

variable {db db' : PhotoDb} {created : List ProcessingPhoto} {activated : List Uuid} {clock : ℤ}

/-- A photo that is not being deleted is named by its request, until that has
expired. -/
def Linked (db : PhotoDb) (created : List ProcessingPhoto) (clock : ℤ) : Prop :=
  ∀ c ∈ created, clock < c.expiresAt → c.userId ∉ db.closed → ∀ p ∈ db.photos, p.id = c.id →
    p.status ≠ .deleting → ∃ r ∈ db.requests, OfRequest c r ∧ r.photoId = some c.id

/-- Every photo is an old one, which is still being deleted if it was. -/
def Onward (db db' : PhotoDb) : Prop :=
  ∀ p' ∈ db'.photos, ∃ p ∈ db.photos, p.id = p'.id ∧ (p'.status ≠ .deleting → p.status ≠ .deleting)

theorem Onward.of_subset (h : ∀ p ∈ db'.photos, p ∈ db.photos) : Onward db db' :=
  fun p hp ↦ ⟨p, h p hp, rfl, fun h ↦ h⟩

theorem onward_modify {p : UserPhoto → Bool} {f : UserPhoto → UserPhoto} (hf : ∀ q, (f q).id = q.id)
    (hstatus : ∀ q ∈ db.photos, p q = true → (f q).status ≠ .deleting → q.status ≠ .deleting)
    (hphotos : db'.photos = db.photos.modify p f hf) : Onward db db' := by
  intro q' hq'
  rw [hphotos] at hq'
  obtain ⟨q, hq, rfl⟩ := (Table.mem_modify hf).mp hq'
  refine ⟨q, hq, ?_⟩
  split
  · rename_i hpq
    exact ⟨(hf q).symm, hstatus q hq hpq⟩
  · exact ⟨rfl, fun h ↦ h⟩

theorem onward_markDeleting (p : UserPhoto → Bool) (now : ℤ) :
    Onward db (db.markDeleting p now) :=
  onward_modify (UserPhoto.id_delete now) (fun _ _ _ h ↦ absurd rfl h) rfl

theorem Linked.onward (h : Linked db created clock) (honward : Onward db db')
    (hclosed : ∀ u ∈ db.closed, u ∈ db'.closed)
    (hrequests : ∀ c ∈ created, clock < c.expiresAt → c.userId ∉ db'.closed → ∀ p ∈ db'.photos,
      p.id = c.id → p.status ≠ .deleting → ∀ r ∈ db.requests, OfRequest c r → r.photoId = some c.id →
        ∃ r' ∈ db'.requests, OfRequest c r' ∧ r'.photoId = some c.id) :
    Linked db' created clock := by
  intro c hc hunexpired hopen p' hp' hid hstatus
  obtain ⟨p, hp, hpid, hkeeps⟩ := honward p' hp'
  obtain ⟨r, hr, hof, hphoto⟩ := h c hc hunexpired (fun hmem ↦ hopen (hclosed _ hmem)) p hp
    (hpid.trans hid) (hkeeps hstatus)
  exact hrequests c hc hunexpired hopen p' hp' hid hstatus r hr hof hphoto

/-- The requests stay as they are. -/
theorem Linked.same (h : Linked db created clock) (honward : Onward db db')
    (hclosed : ∀ u ∈ db.closed, u ∈ db'.closed)
    (hrequests : db'.requests = db.requests) : Linked db' created clock := by
  refine h.onward honward hclosed fun c _ _ _ p _ _ _ r hr hof hphoto ↦ ⟨r, ?_, hof, hphoto⟩
  rw [hrequests]
  exact hr

theorem Linked.dropRequests (h : Linked db created clock) {p : PhotoUploadRequest → Bool}
    (hp : ∀ r ∈ db.requests, p r = true → r.expiresAt ≤ clock ∨ r.userId ∈ db.closed) :
    Linked { db with requests := db.requests.delete p } created clock := by
  intro c hc hunexpired hopen q hq hid hstatus
  obtain ⟨r, hr, hof, hphoto⟩ := h c hc hunexpired hopen q hq hid hstatus
  refine ⟨r, Table.mem_delete.mpr ⟨hr, Bool.eq_false_iff.mpr fun hdropped ↦ ?_⟩, hof, hphoto⟩
  rcases hp r hr hdropped with hexpired | hclosed
  · rw [hof.expiresAt] at hexpired
    omega
  · have huser : r.userId = c.userId := congrArg Prod.fst hof.key
    exact hopen (huser ▸ hclosed)

theorem mem_deletePhotos {p : UserPhoto → Bool} {q : UserPhoto} :
    q ∈ (db.deletePhotos p).photos ↔ q ∈ db.photos ∧ p q = false := Table.mem_delete

/-- A link of a photo that stays is not cut. -/
theorem exists_link_deletePhotos {p : UserPhoto → Bool} {c : ProcessingPhoto} {r : PhotoUploadRequest}
    (hr : r ∈ db.requests) (hof : OfRequest c r) (hphoto : r.photoId = some c.id)
    (hstays : ∀ q ∈ db.photos, p q = true → q.id ≠ c.id) :
    ∃ r' ∈ (db.deletePhotos p).requests, OfRequest c r' ∧ r'.photoId = some c.id := by
  refine ⟨_, (Table.mem_modify PhotoUploadRequest.key_unlink).mpr ⟨r, hr, rfl⟩, ?_⟩
  rw [if_neg]
  · exact ⟨hof, hphoto⟩
  · rw [hphoto, Option.any_some, decide_eq_true_eq]
    intro hmem
    obtain ⟨q, hq, hid⟩ := List.mem_map.mp hmem
    obtain ⟨hq, hpq⟩ := Table.mem_select.mp hq
    exact hstays q hq hpq hid

theorem Linked.completeDeletion (h : Linked db created clock) {photoId : Uuid}
    (hdeleting : ∀ p ∈ db.photos, p.id = photoId → p.status = .deleting) :
    Linked (db.completeDeletion photoId) created clock := by
  intro c hc hunexpired hopen p hp hid hstatus
  obtain ⟨hp, _⟩ := mem_deletePhotos.mp hp
  obtain ⟨r, hr, hof, hphoto⟩ := h c hc hunexpired hopen p hp hid hstatus
  have hother : c.id ≠ photoId := fun hsame ↦ hstatus (hdeleting p hp (hid.trans hsame))
  refine exists_link_deletePhotos (r := r) ?_ hof hphoto fun q _ hgone hqid ↦ ?_
  · refine (Table.mem_modify PhotoUploadRequest.key_consume).mpr ⟨r, hr, ?_⟩
    rw [if_neg]
    rw [hphoto, decide_eq_true_eq]
    exact fun hsame ↦ hother (Option.some.inj hsame)
  · simp only [Bool.and_eq_true, decide_eq_true_eq] at hgone
    exact hother (hqid.symm.trans hgone.1)

theorem Linked.discardProcessing (h : Linked db created clock)
    (hw : UploadInvariant db created activated clock) (photoId userId : Uuid) :
    Linked (db.discardProcessing photoId userId) created clock := by
  intro c hc hunexpired hopen p hp hid hstatus
  obtain ⟨hp, hstays⟩ := mem_deletePhotos.mp hp
  obtain ⟨r, hr, hof, hphoto⟩ := h c hc hunexpired hopen p hp hid hstatus
  obtain ⟨d, hd, _, htracks⟩ := hw.requests r hr
  obtain ⟨hcd, _, hcompleted⟩ := htracks.photo hphoto
  refine exists_link_deletePhotos (r := r) ?_ hof hphoto fun q hq hgone hqid ↦ ?_
  · refine Table.mem_delete.mpr ⟨hr, Bool.eq_false_iff.mpr fun his ↦ ?_⟩
    obtain ⟨huser, hsame, hprocessing⟩ := isRequestOf_iff.mp his
    have hcid : c.id = photoId := Option.some.inj (hphoto.symm.trans hsame)
    have howner := hw.owner hr hp (by rw [hphoto, hid])
    refine Bool.eq_false_iff.mp hstays ?_
    simp only [Bool.and_eq_true, decide_eq_true_eq]
    refine ⟨⟨hid.trans hcid, howner.symm.trans huser⟩, ?_⟩
    cases hcase : p.status with
    | pending | processing => rfl
    | deleting => exact absurd hcase hstatus
    | ready =>
        have hactivated := hw.ready p hp hcase
        rw [hid, hcd] at hactivated
        rw [hcompleted.mpr hactivated] at hprocessing
        cases hprocessing
  · obtain rfl := Table.eq_of_key_eq hq hp (hqid.trans hid.symm)
    exact Bool.eq_false_iff.mp hstays hgone

theorem Linked.insert (h : Linked db created clock) {photo : ProcessingPhoto} {now : ℤ}
    {photos : PhotoTable} {requests : RequestTable}
    (hphotos : db.photos.insert? (PhotoDb.newPhoto photo now) = some photos)
    (hrequests : db.requests.insert? (PhotoDb.newRequest photo) = some requests)
    (hcreated : ∀ c ∈ created, c.id ≠ photo.id) :
    Linked { db with photos, requests } (photo :: created) clock := by
  intro c hc hunexpired hopen p hp hid hstatus
  rcases List.mem_cons.mp hc with rfl | hc
  · exact ⟨_, (Table.mem_insert hrequests).mpr (Or.inl rfl), ⟨rfl, rfl, rfl⟩, rfl⟩
  · rcases (Table.mem_insert hphotos).mp hp with rfl | hp
    · exact absurd hid.symm (hcreated c hc)
    · obtain ⟨r, hr, hrest⟩ := h c hc hunexpired hopen p hp hid hstatus
      exact ⟨r, (Table.mem_insert hrequests).mpr (Or.inr hr), hrest⟩

theorem Linked.activate (h : Linked db created clock) {photoId userId : Uuid} {now : ℤ}
    (hactivate : db.activate photoId userId now = .ok (db', true)) :
    Linked db' created clock ∧ Onward db db' := by
  unfold PhotoDb.activate at hactivate
  split at hactivate
  · cases hactivate
  · split at hactivate
    · cases hactivate
    · dsimp only at hactivate
      split at hactivate
      · cases hactivate
      · split at hactivate
        · cases hactivate
        · obtain ⟨rfl, _⟩ := Prod.mk.inj (Except.ok.inj hactivate)
          have honward : Onward db { db with
              photos := (db.markDeleting (fun p ↦ decide (p.userId = userId) &&
                decide (p.status = .ready)) now).photos.modify (PhotoDb.isProcessing photoId userId)
                  (UserPhoto.activate now) (UserPhoto.id_activate now) } := by
            intro p'' hp''
            obtain ⟨p', hp', rfl⟩ := (Table.mem_modify (UserPhoto.id_activate now)).mp hp''
            obtain ⟨p, hp, rfl⟩ := (Table.mem_modify (UserPhoto.id_delete now)).mp hp'
            refine ⟨p, hp, ?_⟩
            split <;> rename_i hready <;> simp only [Bool.and_eq_true, decide_eq_true_eq] at hready
            · split
              · exact ⟨rfl, fun _ ↦ by rw [hready.2]; decide⟩
              · exact ⟨rfl, fun hcontra ↦ absurd rfl hcontra⟩
            · split
              · rename_i hprocessing
                refine ⟨rfl, fun _ ↦ ?_⟩
                rw [(isProcessing_iff.mp hprocessing).2.2]
                decide
              · exact ⟨rfl, fun h ↦ h⟩
          refine ⟨h.onward honward (fun _ h ↦ h) ?_, honward⟩
          intro c _ _ _ p _ _ _ r hr hof hphoto
          refine ⟨_, (Table.mem_modify PhotoUploadRequest.key_complete).mpr ⟨r, hr, rfl⟩, ?_⟩
          split
          · exact ⟨⟨hof.key, hof.requestSha256, hof.expiresAt⟩, hphoto⟩
          · exact ⟨hof, hphoto⟩

end Links

section Calls

variable {codec : UploadCodec} {w : Uploads} {calls : Table UploadCall.id}
  {created : List ProcessingPhoto} {activated issued : List Uuid} {clock : ℤ}

structure CallInvariant (codec : UploadCodec) (calls : Table UploadCall.id)
    (created : List ProcessingPhoto) (activated issued : List Uuid) (clock : ℤ) : Prop where
  issued : ∀ k ∈ calls, k.photo.id ∈ issued
  created : ∀ c ∈ created, ∃ k ∈ calls, k.photo = c ∧ k.phase ≠ .received
  distinct : ∀ k ∈ calls, ∀ l ∈ calls, k.photo.id = l.photo.id → k = l
  unfinished : ∀ k ∈ calls, k.phase ≠ .answered → k.photo.id ∉ activated
  hashed : ∀ k ∈ calls, k.photo.requestSha256 = uploadRequestHash codec k.upload ∧
    k.upload.Received ∧ k.photo.createdAt ≤ clock

theorem CallInvariant.createdIssued (hw : CallInvariant codec calls created activated issued clock) :
    ∀ c ∈ created, c.id ∈ issued := by
  intro c hc
  obtain ⟨k, hk, rfl, _⟩ := hw.created c hc
  exact hw.issued k hk

/-- A received call has created nothing. -/
theorem CallInvariant.fresh (hw : CallInvariant codec calls created activated issued clock)
    {k : UploadCall} (hk : k ∈ calls) (hphase : k.phase = .received) :
    ∀ c ∈ created, c.id ≠ k.photo.id := by
  intro c hc hid
  obtain ⟨l, hl, rfl, hstarted⟩ := hw.created c hc
  obtain rfl := hw.distinct l hl k hk hid
  exact hstarted hphase

/-- One call moves on. -/
theorem CallInvariant.move (hw : CallInvariant codec w.calls created activated issued clock)
    {k : UploadCall} (hk : k ∈ w.calls) (phase : UploadPhase) (hstarted : phase ≠ .received)
    (hopen : phase ≠ .answered → k.phase ≠ .answered) :
    CallInvariant codec (w.move k.id phase) created activated issued clock := by
  have hmem : ∀ l', l' ∈ w.move k.id phase ↔
      l' = k.withPhase phase ∨ l' ∈ w.calls ∧ l'.id ≠ k.id :=
    fun l' ↦ Table.mem_modify_key (UploadCall.id_withPhase phase) hk
  have hphoto : ∀ l' ∈ w.move k.id phase, ∃ l ∈ w.calls, l'.photo = l.photo ∧ l'.upload = l.upload ∧
      l'.id = l.id := by
    intro l' hl'
    rcases (hmem l').mp hl' with rfl | ⟨hl, _⟩
    · exact ⟨k, hk, rfl, rfl, rfl⟩
    · exact ⟨l', hl, rfl, rfl, rfl⟩
  constructor
  · intro l' hl'
    obtain ⟨l, hl, hsame, _⟩ := hphoto l' hl'
    rw [hsame]
    exact hw.issued l hl
  · intro c hc
    obtain ⟨l, hl, rfl, hphase⟩ := hw.created c hc
    by_cases hid : l.id = k.id
    · obtain rfl := Table.eq_of_key_eq hl hk hid
      exact ⟨l.withPhase phase, (hmem _).mpr (Or.inl rfl), rfl, hstarted⟩
    · exact ⟨l, (hmem l).mpr (Or.inr ⟨hl, hid⟩), rfl, hphase⟩
  · intro l' hl' m' hm' hsame
    obtain ⟨l, hl, hlphoto, _, hlid⟩ := hphoto l' hl'
    obtain ⟨m, hm, hmphoto, _, hmid⟩ := hphoto m' hm'
    have heq := hw.distinct l hl m hm (by rw [← hlphoto, ← hmphoto, hsame])
    exact Table.eq_of_key_eq hl' hm' (hlid.trans ((congrArg UploadCall.id heq).trans hmid.symm))
  · intro l' hl' hphase
    rcases (hmem l').mp hl' with rfl | ⟨hl, _⟩
    · exact hw.unfinished k hk (hopen hphase)
    · exact hw.unfinished l' hl hphase
  · intro l' hl'
    obtain ⟨l, hl, hsame, hupload, _⟩ := hphoto l' hl'
    rw [hsame, hupload]
    exact hw.hashed l hl

theorem CallInvariant.create (hw : CallInvariant codec w.calls created activated issued clock)
    {k : UploadCall} (hk : k ∈ w.calls) (hphase : k.phase = .received) :
    CallInvariant codec (w.move k.id (.created w.clock)) (k.photo :: created) activated issued clock := by
  have hmoved := hw.move hk (.created w.clock) (nomatch ·) fun _ ↦ by rw [hphase]; exact (nomatch ·)
  refine ⟨hmoved.issued, List.forall_mem_cons.mpr ⟨?_, hmoved.created⟩, hmoved.distinct,
    hmoved.unfinished, hmoved.hashed⟩
  exact ⟨k.withPhase (.created w.clock), (Table.mem_modify_key (UploadCall.id_withPhase _) hk).mpr (Or.inl rfl),
    rfl, (nomatch ·)⟩

theorem CallInvariant.activate (hw : CallInvariant codec w.calls created activated issued clock)
    {k : UploadCall} (hk : k ∈ w.calls) :
    CallInvariant codec (w.move k.id .answered) created (k.photo.id :: activated) issued clock := by
  have hmoved := hw.move hk .answered (nomatch ·) fun hcontra ↦ absurd rfl hcontra
  refine ⟨hmoved.issued, hmoved.created, hmoved.distinct, fun l hl hphase hmem ↦ ?_, hmoved.hashed⟩
  rcases List.mem_cons.mp hmem with hsame | hold
  · rcases (Table.mem_modify_key (UploadCall.id_withPhase _) hk).mp hl with rfl | ⟨hl', hid⟩
    · exact hphase rfl
    · exact hid (congrArg UploadCall.id (hw.distinct l hl' k hk hsame))
  · exact hmoved.unfinished l hl hphase hold

theorem CallInvariant.later (hw : CallInvariant codec calls created activated issued clock) {now : ℤ}
    (h : clock ≤ now) : CallInvariant codec calls created activated issued now :=
  ⟨hw.issued, hw.created, hw.distinct, hw.unfinished, fun k hk ↦
    ⟨(hw.hashed k hk).1, (hw.hashed k hk).2.1, (hw.hashed k hk).2.2.trans h⟩⟩

theorem CallInvariant.receive (hw : CallInvariant codec w.calls w.created activated w.issued w.clock)
    {k : UploadCall} {calls' : Table UploadCall.id} (hinsert : w.calls.insert? k = some calls')
    (hfresh : k.photo.id ∉ w.issued) (hactivated : k.photo.id ∉ activated)
    (hhash : k.photo.requestSha256 = uploadRequestHash codec k.upload) (hreceived : k.upload.Received)
    (hcreated : k.photo.createdAt ≤ w.clock) :
    CallInvariant codec calls' w.created activated (k.photo.id :: w.issued) w.clock := by
  constructor
  · intro l hl
    rcases (Table.mem_insert hinsert).mp hl with rfl | hl
    · exact List.mem_cons_self
    · exact List.mem_cons_of_mem _ (hw.issued l hl)
  · intro c hc
    obtain ⟨l, hl, hrest⟩ := hw.created c hc
    exact ⟨l, (Table.mem_insert hinsert).mpr (Or.inr hl), hrest⟩
  · intro l hl m hm hsame
    rcases (Table.mem_insert hinsert).mp hl with rfl | hl
    · rcases (Table.mem_insert hinsert).mp hm with rfl | hm
      · rfl
      · exact absurd (hsame ▸ hw.issued m hm) hfresh
    · rcases (Table.mem_insert hinsert).mp hm with rfl | hm
      · exact absurd (hsame ▸ hw.issued l hl) hfresh
      · exact hw.distinct l hl m hm hsame
  · intro l hl hphase
    rcases (Table.mem_insert hinsert).mp hl with rfl | hl
    · exact hactivated
    · exact hw.unfinished l hl hphase
  · intro l hl
    rcases (Table.mem_insert hinsert).mp hl with rfl | hl
    · exact ⟨hhash, hreceived, hcreated⟩
    · exact hw.hashed l hl

end Calls

section Runs

variable {codec : UploadCodec} {w : Uploads} {a : UploadStep}

/-- What a worker has read as being deleted stays so. -/
def Settled (deleting : List Uuid) (created : List ProcessingPhoto) (db : PhotoDb) : Prop :=
  ∀ id ∈ deleting, (∃ c ∈ created, c.id = id) ∧ ∀ p ∈ db.photos, p.id = id → p.status = .deleting

theorem Settled.onward {deleting : List Uuid} {created : List ProcessingPhoto} {db db' : PhotoDb}
    (h : Settled deleting created db) (honward : Onward db db') : Settled deleting created db' := by
  intro id hid
  obtain ⟨hcreated, hdeleting⟩ := h id hid
  refine ⟨hcreated, fun p' hp' hsame ↦ ?_⟩
  obtain ⟨p, hp, hpid, hkeeps⟩ := honward p' hp'
  by_contra hstatus
  exact hkeeps hstatus (hdeleting p hp (hpid.trans hsame))

structure UploadsInvariant (codec : UploadCodec) (w : Uploads) : Prop where
  db : UploadInvariant w.db w.created w.activated w.clock
  calls : CallInvariant codec w.calls w.created w.activated w.issued w.clock
  settled : Settled w.deleting w.created w.db
  linked : Linked w.db w.created w.clock

theorem uploadsInvariant_start (codec : UploadCodec) (clock : ℤ) :
    UploadsInvariant codec (.start clock) where
  db :=
    ⟨fun p hp ↦ absurd hp (Table.notMem_empty p), fun p hp ↦ absurd hp (Table.notMem_empty p),
      fun p hp ↦ absurd hp (Table.notMem_empty p), fun p hp ↦ absurd hp (Table.notMem_empty p),
      fun r hr ↦ absurd hr (Table.notMem_empty r), fun _ hc ↦ absurd hc List.not_mem_nil,
      fun _ hc ↦ absurd hc List.not_mem_nil, List.nodup_nil, fun _ hid ↦ absurd hid List.not_mem_nil⟩
  calls :=
    ⟨fun k hk ↦ absurd hk (Table.notMem_empty k), fun _ hc ↦ absurd hc List.not_mem_nil,
      fun k hk ↦ absurd hk (Table.notMem_empty k), fun k hk ↦ absurd hk (Table.notMem_empty k),
      fun k hk ↦ absurd hk (Table.notMem_empty k)⟩
  settled _ hid := absurd hid List.not_mem_nil
  linked _ hc := absurd hc List.not_mem_nil

/-- Only photos are rewritten, and what is being deleted stays so. -/
theorem UploadsInvariant.marked (hw : UploadsInvariant codec w) (p : UserPhoto → Bool) (now : ℤ) :
    UploadsInvariant codec { w with db := w.db.markDeleting p now } :=
  ⟨hw.db.markDeleting p now, hw.calls, hw.settled.onward (onward_markDeleting p now),
    hw.linked.same (onward_markDeleting p now) (fun _ h ↦ h) rfl⟩

theorem UploadsInvariant.decided (hw : UploadsInvariant codec w) (photoId : Uuid)
    (status : ModerationStatus) :
    UploadsInvariant codec { w with db := { w.db with
      cases := w.db.cases.modify (fun c ↦ c.photoId = photoId) (ContentModerationCase.decide status)
        (ContentModerationCase.photoId_decide status) } } :=
  ⟨hw.db.of_eq rfl rfl fun _ h ↦ h, hw.calls, hw.settled,
    hw.linked.same (Onward.of_subset fun _ h ↦ h) (fun _ h ↦ h) rfl⟩

/-- A batch is marked, and its worker remembers it. -/
theorem UploadsInvariant.claimed (hw : UploadsInvariant codec w) {batch : List Uuid}
    (hbatch : ∀ id ∈ batch, ∃ p ∈ w.db.photos, p.id = id) (now : ℤ) :
    UploadsInvariant codec
      { w with db := w.db.claimBatch batch now, deleting := batch ++ w.deleting } := by
  have hmarked := hw.marked (fun p ↦ decide (p.id ∈ batch)) now
  refine ⟨hmarked.db, hmarked.calls, fun id hid ↦ ?_, hmarked.linked⟩
  rcases List.mem_append.mp hid with hnew | hold
  · obtain ⟨p, hp, rfl⟩ := hbatch id hnew
    obtain ⟨c, hc, hid, _⟩ := hw.db.photos p hp
    refine ⟨⟨c, hc, hid⟩, fun q' hq' hsame ↦ ?_⟩
    obtain ⟨q, _, rfl⟩ := (Table.mem_modify (UserPhoto.id_delete now)).mp hq'
    split at hsame
    · rename_i hmem
      rw [if_pos hmem]
      rfl
    · rename_i hother
      exact absurd (decide_eq_true (hsame ▸ hnew)) hother
  · exact hmarked.settled id hold

theorem exists_of_mem_accountBatch {db : PhotoDb} {userId : Uuid} {limit : ℕ} :
    ∀ id ∈ db.accountBatch userId limit, ∃ p ∈ db.photos, p.id = id := by
  intro id hid
  have hsorted := (List.mem_insertionSort _).mp (List.mem_of_mem_take hid)
  obtain ⟨p, hp, rfl⟩ := List.mem_map.mp hsorted
  exact ⟨p, (Table.mem_select.mp hp).1, rfl⟩

theorem exists_of_mem_cleanupBatch {db : PhotoDb} {staleBefore retryBefore : ℤ} {locked : Uuid → Bool}
    {limit : ℕ} : ∀ id ∈ db.cleanupBatch staleBefore retryBefore locked limit,
      ∃ p ∈ db.photos, p.id = id := by
  intro id hid
  obtain ⟨p, hp, rfl⟩ := List.mem_map.mp hid
  have hsorted := (List.mem_insertionSort _).mp (List.mem_of_mem_take hp)
  exact ⟨p, (Table.mem_select.mp hsorted).1, rfl⟩

theorem UploadsInvariant.dropped (hw : UploadsInvariant codec w) {p : PhotoUploadRequest → Bool}
    (hp : ∀ r ∈ w.db.requests, p r = true → r.expiresAt ≤ w.clock ∨ r.userId ∈ w.db.closed) :
    UploadsInvariant codec { w with db := { w.db with requests := w.db.requests.delete p } } :=
  ⟨hw.db.dropRequests hp, hw.calls, hw.settled, hw.linked.dropRequests hp⟩

/-- A call moves on, and the database stays as it is. -/
theorem UploadsInvariant.moved (hw : UploadsInvariant codec w) {k : UploadCall} (hk : k ∈ w.calls)
    (phase : UploadPhase) (hstarted : phase ≠ .received)
    (hopen : phase ≠ .answered → k.phase ≠ .answered) (answers : List UploadAnswer) :
    UploadsInvariant codec { w with calls := w.move k.id phase, answers } :=
  ⟨hw.db, hw.calls.move hk phase hstarted hopen, hw.settled, hw.linked⟩

theorem UploadsInvariant.answered (hw : UploadsInvariant codec w) {k : UploadCall} (hk : k ∈ w.calls)
    (result : Except PhotoError UploadResult) : UploadsInvariant codec (w.answer k result) :=
  hw.moved hk .answered (nomatch ·) (fun hcontra ↦ absurd rfl hcontra) _

theorem UploadsInvariant.createNext (hw : UploadsInvariant codec w) {k : UploadCall} (hk : k ∈ w.calls)
    (hphase : k.phase = .received) (available : Bool) :
    UploadsInvariant codec (w.createNext k available) := by
  unfold Uploads.createNext
  have hpurged : UploadsInvariant codec { w with db := w.db.purgeKey k.photo } := by
    refine hw.dropped fun r _ hdropped ↦ Or.inl ?_
    simp only [Bool.and_eq_true, decide_eq_true_eq] at hdropped
    exact hdropped.2.trans (hw.calls.hashed k hk).2.2
  split
  · exact hw.answered hk _
  · rename_i db result hcreate
    rcases createProcessing_cases hcreate with ⟨rfl, rfl⟩ | ⟨_, hcase⟩
    · exact hw.answered hk _
    · rcases hcase with ⟨hexisting, rfl⟩ | ⟨_, ⟨rfl, rfl, _⟩ |
        ⟨rfl, huploading, photos, requests, hphotos, hrequests, rfl⟩⟩
      · cases hanswer : creationAnswer available result with
        | some answer => exact hpurged.answered (k := k) hk answer
        | none =>
            refine absurd ?_ (existingResult_ne_created hexisting)
            cases result with
            | created => rfl
            | replay | profileNotFound | updateInProgress | idempotencyConflict | idempotencyConsumed =>
                cases hanswer
      · exact hpurged.answered (k := k) hk _
      · have hfresh := hw.calls.fresh hk hphase
        refine ⟨hpurged.db.insert hfresh huploading hphotos hrequests, hw.calls.create hk hphase, ?_,
          hpurged.linked.insert hphotos hrequests hfresh⟩
        intro id hid
        obtain ⟨⟨c, hc, hcid⟩, hdeleting⟩ := hpurged.settled id hid
        refine ⟨⟨c, List.mem_cons_of_mem _ hc, hcid⟩, fun p hp hsame ↦ ?_⟩
        rcases (Table.mem_insert hphotos).mp hp with rfl | hp
        · exact absurd (hcid.trans hsame.symm) (hfresh c hc)
        · exact hdeleting p hp hsame

theorem onward_recordProcessed {db db' : PhotoDb} {photoId userId : Uuid} {photo : ProcessedPhoto}
    {now : ℤ} {recorded : Bool} (h : db.recordProcessed photoId userId photo now = .ok (db', recorded)) :
    db' = db ∨ db' = { db with
      photos := db.photos.modify (PhotoDb.isProcessing photoId userId) (UserPhoto.record photo now)
        (UserPhoto.id_record photo now) } := by
  unfold PhotoDb.recordProcessed at h
  split at h
  · cases h
  · split at h
    · exact Or.inl (Prod.mk.inj (Except.ok.inj h)).1.symm
    · split at h
      · cases h
      · split at h
        · cases h
        · exact Or.inr (Prod.mk.inj (Except.ok.inj h)).1.symm

theorem UploadsInvariant.recorded (hw : UploadsInvariant codec w) {db' : PhotoDb} {photoId userId : Uuid}
    {photo : ProcessedPhoto} {recorded : Bool}
    (h : w.db.recordProcessed photoId userId photo w.clock = .ok (db', recorded)) :
    UploadsInvariant codec { w with db := db' } := by
  rcases onward_recordProcessed h with rfl | rfl
  · exact hw
  · have honward : Onward w.db { w.db with
        photos := w.db.photos.modify (PhotoDb.isProcessing photoId userId)
          (UserPhoto.record photo w.clock) (UserPhoto.id_record photo w.clock) } :=
      onward_modify (UserPhoto.id_record photo w.clock) (fun _ _ _ h ↦ h) rfl
    exact ⟨hw.db.rewrite _ (fun _ ↦ rfl) (fun _ ↦ rfl) fun _ ↦ Or.inl rfl, hw.calls,
      hw.settled.onward honward, hw.linked.same honward (fun _ h ↦ h) rfl⟩

theorem UploadsInvariant.next (hw : UploadsInvariant codec w) (ha : w.Enabled a) :
    UploadsInvariant codec (w.next codec a) := by
  cases a with
  | tick now =>
      have hnow : w.clock ≤ now := ha
      refine ⟨hw.db.later hnow, hw.calls.later hnow, hw.settled, fun c hc hunexpired ↦ ?_⟩
      exact hw.linked c hc (hnow.trans_lt hunexpired)
  | openProfile userId =>
      exact ⟨hw.db.of_eq rfl rfl fun _ h ↦ h, hw.calls, hw.settled,
        hw.linked.same (Onward.of_subset fun _ h ↦ h) (fun _ h ↦ h) rfl⟩
  | closeAccount userId =>
      have hgrows : ∀ u ∈ w.db.closed, u ∈ userId :: w.db.closed := fun u hu ↦ List.mem_cons_of_mem _ hu
      exact ⟨hw.db.of_eq rfl rfl hgrows, hw.calls, hw.settled,
        hw.linked.same (Onward.of_subset fun _ h ↦ h) hgrows rfl⟩
  | receive callId userId key photoId upload =>
      unfold Uploads.next
      dsimp only
      split
      · exact hw
      · rename_i calls hinsert
        have hfresh : photoId ∉ w.issued := ha.1
        have hactivated : photoId ∉ w.activated := by
          intro hmem
          obtain ⟨c, hc, rfl⟩ := hw.db.activated photoId hmem
          exact hfresh (hw.calls.createdIssued c hc)
        exact ⟨hw.db, hw.calls.receive hinsert hfresh hactivated rfl ha.2 le_rfl, hw.settled, hw.linked⟩
  | createProcessing callId available =>
      unfold Uploads.next
      dsimp only
      split
      · rename_i hfound
        obtain ⟨hk, rfl⟩ := Table.find?_eq_some_iff.mp hfound
        exact hw.createNext hk rfl available
      · exact hw
  | process callId result =>
      unfold Uploads.next
      dsimp only
      split
      · rename_i hfound
        obtain ⟨hk, rfl⟩ := Table.find?_eq_some_iff.mp hfound
        cases result with
        | ok photo => exact hw.moved hk (.processed photo) (nomatch ·) (fun _ ↦ (nomatch ·)) _
        | error error =>
            exact hw.moved hk (.failed error.photoError) (nomatch ·) (fun _ ↦ (nomatch ·)) _
      · exact hw
  | discard callId =>
      unfold Uploads.next
      dsimp only
      split
      · rename_i id upload photo error hfound
        obtain ⟨hk, rfl⟩ := Table.find?_eq_some_iff.mp hfound
        have hanswered := hw.answered hk (.error error)
        exact ⟨hw.db.discardProcessing photo.id photo.userId, hanswered.calls,
          hw.settled.onward (Onward.of_subset fun _ hq ↦ (mem_deletePhotos.mp hq).1),
          hw.linked.discardProcessing hw.db photo.id photo.userId⟩
      · exact hw
  | recordProcessed callId =>
      unfold Uploads.next
      dsimp only
      split
      · rename_i hfound
        obtain ⟨hk, rfl⟩ := Table.find?_eq_some_iff.mp hfound
        split
        · exact hw.answered hk _
        · exact hw.moved hk (.failed .updateConflict) (nomatch ·) (fun _ ↦ (nomatch ·)) _
        · rename_i hrecord
          exact (hw.recorded hrecord).moved hk .recorded (nomatch ·) (fun _ ↦ (nomatch ·)) _
      · exact hw
  | put callId stored =>
      unfold Uploads.next
      dsimp only
      split
      · rename_i hfound
        obtain ⟨hk, rfl⟩ := Table.find?_eq_some_iff.mp hfound
        split
        · exact hw.moved hk .stored (nomatch ·) (fun _ ↦ (nomatch ·)) _
        · exact hw.answered hk _
      · exact hw
  | activate callId available =>
      unfold Uploads.next
      dsimp only
      split
      · rename_i id upload photo hfound
        obtain ⟨hk, rfl⟩ := Table.find?_eq_some_iff.mp hfound
        split
        · exact hw.answered hk _
        · exact hw.answered hk _
        · rename_i db' hactivate
          obtain ⟨hlinked, honward⟩ := hw.linked.activate hactivate
          exact ⟨(hw.db.activate hactivate).1, hw.calls.activate hk, hw.settled.onward honward, hlinked⟩
      · exact hw
  | abandon callId =>
      unfold Uploads.next
      dsimp only
      cases hfound : w.calls.find? callId with
      | none =>
          have hsame : w.move callId .answered = w.calls := by
            refine Table.modify_eq_self fun k hk ↦ decide_eq_false ?_
            exact Table.find?_eq_none_iff.mp hfound k hk
          rw [hsame]
          exact hw
      | some k =>
          obtain ⟨hk, rfl⟩ := Table.find?_eq_some_iff.mp hfound
          exact hw.moved hk .answered (nomatch ·) (fun hcontra ↦ absurd rfl hcontra) _
  | beginDelete userId =>
      unfold Uploads.next PhotoDb.beginDelete
      dsimp only
      split
      · exact hw
      · exact hw.marked _ _
  | beginAccountDeletion userId limit => exact hw.claimed exists_of_mem_accountBatch w.clock
  | findDeleting photoId =>
      unfold Uploads.next
      dsimp only
      split
      · rename_i hany
        obtain ⟨p, hp, hpasses⟩ := List.any_eq_true.mp hany
        simp only [Bool.and_eq_true, decide_eq_true_eq] at hpasses
        obtain ⟨rfl, hdeleting⟩ := hpasses
        obtain ⟨c, hc, hid, _⟩ := hw.db.photos p hp
        refine ⟨hw.db, hw.calls, List.forall_mem_cons.mpr ⟨⟨⟨c, hc, hid⟩, fun q hq hsame ↦ ?_⟩,
          hw.settled⟩, hw.linked⟩
        obtain rfl := Table.eq_of_key_eq hq hp hsame
        exact hdeleting
      · exact hw
  | completeDeletion photoId =>
      exact ⟨hw.db.completeDeletion photoId, hw.calls,
        hw.settled.onward (Onward.of_subset fun _ hq ↦ (mem_deletePhotos.mp hq).1),
        hw.linked.completeDeletion (hw.settled photoId ha).2⟩
  | claimCleanup now locked limit => exact hw.claimed exists_of_mem_cleanupBatch now
  | purge before limit =>
      refine hw.dropped fun r hr hdropped ↦ Or.inl ?_
      obtain ⟨s, hs, hkey⟩ := List.mem_map.mp (of_decide_eq_true hdropped)
      obtain ⟨hs, hexpired⟩ :=
        Table.mem_select.mp ((List.mem_insertionSort _).mp (List.mem_of_mem_take hs))
      obtain rfl := Table.eq_of_key_eq hs hr hkey
      exact (of_decide_eq_true hexpired).trans ha
  | review photoId rejected =>
      unfold Uploads.next PhotoDb.reviewPhoto
      dsimp only
      split
      · exact hw
      · cases rejected with
        | false => exact hw.decided photoId .approved
        | true => exact (hw.decided photoId .rejected).marked _ _
  | reconcile photoId staleBefore => exact hw.marked _ _
  | anonymize userId =>
      unfold Uploads.next PhotoDb.anonymize
      dsimp only
      split
      · exact hw
      · have hdropped := hw.dropped (p := fun r ↦ decide (r.userId = userId))
          fun r _ huser ↦ Or.inr (of_decide_eq_true huser ▸ ha)
        exact ⟨hdropped.db.of_eq rfl rfl fun _ h ↦ h, hdropped.calls, hdropped.settled,
          hdropped.linked.same (Onward.of_subset fun _ h ↦ h) (fun _ h ↦ h) rfl⟩

end Runs

end Histae.Media
