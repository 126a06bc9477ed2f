import Histae.Mobile.PhoneBlocklist
import Histae.Systems.Run

/-!
# Runs of the phone policy

A row carries a decision as the latest change left it until the decision
expires, because only changes rewrite rows and a retention statement takes none
with an unexpired decision. The date stored for a phone and a feed is the newest
one that was seen, unless that one is half a year old.
-/

namespace Histae.Mobile

open Relational Systems

section World

/-- What an accepted import has said about a phone. -/
structure Sighting where
  source : Source
  phoneHash : String
  lastSeenAt : ℤ
  deriving DecidableEq

inductive PolicyStep
  | importFeed (call : FeedImport) (committedAt : ℤ)
  | change (call : ChangeCall) (committedAt : ℤ)
  | recordFailure (source : Source) (now : ℤ)
  | purgeObservations (call : PurgeCall (Uuid × Source)) (committedAt : ℤ)
  | purgeEntries (call : PurgeCall Uuid) (committedAt : ℤ)

namespace PolicyStep

def committedAt : PolicyStep → ℤ
  | importFeed _ now | change _ now | recordFailure _ now | purgeObservations _ now
  | purgeEntries _ now => now

/-- The identifiers that a step draws. -/
def ids : PolicyStep → List Uuid
  | importFeed call _ => (List.range call.numbers.length).map call.ids
  | change call _ => [call.newId]
  | _ => []

def isPurge : PolicyStep → Bool
  | purgeObservations .. | purgeEntries .. => true
  | _ => false

end PolicyStep

/-- The tables, the identifiers drawn, what accepted imports said and the
changes that succeeded with the rows they left, the newest first. -/
structure PhonePolicy where
  db : PolicyTables
  clock : ℤ
  issued : List Uuid
  seen : List Sighting
  changes : List (Change × BlocklistEntry)

/-- The change that made the last decision about a phone. -/
def latestChange (changes : List (Change × BlocklistEntry)) (hash : String) :
    Option (Change × BlocklistEntry) :=
  changes.find? fun c ↦ c.2.phoneHash = hash

def FeedImport.sightings (call : FeedImport) : List Sighting :=
  call.numbers.map fun n ↦ ⟨call.source, n.key.hash, n.lastSeenAt⟩

/-- The row of the target of a change, in the tables it leaves. -/
def changedRow (db db' : PolicyTables) (call : ChangeCall) : Option BlocklistEntry :=
  (resolveTarget db.entries call).bind fun target ↦ findEntry db'.entries target.2

namespace PhonePolicy

def start (fingerprint : String) (clock : ℤ) : PhonePolicy where
  db :=
    { keyFingerprint := some fingerprint
      sources := ⟨[⟨.castle, none, none, none, 0⟩, ⟨.ip1, none, none, none, 0⟩], by decide⟩
      entries := ∅
      observations := ∅ }
  clock := clock
  issued := []
  seen := []
  changes := []

def nextDb (w : PhonePolicy) : PolicyStep → PolicyTables
  | .importFeed call _ => (importFeed w.db call).2
  | .change call _ => (changeOn w.db call).2
  | .recordFailure source now => recordFailure w.db source now
  | .purgeObservations call _ => purgeObservations w.db call
  | .purgeEntries call _ => purgeEntries w.db call

def newSightings (w : PhonePolicy) : PolicyStep → List Sighting
  | .importFeed call _ => if (importFeed w.db call).1.isOk then call.sightings else []
  | _ => []

def newChange (w : PhonePolicy) : PolicyStep → Option (Change × BlocklistEntry)
  | .change call _ =>
      if (changeOn w.db call).1.isOk then
        (changedRow w.db (changeOn w.db call).2 call).map fun e ↦ (call.change, e)
      else none
  | _ => none

def next (w : PhonePolicy) (a : PolicyStep) : PhonePolicy where
  db := w.nextDb a
  clock := a.committedAt
  issued := a.ids ++ w.issued
  seen := w.newSightings a ++ w.seen
  changes := (w.newChange a).toList ++ w.changes

/-- A change reads the clock under the policy lock; a retention pass was given
its instant before. No identifier is drawn twice. -/
def Enabled (w : PhonePolicy) (a : PolicyStep) : Prop :=
  w.clock ≤ a.committedAt ∧ (∀ id ∈ a.ids, id ∉ w.issued) ∧
    match a with
    | .change call now => w.clock ≤ call.updatedAt ∧ call.updatedAt ≤ now
    | .purgeObservations call now => call.now ≤ now
    | .purgeEntries call now => call.now ≤ now
    | _ => True

instance (w : PhonePolicy) (a : PolicyStep) : Decidable (∀ id ∈ a.ids, id ∉ w.issued) :=
  List.decidableBAll _ _

instance (w : PhonePolicy) : (a : PolicyStep) → Decidable (w.Enabled a)
  | .importFeed .. | .change .. | .recordFailure .. | .purgeObservations .. | .purgeEntries .. =>
      inferInstanceAs (Decidable (_ ∧ _ ∧ _))

def latest (w : PhonePolicy) (hash : String) : Option (Change × BlocklistEntry) :=
  latestChange w.changes hash

end PhonePolicy

def phonePolicy : System PhonePolicy PolicyStep where
  Enabled := PhonePolicy.Enabled
  next := PhonePolicy.next

instance (w : PhonePolicy) (a : PolicyStep) : Decidable (phonePolicy.Enabled w a) :=
  inferInstanceAs (Decidable (w.Enabled a))

end World

section Dates

/-- The greatest element of a set of dates, if it has one. -/
structure Newest (dates : ℤ → Prop) (date : Option ℤ) : Prop where
  bound : ∀ d, dates d → ∃ d' ∈ date, d ≤ d'
  attained : ∀ d ∈ date, dates d

theorem Newest.unique {dates : ℤ → Prop} {date date' : Option ℤ} (h : Newest dates date)
    (h' : Newest dates date') : date = date' := by
  ext d
  constructor
  · intro hd
    obtain ⟨d', hd', hle⟩ := h'.bound d (h.attained d hd)
    obtain ⟨d'', hd'', hle'⟩ := h.bound d' (h'.attained d' hd')
    obtain rfl := Option.some.inj ((Option.mem_def.mp hd).symm.trans (Option.mem_def.mp hd''))
    rwa [le_antisymm hle hle']
  · intro hd
    obtain ⟨d', hd', hle⟩ := h.bound d (h'.attained d hd)
    obtain ⟨d'', hd'', hle'⟩ := h'.bound d' (h.attained d' hd')
    obtain rfl := Option.some.inj ((Option.mem_def.mp hd).symm.trans (Option.mem_def.mp hd''))
    rwa [le_antisymm hle hle']

theorem newest_self (date : Option ℤ) : Newest (· ∈ date) date :=
  ⟨fun d hd ↦ ⟨d, hd, le_rfl⟩, fun _ hd ↦ hd⟩

theorem Newest.congr {dates dates' : ℤ → Prop} {date : Option ℤ} (h : Newest dates date)
    (hsame : ∀ d, dates d ↔ dates' d) : Newest dates' date :=
  ⟨fun d hd ↦ h.bound d ((hsame d).mpr hd), fun d hd ↦ (hsame d).mp (h.attained d hd)⟩

/-- The newest date of a union, from the newest date of one of its parts. -/
theorem Newest.replace {dates more : ℤ → Prop} {middle date : Option ℤ} (h : Newest dates middle)
    (h' : Newest (fun d ↦ d ∈ middle ∨ more d) date) : Newest (fun d ↦ dates d ∨ more d) date := by
  constructor
  · rintro d (hd | hd)
    · obtain ⟨d', hd', hle⟩ := h.bound d hd
      obtain ⟨d'', hd'', hle'⟩ := h'.bound d' (Or.inl hd')
      exact ⟨d'', hd'', hle.trans hle'⟩
    · exact h'.bound d (Or.inr hd)
  · intro d hd
    exact (h'.attained d hd).imp (h.attained d) id

end Dates

section Entries

variable {entries entries' : EntryTable} {observations : ObservationTable} {id : Uuid}
  {key : PhoneKey} {insertedAt : ℤ × ℤ} {e f : BlocklistEntry}

def UniqueIds (entries : EntryTable) : Prop :=
  ∀ e ∈ entries, ∀ f ∈ entries, e.id = f.id → e = f

theorem findEntry_eq_some (h : findEntry entries id = some e) : e ∈ entries ∧ e.id = id :=
  ⟨List.mem_of_find?_eq_some h, by simpa using List.find?_some h⟩

theorem UniqueIds.findEntry (h : UniqueIds entries) (he : e ∈ entries) :
    findEntry entries e.id = some e := by
  cases hfound : Mobile.findEntry entries e.id with
  | none =>
      have hnone := List.find?_eq_none.mp hfound e he
      simp at hnone
  | some f =>
      obtain ⟨hf, hid⟩ := findEntry_eq_some hfound
      rw [h f hf e he hid]

/-- Rows stay, and new ones have fresh identifiers and no decision. -/
structure Grows (entries entries' : EntryTable) (fresh : Uuid → Prop) : Prop where
  kept : ∀ e ∈ entries, e ∈ entries'
  new : ∀ e ∈ entries', e ∈ entries ∨ fresh e.id ∧ e.decisionUntil = none
  unique : UniqueIds entries → UniqueIds entries'

theorem Grows.refl (entries : EntryTable) (fresh : Uuid → Prop) : Grows entries entries fresh :=
  ⟨fun _ he ↦ he, fun _ he ↦ Or.inl he, fun h ↦ h⟩

theorem Grows.trans {middle : EntryTable} {fresh : Uuid → Prop} (h : Grows entries middle fresh)
    (h' : Grows middle entries' fresh) : Grows entries entries' fresh := by
  refine ⟨fun e he ↦ h'.kept e (h.kept e he), fun e he ↦ ?_, fun hunique ↦ h'.unique (h.unique hunique)⟩
  rcases h'.new e he with he | he
  · exact h.new e he
  · exact Or.inr he

theorem Grows.mono {fresh fresh' : Uuid → Prop} (h : Grows entries entries' fresh)
    (hle : ∀ id, fresh id → fresh' id) : Grows entries entries' fresh' :=
  ⟨h.kept, fun e he ↦ (h.new e he).imp id fun hnew ↦ ⟨hle _ hnew.1, hnew.2⟩, h.unique⟩

theorem grows_insertEntry (h : insertEntry entries id key insertedAt = some entries') :
    Grows entries entries' (· = id) ∧ ∃ e, entries'.find? key.hash = some e := by
  unfold insertEntry at h
  split at h
  · rename_i e he
    obtain rfl := Option.some.inj h
    exact ⟨Grows.refl _ _, e, he⟩
  · split at h
    · cases h
    · rename_i habsent
      have hnotId : ∀ e ∈ entries, e.id ≠ id := by
        intro e he hid
        exact habsent (List.any_eq_true.mpr ⟨e, he, decide_eq_true hid⟩)
      refine ⟨⟨fun e he ↦ (Table.mem_insert h).mpr (Or.inr he), fun e he ↦ ?_, fun hunique e he f hf hid ↦ ?_⟩,
        _, (Table.find?_insert h).trans (if_pos rfl)⟩
      · rcases (Table.mem_insert h).mp he with rfl | he
        · exact Or.inr ⟨rfl, rfl⟩
        · exact Or.inl he
      · rcases (Table.mem_insert h).mp he with rfl | he'
        · rcases (Table.mem_insert h).mp hf with rfl | hf'
          · rfl
          · exact absurd hid.symm (hnotId f hf')
        · rcases (Table.mem_insert h).mp hf with rfl | hf'
          · exact absurd hid (hnotId e he')
          · exact hunique e he' f hf' hid

theorem Grows.find? {fresh : Uuid → Prop} (h : Grows entries entries' fresh) {hash : String}
    (hfound : entries.find? hash = some e) : entries'.find? hash = some e := by
  obtain ⟨he, rfl⟩ := Table.find?_eq_some_iff.mp hfound
  exact Table.find?_key (h.kept e he)

theorem grows_importEntries {call : FeedImport} {i : ℕ} {numbers : List ImportedNumber}
    (h : importEntries call i entries numbers = some entries') :
    Grows entries entries' (fun id ↦ ∃ j < i + numbers.length, call.ids j = id) ∧
      ∀ n ∈ numbers, ∃ e, entries'.find? n.key.hash = some e := by
  induction numbers generalizing i entries with
  | nil =>
      obtain rfl := Option.some.inj h
      exact ⟨Grows.refl _ _, nofun⟩
  | cons number rest ih =>
      obtain ⟨middle, hinsert, hrest⟩ := Option.bind_eq_some_iff.mp h
      obtain ⟨hfirst, e, he⟩ := grows_insertEntry hinsert
      obtain ⟨hlater, hfound⟩ := ih hrest
      have hlength : i + 1 + rest.length = i + (number :: rest).length := by
        rw [List.length_cons]
        omega
      rw [hlength] at hlater
      refine ⟨(hfirst.mono ?_).trans hlater, fun n hn ↦ ?_⟩
      · rintro _ rfl
        exact ⟨i, by rw [List.length_cons]; omega, rfl⟩
      · rcases List.mem_cons.mp hn with rfl | hn
        · exact ⟨e, hlater.find? he⟩
        · exact hfound n hn

end Entries

section Observations

variable {entries entries' : EntryTable} {observations : ObservationTable} {hash : String}
  {source : Source} {e : BlocklistEntry}

def seenAt (observations : ObservationTable) (key : Uuid × Source) : Option ℤ :=
  (observations.find? key).map Observation.lastSeenAt

/-- The date stored for a phone and a feed. -/
def lastSeen (entries : EntryTable) (observations : ObservationTable) (hash : String)
    (source : Source) : Option ℤ :=
  (entries.find? hash).bind fun e ↦ seenAt observations (e.id, source)

def Owned (entries : EntryTable) (observations : ObservationTable) : Prop :=
  ∀ o ∈ observations, ∃ e ∈ entries, e.id = o.entryId

theorem lastSeen_of_find? (h : entries.find? hash = some e) :
    lastSeen entries observations hash source = seenAt observations (e.id, source) := by
  unfold lastSeen
  rw [h, Option.bind_some]

theorem mem_seenAt {key : Uuid × Source} {d : ℤ} :
    d ∈ seenAt observations key ↔ ∃ o ∈ observations, o.key = key ∧ o.lastSeenAt = d := by
  unfold seenAt
  rw [Option.mem_def, Option.map_eq_some_iff]
  refine exists_congr fun o ↦ ?_
  rw [Table.find?_eq_some_iff, and_assoc]

theorem seenAt_eq_none (howned : Owned entries observations) {id : Uuid}
    (h : ∀ e ∈ entries, e.id ≠ id) : seenAt observations (id, source) = none := by
  rw [Option.eq_none_iff_forall_not_mem]
  intro d hd
  obtain ⟨o, ho, hkey, _⟩ := mem_seenAt.mp hd
  obtain ⟨e, he, hid⟩ := howned o ho
  exact h e he (hid.trans (congrArg Prod.fst hkey))

/-- New entries have no observation yet. -/
theorem Grows.lastSeen {fresh : Uuid → Prop} (h : Grows entries entries' fresh)
    (hfresh : ∀ e ∈ entries, ¬ fresh e.id) (howned : Owned entries observations) :
    lastSeen entries' observations hash source = lastSeen entries observations hash source := by
  cases hfound : entries.find? hash with
  | some e => rw [lastSeen_of_find? hfound, lastSeen_of_find? (h.find? hfound)]
  | none =>
      have hnone : Mobile.lastSeen entries observations hash source = none := by
        unfold Mobile.lastSeen
        rw [hfound]
        rfl
      rw [hnone]
      cases hfound' : entries'.find? hash with
      | none =>
          unfold Mobile.lastSeen
          rw [hfound']
          rfl
      | some e =>
          obtain ⟨he, hhash⟩ := Table.find?_eq_some_iff.mp hfound'
          rw [lastSeen_of_find? hfound']
          rcases h.new e he with hold | ⟨hnew, _⟩
          · exact absurd hhash (Table.find?_eq_none_iff.mp hfound e hold)
          · exact seenAt_eq_none howned fun f hf hid ↦ hfresh f hf (hid ▸ hnew)

theorem Grows.owned {fresh : Uuid → Prop} (h : Grows entries entries' fresh)
    (howned : Owned entries observations) : Owned entries' observations := by
  intro o ho
  obtain ⟨e, he, hid⟩ := howned o ho
  exact ⟨e, h.kept e he, hid⟩

theorem seenAt_upsert {id : Uuid} {d importedAt : ℤ} {key : Uuid × Source} :
    seenAt (observations.upsert ⟨id, source, d, importedAt⟩ (Observation.renew d importedAt)
        (Observation.key_renew d importedAt)) key =
      if key = (id, source) then some (((seenAt observations key).map (max · d)).getD d)
      else seenAt observations key := by
  unfold seenAt
  rw [Table.find?_upsert]
  change Option.map _ (if key = (id, source) then _ else _) = _
  split
  · cases observations.find? key <;> rfl
  · rfl

theorem newest_upsert {id : Uuid} {d importedAt : ℤ} {key : Uuid × Source} :
    Newest (fun x ↦ x ∈ seenAt observations key ∨ key = (id, source) ∧ x = d)
      (seenAt (observations.upsert ⟨id, source, d, importedAt⟩ (Observation.renew d importedAt)
        (Observation.key_renew d importedAt)) key) := by
  rw [seenAt_upsert]
  split
  · rename_i hkey
    cases hold : seenAt observations key with
    | none =>
        refine ⟨?_, fun x hx ↦ Or.inr ⟨hkey, (Option.some.inj hx).symm⟩⟩
        rintro x (hx | ⟨_, rfl⟩)
        · cases hx
        · exact ⟨x, rfl, le_rfl⟩
    | some old =>
        refine ⟨?_, fun x hx ↦ ?_⟩
        · rintro x (hx | ⟨_, rfl⟩)
          · obtain rfl := Option.some.inj hx
            exact ⟨_, rfl, le_max_left _ _⟩
          · exact ⟨_, rfl, le_max_right _ _⟩
        · obtain rfl := Option.some.inj hx
          rcases le_total old d with hle | hle
          · exact Or.inr ⟨hkey, max_eq_right hle⟩
          · exact Or.inl (congrArg some (max_eq_left hle).symm)
  · rename_i hkey
    refine ⟨?_, fun x hx ↦ Or.inl hx⟩
    rintro x (hx | ⟨hsame, _⟩)
    · exact ⟨x, hx, le_rfl⟩
    · exact absurd hsame hkey

/-- The dates that an import has for a row. -/
def Reports (call : FeedImport) (entries : EntryTable) (numbers : List ImportedNumber)
    (key : Uuid × Source) (d : ℤ) : Prop :=
  key.2 = call.source ∧
    ∃ n ∈ numbers, n.lastSeenAt = d ∧ ∃ e, entries.find? n.key.hash = some e ∧ e.id = key.1

theorem newest_importObservations (call : FeedImport) (numbers : List ImportedNumber) (i : ℕ)
    (key : Uuid × Source) :
    Newest (fun d ↦ d ∈ seenAt observations key ∨ Reports call entries numbers key d)
      (seenAt (importObservations call entries i observations numbers) key) := by
  induction numbers generalizing i observations with
  | nil =>
      refine (newest_self _).congr fun d ↦ ⟨Or.inl, ?_⟩
      rintro (hd | ⟨_, n, hn, _⟩)
      · exact hd
      · cases hn
  | cons number rest ih =>
      rw [importObservations]
      cases hfound : entries.find? number.key.hash with
      | none =>
          refine (ih (i + 1)).congr fun d ↦ or_congr_right (and_congr_right fun _ ↦ ?_)
          constructor
          · rintro ⟨n, hn, hrest⟩
            exact ⟨n, List.mem_cons_of_mem _ hn, hrest⟩
          · rintro ⟨n, hn, hd, e, he, hid⟩
            rcases List.mem_cons.mp hn with rfl | hn
            · rw [hfound] at he
              cases he
            · exact ⟨n, hn, hd, e, he, hid⟩
      | some e =>
          refine (newest_upsert.replace (ih (i + 1))).congr fun d ↦ ?_
          rw [or_assoc]
          refine or_congr_right ?_
          constructor
          · rintro (⟨rfl, rfl⟩ | ⟨hsource, n, hn, hrest⟩)
            · exact ⟨rfl, number, List.mem_cons_self, rfl, e, hfound, rfl⟩
            · exact ⟨hsource, n, List.mem_cons_of_mem _ hn, hrest⟩
          · rintro ⟨hsource, n, hn, hd, f, hf, hid⟩
            rcases List.mem_cons.mp hn with rfl | hn
            · obtain rfl := Option.some.inj (hfound.symm.trans hf)
              exact Or.inl ⟨Prod.ext hid.symm hsource, hd.symm⟩
            · exact Or.inr ⟨hsource, n, hn, hd, f, hf, hid⟩

theorem owned_importObservations (call : FeedImport) (numbers : List ImportedNumber) (i : ℕ)
    (howned : Owned entries observations) :
    Owned entries (importObservations call entries i observations numbers) := by
  intro o ho
  have hd : o.lastSeenAt ∈ seenAt (importObservations call entries i observations numbers) o.key :=
    mem_seenAt.mpr ⟨o, ho, rfl, rfl⟩
  rcases (newest_importObservations call numbers i o.key).attained _ hd with hold | hnew
  · obtain ⟨p, hp, hkey, _⟩ := mem_seenAt.mp hold
    obtain ⟨e, he, hid⟩ := howned p hp
    exact ⟨e, he, hid.trans (congrArg Prod.fst hkey)⟩
  · obtain ⟨_, n, _, _, e, hfound, hid⟩ := hnew
    exact ⟨e, (Table.find?_eq_some_iff.mp hfound).1, hid⟩

end Observations

section Effects

variable {db : PolicyTables} {hash : String} {source : Source}

/-- Everything an import can do. -/
inductive ImportEffect (db : PolicyTables) (call : FeedImport) :
    Except PolicyError ℕ → PolicyTables → Prop
  | refused (error : PolicyError) : ImportEffect db call (.error error) db
  | accepted (db' : PolicyTables)
      (himport : importEntries call 0 db.entries call.numbers = some db'.entries)
      (hobservations : db'.observations =
        importObservations call db'.entries 0 db.observations call.numbers) :
      ImportEffect db call (.ok call.numbers.length) db'

theorem importFeed_effect (db : PolicyTables) (call : FeedImport) :
    ImportEffect db call (importFeed db call).1 (importFeed db call).2 := by
  unfold importFeed
  split
  · exact .refused _
  · split
    · exact .refused _
    · split
      · exact .refused _
      · split
        · exact .refused _
        · rename_i entries himport
          split
          · exact .refused _
          · exact .accepted _ himport rfl

/-- An accepted import brings the newest dates of its numbers and the stored ones. -/
theorem newest_importFeed {call : FeedImport} {db' : PolicyTables}
    (himport : importEntries call 0 db.entries call.numbers = some db'.entries)
    (hobservations : db'.observations =
      importObservations call db'.entries 0 db.observations call.numbers)
    (hunique : UniqueIds db.entries) (howned : Owned db.entries db.observations)
    (hfresh : ∀ e ∈ db.entries, ∀ j < call.numbers.length, call.ids j ≠ e.id) :
    Newest (fun d ↦ d ∈ lastSeen db.entries db.observations hash source ∨
        ⟨source, hash, d⟩ ∈ call.sightings)
      (lastSeen db'.entries db'.observations hash source) := by
  obtain ⟨hgrows, hfound⟩ := grows_importEntries himport
  rw [Nat.zero_add] at hgrows
  have hnew : ∀ e ∈ db.entries, ¬ ∃ j < call.numbers.length, call.ids j = e.id := by
    rintro e he ⟨j, hj, hid⟩
    exact hfresh e he j hj hid
  rw [← hgrows.lastSeen hnew howned]
  have hsightings : ∀ d, (⟨source, hash, d⟩ : Sighting) ∈ call.sightings ↔
      source = call.source ∧ ∃ n ∈ call.numbers, n.lastSeenAt = d ∧ n.key.hash = hash := by
    intro d
    unfold FeedImport.sightings
    rw [List.mem_map]
    constructor
    · rintro ⟨n, hn, heq⟩
      obtain ⟨rfl, rfl, rfl⟩ := Sighting.mk.inj heq
      exact ⟨rfl, n, hn, rfl, rfl⟩
    · rintro ⟨rfl, n, hn, rfl, rfl⟩
      exact ⟨n, hn, rfl⟩
  cases hentry : db'.entries.find? hash with
  | none =>
      have hnone : ∀ observations, lastSeen db'.entries observations hash source = none := by
        intro observations
        unfold lastSeen
        rw [hentry]
        rfl
      rw [hnone, hnone]
      refine ⟨?_, nofun⟩
      rintro d (hd | hd)
      · cases hd
      · obtain ⟨_, n, hn, _, rfl⟩ := (hsightings d).mp hd
        obtain ⟨e, he⟩ := hfound n hn
        rw [hentry] at he
        cases he
  | some e =>
      rw [lastSeen_of_find? hentry, lastSeen_of_find? hentry, hobservations]
      refine (newest_importObservations call call.numbers 0 (e.id, source)).congr fun d ↦
        or_congr_right ?_
      rw [hsightings]
      refine and_congr_right fun _ ↦ exists_congr fun n ↦ and_congr_right fun hn ↦
        and_congr_right fun _ ↦ ?_
      constructor
      · rintro ⟨f, hf, hid⟩
        obtain ⟨hf', hhash⟩ := Table.find?_eq_some_iff.mp hf
        obtain ⟨he', rfl⟩ := Table.find?_eq_some_iff.mp hentry
        rw [← hgrows.unique hunique f hf' e he' hid]
        exact hhash.symm
      · rintro rfl
        exact ⟨e, hentry, rfl⟩

end Effects

section Changes

variable {db : PolicyTables} {call : ChangeCall} {entries : EntryTable} {id : Uuid}
  {e e' x : BlocklistEntry} {hash : String} {source : Source}

def rewriteEntry (entries : EntryTable) (id : Uuid) (call : ChangeCall) : EntryTable :=
  entries.modify (fun e ↦ e.id = id) (fun e ↦ (call.applied e).getD e) (phoneHash_getD_applied call)

/-- Everything a change can do. -/
inductive ChangeEffect (db : PolicyTables) (call : ChangeCall) :
    Except PolicyError Unit → PolicyTables → Prop
  | refused (error : PolicyError) : ChangeEffect db call (.error error) db
  | applied (entries : EntryTable) (id : Uuid) (e e' : BlocklistEntry)
      (htarget : resolveTarget db.entries call = some (entries, id))
      (hfound : findEntry entries id = some e) (hversion : e.version = call.change.version)
      (happlied : call.applied e = some e') :
      ChangeEffect db call (.ok ()) { db with entries := rewriteEntry entries id call }

theorem changeOn_effect (db : PolicyTables) (call : ChangeCall) :
    ChangeEffect db call (changeOn db call).1 (changeOn db call).2 := by
  unfold changeOn
  split
  · exact .refused _
  · split
    · exact .refused _
    · split
      · exact .refused _
      · rename_i entries id htarget
        split
        · exact .refused _
        · rename_i e hfound
          split
          · exact .refused _
          · rename_i hversion
            split
            · exact .refused _
            · rename_i hgood
              obtain ⟨e', he'⟩ := Option.ne_none_iff_exists'.mp fun hnone ↦ hgood (Or.inr hnone)
              exact .applied entries id e e' htarget hfound (not_not.mp hversion) he'

/-- The row is what the change asks for. -/
def Target.names (target : Target) (e : BlocklistEntry) : Prop :=
  match target with
  | .id id => e.id = id
  | .phone key => e.phoneHash = key.hash

theorem grows_resolveTarget (h : resolveTarget db.entries call = some (entries, id)) :
    Grows db.entries entries (· = call.newId) ∧
      (UniqueIds entries → ∀ e ∈ entries, e.id = id → call.change.target.names e) := by
  unfold resolveTarget at h
  cases htarget : call.change.target with
  | id id' =>
      rw [htarget] at h
      obtain ⟨rfl, rfl⟩ := Prod.mk.inj (Option.some.inj h)
      exact ⟨Grows.refl _ _, fun _ e _ hid ↦ hid⟩
  | phone key =>
      rw [htarget] at h
      obtain ⟨grown, hinsert, h⟩ := Option.bind_eq_some_iff.mp h
      obtain ⟨f, hf, heq⟩ := Option.map_eq_some_iff.mp h
      obtain ⟨rfl, rfl⟩ := Prod.mk.inj heq
      obtain ⟨hf', hhash⟩ := Table.find?_eq_some_iff.mp hf
      refine ⟨(grows_insertEntry hinsert).1, fun hunique e he hid ↦ ?_⟩
      rw [hunique e he f hf' hid]
      exact hhash

theorem mem_rewriteEntry (hunique : UniqueIds entries) (hfound : findEntry entries id = some e)
    (happlied : call.applied e = some e') :
    x ∈ rewriteEntry entries id call ↔ x = e' ∨ x ∈ entries ∧ x.id ≠ id := by
  obtain ⟨he, rfl⟩ := findEntry_eq_some hfound
  unfold rewriteEntry
  rw [Table.mem_modify]
  constructor
  · rintro ⟨f, hf, rfl⟩
    by_cases hid : f.id = e.id
    · obtain rfl := hunique f hf e he hid
      rw [if_pos (by simp), happlied]
      exact Or.inl rfl
    · rw [if_neg (by simpa using hid)]
      exact Or.inr ⟨hf, hid⟩
  · rintro (rfl | ⟨hx, hid⟩)
    · exact ⟨e, he, by rw [if_pos (by simp), happlied]; rfl⟩
    · exact ⟨x, hx, by rw [if_neg (by simpa using hid)]⟩

theorem applied_eq (h : call.applied e = some e') :
    e'.id = e.id ∧ e'.phoneHash = e.phoneHash ∧ e'.decision = call.change.decision ∧
      e'.version = e.version + 1 ∧ e'.updatedAt = call.updatedAt := by
  obtain ⟨hid, hkey, hdecision, _, hversion, hupdated⟩ := BlocklistEntry.change_eq h
  exact ⟨hid, congrArg PhoneKey.hash hkey, hdecision, hversion, hupdated⟩

theorem id_getD_applied (call : ChangeCall) (e : BlocklistEntry) :
    ((call.applied e).getD e).id = e.id := by
  cases h : call.applied e with
  | none => rfl
  | some e' => exact (applied_eq h).1

theorem uniqueIds_rewriteEntry (hunique : UniqueIds entries) : UniqueIds (rewriteEntry entries id call) := by
  have hrow : ∀ x ∈ rewriteEntry entries id call, ∃ f ∈ entries, x.id = f.id ∧
      x = if f.id = id then (call.applied f).getD f else f := by
    intro x hx
    obtain ⟨f, hf, rfl⟩ := (Table.mem_modify _).mp hx
    refine ⟨f, hf, ?_, by simp⟩
    split
    · exact id_getD_applied call f
    · rfl
  intro x hx y hy hid
  obtain ⟨f, hf, hfid, rfl⟩ := hrow x hx
  obtain ⟨g, hg, hgid, rfl⟩ := hrow y hy
  obtain rfl := hunique f hf g hg (hfid.symm.trans (hid.trans hgid))
  rfl

theorem lastSeen_rewriteEntry {observations : ObservationTable} :
    lastSeen (rewriteEntry entries id call) observations hash source =
      lastSeen entries observations hash source := by
  unfold lastSeen rewriteEntry
  rw [Table.find?_modify]
  cases entries.find? hash with
  | none => rfl
  | some e =>
      rw [Option.map_some, Option.bind_some, Option.bind_some]
      split
      · rw [id_getD_applied]
      · rfl

theorem owned_rewriteEntry {observations : ObservationTable} (howned : Owned entries observations) :
    Owned (rewriteEntry entries id call) observations := by
  intro o ho
  obtain ⟨f, hf, hid⟩ := howned o ho
  refine ⟨_, (Table.mem_modify _).mpr ⟨f, hf, rfl⟩, ?_⟩
  split
  · exact (id_getD_applied call f).trans hid
  · exact hid

end Changes

section Purges

variable {db : PolicyTables} {hash : String} {source : Source} {d : ℤ} {e : BlocklistEntry}

theorem mem_staleObservations {call : PurgeCall (Uuid × Source)} {o : Observation}
    (h : o ∈ staleObservations db call) : o.lastSeenAt ≤ call.now - days 180 := by
  have hmem := (List.mem_insertionSort _).mp (List.mem_of_mem_take h)
  have hselected := (Table.mem_select.mp hmem).2
  simp only [Bool.and_eq_true, decide_eq_true_eq] at hselected
  exact hselected.1

/-- A purge of observations takes dates of half a year ago, and no others. -/
theorem seenAt_purgeObservations {call : PurgeCall (Uuid × Source)} {key : Uuid × Source} :
    (d ∈ seenAt (purgeObservations db call).observations key → d ∈ seenAt db.observations key) ∧
      (d ∈ seenAt db.observations key → call.now - days 180 < d →
        d ∈ seenAt (purgeObservations db call).observations key) := by
  constructor
  · intro h
    obtain ⟨o, ho, hkey, hd⟩ := mem_seenAt.mp h
    exact mem_seenAt.mpr ⟨o, (Table.mem_delete.mp ho).1, hkey, hd⟩
  · intro h hrecent
    obtain ⟨o, ho, hkey, hd⟩ := mem_seenAt.mp h
    refine mem_seenAt.mpr ⟨o, Table.mem_delete.mpr ⟨ho, decide_eq_false ?_⟩, hkey, hd⟩
    intro hstale
    obtain ⟨p, hp, hsame⟩ := List.mem_map.mp hstale
    have hp' : p ∈ db.observations :=
      (Table.mem_select.mp ((List.mem_insertionSort _).mp (List.mem_of_mem_take hp))).1
    obtain rfl := Table.eq_of_key_eq hp' ho hsame
    have hle := mem_staleObservations hp
    omega

/-- An entry that a purge takes. -/
structure Purgeable (db : PolicyTables) (now : ℤ) (e : BlocklistEntry) : Prop where
  old : e.updatedAt ≤ now - days 180
  expired : ∀ u ∈ e.decisionUntil, u ≤ now
  unseen : ∀ o ∈ db.observations, o.entryId ≠ e.id

theorem mem_expiredEntries {call : PurgeCall Uuid} (h : e ∈ expiredEntries db call) :
    e ∈ db.entries ∧ Purgeable db call.now e := by
  have hmem := (List.mem_insertionSort _).mp (List.mem_of_mem_take h)
  obtain ⟨he, hselected⟩ := Table.mem_select.mp hmem
  simp only [Bool.and_eq_true, Bool.not_eq_true', decide_eq_true_eq] at hselected
  obtain ⟨⟨⟨hold, hexpired⟩, hunseen⟩, _⟩ := hselected
  refine ⟨he, hold, fun u hu ↦ ?_, fun o ho hid ↦ ?_⟩
  · rw [Option.mem_def.mp hu] at hexpired
    exact of_decide_eq_true hexpired
  · have hany := List.any_eq_false.mp hunseen o ho
    exact hany (decide_eq_true hid)

theorem mem_purgeEntries (call : PurgeCall Uuid) (hunique : UniqueIds db.entries) :
    (∀ e ∈ (purgeEntries db call).entries, e ∈ db.entries) ∧
      ∀ e ∈ db.entries, e ∈ (purgeEntries db call).entries ∨
        Purgeable db call.now e ∧ ∀ f ∈ (purgeEntries db call).entries, f.id ≠ e.id := by
  refine ⟨fun e he ↦ (Table.mem_delete.mp he).1, fun e he ↦ ?_⟩
  by_cases hexpired : e.id ∈ (expiredEntries db call).map BlocklistEntry.id
  · right
    obtain ⟨f, hf, hid⟩ := List.mem_map.mp hexpired
    obtain ⟨hf', hpurgeable⟩ := mem_expiredEntries hf
    obtain rfl := hunique f hf' e he hid
    refine ⟨hpurgeable, fun g hg hsame ↦ ?_⟩
    have hkept := of_decide_eq_false (Table.mem_delete.mp hg).2
    exact hkept (hsame ▸ hexpired)
  · exact Or.inl (Table.mem_delete.mpr ⟨he, decide_eq_false hexpired⟩)

theorem seenAt_purgeEntries {call : PurgeCall Uuid} {key : Uuid × Source}
    (hkept : key.1 ∉ (expiredEntries db call).map BlocklistEntry.id) :
    seenAt (purgeEntries db call).observations key = seenAt db.observations key := by
  ext d
  rw [← Option.mem_def, ← Option.mem_def, mem_seenAt, mem_seenAt]
  refine exists_congr fun o ↦ ?_
  change o ∈ db.observations.delete _ ∧ _ ↔ _
  rw [Table.mem_delete]
  constructor
  · rintro ⟨⟨ho, _⟩, hrest⟩
    exact ⟨ho, hrest⟩
  · rintro ⟨ho, rfl, hd⟩
    exact ⟨⟨ho, decide_eq_false hkept⟩, rfl, hd⟩

/-- A purge of entries forgets no date. -/
theorem lastSeen_purgeEntries {call : PurgeCall Uuid} (hunique : UniqueIds db.entries) :
    lastSeen (purgeEntries db call).entries (purgeEntries db call).observations hash source =
      lastSeen db.entries db.observations hash source := by
  cases hfound : db.entries.find? hash with
  | none =>
      have hnone : (purgeEntries db call).entries.find? hash = none := by
        refine (Table.find?_delete ..).trans ?_
        rw [hfound]
        rfl
      unfold lastSeen
      rw [hfound, hnone]
      rfl
  | some e =>
      obtain ⟨he, hhash⟩ := Table.find?_eq_some_iff.mp hfound
      rw [lastSeen_of_find? hfound]
      by_cases hexpired : e.id ∈ (expiredEntries db call).map BlocklistEntry.id
      · obtain ⟨f, hf, hid⟩ := List.mem_map.mp hexpired
        obtain ⟨hf', hpurgeable⟩ := mem_expiredEntries hf
        obtain rfl := hunique f hf' e he hid
        have hnone : (purgeEntries db call).entries.find? hash = none := by
          refine (Table.find?_delete ..).trans ?_
          rw [hfound, Option.filter_some, if_neg (by simpa using hexpired)]
        have hunseen : seenAt db.observations (f.id, source) = none := by
          rw [Option.eq_none_iff_forall_not_mem]
          intro d hd
          obtain ⟨o, ho, hkey, _⟩ := mem_seenAt.mp hd
          exact hpurgeable.unseen o ho (congrArg Prod.fst hkey)
        unfold lastSeen
        rw [hnone, hunseen]
        rfl
      · have hkept : (purgeEntries db call).entries.find? hash = some e := by
          refine (Table.find?_delete ..).trans ?_
          rw [hfound, Option.filter_some, if_pos (by simpa using hexpired)]
        rw [lastSeen_of_find? hkept]
        exact seenAt_purgeEntries hexpired

theorem owned_purgeEntries {call : PurgeCall Uuid} (howned : Owned db.entries db.observations) :
    Owned (purgeEntries db call).entries (purgeEntries db call).observations := by
  intro o ho
  obtain ⟨ho', hkept⟩ := Table.mem_delete.mp ho
  obtain ⟨e, he, hid⟩ := howned o ho'
  refine ⟨e, Table.mem_delete.mpr ⟨he, ?_⟩, hid⟩
  rw [hid]
  exact hkept

end Purges

section Decisions

variable {entries entries' : EntryTable} {clock clock' : ℤ} {issued ids : List Uuid}
  {changes : List (Change × BlocklistEntry)} {hash : String}

theorem latestChange_cons_self (c : Change × BlocklistEntry) :
    latestChange (c :: changes) c.2.phoneHash = some c :=
  List.find?_cons_of_pos (decide_eq_true rfl)

theorem latestChange_cons_of_ne {c : Change × BlocklistEntry} (h : c.2.phoneHash ≠ hash) :
    latestChange (c :: changes) hash = latestChange changes hash :=
  List.find?_cons_of_neg (by simpa using h)

theorem phoneHash_of_latestChange {c : Change × BlocklistEntry}
    (h : latestChange changes hash = some c) : c ∈ changes ∧ c.2.phoneHash = hash :=
  ⟨List.mem_of_find?_eq_some h, by simpa using List.find?_some h⟩

/-- The entry of a change lives on with that version or a later one, or it was
purged half a year after the change. -/
def Outlived (entries : EntryTable) (clock : ℤ) (row : BlocklistEntry) : Prop :=
  (∃ e ∈ entries, e.id = row.id ∧ e.phoneHash = row.phoneHash ∧ row.version ≤ e.version ∧
      row.updatedAt ≤ e.updatedAt) ∨
    row.updatedAt + days 180 ≤ clock ∧ ∀ e ∈ entries, e.id ≠ row.id

/-- A later change of one entry finds a higher version; one of the same phone
that does not comes half a year later. -/
def Supersedes (later earlier : Change × BlocklistEntry) : Prop :=
  (later.2.id = earlier.2.id → earlier.2.version < later.2.version) ∧
    (later.2.phoneHash = earlier.2.phoneHash → later.2.version ≤ earlier.2.version →
      earlier.2.updatedAt + days 180 ≤ later.2.updatedAt)

/-- The row that a change leaves. -/
structure Leaves (change : Change) (row : BlocklistEntry) : Prop where
  names : change.target.names row
  decision : row.decision = change.decision
  version : row.version = change.version + 1

structure Decisions (entries : EntryTable) (clock : ℤ) (issued : List Uuid)
    (changes : List (Change × BlocklistEntry)) : Prop where
  unique : UniqueIds entries
  drawn : ∀ e ∈ entries, e.id ∈ issued
  recorded : ∀ c ∈ changes, c.2.id ∈ issued
  past : ∀ c ∈ changes, c.2.updatedAt ≤ clock
  manual : ∀ e ∈ entries, e.decisionUntil ≠ none →
    ∃ c, latestChange changes e.phoneHash = some c ∧ c.2 = e
  standing : ∀ hash c, latestChange changes hash = some c → ∀ u ∈ c.2.decisionUntil, clock < u →
    c.2 ∈ entries
  lives : ∀ c ∈ changes, Outlived entries clock c.2
  ordered : changes.Pairwise Supersedes
  leaves : ∀ c ∈ changes, Leaves c.1 c.2

/-- What a step that is no change does to the entries. -/
structure Keeps (entries : EntryTable) (issued ids : List Uuid) (entries' : EntryTable)
    (clock' : ℤ) : Prop where
  kept : ∀ e ∈ entries, e ∈ entries' ∨ e.updatedAt + days 180 ≤ clock' ∧
    (∀ u ∈ e.decisionUntil, u ≤ clock') ∧ ∀ f ∈ entries', f.id ≠ e.id
  new : ∀ e ∈ entries', e ∈ entries ∨ e.id ∈ ids ∧ e.id ∉ issued ∧ e.decisionUntil = none
  unique : UniqueIds entries'

theorem Grows.keeps {fresh : Uuid → Prop} (h : Grows entries entries' fresh) (ids : List Uuid)
    (hids : ∀ id, fresh id → id ∈ ids) (hfresh : ∀ id ∈ ids, id ∉ issued)
    (hunique : UniqueIds entries) (clock' : ℤ) : Keeps entries issued ids entries' clock' := by
  refine ⟨fun e he ↦ Or.inl (h.kept e he), fun e he ↦ ?_, h.unique hunique⟩
  rcases h.new e he with he | ⟨hnew, hnone⟩
  · exact Or.inl he
  · exact Or.inr ⟨hids _ hnew, hfresh _ (hids _ hnew), hnone⟩

theorem Decisions.keep (h : Decisions entries clock issued changes)
    (hkeeps : Keeps entries issued ids entries' clock') (hclock : clock ≤ clock') :
    Decisions entries' clock' (ids ++ issued) changes where
  unique := hkeeps.unique
  drawn e he := by
    rcases hkeeps.new e he with he | ⟨hid, _⟩
    · exact List.mem_append_right _ (h.drawn e he)
    · exact List.mem_append_left _ hid
  recorded c hc := List.mem_append_right _ (h.recorded c hc)
  past c hc := (h.past c hc).trans hclock
  manual e he huntil := by
    rcases hkeeps.new e he with he | ⟨_, _, hnone⟩
    · exact h.manual e he huntil
    · exact absurd hnone huntil
  standing hash c hc u hu hlater := by
    rcases hkeeps.kept c.2 (h.standing hash c hc u hu (hclock.trans_lt hlater)) with hin | ⟨_, hexpired, _⟩
    · exact hin
    · exact absurd (hexpired u hu) (not_le.mpr hlater)
  lives c hc := by
    rcases h.lives c hc with ⟨e, he, hid, hhash, hversion, hupdated⟩ | ⟨hold, hgone⟩
    · rcases hkeeps.kept e he with hin | ⟨hlong, _, hgone⟩
      · exact Or.inl ⟨e, hin, hid, hhash, hversion, hupdated⟩
      · exact Or.inr ⟨by omega, fun f hf ↦ hid ▸ hgone f hf⟩
    · refine Or.inr ⟨hold.trans hclock, fun f hf hid ↦ ?_⟩
      rcases hkeeps.new f hf with hf | ⟨_, hfresh, _⟩
      · exact hgone f hf hid
      · exact hfresh (hid ▸ h.recorded c hc)
  ordered := h.ordered
  leaves := h.leaves

theorem Decisions.rewrite (h : Decisions entries clock issued changes) {id : Uuid}
    {call : ChangeCall} {e e' : BlocklistEntry} (hfound : findEntry entries id = some e)
    (hversion : e.version = call.change.version) (happlied : call.applied e = some e')
    (hnames : call.change.target.names e') (hafter : clock ≤ call.updatedAt)
    (hbefore : call.updatedAt ≤ clock') :
    Decisions (rewriteEntry entries id call) clock' issued ((call.change, e') :: changes) := by
  obtain ⟨he, hid⟩ := findEntry_eq_some hfound
  obtain ⟨hid', hhash', hdecision', hversion', hupdated'⟩ := applied_eq happlied
  have hmem : ∀ x, x ∈ rewriteEntry entries id call ↔ x = e' ∨ x ∈ entries ∧ x.id ≠ id :=
    fun x ↦ mem_rewriteEntry h.unique hfound happlied
  have hother : ∀ x ∈ entries, x.id ≠ id → e'.phoneHash ≠ x.phoneHash := by
    intro x hx hne hsame
    have heq : x = e := Table.eq_of_key_eq hx he (hsame.symm.trans hhash')
    exact hne (heq ▸ hid)
  have hnewer : ∀ c ∈ changes, Supersedes (call.change, e') c := by
    intro c hc
    rcases h.lives c hc with ⟨f, hf, hfid, hfhash, hfversion, _⟩ | ⟨hlong, hgone⟩
    · refine ⟨fun hsame ↦ ?_, fun hsame hle ↦ ?_⟩
      · obtain rfl := h.unique f hf e he (hfid.trans (hsame.symm.trans hid'))
        exact lt_of_le_of_lt hfversion (by simp only; omega)
      · have heq : f = e := Table.eq_of_key_eq hf he (hfhash.trans (hsame.symm.trans hhash'))
        subst heq
        simp only at hle
        omega
    · refine ⟨fun hsame ↦ absurd (hid'.symm.trans hsame) (hgone e he), fun _ _ ↦ ?_⟩
      simp only
      omega
  refine ⟨uniqueIds_rewriteEntry h.unique, ?_, ?_, ?_, ?_, ?_, ?_,
    List.pairwise_cons.mpr ⟨hnewer, h.ordered⟩, ?_⟩
  · intro x hx
    rcases (hmem x).mp hx with rfl | ⟨hx, _⟩
    · rw [hid']
      exact h.drawn e he
    · exact h.drawn x hx
  · refine List.forall_mem_cons.mpr ⟨?_, h.recorded⟩
    simp only
    rw [hid']
    exact h.drawn e he
  · refine List.forall_mem_cons.mpr ⟨?_, fun c hc ↦ (h.past c hc).trans (hafter.trans hbefore)⟩
    simp only
    omega
  · intro x hx huntil
    rcases (hmem x).mp hx with rfl | ⟨hx, hne⟩
    · exact ⟨(call.change, x), latestChange_cons_self _, rfl⟩
    · rw [latestChange_cons_of_ne (hother x hx hne)]
      exact h.manual x hx huntil
  · intro hash c hc u hu hlater
    by_cases hhash : e'.phoneHash = hash
    · rw [← hhash, latestChange_cons_self (call.change, e')] at hc
      obtain rfl := Option.some.inj hc
      exact (hmem _).mpr (Or.inl rfl)
    · rw [latestChange_cons_of_ne hhash] at hc
      have hin := h.standing hash c hc u hu (by omega)
      refine (hmem _).mpr (Or.inr ⟨hin, fun hsame ↦ hhash ?_⟩)
      have heq := h.unique c.2 hin e he (hsame.trans hid.symm)
      rw [hhash', ← heq]
      exact (phoneHash_of_latestChange hc).2
  · refine List.forall_mem_cons.mpr ⟨Or.inl ⟨e', (hmem _).mpr (Or.inl rfl), rfl, rfl, le_rfl, le_rfl⟩,
      fun c hc ↦ ?_⟩
    rcases h.lives c hc with ⟨f, hf, hfid, hfhash, hfversion, hfupdated⟩ | ⟨hlong, hgone⟩
    · by_cases hsame : f.id = id
      · obtain rfl := h.unique f hf e he (hsame.trans hid.symm)
        have hpast := h.past c hc
        exact Or.inl ⟨e', (hmem _).mpr (Or.inl rfl), hid'.trans hfid, hhash'.trans hfhash,
          by omega, by omega⟩
      · exact Or.inl ⟨f, (hmem _).mpr (Or.inr ⟨hf, hsame⟩), hfid, hfhash, hfversion, hfupdated⟩
    · refine Or.inr ⟨by omega, fun x hx ↦ ?_⟩
      rcases (hmem x).mp hx with rfl | ⟨hx, _⟩
      · rw [hid']
        exact hgone e he
      · exact hgone x hx
  · exact List.forall_mem_cons.mpr ⟨⟨hnames, hdecision', hversion'.trans (congrArg (· + 1) hversion)⟩,
      h.leaves⟩

end Decisions

section Invariants

variable {w : PhonePolicy} {a : PolicyStep} {hash : String} {source : Source}

/-- The stored dates were seen, and the dates of the last half a year are kept. -/
structure Dates (db : PolicyTables) (clock : ℤ) (seen : List Sighting) : Prop where
  sound : ∀ hash source, ∀ d ∈ lastSeen db.entries db.observations hash source,
    ⟨source, hash, d⟩ ∈ seen
  complete : ∀ g ∈ seen, clock - days 180 < g.lastSeenAt →
    ∃ d ∈ lastSeen db.entries db.observations g.phoneHash g.source, g.lastSeenAt ≤ d

/-- A step that forgets no date. -/
def Remembers (db : PolicyTables) (new : List Sighting) (db' : PolicyTables) : Prop :=
  ∀ hash source, Newest
    (fun d ↦ d ∈ lastSeen db.entries db.observations hash source ∨ ⟨source, hash, d⟩ ∈ new)
    (lastSeen db'.entries db'.observations hash source)

theorem remembers_of_eq {db db' : PolicyTables}
    (h : ∀ hash source, lastSeen db'.entries db'.observations hash source =
      lastSeen db.entries db.observations hash source) : Remembers db [] db' := by
  intro hash source
  rw [h]
  exact (newest_self _).congr fun d ↦ by simp

theorem Dates.remember {db db' : PolicyTables} {clock clock' : ℤ} {seen new : List Sighting}
    (h : Dates db clock seen) (hremembers : Remembers db new db') (hclock : clock ≤ clock') :
    Dates db' clock' (new ++ seen) := by
  constructor
  · intro hash source d hd
    rcases (hremembers hash source).attained d hd with hold | hnew
    · exact List.mem_append_right _ (h.sound hash source d hold)
    · exact List.mem_append_left _ hnew
  · intro g hg hrecent
    rcases List.mem_append.mp hg with hnew | hold
    · exact (hremembers g.phoneHash g.source).bound _ (Or.inr hnew)
    · obtain ⟨d, hd, hle⟩ := h.complete g hold (by omega)
      obtain ⟨d', hd', hle'⟩ := (hremembers g.phoneHash g.source).bound d (Or.inl hd)
      exact ⟨d', hd', hle.trans hle'⟩

structure PolicyInvariant (w : PhonePolicy) : Prop where
  decisions : Decisions w.db.entries w.clock w.issued w.changes
  owned : Owned w.db.entries w.db.observations
  dates : Dates w.db w.clock w.seen

theorem decisions_nil (clock : ℤ) : Decisions ∅ clock [] [] where
  unique e he := absurd he (Table.notMem_empty e)
  drawn e he := absurd he (Table.notMem_empty e)
  recorded c hc := absurd hc List.not_mem_nil
  past c hc := absurd hc List.not_mem_nil
  manual e he := absurd he (Table.notMem_empty e)
  standing hash c hc := by cases hc
  lives c hc := absurd hc List.not_mem_nil
  ordered := List.Pairwise.nil
  leaves c hc := absurd hc List.not_mem_nil

theorem policyInvariant_start (fingerprint : String) (clock : ℤ) :
    PolicyInvariant (.start fingerprint clock) where
  decisions := decisions_nil clock
  owned o ho := absurd ho (Table.notMem_empty o)
  dates := ⟨fun hash source d hd ↦ (by cases hd), fun g hg ↦ absurd hg List.not_mem_nil⟩

/-- A step other than a change. -/
theorem PolicyInvariant.keep (h : PolicyInvariant w) {db' : PolicyTables} {ids : List Uuid}
    (new : List Sighting) {clock' : ℤ} (hclock : w.clock ≤ clock')
    (hkeeps : Keeps w.db.entries w.issued ids db'.entries clock')
    (howned : Owned db'.entries db'.observations) (hdates : Dates db' clock' (new ++ w.seen)) :
    PolicyInvariant ⟨db', clock', ids ++ w.issued, new ++ w.seen, w.changes⟩ :=
  ⟨h.decisions.keep hkeeps hclock, howned, hdates⟩

theorem keeps_self {entries : EntryTable} {issued ids : List Uuid} {clock' : ℤ}
    (hunique : UniqueIds entries) : Keeps entries issued ids entries clock' :=
  ⟨fun _ he ↦ Or.inl he, fun _ he ↦ Or.inl he, hunique⟩

theorem PolicyInvariant.fresh (h : PolicyInvariant w) (ha : w.Enabled a) :
    ∀ e ∈ w.db.entries, e.id ∉ a.ids := fun e he hid ↦ ha.2.1 e.id hid (h.decisions.drawn e he)

/-- What an import adds, when it is accepted. -/
theorem importFeed_keeps (h : PolicyInvariant w) {call : FeedImport} {now : ℤ}
    (ha : w.Enabled (.importFeed call now)) :
    Keeps w.db.entries w.issued (PolicyStep.importFeed call now).ids
        (w.nextDb (.importFeed call now)).entries now ∧
      Owned (w.nextDb (.importFeed call now)).entries (w.nextDb (.importFeed call now)).observations ∧
      Remembers w.db (w.newSightings (.importFeed call now)) (w.nextDb (.importFeed call now)) := by
  have hfresh := h.fresh ha
  have heffect := importFeed_effect w.db call
  unfold PhonePolicy.newSightings PhonePolicy.nextDb
  dsimp only
  generalize importFeed w.db call = outcome at heffect
  obtain ⟨result, db'⟩ := outcome
  cases heffect with
  | refused error =>
      exact ⟨keeps_self h.decisions.unique, h.owned, remembers_of_eq fun _ _ ↦ rfl⟩
  | accepted _ himport hobservations =>
      have hgrows := (grows_importEntries himport).1
      rw [Nat.zero_add] at hgrows
      have hids : ∀ id, (∃ j < call.numbers.length, call.ids j = id) →
          id ∈ (PolicyStep.importFeed call now).ids := by
        rintro id ⟨j, hj, rfl⟩
        exact List.mem_map_of_mem (List.mem_range.mpr hj)
      refine ⟨hgrows.keeps _ hids ha.2.1 h.decisions.unique now, ?_, fun hash source ↦ ?_⟩
      · simp only
        rw [hobservations]
        exact owned_importObservations call call.numbers 0 (hgrows.owned h.owned)
      · exact newest_importFeed himport hobservations h.decisions.unique h.owned
          fun e he j hj hid ↦ hfresh e he (hids _ ⟨j, hj, hid⟩)

theorem PolicyInvariant.change (h : PolicyInvariant w) {call : ChangeCall} {now : ℤ}
    (ha : w.Enabled (.change call now)) : PolicyInvariant (w.next (.change call now)) ∧
      Remembers w.db [] (w.nextDb (.change call now)) := by
  have hfresh := h.fresh ha
  obtain ⟨hclock, hids, hafter, hbefore⟩ := ha
  have heffect := changeOn_effect w.db call
  unfold PhonePolicy.next PhonePolicy.newSightings PhonePolicy.newChange PhonePolicy.nextDb
  dsimp only
  generalize changeOn w.db call = outcome at heffect
  obtain ⟨result, db'⟩ := outcome
  cases heffect with
  | refused error =>
      have hsame : Remembers w.db [] w.db := remembers_of_eq fun _ _ ↦ rfl
      exact ⟨h.keep [] hclock (keeps_self h.decisions.unique) h.owned (h.dates.remember hsame hclock),
        hsame⟩
  | applied entries id e e' htarget hfound hversion happlied =>
      obtain ⟨hgrows, hnames⟩ := grows_resolveTarget htarget
      have hunique := hgrows.unique h.decisions.unique
      have hkeeps := hgrows.keeps [call.newId] (fun id hid ↦ List.mem_singleton.mpr hid)
        hids h.decisions.unique w.clock
      have hdecisions := h.decisions.keep hkeeps le_rfl
      obtain ⟨he, hid⟩ := findEntry_eq_some hfound
      have hid' : e'.id = id := (applied_eq happlied).1.trans hid
      have he' : e' ∈ rewriteEntry entries id call :=
        (mem_rewriteEntry hunique hfound happlied).mpr (Or.inl rfl)
      have hrow : changedRow w.db { w.db with entries := rewriteEntry entries id call } call =
          some e' := by
        unfold changedRow
        rw [htarget, Option.bind_some]
        have hfind := (uniqueIds_rewriteEntry hunique).findEntry he'
        rw [hid'] at hfind
        exact hfind
      have hnames' : call.change.target.names e' := by
        have hold := hnames hunique e he hid
        unfold Target.names at hold ⊢
        split at hold
        · exact (applied_eq happlied).1.trans hold
        · exact (applied_eq happlied).2.1.trans hold
      have hfresh' : ∀ f ∈ w.db.entries, ¬ f.id = call.newId := fun f hf hsame ↦
        hfresh f hf (List.mem_singleton.mpr hsame)
      have hremembers : Remembers w.db []
          { w.db with entries := rewriteEntry entries id call } := by
        refine remembers_of_eq fun hash source ↦ ?_
        exact lastSeen_rewriteEntry.trans (hgrows.lastSeen hfresh' h.owned)
      refine ⟨⟨?_, owned_rewriteEntry (hgrows.owned h.owned), h.dates.remember hremembers hclock⟩,
        hremembers⟩
      simp only
      rw [hrow]
      exact hdecisions.rewrite hfound hversion happlied hnames' hafter hbefore

theorem purgeEntries_keeps (h : PolicyInvariant w) {call : PurgeCall Uuid} {now : ℤ}
    {ids : List Uuid} (hnow : call.now ≤ now) :
    Keeps w.db.entries w.issued ids (purgeEntries w.db call).entries now := by
  obtain ⟨hsub, hkept⟩ := mem_purgeEntries call h.decisions.unique
  refine ⟨fun e he ↦ ?_, fun e he ↦ Or.inl (hsub e he), ?_⟩
  · rcases hkept e he with hin | ⟨hpurgeable, hgone⟩
    · exact Or.inl hin
    · have hold := hpurgeable.old
      exact Or.inr ⟨by omega, fun u hu ↦ (hpurgeable.expired u hu).trans hnow, hgone⟩
  · exact fun e he f hf ↦ h.decisions.unique e (hsub e he) f (hsub f hf)

/-- Only changes rewrite entries. -/
theorem keeps_nextDb (h : PolicyInvariant w) (ha : w.Enabled a)
    (hchange : ∀ call now, a ≠ .change call now) :
    Keeps w.db.entries w.issued a.ids (w.nextDb a).entries a.committedAt := by
  cases a with
  | importFeed call now => exact (importFeed_keeps h ha).1
  | change call now => exact absurd rfl (hchange call now)
  | recordFailure source now => exact keeps_self h.decisions.unique
  | purgeObservations call now => exact keeps_self h.decisions.unique
  | purgeEntries call now => exact purgeEntries_keeps h ha.2.2

/-- Only a purge of observations forgets dates. -/
theorem remembers_nextDb (h : PolicyInvariant w) (ha : w.Enabled a)
    (hpurge : ∀ call now, a ≠ .purgeObservations call now) :
    Remembers w.db (w.newSightings a) (w.nextDb a) := by
  cases a with
  | importFeed call now => exact (importFeed_keeps h ha).2.2
  | change call now => exact (h.change ha).2
  | recordFailure source now => exact remembers_of_eq fun _ _ ↦ rfl
  | purgeObservations call now => exact absurd rfl (hpurge call now)
  | purgeEntries call now =>
      exact remembers_of_eq fun _ _ ↦ lastSeen_purgeEntries h.decisions.unique

theorem PolicyInvariant.next (h : PolicyInvariant w) (ha : w.Enabled a) :
    PolicyInvariant (w.next a) := by
  have hclock : w.clock ≤ a.committedAt := ha.1
  cases a with
  | importFeed call now =>
      obtain ⟨hkeeps, howned, hremembers⟩ := importFeed_keeps h ha
      exact h.keep _ hclock hkeeps howned (h.dates.remember hremembers hclock)
  | change call now => exact (h.change ha).1
  | recordFailure source now =>
      exact h.keep [] hclock (keeps_self h.decisions.unique) h.owned
        (h.dates.remember (remembers_of_eq fun _ _ ↦ rfl) hclock)
  | purgeObservations call now =>
      have hnow : call.now ≤ now := ha.2.2
      refine h.keep [] hclock (keeps_self h.decisions.unique)
        (fun o ho ↦ h.owned o (Table.mem_delete.mp ho).1)
        ⟨fun hash source d hd ↦ ?_, fun g hg hrecent ↦ ?_⟩
      · obtain ⟨e, he, hd⟩ := Option.bind_eq_some_iff.mp hd
        exact h.dates.sound hash source d
          (Option.bind_eq_some_iff.mpr ⟨e, he, seenAt_purgeObservations.1 hd⟩)
      · have hclock' : w.clock ≤ now := hclock
        have hrecent' : now - days 180 < g.lastSeenAt := hrecent
        obtain ⟨d, hd, hle⟩ := h.dates.complete g hg (by omega)
        obtain ⟨e, he, hd⟩ := Option.bind_eq_some_iff.mp hd
        exact ⟨d, Option.bind_eq_some_iff.mpr
          ⟨e, he, seenAt_purgeObservations.2 hd (by omega)⟩, hle⟩
  | purgeEntries call now =>
      have hremembers := remembers_nextDb h ha (by simp)
      exact h.keep [] hclock (purgeEntries_keeps h ha.2.2) (owned_purgeEntries h.owned)
        (h.dates.remember hremembers hclock)

def PhonePolicy.Initial (w : PhonePolicy) : Prop := ∃ fingerprint clock, w = .start fingerprint clock

theorem policyInvariant_of_reachable (h : phonePolicy.Reachable PhonePolicy.Initial w) :
    PolicyInvariant w := by
  refine h.invariant ?_ fun s a hs ha ↦ hs.next ha
  rintro s ⟨fingerprint, clock, rfl⟩
  exact policyInvariant_start fingerprint clock

end Invariants

section Policy

variable {w : PhonePolicy} {hash : String} {r : PolicyReadings} {e : BlocklistEntry}

/-- What the accepted imports of a run have said. -/
def gained : PhonePolicy → List PolicyStep → List Sighting
  | _, [] => []
  | w, a :: steps => gained (w.next a) steps ++ w.newSightings a

/-- The dates after a run are the newest of those before and those it brought. -/
theorem newest_gained {steps : List PolicyStep} (h : PolicyInvariant w)
    (hvalid : phonePolicy.Valid w steps)
    (hpurge : ∀ call now, PolicyStep.purgeObservations call now ∉ steps) :
    Remembers w.db (gained w steps) (phonePolicy.exec w steps).db := by
  intro hash source
  induction steps generalizing w with
  | nil => exact (newest_self _).congr fun d ↦ by simp [gained]
  | cons a steps ih =>
      have hfirst := remembers_nextDb h hvalid.1 fun call now heq ↦
        hpurge call now (heq ▸ List.mem_cons_self)
      have hrest := ih (h.next hvalid.1) hvalid.2
        fun call now hmem ↦ hpurge call now (List.mem_cons_of_mem _ hmem)
      refine ((hfirst hash source).replace hrest).congr fun d ↦ ?_
      change _ ↔ _ ∨ _ ∈ gained (w.next a) steps ++ w.newSightings a
      rw [List.mem_append, or_assoc]
      exact or_congr_right or_comm

structure PolicyReadings.NotBefore (r : PolicyReadings) (t : ℤ) : Prop where
  allowed : t ≤ r.allowed
  decided : t ≤ r.decided
  seen : ∀ source, t ≤ r.seen source

structure PolicyReadings.Before (r : PolicyReadings) (t : ℤ) : Prop where
  allowed : r.allowed < t
  decided : r.decided < t

theorem permitOn_blocked_iff (db : PolicyTables) (hash : String) (r : PolicyReadings) :
    permitOn db hash r = .error .phoneBlocked ↔
      (checkPolicy db hash r).1 = false ∧ (checkPolicy db hash r).2.1 = true := by
  unfold permitOn
  obtain ⟨allowed, blocked, ready⟩ := checkPolicy db hash r
  cases allowed <;> cases blocked <;> cases ready <;> simp

theorem permitOn_ok {db : PolicyTables} (h : (checkPolicy db hash r).1 = true) :
    permitOn db hash r = .ok () := by
  unfold permitOn
  generalize checkPolicy db hash r = answer at h
  obtain ⟨allowed, blocked, ready⟩ := answer
  obtain rfl : allowed = true := h
  rfl

/-- Until it expires, the latest decision alone is asked. -/
theorem permitOn_manual (h : PolicyInvariant w) {c : Change × BlocklistEntry} {u : ℤ}
    (hc : w.latest hash = some c) (hu : u ∈ c.2.decisionUntil) (hafter : r.NotBefore w.clock)
    (hbefore : r.Before u) :
    (c.2.decision = .allow → permitOn w.db hash r = .ok ()) ∧
      (c.2.decision = .block → permitOn w.db hash r = .error .phoneBlocked) := by
  have hin := h.decisions.standing hash c hc u hu (hafter.allowed.trans_lt hbefore.allowed)
  have hfound : w.db.entries.find? hash = some c.2 :=
    Table.find?_eq_some_iff.mpr ⟨hin, (phoneHash_of_latestChange hc).2⟩
  have huntil : c.2.decisionUntil = some u := hu
  constructor
  · intro hallow
    refine permitOn_ok ?_
    simp [checkPolicy, hfound, hallow, huntil, hbefore.allowed]
  · intro hblock
    refine (permitOn_blocked_iff _ _ _).mpr ⟨?_, ?_⟩
    · simp [checkPolicy, hfound, hblock]
    · simp [checkPolicy, hfound, hblock, huntil, hbefore.decided]

/-- Without an unexpired decision the sightings of ninety days are asked. -/
theorem permitOn_automatic (h : PolicyInvariant w) (hafter : r.NotBefore w.clock)
    (hexpired : ∀ c, w.latest hash = some c → ∀ u ∈ c.2.decisionUntil, r.NotBefore u) :
    permitOn w.db hash r = .error .phoneBlocked ↔
      ∃ g ∈ w.seen, g.phoneHash = hash ∧ r.seen g.source - days 90 < g.lastSeenAt := by
  have hkept : ∀ g ∈ w.seen, r.seen g.source - days 90 < g.lastSeenAt →
      ∃ d ∈ lastSeen w.db.entries w.db.observations g.phoneHash g.source, g.lastSeenAt ≤ d := by
    intro g hg hrecent
    refine h.dates.complete g hg ?_
    have hclock := hafter.seen g.source
    unfold days at *
    omega
  rw [permitOn_blocked_iff]
  cases hfound : w.db.entries.find? hash with
  | none =>
      refine iff_of_false ?_ ?_
      · rintro ⟨_, hblocked⟩
        simp [checkPolicy, hfound] at hblocked
      · rintro ⟨g, hg, rfl, hrecent⟩
        obtain ⟨d, hd, _⟩ := hkept g hg hrecent
        obtain ⟨e, he, _⟩ := Option.bind_eq_some_iff.mp hd
        rw [hfound] at he
        cases he
  | some e =>
      obtain ⟨he, rfl⟩ := Table.find?_eq_some_iff.mp hfound
      have hpast : ∀ u ∈ e.decisionUntil, r.NotBefore u := by
        intro u hu
        obtain ⟨c, hc, rfl⟩ := h.decisions.manual e he (Option.isSome_iff_ne_none.mp
          (Option.isSome_iff_exists.mpr ⟨u, hu⟩))
        exact hexpired c hc u hu
      have hallowed : e.decisionUntil.any (fun u ↦ decide (r.allowed < u)) = false := by
        cases huntil : e.decisionUntil with
        | none => rfl
        | some u => exact decide_eq_false (not_lt.mpr (hpast u huntil).allowed)
      have hdecided : e.decisionUntil.any (fun u ↦ decide (r.decided < u)) = false := by
        cases huntil : e.decisionUntil with
        | none => rfl
        | some u => exact decide_eq_false (not_lt.mpr (hpast u huntil).decided)
      have hfirst : (checkPolicy w.db e.phoneHash r).1 = false := by
        simp only [checkPolicy, hfound, Option.any_some, hallowed, Bool.and_false]
      have hsecond : (checkPolicy w.db e.phoneHash r).2.1 = true ↔
          ∃ o ∈ w.db.observations, o.entryId = e.id ∧ r.seen o.source - days 90 < o.lastSeenAt := by
        simp only [checkPolicy, hfound, Option.any_some, hdecided, Bool.false_eq_true, if_false,
          List.any_eq_true, Bool.and_eq_true, decide_eq_true_eq]
        rfl
      rw [hfirst, hsecond]
      constructor
      · rintro ⟨_, o, ho, hid, hrecent⟩
        have hd : o.lastSeenAt ∈ lastSeen w.db.entries w.db.observations e.phoneHash o.source := by
          rw [lastSeen_of_find? hfound]
          exact mem_seenAt.mpr ⟨o, ho, Prod.ext hid rfl, rfl⟩
        exact ⟨_, h.dates.sound _ _ _ hd, rfl, hrecent⟩
      · rintro ⟨g, hg, hhash, hrecent⟩
        obtain ⟨d, hd, hle⟩ := hkept g hg hrecent
        rw [hhash, lastSeen_of_find? hfound] at hd
        obtain ⟨o, ho, hkey, rfl⟩ := mem_seenAt.mp hd
        obtain ⟨hid, hsource⟩ := Prod.mk.inj hkey
        refine ⟨rfl, o, ho, hid, ?_⟩
        rw [hsource]
        omega

end Policy

/-- An import, an exception for the number it brought and a second attempt at it. -/
def exceptionRun : List PolicyStep :=
  [.importFeed
      { source := .castle, numbers := [⟨⟨"a", "+33……0000"⟩, 10⟩], fingerprint := "k",
        ids := fun _ ↦ 1, insertedAt := fun _ ↦ (10, 10), importedAt := fun _ ↦ 10,
        attemptedAt := 10, succeededAt := 10, fault := false } 10,
    .change
      { role := some "superadmin",
        change := ⟨.phone ⟨"a", "+33……0000"⟩, .allow, some 30, 0, some ['m', 'i', 'n', 'e']⟩,
        newId := 2, insertedAt := (20, 20), now := 20, updatedAt := 20, fault := false } 20,
    .change
      { role := some "superadmin",
        change := ⟨.id 1, .block, some 30, 0, some ['s', 'p', 'a', 'm']⟩,
        newId := 3, insertedAt := (30, 30), now := 30, updatedAt := 30, fault := false } 30]

def exceptionReadings : PolicyReadings := ⟨40, 40, fun _ ↦ 40, fun _ ↦ 40⟩

end Histae.Mobile
