import Mathlib
import Histae.Discovery.Cursor
import Histae.Paging.Scan

/-!
# The discovery feed

`feed_batch` asks for the first candidates after a position within a radius,
and doubles the radius until the batch is full or the radius covers the
viewer's distance. `feed` asks for batches of growing size until more profiles
than the page needs are visible, the candidates run out, or its scan budget is
spent; a candidate that was swiped meanwhile is scanned and not shown. The
sum of a distance and one tenth, and the coarse distance that is published,
are parameters.
-/

namespace Histae.Discovery

open Paging

inductive Sex
  | male
  | female
  | other
  deriving DecidableEq

structure FeedProfileAnswer where
  questionId : Uuid
  code : String
  question : String
  answer : String
  position : ℤ
  deriving DecidableEq

structure DiscoveryCandidateRow where
  userId : Uuid
  firstname : String
  age : ℤ
  sex : Sex
  bio : Option String
  distanceKm : F64
  traits : List String
  profileAnswers : List FeedProfileAnswer
  deriving DecidableEq

structure FeedCandidate where
  userId : Uuid
  firstname : String
  age : ℤ
  sex : Sex
  bio : Option String
  distanceKm : F64
  traits : List String
  profileAnswers : List FeedProfileAnswer
  deriving DecidableEq

def DiscoveryCandidateRow.cursor (row : DiscoveryCandidateRow) : DiscoveryCursor :=
  ⟨row.distanceKm, row.userId⟩

/-- What the feed query sees of one viewer: the eligible candidates in the
order of `(distance_km, user_id)`. -/
structure FeedSource where
  ready : Bool
  maxDistanceKm : F64
  candidates : List DiscoveryCandidateRow
  finite : maxDistanceKm.isFinite = true
  sorted : candidates.Pairwise fun a b ↦ a.cursor.key < b.cursor.key
  within : ∀ c ∈ candidates, c.distanceKm.rank ≤ maxDistanceKm.rank
  valid : ∀ c ∈ candidates, validCursor c.cursor = true

structure DiscoveryBatch where
  ready : Bool
  candidates : List DiscoveryCandidateRow
  deriving DecidableEq

def isAfter (cursor : Option DiscoveryCursor) (row : DiscoveryCandidateRow) : Bool :=
  cursor.all fun c ↦ c.key < row.cursor.key

namespace FeedSource

variable (source : FeedSource)

/-- One run of the feed query, and whether its radius covers the viewer's
distance. -/
def query (limit : ℕ) (cursor : Option DiscoveryCursor) (radiusKm : F64) : DiscoveryBatch × Bool :=
  if source.ready then
    (⟨true, (source.candidates.filter fun c ↦
        decide (c.distanceKm.rank ≤ radiusKm.rank) && isAfter cursor c).take limit⟩,
      decide (source.maxDistanceKm.rank ≤ radiusKm.rank))
  else (⟨false, []⟩, true)

def feedBatchLoop (limit : ℕ) (cursor : Option DiscoveryCursor) : ℕ → F64 → Option DiscoveryBatch
  | 0, _ => none
  | rounds + 1, radiusKm =>
      let (batch, exhausted) := source.query limit cursor radiusKm
      if !batch.ready || exhausted || decide (limit ≤ batch.candidates.length) then some batch
      else feedBatchLoop limit cursor rounds radiusKm.double

/-- `feed_batch`; a radius is doubled fewer than 2048 times. -/
def feedBatch (plusTenth : F64 → F64) (limit : ℕ) (cursor : Option DiscoveryCursor) :
    Option DiscoveryBatch :=
  source.feedBatchLoop limit cursor 2048
    (cursor.elim .tenth fun position ↦ (plusTenth position.distanceKm).max .tenth)

end FeedSource

def maxFeedBatches : ℕ := 20

structure Scan where
  visible : List DiscoveryCandidateRow
  remainingScan : ℕ
  batchSize : ℕ
  cursor : Option DiscoveryCursor
  databaseExhausted : Bool

section Feed

variable (source : FeedSource) (plusTenth : F64 → F64) (swiped : Uuid → Bool) (limit : ℕ)

def maximumBatch : ℕ := max 50 ((limit + 1) * 4)

/-- The loop of `feed`; each round scans a candidate or ends it, so that the
budget bounds the rounds. -/
def scanLoop : ℕ → Scan → Except DiscoveryError Scan
  | 0, s => .ok s
  | rounds + 1, s =>
      if s.remainingScan = 0 ∨ limit < s.visible.length then .ok s
      else
        let requested := min s.batchSize s.remainingScan
        match source.feedBatch plusTenth requested s.cursor with
        | none => .error .unavailable
        | some batch =>
            if !batch.ready then .error .notReady
            else
              match batch.candidates.getLast? with
              | none => .ok { s with databaseExhausted := true }
              | some last =>
                  let scanned : Scan :=
                    { s with
                      visible := s.visible ++ batch.candidates.filter fun c ↦ !swiped c.userId
                      remainingScan := s.remainingScan - batch.candidates.length
                      cursor := some last.cursor }
                  if batch.candidates.length < requested then
                    .ok { scanned with databaseExhausted := true }
                  else
                    scanLoop rounds
                      { scanned with batchSize := min (s.batchSize * 2) (maximumBatch limit) }

def Scan.start (cursor : Option DiscoveryCursor) : Scan where
  visible := []
  remainingScan := maximumBatch limit * maxFeedBatches
  batchSize := limit + 1
  cursor := cursor
  databaseExhausted := false

variable (cipher : FeedCipher) (coarse : F64 → F64)

def FeedCandidate.ofRow (row : DiscoveryCandidateRow) : FeedCandidate where
  userId := row.userId
  firstname := row.firstname
  age := row.age
  sex := row.sex
  bio := row.bio
  distanceKm := coarse row.distanceKm
  traits := row.traits
  profileAnswers := row.profileAnswers

/-- `DiscoveryService::feed`. -/
def feed (viewer : Uuid) (rawCursor : Option (List Char)) (now : ℤ) (nonce : Option Nonce) :
    Except DiscoveryError (Page (List Char) FeedCandidate) :=
  if 1 ≤ limit ∧ limit ≤ 100 then
    match decode cipher viewer rawCursor now with
    | .error error => if source.ready then .error error else .error .notReady
    | .ok cursor =>
        match scanLoop source plusTenth swiped limit (maximumBatch limit * maxFeedBatches)
            (Scan.start limit cursor) with
        | .error error => .error error
        | .ok s =>
            let page := s.visible.take limit
            let resume := (page.getLast?.map DiscoveryCandidateRow.cursor) <|> s.cursor
            if limit < s.visible.length ∨ s.databaseExhausted = false then
              match resume with
              | none => .ok ⟨page.map (.ofRow coarse), none⟩
              | some position =>
                  match encode cipher viewer position now nonce with
                  | .error error => .error error
                  | .ok next => .ok ⟨page.map (.ofRow coarse), some next⟩
            else .ok ⟨page.map (.ofRow coarse), none⟩
  else .error .invalidFeedRequest

end Feed

section Radius

variable {x : F64}

theorem rank_ofMagnitude {m : ℕ} (h : m < 2 ^ 63) : (F64.ofMagnitude false m).rank = m := by
  have hlt : m < 2 ^ 64 := h.trans (by norm_num)
  have hbits : (F64.ofMagnitude false m).bits.toNat = m := by
    simpa [F64.ofMagnitude] using Nat.mod_eq_of_lt hlt
  have hpositive : (F64.ofMagnitude false m).isNegative = false := by
    simpa [F64.isNegative, hbits] using h
  have hmagnitude : (F64.ofMagnitude false m).magnitude = m := by
    rw [F64.magnitude, hbits, Nat.mod_eq_of_lt h]
  simp [F64.rank, hpositive, hmagnitude]

theorem magnitude_of_rank_pos (h : 0 < x.rank) : x.isNegative = false ∧ (x.magnitude : ℤ) = x.rank := by
  unfold F64.rank at h ⊢
  by_cases hnegative : x.isNegative = true
  · rw [if_pos hnegative] at h
    omega
  · exact ⟨by simpa using hnegative, by simp [hnegative]⟩

/-- Doubling raises the exponent of a normal number, up to infinity. -/
theorem rank_double (hlow : 2 ^ 52 ≤ x.rank) (hhigh : x.rank ≤ 2047 * 2 ^ 52) :
    x.double.rank = min (x.rank + 2 ^ 52) (2047 * 2 ^ 52) := by
  obtain ⟨hpositive, hmagnitude⟩ := magnitude_of_rank_pos (lt_of_lt_of_le (by norm_num) hlow)
  have hexponent : x.exponent = x.magnitude / 2 ^ 52 := rfl
  unfold F64.double
  split
  · omega
  split
  · rw [hpositive, rank_ofMagnitude (by norm_num)]
    omega
  split
  · omega
  · rw [hpositive, rank_ofMagnitude (by omega)]
    omega

theorem rank_lt_of_isFinite (h : x.isFinite = true) : x.rank < 2047 * 2 ^ 52 := by
  have hexponent : x.magnitude / 2 ^ 52 < 2047 := of_decide_eq_true h
  unfold F64.rank
  split <;> omega

/-- The first radius is at least one tenth, whatever the sum gave. -/
theorem rank_max_tenth (y : F64) :
    2 ^ 52 ≤ (y.max .tenth).rank ∧ (y.max .tenth).rank ≤ 2047 * 2 ^ 52 := by
  have htenth : F64.tenth.rank = 0x3fb999999999999a := by decide
  have hnumber : F64.tenth.isNan = false := by decide
  unfold F64.max
  split
  · rw [htenth]
    omega
  rename_i hnan
  rw [hnumber, if_neg Bool.false_ne_true]
  split
  · rw [htenth]
    omega
  rename_i hlt
  rw [htenth] at hlt
  have hmagnitude := (magnitude_of_rank_pos (lt_of_lt_of_le (by norm_num) (not_lt.mp hlt))).2
  have hbound : ¬ 2047 * 2 ^ 52 < y.magnitude := by simpa [F64.isNan] using hnan
  omega

end Radius

section Batches

variable {source : FeedSource} {plusTenth : F64 → F64} {limit : ℕ} {cursor : Option DiscoveryCursor}

/-- The candidates after a position. -/
def FeedSource.after (source : FeedSource) (cursor : Option DiscoveryCursor) :
    List DiscoveryCandidateRow := source.candidates.filter (isAfter cursor)

theorem pairwise_rank_after : (source.after cursor).Pairwise fun a b ↦
    a.distanceKm.rank ≤ b.distanceKm.rank := by
  refine (source.sorted.filter _).imp fun {a b} hlt ↦ ?_
  rw [DiscoveryCursor.key, DiscoveryCursor.key, Prod.Lex.toLex_lt_toLex] at hlt
  rcases hlt with hlt | ⟨heq, _⟩
  · exact hlt.le
  · exact heq.le

theorem filter_radius (radius : F64) :
    (source.candidates.filter fun c ↦
      decide (c.distanceKm.rank ≤ radius.rank) && isAfter cursor c) =
      (source.after cursor).filter fun c ↦ c.distanceKm.rank ≤ radius.rank := by
  rw [FeedSource.after, List.filter_filter]

theorem feedBatchLoop_eq (hready : source.ready = true) {rounds : ℕ} {radius : F64}
    (hlow : 2 ^ 52 ≤ radius.rank) (hhigh : radius.rank ≤ 2047 * 2 ^ 52)
    (hrounds : 2048 * 2 ^ 52 ≤ radius.rank + rounds * 2 ^ 52) :
    source.feedBatchLoop limit cursor rounds radius =
      some ⟨true, (source.after cursor).take limit⟩ := by
  induction rounds generalizing radius with
  | zero => omega
  | succ rounds ih =>
      rw [FeedSource.feedBatchLoop, FeedSource.query, if_pos hready]
      simp only [filter_radius, Bool.not_true, Bool.false_or]
      split
      · rename_i hdone
        rw [Bool.or_eq_true, decide_eq_true_eq, decide_eq_true_eq] at hdone
        rcases hdone with hcovers | hfull
        · have hall : ((source.after cursor).filter fun c ↦
              decide (c.distanceKm.rank ≤ radius.rank)) = source.after cursor := by
            rw [List.filter_eq_self]
            intro c hc
            exact decide_eq_true ((source.within c (List.mem_filter.mp hc).1).trans hcovers)
          rw [hall]
        · rw [List.length_take] at hfull
          rw [take_filter_le pairwise_rank_after (by omega)]
      · rename_i hmore
        rw [Bool.or_eq_true, decide_eq_true_eq, decide_eq_true_eq, not_or] at hmore
        have hfinite := rank_lt_of_isFinite source.finite
        have hdouble := rank_double hlow hhigh
        push_cast at hrounds
        refine ih ?_ ?_ ?_ <;> rw [hdouble] <;> omega

/-- A batch is the first candidates after the position. -/
theorem feedBatch_eq (hready : source.ready = true) :
    source.feedBatch plusTenth limit cursor =
      some ⟨true, (source.after cursor).take limit⟩ := by
  have htenth : F64.tenth.rank = 0x3fb999999999999a := by decide
  cases cursor with
  | none =>
      refine feedBatchLoop_eq hready ?_ ?_ ?_ <;> rw [Option.elim_none, htenth] <;> norm_num
  | some position =>
      obtain ⟨hlow, hhigh⟩ := rank_max_tenth (plusTenth position.distanceKm)
      refine feedBatchLoop_eq hready hlow hhigh ?_
      rw [Option.elim_some]
      omega

end Batches

section Scanning

variable {source : FeedSource} {swiped : Uuid → Bool} {cursor : Option DiscoveryCursor}
  {rest : List DiscoveryCandidateRow} {s : Scan}

theorem exists_append_after (source : FeedSource) (cursor : Option DiscoveryCursor) :
    ∃ done, source.candidates = done ++ source.after cursor := by
  cases cursor with
  | none =>
      refine ⟨[], ?_⟩
      rw [List.nil_append]
      exact (List.filter_eq_self.mpr fun _ _ ↦ rfl).symm
  | some position => exact exists_eq_append_filter_gt source.sorted position.key

theorem after_last {done : List DiscoveryCandidateRow} {last : DiscoveryCandidateRow}
    (hsplit : source.candidates = done ++ rest) (hlast : done.getLast? = some last) :
    source.after (some last.cursor) = rest :=
  filter_above_last source.sorted hsplit hlast

/-- What a scan has found of the candidates it set out for. -/
structure Scanned (source : FeedSource) (swiped : Uuid → Bool) (rest : List DiscoveryCandidateRow)
    (s : Scan) (scanned rest' : List DiscoveryCandidateRow) : Prop where
  split : rest = scanned ++ rest'
  visible : s.visible = scanned.filter fun c ↦ !swiped c.userId
  cursor : ∀ last, scanned.getLast? = some last → s.cursor = some last.cursor
  after : source.after s.cursor = rest'

theorem Scanned.advance {done scanned rest' : List DiscoveryCandidateRow}
    (h : Scanned source swiped rest s scanned rest')
    (hcandidates : source.candidates = done ++ rest) {n : ℕ} {last : DiscoveryCandidateRow}
    (hlast : (rest'.take n).getLast? = some last) (remaining batchSize : ℕ) (exhausted : Bool) :
    Scanned source swiped rest
      ⟨s.visible ++ (rest'.take n).filter fun c ↦ !swiped c.userId, remaining, batchSize,
        some last.cursor, exhausted⟩ (scanned ++ rest'.take n) (rest'.drop n) := by
  have hne : rest'.take n ≠ [] := by
    intro hnil
    rw [hnil] at hlast
    exact absurd hlast (by simp)
  have hsplit : rest = (scanned ++ rest'.take n) ++ rest'.drop n := by
    rw [List.append_assoc, List.take_append_drop, h.split]
  refine ⟨hsplit, by rw [List.filter_append, h.visible], fun last' hlast' ↦ ?_, ?_⟩
  · rw [List.getLast?_append_of_ne_nil _ hne, hlast] at hlast'
    obtain rfl := Option.some.inj hlast'
    rfl
  · have hall : source.candidates = (done ++ (scanned ++ rest'.take n)) ++ rest'.drop n := by
      rw [hcandidates, List.append_assoc done, ← hsplit]
    refine after_last hall ?_
    rw [← List.append_assoc, List.getLast?_append_of_ne_nil _ hne, hlast]

/-- The loop ends with more than a page, with all candidates, or with its
budget spent on some of them. -/
theorem scanLoop_spec (plusTenth : F64 → F64) (limit : ℕ) (hready : source.ready = true)
    {rounds : ℕ}
    {done scanned rest' : List DiscoveryCandidateRow}
    (hcandidates : source.candidates = done ++ rest)
    (h : Scanned source swiped rest s scanned rest') (hexhausted : s.databaseExhausted = false)
    (hbatch : 0 < s.batchSize) (hrounds : s.remainingScan ≤ rounds)
    (hbudget : 0 < s.remainingScan + scanned.length) :
    ∃ s' scanned' rest'', scanLoop source plusTenth swiped limit rounds s = .ok s' ∧
      Scanned source swiped rest s' scanned' rest'' ∧
      (s'.databaseExhausted = true → rest'' = []) ∧
      (s'.databaseExhausted = false → limit < s'.visible.length ∨ scanned' ≠ []) := by
  induction rounds generalizing s scanned rest' with
  | zero =>
      refine ⟨s, scanned, rest', rfl, h, fun htrue ↦ ?_, fun _ ↦ Or.inr ?_⟩
      · rw [hexhausted] at htrue
        exact absurd htrue (by simp)
      · apply List.ne_nil_of_length_pos
        omega
  | succ rounds ih =>
      rw [scanLoop]
      split
      · rename_i hstop
        refine ⟨s, scanned, rest', rfl, h, fun htrue ↦ ?_, fun _ ↦ ?_⟩
        · rw [hexhausted] at htrue
          exact absurd htrue (by simp)
        · rcases hstop with hspent | hfull
          · refine Or.inr (List.ne_nil_of_length_pos ?_)
            omega
          · exact Or.inl hfull
      · rename_i hmore
        rw [not_or] at hmore
        have hrequested : 0 < min s.batchSize s.remainingScan := by omega
        simp only [feedBatch_eq hready, h.after, Bool.not_true, Bool.false_eq_true, if_false]
        cases hlast : (rest'.take (min s.batchSize s.remainingScan)).getLast? with
        | none =>
            have hnil : rest' = [] := by
              rw [List.getLast?_eq_none_iff, List.take_eq_nil_iff] at hlast
              exact hlast.resolve_left (by omega)
            refine ⟨{ s with databaseExhausted := true }, scanned, rest', rfl, ?_, fun _ ↦ hnil,
              fun hfalse ↦ absurd hfalse (by simp)⟩
            exact ⟨h.split, h.visible, h.cursor, h.after⟩
        | some last =>
            have hpos : 0 < (rest'.take (min s.batchSize s.remainingScan)).length := by
              apply List.length_pos_of_ne_nil
              intro hnil
              rw [hnil] at hlast
              exact absurd hlast (by simp)
            have hscanned := h.advance hcandidates hlast
            simp only
            split
            · rename_i hshort
              refine ⟨_, _, _, rfl, hscanned _ _ true, fun _ ↦ ?_, fun hfalse ↦ absurd hfalse (by simp)⟩
              rw [List.length_take] at hshort
              exact List.drop_eq_nil_of_le (by omega)
            · refine ih (hscanned _ _ _) hexhausted ?_ ?_ ?_
              · simp only [maximumBatch]
                omega
              · simp only
                omega
              · simp only [List.length_append]
                omega

end Scanning

section Pages

variable {source : FeedSource} {plusTenth : F64 → F64} {swiped : Uuid → Bool} {limit : ℕ}
  {cipher : FeedCipher} {coarse : F64 → F64} {viewer : Uuid} {clock : ℕ → ℤ}
  {nonces : ℕ → Option Nonce}

/-- The times of the requests: within the range of the clock, and each before
the cursor of the previous answer expires. -/
structure Timely (clock : ℕ → ℤ) : Prop where
  range : ∀ i, -2 ^ 62 ≤ timestamp (clock i) ∧ timestamp (clock i) < 2 ^ 62
  fresh : ∀ i, timestamp (clock (i + 1)) < timestamp (clock i) + ttlSeconds

/-- The candidates to which the cursor of a request leads. -/
def Leads (source : FeedSource) (cipher : FeedCipher) (viewer : Uuid) (clock : ℕ → ℤ) (i : ℕ)
    (raw : Option (List Char)) (rest : List DiscoveryCandidateRow) : Prop :=
  ∃ cursor, decode cipher viewer raw (clock i) = .ok cursor ∧ rest = source.after cursor

theorem exists_encode (hcipher : cipher.Lawful) (htimely : Timely clock)
    (hnonces : ∀ i, (nonces i).isSome = true) {row : DiscoveryCandidateRow}
    (hrow : row ∈ source.candidates) (viewer : Uuid) (i : ℕ) :
    ∃ text, encode cipher viewer row.cursor (clock i) (nonces i) = .ok text ∧
      decode cipher viewer (some text) (clock (i + 1)) = .ok (some row.cursor) := by
  obtain ⟨n, hn⟩ := Option.isSome_iff_exists.mp (hnonces i)
  obtain ⟨hlow, hhigh⟩ := htimely.range i
  have hadd : checkedAdd (timestamp (clock i)) ttlSeconds =
      some (timestamp (clock i) + ttlSeconds) := by
    unfold checkedAdd ttlSeconds
    rw [if_pos]
    omega
  obtain ⟨sealed, hsealed, _⟩ := hcipher.seals n.bytes (toBeBytes 16 viewer.toNat)
    (payload row.cursor (timestamp (clock i) + ttlSeconds)) n.length_eq (length_toBeBytes 16 _)
  have hencode : encode cipher viewer row.cursor (clock i) (nonces i) =
      .ok (cipher.base64Encode (version :: n.bytes ++ sealed)) := by
    simp [encode, source.valid row hrow, hadd, hn, hsealed]
  exact ⟨_, hencode, (decode_encode hcipher hencode _).1 (htimely.fresh i)⟩

theorem leads_next (hcipher : cipher.Lawful) (htimely : Timely clock)
    (hnonces : ∀ i, (nonces i).isSome = true) {done seen rest' : List DiscoveryCandidateRow}
    (hsplit : source.candidates = done ++ (seen ++ rest')) {last : DiscoveryCandidateRow}
    (hlast : seen.getLast? = some last) (viewer : Uuid) (i : ℕ) :
    ∃ text, encode cipher viewer last.cursor (clock i) (nonces i) = .ok text ∧
      Leads source cipher viewer clock (i + 1) (some text) rest' := by
  have hmem : last ∈ source.candidates := by
    rw [hsplit]
    exact List.mem_append_right done
      (List.mem_append_left rest' (List.mem_of_getLast? hlast))
  have hne : seen ≠ [] := List.ne_nil_of_mem (List.mem_of_getLast? hlast)
  obtain ⟨text, hencode, hdecode⟩ := exists_encode hcipher htimely hnonces hmem viewer i
  refine ⟨text, hencode, some last.cursor, hdecode, ?_⟩
  rw [← List.append_assoc] at hsplit
  exact (after_last hsplit (by rw [List.getLast?_append_of_ne_nil _ hne, hlast])).symm

/-- One request of the feed shows the unswiped candidates up to where its
cursor stands. -/
theorem cuts_feed (plusTenth : F64 → F64) (swiped : Uuid → Bool) (coarse : F64 → F64)
    (hcipher : cipher.Lawful) (htimely : Timely clock)
    (hnonces : ∀ i, (nonces i).isSome = true) (hready : source.ready = true)
    (hlimit : 1 ≤ limit ∧ limit ≤ 100) {i : ℕ} {raw : Option (List Char)}
    {rest : List DiscoveryCandidateRow} (hleads : Leads source cipher viewer clock i raw rest) :
    ∃ page seen rest', feed source plusTenth swiped limit cipher coarse viewer raw (clock i)
        (nonces i) = .ok page ∧
      Cuts (Leads source cipher viewer clock) (fun c ↦ !swiped c.userId) (FeedCandidate.ofRow coarse)
        i rest page seen rest' := by
  obtain ⟨cursor, hdecode, rfl⟩ := hleads
  obtain ⟨done, hdone⟩ := exists_append_after source cursor
  have hstart : Scanned source swiped (source.after cursor) (Scan.start limit cursor) []
      (source.after cursor) := ⟨rfl, rfl, by simp, rfl⟩
  have hbudget : 0 < (Scan.start limit cursor).remainingScan +
      ([] : List DiscoveryCandidateRow).length := by
    simp only [Scan.start, maximumBatch, maxFeedBatches]
    omega
  obtain ⟨s, scanned, rest', hloop, hscanned, hend, hstop⟩ := scanLoop_spec plusTenth limit hready
    hdone hstart rfl (Nat.succ_pos limit) le_rfl hbudget
  have hsplit := hscanned.split
  have hfeed : ∀ page, feed source plusTenth swiped limit cipher coarse viewer raw (clock i)
      (nonces i) = .ok page ↔
        (if limit < s.visible.length ∨ s.databaseExhausted = false then
          match ((s.visible.take limit).getLast?.map DiscoveryCandidateRow.cursor) <|> s.cursor with
          | none => .ok ⟨(s.visible.take limit).map (.ofRow coarse), none⟩
          | some position =>
              match encode cipher viewer position (clock i) (nonces i) with
              | .error error => .error error
              | .ok next => .ok ⟨(s.visible.take limit).map (.ofRow coarse), some next⟩
        else .ok ⟨(s.visible.take limit).map (.ofRow coarse), none⟩ :
          Except DiscoveryError (Page (List Char) FeedCandidate)) = .ok page := by
    intro page
    rw [feed, if_pos hlimit, hdecode]
    simp only
    rw [show scanLoop source plusTenth swiped limit (maximumBatch limit * maxFeedBatches)
      (Scan.start limit cursor) = .ok s from hloop]
  simp only [hfeed]
  by_cases hmore : limit < s.visible.length ∨ s.databaseExhausted = false
  · rw [if_pos hmore]
    by_cases hempty : s.visible = []
    · have hseen : scanned ≠ [] := by
        rcases hmore with hlong | hopen
        · rw [hempty] at hlong
          exact absurd hlong (by simp)
        · rcases hstop hopen with hlong | hseen
          · rw [hempty] at hlong
            exact absurd hlong (by simp)
          · exact hseen
      have hlast := List.getLast?_eq_some_getLast hseen
      rw [hsplit] at hdone
      obtain ⟨text, hencode, hnext⟩ := leads_next hcipher htimely hnonces hdone hlast viewer i
      refine ⟨⟨[], some text⟩, scanned, rest', ?_, hsplit, ?_, by simp, ?_⟩
      · simp [hempty, hscanned.cursor _ hlast, hencode]
      · rw [← hscanned.visible, hempty]
        rfl
      · intro next hsome
        obtain rfl := Option.some.inj hsome
        exact ⟨hseen, hnext⟩
    · have hlong := List.length_pos_of_ne_nil hempty
      have hpage : s.visible.take (min limit s.visible.length) = s.visible.take limit := by
        rw [List.take_eq_take_iff]
        omega
      have hle : min limit s.visible.length ≤
          (scanned.filter fun c ↦ !swiped c.userId).length := by
        rw [← hscanned.visible]
        omega
      obtain ⟨seen, tail, hscan, hfilter, hresume⟩ := exists_split_filter (by omega) hle
      rw [← hscanned.visible, hpage] at hfilter hresume
      have hne : s.visible.take limit ≠ [] := by
        apply List.ne_nil_of_length_pos
        rw [List.length_take]
        omega
      have hlast := List.getLast?_eq_some_getLast hne
      have hseen : seen ≠ [] := by
        rintro rfl
        rw [hlast] at hresume
        exact absurd hresume (by simp)
      rw [hscan, List.append_assoc] at hsplit
      rw [hsplit] at hdone
      obtain ⟨text, hencode, hnext⟩ := leads_next hcipher htimely hnonces hdone
        (hresume.trans hlast) viewer i
      refine ⟨⟨(s.visible.take limit).map (.ofRow coarse), some text⟩, seen, tail ++ rest', ?_,
        hsplit, ?_, by simp, ?_⟩
      · have hposition : ((s.visible.take limit).getLast?.map DiscoveryCandidateRow.cursor <|>
            s.cursor) = some ((s.visible.take limit).getLast hne).cursor := by
          rw [hlast]
          rfl
        simp only [hposition, hencode]
      · rw [hfilter]
      · intro next hsome
        obtain rfl := Option.some.inj hsome
        exact ⟨hseen, hnext⟩
  · rw [not_or] at hmore
    have hexhausted : s.databaseExhausted = true := by simpa using hmore.2
    obtain rfl := hend hexhausted
    refine ⟨⟨(s.visible.take limit).map (.ofRow coarse), none⟩, scanned, [], ?_, hsplit, ?_,
      fun _ ↦ rfl, by simp⟩
    · rw [if_neg (not_or.mpr hmore)]
    · rw [List.take_of_length_le (not_lt.mp hmore.1), hscanned.visible]

/-- Following the cursors of the feed shows every unswiped candidate once, in
order, and a cursor is worth its position to its viewer until it expires. -/
theorem feed_pagination_complete (source : FeedSource) (hready : source.ready = true)
    (plusTenth coarse : F64 → F64) (swiped : Uuid → Bool) (hcipher : cipher.Lawful)
    (hlimit : 1 ≤ limit ∧ limit ≤ 100) (viewer : Uuid) (htimely : Timely clock)
    (hnonces : ∀ i, (nonces i).isSome = true) :
    (∃ pages, followFrom (fun i raw ↦ feed source plusTenth swiped limit cipher coarse viewer raw
        (clock i) (nonces i)) (source.candidates.length + 1) 0 none = some pages ∧
      pages.flatMap Page.items = (source.candidates.filter fun c ↦ !swiped c.userId).map
        (FeedCandidate.ofRow coarse)) ∧
    ∀ cursor now nonce text, encode cipher viewer cursor now nonce = .ok text → ∀ later,
      (timestamp later < timestamp now + ttlSeconds →
        decode cipher viewer (some text) later = .ok (some cursor)) ∧
      (timestamp now + ttlSeconds ≤ timestamp later →
        decode cipher viewer (some text) later = .error .invalidCursor) ∧
      ∀ other, other ≠ viewer →
        decode cipher other (some text) later = .error .invalidCursor := by
  refine ⟨?_, fun cursor now nonce text hencode later ↦ decode_encode hcipher hencode later⟩
  have hall : source.after none = source.candidates := List.filter_eq_self.mpr fun _ _ ↦ rfl
  have hleads : Leads source cipher viewer clock 0 none source.candidates := ⟨none, rfl, hall.symm⟩
  exact followFrom_eq (fun _ _ _ h ↦
    cuts_feed plusTenth swiped coarse hcipher htimely hnonces hready hlimit h) hleads
    (Nat.lt_succ_self _)

end Pages

def sampleRow (userId : Uuid) : DiscoveryCandidateRow :=
  ⟨userId, "Ada", 30, .female, none, .tenth, [], []⟩

/-- Two candidates at the same distance. -/
def sampleSource : FeedSource where
  ready := true
  maxDistanceKm := ⟨0x4049000000000000⟩
  candidates := [sampleRow 0x40008000000000000007, sampleRow 0x40008000000000000008]
  finite := by decide
  sorted := by decide +kernel
  within := by decide +kernel
  valid := by decide +kernel

theorem feed_pagination_complete_sample :
    ∃ pages, followFrom (fun i raw ↦ feed sampleSource id (fun u ↦ u = 0x40008000000000000007) 1
        plainCipher id 1 raw ((fun _ : ℕ ↦ (0 : ℤ)) i)
        ((fun _ : ℕ ↦ some ⟨List.replicate 12 0, rfl⟩) i)) 3 0 none = some pages ∧
      pages.flatMap Page.items = [FeedCandidate.ofRow id (sampleRow 0x40008000000000000008)] := by
  have htimely : Timely fun _ ↦ 0 := ⟨fun _ ↦ by decide, fun _ ↦ by decide⟩
  exact (feed_pagination_complete sampleSource rfl id id (fun u ↦ u = 0x40008000000000000007)
    plainCipher_lawful (by decide) 1 htimely fun _ ↦ rfl).1

end Histae.Discovery
