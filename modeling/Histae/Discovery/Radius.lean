import Mathlib
import Histae.Discovery.Eligibility
import Histae.Paging.Scan

/-!
# The expanding radius of the feed

`feed_batch_inner` asks for the candidates within a radius and doubles it
until the page is full or the radius covers the viewer's distance. A full page
of a smaller radius is the page of the whole distance, because the candidates
come in the order of their distance. The radius is a double-precision number;
doubling one of at least one tenth reaches every finite number within 2048
rounds.
-/

namespace Histae.Discovery

open Relational Paging

section Doubles

theorem F64.magnitude_ofMagnitude (negative : Bool) {m : ℕ} (h : m < 2 ^ 63) :
    (F64.ofMagnitude negative m).magnitude = m := by
  unfold F64.magnitude F64.ofMagnitude
  cases negative with
  | false =>
      simp only [Bool.false_eq_true, if_false, BitVec.toNat_ofNat]
      omega
  | true =>
      simp only [if_true, BitVec.toNat_ofNat]
      omega

theorem F64.isNegative_ofMagnitude (negative : Bool) {m : ℕ} (h : m < 2 ^ 63) :
    (F64.ofMagnitude negative m).isNegative = negative := by
  unfold F64.isNegative F64.ofMagnitude
  cases negative with
  | false =>
      simp only [Bool.false_eq_true, if_false, BitVec.toNat_ofNat, decide_eq_false_iff_not]
      omega
  | true =>
      simp only [if_true, BitVec.toNat_ofNat, decide_eq_true_eq]
      omega

/-- A number, and not the negative zero. -/
def F64.IsCanonical (x : F64) : Prop :=
  x.isNan = false ∧ ¬ (x.isNegative = true ∧ x.magnitude = 0)

/-- The numbers of `double precision`, with one zero. -/
def Float8 : Type := {x : F64 // x.IsCanonical}

theorem F64.bits_eq (x : F64) :
    x.bits.toNat = if x.isNegative then 2 ^ 63 + x.magnitude else x.magnitude := by
  have hlt := x.bits.isLt
  unfold F64.isNegative F64.magnitude
  split
  · rename_i h
    rw [decide_eq_true_eq] at h
    omega
  · rename_i h
    rw [decide_eq_true_eq] at h
    omega

theorem F64.rank_injective {x y : F64} (hx : x.IsCanonical) (hy : y.IsCanonical)
    (h : x.rank = y.rank) : x = y := by
  have hbits : x.bits.toNat = y.bits.toNat := by
    have hx0 := hx.2
    have hy0 := hy.2
    rw [F64.bits_eq, F64.bits_eq]
    unfold F64.rank at h
    cases hxn : x.isNegative <;> cases hyn : y.isNegative <;> simp [hxn, hyn] at h hx0 hy0 ⊢ <;> omega
  cases x
  cases y
  exact congrArg F64.mk (BitVec.eq_of_toNat_eq hbits)

instance : LinearOrder Float8 :=
  LinearOrder.lift' (fun x ↦ x.1.rank) fun x y h ↦
    Subtype.ext (F64.rank_injective x.2 y.2 h)

theorem Float8.le_iff {x y : Float8} : x ≤ y ↔ x.1.rank ≤ y.1.rank := Iff.rfl

theorem F64.isCanonical_double {x : F64} (h : x.IsCanonical) : x.double.IsCanonical := by
  have hexponent : x.exponent = x.magnitude / 2 ^ 52 := rfl
  have hmagnitude : x.magnitude < 2 ^ 63 := Nat.mod_lt _ (by norm_num)
  have hsmall {m : ℕ} (hm : m ≤ 2047 * 2 ^ 52) (hzero : m = 0 → x.magnitude = 0) :
      (F64.ofMagnitude x.isNegative m).IsCanonical := by
    have hlt : m < 2 ^ 63 := hm.trans_lt (by norm_num)
    refine ⟨?_, ?_⟩
    · simpa [F64.isNan, F64.magnitude_ofMagnitude _ hlt] using hm
    · rw [F64.magnitude_ofMagnitude _ hlt, F64.isNegative_ofMagnitude _ hlt]
      rintro ⟨hnegative, rfl⟩
      exact h.2 ⟨hnegative, hzero rfl⟩
  unfold F64.double
  split
  · exact h
  split
  · exact hsmall le_rfl (by norm_num)
  split
  · exact hsmall (by omega) (by omega)
  · exact hsmall (by omega) (by omega)

/-- `radius_km *= 2.0`. -/
def Float8.double (x : Float8) : Float8 := ⟨x.1.double, F64.isCanonical_double x.2⟩

theorem F64.isCanonical_of_rank {x : F64} (hpos : 0 < x.rank) (hle : x.rank ≤ 2047 * 2 ^ 52) :
    x.IsCanonical := by
  obtain ⟨hpositive, hmagnitude⟩ := magnitude_of_rank_pos hpos
  refine ⟨?_, fun h ↦ ?_⟩
  · simp only [F64.isNan, decide_eq_false_iff_not]
    omega
  · rw [hpositive] at h
    cases h.1

/-- `(distance_km + 0.1).max(0.1)`, for any rounding of the sum. -/
def startRadius (plusTenth : F64 → F64) (distanceKm : F64) : Float8 :=
  ⟨(plusTenth distanceKm).max .tenth,
    F64.isCanonical_of_rank (lt_of_lt_of_le (by norm_num) (rank_max_tenth _).1)
      (rank_max_tenth _).2⟩

def tenthRadius : Float8 := ⟨.tenth, by unfold F64.IsCanonical; decide⟩

end Doubles

/-- The viewer's coordinates lie on the globe. -/
def Viewer.hasLocation (w : Viewer) : Bool :=
  (w.latitude.any fun x ↦ -90000000 ≤ x ∧ x ≤ 90000000) &&
    w.longitude.any fun x ↦ -180000000 ≤ x ∧ x ≤ 180000000

structure FeedBatch (F : Type) where
  ready : Bool
  candidates : List (F × Uuid)

section Search

variable {F : Type} [LinearOrder F] (db : DiscoveryDb) (at_ : Reading) (geometry : Geometry F)
  (viewerId : Uuid) (isNear : F → UserPresence → Bool) (limit : ℕ) (cursor : Option (F × Uuid))

namespace DiscoveryDb

/-- One run of the feed query, with `radius_exhausted`. -/
def feedQuery (radiusKm : F) : FeedBatch F × Bool :=
  match db.viewer at_ viewerId with
  | none => (⟨false, []⟩, true)
  | some w =>
      (⟨true, db.feedPage at_ geometry viewerId (fun p ↦ w.hasLocation && isNear radiusKm p) cursor
          radiusKm limit⟩,
        !w.hasLocation || decide (geometry.ofInteger w.maxDistanceKm ≤ radiusKm))

/-- The loop of `feed_batch_inner`, with the next radius and a bound on its
rounds. -/
def feedBatchLoop (grow : F → F) : ℕ → F → Option (FeedBatch F)
  | 0, _ => none
  | rounds + 1, radiusKm =>
      let (batch, exhausted) := db.feedQuery at_ geometry viewerId isNear limit cursor radiusKm
      if !batch.ready || exhausted || decide (limit ≤ batch.candidates.length) then some batch
      else feedBatchLoop grow rounds (grow radiusKm)

/-- The candidates that the viewer may see after a position, in the order of
`(distance_km, user_id)`. -/
def eligibleAfter (w : Viewer) : List (F × Uuid) :=
  let located := db.presences.rows.filterMap fun p ↦
    if p.userId ≠ viewerId && p.isFresh at_.now && p.inRange then
      (distance geometry w p).map fun d ↦ (d, p.userId)
    else none
  (located.filter fun x ↦
    decide (x.1 ≤ geometry.ofInteger w.maxDistanceKm) &&
      (cursor.all fun c ↦ decide (toLex (c.1, c.2.toNat) < toLex (x.1, x.2.toNat))) &&
      db.feedCandidate at_ geometry viewerId w x.1 x.2).insertionSort
    fun x y ↦ toLex (x.1, x.2.toNat) ≤ toLex (y.1, y.2.toNat)

/-- The direct query, without a radius. -/
def directBatch : FeedBatch F :=
  match db.viewer at_ viewerId with
  | none => ⟨false, []⟩
  | some w => ⟨true, (db.eligibleAfter at_ geometry viewerId cursor w).take limit⟩

/-- The spatial prefilter keeps whoever is within the radius. -/
def KeepsNear : Prop :=
  ∀ w radiusKm p d, db.viewer at_ viewerId = some w → p ∈ db.presences →
    distance geometry w p = some d → d ≤ min (geometry.ofInteger w.maxDistanceKm) radiusKm →
      (w.hasLocation && isNear radiusKm p) = true

end DiscoveryDb

end Search

section Pages

variable {F : Type} [LinearOrder F] {db : DiscoveryDb} {at_ : Reading} {geometry : Geometry F}
  {viewerId : Uuid} {isNear : F → UserPresence → Bool} {limit : ℕ} {cursor : Option (F × Uuid)}
  {w : Viewer}

/-- The order of the pages. -/
def CursorLe (x y : F × Uuid) : Prop := toLex (x.1, x.2.toNat) ≤ toLex (y.1, y.2.toNat)

theorem cursorLe_antisymm {x y : F × Uuid} (h : CursorLe x y) (h' : CursorLe y x) : x = y := by
  have heq : toLex (x.1, x.2.toNat) = toLex (y.1, y.2.toNat) := le_antisymm h h'
  have hpair := Prod.mk.inj (toLex.injective heq)
  exact Prod.ext hpair.1 (BitVec.eq_of_toNat_eq hpair.2)

instance : DecidableRel (CursorLe (F := F)) := fun x y ↦
  inferInstanceAs (Decidable (toLex (x.1, x.2.toNat) ≤ toLex (y.1, y.2.toNat)))

instance : Std.Total (α := F × Uuid) CursorLe := ⟨fun _ _ ↦ le_total _ _⟩

instance : IsTrans (F × Uuid) CursorLe := ⟨fun _ _ _ ↦ le_trans⟩

theorem pairwise_cursorLe (l : List (F × Uuid)) :
    (l.insertionSort fun x y ↦ toLex (x.1, x.2.toNat) ≤ toLex (y.1, y.2.toNat)).Pairwise CursorLe :=
  List.pairwise_insertionSort CursorLe l

theorem CursorLe.distance_le {x y : F × Uuid} (h : CursorLe x y) : x.1 ≤ y.1 := by
  rcases Prod.Lex.toLex_le_toLex.mp h with hlt | ⟨heq, -⟩
  · exact hlt.le
  · exact heq.le

/-- Sorting and filtering by a total order of the rows commute. -/
theorem insertionSort_filter (p : F × Uuid → Bool) (l : List (F × Uuid)) :
    (l.filter p).insertionSort (fun x y ↦ toLex (x.1, x.2.toNat) ≤ toLex (y.1, y.2.toNat)) =
      (l.insertionSort fun x y ↦ toLex (x.1, x.2.toNat) ≤ toLex (y.1, y.2.toNat)).filter p := by
  refine List.Perm.eq_of_pairwise (fun x y _ _ ↦ cursorLe_antisymm) (pairwise_cursorLe _)
    ((pairwise_cursorLe l).filter p) ?_
  exact (List.perm_insertionSort _ _).trans ((List.perm_insertionSort _ l).filter p).symm

/-- A page within a radius is the start of what is within the radius. -/
theorem feedPage_eq (hview : db.viewer at_ viewerId = some w)
    (hnear : db.KeepsNear at_ geometry viewerId isNear) (radiusKm : F) :
    db.feedPage at_ geometry viewerId (fun p ↦ w.hasLocation && isNear radiusKm p) cursor radiusKm
        limit =
      ((db.eligibleAfter at_ geometry viewerId cursor w).filter fun x ↦ x.1 ≤ radiusKm).take
        limit := by
  unfold DiscoveryDb.feedPage DiscoveryDb.eligibleAfter
  rw [hview]
  simp only
  rw [← insertionSort_filter]
  congr 2
  simp only [List.filter_filterMap]
  refine List.filterMap_congr fun p hp ↦ ?_
  refine Option.ext fun x ↦ ?_
  simp only [Option.filter_eq_some_iff, Option.ite_none_right_eq_some, Option.map_eq_some_iff,
    Bool.and_eq_true, decide_eq_true_eq]
  constructor
  · rintro ⟨⟨⟨⟨hseen, -⟩, d, hd, rfl⟩, hclose, hafter⟩, hcandidate⟩
    obtain ⟨hmax, hradius⟩ := le_min_iff.mp hclose
    exact ⟨⟨⟨hseen, d, hd, rfl⟩, ⟨hmax, hafter⟩, hcandidate⟩, hradius⟩
  · rintro ⟨⟨⟨hseen, d, hd, rfl⟩, ⟨hmax, hafter⟩, hcandidate⟩, hradius⟩
    have hclose := le_min hmax hradius
    have hkept := hnear w radiusKm p d hview hp hd hclose
    rw [Bool.and_eq_true] at hkept
    exact ⟨⟨⟨⟨hseen, hkept⟩, d, hd, rfl⟩, hclose, hafter⟩, hcandidate⟩

/-- The candidates after a position, in ascending distance, all within the
viewer's. -/
theorem pairwise_eligibleAfter :
    (db.eligibleAfter at_ geometry viewerId cursor w).Pairwise fun x y ↦ x.1 ≤ y.1 :=
  (pairwise_cursorLe _).imp CursorLe.distance_le

theorem le_of_mem_eligibleAfter {x : F × Uuid}
    (hx : x ∈ db.eligibleAfter at_ geometry viewerId cursor w) :
    x.1 ≤ geometry.ofInteger w.maxDistanceKm := by
  have hmem := (List.mem_insertionSort _).mp hx
  have hcond := (List.mem_filter.mp hmem).2
  simp only [Bool.and_eq_true, decide_eq_true_eq] at hcond
  exact hcond.1.1

/-- Without a location of the viewer, the prefilter keeps nobody. -/
theorem eligibleAfter_eq_nil (hview : db.viewer at_ viewerId = some w)
    (hnear : db.KeepsNear at_ geometry viewerId isNear) (hlocation : w.hasLocation = false) :
    db.eligibleAfter at_ geometry viewerId cursor w = [] := by
  refine List.eq_nil_iff_forall_not_mem.mpr fun x hx ↦ ?_
  have hmax := le_of_mem_eligibleAfter hx
  have hmem := (List.mem_filter.mp ((List.mem_insertionSort _).mp hx)).1
  rw [List.mem_filterMap] at hmem
  obtain ⟨p, hp, h⟩ := hmem
  simp only [Option.ite_none_right_eq_some, Option.map_eq_some_iff] at h
  obtain ⟨-, d, hd, rfl⟩ := h
  have hkept := hnear w (geometry.ofInteger w.maxDistanceKm) p d hview hp hd (le_min hmax hmax)
  rw [hlocation] at hkept
  cases hkept

/-- The search gives the direct page for every first radius and every growth
that comes to cover the viewer's distance. -/
theorem feedBatchLoop_direct (hnear : db.KeepsNear at_ geometry viewerId isNear) {grow : F → F}
    {rounds n : ℕ} {radiusKm : F} (hn : n < rounds)
    (hcovers : ∀ w, db.viewer at_ viewerId = some w →
      geometry.ofInteger w.maxDistanceKm ≤ grow^[n] radiusKm) :
    db.feedBatchLoop at_ geometry viewerId isNear limit cursor grow rounds radiusKm =
      some (db.directBatch at_ geometry viewerId limit cursor) := by
  induction rounds generalizing radiusKm n with
  | zero => exact absurd hn (Nat.not_lt_zero n)
  | succ rounds ih =>
      rw [DiscoveryDb.feedBatchLoop, DiscoveryDb.feedQuery, DiscoveryDb.directBatch]
      cases hview : db.viewer at_ viewerId with
      | none => rfl
      | some w =>
          simp only [feedPage_eq hview hnear, Bool.not_true, Bool.false_or]
          split
          · rename_i hdone
            rw [Bool.or_eq_true, Bool.or_eq_true, Bool.not_eq_true', decide_eq_true_eq,
              decide_eq_true_eq] at hdone
            rcases hdone with (hlocation | hcovered) | hfull
            · rw [eligibleAfter_eq_nil hview hnear hlocation]
              rfl
            · have hall : ((db.eligibleAfter at_ geometry viewerId cursor w).filter fun x ↦
                  decide (x.1 ≤ radiusKm)) = db.eligibleAfter at_ geometry viewerId cursor w := by
                rw [List.filter_eq_self]
                intro x hx
                exact decide_eq_true ((le_of_mem_eligibleAfter hx).trans hcovered)
              rw [hall]
            · rw [List.length_take] at hfull
              rw [take_filter_le pairwise_eligibleAfter (by omega)]
          · rename_i hmore
            rw [Bool.or_eq_true, Bool.or_eq_true, Bool.not_eq_true', decide_eq_true_eq,
              decide_eq_true_eq, not_or, not_or] at hmore
            have hstep := hcovers w hview
            cases n with
            | zero => exact absurd hstep hmore.1.2
            | succ n =>
                have hrest := ih (Nat.lt_of_succ_lt_succ hn)
                  fun w' hw' ↦ hcovers w' hw'
                rw [hrest, DiscoveryDb.directBatch, hview]

end Pages

section Doubling

/-- A radius of at least one tenth passes every finite number in fewer than
2048 doublings. -/
theorem rank_iterate_double {x : Float8} (hlow : 2 ^ 52 ≤ x.1.rank)
    (hhigh : x.1.rank ≤ 2047 * 2 ^ 52) (n : ℕ) :
    min (x.1.rank + n * 2 ^ 52) (2047 * 2 ^ 52) ≤ (Float8.double^[n] x).1.rank := by
  induction n generalizing x with
  | zero => simp
  | succ n ih =>
      have hdouble : x.double.1.rank = min (x.1.rank + 2 ^ 52) (2047 * 2 ^ 52) :=
        rank_double hlow hhigh
      have hrest := ih (x := x.double) (by rw [hdouble]; omega) (by rw [hdouble]; omega)
      rw [hdouble] at hrest
      rw [Function.iterate_succ_apply]
      push_cast
      omega

variable (db : DiscoveryDb) (at_ : Reading) (geometry : Geometry Float8) (viewerId : Uuid)
  (isNear : Float8 → UserPresence → Bool) (limit : ℕ) (cursor : Option (Float8 × Uuid))

/-- `feed_batch_inner`. -/
def DiscoveryDb.feedBatchInner (plusTenth : F64 → F64) : Option (FeedBatch Float8) :=
  db.feedBatchLoop at_ geometry viewerId isNear limit cursor Float8.double 2048
    (cursor.elim tenthRadius fun position ↦ startRadius plusTenth position.1.1)

theorem startRadius_range (plusTenth : F64 → F64) :
    2 ^ 52 ≤ (cursor.elim tenthRadius fun position ↦ startRadius plusTenth position.1.1).1.rank ∧
      (cursor.elim tenthRadius fun position ↦ startRadius plusTenth position.1.1).1.rank ≤
        2047 * 2 ^ 52 := by
  cases cursor with
  | none =>
      have htenth : tenthRadius.1.rank = 0x3fb999999999999a := by decide
      rw [Option.elim_none, htenth]
      norm_num
  | some position => exact rank_max_tenth (plusTenth position.1.1)

/-- The expanding search returns the direct page, whatever the first radius
and its growth. -/
theorem expanding_search_is_direct (plusTenth : F64 → F64)
    (hnear : db.KeepsNear at_ geometry viewerId isNear)
    (hfinite : ∀ w, db.viewer at_ viewerId = some w →
      (geometry.ofInteger w.maxDistanceKm).1.isFinite = true) :
    db.feedBatchInner at_ geometry viewerId isNear limit cursor plusTenth =
        some (db.directBatch at_ geometry viewerId limit cursor) ∧
      (∀ (grow : Float8 → Float8) (start : Float8) (rounds n : ℕ), n < rounds →
        (∀ w, db.viewer at_ viewerId = some w →
          geometry.ofInteger w.maxDistanceKm ≤ grow^[n] start) →
        db.feedBatchLoop at_ geometry viewerId isNear limit cursor grow rounds start =
          some (db.directBatch at_ geometry viewerId limit cursor)) ∧
      ∀ w, db.viewer at_ viewerId = some w →
        (db.directBatch at_ geometry viewerId limit cursor).candidates.length < limit →
        (db.directBatch at_ geometry viewerId limit cursor).candidates =
          db.eligibleAfter at_ geometry viewerId cursor w := by
  refine ⟨?_, ?_, ?_⟩
  · refine feedBatchLoop_direct hnear (n := 2047) (by norm_num) fun w hw ↦ ?_
    obtain ⟨hlow, hhigh⟩ := startRadius_range cursor plusTenth
    have hreached := rank_iterate_double hlow hhigh 2047
    have hlt := rank_lt_of_isFinite (hfinite w hw)
    rw [Float8.le_iff]
    push_cast at hreached
    omega
  · intro grow start rounds n hn hcovers
    exact feedBatchLoop_direct hnear hn hcovers
  · intro w hw hshort
    simp only [DiscoveryDb.directBatch, hw, List.length_take] at hshort ⊢
    exact List.take_of_length_le (by omega)

end Doubling

namespace Float8

def zero : Float8 := ⟨⟨0⟩, by unfold F64.IsCanonical; decide⟩

def one : Float8 := ⟨⟨0x3ff0000000000000⟩, by unfold F64.IsCanonical; decide⟩

def five : Float8 := ⟨⟨0x4014000000000000⟩, by unfold F64.IsCanonical; decide⟩

def ten : Float8 := ⟨⟨0x4024000000000000⟩, by unfold F64.IsCanonical; decide⟩

/-- 0.02698 degrees. -/
def degrees : Float8 := ⟨⟨0x3f9ba0a5269595ff⟩, by unfold F64.IsCanonical; decide⟩

def halfDegrees : Float8 := ⟨⟨0x3f8ba0a5269595ff⟩, by unfold F64.IsCanonical; decide⟩

def halfAngle : Float8 := ⟨⟨0x3f2edc386de46bf8⟩, by unfold F64.IsCanonical; decide⟩

def sine : Float8 := ⟨⟨0x3f2edc38691bd7fa⟩, by unfold F64.IsCanonical; decide⟩

def haversine : Float8 := ⟨⟨0x3e6dc2d54d1ce509⟩, by unfold F64.IsCanonical; decide⟩

/-- 3.00004 kilometres. -/
def threeKilometres : Float8 := ⟨⟨0x40080016aee3cc18⟩, by unfold F64.IsCanonical; decide⟩

end Float8

/-- Double-precision arithmetic on the numbers of `equatorDb`. -/
def equatorGeometry : Geometry Float8 where
  ofNumeric := fun z ↦ if z = 26980 then .degrees else .zero
  ofInteger := fun z ↦ if z = 10 then .ten else if z = 5 then .five else .zero
  neg := fun _ ↦ .zero
  half := fun x ↦ if x = .degrees then .halfDegrees else .zero
  radians := fun x ↦ if x = .halfDegrees then .halfAngle else .zero
  sin := fun x ↦ if x = .halfAngle then .sine else .zero
  cos := fun _ ↦ .one
  square := fun x ↦ if x = .sine then .haversine else .zero
  add := fun x y ↦ if x = .zero then y else x
  mul := fun x y ↦ if x = .one then y else .zero
  kilometres := fun x ↦ if x = .haversine then .threeKilometres else .zero

/-- The members of `sampleDb` on the equator, three kilometres apart. -/
def equatorDb : DiscoveryDb :=
  { sampleDb with
    presences := ⟨[⟨1, some 0, some 0, true, -1⟩, ⟨2, some 0, some 26980, true, -2⟩], by decide⟩ }

theorem keepsNear_equatorDb :
    equatorDb.KeepsNear sampleReading equatorGeometry 1 fun _ _ ↦ true := by
  intro w radiusKm p d hw hp hd hle
  obtain ⟨account, profile, sex, preferences, presence, hmember, rfl⟩ :=
    DiscoveryDb.viewer_eq_some_iff.mp hw
  have hpresence : presence = ⟨1, some 0, some 0, true, -1⟩ :=
    Option.some.inj (hmember.presence_eq.symm.trans (by decide))
  rw [hpresence]
  rfl

/-- The first radius meets nobody, the sixth reaches member 2. -/
theorem expanding_search_is_direct_equator :
    (equatorDb.feedQuery sampleReading equatorGeometry 1 (fun _ _ ↦ true) 1 none
        tenthRadius).1.candidates.map Prod.snd = [] ∧
    ((equatorDb.feedBatchInner sampleReading equatorGeometry 1 (fun _ _ ↦ true) 1 none id).map
        fun batch ↦ batch.candidates.map Prod.snd) = some [2] ∧
      equatorDb.feedBatchInner sampleReading equatorGeometry 1 (fun _ _ ↦ true) 1 none id =
        some (equatorDb.directBatch sampleReading equatorGeometry 1 1 none) := by
  have hfinite : ∀ w, equatorDb.viewer sampleReading 1 = some w →
      (equatorGeometry.ofInteger w.maxDistanceKm).1.isFinite = true := by
    intro w hw
    obtain ⟨account, profile, sex, preferences, presence, hmember, rfl⟩ :=
      DiscoveryDb.viewer_eq_some_iff.mp hw
    have hpreferences : preferences = ⟨1, 24, 33, 10, .both, by decide, by decide⟩ :=
      Option.some.inj (hmember.preferences_eq.symm.trans (by decide))
    have hdistance : (equatorGeometry.ofInteger 10).1.isFinite = true := by decide
    rw [hpreferences]
    exact hdistance
  have h := expanding_search_is_direct equatorDb sampleReading equatorGeometry 1 (fun _ _ ↦ true) 1
    none id keepsNear_equatorDb hfinite
  exact ⟨by decide +kernel, by decide +kernel, h.1⟩

end Histae.Discovery
