/-
  File:      YiHack/Record/MovieTimes.lean
  Subject:   `record_metadata.c`: which files `find_movie` accepts, and the times it says.

  What a finalized movie is, is said over the bytes of the file alone (`TopBox`, `Leads`, `Kids`,
  `Mvhd`, `Finalized`). The walk accepts these and no others, and reads a bounded number of
  headers. Its bounds on the creation time and on the duration are each checked alone; the end of
  the movie, which `build_json` and `build_raw_json` add up, fits an `int64_t` only where the
  creation time leaves room for the duration.

  * `mvhdTimes_iff` -- the times of an `mvhd` header;
  * `findMovie_iff` -- the walk accepts exactly finalized movies;
  * `findMovie_examines` -- and reads at most 64 headers on each level;
  * **`movie_times_safe`** -- when all of it holds of a file.
-/
import YiHack.Record.BuildJson

namespace YiHack.Record

open General

/-! ## 1. Finalized movies -/

/-- A top-level box of `size` bytes at `offset`; `pre` of them are size and type. The size is the
    32-bit one, or a 64-bit one behind the type where that is 1. -/
structure TopBox (f : Bytes) (offset size pre : Nat) : Prop where
  header : offset + 8 ≤ f.length
  stored : (be32 f offset ≠ 1 ∧ size = be32 f offset ∧ pre = 8) ∨
    (be32 f offset = 1 ∧ offset + 16 ≤ f.length ∧ size = be64 f (offset + 8) ∧ pre = 16)
  ge : pre ≤ size
  fits : offset + size ≤ f.length

/-- The four bytes behind a size. -/
def typeAt (f : Bytes) (offset : Nat) : Bytes := slice f (offset + 4) 4

/-- `n` top-level boxes, none of them `moov`, lead from one offset to another. -/
inductive Leads (f : Bytes) : Nat → Nat → Nat → Prop
  | here (offset : Nat) : Leads f 0 offset offset
  | next {n offset size pre target : Nat} : TopBox f offset size pre →
      typeAt f offset ≠ ascii "moov" → Leads f n (offset + size) target →
      Leads f (n + 1) offset target

/-- A child of `size` bytes at `child`. -/
structure Child (f : Bytes) (child size : Nat) : Prop where
  header : child + 8 ≤ f.length
  stored : size = be32 f child
  ge : 8 ≤ size
  fits : child + size ≤ f.length

/-- `n` children, none of them `mvhd`, lead from one offset to another. -/
inductive Kids (f : Bytes) : Nat → Nat → Nat → Prop
  | here (child : Nat) : Kids f 0 child child
  | next {n child size target : Nat} : Child f child size → typeAt f child ≠ ascii "mvhd" →
      Kids f n (child + size) target → Kids f (n + 1) child target

/-- The fields of an `mvhd` of `size` bytes at `child`, in version 0 or 1. -/
def Fields (f : Bytes) (child size creation scale duration : Nat) : Prop :=
  (byteAt f (child + 8) = 0 ∧ creation = be32 f (child + 12) ∧ scale = be32 f (child + 20) ∧
      duration = be32 f (child + 24)) ∨
    (byteAt f (child + 8) = 1 ∧ 40 ≤ size ∧ creation = be64 f (child + 12) ∧
      scale = be32 f (child + 28) ∧ duration = be64 f (child + 32))

/-- Times in range: a timescale, a creation time from the Unix epoch to the bound, a duration from
    a millisecond to a day. -/
structure InRange (creation scale duration : Nat) : Prop where
  scale_pos : 0 < scale
  epoch : MP4_EPOCH ≤ creation
  bound : creation - MP4_EPOCH ≤ INT64_MAX / 1000
  pos : 1 ≤ duration * 1000 / scale
  day : duration * 1000 / scale ≤ 86400000

/-- An `mvhd` whose fields are there and in range. -/
structure Mvhd (f : Bytes) (child creation scale duration : Nat) : Prop where
  type : typeAt f child = ascii "mvhd"
  fields : ∃ size, Child f child size ∧ 32 ≤ size ∧ Fields f child size creation scale duration
  range : InRange creation scale duration

/-- A finalized movie: fewer than 64 boxes lead to a `moov` with a 32-bit size that ends the file,
    fewer than 64 children to its `mvhd`. -/
structure Finalized (f : Bytes) (moov size creation scale duration : Nat) : Prop where
  length : 32 ≤ f.length
  leads : ∃ n, n < 64 ∧ Leads f n 0 moov
  box : TopBox f moov size 8
  type : typeAt f moov = ascii "moov"
  ends : moov + size = f.length
  mvhd : ∃ n child, n < 64 ∧ Kids f n (moov + 8) child ∧ Mvhd f child creation scale duration

/-- `start_ms` and `duration_ms`. -/
def startOf (creation : Nat) : Nat := (creation - MP4_EPOCH) * 1000

def durationOf (scale duration : Nat) : Nat := duration * 1000 / scale

/-! ## 2. Headers -/

variable {f : Bytes} {offset size pre child creation scale duration : Nat} {m : Movie}

theorem be64_slice_at {n i : Nat} (hi : i + 8 ≤ n) :
    be64 (slice f offset n) i = be64 f (offset + i) := by
  simp only [be64]
  rw [be32_slice (by omega), be32_slice (by omega), Nat.add_assoc]

theorem size_slice : be32 (slice f offset 8) 0 = be32 f offset := be32_slice (by decide)

theorem type_slice : slice (slice f offset 8) 4 4 = typeAt f offset := slice_slice (by omega)

/-- A number of 64 bits is in a range below 2^63 as an `int64_t` exactly where it is as it stands. -/
theorem toInt64_range {v : Nat} (hv : v ≤ UINT64_MAX) :
    0 < toInt64 v ∧ toInt64 v ≤ 86400000 ↔ 1 ≤ v ∧ v ≤ 86400000 := by
  unfold UINT64_MAX at hv
  unfold toInt64 INT64_MAX
  split
  · omega
  · omega

theorem toInt64_of_le {v : Nat} (hv : v ≤ 86400000) : toInt64 v = (v : Int) := by
  unfold toInt64 INT64_MAX
  rw [if_pos (by omega)]

/-- The bound on the duration field follows from that on the duration. -/
theorem duration_le (hscale : scale < 2 ^ 32) (hpos : 0 < scale) (h : durationOf scale duration ≤ 86400000) :
    duration ≤ UINT64_MAX / 1000 := by
  have hlt : duration * 1000 < (86400000 + 1) * scale :=
    (Nat.div_lt_iff_lt_mul hpos).mp (Nat.lt_succ_of_le h)
  have hmul : (86400000 + 1) * scale ≤ (86400000 + 1) * 2 ^ 32 :=
    Nat.mul_le_mul_left _ (Nat.le_of_lt hscale)
  unfold UINT64_MAX
  omega

/-- The checks on the fields. -/
theorem inRange_iff (hscale : scale < 2 ^ 32) {a b : Int} :
    (if scale = 0 ∨ creation < MP4_EPOCH ∨ creation - MP4_EPOCH > INT64_MAX / 1000 ∨
        duration > UINT64_MAX / 1000 then none
      else
        if 0 < toInt64 (duration * 1000 / scale) ∧ toInt64 (duration * 1000 / scale) ≤ 86400000 then
          some ((((creation - MP4_EPOCH) * 1000 : Nat) : Int), toInt64 (duration * 1000 / scale))
        else none) = some (a, b) ↔
      InRange creation scale duration ∧ a = startOf creation ∧ b = durationOf scale duration := by
  have hfits : duration ≤ UINT64_MAX / 1000 → duration * 1000 / scale ≤ UINT64_MAX := by
    intro h
    exact (Nat.div_le_self _ _).trans ((Nat.mul_le_mul_right _ h).trans (Nat.div_mul_le_self _ _))
  constructor
  · intro h
    split at h
    · cases h
    · rename_i hok
      simp only [not_or, Nat.not_lt, gt_iff_lt] at hok
      split at h
      · rename_i hrange
        obtain ⟨hpos, hday⟩ := (toInt64_range (hfits hok.2.2.2)).mp hrange
        cases h
        exact ⟨⟨Nat.pos_of_ne_zero hok.1, hok.2.1, hok.2.2.1, hpos, hday⟩, rfl, toInt64_of_le hday⟩
      · cases h
  · rintro ⟨⟨hscale0, hepoch, hbound, hpos, hday⟩, rfl, rfl⟩
    have hdur := duration_le hscale hscale0 hday
    rw [if_neg (by omega), if_pos ((toInt64_range (hfits hdur)).mpr ⟨hpos, hday⟩),
      toInt64_of_le hday]
    rfl

/-- **The times of an `mvhd`** are those of its fields, in range. -/
theorem mvhdTimes_iff (hsize : 32 ≤ size) {a b : Int} :
    mvhdTimes (slice f child (if size < 40 then size else 40)) size = some (a, b) ↔
      ∃ creation scale duration, Fields f child size creation scale duration ∧
        InRange creation scale duration ∧ a = startOf creation ∧ b = durationOf scale duration := by
  have hread : 32 ≤ if size < 40 then size else 40 := by split <;> omega
  have hversion : byteAt (slice f child (if size < 40 then size else 40)) 8 = byteAt f (child + 8) :=
    byteAt_slice (by omega)
  unfold mvhdTimes
  rw [hversion]
  by_cases h0 : byteAt f (child + 8) = 0
  · rw [if_pos h0]
    simp only
    rw [be32_slice (by omega), be32_slice (by omega), be32_slice (by omega),
      inRange_iff (be32_lt f _)]
    constructor
    · intro h
      exact ⟨_, _, _, .inl ⟨h0, rfl, rfl, rfl⟩, h⟩
    · rintro ⟨creation, scale, duration, ⟨-, rfl, rfl, rfl⟩ | ⟨h1, -⟩, h⟩
      · exact h
      · omega
  · rw [if_neg h0]
    by_cases h1 : byteAt f (child + 8) = 1 ∧ size ≥ 40
    · rw [if_pos h1]
      simp only
      rw [if_neg (by omega : ¬ size < 40), be64_slice_at (by omega), be32_slice (by omega),
        be64_slice_at (by omega), inRange_iff (be32_lt f _)]
      constructor
      · intro h
        exact ⟨_, _, _, .inr ⟨h1.1, h1.2, rfl, rfl, rfl⟩, h⟩
      · rintro ⟨creation, scale, duration, ⟨h, -⟩ | ⟨-, -, rfl, rfl, rfl⟩, h⟩
        · exact absurd h h0
        · exact h
    · rw [if_neg h1]
      constructor
      · intro h
        cases h
      · rintro ⟨creation, scale, duration, ⟨h, -⟩ | ⟨h, h40, -⟩, -⟩
        · exact absurd h h0
        · exact absurd ⟨h, h40⟩ h1

/-! ## 3. The walk -/

/-- `Reader.on` at a read. -/
theorem on_read_iff {α : Type} {n : Nat} (hn : 0 < n) {k : Bytes → Reader α} {r : α} :
    (Reader.read n offset k).on f = some r ↔
      offset + n ≤ f.length ∧ (k (slice f offset n)).on f = some r := by
  constructor
  · intro h
    obtain ⟨hl, h⟩ := Reader.on_read h
    exact ⟨slice_le hl hn, h⟩
  · rintro ⟨hl, h⟩
    rw [Reader.on, if_pos (slice_length_of_le hl)]
    exact h

/-- Where children lead to an `mvhd`, there is a child. -/
theorem child_of_kids {n target : Nat} (hk : Kids f n child target)
    (hm : Mvhd f target creation scale duration) : ∃ size, Child f child size := by
  cases hk with
  | here => exact ⟨_, hm.fields.choose_spec.1⟩
  | next h => exact ⟨_, h⟩

/-- What the walk over the children finds: fewer than `count` of them before an `mvhd`. -/
theorem findMvhd_iff {count : Nat} (h8 : 8 ≤ f.length) :
    (findMvhd f.length offset size count child).on f = some m ↔
      ∃ n target creation scale duration, n < count ∧ Kids f n child target ∧
        Mvhd f target creation scale duration ∧
        m = ⟨offset, f.length, size, startOf creation, durationOf scale duration⟩ := by
  induction count generalizing child with
  | zero =>
    constructor
    · intro h
      cases h
    · rintro ⟨n, -, -, -, -, hn, -⟩
      omega
  | succ count ih =>
    unfold findMvhd
    by_cases hin : child + 8 ≤ f.length
    · rw [if_pos (by omega), on_read_iff (by decide)]
      simp only
      rw [size_slice, type_slice]
      by_cases hsize : be32 f child < 8 ∨ be32 f child > f.length - child
      · rw [if_pos hsize]
        constructor
        · rintro ⟨-, h⟩
          cases h
        · rintro ⟨n, target, creation, scale, duration, -, hk, hm, -⟩
          obtain ⟨size, hc⟩ := child_of_kids hk hm
          have hstored := hc.stored
          have hge := hc.ge
          have hfits := hc.fits
          omega
      · rw [if_neg hsize]
        have hc : Child f child (be32 f child) := ⟨hin, rfl, by omega, by omega⟩
        by_cases htype : typeAt f child = ascii "mvhd"
        · rw [if_pos htype]
          constructor
          · rintro ⟨-, h⟩
            split at h
            · cases h
            · rename_i h32
              obtain ⟨-, h⟩ := (on_read_iff (by split <;> omega)).mp h
              obtain ⟨t, ht, rfl⟩ := Option.map_eq_some_iff.mp h
              obtain ⟨creation, scale, duration, hf, hr, ha, hb⟩ :=
                (mvhdTimes_iff (by omega)).mp (show _ = some (t.1, t.2) from ht)
              refine ⟨0, child, creation, scale, duration, Nat.succ_pos _, .here child,
                ⟨htype, ⟨_, hc, by omega, hf⟩, hr⟩, ?_⟩
              rw [ha, hb]
          · rintro ⟨n, target, creation, scale, duration, -, hk, hm, rfl⟩
            cases hk with
            | next _ hne => exact absurd htype hne
            | here =>
              obtain ⟨size', hc', h32, hf⟩ := hm.fields
              have hs := hc'.stored
              subst hs
              refine ⟨hin, ?_⟩
              have hfits := hc.fits
              rw [if_neg (by omega), on_read_iff (by split <;> omega)]
              refine ⟨by split <;> omega, ?_⟩
              rw [Reader.on_done,
                (mvhdTimes_iff h32).mpr ⟨creation, scale, duration, hf, hm.range, rfl, rfl⟩]
              rfl
        · rw [if_neg htype, ih]
          constructor
          · rintro ⟨-, n, target, creation, scale, duration, hn, hk, hm⟩
            exact ⟨n + 1, target, creation, scale, duration, by omega, .next hc htype hk, hm⟩
          · rintro ⟨n, target, creation, scale, duration, hn, hk, hm, he⟩
            cases hk with
            | here => exact absurd hm.type htype
            | next hc' _ hk =>
              have hs := hc'.stored
              subst hs
              exact ⟨hin, _, target, creation, scale, duration, by omega, hk, hm, he⟩
    · rw [if_neg (by omega)]
      constructor
      · intro h
        cases h
      · rintro ⟨n, target, creation, scale, duration, -, hk, hm, -⟩
        exact absurd (child_of_kids hk hm).choose_spec.header hin

/-- A `moov` that ends the file, and the movie its `mvhd` says. -/
structure Ending (f : Bytes) (moov size : Nat) (m : Movie) : Prop where
  box : TopBox f moov size 8
  type : typeAt f moov = ascii "moov"
  ends : moov + size = f.length
  mvhd : ∃ n child creation scale duration, n < 64 ∧ Kids f n (moov + 8) child ∧
    Mvhd f child creation scale duration ∧
    m = ⟨moov, f.length, size, startOf creation, durationOf scale duration⟩

/-- A header whose size has been read: `moov` is entered, any other box is stepped over. -/
theorem topBox_iff {next : Nat → Reader Movie} (hin : offset + 8 ≤ f.length)
    (hstored : (be32 f offset ≠ 1 ∧ size = be32 f offset ∧ pre = 8) ∨
      (be32 f offset = 1 ∧ offset + 16 ≤ f.length ∧ size = be64 f (offset + 8) ∧ pre = 16)) :
    (topBox f.length offset (slice f offset 8) size pre next).on f = some m ↔
      (pre = 8 ∧ Ending f offset size m) ∨
        (TopBox f offset size pre ∧ typeAt f offset ≠ ascii "moov" ∧
          (next (offset + size)).on f = some m) := by
  have hbox : TopBox f offset size pre ↔ ¬ (size < pre ∨ size > f.length - offset) :=
    ⟨fun h => by have := h.ge; have := h.fits; omega, fun h => ⟨hin, hstored, by omega, by omega⟩⟩
  unfold topBox
  rw [type_slice]
  by_cases hsize : size < pre ∨ size > f.length - offset
  · rw [if_pos hsize]
    constructor
    · intro h
      cases h
    · rintro (⟨rfl, h⟩ | ⟨h, -⟩)
      · exact absurd hsize (hbox.mp h.box)
      · exact absurd hsize (hbox.mp h)
  · rw [if_neg hsize]
    by_cases htype : typeAt f offset = ascii "moov"
    · rw [if_pos htype]
      constructor
      · intro h
        split at h
        · cases h
        · rename_i hok
          have hpre : pre = 8 := by omega
          subst hpre
          exact .inl ⟨rfl, hbox.mpr hsize, htype, by omega, (findMvhd_iff (by omega)).mp h⟩
      · rintro (⟨rfl, h⟩ | ⟨-, hne, -⟩)
        · have hmax : size ≤ UINT32_MAX := by
            have hlt := be32_lt f offset
            unfold UINT32_MAX
            omega
          have hends := h.ends
          rw [if_neg (by omega)]
          exact (findMvhd_iff (by omega)).mpr h.mvhd
        · exact absurd htype hne
    · rw [if_neg htype]
      constructor
      · exact fun h => .inr ⟨hbox.mpr hsize, htype, h⟩
      · rintro (⟨-, h⟩ | ⟨-, -, h⟩)
        · exact absurd h.type htype
        · exact h

/-- What the walk over the top-level boxes finds: fewer than `boxes` of them before a `moov`. -/
theorem findMoov_iff {boxes : Nat} (h8 : 8 ≤ f.length) :
    (findMoov f.length boxes offset).on f = some m ↔
      ∃ n moov size, n < boxes ∧ Leads f n offset moov ∧ Ending f moov size m := by
  induction boxes generalizing offset with
  | zero =>
    constructor
    · intro h
      cases h
    · rintro ⟨n, -, -, hn, -⟩
      omega
  | succ boxes ih =>
    -- a box the walk can read, with its size, is the last one or the first of those that lead on
    have hstep : ∀ size pre, offset + 8 ≤ f.length →
        ((be32 f offset ≠ 1 ∧ size = be32 f offset ∧ pre = 8) ∨
          (be32 f offset = 1 ∧ offset + 16 ≤ f.length ∧ size = be64 f (offset + 8) ∧ pre = 16)) →
        ((topBox f.length offset (slice f offset 8) size pre (findMoov f.length boxes)).on f = some m ↔
          ∃ n moov size, n < boxes + 1 ∧ Leads f n offset moov ∧ Ending f moov size m) := by
      intro size pre hin hstored
      rw [topBox_iff hin hstored]
      constructor
      · rintro (⟨-, h⟩ | ⟨hbox, htype, h⟩)
        · exact ⟨0, offset, size, Nat.succ_pos _, .here offset, h⟩
        · obtain ⟨n, moov, size', hn, hl, he⟩ := ih.mp h
          exact ⟨n + 1, moov, size', by omega, .next hbox htype hl, he⟩
      · rintro ⟨n, moov, size', hn, hl, he⟩
        cases hl with
        | here =>
          have hsame : size = size' ∧ pre = 8 := by
            rcases he.box.stored with h | h <;> omega
          exact .inl ⟨hsame.2, hsame.1 ▸ he⟩
        | @next n _ size'' pre'' _ hbox htype hl =>
          have hsame : size = size'' ∧ pre = pre'' := by
            rcases hbox.stored with h | h <;> omega
          rw [hsame.1, hsame.2]
          exact .inr ⟨hbox, htype, ih.mpr ⟨n, moov, size', by omega, hl, he⟩⟩
    -- where it cannot, nothing begins there
    have hnone : (∃ n moov size, n < boxes + 1 ∧ Leads f n offset moov ∧ Ending f moov size m) →
        ∃ size pre, TopBox f offset size pre := by
      rintro ⟨n, moov, size, -, hl, he⟩
      cases hl with
      | here => exact ⟨_, _, he.box⟩
      | next h => exact ⟨_, _, h⟩
    unfold findMoov
    by_cases hin : offset + 8 ≤ f.length
    · rw [if_pos (by omega), on_read_iff (by decide)]
      rw [size_slice]
      by_cases hone : be32 f offset = 1
      · rw [if_pos hone, on_read_iff (by decide)]
        have hext : be64 (slice f (offset + 8) 8) 0 = be64 f (offset + 8) :=
          be64_slice_at (by decide)
        rw [hext]
        constructor
        · rintro ⟨-, h16, h⟩
          exact (hstep _ 16 hin (.inr ⟨hone, h16, rfl, rfl⟩)).mp h
        · intro h
          obtain ⟨size, pre, hbox⟩ := hnone h
          have h16 : offset + 8 + 8 ≤ f.length := by
            rcases hbox.stored with hs | hs <;> omega
          exact ⟨hin, h16, (hstep _ 16 hin (.inr ⟨hone, h16, rfl, rfl⟩)).mpr h⟩
      · rw [if_neg hone, hstep _ 8 hin (.inl ⟨hone, rfl, rfl⟩)]
        exact ⟨fun h => h.2, fun h => ⟨hin, h⟩⟩
    · rw [if_neg (by omega)]
      constructor
      · intro h
        cases h
      · intro h
        obtain ⟨size, pre, hbox⟩ := hnone h
        exact absurd hbox.header hin

/-- **`find_movie` accepts exactly finalized movies**, and says their times. -/
theorem findMovie_iff : (findMovie true f.length).on f = some m ↔
    ∃ moov size creation scale duration, Finalized f moov size creation scale duration ∧
      m = ⟨moov, f.length, size, startOf creation, durationOf scale duration⟩ := by
  unfold findMovie
  by_cases h32 : f.length < 32
  · rw [if_pos (.inr h32)]
    constructor
    · intro h
      cases h
    · rintro ⟨moov, size, creation, scale, duration, h, -⟩
      exact absurd h.length (by omega)
  · rw [if_neg (by simp [h32]), findMoov_iff (by omega)]
    constructor
    · rintro ⟨n, moov, size, hn, hl, he⟩
      obtain ⟨k, child, creation, scale, duration, hk, hkids, hm, heq⟩ := he.mvhd
      exact ⟨moov, size, creation, scale, duration,
        ⟨by omega, ⟨n, hn, hl⟩, he.box, he.type, he.ends, k, child, hk, hkids, hm⟩, heq⟩
    · rintro ⟨moov, size, creation, scale, duration, h, heq⟩
      obtain ⟨n, hn, hl⟩ := h.leads
      obtain ⟨k, child, hk, hkids, hm⟩ := h.mvhd
      exact ⟨n, moov, size, hn, hl, h.box, h.type, h.ends, k, child, creation, scale, duration, hk,
        hkids, hm, heq⟩

/-! ## 4. What is read -/

/-- The reads of a computation on the file `f`, as offset and size. -/
def Reader.reads {α : Type} (f : Bytes) : Reader α → List (Nat × Nat)
  | .done _ => []
  | .read size offset k =>
    (offset, size) ::
      if (slice f offset size).length = size then (k (slice f offset size)).reads f else []

theorem reads_read {α : Type} {n : Nat} {k : Bytes → Reader α} :
    (Reader.read n offset k).reads f =
      (offset, n) :: if (slice f offset n).length = n then (k (slice f offset n)).reads f else [] :=
  rfl

/-- The reads for one top-level header: eight bytes, and the 64-bit size where there is one. -/
def TopReads (g : List (Nat × Nat)) : Prop :=
  ∃ offset, g = [(offset, 8)] ∨ g = [(offset, 8), (offset + 8, 8)]

/-- The reads for one child's header: eight bytes, and the fields of an `mvhd`. -/
def ChildReads (g : List (Nat × Nat)) : Prop :=
  ∃ child, g = [(child, 8)] ∨ ∃ n, n ≤ 40 ∧ g = [(child, 8), (child, n)]

/-- What is read is headers of at most `boxes` top-level boxes, then of at most `count` children. -/
def Examines (boxes count : Nat) (reads : List (Nat × Nat)) : Prop :=
  ∃ tops kids : List (List (Nat × Nat)), reads = tops.flatten ++ kids.flatten ∧
    tops.length ≤ boxes ∧ kids.length ≤ count ∧ (∀ g ∈ tops, TopReads g) ∧ ∀ g ∈ kids, ChildReads g

theorem Examines.none {boxes count : Nat} : Examines boxes count [] :=
  ⟨[], [], rfl, Nat.zero_le _, Nat.zero_le _, fun _ h => absurd h List.not_mem_nil,
    fun _ h => absurd h List.not_mem_nil⟩

/-- One more child in front. -/
theorem Examines.kid {count : Nat} {g reads : List (Nat × Nat)} (hg : ChildReads g)
    (h : Examines 0 count reads) : Examines 0 (count + 1) (g ++ reads) := by
  obtain ⟨tops, kids, rfl, htops, hkids, -, hk⟩ := h
  have hnil := List.length_eq_zero_iff.mp (Nat.le_zero.mp htops)
  subst hnil
  exact ⟨[], g :: kids, rfl, Nat.le_refl _, Nat.succ_le_succ hkids,
    fun _ h => absurd h List.not_mem_nil, List.forall_mem_cons.mpr ⟨hg, hk⟩⟩

/-- One more top-level box in front. -/
theorem Examines.top {boxes count : Nat} {g reads : List (Nat × Nat)} (hg : TopReads g)
    (h : Examines boxes count reads) : Examines (boxes + 1) count (g ++ reads) := by
  obtain ⟨tops, kids, rfl, htops, hkids, ht, hk⟩ := h
  exact ⟨g :: tops, kids, (List.append_assoc _ _ _).symm, Nat.succ_le_succ htops, hkids,
    List.forall_mem_cons.mpr ⟨hg, ht⟩, hk⟩

theorem Examines.mono {boxes boxes' count : Nat} {reads : List (Nat × Nat)}
    (h : Examines boxes count reads) (hle : boxes ≤ boxes') : Examines boxes' count reads := by
  obtain ⟨tops, kids, he, htops, hrest⟩ := h
  exact ⟨tops, kids, he, htops.trans hle, hrest⟩

theorem findMvhd_examines {stSize count : Nat} :
    Examines 0 count ((findMvhd stSize offset size count child).reads f) := by
  induction count generalizing child with
  | zero => exact .none
  | succ count ih =>
    have halone : Examines 0 (count + 1) ([(child, 8)] ++ []) := .kid ⟨child, .inl rfl⟩ .none
    unfold findMvhd
    split
    · rw [reads_read]
      split
      · simp only
        split
        · exact halone
        · split
          · split
            · exact halone
            · have hfields : ChildReads [(child, 8),
                  (child, if be32 (slice f child 8) 0 < 40 then be32 (slice f child 8) 0 else 40)] :=
                ⟨child, .inr ⟨_, by split <;> omega, rfl⟩⟩
              rw [reads_read, Reader.reads, ite_self]
              exact .kid hfields .none
          · exact .kid ⟨child, .inl rfl⟩ ih
      · exact halone
    · exact .none

theorem topBox_examines {stSize boxes : Nat} {header : Bytes} {next : Nat → Reader Movie}
    (hnext : ∀ o, Examines boxes 64 ((next o).reads f)) :
    Examines boxes 64 ((topBox stSize offset header size pre next).reads f) := by
  unfold topBox
  split
  · exact .none
  · split
    · split
      · exact .none
      · exact findMvhd_examines.mono (Nat.zero_le _)
    · exact hnext _

theorem findMoov_examines {stSize boxes : Nat} :
    Examines boxes 64 ((findMoov stSize boxes offset).reads f) := by
  induction boxes generalizing offset with
  | zero => exact .none
  | succ boxes ih =>
    have hbox : ∀ header size pre,
        Examines boxes 64 ((topBox stSize offset header size pre (findMoov stSize boxes)).reads f) :=
      fun header size pre => topBox_examines fun o => ih
    have halone : Examines (boxes + 1) 64 ([(offset, 8)] ++ []) := .top ⟨offset, .inl rfl⟩ .none
    unfold findMoov
    split
    · rw [reads_read]
      split
      · split
        · rw [reads_read]
          split
          · exact .top ⟨offset, .inr rfl⟩ (hbox _ _ _)
          · exact .top ⟨offset, .inr rfl⟩ .none
        · exact .top ⟨offset, .inl rfl⟩ (hbox _ _ _)
      · exact halone
    · exact .none

/-- **At most 64 headers on each level** are read, of any file. -/
theorem findMovie_examines : Examines 64 64 ((findMovie true f.length).reads f) := by
  unfold findMovie
  split
  · exact .none
  · exact findMoov_examines

/-! ## 5. The end of the movie -/

/-- The start is not negative, and start and duration add up to an `int64_t`. -/
def Movie.Safe (m : Movie) : Prop := 0 ≤ m.startMs ∧ m.endMs ≤ INT64_MAX

/-- What is expected of `find_movie` on a file: a bounded number of headers, finalized movies and no
    others, and safe times. -/
structure TimesSound (f : Bytes) : Prop where
  examines : Examines 64 64 ((findMovie true f.length).reads f)
  accepts : (∃ m, (findMovie true f.length).on f = some m) ↔
    ∃ moov size creation scale duration, Finalized f moov size creation scale duration
  safe : ∀ m, (findMovie true f.length).on f = some m → m.Safe

/-- The creation time leaves room for the duration. -/
def Room (creation scale duration : Nat) : Prop :=
  startOf creation + durationOf scale duration ≤ INT64_MAX

/-- **When the times are safe.** Of every file a bounded number of headers is read and exactly
    finalized movies are accepted; the end of an accepted movie fits an `int64_t` exactly where its
    creation time leaves room for its duration. -/
theorem movie_times_safe (f : Bytes) :
    TimesSound f ↔ ∀ moov size creation scale duration,
      Finalized f moov size creation scale duration → Room creation scale duration := by
  constructor
  · intro h moov size creation scale duration hf
    have hend := (h.safe _ (findMovie_iff.mpr ⟨moov, size, creation, scale, duration, hf, rfl⟩)).2
    simp only [Movie.endMs] at hend
    unfold Room
    omega
  · intro h
    refine ⟨findMovie_examines, ⟨?_, ?_⟩, fun m hm => ?_⟩
    · rintro ⟨m, hm⟩
      obtain ⟨moov, size, creation, scale, duration, hf, -⟩ := findMovie_iff.mp hm
      exact ⟨moov, size, creation, scale, duration, hf⟩
    · rintro ⟨moov, size, creation, scale, duration, hf⟩
      exact ⟨_, findMovie_iff.mpr ⟨moov, size, creation, scale, duration, hf, rfl⟩⟩
    · obtain ⟨moov, size, creation, scale, duration, hf, rfl⟩ := findMovie_iff.mp hm
      have hroom := h moov size creation scale duration hf
      unfold Room at hroom
      exact ⟨by simp only; omega, by simp only [Movie.endMs]; omega⟩

/-- A `moov` alone whose `mvhd`, of version 1, was created in the last second the bound allows and
    lasts one second. -/
def lastSecond : Bytes :=
  [0, 0, 0, 48] ++ ascii "moov" ++ [0, 0, 0, 40] ++ ascii "mvhd" ++ [1, 0, 0, 0] ++
    [0, 0x20, 0xc4, 0x9c, 0x22, 0x09, 0x04, 0x77] ++ [0, 0, 0, 0, 0, 0, 0, 0] ++ [0, 0, 0, 1] ++
    [0, 0, 0, 0, 0, 0, 0, 1]

theorem times_overflow : ¬ ∀ f, TimesSound f := by
  intro h
  have hfound : (findMovie true lastSecond.length).on lastSecond =
      some ⟨0, 48, 48, 9223372036854775000, 1000⟩ := by decide
  have hend := ((h lastSecond).safe _ hfound).2
  exact absurd hend (by decide)

end YiHack.Record
