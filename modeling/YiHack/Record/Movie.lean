/-
  File:      YiHack/Record/Movie.lean
  Subject:   `record_metadata.c`: `find_movie`, the walk over an MP4 file's boxes.

  The walk skips top-level boxes by their sizes until `moov`, which must be the last one and reach
  the end of the file, then walks its children until `mvhd`, and takes start and duration from
  there.

  * `findMovie_spec` -- what a movie that was found says about the file;
  * `findMovie_grown` -- the walk finds the same movie, grown, once a box is appended and the size
    of `moov` patched: every box it looks at is before the patch or inside the old `moov`.
-/
import YiHack.Record.FileIo

namespace YiHack.Record

open General

def UINT32_MAX : Nat := 2 ^ 32 - 1
def INT64_MAX : Nat := 2 ^ 63 - 1
def UINT64_MAX : Nat := 2 ^ 64 - 1
def MP4_EPOCH : Nat := 2082844800

/-- `struct movie`. -/
structure Movie where
  offset : Nat
  end_ : Nat
  size : Nat
  startMs : Int
  durationMs : Int
  deriving DecidableEq, Repr

/-! ## 1. find_movie -/

/-- A `uint64_t` assigned to an `int64_t`. -/
def toInt64 (v : Nat) : Int := if v ≤ INT64_MAX then v else (v : Int) - 2 ^ 64

/-- The times in an `mvhd` box of `childSize` bytes, of which `header` holds up to 40. -/
def mvhdTimes (header : Bytes) (childSize : Nat) : Option (Int × Int) :=
  let fields :=
    if byteAt header 8 = 0 then some (be32 header 12, be32 header 20, be32 header 24)
    else if byteAt header 8 = 1 ∧ childSize ≥ 40 then
      some (be64 header 12, be32 header 28, be64 header 32)
    else none
  match fields with
  | none => none
  | some (creation, scale, duration) =>
    if scale = 0 ∨ creation < MP4_EPOCH ∨ creation - MP4_EPOCH > INT64_MAX / 1000 ∨
        duration > UINT64_MAX / 1000 then none
    else
      let startMs : Int := ((creation - MP4_EPOCH) * 1000 : Nat)
      let durationMs := toInt64 (duration * 1000 / scale)
      if 0 < durationMs ∧ durationMs ≤ 86400000 then some (startMs, durationMs) else none

/-- The loop over the children of `moov`, `count` of them to go, in a file of `stSize` bytes. -/
def findMvhd (stSize offset size : Nat) : Nat → Nat → Reader Movie
  | 0, _ => .done none
  | count + 1, child =>
    if child ≤ stSize - 8 then
      .read 8 child fun header =>
        let childSize := be32 header 0
        if childSize < 8 ∨ childSize > stSize - child then .done none
        else if slice header 4 4 = ascii "mvhd" then
          if childSize < 32 then .done none
          else
            .read (if childSize < 40 then childSize else 40) child fun header =>
              .done ((mvhdTimes header childSize).map fun t => ⟨offset, stSize, size, t.1, t.2⟩)
        else findMvhd stSize offset size count (child + childSize)
    else .done none

/-- A top-level box at `offset` of `size` bytes, `pre` of them size and type: `moov` is entered,
    any other box leads on to `next`. -/
def topBox (stSize offset : Nat) (header : Bytes) (size pre : Nat) (next : Nat → Reader Movie) :
    Reader Movie :=
  if size < pre ∨ size > stSize - offset then .done none
  else if slice header 4 4 = ascii "moov" then
    if pre ≠ 8 ∨ size > UINT32_MAX ∨ offset + size ≠ stSize then .done none
    else findMvhd stSize offset size 64 (offset + 8)
  else next (offset + size)

/-- The loop over the top-level boxes, `boxes` of them to go. -/
def findMoov (stSize : Nat) : Nat → Nat → Reader Movie
  | 0, _ => .done none
  | boxes + 1, offset =>
    if offset ≤ stSize - 8 then
      .read 8 offset fun header =>
        if be32 header 0 = 1 then
          .read 8 (offset + 8) fun ext =>
            topBox stSize offset header (be64 ext 0) 16 (findMoov stSize boxes)
        else topBox stSize offset header (be32 header 0) 8 (findMoov stSize boxes)
    else .done none

/-- `find_movie`, in a file of `stSize` bytes. -/
def findMovie (fstatOk : Bool) (stSize : Nat) : Reader Movie :=
  if fstatOk = false ∨ stSize < 32 then .done none else findMoov stSize 64 0

/-! ## 2. What a movie that was found says -/

/-- Four bytes are the number they spell, stored. -/
theorem store32_be32 {p : Bytes} (h : p.length = 4) : store32 (be32 p 0) = p := by
  match p, h with
  | [a, b, c, d], _ =>
    have ha := a.toNat_lt
    have hb := b.toNat_lt
    have hc := c.toNat_lt
    have hd := d.toNat_lt
    simp only [be32, byteAt, store32, List.getD_cons_zero, List.getD_cons_succ]
    refine List.cons_eq_cons.mpr ⟨?_, List.cons_eq_cons.mpr ⟨?_, List.cons_eq_cons.mpr ⟨?_,
      List.cons_eq_cons.mpr ⟨?_, rfl⟩⟩⟩⟩
    all_goals
      apply UInt8.toNat_inj.mp
      rw [UInt8.toNat_ofNat']
      omega

/-- The movie a walk over the children ends with. -/
theorem findMvhd_movie {f : Bytes} {stSize offset size count child : Nat} {m : Movie}
    (h : (findMvhd stSize offset size count child).on f = some m) :
    m.offset = offset ∧ m.end_ = stSize ∧ m.size = size := by
  induction count generalizing child with
  | zero => cases h
  | succ count ih =>
    unfold findMvhd at h
    split at h
    · obtain ⟨-, h⟩ := Reader.on_read h
      simp only at h
      split at h
      · cases h
      · split at h
        · split at h
          · cases h
          · obtain ⟨-, h⟩ := Reader.on_read h
            obtain ⟨t, -, rfl⟩ := Option.map_eq_some_iff.mp h
            exact ⟨rfl, rfl, rfl⟩
        · exact ih h
    · cases h

/-- What is known of the file where the walk has found a movie from `offset` on. -/
structure Found (f : Bytes) (offset : Nat) (m : Movie) : Prop where
  le : offset ≤ m.offset
  end_eq : m.end_ = f.length
  reaches : m.offset + m.size = f.length
  size_ge : 8 ≤ m.size
  size_le : m.size ≤ UINT32_MAX
  stored : slice f m.offset 4 = store32 m.size

/-- A top-level box that leads to a movie is `moov`, or the walk goes on behind it. -/
theorem topBox_on {f : Bytes} {offset : Nat} {header : Bytes} {size pre : Nat}
    {next : Nat → Reader Movie} {m : Movie}
    (h : (topBox f.length offset header size pre next).on f = some m) :
    pre ≤ size ∧ size ≤ f.length - offset ∧
      ((slice header 4 4 = ascii "moov" ∧ pre = 8 ∧ size ≤ UINT32_MAX ∧ offset + size = f.length ∧
          (findMvhd f.length offset size 64 (offset + 8)).on f = some m) ∨
        (slice header 4 4 ≠ ascii "moov" ∧ (next (offset + size)).on f = some m)) := by
  unfold topBox at h
  split at h
  · cases h
  · rename_i hsize
    refine ⟨by omega, by omega, ?_⟩
    split at h
    · rename_i ht
      split at h
      · cases h
      · rename_i hm
        exact .inl ⟨ht, by omega, by omega, by omega, h⟩
    · rename_i ht
      exact .inr ⟨ht, h⟩

theorem topBox_found {f : Bytes} {offset : Nat} {size pre : Nat} {next : Nat → Reader Movie}
    {m : Movie} (hpre : pre = 16 ∨ pre = 8 ∧ size = be32 (slice f offset 8) 0)
    (hnext : ∀ o, (next o).on f = some m → Found f o m)
    (h : (topBox f.length offset (slice f offset 8) size pre next).on f = some m) :
    Found f offset m := by
  obtain ⟨hge, hle, ⟨-, hp8, hmax, hend, hm⟩ | ⟨-, hm⟩⟩ := topBox_on h
  · obtain ⟨ho, he, hs⟩ := findMvhd_movie hm
    have hpre : pre = 8 ∧ size = be32 (slice f offset 8) 0 := hpre.resolve_left (by omega)
    refine ⟨by omega, he, by omega, by omega, by omega, ?_⟩
    have h4 : (slice f offset 4).length = 4 := by
      rw [slice_length]
      omega
    rw [ho, hs, hpre.2, be32_slice (by omega), Nat.add_zero, ← be32_slice_self, store32_be32 h4]
  · have hF := hnext _ hm
    exact { hF with le := by have := hF.le; omega }

theorem findMoov_found {f : Bytes} {boxes offset : Nat} {m : Movie}
    (h : (findMoov f.length boxes offset).on f = some m) : Found f offset m := by
  induction boxes generalizing offset with
  | zero => cases h
  | succ boxes ih =>
    unfold findMoov at h
    split at h
    · obtain ⟨-, h⟩ := Reader.on_read h
      split at h
      · obtain ⟨-, h⟩ := Reader.on_read h
        exact topBox_found (.inl rfl) (fun _ => ih) h
      · exact topBox_found (.inr ⟨rfl, rfl⟩) (fun _ => ih) h
    · cases h

/-- **A movie that was found** ends the file; its size is the one stored at its offset. -/
theorem findMovie_spec {f : Bytes} {fstatOk : Bool} {m : Movie}
    (h : (findMovie fstatOk f.length).on f = some m) : fstatOk = true ∧ 32 ≤ f.length ∧ Found f 0 m := by
  unfold findMovie at h
  split at h
  · cases h
  · rename_i hc
    refine ⟨by simpa using fun hf => hc (.inl hf), by omega, findMoov_found h⟩

/-! ## 3. The grown file -/

/-- `g` is `f` with `n` bytes appended and the size of the movie `m` patched. -/
structure Grown (f g : Bytes) (m : Movie) (n : Nat) : Prop where
  length : g.length = f.length + n
  before : ∀ i k, i + k ≤ m.offset → slice g i k = slice f i k
  inside : ∀ i k, m.offset + 4 ≤ i → i + k ≤ f.length → slice g i k = slice f i k
  stored : slice g m.offset 4 = store32 (m.size + n)

theorem slice_le {f : Bytes} {off n : Nat} (h : (slice f off n).length = n) (hn : 0 < n) :
    off + n ≤ f.length := by
  rw [slice_length] at h
  omega

/-- The walk over the children sees the same. -/
theorem findMvhd_grown {f g : Bytes} {m : Movie} {n size count child : Nat} {r : Movie}
    (hg : Grown f g m n) (hchild : m.offset + 8 ≤ child)
    (h : (findMvhd f.length m.offset size count child).on f = some r) :
    (findMvhd g.length m.offset (size + n) count child).on g =
      some { r with size := size + n, end_ := g.length } := by
  have hlen := hg.length
  induction count generalizing child with
  | zero => cases h
  | succ count ih =>
    unfold findMvhd at h ⊢
    split at h
    · rename_i hc
      obtain ⟨hl, h⟩ := Reader.on_read h
      have hin := slice_le hl (by omega)
      have e8 := hg.inside child 8 (by omega) hin
      simp only at h
      rw [if_pos (by omega), Reader.on, e8, if_pos hl]
      simp only
      split at h
      · cases h
      · rename_i hs
        rw [if_neg (by omega)]
        split at h
        · rename_i ht
          rw [if_pos ht]
          split at h
          · cases h
          · rename_i h32
            rw [if_neg h32]
            obtain ⟨hl', h⟩ := Reader.on_read h
            have hin' := slice_le hl' (by split <;> omega)
            rw [Reader.on, hg.inside child _ (by omega) hin', if_pos hl']
            obtain ⟨t, ht, rfl⟩ := Option.map_eq_some_iff.mp h
            rw [Reader.on_done, ht]
            rfl
        · rename_i ht
          rw [if_neg ht]
          exact ih (by omega) h
    · cases h

/-- The size of the movie and the type behind it, in the grown file. -/
theorem Grown.header {f g : Bytes} {m : Movie} {n : Nat} (hg : Grown f g m n)
    (hn : m.size + n ≤ UINT32_MAX) (hin : m.offset + 8 ≤ f.length) :
    (slice g m.offset 8).length = 8 ∧ be32 (slice g m.offset 8) 0 = m.size + n ∧
      slice (slice g m.offset 8) 4 4 = slice (slice f m.offset 8) 4 4 := by
  have hlen := hg.length
  refine ⟨slice_length_of_le (by omega), ?_, ?_⟩
  · have hlt : m.size + n < 2 ^ 32 := by
      unfold UINT32_MAX at hn
      omega
    have h := be32_store32 hlt []
    rw [List.append_nil] at h
    rw [be32_slice (by omega), Nat.add_zero, ← be32_slice_self, hg.stored, h]
  · rw [slice_slice (by omega), slice_slice (by omega), hg.inside _ _ (by omega) (by omega)]

/-- A box before the movie looks the same in the grown file. -/
theorem topBox_grown {f g : Bytes} {m : Movie} {n offset size pre : Nat} {header : Bytes}
    {next next' : Nat → Reader Movie} (hg : Grown f g m n)
    (h : (topBox f.length offset header size pre next).on f = some m) (ho : offset < m.offset)
    (hnext : ∀ o, (next o).on f = some m → o ≤ m.offset ∧
      (next' o).on g = some { m with size := m.size + n, end_ := g.length }) :
    offset + size ≤ m.offset ∧ pre ≤ size ∧
      (topBox g.length offset header size pre next').on g =
        some { m with size := m.size + n, end_ := g.length } := by
  have hlen := hg.length
  obtain ⟨hge, hle, ⟨-, -, -, -, hm⟩ | ⟨ht, hm⟩⟩ := topBox_on h
  · have := (findMvhd_movie hm).1
    omega
  · obtain ⟨hle', hm'⟩ := hnext _ hm
    refine ⟨hle', hge, ?_⟩
    rw [topBox, if_neg (by omega), if_neg ht]
    exact hm'

/-- **The walk finds the movie again, grown by `n` bytes.** -/
theorem findMoov_grown {f g : Bytes} {m : Movie} {n boxes offset : Nat} (hg : Grown f g m n)
    (hn : m.size + n ≤ UINT32_MAX) (h : (findMoov f.length boxes offset).on f = some m) :
    (findMoov g.length boxes offset).on g = some { m with size := m.size + n, end_ := g.length } := by
  have hlen := hg.length
  induction boxes generalizing offset with
  | zero => cases h
  | succ boxes ih =>
    have hF := findMoov_found h
    have hnext : ∀ o, (findMoov f.length boxes o).on f = some m → o ≤ m.offset ∧
        (findMoov g.length boxes o).on g = some { m with size := m.size + n, end_ := g.length } :=
      fun o h => ⟨(findMoov_found h).le, ih h⟩
    unfold findMoov at h ⊢
    split at h
    · obtain ⟨hl, h⟩ := Reader.on_read h
      have hin := slice_le hl (by omega)
      rw [if_pos (by omega), Reader.on]
      rcases Nat.lt_or_eq_of_le hF.le with ho | ho
      · -- a box before the movie
        split at h
        · rename_i h1
          obtain ⟨hl', h⟩ := Reader.on_read h
          obtain ⟨hle, hge, hm⟩ := topBox_grown hg h ho hnext
          rw [hg.before _ _ (by omega), if_pos hl, if_pos h1, Reader.on,
            hg.before _ _ (by omega), if_pos hl']
          exact hm
        · rename_i h1
          obtain ⟨hle, hge, hm⟩ := topBox_grown hg h ho hnext
          rw [hg.before _ _ (by omega), if_pos hl, if_neg h1]
          exact hm
      · -- the movie itself: its size is patched, its type and its children are not
        subst ho
        obtain ⟨hl', hsize, htype⟩ := hg.header hn hin
        have hge := hF.size_ge
        have hreach := hF.reaches
        split at h
        · obtain ⟨-, h⟩ := Reader.on_read h
          obtain ⟨hge', -, ⟨-, hp, -⟩ | ⟨-, hm⟩⟩ := topBox_on h
          · omega
          · have := (findMoov_found hm).le
            omega
        · obtain ⟨hge', -, ⟨ht, -, -, -, hm⟩ | ⟨-, hm⟩⟩ := topBox_on h
          · have hs := (findMvhd_movie hm).2.2
            rw [if_pos hl', if_neg (by omega), hsize, topBox, if_neg (by omega), htype, if_pos ht,
              if_neg (by omega)]
            rw [← hs] at hm
            exact findMvhd_grown hg (Nat.le_refl _) hm
          · have := (findMoov_found hm).le
            omega
    · cases h

/-- **`find_movie` finds the movie again in the grown file**: same place, same times. -/
theorem findMovie_grown {f g : Bytes} {m : Movie} {n : Nat} {fstatOk : Bool} (hg : Grown f g m n)
    (hn : m.size + n ≤ UINT32_MAX) (h : (findMovie fstatOk f.length).on f = some m) :
    (findMovie true g.length).on g = some { m with size := m.size + n, end_ := m.end_ + n } := by
  obtain ⟨-, h32, hF⟩ := findMovie_spec h
  have hlen := hg.length
  unfold findMovie at h ⊢
  split at h
  · cases h
  · rw [if_neg (by simp; omega), findMoov_grown hg hn h, hF.end_eq, hlen]

/-- A write of the grown size over a movie followed by `d` grows it. -/
theorem grown_patch {f : Bytes} {o : Nat} {m : Movie} (hF : Found f o m) (d : Bytes) :
    Grown f (patch (f ++ d) m.offset (store32 (m.size + d.length))) m d.length := by
  have hreach := hF.reaches
  have hge := hF.size_ge
  have hle : m.offset ≤ (f ++ d).length := by
    rw [List.length_append]
    omega
  refine ⟨?_, fun i k hi => ?_, fun i k hi hk => ?_, ?_⟩
  · rw [patch_length hle, store32_length, List.length_append]
    omega
  · rw [slice_patch_before hle hi, slice_append_left _ (by omega)]
  · rw [slice_patch_after hle hi, slice_append_left _ hk]
  · exact slice_patch_self hle

end YiHack.Record
