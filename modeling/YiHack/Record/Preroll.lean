/-
  File:      YiHack/Record/Preroll.lean
  Subject:   `record_preroll.c`: how long the recorder's ring of encoded packets is.

  The function walks the vendor's ring from packet to packet, under the recorder's own lock, and
  says how far apart the first and the last packet are, where the packets tile the bytes counted.
  The vendor's copy reads a header with wrap-around at the capacity.

  * `walk_runs` -- what the walk does along packets that tile;
  * **`duration_exact`** -- a duration is returned exactly for such packets;
  * **`reads_inside`** -- and every header is read from a place in the ring.
-/
import Mathlib

namespace YiHack.Record.Preroll

/-! ## 1. The ring -/

/-- The two recorders the addresses are known of. -/
inductive Recorder
  | y623
  | y28ga
  deriving DecidableEq, Repr

/-- `RING_CAPACITY`. -/
def Recorder.capacity : Recorder → BitVec 32
  | .y623 => 0xe0000
  | .y28ga => 0x100000

/-- The vendor's structure: the words 1 and 4, and the bytes from 368 on. -/
structure Ring where
  count : BitVec 32
  position : BitVec 32
  cells : Nat → UInt8

variable (model : Recorder) (ring : Ring)

/-- The byte `i` behind a position, wrapped at the capacity. -/
def Ring.byte (position i : Nat) : BitVec 8 :=
  (ring.cells ((position + i) % model.capacity.toNat)).toBitVec

/-- `header[i]`, once `copy` has read a header at a position. -/
def Ring.header (position i : Nat) : BitVec 32 :=
  ring.byte model position (4 * i + 3) ++ ring.byte model position (4 * i + 2) ++
    ring.byte model position (4 * i + 1) ++ ring.byte model position (4 * i)

/-! ## 2. record_ring_duration -/

/-- `sizeof(header)`. -/
def headerSize : BitVec 32 := 28

/-- The locals of the loop, and where it read headers. -/
structure Walk where
  remaining : BitVec 32
  position : BitVec 32
  first : BitVec 32
  last : BitVec 32
  count : BitVec 32
  reads : List (BitVec 32)
  deriving DecidableEq, Repr

/-- `position += size`, wrapped. -/
def moved (position size : BitVec 32) : BitVec 32 :=
  if model.capacity ≤ position + size then position + size - model.capacity else position + size

/-- What a turn does with the packet at the position. -/
def Walk.taken (w : Walk) : Walk :=
  let length := ring.header model w.position.toNat 0
  let time := ring.header model w.position.toNat 4
  { remaining := w.remaining - (length + headerSize)
    position := moved model w.position (length + headerSize)
    first := if w.count = 0 then time else w.first
    last := time
    count := w.count + 1
    reads := w.reads ++ [w.position] }

/-- The loop: it ends where no header is left, and breaks at a packet that goes too far. -/
def Walk.loop (w : Walk) : Walk :=
  if w.remaining < headerSize then w
  else if w.remaining - headerSize < ring.header model w.position.toNat 0 then
    { w with reads := w.reads ++ [w.position] }
  else (w.taken model ring).loop
termination_by w.remaining.toNat
decreasing_by
  simp only [Walk.taken, headerSize, BitVec.not_lt] at *
  bv_omega

/-- The locals before the loop. -/
def started : Walk := ⟨ring.count, ring.position, 0, 0, 0, []⟩

/-- The locals behind it. -/
def walked : Walk :=
  if ring.count ≤ model.capacity ∧ ring.position < model.capacity then
    (started ring).loop model ring
  else started ring

/-- `record_ring_duration`. -/
def recordRingDuration : BitVec 32 :=
  let w := walked model ring
  let span := w.last - w.first
  if w.count ≠ 0 ∧ w.remaining = 0 ∧ span ≤ 120000 then span else 0

/-! ## 3. Packets that tile -/

/-- `n` bytes from `p` on are packets with these timestamps. Places count on past the capacity. -/
inductive Tiles : Nat → Nat → List (BitVec 32) → Prop
  | nil (p : Nat) : Tiles p 0 []
  | cons (p n : Nat) (times : List (BitVec 32)) :
      Tiles (p + 28 + (ring.header model p 0).toNat) n times →
      Tiles p (28 + (ring.header model p 0).toNat + n) (ring.header model p 4 :: times)

variable {model : Recorder} {ring : Ring} {w : Walk} {p n : Nat} {times : List (BitVec 32)}

theorem capacity_bounds : 28 ≤ model.capacity.toNat ∧ model.capacity.toNat ≤ 2 ^ 20 := by
  cases model <;> decide

/-- The walk stands at the place `p`, in bounds, and its packets have fit so far. -/
structure At (model : Recorder) (p : Nat) (w : Walk) : Prop where
  position : w.position.toNat = p % model.capacity.toNat
  remaining : w.count.toNat * 28 + w.remaining.toNat ≤ model.capacity.toNat

/-- A header is the same counted on past the capacity. -/
theorem header_mod (p i : Nat) :
    ring.header model (p % model.capacity.toNat) i = ring.header model p i := by
  simp only [Ring.header, Ring.byte, Nat.mod_add_mod]

theorem At.header (h : At model p w) (i : Nat) :
    ring.header model w.position.toNat i = ring.header model p i := by
  rw [h.position, header_mod]

theorem At.position_lt (h : At model p w) : w.position < model.capacity := by
  have hpos := Nat.mod_lt p (show 0 < model.capacity.toNat by have := @capacity_bounds model; omega)
  rw [BitVec.lt_def, h.position]
  exact hpos

/-- The position behind a packet that is not longer than the ring. -/
theorem moved_toNat {position size : BitVec 32} (hp : position < model.capacity)
    (hs : size ≤ model.capacity) :
    (moved model position size).toNat = (position.toNat + size.toNat) % model.capacity.toNat := by
  have hcap := @capacity_bounds model
  rw [BitVec.lt_def] at hp
  rw [BitVec.le_def] at hs
  have hsum : (position + size).toNat = position.toNat + size.toNat := by
    rw [BitVec.toNat_add]
    omega
  unfold moved
  split
  · rename_i hwrap
    rw [BitVec.le_def, hsum] at hwrap
    rw [BitVec.toNat_sub_of_le (by rw [BitVec.le_def]; omega), hsum,
      Nat.mod_eq_sub_mod hwrap, Nat.mod_eq_of_lt (by omega)]
  · rename_i hwrap
    rw [BitVec.le_def, hsum] at hwrap
    rw [hsum, Nat.mod_eq_of_lt (by omega)]

/-- The test of a turn: the packet ends within the bytes that remain. -/
theorem fits_iff (hrem : 28 ≤ w.remaining.toNat) (length : BitVec 32) :
    ¬ w.remaining - headerSize < length ↔ 28 + length.toNat ≤ w.remaining.toNat := by
  have hsub : (w.remaining - headerSize).toNat = w.remaining.toNat - 28 :=
    BitVec.toNat_sub_of_le (by rw [BitVec.le_def]; exact hrem)
  rw [BitVec.lt_def, hsub]
  omega

/-- **A turn** goes behind the packet. -/
theorem At.taken (ring : Ring) (h : At model p w)
    (hfits : 28 + (ring.header model p 0).toNat ≤ w.remaining.toNat) :
    At model (p + 28 + (ring.header model p 0).toNat) (w.taken model ring) ∧
      (w.taken model ring).remaining.toNat =
        w.remaining.toNat - (28 + (ring.header model p 0).toNat) ∧
      (w.taken model ring).count.toNat = w.count.toNat + 1 := by
  have hcap := @capacity_bounds model
  have hbound := h.remaining
  have hsize : (ring.header model p 0 + headerSize).toNat =
      28 + (ring.header model p 0).toNat := by
    rw [BitVec.toNat_add, show headerSize.toNat = 28 from rfl]
    omega
  have hremaining : (w.taken model ring).remaining.toNat =
      w.remaining.toNat - (28 + (ring.header model p 0).toNat) := by
    simp only [Walk.taken, h.header]
    rw [BitVec.toNat_sub_of_le (by rw [BitVec.le_def, hsize]; exact hfits), hsize]
  have hcount : (w.taken model ring).count.toNat = w.count.toNat + 1 := by
    simp only [Walk.taken]
    rw [BitVec.toNat_add, show (1 : BitVec 32).toNat = 1 from rfl]
    omega
  refine ⟨⟨?_, ?_⟩, hremaining, hcount⟩
  · simp only [Walk.taken, h.header]
    rw [moved_toNat h.position_lt (by rw [BitVec.le_def, hsize]; omega), h.position, hsize,
      Nat.mod_add_mod, Nat.add_assoc p]
  · rw [hcount, hremaining]
    omega

/-! ## 4. The walk -/

/-- A turn where the packet fits. -/
theorem loop_taken (h : At model p w)
    (hfits : 28 + (ring.header model p 0).toNat ≤ w.remaining.toNat) :
    w.loop model ring = (w.taken model ring).loop model ring := by
  have hmore : ¬ w.remaining < headerSize := by
    rw [BitVec.lt_def, show headerSize.toNat = 28 from rfl]
    omega
  rw [Walk.loop, if_neg hmore, h.header, if_neg ((fits_iff (by omega) _).mpr hfits)]

/-- **Packets that tile what remains** are walked to the end. -/
theorem walk_runs (ht : Tiles model ring p n times) (h : At model p w)
    (hn : w.remaining.toNat = n) :
    (w.loop model ring).remaining = 0 ∧
      (w.loop model ring).count.toNat = w.count.toNat + times.length ∧
      (w.loop model ring).first = (if w.count = 0 then times.head?.getD w.first else w.first) ∧
      (w.loop model ring).last = times.getLast?.getD w.last := by
  induction ht generalizing w with
  | nil p =>
    have hend : w.loop model ring = w := by
      rw [Walk.loop, if_pos]
      rw [BitVec.lt_def, hn]
      decide
    rw [hend]
    exact ⟨BitVec.eq_of_toNat_eq hn, rfl, by split <;> rfl, rfl⟩
  | cons p n times ht ih =>
    obtain ⟨hnext, hremaining, hcount⟩ := h.taken ring (by omega)
    obtain ⟨hend, hcounted, hfirst, hlast⟩ := ih hnext (by omega)
    have hsome : (w.taken model ring).count ≠ 0 := by
      intro hzero
      rw [hzero] at hcount
      exact absurd hcount (by simp)
    rw [loop_taken h (by omega)]
    refine ⟨hend, ?_, ?_, ?_⟩
    · rw [hcounted, hcount, List.length_cons]
      omega
    · rw [hfirst, if_neg hsome]
      simp only [Walk.taken, h.header]
      rfl
    · rw [hlast, List.getLast?_cons]
      simp only [Walk.taken, h.header]
      rfl

/-- A walk to the end went along packets that tile. -/
theorem tiles_of_loop (h : At model p w) (hend : (w.loop model ring).remaining = 0) :
    ∃ times, Tiles model ring p w.remaining.toNat times := by
  induction w using Walk.loop.induct model ring generalizing p with
  | case1 w hdone =>
    rw [Walk.loop, if_pos hdone] at hend
    rw [hend]
    exact ⟨[], .nil p⟩
  | case2 w hmore hlong =>
    rw [Walk.loop, if_neg hmore, if_pos hlong] at hend
    simp only at hend
    rw [hend] at hmore
    exact absurd (by decide) hmore
  | case3 w hmore hfits ih =>
    have hrem : 28 ≤ w.remaining.toNat := by
      rw [BitVec.lt_def, show headerSize.toNat = 28 from rfl] at hmore
      omega
    rw [h.header] at hfits
    have hfits := (fits_iff hrem _).mp hfits
    obtain ⟨hnext, hremaining, -⟩ := h.taken ring hfits
    rw [loop_taken h hfits] at hend
    obtain ⟨times, ht⟩ := ih hnext hend
    refine ⟨ring.header model p 4 :: times, ?_⟩
    have hsplit : w.remaining.toNat =
        28 + (ring.header model p 0).toNat + (w.taken model ring).remaining.toNat := by omega
    rw [hsplit]
    exact .cons p _ _ ht

/-- Every header is read from a place in the ring. -/
theorem loop_reads (h : At model p w) (hr : ∀ q ∈ w.reads, q < model.capacity) :
    ∀ q ∈ (w.loop model ring).reads, q < model.capacity := by
  have hread : ∀ w : Walk, (∃ p, At model p w) → (∀ q ∈ w.reads, q < model.capacity) →
      ∀ q ∈ w.reads ++ [w.position], q < model.capacity := by
    rintro w ⟨p, h⟩ hr q hq
    rcases List.mem_append.mp hq with hq | hq
    · exact hr q hq
    · rw [List.mem_singleton.mp hq]
      exact h.position_lt
  induction w using Walk.loop.induct model ring generalizing p with
  | case1 w hdone =>
    rw [Walk.loop, if_pos hdone]
    exact hr
  | case2 w hmore hlong =>
    rw [Walk.loop, if_neg hmore, if_pos hlong]
    exact hread w ⟨p, h⟩ hr
  | case3 w hmore hfits ih =>
    have hrem : 28 ≤ w.remaining.toNat := by
      rw [BitVec.lt_def, show headerSize.toNat = 28 from rfl] at hmore
      omega
    rw [h.header] at hfits
    have hfits := (fits_iff hrem _).mp hfits
    rw [loop_taken h hfits]
    exact ih (h.taken ring hfits).1 (hread w ⟨p, h⟩ hr)

/-! ## 5. The duration -/

/-- Position and count within the capacity, packets that tile the bytes counted, and `d` between
    the first and the last timestamp, modulo 2^32. -/
structure Lasts (model : Recorder) (ring : Ring) (d : BitVec 32) : Prop where
  count_le : ring.count ≤ model.capacity
  position_lt : ring.position < model.capacity
  tiles : ∃ first times, Tiles model ring ring.position.toNat ring.count.toNat (first :: times) ∧
    d = (first :: times).getLast (List.cons_ne_nil _ _) - first
  pos : 0 < d
  le : d ≤ 120000

theorem started_at (hc : ring.count ≤ model.capacity) (hp : ring.position < model.capacity) :
    At model ring.position.toNat (started ring) where
  position := (Nat.mod_eq_of_lt hp).symm
  remaining := by
    have hc : ring.count.toNat ≤ model.capacity.toNat := hc
    show 0 * 28 + ring.count.toNat ≤ model.capacity.toNat
    omega

/-- Along packets that tile, the walk holds the first and the last timestamp. -/
theorem walked_tiles (hc : ring.count ≤ model.capacity) (hp : ring.position < model.capacity)
    {first : BitVec 32} (ht : Tiles model ring ring.position.toNat ring.count.toNat (first :: times)) :
    (walked model ring).remaining = 0 ∧ (walked model ring).count ≠ 0 ∧
      (walked model ring).last - (walked model ring).first =
        (first :: times).getLast (List.cons_ne_nil _ _) - first := by
  obtain ⟨hend, hcount, hfirst, hlast⟩ := walk_runs ht (started_at hc hp) rfl
  have hnone : (started ring).count = 0 := rfl
  rw [hnone, if_pos rfl] at hfirst
  rw [walked, if_pos ⟨hc, hp⟩]
  refine ⟨hend, fun hzero => ?_, ?_⟩
  · rw [hzero] at hcount
    exact absurd hcount (by simp [hnone])
  · rw [hfirst, hlast, List.getLast?_eq_getLast_of_ne_nil (List.cons_ne_nil _ _)]
    rfl

/-- A walk that counted packets to the end went along packets that tile, in a ring in bounds. -/
theorem tiles_of_walked (hend : (walked model ring).remaining = 0)
    (hcount : (walked model ring).count ≠ 0) :
    ring.count ≤ model.capacity ∧ ring.position < model.capacity ∧
      ∃ first times, Tiles model ring ring.position.toNat ring.count.toNat (first :: times) := by
  by_cases hin : ring.count ≤ model.capacity ∧ ring.position < model.capacity
  · rw [walked, if_pos hin] at hend hcount
    obtain ⟨times, ht⟩ := tiles_of_loop (started_at hin.1 hin.2) hend
    have hlength := (walk_runs ht (started_at hin.1 hin.2) rfl).2.1
    cases times with
    | nil => exact absurd (BitVec.eq_of_toNat_eq hlength) hcount
    | cons first times => exact ⟨hin.1, hin.2, first, times, ht⟩
  · rw [walked, if_neg hin] at hcount
    exact absurd rfl hcount

/-- **A duration is returned exactly for packets that tile.** Whatever the vendor's structure holds,
    the walk ends (its remaining count falls); a nonzero value comes back exactly where position
    and count are within the capacity, the bytes counted are packets one behind the other, and the
    last timestamp is that much, at most two minutes, ahead of the first. Every header is read from
    a place in the ring. -/
theorem duration_exact (model : Recorder) (ring : Ring) :
    (∀ d, recordRingDuration model ring = d ∧ d ≠ 0 ↔ Lasts model ring d) ∧
      ∀ q ∈ (walked model ring).reads, q < model.capacity := by
  constructor
  · intro d
    constructor
    · rintro ⟨hd, hne⟩
      unfold recordRingDuration at hd
      simp only at hd
      split at hd
      · rename_i hok
        obtain ⟨hcount, hend, hle⟩ := hok
        obtain ⟨hc, hp, first, times, ht⟩ := tiles_of_walked hend hcount
        have hspan := (walked_tiles hc hp ht).2.2
        exact ⟨hc, hp, ⟨first, times, ht, by rw [← hd, hspan]⟩, (BitVec.pos_iff_ne_zero d).mpr hne, hd ▸ hle⟩
      · exact absurd hd.symm hne
    · rintro ⟨hc, hp, ⟨first, times, ht, hd⟩, hpos, hle⟩
      obtain ⟨hend, hcount, hspan⟩ := walked_tiles hc hp ht
      unfold recordRingDuration
      simp only
      rw [hspan, ← hd, if_pos ⟨hcount, hend, hle⟩]
      exact ⟨rfl, fun hzero => absurd hpos (by rw [hzero]; decide)⟩
  · by_cases hin : ring.count ≤ model.capacity ∧ ring.position < model.capacity
    · rw [walked, if_pos hin]
      exact loop_reads (started_at hin.1 hin.2) fun q hq => absurd hq List.not_mem_nil
    · rw [walked, if_neg hin]
      exact fun q hq => absurd hq List.not_mem_nil

end YiHack.Record.Preroll
