/-
  File:      YiHack/Iva/Count.lean
  Subject:   `motion_iva.h`, `motion_iva_y28ga.c`: the counts over the native foreground map, and what
             the detector's registers are left with.

  The map is 640 by 360 bytes, row by row; a pixel is set where its byte is not zero. The mask has
  240 cells of 32 by 30 pixels, so a row of pixels is 20 segments. A segment is counted in one go, by
  vector lanes where the compiler has them, and inside the rectangle either whole or pixel by pixel.

  * `count32Neon_eq` -- the lanes count what the loop counts;
  * `segmentRoi_eq` -- a segment's part of the rectangle;
  * `count_pixelwise` -- the counts are those of the pixels;
  * **`filter_counts`** -- and the registers follow them.

  `MOTION_IVA_REPLAY` is not set. What the filter reads of the shared block while it looks for a new
  mask is an argument, attempt by attempt.
-/
import YiHack.Iva.Control
import Mathlib.Algebra.BigOperators.Group.Finset.Basic
import Mathlib.Algebra.Group.Action.Defs
import Mathlib.Algebra.BigOperators.Intervals
import Mathlib.Algebra.Order.BigOperators.Group.Finset

namespace YiHack.Iva.Count

open General

/-! ## 1. A segment -/

/-- Bytes by their distance from an address. -/
abbrev Memory := Int → UInt8

/-- `p[i]!=0`. -/
def set (p : Memory) (i : Int) : Nat := if p i ≠ 0 then 1 else 0

/-- `motion_iva_count32` without vector lanes. -/
def count32Scalar (p : Memory) : Nat :=
  (List.range 32).foldl (fun count i => count + set p i) 0

/-- A vector of `n` lanes of `w` bits. -/
abbrev Lanes (n w : Nat) := Fin n → BitVec w

def vdupqU8 (b : BitVec 8) : Lanes 16 8 := fun _ => b

def vld1qU8 (p : Memory) : Lanes 16 8 := fun i => (p i.val).toBitVec

def vceqqU8 (a b : Lanes 16 8) : Lanes 16 8 := fun i => if a i = b i then 0xff else 0

def vmvnqU8 (a : Lanes 16 8) : Lanes 16 8 := fun i => ~~~a i

def vshrqNU8 (a : Lanes 16 8) (n : Nat) : Lanes 16 8 := fun i => a i >>> n

def vaddqU8 (a b : Lanes 16 8) : Lanes 16 8 := fun i => a i + b i

/-- Neighbours are added in lanes of twice the width. -/
def vpaddl {n w : Nat} (a : Lanes (2 * n) w) : Lanes n (2 * w) := fun i =>
  (a ⟨2 * i, by omega⟩).setWidth (2 * w) + (a ⟨2 * i + 1, by omega⟩).setWidth (2 * w)

def vgetLowU32 (a : Lanes 4 32) : Lanes 2 32 := fun i => a ⟨i, by omega⟩

def vgetHighU32 (a : Lanes 4 32) : Lanes 2 32 := fun i => a ⟨i + 2, by omega⟩

/-- Neighbours are added, those of `a` in the first lane and those of `b` in the second. -/
def vpaddU32 (a b : Lanes 2 32) : Lanes 2 32 := fun i => if i = 0 then a 0 + a 1 else b 0 + b 1

/-- The lanes of 16 bytes: 1 where a byte is not zero. -/
def ones (p : Memory) : Lanes 16 8 := vshrqNU8 (vmvnqU8 (vceqqU8 (vld1qU8 p) (vdupqU8 0))) 7

/-- `motion_iva_count32` with vector lanes. -/
def count32Neon (p : Memory) : Nat :=
  let a := ones p
  let b := ones fun i => p (16 + i)
  let sums : Lanes 4 32 := vpaddl (n := 4) (w := 16) (vpaddl (n := 8) (w := 8) (vaddqU8 a b))
  let pairs := vpaddU32 (vgetLowU32 sums) (vgetHighU32 sums)
  (vpaddU32 pairs pairs 0).toNat

/-- `motion_iva_count32`; `neon` is `__ARM_NEON`. -/
def motionIvaCount32 (neon : Bool) (p : Memory) : Nat :=
  if neon then count32Neon p else count32Scalar p

/-- `rect`: left, top, right, bottom. -/
structure Rect where
  left : BitVec 16
  top : BitVec 16
  right : BitVec 16
  bottom : BitVec 16
  deriving DecidableEq, Repr

/-- `roi` of the segment of `count` set pixels from column `left` of row `y` on. -/
def segmentRoi (map : Memory) (rect : Rect) (y left : Int) (count : Nat) : Nat :=
  let right := left + 31
  if count ≠ 0 ∧ y ≥ rect.top.toInt ∧ y ≤ rect.bottom.toInt then
    if left ≥ rect.left.toInt ∧ right ≤ rect.right.toInt then count
    else if right ≥ rect.left.toInt ∧ left ≤ rect.right.toInt then
      let begin := if left > rect.left.toInt then left else rect.left.toInt
      let end_ := if right < rect.right.toInt then right else rect.right.toInt
      (List.range (end_ - begin + 1).toNat).foldl
        (fun roi (j : Nat) => roi + set map (y * 640 + (begin + (j : Int)))) 0
    else 0
  else 0

/-! ## 2. The counts -/

/-- `struct motion_iva_sample`. -/
structure Sample where
  monotonicMs : Int
  frame : BitVec 32
  rawCount : Nat
  includedCount : Nat
  roiCount : Nat
  appliedGeneration : BitVec 32
  error : Nat
  cells : Nat → Nat

/-- `settings->cells[cell]`. -/
def cellOf (settings : Block) (cell : Nat) : UInt8 :=
  if h : 4 + cell < 244 then settings ⟨4 + cell, h⟩ else 0

/-- `!settings->enabled || settings->cells[cell]=='0'`. -/
def included (settings : Block) (cell : Nat) : Bool :=
  settings.enabled == 0 || cellOf settings cell == 48

variable (neon : Bool) (map : Memory) (rect : Rect) (settings : Block)

/-- The set pixels of a segment. -/
def segmentCount (y column : Nat) : Nat :=
  motionIvaCount32 neon fun i => map (y * 640 + column * 32 + i)

/-- The body of the loops. -/
def addSegment (y : Nat) (sample : Sample) (column : Nat) : Sample :=
  let left := column * 32
  let count := segmentCount neon map y column
  let roi := segmentRoi map rect y left count
  let cell := y / 30 * 20 + column
  let sample :=
    { sample with
      cells := Function.update sample.cells cell (sample.cells cell + count)
      rawCount := sample.rawCount + count }
  if included settings cell then
    { sample with
      includedCount := sample.includedCount + count
      roiCount := sample.roiCount + roi }
  else sample

/-- What is cleared before the loops. -/
def Sample.cleared (sample : Sample) : Sample :=
  { sample with
    rawCount := 0
    includedCount := 0
    roiCount := 0
    cells := fun cell => if cell < MOTION_IVA_CELLS then 0 else sample.cells cell }

/-- `motion_iva_count`. -/
def motionIvaCount (sample : Sample) : Sample :=
  (List.range 360).foldl
    (fun sample y => (List.range 20).foldl (addSegment neon map rect settings y) sample)
    sample.cleared

/-! ## 3. Lanes -/

variable {neon : Bool} {map : Memory} {rect : Rect} {settings : Block}

theorem set_le (p : Memory) (i : Int) : set p i ≤ 1 := by
  unfold set
  split <;> omega

/-- A loop that adds up. -/
theorem foldl_adds {σ : Type} (π : σ → Nat) {f : σ → Nat → σ} {d : Nat → Nat}
    (h : ∀ s i, π (f s i) = π s + d i) (n : Nat) (s : σ) :
    π ((List.range n).foldl f s) = π s + ∑ i ∈ Finset.range n, d i := by
  induction n with
  | zero => rfl
  | succ n ih =>
    rw [List.range_succ, List.foldl_append, List.foldl_cons, List.foldl_nil, h, ih,
      Finset.sum_range_succ, Nat.add_assoc]

theorem count32Scalar_eq (p : Memory) : count32Scalar p = ∑ i ∈ Finset.range 32, set p i := by
  have h := foldl_adds (fun count : Nat => count) (f := fun count i => count + set p i)
    (d := fun i => set p i) (fun _ _ => rfl) 32 0
  rw [Nat.zero_add] at h
  exact h

theorem ones_toNat (p : Memory) (i : Fin 16) : (ones p i).toNat = set p i := by
  have hzero : (p i.val).toBitVec = 0 ↔ p i.val = 0 :=
    ⟨fun h => UInt8.toBitVec_inj.mp h, fun h => by rw [h]; rfl⟩
  simp only [ones, vshrqNU8, vmvnqU8, vceqqU8, vld1qU8, vdupqU8, set, hzero]
  by_cases h : p i.val = 0
  · rw [if_pos h, if_neg (not_not_intro h)]
    rfl
  · rw [if_neg h, if_pos h]
    rfl

/-- The first addition does not overflow. -/
theorem vaddqU8_toNat (p : Memory) (i : Fin 16) :
    (vaddqU8 (ones p) (ones fun i => p (16 + i)) i).toNat = set p i + set p (16 + i) := by
  have ha := set_le p i
  have hb := set_le p (16 + i)
  have hshift : set (fun i => p (16 + i)) i = set p (16 + i) := rfl
  simp only [vaddqU8]
  rw [BitVec.toNat_add, ones_toNat, ones_toNat, hshift]
  omega

/-- Neighbours add up without overflow: the lanes they go to are twice as wide. -/
theorem vpaddl_toNat {n w : Nat} (hw : 0 < w) (a : Lanes (2 * n) w) (i : Fin n) :
    (vpaddl a i).toNat = (a ⟨2 * i, by omega⟩).toNat + (a ⟨2 * i + 1, by omega⟩).toNat := by
  have hfst := (a ⟨2 * i, by omega⟩).isLt
  have hsnd := (a ⟨2 * i + 1, by omega⟩).isLt
  have htwo : 2 ≤ 2 ^ w := Nat.le_self_pow (Nat.ne_of_gt hw) 2
  have hpow : 2 ^ w + 2 ^ w ≤ 2 ^ (2 * w) := by
    rw [Nat.two_mul w, Nat.pow_add, ← Nat.two_mul]
    exact Nat.mul_le_mul_right _ htwo
  have hwide : ∀ x : BitVec w, (x.setWidth (2 * w)).toNat = x.toNat := by
    intro x
    have hx := x.isLt
    rw [BitVec.toNat_setWidth, Nat.mod_eq_of_lt (by omega)]
  simp only [vpaddl]
  rw [BitVec.toNat_add, hwide, hwide, Nat.mod_eq_of_lt (by omega)]

/-- Two bytes 16 apart, as the first addition puts them together. -/
def pair (g : Nat → Nat) (i : Nat) : Nat := g i + g (16 + i)

/-- What lane `i` of the sums holds. -/
def quad (g : Nat → Nat) (i : Nat) : Nat :=
  pair g (2 * (2 * i)) + pair g (2 * (2 * i) + 1) +
    (pair g (2 * (2 * i + 1)) + pair g (2 * (2 * i + 1) + 1))

theorem quad_le {g : Nat → Nat} (h : ∀ i, g i ≤ 1) (i : Nat) : quad g i ≤ 8 := by
  have hpair : ∀ i, pair g i ≤ 2 := fun i => Nat.add_le_add (h _) (h _)
  exact Nat.add_le_add (Nat.add_le_add (hpair _) (hpair _)) (Nat.add_le_add (hpair _) (hpair _))

theorem quad_sum (g : Nat → Nat) :
    quad g 0 + quad g 1 + (quad g 2 + quad g 3) = ∑ i ∈ Finset.range 32, g i := by
  simp only [quad, pair, Finset.sum_range_succ, Finset.sum_range_zero, Nat.reduceMul, Nat.reduceAdd]
  omega

theorem sums_toNat (p : Memory) (i : Fin 4) :
    (vpaddl (n := 4) (w := 16) (vpaddl (n := 8) (w := 8)
      (vaddqU8 (ones p) (ones fun i => p (16 + i)))) i).toNat = quad (fun i => set p i) i := by
  rw [vpaddl_toNat (by decide), vpaddl_toNat (by decide), vpaddl_toNat (by decide),
    vaddqU8_toNat, vaddqU8_toNat, vaddqU8_toNat, vaddqU8_toNat]
  rfl

/-- **The lanes count what the loop counts**, for any 32 bytes. -/
theorem count32Neon_eq (p : Memory) : count32Neon p = count32Scalar p := by
  have hle := quad_le (fun i => set_le p i)
  let sums : Lanes 4 32 := vpaddl (n := 4) (w := 16) (vpaddl (n := 8) (w := 8)
    (vaddqU8 (ones p) (ones fun i => p (16 + i))))
  have hlanes : count32Neon p = (sums 0 + sums 1 + (sums 2 + sums 3)).toNat := rfl
  have h0 : (sums 0).toNat = quad (fun i => set p i) 0 := sums_toNat p 0
  have h1 : (sums 1).toNat = quad (fun i => set p i) 1 := sums_toNat p 1
  have h2 : (sums 2).toNat = quad (fun i => set p i) 2 := sums_toNat p 2
  have h3 : (sums 3).toNat = quad (fun i => set p i) 3 := sums_toNat p 3
  have b0 := hle 0
  have b1 := hle 1
  have b2 := hle 2
  have b3 := hle 3
  rw [hlanes, count32Scalar_eq, ← quad_sum, BitVec.toNat_add, BitVec.toNat_add, BitVec.toNat_add,
    h0, h1, h2, h3]
  omega

theorem motionIvaCount32_eq (p : Memory) :
    motionIvaCount32 neon p = ∑ i ∈ Finset.range 32, set p i := by
  rw [motionIvaCount32, count32Neon_eq, ite_self, count32Scalar_eq]

/-! ## 4. Segments and pixels -/

/-- The inclusive rectangle. -/
def Rect.Has (rect : Rect) (x y : Int) : Prop :=
  rect.left.toInt ≤ x ∧ x ≤ rect.right.toInt ∧ rect.top.toInt ≤ y ∧ y ≤ rect.bottom.toInt

instance (rect : Rect) (x y : Int) : Decidable (rect.Has x y) := inferInstanceAs (Decidable (_ ∧ _))

/-- The pixel at column `x` of row `y`. -/
def pixel (map : Memory) (y x : Int) : Nat := set map (y * 640 + x)

/-- A sum over a part of a range. -/
theorem sum_part (g : Nat → Nat) {a b n : Nat} (hb : b ≤ n) :
    ∑ i ∈ Finset.range n, (if a ≤ i ∧ i < b then g i else 0) =
      ∑ j ∈ Finset.range (b - a), g (a + j) := by
  have hpart : (Finset.range n).filter (fun i => a ≤ i ∧ i < b) = Finset.Ico a b := by
    ext i
    simp only [Finset.mem_filter, Finset.mem_range, Finset.mem_Ico]
    omega
  rw [← Finset.sum_filter, hpart, Finset.sum_Ico_eq_sum_range]

theorem set_shift (p : Memory) (b i : Int) : set (fun j => p (b + j)) i = set p (b + i) := by
  unfold set
  rfl

theorem segmentCount_eq (y column : Nat) :
    segmentCount neon map y column =
      ∑ i ∈ Finset.range 32, pixel map y (column * 32 + i : Nat) := by
  rw [segmentCount, motionIvaCount32_eq]
  refine Finset.sum_congr rfl fun i _ => ?_
  rw [set_shift, pixel]
  push_cast
  rw [Int.add_assoc]

/-- **A segment's part of the rectangle**, wherever its edges are, is that of its pixels. -/
theorem segmentRoi_eq {y left : Int} {count : Nat}
    (hcount : count = ∑ i ∈ Finset.range 32, pixel map y (left + (i : Int))) :
    segmentRoi map rect y left count =
      ∑ i ∈ Finset.range 32,
        (if rect.Has (left + (i : Int)) y then pixel map y (left + (i : Int)) else 0) := by
  unfold segmentRoi
  simp only
  split
  · rename_i hrow
    obtain ⟨-, htop, hbottom⟩ := hrow
    split
    · -- whole
      rename_i hwhole
      rw [hcount]
      refine Finset.sum_congr rfl fun i hi => ?_
      have hi := Finset.mem_range.mp hi
      rw [if_pos ⟨by omega, by omega, htop, hbottom⟩]
    · split
      · -- an edge is inside: from `begin` to `end_`
        rename_i hedge
        generalize hbegin : (if left > rect.left.toInt then left else rect.left.toInt) = begin
        generalize hend : (if left + 31 < rect.right.toInt then left + 31 else rect.right.toInt) = end_
        have hb : begin = max left rect.left.toInt := by omega
        have he : end_ = min (left + 31) rect.right.toInt := by omega
        have hpart : ∀ i ∈ Finset.range 32,
            (if rect.Has (left + (i : Int)) y then pixel map y (left + (i : Int)) else 0) =
              if (begin - left).toNat ≤ i ∧ i < (end_ - left + 1).toNat then
                pixel map y (left + (i : Int)) else 0 := by
          intro i hi
          have hi := Finset.mem_range.mp hi
          have hiff : rect.Has (left + (i : Int)) y ↔
              (begin - left).toNat ≤ i ∧ i < (end_ - left + 1).toNat := by
            unfold Rect.Has
            omega
          simp only [hiff]
        rw [Finset.sum_congr rfl hpart, sum_part (fun i => pixel map y (left + (i : Int))) (by omega)]
        have hlength : (end_ - begin + 1).toNat = (end_ - left + 1).toNat - (begin - left).toNat := by
          omega
        have hloop := foldl_adds (fun roi : Nat => roi)
          (f := fun roi j => roi + set map (y * 640 + (begin + (j : Int))))
          (d := fun j => set map (y * 640 + (begin + (j : Int)))) (fun _ _ => rfl)
          (end_ - begin + 1).toNat 0
        rw [Nat.zero_add] at hloop
        rw [hloop, hlength]
        refine Finset.sum_congr rfl fun j _ => ?_
        simp only [pixel]
        congr 2
        omega
      · -- beside the rectangle
        rename_i hbeside
        refine (Finset.sum_eq_zero fun i hi => ?_).symm
        have hi := Finset.mem_range.mp hi
        rw [if_neg]
        unfold Rect.Has
        omega
  · rename_i hrow
    refine (Finset.sum_eq_zero fun i hi => ?_).symm
    by_cases hzero : count = 0
    · -- no pixel of the segment is set
      rw [hcount] at hzero
      rw [Finset.sum_eq_zero_iff.mp hzero i hi, ite_self]
    · rw [if_neg]
      unfold Rect.Has
      omega

/-! ## 5. The picture -/

/-- How many set pixels of the picture, as column and row, are such that `P`. -/
def countPixels (map : Memory) (P : Nat × Nat → Prop) [DecidablePred P] : Nat :=
  ∑ y ∈ Finset.range 360, ∑ x ∈ Finset.range 640,
    if map (y * 640 + x) ≠ 0 ∧ P (x, y) then 1 else 0

/-- The cell a pixel is in. -/
def cellAt (p : Nat × Nat) : Nat := p.2 / 30 * 20 + p.1 / 32

/-- A sum over segments is one over columns. -/
theorem sum_segments (g : Nat → Nat) (n : Nat) :
    ∑ column ∈ Finset.range n, ∑ i ∈ Finset.range 32, g (column * 32 + i) =
      ∑ x ∈ Finset.range (n * 32), g x := by
  induction n with
  | zero => rw [Nat.zero_mul, Finset.sum_range_zero, Finset.sum_range_zero]
  | succ n ih =>
    have hmul : (n + 1) * 32 = n * 32 + 32 := by omega
    rw [Finset.sum_range_succ, ih, hmul, Finset.sum_range_add]

/-- **Adding up segments counts pixels.** -/
theorem sum_pixels (P : Nat × Nat → Prop) [DecidablePred P] :
    ∑ y ∈ Finset.range 360, ∑ column ∈ Finset.range 20, ∑ i ∈ Finset.range 32,
        (if P (column * 32 + i, y) then pixel map y (column * 32 + i : Nat) else 0) =
      countPixels map P := by
  refine Finset.sum_congr rfl fun y _ => ?_
  rw [sum_segments (fun x => if P (x, y) then pixel map y x else 0) 20]
  refine Finset.sum_congr rfl fun x _ => ?_
  simp only [pixel, set]
  by_cases hP : P (x, y)
  · simp only [hP, if_true, and_true]
  · simp only [hP, if_false, and_false]

/-- What a quantity is behind the loops that every turn adds something to. -/
theorem count_total (π : Sample → Nat) {d : Nat → Nat → Nat}
    (h : ∀ y sample column, π (addSegment neon map rect settings y sample column) = π sample + d y column)
    {sample : Sample} (h0 : π sample.cleared = 0) :
    π (motionIvaCount neon map rect settings sample) =
      ∑ y ∈ Finset.range 360, ∑ column ∈ Finset.range 20, d y column := by
  have hrow : ∀ sample y, π ((List.range 20).foldl (addSegment neon map rect settings y) sample) =
      π sample + ∑ column ∈ Finset.range 20, d y column :=
    fun sample y => foldl_adds π (h y) 20 sample
  rw [motionIvaCount, foldl_adds π hrow, h0, Nat.zero_add]

/-- The counts of a picture are those of its pixels. -/
structure Pixelwise (map : Memory) (rect : Rect) (settings : Block) (sample : Sample) : Prop where
  rawCount : sample.rawCount = countPixels map fun _ => True
  cells : ∀ cell, cell < MOTION_IVA_CELLS →
    sample.cells cell = countPixels map fun p => cellAt p = cell
  includedCount : sample.includedCount =
    countPixels map fun p => included settings (cellAt p) = true
  roiCount : sample.roiCount =
    countPixels map fun p => included settings (cellAt p) = true ∧ rect.Has p.1 p.2

/-- A row's segment `column` is the pixels of one cell. -/
theorem cellAt_segment {y column i : Nat} (hi : i < 32) :
    cellAt (column * 32 + i, y) = y / 30 * 20 + column := by
  unfold cellAt
  omega

/-- A segment adds the pixels for which `P` holds, if `d` says so segment by segment. -/
theorem total_pixels {P : Nat × Nat → Prop} [DecidablePred P] {d : Nat → Nat → Nat}
    (h : ∀ y column, d y column = ∑ i ∈ Finset.range 32,
      (if P (column * 32 + i, y) then pixel map y (column * 32 + i : Nat) else 0)) :
    ∑ y ∈ Finset.range 360, ∑ column ∈ Finset.range 20, d y column =
      countPixels map P := by
  rw [← sum_pixels P]
  exact Finset.sum_congr rfl fun y _ => Finset.sum_congr rfl fun column _ => h y column

/-- A segment that counts as a whole, pixel by pixel. -/
theorem sum_gated {c : Prop} [Decidable c] {P : Nat → Prop} [DecidablePred P] {g : Nat → Nat}
    (h : ∀ i, i < 32 → (P i ↔ c)) :
    (if c then ∑ i ∈ Finset.range 32, g i else 0) =
      ∑ i ∈ Finset.range 32, (if P i then g i else 0) := by
  by_cases hc : c
  · rw [if_pos hc]
    exact Finset.sum_congr rfl fun i hi => (if_pos ((h i (Finset.mem_range.mp hi)).mpr hc)).symm
  · rw [if_neg hc]
    exact (Finset.sum_eq_zero fun i hi =>
      if_neg fun hP => hc ((h i (Finset.mem_range.mp hi)).mp hP)).symm

/-- **The counts are those of the pixels**, for every map, rectangle and mask, with or without
    vector lanes. -/
theorem count_pixelwise (neon : Bool) (map : Memory) (rect : Rect) (settings : Block)
    (sample : Sample) : Pixelwise map rect settings (motionIvaCount neon map rect settings sample) where
  rawCount := by
    rw [count_total (·.rawCount) (d := fun y column => segmentCount neon map y column) ?_ rfl]
    · refine total_pixels fun y column => ?_
      simp only [if_true]
      exact segmentCount_eq y column
    · intro y sample column
      simp only [addSegment]
      split <;> rfl
  cells := by
    intro cell hcell
    rw [count_total (fun sample => sample.cells cell)
      (d := fun y column => if y / 30 * 20 + column = cell then segmentCount neon map y column else 0)
      ?_ (if_pos hcell)]
    · refine total_pixels fun y column => ?_
      rw [segmentCount_eq]
      exact sum_gated fun i hi => by rw [cellAt_segment hi]
    · intro y sample column
      simp only [addSegment]
      have hupdate : Function.update sample.cells (y / 30 * 20 + column)
          (sample.cells (y / 30 * 20 + column) + segmentCount neon map y column) cell =
          sample.cells cell +
            if y / 30 * 20 + column = cell then segmentCount neon map y column else 0 := by
        by_cases hc : y / 30 * 20 + column = cell
        · subst hc
          rw [Function.update_self, if_pos rfl]
        · rw [Function.update_of_ne (Ne.symm hc), if_neg hc, Nat.add_zero]
      split <;> exact hupdate
  includedCount := by
    rw [count_total (·.includedCount) (d := fun y column =>
      if included settings (y / 30 * 20 + column) then segmentCount neon map y column else 0) ?_ rfl]
    · refine total_pixels fun y column => ?_
      rw [segmentCount_eq]
      exact sum_gated fun i hi => by rw [cellAt_segment hi]
    · intro y sample column
      simp only [addSegment]
      split
      · rfl
      · rfl
  roiCount := by
    rw [count_total (·.roiCount) (d := fun y column =>
      if included settings (y / 30 * 20 + column) then
        segmentRoi map rect y (column * 32 : Nat) (segmentCount neon map y column) else 0) ?_ rfl]
    · refine total_pixels fun y column => ?_
      have hcount : segmentCount neon map y column =
          ∑ i ∈ Finset.range 32, pixel map y ((column * 32 : Nat) + (i : Int)) := by
        rw [segmentCount_eq]
        push_cast
        rfl
      have hgate := fun i (hi : i < 32) => show
        included settings (cellAt (column * 32 + i, y)) = true ↔
          included settings (y / 30 * 20 + column) = true by rw [cellAt_segment hi]
      rw [segmentRoi_eq hcount, sum_gated hgate]
      refine Finset.sum_congr rfl fun i _ => ?_
      have hx : ((column * 32 : Nat) : Int) + (i : Int) = ((column * 32 + i : Nat) : Int) := by
        push_cast
        rfl
      rw [hx, ite_and]
    · intro y sample column
      simp only [addSegment]
      split
      · push_cast
        rfl
      · rfl

/-- Fewer pixels are such that more holds. -/
theorem countPixels_mono {P Q : Nat × Nat → Prop} [DecidablePred P] [DecidablePred Q]
    (h : ∀ p, P p → Q p) : countPixels map P ≤ countPixels map Q := by
  refine Finset.sum_le_sum fun y _ => Finset.sum_le_sum fun x _ => ?_
  split
  · rename_i hP
    rw [if_pos ⟨hP.1, h _ hP.2⟩]
  · exact Nat.zero_le _

theorem countPixels_le (P : Nat × Nat → Prop) [DecidablePred P] :
    countPixels map P ≤ 360 * 640 := by
  have hrow : ∀ y ∈ Finset.range 360,
      (∑ x ∈ Finset.range 640, if map (y * 640 + x) ≠ 0 ∧ P (x, y) then 1 else 0) ≤ 640 := by
    intro y _
    have hle := Finset.sum_le_card_nsmul (Finset.range 640)
      (fun x => if map (y * 640 + x) ≠ 0 ∧ P (x, y) then 1 else 0) 1
      (fun x _ => by split <;> omega)
    rwa [Finset.card_range, smul_eq_mul, Nat.mul_one] at hle
  have hle := Finset.sum_le_card_nsmul (Finset.range 360) _ 640 hrow
  rwa [Finset.card_range, smul_eq_mul] at hle

theorem cellAt_lt {x y : Nat} (hx : x < 640) (hy : y < 360) : cellAt (x, y) < MOTION_IVA_CELLS := by
  unfold cellAt MOTION_IVA_CELLS
  omega

/-- Every pixel is in one cell. -/
theorem countPixels_cells (P : Nat × Nat → Prop) [DecidablePred P] :
    ∑ cell ∈ Finset.range MOTION_IVA_CELLS, countPixels map (fun p => P p ∧ cellAt p = cell) =
      countPixels map P := by
  unfold countPixels
  rw [Finset.sum_comm]
  refine Finset.sum_congr rfl fun y hy => ?_
  rw [Finset.sum_comm]
  refine Finset.sum_congr rfl fun x hx => ?_
  have hcell := cellAt_lt (Finset.mem_range.mp hx) (Finset.mem_range.mp hy)
  by_cases hset : map (y * 640 + x) ≠ 0 ∧ P (x, y)
  · simp only [hset, true_and, if_true, ne_eq, not_false_eq_true]
    rw [Finset.sum_ite_eq, if_pos (Finset.mem_range.mpr hcell)]
  · rw [if_neg hset]
    exact Finset.sum_eq_zero fun cell _ => if_neg fun h => hset ⟨h.1, h.2.1⟩

/-- What the counts of pixels say about each other. -/
theorem Pixelwise.ordered {sample : Sample} (h : Pixelwise map rect settings sample) :
    sample.roiCount ≤ sample.includedCount ∧ sample.includedCount ≤ sample.rawCount ∧
      ∑ cell ∈ Finset.range MOTION_IVA_CELLS, sample.cells cell = sample.rawCount := by
  refine ⟨?_, ?_, ?_⟩
  · rw [h.roiCount, h.includedCount]
    exact countPixels_mono fun p hp => hp.1
  · rw [h.includedCount, h.rawCount]
    exact countPixels_mono fun p _ => trivial
  · rw [h.rawCount, Finset.sum_congr rfl fun cell hc => h.cells cell (Finset.mem_range.mp hc)]
    have hcells : _ = countPixels map fun _ => True := countPixels_cells fun _ => True
    simp only [true_and] at hcells
    exact hcells

theorem Pixelwise.raw_le {sample : Sample} (h : Pixelwise map rect settings sample) :
    sample.rawCount ≤ 360 * 640 := by
  rw [h.rawCount]
  exact countPixels_le _

/-! ## 6. The filter -/

/-- What one attempt to take over a mask reads of the shared block. -/
structure Attempt where
  first : Word
  candidate : Block
  again : Word

/-- The detector's own variables. -/
structure Detector where
  active : Block
  activeGeneration : Word
  frame : Word
  startupError : Nat

/-- What the filter reads outside the detector: the two attempts, the clock, `reader_ms` and the
    memory the context points into. -/
structure Surroundings where
  attempts : Attempt × Attempt
  now : Int
  readerMs : Word
  memory : Word → Memory

/-- The words of the context or the registers, by index. -/
abbrev Words := Nat → Word

/-- The two audited motion counters are cleared where the mask changes. -/
def clearCounters (active candidate : Block) (ctx : Words) : Words :=
  if ctx 0 = 640 ∧ ctx 1 = 360 ∧ (active.enabled ≠ 0 ∨ candidate.enabled ≠ 0) then
    Function.update (Function.update ctx (144 / 4) 0) (140 / 4) 0
  else ctx

/-- The loop that takes over a new mask. -/
def takeOver (ctx : Option Words) (d : Detector) : List Attempt → Option Words × Detector
  | [] => (ctx, d)
  | a :: attempts =>
    if a.first = 0 ∨ odd a.first ∨ a.first = d.activeGeneration then (ctx, d)
    else if a.first ≠ a.again then takeOver ctx d attempts
    else if a.candidate.valid then
      (ctx.map (clearCounters d.active a.candidate),
        { d with active := a.candidate, activeGeneration := a.first })
    else (ctx, d)

/-- The layout the filter was audited for. -/
def Laid (ctx : Words) : Prop :=
  ctx 0 = 640 ∧ ctx 1 = 360 ∧ ctx 20 = 640 ∧ ctx 21 = 360 ∧ ctx 22 = 640 ∧ ctx 19 ≠ 0

instance (ctx : Words) : Decidable (Laid ctx) := inferInstanceAs (Decidable (_ ∧ _))

/-- What the filter leaves behind; no sample where it does not publish one. -/
structure Left where
  ctx : Option Words
  detector : Detector
  registers : Words
  sample : Option Sample

/-- The sample before anything is counted. -/
def begun (x : Surroundings) (d : Detector) : Sample :=
  ⟨x.now, d.frame, 0, 0, 0, d.activeGeneration, 0, fun _ => 0⟩

/-- `motion_iva_filter`. -/
def motionIvaFilter (neon : Bool) (x : Surroundings) (d : Detector) (ctx : Option Words)
    (rect : Option Rect) (registers : Words) : Left :=
  let (ctx, d) := takeOver ctx d [x.attempts.1, x.attempts.2]
  if d.active.enabled = 0 ∧ BitVec.ofInt 32 x.now - x.readerMs > 2500 then ⟨ctx, d, registers, none⟩
  else
    let d := { d with frame := d.frame + 1 }
    if d.startupError ≠ 0 then
      ⟨ctx, d, registers, some { begun x d with error := d.startupError }⟩
    else
      match ctx, rect with
      | some c, some rect =>
        if Laid c then
          let sample := motionIvaCount neon (x.memory (c 19)) rect d.active (begun x d)
          if BitVec.ofNat 32 sample.rawCount ≠ registers 4 + registers 11 then
            ⟨ctx, d, registers, some { sample with error := 3 }⟩
          else if d.active.enabled ≠ 0 then
            ⟨ctx, d, Function.update (Function.update registers 4
              (BitVec.ofNat 32 sample.includedCount - BitVec.ofNat 32 sample.roiCount)) 11
              (BitVec.ofNat 32 sample.roiCount), some sample⟩
          else ⟨ctx, d, registers, some sample⟩
        else ⟨ctx, d, registers, some { begun x d with error := 2 }⟩
      | _, _ => ⟨ctx, d, registers, some { begun x d with error := 2 }⟩

variable {x : Surroundings} {d : Detector} {ctx : Words} {registers : Words}

/-- The layout is not touched by clearing the counters. -/
theorem clearCounters_same (active candidate : Block) (i : Nat) (hi : i < 35) :
    clearCounters active candidate ctx i = ctx i := by
  unfold clearCounters
  split
  · rw [Function.update_of_ne (by omega), Function.update_of_ne (by omega)]
  · rfl

/-- What the loop leaves of the context and of the detector. -/
theorem takeOver_spec (d : Detector) (ctx : Words) (attempts : List Attempt) :
    (takeOver (some ctx) d attempts).2.startupError = d.startupError ∧
      ∃ c, (takeOver (some ctx) d attempts).1 = some c ∧ ∀ i, i < 35 → c i = ctx i := by
  induction attempts with
  | nil => exact ⟨rfl, ctx, rfl, fun _ _ => rfl⟩
  | cons a attempts ih =>
    unfold takeOver
    split
    · exact ⟨rfl, ctx, rfl, fun _ _ => rfl⟩
    · split
      · exact ih
      · split
        · exact ⟨rfl, _, rfl, clearCounters_same _ _⟩
        · exact ⟨rfl, ctx, rfl, fun _ _ => rfl⟩

/-- The detector once it has looked for a new mask, at the next frame. -/
def atFrame (x : Surroundings) (d : Detector) (ctx : Words) : Detector :=
  let d := (takeOver (some ctx) d [x.attempts.1, x.attempts.2]).2
  { d with frame := d.frame + 1 }

/-- What is counted of a context of the audited layout. -/
def counted (neon : Bool) (x : Surroundings) (d : Detector) (ctx : Words) (rect : Rect) : Sample :=
  motionIvaCount neon (x.memory (ctx 19)) rect (atFrame x d ctx).active (begun x (atFrame x d ctx))

/-- The registers the counts are written to. -/
def written (sample : Sample) (registers : Words) : Words :=
  Function.update (Function.update registers 4
    (BitVec.ofNat 32 sample.includedCount - BitVec.ofNat 32 sample.roiCount)) 11
    (BitVec.ofNat 32 sample.roiCount)

/-- A filter with a mask, in the audited layout, whose count agrees with the registers. -/
theorem motionIvaFilter_counted (hstartup : d.startupError = 0) (hlaid : Laid ctx)
    (henabled : (atFrame x d ctx).active.enabled ≠ 0)
    (hraw : BitVec.ofNat 32 (counted neon x d ctx rect).rawCount = registers 4 + registers 11) :
    (motionIvaFilter neon x d (some ctx) (some rect) registers).registers =
        written (counted neon x d ctx rect) registers ∧
      (motionIvaFilter neon x d (some ctx) (some rect) registers).sample =
        some (counted neon x d ctx rect) := by
  obtain ⟨hstart, c, hc, hsame⟩ := takeOver_spec d ctx [x.attempts.1, x.attempts.2]
  rw [hstartup] at hstart
  have hlaid' : Laid c := by
    unfold Laid at hlaid ⊢
    rwa [hsame 0 (by omega), hsame 1 (by omega), hsame 20 (by omega), hsame 21 (by omega),
      hsame 22 (by omega), hsame 19 (by omega)]
  unfold counted at hraw ⊢
  rw [← hsame 19 (by omega)] at hraw ⊢
  unfold atFrame at henabled hraw ⊢
  unfold motionIvaFilter
  generalize takeOver (some ctx) d [x.attempts.1, x.attempts.2] = taken at *
  obtain ⟨ctx', d'⟩ := taken
  simp only at hc hstart henabled hraw ⊢
  subst hc
  rw [if_neg fun h => henabled h.1, if_neg (not_not_intro hstart)]
  simp only
  rw [if_pos hlaid', if_neg (not_not_intro hraw), if_pos henabled]
  exact ⟨rfl, rfl⟩

/-- The registers hold the counts, as numbers. -/
theorem written_spec {sample : Sample} (h : Pixelwise map rect settings sample) :
    (written sample registers 11).toNat = sample.roiCount ∧
      (written sample registers 4).toNat + (written sample registers 11).toNat =
        sample.includedCount := by
  obtain ⟨hroi, hincluded, -⟩ := h.ordered
  have hraw := h.raw_le
  have hfits : ∀ n, n ≤ 360 * 640 → (BitVec.ofNat 32 n).toNat = n := by
    intro n hn
    rw [BitVec.toNat_ofNat, Nat.mod_eq_of_lt (by omega)]
  have h11 : written sample registers 11 = BitVec.ofNat 32 sample.roiCount :=
    Function.update_self _ _ _
  have h4 : written sample registers 4 =
      BitVec.ofNat 32 sample.includedCount - BitVec.ofNat 32 sample.roiCount := by
    rw [written, Function.update_of_ne (by decide), Function.update_self]
  have hle : BitVec.ofNat 32 sample.roiCount ≤ BitVec.ofNat 32 sample.includedCount := by
    rw [BitVec.le_def, hfits _ (by omega), hfits _ (by omega)]
    exact hroi
  rw [h11, h4, BitVec.toNat_sub_of_le hle, hfits _ (by omega), hfits _ (by omega)]
  exact ⟨rfl, Nat.sub_add_cancel hroi⟩

/-- **The counts and the registers.** Whatever the map, the rectangle and the mask: the counts are
    those of the pixels, so each is at most the next and the cells add up to the picture, and the
    vector lanes count like the loop. Where the filter has a mask, finds the audited layout and
    counts as many pixels as the registers hold, it leaves the pixels counted inside the rectangle
    in one and the other included ones in the other. -/
theorem filter_counts :
    (∀ (neon : Bool) (map : Memory) (rect : Rect) (settings : Block) (sample : Sample),
      let counts := motionIvaCount neon map rect settings sample
      Pixelwise map rect settings counts ∧ counts.roiCount ≤ counts.includedCount ∧
        counts.includedCount ≤ counts.rawCount ∧
        ∑ cell ∈ Finset.range MOTION_IVA_CELLS, counts.cells cell = counts.rawCount) ∧
    (∀ p : Memory, count32Neon p = count32Scalar p) ∧
    ∀ (neon : Bool) (x : Surroundings) (d : Detector) (ctx : Words) (rect : Rect)
      (registers : Words), d.startupError = 0 → Laid ctx →
      (atFrame x d ctx).active.enabled ≠ 0 →
      BitVec.ofNat 32 (counted neon x d ctx rect).rawCount = registers 4 + registers 11 →
      let left := motionIvaFilter neon x d (some ctx) (some rect) registers
      left.sample = some (counted neon x d ctx rect) ∧
        (left.registers 11).toNat = (counted neon x d ctx rect).roiCount ∧
        (left.registers 4).toNat + (left.registers 11).toNat =
          (counted neon x d ctx rect).includedCount := by
  refine ⟨fun neon map rect settings sample => ?_, count32Neon_eq, ?_⟩
  · have h := count_pixelwise neon map rect settings sample
    exact ⟨h, h.ordered⟩
  · intro neon x d ctx rect registers hstartup hlaid henabled hraw
    obtain ⟨hregisters, hsample⟩ := motionIvaFilter_counted hstartup hlaid henabled hraw
    simp only
    rw [hregisters]
    exact ⟨hsample, written_spec (count_pixelwise _ _ _ _ _)⟩

/-- Pixels counted row by row. -/
theorem sum_rows (w h : Nat) (Q : Nat × Nat → Prop) [DecidablePred Q] :
    (∑ y ∈ Finset.range h, ∑ x ∈ Finset.range w, if Q (x, y) then 1 else 0) =
      ((Finset.range w ×ˢ Finset.range h).filter Q).card := by
  rw [Finset.card_filter, Finset.sum_product_right]

/-- The count of a picture whose set pixels are those of `S`. -/
theorem countPixels_of_set {S : Finset (Nat × Nat)} (hS : ∀ p ∈ S, p.1 < 640 ∧ p.2 < 360)
    (hmap : ∀ x y : Nat, x < 640 → y < 360 → (map (y * 640 + x) ≠ 0 ↔ (x, y) ∈ S))
    (P : Nat × Nat → Prop) [DecidablePred P] : countPixels map P = (S.filter P).card := by
  unfold countPixels
  rw [sum_rows 640 360 fun p => map (p.2 * 640 + p.1) ≠ 0 ∧ P p]
  refine congrArg Finset.card (Finset.ext fun p => ?_)
  obtain ⟨x, y⟩ := p
  rw [Finset.mem_filter, Finset.mem_filter, Finset.mem_product, Finset.mem_range, Finset.mem_range]
  constructor
  · intro h
    exact ⟨(hmap x y h.1.1 h.1.2).mp h.2.1, h.2.2⟩
  · intro h
    obtain ⟨hx, hy⟩ := hS _ h.1
    exact ⟨⟨hx, hy⟩, (hmap x y hx hy).mpr h.1, h.2⟩

/-- A detector with every cell included. -/
def openMask : Detector := ⟨Block.uncover (Block.of true []), 2, 0, 0⟩

/-- A mask over the cell of columns 160 to 191 in the first row. -/
def oneCell : Block := Block.of true (List.replicate 5 48 ++ 49 :: List.replicate 234 48)

/-- Inside the rectangle below, under the mask, and outside the rectangle. -/
def movingPixels : Finset (Nat × Nat) := {(10, 10), (165, 10), (400, 10)}

/-- The mask is new in the shared block, and three pixels move. -/
def moving : Surroundings where
  attempts := (⟨4, oneCell, 4⟩, ⟨4, oneCell, 4⟩)
  now := 0
  readerMs := 0
  memory := fun _ i => if i = 6410 ∨ i = 6565 ∨ i = 6800 then 255 else 0

/-- A context of the audited layout. -/
def audited : Words := fun i =>
  if i = 0 ∨ i = 20 ∨ i = 22 then 640 else if i = 1 ∨ i = 21 then 360 else if i = 19 then 1 else 0

/-- The left half. -/
def leftHalf : Rect := ⟨0, 0, 319, 359⟩

/-- The detector has counted two pixels inside the rectangle and one outside. -/
def counters : Words := fun i => if i = 4 then 1 else if i = 11 then 2 else 0

theorem moving_count (P : Nat × Nat → Prop) [DecidablePred P] :
    countPixels (moving.memory 1) P = (movingPixels.filter P).card := by
  refine countPixels_of_set (by decide) (fun x y hx hy => ?_) P
  have hset : moving.memory 1 (y * 640 + x) ≠ 0 ↔
      (y * 640 + x : Int) = 6410 ∨ (y * 640 + x : Int) = 6565 ∨ (y * 640 + x : Int) = 6800 := by
    unfold moving
    dsimp only
    split
    · next hmoves => exact ⟨fun _ => hmoves, fun _ => by decide⟩
    · next hrests => exact ⟨fun h => absurd rfl h, fun h => absurd h hrests⟩
  rw [hset]
  simp only [movingPixels, Finset.mem_insert, Finset.mem_singleton, Prod.mk.injEq]
  omega

theorem moving_counted : Pixelwise (moving.memory 1) leftHalf oneCell
    (counted true moving openMask audited leftHalf) := by
  have hactive : (atFrame moving openMask audited).active = oneCell := by
    decide +kernel
  have h := count_pixelwise true (moving.memory 1) leftHalf
    (atFrame moving openMask audited).active (begun moving (atFrame moving openMask audited))
  rw [hactive] at h
  unfold counted
  rw [hactive]
  exact h

/-- The new mask takes one pixel out of the picture: one is left inside the rectangle, and one
    outside. -/
theorem filter_counts_moving :
    let left := motionIvaFilter true moving openMask (some audited) (some leftHalf) counters
    left.sample.map Sample.rawCount = some 3 ∧ (left.registers 11).toNat = 1 ∧
      (left.registers 4).toNat + (left.registers 11).toNat = 2 := by
  have hraw : (counted true moving openMask audited leftHalf).rawCount = 3 := by
    rw [moving_counted.rawCount, moving_count]
    decide
  have hincluded : (counted true moving openMask audited leftHalf).includedCount = 2 := by
    rw [moving_counted.includedCount, moving_count]
    decide
  have hroi : (counted true moving openMask audited leftHalf).roiCount = 1 := by
    rw [moving_counted.roiCount, moving_count]
    decide
  have hregisters : BitVec.ofNat 32 (counted true moving openMask audited leftHalf).rawCount =
      counters 4 + counters 11 := by
    rw [hraw]
    decide
  obtain ⟨hsample, hinside, hboth⟩ := filter_counts.2.2 true moving openMask audited leftHalf counters
    rfl (by decide) (by decide +kernel) hregisters
  refine ⟨?_, hinside.trans hroi, hboth.trans hincluded⟩
  rw [hsample, Option.map_some, hraw]

end YiHack.Iva.Count
