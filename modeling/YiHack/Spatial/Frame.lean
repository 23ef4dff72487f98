/-
  File:      YiHack/Spatial/Frame.lean
  Subject:   `motion_map.h` and the score of `motion_mask.h`: a frame of the motion map, byte by
             byte, and how much of the picture moves in it outside the excluded cells.

  * `Frame` -- `struct motion_map_frame` as its bytes, the fields read from them;
  * `motionMaskVector`, `motionMaskScore` -- a block's vectors, and the share of moving pixels;
  * `Verdict`, `consider` -- what `motion_mask_read` makes of a copied frame.
-/
import YiHack.General.Seqlock
import YiHack.General.Rounding

namespace YiHack.Spatial

open General

/-! ## 1. The frame -/

def MOTION_MAP_COLS : Nat := 40

def MOTION_MAP_ROWS : Nat := 23

def MOTION_MAP_BLOCKS : Nat := MOTION_MAP_COLS * MOTION_MAP_ROWS

def MOTION_MASK_COLS : Nat := 20

def MOTION_MASK_ROWS : Nat := 12

def MOTION_MASK_CELLS : Nat := MOTION_MASK_COLS * MOTION_MASK_ROWS

/-- Where `vectors` and `difference` begin. -/
def VECTORS : Nat := 24

def DIFFERENCE : Nat := VECTORS + MOTION_MAP_BLOCKS * 8

/-- `sizeof(struct motion_map_frame)`. -/
def FRAME_SIZE : Nat := DIFFERENCE + MOTION_MAP_BLOCKS

/-- The bytes of `struct motion_map_frame`. -/
abbrev Frame := Fin FRAME_SIZE → UInt8

namespace Frame

def byte (f : Frame) (i : Nat) : UInt8 := if h : i < FRAME_SIZE then f ⟨i, h⟩ else 0

/-- The word at an address, lowest byte first. -/
def word (f : Frame) (i : Nat) : Word :=
  BitVec.ofNat 32 ((f.byte i).toNat + (f.byte (i + 1)).toNat * 2 ^ 8 +
    (f.byte (i + 2)).toNat * 2 ^ 16 + (f.byte (i + 3)).toNat * 2 ^ 24)

def pid (f : Frame) : Word := f.word 0

def frame (f : Frame) : Word := f.word 4

def pFrame (f : Frame) : Word := f.word 8

def monotonicMs (f : Frame) : Int := (f.word 20 ++ f.word 16).toInt

def vectors (f : Frame) (i : Nat) : UInt8 := f.byte (VECTORS + i)

def difference (f : Frame) (i : Nat) : UInt8 := f.byte (DIFFERENCE + i)

/-- `candidate.p_frame = !candidate.p_frame`. -/
def flipPFrame (f : Frame) : Frame := fun k =>
  if k.val = 8 then (if f.pFrame = 0#32 then 1 else 0)
  else if 8 < k.val ∧ k.val < 12 then 0
  else f k

end Frame

/-! ## 2. The score -/

/-- `struct motion_mask`; `shared` says whether the file is mapped. -/
structure Mask where
  vectorPixels : Int
  differenceThreshold : Int
  havePrevious : Bool
  cells : Nat → UInt8
  activity : Nat → UInt8
  shared : Bool
  frame : Frame
  previous : Nat → UInt8
  lastPid : Word
  lastFrame : Word
  sourceVersion : Word
  previousMs : Int
  retryAfter : Int
  firstMapMs : Int
  lastPredictedMs : Int
  ratio : Rat
  error : Int

/-- The detector's mask before the first reading; `cells` and thresholds are its configuration. -/
def Mask.zero (cells : Nat → UInt8) (vectorPixels differenceThreshold : Int) : Mask where
  vectorPixels := vectorPixels
  differenceThreshold := differenceThreshold
  havePrevious := false
  cells := cells
  activity := fun _ => 0
  shared := false
  frame := fun _ => 0
  previous := fun _ => 0
  lastPid := 0#32
  lastFrame := 0#32
  sourceVersion := 0#32
  previousMs := 0
  retryAfter := 0
  firstMapMs := 0
  lastPredictedMs := 0
  ratio := 0
  error := 0

/-- `motion_mask_signed`. -/
def motionMaskSigned (bits sign : Nat) : Int := ((bits ^^^ sign : Nat) : Int) - sign

/-- `motion_mask_vector`: one of the four vectors of a block is long enough. -/
def motionMaskVector (p : Nat → Nat) (pixels : Int) : Bool :=
  if p 6 &&& 128 ≠ 0 then false
  else
    let lo := p 0 ||| p 1 <<< 8 ||| p 2 <<< 16 ||| p 3 <<< 24
    let hi := p 4 ||| p 5 <<< 8 ||| p 6 <<< 16
    let baseX := motionMaskSigned ((hi >>> 15) &&& 255) 128 * 4
    let baseY := motionMaskSigned (p 5 &&& 127) 64 * 4
    let threshold := pixels * 4
    (List.range 4).any fun k =>
      let bx := if k = 3 then p 4 >>> 3 else (lo >>> (k * 10 + 5)) &&& 31
      let by' := if k = 3 then (p 4 &&& 7) <<< 2 ||| p 3 >>> 6 else (lo >>> (k * 10)) &&& 31
      let x := baseX + motionMaskSigned bx 16
      let y := baseY + motionMaskSigned by' 16
      decide (x ≥ threshold ∨ x ≤ -threshold ∨ y ≥ threshold ∨ y ≤ -threshold)

/-- A coded block: its row and column. -/
structure Block where
  y : Nat
  x : Nat
  deriving DecidableEq

/-- The blocks in the order of the two loops. -/
def blocks : List Block :=
  (List.range MOTION_MAP_ROWS).flatMap fun y => (List.range MOTION_MAP_COLS).map fun x => ⟨y, x⟩

namespace Block

def index (b : Block) : Nat := b.y * MOTION_MAP_COLS + b.x

/-- The visible height: the last row has 8 pixels. -/
def height (b : Block) : Nat := if b.y = 22 then 8 else 16

/-- The cell of the mask. -/
def cell (b : Block) : Nat :=
  (b.y * 16 + b.height / 2) * MOTION_MASK_ROWS / 360 * MOTION_MASK_COLS + b.x / 2

end Block

/-- The last scored frame is good for a comparison. -/
def Mask.temporal (m : Mask) (s : Frame) : Bool :=
  m.havePrevious && s.pid == m.lastPid && decide (s.monotonicMs > m.previousMs) &&
    decide (s.monotonicMs - m.previousMs ≤ 500)

/-- The block moves. -/
def Mask.moving (m : Mask) (s : Frame) (b : Block) : Bool :=
  let p := fun i => (s.vectors (b.index * 8 + i)).toNat
  let delta := ((s.difference b.index).toNat : Int) - (m.previous b.index).toNat
  s.pFrame != 0#32 &&
    (motionMaskVector p m.vectorPixels ||
      (m.temporal s && p 6 &&& 128 != 0 && decide (m.differenceThreshold > 0) &&
        decide ((delta.natAbs : Int) ≥ m.differenceThreshold)))

/-- `moving_pixels`. -/
def Mask.movingPixels (m : Mask) (s : Frame) : Nat :=
  (blocks.map fun b => if m.moving s b && m.cells b.cell == 48 then 16 * b.height else 0).sum

/-- `motion_mask_score`, its result in `ratio`. The product is exact, the quotient is rounded. -/
def motionMaskScore (m : Mask) (s : Frame) : Mask :=
  { m with
    activity := fun c =>
      if c = MOTION_MASK_CELLS then 0
      else if blocks.any fun b => b.cell == c && m.moving s b then 49 else 48
    previous := s.difference
    havePrevious := s.pFrame != 0#32
    previousMs := s.monotonicMs
    lastPid := s.pid
    lastFrame := s.frame
    ratio := toDouble ((m.movingPixels s : Rat) * 100 / (640 * 360)) }

/-! ## 3. What becomes of a copied frame -/

def MOTION_MAP_VERSION : Word := 2#32

def MOTION_MAP_LEGACY_VERSION : Word := 1#32

inductive Verdict
  | stale
  | unusable (m : Mask)
  | adopted (m : Mask) (rc : Int)

/-- A legacy producer has the test the other way. -/
def asVersioned (version : Word) (candidate : Frame) : Frame :=
  if version = MOTION_MAP_LEGACY_VERSION then candidate.flipPFrame else candidate

/-- The marks of `motion_mask_read` on a frame: the first one, and the last predicted one. -/
def Mask.mark (m : Mask) (now : Int) (candidate : Frame) : Mask :=
  { m with
    firstMapMs := if m.firstMapMs = 0 then now else m.firstMapMs
    lastPredictedMs := if candidate.pFrame ≠ 0#32 then now else m.lastPredictedMs }

/-- `motion_mask_read` behind its second look at the version. -/
def consider (m : Mask) (now : Int) (version : Word) (copy : Frame) : Verdict :=
  if copy.pid = 0#32 ∨ now < copy.monotonicMs ∨ now - copy.monotonicMs > 500 then .stale
  else
    let candidate := asVersioned version copy
    let m := m.mark now candidate
    if now - (if m.lastPredictedMs ≠ 0 then m.lastPredictedMs else m.firstMapMs) > 2000 then
      .unusable { m with error := 3 }
    else
      let m := { m with sourceVersion := version, frame := candidate, error := 0 }
      if candidate.pid = m.lastPid ∧ candidate.frame = m.lastFrame then .adopted m 0
      else .adopted (motionMaskScore m candidate) 1

end YiHack.Spatial
