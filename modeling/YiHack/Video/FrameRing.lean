/-
  File:      YiHack/Video/FrameRing.lean
  Subject:   `rRTSPServer.cpp`, `h264grabber.c`: the walk over the vendor's frame ring.

  Both programs poll the ring with the same loop: take the end of the newest batch from the header
  words, follow the records from the end of the last poll to it, keep the last record for the next
  poll and hand the others on. They differ in how a frame leaves the loop, `cb2s_memcpy` or a split
  `fwrite`. Addresses count from the start of the mapped file.

  The codec detection and the choice of the output are stages behind the handing on and are not
  modelled; nor are the debug prints.
-/
import YiHack.General.Wrap

namespace YiHack.Video

open General
open General.Wrap (Mem readMem)

/-! ## 1. Frame headers -/

/-- `struct frame_header`. -/
structure FrameHeader where
  len : Nat
  counter : Nat
  time : Nat
  type : Nat
  streamCounter : Nat
  deriving DecidableEq, Repr

/-- The four packed layouts `cb2s_headercpy` knows. -/
inductive HeaderKind
  | h22
  | h24
  | h26
  | h28
  deriving DecidableEq, Repr

def HeaderKind.size : HeaderKind → Nat
  | .h22 => 22
  | .h24 => 24
  | .h26 => 26
  | .h28 => 28

/-- Where `time` is: behind `u1`, or behind `u1` and `u2`. -/
def HeaderKind.timeAt : HeaderKind → Nat
  | .h22 | .h24 => 12
  | .h26 | .h28 => 16

def le16 (p : Bytes) (i : Nat) : Nat := byteAt p i + byteAt p (i + 1) * 2 ^ 8

def le32 (p : Bytes) (i : Nat) : Nat := le16 p i + le16 p (i + 2) * 2 ^ 16

/-- The fields of a packed header. -/
def HeaderKind.decode (k : HeaderKind) (p : Bytes) : FrameHeader where
  len := le32 p 0
  counter := le32 p 4
  time := le32 p k.timeAt
  type := le16 p (k.timeAt + 4)
  streamCounter := le16 p (k.timeAt + 6)

/-- `type & 0x0002`. -/
def FrameHeader.isSps (h : FrameHeader) : Bool := h.type &&& 0x0002 ≠ 0

/-! ## 2. The ring -/

/-- `input_buffer` and `frame_header_size`: the data bytes are `[offset, size)`. -/
structure Geometry where
  offset : Nat
  size : Nat
  header : HeaderKind
  fits : offset + header.size ≤ size

/-- The number of data bytes. -/
def Geometry.span (g : Geometry) : Nat := g.size - g.offset

/-- `cb_move`. -/
def cbMove (g : Geometry) (buf offset : Int) : Int :=
  let buf := buf + offset
  let buf := if offset > 0 ∧ buf > g.size then buf - (g.size - g.offset) else buf
  if offset < 0 ∧ buf < g.offset then buf + (g.size - g.offset) else buf

/-- `cb2s_memcpy`: the bytes it copies. -/
def cb2sMemcpy (g : Geometry) (m : Mem) (src : Int) (n : Nat) : Bytes :=
  if src + n > g.size then
    readMem m src (g.size - src).toNat ++ readMem m g.offset (n - (g.size - src).toNat)
  else readMem m src n

/-- `cb2s_headercpy`, whose copy is that of `cb2s_memcpy`. -/
def cb2sHeadercpy (g : Geometry) (m : Mem) (src : Int) : FrameHeader :=
  g.header.decode (cb2sMemcpy g m src g.header.size)

/-- The `fwrite` calls of `h264grabber` for one frame: the bytes they write. -/
def splitFwrite (g : Geometry) (m : Mem) (bufIdxStart : Int) (frameLen : Nat) : Bytes :=
  if bufIdxStart + frameLen > g.size then
    readMem m bufIdxStart (g.size - bufIdxStart).toNat ++
      readMem m g.offset (frameLen - (g.size - bufIdxStart).toNat)
  else readMem m bufIdxStart frameLen

/-! ## 3. A poll -/

/-- The words at 16, 4 and 12: start, length and end of the newest batch. -/
structure Words where
  start : Int
  len : Int
  end_ : Int

/-- What the loop keeps from one poll to the next. -/
structure Capture where
  bufIdxEndPrev : Int
  lastCounter : Nat

/-- A frame as the stage behind the loop gets it. -/
structure Frame where
  header : FrameHeader
  payload : Bytes
  deriving DecidableEq

/-- `buf_idx_end`. -/
def bufIdxEnd (g : Geometry) (w : Words) : Int :=
  let e := g.offset + w.start + w.len
  if e ≥ g.size then e - (g.size - g.offset) else e

/-- What comes before the loop. -/
def captureInit (g : Geometry) (w : Words) : Capture := ⟨bufIdxEnd g w, 0⟩

/-- The walk from `cur` to `bufIdxEnd`: `fhs_addr` and `fhs`, `room` entries of them free. None
    where the sync is lost: a length that cannot be, or ten records. The `i`th header is read from
    the memory `hm i`. -/
def walk (g : Geometry) (hm : Nat → Mem) (bufIdxEnd : Int) :
    Nat → Nat → Int → Option (List (Int × FrameHeader))
  | 0, _, _ => none
  | room + 1, i, cur =>
    if cur = bufIdxEnd then some []
    else
      let fh := cb2sHeadercpy g (hm i) cur
      if fh.len > g.size - g.offset - g.header.size then none
      else
        (walk g hm bufIdxEnd room (i + 1) (cbMove g cur (fh.len + g.header.size))).map
          ((cur, fh) :: ·)

/-- One turn of the loop over the records: behind the header, and behind the prefix of an SPS. -/
def handOne (g : Geometry) (copy : Mem → Int → Nat → Bytes) (m : Mem) (f : Int × FrameHeader) :
    Frame :=
  let cur := if f.2.isSps then cbMove g f.1 (g.header.size + 6) else cbMove g f.1 g.header.size
  let frameLen : Int := if f.2.isSps then f.2.len - 6 else f.2.len
  ⟨f.2, if frameLen > 0 then copy m cur frameLen.toNat else []⟩

/-- The loop over the records; the `i`th payload is read from the memory `pm i`. -/
def handAll (g : Geometry) (copy : Mem → Int → Nat → Bytes) (pm : Nat → Mem) :
    Nat → List (Int × FrameHeader) → List Frame
  | _, [] => []
  | i, f :: fs => handOne g copy (pm i) f :: handAll g copy pm (i + 1) fs

/-- One turn of the main loop: the state after it and the frames it hands on. -/
def poll (g : Geometry) (copy : Mem → Int → Nat → Bytes) (c : Capture) (w : Words)
    (hm pm : Nat → Mem) : Capture × List Frame :=
  let e := bufIdxEnd g w
  if e ≠ g.offset + w.end_ then (c, [])
  else if e = c.bufIdxEndPrev then (c, [])
  else
    match walk g hm e 10 0 c.bufIdxEndPrev with
    | none => ({ c with bufIdxEndPrev := e }, [])
    | some fs =>
      -- the last record could be incomplete: it is walked again at the next poll
      match fs.getLast?, fs.dropLast.getLast? with
      | some last, some (_, fh) =>
        (⟨last.1, fh.counter⟩, handAll g copy pm 0 fs.dropLast)
      | _, _ => (c, [])

/-- `capture` of `rRTSPServer`. -/
def capture (g : Geometry) := poll g (cb2sMemcpy g)

/-- The main loop of `h264grabber`. -/
def grab (g : Geometry) := poll g (splitFwrite g)

/-! ## 4. Moving and copying -/

theorem HeaderKind.size_pos (k : HeaderKind) : 0 < k.size := by cases k <;> decide

theorem Geometry.span_pos (g : Geometry) : 0 < g.span := by
  have := g.fits
  have := g.header.size_pos
  unfold Geometry.span
  omega

theorem Geometry.offset_add_span (g : Geometry) : g.offset + g.span = g.size := by
  have := g.fits
  unfold Geometry.span
  omega

/-- Moving forward wraps beyond the end. -/
theorem cbMove_forward (g : Geometry) (buf : Int) {d : Int} (hd : 0 < d) :
    cbMove g buf d = Wrap.advance g.offset g.span buf d := by
  have := g.offset_add_span
  unfold cbMove Wrap.advance
  rw [if_neg (by omega)]
  split
  · rw [if_pos (by omega)]
    omega
  · rw [if_neg (by omega)]

/-- What moves by at most a turn stays in the mapping. -/
theorem cbMove_mapped {g : Geometry} {buf d : Int} (h : 0 ≤ buf ∧ buf ≤ g.size) (hd : 0 < d)
    (hturn : d ≤ g.span) : 0 ≤ cbMove g buf d ∧ cbMove g buf d ≤ g.size := by
  have := g.offset_add_span
  rw [cbMove_forward g _ hd]
  unfold Wrap.advance
  split <;> omega

theorem cb2sMemcpy_eq (g : Geometry) (m : Mem) (src : Int) (n : Nat) :
    cb2sMemcpy g m src n = Wrap.read g.offset g.span m src n := by
  have e : ((g.offset : Int) + g.span) = g.size := by
    have := g.offset_add_span
    omega
  unfold cb2sMemcpy Wrap.read
  push_cast
  rw [e]

/-- Both programs read a frame the same way. -/
theorem splitFwrite_eq (g : Geometry) : splitFwrite g = cb2sMemcpy g := rfl

theorem grab_eq (g : Geometry) : grab g = capture g := rfl

end YiHack.Video
