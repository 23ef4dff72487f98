/-
  File:      YiHack/Spatial/Mapping.lean
  Subject:   `/tmp/yi-motion-map`: `initialize_map` and `publish_after_flush` of
             `motion_map_y623.c`, `motion_mask_read` and `motion_mask_close` of `motion_mask.h`.

  Copies go byte by byte, words are stored and loaded whole; `memset` stores in ascending order, in
  whatever widths. What the hook asks of the vendor's process before it publishes is data of the
  call, as is whether the reader can open the file.

  Beside the memory the model notes the publications the live producer began, every frame
  published and every frame adopted (newest first), and whether the reader has stored its time
  since the generation was last cleared.
-/
import YiHack.General.Erase
import YiHack.Spatial.Frame

namespace YiHack.Spatial

open General

/-! ## 1. The mapping -/

def MOTION_MAP_MAGIC : Word := 0x594d4150#32

/-- `sizeof(struct motion_map_shared)`. -/
def SHARED_SIZE : Nat := 24 + FRAME_SIZE

/-- `struct motion_map_shared`, the static of the producer's process, the reader's mask, and the
    notes. -/
structure Map where
  magic : Word
  version : Word
  enabled : Word
  generation : Word
  readerMs : Word
  sample : Frame
  hooked : Bool
  mask : Mask
  asked : Bool
  begun : Nat
  log : List Frame
  adopted : List Frame

/-- The file as `ftruncate` makes it, before any producer. -/
def Map.fresh (m : Mask) : Map where
  magic := 0#32
  version := 0#32
  enabled := 0#32
  generation := 0#32
  readerMs := 0#32
  sample := fun _ => 0
  hooked := false
  mask := m
  asked := false
  begun := 0
  log := []
  adopted := []

/-- The bytes of the sample in the order of their addresses. -/
@[irreducible] def sampleBytes : List (Fin FRAME_SIZE) := List.finRange FRAME_SIZE

theorem mem_sampleBytes (k : Fin FRAME_SIZE) : k ∈ sampleBytes := by
  unfold sampleBytes
  exact List.mem_finRange k

namespace Map

/-- A store of `memset`: the bytes from `lo` to `hi`. -/
def clear (lo hi : Nat) (s : Map) : Map :=
  { s with
    magic := eraseWord 0 lo hi s.magic
    version := eraseWord 4 lo hi s.version
    enabled := eraseWord 8 lo hi s.enabled
    generation := eraseWord 12 lo hi s.generation
    readerMs := eraseWord 16 lo hi s.readerMs
    sample := fun k => if lo ≤ 24 + k.val ∧ 24 + k.val < hi then 0 else s.sample k
    asked := s.asked && !decide (lo ≤ 15 ∧ 15 < hi) }

/-- A new process, its statics zero. -/
def spawn (s : Map) : Map := { s with hooked := false, begun := 0 }

def setMagic (s : Map) : Map := { s with magic := MOTION_MAP_MAGIC }

def setVersion (s : Map) : Map := { s with version := MOTION_MAP_VERSION }

/-- The vendor's pointer is replaced. -/
def hook (s : Map) : Map := { s with hooked := true }

/-- The store that makes the generation odd. -/
def openSample (w : Word) (s : Map) : Map := { s with generation := w, begun := s.begun + 1 }

/-- A store to a byte of the sample. -/
def put (x : Fin FRAME_SIZE × UInt8) (s : Map) : Map :=
  { s with sample := Function.update s.sample x.1 x.2 }

/-- The store that makes the generation even, of a publication of `f`. -/
def closeSample (w : Word) (f : Frame) (s : Map) : Map :=
  { s with generation := w, log := f :: s.log }

/-- `reader_ms`. -/
def ask (now : Word) (s : Map) : Map := { s with readerMs := now, asked := true }

def setEnabled (w : Word) (s : Map) : Map := { s with enabled := w }

def setMask (m : Mask) (s : Map) : Map := { s with mask := m }

/-- `m->frame = candidate` with what comes with it. -/
def adopt (m : Mask) (s : Map) : Map := { s with mask := m, adopted := m.frame :: s.adopted }

end Map

/-! ## 2. The producer -/

/-- A reading of the monotonic clock, in milliseconds, that is late enough modulo 2^32. -/
structure Clock where
  ms : Int
  late : 2000 < (BitVec.ofInt 32 ms).toNat

/-- The stores of a `memset` of the whole mapping, by their widths. -/
structure Memset where
  widths : List Nat
  total : widths.sum = SHARED_SIZE

/-- The generation, bytes 12 to 15, is cleared by one store. -/
def Memset.Whole (ms : Memset) : Prop :=
  ∀ n, (ms.widths.take n).sum ≤ 12 ∨ 16 ≤ (ms.widths.take n).sum

/-- The stores from an address on. -/
def clearStores (off : Nat) : List Nat → List (Map → Map)
  | [] => []
  | width :: widths => Map.clear off (off + width) :: clearStores (off + width) widths

/-- `initialize_map` of a new process; `eligible` says whether its tests pass and the file can be
    mapped. -/
def initializeMap (eligible : Bool) (ms : Memset) : Code Map Unit := do
  Code.store Map.spawn
  if eligible = false then Code.ret ()
  else do
    Code.stores (clearStores 0 ms.widths)
    Code.store Map.setMagic
    Code.store Map.setVersion
    Code.store Map.hook

/-- A call of the hook: whether the flush is the one of the analysis and succeeded, whether the
    encoder is in the audited state, and what is published. -/
structure Publication where
  flushed : Bool
  found : Bool
  now : Clock
  pid : Word
  frame : Word
  nativeType : Word
  address : Nat → UInt8
  sad : Nat → UInt8

/-- The byte of a number stored lowest byte first. -/
def byteOf {n : Nat} (w : BitVec n) (j : Nat) : UInt8 := ⟨(w >>> (8 * j)).setWidth 8⟩

/-- `load_word(state+0x4b4)!=18`. -/
def Publication.pFrame (p : Publication) : Word := if p.nativeType = 18#32 then 0#32 else 1#32

/-- What a publication writes; the reserved word is as `memset` left it. -/
def Publication.sample (p : Publication) : Frame := fun k =>
  if k.val < 4 then byteOf p.pid k.val
  else if k.val < 8 then byteOf p.frame (k.val - 4)
  else if k.val < 12 then byteOf p.pFrame (k.val - 8)
  else if k.val < 16 then 0
  else if k.val < VECTORS then byteOf (BitVec.ofInt 64 p.now.ms) (k.val - 16)
  else if k.val < DIFFERENCE then p.address (k.val - VECTORS)
  else p.sad ((k.val - DIFFERENCE) * 6)

/-- A byte of `reserved`, which no publication stores. -/
def isReserved (k : Fin FRAME_SIZE) : Bool := 12 ≤ k.val && k.val < 16

/-- The stores to the sample, in the order of the source. -/
def Publication.stores (p : Publication) : List (Map → Map) :=
  (sampleBytes.filter fun k => !isReserved k).map fun k => Map.put (k, p.sample k)

/-- `publish_after_flush`, called through the hook. -/
def publishAfterFlush (p : Publication) : Code Map Unit := do
  let hooked ← Code.load (·.hooked)
  if hooked = false ∨ p.flushed = false then Code.ret ()
  else do
    let enabled ← Code.load (·.enabled)
    if enabled = 0#32 ∨ p.found = false then Code.ret ()
    else do
      let readerMs ← Code.load (·.readerMs)
      if 2000#32 < BitVec.ofInt 32 p.now.ms - readerMs then Code.ret ()
      else do
        let generation ← Code.load (·.generation)
        Code.store (Map.openSample (generation + 1#32))
        Code.stores p.stores
        Code.store (Map.closeSample (generation + 2#32) p.sample)

/-! ## 3. The reader -/

/-- `return rc`. -/
def finish (m : Mask) (rc : Int) : Code Map Int := do
  Code.store (Map.setMask m)
  Code.ret rc

/-- The file is mapped, or it is now; `opened` says whether it can be opened and has its size. -/
def openMap (opened : Bool) (now : Int) (m : Mask) : Code Map (Mask × Bool) :=
  if m.shared then Code.ret (m, true)
  else if now < m.retryAfter then Code.ret ({ m with error := 1 }, false)
  else if opened = false then Code.ret ({ m with retryAfter := now + 1000, error := 1 }, false)
  else do
    let magic ← Code.load (·.magic)
    if magic ≠ MOTION_MAP_MAGIC then
      Code.ret ({ m with retryAfter := now + 1000, error := 1 }, false)
    else do
      let version ← Code.load (·.version)
      if version = MOTION_MAP_VERSION then
        Code.ret ({ m with retryAfter := now + 1000, shared := true }, true)
      else do
        let version ← Code.load (·.version)
        if version = MOTION_MAP_LEGACY_VERSION then
          Code.ret ({ m with retryAfter := now + 1000, shared := true }, true)
        else Code.ret ({ m with retryAfter := now + 1000, error := 1 }, false)

/-- Behind the attempts: a publication overlapped, the last score stands a while. -/
def keepLast (m : Mask) (now : Int) : Code Map Int :=
  if m.lastPid ≠ 0#32 ∧ now ≥ m.frame.monotonicMs ∧ now - m.frame.monotonicMs ≤ 500 then
    finish { m with error := 0 } 0
  else finish { m with error := 2 } (-1)

/-- The tests behind `memcpy`. -/
def checkCopy (retry : Code Map Int) (m : Mask) (now : Int) (first version : Word)
    (candidate : Frame) : Code Map Int := do
  let again ← Code.load (·.generation)
  if first ≠ again then retry
  else do
    let versionAgain ← Code.load (·.version)
    if version ≠ versionAgain then retry
    else
      match consider m now version candidate with
      | .stale => keepLast m now
      | .unusable m => finish m (-1)
      | .adopted m rc => do
        Code.store (Map.adopt m)
        Code.ret rc

/-- The attempts that are left. -/
def attempt (m : Mask) (now : Int) : Nat → Code Map Int
  | 0 => keepLast m now
  | attempts + 1 => do
    let first ← Code.load (·.generation)
    if first = 0#32 ∨ odd first = true then attempt m now attempts
    else do
      let version ← Code.load (·.version)
      if version ≠ MOTION_MAP_VERSION ∧ version ≠ MOTION_MAP_LEGACY_VERSION then keepLast m now
      else do
        let candidate ← gather (·.sample) sampleBytes fun _ => 0
        checkCopy (attempt m now attempts) m now first version candidate

/-- `motion_mask_read`. -/
def motionMaskRead (opened : Bool) (now : Int) : Code Map Int := do
  let m ← Code.load (·.mask)
  let found ← openMap opened now m
  if found.2 = false then finish found.1 (-1)
  else do
    Code.store (Map.ask (BitVec.ofInt 32 now))
    Code.store (Map.setEnabled 1#32)
    attempt found.1 now 2

/-- `motion_mask_close`. -/
def motionMaskClose : Code Map Unit := do
  let m ← Code.load (·.mask)
  if m.shared then do
    Code.store (Map.setEnabled 0#32)
    Code.store (Map.setMask { m with shared := false })
  else Code.ret ()

/-! ## 4. The machine -/

inductive Party
  | producer
  | reader
  deriving DecidableEq

/-- What is called; the stores of a `memset` are as `W` has them. -/
inductive MapCall (W : Memset → Prop)
  | start (eligible : Bool) (ms : Memset) (h : W ms)
  | publish (p : Publication)
  | read (opened : Bool) (now : Clock)
  | close

/-- The configuration outlives the reader's process. -/
def Mask.restarted (m : Mask) : Mask := Mask.zero m.cells m.vectorPixels m.differenceThreshold

/-- One producer and one reader; either may die at any moment and come again. -/
def mapSystem (W : Memset → Prop) : System Party (MapCall W) Map where
  program
    | .producer, .start eligible ms _ => some (initializeMap eligible ms)
    | .producer, .publish p => some (publishAfterFlush p)
    | .reader, .read opened now => some (motionMaskRead opened now.ms).void
    | .reader, .close => some motionMaskClose
    | _, _ => none
  bury
    | .producer, s => { s with hooked := false }
    | .reader, s => { s with mask := s.mask.restarted }

/-- Fewer than 2^31 publications of the live producer. -/
def Few (_ : Party) (_ s' : Map) : Prop := s'.begun < 2 ^ 31

end YiHack.Spatial
