/-
  File:      YiHack/Video/Sps.lean
  Subject:   `rRTSPServer.cpp`, `h264grabber.c`: which SPS a stream is given.

  The first SPS of a stream that one of the patterns matches decides its codec and a number for the
  pattern. Later on, with `sps_timing_info`, the number chooses the array that is handed on in place
  of an SPS. The numbers of the low stream share a bit that the first test asks for.

  * `replacement_low`, `replacement_high`: the array chosen, by the pattern the stream matched;
  * **`profile_kept_iff`**: no SPS is replaced by the variant of another template exactly where
    none is handed on of a low stream that matched the second or the third one.

  A handed frame is what the walk of `FrameRing` hands on. The copy itself and the queues are not
  part of this file, nor are the counters of lost frames, which are only printed.
-/
import YiHack.Video.FrameRing
import YiHack.General.Run
import Mathlib.Data.List.Induction

namespace YiHack.Video

open General
open General.Wrap (Mem readMem)

/-! ## 1. The arrays -/

/-- The H.264 templates with a variant `..._TI`: `SPS4_`, `SPS4_2_` and `SPS4_3_`. -/
inductive Template
  | s640x360
  | s2_640x360
  | s3_640x360
  | s1920x1080
  | s2304x1296
  | s2_1920x1080
  | s2_2304x1296
  | s3_1920x1080
  | s3_2304x1296
  deriving DecidableEq, Repr

def Template.sps : Template → Bytes
  | .s640x360 =>
      [0x00, 0x00, 0x00, 0x01, 0x67, 0x4D, 0x00, 0x14, 0x96, 0x54, 0x05, 0x01,
       0x7B, 0xCB, 0x37, 0x01, 0x01, 0x01, 0x02]
  | .s2_640x360 =>
      [0x00, 0x00, 0x00, 0x01, 0x67, 0x64, 0x00, 0x14, 0xAC, 0x2C, 0xA8, 0x0A,
       0x02, 0xF7, 0x96, 0x6E, 0x02, 0x02, 0x02, 0x04]
  | .s3_640x360 =>
      [0x00, 0x00, 0x00, 0x01, 0x67, 0x64, 0x00, 0x14, 0xAC, 0x2C, 0xA8, 0x0A,
       0x02, 0xF7, 0x96, 0x6A, 0x02, 0x02, 0x02, 0x04]
  | .s1920x1080 =>
      [0x00, 0x00, 0x00, 0x01, 0x67, 0x4D, 0x00, 0x20, 0x96, 0x54, 0x03, 0xC0,
       0x11, 0x2F, 0x2C, 0xDC, 0x04, 0x04, 0x04, 0x08]
  | .s2304x1296 =>
      [0x00, 0x00, 0x00, 0x01, 0x67, 0x4D, 0x00, 0x20, 0x96, 0x54, 0x01, 0x20,
       0x05, 0x19, 0x37, 0x01, 0x01, 0x01, 0x02]
  | .s2_1920x1080 =>
      [0x00, 0x00, 0x00, 0x01, 0x67, 0x64, 0x00, 0x20, 0xAC, 0x2C, 0xA8, 0x07,
       0x80, 0x22, 0x5E, 0x59, 0xB8, 0x08, 0x08, 0x08, 0x10]
  | .s2_2304x1296 =>
      [0x00, 0x00, 0x00, 0x01, 0x67, 0x64, 0x00, 0x20, 0xAC, 0x2C, 0xA8, 0x02,
       0x40, 0x0A, 0x32, 0x6E, 0x02, 0x02, 0x02, 0x04]
  | .s3_1920x1080 =>
      [0x00, 0x00, 0x00, 0x01, 0x67, 0x64, 0x00, 0x20, 0xAC, 0x2C, 0xA8, 0x07,
       0x80, 0x22, 0x5E, 0x59, 0xA8, 0x08, 0x08, 0x08, 0x10]
  | .s3_2304x1296 =>
      [0x00, 0x00, 0x00, 0x01, 0x67, 0x64, 0x00, 0x20, 0xAC, 0x2C, 0xA8, 0x02,
       0x40, 0x0A, 0x32, 0x6A, 0x02, 0x02, 0x02, 0x04]

/-- The variants with timing information. -/
def Template.ti : Template → Bytes
  | .s640x360 =>
      [0x00, 0x00, 0x00, 0x01, 0x67, 0x4D, 0x00, 0x14, 0x96, 0x54, 0x05, 0x01,
       0x7B, 0xCB, 0x37, 0x01, 0x01, 0x01, 0x40, 0x00, 0x00, 0x7D, 0x00, 0x00,
       0x13, 0x88, 0x21]
  | .s2_640x360 =>
      [0x00, 0x00, 0x00, 0x01, 0x67, 0x64, 0x00, 0x14, 0xAC, 0x2C, 0xA8, 0x0A,
       0x02, 0xF7, 0x96, 0x6E, 0x02, 0x02, 0x02, 0x80, 0x00, 0x00, 0xFA, 0x00,
       0x00, 0x27, 0x10, 0x42]
  | .s3_640x360 =>
      [0x00, 0x00, 0x00, 0x01, 0x67, 0x64, 0x00, 0x14, 0xAC, 0x2C, 0xA8, 0x0A,
       0x02, 0xF7, 0x96, 0x6A, 0x02, 0x02, 0x02, 0x80, 0x00, 0x00, 0xFA, 0x00,
       0x00, 0x27, 0x10, 0x42]
  | .s1920x1080 =>
      [0x00, 0x00, 0x00, 0x01, 0x67, 0x4D, 0x00, 0x20, 0x96, 0x54, 0x03, 0xC0,
       0x11, 0x2F, 0x2C, 0xDC, 0x04, 0x04, 0x05, 0x00, 0x00, 0x03, 0x01, 0xF4,
       0x00, 0x00, 0x4E, 0x20, 0x84]
  | .s2304x1296 =>
      [0x00, 0x00, 0x00, 0x01, 0x67, 0x4D, 0x00, 0x20, 0x96, 0x54, 0x01, 0x20,
       0x05, 0x19, 0x37, 0x01, 0x00, 0x00, 0x40, 0x00, 0x00, 0x7D, 0x00, 0x00,
       0x13, 0x88, 0x21]
  | .s2_1920x1080 =>
      [0x00, 0x00, 0x00, 0x01, 0x67, 0x64, 0x00, 0x20, 0xAC, 0x2C, 0xA8, 0x07,
       0x80, 0x22, 0x5E, 0x59, 0xB8, 0x08, 0x08, 0x0A, 0x00, 0x00, 0x03, 0x03,
       0xE8, 0x00, 0x00, 0x9C, 0x41, 0x08]
  | .s2_2304x1296 =>
      [0x00, 0x00, 0x00, 0x01, 0x67, 0x64, 0x00, 0x20, 0xAC, 0x2C, 0xA8, 0x02,
       0x40, 0x0A, 0x32, 0x6E, 0x02, 0x02, 0x02, 0x80, 0x00, 0x00, 0xFA, 0x00,
       0x00, 0x27, 0x10, 0x42]
  | .s3_1920x1080 =>
      [0x00, 0x00, 0x00, 0x01, 0x67, 0x64, 0x00, 0x20, 0xAC, 0x2C, 0xA8, 0x07,
       0x80, 0x22, 0x5E, 0x59, 0xA8, 0x08, 0x08, 0x0A, 0x00, 0x00, 0x03, 0x03,
       0xE8, 0x00, 0x00, 0x9C, 0x41, 0x08]
  | .s3_2304x1296 =>
      [0x00, 0x00, 0x00, 0x01, 0x67, 0x64, 0x00, 0x20, 0xAC, 0x2C, 0xA8, 0x02,
       0x40, 0x0A, 0x32, 0x6A, 0x02, 0x02, 0x02, 0x80, 0x00, 0x00, 0xFA, 0x00,
       0x00, 0x27, 0x10, 0x42]

/-- What the detection looks for. -/
inductive Pattern
  | sps4 (t : Template)
  | sps5_1920x1080
  | sps5_2_1920x1080
  | sps5_3_2304x1296
  | sps4Start
  | sps5Start
  deriving DecidableEq, Repr

def Pattern.bytes : Pattern → Bytes
  | .sps4 t => t.sps
  | .sps5_1920x1080 =>
      [0x00, 0x00, 0x00, 0x01, 0x42, 0x01, 0x01, 0x01, 0x60, 0x00, 0x00, 0x03,
       0x00, 0x00, 0x03, 0x00, 0x00, 0x03, 0x00, 0x00, 0x03, 0x00, 0x7B, 0xA0,
       0x03, 0xC0, 0x80, 0x10, 0xE7, 0xF9, 0x6B, 0xB9, 0x12, 0x20, 0xB2, 0xFC,
       0xF3, 0xCF, 0x3C, 0xF3, 0xCF, 0x3C, 0xF3, 0xCF, 0x3C, 0xF3, 0xCF, 0x3C,
       0xF3, 0xCB, 0x73, 0x70, 0x10, 0x10, 0x10, 0x08]
  | .sps5_2_1920x1080 =>
      [0x00, 0x00, 0x00, 0x01, 0x42, 0x01, 0x01, 0x01, 0x60, 0x00, 0x00, 0x03,
       0x00, 0x00, 0x03, 0x00, 0x00, 0x03, 0x00, 0x00, 0x03, 0x00, 0xBA, 0xA0,
       0x03, 0xC0, 0x80, 0x10, 0xE7, 0xF9, 0x6B, 0xB9, 0x12, 0x20, 0xB2, 0xFC,
       0xF3, 0xCF, 0x3C, 0xF3, 0xCF, 0x3C, 0xF3, 0xCF, 0x3C, 0xF3, 0xCF, 0x3C,
       0xF3, 0xCB, 0x73, 0x70, 0x10, 0x10, 0x10, 0x08]
  | .sps5_3_2304x1296 =>
      [0x00, 0x00, 0x00, 0x01, 0x42, 0x01, 0x01, 0x01, 0x60, 0x00, 0x00, 0x03,
       0x00, 0x00, 0x03, 0x00, 0x00, 0x03, 0x00, 0x00, 0x03, 0x00, 0xBA, 0xA0,
       0x01, 0x20, 0x20, 0x05, 0x11, 0xFE, 0x5A, 0xEE, 0x44, 0x88, 0x8B, 0xF2,
       0xDC, 0xD4, 0x04, 0x04, 0x04, 0x02]
  | .sps4Start =>
      [0x00, 0x00, 0x00, 0x01, 0x67]
  | .sps5Start =>
      [0x00, 0x00, 0x00, 0x01, 0x42]

inductive Codec
  | h264
  | h265
  deriving DecidableEq, Repr

def Pattern.codec : Pattern → Codec
  | .sps4 _ | .sps4Start => .h264
  | .sps5_1920x1080 | .sps5_2_1920x1080 | .sps5_3_2304x1296 | .sps5Start => .h265

/-- `sps_type_low` or `sps_type_high` after the match. -/
def Pattern.spsType : Pattern → Nat
  | .sps4 .s640x360 => 0x0101
  | .sps4 .s2_640x360 => 0x0201
  | .sps4 .s3_640x360 => 0x0401
  | .sps4 .s1920x1080 => 0x0102
  | .sps4 .s2304x1296 => 0x0103
  | .sps4 .s2_1920x1080 => 0x0202
  | .sps4 .s2_2304x1296 => 0x0203
  | .sps4 .s3_1920x1080 => 0x0402
  | .sps4 .s3_2304x1296 => 0x0403
  | .sps5_1920x1080 => 0x0802
  | .sps5_2_1920x1080 => 0x1002
  | .sps5_3_2304x1296 => 0x2003
  | .sps4Start | .sps5Start => 0x0000

/-- The patterns a low SPS is compared with, in this order. -/
def lowChain : List Pattern :=
  [.sps4 .s640x360, .sps4 .s2_640x360, .sps4 .s3_640x360, .sps4Start, .sps5Start]

def highChain : List Pattern :=
  [.sps4 .s1920x1080, .sps4 .s2304x1296, .sps4 .s2_1920x1080, .sps4 .s2_2304x1296,
   .sps4 .s3_1920x1080, .sps4 .s3_2304x1296, .sps5_1920x1080, .sps5_2_1920x1080,
   .sps5_3_2304x1296, .sps4Start, .sps5Start]

/-! ## 2. A frame -/

/-- A frame behind the walk: its address, its header and the memory it is read from. The walk lets
    through what is in the mapping and has a length that can be. -/
structure HandedFrame (g : Geometry) where
  addr : Int
  header : FrameHeader
  mem : Mem
  mapped : 0 ≤ addr ∧ addr ≤ g.size
  lenOk : header.len ≤ g.size - g.offset - g.header.size

inductive FrameType
  | none
  | low
  | high
  | aac
  deriving DecidableEq, Repr

/-- `frame_type`. -/
def FrameHeader.frameType (h : FrameHeader) : FrameType :=
  if h.type &&& 0x0800 ≠ 0 then .low
  else if h.type &&& 0x0400 ≠ 0 then .high
  else if h.type &&& 0x0100 ≠ 0 then .aac
  else .none

variable {g : Geometry}

/-- `buf_idx_start`: behind the header, and behind the prefix of an SPS. -/
def HandedFrame.start (f : HandedFrame g) : Int :=
  if f.header.isSps then cbMove g f.addr (g.header.size + 6) else cbMove g f.addr g.header.size

/-- `frame_len`. -/
def HandedFrame.len (f : HandedFrame g) : Int :=
  if f.header.isSps then f.header.len - 6 else f.header.len

/-- `cb_memcmp(str1, str2, sizeof(str1)) == 0`. -/
def cbMemcmp (g : Geometry) (m : Mem) (str1 : Bytes) (str2 : Int) : Bool :=
  if str2 + str1.length > g.size then
    let k := (g.size - str2).toNat
    readMem m str2 k = str1.take k && readMem m g.offset (str1.length - k) = str1.drop k
  else readMem m str2 str1.length = str1

/-! ## 3. The detection -/

/-- `stream_type`, no codec where it is `CODEC_NONE`. -/
structure StreamType where
  codecLow : Option Codec
  spsTypeLow : Nat
  codecHigh : Option Codec
  spsTypeHigh : Nat
  deriving DecidableEq, Repr

/-- `stream_type` and what the program does not keep: the patterns that decided it. -/
structure Stage where
  types : StreamType
  lowMatch : Option Pattern
  highMatch : Option Pattern

def unset : Stage := ⟨⟨none, 0, none, 0⟩, none, none⟩

/-- The first pattern of the chain at the SPS. -/
def matchOf (chain : List Pattern) (f : HandedFrame g) : Option Pattern :=
  chain.find? fun p => cbMemcmp g f.mem p.bytes (cbMove g f.addr (g.header.size + 6))

/-- "Autodetect stream type (only the 1st time)". -/
def detect (s : Stage) (f : HandedFrame g) : Stage :=
  if s.types.codecLow = none ∧ f.header.type &&& 0x0800 ≠ 0 then
    match matchOf lowChain f with
    | some p =>
      { s with
        types := { s.types with codecLow := some p.codec, spsTypeLow := p.spsType }
        lowMatch := some p }
    | none => s
  else if s.types.codecHigh = none ∧ f.header.type &&& 0x0400 ≠ 0 then
    match matchOf highChain f with
    | some p =>
      { s with
        types := { s.types with codecHigh := some p.codec, spsTypeHigh := p.spsType }
        highMatch := some p }
    | none => s
  else s

/-- What a frame does to `stream_type`. -/
def observe (s : Stage) (f : HandedFrame g) : Stage := if f.header.isSps then detect s f else s

/-! ## 4. Handing on -/

/-- `resolution`. -/
inductive Wanted
  | none
  | low
  | high
  | both
  deriving DecidableEq, Repr

structure Settings where
  resolution : Wanted
  audio : Nat
  spsTimingInfo : Bool

inductive Program
  | rRTSPServer
  | h264grabber
  deriving DecidableEq, Repr

/-- `output_queue_low` or `fOutLow`, and so on. -/
inductive Output
  | low
  | high
  | audio
  deriving DecidableEq, Repr

/-- The value of `audio` that asks for AAC. -/
def Program.aac : Program → Nat
  | .rRTSPServer => 2
  | .h264grabber => 1

/-- `write_enable`. -/
def writeEnable (p : Program) (cfg : Settings) : FrameType → Bool
  | .low => cfg.resolution = .low ∨ cfg.resolution = .both
  | .high => cfg.resolution = .high ∨ cfg.resolution = .both
  | .aac => cfg.audio = p.aac
  | .none => false

/-- `p_output_queue` or `fOut`, once `write_enable` is set. -/
def Program.select (p : Program) (cfg : Settings) (st : StreamType) (ft : FrameType) :
    Option Output :=
  match p with
  | .rRTSPServer =>
    if ft = .low ∧ cfg.resolution ≠ .high ∧ st.codecLow ≠ none then some .low
    else if ft = .high ∧ cfg.resolution ≠ .low ∧ st.codecHigh ≠ none then some .high
    else if ft = .aac ∧ cfg.audio ≠ 0 then some .audio
    else none
  | .h264grabber =>
    if ft = .low ∧ (cfg.resolution = .low ∨ cfg.resolution = .both) ∧ st.codecLow ≠ none then
      some .low
    else if ft = .high ∧ (cfg.resolution = .high ∨ cfg.resolution = .both) ∧ st.codecHigh ≠ none then
      some .high
    else if ft = .aac ∧ cfg.audio = 1 then some .audio
    else none

/-- "Overwrite SPS or VPS with one that contains timing info at 20 fps": the array, if any. No VPS
    is overwritten. -/
def replacement (cfg : Settings) (st : StreamType) (h : FrameHeader) : Option Template :=
  if cfg.spsTimingInfo ∧ h.isSps then
    match h.frameType with
    | .low =>
      if st.spsTypeLow &&& 0x0101 ≠ 0 then some .s640x360
      else if st.spsTypeLow &&& 0x0201 ≠ 0 then some .s2_640x360
      else if st.spsTypeLow &&& 0x0401 ≠ 0 then some .s3_640x360
      else none
    | .high =>
      if st.spsTypeHigh = 0x0102 then some .s1920x1080
      else if st.spsTypeHigh = 0x0202 then some .s2_1920x1080
      else if st.spsTypeHigh = 0x0402 then some .s3_1920x1080
      else if st.spsTypeHigh = 0x0103 then some .s2304x1296
      else if st.spsTypeHigh = 0x0203 then some .s2_2304x1296
      else if st.spsTypeHigh = 0x0403 then some .s3_2304x1296
      else none
    | .aac => none
    | .none => none
  else none

/-- `copy_src`, or the first argument of `fwrite`. -/
inductive CopySrc
  | ring (addr : Int)
  | array (t : Template)
  deriving DecidableEq, Repr

structure Emitted where
  output : Output
  src : CopySrc
  len : Int
  deriving DecidableEq, Repr

/-- `copy_src` and `frame_len`. -/
def copyOf (cfg : Settings) (st : StreamType) (f : HandedFrame g) : CopySrc × Int :=
  match replacement cfg st f.header with
  | some t => (.array t, t.ti.length)
  | none => (.ring f.start, f.len)

/-- The length a frame is dropped by: the server asks for it after the replacement, the grabber
    before. -/
def Program.guarded (p : Program) (cfg : Settings) (st : StreamType) (f : HandedFrame g) : Int :=
  match p with
  | .rRTSPServer => (copyOf cfg st f).2
  | .h264grabber => f.len

/-- Handing a frame on, once it was observed. -/
def handOn (p : Program) (cfg : Settings) (st : StreamType) (f : HandedFrame g) : Option Emitted :=
  if writeEnable p cfg f.header.frameType then
    match p.select cfg st f.header.frameType with
    | none => none
    | some o =>
      if p.guarded cfg st f > 0 then some ⟨o, (copyOf cfg st f).1, (copyOf cfg st f).2⟩ else none
  else none

/-- `stream_type` behind the frames, from the start on. -/
def stageAfter (fs : List (HandedFrame g)) : Stage := run observe unset fs

/-- An SPS of the low stream, of whatever length. -/
def HandedFrame.lowSps (f : HandedFrame g) : Prop := f.header.isSps ∧ f.header.type &&& 0x0800 ≠ 0

instance (f : HandedFrame g) : Decidable f.lowSps := inferInstanceAs (Decidable (_ ∧ _))

/-- The pattern the first low SPS matched that matches one. -/
def recognizedLow (fs : List (HandedFrame g)) : Option Pattern :=
  fs.findSome? fun f => if f.lowSps then matchOf lowChain f else none

/-- The pattern the stream of an output matched. -/
def Stage.matched (s : Stage) : Output → Option Pattern
  | .low => s.lowMatch
  | .high => s.highMatch
  | .audio => none

/-- The frame is handed on as it is, or as the variant of the template its stream matched. -/
def KeepsProfile (s : Stage) (f : HandedFrame g) (e : Emitted) : Prop :=
  (e.src = .ring f.start ∧ e.len = f.len) ∨
    ∃ t, s.matched e.output = some (.sps4 t) ∧ e.src = .array t ∧ e.len = t.ti.length

/-- Every SPS handed on for low or high keeps the profile of its stream. -/
def ProfileKept (p : Program) (cfg : Settings) (fs : List (HandedFrame g)) : Prop :=
  ∀ pre f, pre ++ [f] <+: fs → ∀ e, handOn p cfg (stageAfter (pre ++ [f])).types f = some e →
    f.header.isSps → e.output ≠ .audio → KeepsProfile (stageAfter (pre ++ [f])) f e

/-! ## 5. What the numbers stand for -/

/-- The variables hold what belongs to the patterns matched. -/
structure Stage.Ok (s : Stage) : Prop where
  codecLow : s.types.codecLow = s.lowMatch.map Pattern.codec
  spsTypeLow : s.types.spsTypeLow = (s.lowMatch.map Pattern.spsType).getD 0
  lowMem : ∀ p, s.lowMatch = some p → p ∈ lowChain
  codecHigh : s.types.codecHigh = s.highMatch.map Pattern.codec
  spsTypeHigh : s.types.spsTypeHigh = (s.highMatch.map Pattern.spsType).getD 0
  highMem : ∀ p, s.highMatch = some p → p ∈ highChain

theorem unset_ok : unset.Ok := by
  constructor <;> simp [unset]

theorem matchOf_mem {chain : List Pattern} {f : HandedFrame g} {p : Pattern}
    (h : matchOf chain f = some p) : p ∈ chain := List.mem_of_find?_eq_some h

theorem detect_ok {s : Stage} (hs : s.Ok) (f : HandedFrame g) : (detect s f).Ok := by
  unfold detect
  split
  · split
    · rename_i p hp
      exact ⟨rfl, rfl, fun q hq => Option.some.inj hq ▸ matchOf_mem hp, hs.codecHigh,
        hs.spsTypeHigh, hs.highMem⟩
    · exact hs
  · split
    · split
      · rename_i p hp
        exact ⟨hs.codecLow, hs.spsTypeLow, hs.lowMem, rfl, rfl,
          fun q hq => Option.some.inj hq ▸ matchOf_mem hp⟩
      · exact hs
    · exact hs

theorem observe_ok (s : Stage) (f : HandedFrame g) (hs : s.Ok) : (observe s f).Ok := by
  unfold observe
  split
  · exact detect_ok hs f
  · exact hs

theorem stageAfter_ok (fs : List (HandedFrame g)) : (stageAfter fs).Ok :=
  run_inv observe_ok unset_ok fs

/-- **The array for a low SPS**: whichever of the three templates the stream matched, it is the
    first one's. -/
theorem replacement_low {cfg : Settings} {s : Stage} {h : FrameHeader} (hs : s.Ok)
    (hsps : h.isSps) (hlow : h.frameType = .low) :
    replacement cfg s.types h =
      if cfg.spsTimingInfo then
        match s.lowMatch with
        | some (.sps4 _) => some .s640x360
        | _ => none
      else none := by
  unfold replacement
  rw [hlow, hs.spsTypeLow, hsps]
  cases hm : s.lowMatch with
  | none => simp
  | some p =>
    have hp := hs.lowMem p hm
    simp only [lowChain, List.mem_cons, List.not_mem_nil, or_false] at hp
    rcases hp with rfl | rfl | rfl | rfl | rfl <;> simp [Pattern.spsType]

/-- **The array for a high SPS** is that of the template the stream matched. -/
theorem replacement_high {cfg : Settings} {s : Stage} {h : FrameHeader} (hs : s.Ok)
    (hsps : h.isSps) (hhigh : h.frameType = .high) :
    replacement cfg s.types h =
      if cfg.spsTimingInfo then
        match s.highMatch with
        | some (.sps4 t) => some t
        | _ => none
      else none := by
  unfold replacement
  rw [hhigh, hs.spsTypeHigh, hsps]
  cases hm : s.highMatch with
  | none => simp
  | some p =>
    have hp := hs.highMem p hm
    simp only [highChain, List.mem_cons, List.not_mem_nil, or_false] at hp
    rcases hp with rfl | rfl | rfl | rfl | rfl | rfl | rfl | rfl | rfl | rfl | rfl <;>
      simp [Pattern.spsType]

/-! ## 6. The detection of the low stream -/

theorem frameType_low {h : FrameHeader} : h.frameType = .low ↔ h.type &&& 0x0800 ≠ 0 := by
  unfold FrameHeader.frameType
  split
  · simp_all
  · split
    · simp_all
    · split <;> simp_all

theorem detect_lowMatch_kept {s : Stage} {f : HandedFrame g}
    (h : ¬ (s.types.codecLow = none ∧ f.header.type &&& 0x0800 ≠ 0)) :
    (detect s f).lowMatch = s.lowMatch := by
  unfold detect
  rw [if_neg h]
  split
  · split <;> rfl
  · rfl

theorem detect_lowMatch {s : Stage} {f : HandedFrame g}
    (h : s.types.codecLow = none ∧ f.header.type &&& 0x0800 ≠ 0) :
    (detect s f).lowMatch = (matchOf lowChain f).or s.lowMatch := by
  unfold detect
  rw [if_pos h]
  cases matchOf lowChain f <;> rfl

theorem observe_lowMatch {s : Stage} (hs : s.Ok) (f : HandedFrame g) :
    (observe s f).lowMatch =
      s.lowMatch.or (if f.lowSps then matchOf lowChain f else none) := by
  have hnone : s.types.codecLow = none ↔ s.lowMatch = none := by
    rw [hs.codecLow, Option.map_eq_none_iff]
  by_cases hlow : f.lowSps
  · rw [if_pos hlow, observe, if_pos hlow.1]
    cases hm : s.lowMatch with
    | none => rw [detect_lowMatch ⟨hnone.mpr hm, hlow.2⟩, hm, Option.or_none, Option.none_or]
    | some p =>
      have hknown : s.types.codecLow ≠ none := fun hc => by simp [hnone.mp hc] at hm
      rw [detect_lowMatch_kept fun hc => hknown hc.1, hm, Option.some_or]
  · rw [if_neg hlow, Option.or_none]
    unfold observe
    split
    · rename_i hsps
      exact detect_lowMatch_kept fun hc => hlow ⟨hsps, hc.2⟩
    · rfl

/-- **The low stream's pattern is the one its first SPS matched that matches any.** -/
theorem lowMatch_eq (fs : List (HandedFrame g)) : (stageAfter fs).lowMatch = recognizedLow fs := by
  induction fs using List.reverseRecOn with
  | nil => rfl
  | append_singleton fs f ih =>
    have hstep : (stageAfter (fs ++ [f])).lowMatch = (observe (stageAfter fs) f).lowMatch := by
      unfold stageAfter
      rw [run_concat]
    rw [hstep, observe_lowMatch (stageAfter_ok fs), ih]
    unfold recognizedLow
    rw [List.findSome?_append]
    simp

/-! ## 7. The profile -/

theorem handOn_eq_some {p : Program} {cfg : Settings} {st : StreamType} {f : HandedFrame g}
    {e : Emitted} :
    handOn p cfg st f = some e ↔
      writeEnable p cfg f.header.frameType ∧ p.select cfg st f.header.frameType = some e.output ∧
        p.guarded cfg st f > 0 ∧ e.src = (copyOf cfg st f).1 ∧ e.len = (copyOf cfg st f).2 := by
  unfold handOn
  constructor
  · intro h
    split at h
    · rename_i hwrite
      split at h
      · cases h
      · rename_i o ho
        split at h
        · rename_i hlen
          obtain rfl := Option.some.inj h
          exact ⟨hwrite, ho, hlen, rfl, rfl⟩
        · cases h
    · cases h
  · rintro ⟨hwrite, ho, hlen, hsrc, hl⟩
    rw [if_pos hwrite, ho]
    simp only [if_pos hlen, ← hsrc, ← hl]

/-- The output is that of the frame's type. -/
theorem select_cases {p : Program} {cfg : Settings} {st : StreamType} {ft : FrameType} {o : Output}
    (h : p.select cfg st ft = some o) :
    (o = .low ∧ ft = .low) ∨ (o = .high ∧ ft = .high) ∨ (o = .audio ∧ ft = .aac) := by
  have chain : ∀ (a b c : Prop) [Decidable a] [Decidable b] [Decidable c],
      (if ft = .low ∧ a then some Output.low
        else if ft = .high ∧ b then some .high
        else if ft = .aac ∧ c then some .audio else none) = some o →
      (o = .low ∧ ft = .low) ∨ (o = .high ∧ ft = .high) ∨ (o = .audio ∧ ft = .aac) := by
    intro a b c _ _ _ h
    split at h
    · rename_i hc
      exact .inl ⟨(Option.some.inj h).symm, hc.1⟩
    · split at h
      · rename_i hc
        exact .inr (.inl ⟨(Option.some.inj h).symm, hc.1⟩)
      · split at h
        · rename_i hc
          exact .inr (.inr ⟨(Option.some.inj h).symm, hc.1⟩)
        · cases h
  cases p with
  | rRTSPServer => exact chain _ _ _ h
  | h264grabber => exact chain _ _ _ h

theorem select_low {p : Program} {cfg : Settings} {st : StreamType}
    (hwrite : writeEnable p cfg .low) (hcodec : st.codecLow ≠ none) :
    p.select cfg st .low = some .low := by
  have hwanted : cfg.resolution = .low ∨ cfg.resolution = .both := of_decide_eq_true hwrite
  cases p with
  | rRTSPServer =>
    exact if_pos ⟨rfl, by rcases hwanted with h | h <;> rw [h] <;> decide, hcodec⟩
  | h264grabber => exact if_pos ⟨rfl, hwanted, hcodec⟩

/-- What becomes of a low SPS when the stream matched a template. -/
theorem handOn_lowSps {p : Program} {cfg : Settings} {s : Stage} (hs : s.Ok) {f : HandedFrame g}
    {t : Template} (htiming : cfg.spsTimingInfo) (hsps : f.lowSps)
    (hwrite : writeEnable p cfg .low) (hlen : p = .h264grabber → 0 < f.len)
    (hm : s.lowMatch = some (.sps4 t)) :
    handOn p cfg s.types f =
      some ⟨.low, .array .s640x360, Template.s640x360.ti.length⟩ := by
  have hft := frameType_low.mpr hsps.2
  have hcopy : copyOf cfg s.types f =
      (CopySrc.array .s640x360, (Template.s640x360.ti.length : Int)) := by
    unfold copyOf
    rw [replacement_low hs hsps.1 hft, if_pos htiming, hm]
  have hcodec : s.types.codecLow ≠ none := by
    rw [hs.codecLow, hm]
    exact Option.some_ne_none _
  rw [handOn_eq_some, hft, hcopy]
  refine ⟨hwrite, select_low hwrite hcodec, ?_, rfl, rfl⟩
  cases p with
  | rRTSPServer =>
    unfold Program.guarded
    rw [hcopy]
    exact (by decide : (Template.s640x360.ti.length : Int) > 0)
  | h264grabber => exact hlen rfl

/-- **No SPS is given the profile of another template exactly where no low SPS is handed on of a
    stream that matched the second or the third low template.** -/
theorem profile_kept_iff (p : Program) (cfg : Settings) (fs : List (HandedFrame g)) :
    ProfileKept p cfg fs ↔
      (cfg.spsTimingInfo → ∀ pre f, pre ++ [f] <+: fs → f.lowSps → writeEnable p cfg .low →
        (p = .h264grabber → 0 < f.len) →
          recognizedLow (pre ++ [f]) ≠ some (.sps4 .s2_640x360) ∧
            recognizedLow (pre ++ [f]) ≠ some (.sps4 .s3_640x360)) := by
  constructor
  · intro h htiming pre f hpre hsps hwrite hlen
    have hfirst : ∀ t, recognizedLow (pre ++ [f]) = some (.sps4 t) → t = .s640x360 := by
      intro t ht
      rw [← lowMatch_eq] at ht
      have hemit := handOn_lowSps (stageAfter_ok _) htiming hsps hwrite hlen ht
      rcases h pre f hpre _ hemit hsps.1 (by decide) with ⟨hsrc, -⟩ | ⟨t', ht', hsrc, -⟩
      · cases hsrc
      · have hmatch : (stageAfter (pre ++ [f])).lowMatch = some (.sps4 t') := ht'
        rw [ht] at hmatch
        cases hmatch
        exact (CopySrc.array.inj hsrc).symm
    exact ⟨fun ht => absurd (hfirst _ ht) (by decide), fun ht => absurd (hfirst _ ht) (by decide)⟩
  · intro h pre f hpre e he hsps haudio
    obtain ⟨hwrite, hout, hlen, hsrc, hl⟩ := handOn_eq_some.mp he
    have hok := stageAfter_ok (pre ++ [f])
    unfold KeepsProfile
    rw [hsrc, hl]
    unfold copyOf
    cases hrep : replacement cfg (stageAfter (pre ++ [f])).types f.header with
    | none => exact .inl ⟨rfl, rfl⟩
    | some t =>
      refine .inr ⟨t, ?_, rfl, rfl⟩
      have htiming : cfg.spsTimingInfo := by
        unfold replacement at hrep
        split at hrep
        · rename_i hc
          exact hc.1
        · cases hrep
      rcases select_cases hout with ⟨ho, hft⟩ | ⟨ho, hft⟩ | ⟨ho, -⟩
      · rw [ho]
        change (stageAfter (pre ++ [f])).lowMatch = _
        have hlow : f.lowSps := ⟨hsps, frameType_low.mp hft⟩
        have hgrab : p = .h264grabber → 0 < f.len := by
          rintro rfl
          exact hlen
        obtain ⟨h2, h3⟩ := h htiming pre f hpre hlow (hft ▸ hwrite) hgrab
        rw [replacement_low hok hsps hft, if_pos htiming] at hrep
        rw [← lowMatch_eq] at h2 h3
        cases hm : (stageAfter (pre ++ [f])).lowMatch with
        | none =>
          rw [hm] at hrep
          cases hrep
        | some q =>
          rw [hm] at hrep h2 h3
          have hq := hok.lowMem q hm
          simp only [lowChain, List.mem_cons, List.not_mem_nil, or_false] at hq
          rcases hq with rfl | rfl | rfl | rfl | rfl
          · cases hrep
            rfl
          · exact absurd rfl h2
          · exact absurd rfl h3
          · cases hrep
          · cases hrep
      · rw [ho]
        change (stageAfter (pre ++ [f])).highMatch = _
        rw [replacement_high hok hsps hft, if_pos htiming] at hrep
        split at hrep
        · rename_i t' hm
          rw [hm, Option.some.inj hrep]
        · cases hrep
      · exact absurd ho haudio

/-- A low SPS that is the second template, at the start of the ring. -/
def secondTemplate : HandedFrame ⟨300, 400, .h22, by decide⟩ where
  addr := 300
  header := ⟨26, 0, 0, 0x0802, 0⟩
  mem := fun a => Template.s2_640x360.sps.getD (a - 328).toNat 0
  mapped := by decide
  lenOk := by decide

/-- Both programs hand it on as the variant of the first template. -/
theorem secondTemplate_replaced :
    ¬ ProfileKept .rRTSPServer ⟨.both, 0, true⟩ [secondTemplate] ∧
      ¬ ProfileKept .h264grabber ⟨.both, 0, true⟩ [secondTemplate] := by
  constructor <;>
  · intro h
    have hkeeps := h [] secondTemplate (List.prefix_refl _)
      ⟨.low, .array .s640x360, 27⟩ (by decide) (by decide) (by decide)
    rcases hkeeps with ⟨hsrc, -⟩ | ⟨t, ht, hsrc, -⟩
    · cases hsrc
    · cases hsrc
      exact absurd ht (by decide)

end YiHack.Video
