/-
  File:      YiHack/Audio/TalkBack.lean
  Subject:   `PCMFileSink::addData`: which bytes of the talk-back stream enter the FIFO.

  What the speaker, `open`, `fdopen` and `write` answer is data of the call. A call whose answers
  end before its loop does has not come back: it is the last one of the run.

  * `addData` -- one call; `writeLoop` its loop;
  * `Fate` -- what became of each byte; `Aligned` -- accepted bytes in front of discarded ones are
    whole samples;
  * `WholeSamples` -- the loop of a call is not left inside a sample;
  * **`sink_aligned_iff`** -- the bytes are aligned throughout exactly where every call is so.
-/
import YiHack.Audio.Speaker
import YiHack.General.Run
import YiHack.General.Samples
import Mathlib.Data.List.DropRight

namespace YiHack.Audio.TalkBack

open General Samples

/-! ## 1. Decoding -/

/-- The bits of an `int16_t`. -/
def int16 (v : Int) : UInt16 := UInt16.ofNat (v % 2 ^ 16).toNat

/-- `exp_lut`. -/
def EXP_LUT : List Int := [0, 132, 396, 924, 1980, 4092, 8316, 16764]

/-- `linear16FromuLaw`. -/
def linear16FromuLaw (uLawByte : UInt8) : UInt16 :=
  let u := 255 - uLawByte.toNat
  let sign := u / 128
  let exponent := u / 16 % 8
  let mantissa := u % 16
  let result := EXP_LUT.getD exponent 0 + mantissa * 2 ^ (exponent + 3)
  int16 (if sign = 1 then -result else result)

/-- `alaw_decode`. -/
def ALAW_DECODE : List Int := [
  -5504, -5248, -6016, -5760, -4480, -4224, -4992, -4736,
  -7552, -7296, -8064, -7808, -6528, -6272, -7040, -6784,
  -2752, -2624, -3008, -2880, -2240, -2112, -2496, -2368,
  -3776, -3648, -4032, -3904, -3264, -3136, -3520, -3392,
  -22016, -20992, -24064, -23040, -17920, -16896, -19968, -18944,
  -30208, -29184, -32256, -31232, -26112, -25088, -28160, -27136,
  -11008, -10496, -12032, -11520, -8960, -8448, -9984, -9472,
  -15104, -14592, -16128, -15616, -13056, -12544, -14080, -13568,
  -344, -328, -376, -360, -280, -264, -312, -296,
  -472, -456, -504, -488, -408, -392, -440, -424,
  -88, -72, -120, -104, -24, -8, -56, -40,
  -216, -200, -248, -232, -152, -136, -184, -168,
  -1376, -1312, -1504, -1440, -1120, -1056, -1248, -1184,
  -1888, -1824, -2016, -1952, -1632, -1568, -1760, -1696,
  -688, -656, -752, -720, -560, -528, -624, -592,
  -944, -912, -1008, -976, -816, -784, -880, -848,
  5504, 5248, 6016, 5760, 4480, 4224, 4992, 4736,
  7552, 7296, 8064, 7808, 6528, 6272, 7040, 6784,
  2752, 2624, 3008, 2880, 2240, 2112, 2496, 2368,
  3776, 3648, 4032, 3904, 3264, 3136, 3520, 3392,
  22016, 20992, 24064, 23040, 17920, 16896, 19968, 18944,
  30208, 29184, 32256, 31232, 26112, 25088, 28160, 27136,
  11008, 10496, 12032, 11520, 8960, 8448, 9984, 9472,
  15104, 14592, 16128, 15616, 13056, 12544, 14080, 13568,
  344, 328, 376, 360, 280, 264, 312, 296,
  472, 456, 504, 488, 408, 392, 440, 424,
  88, 72, 120, 104, 24, 8, 56, 40,
  216, 200, 248, 232, 152, 136, 184, 168,
  1376, 1312, 1504, 1440, 1120, 1056, 1248, 1184,
  1888, 1824, 2016, 1952, 1632, 1568, 1760, 1696,
  688, 656, 752, 720, 560, 528, 624, 592,
  944, 912, 1008, 976, 816, 784, 880, 848]

/-- `linear16FromaLaw`. -/
def linear16FromaLaw (aLawByte : UInt8) : UInt16 := int16 (ALAW_DECODE.getD aLawByte.toNat 0)

/-! ## 2. The sink -/

inductive Law
  | ulaw
  | alaw
  deriving DecidableEq

/-- What the constructor sets, behind the checks of `createNew`; `speaker` is whether `fSpeaker`
    is there. -/
structure Config where
  destSampleRate : Nat
  srcLaw : Law
  enableSpeaker : Bool
  speaker : Bool
  bufferSize : Nat
  rate : destSampleRate = 8000 ∨ destSampleRate = 16000
  allocated : bufferSize * 4 < 2 ^ 32

/-- `factor`. -/
def Config.factor (k : Config) : Nat := k.destSampleRate / 8000

/-- `fPCMBuffer`, as the bytes it holds for `data`. -/
def Config.pcm (k : Config) (data : Bytes) : Bytes :=
  encode (data.flatMap fun b => List.replicate k.factor
    (match k.srcLaw with | .ulaw => linear16FromuLaw b | .alaw => linear16FromaLaw b))

/-- What became of a byte: it is in the FIFO, or it never will be. -/
inductive Fate
  | accepted (byte : UInt8)
  | discarded
  deriving DecidableEq

def Fate.isAccepted : Fate → Bool
  | .accepted _ => true
  | .discarded => false

/-- `outFid` is whether `fOutFid` is there, `inCall` whether a call has not come back. -/
structure Sink where
  outFid : Bool
  inCall : Bool
  fates : List Fate

/-- A sink `createNew` has made. -/
def Sink.created : Sink := ⟨false, false, []⟩

/-- The argument of a call, `none` a null pointer, and what the call meets. -/
structure Packet where
  data : Option Bytes
  switchOn : Int
  opened : Bool
  fdopened : Bool
  writes : List WriteResult

/-- How the loop stands when its answers are used up or it is left. -/
structure Loop where
  accepted : Bytes
  discarded : Bytes
  closed : Bool
  inLoop : Bool

/-- The loop of `addData`, `bytes` what is left. -/
def writeLoop : Bytes → List WriteResult → Loop
  | [], _ => ⟨[], [], false, false⟩
  | _ :: _, [] => ⟨[], [], false, true⟩
  | b :: bs, .wrote n :: rs =>
    if n = 0 then ⟨[], b :: bs, false, false⟩
    else
      let rest := writeLoop ((b :: bs).drop n) rs
      { rest with accepted := (b :: bs).take n ++ rest.accepted }
  | b :: bs, .interrupted :: rs => writeLoop (b :: bs) rs
  | b :: bs, .wouldBlock :: _ => ⟨[], b :: bs, false, false⟩
  | b :: bs, .failed :: _ => ⟨[], b :: bs, true, false⟩

/-- The data of a packet, where it gets to the loop: whole, the speaker on and the FIFO open. -/
def reaches (k : Config) (s : Sink) (p : Packet) : Option Bytes :=
  match p.data with
  | none => none
  | some data =>
    if data.length = 0 ∨ data.length > k.bufferSize then none
    else if k.enableSpeaker = true ∧ (k.speaker = false ∨ p.switchOn < 0) then none
    else if s.outFid = false ∧ (p.opened = false ∨ p.fdopened = false) then none
    else some data

/-- `PCMFileSink::addData`. -/
def addData (k : Config) (s : Sink) (p : Packet) : Sink :=
  if s.inCall = true then s
  else
    match reaches k s p with
    | none => { s with fates := s.fates ++ List.replicate (p.data.getD []).length .discarded }
    | some data =>
      let l := writeLoop (k.pcm data) p.writes
      { outFid := !l.closed
        inCall := l.inLoop
        fates := s.fates ++ (l.accepted.map .accepted ++
          List.replicate l.discarded.length .discarded) }

/-- Bytes accepted since the latest one that was not. -/
def trailing (fates : List Fate) : Nat := (fates.rtakeWhile Fate.isAccepted).length

/-- Each maximal run of accepted bytes that is followed by a discarded one is whole samples. -/
def Aligned (fates : List Fate) : Prop :=
  ∀ before after, fates = before ++ .discarded :: after → trailing before % 2 = 0

/-! ## 3. The condition -/

/-- The loop goes on behind this answer. -/
def goesOn : WriteResult → Bool
  | .wrote n => n != 0
  | .interrupted => true
  | .wouldBlock => false
  | .failed => false

def count : WriteResult → Nat
  | .wrote n => n
  | _ => 0

/-- How many bytes the answers take in front of one that ends the loop. -/
def taken (rs : List WriteResult) : Nat := ((rs.takeWhile goesOn).map count).sum

/-- If an answer ends the loop of the call before all bytes are in the FIFO, those that are in it
    are whole samples. -/
def WholeSamples (k : Config) (s : Sink) (p : Packet) : Prop :=
  s.inCall = false → ∀ data ∈ reaches k s p, taken p.writes < (k.pcm data).length →
    p.writes.all goesOn = false → taken p.writes % 2 = 0

/-! ## 4. The loop -/

theorem taken_wrote {n : Nat} (hn : n ≠ 0) (rs : List WriteResult) :
    taken (.wrote n :: rs) = n + taken rs := by
  unfold taken
  rw [List.takeWhile_cons_of_pos (by simpa [goesOn] using hn), List.map_cons, List.sum_cons]
  rfl

theorem taken_interrupted (rs : List WriteResult) : taken (.interrupted :: rs) = taken rs := by
  unfold taken
  rw [List.takeWhile_cons_of_pos rfl, List.map_cons, List.sum_cons]
  exact Nat.zero_add _

theorem taken_ends {r : WriteResult} (h : goesOn r = false) (rs : List WriteResult) :
    taken (r :: rs) = 0 := by
  unfold taken
  rw [List.takeWhile_cons_of_neg (by rw [h]; decide)]
  rfl

/-- What a loop comes to by the bytes left and the answers. -/
structure Loop.Of (l : Loop) (bytes : Bytes) (rs : List WriteResult) : Prop where
  accepted : l.accepted = bytes.take (taken rs)
  discarded : l.discarded = if rs.all goesOn then [] else bytes.drop (taken rs)
  inLoop : l.inLoop = (rs.all goesOn && decide (taken rs < bytes.length))

/-- An answer that ends the loop. -/
theorem Loop.of_ends {r : WriteResult} (h : goesOn r = false) (bytes : Bytes)
    (rs : List WriteResult) (closed : Bool) :
    Loop.Of ⟨[], bytes, closed, false⟩ bytes (r :: rs) where
  accepted := by rw [taken_ends h, List.take_zero]
  discarded := by rw [taken_ends h, List.all_cons, h]; rfl
  inLoop := by rw [List.all_cons, h]; rfl

/-- The bytes in front are accepted, the others are discarded unless the loop waits. -/
theorem writeLoop_of (bytes : Bytes) (rs : List WriteResult) :
    (writeLoop bytes rs).Of bytes rs := by
  fun_induction writeLoop bytes rs with
  | case1 rs => exact ⟨by simp, by simp, by simp⟩
  | case2 b bs => exact ⟨rfl, rfl, by simp [taken]⟩
  | case3 b bs rs => exact Loop.of_ends rfl _ _ _
  | case4 b bs n rs hn rest ih =>
    have hgoes : goesOn (.wrote n) = true := by simpa [goesOn] using hn
    refine ⟨?_, ?_, ?_⟩
    · rw [taken_wrote hn, List.take_add, ← ih.accepted]
    · rw [taken_wrote hn, List.all_cons, hgoes, Bool.true_and, ← List.drop_drop]
      exact ih.discarded
    · rw [taken_wrote hn, List.all_cons, hgoes, Bool.true_and]
      refine ih.inLoop.trans (congrArg _ (decide_eq_decide.mpr ?_))
      rw [List.length_drop]
      omega
  | case5 b bs rs ih =>
    refine ⟨?_, ?_, ?_⟩
    · rw [taken_interrupted]
      exact ih.accepted
    · rw [taken_interrupted]
      exact ih.discarded
    · rw [taken_interrupted]
      exact ih.inLoop
  | case6 b bs rs => exact Loop.of_ends rfl _ _ _
  | case7 b bs rs => exact Loop.of_ends rfl _ _ _

/-! ## 5. The history -/

section History

variable {fs : List Fate}

theorem trailing_concat (fs : List Fate) (x : Fate) :
    trailing (fs ++ [x]) = if x.isAccepted then trailing fs + 1 else 0 := by
  unfold trailing
  rw [List.rtakeWhile_concat]
  split
  · rw [List.length_append, List.length_singleton]
  · rfl

theorem aligned_nil : Aligned [] := by
  intro before after h
  simp at h

theorem aligned_concat (fs : List Fate) (x : Fate) :
    Aligned (fs ++ [x]) ↔ Aligned fs ∧ (x = .discarded → trailing fs % 2 = 0) := by
  constructor
  · intro h
    refine ⟨fun before after heq => h before (after ++ [x]) (by rw [heq]; simp), ?_⟩
    rintro rfl
    exact h fs [] rfl
  · rintro ⟨hfs, hx⟩ before after heq
    obtain rfl | ⟨after, y, rfl⟩ := List.eq_nil_or_concat after
    · obtain ⟨rfl, hlast⟩ := List.append_inj' heq rfl
      exact hx (by simpa using hlast)
    · rw [List.concat_eq_append, ← List.cons_append, ← List.append_assoc] at heq
      exact hfs before after (List.append_inj' heq rfl).1

theorem trailing_accepted (fs : List Fate) (bytes : Bytes) :
    trailing (fs ++ bytes.map .accepted) = trailing fs + bytes.length := by
  induction bytes generalizing fs with
  | nil => simp
  | cons b bytes ih =>
    rw [List.map_cons, List.append_cons, ih, trailing_concat, List.length_cons]
    simp only [Fate.isAccepted, if_true]
    omega

theorem aligned_accepted (fs : List Fate) (bytes : Bytes) :
    Aligned (fs ++ bytes.map .accepted) ↔ Aligned fs := by
  induction bytes generalizing fs with
  | nil => simp
  | cons b bytes ih =>
    rw [List.map_cons, List.append_cons, ih, aligned_concat]
    simp

theorem trailing_discarded (fs : List Fate) (n : Nat) :
    trailing (fs ++ List.replicate n .discarded) = if n = 0 then trailing fs else 0 := by
  cases n with
  | zero => simp
  | succ n =>
    rw [List.replicate_succ', ← List.append_assoc, trailing_concat]
    rfl

theorem aligned_discarded (fs : List Fate) (n : Nat) :
    Aligned (fs ++ List.replicate n .discarded) ↔ Aligned fs ∧ (n ≠ 0 → trailing fs % 2 = 0) := by
  induction n with
  | zero => simp
  | succ n ih =>
    rw [List.replicate_succ', ← List.append_assoc, aligned_concat, ih, trailing_discarded]
    by_cases hn : n = 0
    · simp [hn]
    · simp [hn]

end History

/-! ## 6. Every run -/

/-- Between calls the bytes accepted last are whole samples: what is discarded starts anew, what is
    accepted in full is whole. -/
def Between (s : Sink) : Prop := s.inCall = true ∨ trailing s.fates % 2 = 0

/-- `left` at first. -/
theorem pcm_length (k : Config) (data : Bytes) :
    (k.pcm data).length = 2 * (data.length * k.factor) := by
  unfold Config.pcm
  rw [encode_length, List.length_flatMap]
  simp only [List.length_replicate, List.map_const', List.sum_replicate_nat]

theorem pcm_even (k : Config) (data : Bytes) : (k.pcm data).length % 2 = 0 := by
  rw [pcm_length]
  omega

/-- The history behind a call that gets to its loop. -/
theorem addData_fates {k : Config} {s : Sink} {p : Packet} {data : Bytes} (hcall : s.inCall = false)
    (hdata : reaches k s p = some data) :
    (addData k s p).fates = s.fates ++ ((k.pcm data).take (taken p.writes)).map .accepted ++
      List.replicate (if p.writes.all goesOn then 0 else (k.pcm data).length - taken p.writes)
        .discarded := by
  unfold addData
  rw [if_neg (by rw [hcall]; decide), hdata]
  simp only [(writeLoop_of _ _).accepted, (writeLoop_of _ _).discarded]
  rw [List.append_assoc]
  split
  · rfl
  · rw [List.length_drop]

theorem addData_inCall {k : Config} {s : Sink} {p : Packet} {data : Bytes}
    (hcall : s.inCall = false) (hdata : reaches k s p = some data) :
    (addData k s p).inCall =
      (p.writes.all goesOn && decide (taken p.writes < (k.pcm data).length)) := by
  unfold addData
  rw [if_neg (by rw [hcall]; decide), hdata]
  exact (writeLoop_of _ _).inLoop

/-- The history behind a call that is dropped. -/
theorem addData_dropped {k : Config} {s : Sink} {p : Packet} (hcall : s.inCall = false)
    (hdata : reaches k s p = none) :
    (addData k s p).fates = s.fates ++ List.replicate (p.data.getD []).length .discarded := by
  unfold addData
  rw [if_neg (by rw [hcall]; decide), hdata]

theorem addData_inside {k : Config} {s : Sink} {p : Packet} (hcall : s.inCall = true) :
    addData k s p = s := by
  unfold addData
  rw [if_pos hcall]

theorem addData_between (k : Config) (s : Sink) (p : Packet) (h : Between s) :
    Between (addData k s p) := by
  cases hcall : s.inCall with
  | true =>
    rw [addData_inside hcall]
    exact h
  | false =>
    have heven : trailing s.fates % 2 = 0 := h.resolve_left (by rw [hcall]; decide)
    cases hdata : reaches k s p with
    | none =>
      refine .inr ?_
      rw [addData_dropped hcall hdata, trailing_discarded]
      split <;> omega
    | some data =>
      have hpcm := pcm_even k data
      unfold Between
      rw [addData_inCall hcall hdata, addData_fates hcall hdata, trailing_discarded,
        trailing_accepted, List.length_take]
      by_cases hall : p.writes.all goesOn = true
      · rw [hall, Bool.true_and, decide_eq_true_eq, if_pos rfl, if_pos rfl]
        omega
      · rw [if_neg hall]
        right
        split <;> omega

/-- A call keeps the bytes aligned exactly where it leaves its loop behind whole samples. -/
theorem addData_aligned_iff (k : Config) (s : Sink) (p : Packet) (h : Between s)
    (haligned : Aligned s.fates) : WholeSamples k s p ↔ Aligned (addData k s p).fates := by
  unfold WholeSamples
  cases hcall : s.inCall with
  | true =>
    rw [addData_inside hcall]
    exact ⟨fun _ => haligned, fun _ hfalse => absurd hfalse (by decide)⟩
  | false =>
    have heven : trailing s.fates % 2 = 0 := h.resolve_left (by rw [hcall]; decide)
    cases hdata : reaches k s p with
    | none =>
      rw [addData_dropped hcall hdata, aligned_discarded]
      exact ⟨fun _ => ⟨haligned, fun _ => heven⟩, fun _ _ data hmem => by cases hmem⟩
    | some data =>
      rw [addData_fates hcall hdata, aligned_discarded, aligned_accepted, trailing_accepted,
        List.length_take]
      constructor
      · intro hwhole
        refine ⟨haligned, fun hrest => ?_⟩
        by_cases hall : p.writes.all goesOn = true
        · rw [if_pos hall] at hrest
          exact absurd rfl hrest
        · rw [if_neg hall] at hrest
          have htaken := hwhole rfl data rfl (by omega) (by simpa using hall)
          omega
      · rintro ⟨-, hrest⟩ - _ ⟨⟩ hlt hends
        rw [hends] at hrest
        have := hrest (by simp only [Bool.false_eq_true, if_false]; omega)
        omega

/-- **Alignment.** For every sink and all calls, whatever is met: the bytes that enter the FIFO are
    whole samples in front of discarded data, at every moment, exactly where each call leaves its
    loop behind whole samples. -/
theorem sink_aligned_iff (k : Config) (ps : List Packet) :
    (∀ n, Aligned (run (addData k) Sink.created (ps.take n)).fates) ↔
      StepsMeet (addData k) (WholeSamples k) Sink.created ps :=
  stepsMeet_iff (I := fun s => Aligned s.fates) (addData_between k) (addData_aligned_iff k)
    (.inr rfl) aligned_nil ps

/-- What the subsession makes for 8 kHz, without the speaker. -/
def telephone : Config where
  destSampleRate := 8000
  srcLaw := .ulaw
  enableSpeaker := false
  speaker := false
  bufferSize := 8192
  rate := .inl rfl
  allocated := by decide

/-- 3000 samples of silence, of which the FIFO takes 4097 bytes. -/
def halfTaken : Packet :=
  ⟨some (List.replicate 3000 255), 0, true, true, [.wrote 4097, .wouldBlock]⟩

/-- An odd number of bytes is in the FIFO when the rest is discarded. -/
theorem partial_write_misaligns :
    ¬ ∀ (k : Config) (ps : List Packet), Aligned (run (addData k) Sink.created ps).fates := by
  intro h
  have haligned := h telephone [halfTaken]
  rw [run_cons, run_nil] at haligned
  have hwhole := (addData_aligned_iff telephone Sink.created halfTaken (.inr rfl)
    aligned_nil).mpr haligned
  have hreach : reaches telephone Sink.created halfTaken = some (List.replicate 3000 255) := by
    unfold reaches halfTaken telephone
    simp only [List.length_replicate]
    rfl
  have hodd := hwhole rfl _ hreach
    (by rw [pcm_length, List.length_replicate]; decide) (by decide)
  exact absurd hodd (by decide)

end YiHack.Audio.TalkBack
