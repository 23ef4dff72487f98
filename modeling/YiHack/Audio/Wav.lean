/-
  File:      YiHack/Audio/Wav.lean
  Subject:   `speaker.c`: the reader of stored speaker files, for a `long` of 32 bits.

  The messages on standard error are left out. The walk over the chunks may go on for ever: it has
  fuel.

  * `decodeAudioFile` -- the function of the source; `walkChunks` and `copyBytes` its loops;
  * `Chain` -- the chunks met one after the other, by the seeks of the code or by the sizes they
    declare; `chain_declared` compares the two;
  * `walkChunks_iff` -- the walk is the chain of its seeks;
  * **`decodeAudioFile_correct_iff`** -- where it ends, and writes what it should.
-/
import YiHack.General.Bytes
import YiHack.General.Orbit
import Mathlib.Data.Finset.Range

namespace YiHack.Audio

open General

/-! ## 1. Copying -/

/-- Standard output: what was written, and how many bytes it has room for, if there is an end. -/
structure Stdout where
  written : Bytes
  room : Option Nat

/-- `fwrite`, and whether it wrote all. -/
def Stdout.write (o : Stdout) (bytes : Bytes) : Bool × Stdout :=
  match o.room with
  | none => (true, ⟨o.written ++ bytes, none⟩)
  | some n => (decide (bytes.length ≤ n), ⟨o.written ++ bytes.take n, some (n - bytes.length)⟩)

/-- `copy_bytes`, from what is left of the input. -/
def copyBytes (input : Bytes) (count : Nat) (out : Stdout) : Bool × Stdout :=
  if count = 0 then (true, out)
  else
    let buf := input.take (min count 4096)
    if buf = [] then (false, out)
    else
      match out.write buf with
      | (false, out) => (false, out)
      | (true, out) => copyBytes (input.drop buf.length) (count - buf.length) out
termination_by count
decreasing_by
  have hpos := List.length_pos_iff.mpr ‹¬ input.take (min count 4096) = []›
  omega

/-- `copy_to_eof`, from what is left of the input. -/
def copyToEof (input : Bytes) (out : Stdout) : Bool × Stdout :=
  if input = [] then (true, out)
  else
    match out.write (input.take 4096) with
    | (false, out) => (false, out)
    | (true, out) => copyToEof (input.drop 4096) out
termination_by input.length
decreasing_by
  have hpos := List.length_pos_iff.mpr ‹¬ input = []›
  rw [List.length_drop]
  omega

/-! ## 2. The walk over the chunks -/

def readLe16 (p : Bytes) (i : Nat) : Nat := byteAt p i + byteAt p (i + 1) * 2 ^ 8

def readLe32 (p : Bytes) (i : Nat) : Nat :=
  byteAt p i + byteAt p (i + 1) * 2 ^ 8 + byteAt p (i + 2) * 2 ^ 16 + byteAt p (i + 3) * 2 ^ 24

/-- A chunk by its header. -/
structure Chunk where
  offset : Nat
  id : Bytes
  size : Nat

def Chunk.isFmt (c : Chunk) : Bool := c.id == ascii "fmt "

def Chunk.isData (c : Chunk) : Bool := c.id == ascii "data"

/-- `payload_offset`. -/
def Chunk.payload (c : Chunk) : Nat := c.offset + 8

/-- The header at `o`, if all of it is there. -/
def chunkAt (f : Bytes) (o : Nat) : Option Chunk :=
  if o + 8 ≤ f.length then some ⟨o, slice f o 4, readLe32 f (o + 4)⟩ else none

/-- A number as a `long`. -/
def long (z : Int) : Int := z.bmod (2 ^ 32)

/-- `skip`. -/
def Chunk.skip (c : Chunk) : Int := long (long c.size + (c.size % 2 : Nat))

/-- `payload_offset + skip`. -/
def Chunk.target (c : Chunk) : Int := long (c.payload + c.skip)

/-- `fmt_valid` of the 16 bytes at `p`. -/
def fmtValidAt (f : Bytes) (p : Nat) : Bool :=
  readLe16 f p == 1 && readLe16 f (p + 2) == 1 && readLe32 f (p + 4) == 16000 &&
    readLe16 f (p + 14) == 16 && readLe16 f (p + 12) == 2

/-- `fmt_seen`, `fmt_valid`, and `data_offset` with `data_size` unless it is negative. -/
structure Seen where
  fmtSeen : Bool
  fmtValid : Bool
  data : Option (Nat × Nat)

def Seen.start : Seen := ⟨false, false, none⟩

/-- `fseek` to the next chunk. -/
def seekChunk (c : Chunk) (s : Seen) : Option (Nat × Seen) :=
  if c.target < 0 then none else some (c.target.toNat, s)

/-- The body of the loop: where the next chunk is, or nothing where the function returns 1. -/
def turn (f : Bytes) (s : Seen) (c : Chunk) : Option (Nat × Seen) :=
  -- `ftell` has no `long` for the place
  if 2 ^ 31 ≤ c.payload then none
  else if c.isFmt then
    if c.size < 16 ∨ f.length < c.payload + 16 then none
    else seekChunk c { s with fmtSeen := true, fmtValid := fmtValidAt f c.payload }
  else if c.isData && s.data.isNone then seekChunk c { s with data := some (c.payload, c.size) }
  else seekChunk c s

/-- The loop over the chunks from `o` on: none where it takes more than `fuel` turns, `some none`
    where the function returns 1 from within. -/
def walkChunks (f : Bytes) : Nat → Nat → Seen → Option (Option Seen)
  | 0, _, _ => none
  | fuel + 1, o, s =>
    match chunkAt f o with
    | none => some (some s)
    | some c =>
      match turn f s c with
      | none => some none
      | some (o', s') => walkChunks f fuel o' s'

/-- What the function returns, what it has written, and `data_offset` with `data_size` where it
    copies them. -/
structure Decoded where
  rc : Int
  out : Stdout
  data : Option (Nat × Nat)

/-- `RIFF` and `WAVE`. -/
def IsWave (f : Bytes) : Prop :=
  12 ≤ f.length ∧ slice f 0 4 = ascii "RIFF" ∧ slice f 8 4 = ascii "WAVE"

instance (f : Bytes) : Decidable (IsWave f) := inferInstanceAs (Decidable (_ ∧ _))

def Decoded.failed (room : Option Nat) : Decoded := ⟨1, ⟨[], room⟩, none⟩

/-- `decode_audio_file` behind the loop. -/
def copyData (room : Option Nat) (f : Bytes) (s : Seen) : Decoded :=
  if !s.fmtSeen || !s.fmtValid then .failed room
  else
    match s.data with
    | none => .failed room
    | some (offset, size) =>
      if size = 0 then .failed room
      else
        let (ok, out) := copyBytes (f.drop offset) size ⟨[], room⟩
        ⟨if ok then 0 else 1, out, some (offset, size)⟩

/-- `decode_audio_file` for a file that may not open; none where the walk takes more than `fuel`
    turns. -/
def decodeAudioFile (room : Option Nat) (fuel : Nat) (file : Option Bytes) : Option Decoded :=
  match file with
  | none => some (.failed room)
  | some f =>
    if f.length < 12 then some (.failed room)
    else if IsWave f then
      match walkChunks f fuel 12 .start with
      | none => none
      | some none => some (.failed room)
      | some (some s) => some (copyData room f s)
    else
      let (ok, out) := copyToEof f ⟨[], room⟩
      some ⟨if ok then 0 else 1, out, none⟩

/-! ## 3. What is asked of it -/

/-- The chunks from `o` on, up to where there is no header. -/
inductive Chain (next : Chunk → Option Nat) (f : Bytes) : Nat → List Chunk → Prop
  | stop {o : Nat} (h : chunkAt f o = none) : Chain next f o []
  | step {o o' : Nat} {c : Chunk} {cs : List Chunk} (hc : chunkAt f o = some c)
      (hnext : next c = some o') (h : Chain next f o' cs) : Chain next f o (c :: cs)

/-- Where the next chunk is by the declared size, odd sizes padded. -/
def Chunk.declaredEnd (c : Chunk) : Nat := c.payload + c.size + c.size % 2

def declared (c : Chunk) : Option Nat := some c.declaredEnd

def lastFmt (cs : List Chunk) : Option Chunk := (cs.filter Chunk.isFmt).getLast?

/-- Uncompressed PCM, 16 bits, mono, 16000 Hz. -/
structure IsPcm (f : Bytes) (c : Chunk) : Prop where
  format : readLe16 f c.payload = 1
  channels : readLe16 f (c.payload + 2) = 1
  rate : readLe32 f (c.payload + 4) = 16000
  bits : readLe16 f (c.payload + 14) = 16

/-- What was written is the payload of the first data chunk, all of it, and the last fmt chunk is one
    of PCM. -/
structure Exact (f : Bytes) (cs : List Chunk) (r : Decoded) : Prop where
  payload : ∃ d, cs.find? Chunk.isData = some d ∧ r.data = some (d.payload, d.size) ∧
    r.out.written = slice f d.payload d.size ∧ r.out.written.length = d.size
  pcm : ∃ m, lastFmt cs = some m ∧ IsPcm f m

/-- **The reader ends, and what it accepts is written as the file declares it.** -/
structure Correct (room : Option Nat) (f : Bytes) : Prop where
  ends : ∃ fuel r, decodeAudioFile room fuel (some f) = some r
  exact : ∀ fuel r, decodeAudioFile room fuel (some f) = some r → r.rc = 0 → IsWave f →
    ∃ cs, Chain declared f 12 cs ∧ Exact f cs r

/-! ## 4. When it is correct -/

/-- The seeks of the code: where the next chunk is, unless the function returns 1. -/
def seeks (f : Bytes) (c : Chunk) : Option Nat :=
  if 2 ^ 31 ≤ c.payload ∨ (c.isFmt ∧ (c.size < 16 ∨ f.length < c.payload + 16)) ∨ c.target < 0 then
    none
  else some c.target.toNat

/-- The next place of a chunk header. -/
def nextOffset (f : Bytes) (o : Nat) : Option Nat := (chunkAt f o).bind (seeks f)

/-- The seek leads back, by 2^32 bytes from where the chunk ends. -/
def Chunk.TurnsBack (c : Chunk) : Prop := 2 ^ 32 ≤ c.declaredEnd

instance (c : Chunk) : Decidable c.TurnsBack := inferInstanceAs (Decidable (_ ≤ _))

/-- The chunks up to the first one whose seek leads back. -/
def untilTurn : List Chunk → List Chunk
  | [] => []
  | c :: cs => if c.TurnsBack then [c] else c :: untilTurn cs

/-- The last fmt chunk is valid, the first data chunk is not empty and all there, and there is room
    to write it. -/
structure Acceptable (room : Option Nat) (f : Bytes) (cs : List Chunk) : Prop where
  format : ∃ m, lastFmt cs = some m ∧ fmtValidAt f m.payload = true
  payload : ∃ d, cs.find? Chunk.isData = some d ∧ 0 < d.size ∧ d.payload + d.size ≤ f.length ∧
    ∀ n ∈ room, d.size ≤ n

/-- **The condition**: the seeks come to no place of a header twice; and where one of them leads back
    and the file is acceptable by the chunks they lead to, a data chunk comes before, and the last
    fmt chunk by the declared sizes is one of PCM. -/
structure SoundChunks (room : Option Nat) (f : Bytes) : Prop where
  once : ¬ Orbit.Cycles (nextOffset f) 12
  met : ∀ cs declaredChunks, Chain (seeks f) f 12 cs → Chain declared f 12 declaredChunks →
    (∃ c ∈ cs, c.TurnsBack) → Acceptable room f cs →
      (∃ d ∈ untilTurn cs, d.isData = true) ∧ ∃ m, lastFmt declaredChunks = some m ∧ IsPcm f m

/-! ## 5. Copying -/

/-- There is room for `n` bytes. -/
def Stdout.Fits (o : Stdout) (n : Nat) : Prop := ∀ m ∈ o.room, n ≤ m

theorem Stdout.Fits.mono {o : Stdout} {m n : Nat} (h : o.Fits n) (hmn : m ≤ n) : o.Fits m :=
  fun k hk => hmn.trans (h k hk)

theorem Stdout.write_fst (o : Stdout) (bytes : Bytes) :
    (o.write bytes).1 = true ↔ o.Fits bytes.length := by
  obtain ⟨written, room⟩ := o
  cases room with
  | none => exact iff_of_true rfl nofun
  | some m => simp [Stdout.write, Stdout.Fits]

theorem Stdout.write_snd {o : Stdout} {bytes : Bytes} (h : o.Fits bytes.length) :
    (o.write bytes).2.written = o.written ++ bytes ∧
      ∀ n, (o.write bytes).2.Fits n ↔ o.Fits (bytes.length + n) := by
  obtain ⟨written, room⟩ := o
  cases room with
  | none => exact ⟨rfl, fun n => iff_of_true nofun nofun⟩
  | some m =>
    have hm : bytes.length ≤ m := h m rfl
    refine ⟨?_, fun n => ?_⟩
    · show written ++ bytes.take m = _
      rw [List.take_of_length_le hm]
    · show (∀ k ∈ some (m - bytes.length), n ≤ k) ↔ ∀ k ∈ some m, bytes.length + n ≤ k
      simp only [Option.mem_def, Option.some.injEq, forall_eq']
      omega

/-- **All is copied exactly where it is there and there is room for it.** -/
theorem copyBytes_spec (input : Bytes) (count : Nat) (out : Stdout) :
    ((copyBytes input count out).1 = true ↔ count ≤ input.length ∧ out.Fits count) ∧
      ((copyBytes input count out).1 = true →
        (copyBytes input count out).2.written = out.written ++ input.take count) := by
  fun_induction copyBytes input count out with
  | case1 input out =>
    refine ⟨iff_of_true rfl ⟨Nat.zero_le _, fun m _ => Nat.zero_le m⟩, fun _ => ?_⟩
    rw [List.take_zero, List.append_nil]
  | case2 input count out hcount buf hbuf =>
    -- the end of the file
    have hlen := congrArg List.length hbuf
    rw [List.length_take, List.length_nil] at hlen
    exact ⟨iff_of_false Bool.false_ne_true fun h => by omega, fun h => nomatch h⟩
  | case3 input count out hcount buf hbuf out' hwrite =>
    have hno : ¬ out.Fits buf.length := by
      rw [← Stdout.write_fst, hwrite]
      exact Bool.false_ne_true
    have hlen : buf.length ≤ count := by
      rw [List.length_take]
      omega
    exact ⟨iff_of_false Bool.false_ne_true fun h => hno (h.2.mono hlen), fun h => nomatch h⟩
  | case4 input count out hcount buf hbuf out' hwrite ih =>
    have hfits : out.Fits buf.length := by
      rw [← Stdout.write_fst, hwrite]
    obtain ⟨hwritten, hroom⟩ := Stdout.write_snd hfits
    rw [hwrite] at hwritten hroom
    have hlen : buf.length ≤ count ∧ buf.length ≤ input.length := by
      rw [List.length_take]
      omega
    have hbuf : buf = input.take buf.length := List.prefix_iff_eq_take.mp (List.take_prefix _ _)
    obtain ⟨hok, hout⟩ := ih
    refine ⟨?_, fun h => ?_⟩
    · rw [hok, hroom, List.length_drop, Nat.add_sub_cancel' hlen.1]
      exact and_congr_left fun _ => by omega
    · rw [hout h, hwritten, List.append_assoc]
      congr 1
      calc buf ++ (input.drop buf.length).take (count - buf.length)
        _ = input.take buf.length ++ (input.drop buf.length).take (count - buf.length) := by
          rw [← hbuf]
        _ = input.take count := by rw [← List.take_add, Nat.add_sub_cancel' hlen.1]

/-! ## 6. One chunk -/

theorem readLe32_lt (p : Bytes) (i : Nat) : readLe32 p i < 2 ^ 32 := by
  have h0 := byteAt_lt p i
  have h1 := byteAt_lt p (i + 1)
  have h2 := byteAt_lt p (i + 2)
  have h3 := byteAt_lt p (i + 3)
  rw [readLe32]
  omega

theorem chunkAt_some {f : Bytes} {o : Nat} {c : Chunk} (h : chunkAt f o = some c) :
    c.offset = o ∧ o + 8 ≤ f.length ∧ c.size < 2 ^ 32 := by
  rw [chunkAt] at h
  split at h
  · next hlen =>
    obtain rfl := Option.some.inj h
    exact ⟨rfl, hlen, readLe32_lt f _⟩
  · nomatch h

/-- What is added up on the way does not matter. -/
theorem target_eq_long (c : Chunk) : c.target = long c.declaredEnd := by
  have hend : (c.declaredEnd : Int) = c.payload + (c.size + (c.size % 2 : Nat)) := by
    rw [Chunk.declaredEnd]
    omega
  rw [hend, Chunk.target, Chunk.skip, long, long, long, long, Int.bmod_add_bmod, Int.add_bmod_bmod]

/-- A `long` of a place that a seek may be asked for. -/
theorem long_cases {z : Nat} (hz : z < 2 ^ 32 + 2 ^ 31) (hlong : 0 ≤ long z) :
    (long z).toNat < 2 ^ 31 ∧
      z = if 2 ^ 32 ≤ z then (long z).toNat + 2 ^ 32 else (long z).toNat := by
  have hmod : (z : Int) % 2 ^ 32 < 2 ^ 31 ∧ long z = z % 2 ^ 32 ∨
      2 ^ 31 ≤ (z : Int) % 2 ^ 32 ∧ long z = z % 2 ^ 32 - 2 ^ 32 := by
    rw [long, Int.bmod_def]
    split <;> omega
  by_cases hback : 2 ^ 32 ≤ z
  · rw [if_pos hback]
    omega
  · rw [if_neg hback]
    omega

/-- **The seek is to the end of the chunk, or 2^32 bytes before it.** -/
theorem target_eq {c : Chunk} (hsize : c.size < 2 ^ 32) (hpayload : c.payload < 2 ^ 31)
    (htarget : 0 ≤ c.target) :
    c.target.toNat < 2 ^ 31 ∧
      c.declaredEnd = if c.TurnsBack then c.target.toNat + 2 ^ 32 else c.target.toNat := by
  rw [target_eq_long] at htarget ⊢
  refine long_cases ?_ htarget
  rw [Chunk.declaredEnd]
  omega

/-- What a chunk leaves noted. -/
def visit (f : Bytes) (s : Seen) (c : Chunk) : Seen :=
  if c.isFmt then { s with fmtSeen := true, fmtValid := fmtValidAt f c.payload }
  else if c.isData && s.data.isNone then { s with data := some (c.payload, c.size) }
  else s

/-- A turn of the loop: the seek, and what the chunk leaves noted. -/
theorem turn_eq (f : Bytes) (s : Seen) (c : Chunk) :
    turn f s c = (seeks f c).map fun o => (o, visit f s c) := by
  by_cases hpayload : 2 ^ 31 ≤ c.payload
  · rw [turn, seeks, if_pos hpayload, if_pos (.inl hpayload), Option.map_none]
  · by_cases htarget : c.target < 0
    · simp [turn, seeks, seekChunk, htarget]
    · by_cases hfmt : c.isFmt = true
      · by_cases hbad : c.size < 16 ∨ f.length < c.payload + 16
        · simp [turn, seeks, hfmt, hbad]
        · simp only [turn, seeks, seekChunk, visit, hpayload, htarget, hfmt, hbad, if_true,
            if_false, and_false, or_self, Option.map_some]
      · by_cases hdata : (c.isData && s.data.isNone) = true
        · simp only [turn, seeks, seekChunk, visit, hpayload, htarget, hfmt, hdata, if_true,
            if_false, false_and, or_self, Option.map_some, Bool.false_eq_true]
        · simp only [turn, seeks, seekChunk, visit, hpayload, htarget, hfmt, hdata, if_false,
            false_and, or_self, Option.map_some, Bool.false_eq_true]

/-! ## 7. The chain of the seeks -/

/-- The loop is left where its turns come to an end, whatever is noted. -/
theorem walkChunks_isSome_iff (f : Bytes) (fuel o : Nat) (s : Seen) :
    (walkChunks f fuel o s).isSome ↔ Orbit.after (nextOffset f) fuel o = none := by
  induction fuel generalizing o s with
  | zero => simp [walkChunks, Orbit.after]
  | succ fuel ih =>
    rw [walkChunks, Orbit.after, nextOffset]
    cases hc : chunkAt f o with
    | none => simp
    | some c =>
      simp only [turn_eq, Option.bind_some]
      cases hseek : seeks f c with
      | none => simp
      | some o' => exact ih o' _

theorem seeks_some {f : Bytes} {c : Chunk} {o : Nat} (h : seeks f c = some o) :
    c.payload < 2 ^ 31 ∧ 0 ≤ c.target ∧ c.target.toNat = o := by
  rw [seeks] at h
  split at h
  · nomatch h
  · next hno =>
    simp only [not_or, Nat.not_le, Int.not_lt] at hno
    exact ⟨hno.1, hno.2.2, Option.some.inj h⟩

theorem nextOffset_lt {f : Bytes} {o o' : Nat} (h : nextOffset f o = some o') : o' < 2 ^ 31 := by
  obtain ⟨c, hc, hseek⟩ := Option.bind_eq_some_iff.mp h
  obtain ⟨hpayload, htarget, rfl⟩ := seeks_some hseek
  exact (target_eq (chunkAt_some hc).2.2 hpayload htarget).1

/-- **The loop comes to an end exactly where the seeks come to no place twice.** -/
theorem walkChunks_ends_iff (f : Bytes) :
    (∃ fuel, (walkChunks f fuel 12 .start).isSome) ↔ ¬ Orbit.Cycles (nextOffset f) 12 := by
  have hends : (∃ fuel, (walkChunks f fuel 12 .start).isSome) ↔ Orbit.Ends (nextOffset f) 12 :=
    exists_congr fun fuel => walkChunks_isSome_iff f fuel 12 .start
  rw [hends]
  refine Orbit.ends_iff (S := Finset.range (2 ^ 31)) (fun a _ b h => ?_) ?_
  · exact Finset.mem_range.mpr (nextOffset_lt h)
  · exact Finset.mem_range.mpr (by decide)

/-- **A walk that is not broken off is the chain of its seeks.** -/
theorem walkChunks_iff {f : Bytes} {o : Nat} {s s' : Seen} :
    (∃ fuel, walkChunks f fuel o s = some (some s')) ↔
      ∃ cs, Chain (seeks f) f o cs ∧ s' = cs.foldl (visit f) s := by
  constructor
  · rintro ⟨fuel, h⟩
    induction fuel generalizing o s with
    | zero => nomatch h
    | succ fuel ih =>
      rw [walkChunks] at h
      cases hc : chunkAt f o with
      | none =>
        rw [hc] at h
        exact ⟨[], .stop hc, (Option.some.inj (Option.some.inj h)).symm⟩
      | some c =>
        simp only [hc, turn_eq] at h
        cases hseek : seeks f c with
        | none =>
          rw [hseek] at h
          nomatch h
        | some o' =>
          rw [hseek] at h
          obtain ⟨cs, hcs, rfl⟩ := ih h
          exact ⟨c :: cs, .step hc hseek hcs, rfl⟩
  · rintro ⟨cs, hcs, rfl⟩
    induction hcs generalizing s with
    | stop hc => exact ⟨1, by rw [walkChunks, hc]; rfl⟩
    | step hc hseek _ ih =>
      obtain ⟨fuel, h⟩ := ih (s := visit f s _)
      refine ⟨fuel + 1, ?_⟩
      simp only [walkChunks, hc, turn_eq, hseek]
      exact h

theorem not_isData {c : Chunk} (h : c.isFmt = true) : c.isData = false := by
  rw [Chunk.isFmt, beq_iff_eq] at h
  rw [Chunk.isData, h]
  decide

/-- `data_offset` and `data_size` are those of the first data chunk. -/
theorem foldl_visit_data (f : Bytes) (cs : List Chunk) (s : Seen) :
    (cs.foldl (visit f) s).data =
      s.data.or ((cs.find? Chunk.isData).map fun d => (d.payload, d.size)) := by
  induction cs generalizing s with
  | nil => simp
  | cons c cs ih =>
    rw [List.foldl_cons, ih, List.find?_cons, visit]
    by_cases hfmt : c.isFmt = true
    · rw [if_pos hfmt, not_isData hfmt]
    · rw [if_neg hfmt]
      cases hdata : c.isData with
      | false => simp
      | true =>
        cases hs : s.data with
        | none => simp
        | some d => simp [hs]

theorem lastFmt_cons (c : Chunk) (cs : List Chunk) :
    lastFmt (c :: cs) = (lastFmt cs).or (if c.isFmt then some c else none) := by
  rw [lastFmt, List.filter_cons]
  split
  · rw [List.getLast?_cons, Option.or_some, lastFmt]
  · rw [Option.or_none, lastFmt]

/-- `fmt_seen` and `fmt_valid` are those of the last fmt chunk. -/
theorem foldl_visit_fmt (f : Bytes) (cs : List Chunk) (s : Seen) :
    ((cs.foldl (visit f) s).fmtSeen && (cs.foldl (visit f) s).fmtValid) =
      match lastFmt cs with
      | none => s.fmtSeen && s.fmtValid
      | some m => fmtValidAt f m.payload := by
  induction cs generalizing s with
  | nil => rfl
  | cons c cs ih =>
    rw [List.foldl_cons, ih, lastFmt_cons]
    cases hlast : lastFmt cs with
    | some m => rfl
    | none =>
      rw [Option.none_or, visit]
      by_cases hfmt : c.isFmt = true
      · simp [hfmt]
      · simp only [hfmt, if_false, Bool.false_eq_true]
        split <;> rfl

/-! ## 8. The two chains -/

theorem Chain.unique {next : Chunk → Option Nat} {f : Bytes} {o : Nat} {cs ds : List Chunk}
    (hcs : Chain next f o cs) (hds : Chain next f o ds) : cs = ds := by
  induction hcs generalizing ds with
  | stop h =>
    cases hds with
    | stop => rfl
    | step hc => rw [h] at hc; nomatch hc
  | step hc hnext _ ih =>
    cases hds with
    | stop h => rw [h] at hc; nomatch hc
    | step hc' hnext' hds =>
      obtain rfl := Option.some.inj (hc.symm.trans hc')
      obtain rfl := Option.some.inj (hnext.symm.trans hnext')
      rw [ih hds]

/-- By the declared sizes the walk only goes on. -/
theorem exists_chain_declared (f : Bytes) (o : Nat) : ∃ cs, Chain declared f o cs := by
  induction hn : f.length - o using Nat.strong_induction_on generalizing o with
  | _ n ih =>
    cases hc : chunkAt f o with
    | none => exact ⟨[], .stop hc⟩
    | some c =>
      obtain ⟨rfl, hlen, -⟩ := chunkAt_some hc
      have hless : f.length - c.declaredEnd < n := by
        rw [← hn, Chunk.declaredEnd, Chunk.payload]
        omega
      obtain ⟨cs, hcs⟩ := ih _ hless c.declaredEnd rfl
      exact ⟨c :: cs, .step hc rfl hcs⟩

theorem Chain.offset_le {f : Bytes} {o : Nat} {cs : List Chunk} (h : Chain declared f o cs) :
    ∀ c ∈ cs, o ≤ c.offset := by
  induction h with
  | stop => exact nofun
  | @step o o' c cs hc hnext _ ih =>
    obtain ⟨rfl, -, -⟩ := chunkAt_some hc
    obtain rfl := Option.some.inj hnext
    refine List.forall_mem_cons.mpr ⟨le_rfl, fun d hd => ?_⟩
    have hle := ih d hd
    rw [Chunk.declaredEnd, Chunk.payload] at hle
    omega

/-- The chunks that the seeks lead to are below 2^31. -/
theorem Chain.offset_lt {f : Bytes} {o : Nat} {cs : List Chunk} (h : Chain (seeks f) f o cs) :
    ∀ c ∈ cs, c.offset < 2 ^ 31 := by
  induction h with
  | stop => exact nofun
  | step hc hseek _ ih =>
    refine List.forall_mem_cons.mpr ⟨?_, ih⟩
    have hlt := (seeks_some hseek).1
    rw [Chunk.payload] at hlt
    omega

/-- **The seeks and the declared sizes lead to the same chunks until a seek leads back.** -/
theorem chain_declared {f : Bytes} {o : Nat} {cs : List Chunk} (h : Chain (seeks f) f o cs) :
    ∃ far, Chain declared f o (untilTurn cs ++ far) ∧ (∀ c ∈ far, 2 ^ 32 ≤ c.offset) ∧
      ((¬ ∃ c ∈ cs, c.TurnsBack) → untilTurn cs ++ far = cs) := by
  induction h with
  | stop hc => exact ⟨[], .stop hc, nofun, fun _ => rfl⟩
  | @step o o' c cs hc hseek _ ih =>
    obtain ⟨hpayload, htarget, rfl⟩ := seeks_some hseek
    have hend := (target_eq (chunkAt_some hc).2.2 hpayload htarget).2
    rw [untilTurn]
    by_cases hback : c.TurnsBack
    · obtain ⟨far, hfar⟩ := exists_chain_declared f c.declaredEnd
      rw [if_pos hback]
      exact ⟨far, .step hc rfl hfar, fun d hd => hback.trans (hfar.offset_le d hd),
        fun hno => absurd ⟨c, List.mem_cons_self, hback⟩ hno⟩
    · obtain ⟨far, hchain, hfar, hsame⟩ := ih
      rw [if_neg hback] at hend ⊢
      refine ⟨far, .step hc rfl (hend ▸ hchain), hfar, fun hno => ?_⟩
      rw [List.cons_append, hsame fun ⟨d, hd, hd'⟩ => hno ⟨d, List.mem_cons_of_mem c hd, hd'⟩]

theorem untilTurn_prefix (cs : List Chunk) : untilTurn cs <+: cs := by
  induction cs with
  | nil => exact List.prefix_refl _
  | cons c cs ih =>
    rw [untilTurn]
    split
    · exact List.cons_prefix_cons.mpr ⟨rfl, List.nil_prefix⟩
    · exact List.cons_prefix_cons.mpr ⟨rfl, ih⟩

/-! ## 9. The whole function -/

section

variable {room : Option Nat} {f : Bytes}

/-- Behind the loop the data chunk is copied, if there is one and the format is valid. -/
theorem copyData_eq {s : Seen} {offset size : Nat} (hfmt : (s.fmtSeen && s.fmtValid) = true)
    (hdata : s.data = some (offset, size)) (hsize : 0 < size) :
    copyData room f s = ⟨if (copyBytes (f.drop offset) size ⟨[], room⟩).1 then 0 else 1,
      (copyBytes (f.drop offset) size ⟨[], room⟩).2, some (offset, size)⟩ := by
  have hvalid : (!s.fmtSeen || !s.fmtValid) = false := by
    rw [← Bool.not_and, hfmt]
    rfl
  rw [copyData, hvalid, if_neg Bool.false_ne_true, hdata]
  dsimp only
  rw [if_neg hsize.ne']

theorem copyData_failed {s : Seen} (h : ¬ ((s.fmtSeen && s.fmtValid) = true ∧
    ∃ offset size, s.data = some (offset, size) ∧ 0 < size)) :
    copyData room f s = .failed room := by
  rw [copyData]
  split
  · rfl
  · next hvalid =>
    split
    · rfl
    · next offset size hdata =>
      split
      · rfl
      · next hsize =>
        rw [← Bool.not_and, Bool.not_eq_true, Bool.not_eq_false'] at hvalid
        exact absurd ⟨hvalid, offset, size, hdata, Nat.pos_of_ne_zero hsize⟩ h

/-- **What is accepted behind the loop.** -/
theorem copyData_rc {s : Seen} : (copyData room f s).rc = 0 ↔
    (s.fmtSeen && s.fmtValid) = true ∧ ∃ offset size, s.data = some (offset, size) ∧ 0 < size ∧
      size ≤ f.length - offset ∧ ∀ n ∈ room, size ≤ n := by
  by_cases h : (s.fmtSeen && s.fmtValid) = true ∧
      ∃ offset size, s.data = some (offset, size) ∧ 0 < size
  · obtain ⟨hfmt, offset, size, hdata, hsize⟩ := h
    have hok := (copyBytes_spec (f.drop offset) size ⟨[], room⟩).1
    rw [List.length_drop] at hok
    rw [copyData_eq hfmt hdata hsize]
    constructor
    · intro hrc
      by_cases hcopy : (copyBytes (f.drop offset) size ⟨[], room⟩).1 = true
      · exact ⟨hfmt, offset, size, hdata, hsize, hok.mp hcopy⟩
      · rw [if_neg hcopy] at hrc
        exact absurd (show (1 : Int) = 0 from hrc) (by decide)
    · rintro ⟨-, offset', size', hdata', -, hlen, hroom⟩
      obtain ⟨rfl, rfl⟩ := Prod.mk.inj (Option.some.inj (hdata.symm.trans hdata'))
      rw [if_pos (hok.mpr ⟨hlen, hroom⟩)]
  · rw [copyData_failed h]
    refine iff_of_false (show ¬ (1 : Int) = 0 by decide) ?_
    rintro ⟨hfmt, offset, size, hdata, hsize, -⟩
    exact h ⟨hfmt, offset, size, hdata, hsize⟩

/-- What is written then. -/
theorem copyData_written {s : Seen} (h : (copyData room f s).rc = 0) :
    ∃ offset size, s.data = some (offset, size) ∧ (copyData room f s).data = some (offset, size) ∧
      (copyData room f s).out.written = slice f offset size := by
  obtain ⟨hfmt, offset, size, hdata, hsize, hlen, hroom⟩ := copyData_rc.mp h
  obtain ⟨hok, hout⟩ := copyBytes_spec (f.drop offset) size ⟨[], room⟩
  rw [List.length_drop] at hok
  rw [copyData_eq hfmt hdata hsize]
  exact ⟨offset, size, hdata, rfl, hout (hok.mpr ⟨hlen, hroom⟩)⟩

/-- **What is acceptable by the chunks of the seeks is accepted, and nothing else**; then the first
    data chunk is written. -/
theorem copyData_acceptable (cs : List Chunk) :
    ((copyData room f (cs.foldl (visit f) .start)).rc = 0 ↔ Acceptable room f cs) ∧
      (Acceptable room f cs → ∃ d, cs.find? Chunk.isData = some d ∧
        (copyData room f (cs.foldl (visit f) .start)).data = some (d.payload, d.size) ∧
        (copyData room f (cs.foldl (visit f) .start)).out.written = slice f d.payload d.size) := by
  have hfmt : ((cs.foldl (visit f) .start).fmtSeen && (cs.foldl (visit f) .start).fmtValid) = true ↔
      ∃ m, lastFmt cs = some m ∧ fmtValidAt f m.payload = true := by
    rw [foldl_visit_fmt]
    cases lastFmt cs with
    | none => exact iff_of_false Bool.false_ne_true fun ⟨_, h, _⟩ => nomatch h
    | some m => simp
  have hdata : (cs.foldl (visit f) .start).data =
      (cs.find? Chunk.isData).map fun d => (d.payload, d.size) := by
    rw [foldl_visit_data]
    rfl
  have hrc : (copyData room f (cs.foldl (visit f) .start)).rc = 0 ↔ Acceptable room f cs := by
    constructor
    · intro h
      obtain ⟨hvalid, offset, size, hd, hpos, hlen, hroom⟩ := copyData_rc.mp h
      rw [hdata] at hd
      obtain ⟨d, hfirst, heq⟩ := Option.map_eq_some_iff.mp hd
      obtain ⟨rfl, rfl⟩ := Prod.mk.inj heq
      exact ⟨hfmt.mp hvalid, d, hfirst, hpos, by omega, hroom⟩
    · rintro ⟨hvalid, d, hfirst, hpos, hlen, hroom⟩
      exact copyData_rc.mpr ⟨hfmt.mpr hvalid, d.payload, d.size, by rw [hdata, hfirst]; rfl, hpos,
        by omega, hroom⟩
  refine ⟨hrc, fun h => ?_⟩
  obtain ⟨offset, size, hd, hat, hwritten⟩ := copyData_written (hrc.mpr h)
  rw [hdata] at hd
  obtain ⟨d, hfirst, heq⟩ := Option.map_eq_some_iff.mp hd
  obtain ⟨rfl, rfl⟩ := Prod.mk.inj heq
  exact ⟨d, hfirst, hat, hwritten⟩

theorem decode_wave (hwave : IsWave f) (fuel : Nat) :
    decodeAudioFile room fuel (some f) =
      match walkChunks f fuel 12 .start with
      | none => none
      | some none => some (.failed room)
      | some (some s) => some (copyData room f s) := by
  rw [decodeAudioFile, if_neg (Nat.not_lt.mpr hwave.1), if_pos hwave]

theorem decode_ends_iff (hwave : IsWave f) :
    (∃ fuel r, decodeAudioFile room fuel (some f) = some r) ↔
      ¬ Orbit.Cycles (nextOffset f) 12 := by
  rw [← walkChunks_ends_iff]
  refine exists_congr fun fuel => ?_
  rw [decode_wave hwave]
  rcases walkChunks f fuel 12 .start with - | - | s <;> simp

/-- What the function returns 0 for. -/
theorem decode_zero_iff (hwave : IsWave f) {r : Decoded} :
    (∃ fuel, decodeAudioFile room fuel (some f) = some r) ∧ r.rc = 0 ↔
      ∃ cs, Chain (seeks f) f 12 cs ∧ Acceptable room f cs ∧
        r = copyData room f (cs.foldl (visit f) .start) := by
  constructor
  · rintro ⟨⟨fuel, h⟩, hrc⟩
    rw [decode_wave hwave] at h
    split at h
    · nomatch h
    · rw [← Option.some.inj h] at hrc
      exact absurd (show (1 : Int) = 0 from hrc) (by decide)
    · next s hwalk =>
      obtain ⟨cs, hcs, rfl⟩ := walkChunks_iff.mp ⟨fuel, hwalk⟩
      obtain rfl := Option.some.inj h
      exact ⟨cs, hcs, (copyData_acceptable cs).1.mp hrc, rfl⟩
  · rintro ⟨cs, hcs, haccept, rfl⟩
    obtain ⟨fuel, hwalk⟩ := walkChunks_iff.mpr ⟨cs, hcs, rfl⟩
    refine ⟨⟨fuel, ?_⟩, (copyData_acceptable cs).1.mpr haccept⟩
    rw [decode_wave hwave, hwalk]

theorem IsPcm.of_valid {c : Chunk} (h : fmtValidAt f c.payload = true) : IsPcm f c := by
  simp only [fmtValidAt, Bool.and_eq_true, beq_iff_eq] at h
  exact ⟨h.1.1.1.1, h.1.1.1.2, h.1.1.2, h.1.2⟩

/-- What is written is the payload of the first data chunk of the seeks. -/
theorem Acceptable.written {cs : List Chunk} (h : Acceptable room f cs) :
    ∃ d, cs.find? Chunk.isData = some d ∧
      (copyData room f (cs.foldl (visit f) .start)).data = some (d.payload, d.size) ∧
      (copyData room f (cs.foldl (visit f) .start)).out.written = slice f d.payload d.size ∧
      (copyData room f (cs.foldl (visit f) .start)).out.written.length = d.size := by
  obtain ⟨d, hfirst, hat, hwritten⟩ := (copyData_acceptable cs).2 h
  obtain ⟨d', hfirst', -, hend, -⟩ := h.payload
  obtain rfl := Option.some.inj (hfirst.symm.trans hfirst')
  exact ⟨d, hfirst, hat, hwritten, by rw [hwritten, slice_length_of_le hend]⟩

/-- A data chunk that comes before the seek that leads back is the first one either way. -/
theorem find?_untilTurn {cs far : List Chunk} (h : ∃ d ∈ untilTurn cs, d.isData = true) :
    (untilTurn cs ++ far).find? Chunk.isData = cs.find? Chunk.isData := by
  obtain ⟨rest, hrest⟩ := untilTurn_prefix cs
  obtain ⟨d, hd⟩ := Option.isSome_iff_exists.mp (List.find?_isSome.mpr h)
  conv_rhs => rw [← hrest]
  rw [List.find?_append, List.find?_append, hd, Option.some_or, Option.some_or]

theorem Correct.soundChunks (hwave : IsWave f) (h : Correct room f) : SoundChunks room f := by
  refine ⟨(decode_ends_iff hwave).mp h.ends, fun cs ds hcs hds _ haccept => ?_⟩
  obtain ⟨⟨fuel, hdecode⟩, hrc⟩ := (decode_zero_iff hwave).mpr ⟨cs, hcs, haccept, rfl⟩
  obtain ⟨ds', hds', hexact⟩ := h.exact fuel _ hdecode hrc hwave
  obtain rfl := hds.unique hds'
  refine ⟨?_, hexact.pcm⟩
  obtain ⟨d, hd, hat, -⟩ := hexact.payload
  obtain ⟨d', hd', hat', -⟩ := haccept.written
  have hoffset : d.payload = d'.payload :=
    (Prod.mk.inj (Option.some.inj (hat.symm.trans hat'))).1
  have hlow := hcs.offset_lt d' (List.mem_of_find?_eq_some hd')
  obtain ⟨far, hchain, hfar, -⟩ := chain_declared hcs
  obtain rfl := hds.unique hchain
  refine ⟨d, ?_, List.find?_some hd⟩
  rcases List.mem_append.mp (List.mem_of_find?_eq_some hd) with hmem | hmem
  · exact hmem
  · have hhigh := hfar d hmem
    rw [Chunk.payload, Chunk.payload] at hoffset
    omega

theorem SoundChunks.correct (hwave : IsWave f) (h : SoundChunks room f) : Correct room f := by
  refine ⟨(decode_ends_iff hwave).mpr h.once, fun fuel r hdecode hrc _ => ?_⟩
  obtain ⟨cs, hcs, haccept, rfl⟩ := (decode_zero_iff hwave).mp ⟨⟨fuel, hdecode⟩, hrc⟩
  obtain ⟨d, hd, hat, hwritten⟩ := haccept.written
  obtain ⟨far, hchain, -, hsame⟩ := chain_declared hcs
  refine ⟨_, hchain, ?_⟩
  by_cases hback : ∃ c ∈ cs, c.TurnsBack
  · obtain ⟨hmet, hpcm⟩ := h.met cs _ hcs hchain hback haccept
    exact ⟨⟨d, (find?_untilTurn hmet).trans hd, hat, hwritten⟩, hpcm⟩
  · rw [hsame hback]
    obtain ⟨m, hm, hvalid⟩ := haccept.format
    exact ⟨⟨d, hd, hat, hwritten⟩, m, hm, .of_valid hvalid⟩

/-- **The reader ends, and writes what the file declares, exactly where the seeks come to no place of
    a header twice and lead back only where that changes nothing.** -/
theorem decodeAudioFile_correct_iff (room : Option Nat) (f : Bytes) :
    Correct room f ↔ (IsWave f → SoundChunks room f) := by
  by_cases hwave : IsWave f
  · rw [forall_prop_of_true hwave]
    exact ⟨Correct.soundChunks hwave, SoundChunks.correct hwave⟩
  · refine iff_of_true ⟨⟨0, ?_⟩, fun _ _ _ _ h => absurd h hwave⟩ fun h => absurd h hwave
    rw [decodeAudioFile]
    split
    · exact ⟨_, rfl⟩
    · exact ⟨_, rfl⟩

/-- A chunk whose seek leads to itself. -/
def endlessWave : Bytes :=
  ascii "RIFF" ++ [12, 0, 0, 0] ++ ascii "WAVE" ++ ascii "JUNK" ++ [0xf8, 0xff, 0xff, 0xff]

/-- **A chunk of 2^32 - 8 bytes is read for ever.** -/
theorem endlessWave_endless : ¬ ∀ room f, Correct room f := by
  intro h
  have hnext : nextOffset endlessWave 12 = some 12 := by decide
  have hcycles : Orbit.Cycles (nextOffset endlessWave) 12 := ⟨12, .refl, .single hnext⟩
  have hwave : IsWave endlessWave := by decide
  exact (decode_ends_iff hwave).mp (h none endlessWave).ends hcycles

end

end YiHack.Audio
