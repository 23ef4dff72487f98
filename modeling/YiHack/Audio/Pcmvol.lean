/-
  File:      YiHack/Audio/Pcmvol.lean
  Subject:   `pcmvol.c`: the loop that changes the volume of a stream of samples.

  What is done to a sample, its gain and the limits of an `int16_t`, is a function `f` on its 16
  bits. `buffer_in` is what the stack holds at first.

  * `pcmvol` -- what is written for the chunks `read` returns;
  * `StreamFunction` -- for chunks of given lengths, the output is `f` of each sample;
  * **`pcmvol_stream_iff`** -- so it is exactly where no chunk ends inside a sample, or `f` works
    byte by byte, as gains 0 and 1 do.
-/
import YiHack.General.Samples
import YiHack.General.Run

namespace YiHack.Audio.Pcmvol

open General Samples

def BUFFER_SIZE : Nat := 4096

/-! ## 1. The loop -/

/-- What one `read` returns. -/
structure Chunk where
  bytes : Bytes
  nonempty : 0 < bytes.length
  fits : bytes.length ≤ BUFFER_SIZE

/-- `buffer_in`, full as an array is. -/
structure Buffer where
  bytes : Bytes
  full : bytes.length = BUFFER_SIZE

/-- The buffer behind a `read`: the chunk, and old bytes behind it. -/
def Buffer.read (b : Buffer) (c : Chunk) : Buffer where
  bytes := c.bytes ++ b.bytes.drop c.bytes.length
  full := by
    have hfits := c.fits
    rw [List.length_append, List.length_drop, b.full]
    omega

theorem Buffer.read_bytes (b : Buffer) (c : Chunk) :
    (b.read c).bytes = c.bytes ++ b.bytes.drop c.bytes.length := rfl

/-- The loop of `main`: every pair of the buffer is changed, `nread` bytes are written. -/
def pcmvol (f : UInt16 → UInt16) (b : Buffer) : List Chunk → Bytes
  | [] => []
  | c :: chunks =>
    (mapPairs f (b.read c).bytes).take c.bytes.length ++ pcmvol f (b.read c) chunks

/-- All that is read. -/
def stream (chunks : List Chunk) : Bytes := chunks.flatMap (·.bytes)

/-- The output is `f` of each sample, for every stream that comes in chunks of these lengths. -/
def StreamFunction (f : UInt16 → UInt16) (b : Buffer) (lengths : List Nat) : Prop :=
  ∀ (samples : List UInt16) (chunks : List Chunk), chunks.map (·.bytes.length) = lengths →
    stream chunks = encode samples → pcmvol f b chunks = encode (samples.map f)

/-- Lengths `read` may return for a stream of whole samples. -/
structure Split where
  lengths : List Nat
  bounds : ∀ n ∈ lengths, 0 < n ∧ n ≤ BUFFER_SIZE
  whole : lengths.sum % 2 = 0

/-! ## 2. What is written -/

section Written

variable {f : UInt16 → UInt16}

@[simp] theorem stream_nil : stream [] = [] := rfl

@[simp] theorem stream_cons (c : Chunk) (cs : List Chunk) :
    stream (c :: cs) = c.bytes ++ stream cs := List.flatMap_cons

theorem stream_length (cs : List Chunk) : (stream cs).length = (cs.map (·.bytes.length)).sum := by
  unfold stream
  exact List.length_flatMap

theorem stream_even {cs : List Chunk} (h : ∀ c ∈ cs, c.bytes.length % 2 = 0) :
    (stream cs).length % 2 = 0 := by
  induction cs with
  | nil => rfl
  | cons c cs ih =>
    have hc := h c (List.mem_cons_self ..)
    have hcs := ih fun d hd => h d (List.mem_cons_of_mem _ hd)
    rw [stream_cons, List.length_append]
    omega

/-- A chunk of whole samples is written changed, whatever is behind it in the buffer. -/
theorem take_mapPairs_read (b : Buffer) {c : Chunk} (hc : c.bytes.length % 2 = 0) :
    (mapPairs f (b.read c).bytes).take c.bytes.length = mapPairs f c.bytes := by
  rw [Buffer.read_bytes, mapPairs_append f hc,
    List.take_append_of_le_length (by rw [mapPairs_length f hc]),
    List.take_of_length_le (by rw [mapPairs_length f hc])]

/-- Chunks of whole samples are written as one stream of them. -/
theorem pcmvol_even (b : Buffer) {cs : List Chunk} (h : ∀ c ∈ cs, c.bytes.length % 2 = 0) :
    pcmvol f b cs = mapPairs f (stream cs) := by
  induction cs generalizing b with
  | nil => rfl
  | cons c cs ih =>
    have hc := h c (List.mem_cons_self ..)
    rw [pcmvol, take_mapPairs_read b hc, ih _ fun d hd => h d (List.mem_cons_of_mem _ hd),
      stream_cons, mapPairs_append f hc]

/-- Byte by byte the buffer is changed the same way however it is paired. -/
theorem pcmvol_bytewise {φ : UInt8 → UInt8}
    (hφ : ∀ lo hi, f (sampleOf lo hi) = sampleOf (φ lo) (φ hi)) (b : Buffer) (cs : List Chunk) :
    pcmvol f b cs = (stream cs).map φ := by
  induction cs generalizing b with
  | nil => rfl
  | cons c cs ih =>
    have heven : (b.read c).bytes.length % 2 = 0 := by rw [(b.read c).full]; rfl
    rw [pcmvol, mapPairs_bytewise hφ heven, ih, stream_cons, List.map_append]
    congr 1
    rw [Buffer.read_bytes, List.map_append, List.take_append_of_le_length (by rw [List.length_map]),
      List.take_of_length_le (by rw [List.length_map])]

end Written

/-! ## 3. A chunk that ends inside a sample -/

section Odd

variable {f : UInt16 → UInt16}

/-- Chunks of whole samples leave a buffer that what follows starts from. -/
theorem pcmvol_append (b : Buffer) {cs : List Chunk} (h : ∀ c ∈ cs, c.bytes.length % 2 = 0)
    (ds : List Chunk) :
    pcmvol f b (cs ++ ds) = mapPairs f (stream cs) ++ pcmvol f (run Buffer.read b cs) ds := by
  induction cs generalizing b with
  | nil => rfl
  | cons c cs ih =>
    have hc := h c (List.mem_cons_self ..)
    rw [List.cons_append, pcmvol, take_mapPairs_read b hc,
      ih _ fun d hd => h d (List.mem_cons_of_mem _ hd), stream_cons, mapPairs_append f hc,
      List.append_assoc, run_cons]

theorem exists_chunks : ∀ {lengths : List Nat}, (∀ n ∈ lengths, 0 < n ∧ n ≤ BUFFER_SIZE) →
    ∃ cs : List Chunk, cs.map (·.bytes.length) = lengths
  | [], _ => ⟨[], rfl⟩
  | n :: lengths, h => by
    obtain ⟨cs, rfl⟩ := exists_chunks fun m hm => h m (List.mem_cons_of_mem _ hm)
    obtain ⟨hpos, hle⟩ := h n (List.mem_cons_self ..)
    refine ⟨⟨List.replicate n 0, ?_, ?_⟩ :: cs, ?_⟩
    · rwa [List.length_replicate]
    · rwa [List.length_replicate]
    · rw [List.map_cons, List.length_replicate]

/-- The first chunk that ends inside a sample, and the one that goes on with it. -/
theorem first_odd : ∀ {lengths : List Nat}, (∃ n ∈ lengths, n % 2 = 1) → lengths.sum % 2 = 0 →
    ∃ pre m k post, lengths = pre ++ (2 * m + 1) :: k :: post ∧ ∀ n ∈ pre, n % 2 = 0
  | [], h, _ => by
    obtain ⟨n, hn, -⟩ := h
    cases hn
  | n :: lengths, h, hsum => by
    rw [List.sum_cons] at hsum
    by_cases hn : n % 2 = 1
    · cases lengths with
      | nil => simp at hsum; omega
      | cons k post => exact ⟨[], n / 2, k, post, by rw [List.nil_append]; congr 1; omega, by simp⟩
    · have hrest : ∃ n ∈ lengths, n % 2 = 1 := by
        obtain ⟨i, hi, hodd⟩ := h
        obtain rfl | hi := List.mem_cons.mp hi
        · exact absurd hodd hn
        · exact ⟨i, hi, hodd⟩
      obtain ⟨pre, m, k, post, rfl, hpre⟩ := first_odd hrest (by omega)
      refine ⟨n :: pre, m, k, post, rfl, fun i hi => ?_⟩
      obtain rfl | hi := List.mem_cons.mp hi
      · omega
      · exact hpre i hi

/-- What is written around the end of a chunk `zeros, x` and the start of the next, `y, …`: `x` is
    paired with an old byte, `y` with whatever comes behind it. -/
theorem written_odd (b : Buffer) {m : Nat} {s : UInt8} {old : Bytes}
    (hold : b.bytes.drop (2 * m + 1) = s :: old) {x y : UInt8} {c d : Chunk} {tail : Bytes}
    (hc : c.bytes = List.replicate (2 * m) 0 ++ [x]) (hd : d.bytes = y :: tail)
    (ds : List Chunk) :
    ∃ z more, pcmvol f b (c :: d :: ds) = mapPairs f (List.replicate (2 * m) 0) ++
      lowByte (f (sampleOf x s)) :: lowByte (f (sampleOf y z)) :: more := by
  have hzeros : (List.replicate (2 * m) (0 : UInt8)).length % 2 = 0 := by
    rw [List.length_replicate]
    omega
  have hfirst : (mapPairs f (b.read c).bytes).take c.bytes.length =
      mapPairs f (List.replicate (2 * m) 0) ++ [lowByte (f (sampleOf x s))] := by
    have hlen : c.bytes.length = 2 * m + 1 := by rw [hc]; simp
    have hread : (b.read c).bytes = List.replicate (2 * m) 0 ++ x :: s :: old := by
      rw [Buffer.read_bytes, hlen, hold, hc, List.append_assoc]
      rfl
    rw [hread, hlen, mapPairs_append f hzeros, List.take_append, mapPairs_length f hzeros,
      List.take_of_length_le (by rw [mapPairs_length f hzeros]; simp), List.length_replicate,
      Nat.add_sub_cancel_left, mapPairs]
    rfl
  obtain ⟨z, more, hnext⟩ : ∃ z more, ((b.read c).read d).bytes = y :: z :: more := by
    have hfull := ((b.read c).read d).full
    rw [Buffer.read_bytes, hd, List.cons_append] at hfull
    rw [Buffer.read_bytes, hd, List.cons_append]
    obtain ⟨z, more, hrest⟩ := List.exists_cons_of_length_eq_add_one (Nat.succ.inj hfull)
    exact ⟨z, more, congrArg (y :: ·) hrest⟩
  refine ⟨z, (highByte (f (sampleOf y z)) :: mapPairs f more).take tail.length ++
    pcmvol f ((b.read c).read d) ds, ?_⟩
  rw [pcmvol, hfirst, pcmvol, hnext, hd, mapPairs, List.length_cons, List.take_succ_cons,
    List.append_assoc]
  rfl

/-- **A chunk that ends inside a sample** comes out right for every content only where `f` works
    byte by byte. -/
theorem bytewise_of_odd (b : Buffer) {pre post : List Nat} {m k : Nat}
    (hbounds : ∀ n ∈ pre ++ (2 * m + 1) :: k :: post, 0 < n ∧ n ≤ BUFFER_SIZE)
    (hwhole : (pre ++ (2 * m + 1) :: k :: post).sum % 2 = 0) (hpre : ∀ n ∈ pre, n % 2 = 0)
    (h : StreamFunction f b (pre ++ (2 * m + 1) :: k :: post)) : Bytewise f := by
  obtain ⟨cs, hcs⟩ := exists_chunks fun n hn => hbounds n (List.mem_append_left _ hn)
  obtain ⟨es, hes⟩ := exists_chunks fun n hn =>
    hbounds n (List.mem_append_right _ (List.mem_cons_of_mem _ (List.mem_cons_of_mem _ hn)))
  obtain ⟨-, hm⟩ := hbounds (2 * m + 1) (by simp)
  obtain ⟨hpos, hk⟩ := hbounds k (by simp)
  have hroom : 2 * m + 1 < BUFFER_SIZE := by unfold BUFFER_SIZE at hm ⊢; omega
  have heven : ∀ c ∈ cs, c.bytes.length % 2 = 0 := fun c hc =>
    hpre _ (hcs ▸ List.mem_map_of_mem hc)
  -- the old byte behind the chunk, whatever the chunk is
  obtain ⟨s, old, hold⟩ : ∃ s old, (run Buffer.read b cs).bytes.drop (2 * m + 1) = s :: old := by
    apply List.exists_cons_of_ne_nil
    rw [Ne, List.drop_eq_nil_iff, (run Buffer.read b cs).full]
    omega
  have hwritten : ∀ x y, lowByte (f (sampleOf x s)) = lowByte (f (sampleOf x y)) ∧
      ∃ z, lowByte (f (sampleOf y z)) = highByte (f (sampleOf x y)) := by
    intro x y
    let c : Chunk := ⟨List.replicate (2 * m) 0 ++ [x], by simp, by simpa using hm⟩
    let d : Chunk := ⟨y :: List.replicate (k - 1) 0, by simp, by simp; omega⟩
    have hlengths :
        (cs ++ c :: d :: es).map (·.bytes.length) = pre ++ (2 * m + 1) :: k :: post := by
      rw [List.map_append, List.map_cons, List.map_cons, hcs, hes]
      simp [c, d]
      omega
    have hlen : (stream (cs ++ c :: d :: es)).length % 2 = 0 := by
      rw [stream_length, hlengths]
      exact hwhole
    obtain ⟨samples, hsamples⟩ := exists_encode hlen
    have hout := h samples (cs ++ c :: d :: es) hlengths hsamples
    obtain ⟨z, more, hodd⟩ := written_odd (f := f) (run Buffer.read b cs) hold (c := c) (d := d)
      rfl rfl es
    have hstream : stream (cs ++ c :: d :: es) = stream cs ++ (List.replicate (2 * m) 0 ++
        x :: y :: (List.replicate (k - 1) 0 ++ stream es)) := by
      simp [stream, c, d]
    have hlenZeros : (List.replicate (2 * m) (0 : UInt8)).length % 2 = 0 := by
      rw [List.length_replicate]
      omega
    rw [pcmvol_append b heven, hodd, ← mapPairs_encode, ← hsamples, hstream,
      mapPairs_append f (stream_even heven), mapPairs_append f hlenZeros, mapPairs,
      List.append_cancel_left_eq,
      List.append_cancel_left_eq, List.cons.injEq, List.cons.injEq] at hout
    exact ⟨hout.1, z, hout.2.1⟩
  refine ⟨fun v => lowByte (f (sampleOf v 0)), fun lo hi => ?_⟩
  have hlow : ∀ x y, lowByte (f (sampleOf x y)) = lowByte (f (sampleOf x 0)) := fun x y =>
    (hwritten x y).1.symm.trans (hwritten x 0).1
  obtain ⟨-, z, hhigh⟩ := hwritten lo hi
  rw [← sampleOf_bytes (f (sampleOf lo hi)), ← hhigh, hlow lo hi, hlow hi z]

end Odd

/-! ## 4. Every split -/

/-- **pcmvol and its chunks.** For every function on samples, buffer and lengths of chunks: each
    stream that comes in such chunks is written as `f` of its samples exactly where no chunk ends
    inside a sample, or `f` works byte by byte. -/
theorem pcmvol_stream_iff (f : UInt16 → UInt16) (b : Buffer) (p : Split) :
    StreamFunction f b p.lengths ↔ (∀ n ∈ p.lengths, n % 2 = 0) ∨ Bytewise f := by
  constructor
  · intro h
    by_cases heven : ∀ n ∈ p.lengths, n % 2 = 0
    · exact .inl heven
    · push Not at heven
      obtain ⟨n, hn, hodd⟩ := heven
      obtain ⟨pre, m, k, post, hp, hpre⟩ := first_odd ⟨n, hn, by omega⟩ p.whole
      refine .inr (bytewise_of_odd b ?_ ?_ hpre (hp ▸ h))
      · rw [← hp]
        exact p.bounds
      · rw [← hp]
        exact p.whole
  · rintro (heven | ⟨φ, hφ⟩) samples cs hlengths hstream
    · have hcs : ∀ c ∈ cs, c.bytes.length % 2 = 0 := fun c hc =>
        heven _ (hlengths ▸ List.mem_map_of_mem hc)
      rw [pcmvol_even b hcs, hstream, mapPairs_encode]
    · have hlen : (encode samples).length % 2 = 0 := by rw [encode_length]; omega
      rw [pcmvol_bytewise hφ, hstream, ← mapPairs_bytewise hφ hlen, mapPairs_encode]

example : Bytewise id ∧ Bytewise fun _ => 0 :=
  ⟨⟨id, fun _ _ => rfl⟩, ⟨fun _ => 0, fun _ _ => rfl⟩⟩

/-- The value of an `int16_t` with these bits. -/
def signed (v : UInt16) : Int := if v.toNat < 2 ^ 15 then v.toNat else v.toNat - 2 ^ 16

/-- What the body of the loop does to a sample for a gain that is a whole number, where the
    product of the doubles is exact. -/
def gainStep (gain : Int) (v : UInt16) : UInt16 :=
  UInt16.ofNat (max (-32768) (min (signed v * gain) 32767) % 2 ^ 16).toNat

example : gainStep 2 100 = 200 ∧ gainStep 2 0xffff = 0xfffe ∧ gainStep 2 20000 = 32767 := by decide

/-- Sample 128 at gain 2, read in two chunks of a byte: 256 is what it should be, and 0 what is
    written. -/
theorem odd_read_loses_sample :
    ¬ ∀ (f : UInt16 → UInt16) (b : Buffer) (samples : List UInt16) (chunks : List Chunk),
      stream chunks = encode samples → pcmvol f b chunks = encode (samples.map f) := by
  intro h
  have hwrong := h (gainStep 2) ⟨List.replicate BUFFER_SIZE 0, List.length_replicate⟩ [128]
    [⟨[128], by decide, by decide⟩, ⟨[0], by decide, by decide⟩] (by decide)
  exact absurd hwrong (by decide)

end YiHack.Audio.Pcmvol
