/-
  File:      YiHack/Video/Placement.lean
  Subject:   `rRTSPServer.cpp`: `cb2s_memcpy` over pointers that do not point into the ring.

  "The second argument is the circular buffer", but a replacement array is copied by the same
  function. Whether it wraps is a comparison with the end of the ring, so the copy depends on where
  the loader put the array.

  * `copyRight_ring` -- a frame of the ring is copied right wherever the ring is;
  * `copyRight_array_iff` -- a replacement array is copied right exactly where it is below the ring;
  * **`copies_right_iff`** -- over every run.

  Addresses are those of a flat address space.
-/
import YiHack.Video.Sps
import Mathlib

namespace YiHack.Video

open General
open General.Wrap (Mem readMem)

/-! ## 1. The address space -/

/-- Where the ring and the replacement arrays are, and what is outside the ring. -/
structure Placement (g : Geometry) where
  base : Int
  array : Template → Int
  rest : Mem
  loaded : ∀ t : Template, readMem rest (array t) t.ti.length = t.ti
  apart : ∀ t : Template, array t + t.ti.length ≤ base ∨ base + g.size ≤ array t

variable {g : Geometry}

/-- An address of the ring's mapping. -/
def Placement.InRing (pl : Placement g) (a : Int) : Prop := pl.base ≤ a ∧ a < pl.base + g.size

instance (pl : Placement g) (a : Int) : Decidable (pl.InRing a) := inferInstanceAs (Decidable (_ ∧ _))

/-- The whole memory, while the ring's content is `m`. -/
def Placement.flat (pl : Placement g) (m : Mem) : Mem := fun a =>
  if pl.InRing a then m (a - pl.base) else pl.rest a

/-- The pointer `copy_src`. -/
def Placement.ptr (pl : Placement g) : CopySrc → Int
  | .ring a => pl.base + a
  | .array t => pl.array t

/-! ## 2. The copy -/

/-- `cb2s_memcpy`: the source and the length of each `memcpy` it calls. -/
def memcpyCalls (pl : Placement g) (src n : Int) : List (Int × Int) :=
  if src + n > pl.base + g.size then
    [(src, pl.base + g.size - src), (pl.base + g.offset, n - (pl.base + g.size - src))]
  else [(src, n)]

/-- The bytes that come to the output frame. -/
def copied (pl : Placement g) (m : Mem) (src n : Int) : Bytes :=
  (memcpyCalls pl src n).flatMap fun c => readMem (pl.flat m) c.1 c.2.toNat

/-- What is to come there. -/
def CopySrc.content (f : HandedFrame g) (len : Int) : CopySrc → Bytes
  | .ring a => Wrap.read g.offset g.span f.mem a len.toNat
  | .array t => t.ti

/-- The copy of a frame handed on: no negative length, the right bytes, and none of the ring for an
    array. -/
structure CopyRight (pl : Placement g) (f : HandedFrame g) (e : Emitted) : Prop where
  lengths : ∀ c ∈ memcpyCalls pl (pl.ptr e.src) e.len, 0 ≤ c.2
  bytes : copied pl f.mem (pl.ptr e.src) e.len = e.src.content f e.len
  foreign : ∀ t : Template, e.src = .array t → ∀ c ∈ memcpyCalls pl (pl.ptr e.src) e.len,
    ∀ i, 0 ≤ i → i < c.2 → ¬ pl.InRing (c.1 + i)

/-! ## 3. Reading -/

theorem readMem_congr {m m' : Mem} {a b : Int} {n : Nat}
    (h : ∀ i : Nat, i < n → m (a + i) = m' (b + i)) : readMem m a n = readMem m' b n :=
  List.map_congr_left fun i hi => h i (List.mem_range.mp hi)

/-- Within the ring the address space is the ring. -/
theorem readMem_flat (pl : Placement g) (m : Mem) {a : Int} {n : Nat} (ha : 0 ≤ a)
    (hn : a + n ≤ g.size) : readMem (pl.flat m) (pl.base + a) n = readMem m a n := by
  refine readMem_congr fun i hi => ?_
  have hin : pl.InRing (pl.base + a + i) := ⟨by omega, by omega⟩
  unfold Placement.flat
  rw [if_pos hin]
  congr 1
  omega

/-- The arrays are outside of it. -/
theorem readMem_flat_array (pl : Placement g) (m : Mem) (t : Template) :
    readMem (pl.flat m) (pl.array t) t.ti.length = t.ti := by
  refine (readMem_congr fun i hi => ?_).trans (pl.loaded t)
  have hout : ¬ pl.InRing (pl.array t + i) := by
    have := pl.apart t
    unfold Placement.InRing
    omega
  unfold Placement.flat
  rw [if_neg hout]

theorem Template.ti_pos (t : Template) : 0 < t.ti.length := by cases t <;> decide

/-! ## 4. A frame of the ring -/

/-- A frame of a positive length starts in the mapping and is no longer than the ring. -/
theorem HandedFrame.start_mapped (f : HandedFrame g) (h : 0 < f.len) :
    (0 ≤ f.start ∧ f.start ≤ g.size) ∧ f.len ≤ g.span := by
  have hmapped := f.mapped
  have hlen := f.lenOk
  have hspan : g.span = g.size - g.offset := rfl
  have hpos := g.header.size_pos
  unfold HandedFrame.len at h ⊢
  unfold HandedFrame.start
  split
  · rename_i hsps
    rw [if_pos hsps] at h
    exact ⟨cbMove_mapped hmapped (by omega) (by omega), by omega⟩
  · rename_i hsps
    rw [if_neg hsps] at h
    exact ⟨cbMove_mapped hmapped (by omega) (by omega), by omega⟩

/-- **A frame of the ring is copied right wherever the ring is.** -/
theorem copyRight_ring (pl : Placement g) (f : HandedFrame g) (o : Output) (h : 0 < f.len) :
    CopyRight pl f ⟨o, .ring f.start, f.len⟩ := by
  obtain ⟨⟨h0, hsize⟩, hturn⟩ := f.start_mapped h
  have hspan := g.offset_add_span
  refine ⟨?_, ?_, fun t ht => by cases ht⟩
  · change ∀ c ∈ memcpyCalls pl (pl.base + f.start) f.len, 0 ≤ c.2
    unfold memcpyCalls
    split
    · simp only [List.forall_mem_cons]
      exact ⟨by omega, by omega, fun _ hc => absurd hc List.not_mem_nil⟩
    · simp only [List.forall_mem_singleton]
      omega
  · change copied pl f.mem (pl.base + f.start) f.len =
      Wrap.read g.offset g.span f.mem f.start f.len.toNat
    rw [← cb2sMemcpy_eq]
    unfold copied memcpyCalls cb2sMemcpy
    by_cases hwrap : f.start + f.len > g.size
    · rw [if_pos (by omega), if_pos (by omega)]
      simp only [List.flatMap_cons, List.flatMap_nil, List.append_nil]
      rw [readMem_flat pl f.mem h0 (by omega), readMem_flat pl f.mem (by omega) (by omega)]
      congr 2 <;> omega
    · rw [if_neg (by omega), if_neg (by omega)]
      simp only [List.flatMap_cons, List.flatMap_nil, List.append_nil]
      exact readMem_flat pl f.mem h0 (by omega)

/-! ## 5. A replacement array -/

/-- **A replacement array is copied right exactly where it is below the ring.** -/
theorem copyRight_array_iff (pl : Placement g) (f : HandedFrame g) (o : Output) (t : Template) :
    CopyRight pl f ⟨o, .array t, t.ti.length⟩ ↔ pl.array t + t.ti.length ≤ pl.base := by
  have hpos := t.ti_pos
  have hspan := g.offset_add_span
  have hring := g.span_pos
  constructor
  · intro h
    by_contra habove
    have hup : pl.base + g.size ≤ pl.array t := (pl.apart t).resolve_left habove
    have hcalls : memcpyCalls pl (pl.array t) t.ti.length =
        [(pl.array t, pl.base + g.size - pl.array t),
          (pl.base + g.offset, t.ti.length - (pl.base + g.size - pl.array t))] :=
      if_pos (by omega)
    -- a length of zero and the start of the ring behind it, or a negative length
    have hfirst := h.lengths (pl.array t, pl.base + g.size - pl.array t)
      (by rw [Placement.ptr, hcalls]; exact List.mem_cons_self)
    refine h.foreign t rfl (pl.base + g.offset, t.ti.length - (pl.base + g.size - pl.array t))
      (by rw [Placement.ptr, hcalls]; exact List.mem_cons_of_mem _ List.mem_cons_self) 0
      (by omega) ?_ ⟨?_, ?_⟩
    · change (0 : Int) < t.ti.length - (pl.base + g.size - pl.array t)
      omega
    · change pl.base ≤ pl.base + g.offset + 0
      omega
    · change pl.base + g.offset + 0 < pl.base + g.size
      omega
  · intro hbelow
    have hcalls : memcpyCalls pl (pl.array t) t.ti.length = [(pl.array t, (t.ti.length : Int))] :=
      if_neg (by omega)
    refine ⟨?_, ?_, ?_⟩
    · intro c hc
      rw [Placement.ptr, hcalls, List.mem_singleton] at hc
      rw [hc]
      exact Int.natCast_nonneg _
    · change copied pl f.mem (pl.array t) t.ti.length = t.ti
      unfold copied
      rw [hcalls]
      simp only [List.flatMap_cons, List.flatMap_nil, List.append_nil, Int.toNat_natCast]
      exact readMem_flat_array pl f.mem t
    · rintro t' - c hc i hi hin ⟨hlo, -⟩
      rw [Placement.ptr, hcalls, List.mem_singleton] at hc
      rw [hc] at hin hlo
      change i < (t.ti.length : Int) at hin
      change pl.base ≤ pl.array t + i at hlo
      omega

/-! ## 6. Over a run -/

/-- A frame handed on is copied right exactly where its replacement, if any, is below the ring. -/
theorem copyRight_iff (pl : Placement g) {cfg : Settings} {st : StreamType} {f : HandedFrame g}
    {e : Emitted} (he : handOn .rRTSPServer cfg st f = some e) :
    CopyRight pl f e ↔
      ∀ t, replacement cfg st f.header = some t → pl.array t + t.ti.length ≤ pl.base := by
  obtain ⟨-, -, hlen, hsrc, hl⟩ := handOn_eq_some.mp he
  obtain ⟨o, src, len⟩ := e
  obtain rfl : src = _ := hsrc
  obtain rfl : len = _ := hl
  unfold Program.guarded at hlen
  unfold copyOf at hlen ⊢
  cases hrep : replacement cfg st f.header with
  | none =>
    rw [hrep] at hlen
    exact ⟨fun _ t ht => absurd ht (by simp), fun _ => copyRight_ring pl f o hlen⟩
  | some t =>
    refine (copyRight_array_iff pl f o t).trans ⟨?_, fun h => h t rfl⟩
    rintro h t' ht'
    obtain rfl := Option.some.inj ht'
    exact h

/-- Every frame handed on is copied right. -/
def CopiesRight (pl : Placement g) (cfg : Settings) (fs : List (HandedFrame g)) : Prop :=
  ∀ pre f, pre ++ [f] <+: fs →
    ∀ e, handOn .rRTSPServer cfg (stageAfter (pre ++ [f])).types f = some e → CopyRight pl f e

/-- **Every frame handed on is copied right exactly where every array that replaces an SPS is below
    the ring.** -/
theorem copies_right_iff (pl : Placement g) (cfg : Settings) (fs : List (HandedFrame g)) :
    CopiesRight pl cfg fs ↔
      ∀ pre f, pre ++ [f] <+: fs →
        (handOn .rRTSPServer cfg (stageAfter (pre ++ [f])).types f).isSome →
          ∀ t, replacement cfg (stageAfter (pre ++ [f])).types f.header = some t →
            pl.array t + t.ti.length ≤ pl.base := by
  constructor
  · intro h pre f hpre hsome
    obtain ⟨e, he⟩ := Option.isSome_iff_exists.mp hsome
    exact (copyRight_iff pl he).mp (h pre f hpre e he)
  · intro h pre f hpre e he
    exact (copyRight_iff pl he).mpr (h pre f hpre (Option.isSome_of_eq_some he))

/-- The arrays from 1000 on, 32 bytes for each. -/
def Template.index : Template → Nat
  | .s640x360 => 0
  | .s2_640x360 => 1
  | .s3_640x360 => 2
  | .s1920x1080 => 3
  | .s2304x1296 => 4
  | .s2_1920x1080 => 5
  | .s2_2304x1296 => 6
  | .s3_1920x1080 => 7
  | .s3_2304x1296 => 8

/-- What is in them. -/
def arraysMem : Mem := fun a =>
  let ts : List Template := [.s640x360, .s2_640x360, .s3_640x360, .s1920x1080, .s2304x1296,
    .s2_1920x1080, .s2_2304x1296, .s3_1920x1080, .s3_2304x1296]
  match ts[(a - 1000).toNat / 32]? with
  | some t => t.ti.getD ((a - 1000).toNat % 32) 0
  | none => 0

theorem low_fits : 300 + HeaderKind.h22.size ≤ 400 := by decide

theorem arrays_loaded (t : Template) :
    readMem arraysMem (1000 + 32 * t.index) t.ti.length = t.ti := by
  cases t <;> decide

theorem arrays_apart (t : Template) :
    1000 + 32 * (t.index : Int) + t.ti.length ≤ 0 ∨ 0 + (400 : Nat) ≤ 1000 + 32 * (t.index : Int) :=
  .inr (by cases t <;> decide)

/-- A small ring at 0 and the arrays above it. -/
def above : Placement ⟨300, 400, .h22, low_fits⟩ where
  base := 0
  array := fun t => 1000 + 32 * t.index
  rest := arraysMem
  loaded := arrays_loaded
  apart := arrays_apart

/-- A low SPS that is the first template, at the start of the ring. -/
def firstTemplate : HandedFrame ⟨300, 400, .h22, low_fits⟩ where
  addr := 300
  header := ⟨25, 0, 0, 0x0802, 0⟩
  mem := fun a => Template.s640x360.sps.getD (a - 328).toNat 0
  mapped := by decide
  lenOk := by decide

/-- Its variant is at 1000, and the first `memcpy` is one of 400 - 1000 bytes. -/
theorem above_copied_wrong : ¬ CopiesRight above ⟨.both, 0, true⟩ [firstTemplate] := by
  intro h
  have hright := h [] firstTemplate (List.prefix_refl _)
    ⟨.low, .array .s640x360, Template.s640x360.ti.length⟩ (by decide)
  exact absurd ((copyRight_array_iff above _ _ _).mp hright) (by decide)

end YiHack.Video
