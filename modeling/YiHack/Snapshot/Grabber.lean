/-
  File:      YiHack/Snapshot/Grabber.lean
  Subject:   `imggrabber.c`: the walk over the newest batch of the frame ring.

  The header words name the newest batch; the inner loop follows its records from `buf_idx` on and
  is left at `buf_idx_end`, or at a length that cannot be. `capture` of `rRTSPServer` follows the
  records of the same ring and gives up after ten, here nothing counts them.

  * `innerLoop_finishes_iff`: the loop is left exactly where the records do not lead into a cycle
    that misses `buf_idx_end`;
  * `physicalEnd_missed`: a batch up to the physical end of the ring is never left at its end.

  A read outside the mapping ends the process. A header size other than the four layouts leaves
  `fh` unset and is not modelled; nor are the semaphores.
-/
import YiHack.Video.FrameRing
import YiHack.General.Orbit
import Mathlib

namespace YiHack.Snapshot

open General Video
open General.Wrap (Mem readMem)
open Relation (ReflTransGen TransGen)

/-! ## 1. The header words -/

/-- `memcpy(&i, addr + n, sizeof(i))`. -/
def wordAt (m : Mem) (n : Nat) : Int := (BitVec.ofNat 32 (le32 (readMem m n 4) 0)).toInt

def words (m : Mem) : Words := ⟨wordAt m 16, wordAt m 4, wordAt m 12⟩

/-- `buf_idx`. -/
def bufIdx (g : Geometry) (m : Mem) : Int := g.offset + (words m).start

/-- `buf_idx_end`. -/
def endOf (g : Geometry) (m : Mem) : Int := bufIdxEnd g (words m)

/-- "Check if the header is ok". -/
def HeaderOk (g : Geometry) (m : Mem) : Prop := endOf g m = g.offset + (words m).end_

instance (g : Geometry) (m : Mem) : Decidable (HeaderOk g m) := inferInstanceAs (Decidable (_ = _))

/-! ## 2. The records saved -/

/-- `res`. -/
inductive Resolution
  | low
  | high
  deriving DecidableEq, Repr

def Resolution.bit : Resolution → Nat
  | .low => 0x0800
  | .high => 0x0400

/-- The pairs `fhs`, `fhp`, `fhv` and `fhi`. -/
inductive Kind
  | sps
  | pps
  | vps
  | idr
  deriving DecidableEq, Repr

/-- The pair a record is saved in. -/
def kindOf (res : Resolution) (fh : FrameHeader) : Option Kind :=
  if fh.type &&& res.bit = 0 then none
  else if fh.type &&& 0x0002 ≠ 0 then some .sps
  else if fh.type &&& 0x0004 ≠ 0 then some .pps
  else if fh.type &&& 0x0008 ≠ 0 then some .vps
  else if fh.type &&& 0x0001 ≠ 0 then some .idr
  else none

/-- A header and its address, null at first. -/
structure Slot where
  header : FrameHeader
  addr : Option Int
  deriving DecidableEq

abbrev Saved := Kind → Slot

def nothingSaved : Saved := fun _ => ⟨⟨0, 0, 0, 0, 0⟩, none⟩

def save (res : Resolution) (cur : Int) (fh : FrameHeader) (s : Saved) : Saved :=
  match kindOf res fh with
  | some k => Function.update s k ⟨fh, some cur⟩
  | none => s

/-- `fhs_addr = NULL`. -/
def dropSps (s : Saved) : Saved := Function.update s .sps { s .sps with addr := none }

/-! ## 3. The inner loop -/

/-- The header at `cur`; none where the copy leaves the mapping. -/
def headerAt (g : Geometry) (m : Mem) (cur : Int) : Option FrameHeader :=
  if 0 ≤ cur ∧ cur ≤ g.size then some (cb2sHeadercpy g m cur) else none

/-- "Check the len". -/
def LenOk (g : Geometry) (fh : FrameHeader) : Prop := fh.len ≤ g.size - g.offset - g.header.size

instance (g : Geometry) (fh : FrameHeader) : Decidable (LenOk g fh) :=
  inferInstanceAs (Decidable (_ ≤ _))

/-- How the inner loop is left. -/
inductive Exit
  | atEnd (s : Saved)
  | tooLong (s : Saved)
  | outside

/-- The inner loop from `cur` on; none where it takes more than `fuel` turns. -/
def innerLoop (g : Geometry) (res : Resolution) (m : Mem) : Nat → Int → Saved → Option Exit
  | 0, _, _ => none
  | fuel + 1, cur, s =>
    if cur = endOf g m then some (.atEnd s)
    else
      match headerAt g m cur with
      | none => some .outside
      | some fh =>
        if LenOk g fh then
          innerLoop g res m fuel (cbMove g cur (fh.len + g.header.size)) (save res cur fh s)
        else some (.tooLong (dropSps s))

/-- The walk over a content comes to an end. -/
def Finishes (g : Geometry) (res : Resolution) (m : Mem) (s : Saved) : Prop :=
  ∃ fuel, (innerLoop g res m fuel (bufIdx g m) s).isSome

/-! ## 4. The chain of records -/

/-- There is a record at `a` that the walk passes. -/
def PassedAt (g : Geometry) (m : Mem) (a : Int) (fh : FrameHeader) : Prop :=
  a ≠ endOf g m ∧ headerAt g m a = some fh ∧ LenOk g fh

/-- The record behind the one at `a` is at `b`. -/
def Follows (g : Geometry) (m : Mem) (a b : Int) : Prop :=
  ∃ fh, PassedAt g m a fh ∧ b = cbMove g a (fh.len + g.header.size)

/-- The records from `buf_idx` on lead to one they lead back to, and miss `buf_idx_end`. -/
def RecordCycle (g : Geometry) (m : Mem) : Prop :=
  ∃ a, ReflTransGen (Follows g m) (bufIdx g m) a ∧ TransGen (Follows g m) a a

/-- The turn of the loop without what it saves. -/
def next (g : Geometry) (m : Mem) (cur : Int) : Option Int :=
  if cur = endOf g m then none
  else
    match headerAt g m cur with
    | none => none
    | some fh => if LenOk g fh then some (cbMove g cur (fh.len + g.header.size)) else none

variable {g : Geometry} {m : Mem}

theorem next_eq_some_iff {a b : Int} : next g m a = some b ↔ Follows g m a b := by
  unfold next Follows PassedAt
  constructor
  · intro h
    split at h
    · exact absurd h (by simp)
    · rename_i hend
      split at h
      · exact absurd h (by simp)
      · rename_i fh hfh
        split at h
        · rename_i hlen
          exact ⟨fh, ⟨hend, hfh, hlen⟩, (Option.some.inj h).symm⟩
        · exact absurd h (by simp)
  · rintro ⟨fh, ⟨hend, hfh, hlen⟩, rfl⟩
    simp only [if_neg hend, hfh, if_pos hlen]

theorem next_eq_follows : Orbit.Next (next g m) = Follows g m :=
  funext fun _ => funext fun _ => propext next_eq_some_iff

/-- The loop is left where its turns come to an end, whatever it saves. -/
theorem innerLoop_isSome_iff (res : Resolution) (fuel : Nat) (cur : Int) (s : Saved) :
    (innerLoop g res m fuel cur s).isSome ↔ Orbit.after (next g m) fuel cur = none := by
  induction fuel generalizing cur s with
  | zero => simp [innerLoop, Orbit.after]
  | succ fuel ih =>
    unfold innerLoop Orbit.after next
    split
    · simp
    · split
      · simp
      · split
        · exact ih _ _
        · simp

theorem LenOk.step_le {fh : FrameHeader} (h : LenOk g fh) : fh.len + g.header.size ≤ g.span := by
  have := g.fits
  unfold LenOk at h
  unfold Geometry.span
  omega

theorem headerAt_eq_some {a : Int} {fh : FrameHeader} (h : headerAt g m a = some fh) :
    0 ≤ a ∧ a ≤ g.size := by
  unfold headerAt at h
  split at h
  · assumption
  · cases h

/-- **The walk stays in the mapping.** -/
theorem Follows.mem_buffer {a b : Int} (h : Follows g m a b) : 0 ≤ b ∧ b ≤ g.size := by
  obtain ⟨fh, ⟨-, hfh, hlen⟩, rfl⟩ := h
  have hstep := hlen.step_le
  have hpos := g.header.size_pos
  exact cbMove_mapped (headerAt_eq_some hfh) (by omega) (by omega)

/-- The addresses the walk can come to. -/
noncomputable def places (g : Geometry) (m : Mem) : Finset Int := insert (bufIdx g m) (Finset.Icc 0 (g.size : Int))

theorem next_mem_places : ∀ a ∈ places g m, ∀ b, next g m a = some b → b ∈ places g m := by
  intro a _ b h
  exact Finset.mem_insert_of_mem (Finset.mem_Icc.mpr (next_eq_some_iff.mp h).mem_buffer)

theorem bufIdx_mem_places : bufIdx g m ∈ places g m := Finset.mem_insert_self _ _

theorem places_card_le (g : Geometry) (m : Mem) : (places g m).card ≤ g.size + 2 := by
  refine (Finset.card_insert_le _ _).trans ?_
  rw [Int.card_Icc]
  omega

theorem finishes_iff_ends (res : Resolution) (s : Saved) :
    Finishes g res m s ↔ Orbit.Ends (next g m) (bufIdx g m) :=
  exists_congr fun fuel => innerLoop_isSome_iff res fuel _ s

theorem recordCycle_iff : RecordCycle g m ↔ Orbit.Cycles (next g m) (bufIdx g m) := by
  unfold RecordCycle Orbit.Cycles
  rw [next_eq_follows]

/-- **A walk that comes to an end takes no more turns than there are addresses.** -/
theorem Finishes.within {res : Resolution} {s : Saved} (h : Finishes g res m s) :
    (innerLoop g res m (g.size + 2) (bufIdx g m) s).isSome := by
  have hends := (finishes_iff_ends res s).mp h
  have hnone := Orbit.ends_within next_mem_places bufIdx_mem_places hends
  exact (innerLoop_isSome_iff res _ _ s).mpr
    (Orbit.after_none_mono hnone (places_card_le g m))

/-- **The walk comes to an end exactly where the records lead into no cycle that misses
    `buf_idx_end`.** -/
theorem innerLoop_finishes_iff (g : Geometry) (res : Resolution) (m : Mem) (s : Saved) :
    Finishes g res m s ↔ ¬ RecordCycle g m := by
  rw [finishes_iff_ends, recordCycle_iff]
  exact Orbit.ends_iff next_mem_places bufIdx_mem_places

/-! ## 5. A batch up to the physical end -/

/-- No step within the ring leads to the start of the ring: `cb_move` wraps beyond the end only. -/
theorem Follows.offset_lt {a b : Int} (h : Follows g m a b) (ha : g.offset ≤ a) : g.offset < b := by
  obtain ⟨fh, ⟨-, hfh, hlen⟩, rfl⟩ := h
  have hspan := g.offset_add_span
  have hpos := g.header.size_pos
  rw [cbMove_forward g _ (by omega)]
  unfold Wrap.advance
  split <;> omega

/-- **A batch that ends with the ring is not left at its end**: `buf_idx_end` is the start of the
    ring then, and the walk comes to the same cell by its other address. -/
theorem physicalEnd_missed {res : Resolution} (hend : endOf g m = g.offset)
    (hin : g.offset < bufIdx g m) (fuel : Nat) (s s' : Saved) :
    innerLoop g res m fuel (bufIdx g m) s ≠ some (.atEnd s') := by
  suffices h : ∀ cur : Int, g.offset < cur → ∀ s, innerLoop g res m fuel cur s ≠ some (.atEnd s') from
    h _ hin s
  induction fuel with
  | zero => exact fun _ _ _ h => absurd h (by simp [innerLoop])
  | succ fuel ih =>
    intro cur hcur s
    have hne : cur ≠ endOf g m := by omega
    unfold innerLoop
    rw [if_neg hne]
    split
    · simp
    · rename_i fh hfh
      split
      · rename_i hlen
        have hnext : Follows g m cur (cbMove g cur (fh.len + g.header.size)) :=
          ⟨fh, ⟨hne, hfh, hlen⟩, rfl⟩
        exact ih _ (hnext.offset_lt (by omega)) _
      · simp

/-- Two records of 32 bytes fill the ring, the second one is the newest batch. -/
def twoRecords : Geometry := ⟨300, 364, .h22, by decide⟩

def secondNewest : Mem := fun a =>
  if a = 4 ∨ a = 16 then 32 else if a = 300 ∨ a = 332 then 10 else 0

/-- The walk goes round and round: from the second record to the end of the ring, and from there
    over the first record to the second one again. -/
theorem secondNewest_endless :
    HeaderOk twoRecords secondNewest ∧
      ¬ Finishes twoRecords .high secondNewest nothingSaved := by
  refine ⟨by decide, ?_⟩
  rw [finishes_iff_ends]
  refine Orbit.Cycles.not_ends ⟨332, ?_, ?_⟩
  · exact Orbit.reaches_iff.mpr ⟨0, by decide⟩
  · exact Orbit.returns_iff.mpr ⟨1, by decide⟩

end YiHack.Snapshot
