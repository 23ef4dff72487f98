/-
  File:      YiHack/Record/FileIo.lean
  Subject:   `record_metadata.c`: `read_at` and `write_at` under any schedule of system calls.

  A schedule lists what the system calls do one after another: transfer up to `n` bytes, be
  interrupted, or fail. It is the fuel of both loops; a call the schedule ends in is still
  running.

  * A write leaves a prefix of its data in the file, all of it where it succeeds
    (`writeAt_spec`).
  * Code that only reads is a `Reader`: a read that fails ends it with -1. What it returns under a
    schedule is what it returns on the file itself (`Reader.io_done`), and without failing calls it
    does return once the schedule is long enough (`Reader.io_finishes`).
-/
import YiHack.General.Bytes

namespace YiHack.Record

open General

/-! ## 1. Schedules -/

/-- What one `pread` or `pwrite` does: transfer `n` bytes if so many are asked for and there,
    return EINTR, or any other error. -/
inductive IoResult
  | count (n : Nat)
  | eintr
  | err
  deriving DecidableEq, Repr

abbrev Sched := List IoResult

/-- A call under a schedule: still running at its end, or returned with the rest to come. -/
inductive Outcome (α : Type)
  | running
  | failed (rest : Sched)
  | done (a : α) (rest : Sched)
  deriving DecidableEq

/-- No call fails; counts may be short. -/
def NoError (s : Sched) : Prop := ∀ r ∈ s, r ≠ .err ∧ r ≠ .count 0

/-- How many calls of the schedule transfer something. -/
def counts (s : Sched) : Nat := s.countP (· ≠ .eintr)

theorem NoError.tail {r : IoResult} {s : Sched} (h : NoError (r :: s)) : NoError s :=
  fun x hx => h x (List.mem_cons_of_mem r hx)

/-! ## 2. read_at -/

/-- `read_at`, with `p` read so far. -/
def readAt (f : Bytes) (s : Sched) (p : Bytes) (size offset : Nat) : Outcome Bytes :=
  if size = 0 then .done p s
  else
    match s with
    | [] => .running
    | .eintr :: s => readAt f s p size offset
    | .err :: s => .failed s
    | .count n :: s =>
      let got := slice f offset (min n size)
      if got = [] then .failed s
      else readAt f s (p ++ got) (size - got.length) (offset + got.length)

/-- What was read of a slice, and what is left of it. -/
theorem slice_got (f : Bytes) (off n size : Nat) (hn : n ≤ size) :
    slice f off size =
      slice f off n ++ slice f (off + (slice f off n).length) (size - (slice f off n).length) := by
  by_cases h : (slice f off n).length = n
  · rw [h, ← slice_add, Nat.add_sub_cancel' hn]
  · have hlen := slice_length f off n
    have hend : f.length ≤ off + (slice f off n).length := by omega
    have e1 : slice f (off + (slice f off n).length) (size - (slice f off n).length) = [] := by
      rw [slice, List.drop_eq_nil_of_le hend, List.take_nil]
    have e2 : slice f off size = slice f off n := by
      rw [slice, slice, List.take_of_length_le, List.take_of_length_le]
      · rw [List.length_drop]
        omega
      · rw [List.length_drop]
        omega
    rw [e1, e2, List.append_nil]

/-- **A finished `read_at` has read the slice, in full.** -/
theorem readAt_done {f : Bytes} {s : Sched} {p : Bytes} {size offset : Nat} {b : Bytes}
    {rest : Sched} (h : readAt f s p size offset = .done b rest) :
    b = p ++ slice f offset size ∧ (slice f offset size).length = size := by
  induction s generalizing p size offset with
  | nil =>
    unfold readAt at h
    split at h
    · rename_i h0
      cases h
      simp [h0, slice]
    · cases h
  | cons r s ih =>
    unfold readAt at h
    split at h
    · rename_i h0
      cases h
      simp [h0, slice]
    · cases r with
      | eintr => exact ih h
      | err => cases h
      | count n =>
        simp only at h
        split at h
        · cases h
        · obtain ⟨hb, hl⟩ := ih h
          have hgot := slice_got f offset (min n size) size (Nat.min_le_right _ _)
          have hle : (slice f offset (min n size)).length ≤ min n size := by
            rw [slice_length]
            exact Nat.min_le_left _ _
          refine ⟨by rw [hb, hgot, List.append_assoc], ?_⟩
          rw [hgot, List.length_append, hl]
          omega

/-- **Without failing calls `read_at` reads a slice the file holds**, with no more calls that
    transfer something than it reads bytes. -/
theorem readAt_full {f : Bytes} {s : Sched} (hs : NoError s) (p : Bytes) {size offset : Nat}
    (hf : (slice f offset size).length = size) (hc : size ≤ counts s) :
    ∃ rest, readAt f s p size offset = .done (p ++ slice f offset size) rest ∧ NoError rest ∧
      counts s ≤ counts rest + size := by
  induction s generalizing p size offset with
  | nil =>
    have h0 : size = 0 := by simpa [counts] using hc
    subst h0
    exact ⟨[], by simp [readAt, slice], hs, by simp⟩
  | cons r s ih =>
    by_cases h0 : size = 0
    · subst h0
      exact ⟨r :: s, by rw [readAt.eq_def, if_pos rfl]; simp [slice], hs, by simp⟩
    · cases r with
      | eintr =>
        obtain ⟨rest, hr, hn, hcr⟩ := ih hs.tail p hf (by simpa [counts] using hc)
        refine ⟨rest, ?_, hn, by simpa [counts] using hcr⟩
        rw [readAt, if_neg h0]
        exact hr
      | err => exact absurd rfl (hs _ (List.mem_cons_self)).1
      | count n =>
        have hn0 : n ≠ 0 := fun hn => (hs _ (List.mem_cons_self)).2 (by rw [hn])
        have hlen : (slice f offset (min n size)).length = min n size := by
          rw [slice_length] at hf ⊢
          omega
        have hne : slice f offset (min n size) ≠ [] := by
          intro h
          rw [h, List.length_nil] at hlen
          omega
        have hgot := slice_got f offset (min n size) size (Nat.min_le_right _ _)
        rw [hlen] at hgot
        have hc' : counts (.count n :: s) = counts s + 1 := by simp [counts]
        have hrest : (slice f (offset + min n size) (size - min n size)).length =
            size - min n size := by
          rw [slice_length] at hf ⊢
          omega
        obtain ⟨rest, hr, hnr, hcr⟩ :=
          ih hs.tail (p ++ slice f offset (min n size)) hrest (by omega)
        refine ⟨rest, ?_, hnr, by omega⟩
        rw [readAt, if_neg h0]
        simp only [hlen]
        rw [if_neg hne, hr, hgot, List.append_assoc]

/-! ## 3. Code that only reads -/

/-- A computation that reads the file. A read that fails makes it return -1 (`none`). -/
inductive Reader (α : Type)
  | done (r : Option α)
  | read (size offset : Nat) (k : Bytes → Reader α)

namespace Reader

variable {α : Type}

/-- What it returns on the file `f`; a read past the end fails. -/
def on (f : Bytes) : Reader α → Option α
  | .done r => r
  | .read size offset k =>
    if (slice f offset size).length = size then (k (slice f offset size)).on f else none

/-- What it does under a schedule. -/
def io (f : Bytes) : Reader α → Sched → Outcome α
  | .done none, s => .failed s
  | .done (some a), s => .done a s
  | .read size offset k, s =>
    match readAt f s [] size offset with
    | .running => .running
    | .failed s => .failed s
    | .done b s => (k b).io f s

/-- The bytes it reads on the file `f`. -/
def cost (f : Bytes) : Reader α → Nat
  | .done _ => 0
  | .read size offset k => size + (k (slice f offset size)).cost f

@[simp] theorem on_done (f : Bytes) (r : Option α) : (done r).on f = r := rfl

theorem on_read {f : Bytes} {size offset : Nat} {k : Bytes → Reader α} {a : α}
    (h : (read size offset k).on f = some a) :
    (slice f offset size).length = size ∧ (k (slice f offset size)).on f = some a := by
  unfold on at h
  split at h
  · rename_i hl
    exact ⟨hl, h⟩
  · cases h

/-- **What a schedule returns, the file says.** -/
theorem io_done {f : Bytes} {p : Reader α} {s rest : Sched} {a : α}
    (h : p.io f s = .done a rest) : p.on f = some a := by
  induction p generalizing s with
  | done r =>
    cases r with
    | none => cases h
    | some b =>
      cases h
      rfl
  | read size offset k ih =>
    unfold io at h
    split at h
    · cases h
    · cases h
    · rename_i b s' hr
      obtain ⟨hb, hl⟩ := readAt_done hr
      rw [List.nil_append] at hb
      subst hb
      rw [on, if_pos hl]
      exact ih _ h

/-- **Without failing calls it returns what the file says**, once the schedule transfers as many
    times as it reads bytes. -/
theorem io_finishes {f : Bytes} {p : Reader α} {a : α} (h : p.on f = some a) {s : Sched}
    (hs : NoError s) (hc : p.cost f ≤ counts s) :
    ∃ rest, p.io f s = .done a rest ∧ NoError rest ∧ counts s ≤ counts rest + p.cost f := by
  induction p generalizing s with
  | done r =>
    cases h
    exact ⟨s, rfl, hs, Nat.le_add_right _ _⟩
  | read size offset k ih =>
    obtain ⟨hl, hk⟩ := on_read h
    unfold cost at hc
    obtain ⟨rest, hr, hn, hcr⟩ := readAt_full hs [] hl (by omega)
    obtain ⟨rest', hr', hn', hcr'⟩ := ih _ hk hn (by omega)
    refine ⟨rest', ?_, hn', ?_⟩
    · rw [io, hr]
      exact hr'
    · unfold cost
      omega

end Reader

/-! ## 4. write_at -/

/-- `write_at`: how it ends, and the file then. -/
def writeAt (f : Bytes) (s : Sched) (p : Bytes) (offset : Nat) : Outcome Unit × Bytes :=
  if p = [] then (.done () s, f)
  else
    match s with
    | [] => (.running, f)
    | .eintr :: s => writeAt f s p offset
    | .err :: s => (.failed s, f)
    | .count n :: s =>
      if n = 0 then (.failed s, f)
      else writeAt (patch f offset (p.take n)) s (p.drop n) (offset + (p.take n).length)

/-- **A write leaves a prefix of its data**, all of it where it succeeds. -/
theorem writeAt_spec {f : Bytes} (s : Sched) (p : Bytes) {offset : Nat} (h : offset ≤ f.length) :
    ∃ k, k ≤ p.length ∧ (writeAt f s p offset).2 = patch f offset (p.take k) ∧
      (∀ rest, (writeAt f s p offset).1 = .done () rest → k = p.length) := by
  induction s generalizing f p offset with
  | nil =>
    refine ⟨0, Nat.zero_le _, ?_, fun rest hr => ?_⟩
    · rw [List.take_zero, patch_nil h]
      unfold writeAt
      split <;> rfl
    · unfold writeAt at hr
      split at hr
      · rename_i hp
        rw [hp]
        rfl
      · cases hr
  | cons r s ih =>
    by_cases hp : p = []
    · subst hp
      refine ⟨0, Nat.zero_le _, ?_, fun _ _ => rfl⟩
      rw [List.take_zero, patch_nil h, writeAt.eq_def, if_pos rfl]
    · cases r with
      | eintr =>
        obtain ⟨k, hk, hf, hd⟩ := ih p h
        refine ⟨k, hk, ?_, ?_⟩
        · rw [writeAt, if_neg hp]
          exact hf
        · rw [writeAt, if_neg hp]
          exact hd
      | err =>
        refine ⟨0, Nat.zero_le _, ?_, fun rest hr => ?_⟩
        · rw [List.take_zero, patch_nil h, writeAt, if_neg hp]
        · rw [writeAt, if_neg hp] at hr
          cases hr
      | count n =>
        by_cases hn : n = 0
        · subst hn
          refine ⟨0, Nat.zero_le _, ?_, fun rest hr => ?_⟩
          · rw [List.take_zero, patch_nil h, writeAt, if_neg hp]
            rfl
          · rw [writeAt, if_neg hp] at hr
            cases hr
        · have hlen : offset + (p.take n).length ≤ (patch f offset (p.take n)).length := by
            rw [patch_length h]
            exact Nat.le_max_right _ _
          obtain ⟨k, hk, hf, hd⟩ := ih (p.drop n) hlen
          rw [patch_patch h] at hf
          have e : p.take n ++ (p.drop n).take k = p.take (min n p.length + k) := by
            rcases Nat.le_total n p.length with hle | hle
            · rw [Nat.min_eq_left hle, List.take_add]
            · rw [List.drop_eq_nil_of_le hle, List.take_nil, List.append_nil,
                List.take_of_length_le hle, List.take_of_length_le (by omega)]
          refine ⟨min n p.length + k, by rw [List.length_drop] at hk; omega, ?_, fun rest hr => ?_⟩
          · rw [writeAt, if_neg hp]
            simp only [if_neg hn]
            rw [hf, e]
          · rw [writeAt, if_neg hp] at hr
            simp only [if_neg hn] at hr
            have := hd rest hr
            rw [List.length_drop] at this
            omega

/-- **Without failing calls a write finishes**, with no more calls that transfer something than it
    has bytes. -/
theorem writeAt_full (f : Bytes) (offset : Nat) {s : Sched} (hs : NoError s) {p : Bytes}
    (hc : p.length ≤ counts s) :
    ∃ rest, (writeAt f s p offset).1 = .done () rest ∧ NoError rest ∧
      counts s ≤ counts rest + p.length := by
  induction s generalizing f p offset with
  | nil =>
    have h0 : p = [] := by simpa [counts] using hc
    subst h0
    exact ⟨[], rfl, hs, by simp⟩
  | cons r s ih =>
    by_cases h0 : p = []
    · subst h0
      exact ⟨r :: s, by rw [writeAt.eq_def, if_pos rfl], hs, by simp⟩
    · cases r with
      | eintr =>
        obtain ⟨rest, hr, hn, hcr⟩ := ih f offset hs.tail (by simpa [counts] using hc)
        refine ⟨rest, ?_, hn, by simpa [counts] using hcr⟩
        rw [writeAt, if_neg h0]
        exact hr
      | err => exact absurd rfl (hs _ List.mem_cons_self).1
      | count n =>
        have hn0 : n ≠ 0 := fun hn => (hs _ List.mem_cons_self).2 (by rw [hn])
        have hlen : 0 < p.length := List.length_pos_iff.mpr h0
        have hc' : counts (.count n :: s) = counts s + 1 := by simp [counts]
        have hdrop : (p.drop n).length = p.length - n := List.length_drop
        obtain ⟨rest, hr, hnr, hcr⟩ := ih (patch f offset (p.take n))
          (offset + (p.take n).length) hs.tail (p := p.drop n) (by omega)
        refine ⟨rest, ?_, hnr, by omega⟩
        rw [writeAt, if_neg h0]
        simp only [if_neg hn0]
        exact hr

end YiHack.Record
