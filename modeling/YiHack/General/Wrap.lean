/-
  File:      YiHack/General/Wrap.lean
  Subject:   A stream of bytes in a ring of `C` memory cells from address `lo` on.

  Names nothing of the repository. Byte `k` of the stream is kept at `addr lo C k`. A reader may
  also hold the address one past the last cell for the first one (`Names`): it gets there where it
  wraps only addresses beyond the end (`advance`), and reads the same bytes from it
  (`read_names`). What tells the two apart is comparing addresses (`Names.eq_addr_iff`).

  `writeStream` is the memory after the first `n` bytes were written: it holds the last `C` of
  them (`writeStream_holds`).
-/
import YiHack.General.Bytes
import Mathlib.Logic.Function.Basic

namespace YiHack.General.Wrap

abbrev Mem := Int → UInt8

/-- The address of byte `k` of the stream. -/
def addr (lo C k : Nat) : Int := ((lo + k % C : Nat) : Int)

/-- `a` stands for position `k`: its address, or one past the end for the first cell. -/
def Names (lo C : Nat) (a : Int) (k : Nat) : Prop :=
  a = addr lo C k ∨ (a = ((lo + C : Nat) : Int) ∧ k % C = 0)

/-- Move `d` bytes on and wrap beyond the end, not at it. -/
def advance (lo C : Nat) (a d : Int) : Int :=
  if a + d > ((lo + C : Nat) : Int) then a + d - C else a + d

/-- `n` bytes from `a` on, without wrapping. -/
def readMem (m : Mem) (a : Int) (n : Nat) : Bytes :=
  (List.range n).map fun i : Nat => m (a + (i : Int))

/-- `n` bytes from `a` on, in two parts where they go beyond the end. -/
def read (lo C : Nat) (m : Mem) (a : Int) (n : Nat) : Bytes :=
  if a + n > ((lo + C : Nat) : Int) then
    readMem m a (lo + C - a).toNat ++ readMem m lo (n - (lo + C - a).toNat)
  else readMem m a n

/-- The memory holds `bytes` as the stream from position `k` on. -/
def Holds (lo C : Nat) (m : Mem) (k : Nat) (bytes : Bytes) : Prop :=
  ∀ j, (h : j < bytes.length) → m (addr lo C (k + j)) = bytes[j]

variable {lo C : Nat}

theorem addr_lt (hC : 0 < C) (k : Nat) : addr lo C k < ((lo + C : Nat) : Int) := by
  have := Nat.mod_lt k hC
  unfold addr
  omega

/-- Positions less than a turn apart have different addresses. -/
theorem addr_ne {j k : Nat} (hjk : j < k) (hk : k < j + C) : addr lo C j ≠ addr lo C k := by
  intro h
  unfold addr at h
  have hmod : k % C = j % C := by omega
  have h0 := Nat.sub_mod_eq_zero_of_mod_eq hmod
  rw [Nat.mod_eq_of_lt (by omega)] at h0
  omega

/-- The address behind one that does not wrap. -/
theorem addr_add {k d : Nat} (h : k % C + d < C) : addr lo C (k + d) = addr lo C k + d := by
  have hmod : (k + d) % C = k % C + d := by
    rw [Nat.add_mod, Nat.mod_eq_of_lt (a := d) (by omega), Nat.mod_eq_of_lt h]
  unfold addr
  rw [hmod]
  omega

/-- The address behind one that does. -/
theorem addr_add_wrap {k d : Nat} (h : C ≤ k % C + d) (h' : k % C + d < C + C) :
    addr lo C (k + d) = lo + (k % C + d - C : Nat) := by
  have hmod : (k + d) % C = k % C + d - C := by
    have hk := Nat.div_add_mod k C
    have e : k + d = (k % C + d - C) + C * (k / C + 1) := by
      rw [Nat.mul_add, Nat.mul_one]
      omega
    rw [e, Nat.add_mul_mod_self_left, Nat.mod_eq_of_lt (by omega)]
  unfold addr
  rw [hmod]
  omega

/-- **Moving on keeps the name.** -/
theorem Names.advance {a : Int} {k d : Nat} (h : Names lo C a k) (hC : 0 < C) (hd : d ≤ C) :
    Names lo C (advance lo C a d) (k + d) := by
  have hlt := Nat.mod_lt k hC
  have base : a = lo + (k % C : Nat) ∨ (a = ((lo + C : Nat) : Int) ∧ k % C = 0) := by
    unfold Names addr at h
    omega
  unfold Wrap.advance
  rcases base with rfl | ⟨rfl, h0⟩
  · rcases Nat.lt_trichotomy (k % C + d) C with hlt' | heq | hgt
    · rw [if_neg (by omega)]
      refine .inl ?_
      rw [addr_add hlt', addr]
      omega
    · rw [if_neg (by omega)]
      have hw := @addr_add_wrap lo C k d (by omega) (by omega)
      refine .inr ⟨by omega, ?_⟩
      unfold addr at hw
      omega
    · rw [if_pos (by omega)]
      refine .inl ?_
      rw [addr_add_wrap (by omega) (by omega)]
      omega
  · rcases Nat.lt_or_eq_of_le hd with hlt' | rfl
    · by_cases hd0 : d = 0
      · subst hd0
        rw [if_neg (by omega)]
        exact .inr ⟨by omega, h0⟩
      · rw [if_pos (by omega)]
        refine .inl ?_
        rw [addr_add (by omega), addr, h0]
        omega
    · rw [if_pos (by omega)]
      exact .inr ⟨by omega, by rw [Nat.add_mod_right]; exact h0⟩

/-- **A name within a turn before the end is the end only there**, unless the end is at `lo`. -/
theorem Names.eq_addr_iff {a : Int} {k e : Nat} (h : Names lo C a k) (hC : 0 < C) (hke : k ≤ e)
    (hturn : e < k + C) (hend : e % C ≠ 0) : a = addr lo C e ↔ k = e := by
  constructor
  · intro hae
    rcases Nat.lt_or_eq_of_le hke with hlt | heq
    · rcases h with h | ⟨h, -⟩
      · exact absurd (h.symm.trans hae) (addr_ne hlt hturn)
      · have : addr lo C e < _ := addr_lt hC e
        omega
    · exact heq
  · rintro rfl
    rcases h with h | ⟨-, h⟩
    · exact h
    · exact absurd h hend

theorem readMem_length (m : Mem) (a : Int) (n : Nat) : (readMem m a n).length = n := by
  simp [readMem]

/-- **Reading from a name gives what the memory holds there.** -/
theorem read_names {m : Mem} {a : Int} {k : Nat} {bytes : Bytes} (h : Names lo C a k) (hC : 0 < C)
    (hm : Holds lo C m k bytes) (hlen : bytes.length ≤ C) : read lo C m a bytes.length = bytes := by
  have hlt := Nat.mod_lt k hC
  have base : a = lo + (k % C : Nat) ∨ (a = ((lo + C : Nat) : Int) ∧ k % C = 0) := by
    unfold Names addr at h
    omega
  -- the cell of the `j`th byte, counted from the start of the ring
  have cell : ∀ j, (hj : j < bytes.length) →
      m (lo + (if k % C + j < C then k % C + j else k % C + j - C : Nat)) = bytes[j] := by
    intro j hj
    rw [← hm j hj]
    congr 1
    split
    · rename_i hj'
      rw [addr_add hj', addr]
      omega
    · rename_i hj'
      rw [addr_add_wrap (by omega) (by omega)]
  unfold read
  split
  · rename_i hwrap
    apply List.ext_getElem
    · simp only [List.length_append, readMem_length]
      omega
    · intro j hj hj'
      rw [← cell j hj']
      simp only [readMem]
      by_cases hfirst : j < (lo + C - a).toNat
      · rw [List.getElem_append_left (by simpa using hfirst)]
        simp only [List.getElem_map, List.getElem_range]
        rw [if_pos (by omega)]
        congr 1
        omega
      · rw [List.getElem_append_right (by simpa using hfirst)]
        simp only [List.getElem_map, List.getElem_range, List.length_map, List.length_range]
        congr 1
        rcases base with rfl | ⟨rfl, h0⟩
        · rw [if_neg (by omega)]
          omega
        · rw [if_pos (by omega)]
          omega
  · rename_i hwrap
    apply List.ext_getElem
    · exact readMem_length _ _ _
    · intro j hj hj'
      rw [← cell j hj', if_pos (by omega)]
      simp only [readMem, List.getElem_map, List.getElem_range]
      congr 1
      omega

theorem Holds.append {m : Mem} {k : Nat} {a b : Bytes} (h : Holds lo C m k (a ++ b)) :
    Holds lo C m k a ∧ Holds lo C m (k + a.length) b := by
  constructor
  · intro j hj
    rw [h j (by rw [List.length_append]; omega), List.getElem_append_left hj]
  · intro j hj
    rw [Nat.add_assoc, h (a.length + j) (by rw [List.length_append]; omega),
      List.getElem_append_right (Nat.le_add_right _ _)]
    simp

/-! ## The writer -/

/-- The memory after the first `n` bytes of the stream, which begins at position `k₀`. -/
def writeStream (lo C : Nat) (m : Mem) (k₀ : Nat) (stream : Bytes) : Nat → Mem
  | 0 => m
  | n + 1 =>
    match stream[n]? with
    | some b => Function.update (writeStream lo C m k₀ stream n) (addr lo C (k₀ + n)) b
    | none => writeStream lo C m k₀ stream n

/-- **The ring holds the last `C` bytes written.** -/
theorem writeStream_apply {m : Mem} {k₀ : Nat} {stream : Bytes} {i n : Nat} (hi : i < n)
    (hn : n ≤ i + C) (hlen : n ≤ stream.length) :
    writeStream lo C m k₀ stream n (addr lo C (k₀ + i)) =
      stream.get ⟨i, by omega⟩ := by
  induction n with
  | zero => omega
  | succ n ih =>
    have hget : stream[n]? = some (stream.get ⟨n, by omega⟩) := List.getElem?_eq_getElem (by omega)
    rw [writeStream, hget]
    rcases Nat.lt_or_eq_of_le (Nat.le_of_lt_succ hi) with hlt | rfl
    · have hne : addr lo C (k₀ + i) ≠ addr lo C (k₀ + n) := addr_ne (by omega) (by omega)
      simp only [Function.update_of_ne hne]
      exact ih hlt (by omega) (by omega)
    · simp only [Function.update_self]

/-- What was written and not yet overwritten is held. -/
theorem writeStream_holds {m : Mem} {k₀ : Nat} {stream bytes : Bytes} {i n : Nat}
    (hb : slice stream i bytes.length = bytes) (hn : i + bytes.length ≤ n) (hC : n ≤ i + C)
    (hlen : n ≤ stream.length) : Holds lo C (writeStream lo C m k₀ stream n) (k₀ + i) bytes := by
  intro j hj
  rw [Nat.add_assoc, writeStream_apply (by omega) (by omega) hlen]
  have hlen' : j < (slice stream i bytes.length).length := hb.symm ▸ hj
  have hget : bytes[j] = (slice stream i bytes.length)[j] := by simp only [hb]
  rw [hget]
  simp [slice]

end YiHack.General.Wrap
