/-
  File:      YiHack/General/Erase.lean
  Subject:   `memset` to zero over 32-bit words: a store of some bytes may take a part of a word.

  Names nothing of the repository. A word lies at the address `base`, its lowest byte first.

  * `eraseWord` -- what is left of a word when the bytes from `lo` to `hi` are cleared;
  * `eraseWord_all`, `eraseWord_outside` -- all of it, or nothing;
  * `eraseWord_join` -- two stores that follow each other are one.
-/
import YiHack.General.Seqlock

namespace YiHack.General

/-- The bits of the byte `j`. -/
def byteMask (j : Nat) : Word := 0xff#32 <<< (8 * j)

/-- A byte of the word is cleared, should it be in the range. -/
def eraseByte (base lo hi : Nat) (w : Word) (j : Nat) : Word :=
  if lo ≤ base + j ∧ base + j < hi then w &&& ~~~byteMask j else w

def eraseWord (base lo hi : Nat) (w : Word) : Word := [0, 1, 2, 3].foldl (eraseByte base lo hi) w

section Erase

variable {base lo mid hi : Nat} {w : Word}

theorem getLsbD_byteMask : ∀ j < 4, ∀ i < 32, (byteMask j).getLsbD i = decide (i / 8 = j) := by
  decide

theorem getLsbD_eraseByte {j i : Nat} (hj : j < 4) (hi32 : i < 32) :
    (eraseByte base lo hi w j).getLsbD i =
      (w.getLsbD i && !(decide (lo ≤ base + j ∧ base + j < hi) && decide (i / 8 = j))) := by
  unfold eraseByte
  split
  · next h =>
    simp only [BitVec.getLsbD_and, BitVec.getLsbD_not, getLsbD_byteMask j hj i hi32, h, hi32,
      decide_true, Bool.true_and, and_self]
  · next h => simp [h]

/-- **A bit is left unless its byte is in the range.** -/
theorem getLsbD_eraseWord {i : Nat} (hi32 : i < 32) : (eraseWord base lo hi w).getLsbD i =
    (w.getLsbD i && !decide (lo ≤ base + i / 8 ∧ base + i / 8 < hi)) := by
  have hbyte : i / 8 = 0 ∨ i / 8 = 1 ∨ i / 8 = 2 ∨ i / 8 = 3 := by omega
  simp only [eraseWord, List.foldl_cons, List.foldl_nil,
    getLsbD_eraseByte (j := 3) (by decide) hi32, getLsbD_eraseByte (j := 2) (by decide) hi32,
    getLsbD_eraseByte (j := 1) (by decide) hi32, getLsbD_eraseByte (j := 0) (by decide) hi32]
  rcases hbyte with h | h | h | h <;> simp [h]

theorem eraseWord_all (hlo : lo ≤ base) (hhi : base + 4 ≤ hi) : eraseWord base lo hi w = 0#32 := by
  refine BitVec.eq_of_getLsbD_eq fun i hi32 => ?_
  have hin : lo ≤ base + i / 8 ∧ base + i / 8 < hi := by omega
  simp [getLsbD_eraseWord hi32, hin]

theorem eraseWord_outside (h : hi ≤ base ∨ base + 4 ≤ lo) : eraseWord base lo hi w = w := by
  refine BitVec.eq_of_getLsbD_eq fun i hi32 => ?_
  have hout : ¬ (lo ≤ base + i / 8 ∧ base + i / 8 < hi) := by omega
  simp [getLsbD_eraseWord hi32, hout]

theorem eraseWord_nothing : eraseWord base lo lo w = w := by
  refine BitVec.eq_of_getLsbD_eq fun i hi32 => ?_
  have hout : ¬ (lo ≤ base + i / 8 ∧ base + i / 8 < lo) := by omega
  simp [getLsbD_eraseWord hi32, hout]

theorem eraseWord_zero : eraseWord base lo hi 0#32 = 0#32 := by
  refine BitVec.eq_of_getLsbD_eq fun i hi32 => ?_
  simp [getLsbD_eraseWord hi32]

/-- **Two stores that follow each other are one.** -/
theorem eraseWord_join (hlo : lo ≤ mid) (hhi : mid ≤ hi) :
    eraseWord base mid hi (eraseWord base lo mid w) = eraseWord base lo hi w := by
  refine BitVec.eq_of_getLsbD_eq fun i hi32 => ?_
  have hsplit : (lo ≤ base + i / 8 ∧ base + i / 8 < hi) ↔
      (lo ≤ base + i / 8 ∧ base + i / 8 < mid) ∨ (mid ≤ base + i / 8 ∧ base + i / 8 < hi) := by
    omega
  simp only [getLsbD_eraseWord hi32, hsplit, Bool.decide_or, Bool.not_or, Bool.and_assoc]

theorem eraseWord_again :
    eraseWord base lo hi (eraseWord base lo hi w) = eraseWord base lo hi w := by
  refine BitVec.eq_of_getLsbD_eq fun i hi32 => ?_
  simp only [getLsbD_eraseWord hi32, Bool.and_assoc, Bool.and_self]

/-- Where the range begins is all the same up to the word. -/
theorem eraseWord_from (h : lo ≤ base) : eraseWord base lo hi w = eraseWord base 0 hi w := by
  refine BitVec.eq_of_getLsbD_eq fun i hi32 => ?_
  have hlo : lo ≤ base + i / 8 := by omega
  simp only [getLsbD_eraseWord hi32, hlo, Nat.zero_le]

/-- A word with one byte set goes as a whole. -/
theorem eraseWord_small (h : w.toNat < 256) :
    eraseWord base lo hi w = w ∨ eraseWord base lo hi w = 0#32 := by
  have hhigh : ∀ i, 8 ≤ i → w.getLsbD i = false := fun i hi8 =>
    Nat.testBit_lt_two_pow (Nat.lt_of_lt_of_le h (Nat.pow_le_pow_right (by decide : 0 < 2) hi8))
  by_cases hin : lo ≤ base ∧ base < hi
  · refine .inr (BitVec.eq_of_getLsbD_eq fun i hi32 => ?_)
    rw [getLsbD_eraseWord hi32]
    by_cases hi8 : i < 8
    · have h0 : i / 8 = 0 := by omega
      simp [h0, hin]
    · simp [hhigh i (by omega)]
  · refine .inl (BitVec.eq_of_getLsbD_eq fun i hi32 => ?_)
    rw [getLsbD_eraseWord hi32]
    by_cases hi8 : i < 8
    · have h0 : i / 8 = 0 := by omega
      simp [h0, hin]
    · simp [hhigh i (by omega)]

end Erase

end YiHack.General
