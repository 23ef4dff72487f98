/-
  File:      YiHack/General/Seqlock.lean
  Subject:   Sequence locks: a body that is only changed while its counter is odd.

  Names nothing of the repository. The 32-bit word counts up; `Quiet` is what a reader needs of the
  others: the count does not go back, and where it is even and stays, so does the body.

  * `Reading` -- what a reader that began at a count knows of the body, should the count not have
    moved since;
  * `gather` -- copying the cells of the body one by one;
  * **`ok_gather`** -- the copy is the body where the count is still the one the reader began at;
  * `count_of_word` -- the word tells so, up to a turn of the counter.
-/
import YiHack.General.Threads
import Mathlib

namespace YiHack.General

/-! ## 1. The word and the count -/

abbrev Word := BitVec 32

/-- `w & 1`. -/
def odd (w : Word) : Bool := w &&& 1#32 != 0#32

theorem odd_ofNat (n : Nat) : odd (BitVec.ofNat 32 n) = decide (n % 2 = 1) := by
  have h : (BitVec.ofNat 32 n &&& 1#32).toNat = n % 2 := by
    rw [BitVec.toNat_and, BitVec.toNat_ofNat]
    show n % 2 ^ 32 &&& 1 = n % 2
    rw [Nat.and_one_is_mod]
    omega
  have h0 : BitVec.ofNat 32 n &&& 1#32 = 0#32 ↔ n % 2 = 0 := by
    rw [← h, ← BitVec.toNat_inj]
    rfl
  rcases Nat.mod_two_eq_zero_or_one n with hn | hn
  · rw [odd, h0.mpr hn, hn]
    decide
  · have hne : BitVec.ofNat 32 n &&& 1#32 ≠ 0#32 := fun hz => by
      rw [h0.mp hz] at hn
      exact absurd hn (by decide)
    simp [odd, hne, hn]

theorem even_of_not_odd {n : Nat} (h : odd (BitVec.ofNat 32 n) = false) : n % 2 = 0 := by
  rw [odd_ofNat, decide_eq_false_iff_not] at h
  omega

theorem odd_eq_true {n : Nat} : odd (BitVec.ofNat 32 n) = true ↔ n % 2 = 1 := by
  rw [odd_ofNat, decide_eq_true_iff]

theorem odd_iff {w : Word} : odd w = true ↔ w.toNat % 2 = 1 := by
  have h : w = BitVec.ofNat 32 w.toNat := by simp
  rw [h, odd_eq_true, ← h]

theorem even_of_odd_eq_false {w : Word} (h : odd w = false) : w.toNat % 2 = 0 := by
  have hodd : ¬ w.toNat % 2 = 1 := fun h1 => absurd (odd_iff.mpr h1 ▸ h) nofun
  omega

theorem word_succ (n : Nat) : BitVec.ofNat 32 n + 1#32 = BitVec.ofNat 32 (n + 1) :=
  (BitVec.ofNat_add n 1).symm

theorem word_add_two (n : Nat) : BitVec.ofNat 32 n + 2#32 = BitVec.ofNat 32 (n + 2) :=
  (BitVec.ofNat_add n 2).symm

theorem odd_add_one (w : Word) : odd (w + 1#32) = !odd w := by
  obtain ⟨n, rfl⟩ : ∃ n, w = BitVec.ofNat 32 n := ⟨w.toNat, by simp⟩
  rw [word_succ, odd_ofNat, odd_ofNat, ← decide_not, decide_eq_decide]
  omega

theorem odd_add_two (w : Word) : odd (w + 2#32) = odd w := by
  obtain ⟨n, rfl⟩ : ∃ n, w = BitVec.ofNat 32 n := ⟨w.toNat, by simp⟩
  rw [word_add_two, odd_ofNat, odd_ofNat, decide_eq_decide]
  omega

theorem ne_of_odd {v w : Word} (hv : odd v = true) (hw : odd w = false) : v ≠ w := by
  rintro rfl
  rw [hv] at hw
  exact absurd hw nofun

/-- **The word tells the count**, up to a turn. -/
theorem count_of_word {m n : Nat} (hle : m ≤ n) (hlt : n < m + 2 ^ 32)
    (h : BitVec.ofNat 32 m = BitVec.ofNat 32 n) : n = m := by
  have h := congrArg BitVec.toNat h
  simp only [BitVec.toNat_ofNat] at h
  omega

/-! ## 2. What a reader knows -/

section Reading

variable {β : Type}

/-- The count does not go back; where it is even and stays, the body stays. -/
def Quiet (n : Nat) (b : β) (n' : Nat) (b' : β) : Prop :=
  n ≤ n' ∧ (n' = n → n % 2 = 0 → b' = b)

/-- A reader began at the count `start`; `seen` holds of the body, should the count be the same. -/
structure Reading (start : Nat) (seen : β → Prop) (count : Nat) (body : β) : Prop where
  le : start ≤ count
  same : count = start → seen body

variable {start n n' : Nat} {seen seen' : β → Prop} {b b' : β}

theorem Quiet.refl (n : Nat) (b : β) : Quiet n b n b := ⟨Nat.le_refl n, fun _ _ => rfl⟩

theorem Quiet.of_odd (hn : n % 2 = 1) : Quiet n b n b' :=
  ⟨Nat.le_refl n, fun _ h0 => by omega⟩

theorem Quiet.of_lt (h : n < n') : Quiet n b n' b' := ⟨Nat.le_of_lt h, fun he _ => by omega⟩

theorem Reading.begin (n : Nat) (b : β) : Reading n (fun _ => True) n b :=
  ⟨Nat.le_refl n, fun _ => trivial⟩

/-- **What was seen is kept by the others.** -/
theorem Reading.quiet (h : Reading start seen n b) (heven : start % 2 = 0) (hq : Quiet n b n' b') :
    Reading start seen n' b' where
  le := Nat.le_trans h.le hq.1
  same hn := by
    have hle := h.le
    have hle' := hq.1
    have hb := hq.2 (by omega) (by omega)
    rw [hb]
    exact h.same (by omega)

theorem Reading.mono (h : Reading start seen n b) (hs : seen b → seen' b) :
    Reading start seen' n b :=
  ⟨h.le, fun hn => hs (h.same hn)⟩

/-- One more look at the body. -/
theorem Reading.look {γ : Type} (h : Reading start seen n b) (g : β → γ) :
    Reading start (fun b' => seen b' ∧ g b' = g b) n b :=
  ⟨h.le, fun hn => ⟨h.same hn, rfl⟩⟩

/-- **The reader finds the word it began with.** -/
theorem Reading.found (h : Reading start seen n b) (hlt : n < start + 2 ^ 32)
    (hw : BitVec.ofNat 32 start = BitVec.ofNat 32 n) : n = start ∧ seen b := by
  have hn := count_of_word h.le hlt hw
  exact ⟨hn, h.same hn⟩

end Reading

/-! ## 3. Copying the body -/

section Copy

variable {κ β σ : Type} [DecidableEq κ]

/-- `memcpy`: the cells one by one. -/
def gather (get : σ → κ → β) : List κ → (κ → β) → Code σ (κ → β)
  | [], copy => .ret copy
  | k :: ks, copy => Code.load (fun s => get s k) >>= fun v => gather get ks (Function.update copy k v)

/-- The copy of some cells of a memory. -/
def copied (body : κ → β) (ks : List κ) (copy : κ → β) : κ → β :=
  ks.foldl (fun copy k => Function.update copy k (body k)) copy

theorem copied_of_notMem {body copy : κ → β} {ks : List κ} {k : κ} (hk : k ∉ ks) :
    copied body ks copy k = copy k := by
  induction ks generalizing copy with
  | nil => rfl
  | cons k' ks ih =>
    rw [List.mem_cons, not_or] at hk
    exact (ih hk.2).trans (Function.update_of_ne hk.1 _ _)

theorem copied_of_mem {body copy : κ → β} {ks : List κ} {k : κ} (hk : k ∈ ks) :
    copied body ks copy k = body k := by
  induction ks generalizing copy with
  | nil => exact absurd hk List.not_mem_nil
  | cons k' ks ih =>
    by_cases hks : k ∈ ks
    · exact ih hks
    · have hk' : k = k' := (List.mem_cons.mp hk).resolve_right hks
      subst hk'
      exact (copied_of_notMem hks).trans (Function.update_self ..)

theorem gather_alone (get : σ → κ → β) (ks : List κ) (copy : κ → β) (s : σ) :
    (gather get ks copy).alone s = (s, copied (get s) ks copy) := by
  induction ks generalizing copy with
  | nil => rfl
  | cons k ks ih => exact ih _

/-- Nobody interrupting, the next cells are copied. -/
theorem run_gather {ι χ : Type} [DecidableEq ι] (S : System ι χ σ) (m : Machine ι σ) (i : ι)
    (get : σ → κ → β) (ks ks' : List κ) (copy : κ → β) (f : (κ → β) → Code σ Unit)
    (h : m.code i = (gather get (ks ++ ks') copy >>= f).rest) :
    run S.step m (List.replicate ks.length (.step i)) = ⟨m.memory, Function.update m.code i
      (gather get ks' (copied (get m.memory) ks copy) >>= f).rest⟩ := by
  induction ks generalizing m copy with
  | nil =>
    refine (congrArg (Machine.mk m.memory) ?_ :)
    exact (h ▸ (Function.update_eq_self i m.code).symm :)
  | cons k ks ih =>
    have hstep : S.step m (.step i) = ⟨m.memory, Function.update m.code i
        (gather get (ks ++ ks') (Function.update copy k (get m.memory k)) >>= f).rest⟩ := by
      simp only [System.step, h]
      rfl
    rw [List.length_cons, List.replicate_succ, run_cons, hstep,
      ih _ (Function.update copy k (get m.memory k)) (Function.update_self ..)]
    simp only [Function.update_idem]
    rfl

/-- **The copy is the body**, should the count not have moved since the reader began. -/
theorem ok_gather {R G A : σ → σ → Prop} {count : σ → Nat} {get : σ → κ → β} {P : σ → Prop}
    {start : Nat} (heven : start % 2 = 0) (hG : ∀ s, G s s) (hP : Code.Stable R P)
    (hR : ∀ s s', P s → R s s' → Quiet (count s) (get s) (count s') (get s')) {s : σ} (hs : P s)
    (ks : List κ) (copy : κ → β)
    (h : Reading start (fun b => ∀ k, k ∉ ks → copy k = b k) (count s) (get s)) :
    Code.Ok R G A (fun copy s => P s ∧ Reading start (fun b => copy = b) (count s) (get s))
      (gather get ks copy) s := by
  have hstable : ∀ (seen : (κ → β) → Prop),
      Code.Stable R fun s => P s ∧ Reading start seen (count s) (get s) :=
    fun seen s s' hs hr => ⟨hP s s' hs.1 hr, hs.2.quiet heven (hR s s' hs.1 hr)⟩
  induction ks generalizing s copy with
  | nil =>
    refine Code.ok_ret (hstable _) ⟨hs, h⟩ fun s hs => ⟨hs.1, hs.2.mono fun hb => ?_⟩
    exact funext fun k => hb k List.not_mem_nil
  | cons k ks ih =>
    refine Code.load_then hG (hstable _) ⟨hs, h⟩ fun s hs => ih hs.1 _ (hs.2.mono fun hb k' hk' => ?_)
    by_cases hkk : k' = k
    · subst hkk
      exact Function.update_self ..
    · rw [Function.update_of_ne hkk]
      exact hb k' fun hm => (List.mem_cons.mp hm).elim hkk hk'

/-- All cells, from any buffer. -/
theorem ok_copy {R G A : σ → σ → Prop} {count : σ → Nat} {get : σ → κ → β} {P : σ → Prop}
    {start : Nat} (heven : start % 2 = 0) (hG : ∀ s, G s s) (hP : Code.Stable R P)
    (hR : ∀ s s', P s → R s s' → Quiet (count s) (get s) (count s') (get s')) {s : σ} (hs : P s)
    {ks : List κ} (hks : ∀ k, k ∈ ks) (copy : κ → β) (hle : start ≤ count s) :
    Code.Ok R G A (fun copy s => P s ∧ Reading start (fun b => copy = b) (count s) (get s))
      (gather get ks copy) s :=
  ok_gather heven hG hP hR hs ks copy ⟨hle, fun _ k hk => absurd (hks k) hk⟩

end Copy

end YiHack.General
