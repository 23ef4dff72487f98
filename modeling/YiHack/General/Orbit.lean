/-
  File:      YiHack/General/Orbit.lean
  Subject:   Following a partial successor, step by step.

  Names nothing of the repository. `after next n a` is where `n` steps lead from `a`, none once
  there is no successor. Within finitely many elements the steps come to an end unless they run
  into a cycle (`ends_iff`), and then within as many steps as there are elements (`ends_within`).
-/
import Mathlib.Data.Finset.Card
import Mathlib.Logic.Relation

namespace YiHack.General.Orbit

open Relation (ReflTransGen TransGen)

variable {α : Type*} (next : α → Option α)

/-- Where `n` steps lead. -/
def after : Nat → α → Option α
  | 0, a => some a
  | n + 1, a => (next a).bind (after n)

/-- One step leads from `a` to `b`. -/
def Next (a b : α) : Prop := next a = some b

/-- The steps from `a` come to an end. -/
def Ends (a : α) : Prop := ∃ n, after next n a = none

/-- The steps from `a` lead to an element they lead back to. -/
def Cycles (a : α) : Prop := ∃ b, ReflTransGen (Next next) a b ∧ TransGen (Next next) b b

variable {next}

theorem after_add (m n : Nat) (a : α) :
    after next (m + n) a = (after next m a).bind (after next n) := by
  induction m generalizing a with
  | zero =>
    rw [Nat.zero_add]
    rfl
  | succ m ih =>
    rw [Nat.succ_add]
    change (next a).bind (after next (m + n)) = ((next a).bind (after next m)).bind (after next n)
    rw [Option.bind_assoc]
    exact congrArg _ (funext ih)

theorem after_none_mono {m n : Nat} {a : α} (h : after next m a = none) (hmn : m ≤ n) :
    after next n a = none := by
  obtain ⟨k, rfl⟩ := Nat.exists_eq_add_of_le hmn
  rw [after_add, h]
  rfl

theorem reaches_iff {a b : α} : ReflTransGen (Next next) a b ↔ ∃ n, after next n a = some b := by
  constructor
  · intro h
    induction h using ReflTransGen.head_induction_on with
    | refl => exact ⟨0, rfl⟩
    | head hstep _ ih =>
      obtain ⟨n, hn⟩ := ih
      exact ⟨n + 1, by rw [after, hstep]; exact hn⟩
  · rintro ⟨n, hn⟩
    induction n generalizing a with
    | zero =>
      obtain rfl : a = b := Option.some.inj hn
      exact .refl
    | succ n ih =>
      obtain ⟨c, hc, hcb⟩ := Option.bind_eq_some_iff.mp hn
      exact .head hc (ih hcb)

theorem returns_iff {a b : α} : TransGen (Next next) a b ↔ ∃ n, after next (n + 1) a = some b := by
  rw [TransGen.head'_iff]
  constructor
  · rintro ⟨c, hc, hcb⟩
    obtain ⟨n, hn⟩ := reaches_iff.mp hcb
    exact ⟨n, by rw [after, hc]; exact hn⟩
  · rintro ⟨n, hn⟩
    obtain ⟨c, hc, hcb⟩ := Option.bind_eq_some_iff.mp hn
    exact ⟨c, hc, reaches_iff.mpr ⟨n, hcb⟩⟩

/-- Round after round of a cycle. -/
theorem after_rounds {n : Nat} {b : α} (h : after next n b = some b) (k : Nat) :
    after next (k * n) b = some b := by
  induction k with
  | zero => rw [Nat.zero_mul]; rfl
  | succ k ih =>
    rw [Nat.succ_mul, after_add, ih]
    exact h

/-- **A cycle has no end.** -/
theorem Cycles.not_ends {a : α} (h : Cycles next a) : ¬ Ends next a := by
  obtain ⟨b, hab, hbb⟩ := h
  obtain ⟨m, hm⟩ := reaches_iff.mp hab
  obtain ⟨n, hn⟩ := returns_iff.mp hbb
  rintro ⟨k, hk⟩
  have hlong : after next (m + k * (n + 1)) a = some b := by
    rw [after_add, hm]
    exact after_rounds hn k
  have hkn : k ≤ k * (n + 1) := Nat.le_mul_of_pos_right k (Nat.succ_pos n)
  rw [after_none_mono hk (by omega)] at hlong
  exact absurd hlong (by simp)

theorem after_mem {S : Finset α} (hS : ∀ a ∈ S, ∀ b, next a = some b → b ∈ S) {a b : α}
    (ha : a ∈ S) {n : Nat} (h : after next n a = some b) : b ∈ S := by
  induction n generalizing a with
  | zero =>
    obtain rfl : a = b := Option.some.inj h
    exact ha
  | succ n ih =>
    obtain ⟨c, hc, hcb⟩ := Option.bind_eq_some_iff.mp h
    exact ih (hS a ha c hc) hcb

/-- As many steps as there are elements, and one of them is met again. -/
theorem cycles_of_long {S : Finset α} (hS : ∀ a ∈ S, ∀ b, next a = some b → b ∈ S) {a : α}
    (ha : a ∈ S) (h : after next S.card a ≠ none) : Cycles next a := by
  have hdefined : ∀ n ∈ Finset.range (S.card + 1), ∃ b, after next n a = some b := by
    intro n hn
    refine Option.ne_none_iff_exists'.mp fun hnone => h (after_none_mono hnone ?_)
    exact Nat.lt_succ_iff.mp (Finset.mem_range.mp hn)
  have hmaps : Set.MapsTo (fun n => (after next n a).getD a) (Finset.range (S.card + 1)) S := by
    intro n hn
    obtain ⟨b, hb⟩ := hdefined n hn
    change (after next n a).getD a ∈ S
    rw [hb]
    exact after_mem hS ha hb
  obtain ⟨i, hi, j, hj, hne, heq⟩ := Finset.exists_ne_map_eq_of_card_lt_of_maps_to
    (by rw [Finset.card_range]; exact Nat.lt_succ_self _) hmaps
  wlog hij : i < j generalizing i j
  · exact this j hj i hi hne.symm heq.symm (by omega)
  obtain ⟨b, hb⟩ := hdefined i hi
  obtain ⟨c, hc⟩ := hdefined j hj
  obtain rfl : b = c := by simpa only [hb, hc, Option.getD_some] using heq
  refine ⟨b, reaches_iff.mpr ⟨i, hb⟩, returns_iff.mpr ⟨j - i - 1, ?_⟩⟩
  have hsplit : after next (i + (j - i)) a = (after next i a).bind (after next (j - i)) :=
    after_add i (j - i) a
  rw [Nat.add_sub_cancel' (Nat.le_of_lt hij), hc, hb] at hsplit
  rw [Nat.sub_add_cancel (by omega)]
  exact hsplit.symm

/-- **Steps that end, end within as many steps as there are elements.** -/
theorem ends_within {S : Finset α} (hS : ∀ a ∈ S, ∀ b, next a = some b → b ∈ S) {a : α}
    (ha : a ∈ S) (h : Ends next a) : after next S.card a = none := by
  by_contra hlong
  exact (cycles_of_long hS ha hlong).not_ends h

/-- **Within finitely many elements the steps end exactly where they run into no cycle.** -/
theorem ends_iff {S : Finset α} (hS : ∀ a ∈ S, ∀ b, next a = some b → b ∈ S) {a : α}
    (ha : a ∈ S) : Ends next a ↔ ¬ Cycles next a := by
  constructor
  · exact fun h hc => hc.not_ends h
  · intro h
    by_contra hends
    exact h (cycles_of_long hS ha fun hnone => hends ⟨S.card, hnone⟩)

end YiHack.General.Orbit
