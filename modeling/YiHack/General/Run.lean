/-
  File:      YiHack/General/Run.lean
  Subject:   Runs of a machine that consumes one input per step.

  Names nothing of the repository: a step function, its runs over lists of inputs, and the two
  induction rules every run lemma of the development goes through:

  * `run_inv` -- what holds at the start and over one step holds after every run;
  * `run_inv_of` -- the same under a side condition that every step of the run meets;
  * `stepsMeet_iff` -- the side condition is met throughout exactly where what it is the condition
    of holds throughout.
-/
import Mathlib.Data.List.Basic

namespace YiHack.General

variable {σ ι : Type*}

/-- The state after the inputs `is`, taken one by one. -/
def run (step : σ → ι → σ) (s : σ) (is : List ι) : σ := is.foldl step s

@[simp] theorem run_nil (step : σ → ι → σ) (s : σ) : run step s [] = s := rfl

@[simp] theorem run_cons (step : σ → ι → σ) (s : σ) (i : ι) (is : List ι) :
    run step s (i :: is) = run step (step s i) is := rfl

@[simp] theorem run_append (step : σ → ι → σ) (s : σ) (is js : List ι) :
    run step s (is ++ js) = run step (run step s is) js := List.foldl_append

theorem run_concat (step : σ → ι → σ) (s : σ) (is : List ι) (i : ι) :
    run step s (is ++ [i]) = step (run step s is) i := by
  rw [run_append, run_cons, run_nil]

/-- **What a step keeps, a run keeps.** -/
theorem run_inv {step : σ → ι → σ} {I : σ → Prop} (hstep : ∀ s i, I s → I (step s i))
    {s : σ} (hs : I s) (is : List ι) : I (run step s is) := by
  induction is generalizing s with
  | nil => exact hs
  | cons i is ih => exact ih (hstep s i hs)

/-- Every step of the run meets the side condition `C`, asked of the state before the step and
    the input it takes. -/
def StepsMeet (step : σ → ι → σ) (C : σ → ι → Prop) : σ → List ι → Prop
  | _, [] => True
  | s, i :: is => C s i ∧ StepsMeet step C (step s i) is

instance StepsMeet.decidable (step : σ → ι → σ) (C : σ → ι → Prop) [∀ s i, Decidable (C s i)]
    (s : σ) (is : List ι) : Decidable (StepsMeet step C s is) :=
  match is with
  | [] => isTrue trivial
  | i :: is =>
    have := StepsMeet.decidable step C (step s i) is
    inferInstanceAs (Decidable (_ ∧ _))

theorem StepsMeet.mono {step : σ → ι → σ} {C D : σ → ι → Prop} (h : ∀ s i, C s i → D s i) {s : σ}
    {is : List ι} (hC : StepsMeet step C s is) : StepsMeet step D s is := by
  induction is generalizing s with
  | nil => trivial
  | cons i is ih => exact ⟨h s i hC.1, ih hC.2⟩

theorem StepsMeet.and {step : σ → ι → σ} {C D : σ → ι → Prop} {s : σ} {is : List ι}
    (hC : StepsMeet step C s is) (hD : StepsMeet step D s is) :
    StepsMeet step (fun s i => C s i ∧ D s i) s is := by
  induction is generalizing s with
  | nil => trivial
  | cons i is ih => exact ⟨⟨hC.1, hD.1⟩, ih hC.2 hD.2⟩

/-- A condition on the inputs alone. -/
theorem StepsMeet.of_forall {step : σ → ι → σ} {C : ι → Prop} {is : List ι} (h : ∀ i ∈ is, C i) (s : σ) :
    StepsMeet step (fun _ i => C i) s is := by
  induction is generalizing s with
  | nil => trivial
  | cons i is ih => exact ⟨h i List.mem_cons_self, ih (fun j hj => h j (List.mem_cons_of_mem i hj)) _⟩

/-- **What a step keeps under `C`, a run whose steps all meet `C` keeps.** -/
theorem run_inv_of {step : σ → ι → σ} {C : σ → ι → Prop} {I : σ → Prop}
    (hstep : ∀ s i, C s i → I s → I (step s i)) {s : σ} (hs : I s) {is : List ι}
    (hC : StepsMeet step C s is) : I (run step s is) := by
  induction is generalizing s with
  | nil => exact hs
  | cons i is ih => exact ih (hstep s i hC.1 hs) hC.2

/-- A condition that is enough wherever `I` holds, which the steps under it keep. -/
theorem StepsMeet.of_inv {step : σ → ι → σ} {C D : σ → ι → Prop} {I : σ → Prop}
    (hCD : ∀ s i, I s → C s i → D s i) (hstep : ∀ s i, D s i → I s → I (step s i)) {s : σ}
    (hs : I s) {is : List ι} (hC : StepsMeet step C s is) : StepsMeet step D s is := by
  induction is generalizing s with
  | nil => trivial
  | cons i is ih =>
    have hD : D s i := hCD s i hs hC.1
    exact ⟨hD, ih (hstep s i hD hs) hC.2⟩

/-- **A condition exact for one step is exact for a run**, whatever all steps keep. -/
theorem stepsMeet_iff {step : σ → ι → σ} {C : σ → ι → Prop} {I J : σ → Prop}
    (hJ : ∀ s i, J s → J (step s i)) (hstep : ∀ s i, J s → I s → (C s i ↔ I (step s i))) {s : σ}
    (hs : J s) (hI : I s) (is : List ι) :
    (∀ k, I (run step s (is.take k))) ↔ StepsMeet step C s is := by
  induction is generalizing s with
  | nil => exact ⟨fun _ => trivial, fun _ k => by rw [List.take_nil]; exact hI⟩
  | cons i is ih =>
    constructor
    · intro h
      have hnext : I (step s i) := h 1
      exact ⟨(hstep s i hs hI).mpr hnext, (ih (hJ s i hs) hnext).mp fun k => h (k + 1)⟩
    · rintro ⟨hC, hrest⟩ k
      have hnext := (hstep s i hs hI).mp hC
      cases k with
      | zero => exact hI
      | succ k => exact (ih (hJ s i hs) hnext).mpr hrest k

end YiHack.General
