/-
  File:      YiHack/Motion/Hysteresis.lean
  Subject:   `motion_tuning.h`: the detector's hysteresis, against the history of its observations.

  Of `struct motion_stats` the model has what `motion_update` reads; ratios and thresholds are
  numbers, a ratio that is none (NaN, an infinity) is an invalid observation.

  * `motionUpdate` -- one observation;
  * `play` -- observations one after the other, with what each was answered;
  * `sinceStop`, `sinceStart` -- the history behind the latest STOP, and behind the latest START;
  * **`hysteresis_exact`** -- START and STOP come exactly where the history asks for them.
-/
import YiHack.General.Run
import Mathlib.Data.List.DropRight
import Mathlib.Data.Rat.Defs

namespace YiHack.Motion

open General

/-! ## 1. The detector -/

/-- `struct motion_stats`. -/
structure MotionStats where
  movingLevel : Int
  binRatio : Option Rat

/-- `struct sens_cfg`, its numbers finite. -/
structure SensCfg where
  trigger : Rat
  release : Rat
  confirmSamples : Int
  quietMs : Int
  requireZero : Int
  levelBoost : Int

/-- `struct motion_detector`. -/
structure MotionDetector where
  active : Bool
  positives : Int
  quietSince : Int
  deriving DecidableEq

/-- `motion_config_valid`. -/
def motionConfigValid (c : SensCfg) (intervalMs : Int) : Bool :=
  decide (c.trigger ≥ 1 / 100 ∧ c.trigger ≤ 100 ∧ c.release ≥ 0 ∧ c.release < c.trigger ∧
    c.confirmSamples ≥ 1 ∧ c.confirmSamples ≤ 50 ∧ c.quietMs ≥ 100 ∧ c.quietMs ≤ 30000 ∧
    (c.requireZero = 0 ∨ c.requireZero = 1) ∧ intervalMs ≥ 100 ∧ intervalMs ≤ 2000)

/-- An observation, or none, and when it is made. -/
structure Observation where
  stats : Option MotionStats
  now : Int

/-- The ratio and the level of a valid observation. -/
def Observation.reading (o : Observation) : Option (Rat × Int) :=
  match o.stats with
  | none => none
  | some s =>
    match s.binRatio with
    | none => none
    | some ratio =>
      if ratio < 0 ∨ ratio > 100 ∨ s.movingLevel < 0 then none else some (ratio, s.movingLevel)

/-- `strong`. -/
def SensCfg.strong (c : SensCfg) (ratio : Rat) (level : Int) : Bool :=
  decide (ratio ≥ c.trigger) ||
    (c.levelBoost != 0 && decide (level ≥ 2) && decide (ratio ≥ c.trigger * (1 / 2)))

/-- `quiet`. -/
def SensCfg.quiet (c : SensCfg) (ratio : Rat) (level : Int) : Bool :=
  decide (ratio ≤ c.release) && (c.requireZero == 0 || level == 0)

def START : Int := 1

def STOP : Int := -1

/-- `motion_update`. -/
def motionUpdate (c : SensCfg) (d : MotionDetector) (o : Observation) : MotionDetector × Int :=
  match o.reading with
  | none => ({ d with positives := 0, quietSince := -1 }, 0)
  | some (ratio, level) =>
    if d.active = false then
      let d := { d with positives := if c.strong ratio level then d.positives + 1 else 0 }
      if d.positives ≥ c.confirmSamples then ({ d with active := true, quietSince := -1 }, START)
      else (d, 0)
    else if c.quiet ratio level = false then ({ d with quietSince := -1 }, 0)
    else
      let d := { d with quietSince := if d.quietSince < 0 then o.now else d.quietSince }
      if o.now - d.quietSince ≥ c.quietMs then
        ({ active := false, positives := 0, quietSince := -1 }, STOP)
      else (d, 0)

/-! ## 2. Runs -/

/-- An observation and what it was answered. -/
structure Answer where
  observation : Observation
  returned : Int

/-- The detector and its history, oldest first. -/
structure Play where
  detector : MotionDetector
  history : List Answer

def Play.step (c : SensCfg) (p : Play) (o : Observation) : Play :=
  let r := motionUpdate c p.detector o
  ⟨r.1, p.history ++ [⟨o, r.2⟩]⟩

/-- Observations from the initial inactive detector on. -/
def play (c : SensCfg) (os : List Observation) : Play :=
  run (Play.step c) ⟨⟨false, 0, -1⟩, []⟩ os

/-- The observations behind the latest STOP. -/
def sinceStop (as : List Answer) : List Observation :=
  (as.rtakeWhile fun a => a.returned != STOP).map (·.observation)

/-- The observations behind the latest START. -/
def sinceStart (as : List Answer) : List Observation :=
  (as.rtakeWhile fun a => a.returned != START).map (·.observation)

/-- A valid observation. -/
def Observation.valid (o : Observation) : Bool := o.reading.isSome

/-- Valid and strong. -/
def Observation.strong (c : SensCfg) (o : Observation) : Bool :=
  o.reading.any fun r => c.strong r.1 r.2

/-- Valid and quiet. -/
def Observation.quiet (c : SensCfg) (o : Observation) : Bool :=
  o.reading.any fun r => c.quiet r.1 r.2

/-- STARTs and STOPs in turn, `n` of them. -/
def alternating (n : Nat) : List Int :=
  (List.range n).map fun i => if i % 2 = 0 then START else STOP

/-- The answers that are transitions. -/
def transitions (as : List Answer) : List Int := (as.map (·.returned)).filter (· != 0)

/-! ## 3. The end of a history -/

section Tail

variable {α : Type} {p : α → Bool} {l : List α}

/-- **The last `n` all meet `p`** exactly where the run at the end is long enough. -/
theorem exists_suffix_iff {n : Nat} :
    (∃ w, w <:+ l ∧ w.length = n ∧ ∀ x ∈ w, p x = true) ↔ n ≤ (l.rtakeWhile p).length := by
  constructor
  · rintro ⟨w, ⟨t, rfl⟩, rfl, hp⟩
    have hrev : ∀ x ∈ w.reverse, p x = true := fun x hx => hp x (List.mem_reverse.mp hx)
    rw [List.rtakeWhile, List.reverse_append, List.takeWhile_append_of_pos hrev, List.length_reverse,
      List.length_append, List.length_reverse]
    exact Nat.le_add_right _ _
  · intro hn
    refine ⟨(l.rtakeWhile p).drop ((l.rtakeWhile p).length - n), ?_, ?_, ?_⟩
    · exact (List.drop_suffix _ _).trans (List.rtakeWhile_suffix p l)
    · rw [List.length_drop]
      omega
    · exact fun x hx => List.mem_rtakeWhile_imp (List.mem_of_mem_drop hx)

end Tail

section History

variable {as : List Answer} {o : Observation} {r : Int}

theorem sinceStop_concat (h : r ≠ STOP) : sinceStop (as ++ [⟨o, r⟩]) = sinceStop as ++ [o] := by
  simp [sinceStop, h]

theorem sinceStop_stop : sinceStop (as ++ [⟨o, STOP⟩]) = [] := by
  simp [sinceStop]

theorem sinceStart_concat (h : r ≠ START) : sinceStart (as ++ [⟨o, r⟩]) = sinceStart as ++ [o] := by
  simp [sinceStart, h]

theorem sinceStart_start : sinceStart (as ++ [⟨o, START⟩]) = [] := by
  simp [sinceStart]

theorem transitions_zero : transitions (as ++ [⟨o, 0⟩]) = transitions as := by
  simp [transitions]

theorem transitions_concat (h : r ≠ 0) : transitions (as ++ [⟨o, r⟩]) = transitions as ++ [r] := by
  simp [transitions, h]

theorem alternating_succ (n : Nat) :
    alternating (n + 1) = alternating n ++ [if n % 2 = 0 then START else STOP] := by
  simp [alternating, List.range_succ]

theorem play_append (c : SensCfg) (os : List Observation) (o : Observation) :
    play c (os ++ [o]) = (play c os).step c o := by
  rw [play, run_append]
  rfl

end History

/-! ## 4. The detector and its history -/

variable {c : SensCfg} {d : MotionDetector} {o : Observation} {ratio : Rat} {level : Int}

/-- **What one observation does**: it is invalid; or the detector waits for strong ones, or for a
    quiet time. -/
theorem motionUpdate_cases (c : SensCfg) (d : MotionDetector) (o : Observation) :
    (o.valid = false ∧ motionUpdate c d o = ({ d with positives := 0, quietSince := -1 }, 0)) ∨
    (o.valid = true ∧ d.active = false ∧
      (let positives := if o.strong c then d.positives + 1 else 0
      (c.confirmSamples ≤ positives ∧ motionUpdate c d o = (⟨true, positives, -1⟩, START)) ∨
        (positives < c.confirmSamples ∧ motionUpdate c d o = ({ d with positives }, 0)))) ∨
    (o.valid = true ∧ d.active = true ∧
      ((o.quiet c = false ∧ motionUpdate c d o = ({ d with quietSince := -1 }, 0)) ∨
        (o.quiet c = true ∧
          (let since := if d.quietSince < 0 then o.now else d.quietSince
          (c.quietMs ≤ o.now - since ∧ motionUpdate c d o = (⟨false, 0, -1⟩, STOP)) ∨
            (o.now - since < c.quietMs ∧ motionUpdate c d o = ({ d with quietSince := since }, 0)))))) := by
  obtain ⟨active, positives, quietSince⟩ := d
  cases hr : o.reading with
  | none => exact .inl ⟨by simp [Observation.valid, hr], by simp [motionUpdate, hr]⟩
  | some r =>
    have hvalid : o.valid = true := by simp [Observation.valid, hr]
    have hstrong : o.strong c = c.strong r.1 r.2 := by simp [Observation.strong, hr]
    have hquiet : o.quiet c = c.quiet r.1 r.2 := by simp [Observation.quiet, hr]
    refine .inr ?_
    rw [hstrong, hquiet]
    cases active with
    | false =>
      refine .inl ⟨hvalid, rfl, ?_⟩
      simp only [motionUpdate, hr, if_true]
      generalize (if c.strong r.1 r.2 = true then positives + 1 else 0) = positives'
      split
      · next h => exact .inl ⟨h, rfl⟩
      · next h => exact .inr ⟨Int.not_le.mp h, rfl⟩
    | true =>
      refine .inr ⟨hvalid, rfl, ?_⟩
      simp only [motionUpdate, hr, Bool.true_eq_false, if_false]
      cases hq : c.quiet r.1 r.2 with
      | false => exact .inl ⟨rfl, rfl⟩
      | true =>
        refine .inr ⟨rfl, ?_⟩
        simp only [Bool.true_eq_false, if_false]
        generalize (if quietSince < 0 then o.now else quietSince) = since
        split
        · next h => exact .inl ⟨h, rfl⟩
        · next h => exact .inr ⟨Int.not_le.mp h, rfl⟩

/-- When the quiet run at the end began, -1 where there is none. -/
def quietBegan (c : SensCfg) (l : List Observation) : Int :=
  ((l.rtakeWhile (·.quiet c)).head?.map (·.now)).getD (-1)

/-- The detector agrees with the history. -/
structure Tracks (c : SensCfg) (p : Play) : Prop where
  times : ∀ a ∈ p.history, 0 ≤ a.observation.now
  bounds : 0 ≤ p.detector.positives ∧ p.detector.positives ≤ c.confirmSamples
  counted : p.detector.active = false → p.detector.positives < c.confirmSamples ∧
    p.detector.positives = ((sinceStop p.history).rtakeWhile (·.strong c)).length
  timed : p.detector.active = true → p.detector.quietSince = quietBegan c (sinceStart p.history)
  turns : ∃ n, transitions p.history = alternating n ∧ (p.detector.active = true ↔ n % 2 = 1)

theorem quietBegan_none {l : List Observation} (h : o.quiet c = false) :
    quietBegan c (l ++ [o]) = -1 := by
  have hnot : ¬ o.quiet c = true := by simp [h]
  rw [quietBegan, List.rtakeWhile_concat_neg _ _ _ hnot]
  rfl

/-- The run goes on, or begins. -/
theorem quietBegan_concat {l : List Observation} (hl : ∀ x ∈ l, 0 ≤ x.now) (h : o.quiet c = true) :
    quietBegan c (l ++ [o]) = if quietBegan c l < 0 then o.now else quietBegan c l := by
  rw [quietBegan, List.rtakeWhile_concat_pos _ _ _ h, quietBegan]
  cases hrun : l.rtakeWhile (·.quiet c) with
  | nil => rfl
  | cons x xs =>
    have hx : x ∈ l := (List.rtakeWhile_suffix _ l).subset (hrun ▸ List.mem_cons_self)
    have hnow : ¬ x.now < 0 := Int.not_lt.mpr (hl x hx)
    simp [hnow]

theorem Tracks.times_sinceStart {p : Play} (h : Tracks c p) :
    ∀ x ∈ sinceStart p.history, 0 ≤ x.now := by
  intro x hx
  obtain ⟨a, ha, rfl⟩ := List.mem_map.mp hx
  exact h.times a ((List.rtakeWhile_suffix _ p.history).subset ha)

/-- **One observation.** -/
theorem Tracks.step {p : Play} (hc : 1 ≤ c.confirmSamples) (h : Tracks c p) (ho : 0 ≤ o.now) :
    Tracks c (p.step c o) := by
  have htimes : ∀ r, ∀ a ∈ p.history ++ [⟨o, r⟩], 0 ≤ a.observation.now := by
    intro r a ha
    rcases List.mem_append.mp ha with ha | ha
    · exact h.times a ha
    · rw [List.mem_singleton.mp ha]
      exact ho
  obtain ⟨n, hn, hodd⟩ := h.turns
  have hbounds := h.bounds
  have hpos : (0 : Int) < c.confirmSamples := by omega
  have hzero : (0 : Int) ≤ 0 ∧ 0 ≤ c.confirmSamples := ⟨Int.le_refl 0, Int.le_of_lt hpos⟩
  rcases motionUpdate_cases c p.detector o with ⟨hvalid, hr⟩ | ⟨-, hinactive, hcase⟩ |
    ⟨-, hactive, hcase⟩
  · -- an invalid observation
    have hread : o.reading = none := by simpa [Observation.valid] using hvalid
    have hstrong : ¬ o.strong c = true := by simp [Observation.strong, hread]
    have hquiet : o.quiet c = false := by simp [Observation.quiet, hread]
    simp only [Play.step, hr]
    refine ⟨htimes 0, hzero, fun _ => ⟨hpos, ?_⟩,
      fun _ => ?_, n, ?_, hodd⟩
    · rw [sinceStop_concat (by decide), List.rtakeWhile_concat_neg _ _ _ hstrong]
      rfl
    · rw [sinceStart_concat (by decide)]
      exact (quietBegan_none hquiet).symm
    · rw [transitions_zero, hn]
  · obtain ⟨hlt, hcount⟩ := h.counted hinactive
    have hnew : 0 ≤ (if o.strong c = true then p.detector.positives + 1 else 0) ∧
        (if o.strong c = true then p.detector.positives + 1 else 0) ≤ c.confirmSamples := by
      split <;> omega
    rcases hcase with ⟨hge, hr⟩ | ⟨hless, hr⟩
    · -- START
      simp only [Play.step, hr]
      have heven : n % 2 = 0 := by
        have hnot : ¬ n % 2 = 1 := fun h1 => by simp [hodd.mpr h1] at hinactive
        omega
      refine ⟨htimes START, hnew, nofun, fun _ => ?_, n + 1, ?_, ?_⟩
      · rw [sinceStart_start]
        rfl
      · rw [transitions_concat (by decide), hn, alternating_succ, if_pos heven]
      · show true = true ↔ (n + 1) % 2 = 1
        simp
        omega
    · simp only [Play.step, hr]
      refine ⟨htimes 0, hnew, fun _ => ⟨hless, ?_⟩, fun ha => ?_, n, ?_, hodd⟩
      · rw [sinceStop_concat (by decide), List.rtakeWhile_concat]
        show (if o.strong c = true then p.detector.positives + 1 else 0) = _
        split
        · rw [List.length_append, hcount]
          rfl
        · rfl
      · exact absurd (hinactive.symm.trans ha) nofun
      · rw [transitions_zero, hn]
  · have hnot : ∀ {P : Prop}, p.detector.active = false → P := fun h => by simp [hactive] at h
    have hsince := h.timed hactive
    rcases hcase with ⟨hquiet, hr⟩ | ⟨hquiet, ⟨-, hr⟩ | ⟨-, hr⟩⟩
    · simp only [Play.step, hr]
      refine ⟨htimes 0, hbounds, hnot, fun _ => ?_, n, ?_, hodd⟩
      · rw [sinceStart_concat (by decide)]
        exact (quietBegan_none hquiet).symm
      · rw [transitions_zero, hn]
    · -- STOP
      simp only [Play.step, hr]
      have hn1 := hodd.mp hactive
      refine ⟨htimes STOP, hzero, fun _ => ⟨hpos, ?_⟩,
        nofun, n + 1, ?_, ?_⟩
      · rw [sinceStop_stop]
        rfl
      · rw [transitions_concat (by decide), hn, alternating_succ, if_neg (by omega)]
      · show false = true ↔ (n + 1) % 2 = 1
        simp
        omega
    · simp only [Play.step, hr]
      refine ⟨htimes 0, hbounds, hnot, fun _ => ?_, n, ?_, hodd⟩
      · rw [sinceStart_concat (by decide)]
        show (if p.detector.quietSince < 0 then o.now else p.detector.quietSince) = _
        rw [hsince]
        exact (quietBegan_concat h.times_sinceStart hquiet).symm
      · rw [transitions_zero, hn]

theorem play_tracks (hc : 1 ≤ c.confirmSamples) {os : List Observation} (hos : ∀ o ∈ os, 0 ≤ o.now) :
    Tracks c (play c os) := by
  induction os using List.reverseRecOn with
  | nil =>
    refine ⟨fun _ h => absurd h List.not_mem_nil, ⟨Int.le_refl 0, Int.le_trans (show (0 : Int) ≤ 1 by decide) hc⟩,
      fun _ => ⟨hc, rfl⟩, fun _ => rfl, 0, rfl, ?_⟩
    exact ⟨nofun, fun h => absurd h (by decide)⟩
  | append_singleton os o ih =>
    rw [play_append]
    exact (ih fun x hx => hos x (List.mem_append_left _ hx)).step hc
      (hos o (List.mem_append_right _ List.mem_cons_self))

/-! ## 5. The hysteresis -/

/-- **START** exactly where the detector is inactive and the last observations are strong. -/
theorem start_iff {p : Play} (h : Tracks c p) (hc : 1 ≤ c.confirmSamples) :
    (motionUpdate c p.detector o).2 = START ↔ p.detector.active = false ∧
      ∃ w, w <:+ sinceStop p.history ++ [o] ∧ (w.length : Int) = c.confirmSamples ∧
        ∀ x ∈ w, x.strong c = true := by
  have hsuffix : (∃ w, w <:+ sinceStop p.history ++ [o] ∧ (w.length : Int) = c.confirmSamples ∧
      ∀ x ∈ w, x.strong c = true) ↔
      c.confirmSamples ≤ ((sinceStop p.history ++ [o]).rtakeWhile (·.strong c)).length := by
    have hn : (c.confirmSamples.toNat : Int) = c.confirmSamples := Int.toNat_of_nonneg (by omega)
    rw [← hn, Int.ofNat_le, ← exists_suffix_iff]
    simp only [Int.ofNat_inj]
  have hzero : (0 : Int) ≠ START := by decide
  have hstop : STOP ≠ START := by decide
  rw [hsuffix, List.rtakeWhile_concat]
  rcases motionUpdate_cases c p.detector o with ⟨hvalid, hr⟩ | ⟨-, hinactive, hcase⟩ |
    ⟨-, hactive, hcase⟩
  · have hread : o.reading = none := by simpa [Observation.valid] using hvalid
    have hstrong : ¬ o.strong c = true := by simp [Observation.strong, hread]
    rw [hr, if_neg hstrong]
    constructor
    · exact fun h => absurd h hzero
    · rintro ⟨-, hle⟩
      simp at hle
      omega
  · have hlen : (((if o.strong c = true then (sinceStop p.history).rtakeWhile (·.strong c) ++ [o]
        else []).length : Nat) : Int) = if o.strong c = true then p.detector.positives + 1 else 0 := by
      rw [(h.counted hinactive).2]
      split
      · rw [List.length_append]
        rfl
      · rfl
    rw [hlen]
    rcases hcase with ⟨hge, hr⟩ | ⟨hless, hr⟩
    · rw [hr]
      exact ⟨fun _ => ⟨hinactive, hge⟩, fun _ => rfl⟩
    · rw [hr]
      exact ⟨fun h => absurd h hzero, fun h => absurd h.2 (Int.not_le.mpr hless)⟩
  · have hnot : (motionUpdate c p.detector o).2 ≠ START := by
      rcases hcase with ⟨-, hr⟩ | ⟨-, ⟨-, hr⟩ | ⟨-, hr⟩⟩
      · exact hr ▸ hzero
      · exact hr ▸ hstop
      · exact hr ▸ hzero
    exact ⟨fun h => absurd h hnot, fun h => absurd (hactive.symm.trans h.1) nofun⟩

/-- **STOP** exactly where the detector is active and the quiet run at the end is long enough. -/
theorem stop_iff {p : Play} (h : Tracks c p) :
    (motionUpdate c p.detector o).2 = STOP ↔ p.detector.active = true ∧
      ∃ first rest, (sinceStart p.history ++ [o]).rtakeWhile (·.quiet c) = first :: rest ∧
        c.quietMs ≤ o.now - first.now := by
  have hzero : (0 : Int) ≠ STOP := by decide
  have hstart : START ≠ STOP := by decide
  have hloud : o.quiet c = false → ∀ first rest,
      (sinceStart p.history ++ [o]).rtakeWhile (·.quiet c) ≠ first :: rest := by
    intro hquiet first rest
    have hnot : ¬ o.quiet c = true := by simp [hquiet]
    rw [List.rtakeWhile_concat_neg _ _ _ hnot]
    exact nofun
  rcases motionUpdate_cases c p.detector o with ⟨hvalid, hr⟩ | ⟨-, hinactive, hcase⟩ |
    ⟨-, hactive, hcase⟩
  · have hread : o.reading = none := by simpa [Observation.valid] using hvalid
    have hquiet : o.quiet c = false := by simp [Observation.quiet, hread]
    rw [hr]
    constructor
    · exact fun h => absurd h hzero
    · rintro ⟨-, first, rest, hrun, -⟩
      exact absurd hrun (hloud hquiet first rest)
  · have hnot : (motionUpdate c p.detector o).2 ≠ STOP := by
      rcases hcase with ⟨-, hr⟩ | ⟨-, hr⟩
      · exact hr ▸ hstart
      · exact hr ▸ hzero
    exact ⟨fun h => absurd h hnot, fun h => absurd (hinactive.symm.trans h.1) nofun⟩
  · rcases hcase with ⟨hquiet, hr⟩ | ⟨hquiet, hcase⟩
    · rw [hr]
      constructor
      · exact fun h => absurd h hzero
      · rintro ⟨-, first, rest, hrun, -⟩
        exact absurd hrun (hloud hquiet first rest)
    · obtain ⟨first, rest, hrun⟩ : ∃ first rest,
          (sinceStart p.history ++ [o]).rtakeWhile (·.quiet c) = first :: rest := by
        rw [List.rtakeWhile_concat_pos _ _ _ hquiet]
        cases (sinceStart p.history).rtakeWhile (·.quiet c) with
        | nil => exact ⟨o, [], rfl⟩
        | cons x xs => exact ⟨x, xs ++ [o], rfl⟩
      have hsince : (if p.detector.quietSince < 0 then o.now else p.detector.quietSince) =
          first.now := by
        rw [h.timed hactive, ← quietBegan_concat h.times_sinceStart hquiet, quietBegan, hrun]
        rfl
      simp only [hsince] at hcase
      rcases hcase with ⟨hge, hr⟩ | ⟨hless, hr⟩
      · rw [hr]
        exact ⟨fun _ => ⟨hactive, first, rest, hrun, hge⟩, fun _ => rfl⟩
      · rw [hr]
        constructor
        · exact fun h => absurd h hzero
        · rintro ⟨-, x, xs, hrun', hge⟩
          rw [hrun] at hrun'
          cases hrun'
          exact absurd hge (Int.not_le.mpr hless)

/-- **The hysteresis is exact.** For every valid configuration, every history of observations at
    times that are not negative, and the observation that follows: START and STOP come exactly
    where the history asks for them, in turn, from a START on; an invalid observation is no
    transition; and `positives` stays within `confirm_samples`. -/
theorem hysteresis_exact (c : SensCfg) (intervalMs : Int) (hc : motionConfigValid c intervalMs = true)
    (os : List Observation) (o : Observation) (hos : ∀ x ∈ os ++ [o], 0 ≤ x.now) :
    let p := play c os
    let returned := (motionUpdate c p.detector o).2
    (returned = START ↔ p.detector.active = false ∧
      ∃ w, w <:+ sinceStop p.history ++ [o] ∧ (w.length : Int) = c.confirmSamples ∧
        ∀ x ∈ w, x.strong c = true) ∧
    (returned = STOP ↔ p.detector.active = true ∧
      ∃ first rest, (sinceStart p.history ++ [o]).rtakeWhile (·.quiet c) = first :: rest ∧
        c.quietMs ≤ o.now - first.now) ∧
    (∃ n, transitions p.history = alternating n) ∧
    (o.valid = false → returned = 0) ∧
    0 ≤ p.detector.positives ∧ p.detector.positives ≤ c.confirmSamples := by
  simp only [motionConfigValid, decide_eq_true_eq] at hc
  have hconfirm : 1 ≤ c.confirmSamples := hc.2.2.2.2.1
  have h := play_tracks hconfirm fun x hx => hos x (List.mem_append_left _ hx)
  obtain ⟨n, hn, -⟩ := h.turns
  refine ⟨start_iff h hconfirm, stop_iff h, ⟨n, hn⟩, fun hvalid => ?_, h.bounds⟩
  have hread : o.reading = none := by simpa [Observation.valid] using hvalid
  simp [motionUpdate, hread]

/-- The defaults of sensitivity 3, and a strong observation. -/
theorem hysteresis_exact_once :
    let c : SensCfg := ⟨3, 3 / 10, 3, 2000, 1, 1⟩
    let strong (now : Int) : Observation := ⟨some ⟨1, some 5⟩, now⟩
    motionConfigValid c 500 = true ∧ (∀ x ∈ [strong 0, strong 500] ++ [strong 1000], 0 ≤ x.now) ∧
    ((motionUpdate c (play c [strong 0, strong 500]).detector (strong 1000)).2 = START ↔
      (play c [strong 0, strong 500]).detector.active = false ∧
      ∃ w, w <:+ sinceStop (play c [strong 0, strong 500]).history ++ [strong 1000] ∧
        (w.length : Int) = c.confirmSamples ∧ ∀ x ∈ w, x.strong c = true) := by
  intro c strong
  have hvalid : motionConfigValid c 500 = true := by decide +kernel
  have htimes : ∀ x ∈ [strong 0, strong 500] ++ [strong 1000], 0 ≤ x.now := by
    simp [strong]
  exact ⟨hvalid, htimes, (hysteresis_exact c 500 hvalid _ _ htimes).1⟩

end YiHack.Motion
