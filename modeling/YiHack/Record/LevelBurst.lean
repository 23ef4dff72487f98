/-
  File:      YiHack/Record/LevelBurst.lean
  Subject:   `motion_levels_due`: which of motiond's readings the level history keeps.

  Times are integers: a clock of seconds in 32 bits leaves room for an interval below 2^63
  (`due_fits`).

  * `motionLevelsDue` -- one call;
  * `answers` -- calls one after the other, with what each was answered;
  * `Run` -- a run of active calls, from its first one on;
  * `Spaced`, `Scheduled` -- what the answers so far say about the next one;
  * **`burst_spaced`** -- a run captures at its first call, then `LEVEL_BURST_SAMPLES - 1` times
    `LEVEL_BURST_MS` apart, then `LEVEL_INTERVAL_MS` apart, each time with the first call that is
    late enough.
-/
import Mathlib

namespace YiHack.Record.LevelBurst

def LEVEL_INTERVAL_MS : Int := 1000

def LEVEL_BURST_SAMPLES : Nat := 5

def LEVEL_BURST_MS : Int := 200

/-! ## 1. One call -/

/-- `sampling_active`, `burst_count` and `next_sample_ms`. -/
structure Sampling where
  samplingActive : Bool
  burstCount : Nat
  nextSampleMs : Int

/-- What `motion_levels_start` leaves. -/
def Sampling.start : Sampling := ⟨false, 0, 0⟩

/-- The arguments of `motion_levels_due`. -/
structure Call where
  active : Bool
  trigger : Bool
  monotonicMs : Int
  deriving DecidableEq

/-- `motion_levels_due`. -/
def motionLevelsDue (s : Sampling) (c : Call) : Sampling × Bool :=
  if c.active = false then ({ s with samplingActive := false, burstCount := 0 }, false)
  else
    let s :=
      if c.trigger = true ∨ s.samplingActive = false then ⟨true, 0, c.monotonicMs⟩ else s
    if c.monotonicMs < s.nextSampleMs then (s, false)
    else
      let s :=
        if s.burstCount < LEVEL_BURST_SAMPLES then { s with burstCount := s.burstCount + 1 } else s
      ({ s with
          nextSampleMs := c.monotonicMs +
            if s.burstCount < LEVEL_BURST_SAMPLES then LEVEL_BURST_MS else LEVEL_INTERVAL_MS },
        true)

section Due

variable {s : Sampling} {c : Call}

theorem due_inactive (h : c.active = false) :
    motionLevelsDue s c = ({ s with samplingActive := false, burstCount := 0 }, false) := by
  unfold motionLevelsDue
  rw [if_pos h]

/-- The first call of a run captures. -/
theorem due_first (h : c.active = true) (hrun : c.trigger = true ∨ s.samplingActive = false) :
    motionLevelsDue s c = (⟨true, 1, c.monotonicMs + LEVEL_BURST_MS⟩, true) := by
  unfold motionLevelsDue
  rw [if_neg (by rw [h]; decide)]
  simp only [if_pos hrun]
  rw [if_neg (Int.lt_irrefl _)]
  rfl

/-- A later call that is too early. -/
theorem due_early (h : c.active = true) (ht : c.trigger = false) (hs : s.samplingActive = true)
    (hearly : c.monotonicMs < s.nextSampleMs) : motionLevelsDue s c = (s, false) := by
  unfold motionLevelsDue
  rw [if_neg (by rw [h]; decide)]
  have hrun : ¬ (c.trigger = true ∨ s.samplingActive = false) := by simp [ht, hs]
  simp only [if_neg hrun]
  rw [if_pos hearly]

/-- A later call that is late enough. -/
theorem due_late (h : c.active = true) (ht : c.trigger = false) (hs : s.samplingActive = true)
    (hburst : s.burstCount ≤ LEVEL_BURST_SAMPLES) (hlate : s.nextSampleMs ≤ c.monotonicMs) :
    motionLevelsDue s c =
      (⟨true, min (s.burstCount + 1) LEVEL_BURST_SAMPLES,
        c.monotonicMs +
          if s.burstCount + 1 < LEVEL_BURST_SAMPLES then LEVEL_BURST_MS else LEVEL_INTERVAL_MS⟩,
        true) := by
  unfold motionLevelsDue
  rw [if_neg (by rw [h]; decide)]
  have hrun : ¬ (c.trigger = true ∨ s.samplingActive = false) := by simp [ht, hs]
  simp only [if_neg hrun]
  rw [if_neg (Int.not_lt.mpr hlate)]
  by_cases hmore : s.burstCount < LEVEL_BURST_SAMPLES
  · rw [if_pos hmore, Nat.min_eq_left (by omega), hs]
  · rw [if_neg hmore, if_neg hmore, if_neg (by omega), Nat.min_eq_right (by omega),
      ← Nat.le_antisymm hburst (Nat.le_of_not_lt hmore), ← hs]

/-- While the times leave room for an interval, the additions stay in an `int64_t`. -/
theorem due_fits (hs : -2 ^ 63 ≤ s.nextSampleMs ∧ s.nextSampleMs < 2 ^ 63)
    (hc : -2 ^ 63 ≤ c.monotonicMs ∧ c.monotonicMs + LEVEL_INTERVAL_MS < 2 ^ 63) :
    -2 ^ 63 ≤ (motionLevelsDue s c).1.nextSampleMs ∧
      (motionLevelsDue s c).1.nextSampleMs < 2 ^ 63 := by
  unfold LEVEL_INTERVAL_MS at hc
  unfold motionLevelsDue
  simp only [LEVEL_BURST_MS, LEVEL_INTERVAL_MS]
  grind

end Due

/-! ## 2. Runs -/

/-- A call and what it was answered. -/
structure Answer where
  call : Call
  captured : Bool
  deriving DecidableEq

/-- The answers to calls from a state on, oldest first. -/
def answers (s : Sampling) : List Call → List Answer
  | [] => []
  | c :: cs => ⟨c, (motionLevelsDue s c).2⟩ :: answers (motionLevelsDue s c).1 cs

/-- `w`, directly behind `before`, is a run from its first call on: active calls, behind an
    inactive one, or at the start, or from a trigger on, and no trigger later. -/
structure Run (before w : List Answer) : Prop where
  nonempty : w ≠ []
  active : ∀ a ∈ w, a.call.active = true
  untriggered : ∀ a ∈ w.tail, a.call.trigger = false
  begins : (∀ b ∈ before.getLast?, b.call.active = false) ∨ ∀ a ∈ w.head?, a.call.trigger = true

/-- When the calls of `w` that captured were made. -/
def captures (w : List Answer) : List Int :=
  (w.filter (·.captured)).map (·.call.monotonicMs)

/-- How far apart captures are, `n` of the run before the earlier of the two: `dense` times
    `LEVEL_BURST_MS`, later `LEVEL_INTERVAL_MS`. -/
def spacing (dense n : Nat) : Int := if n < dense then LEVEL_BURST_MS else LEVEL_INTERVAL_MS

/-- Answer `a`, to the call behind `before`, is as the schedule says: an inactive call captures
    nothing, the first call of a run captures, and any other one exactly where the spacing has
    elapsed since the run's latest capture. -/
structure Spaced (dense : Nat) (before : List Answer) (a : Answer) : Prop where
  inactive : a.call.active = false → a.captured = false
  first : Run before [a] → a.captured = true
  later : ∀ earlier w, before = earlier ++ w → Run earlier (w ++ [a]) → w ≠ [] →
    ∃ ts t, captures w = ts ++ [t] ∧
      (a.captured = true ↔ t + spacing dense ts.length ≤ a.call.monotonicMs)

/-- Every answer is. -/
def Scheduled (dense : Nat) (as : List Answer) : Prop :=
  ∀ before a after, as = before ++ a :: after → Spaced dense before a

/-! ## 3. The state against the answers -/

section Tracks

variable {s : Sampling} {before earlier w : List Answer} {a : Answer}

theorem captures_append (v w : List Answer) : captures (v ++ w) = captures v ++ captures w := by
  simp [captures]

theorem Run.init (h : Run earlier (w ++ [a])) (hw : w ≠ []) : Run earlier w where
  nonempty := hw
  active := fun b hb => h.active b (List.mem_append_left _ hb)
  untriggered := fun b hb =>
    h.untriggered b (by rw [List.tail_append_of_ne_nil hw]; exact List.mem_append_left _ hb)
  begins := by
    obtain hidle | htrigger := h.begins
    · exact .inl hidle
    · refine .inr fun b hb => htrigger b ?_
      rw [List.head?_append_of_ne_nil _ hw]
      exact hb

theorem Run.last_active (h : Run earlier (w ++ [a])) : a.call.active = true :=
  h.active a (by simp)

theorem Run.last_untriggered (h : Run earlier (w ++ [a])) (hw : w ≠ []) :
    a.call.trigger = false :=
  h.untriggered a (by rw [List.tail_append_of_ne_nil hw]; simp)

/-- What the state knows of the answers so far: a run of which `ts ++ [t]` are the captures has
    counted them up to `LEVEL_BURST_SAMPLES`, and waits for the spacing behind `t`. -/
structure Tracks (s : Sampling) (before : List Answer) : Prop where
  idle : s.samplingActive = false ↔ ∀ b ∈ before.getLast?, b.call.active = false
  counted : s.burstCount ≤ LEVEL_BURST_SAMPLES
  going : ∀ earlier w, before = earlier ++ w → Run earlier w →
    ∃ ts t, captures w = ts ++ [t] ∧ s.burstCount = min (ts.length + 1) LEVEL_BURST_SAMPLES ∧
      s.nextSampleMs = t + spacing (LEVEL_BURST_SAMPLES - 1) ts.length

theorem counted_next (n : Nat) :
    min (min (n + 1) LEVEL_BURST_SAMPLES + 1) LEVEL_BURST_SAMPLES =
      min (n + 1 + 1) LEVEL_BURST_SAMPLES := by
  omega

theorem spacing_next (n : Nat) :
    (if min (n + 1) LEVEL_BURST_SAMPLES + 1 < LEVEL_BURST_SAMPLES then LEVEL_BURST_MS
      else LEVEL_INTERVAL_MS) = spacing (LEVEL_BURST_SAMPLES - 1) (n + 1) :=
  if_congr (by unfold LEVEL_BURST_SAMPLES; omega) rfl rfl

theorem tracks_start : Tracks Sampling.start [] where
  idle := by simp [Sampling.start]
  counted := Nat.zero_le _
  going := by
    intro earlier w h hrun
    exact absurd (List.append_eq_nil_iff.mp h.symm).2 hrun.nonempty

/-- A run that ends with the answer behind `before` is that answer alone, or a run of `before`
    with that answer. -/
theorem run_concat (h : before ++ [a] = earlier ++ w) (hrun : Run earlier w) :
    (w = [a] ∧ earlier = before) ∨ ∃ v, v ≠ [] ∧ w = v ++ [a] ∧ before = earlier ++ v := by
  obtain ⟨v, b, rfl⟩ := List.eq_nil_or_concat w |>.resolve_left hrun.nonempty
  rw [List.concat_eq_append, ← List.append_assoc] at h
  obtain ⟨rfl, hb⟩ := List.append_inj' h rfl
  obtain rfl : a = b := by simpa using hb
  cases v with
  | nil => exact .inl ⟨rfl, by simp⟩
  | cons c v => exact .inr ⟨c :: v, by simp, by simp, rfl⟩

/-- The state is ready for a first call exactly where a run begins. -/
theorem Tracks.starts (h : Tracks s before) (hrun : Run before [a]) :
    a.call.trigger = true ∨ s.samplingActive = false := by
  obtain hidle | htrigger := hrun.begins
  · exact .inr (h.idle.mpr hidle)
  · exact .inl (htrigger a (by simp))

theorem Tracks.goesOn (h : Tracks s (earlier ++ w)) (hrun : Run earlier w) :
    s.samplingActive = true := by
  rw [← Bool.not_eq_false, h.idle]
  intro hidle
  have hlast := hidle (w.getLast hrun.nonempty)
    (by rw [List.getLast?_append_of_ne_nil _ hrun.nonempty]; exact List.getLast?_eq_some_getLast _)
  rw [hrun.active _ (List.getLast_mem _)] at hlast
  cases hlast

/-! ## 4. One more answer -/

/-- The answer to the next call is as the schedule says, and the state knows of it. -/
theorem Tracks.step (h : Tracks s before) (c : Call) :
    Spaced (LEVEL_BURST_SAMPLES - 1) before ⟨c, (motionLevelsDue s c).2⟩ ∧
      Tracks (motionLevelsDue s c).1 (before ++ [⟨c, (motionLevelsDue s c).2⟩]) := by
  by_cases hactive : c.active = false
  · -- no run: neither one that begins here nor one that goes on
    rw [due_inactive hactive]
    have hnone : ∀ earlier w, ¬ Run earlier (w ++ [⟨c, false⟩]) := by
      intro earlier w hrun
      have hlast : c.active = true := hrun.last_active
      rw [hactive] at hlast
      cases hlast
    refine ⟨⟨fun _ => rfl, fun hrun => absurd hrun (hnone _ []),
      fun earlier w _ hrun => absurd hrun (hnone _ _)⟩, ⟨by simp [hactive], Nat.zero_le _, ?_⟩⟩
    intro earlier w heq hrun
    obtain ⟨rfl, -⟩ | ⟨v, -, rfl, -⟩ := run_concat heq hrun
    · exact absurd hrun (hnone _ [])
    · exact absurd hrun (hnone _ _)
  · have hactive : c.active = true := by simpa using hactive
    by_cases hfirst : c.trigger = true ∨ s.samplingActive = false
    · -- a run begins
      rw [due_first hactive hfirst]
      have hnone : ∀ earlier w, before = earlier ++ w →
          Run earlier (w ++ [⟨c, true⟩]) → w = [] := by
        intro earlier w heq hrun
        by_contra hw
        obtain htrigger | hidle := hfirst
        · have := hrun.last_untriggered hw
          simp [htrigger] at this
        · rw [heq] at h
          rw [h.goesOn (hrun.init hw)] at hidle
          cases hidle
      refine ⟨⟨fun hno => absurd hno (by simp [hactive]), fun _ => rfl,
        fun earlier w heq hrun hw => absurd (hnone earlier w heq hrun) hw⟩,
        ⟨by simp [hactive], Nat.le_of_ble_eq_true rfl, ?_⟩⟩
      intro earlier w heq hrun
      obtain ⟨rfl, -⟩ | ⟨v, hv, rfl, hbefore⟩ := run_concat heq hrun
      · exact ⟨[], c.monotonicMs, rfl, rfl, rfl⟩
      · exact absurd (hnone earlier v hbefore hrun) hv
    · -- the run goes on
      obtain ⟨htrigger, hs⟩ : c.trigger = false ∧ s.samplingActive = true := by simpa using hfirst
      have hbegin : ∀ b, ¬ Run before [⟨c, b⟩] := fun b hrun => hfirst (h.starts hrun)
      by_cases hearly : c.monotonicMs < s.nextSampleMs
      · rw [due_early hactive htrigger hs hearly]
        refine ⟨⟨fun hno => absurd hno (by simp [hactive]), fun hrun => absurd hrun (hbegin _), ?_⟩,
          ⟨by simp [hs, hactive], h.counted, ?_⟩⟩
        · intro earlier w heq hrun hw
          obtain ⟨ts, t, hcaptures, -, hnext⟩ := h.going earlier w heq (hrun.init hw)
          rw [hnext] at hearly
          exact ⟨ts, t, hcaptures, by simpa using hearly⟩
        · intro earlier w heq hrun
          obtain ⟨rfl, rfl⟩ | ⟨v, hv, rfl, hbefore⟩ := run_concat heq hrun
          · exact absurd hrun (hbegin _)
          · obtain ⟨ts, t, hcaptures, hknown⟩ := h.going earlier v hbefore (hrun.init hv)
            exact ⟨ts, t, by rw [captures_append, hcaptures]; simp [captures], hknown⟩
      · have hlate : s.nextSampleMs ≤ c.monotonicMs := Int.not_lt.mp hearly
        rw [due_late hactive htrigger hs h.counted hlate]
        refine ⟨⟨fun hno => absurd hno (by simp [hactive]), fun hrun => absurd hrun (hbegin _), ?_⟩,
          ⟨by simp [hactive], Nat.min_le_right _ _, ?_⟩⟩
        · intro earlier w heq hrun hw
          obtain ⟨ts, t, hcaptures, -, hnext⟩ := h.going earlier w heq (hrun.init hw)
          rw [hnext] at hlate
          exact ⟨ts, t, hcaptures, by simpa using hlate⟩
        · intro earlier w heq hrun
          obtain ⟨rfl, rfl⟩ | ⟨v, hv, rfl, hbefore⟩ := run_concat heq hrun
          · exact absurd hrun (hbegin _)
          · obtain ⟨ts, t, hcaptures, hcount, -⟩ := h.going earlier v hbefore (hrun.init hv)
            refine ⟨ts ++ [t], c.monotonicMs, by rw [captures_append, hcaptures]; rfl, ?_, ?_⟩
            · rw [List.length_append, List.length_singleton, ← counted_next, ← hcount]
            · rw [List.length_append, List.length_singleton, ← spacing_next, ← hcount]

end Tracks

/-! ## 5. Every sequence of calls -/

/-- The answers from a state that tracks what came before are spaced as the schedule says. -/
theorem Tracks.answers {s : Sampling} {past : List Answer} (h : Tracks s past) (cs : List Call)
    {before after : List Answer} {a : Answer} (heq : answers s cs = before ++ a :: after) :
    Spaced (LEVEL_BURST_SAMPLES - 1) (past ++ before) a := by
  induction cs generalizing s past before with
  | nil => simp [LevelBurst.answers] at heq
  | cons c cs ih =>
    obtain ⟨hspaced, htracks⟩ := h.step c
    cases before with
    | nil =>
      obtain ⟨rfl, -⟩ : _ = a ∧ _ := by simpa [LevelBurst.answers] using heq
      rw [List.append_nil]
      exact hspaced
    | cons b before =>
      obtain ⟨rfl, hrest⟩ : _ = b ∧ _ := by simpa [LevelBurst.answers] using heq
      rw [List.append_cons]
      exact ih htracks hrest

/-- **The schedule.** Each answer, whatever the calls and their times: inactive calls capture
    nothing, a run's first call captures, the `LEVEL_BURST_SAMPLES - 1` captures behind it come
    with the first call `LEVEL_BURST_MS` after the one before, all later ones with the first call
    `LEVEL_INTERVAL_MS` after it. -/
theorem burst_spaced (cs : List Call) :
    Scheduled (LEVEL_BURST_SAMPLES - 1) (answers Sampling.start cs) :=
  fun _ _ _ heq => tracks_start.answers cs heq

/-- An event's trigger, and active calls every 200 ms behind it. -/
def everyBurst (n : Nat) : List Call :=
  (List.range n).map fun i => ⟨true, i == 0, i * 200⟩

/-- The trigger's own capture is one of the burst: the sixth is refused at 200 ms. -/
theorem burst_includes_trigger :
    ¬ ∀ cs : List Call, cs.Pairwise (fun c d => c.monotonicMs ≤ d.monotonicMs) →
      Scheduled LEVEL_BURST_SAMPLES (answers Sampling.start cs) := by
  intro h
  have hspaced : Spaced LEVEL_BURST_SAMPLES (answers Sampling.start (everyBurst 5))
      ⟨⟨true, false, 1000⟩, false⟩ := h (everyBurst 6) (by decide) _ _ [] (by decide)
  obtain ⟨ts, t, hcaptures, hiff⟩ := hspaced.later [] _ rfl
    ⟨by decide, by decide, by decide, .inl (by decide)⟩ (by decide)
  have hsplit : captures (answers Sampling.start (everyBurst 5)) = [0, 200, 400, 600] ++ [800] := by
    decide
  obtain ⟨rfl, ht⟩ := List.append_inj' (hsplit.symm.trans hcaptures) rfl
  obtain rfl : 800 = t := by simpa using ht
  exact absurd (hiff.mpr (by decide)) (by decide)

end YiHack.Record.LevelBurst
