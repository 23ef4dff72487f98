/-
  File:      YiHack/Hotspot/ResetButton.lean
  Subject:   `reset_hotspot.{h,c}`: the reset button between the driver and the vendor's poll.

  What `report_armed` and `request_hotspot` write is left out; a request is that it is called.

  * `resetPressUpdate`, `filterLevel` -- the functions of the source;
  * `Play` -- samples of the audited call, each with what became of it, the latest first;
  * `Passed`, `Gesture` -- what is asked of a sample in the terms of those before it;
  * **`gesture_exact`** -- every sample is passed, hidden or taken for the gesture as it should be;
  * `startup_not_passed` -- a reading that fails before the 30 s are over hides its sample already.
-/
import YiHack.General.Bytes
import YiHack.General.Run
import Mathlib.Data.List.Induction
import Mathlib.Data.List.TakeWhile

namespace YiHack.Hotspot

open General

/-! ## 1. The filter -/

def UINT64_MAX : Nat := 2 ^ 64 - 1

/-- `struct reset_press`. -/
structure ResetPress where
  since : Nat
  tracking : Bool
  fired : Bool

/-- `reset_press_update`, and whether it returns 1. -/
def resetPressUpdate (press : ResetPress) (level : Int) (now : Nat) : ResetPress × Bool :=
  if 0 < level then ({ press with tracking := false, fired := false }, false)
  else if level < 0 then ({ press with tracking := false }, false)
  else
    let press := if press.tracking then press else { press with since := now, tracking := true }
    if !press.fired && decide (press.since ≤ now ∧ 5000 ≤ now - press.since) then
      ({ press with fired := true }, true)
    else (press, false)

/-- Of `struct reset_profile`, what the filter reads. -/
structure ResetProfile where
  caller : Nat

def y623 : ResetProfile := ⟨0x19b54⟩

def y28ga : ResetProfile := ⟨0x1864c⟩

/-- The static variables. -/
structure Filter where
  press : ResetPress
  armedReported : Bool
  acceptAfter : Nat
  startupReleased : Bool

def Filter.start : Filter := ⟨⟨0, false, false⟩, false, 0, false⟩

/-- A call of `filter_level`, with what `readlink` gives and whether `report_armed` can write. -/
structure FilterCall where
  request : Nat
  caller : Nat
  result : Int
  now : Nat
  target : Option Bytes
  armedWrites : Bool

/-- The button behind the checks, and whether `request_hotspot` is called. -/
def pollButton (s : Filter) (result : Int) (now : Nat) : Filter × Bool :=
  if now = UINT64_MAX then ({ s with press := { s.press with tracking := false } }, false)
  else if s.startupReleased then
    let (press, requested) := resetPressUpdate s.press result now
    ({ s with press := press }, requested)
  else
    ({ s with startupReleased := decide (0 < result), press := { s.press with tracking := false } },
      false)

/-- `filter_level`: what it returns, and whether `request_hotspot` is called. -/
def filterLevel (profile : Option ResetProfile) (s : Filter) (c : FilterCall) :
    Filter × Int × Bool :=
  match profile with
  | none => (s, c.result, false)
  | some p =>
    if c.request ≠ 0x700e ∨ c.caller ≠ p.caller then (s, c.result, false)
    else
      let s := if s.acceptAfter = 0 ∧ c.now ≠ UINT64_MAX then
          { s with acceptAfter := (c.now + 30000) % 2 ^ 64 }
        else s
      if s.acceptAfter = 0 ∨ c.now < s.acceptAfter then (s, c.result, false)
      else
        match c.target with
        | none => (s, c.result, false)
        | some target =>
          if target.take 63 ≠ ascii "/dev/cpld_periph" then (s, c.result, false)
          else
            let s := { s with armedReported := s.armedReported || c.armedWrites }
            let (s, requested) := pollButton s c.result c.now
            (s, if c.result = 0 then 1 else c.result, requested)

/-! ## 2. Samples of the button -/

/-- A reading of `CLOCK_MONOTONIC` in milliseconds, nowhere near the end of an `uint64_t`. -/
structure Reading where
  ms : Nat
  fits : ms + 30000 < 2 ^ 64

/-- What `ioctl` makes of a `struct timespec`. -/
def Reading.ofTimespec (tvSec : Fin (2 ^ 31)) (tvNsec : Fin (10 ^ 9)) : Reading :=
  ⟨tvSec * 1000 + tvNsec / 1000000, by omega⟩

/-- A sample: pressed (0), released (above) or an error (below), and the clock unless it fails. -/
structure Sample where
  level : Int
  clock : Option Reading
  armedWrites : Bool

/-- The audited call. -/
def Sample.call (p : ResetProfile) (x : Sample) : FilterCall where
  request := 0x700e
  caller := p.caller
  result := x.level
  now := match x.clock with
    | none => UINT64_MAX
    | some r => r.ms
  target := some (ascii "/dev/cpld_periph")
  armedWrites := x.armedWrites

/-- A sample and what became of it. -/
structure Entry where
  level : Int
  clock : Option Nat
  returned : Int
  requested : Bool
  deriving DecidableEq

/-- The filter, and the samples so far, the latest first. -/
structure Play where
  filter : Filter
  log : List Entry

def Play.start : Play := ⟨.start, []⟩

def Play.sample (p : ResetProfile) (s : Play) (x : Sample) : Play :=
  let (filter, returned, requested) := filterLevel (some p) s.filter (x.call p)
  ⟨filter, ⟨x.level, x.clock.map Reading.ms, returned, requested⟩ :: s.log⟩

def play (p : ResetProfile) (samples : List Sample) : Play := run (Play.sample p) .start samples

/-- The clock never runs backwards. -/
def Nondecreasing (samples : List Sample) : Prop :=
  ((samples.filterMap (·.clock)).map Reading.ms).Pairwise (· ≤ ·)

instance (samples : List Sample) : Decidable (Nondecreasing samples) :=
  inferInstanceAs (Decidable (List.Pairwise _ _))

/-! ## 3. What is asked of a sample -/

/-- Released, by a clock. -/
def Entry.released (e : Entry) : Bool := e.clock.isSome && decide (0 < e.level)

/-- Pressed, by a clock. -/
def Entry.held (e : Entry) : Bool := e.clock.isSome && decide (e.level = 0)

/-- The clock of the first clocked call. -/
def firstClock (log : List Entry) : Option Nat := (log.filterMap (·.clock)).getLast?

/-- Clocked, and 30 s or more after the first clocked call. -/
def Entry.Armed (log : List Entry) (e : Entry) : Prop :=
  ∃ first now, firstClock log = some first ∧ e.clock = some now ∧ first + 30000 ≤ now

/-- Before the first clocked call, or clocked and less than 30 s after it. -/
def Entry.Passed (older : List Entry) (e : Entry) : Prop :=
  firstClock (e :: older) = none ∨
    ∃ first now, firstClock (e :: older) = some first ∧ e.clock = some now ∧ now < first + 30000

/-- **The gesture**: pressed, after a release by the clock that was seen 30 s or more after the first
    clocked call; no request since the latest release by the clock; and pressed by the clock without
    a break since a sample of 5 s before. -/
structure Gesture (older : List Entry) (e : Entry) : Prop where
  pressed : e.level = 0
  released : ∃ r ∈ older, r.released = true ∧ r.Armed older
  once : ∀ r ∈ older.takeWhile (!·.released), r.requested = false
  held : ∃ now, e.clock = some now ∧
    ∃ j ∈ older.takeWhile (·.held), ∃ since, j.clock = some since ∧ since + 5000 ≤ now

/-- What a sample is answered. -/
structure Answered (older : List Entry) (e : Entry) : Prop where
  passed : e.Passed older → e.returned = e.level
  hidden : ¬ e.Passed older → e.returned = if e.level = 0 then 1 else e.level
  requested : e.requested = true ↔ Gesture older e

/-- Every sample is answered as those before it ask for. -/
def AllAnswered : List Entry → Prop
  | [] => True
  | e :: older => Answered older e ∧ AllAnswered older

/-! ## 4. The filter at a sample -/

/-- The first clocked call sets the end of the start-up time. -/
def Filter.clocked (s : Filter) (ms : Nat) : Filter :=
  if s.acceptAfter = 0 then { s with acceptAfter := ms + 30000 } else s

/-- A pressed sample is hidden. -/
def hide (level : Int) : Int := if level = 0 then 1 else level

section

variable {p : ResetProfile} {s : Filter} {level : Int} {armedWrites : Bool}

theorem take_target : (ascii "/dev/cpld_periph").take 63 = ascii "/dev/cpld_periph" := rfl

theorem filterLevel_unclocked (hs : s.acceptAfter < 2 ^ 64) :
    filterLevel (some p) s (Sample.call p ⟨level, none, armedWrites⟩) =
      if s.acceptAfter = 0 then (s, level, false)
      else ({ s with
        press := { s.press with tracking := false }
        armedReported := s.armedReported || armedWrites }, hide level, false) := by
  have hmax : ¬ UINT64_MAX < s.acceptAfter := by
    rw [UINT64_MAX]
    omega
  by_cases hzero : s.acceptAfter = 0
  · simp [filterLevel, Sample.call, hzero]
  · simp [filterLevel, Sample.call, hzero, hmax, pollButton, take_target]
    rfl

theorem filterLevel_clocked (r : Reading) :
    filterLevel (some p) s (Sample.call p ⟨level, some r, armedWrites⟩) =
      if r.ms < (s.clocked r.ms).acceptAfter then (s.clocked r.ms, level, false)
      else
        let s' := { s.clocked r.ms with armedReported := s.armedReported || armedWrites }
        if s.startupReleased then
          ({ s' with press := (resetPressUpdate s.press level r.ms).1 }, hide level,
            (resetPressUpdate s.press level r.ms).2)
        else
          ({ s' with
            press := { s.press with tracking := false }
            startupReleased := decide (0 < level) }, hide level, false) := by
  have hfits := r.fits
  have hmax : r.ms ≠ UINT64_MAX := by
    rw [UINT64_MAX]
    omega
  have hmod : (r.ms + 30000) % 18446744073709551616 = r.ms + 30000 := Nat.mod_eq_of_lt hfits
  by_cases hzero : s.acceptAfter = 0
  · cases hreleased : s.startupReleased <;>
      simp [filterLevel, Sample.call, Filter.clocked, hzero, hmod, hmax, hreleased]
  · cases hreleased : s.startupReleased <;>
      simp [filterLevel, Sample.call, Filter.clocked, hzero, hmax, take_target, pollButton,
        hreleased] <;>
      rfl

end

/-! ## 5. The filter against the samples -/

theorem firstClock_cons (e : Entry) (log : List Entry) :
    firstClock (e :: log) = (firstClock log).or e.clock := by
  rw [firstClock, List.filterMap_cons]
  cases e.clock with
  | none => rw [Option.or_none]; rfl
  | some t => rw [List.getLast?_cons, firstClock, Option.or_some]

/-- Once there is a first clocked call, it stays the first one. -/
theorem armed_cons {log : List Entry} {first : Nat} (h : firstClock log = some first) (e r : Entry) :
    r.Armed (e :: log) ↔ r.Armed log := by
  rw [Entry.Armed, Entry.Armed, firstClock_cons, h, Option.some_or]

theorem firstClock_of_mem {log : List Entry} {r : Entry} (hr : r ∈ log) {t : Nat}
    (ht : r.clock = some t) : ∃ first, firstClock log = some first := by
  cases h : firstClock log with
  | some first => exact ⟨first, rfl⟩
  | none =>
    rw [firstClock, List.getLast?_eq_none_iff] at h
    have hmem := List.mem_filterMap.mpr ⟨r, hr, ht⟩
    rw [h] at hmem
    nomatch hmem

theorem armed_of_mem {log : List Entry} {r : Entry} (hr : r ∈ log) (e : Entry) :
    r.Armed (e :: log) ↔ r.Armed log := by
  constructor
  · intro h
    have ⟨_, _, _, hnow, _⟩ := h
    obtain ⟨first, hfirst⟩ := firstClock_of_mem hr hnow
    exact (armed_cons hfirst e r).mp h
  · intro h
    have ⟨_, _, hfirst, _⟩ := h
    exact (armed_cons hfirst e r).mpr h

/-- The readings, the latest first. -/
def Sorted (log : List Entry) : Prop := (log.filterMap (·.clock)).Pairwise (· ≥ ·)

/-- No sample of the log is later than `e`. -/
def Entry.Latest (log : List Entry) (e : Entry) : Prop :=
  ∀ now, e.clock = some now → ∀ r ∈ log, ∀ t, r.clock = some t → t ≤ now

theorem Sorted.cons {log : List Entry} (h : Sorted log) {e : Entry} (he : e.Latest log) :
    Sorted (e :: log) := by
  rw [Sorted, List.filterMap_cons]
  cases hclock : e.clock with
  | none => exact h
  | some now =>
    refine List.pairwise_cons.mpr ⟨fun t ht => ?_, h⟩
    obtain ⟨r, hr, hrt⟩ := List.mem_filterMap.mp ht
    exact he now hclock r hr t hrt

/-- `accept_after`. -/
def accept : Option Nat → Nat
  | none => 0
  | some first => first + 30000

/-- Since when the button is held. -/
def heldSince (log : List Entry) : Option Nat :=
  (log.takeWhile (·.held)).getLast?.bind (·.clock)

theorem heldSince_letGo {e : Entry} (h : e.held = false) (log : List Entry) :
    heldSince (e :: log) = none := by
  rw [heldSince, List.takeWhile_cons_of_neg (by simp [h])]
  rfl

/-- The samples at the end that are held have a reading. -/
theorem clock_of_held {log : List Entry} {e : Entry} (h : e ∈ log.takeWhile (·.held)) :
    ∃ t, e.clock = some t := by
  have hheld : e.held = true := List.mem_takeWhile_imp h
  rw [Entry.held, Bool.and_eq_true] at hheld
  exact Option.isSome_iff_exists.mp hheld.1

theorem heldSince_held {e : Entry} (h : e.held = true) (log : List Entry) :
    heldSince (e :: log) = (heldSince log).or e.clock := by
  rw [heldSince, List.takeWhile_cons_of_pos h, List.getLast?_cons, heldSince]
  cases hlast : (log.takeWhile (·.held)).getLast? with
  | none => rfl
  | some l =>
    obtain ⟨t, ht⟩ := clock_of_held (List.mem_of_getLast? hlast)
    simp [ht]

/-- **Held for 5 s by some sample is held for 5 s by the first one.** -/
theorem heldSince_iff {log : List Entry} (hsorted : Sorted log) (now : Nat) :
    (∃ j ∈ log.takeWhile (·.held), ∃ since, j.clock = some since ∧ since + 5000 ≤ now) ↔
      ∃ since, heldSince log = some since ∧ since + 5000 ≤ now := by
  have hsorted : ((log.takeWhile (·.held)).filterMap (·.clock)).Pairwise (· ≥ ·) :=
    hsorted.sublist ((List.takeWhile_sublist _).filterMap _)
  constructor
  · rintro ⟨j, hj, t, ht, hnow⟩
    rcases List.eq_nil_or_concat (log.takeWhile (·.held)) with hnil | ⟨init, l, hl⟩
    · rw [hnil] at hj
      nomatch hj
    · rw [List.concat_eq_append] at hl
      have hlast : l ∈ log.takeWhile (·.held) := by
        rw [hl]
        exact List.mem_append_right init List.mem_cons_self
      obtain ⟨since, hsince⟩ := clock_of_held hlast
      refine ⟨since, by rw [heldSince, hl, List.getLast?_concat]; exact hsince, ?_⟩
      rw [hl] at hj hsorted
      rw [List.filterMap_append, List.pairwise_append] at hsorted
      rcases List.mem_append.mp hj with hj | hj
      · have hge := hsorted.2.2 t (List.mem_filterMap.mpr ⟨j, hj, ht⟩) since
          (List.mem_filterMap.mpr ⟨l, List.mem_cons_self, hsince⟩)
        omega
      · rw [List.mem_singleton.mp hj, hsince] at ht
        obtain rfl := Option.some.inj ht
        exact hnow
  · rintro ⟨since, hsince, hnow⟩
    rw [heldSince] at hsince
    obtain ⟨l, hl, hclock⟩ := Option.bind_eq_some_iff.mp hsince
    exact ⟨l, List.mem_of_getLast? hl, since, hclock, hnow⟩

/-- The press agrees with the samples: since when the button is held, and whether the gesture was
    taken since the latest release. -/
structure Tracks (log : List Entry) (press : ResetPress) : Prop where
  since : heldSince log = if press.tracking then some press.since else none
  fired : press.fired = true ↔ ∃ r ∈ log.takeWhile (!·.released), r.requested = true

/-- The filter agrees with the samples. -/
structure Keeps (s : Play) : Prop where
  accepts : s.filter.acceptAfter = accept (firstClock s.log)
  bounded : s.filter.acceptAfter < 2 ^ 64
  released : s.filter.startupReleased = true ↔ ∃ r ∈ s.log, r.released = true ∧ r.Armed s.log
  idle : s.filter.startupReleased = false →
    s.filter.press.tracking = false ∧ s.filter.press.fired = false
  tracks : s.filter.startupReleased = true → Tracks s.log s.filter.press
  sorted : Sorted s.log

theorem Keeps.start : Keeps .start where
  accepts := rfl
  bounded := by decide
  released := ⟨nofun, fun ⟨_, h, _⟩ => nomatch h⟩
  idle _ := ⟨rfl, rfl⟩
  tracks := nofun
  sorted := .nil

/-- The gesture needs a release that is armed. -/
theorem Keeps.not_gesture {s : Play} (h : Keeps s) (hs : s.filter.startupReleased = false)
    (e : Entry) : ¬ Gesture s.log e :=
  fun hg => absurd (h.released.mpr hg.released) (by rw [hs]; decide)

/-- A sample that is not held. -/
theorem Tracks.letGo {log : List Entry} {press : ResetPress} (h : Tracks log press) {e : Entry}
    (hheld : e.held = false) (hrequested : e.requested = false) (hreleased : e.released = false) :
    Tracks (e :: log) { press with tracking := false } where
  since := heldSince_letGo hheld log
  fired := by
    rw [List.takeWhile_cons_of_pos (by simp [hreleased])]
    simp [h.fired, hrequested]

/-- A release by the clock. -/
theorem Tracks.release {log : List Entry} {press : ResetPress} {e : Entry}
    (hreleased : e.released = true) (hheld : e.held = false) (htracking : press.tracking = false)
    (hfired : press.fired = false) : Tracks (e :: log) press where
  since := by rw [heldSince_letGo hheld, htracking, if_neg Bool.false_ne_true]
  fired := by
    rw [List.takeWhile_cons_of_neg (by simp [hreleased]), hfired]
    exact ⟨nofun, fun ⟨_, h, _⟩ => nomatch h⟩

/-- The press at a pressed sample: held since the first of them. -/
theorem resetPressUpdate_pressed (press : ResetPress) (now : Nat) :
    ∃ since, since = (if press.tracking then press.since else now) ∧
      (resetPressUpdate press 0 now).1 =
        ⟨since, true, press.fired || decide (since + 5000 ≤ now)⟩ ∧
      (resetPressUpdate press 0 now).2 = (!press.fired && decide (since + 5000 ≤ now)) := by
  obtain ⟨since, tracking, fired⟩ := press
  have htime (since : Nat) : (since ≤ now ∧ 5000 ≤ now - since) ↔ since + 5000 ≤ now := by omega
  refine ⟨_, rfl, ?_⟩
  cases tracking <;> cases fired <;>
    simp only [resetPressUpdate, htime, Int.lt_irrefl, if_false, if_true, Bool.not_true,
      Bool.not_false, Bool.false_and, Bool.true_and, Bool.false_or, Bool.true_or, Bool.false_eq_true, and_self]
  all_goals split <;> simp_all

/-- **A pressed sample.** -/
theorem Tracks.press {log : List Entry} {press : ResetPress} (h : Tracks log press)
    (hsorted : Sorted log) (hreleased : ∃ r ∈ log, r.released = true ∧ r.Armed log) {e : Entry}
    {now : Nat} (hlevel : e.level = 0) (hclock : e.clock = some now)
    (hrequested : e.requested = (resetPressUpdate press 0 now).2) :
    Tracks (e :: log) (resetPressUpdate press 0 now).1 ∧
      (e.requested = true ↔ Gesture log e) := by
  have hheld : e.held = true := by simp [Entry.held, hlevel, hclock]
  have hnot : e.released = false := by simp [Entry.released, hlevel]
  obtain ⟨since, hsince, hpress, hfires⟩ := resetPressUpdate_pressed press now
  have honce : press.fired = false ↔ ∀ r ∈ log.takeWhile (!·.released), r.requested = false := by
    rw [← Bool.not_eq_true, h.fired]
    simp
  have hlong : since + 5000 ≤ now ↔
      ∃ j ∈ log.takeWhile (·.held), ∃ t, j.clock = some t ∧ t + 5000 ≤ now := by
    rw [heldSince_iff hsorted, h.since, hsince]
    cases press.tracking <;> simp
  rw [hfires] at hrequested
  refine ⟨⟨?_, ?_⟩, ?_⟩
  · rw [heldSince_held hheld, h.since, hclock, hpress, hsince]
    cases press.tracking <;> rfl
  · rw [List.takeWhile_cons_of_pos (by simp [hnot]), hpress]
    simp only [List.mem_cons, exists_eq_or_imp, ← h.fired, hrequested]
    cases press.fired <;> simp
  · rw [hrequested, Bool.and_eq_true, Bool.not_eq_true', decide_eq_true_eq, honce, hlong]
    constructor
    · exact fun ⟨ho, hl⟩ => ⟨hlevel, hreleased, ho, now, hclock, hl⟩
    · rintro ⟨-, -, ho, now', hclock', hl⟩
      obtain rfl := Option.some.inj (hclock.symm.trans hclock')
      exact ⟨ho, hl⟩

theorem Entry.Passed.not_armed {log : List Entry} {e : Entry} (h : e.Passed log) :
    ¬ e.Armed (e :: log) := by
  rintro ⟨first, now, hfirst, hnow, hle⟩
  rcases h with hnone | ⟨first', now', hfirst', hnow', hlt⟩
  · rw [hfirst] at hnone
    nomatch hnone
  · rw [hfirst] at hfirst'
    rw [hnow] at hnow'
    obtain rfl := Option.some.inj hfirst'
    obtain rfl := Option.some.inj hnow'
    omega

/-- A sample that is passed changes nothing but the end of the start-up time. -/
theorem Keeps.pass {s : Play} (h : Keeps s) (e : Entry) (he : e.Latest s.log)
    (hpassed : e.Passed s.log) (hreturned : e.returned = e.level) (hrequested : e.requested = false)
    {f : Filter} (hf : f = { s.filter with acceptAfter := accept (firstClock (e :: s.log)) })
    (hbounded : f.acceptAfter < 2 ^ 64) (hreleased : s.filter.startupReleased = false) :
    Keeps ⟨f, e :: s.log⟩ ∧ Answered s.log e := by
  subst hf
  have hnone : ¬ ∃ r ∈ s.log, r.released = true ∧ r.Armed s.log := by
    rw [← h.released, hreleased]
    decide
  refine ⟨⟨rfl, hbounded, ?_, h.idle, fun hs => ?_, h.sorted.cons he⟩,
    ⟨fun _ => hreturned, fun hno => absurd hpassed hno, ?_⟩⟩
  · refine ⟨fun hs => absurd hs (by rw [hreleased]; decide), fun ⟨r, hr, hrel, harmed⟩ => ?_⟩
    rcases List.mem_cons.mp hr with rfl | hr
    · exact absurd harmed hpassed.not_armed
    · exact absurd ⟨r, hr, hrel, (armed_of_mem hr e).mp harmed⟩ hnone
  · rw [hreleased] at hs
    nomatch hs
  · rw [hrequested]
    exact ⟨nofun, fun hg => absurd hg (h.not_gesture hreleased e)⟩

/-- A sample that is hidden. -/
theorem answered_hidden {log : List Entry} {e : Entry} (hpassed : ¬ e.Passed log)
    (hreturned : e.returned = hide e.level) (hrequested : e.requested = true ↔ Gesture log e) :
    Answered log e :=
  ⟨fun h => absurd h hpassed, fun _ => hreturned, hrequested⟩

/-- A release that is armed is before nothing that is passed. -/
theorem Keeps.not_released {s : Play} (h : Keeps s) {e : Entry} (he : e.Latest s.log)
    (hpassed : e.Passed s.log) : s.filter.startupReleased = false := by
  refine Bool.eq_false_iff.mpr fun hs => ?_
  obtain ⟨r, hr, -, first, t, hfirst, ht, hle⟩ := h.released.mp hs
  rcases hpassed with hnone | ⟨first', now, hfirst', hnow, hlt⟩
  · rw [firstClock_cons, hfirst] at hnone
    nomatch hnone
  · rw [firstClock_cons, hfirst, Option.some_or] at hfirst'
    obtain rfl := Option.some.inj hfirst'
    have hlate := he now hnow r hr t ht
    omega

/-- A release is or is not what the filter waits for at its start. -/
theorem released_cons {log : List Entry} (e : Entry) :
    (∃ r ∈ e :: log, r.released = true ∧ r.Armed (e :: log)) ↔
      (e.released = true ∧ e.Armed (e :: log)) ∨ ∃ r ∈ log, r.released = true ∧ r.Armed log := by
  simp only [List.mem_cons, or_and_right, exists_or, exists_eq_left]
  refine or_congr_right (exists_congr fun r => and_congr_right fun hr => and_congr_right fun _ => ?_)
  exact armed_of_mem hr e

section

variable {s : Play} {e : Entry} {first now : Nat}

/-- A sample after the start-up time is not passed. -/
theorem not_passed (hfirst : firstClock s.log = some first) (hnow : e.clock = some now)
    (hge : first + 30000 ≤ now) : ¬ e.Passed s.log := by
  rw [Entry.Passed, firstClock_cons, hfirst, hnow]
  rintro (hnone | ⟨first', now', hfirst', hnow', hlt⟩)
  · nomatch hnone
  · obtain rfl := Option.some.inj hfirst'
    obtain rfl := Option.some.inj hnow'
    omega

/-- After the start-up time, before the first release. -/
theorem Keeps.startup (h : Keeps s) (he : e.Latest s.log) (hfirst : firstClock s.log = some first)
    (hnow : e.clock = some now) (hge : first + 30000 ≤ now) (hreturned : e.returned = hide e.level)
    (hrequested : e.requested = false) (hs : s.filter.startupReleased = false) (armed : Bool) :
    Keeps ⟨{ s.filter with
      press := { s.filter.press with tracking := false }
      armedReported := armed
      startupReleased := decide (0 < e.level) }, e :: s.log⟩ ∧ Answered s.log e := by
  have harmed : e.Armed (e :: s.log) :=
    ⟨first, now, by rw [firstClock_cons, hfirst, Option.some_or], hnow, hge⟩
  have hnone : ¬ ∃ r ∈ s.log, r.released = true ∧ r.Armed s.log := by
    rw [← h.released, hs]
    decide
  have hreleased : e.released = decide (0 < e.level) := by simp [Entry.released, hnow]
  refine ⟨⟨?_, h.bounded, ?_, fun _ => ⟨rfl, (h.idle hs).2⟩, fun hpos => ?_, h.sorted.cons he⟩,
    answered_hidden (not_passed hfirst hnow hge) hreturned ?_⟩
  · show s.filter.acceptAfter = accept (firstClock (e :: s.log))
    rw [firstClock_cons, hfirst, Option.some_or, h.accepts, hfirst]
  · show decide (0 < e.level) = true ↔ _
    rw [released_cons, or_iff_left hnone, and_iff_left harmed, hreleased]
  · have hpos : decide (0 < e.level) = true := hpos
    have hheld : e.held = false := by
      have := of_decide_eq_true hpos
      simp [Entry.held]
      omega
    exact Tracks.release (hreleased.trans hpos) hheld rfl (h.idle hs).2
  · rw [hrequested]
    exact ⟨nofun, fun hg => absurd hg (h.not_gesture hs e)⟩

/-- After the first release. -/
theorem Keeps.poll (h : Keeps s) (he : e.Latest s.log) (hfirst : firstClock s.log = some first)
    (hnow : e.clock = some now) (hge : first + 30000 ≤ now) (hreturned : e.returned = hide e.level)
    (hrequested : e.requested = (resetPressUpdate s.filter.press e.level now).2)
    (hs : s.filter.startupReleased = true) (armed : Bool) :
    Keeps ⟨{ s.filter with
      press := (resetPressUpdate s.filter.press e.level now).1
      armedReported := armed }, e :: s.log⟩ ∧ Answered s.log e := by
  have hreleases := h.released.mp hs
  have htracks : Tracks (e :: s.log) (resetPressUpdate s.filter.press e.level now).1 ∧
      (e.requested = true ↔ Gesture s.log e) := by
    rcases lt_trichotomy e.level 0 with hneg | hzero | hpos
    · have hpress : resetPressUpdate s.filter.press e.level now =
          ({ s.filter.press with tracking := false }, false) := by
        rw [resetPressUpdate, if_neg (by omega), if_pos hneg]
      rw [hpress] at hrequested ⊢
      refine ⟨(h.tracks hs).letGo ?_ hrequested ?_, ?_⟩
      · simp [Entry.held, hneg.ne]
      · simp [Entry.released, hneg.le]
      · rw [hrequested]
        exact ⟨nofun, fun hg => absurd hg.pressed hneg.ne⟩
    · rw [hzero] at hrequested ⊢
      exact (h.tracks hs).press h.sorted hreleases hzero hnow hrequested
    · have hpress : resetPressUpdate s.filter.press e.level now =
          ({ s.filter.press with tracking := false, fired := false }, false) := by
        rw [resetPressUpdate, if_pos hpos]
      rw [hpress] at hrequested ⊢
      refine ⟨Tracks.release ?_ ?_ rfl rfl, ?_⟩
      · simp [Entry.released, hnow, hpos]
      · simp [Entry.held, hpos.ne']
      · rw [hrequested]
        exact ⟨nofun, fun hg => absurd hg.pressed hpos.ne'⟩
  refine ⟨⟨?_, h.bounded, ?_, fun hno => ?_, fun _ => htracks.1, h.sorted.cons he⟩,
    answered_hidden (not_passed hfirst hnow hge) hreturned htracks.2⟩
  · show s.filter.acceptAfter = accept (firstClock (e :: s.log))
    rw [firstClock_cons, hfirst, Option.some_or, h.accepts, hfirst]
  · rw [released_cons]
    exact iff_of_true hs (.inr hreleases)
  · have hno : s.filter.startupReleased = false := hno
    rw [hs] at hno
    nomatch hno

end

section

variable {p : ResetProfile} {s : Play} {level : Int} {armedWrites : Bool}

/-- What a sample adds. -/
theorem sample_eq {x : Sample} {f : Filter} {returned : Int} {requested : Bool}
    (h : filterLevel (some p) s.filter (x.call p) = (f, returned, requested)) :
    s.sample p x = ⟨f, ⟨x.level, x.clock.map Reading.ms, returned, requested⟩ :: s.log⟩ := by
  rw [Play.sample, h]

/-- **A sample without a reading.** -/
theorem Keeps.unclocked (h : Keeps s) :
    Keeps (s.sample p ⟨level, none, armedWrites⟩) ∧
      ∃ e, (s.sample p ⟨level, none, armedWrites⟩).log = e :: s.log ∧ Answered s.log e := by
  have hfilter : filterLevel (some p) s.filter (Sample.call p ⟨level, none, armedWrites⟩) = _ :=
    filterLevel_unclocked h.bounded
  have hlatest (returned : Int) : Entry.Latest s.log ⟨level, none, returned, false⟩ := nofun
  cases hfirst : firstClock s.log with
  | none =>
    -- before the first clocked call
    rw [h.accepts, hfirst, accept, if_pos rfl] at hfilter
    rw [sample_eq hfilter]
    have hpassed : Entry.Passed s.log ⟨level, none, level, false⟩ := by
      refine .inl ?_
      rw [firstClock_cons, hfirst]
      rfl
    have hsame : s.filter = { s.filter with
        acceptAfter := accept (firstClock (⟨level, none, level, false⟩ :: s.log)) } := by
      rw [firstClock_cons, Option.or_none, ← h.accepts]
    obtain ⟨hkeeps, hanswered⟩ := h.pass ⟨level, none, level, false⟩ (hlatest level) hpassed rfl rfl
      hsame h.bounded (h.not_released (hlatest level) hpassed)
    exact ⟨hkeeps, _, rfl, hanswered⟩
  | some first =>
    rw [if_neg (by rw [h.accepts, hfirst]; exact Nat.succ_ne_zero _)] at hfilter
    rw [sample_eq hfilter]
    have hpassed : ¬ Entry.Passed s.log ⟨level, none, hide level, false⟩ := by
      rw [Entry.Passed, firstClock_cons, hfirst]
      rintro (hnone | ⟨_, _, _, hnow, _⟩)
      · nomatch hnone
      · nomatch hnow
    refine ⟨⟨?_, h.bounded, ?_, ?_, ?_, h.sorted.cons (hlatest _)⟩, _, rfl,
      answered_hidden hpassed rfl ⟨nofun, fun ⟨_, _, _, _, hnow, _⟩ => nomatch hnow⟩⟩
    · show s.filter.acceptAfter = accept (firstClock (⟨level, none, hide level, false⟩ :: s.log))
      rw [firstClock_cons, Option.or_none, h.accepts]
    · rw [released_cons]
      exact h.released.trans (or_iff_right fun hrel => nomatch hrel.1).symm
    · exact fun hs => ⟨rfl, (h.idle hs).2⟩
    · exact fun hs => (h.tracks hs).letGo rfl rfl rfl

/-- **A sample with a reading.** -/
theorem Keeps.clocked (h : Keeps s) (r : Reading)
    (hlate : ∀ e ∈ s.log, ∀ t, e.clock = some t → t ≤ r.ms) :
    Keeps (s.sample p ⟨level, some r, armedWrites⟩) ∧
      ∃ e, (s.sample p ⟨level, some r, armedWrites⟩).log = e :: s.log ∧ Answered s.log e := by
  have hfilter : filterLevel (some p) s.filter (Sample.call p ⟨level, some r, armedWrites⟩) = _ :=
    filterLevel_clocked r
  have hlatest (returned : Int) (requested : Bool) :
      Entry.Latest s.log ⟨level, some r.ms, returned, requested⟩ := fun now hnow e he t ht =>
    Option.some.inj hnow ▸ hlate e he t ht
  cases hfirst : firstClock s.log with
  | none =>
    -- the first clocked call
    have haccepts := h.accepts
    rw [hfirst, accept] at haccepts
    have hclocked : s.filter.clocked r.ms = { s.filter with acceptAfter := r.ms + 30000 } := by
      rw [Filter.clocked, if_pos haccepts]
    rw [hclocked, if_pos (Nat.lt_add_of_pos_right (by decide))] at hfilter
    rw [sample_eq hfilter]
    have hcons (e : Entry) (he : e.clock = some r.ms) : firstClock (e :: s.log) = some r.ms := by
      rw [firstClock_cons, hfirst, he, Option.none_or]
    have hpassed : Entry.Passed s.log ⟨level, some r.ms, level, false⟩ :=
      .inr ⟨r.ms, r.ms, hcons _ rfl, rfl, Nat.lt_add_of_pos_right (by decide)⟩
    obtain ⟨hkeeps, hanswered⟩ := h.pass ⟨level, some r.ms, level, false⟩ (hlatest level false)
      hpassed rfl rfl (by rw [hcons _ rfl, accept]) r.fits
      (h.not_released (hlatest level false) hpassed)
    exact ⟨hkeeps, _, rfl, hanswered⟩
  | some first =>
    have haccepts := h.accepts
    rw [hfirst, accept] at haccepts
    have hclocked : s.filter.clocked r.ms = s.filter := by
      rw [Filter.clocked, if_neg (haccepts ▸ Nat.succ_ne_zero _)]
    rw [hclocked] at hfilter
    by_cases hlt : r.ms < first + 30000
    · -- the start-up time is not over
      rw [haccepts, if_pos hlt] at hfilter
      rw [sample_eq hfilter]
      have hcons (e : Entry) : firstClock (e :: s.log) = some first := by
        rw [firstClock_cons, hfirst, Option.some_or]
      have hpassed : Entry.Passed s.log ⟨level, some r.ms, level, false⟩ :=
        .inr ⟨first, r.ms, hcons _, rfl, hlt⟩
      obtain ⟨hkeeps, hanswered⟩ := h.pass ⟨level, some r.ms, level, false⟩ (hlatest level false)
        hpassed rfl rfl (f := s.filter) (by rw [hcons, accept, ← haccepts]) h.bounded
        (h.not_released (hlatest level false) hpassed)
      exact ⟨hkeeps, _, rfl, hanswered⟩
    · have hge := Nat.not_lt.mp hlt
      rw [haccepts, if_neg hlt] at hfilter
      dsimp only at hfilter
      cases hs : s.filter.startupReleased with
      | false =>
        rw [if_neg (by rw [hs]; decide)] at hfilter
        rw [sample_eq hfilter]
        obtain ⟨hkeeps, hanswered⟩ := h.startup (e := ⟨level, some r.ms, hide level, false⟩)
          (hlatest _ _) hfirst rfl hge rfl rfl hs (s.filter.armedReported || armedWrites)
        exact ⟨hkeeps, _, rfl, hanswered⟩
      | true =>
        rw [if_pos hs] at hfilter
        rw [sample_eq hfilter]
        obtain ⟨hkeeps, hanswered⟩ := h.poll (e := ⟨level, some r.ms, hide level,
          (resetPressUpdate s.filter.press level r.ms).2⟩) (hlatest _ _) hfirst rfl hge rfl rfl hs
            (s.filter.armedReported || armedWrites)
        exact ⟨hkeeps, _, rfl, hanswered⟩

end

/-! ## 6. Runs -/

theorem play_concat (p : ResetProfile) (samples : List Sample) (x : Sample) :
    play p (samples ++ [x]) = (play p samples).sample p x := by
  rw [play, run_concat, play]

/-- The readings of the log are those of the samples. -/
theorem play_clocks (p : ResetProfile) (samples : List Sample) :
    (play p samples).log.filterMap (·.clock) =
      ((samples.filterMap (·.clock)).map Reading.ms).reverse := by
  induction samples using List.reverseRecOn with
  | nil => rfl
  | append_singleton samples x ih =>
    rw [play_concat, Play.sample, List.filterMap_cons, ih, List.filterMap_append, List.map_append,
      List.reverse_append]
    cases hclock : x.clock with
    | none => simp [hclock]
    | some r => simp [hclock]

theorem play_keeps (p : ResetProfile) (samples : List Sample) (hclock : Nondecreasing samples) :
    Keeps (play p samples) ∧ AllAnswered (play p samples).log := by
  induction samples using List.reverseRecOn with
  | nil => exact ⟨.start, trivial⟩
  | append_singleton samples x ih =>
    rw [Nondecreasing, List.filterMap_append, List.map_append, List.pairwise_append] at hclock
    obtain ⟨hkeeps, hall⟩ := ih hclock.1
    have hlate : ∀ r, x.clock = some r → ∀ e ∈ (play p samples).log, ∀ t, e.clock = some t →
        t ≤ r.ms := by
      intro r hr e he t ht
      refine hclock.2.2 t ?_ r.ms ?_
      · rw [← List.mem_reverse, ← play_clocks p samples]
        exact List.mem_filterMap.mpr ⟨e, he, ht⟩
      · simp [hr]
    have hstep : Keeps ((play p samples).sample p x) ∧
        ∃ e, ((play p samples).sample p x).log = e :: (play p samples).log ∧
          Answered (play p samples).log e := by
      obtain ⟨level, clock, armedWrites⟩ := x
      cases clock with
      | none => exact hkeeps.unclocked
      | some r => exact hkeeps.clocked r (hlate r rfl)
    obtain ⟨hkeeps', e, hlog, hanswered⟩ := hstep
    rw [play_concat]
    refine ⟨hkeeps', ?_⟩
    rw [hlog]
    exact ⟨hanswered, hall⟩

/-- **Every sample is answered as it should be**, over every list of samples whose clock never runs
    backwards. -/
theorem gesture_exact (p : ResetProfile) (samples : List Sample)
    (hclock : Nondecreasing samples) : AllAnswered (play p samples).log :=
  (play_keeps p samples hclock).2

/-- Released at the start and 30 s later, pressed from then on for 5 s. -/
def samplePress : List Sample :=
  [⟨1, some ⟨0, by decide⟩, true⟩, ⟨1, some ⟨30000, by decide⟩, true⟩,
    ⟨0, some ⟨31000, by decide⟩, true⟩, ⟨0, some ⟨36000, by decide⟩, true⟩]

theorem samplePress_answered : AllAnswered (play y623 samplePress).log :=
  gesture_exact y623 samplePress (by decide)

example : (play y623 samplePress).log.map (·.requested) = [true, false, false, false] := by decide

/-- **Within the 30 s a sample without a reading is not passed**: pressed, it is hidden. -/
theorem startup_not_passed : ¬ ∀ (p : ResetProfile) (samples : List Sample), Nondecreasing samples →
    ∀ newer e older, (play p samples).log = newer ++ e :: older →
      (∃ first, firstClock (e :: older) = some first ∧
        ∃ r ∈ newer, ∃ now, r.clock = some now ∧ now < first + 30000) → e.returned = e.level := by
  intro h
  have hpassed := h y623
    [⟨1, some ⟨0, by decide⟩, true⟩, ⟨0, none, true⟩, ⟨1, some ⟨1000, by decide⟩, true⟩] (by decide)
    [⟨1, some 1000, 1, false⟩] ⟨0, none, 1, false⟩ [⟨1, some 0, 1, false⟩] (by decide)
    ⟨0, rfl, ⟨1, some 1000, 1, false⟩, List.mem_cons_self, 1000, rfl, by decide⟩
  exact absurd hpassed (by decide)

end YiHack.Hotspot
