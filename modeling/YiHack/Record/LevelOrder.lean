/-
  File:      YiHack/Record/LevelOrder.lean
  Subject:   `motion_metadata_levels.c`: the order of the samples that are kept.

  The writer's two calls, `motion_levels_start` and `motion_levels_tick`, on the values in the
  mapping. A tick resets the history after a step of the wall clock, which it tells from the last
  tick of its own process. A start keeps the history unless it lies in the future, and forgets the
  last tick; a clock that is set back between a start and the tick that follows goes unnoticed.

  * `append_retained` -- a sample is appended, and the oldest makes room;
  * `step_kept_iff` -- the step after which the samples are still in order;
  * **`levels_chronological`** -- the runs in which they are in order throughout.

  Times are integers: differences of times of day fit an `int64_t`. Beside the mapping the model
  notes the samples accepted since the last reset.
-/
import YiHack.Record.LevelSnapshot

namespace YiHack.Record.LevelOrder

open General

/-! ## 1. The history -/

/-- `struct motion_levels`. -/
structure Levels where
  first : Nat
  count : Nat
  startedMs : Int
  discardedMs : Int
  observedUntilMs : Int
  samples : Fin LEVEL_CAPACITY → LevelSample

/-- `i % LEVEL_CAPACITY`. -/
def slot (i : Nat) : Fin LEVEL_CAPACITY := ⟨i % LEVEL_CAPACITY, Nat.mod_lt _ (by decide)⟩

/-- The samples in use, oldest first. -/
def Levels.retained (h : Levels) : List LevelSample :=
  (List.range h.count).map fun i => h.samples (slot (h.first + i))

/-- `first` and `count` are within the ring. -/
def Levels.Fits (h : Levels) : Prop := h.first < LEVEL_CAPACITY ∧ h.count ≤ LEVEL_CAPACITY

instance (h : Levels) : Decidable h.Fits := inferInstanceAs (Decidable (_ ∧ _))

/-- A sample all of whose bytes are zero. -/
def noSample : LevelSample := ⟨0, 0, 0, 0, 0, 0⟩

/-- `reset_levels`. -/
def resetLevels (unixMs : Int) : Levels := ⟨0, 0, unixMs, -1, unixMs, fun _ => noSample⟩

/-- The oldest sample of a full ring makes room. -/
def Levels.discard (h : Levels) : Levels :=
  if h.count = LEVEL_CAPACITY then
    { h with
      discardedMs := (h.samples (slot h.first)).unixMs
      first := (h.first + 1) % LEVEL_CAPACITY
      count := h.count - 1 }
  else h

/-- `h->samples[(h->first + h->count++) % LEVEL_CAPACITY] = *sample`. -/
def Levels.store (h : Levels) (x : LevelSample) : Levels :=
  { h with
    samples := Function.update h.samples (slot (h.first + h.count)) x
    count := h.count + 1 }

def Levels.append (h : Levels) (x : LevelSample) : Levels := h.discard.store x

/-- A reading that is kept. -/
def usable (active valid : Bool) (x : LevelSample) : Bool :=
  active && valid && ratioUsable x.binRatio && !x.movingLevel.msb

/-! ## 2. The writer -/

/-- The mapping, the statics of the writer's process, and the samples accepted since the last
    reset. -/
structure State where
  magic : Word
  version : Word
  sequence : Word
  history : Levels
  own : LevelStatics
  accepted : List LevelSample

/-- What happens: the two calls, the end of the process between two calls, and its end inside one,
    which leaves the marks and the history in any state. -/
inductive Input
  | start (m : Mapping) (now : Int)
  | tick (active valid : Bool) (sample : Option LevelSample) (monotonicMs : Int)
  | exit
  | killed (magic version : Word) (history : Levels)

/-- The statics of a new process. -/
def newProcess : LevelStatics := ⟨false, 0, 0⟩

/-- The magic and the version of a history. -/
def State.Marked (s : State) : Prop := s.magic = LEVEL_MAGIC ∧ s.version = 2

instance (s : State) : Decidable s.Marked := inferInstanceAs (Decidable (_ ∧ _))

/-- `retain`. -/
def State.retains (s : State) (now : Int) : Bool :=
  !odd s.sequence && decide s.Marked && decide s.history.Fits &&
    decide (s.history.observedUntilMs ≤ now)

/-- `motion_levels_start`. -/
def motionLevelsStart (m : Mapping) (now : Int) (s : State) : State :=
  match m with
  | .failed => s
  | .unmapped => { s with own := { s.own with mapped := false } }
  | .mapped =>
    let sequence := roundUp s.sequence
    { magic := LEVEL_MAGIC
      version := 2
      sequence := sequence + 2
      history := if s.retains now then s.history else resetLevels now
      own := ⟨true, 0, 0⟩
      accepted := if s.retains now then s.accepted else [] }

/-- `motion_levels_tick`. -/
def motionLevelsTick (active valid : Bool) (sample : Option LevelSample) (monotonicMs : Int)
    (s : State) : State :=
  match s.own.mapped, sample with
  | true, some x =>
    let reset := clockStepped s.own x.unixMs monotonicMs
    let history := if reset then resetLevels x.unixMs else s.history
    let accepted := if reset then [] else s.accepted
    let history := { history with observedUntilMs := x.unixMs }
    { s with
      sequence := s.sequence + 1 + 1
      own := { s.own with lastWall := x.unixMs, lastMono := monotonicMs }
      history := if usable active valid x then history.append x else history
      accepted := if usable active valid x then accepted ++ [x] else accepted }
  | _, _ => s

def step (s : State) : Input → State
  | .start m now => motionLevelsStart m now s
  | .tick active valid sample monotonicMs => motionLevelsTick active valid sample monotonicMs s
  | .exit => { s with own := newProcess }
  | .killed magic version history =>
    -- both calls make the sequence odd first
    { s with
      magic := magic
      version := version
      sequence := if odd s.sequence then s.sequence else s.sequence + 1
      history := history
      own := newProcess }

/-! ## 3. What is expected -/

/-- A state a reader takes a history from. -/
def State.Published (s : State) : Prop := odd s.sequence = false ∧ s.Marked

instance (s : State) : Decidable s.Published := inferInstanceAs (Decidable (_ ∧ _))

/-- The samples kept are the newest of those accepted since the last reset, in their order; their
    times do not decrease, and none is later than what has been observed. -/
structure Chronological (s : State) : Prop where
  newest : s.history.retained = newest LEVEL_CAPACITY s.accepted
  ordered : s.history.retained.Pairwise fun x y => x.unixMs ≤ y.unixMs
  observed : ∀ x ∈ s.history.retained, x.unixMs ≤ s.history.observedUntilMs

/-- A published state is as expected. -/
def Kept (s : State) : Prop := s.Published → Chronological s

/-- The statics do not matter. -/
theorem Kept.same {s : State} {own : LevelStatics} (h : Kept s) : Kept { s with own := own } :=
  fun hp => ⟨(h hp).newest, (h hp).ordered, (h hp).observed⟩

/-- A file the first start makes a history of: nobody has left one in it. -/
structure Fresh (s : State) : Prop where
  unpublished : ¬ s.Published
  own : s.own = newProcess

/-- **The condition on a step**: a tick that has no tick before it in its process is not earlier
    than a sample that is kept. -/
def Onward (s : State) : Input → Prop
  | .tick _ _ (some x) _ =>
    s.own.mapped = true → s.own.lastMono = 0 → ∀ y ∈ s.history.retained, y.unixMs ≤ x.unixMs
  | _ => True

/-! ## 4. Appending -/

variable {h : Levels} {s : State} {l : List LevelSample}

/-- The history as a ring. -/
def Levels.ring (h : Levels) (hf : h.Fits) : Ring LevelSample LEVEL_CAPACITY :=
  ⟨h.first, h.count, h.samples, hf.1, hf.2⟩

theorem ring_toList (hf : h.Fits) : (h.ring hf).toList = h.retained := rfl

theorem retained_length (h : Levels) : h.retained.length = h.count := by
  rw [Levels.retained, List.length_map, List.length_range]

theorem append_fits (hf : h.Fits) (x : LevelSample) : (h.append x).Fits := by
  obtain ⟨hfirst, hcount⟩ := hf
  unfold Levels.append Levels.discard
  split
  · rename_i hfull
    exact ⟨Nat.mod_lt _ (by decide), by simp only [Levels.store]; omega⟩
  · rename_i hroom
    exact ⟨hfirst, by simp only [Levels.store]; omega⟩

/-- Appending is a push. -/
theorem append_ring (hf : h.Fits) (x : LevelSample) :
    (h.append x).ring (append_fits hf x) = (h.ring hf).push x := by
  have hslot : slot ((h.first + 1) % LEVEL_CAPACITY + (LEVEL_CAPACITY - 1)) =
      slot (h.first + LEVEL_CAPACITY) := by
    apply Fin.ext
    simp only [slot, LEVEL_CAPACITY]
    omega
  unfold Levels.ring Ring.push
  by_cases hfull : h.count = LEVEL_CAPACITY
  · simp only [Levels.append, Levels.discard, Levels.store, hfull, if_true, dif_pos, hslot]
    rfl
  · simp only [Levels.append, Levels.discard, Levels.store, hfull, if_false, dif_neg,
      not_false_eq_true]
    rfl

/-- **A sample is appended**, and the oldest one makes room in a full ring. -/
theorem append_retained (hf : h.Fits) (x : LevelSample) :
    (h.append x).retained =
      (if h.count = LEVEL_CAPACITY then h.retained.tail else h.retained) ++ [x] := by
  rw [← ring_toList (append_fits hf x), append_ring hf, Ring.toList_push]
  rfl

theorem append_newest (hf : h.Fits) (hl : h.retained = newest LEVEL_CAPACITY l) (x : LevelSample) :
    (h.append x).retained = newest LEVEL_CAPACITY (l ++ [x]) := by
  rw [← ring_toList (append_fits hf x), append_ring hf]
  exact Ring.toList_push_newest (show (h.ring hf).toList = _ from hl) x

theorem append_observed (h : Levels) (x : LevelSample) :
    (h.append x).observedUntilMs = h.observedUntilMs := by
  unfold Levels.append Levels.discard
  split <;> rfl

theorem reset_fits (unixMs : Int) : (resetLevels unixMs).Fits :=
  ⟨show 0 < LEVEL_CAPACITY by decide, Nat.zero_le _⟩

/-! ## 5. What every step keeps -/

/-- A mapped writer stands behind a published history, which is the newest of what was accepted and
    has been observed until the last tick. -/
structure Inv (s : State) : Prop where
  published : s.own.mapped = true → s.Published
  fits : s.Published → s.history.Fits
  newest : s.Published → s.history.retained = newest LEVEL_CAPACITY s.accepted
  wall : s.own.mapped = true → s.own.lastMono ≠ 0 → s.history.observedUntilMs = s.own.lastWall

theorem Fresh.inv (h : Fresh s) : Inv s where
  published hm := absurd (h.own ▸ hm) nofun
  fits hp := absurd hp h.unpublished
  newest hp := absurd hp h.unpublished
  wall hm := absurd (h.own ▸ hm) nofun

theorem odd_roundUp (w : Word) : odd (roundUp w) = false := by
  have h := roundUp_ofNat w.toNat
  rw [BitVec.ofNat_toNat, BitVec.setWidth_eq] at h
  rw [h, odd_ofNat, decide_eq_false_iff_not]
  omega

/-- A history that is kept by a start was published. -/
theorem published_of_retains {now : Int} (h : s.retains now = true) : s.Published := by
  simp only [State.retains, Bool.and_eq_true, Bool.not_eq_true', decide_eq_true_eq] at h
  exact ⟨h.1.1.1, h.1.1.2⟩

theorem start_published (s : State) (now : Int) : (motionLevelsStart .mapped now s).Published :=
  ⟨(odd_add_two _).trans (odd_roundUp _), rfl, rfl⟩

/-- The history of a start is the one found or an empty one. -/
theorem start_cases (s : State) (now : Int) :
    (s.Published ∧ (motionLevelsStart .mapped now s).history = s.history ∧
        (motionLevelsStart .mapped now s).accepted = s.accepted) ∨
      ((motionLevelsStart .mapped now s).history = resetLevels now ∧
        (motionLevelsStart .mapped now s).accepted = []) := by
  by_cases hr : s.retains now = true
  · exact .inl ⟨published_of_retains hr, if_pos hr, if_pos hr⟩
  · exact .inr ⟨if_neg hr, if_neg hr⟩

theorem start_inv (h : Inv s) (m : Mapping) (now : Int) : Inv (motionLevelsStart m now s) := by
  cases m with
  | failed => exact h
  | unmapped => exact ⟨nofun, h.fits, h.newest, nofun⟩
  | mapped =>
    have hp := start_published s now
    have hmono : (motionLevelsStart .mapped now s).own.lastMono = 0 := rfl
    rcases start_cases s now with ⟨hs, hh, ha⟩ | ⟨hh, ha⟩
    · exact ⟨fun _ => hp, fun _ => hh ▸ h.fits hs, fun _ => by rw [hh, ha]; exact h.newest hs,
        fun _ hne => absurd hmono hne⟩
    · exact ⟨fun _ => hp, fun _ => hh ▸ reset_fits now, fun _ => by rw [hh, ha]; rfl,
        fun _ hne => absurd hmono hne⟩

/-- The history a tick goes on from: an empty one behind a step of the clock. -/
def State.before (s : State) (x : LevelSample) (monotonicMs : Int) : Levels :=
  let history := if clockStepped s.own x.unixMs monotonicMs then resetLevels x.unixMs else s.history
  { history with observedUntilMs := x.unixMs }

/-- What was accepted until then. -/
def State.acceptedBefore (s : State) (x : LevelSample) (monotonicMs : Int) : List LevelSample :=
  if clockStepped s.own x.unixMs monotonicMs then [] else s.accepted

variable {active valid : Bool} {x : LevelSample} {monotonicMs : Int}

/-- What a tick with a sample does. -/
theorem tick_some (hm : s.own.mapped = true) :
    motionLevelsTick active valid (some x) monotonicMs s =
      { s with
        sequence := s.sequence + 1 + 1
        own := { s.own with lastWall := x.unixMs, lastMono := monotonicMs }
        history := if usable active valid x then (s.before x monotonicMs).append x
          else s.before x monotonicMs
        accepted := if usable active valid x then s.acceptedBefore x monotonicMs ++ [x]
          else s.acceptedBefore x monotonicMs } := by
  unfold motionLevelsTick
  rw [hm]
  rfl

/-- A tick without a mapping or without a sample does nothing. -/
theorem tick_idle {sample : Option LevelSample} (h : s.own.mapped = false ∨ sample = none) :
    motionLevelsTick active valid sample monotonicMs s = s := by
  unfold motionLevelsTick
  split
  · rename_i hm
    rcases h with h | h
    · exact absurd (hm.symm.trans h) nofun
    · exact absurd h nofun
  · rfl

/-- What is kept before a tick appends. -/
theorem before_retained : (s.before x monotonicMs).retained =
    if clockStepped s.own x.unixMs monotonicMs then [] else s.history.retained := by
  unfold State.before
  split <;> rfl

theorem before_newest (x : LevelSample) (monotonicMs : Int) (h : Inv s) (hp : s.Published) :
    (s.before x monotonicMs).retained = newest LEVEL_CAPACITY (s.acceptedBefore x monotonicMs) := by
  rw [before_retained, State.acceptedBefore]
  split
  · exact (newest_nil _).symm
  · exact h.newest hp

theorem before_fits (x : LevelSample) (monotonicMs : Int) (h : Inv s) (hp : s.Published) :
    (s.before x monotonicMs).Fits := by
  unfold State.before
  split
  · exact reset_fits x.unixMs
  · exact h.fits hp

theorem tick_published (hm : s.own.mapped = true) (hp : s.Published) :
    (motionLevelsTick active valid (some x) monotonicMs s).Published := by
  rw [tick_some hm]
  refine ⟨?_, hp.2⟩
  show odd (s.sequence + 1#32 + 1#32) = false
  rw [odd_add_one, odd_add_one, hp.1]
  rfl

theorem tick_inv (h : Inv s) (sample : Option LevelSample) :
    Inv (motionLevelsTick active valid sample monotonicMs s) := by
  cases hm : s.own.mapped with
  | false =>
    rw [tick_idle (.inl hm)]
    exact h
  | true =>
    cases sample with
    | none =>
      rw [tick_idle (.inr rfl)]
      exact h
    | some x =>
      have hp := h.published hm
      have hfits := before_fits x monotonicMs h hp
      have hnewest := before_newest x monotonicMs h hp
      refine ⟨fun _ => tick_published hm hp, fun _ => ?_, fun _ => ?_, fun _ _ => ?_⟩
      · rw [tick_some hm]
        simp only
        split
        · exact append_fits hfits x
        · exact hfits
      · rw [tick_some hm]
        simp only
        split
        · exact append_newest hfits hnewest x
        · exact hnewest
      · rw [tick_some hm]
        simp only
        split
        · exact append_observed _ _
        · rfl

/-- A call that is killed leaves nothing published. -/
theorem killed_unpublished (magic version : Word) (history : Levels) (s : State) :
    ¬ (step s (.killed magic version history)).Published := by
  have hodd : odd (if odd s.sequence then s.sequence else s.sequence + 1#32) = true := by
    split
    · assumption
    · rename_i heven
      rw [odd_add_one, Bool.not_eq_true', Bool.eq_false_iff]
      exact heven
  exact fun hp => absurd (hodd.symm.trans hp.1) nofun

theorem step_inv (s : State) (i : Input) (h : Inv s) : Inv (step s i) := by
  cases i with
  | start m now => exact start_inv h m now
  | tick active valid sample monotonicMs => exact tick_inv h sample
  | exit => exact ⟨nofun, h.fits, h.newest, nofun⟩
  | killed magic version history =>
    have hnot := killed_unpublished magic version history s
    exact ⟨nofun, fun hp => absurd hp hnot, fun hp => absurd hp hnot, nofun⟩

/-! ## 6. The order -/

/-- Samples in order and not later than `x`, one of them dropped for `x`, are in order. -/
theorem ordered_append (hf : h.Fits) {x : LevelSample}
    (ho : h.retained.Pairwise fun x y => x.unixMs ≤ y.unixMs)
    (hx : ∀ y ∈ h.retained, y.unixMs ≤ x.unixMs) :
    (h.append x).retained.Pairwise (fun x y => x.unixMs ≤ y.unixMs) ∧
      ∀ y ∈ (h.append x).retained, y.unixMs ≤ x.unixMs := by
  have hsub : ∀ y ∈ (if h.count = LEVEL_CAPACITY then h.retained.tail else h.retained),
      y.unixMs ≤ x.unixMs := by
    intro y hy
    split at hy
    · exact hx y (List.mem_of_mem_tail hy)
    · exact hx y hy
  rw [append_retained hf]
  constructor
  · refine List.pairwise_append.mpr ⟨?_, List.pairwise_singleton _ _, ?_⟩
    · split
      · exact ho.tail
      · exact ho
    · intro y hy z hz
      rw [List.mem_singleton.mp hz]
      exact hsub y hy
  · intro y hy
    rcases List.mem_append.mp hy with hy | hy
    · exact hsub y hy
    · rw [List.mem_singleton.mp hy]

/-- Samples that are in order once `x` is appended are not later than `x`, those dropped included:
    the oldest is not later than the next. -/
theorem before_of_append (hf : h.Fits) {x : LevelSample}
    (ho : h.retained.Pairwise fun x y => x.unixMs ≤ y.unixMs)
    (hx : ∀ y ∈ (h.append x).retained, y.unixMs ≤ x.unixMs) :
    ∀ y ∈ h.retained, y.unixMs ≤ x.unixMs := by
  rw [append_retained hf] at hx
  intro y hy
  by_cases hfull : h.count = LEVEL_CAPACITY
  · rw [if_pos hfull] at hx
    have hlength := retained_length h
    match hl : h.retained with
    | [] =>
      rw [hl, hfull] at hlength
      exact absurd (show 0 = LEVEL_CAPACITY from hlength) (by decide)
    | [_] =>
      rw [hl, hfull] at hlength
      exact absurd (show 1 = LEVEL_CAPACITY from hlength) (by decide)
    | oldest :: second :: rest =>
      rw [hl] at hy hx ho
      have hsecond : second.unixMs ≤ x.unixMs :=
        hx second (List.mem_append_left _ List.mem_cons_self)
      rcases List.mem_cons.mp hy with rfl | hy
      · exact ((List.pairwise_cons.mp ho).1 second List.mem_cons_self).trans hsecond
      · exact hx y (List.mem_append_left _ hy)
  · rw [if_neg hfull] at hx
    exact hx y (List.mem_append_left _ hy)

/-- A tick leaves the samples in order exactly where it is not earlier than one it found. -/
theorem tick_kept_iff (h : Inv s) (hm : s.own.mapped = true)
    (hc : Chronological s) :
    Kept (motionLevelsTick active valid (some x) monotonicMs s) ↔
      ∀ y ∈ (s.before x monotonicMs).retained, y.unixMs ≤ x.unixMs := by
  have hp := h.published hm
  have hfits := before_fits x monotonicMs h hp
  have hordered : (s.before x monotonicMs).retained.Pairwise fun x y => x.unixMs ≤ y.unixMs := by
    rw [before_retained]
    split
    · exact List.Pairwise.nil
    · exact hc.ordered
  have hobserved : (s.before x monotonicMs).observedUntilMs = x.unixMs := rfl
  have hpublished : (motionLevelsTick active valid (some x) monotonicMs s).Published :=
    tick_published hm hp
  have hinv : Inv (motionLevelsTick active valid (some x) monotonicMs s) := tick_inv h (some x)
  constructor
  · intro hkept
    have hafter := (hkept hpublished).observed
    rw [tick_some hm] at hafter
    simp only at hafter
    split at hafter
    · rw [append_observed, hobserved] at hafter
      exact before_of_append hfits hordered hafter
    · exact hafter
  · intro hx _
    refine ⟨hinv.newest hpublished, ?_, ?_⟩
    · rw [tick_some hm]
      simp only
      split
      · exact (ordered_append hfits hordered hx).1
      · exact hordered
    · rw [tick_some hm]
      simp only
      split
      · rw [append_observed, hobserved]
        exact (ordered_append hfits hordered hx).2
      · exact hx

/-- **The step behind which the samples are still in order.** -/
theorem step_kept_iff (s : State) (i : Input) (h : Inv s) (hk : Kept s) :
    Onward s i ↔ Kept (step s i) := by
  cases i with
  | start m now =>
    refine ⟨fun _ => ?_, fun _ => trivial⟩
    cases m with
    | failed => exact hk
    | unmapped => exact hk.same
    | mapped =>
      intro hp
      rcases start_cases s now with ⟨hs, hh, ha⟩ | ⟨hh, ha⟩
      · obtain ⟨hnewest, hordered, hobserved⟩ := hk hs
        exact ⟨by simp only [step]; rw [hh, ha]; exact hnewest,
          by simp only [step]; rw [hh]; exact hordered, by simp only [step]; rw [hh]; exact hobserved⟩
      · exact ⟨by simp only [step]; rw [hh, ha]; rfl, by simp only [step]; rw [hh]; exact .nil,
          by simp only [step]; rw [hh]; exact fun y hy => absurd hy List.not_mem_nil⟩
  | tick active valid sample monotonicMs =>
    cases sample with
    | none =>
      simp only [step]
      rw [tick_idle (.inr rfl)]
      exact ⟨fun _ => hk, fun _ => trivial⟩
    | some x =>
      simp only [step, Onward]
      cases hm : s.own.mapped with
      | false =>
        rw [tick_idle (.inl hm)]
        exact ⟨fun _ => hk, fun _ => nofun⟩
      | true =>
        have hc := hk (h.published hm)
        rw [tick_kept_iff h hm hc, before_retained]
        constructor
        · intro hon
          split
          · exact fun y hy => absurd hy List.not_mem_nil
          · rename_i hclock
            by_cases hmono : s.own.lastMono = 0
            · exact hon rfl hmono
            · -- the clock was not set back since the last tick
              have hwall := h.wall hm hmono
              have hforward : s.own.lastWall ≤ x.unixMs := by
                simp only [clockStepped, Bool.and_eq_true, bne_iff_ne, Bool.or_eq_true,
                  decide_eq_true_eq, not_and_or, not_or] at hclock
                rcases hclock with hclock | hclock
                · exact absurd hmono hclock
                · omega
              exact fun y hy => (hc.observed y hy).trans (hwall ▸ hforward)
        · intro hx _ hmono
          have hclock : clockStepped s.own x.unixMs monotonicMs = false := by
            rw [clockStepped, hmono]
            rfl
          rw [hclock] at hx
          exact hx
  | exit => exact ⟨fun _ => hk.same, fun _ => trivial⟩
  | killed magic version history =>
    exact ⟨fun _ hp => absurd hp (killed_unpublished magic version history s), fun _ => trivial⟩

/-! ## 7. Every run -/

/-- Every published state of a run keeps the samples in order. -/
def KeptThroughout (s : State) (is : List Input) : Prop := ∀ k, Kept (run step s (is.take k))

/-- **When the samples are chronological.** Over the runs from a new file, with any starts, ticks,
    ends of the process and steps of the clock: every published state keeps the newest samples
    accepted since the last reset, in their order and none later than what has been observed,
    exactly where no first tick of a process is earlier than a sample its start kept. -/
theorem levels_chronological {s : State} (hs : Fresh s) (is : List Input) :
    KeptThroughout s is ↔ StepsMeet step Onward s is :=
  stepsMeet_iff step_inv step_kept_iff hs.inv (fun hp => absurd hp hs.unpublished) is

instance (s : State) (i : Input) : Decidable (Onward s i) :=
  match i with
  | .tick _ _ (some _) _ => inferInstanceAs (Decidable (_ = true → _ = (0 : Int) → ∀ y ∈ _, _))
  | .tick _ _ none _ => isTrue trivial
  | .start _ _ => isTrue trivial
  | .exit => isTrue trivial
  | .killed _ _ _ => isTrue trivial

/-- A new file, all zeros. -/
def newFile : State := ⟨0, 0, 0, ⟨0, 0, 0, 0, 0, fun _ => noSample⟩, newProcess, []⟩

theorem newFile_fresh : Fresh newFile := ⟨by decide, rfl⟩

/-- A reading at a time of day. -/
def readingAt (unixMs : Int) : LevelSample := { noSample with unixMs := unixMs }

/-- A start, a reading, a restart, and another reading, at a time of day. -/
def restarted (unixMs : Int) : List Input :=
  [.start .mapped 1000, .tick true true (some (readingAt 1000)) 50, .exit, .start .mapped 2000,
    .tick true true (some (readingAt unixMs)) 60]

theorem levels_chronological_restarted : KeptThroughout newFile (restarted 2100) :=
  (levels_chronological newFile_fresh (restarted 2100)).mpr (by decide)

/-- The clock is set back between the restart and the reading. -/
theorem restart_disorders : ¬ ∀ s is, Fresh s → KeptThroughout s is := by
  intro h
  have hkept := h newFile (restarted 500) newFile_fresh 5 (by decide)
  exact absurd hkept.ordered (by decide)

end YiHack.Record.LevelOrder
