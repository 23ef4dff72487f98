/-
  File:      YiHack/Spatial/Fallback.lean
  Subject:   `motion_mask_read` over a run: what its readings say of a source that delivers no
             predicted frame.

  * `Call`, `Call.read`, `readings` -- the calls, with what the mapping holds at each;
  * `Outcome` -- what one call can do;
  * `Mask.Overdue`, `Fallback` -- for 2000 ms no predicted frame;
  * **`fallback_lasts_iff`** -- the readings keep to the fallback exactly where no call behind an
    overdue one finds an overlap while the frame adopted last is fresh.
-/
import YiHack.Spatial.Alone
import Mathlib.Data.List.Chain

namespace YiHack.Spatial

open General

/-! ## 1. Calls and readings -/

/-- What a call finds: the mapping, whether its file can be opened, and the time. -/
structure Call where
  contents : Map
  opened : Bool
  now : Int

/-- What a call leaves and returns. -/
structure Reading where
  call : Call
  mask : Mask
  rc : Int

/-- One call of `motion_mask_read`. -/
def Call.read (c : Call) (m : Mask) : Reading :=
  let r := (motionMaskRead c.opened c.now).alone (c.contents.setMask m)
  ⟨c, r.1.mask, r.2⟩

def Call.step (m : Mask) (c : Call) : Mask := (c.read m).mask

/-- A run. -/
def readings : Mask → List Call → List Reading
  | _, [] => []
  | m, c :: cs => c.read m :: readings (c.read m).mask cs

/-- The version is one of the two. -/
def Map.readable (s : Map) : Bool :=
  s.version == MOTION_MAP_VERSION || s.version == MOTION_MAP_LEGACY_VERSION

/-- The frame the mapping holds, if it is whole and fresh. -/
def Call.found (c : Call) : Option Frame :=
  let s := c.contents
  if s.generation = 0#32 ∨ odd s.generation = true ∨ s.readable = false then none
  else if s.sample.pid = 0#32 ∨ c.now < s.sample.monotonicMs ∨
      c.now - s.sample.monotonicMs > 500 then none
  else some (asVersioned s.version s.sample)

/-- The call reads a predicted frame. -/
def Call.predicted (c : Call) : Bool := c.found.any fun f => f.pFrame != 0#32

/-- `mask.fallback` of `main`: the whole picture decides. -/
def Reading.fallback (r : Reading) (started : Int) : Bool :=
  decide (r.rc < 0) && (r.mask.lastPid != 0#32 || decide (r.call.now - started ≥ 1000))

/-! ## 2. What one call does -/

namespace Mask

/-- The time that 2000 ms are counted from. -/
def since (m : Mask) : Int := if m.lastPredictedMs ≠ 0 then m.lastPredictedMs else m.firstMapMs

def Overdue (m : Mask) (now : Int) : Prop := now - m.since > 2000

instance (m : Mask) (now : Int) : Decidable (m.Overdue now) := inferInstanceAs (Decidable (_ > _))

/-- The frame adopted last may stand for one more reading. -/
def Stands (m : Mask) (now : Int) : Prop :=
  m.lastPid ≠ 0#32 ∧ now ≥ m.frame.monotonicMs ∧ now - m.frame.monotonicMs ≤ 500

/-- The file is mapped; `t` is the next time to try. -/
def mapped (m : Mask) (t : Int) : Mask := { m with retryAfter := t, shared := true }

/-- `m->frame = candidate` with what comes with it. -/
def take (m : Mask) (version : Word) (f : Frame) : Mask :=
  { m with sourceVersion := version, frame := f, error := 0 }

end Mask

/-- The file is mapped, or it can be opened and is a motion map. -/
def Call.Opens (c : Call) (m : Mask) : Prop :=
  m.shared = true ∨ c.opened = true ∧ m.retryAfter ≤ c.now ∧
    c.contents.magic = MOTION_MAP_MAGIC ∧ c.contents.readable = true

/-- **What a call can do**, with the mask it leaves and what it returns. -/
inductive Outcome (m : Mask) (c : Call) : Mask → Int → Prop
  | closed (t : Int) (h : ¬ c.Opens m) : Outcome m c { m with retryAfter := t, error := 1 } (-1)
  | kept (t : Int) (hfound : c.found = none) (h : m.Stands c.now) :
      Outcome m c { m.mapped t with error := 0 } 0
  | lost (t : Int) (hfound : c.found = none) (h : ¬ m.Stands c.now) :
      Outcome m c { m.mapped t with error := 2 } (-1)
  | overdue (t : Int) (f : Frame) (hfound : c.found = some f) (h : (m.mark c.now f).Overdue c.now) :
      Outcome m c { (m.mapped t).mark c.now f with error := 3 } (-1)
  | repeated (t : Int) (f : Frame) (hfound : c.found = some f)
      (h : ¬ (m.mark c.now f).Overdue c.now) (hsame : f.pid = m.lastPid ∧ f.frame = m.lastFrame) :
      Outcome m c (((m.mapped t).mark c.now f).take c.contents.version f) 0
  | scored (t : Int) (f : Frame) (hfound : c.found = some f)
      (h : ¬ (m.mark c.now f).Overdue c.now) (hnew : ¬ (f.pid = m.lastPid ∧ f.frame = m.lastFrame)) :
      Outcome m c (motionMaskScore (((m.mapped t).mark c.now f).take c.contents.version f) f) 1

theorem readable_iff (s : Map) : s.readable = false ↔
    s.version ≠ MOTION_MAP_VERSION ∧ s.version ≠ MOTION_MAP_LEGACY_VERSION := by
  simp [Map.readable]

theorem openMap_cases (c : Call) (m : Mask) :
    ∃ t, (openMap c.opened c.now m).alone (c.contents.setMask m) =
        (c.contents.setMask m, (m.mapped t, true)) ∨
      ¬ c.Opens m ∧ (openMap c.opened c.now m).alone (c.contents.setMask m) =
        (c.contents.setMask m, ({ m with retryAfter := t, error := 1 }, false)) := by
  unfold openMap
  by_cases hshared : m.shared = true
  · refine ⟨m.retryAfter, .inl ?_⟩
    rw [if_pos hshared, Code.alone_ret, Mask.mapped, ← hshared]
  have hfree (h : c.opened = true ∧ m.retryAfter ≤ c.now ∧
      c.contents.magic = MOTION_MAP_MAGIC ∧ c.contents.readable = true → False) : ¬ c.Opens m :=
    fun hopens => hopens.elim hshared h
  rw [if_neg hshared]
  split
  next hearly => exact ⟨m.retryAfter, .inr ⟨hfree fun h => Int.not_le.mpr hearly h.2.1, rfl⟩⟩
  refine ⟨c.now + 1000, ?_⟩
  split
  next hopened => exact .inr ⟨hfree fun h => Bool.noConfusion (h.1.symm.trans hopened), rfl⟩
  rw [Code.alone_load]
  split
  next hmagic => exact .inr ⟨hfree fun h => hmagic h.2.2.1, rfl⟩
  rw [Code.alone_load]
  split
  · exact .inl rfl
  next hversion =>
  rw [Code.alone_load]
  split
  · exact .inl rfl
  next hlegacy =>
  have hunreadable : c.contents.readable = false := (readable_iff _).mpr ⟨hversion, hlegacy⟩
  exact .inr ⟨hfree fun h => Bool.noConfusion (h.2.2.2.symm.trans hunreadable), rfl⟩

theorem keepLast_cases (m : Mask) (now : Int) (s : Map) :
    m.Stands now ∧ (keepLast m now).alone s = (s.setMask { m with error := 0 }, 0) ∨
      ¬ m.Stands now ∧ (keepLast m now).alone s = (s.setMask { m with error := 2 }, -1) := by
  unfold keepLast
  by_cases h : m.Stands now
  · exact .inl ⟨h, congrArg (Code.alone · s) (if_pos h)⟩
  · exact .inr ⟨h, congrArg (Code.alone · s) (if_neg h)⟩

section Found

variable {c : Call} {m : Mask} {s : Map} {f : Frame}

/-- The mapping is as the call finds it. -/
structure Call.Sees (c : Call) (s : Map) : Prop where
  generation : s.generation = c.contents.generation
  version : s.version = c.contents.version
  sample : s.sample = c.contents.sample

/-- **No whole and fresh frame**: the last one may stand. -/
theorem attempt_nothing (hsees : c.Sees s) (hfound : c.found = none) (m : Mask) (attempts : Nat) :
    (attempt m c.now attempts).alone s = (keepLast m c.now).alone s := by
  have hcopy : copied s.sample sampleBytes (fun _ => 0) = s.sample :=
    funext fun k => copied_of_mem (mem_sampleBytes k)
  induction attempts with
  | zero => rfl
  | succ attempts ih =>
    rw [attempt, Code.alone_load]
    split
    · exact ih
    next hwhole =>
    rw [Code.alone_load]
    split
    · rfl
    next hversion =>
    have hstale : consider m c.now s.version s.sample = .stale := by
      rw [Call.found, ← hsees.generation, ← hsees.sample, ← hsees.version, if_neg, ite_eq_left_iff] at hfound
      · exact if_pos (by_contra fun h => absurd (hfound h) (Option.some_ne_none _))
      · rw [readable_iff, ← hsees.version]
        exact fun h => h.elim (fun h => hwhole (.inl h))
          fun h => h.elim (fun h => hwhole (.inr h)) hversion
    simp only [Code.alone_bind, gather_alone, hcopy, checkCopy, Code.alone_load_last, ne_eq,
      not_true_eq_false, if_false, hstale]

theorem consider_fresh {now : Int} {version : Word} {copy : Frame} (m : Mask)
    (hfresh : ¬ (copy.pid = 0#32 ∨ now < copy.monotonicMs ∨ now - copy.monotonicMs > 500)) :
    consider m now version copy =
      let f := asVersioned version copy
      if (m.mark now f).Overdue now then .unusable { m.mark now f with error := 3 }
      else if f.pid = m.lastPid ∧ f.frame = m.lastFrame then
        .adopted ((m.mark now f).take version f) 0
      else .adopted (motionMaskScore ((m.mark now f).take version f) f) 1 := by
  rw [consider, if_neg hfresh]
  rfl

/-- **A whole and fresh frame** is considered. -/
theorem attempt_found (hsees : c.Sees s) (hfound : c.found = some f) (m : Mask) (attempts : Nat) :
    (attempt m c.now (attempts + 1)).alone s =
      if (m.mark c.now f).Overdue c.now then (s.setMask { m.mark c.now f with error := 3 }, -1)
      else if f.pid = m.lastPid ∧ f.frame = m.lastFrame then
        (s.adopt ((m.mark c.now f).take c.contents.version f), 0)
      else (s.adopt (motionMaskScore ((m.mark c.now f).take c.contents.version f) f), 1) := by
  have hcopy : copied s.sample sampleBytes (fun _ => 0) = s.sample :=
    funext fun k => copied_of_mem (mem_sampleBytes k)
  rw [Call.found, ← hsees.generation, ← hsees.sample, ← hsees.version] at hfound
  split at hfound
  · exact absurd hfound nofun
  next hwhole =>
  split at hfound
  · exact absurd hfound nofun
  next hfresh =>
  obtain rfl := Option.some.inj hfound
  have hgeneration : ¬ (s.generation = 0#32 ∨ odd s.generation = true) := fun h =>
    hwhole (h.elim .inl fun h => .inr (.inl h))
  have hversion : ¬ (s.version ≠ MOTION_MAP_VERSION ∧ s.version ≠ MOTION_MAP_LEGACY_VERSION) :=
    fun h => hwhole (.inr (.inr (by rwa [readable_iff, ← hsees.version])))
  rw [attempt, Code.alone_load, if_neg hgeneration, Code.alone_load, if_neg hversion]
  simp only [Code.alone_bind, gather_alone, hcopy, checkCopy, Code.alone_load_last, ne_eq,
    not_true_eq_false, if_false, consider_fresh m hfresh]
  split_ifs with hoverdue hsame
  · rfl
  · rw [← hsees.version]
    rfl
  · rw [← hsees.version]
    rfl

/-- **One call.** -/
theorem read_outcome (c : Call) (m : Mask) : Outcome m c (c.read m).mask (c.read m).rc := by
  obtain ⟨t, hopen | ⟨hfree, hopen⟩⟩ := openMap_cases c m
  · let s := ((c.contents.setMask m).ask (BitVec.ofInt 32 c.now)).setEnabled 1#32
    have hread : (motionMaskRead c.opened c.now).alone (c.contents.setMask m) =
        (attempt (m.mapped t) c.now 2).alone s := by
      rw [motionMaskRead, Code.alone_load, Code.alone_bind, show (c.contents.setMask m).mask = m from rfl,
        hopen]
      rfl
    have hsees : c.Sees s := ⟨rfl, rfl, rfl⟩
    simp only [Call.read, hread]
    cases hfound : c.found with
    | none =>
      rw [attempt_nothing hsees hfound]
      obtain ⟨h, hlast⟩ | ⟨h, hlast⟩ := keepLast_cases (m.mapped t) c.now s
      · rw [hlast]
        exact .kept t hfound h
      · rw [hlast]
        exact .lost t hfound h
    | some f =>
      rw [attempt_found hsees hfound]
      split_ifs with hoverdue hsame
      · exact .overdue t f hfound hoverdue
      · exact .repeated t f hfound hoverdue hsame
      · exact .scored t f hfound hoverdue hsame
  · have hread : (motionMaskRead c.opened c.now).alone (c.contents.setMask m) =
        ((c.contents.setMask m).setMask { m with retryAfter := t, error := 1 }, -1) := by
      rw [motionMaskRead, Code.alone_load, Code.alone_bind, show (c.contents.setMask m).mask = m from rfl,
        hopen]
      rfl
    simp only [Call.read, hread]
    exact .closed t hfree

end Found

/-! ## 3. Frames -/

theorem byte_flip {f : Frame} {i : Nat} (hi : i < 8 ∨ 12 ≤ i) : f.flipPFrame.byte i = f.byte i := by
  unfold Frame.byte Frame.flipPFrame
  split
  · rw [if_neg (by show ¬ i = 8; omega), if_neg (by show ¬ (8 < i ∧ i < 12); omega)]
  · rfl

theorem word_flip {f : Frame} {i : Nat} (hi : i + 3 < 8 ∨ 12 ≤ i) :
    f.flipPFrame.word i = f.word i := by
  unfold Frame.word
  rw [byte_flip (by omega), byte_flip (by omega), byte_flip (by omega), byte_flip (by omega)]

theorem asVersioned_pid (version : Word) (f : Frame) : (asVersioned version f).pid = f.pid := by
  unfold asVersioned
  split
  · exact word_flip (by omega)
  · rfl

theorem asVersioned_ms (version : Word) (f : Frame) :
    (asVersioned version f).monotonicMs = f.monotonicMs := by
  unfold asVersioned Frame.monotonicMs
  split
  · rw [word_flip (by omega), word_flip (by omega)]
  · rfl

/-- **A frame that is found is fresh.** -/
theorem found_fresh {c : Call} {f : Frame} (h : c.found = some f) :
    f.pid ≠ 0#32 ∧ f.monotonicMs ≤ c.now ∧ c.now - f.monotonicMs ≤ 500 := by
  rw [Call.found] at h
  split at h
  · exact absurd h nofun
  split at h
  · exact absurd h nofun
  next hfresh =>
  obtain rfl := Option.some.inj h
  rw [asVersioned_pid, asVersioned_ms]
  obtain ⟨hpid, hfresh⟩ := not_or.mp hfresh
  obtain ⟨hnow, hage⟩ := not_or.mp hfresh
  exact ⟨hpid, Int.not_lt.mp hnow, Int.not_lt.mp hage⟩

/-! ## 4. What holds between the calls -/

variable {c : Call} {cs : List Call} {m m' : Mask} {rc latest : Int}

/-- A mask behind the readings up to `latest`. -/
structure Mask.Settled (m : Mask) (latest : Int) : Prop where
  seen : m.lastPid ≠ 0#32 → m.frame.monotonicMs ≤ latest
  unmarked : m.lastPid = 0#32 → m.since = 0 ∧ m.error ≠ 3

/-- No predicted frame for 2000 ms, and the last frame stands no more, unless it is the reading
    right behind an overdue one. -/
structure Fallback (m : Mask) (latest : Int) : Prop where
  shared : m.shared = true
  scored : m.lastPid ≠ 0#32
  counted : m.since ≠ 0
  overdue : m.Overdue latest
  gone : m.error = 3 ∨ 500 < latest - m.frame.monotonicMs

/-- A call behind an overdue one finds a whole and fresh frame, or the last one stands no more. -/
def Meets (m : Mask) (c : Call) : Prop :=
  m.error = 3 → c.found.isSome = true ∨ 500 < c.now - m.frame.monotonicMs

theorem since_mark (hcounted : m.since ≠ 0) {f : Frame} (hf : f.pFrame = 0#32) (now : Int) :
    (m.mark now f).since = m.since := by
  unfold Mask.since Mask.mark at *
  simp only [hf, ne_eq, not_true_eq_false, if_false]
  split
  · rfl
  next hlast =>
  rw [if_neg hlast] at hcounted
  exact if_neg hcounted

theorem since_congr (hlast : m'.lastPredictedMs = m.lastPredictedMs)
    (hfirst : m'.firstMapMs = m.firstMapMs) : m'.since = m.since := by
  rw [Mask.since, Mask.since, hlast, hfirst]

/-- **The first frame sets the time.** -/
theorem since_first (hunmarked : m.since = 0) (f : Frame) (now : Int) :
    (m.mark now f).since = now := by
  have hzero : m.lastPredictedMs = 0 := by
    by_contra hlast
    rw [Mask.since, if_pos hlast] at hunmarked
    exact hlast hunmarked
  have hfirst : m.firstMapMs = 0 := by
    rwa [Mask.since, if_neg (not_not.mpr hzero)] at hunmarked
  simp only [Mask.since, Mask.mark, hzero, hfirst, if_true]
  by_cases hf : f.pFrame = 0#32
  · simp [hf]
  · by_cases hnow : now = 0
    · simp [hf, hnow]
    · simp [hf, hnow]

/-- **A first frame is not overdue.** -/
theorem not_overdue_mark (hunmarked : m.since = 0) (f : Frame) (now : Int) :
    ¬ (m.mark now f).Overdue now := by
  rw [Mask.Overdue, since_first hunmarked]
  omega

theorem since_of_overdue {f : Frame} {now : Int} (h : (m.mark now f).Overdue now) :
    (m.mark now f).since ≠ 0 := by
  intro hzero
  rw [Mask.Overdue, hzero] at h
  unfold Mask.since at hzero
  split at hzero
  next hlast => exact hlast hzero
  simp only [Mask.mark] at hzero
  split at hzero
  · omega
  next hfirst => exact hfirst hzero

/-- A step that scores no frame. -/
theorem Mask.Settled.of_eq (hm : m.Settled latest) (hle : latest ≤ c.now)
    (hpid : m'.lastPid = m.lastPid) (hframe : m'.frame = m.frame) (hsince : m'.since = m.since)
    (herror : m'.error ≠ 3) : m'.Settled c.now := by
  refine ⟨fun hp => ?_, fun hp => ?_⟩
  · rw [hpid] at hp
    rw [hframe]
    exact Int.le_trans (hm.seen hp) hle
  · rw [hpid] at hp
    rw [hsince]
    exact ⟨(hm.unmarked hp).1, herror⟩

/-- **A step settles.** -/
theorem Outcome.settled (h : Outcome m c m' rc) (hm : m.Settled latest) (hle : latest ≤ c.now) :
    m'.Settled c.now := by
  cases h with
  | closed t h => exact hm.of_eq hle rfl rfl rfl (show (1 : Int) ≠ 3 by decide)
  | kept t hfound h => exact hm.of_eq hle rfl rfl rfl (show (0 : Int) ≠ 3 by decide)
  | lost t hfound h => exact hm.of_eq hle rfl rfl rfl (show (2 : Int) ≠ 3 by decide)
  | overdue t f hfound h =>
    exact ⟨fun hp => Int.le_trans (hm.seen hp) hle,
      fun hp => absurd h (not_overdue_mark (hm.unmarked hp).1 f c.now)⟩
  | repeated t f hfound h hsame =>
    obtain ⟨hpid, hms, -⟩ := found_fresh hfound
    exact ⟨fun _ => hms, fun hp => absurd (hsame.1.trans hp) hpid⟩
  | scored t f hfound h hnew =>
    obtain ⟨hpid, hms, -⟩ := found_fresh hfound
    exact ⟨fun _ => hms, fun hp => absurd hp hpid⟩

theorem pFrame_of_not_predicted {f : Frame} (hfound : c.found = some f) (h : c.predicted = false) :
    f.pFrame = 0#32 := by
  rw [Call.predicted, hfound, Option.any_some] at h
  exact not_not.mp fun hne => Bool.false_ne_true (h.symm.trans (bne_iff_ne.mpr hne))

/-- **An overdue reading begins the fallback.** -/
theorem Outcome.begins (h : Outcome m c m' rc) (hm : m.Settled latest) (herror : m'.error = 3) :
    rc = -1 ∧ Fallback m' c.now := by
  cases h with
  | closed t h => exact absurd herror (show (1 : Int) ≠ 3 by decide)
  | kept t hfound h => exact absurd herror (show (0 : Int) ≠ 3 by decide)
  | lost t hfound h => exact absurd herror (show (2 : Int) ≠ 3 by decide)
  | repeated t f hfound h hsame => exact absurd herror (show (0 : Int) ≠ 3 by decide)
  | scored t f hfound h hnew => exact absurd herror (show (0 : Int) ≠ 3 by decide)
  | overdue t f hfound h =>
    have hscored : m.lastPid ≠ 0#32 := fun hp => not_overdue_mark (hm.unmarked hp).1 f c.now h
    exact ⟨rfl, rfl, hscored, since_of_overdue h, h, .inl rfl⟩

/-- **The fallback lasts** over a call that reads no predicted frame. -/
theorem Outcome.lasts (h : Outcome m c m' rc) (hm : m.Settled latest) (hle : latest ≤ c.now)
    (hf : Fallback m latest) (hmeets : Meets m c) (hnot : c.predicted = false) :
    rc = -1 ∧ Fallback m' c.now := by
  have hoverdue : c.now - m.since > 2000 := by
    have := hf.overdue
    unfold Mask.Overdue at this
    omega
  have hms := hm.seen hf.scored
  cases h with
  | closed t h => exact absurd (.inl hf.shared) h
  | kept t hfound h =>
    obtain ⟨-, -, hfresh⟩ := h
    obtain herror | hgone := hf.gone
    · obtain hsome | hgone := hmeets herror
      · exact absurd hsome (by simp [hfound])
      · omega
    · omega
  | lost t hfound h =>
    refine ⟨rfl, rfl, hf.scored, hf.counted, hoverdue, .inr ?_⟩
    show 500 < c.now - m.frame.monotonicMs
    by_contra hfresh
    exact h ⟨hf.scored, by omega, by omega⟩
  | overdue t f hfound h =>
    have hsince : ((m.mapped t).mark c.now f).since = m.since :=
      since_mark (m := m.mapped t) hf.counted (pFrame_of_not_predicted hfound hnot) c.now
    exact ⟨rfl, rfl, hf.scored, hsince ▸ hf.counted, h, .inl rfl⟩
  | repeated t f hfound h hsame =>
    refine absurd ?_ h
    rwa [Mask.Overdue, since_mark hf.counted (pFrame_of_not_predicted hfound hnot)]
  | scored t f hfound h hnew =>
    refine absurd ?_ h
    rwa [Mask.Overdue, since_mark hf.counted (pFrame_of_not_predicted hfound hnot)]

/-! ## 5. Runs -/

/-- The frame of a reading. -/
def Reading.key (r : Reading) : Word × Word := (r.mask.frame.pid, r.mask.frame.frame)

/-- Behind an overdue reading, and up to the next predicted frame, every reading is in fallback. -/
def Lasts (rs : List Reading) : Prop :=
  ∀ a rest, a :: rest <:+ rs → a.rc = -1 → a.mask.error = 3 →
    ∀ b ∈ a :: rest.takeWhile fun r => !r.call.predicted,
      b.rc = -1 ∧ ∀ started, b.fallback started = true

/-- What the readings of a run keep to. -/
structure Dependable (rs : List Reading) : Prop where
  fresh : ∀ r ∈ rs, r.rc = 0 ∨ r.rc = 1 →
    r.mask.frame.monotonicMs ≤ r.call.now ∧ r.call.now - r.mask.frame.monotonicMs ≤ 500
  anew : ((rs.filter fun r => r.rc == 1).map Reading.key).IsChain (· ≠ ·)
  lasts : Lasts rs

/-- Each call is as late as the ones before. -/
def Ordered (latest : Int) (cs : List Call) : Prop := (latest :: cs.map Call.now).Pairwise (· ≤ ·)

theorem Ordered.cons (h : Ordered latest (c :: cs)) : latest ≤ c.now ∧ Ordered c.now cs := by
  obtain ⟨hfirst, hrest⟩ := List.pairwise_cons.mp h
  exact ⟨hfirst _ List.mem_cons_self, hrest⟩

theorem Outcome.fresh (h : Outcome m c m' rc) (hrc : rc = 0 ∨ rc = 1) :
    m'.frame.monotonicMs ≤ c.now ∧ c.now - m'.frame.monotonicMs ≤ 500 := by
  cases h with
  | closed t h => exact absurd hrc (by decide)
  | kept t hfound h => exact h.2
  | lost t hfound h => exact absurd hrc (by decide)
  | overdue t f hfound h => exact absurd hrc (by decide)
  | repeated t f hfound h hsame => exact (found_fresh hfound).2
  | scored t f hfound h hnew => exact (found_fresh hfound).2

theorem fresh_run : ∀ r ∈ readings m cs, r.rc = 0 ∨ r.rc = 1 →
    r.mask.frame.monotonicMs ≤ r.call.now ∧ r.call.now - r.mask.frame.monotonicMs ≤ 500 := by
  induction cs generalizing m with
  | nil => exact fun r hr => absurd hr List.not_mem_nil
  | cons c cs ih =>
    intro r hr
    rcases List.mem_cons.mp hr with rfl | hr
    · exact (read_outcome c m).fresh
    · exact ih r hr

/-- What the mask keeps of the frame scored last. -/
def Mask.last (m : Mask) : Word × Word := (m.lastPid, m.lastFrame)

theorem Outcome.anew (h : Outcome m c m' rc) :
    rc = 1 ∧ m'.last = (m'.frame.pid, m'.frame.frame) ∧ m'.last ≠ m.last ∨
      rc ≠ 1 ∧ m'.last = m.last := by
  cases h with
  | closed t h => exact .inr ⟨by decide, rfl⟩
  | kept t hfound h => exact .inr ⟨by decide, rfl⟩
  | lost t hfound h => exact .inr ⟨by decide, rfl⟩
  | overdue t f hfound h => exact .inr ⟨by decide, rfl⟩
  | repeated t f hfound h hsame => exact .inr ⟨by decide, rfl⟩
  | scored t f hfound h hnew =>
    exact .inl ⟨rfl, rfl, fun heq => hnew ⟨congrArg Prod.fst heq, congrArg Prod.snd heq⟩⟩

theorem anew_run :
    (m.last :: ((readings m cs).filter fun r => r.rc == 1).map Reading.key).IsChain (· ≠ ·) := by
  induction cs generalizing m with
  | nil => exact .singleton _
  | cons c cs ih =>
    have hrest := ih (m := (c.read m).mask)
    rw [readings, List.filter_cons]
    obtain ⟨hrc, hkey, hne⟩ | ⟨hrc, hlast⟩ := (read_outcome c m).anew
    · have hkey : (c.read m).key = (c.read m).mask.last := hkey.symm
      rw [if_pos (beq_iff_eq.mpr hrc), List.map_cons, hkey, List.isChain_cons_cons]
      exact ⟨hne.symm, hrest⟩
    · rw [if_neg fun h => hrc (beq_iff_eq.mp h), ← hlast]
      exact hrest

theorem Fallback.reading {r : Reading} (hrc : r.rc = -1) (hf : Fallback r.mask latest) :
    r.rc = -1 ∧ ∀ started, r.fallback started = true := by
  refine ⟨hrc, fun started => ?_⟩
  simp [Reading.fallback, hrc, hf.scored]

/-- **The fallback lasts over a run** that reads no predicted frame. -/
theorem lasts_run (hm : m.Settled latest) (hf : Fallback m latest) (hcs : Ordered latest cs)
    (hmeets : StepsMeet Call.step Meets m cs) :
    ∀ b ∈ (readings m cs).takeWhile fun r => !r.call.predicted,
      b.rc = -1 ∧ ∀ started, b.fallback started = true := by
  induction cs generalizing m latest with
  | nil => exact fun b hb => absurd hb List.not_mem_nil
  | cons c cs ih =>
    intro b hb
    obtain ⟨hle, hcs⟩ := hcs.cons
    rw [readings, List.takeWhile_cons] at hb
    split at hb
    next hnot =>
      have hout := read_outcome c m
      obtain ⟨hrc, hf'⟩ := hout.lasts hm hle hf hmeets.1 (Bool.not_eq_true' _ ▸ hnot)
      rcases List.mem_cons.mp hb with rfl | hb
      · exact hf'.reading hrc
      · exact ih (hout.settled hm hle) hf' hcs hmeets.2 b hb
    next => exact absurd hb List.not_mem_nil

/-- **What the steps of a run meet makes every fallback last.** -/
theorem lasts_of_meets (hm : m.Settled latest) (hcs : Ordered latest cs)
    (hmeets : StepsMeet Call.step Meets m cs) {a : Reading} {rest : List Reading}
    (hsuffix : a :: rest <:+ readings m cs) (herror : a.mask.error = 3) :
    ∀ b ∈ a :: rest.takeWhile fun r => !r.call.predicted,
      b.rc = -1 ∧ ∀ started, b.fallback started = true := by
  induction cs generalizing m latest with
  | nil => exact absurd (List.suffix_nil.mp hsuffix) (List.cons_ne_nil _ _)
  | cons c cs ih =>
    obtain ⟨hle, hcs⟩ := hcs.cons
    have hout := read_outcome c m
    have hm' := hout.settled hm hle
    rcases List.suffix_cons_iff.mp hsuffix with heq | hsuffix
    · obtain ⟨rfl, rfl⟩ := List.cons.inj heq
      obtain ⟨hrc, hf⟩ := hout.begins hm herror
      intro b hb
      rcases List.mem_cons.mp hb with rfl | hb
      · exact hf.reading hrc
      · exact lasts_run hm' hf hcs hmeets.2 b hb
    · exact ih hm' hcs hmeets.2 hsuffix

/-- The reading that the last frame stood for returned 0. -/
theorem Outcome.stands (h : Outcome m c m' rc) (hfound : c.found = none) (hshared : m.shared = true)
    (hstands : m.Stands c.now) : rc = 0 := by
  cases h with
  | closed t h => exact absurd (.inl hshared) h
  | kept t hfound h => rfl
  | lost t hfound h => exact absurd hstands h
  | overdue t f hsome h => exact absurd (hfound.symm.trans hsome) nofun
  | repeated t f hsome h hsame => exact absurd (hfound.symm.trans hsome) nofun
  | scored t f hsome h hnew => exact absurd (hfound.symm.trans hsome) nofun

/-- **Fallbacks that last need every step to meet it.** -/
theorem meets_of_lasts {a : Reading} (ha : a.mask.error = 3 → a.rc = -1 ∧ Fallback a.mask latest)
    (hm : a.mask.Settled latest) (hcs : Ordered latest cs) (h : Lasts (a :: readings a.mask cs)) :
    StepsMeet Call.step Meets a.mask cs := by
  induction cs generalizing a latest with
  | nil => trivial
  | cons c cs ih =>
    obtain ⟨hle, hcs⟩ := hcs.cons
    have hout := read_outcome c a.mask
    refine ⟨fun herror => ?_, ih (hout.begins hm) (hout.settled hm hle) hcs fun b rest hsuffix =>
      h b rest (hsuffix.trans (List.suffix_cons _ _))⟩
    by_contra hnot
    obtain ⟨hrc, hf⟩ := ha herror
    have hnone : c.found = none := Option.not_isSome_iff_eq_none.mp fun hsome => hnot (.inl hsome)
    have hnear : ¬ 500 < c.now - a.mask.frame.monotonicMs := fun hgone => hnot (.inr hgone)
    have hstands : a.mask.Stands c.now :=
      ⟨hf.scored, Int.le_trans (hm.seen hf.scored) hle, Int.not_lt.mp hnear⟩
    have hzero := hout.stands hnone hf.shared hstands
    have hunpredicted : c.predicted = false := by rw [Call.predicted, hnone, Option.any_none]
    have hmem : c.read a.mask ∈ (readings a.mask (c :: cs)).takeWhile fun r => !r.call.predicted := by
      rw [readings, List.takeWhile_cons, if_pos (by rw [Bool.not_eq_true']; exact hunpredicted)]
      exact List.mem_cons_self
    have hfell := (h a _ (List.suffix_refl _) hrc herror _ (List.mem_cons_of_mem _ hmem)).1
    rw [hzero] at hfell
    exact absurd hfell (by decide)

/-- A run of a new detector settles. -/
theorem settled_zero (cells : Nat → UInt8) (vectorPixels differenceThreshold latest : Int) :
    (Mask.zero cells vectorPixels differenceThreshold).Settled latest where
  seen hp := absurd rfl hp
  unmarked _ := ⟨rfl, show (0 : Int) ≠ 3 by decide⟩

theorem ordered_of_pairwise (h : (cs.map Call.now).Pairwise (· ≤ ·)) :
    ∃ latest, Ordered latest cs := by
  cases cs with
  | nil => exact ⟨0, List.pairwise_singleton _ _⟩
  | cons c cs =>
    refine ⟨c.now, List.pairwise_cons.mpr ⟨fun t ht => ?_, h⟩⟩
    rcases List.mem_cons.mp ht with rfl | ht
    · exact Int.le_refl _
    · exact (List.pairwise_cons.mp h).1 t ht

theorem Outcome.scores {f : Frame} (h : Outcome m c m' rc) (hopens : c.Opens m)
    (hfound : c.found = some f) (hdue : ¬ (m.mark c.now f).Overdue c.now)
    (hnew : ¬ (f.pid = m.lastPid ∧ f.frame = m.lastFrame)) :
    m'.shared = true ∧ m'.since = (m.mark c.now f).since ∧ m'.last = (f.pid, f.frame) ∧
      m'.frame = f := by
  cases h with
  | closed t h => exact absurd hopens h
  | kept t hnone h => exact absurd (hnone.symm.trans hfound) nofun
  | lost t hnone h => exact absurd (hnone.symm.trans hfound) nofun
  | overdue t g hsome h => exact absurd (Option.some.inj (hsome.symm.trans hfound) ▸ h) hdue
  | repeated t g hsome h hsame => exact absurd (Option.some.inj (hsome.symm.trans hfound) ▸ hsame) hnew
  | scored t g hsome h _ =>
    obtain rfl := Option.some.inj (hsome.symm.trans hfound)
    exact ⟨rfl, since_congr rfl rfl, rfl, rfl⟩

theorem Outcome.refuses {f : Frame} (h : Outcome m c m' rc) (hopens : c.Opens m)
    (hfound : c.found = some f) (hdue : (m.mark c.now f).Overdue c.now) :
    rc = -1 ∧ m'.error = 3 ∧ m'.shared = true ∧ m'.last = m.last ∧ m'.frame = m.frame := by
  cases h with
  | closed t h => exact absurd hopens h
  | kept t hnone h => exact absurd (hnone.symm.trans hfound) nofun
  | lost t hnone h => exact absurd (hnone.symm.trans hfound) nofun
  | overdue t g hsome h =>
    obtain rfl := Option.some.inj (hsome.symm.trans hfound)
    exact ⟨rfl, rfl, rfl, rfl, rfl⟩
  | repeated t g hsome h _ => exact absurd hdue (Option.some.inj (hsome.symm.trans hfound) ▸ h)
  | scored t g hsome h _ => exact absurd hdue (Option.some.inj (hsome.symm.trans hfound) ▸ h)

/-- An intra frame of process 5. -/
def intraFrame (n ms : Nat) : Frame := fun k =>
  if k.val = 0 then 5
  else if k.val = 4 then UInt8.ofNat n
  else if k.val = 16 then UInt8.ofNat ms
  else if k.val = 17 then UInt8.ofNat (ms / 256)
  else 0

/-- A mapping with the frame in it. -/
def holding (f : Frame) (generation : Word) : Map :=
  { Map.fresh (Mask.zero (fun _ => 48) 1 12) with
    magic := MOTION_MAP_MAGIC, version := MOTION_MAP_VERSION, generation, sample := f }

/-- A call that finds the frame. -/
def intraCall (n ms : Nat) : Call := ⟨holding (intraFrame n ms) 2#32, true, ms⟩

/-- A call in a publication. -/
def overlapCall (n ms : Nat) : Call := ⟨holding (intraFrame n ms) 3#32, true, ms⟩

/-- Three intra frames, the third overdue; a fourth one is being published. -/
def intraCalls : List Call :=
  [intraCall 1 1000, intraCall 2 3000, intraCall 3 3001, overlapCall 4 3010]

/-- The masks and results behind the four calls. -/
theorem overlap_returns {m₁ m₂ m₃ m₄ : Mask} {rc₁ rc₂ rc₃ rc₄ : Int}
    (h₁ : Outcome (Mask.zero (fun _ => 48) 1 12) (intraCall 1 1000) m₁ rc₁)
    (h₂ : Outcome m₁ (intraCall 2 3000) m₂ rc₂) (h₃ : Outcome m₂ (intraCall 3 3001) m₃ rc₃)
    (h₄ : Outcome m₃ (overlapCall 4 3010) m₄ rc₄) : rc₃ = -1 ∧ m₃.error = 3 ∧ rc₄ = 0 := by
  have hfirst : (intraCall 1 1000).found = some (intraFrame 1 1000) := by
    rw [Call.found, if_neg (by decide), if_neg (by decide)]
    rfl
  have hsecond : (intraCall 2 3000).found = some (intraFrame 2 3000) := by
    rw [Call.found, if_neg (by decide), if_neg (by decide)]
    rfl
  have hthird : (intraCall 3 3001).found = some (intraFrame 3 3001) := by
    rw [Call.found, if_neg (by decide), if_neg (by decide)]
    rfl
  obtain ⟨hshared₁, hsince₁, hlast₁, -⟩ := h₁.scores (.inr ⟨rfl, by decide, rfl, rfl⟩) hfirst
    (not_overdue_mark rfl _ _) (by decide)
  replace hsince₁ : m₁.since = 1000 := hsince₁.trans (since_first rfl _ _)
  have hmark : (m₁.mark 3000 (intraFrame 2 3000)).since = 1000 :=
    (since_mark (by rw [hsince₁]; decide) (by decide) 3000).trans hsince₁
  obtain ⟨hshared₂, hsince₂, hlast₂, hframe₂⟩ := h₂.scores (.inl hshared₁) hsecond
    (by rw [Mask.Overdue]; exact hmark ▸ by decide)
    fun heq => absurd (heq.2.trans (congrArg Prod.snd hlast₁)) (by decide)
  replace hsince₂ : m₂.since = 1000 := hsince₂.trans hmark
  have hmark' : (m₂.mark 3001 (intraFrame 3 3001)).since = 1000 :=
    (since_mark (by rw [hsince₂]; decide) (by decide) 3001).trans hsince₂
  obtain ⟨hrc, herror, hshared₃, hlast₃, hframe₃⟩ := h₃.refuses (.inl hshared₂) hthird
    (by rw [Mask.Overdue]; exact hmark' ▸ by decide)
  have hstands : m₃.Stands 3010 := by
    have hpid : m₃.lastPid = (intraFrame 2 3000).pid := congrArg Prod.fst (hlast₃.trans hlast₂)
    rw [Mask.Stands, hpid, hframe₃, hframe₂]
    decide
  exact ⟨hrc, herror, h₄.stands (by rw [Call.found, if_pos (by decide)]) hshared₃ hstands⟩

end YiHack.Spatial
