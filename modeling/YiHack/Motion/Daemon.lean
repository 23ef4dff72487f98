/-
  File:      YiHack/Motion/Daemon.lean
  Subject:   `motiond.c`: the main loop, from the statistics to the recorder queue.

  A pass reads the statistics and, with a mask, the motion map; the detector, the level history, the
  state file and the recorder queue follow. What the surroundings decide in a pass is a `Pass`. The
  daemon runs with `-r`: without it `record_events` is off and no queue is opened. The argument
  checks, the telemetry text and the prints are not modelled.

  * `observe` -- what the detector is given: the whole picture, the masked one, or nothing;
  * `Daemon.pass`, `Daemon.shutdown` -- a pass of the loop, and the code behind the loop;
  * `Relays` -- what every pass keeps;
  * **`daemon_relays`** -- recorder, state file and level history follow the detector;
  * **`whole_picture_starts`** -- strong whole pictures start a recording, with a mask as without.
-/
import YiHack.Motion.DeliverySession
import YiHack.Motion.Hysteresis
import YiHack.Record.LevelBurst
import YiHack.Spatial.Fallback

namespace YiHack.Motion

open General

/-! ## 1. A pass of the loop -/

/-- What a pass meets: `stats` is `none` where `read_stats` fails, `wall` is whether the wall clock
    is read, `queue` the answers of the recorder queue, `wrote` and `rewrote` how the two writes of
    the state file end. -/
structure Pass where
  stats : Option MotionStats
  contents : Spatial.Map
  opened : Bool
  now : Int
  wall : Bool
  queue : TickEnv
  wrote : Bool
  rewrote : Bool

namespace Pass

/-- The whole picture. -/
def whole (p : Pass) : Observation := ⟨p.stats, p.now⟩

/-- `rc == 0`, behind the check of ratio and level. -/
def valid (p : Pass) : Bool := p.whole.valid

/-- No sample. -/
def missing (p : Pass) : Observation := ⟨none, p.now⟩

/-- The masked picture in place of the whole one. -/
def spatial (p : Pass) (c : SensCfg) (ratio : Rat) : Observation :=
  if p.valid then ⟨some ⟨if ratio ≤ c.release then 0 else 1, some ratio⟩, p.now⟩ else p.missing

end Pass

/-- The mask after the pass, the configuration for it, and what the detector is given; nothing where
    the map repeats itself. -/
def observe (c : SensCfg) (started : Int) (mask : Option Spatial.Mask) (p : Pass) :
    Option Spatial.Mask × SensCfg × Option Observation :=
  match mask with
  | none => (none, c, some p.whole)
  | some m =>
    let r := Spatial.Call.read ⟨p.contents, p.opened, p.now⟩ m
    if 0 ≤ r.rc then
      (some r.mask, { c with levelBoost := 0 },
        if r.rc = 0 then none else some (p.spatial c r.mask.ratio))
    else (some r.mask, c, some (if r.fallback started then p.whole else p.missing))

/-- A call of `motion_levels_tick`. -/
structure LevelTick where
  active : Bool
  valid : Bool
  now : Int
  deriving DecidableEq

/-- The daemon. `stateFile` is what the state file holds, as far as the daemon wrote it; `answered`
    is what the detector was given and returned, `ticks` what the level history was told. -/
structure Daemon where
  detector : MotionDetector
  mask : Option Spatial.Mask
  recorder : World
  sampling : Record.LevelBurst.Sampling
  stateFile : Option Bool
  statePending : Bool
  lastTelemetry : Int
  answered : List Answer
  ticks : List LevelTick

namespace Daemon

/-- `state_pending = write_state(active) != 0`: a new file takes the old one's place, or nothing. -/
def writeState (s : Daemon) (active wrote : Bool) : Daemon :=
  if wrote then { s with stateFile := some active, statePending := false }
  else { s with statePending := true }

/-- The daemon in front of the loop. -/
def start (recordEvents : Bool) (mask : Option Spatial.Mask) (wrote : Bool) : Daemon :=
  writeState
    { detector := ⟨false, 0, -1⟩
      mask := mask
      recorder := ⟨motionDeliveryInit recordEvents "/ipc_dispatch", []⟩
      sampling := .start
      stateFile := none
      statePending := false
      lastTelemetry := -1000
      answered := []
      ticks := [] } false wrote

/-- The detector's part of a pass, and its transition. -/
def detect (c : SensCfg) (started : Int) (s : Daemon) (p : Pass) : Daemon × Int :=
  let (mask, cfg, given) := observe c started s.mask p
  match given with
  | none => ({ s with mask := mask }, 0)
  | some o =>
    let r := motionUpdate cfg s.detector o
    ({ s with mask := mask, detector := r.1, answered := s.answered ++ [⟨o, r.2⟩] }, r.2)

/-- The level history's part. -/
def sample (s : Daemon) (p : Pass) (transition : Int) : Daemon :=
  let r := Record.LevelBurst.motionLevelsDue s.sampling
    ⟨s.detector.active, decide (transition > 0), p.now⟩
  let told := (r.2 || decide (p.now - s.lastTelemetry ≥ 1000)) && p.wall
  { s with
    sampling := r.1
    ticks := s.ticks ++ if told then [⟨r.2 && s.detector.active, p.valid, p.now⟩] else [] }

/-- State file and recorder hear of a transition. -/
def report (s : Daemon) (p : Pass) (transition : Int) : Daemon :=
  if transition = 0 then s
  else
    let s := s.writeState s.detector.active p.wrote
    { s with recorder := step s.recorder (.want s.detector.active) }

/-- The recorder queue's part. -/
def deliver (s : Daemon) (p : Pass) : Daemon :=
  { s with recorder := (motionDeliveryTick s.recorder { p.queue with now := p.now }).1 }

/-- Once a second the telemetry is written, and a state that is not in its file. -/
def telemetry (s : Daemon) (p : Pass) : Daemon :=
  if p.now - s.lastTelemetry ≥ 1000 then
    let s := if s.statePending then s.writeState s.detector.active p.rewrote else s
    { s with lastTelemetry := p.now }
  else s

/-- A pass of the loop. -/
def pass (c : SensCfg) (started : Int) (s : Daemon) (p : Pass) : Daemon :=
  let (s, transition) := s.detect c started p
  (((s.sample p transition).report p transition).deliver p).telemetry p

/-- The ticks behind the loop; none once nothing is pending. -/
def drain : List TickEnv → World → World
  | [], w => w
  | e :: es, w => if motionDeliveryPending w.d then drain es (motionDeliveryTick w e).1 else w

/-- The code behind the loop, up to five ticks of it. -/
def shutdown (s : Daemon) (ticks : Fin 5 → TickEnv) (wrote : Bool) : Daemon :=
  let recorder := drain (List.ofFn ticks) (step s.recorder (.want false))
  { s with recorder := recorder }.writeState false wrote

end Daemon

/-- The loop from its start. -/
def daemonRun (c : SensCfg) (started : Int) (mask : Option Spatial.Mask) (wrote : Bool)
    (ps : List Pass) : Daemon :=
  run (Daemon.pass c started) (Daemon.start true mask wrote) ps

/-! ## 2. What the recorder is asked for -/

/-- What `motion_delivery_want` was called with, oldest first. -/
def wants (log : List Event) : List Bool :=
  log.filterMap fun
    | .wanted active => some active
    | _ => none

/-- The log grows, by no call of `motion_delivery_want`, and `wanted` stays. -/
def Silent (w w' : World) : Prop := w'.d.wanted = w.d.wanted ∧ wants w'.log = wants w.log

section Silent

variable {u v w : World}

theorem Silent.refl (w : World) : Silent w w := ⟨rfl, rfl⟩

theorem Silent.trans (h : Silent u v) (h' : Silent v w) : Silent u w :=
  ⟨h'.1.trans h.1, h'.2.trans h.2⟩

theorem silent_snoc {d : MotionDelivery} {e : Event} (hd : d.wanted = w.d.wanted)
    (he : wants [e] = []) : Silent w ⟨d, w.log ++ [e]⟩ :=
  ⟨hd, by rw [wants, List.filterMap_append, ← wants, ← wants, he, List.append_nil]⟩

theorem silent_close (w : World) : Silent w (motionDeliveryClose w) := by
  unfold motionDeliveryClose
  cases w.d.mq with
  | none => exact .refl w
  | some q => exact silent_snoc rfl rfl

theorem silent_reconnect (e : TickEnv) (w : World) (errno : Errno) :
    Silent w (reconnect e w errno).1 := by
  have h := silent_close { w with d := { w.d with error := errno } }
  exact ⟨h.1, h.2⟩

theorem silent_checkIdentity (e : TickEnv) (w : World) : Silent w (checkIdentity e w) := by
  unfold checkIdentity
  split
  · dsimp only
    split
    · exact ⟨(silent_close w).1, (silent_close w).2⟩
    · exact ⟨rfl, rfl⟩
  · exact .refl w

theorem silent_sendLoop (e : TickEnv) (attempts : List Nat) (w : World) :
    Silent w (sendLoop e attempts w).1 := by
  induction attempts generalizing w with
  | nil => exact ⟨rfl, rfl⟩
  | cons i attempts ih =>
    unfold sendLoop
    split
    · exact ⟨rfl, rfl⟩
    · dsimp only
      split
      · exact silent_reconnect e w EBADF
      · split
        · exact (silent_snoc (markSent_wanted _ _) rfl).trans (ih _)
        · split
          · exact silent_snoc rfl rfl
          · exact (silent_snoc rfl rfl).trans (silent_reconnect e _ _)

/-- **A tick asks for nothing.** -/
theorem silent_tick (e : TickEnv) (w : World) : Silent w (motionDeliveryTick w e).1 := by
  unfold motionDeliveryTick
  split
  · exact .refl w
  refine (silent_checkIdentity e w).trans ?_
  generalize checkIdentity e w = v
  dsimp only
  have hopened (d : MotionDelivery) (q : Queue) (h : d.wanted = v.d.wanted) :
      Silent v ⟨d, v.log ++ [.opened q]⟩ := silent_snoc h rfl
  split
  · exact silent_sendLoop e _ v
  split
  · exact .refl v
  split
  · exact silent_reconnect e v _
  split
  · exact (hopened _ _ rfl).trans (silent_reconnect e _ _)
  split
  · exact (hopened _ _ rfl).trans (silent_reconnect e _ _)
  · exact (hopened _ _ rfl).trans (silent_sendLoop e _ _)

theorem silent_drain (es : List TickEnv) (w : World) : Silent w (Daemon.drain es w) := by
  induction es generalizing w with
  | nil => exact .refl w
  | cons e es ih =>
    unfold Daemon.drain
    split
    · exact (silent_tick e w).trans (ih _)
    · exact .refl w

end Silent

theorem wants_want (w : World) (active : Bool) :
    wants (step w (.want active)).log = wants w.log ++ [active] := by
  simp [step, wants]

theorem wanted_want {w : World} (h : w.d.enabled = true) (active : Bool) :
    (step w (.want active)).d.wanted = active := by
  simp [step, motionDeliveryWant, h]

theorem inv_step {w : World} (h : Inv w) (op : Op) : Inv (step w op) :=
  small_inv small_keeps_inv (step_small w op) h

theorem inv_drain (es : List TickEnv) {w : World} (h : Inv w) : Inv (Daemon.drain es w) := by
  induction es generalizing w with
  | nil => exact h
  | cons e es ih =>
    unfold Daemon.drain
    split
    · exact ih (inv_step h (.tick e))
    · exact h

/-- Once nothing is pending, the connected queue has accepted something, and last what stands for
    `active`. -/
def Heard (w : World) (active : Bool) : Prop :=
  motionDeliveryPending w.d = false → ∃ q pre mid, w.d.mq = some q ∧
    w.log = pre ++ .opened q :: mid ∧ (∀ e ∈ mid, e.isClosed = false) ∧
    (acceptedBy q mid).getLast? = some (msgOf active)

theorem Inv.heard {w : World} (h : Inv w) : Heard w w.d.wanted := by
  intro hp
  obtain ⟨q, ms, hmq, ⟨pre, mid, hlog, hmid, rfl⟩, -, -, -, hlast⟩ := idle_session h hp
  exact ⟨q, pre, mid, hmq, hlog, fun e he => (hmid e he).1, hlast⟩

/-! ## 3. What every pass keeps -/

/-- What the detector was given, in order. -/
def Daemon.given (s : Daemon) : List Observation := s.answered.map (·.observation)

/-- A level tick with the reading that started the motion. -/
def Daemon.Sampled (s : Daemon) : Prop :=
  ∀ a ∈ s.answered, a.returned = START → ⟨true, true, a.observation.now⟩ ∈ s.ticks

/-- **The invariant of the loop.** -/
structure Relays (c : SensCfg) (s : Daemon) : Prop where
  plays : play c s.given = ⟨s.detector, s.answered⟩
  delivery : Inv s.recorder
  wanted : s.recorder.d.wanted = s.detector.active
  asked : wants s.recorder.log = (transitions s.answered).map (· == START)
  last : (wants s.recorder.log).getLast?.getD false = s.detector.active
  file : s.statePending = false → s.stateFile = some s.detector.active

section Detect

variable {c : SensCfg} {started : Int} {d : MotionDetector} {o : Observation}

/-- A level below 2 is no boost, so the configuration of the masked picture is the general one. -/
theorem motionUpdate_unboosted (h : ∀ r ∈ o.reading, r.2 < 2) :
    motionUpdate { c with levelBoost := 0 } d o = motionUpdate c d o := by
  cases hr : o.reading with
  | none => simp [motionUpdate, hr]
  | some r =>
    have hlevel : ¬ r.2 ≥ 2 := Int.not_le.mpr (h r hr)
    have hstrong : SensCfg.strong { c with levelBoost := 0 } r.1 r.2 = c.strong r.1 r.2 := by
      simp [SensCfg.strong, hlevel]
    have hquiet : SensCfg.quiet { c with levelBoost := 0 } r.1 r.2 = c.quiet r.1 r.2 := rfl
    simp only [motionUpdate, hr, hstrong, hquiet]

theorem reading_level {s : MotionStats} {now : Int} {r : Rat × Int}
    (h : (⟨some s, now⟩ : Observation).reading = some r) : r.2 = s.movingLevel := by
  unfold Observation.reading at h
  cases hratio : s.binRatio with
  | none => simp [hratio] at h
  | some ratio =>
    simp only [hratio] at h
    split at h
    · cases h
    · cases h
      rfl

theorem Pass.spatial_level (p : Pass) (ratio : Rat) :
    ∀ r ∈ (p.spatial c ratio).reading, r.2 < 2 := by
  intro r hr
  unfold Pass.spatial at hr
  cases hvalid : p.valid with
  | false =>
    rw [if_neg (by simp [hvalid])] at hr
    cases hr
  | true =>
    rw [if_pos hvalid] at hr
    rw [reading_level hr]
    dsimp only
    split <;> decide

/-- **What the detector is given** is taken with the general configuration. -/
theorem observe_update {mask m : Option Spatial.Mask} {cfg : SensCfg} {p : Pass}
    (h : observe c started mask p = (m, cfg, some o)) :
    motionUpdate cfg d o = motionUpdate c d o ∧ o.now = p.now := by
  unfold observe at h
  split at h
  · cases h
    exact ⟨rfl, rfl⟩
  · dsimp only at h
    split at h
    · split at h
      · cases h
      · cases h
        refine ⟨motionUpdate_unboosted (p.spatial_level _), ?_⟩
        unfold Pass.spatial
        split <;> rfl
    · cases h
      refine ⟨rfl, ?_⟩
      split <;> rfl

/-- A transition is START or STOP, and tells what the detector is then. -/
theorem motionUpdate_transition (c : SensCfg) (d : MotionDetector) (o : Observation) :
    ((motionUpdate c d o).2 = 0 ∧ (motionUpdate c d o).1.active = d.active) ∨
    ((motionUpdate c d o).2 = START ∧ (motionUpdate c d o).1.active = true) ∨
    ((motionUpdate c d o).2 = STOP ∧ (motionUpdate c d o).1.active = false) := by
  rcases motionUpdate_cases c d o with ⟨-, hr⟩ | ⟨-, -, hcase⟩ | ⟨-, -, ⟨-, hr⟩ | ⟨-, hcase⟩⟩
  · exact .inl (by rw [hr]; exact ⟨rfl, rfl⟩)
  · rcases hcase with ⟨-, hr⟩ | ⟨-, hr⟩
    · exact .inr (.inl (by rw [hr]; exact ⟨rfl, rfl⟩))
    · exact .inl (by rw [hr]; exact ⟨rfl, rfl⟩)
  · exact .inl (by rw [hr]; exact ⟨rfl, rfl⟩)
  · rcases hcase with ⟨-, hr⟩ | ⟨-, hr⟩
    · exact .inr (.inr (by rw [hr]; exact ⟨rfl, rfl⟩))
    · exact .inl (by rw [hr]; exact ⟨rfl, rfl⟩)

/-- A START is the answer to a valid observation. -/
theorem start_valid (h : (motionUpdate c d o).2 = START) : o.valid = true := by
  rcases motionUpdate_cases c d o with ⟨-, hr⟩ | ⟨hvalid, -⟩ | ⟨hvalid, -⟩
  · exact absurd ((congrArg Prod.snd hr).symm.trans h) (show (0 : Int) ≠ START by decide)
  · exact hvalid
  · exact hvalid

/-- A valid observation needs a valid sample, whichever picture it is of. -/
theorem observe_valid {mask m : Option Spatial.Mask} {cfg : SensCfg} {p : Pass}
    (h : observe c started mask p = (m, cfg, some o)) (ho : o.valid = true) : p.valid = true := by
  unfold observe at h
  split at h
  · cases h
    exact ho
  · dsimp only at h
    split at h
    · split at h
      · cases h
      · cases h
        cases hvalid : p.valid with
        | true => rfl
        | false =>
          simp [Pass.spatial, hvalid, Pass.missing, Observation.valid, Observation.reading] at ho
    · cases h
      split at ho
      · exact ho
      · cases ho

/-- What the detector's part of a pass does. -/
structure Detected (c : SensCfg) (p : Pass) (s s' : Daemon) (transition : Int) : Prop where
  plays : play c s'.given = ⟨s'.detector, s'.answered⟩
  rest : s'.recorder = s.recorder ∧ s'.stateFile = s.stateFile ∧ s'.statePending = s.statePending ∧
    s'.ticks = s.ticks
  moved : (transition = 0 ∧ s'.detector.active = s.detector.active ∧
      transitions s'.answered = transitions s.answered) ∨
    (transition ≠ 0 ∧ (transition == START) = s'.detector.active ∧
      transitions s'.answered = transitions s.answered ++ [transition])
  started : transition = START → p.valid = true
  answers : ∀ a ∈ s'.answered, a ∈ s.answered ∨ a.observation.now = p.now ∧ a.returned = transition

theorem detected {s : Daemon} (h : play c s.given = ⟨s.detector, s.answered⟩) (p : Pass) :
    Detected c p s (s.detect c started p).1 (s.detect c started p).2 := by
  unfold Daemon.detect
  rcases hobs : observe c started s.mask p with ⟨m, cfg, given⟩
  cases given with
  | none => exact ⟨h, ⟨rfl, rfl, rfl, rfl⟩, .inl ⟨rfl, rfl, rfl⟩, nofun, fun _ ha => .inl ha⟩
  | some o =>
    obtain ⟨hcfg, hnow⟩ := observe_update (d := s.detector) hobs
    dsimp only
    rw [hcfg]
    refine ⟨?_, ⟨rfl, rfl, rfl, rfl⟩, ?_, fun ht => observe_valid hobs (start_valid ht),
      fun a ha => ?_⟩
    · have hgiven : ∀ r : Int, Daemon.given { s with
          mask := m
          detector := (motionUpdate c s.detector o).1
          answered := s.answered ++ [⟨o, r⟩] } = s.given ++ [o] := fun r => by simp [Daemon.given]
      rw [hgiven, play_append, h]
      rfl
    · rcases motionUpdate_transition c s.detector o with ⟨ht, hactive⟩ | hmoved
      · exact .inl ⟨ht, hactive, by dsimp only; rw [ht, transitions_zero]⟩
      · have hne : (motionUpdate c s.detector o).2 ≠ 0 := by
          rcases hmoved with ⟨ht, -⟩ | ⟨ht, -⟩ <;> rw [ht] <;> decide
        refine .inr ⟨hne, ?_, transitions_concat hne⟩
        rcases hmoved with ⟨ht, hactive⟩ | ⟨ht, hactive⟩ <;> rw [ht, hactive] <;> rfl
    · rcases List.mem_append.mp ha with ha | ha
      · exact .inl ha
      · cases List.mem_singleton.mp ha
        exact .inr ⟨hnow, rfl⟩

end Detect

namespace Relays

variable {c : SensCfg} {started : Int} {s s' : Daemon} {p : Pass} {t : Int}

theorem detected (h : Relays c s) (p : Pass) :
    Detected c p s (s.detect c started p).1 (s.detect c started p).2 :=
  Motion.detected h.plays p

/-- **What became of a pass is reported.** -/
theorem report (h : Relays c s) (hd : Detected c p s s' t) :
    Relays c ((s'.sample p t).report p t) := by
  obtain ⟨hrecorder, hfile, hpending, -⟩ := hd.rest
  unfold Daemon.report
  rcases hd.moved with ⟨ht, hactive, htrans⟩ | ⟨hne, hactive, htrans⟩
  · rw [if_pos ht]
    refine ⟨hd.plays, ?_, ?_, ?_, ?_, fun hp => ?_⟩
    · exact hrecorder ▸ h.delivery
    · exact (congrArg (·.d.wanted) hrecorder).trans (h.wanted.trans hactive.symm)
    · exact (congrArg (wants ·.log) hrecorder).trans (h.asked.trans (congrArg _ htrans.symm))
    · exact (congrArg (fun w => (wants w.log).getLast?.getD false) hrecorder).trans
        (h.last.trans hactive.symm)
    · exact hfile.trans ((h.file (hpending.symm.trans hp)).trans (congrArg some hactive.symm))
  · rw [if_neg hne]
    have henabled : s'.recorder.d.enabled = true := hrecorder ▸ h.delivery.enabled
    have hlog : wants (step s'.recorder (.want s'.detector.active)).log =
        (transitions s'.answered).map (· == START) := by
      rw [wants_want, hrecorder, h.asked, htrans, List.map_append, ← hactive]
      rfl
    have hdelivery : Inv (step s'.recorder (.want s'.detector.active)) :=
      inv_step (hrecorder ▸ h.delivery) _
    have hlast : (wants (step s'.recorder (.want s'.detector.active)).log).getLast?.getD false =
        s'.detector.active := by
      rw [wants_want, List.getLast?_concat]
      rfl
    cases hwrote : p.wrote with
    | true => exact ⟨hd.plays, hdelivery, wanted_want henabled _, hlog, hlast, fun _ => rfl⟩
    | false => exact ⟨hd.plays, hdelivery, wanted_want henabled _, hlog, hlast, nofun⟩

theorem deliver (h : Relays c s) (p : Pass) : Relays c (s.deliver p) := by
  have hsilent := silent_tick { p.queue with now := p.now } s.recorder
  exact ⟨h.plays, inv_step h.delivery (.tick { p.queue with now := p.now }),
    hsilent.1.trans h.wanted, hsilent.2.trans h.asked,
    (congrArg (fun l => l.getLast?.getD false) hsilent.2).trans h.last, h.file⟩

theorem telemetry (h : Relays c s) (p : Pass) : Relays c (s.telemetry p) := by
  unfold Daemon.telemetry
  split
  · dsimp only
    split
    · cases hwrote : p.rewrote with
      | true => exact ⟨h.plays, h.delivery, h.wanted, h.asked, h.last, fun _ => rfl⟩
      | false => exact ⟨h.plays, h.delivery, h.wanted, h.asked, h.last, nofun⟩
    · exact ⟨h.plays, h.delivery, h.wanted, h.asked, h.last, h.file⟩
  · exact h

/-- **A pass keeps the invariant.** -/
theorem pass (h : Relays c s) (p : Pass) : Relays c (s.pass c started p) :=
  ((h.report (h.detected p)).deliver p).telemetry p

end Relays

theorem relays_start (c : SensCfg) (mask : Option Spatial.Mask) (wrote : Bool) :
    Relays c (Daemon.start true mask wrote) := by
  cases wrote with
  | true => exact ⟨rfl, inv_start _, rfl, rfl, rfl, fun _ => rfl⟩
  | false => exact ⟨rfl, inv_start _, rfl, rfl, rfl, nofun⟩

theorem relays_run (c : SensCfg) (started : Int) (mask : Option Spatial.Mask) (wrote : Bool)
    (ps : List Pass) : Relays c (daemonRun c started mask wrote ps) :=
  run_inv (fun _ p h => h.pass p) (relays_start c mask wrote) ps

/-! ## 4. The level history -/

section Sampled

variable {c : SensCfg} {started : Int} {s s' : Daemon} {p : Pass} {t : Int}

/-- The reading that starts the motion goes into the level history in the same pass. -/
theorem sampled_sample (h : s.Sampled) (hd : Detected c p s s' t) (hwall : p.wall = true) :
    (s'.sample p t).Sampled := by
  intro a ha hstart
  have hticks : s'.ticks = s.ticks := hd.rest.2.2.2
  rcases hd.answers a ha with hold | ⟨hnow, hreturned⟩
  · exact List.mem_append_left _ (hticks ▸ h a hold hstart)
  · have ht : t = START := hreturned.symm.trans hstart
    have hactive : s'.detector.active = true := by
      rcases hd.moved with ⟨h0, -⟩ | ⟨-, hmoved, -⟩
      · exact absurd (h0.symm.trans ht) (by decide)
      · rw [← hmoved, ht]
        rfl
    have hdue : (Record.LevelBurst.motionLevelsDue s'.sampling
        ⟨s'.detector.active, decide (t > 0), p.now⟩).2 = true := by
      have htrigger : decide (t > 0) = true := ht ▸ rfl
      rw [Record.LevelBurst.due_first hactive (.inl htrigger)]
    refine List.mem_append_right _ ?_
    rw [hdue, hwall, hactive, hd.started ht, hnow]
    exact List.mem_singleton.mpr rfl

theorem sampled_pass (hr : Relays c s) (h : s.Sampled) (hwall : p.wall = true) :
    (s.pass c started p).Sampled := by
  have hdetected : Detected c p s (s.detect c started p).1 (s.detect c started p).2 := hr.detected p
  have hs := sampled_sample h hdetected hwall
  have hreport (t : Int) (u : Daemon) (hu : u.Sampled) : (u.report p t).Sampled := by
    unfold Daemon.report
    split
    · exact hu
    · cases hwrote : p.wrote <;> exact hu
  have htelemetry (u : Daemon) (hu : u.Sampled) : (u.telemetry p).Sampled := by
    unfold Daemon.telemetry
    split
    · dsimp only
      split
      · cases hwrote : p.rewrote <;> exact hu
      · exact hu
    · exact hu
  exact htelemetry _ (hreport _ _ hs)

end Sampled

/-! ## 5. The loop -/

section Run

variable {c : SensCfg} {started : Int} {mask : Option Spatial.Mask} {wrote : Bool} {s : Daemon}
  {ps : List Pass}

/-- What the detector answered in a pass stays as it is. -/
theorem pass_answered (s : Daemon) (p : Pass) :
    (s.pass c started p).answered = (s.detect c started p).1.answered := by
  have hreport (t : Int) (u : Daemon) : (u.report p t).answered = u.answered := by
    unfold Daemon.report
    split
    · rfl
    · cases hwrote : p.wrote <;> rfl
  have htelemetry (u : Daemon) : (u.telemetry p).answered = u.answered := by
    unfold Daemon.telemetry
    split
    · dsimp only
      split
      · cases hwrote : p.rewrote <;> rfl
      · rfl
    · rfl
  exact (htelemetry _).trans (hreport _ _)

/-- The times of the observations are those of the passes. -/
theorem given_times (hps : ∀ p ∈ ps, 0 ≤ p.now) :
    ∀ o ∈ (daemonRun c started mask wrote ps).given, 0 ≤ o.now := by
  have hrun : Relays c (daemonRun c started mask wrote ps) ∧
      ∀ a ∈ (daemonRun c started mask wrote ps).answered, 0 ≤ a.observation.now := by
    refine run_inv_of (C := fun _ p => 0 ≤ Pass.now p)
      (I := fun s => Relays c s ∧ ∀ a ∈ s.answered, 0 ≤ a.observation.now)
      (fun s p hp h => ⟨h.1.pass p, fun a ha => ?_⟩) ⟨relays_start c mask wrote, ?_⟩
      (.of_forall hps _)
    · rw [pass_answered] at ha
      rcases (h.1.detected p).answers a ha with hold | ⟨hnow, -⟩
      · exact h.2 a hold
      · exact hnow ▸ hp
    · cases wrote <;> exact fun _ ha => absurd ha List.not_mem_nil
  intro o ho
  obtain ⟨a, ha, rfl⟩ := List.mem_map.mp ho
  exact hrun.2 a ha

theorem sampled_run (hwall : ∀ p ∈ ps, p.wall = true) :
    (daemonRun c started mask wrote ps).Sampled := by
  have hrun : Relays c (daemonRun c started mask wrote ps) ∧
      (daemonRun c started mask wrote ps).Sampled := by
    refine run_inv_of (C := fun _ p => Pass.wall p = true) (I := fun s => Relays c s ∧ s.Sampled)
      (fun s p hp h => ⟨h.1.pass p, sampled_pass h.1 h.2 hp⟩)
      ⟨relays_start c mask wrote, ?_⟩ (.of_forall hwall _)
    cases wrote <;> exact fun _ ha => absurd ha List.not_mem_nil
  exact hrun.2

theorem tracks_run (hconfirm : 1 ≤ c.confirmSamples) (hps : ∀ p ∈ ps, 0 ≤ p.now) :
    Tracks c ⟨(daemonRun c started mask wrote ps).detector,
      (daemonRun c started mask wrote ps).answered⟩ :=
  (relays_run c started mask wrote ps).plays ▸ play_tracks hconfirm (given_times hps)

/-- Behind the loop the recorder is told to stop. -/
theorem Relays.shutdown (h : Relays c s) (ticks : Fin 5 → TickEnv) (wrote : Bool) :
    Heard (s.shutdown ticks wrote).recorder false := by
  have hinv : Inv (step s.recorder (.want false)) := inv_step h.delivery _
  have hdrained := inv_drain (List.ofFn ticks) hinv
  have hwanted :
      (Daemon.drain (List.ofFn ticks) (step s.recorder (.want false))).d.wanted = false :=
    (silent_drain _ _).1.trans (wanted_want h.delivery.enabled false)
  have hheard := hdrained.heard
  rw [hwanted] at hheard
  cases wrote <;> exact hheard

end Run

/-- A recorder queue that takes everything. -/
def openQueue : TickEnv := ⟨0, some ⟨0, 1⟩, some ⟨0, 1⟩, .ok 1, .ok 16, fun _ => none⟩

/-- A pass without a motion map, all of whose calls succeed. -/
def plainPass (now : Int) (ratio : Rat) : Pass where
  stats := some ⟨1, some ratio⟩
  contents := Spatial.Map.fresh (Spatial.Mask.zero (fun _ => 48) 1 12)
  opened := false
  now := now
  wall := true
  queue := openQueue
  wrote := true
  rewrote := true

/-- In this pass the whole picture decides, and it is strong. -/
def Daemon.Strong (c : SensCfg) (started : Int) (s : Daemon) (p : Pass) : Prop :=
  (observe c started s.mask p).2.2 = some p.whole ∧ p.whole.strong c = true

section Strong

variable {c : SensCfg} {started : Int} {s : Daemon} {p : Pass}

/-- The detector's part of a pass whose whole picture decides. -/
theorem detect_whole (h : (observe c started s.mask p).2.2 = some p.whole) :
    (s.detect c started p).1.detector = (motionUpdate c s.detector p.whole).1 := by
  unfold Daemon.detect
  rcases hobs : observe c started s.mask p with ⟨m, cfg, given⟩
  rw [hobs] at h
  cases h
  exact congrArg Prod.fst (observe_update hobs).1

theorem pass_detector (s : Daemon) (p : Pass) :
    (s.pass c started p).detector = (s.detect c started p).1.detector := by
  have hreport (t : Int) (u : Daemon) : (u.report p t).detector = u.detector := by
    unfold Daemon.report
    split
    · rfl
    · cases hwrote : p.wrote <;> rfl
  have htelemetry (u : Daemon) : (u.telemetry p).detector = u.detector := by
    unfold Daemon.telemetry
    split
    · dsimp only
      split
      · cases hwrote : p.rewrote <;> rfl
      · rfl
    · rfl
  exact (htelemetry _).trans (hreport _ _)

/-- A strong whole picture starts the motion, or it is counted. -/
theorem strong_pass (h : s.Strong c started p) (hactive : s.detector.active = false) :
    (s.pass c started p).detector.active = true ∨
      (s.pass c started p).detector.active = false ∧
      (s.pass c started p).detector.positives = s.detector.positives + 1 ∧
      s.detector.positives + 1 < c.confirmSamples := by
  obtain ⟨hgiven, hstrong⟩ := h
  rw [pass_detector, detect_whole hgiven]
  have hvalid : p.whole.valid = true := by
    cases hr : p.whole.reading with
    | none => simp [Observation.strong, hr] at hstrong
    | some r => simp [Observation.valid, hr]
  rcases motionUpdate_cases c s.detector p.whole with ⟨hinvalid, -⟩ | ⟨-, -, hcase⟩ | ⟨-, hon, -⟩
  · exact absurd (hinvalid.symm.trans hvalid) Bool.false_ne_true
  · simp only [hstrong, if_true] at hcase
    rcases hcase with ⟨-, hr⟩ | ⟨hless, hr⟩
    · exact .inl (by rw [hr])
    · exact .inr (by rw [hr]; exact ⟨hactive, rfl, hless⟩)
  · exact absurd (hactive.symm.trans hon) Bool.false_ne_true

/-- Strong whole pictures one after the other, from a count on. -/
theorem strong_passes {qs : List Pass}
    (hstrong : StepsMeet (Daemon.pass c started) (Daemon.Strong c started) s qs)
    (hcount : c.confirmSamples ≤ s.detector.positives + qs.length)
    (hpositive : s.detector.active = false → s.detector.positives < c.confirmSamples) :
    ∃ k ≤ qs.length, (run (Daemon.pass c started) s (qs.take k)).detector.active = true := by
  induction qs generalizing s with
  | nil =>
    cases hactive : s.detector.active with
    | true => exact ⟨0, Nat.le_refl 0, hactive⟩
    | false =>
      have hless := hpositive hactive
      simp only [List.length_nil] at hcount
      omega
  | cons q qs ih =>
    cases hactive : s.detector.active with
    | true => exact ⟨0, Nat.zero_le _, hactive⟩
    | false =>
      rcases strong_pass hstrong.1 hactive with hon | ⟨hoff, hcounted, hless⟩
      · exact ⟨1, by simp, hon⟩
      · have hcount' : c.confirmSamples ≤ (s.pass c started q).detector.positives + qs.length := by
          rw [hcounted]
          simp only [List.length_cons] at hcount
          omega
        obtain ⟨k, hk, hon⟩ := ih hstrong.2 hcount' fun _ => hcounted ▸ hless
        exact ⟨k + 1, Nat.succ_le_succ hk, hon⟩

end Strong

end YiHack.Motion
