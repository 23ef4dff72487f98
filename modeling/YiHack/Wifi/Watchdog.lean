/-
  File:      YiHack/Wifi/Watchdog.lean
  Subject:   `check_wifi` of `wd.sh` beside the scripts that change the radio's mode.

  The watchdog keeps three variables of its own, `WIFI_FAILSAFE_COUNTER`, `WIFI_FAILSAFE_STARTED` and
  `WIFI_MAINTENANCE_FAILSAFE_COUNTER`; the mode is in files that other processes change at any
  moment. What a connection test and a configuration key yield is given with the run.

  The model keeps notes beside this, which no branch looks at: how many runs found the primary
  disconnected since the latest of a run that found it connected, a run that saw a hotspot state and
  the end of a maintenance session, and when that was (`misses`, `since`); how many maintenance
  checks failed in a row in this session (`sessionMisses`); whether a counter still has what it
  counted before (`primaryStale`, `sessionStale`); and the workers launched.
-/
import YiHack.General.Bytes
import YiHack.General.Threads

namespace YiHack.Wifi

open General

/-! ## 1. The files and the variables -/

/-- `/tmp/yi-hotspot/state`. -/
inductive HotspotState
  | absent
  | station
  | starting
  | active
  | stopping
  | failed
  deriving DecidableEq

/-- `starting|active|stopping`. -/
def HotspotState.busy : HotspotState → Bool
  | .starting | .active | .stopping => true
  | _ => false

/-- `/tmp/wifi_maintenance_active`. -/
inductive Maintenance
  | absent
  | pending
  | maintenance
  deriving DecidableEq

inductive Worker
  | recover
  | failover
  | reboot
  deriving DecidableEq

/-- A worker launched, with the notes at that moment: `primary` behind line 408, `session` in the
    branch of the maintenance session. -/
inductive Launch
  | primary (worker : Worker) (misses since uptime grace : Nat)
  | session (worker : Worker) (misses : Nat)
  | reconnect
  deriving DecidableEq

structure Radio where
  hotspot : HotspotState
  request : Bool
  pending : Bool
  maintenance : Maintenance
  uptime : Nat
  readable : Bool
  failsafeCounter : Nat
  failsafeStarted : Nat
  maintenanceCounter : Nat
  misses : Nat
  since : Nat
  sessionMisses : Nat
  primaryStale : Bool
  sessionStale : Bool
  launched : List Launch

/-- `INTERVAL`. -/
def INTERVAL : Nat := 10

/-- What a run of `check_wifi` finds: the two connection tests, whether `WIFI_RECOVERY_MODE` is
    `maintenance`, and `WIFI_MAINTENANCE_GRACE`. -/
structure Outcomes where
  sessionConnected : Bool
  primaryConnected : Bool
  modeMaintenance : Bool
  grace : Bytes

/-- `WIFI_GRACE` behind the three lines that check it. `[` refuses a number of more than 64 bits, and
    what it refuses is below 30. -/
def effectiveGrace (grace : Bytes) : Nat :=
  let n := if isDecimal grace then decimal grace else 180
  let n := if 30 ≤ n ∧ n < 2 ^ 63 then n else 30
  if n ≤ 3600 then n else 3600

/-! ## 2. What the other scripts do -/

/-- `echo maintenance_pending > "$ACTIVE_FILE"`: a session begins unless there is one. -/
def Radio.enter (s : Radio) : Radio :=
  if s.maintenance = .absent then
    { s with
      maintenance := .pending
      sessionMisses := 0
      sessionStale := s.maintenanceCounter != 0 }
  else { s with maintenance := .pending }

/-- `rm -f /tmp/wifi_maintenance_active`: the session ends. -/
def Radio.exit (s : Radio) : Radio :=
  if s.maintenance = .absent then s
  else
    { s with
      maintenance := .absent
      misses := 0
      since := s.uptime
      primaryStale := s.failsafeCounter != 0 }

/-- `set_state`. -/
def Radio.setState (h : HotspotState) (s : Radio) : Radio := { s with hotspot := h }

/-- What may happen at any moment. -/
inductive Change
  | setState (h : HotspotState)
  | request (queued : Bool)
  | pending (queued : Bool)
  | enter
  | exit
  | pass (seconds : Nat)

def Change.apply : Change → Radio → Radio
  | .setState h, s => s.setState h
  | .request queued, s => { s with request := queued }
  | .pending queued, s => { s with pending := queued }
  | .enter, s => s.enter
  | .exit, s => s.exit
  | .pass seconds, s => { s with uptime := s.uptime + seconds }

/-- `restore_station` of `hotspot.sh`, and the state its caller leaves where it fails. -/
def restoreStation (restored : Bool) : Code Radio Unit := do
  Code.store (Radio.setState .stopping)
  Code.store Radio.exit
  Code.store (Radio.setState (if restored then .station else .failed))

/-- `wifi_failover.sh` up to the handoff: `usable` where mode and settings pass the checks. -/
def wifiFailover (usable : Bool) : Code Radio Unit := do
  let state ← Code.load (·.hotspot)
  if state.busy then Code.ret ()
  else do
    let request ← Code.load (·.request)
    let pending ← Code.load (·.pending)
    if request || pending || !usable then Code.ret ()
    else Code.store Radio.enter

/-! ## 3. The watchdog -/

def Radio.launch (l : Launch) (s : Radio) : Radio := { s with launched := l :: s.launched }

/-- The two counters of the primary branch are reset. -/
def Radio.reset (s : Radio) : Radio :=
  { s with
    failsafeCounter := 0
    failsafeStarted := 0
    misses := 0
    since := s.uptime
    primaryStale := false }

/-- `starting|active|stopping) WIFI_FAILSAFE_STARTED=0; WIFI_FAILSAFE_COUNTER=0`. -/
def Radio.seeHotspot (s : Radio) : Radio := if s.hotspot.busy then s.reset else s

/-- The maintenance connection is there: `echo maintenance`, and its counter is reset. -/
def Radio.stay (s : Radio) : Radio :=
  { s with
    maintenance := .maintenance
    maintenanceCounter := 0
    sessionMisses := 0
    sessionStale := false }

/-- A maintenance check has failed. -/
def Radio.countSession (s : Radio) : Radio :=
  { s with
    maintenanceCounter := s.maintenanceCounter + 1
    sessionMisses := s.sessionMisses + 1 }

def Radio.launchSession (w : Worker) (s : Radio) : Radio := s.launch (.session w s.sessionMisses)

/-- The maintenance branch. -/
def checkSession (o : Outcomes) : Code Radio Unit :=
  if o.sessionConnected then Code.store Radio.stay
  else if !o.modeMaintenance then Code.store (Radio.launchSession .recover)
  else do
    let counter ← Code.rmw Radio.countSession (·.maintenanceCounter + 1)
    Code.store (Radio.launchSession (if 6 ≤ counter then .reboot else .failover))

/-- The primary is not connected. -/
def Radio.countPrimary (s : Radio) : Radio :=
  { s with failsafeCounter := s.failsafeCounter + 1, misses := s.misses + 1 }

/-- `WIFI_NOW`. -/
def Radio.now (s : Radio) : Nat := if s.readable then s.uptime else s.failsafeCounter * INTERVAL

/-- `WIFI_FAILSAFE_STARTED=$WIFI_NOW` where it is 0. -/
def Radio.start (s : Radio) : Radio :=
  { s with failsafeStarted := if s.failsafeStarted = 0 then s.now else s.failsafeStarted }

/-- `WIFI_LOST_SECONDS`. -/
def Radio.lostSeconds (s : Radio) : Int := (s.now : Int) - s.start.failsafeStarted

def Radio.launchPrimary (w : Worker) (grace : Nat) (s : Radio) : Radio :=
  s.launch (.primary w s.misses s.since s.uptime grace)

/-- The primary branch. -/
def checkPrimary (o : Outcomes) : Code Radio Unit :=
  if o.primaryConnected then Code.store Radio.reset
  else do
    Code.store Radio.countPrimary
    let lost ← Code.rmw Radio.start fun s => (s.lostSeconds, s.failsafeCounter)
    if (effectiveGrace o.grace : Int) ≤ lost.1 ∧ 6 ≤ lost.2 then
      Code.store (Radio.launchPrimary (if o.modeMaintenance then .failover else .recover)
        (effectiveGrace o.grace))
    else Code.store (Radio.launch .reconnect)

/-- `check_wifi`. -/
def checkWifi (o : Outcomes) : Code Radio Unit := do
  let busy ← Code.rmw Radio.seeHotspot (·.hotspot.busy)
  if busy then Code.ret ()
  else do
    let request ← Code.load (·.request)
    let pending ← Code.load (·.pending)
    if request || pending then Code.ret ()
    else do
      let session ← Code.load (·.maintenance)
      if session = .absent then checkPrimary o else checkSession o

/-! ## 4. Side by side -/

inductive Call
  | check (o : Outcomes)
  | change (c : Change)
  | restoreStation (restored : Bool)
  | wifiFailover (usable : Bool)

/-- The watchdog in the slot `none`, other processes in the others. -/
def system : System (Option Nat) Call Radio where
  program
    | none, .check o => some (checkWifi o)
    | some _, .change c => some (Code.store c.apply)
    | some _, .restoreStation restored => some (restoreStation restored)
    | some _, .wifiFailover usable => some (wifiFailover usable)
    | _, _ => none
  bury _ s := s

/-- The watchdog has just been started; the clock runs and can be read. -/
structure Started (s : Radio) : Prop where
  uptime : 0 < s.uptime
  readable : s.readable = true
  failsafeCounter : s.failsafeCounter = 0
  failsafeStarted : s.failsafeStarted = 0
  maintenanceCounter : s.maintenanceCounter = 0
  misses : s.misses = 0
  since : s.since = s.uptime
  sessionMisses : s.sessionMisses = 0
  launched : s.launched = []

/-- A recovery worker of the primary branch is due after six misses and the grace period, a reboot
    after six failed checks of the session. -/
def Launch.Due : Launch → Prop
  | .primary _ misses since uptime grace =>
    6 ≤ misses ∧ since + grace ≤ uptime ∧ 30 ≤ grace ∧ grace ≤ 3600
  | .session worker misses => worker = .reboot → 6 ≤ misses
  | .reconnect => True

/-- The counter that decided on the launch has what it counted before the last session ended, or
    before this session began. -/
def Launch.stale (s : Radio) : Launch → Bool
  | .primary .. => s.primaryStale
  | .session .reboot _ => s.sessionStale
  | _ => false

/-- **The condition on a step**: what is launched is not launched by a stale counter. -/
def Heedful (s s' : Radio) : Prop :=
  ∀ l ∈ s'.launched.head?, s.launched.length < s'.launched.length → l.stale s = false

instance (s s' : Radio) : Decidable (Heedful s s') :=
  inferInstanceAs (Decidable (∀ l ∈ s'.launched.head?, _))

end YiHack.Wifi
