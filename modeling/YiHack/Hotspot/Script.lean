/-
  File:      YiHack/Hotspot/Script.lean
  Subject:   `hotspot.sh`: the requests, and the worker that takes them up under `wifi-recovery`.

  The worker, one at a time, has the slot `none`; it is `apply`, `recover`, or the handoff of
  `wifi_failover.sh`, which owns the same lock. A request comes from a slot of its own, at any moment.
  Every command of the worker is one action, a redirection and its `printf` are two; how the external
  commands end is decided when the run is called. Daemons and radio are not modelled: what is asked
  of them is an outcome.

  Beside the files the model notes the last request and whether a run has finished it, what the run
  found when it looked for a request, the state then, which request it moved, whether it has launched
  the access point, whether all its commands ended well, and how it ended.

  * `applyLocked`, `recover` -- the functions of the source;
  * `system` -- requests and runs side by side.
-/
import YiHack.General.Threads
import YiHack.Wifi.Watchdog

namespace YiHack.Hotspot

open General
open Wifi (HotspotState)

/-! ## 1. The files -/

/-- What a request file says. -/
inductive Request
  | start
  | stop
  | startOpen
  deriving DecidableEq, Repr

/-- Request file, pending file (which may be there and empty), state file, whether the maintenance
    marker is there with text; the outcomes to come and `NEW_REQUEST`; the notes. -/
structure Files where
  request : Option Request
  pending : Option (Option Request)
  state : HotspotState
  maintenance : Bool
  outcomes : List Bool
  newRequest : Bool
  last : Option Request
  answered : Bool
  found : Option (Option Request)
  seen : HotspotState
  moved : Option Request
  launched : Bool
  clean : Bool
  ended : Option Bool
  deriving DecidableEq

namespace Files

/-- Power-on. -/
def boot : Files where
  request := none
  pending := none
  state := .absent
  maintenance := false
  outcomes := []
  newRequest := false
  last := none
  answered := true
  found := none
  seen := .absent
  moved := none
  launched := false
  clean := true
  ended := none

/-- `mv -f "$RUNTIME/request.$$" "$REQUEST"`. -/
def ask (r : Request) (s : Files) : Files :=
  { s with request := some r, last := some r, answered := false }

/-- A run has the lock. -/
def begin (outcomes : List Bool) (s : Files) : Files :=
  { s with
    outcomes := outcomes
    newRequest := false
    found := none
    seen := .absent
    moved := none
    launched := false
    clean := true
    ended := none }

/-- The next outcome; behind the last one commands end well. -/
def good (s : Files) : Bool := s.outcomes.headD true

/-- A command: where it can and ends well, it changes the files. -/
def attempt (f : Files → Option Files) (s : Files) : Files :=
  let s' := { s with outcomes := s.outcomes.tail }
  if s.good then (f s').getD { s' with clean := false } else { s' with clean := false }

def succeeds (f : Files → Option Files) (s : Files) : Bool :=
  s.good && (f { s with outcomes := s.outcomes.tail }).isSome

/-- `[ -f "$REQUEST" ]`. -/
def look (s : Files) : Files := { s with found := some s.request, seen := s.state }

/-- `mv -f "$REQUEST" "$RUNTIME/pending"`, `NEW_REQUEST=yes`. -/
def move (s : Files) : Option Files :=
  s.request.map fun r =>
    { s with request := none, pending := some (some r), moved := some r, newRequest := true }

/-- `rm -f "$RUNTIME/pending"`: a request that is not followed by another is finished. -/
def removePending (s : Files) : Files :=
  { s with pending := none, answered := s.answered || s.request.isNone }

end Files

/-! ## 2. Commands -/

def command (f : Files → Option Files) : Code Files Bool :=
  Code.rmw (Files.attempt f) (Files.succeeds f)

/-- A command that changes no file of the model. -/
def external : Code Files Bool := command some

/-- A test of daemons and radio. -/
def probe : Code Files Bool :=
  Code.rmw (fun s => { s with outcomes := s.outcomes.tail }) Files.good

/-- `command || return 1`, and what follows. -/
def orReturn (c d : Code Files Bool) : Code Files Bool := do
  if ← c then d else return false

def setState (h : HotspotState) : Code Files Bool := command fun s => some { s with state := h }

/-- `rm -f "$RUNTIME/pending"` at the end. -/
def removePending : Code Files Bool := command fun s => some s.removePending

/-! ## 3. Station and access point -/

/-- `stop_ap`; its commands may fail. -/
def stopAp : Code Files Unit := do
  external.void
  external.void
  external.void

/-- `killall`, `sleep` and `killall -9`. -/
def killStation : Code Files Unit := do
  external.void
  external.void
  external.void

/-- `restore_station`. -/
def restoreStation : Code Files Bool :=
  orReturn (setState .stopping) do
    stopAp
    killStation
    (command fun s => some { s with maintenance := false }).void
    external.void
    -- [ -s "$PRIMARY" ], the supplicant, the addresses
    orReturn external (orReturn external (orReturn external (setState .station)))

/-- `AP_BIN`; what it tries counts. -/
def launch : Code Files Bool := do
  Code.store fun s => { s with launched := true }
  external

/-- The loop that sets `AP_READY`. -/
def apReady : Nat → Code Files Bool
  | 0 => return false
  | n + 1 => do
    if ← probe then return true
    else do
      external.void
      apReady n

/-- The addresses, and the servers behind them. -/
def serve : Code Files Bool :=
  orReturn external do
    external.void
    external.void
    if ← probe then
      orReturn (setState .active) do
        external.void
        return true
    else return false

/-- `start_ap`. -/
def startAp : Code Files Bool :=
  -- check, SSID_HEX, mkdir
  orReturn external <| orReturn external <| orReturn external <|
    orReturn (setState .starting) do
      killStation
      stopAp
      orReturn external (orReturn external (orReturn launch (orReturn (apReady 5) serve)))

/-! ## 4. The worker -/

/-- `NEW_REQUEST`; false where the request cannot be moved. -/
def takeRequest : Code Files Bool := do
  if ← Code.rmw Files.look (fun s => s.request.isSome) then command Files.move
  else return true

/-- The station, and what is left where it cannot be restored. -/
def restore : Code Files Bool := do
  if ← restoreStation then removePending
  else do
    (setState .failed).void
    removePending.void
    external.void
    return false

/-- `ACTION=stop`. -/
def performStop : Code Files Bool := do
  let state ← Code.load (·.state)
  if state = .absent ∨ state = .station then
    if ← Code.load (fun s => !s.maintenance) then do
      removePending.void
      return true
    else restore
  else restore

/-- `ACTION=start`. -/
def performStart : Code Files Bool := do
  if ← startAp then removePending
  else do
    let state ← Code.load (·.state)
    if state = .active then do
      removePending.void
      return false
    else do
      if state = .starting ∨ state = .stopping then do
        external.void
        restoreStation.void
        (setState .failed).void
        removePending.void
        return false
      else do
        (setState .failed).void
        removePending.void
        return false

/-- Interrupted transitions are resumed by restoring the station. -/
def perform (action : Request) : Code Files Bool := do
  let newRequest ← Code.load (·.newRequest)
  let state ← Code.load (·.state)
  if newRequest = false ∧ (state = .stopping ∨ state = .starting) then performStop
  else
    match action with
    | .stop => performStop
    | _ => performStart

/-- The action where nothing is pending. -/
def performState : Code Files Bool := do
  let state ← Code.load (·.state)
  match state with
  | .starting | .stopping => perform .stop
  | .active =>
    if ← probe then
      if ← probe then return true
      else do
        external.void
        perform .stop
    else perform .start
  | _ => return true

/-- `apply_locked`. -/
def applyLocked : Code Files Bool :=
  orReturn external <| orReturn takeRequest do
    let pending ← Code.load (·.pending)
    match pending.join with
    | some .startOpen => orReturn external (perform .start)
    | some action => perform action
    | none => performState

/-- `printf 'start\n' > "$RUNTIME/pending"`. -/
def writePending : Code Files Bool :=
  orReturn (command fun s => some { s with pending := some none })
    (command fun s => some { s with pending := some (some .start) })

/-- `recover`: `mode` is not `maintenance`. -/
def recover (mode : Bool) : Code Files Bool := do
  if mode then
    let request ← Code.load (·.request)
    let pending ← Code.load (·.pending)
    if request.isSome ∨ pending.join.isSome then return false
    else do
      let state ← Code.load (·.state)
      if state.busy then return false
      else orReturn external (orReturn writePending applyLocked)
  else return false

/-- `wifi_failover.sh` up to its marker: `usable` where mode and settings pass the checks. -/
def failover (usable : Bool) : Code Files Bool := do
  let state ← Code.load (·.state)
  if state.busy then return false
  else do
    let request ← Code.load (·.request)
    let pending ← Code.load (·.pending)
    if request.isSome ∨ pending.join.isSome ∨ usable = false then return false
    else command fun s => some { s with maintenance := true }

/-- Who may own the lock. -/
inductive Job
  | apply
  | recover (mode : Bool)
  | failover (usable : Bool)

def Job.code : Job → Code Files Bool
  | .apply => applyLocked
  | .recover mode => Hotspot.recover mode
  | .failover usable => Hotspot.failover usable

/-- A run, from the lock to the exit. -/
def worker (job : Job) (outcomes : List Bool) : Code Files Unit := do
  Code.store (Files.begin outcomes)
  let status ← job.code
  Code.store fun s => { s with ended := some status }

/-! ## 5. Requests -/

/-- What `boot_request` finds: `WIFI_HOTSPOT_BOOT`, no router credentials, a hotspot password. -/
structure Settings where
  hotspotBoot : Bool
  unprovisioned : Bool
  password : Bool

/-- Who writes requests; `check` passes or not. -/
inductive Call
  | run (job : Job) (outcomes : List Bool)
  | start (passes : Bool)
  | stop
  | boot (settings : Settings) (passes : Bool)
  | button

def request (r : Request) : Code Files Unit := Code.store (Files.ask r)

/-- `boot_request`. -/
def bootRequest (settings : Settings) (passes : Bool) : Code Files Unit :=
  if settings.hotspotBoot then
    if passes then request .start else Code.ret ()
  else if settings.unprovisioned then
    if settings.password then
      if passes then request .start else Code.ret ()
    else request .startOpen
  else Code.ret ()

/-- The lock is the slot `none`. -/
def system : System (Option Nat) Call Files where
  program
    | none, .run job outcomes => some (worker job outcomes)
    | some _, .start passes => some (if passes then request .start else Code.ret ())
    | some _, .stop => some (request .stop)
    | some _, .boot settings passes => some (bootRequest settings passes)
    | some _, .button => some (request .startOpen)
    | _, _ => none
  bury _ s := s

end YiHack.Hotspot
