/-
  File:      YiHack/Motion/Delivery.lean
  Subject:   `motion_delivery.h`: the detector's side of the recorder queue.

  The header keeps one record, `struct motion_delivery`, and moves it with four functions. Every
  system call it makes is answered here by the environment (`TickEnv`), so a run ranges over any
  queue that is full, removed or replaced at any moment and over any clock. The calls that decide
  what the recorder has seen (`mq_open`, `mq_send`, `mq_close`) are logged with the calls of
  `motion_delivery_want` in one `log`.

  Flags are `Bool`: `motiond` passes `record_events` and `detector.active`, both 0 or 1. Clock
  values are unbounded integers (`now + 1000` does not overflow on a millisecond clock).
-/
import YiHack.General.Run

namespace YiHack.Motion

/-! ## 1. The record -/

/-- A value of `errno`. -/
abbrev Errno := Nat

/-- The `errno` values `motion_delivery.h` names, with their Linux numbers. -/
def EINTR : Errno := 4
def EBADF : Errno := 9
def EAGAIN : Errno := 11
def EMSGSIZE : Errno := 90

/-- The identity of a message queue in the kernel (the inode behind a descriptor). -/
abbrev Queue := Nat

/-- The two messages of the recorder: `IPC_MOTION_START` and `IPC_MOTION_STOP`. -/
inductive Msg where
  | start
  | stop
  deriving DecidableEq, Repr

/-- `active ? start : stop`. -/
def msgOf (active : Bool) : Msg := if active then .start else .stop

@[simp] theorem msgOf_true : msgOf true = .start := rfl
@[simp] theorem msgOf_false : msgOf false = .stop := rfl

theorem msgOf_injective {a b : Bool} (h : msgOf a = msgOf b) : a = b := by
  cases a <;> cases b <;> first | rfl | cases h

/-- `struct motion_delivery`. `mq = none` is the descriptor `(mqd_t)-1`. -/
structure MotionDelivery where
  mq : Option Queue
  name : String
  path : String
  enabled : Bool
  wanted : Bool
  sent : Bool
  startPending : Bool
  resetPending : Bool
  error : Errno
  retryAfter : Int
  checkAfter : Int
  deriving DecidableEq, Repr

/-- `motion_delivery_init`: the record cleared, then `path` printed into 128 bytes. -/
def motionDeliveryInit (enabled : Bool) (name : String) : MotionDelivery where
  mq := none
  name := name
  path := String.ofList (("/dev/mqueue" ++ name).toList.take 127)
  enabled := enabled
  wanted := false
  sent := false
  startPending := false
  resetPending := enabled
  error := 0
  retryAfter := 0
  checkAfter := 0

/-- `motion_delivery_pending`. -/
def motionDeliveryPending (d : MotionDelivery) : Bool :=
  d.enabled && (d.mq.isNone || d.resetPending || d.startPending || d.sent != d.wanted)

/-- `motion_delivery_want`. -/
def motionDeliveryWant (d : MotionDelivery) (active : Bool) : MotionDelivery :=
  if !d.enabled then d
  else
    { d with
      wanted := active
      startPending := if active && !d.sent then true else d.startPending }

/-! ## 2. The system calls of one tick -/

/-- What identifies a file: `st_dev` and `st_ino`. -/
structure StatId where
  dev : Nat
  ino : Nat
  deriving DecidableEq, Repr

/-- The answers of the kernel during one `motion_delivery_tick`: `none` from `fstat`/`stat` is a
    failure, `mqSend i = none` is acceptance of the `i`th message offered in this tick. -/
structure TickEnv where
  now : Int
  fstat : Option StatId
  stat : Option StatId
  mqOpen : Except Errno Queue
  mqGetattr : Except Errno Int
  mqSend : Nat → Option Errno

/-- What the log records. -/
inductive Event where
  | wanted (active : Bool)
  | opened (q : Queue)
  | accepted (q : Queue) (m : Msg)
  | refused (q : Queue) (m : Msg) (e : Errno)
  | closed (q : Queue)
  deriving DecidableEq, Repr

/-- The detector's record and everything that happened so far, oldest first. -/
structure World where
  d : MotionDelivery
  log : List Event
  deriving DecidableEq, Repr

/-- `motion_delivery_close`. -/
def motionDeliveryClose (w : World) : World :=
  match w.d.mq with
  | some q => ⟨{ w.d with mq := none }, w.log ++ [.closed q]⟩
  | none => w

/-- The return value of a tick and the `errno` it leaves (0 where it sets none). -/
structure Ret where
  rc : Int
  errno : Errno
  deriving DecidableEq, Repr

/-- The label `reconnect:` at the end of `motion_delivery_tick`. -/
def reconnect (e : TickEnv) (w : World) (errno : Errno) : World × Ret :=
  let w := motionDeliveryClose { w with d := { w.d with error := errno } }
  ({ w with d := { w.d with retryAfter := e.now + 1000 } }, ⟨-1, errno⟩)

/-- The message the loop offers next. -/
def nextActive (d : MotionDelivery) : Bool :=
  if d.resetPending then false else if d.startPending then true else d.wanted

/-- The record after a message was accepted. -/
def markSent (d : MotionDelivery) (active : Bool) : MotionDelivery :=
  let d := { d with sent := active }
  if d.resetPending then { d with resetPending := false }
  else if active then { d with startPending := false }
  else d

/-- The send loop; `attempts` lists the values of `attempt` still to come. -/
def sendLoop (e : TickEnv) : List Nat → World → World × Ret
  | [], w => ({ w with d := { w.d with error := 0 } }, ⟨0, 0⟩)
  | i :: attempts, w =>
    if !motionDeliveryPending w.d then ({ w with d := { w.d with error := 0 } }, ⟨0, 0⟩)
    else
      let active := nextActive w.d
      match w.d.mq with
      | none => reconnect e w EBADF
      | some q =>
        match e.mqSend i with
        | none => sendLoop e attempts ⟨markSent w.d active, w.log ++ [.accepted q (msgOf active)]⟩
        | some errno =>
          let w := { w with log := w.log ++ [.refused q (msgOf active) errno] }
          if errno = EAGAIN ∨ errno = EINTR then
            ({ w with d := { w.d with error := errno } }, ⟨-1, errno⟩)
          else reconnect e w errno

/-- The identity check of an open queue: `fstat` of the descriptor against `stat` of the path. -/
def checkIdentity (e : TickEnv) (w : World) : World :=
  if w.d.mq.isSome ∧ e.now ≥ w.d.checkAfter then
    let w :=
      if e.fstat.isNone ∨ e.stat.isNone ∨ e.fstat ≠ e.stat then motionDeliveryClose w else w
    { w with d := { w.d with checkAfter := e.now + 1000 } }
  else w

/-- `motion_delivery_tick`. -/
def motionDeliveryTick (w : World) (e : TickEnv) : World × Ret :=
  if !w.d.enabled then (w, ⟨0, 0⟩)
  else
    let w := checkIdentity e w
    match w.d.mq with
    | some _ => sendLoop e [0, 1] w
    | none =>
      if e.now < w.d.retryAfter then (w, ⟨-1, w.d.error⟩)
      else
        match e.mqOpen with
        | .error errno => reconnect e w errno
        | .ok q =>
          let w : World := ⟨{ w.d with mq := some q }, w.log ++ [.opened q]⟩
          match e.mqGetattr with
          | .error errno => reconnect e w errno
          | .ok msgsize =>
            if msgsize < 16 then reconnect e w EMSGSIZE
            else
              let d := { w.d with
                resetPending := true
                startPending := if w.d.wanted then true else w.d.startPending
                checkAfter := e.now + 1000 }
              sendLoop e [0, 1] { w with d := d }

/-! ## 3. Runs -/

/-- One call of the detector. -/
inductive Op where
  | want (active : Bool)
  | tick (e : TickEnv)

/-- The world after one call. -/
def step (w : World) : Op → World
  | .want active => ⟨motionDeliveryWant w.d active, w.log ++ [.wanted active]⟩
  | .tick e => (motionDeliveryTick w e).1

/-- `motion_delivery_init(enabled=1)`: no queue, nothing sent. -/
def start (name : String) : World := ⟨motionDeliveryInit true name, []⟩

/-- The world after the calls `ops`, from `motion_delivery_init`. -/
def deliveryRun (name : String) (ops : List Op) : World := General.run step (start name) ops

end YiHack.Motion
