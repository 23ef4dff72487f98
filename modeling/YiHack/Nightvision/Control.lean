/-
  File:      YiHack/Nightvision/Control.lean
  Subject:   `nightvisionctl.c` and `read_settings` of `nightvision.c`: a mode and a threshold in a
             small mapping, shared by any number of controllers with the camera's own loop.

  The word `generation` is lock and sequence counter in one: a controller makes it odd by a
  compare-and-swap, stores the pair and makes it even again. The reader takes the pair where the
  word is even and has not changed meanwhile.

  The model keeps notes beside the memory, which no branch looks at: the pairs asked for, the
  controller that has the lock, the count behind the 32-bit word, the updates completed, and what
  the reader took over with the updates completed when it began and when it was through.
-/
import YiHack.General.Bytes
import YiHack.General.Seqlock

namespace YiHack.Nightvision

open General

/-! ## 1. The mapping -/

def NV_MAGIC : Word := 0x59494e56#32
def NV_VERSION : Word := 1#32

/-- `enum nv_mode`. -/
def NV_AUTO : Word := 0#32
def NV_ON : Word := 1#32
def NV_OFF : Word := 2#32

/-- `struct nv_control`. -/
structure NvControl where
  magic : Word
  version : Word
  generation : Word
  mode : Word
  threshold : Word
  readyPid : Word
  error : Word
  heartbeat : Word
  appliedGeneration : Word
  lightLevel : Word
  effectiveLevel : Word
  state : Word
  deriving DecidableEq

/-- A mode and a threshold. -/
structure Settings where
  mode : Word
  threshold : Word
  deriving DecidableEq

/-- A pair the reader made active, the generation it had, and the updates completed when the
    attempt began and when it was through. -/
structure Adoption where
  settings : Settings
  generation : Word
  began : Nat
  ended : Nat
  deriving DecidableEq

/-- `/tmp/yi-nightvision`: whether it is there, whether it has its size, what it holds; and the
    notes. The newest of `adopted` is what `active_mode` and `active_threshold` hold. -/
structure Night where
  present : Bool
  sized : Bool
  control : NvControl
  requested : List Settings
  owner : Option Nat
  count : Nat
  updates : Nat
  adopted : List Adoption

/-- The pair as it stands in the mapping. -/
def Night.settings (s : Night) : Settings := ⟨s.control.mode, s.control.threshold⟩

/-! ## 2. The command line -/

inductive Command
  | set (p : Settings)
  | init (p : Settings)
  | status
  deriving DecidableEq

def Command.initializing : Command → Bool
  | .init _ => true
  | _ => false

/-- The pair to write, if any. -/
def Command.writing : Command → Option Settings
  | .set p => some p
  | .init p => some p
  | .status => none

def isSpace (b : UInt8) : Bool := b == 32 || (9 ≤ b && b ≤ 13)

def isDigit (b : UInt8) : Bool := 48 ≤ b && b ≤ 57

/-- `strtol` in base 10: the value and what follows it. A value out of range is out of every range
    asked for here. -/
def strtol (s : Bytes) : Int × Bytes :=
  let t := s.dropWhile isSpace
  let digits := if t.head? = some 45 ∨ t.head? = some 43 then t.tail else t
  let n := (digits.takeWhile isDigit).foldl (fun (n : Nat) b => n * 10 + (b.toNat - 48)) 0
  if (digits.takeWhile isDigit).isEmpty then (0, s)
  else (if t.head? = some 45 then -(n : Int) else n, digits.dropWhile isDigit)

def parseMode (arg : Bytes) : Option Word :=
  if arg = ascii "on" then some NV_ON
  else if arg = ascii "off" then some NV_OFF
  else if arg = ascii "auto" then some NV_AUTO
  else none

def parseThreshold (arg : Bytes) : Option Word :=
  let (value, end_) := strtol arg
  if arg = [] ∨ end_ ≠ [] ∨ value < 1 ∨ value > 100 then none
  else some (BitVec.ofInt 32 value)

def parseSettings (mode threshold : Bytes) : Option Settings := do
  let mode ← parseMode mode
  let threshold ← parseThreshold threshold
  return ⟨mode, threshold⟩

/-- The arguments after the program's name. -/
def parseArgs : List Bytes → Option Command
  | [verb, mode, threshold] =>
    if verb = ascii "--set" then (parseSettings mode threshold).map .set
    else if verb = ascii "--init" then (parseSettings mode threshold).map .init
    else none
  | [verb] => if verb = ascii "--status" then some .status else none
  | _ => none

/-! ## 3. The controller -/

/-- A store to a field of the mapping. -/
def put (f : NvControl → NvControl) (s : Night) : Night := { s with control := f s.control }

/-- `memset(c, 0, sizeof(*c))`. -/
def clear : List (Night → Night) :=
  [put fun c => { c with magic := 0 }, put fun c => { c with version := 0 },
    fun s => { s with control := { s.control with generation := 0 }, count := 0 },
    put fun c => { c with mode := 0 }, put fun c => { c with threshold := 0 },
    put fun c => { c with readyPid := 0 }, put fun c => { c with error := 0 },
    put fun c => { c with heartbeat := 0 }, put fun c => { c with appliedGeneration := 0 },
    put fun c => { c with lightLevel := 0 }, put fun c => { c with effectiveLevel := 0 },
    put fun c => { c with state := 0 }]

/-- The stores behind `memset`. -/
def defaults : List (Night → Night) :=
  [put fun c => { c with version := NV_VERSION }, put fun c => { c with threshold := 50 },
    put fun c => { c with effectiveLevel := -1 }, put fun c => { c with lightLevel := -1 },
    put fun c => { c with state := -1 }, put fun c => { c with magic := NV_MAGIC }]

/-- The compare-and-swap went through for `me`. -/
def Night.lock (me : Nat) (generation : Word) (s : Night) : Night :=
  { s with
    control := { s.control with generation := generation + 1#32 }
    owner := some me
    count := s.count + 1 }

/-- The store of `generation + 2`. -/
def Night.release (generation : Word) (s : Night) : Night :=
  { s with
    control := { s.control with generation := generation + 2#32 }
    owner := none
    count := s.count + 1
    updates := s.updates + 1 }

/-- `__atomic_compare_exchange_n` on the generation. -/
def compareExchange (me : Nat) (generation : Word) : Code Night Bool :=
  Code.rmw (fun s => if s.control.generation = generation then s.lock me generation else s)
    fun s => decide (s.control.generation = generation)

/-- The loop for the lock: the generation it was free at. -/
def acquire (me : Nat) : Nat → Code Night (Option Word)
  | 0 => Code.ret none
  | attempts + 1 => do
    let generation ← Code.load (·.control.generation)
    if odd generation then acquire me attempts
    else do
      let locked ← compareExchange me generation
      if locked then Code.ret (some generation) else acquire me attempts

/-- The stores under the lock. -/
def update (p : Settings) (generation : Word) : Code Night Unit := do
  Code.store (put fun c => { c with mode := p.mode })
  Code.store (put fun c => { c with threshold := p.threshold })
  Code.store (·.release generation)

/-- The loop for the report: generation and pair. -/
def snapshot : Nat → Code Night (Option (Word × Settings))
  | 0 => Code.ret none
  | attempts + 1 => do
    let generation ← Code.load (·.control.generation)
    if odd generation then snapshot attempts
    else do
      let mode ← Code.load (·.control.mode)
      let threshold ← Code.load (·.control.threshold)
      let again ← Code.load (·.control.generation)
      if generation = again then Code.ret (some (generation, ⟨mode, threshold⟩))
      else snapshot attempts

/-- What the process learns elsewhere: which processes live (`kill(pid, 0)`), and `seconds()`. -/
structure Outside where
  alive : Word → Bool
  seconds : Word

/-- What the controller prints. -/
structure Report where
  supported : Bool
  mode : String
  threshold : Word
  state : String
  applied : Bool
  lightLevel : Word
  effectiveLevel : Word
  pid : Word

/-- The end of the controller: its exit status and what it printed; without a mapping it prints
    that the control is unavailable. -/
inductive Ending
  | usage
  | failed
  | unavailable (exit : Nat)
  | printed (r : Report) (exit : Nat)

def modeName (mode : Word) : String :=
  if mode = NV_ON then "on" else if mode = NV_OFF then "off" else "auto"

def stateName (c : NvControl) (supported : Bool) (age : Word) : String :=
  if !supported || 5#32 ≤ age then "unavailable"
  else if c.state = 1 then "night"
  else if c.state = 0 then "day"
  else "unknown"

/-- From `ready_pid` to the `printf`; `got` is the snapshot. -/
def report (cmd : Command) (out : Outside) (got : Word × Settings) : Code Night Ending := do
  let pid ← Code.load (·.control.readyPid)
  let heartbeat ← Code.load (·.control.heartbeat)
  let error ← Code.load (·.control.error)
  let applied ← Code.load (·.control.appliedGeneration)
  let c ← Code.load (·.control)
  let age := out.seconds - heartbeat
  let supported := pid != 0 && error == 0 && out.alive pid
  let reached := got.2.mode = NV_AUTO ∨ (got.2.mode = NV_ON ∧ c.state = 1) ∨
    (got.2.mode = NV_OFF ∧ c.state = 0)
  Code.ret (.printed
    { supported
      mode := modeName got.2.mode
      threshold := got.2.threshold
      state := stateName c supported age
      applied := supported && decide (age < 5#32) && applied == got.1 && decide reached
      lightLevel := c.lightLevel
      effectiveLevel := c.effectiveLevel
      pid }
    (match cmd with
      | .set _ => if supported then 0 else 1
      | _ => 0))

/-- The snapshot and the report. -/
def conclude (cmd : Command) (out : Outside) : Code Night Ending := do
  let got ← snapshot 50
  match got with
  | none => Code.ret .failed
  | some got => report cmd out got

theorem snapshot_looks (attempts : Nat) : (snapshot attempts).Looks := by
  induction attempts with
  | zero => trivial
  | succ attempts ih =>
    exact Code.looks_load.bind fun _ => .ite ih (Code.looks_load.bind fun _ =>
      Code.looks_load.bind fun _ => Code.looks_load.bind fun _ => .ite trivial ih)

theorem conclude_looks (cmd : Command) (out : Outside) : (conclude cmd out).Looks := by
  refine (snapshot_looks 50).bind fun got => ?_
  cases got with
  | none => trivial
  | some got =>
    exact Code.looks_load.bind fun _ => Code.looks_load.bind fun _ => Code.looks_load.bind fun _ =>
      Code.looks_load.bind fun _ => Code.looks_load.bind fun _ => trivial

/-- `if (writing)`: the lock and the stores. -/
def write (me : Nat) (cmd : Command) (out : Outside) : Code Night Ending :=
  match cmd.writing with
  | none => conclude cmd out
  | some p => do
    let locked ← acquire me 50
    match locked with
    | none => Code.ret .failed
    | some generation => do
      update p generation
      conclude cmd out

/-- Whether the mapping is valid: the two loads behind `mmap`. -/
def valid : Code Night Bool := do
  let magic ← Code.load (·.control.magic)
  if magic ≠ NV_MAGIC then Code.ret false
  else do
    let version ← Code.load (·.control.version)
    Code.ret (decide (version = NV_VERSION))

/-- With the mapping. -/
def mapped (me : Nat) (cmd : Command) (out : Outside) : Code Night Ending := do
  let ok ← valid
  if ok then write me cmd out
  else if cmd.initializing then do
    Code.stores clear
    Code.stores defaults
    write me cmd out
  else Code.ret .failed

/-- `ftruncate` on a file that has its size, or nothing in it. -/
def truncate (s : Night) : Night :=
  if s.sized then s
  else { s with sized := true, control := ⟨0, 0, 0, 0, 0, 0, 0, 0, 0, 0, 0, 0⟩, count := 0 }

/-- `fstat` and `ftruncate`. -/
def resize (me : Nat) (cmd : Command) (out : Outside) : Code Night Ending := do
  let sized ← Code.load (·.sized)
  if sized then mapped me cmd out
  else if cmd.initializing then do
    Code.store truncate
    mapped me cmd out
  else Code.ret .failed

/-- `open`. -/
def openFile (me : Nat) (cmd : Command) (out : Outside) : Code Night Ending := do
  let present ← Code.rmw (fun s => if cmd.initializing then { s with present := true } else s)
    (·.present)
  if present || cmd.initializing then resize me cmd out
  else Code.ret (.unavailable (if cmd.writing.isSome then 1 else 0))

/-- A controller with a command, from its call on. -/
def control (me : Nat) (cmd : Command) (out : Outside) : Code Night Ending := do
  Code.store fun s => { s with requested := cmd.writing.toList ++ s.requested }
  openFile me cmd out

/-- `main`. -/
def nightvisionctl (me : Nat) (argv : List Bytes) (out : Outside) : Code Night Ending :=
  match parseArgs argv with
  | none => Code.ret .usage
  | some cmd => control me cmd out

/-! ## 4. The reader -/

/-- The values `read_settings` refuses. -/
def refuses (mode threshold : Word) : Bool :=
  decide (NV_OFF < mode) || decide (threshold < 1#32) || decide (100#32 < threshold)

/-- `read_settings`, with the attempts left. -/
def readSettings : Nat → Code Night Unit
  | 0 => Code.ret ()
  | attempts + 1 => do
    let first ← Code.load fun s => (s.control.generation, s.updates)
    if odd first.1 then readSettings attempts
    else do
      let mode ← Code.load (·.control.mode)
      let threshold ← Code.load (·.control.threshold)
      let last ← Code.load fun s => (s.control.generation, s.updates)
      if first.1 ≠ last.1 ∨ refuses mode threshold then readSettings attempts
      else Code.store fun s =>
        { s with adopted := ⟨⟨mode, threshold⟩, first.1, first.2, last.2⟩ :: s.adopted }

/-! ## 5. Side by side -/

inductive Call
  | control (argv : List Bytes) (out : Outside)
  | readSettings

/-- The camera's loop in the slot `none`, controllers in the others. Where a controller is killed
    nobody has the lock any more, though the generation stays odd. -/
def system : System (Option Nat) Call Night where
  program
    | none, .readSettings => some (readSettings 4)
    | some me, .control argv out => some (nightvisionctl me argv out).void
    | _, _ => none
  bury i s := if s.owner = i then { s with owner := none } else s

/-- A control block that is initialised and holds the default pair; nothing is noted yet. -/
structure Initialised (s : Night) : Prop where
  present : s.present = true
  sized : s.sized = true
  magic : s.control.magic = NV_MAGIC
  version : s.control.version = NV_VERSION
  settings : s.settings = ⟨NV_AUTO, 50#32⟩
  requested : s.requested = []
  owner : s.owner = none
  count : s.count = s.control.generation.toNat
  updates : s.updates = 0
  adopted : s.adopted = []

end YiHack.Nightvision
