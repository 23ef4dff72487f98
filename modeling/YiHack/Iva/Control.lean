/-
  File:      YiHack/Iva/Control.lean
  Subject:   `motion_ivactl.c` (`--init`, `--set`) and the detector's side of `motion_iva_y28ga.c`: a
             mask of 240 cells in a small mapping, shared by any number of controllers.

  The word `config_generation` is lock and sequence counter in one. A controller makes it odd by a
  compare-and-swap, replaces the mask and makes it even again; `--init` first sets an odd word back
  to 0 if it finds no live recorder. The detector takes the mask where the word is even, new and has
  not changed meanwhile.

  `--status` stores `reader_ms` only and is left out, as are the detector's counts, which the word
  does not protect. A system call that fails ends the controller, like its death at that point.

  The model keeps notes beside the memory, which no branch looks at: the live controllers that have the
  lock, the masks they were through with, the words set back, the bytes of the mask altered, what
  the detector is reading and what it took over.
-/
import YiHack.General.Bytes
import YiHack.General.Seqlock

namespace YiHack.Iva

open General

/-! ## 1. The mapping -/

def MOTION_IVA_MAGIC : Word := 0x59495641#32
def MOTION_IVA_VERSION : Word := 1#32
def MOTION_IVA_CELLS : Nat := 240

/-- `sizeof(struct motion_iva_shared)`. -/
def MOTION_IVA_SIZE : Nat := 1264

/-- `struct motion_iva_settings`, byte by byte: `enabled`, then the cells. -/
abbrev Block := Fin 244 → UInt8

/-- Zeros. -/
def Block.blank : Block := fun _ => 0

/-- The bytes in the order they are copied. -/
def bytes : List (Fin 244) := List.finRange 244

def Block.enabled (b : Block) : Nat :=
  (b 0).toNat + (b 1).toNat * 2 ^ 8 + (b 2).toNat * 2 ^ 16 + (b 3).toNat * 2 ^ 24

/-- `motion_iva_valid`. -/
def Block.valid (b : Block) : Bool :=
  decide (b.enabled ≤ 1) && bytes.all fun k => decide (k.val < 4) || b k == 48 || b k == 49

/-- `settings.enabled` and the `memcpy` into `settings.cells`. -/
def Block.of (enabled : Bool) (cells : Bytes) : Block := fun k =>
  if k.val = 0 then (if enabled then 1 else 0)
  else if k.val < 4 then 0
  else cells.getD (k.val - 4) 0

/-- `memset(active.cells,'0',sizeof(active.cells))`. -/
def Block.uncover (b : Block) : Block := fun k => if k.val < 4 then b k else 48

/-- `/tmp/yi-motion-iva`: its size, if it is there, and what it holds; the detector's own variables;
    and the notes. `reading` is the generation the detector began at, with the alterations until
    then. -/
structure Shared where
  size : Option Nat
  magic : Word
  version : Word
  configGeneration : Word
  readyPid : Word
  settings : Block
  hooked : Bool
  active : Block
  activeGeneration : Word
  written : List Block
  holders : List Nat
  recoveries : Nat
  alterations : Nat
  reading : Option (Word × Nat)
  adopted : List Block

/-! ## 2. The command line -/

/-- What a controller is to write. -/
structure Request where
  init : Bool
  settings : Block

def parseEnabled (arg : Bytes) : Option Bool :=
  if arg = ascii "yes" then some true
  else if arg = ascii "no" then some false
  else none

def parseSettings (enabled cells : Bytes) : Option Block := do
  let enabled ← parseEnabled enabled
  if cells.length = MOTION_IVA_CELLS ∧ Block.valid (Block.of enabled cells) then
    some (Block.of enabled cells)
  else none

/-- The arguments after the program's name. -/
def parseArgs : List Bytes → Option Request
  | [verb, enabled, cells] =>
    if verb = ascii "--init" then (parseSettings enabled cells).map (Request.mk true)
    else if verb = ascii "--set" then (parseSettings enabled cells).map (Request.mk false)
    else none
  | _ => none

/-! ## 3. The controller -/

inductive Ending
  | usage
  | failed
  | done

/-- `__atomic_store_n(&shared->config_generation,0,..)`. -/
def Shared.setBack (s : Shared) : Shared :=
  { s with configGeneration := 0, recoveries := s.recoveries + 1 }

/-- The compare-and-swap went through for `me`. -/
def Shared.lock (me : Nat) (generation : Word) (s : Shared) : Shared :=
  { s with configGeneration := generation + 1#32, holders := me :: s.holders }

/-- The last store to the word, with `p` in place. -/
def Shared.release (me : Nat) (p : Block) (generation : Word) (s : Shared) : Shared :=
  { s with
    configGeneration := generation
    holders := s.holders.erase me
    written := p :: s.written }

/-- A byte of the mask is stored. -/
def Shared.alter (k : Fin 244) (b : UInt8) (s : Shared) : Shared :=
  { s with
    settings := Function.update s.settings k b
    alterations := if s.settings k = b then s.alterations else s.alterations + 1 }

/-- Only boot initialization without a live owner may recover an odd lock: the owner looked for is
    the recorder. -/
def recover (init : Bool) (alive : Word → Bool) (generation pid : Word) : Code Shared Unit :=
  if init && odd generation && (pid == 0 || !alive pid) then Code.store Shared.setBack
  else Code.ret ()

/-- `__atomic_compare_exchange_n` on the generation. -/
def compareExchange (me : Nat) (generation : Word) : Code Shared Bool :=
  Code.rmw (fun s => if s.configGeneration = generation then s.lock me generation else s)
    fun s => decide (s.configGeneration = generation)

/-- The loop for the lock: the generation it was free at. -/
def acquire (me : Nat) : Nat → Code Shared (Option Word)
  | 0 => Code.ret none
  | attempts + 1 => do
    let generation ← Code.load (·.configGeneration)
    if odd generation then acquire me attempts
    else do
      let locked ← compareExchange me generation
      if locked then Code.ret (some generation) else acquire me attempts

/-- `!memcmp(&shared->settings,&settings,sizeof(settings))`. -/
def memcmp (p : Block) : Code Shared Bool := do
  let copy ← gather (·.settings) bytes Block.blank
  Code.ret (bytes.all fun k => copy k == p k)

/-- `shared->settings=settings`. -/
def replace (p : Block) : Code Shared Unit := Code.stores (bytes.map fun k => Shared.alter k (p k))

/-- `identical`. -/
def compare (p : Block) (generation : Word) : Code Shared Bool :=
  if generation = 0 then Code.ret false else memcmp p

/-- The stores under the lock. -/
def update (me : Nat) (p : Block) (generation : Word) : Code Shared Unit := do
  let identical ← compare p generation
  if identical then Code.store (Shared.release me p generation)
  else do
    replace p
    Code.store (Shared.release me p (generation + 2#32))

/-- `if (init||set)`, with the mapping. -/
def write (me : Nat) (r : Request) (alive : Word → Bool) : Code Shared Ending := do
  let generation ← Code.load (·.configGeneration)
  let pid ← Code.load (·.readyPid)
  recover r.init alive generation pid
  let locked ← acquire me 50
  match locked with
  | none => Code.ret .failed
  | some generation => do
    update me r.settings generation
    Code.ret .done

/-- The marks are there. -/
def checked (me : Nat) (r : Request) (alive : Word → Bool) : Code Shared Ending := do
  let magic ← Code.load (·.magic)
  let version ← Code.load (·.version)
  if magic = MOTION_IVA_MAGIC ∧ version = MOTION_IVA_VERSION then write me r alive
  else Code.ret .failed

/-- Behind `mmap`: `--init` marks a mapping without marks. -/
def mapped (me : Nat) (r : Request) (alive : Word → Bool) : Code Shared Ending := do
  let magic ← Code.load (·.magic)
  if r.init ∧ magic = 0 then do
    Code.store fun s => { s with version := MOTION_IVA_VERSION }
    Code.store fun s => { s with magic := MOTION_IVA_MAGIC }
    checked me r alive
  else checked me r alive

/-- `ftruncate`: a file of the size asked for is left as it is, an empty one is filled with zeros. -/
def truncate (s : Shared) : Shared :=
  if s.size = some MOTION_IVA_SIZE then s
  else
    { s with
      size := some MOTION_IVA_SIZE
      magic := 0
      version := 0
      configGeneration := 0
      readyPid := 0
      settings := Block.blank }

/-- `fstat` and `ftruncate`. -/
def resize (me : Nat) (r : Request) (alive : Word → Bool) : Code Shared Ending := do
  let size ← Code.load (·.size)
  if size = some MOTION_IVA_SIZE then mapped me r alive
  else if r.init ∧ size = some 0 then do
    Code.store truncate
    mapped me r alive
  else Code.ret .failed

/-- `open`: `--init` creates the file. -/
def openFile (me : Nat) (r : Request) (alive : Word → Bool) : Code Shared Ending := do
  let present ← Code.rmw
    (fun s => if r.init then { s with size := some (s.size.getD 0) } else s) (·.size.isSome)
  if present || r.init then resize me r alive
  else Code.ret .failed

/-- `main` of `motion_ivactl.c`; `alive` is what `kill(pid,0)` finds. -/
def motionIvactl (me : Nat) (argv : List Bytes) (alive : Word → Bool) : Code Shared Ending :=
  match parseArgs argv with
  | none => Code.ret .usage
  | some r => openFile me r alive

/-! ## 4. The detector -/

/-- `!first || (first&1) || first==active_generation`. -/
def Shared.nothingNew (s : Shared) : Bool :=
  s.configGeneration == 0 || odd s.configGeneration || s.configGeneration == s.activeGeneration

/-- The first load of an attempt. -/
def Shared.begin (s : Shared) : Shared :=
  { s with reading := if s.nothingNew then none else some (s.configGeneration, s.alterations) }

/-- `active=candidate;active_generation=first`. -/
def Shared.adopt (candidate : Block) (first : Word) (s : Shared) : Shared :=
  { s with
    active := candidate
    activeGeneration := first
    adopted := candidate :: s.adopted }

/-- The loop of `motion_iva_filter`, with the attempts left. -/
def attempt : Nat → Code Shared Unit
  | 0 => Code.ret ()
  | attempts + 1 => do
    let first ← Code.rmw Shared.begin fun s => (s.configGeneration, s.nothingNew)
    if first.2 then Code.ret ()
    else do
      let candidate ← gather (·.settings) bytes Block.blank
      let again ← Code.rmw (fun s => { s with reading := none }) (·.configGeneration)
      if first.1 ≠ again then attempt attempts
      else if Block.valid candidate then Code.store (Shared.adopt candidate first.1)
      else Code.ret ()

/-- `motion_iva_filter`, which the detector only reaches through the hook. -/
def motionIvaFilter : Code Shared Unit := do
  let hooked ← Code.load (·.hooked)
  if hooked then attempt 2 else Code.ret ()

/-- The constructor in a new recorder process: `suits` where its program is the audited one, `patched`
    where the hook could be written. -/
def ivaInitialize (pid : Word) (suits patched : Bool) : Code Shared Unit := do
  Code.store fun s =>
    { s with hooked := false, active := Block.blank, activeGeneration := 0, reading := none }
  let size ← Code.load (·.size)
  let magic ← Code.load (·.magic)
  let version ← Code.load (·.version)
  if suits ∧ size = some MOTION_IVA_SIZE ∧ magic = MOTION_IVA_MAGIC ∧
      version = MOTION_IVA_VERSION then do
    Code.store fun s => { s with readyPid := 0 }
    Code.store fun s => { s with active := Block.uncover s.active }
    if patched then do
      Code.store fun s => { s with hooked := true }
      Code.store fun s => { s with readyPid := pid }
    else Code.ret ()
  else Code.ret ()

/-! ## 5. Side by side -/

inductive Call
  | control (argv : List Bytes) (alive : Word → Bool)
  | recorder (pid : Word) (suits patched : Bool)
  | filter

/-- The recorder in the slot `none`, controllers in the others. A controller that is killed has the
    lock no more, though the generation stays odd; with the recorder its variables go. -/
def system : System (Option Nat) Call Shared where
  program
    | none, .recorder pid suits patched => some (ivaInitialize pid suits patched)
    | none, .filter => some motionIvaFilter
    | some me, .control argv alive => some (motionIvactl me argv alive).void
    | _, _ => none
  bury
    | none, s => { s with hooked := false, reading := none }
    | some me, s => { s with holders := s.holders.erase me }

/-- The word has never been written; what is beyond the end of the file is zero, and nothing is
    noted yet. -/
structure Fresh (s : Shared) : Prop where
  generation : s.configGeneration = 0
  unsized : s.size ≠ some MOTION_IVA_SIZE → s.settings = Block.blank
  holders : s.holders = []
  reading : s.reading = none
  adopted : s.adopted = []

/-- **The condition on a step**: a word is set back only where no live controller has the lock, and
    is not brought back to the one the detector began at once the mask has been altered. -/
def Heedful (s s' : Shared) : Prop :=
  (s'.recoveries ≠ s.recoveries → s.holders = []) ∧
    ∀ r ∈ s.reading, r.2 ≠ s.alterations → s'.configGeneration ≠ s.configGeneration →
      s'.configGeneration ≠ r.1

instance (s s' : Shared) : Decidable (Heedful s s') := inferInstanceAs (Decidable (_ ∧ _))

end YiHack.Iva
