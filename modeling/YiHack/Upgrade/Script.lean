/-
  File:      YiHack/Upgrade/Script.lean
  Subject:   `fw_upgrade.sh`: the request `get=upgrade`, once its trap is set.

  Files are where the script keeps them; an archive and a directory tree are what the script does
  with them. What it asks of the archive's encoding, of free space and of other programs is up to
  the surroundings (`Prog.check`). Two fields of the variables are not the script's: `phase` says
  how far it has come, `held` remembers the disk it took the lock on.
-/
import YiHack.General.Shell
import YiHack.General.Bytes
import Mathlib.Logic.Function.Basic

namespace YiHack.Upgrade

open General

/-! ## 1. Files -/

/-- The files of a directory tree, each with its path in it. -/
abbrev Tree := List (Bytes × Bytes)

/-- Files copied over a tree replace those of the same path. -/
def overlay (new old : Tree) : Tree := new ++ old.filter fun e => new.lookup e.1 = none

def underEtc (path : Bytes) : Bool := (ascii "etc/").isPrefixOf path

/-- `etc/*.tar.gz`. -/
def etcArchive (path : Bytes) : Bool :=
  underEtc path && (ascii ".tar.gz").isSuffixOf path && !((path.drop 4).contains 47)

/-- `mv` of a directory: to the new name, or into the directory that has it. -/
def mvTree (base : Bytes) (src : Tree) : Option Tree → Tree
  | none => src
  | some dst => dst ++ src.map fun e => (base ++ [47] ++ e.1, e.2)

/-- An archive, and what is unpacked of it: `yi-hack`, `Factory/local_init.sh` and
    `Factory/boot-vmalloc.bin`. -/
structure Payload where
  tree : Tree
  init : Option Bytes
  boot : Option Bytes

/-- A rollback copy is named by the version it is of and the number of its slot; the base names are
    slot 0. -/
abbrev Name := Bytes × Nat

structure Disk where
  sdRoot : Bool
  backupRoot : Bool
  localFw : Option Payload
  tree : Option Tree
  init : Option Bytes
  rollbackTree : Name → Option Tree
  rollbackInit : Name → Option Bytes
  failedTree : Option Tree
  stage : Option Payload
  initNew : Option Bytes
  listTmp : Bool
  manifest : Bool
  lock : Option (Option Nat)
  factory : Option Tree
  retiredFactory : Bytes → Option Tree
  proc : Nat → Bool

/-- How far the script has come: the old tree is in its place, it is not, the new `init.sh` is
    active, `on_exit` rolls back, it has rolled back. -/
inductive Phase
  | before
  | moving
  | active
  | rolling
  | settled
  deriving DecidableEq

structure Vars where
  pid : Nat
  modelSuffix : Bytes
  fwVersion : Bytes
  treeSlot : Nat
  initSlot : Nat
  oldMoved : Bool
  newMoved : Bool
  initInstalled : Bool
  trapped : Bool
  printed : List Bytes
  phase : Phase
  held : Option Disk

/-- What `ROLLBACK_TREE` names. -/
def Vars.treeName (v : Vars) : Name := (v.fwVersion, v.treeSlot)

/-- What `ROLLBACK_INIT` names. -/
def Vars.initName (v : Vars) : Name := (v.fwVersion, v.initSlot)

structure World where
  disk : Disk
  vars : Vars

/-- A command on the files. -/
def onDisk (f : Disk → Option Disk) : Prog World Bool :=
  Prog.command fun w => (f w.disk).map fun d => { w with disk := d }

/-- An assignment. -/
def onVars (f : Vars → Vars) : Prog World Unit :=
  Prog.assign fun w => { w with vars := f w.vars }

/-- A builtin that changes nothing. -/
def noop : Prog World Unit := Prog.assign id

/-- `-s`. -/
def hasSize (content : Option Bytes) : Bool := content.any fun c => !c.isEmpty

/-! ## 2. rollback, cleanup, on_exit, die -/

/-- The name of a rollback tree. -/
def rollbackTreeName (v : Vars) : Bytes :=
  ascii "yi-hack.pre-web-" ++ v.fwVersion ++
    if v.treeSlot = 0 then [] else ascii "." ++ ascii (toString v.treeSlot)

/-- The part of `rollback` that is about `init.sh`. -/
def restoreInit : Prog World Unit := do
  if ← Prog.test fun w => w.vars.initInstalled then
    if ← Prog.test fun w => hasSize (w.disk.rollbackInit w.vars.initName) then
      let _ ← Prog.command fun w => (w.disk.rollbackInit w.vars.initName).map fun c =>
        { w with disk := { w.disk with init := some c } }
      let _ ← Prog.check

/-- The part about the new tree. -/
def setAside : Prog World Unit := do
  if ← Prog.test fun w => w.vars.newMoved then
    if ← Prog.test fun w => w.disk.tree.isSome then
      let _ ← onDisk fun d => some { d with failedTree := none }
      let _ ← onDisk fun d => d.tree.map fun t =>
        { d with tree := none, failedTree := some (mvTree (ascii "yi-hack") t d.failedTree) }

/-- The part about the old tree. -/
def restoreTree : Prog World Unit := do
  if ← Prog.test fun w => w.vars.oldMoved then
    if ← Prog.test fun w => (w.disk.rollbackTree w.vars.treeName).isSome then
      let _ ← Prog.command fun w => (w.disk.rollbackTree w.vars.treeName).map fun t =>
        { w with disk := { w.disk with
          tree := some (mvTree (rollbackTreeName w.vars) t w.disk.tree)
          rollbackTree := Function.update w.disk.rollbackTree w.vars.treeName none } }

def rollback : Prog World Unit := do
  noop
  restoreInit
  setAside
  restoreTree
  let _ ← Prog.command fun w => some { w with disk := { w.disk with
    initNew := none
    rollbackInit := Function.update w.disk.rollbackInit w.vars.initName none } }
  -- sync
  onVars fun v => { v with phase := .settled }

def cleanup : Prog World Unit := do
  let _ ← onDisk fun d => some { d with listTmp := false, manifest := false }
  let _ ← onDisk fun d => some { d with lock := d.lock.map fun _ => none }
  -- rmdir "$LOCKDIR"
  let _ ← Prog.command fun w => match w.disk.lock with
    | some none => some { disk := { w.disk with lock := none }, vars := { w.vars with held := none } }
    | _ => none

/-- `on_exit`, with the status it finds in `$?`. -/
def onExit (rc : Bool) : Prog World Unit := do
  noop
  onVars fun v => { v with trapped := false, phase := if rc then v.phase else .rolling }
  if ← Prog.test fun _ => !rc then
    rollback
  cleanup
  Prog.exit rc

def trap : Trap World where
  on w := w.vars.trapped
  handler := onExit

def die (message : String) : Prog World Unit := do
  let _ ← Prog.command fun w => some { w with vars := { w.vars with
    printed := w.vars.printed ++ [ascii "Firmware upgrade failed: " ++ ascii message ++ [10]] } }
  Prog.exit false

/-- `... || die`. -/
def orDie (p : Prog World Bool) (message : String) : Prog World Unit := do
  if !(← p) then die message

/-! ## 3. upgrade -/

/-- `mkdir "$LOCKDIR"`. -/
def mkdirLock : Prog World Bool := Prog.command fun w =>
  match w.disk.lock with
  | none => some {
      disk := { w.disk with lock := some none }
      vars := { w.vars with held := some w.disk } }
  | some _ => none

/-- The holder of the lock lives. -/
def refuseAlive (oldPid : Nat) : Prog World Unit := do
  if ← Prog.test fun _ => oldPid > 1 then
    if ← Prog.test fun w => w.disk.proc oldPid then
      die "another firmware upgrade is already running"

/-- The lock is there already: it is stale, or this is the end. A pid that is no number counts
    as 0. -/
def takeOver : Prog World Unit := do
  let oldPid ← Prog.capture (fun w => (w.disk.lock.bind id).isSome)
    fun w => ((w.disk.lock.bind id).getD 0)
  refuseAlive oldPid
  let _ ← onDisk fun d => some { d with lock := none }
  orDie mkdirLock "unable to acquire upgrade lock"

def lockOrTakeOver : Prog World Unit := do
  if !(← mkdirLock) then takeOver

/-- `echo $$ > "$LOCKDIR/pid"`. -/
def writePid : Prog World Bool := Prog.command fun w => w.disk.lock.map fun _ =>
  { w with disk := { w.disk with lock := some (some w.vars.pid) } }

def acquire : Prog World Unit := do
  lockOrTakeOver
  let _ ← writePid

/-- `[ -e "$ROLLBACK_TREE" ] || [ -e "$ROLLBACK_INIT" ]`. -/
def occupied : Prog World Bool := do
  if ← Prog.test fun w => (w.disk.rollbackTree w.vars.treeName).isSome then
    return true
  Prog.test fun w => (w.disk.rollbackInit w.vars.initName).isSome

/-- The loop over the slots, with how many are left: from the last one `die` is not passed. -/
def findSlot : Nat → Prog World Unit
  | 0 => pure ()
  | n + 1 => do
    if ← occupied then
      let slot := 100 - n
      noop
      orDie (Prog.test fun _ => slot ≤ 99) "no unused rollback backup slot is available"
      onVars fun v => { v with treeSlot := slot }
      onVars fun v => { v with initSlot := slot }
      findSlot n

/-- A file of the archive, or of the staged tree, without line ends. -/
def metadata (tree : Option Tree) (path : String) : Bytes :=
  (((tree.getD []).lookup (ascii path)).getD []).filter fun b => b ≠ 13 ∧ b ≠ 10

def archiveTree (w : World) : Option Tree := w.disk.localFw.map (·.tree)

def stagedTree (w : World) : Option Tree := w.disk.stage.map (·.tree)

/-- `grep -qx` for a file of `yi-hack` in the list of the archive. -/
def listed (path : String) : Prog World Bool :=
  Prog.test fun w => (((archiveTree w).getD []).lookup (ascii path)).isSome

/-- What a y623 archive must have besides. -/
def checkBootImage (archiveModel : Bytes) : Prog World Unit := do
  if ← Prog.test fun _ => archiveModel = ascii "y623" then
    orDie (Prog.test fun w => (w.disk.localFw.bind (·.boot)).isSome)
      "y623 firmware is missing the patched boot image"
    orDie Prog.check "y623 patched boot image hash mismatch"

/-- The archive, its list and its metadata; gives its version. -/
def checkArchive : Prog World Bytes := do
  orDie Prog.check "uploaded firmware is not a valid gzip archive"
  orDie (onDisk fun d => some { d with listTmp := true }) "uploaded firmware is not a valid tar archive"
  orDie Prog.check "firmware archive contains links or special files"
  orDie Prog.check "firmware archive contains unsafe or unexpected paths"
  orDie (listed "model_suffix") "firmware is missing model metadata"
  orDie (listed "version") "firmware is missing version metadata"
  orDie (Prog.test fun w => (w.disk.localFw.bind (·.init)).isSome)
    "firmware is missing the local-only bootstrap"
  let archiveModel ← Prog.capture (fun _ => true) fun w => metadata (archiveTree w) "model_suffix"
  let archiveVersion ← Prog.capture (fun _ => true) fun w => metadata (archiveTree w) "version"
  orDie Prog.check "firmware version metadata is invalid"
  orDie (Prog.test fun w => archiveModel = w.vars.modelSuffix)
    "firmware model does not match this camera"
  checkBootImage archiveModel
  return archiveVersion

/-- Unpacking, and what is asked of the unpacked files. -/
def unpack (archiveVersion : Bytes) : Prog World Unit := do
  let _ ← onDisk fun d => some { d with stage := none, failedTree := none }
  orDie (onDisk fun d => some { d with stage := some (d.stage.getD ⟨[], none, none⟩) })
    "unable to create upgrade staging directory"
  orDie (onDisk fun d => match d.localFw, d.stage with
    | some fw, some old => some { d with stage := some {
        tree := overlay fw.tree old.tree
        init := fw.init.or old.init
        boot := fw.boot.or old.boot } }
    | _, _ => none) "firmware extraction failed"
  orDie (Prog.test fun w => hasSize (((stagedTree w).getD []).lookup (ascii "model_suffix")))
    "staged payload is incomplete"
  orDie (Prog.test fun w => hasSize (w.disk.stage.bind (·.init))) "staged bootstrap is missing"
  orDie Prog.check "staged bootstrap has invalid syntax"
  orDie (Prog.test fun w => metadata (stagedTree w) "model_suffix" = w.vars.modelSuffix)
    "staged model mismatch"
  orDie (Prog.test fun w => metadata (stagedTree w) "version" = archiveVersion)
    "staged version mismatch"
  orDie (onDisk fun d => some { d with manifest := true }) "unable to extract bootstrap manifest"
  orDie Prog.check "bootstrap manifest is invalid"
  orDie Prog.check "bootstrap manifest is incomplete"
  orDie Prog.check "staged payload does not match bootstrap manifest"
  if ← Prog.test fun w => w.vars.modelSuffix = ascii "y623" then
    orDie Prog.check "staged firmware is missing the y623 kernel installer"
    orDie (Prog.test fun w => hasSize (w.disk.stage.bind (·.boot)))
      "staged y623 patched boot image is missing"
    orDie Prog.check "current y623 boot image is not supported"

/-- `f` on the staged tree. -/
def stagedWith (f : Disk → Tree → Tree) (d : Disk) : Option Disk :=
  d.stage.map fun stage => { d with stage := some { stage with tree := f d stage.tree } }

def onStaged (f : Disk → Tree → Tree) : Prog World Bool := onDisk (stagedWith f)

def keepConfig : Prog World Unit := do
  if ← Prog.test fun w => (w.disk.tree.getD []).any fun e => underEtc e.1 then
    orDie (onStaged fun d t => overlay ((d.tree.getD []).filter fun e => underEtc e.1) t)
      "unable to preserve current configuration"

/-- The configuration into the new tree, the rollback copy, and the new `init.sh` next to the old. -/
def prepare : Prog World Unit := do
  orDie (onStaged fun _ t => t) "unable to prepare staged configuration"
  keepConfig
  let _ ← onStaged fun _ t => t.filter fun e => !etcArchive e.1
  orDie (Prog.command fun w => w.disk.init.map fun c => { w with disk := { w.disk with
      rollbackInit := Function.update w.disk.rollbackInit w.vars.initName (some c) } })
    "unable to preserve current bootstrap"
  orDie (Prog.test fun w => hasSize (w.disk.rollbackInit w.vars.initName))
    "bootstrap rollback copy is empty"
  -- NEW_INIT_MD5
  let _ ← Prog.check
  let _ ← onDisk fun d => some { d with initNew := none }
  orDie (onDisk fun d => (d.stage.bind (·.init)).map fun c => { d with initNew := some c })
    "unable to stage new bootstrap"
  orDie Prog.check "unable to chmod new bootstrap"
  orDie Prog.check "new bootstrap has invalid syntax"
  orDie Prog.check "new bootstrap hash mismatch"
  -- sync
  let _ ← Prog.check

/-- The new tree and the new `init.sh` into their places. -/
def activate (archiveVersion : Bytes) : Prog World Unit := do
  orDie (Prog.command fun w => w.disk.tree.map fun t => {
      disk := { w.disk with
        tree := none
        rollbackTree := Function.update w.disk.rollbackTree w.vars.treeName
          (some (mvTree (ascii "yi-hack") t (w.disk.rollbackTree w.vars.treeName))) }
      vars := { w.vars with phase := .moving } }) "unable to preserve current yi-hack tree"
  onVars fun v => { v with oldMoved := true }
  orDie (onDisk fun d => d.stage.map fun stage => { d with
      tree := some (mvTree (ascii "yi-hack") stage.tree d.tree)
      stage := some { stage with tree := [] } }) "unable to activate new yi-hack tree"
  onVars fun v => { v with newMoved := true }
  orDie (Prog.test fun w => metadata w.disk.tree "model_suffix" = w.vars.modelSuffix)
    "active model mismatch"
  orDie (Prog.test fun w => metadata w.disk.tree "version" = archiveVersion)
    "active version mismatch"
  orDie Prog.check "active payload does not match bootstrap manifest"
  orDie (Prog.command fun w => w.disk.initNew.map fun c => {
      disk := { w.disk with init := some c, initNew := none }
      vars := { w.vars with phase := .active } }) "unable to activate new bootstrap"
  onVars fun v => { v with initInstalled := true }
  orDie Prog.check "active bootstrap hash mismatch"
  orDie Prog.check "active bootstrap has invalid syntax"

/-- A `Factory` from before the upgrade is stale. -/
def retireFactory (archiveVersion : Bytes) : Prog World Unit := do
  if ← Prog.test fun w => w.disk.factory.isSome then
    noop
    orDie (onDisk fun d => some { d with
      retiredFactory := Function.update d.retiredFactory archiveVersion none })
      "unable to clear previous retired Factory tree"
    orDie (onDisk fun d => d.factory.map fun t => { d with
        factory := none
        retiredFactory := Function.update d.retiredFactory archiveVersion
          (some (mvTree (ascii "Factory") t (d.retiredFactory archiveVersion))) })
      "unable to retire stale Factory trigger"

def patchKernel : Prog World Unit := do
  if ← Prog.test fun w => w.vars.modelSuffix = ascii "y623" then
    orDie Prog.check "new firmware is missing the y623 kernel installer"
    orDie (Prog.test fun w => hasSize (w.disk.stage.bind (·.boot)))
      "staged y623 patched boot image is missing"
    orDie Prog.check "y623 VE kernel patch failed"

/-- What follows the activation, up to the reboot. -/
def finish (archiveVersion : Bytes) : Prog World Unit := do
  retireFactory archiveVersion
  patchKernel
  let _ ← onDisk fun d => some { d with localFw := none }
  let _ ← onDisk fun d => some { d with stage := none }
  let _ ← Prog.check
  let _ ← Prog.check
  let _ ← Prog.check
  let _ ← Prog.command fun w => some { w with vars := { w.vars with
    printed := w.vars.printed ++
      [ascii "Firmware activated (" ++ archiveVersion ++ ascii "); rebooting." ++ [10]] } }
  onVars fun v => { v with trapped := false }
  cleanup
  -- the reboot in the background
  noop
  Prog.exit true

/-- The script before it has the lock. -/
def refuse : Prog World Unit := do
  orDie (Prog.test fun w => w.disk.localFw.isSome) "no uploaded firmware is staged"
  orDie (Prog.test fun w => w.disk.sdRoot) "SD card is not available"
  orDie (Prog.test fun w => w.disk.backupRoot) "internal backup partition is not available"
  orDie (Prog.test fun w => hasSize w.disk.init) "current bootstrap is missing"

/-- The script once it has the lock, up to its free slot. -/
def reserve : Prog World Unit := do
  orDie Prog.check "unable to determine free SD space"
  orDie Prog.check "not enough free SD space for upgrade staging"
  orDie Prog.check "unable to determine internal free space"
  orDie Prog.check "internal free space is below 128 KiB"
  noop
  findSlot 100

def upgrade : Prog World Unit := do
  refuse
  acquire
  reserve
  let archiveVersion ← checkArchive
  unpack archiveVersion
  prepare
  activate archiveVersion
  finish archiveVersion

/-- A request starts on a disk. -/
def startVars (pid : Nat) (modelSuffix fwVersion : Bytes) : Vars where
  pid := pid
  modelSuffix := modelSuffix
  fwVersion := fwVersion
  treeSlot := 0
  initSlot := 0
  oldMoved := false
  newMoved := false
  initInstalled := false
  trapped := true
  printed := []
  phase := .before
  held := none

def start (pid : Nat) (modelSuffix fwVersion : Bytes) (d : Disk) : Config World :=
  ⟨upgrade, true, ⟨d, startVars pid modelSuffix fwVersion⟩⟩

end YiHack.Upgrade
