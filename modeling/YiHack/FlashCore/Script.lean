/-
  File:      YiHack/FlashCore/Script.lean
  Subject:   `install.sh` and the dispatcher it leaves in the camera: the installation on a fresh card.

  Root and home are the stock images or the new ones; `/backup` is files by name, the card what the
  scripts ask of it. What they ask of free space, mounts, kernel and network settings is up to the
  surroundings, and every command may fail, with no effect. There is no clean reinstallation: no
  `clean.conf`, so `CLEAN` is `no`, and what `--prepare-clean` does behind its refusals is whatever
  program it is given.

  Beside these the camera has notes: whether `fail` was entered, how many commands failed, whether an
  updater tool was removed, whether the bootstrap was renamed, whether the journal was ever written,
  and how often each image was put in place.

  * `fail`, `rollbackUncommitted`, `restart` -- the functions of the source;
  * `fresh`, `resume`, `stage` -- the parts of `install`;
  * `dispatcher` -- with `restoreOriginal`.
-/
import YiHack.General.Shell
import YiHack.General.Text
import Mathlib.Logic.Function.Basic

namespace YiHack.FlashCore

open General

/-! ## 1. Files -/

inductive Image
  | stock
  | new
  deriving DecidableEq, Repr

inductive Part
  | rootfs
  | home
  deriving DecidableEq, Repr

/-- The updater tools that the installer removes. -/
inductive Tool
  | upgradeSh
  | upgradeFirmware
  | extpkg
  | rsaPubDec
  | memUpdatePack
  | updateHomefs
  deriving DecidableEq, Repr

def tools : List Tool :=
  [.upgradeSh, .upgradeFirmware, .extpkg, .rsaPubDec, .memUpdatePack, .updateHomefs]

/-- Files of `/backup`. -/
inductive BackupFile
  | init
  | initNew
  | initRestore
  | coreInit
  | coreInitNew
  | originalInit
  | pending
  | hostapd
  | lastError
  | tool (t : Tool)
  | other (n : Nat)
  deriving DecidableEq, Repr

/-- Files of `flash-core-recovery/files`; a `stray` is a tool under its own name. -/
inductive RecoveryFile
  | init
  | tool (t : Tool)
  | stray (t : Tool)
  deriving DecidableEq, Repr

/-- `files/*`, as far as they are read again. -/
def recoveryFiles : List RecoveryFile := .init :: (tools.map .tool ++ tools.map .stray)

/-- `flash-core` on the card. -/
structure Package (H : Type) where
  md5 : Bytes → H
  dispatcher : Bytes
  coreInit : Bytes
  release : Bytes
  previousDispatch : Option H
  y623 : Bool
  etc : List Bytes

/-- `settings` and `config` are the two directories `yi-hack-config`, by the names of their files;
    `manifest` is `checksums.md5`, with what the sums are of. -/
structure Camera where
  root : Image
  home : Image
  backup : BackupFile → Option Bytes
  config : Option (List Bytes)
  recovery : Bool
  mtd : Nat → Bool
  files : RecoveryFile → Option Bytes
  archive : Bool
  manifest : Option (List (RecoveryFile × Bytes))
  restore : Bool
  automatic : Bool
  attempts : Option Nat
  attemptsNew : Option Nat
  failedSettings : Bool
  settings : Option (List Bytes)
  cleanInstall : Bool
  trigger : Part → Bool
  triggerNew : Part → Bool
  lowerHalf : Bool
  factory : Bool
  wifiCfg : Bool
  result : String
  ready : Bool
  failing : Bool
  failures : Nat
  reclaimed : Bool
  activated : Bool
  journaled : Bool
  staged : Part → Nat

namespace Camera

/-- `rm -f`. -/
def rm (f : BackupFile) (s : Camera) : Camera :=
  { s with backup := Function.update s.backup f none }

/-- A file of `/backup` is written. -/
def write (f : BackupFile) (c : Bytes) (s : Camera) : Camera :=
  { s with backup := Function.update s.backup f (some c) }

/-- `mv` within `/backup`. -/
def mv (f g : BackupFile) (s : Camera) : Option Camera :=
  (s.backup f).map fun c => (s.rm f).write g c

/-- `cp` from `/backup` to the card. -/
def save (f : BackupFile) (g : RecoveryFile) (s : Camera) : Option Camera :=
  (s.backup f).map fun c => { s with files := Function.update s.files g (some c) }

/-- `cp` from the card to `/backup`. -/
def load (g : RecoveryFile) (f : BackupFile) (s : Camera) : Option Camera :=
  (s.files g).map fun c => s.write f c

def stockRoot (s : Camera) : Bool := s.root = .stock

def stockHome (s : Camera) : Bool := s.home = .stock

/-- `md5sum mtd/*.bin files/* > checksums.md5`. -/
def listed (s : Camera) : Camera :=
  { s with manifest := some (recoveryFiles.filterMap fun f => (s.files f).map fun c => (f, c)) }

end Camera

/-! ## 2. Commands -/

/-- A command that may fail: where it can, it changes the camera. -/
def act (f : Camera → Option Camera) : Prog Camera Bool :=
  .cmd (fun ok s =>
    if ok then match f s with | some s' => (s', true) | none => (s, false)
    else ({ s with failures := s.failures + 1 }, false)) fun ok _ => .pure ok

/-- A test with programs in it. -/
def verify (p : Camera → Bool) : Prog Camera Bool :=
  .cmd (fun ok s => if ok then (s, p s) else ({ s with failures := s.failures + 1 }, false))
    fun ok _ => .pure ok

/-- A command that changes nothing here. -/
def external : Prog Camera Bool := verify fun _ => true

/-- A command whose status nobody looks at. -/
def unchecked (c : Prog Camera Bool) : Prog Camera Bool := do
  let _ ← c
  return true

/-- `[ ! ... ] || command`. -/
def onlyIf (p : Camera → Bool) (c : Prog Camera Bool) : Prog Camera Bool := do
  if ← Prog.test p then c else return true

/-- `command || return 1`, and so on. -/
def allOf : List (Prog Camera Bool) → Prog Camera Bool
  | [] => return true
  | c :: cs => do if ← c then allOf cs else return false

/-- `command || command`, and so on. -/
def anyOf : List (Prog Camera Bool) → Prog Camera Bool
  | [] => return false
  | c :: cs => do if ← c then return true else anyOf cs

/-- `command || exit 1`. -/
def orExit (c : Prog Camera Bool) : Prog Camera Bool := do
  if ← c then return true else .exit false

/-- `sync`, `chmod`. -/
def sync : Prog Camera Bool := unchecked external

/-- `rm -f` of one file of `/backup`. -/
def rmBackup (f : BackupFile) : Prog Camera Bool := unchecked (act fun s => some (s.rm f))

/-! ## 3. The end of `install.sh` -/

section

variable {H : Type} [DecidableEq H] (P : Package H)

/-- `[ "$(hash A)" = "$(hash B)" ]`; there is no hash of a file that is not there. -/
def sameHash (f g : Camera → Option Bytes) : Prog Camera Bool :=
  verify fun s => (f s).map P.md5 = (g s).map P.md5

/-- `md5sum -c checksums.md5`. -/
def manifestHolds : Prog Camera Bool :=
  verify fun s => s.manifest.any fun m => m.all fun e => (s.files e.1).map P.md5 = some (P.md5 e.2)

/-- `[ "$(hash /dev/mtdblock6)" = "$(hash "$R/mtd/mtdblock6.bin")" ]`: the card is of this camera. -/
def identity : Prog Camera Bool := verify fun s => s.mtd 6

def restoreTool (t : Tool) : Prog Camera Bool :=
  onlyIf (fun s => (s.files (.tool t)).isSome) (act fun s => s.load (.tool t) (.tool t))

/-- `rollback_uncommitted`. -/
def rollbackUncommitted : Prog Camera Bool :=
  allOf ([Prog.test fun s => s.ready && (s.backup .pending).isNone,
    sameHash P (fun s => s.backup .init) (fun s => s.files .init),
    verify Camera.stockRoot, verify Camera.stockHome, identity, manifestHolds P,
    onlyIf (fun s => s.settings.isSome) (act fun s => some { s with settings := none, failedSettings := true }),
    unchecked (act fun s => some { s with config := none }),
    rmBackup .coreInitNew, rmBackup .originalInit, rmBackup .initNew] ++ tools.map restoreTool ++
    [onlyIf Camera.lowerHalf (act fun s => some { s with lowerHalf := false }),
    onlyIf Camera.factory (act fun s => some { s with factory := false }),
    unchecked (act fun s => some { s with
      result := s.result ++ "\nPrevious firmware/startup retained; failed installer retired.\n" }),
    sync, external])

def fail {α : Type} (text : String) : Prog Camera α := do
  Prog.assign fun s => { s with failing := true }
  let _ ← act fun s => some { s with
    result := "Flash-core install failed: " ++ text ++ ". See RECOVERY.txt." }
  let _ ← rollbackUncommitted P
  let _ ← sync
  .exit false

def restart {α : Type} : Prog Camera α := do
  let _ ← sync
  if ← external then .exit true
  else fail P "automatic reboot failed; power off and reinsert this same card before powering on"

/-- `command || fail text`, and so on. -/
def steps : List (Prog Camera Bool × String) → Prog Camera Unit
  | [] => return ()
  | (c, text) :: cs => do if ← c then steps cs else fail P text

/-! ## 4. The fresh installation -/

/-- y623 reads its updates from a partition only. -/
def partitioned : Prog Camera Bool := do
  if P.y623 then
    if ← external then return true
    else do
      steps P [(onlyIf Camera.lowerHalf (act fun s => some { s with lowerHalf := false }),
          "retire unsupported-card SD hook"),
        (onlyIf Camera.factory (act fun s => some { s with factory := false }),
          "retire unsupported-card Factory trigger")]
      let _ ← act fun s => some { s with
        result := "Flash-core install refused: y623 needs FAT32 on SD partition 1 (MBR recommended), not whole-device FAT32. Nothing flashed; previous startup retained. Preserve this card and prepare another compatible card." }
      restart P
  else return true

/-- What a fresh installation finds. -/
def checks : List (Prog Camera Bool × String) :=
  [(verify Camera.stockRoot, "rootfs is not the supported stock image"),
    (verify Camera.stockHome, "home is not the supported stock image"),
    (Prog.test fun s => !s.recovery, "recovery directory exists; preserve it and use a clean card"),
    (Prog.test fun s => (s.backup .originalInit).isNone, "previous flash-core installation detected"),
    (Prog.test fun s => (s.backup .coreInitNew).isNone && (s.backup .initNew).isNone,
      "previous startup staging detected"),
    (Prog.test fun s => s.config.isNone && s.settings.isNone,
      "existing configuration directory; use fresh vendor firmware and a clean card"),
    (Prog.test fun s => (s.backup .init).any (!·.isEmpty) && (s.backup .hostapd).isNone,
      "unsupported writable startup files"),
    (Prog.test fun s => !s.trigger .rootfs, "another flash trigger is present"),
    (Prog.test fun s => !s.trigger .home, "another flash trigger is present"),
    (external, "another flash trigger is present"),
    (external, "another flash trigger is present"),
    (external, "cannot measure SD headroom"),
    (external, "SD needs at least 32 MiB free for verified backups and updates"),
    (partitioned P, ""),
    (onlyIf Camera.wifiCfg external, "invalid network configuration")] ++
  (if P.y623 then [(external, "unsupported kernel")] else [])

/-- One partition: its copy, and the comparison. -/
def backupPartition (n : Nat) : List (Prog Camera Bool × String) :=
  [(act fun s => some { s with mtd := Function.update s.mtd n true }, "backup partition " ++ toString n),
    (verify fun s => s.mtd n, "backup verification " ++ toString n)]

/-- The copies on the card. -/
def backups : List (Prog Camera Bool × String) :=
  [(act fun s => some { s with recovery := true }, "create recovery directory")] ++
  (List.range 8).flatMap backupPartition ++
  [(act fun s => s.save .init .init, "backup original init"),
    (act fun s => some { s with archive := true }, "backup writable files"),
    (act fun s => some s.listed, "backup manifest"),
    (sync, "")]

/-- The updater tools are kept on the card and removed; `name` may come out empty. -/
def reclaim : List Tool → Prog Camera Unit
  | [] => return ()
  | t :: ts => do
    if ← Prog.test fun s => (s.backup (.tool t)).isSome then
      let named ← external
      let copy : RecoveryFile := if named then .tool t else .stray t
      steps P [(act fun s => s.save (.tool t) copy, "preserve updater"),
        (sameHash P (fun s => s.backup (.tool t)) (fun s => if named then s.files (.tool t) else none),
          "verify preserved updater"),
        (act fun s => some { s.rm (.tool t) with reclaimed := true }, "reclaim updater")]
      reclaim ts
    else reclaim ts

/-- A file or link in `/backup/yi-hack-config`. -/
def addSetting (f : Bytes) : Prog Camera Bool :=
  act fun s => s.config.map fun names => { s with config := some (names ++ [f]) }

def preserve : List (Prog Camera Bool × String) :=
  [(act fun s => s.load .init .originalInit, "preserve internal init"),
    (sameHash P (fun s => s.backup .originalInit) (fun s => s.files .init), "internal init backup checksum")]

/-- From the staged bootstrap to the staged dispatcher. -/
def settings : List (Prog Camera Bool × String) :=
  [(Prog.test fun s => s.settings.isNone, "existing configuration directory"),
    (act fun s => some { s with settings := some P.etc }, "stage settings"),
    (onlyIf Camera.wifiCfg external, "apply network settings"),
    (onlyIf Camera.wifiCfg (act fun s => some { s with wifiCfg := false }), "consume settings"),
    (Prog.test fun s => s.config.isNone, "existing internal configuration"),
    (act fun s => some { s with config := some [] }, "internal settings directory")] ++
  P.etc.map (fun f => (addSetting f, "internal settings")) ++
  [ascii "fallback.jpg", ascii "defaults.tar.bz2", ascii "watermark"].map (fun f =>
    (addSetting f, "immutable default link")) ++
  [(sync, ""),
    (sameHash P (fun s => s.backup .coreInitNew) (fun _ => some P.coreInit), "staged bootstrap checksum"),
    (external, "cannot measure flash headroom"),
    (external, "less than 128 KiB reserve plus activation space")] ++
  (if P.y623 then [(external, "kernel update")] else [])

def dispatcherChecks : List (Prog Camera Bool × String) :=
  [(sameHash P (fun s => s.backup .initNew) (fun _ => some P.dispatcher), "dispatcher checksum"),
    (sync, ""),
    (external, "bootstrap syntax")]

/-- Bootstrap, journal and dispatcher. -/
def activate : List (Prog Camera Bool × String) :=
  [(act fun s => (s.mv .coreInitNew .coreInit).map fun s => { s with activated := true }, "activate bootstrap"),
    (act fun s => some { s.write .pending (print [P.release]) with journaled := true }, "installation journal"),
    (unchecked (act fun s => some { s with cleanInstall := false }), ""),
    (sync, ""),
    (act fun s => s.mv .initNew .init, "activate dispatcher"),
    (sync, "")]

def fresh : Prog Camera Unit := do
  steps P (checks P)
  steps P backups
  reclaim P tools
  steps P [(act fun s => some s.listed, "updated backup manifest")]
  Prog.assign fun s => { s with ready := true }
  steps P (preserve P)
  steps P [(act fun s => some (s.write .coreInitNew P.coreInit), "stage bootstrap")]
  steps P (settings P)
  steps P [(act fun s => some (s.write .initNew P.dispatcher), "stage dispatcher")]
  steps P (dispatcherChecks P)
  steps P (activate P)

/-! ## 5. Resumption -/

/-- `[ "$current" = "$(hash "$R/files/init.sh")" ] || ...`. -/
def knownStartup : Prog Camera Bool :=
  verify fun s => (s.backup .init).map P.md5 = (s.files .init).map P.md5 ∨
    P.previousDispatch.isSome ∧ (s.backup .init).map P.md5 = P.previousDispatch

/-- The dispatcher, where power failed before it was renamed. -/
def resumeDispatcher : Prog Camera Unit := do
  if ← sameHash P (fun s => s.backup .init) (fun _ => some P.dispatcher) then return ()
  else
    steps P [(knownStartup P, "unknown pending startup"),
      (act fun s => some (s.write .initNew P.dispatcher), "resume dispatcher staging"),
      (sameHash P (fun s => s.backup .initNew) (fun _ => some P.dispatcher), "resume dispatcher checksum"),
      (sync, ""),
      (act fun s => s.mv .initNew .init, "resume dispatcher activation"),
      (sync, "")]

/-- Both images are there: the journal goes last. -/
def finish : Prog Camera Unit := do
  steps P [(sameHash P (fun s => s.backup .coreInit) (fun _ => some P.coreInit), "bootstrap mismatch"),
    (unchecked (act fun s => some { s with trigger := Function.update s.trigger .rootfs false }), ""),
    (unchecked (act fun s => some { s with trigger := Function.update s.trigger .home false }), ""),
    (onlyIf Camera.lowerHalf (act fun s => some { s with lowerHalf := false }), "retire SD hook"),
    (onlyIf Camera.factory (act fun s => some { s with factory := false }), "retire Factory trigger"),
    (rmBackup .pending, "")]
  let _ ← act fun s => some { s with
    result := "Flash-core images verified. Starting camera; keep SD inserted until startup finishes." }
  restart P

def resume : Prog Camera Unit := do
  steps P [(verify fun s => (s.backup .pending).map capture = some P.release, "different pending installation"),
    (identity, "recovery card belongs to another camera")]
  resumeDispatcher P
  if ← allOf [verify fun s => s.root = .new, verify fun s => s.home = .new] then finish P
  else
    steps P [(anyOf [verify Camera.stockRoot, verify fun s => s.root = .new], "unknown partial rootfs"),
      (anyOf [verify Camera.stockHome, verify fun s => s.home = .new], "unknown partial home")]

/-! ## 6. The dispatcher -/

/-- `boot_error`. -/
def bootError {α : Type} (text : String) : Prog Camera α := do
  let _ ← act fun s => some (s.write .lastError (print [ascii text]))
  let _ ← sync
  .exit false

/-- The card at `/tmp/sd`, or not. -/
def mountCard : Prog Camera Bool := do
  if ← anyOf [external, external] then
    if ← external then
      if ← anyOf [external, external, external] then return true
      else do
        if ← Prog.test fun s => (s.backup .pending).isSome then
          bootError "pending installation needs original SD card"
        else return false
    else bootError "sd-directory"
  else bootError "tmpfs"

/-- What `rm -f` removes at the end, one after the other. -/
def retire : List (Prog Camera Bool) :=
  [rmBackup .pending,
    unchecked (act fun s => some { s with trigger := Function.update s.trigger .rootfs false }),
    unchecked (act fun s => some { s with trigger := Function.update s.trigger .home false }),
    unchecked (act fun s => some { s with restore := false }),
    unchecked (act fun s => some { s with factory := false }),
    unchecked (act fun s => some { s with lowerHalf := false })]

/-- The branch of `RESTORE`. -/
def restoreOriginal : Prog Camera Unit := do
  let _ ← orExit (allOf [verify Camera.stockRoot, verify Camera.stockHome, identity])
  let _ ← orExit (manifestHolds P)
  let _ ← allOf ([.hostapd, .coreInit, .coreInitNew, .initNew].map rmBackup)
  let _ ← unchecked (act fun s => some { s with config := none })
  let _ ← allOf (tools.map fun t => orExit (restoreTool t))
  let _ ← rmBackup .originalInit
  let _ ← unchecked (act fun s => some { s with cleanInstall := false })
  let _ ← orExit (act fun s => s.load .init .initRestore)
  let _ ← sync
  let _ ← orExit (act fun s => s.mv .initRestore .init)
  let _ ← allOf retire
  let _ ← act fun s => some { s with
    result := if s.automatic then "Flash-core install failed: bootloader ignored images after three attempts. Previous firmware/startup restored; recovery backups retained."
      else "Original rootfs/home and startup restored. Compatible y623 kernel patch, if installed, is retained." }
  let _ ← sync
  let _ ← external
  .exit true

/-- `install.sh --resume` and `install.sh --prepare-clean` are what it is given. -/
def dispatcher (resume clean : Prog Camera Unit) : Prog Camera Unit := do
  let card ← mountCard
  if ← Prog.test fun s => card && s.restore then restoreOriginal P
  else do
    if ← Prog.test fun s => (s.backup .pending).isSome then resume
    else do
      if ← Prog.test fun s => card && s.cleanInstall then
        if ← external then clean else bootError "invalid clean request"
      else .exit true

/-! ## 7. `install.sh` -/

/-- Nothing but `RESTORE` brings `install.sh` back to the dispatcher. -/
def execDispatcher : Prog Camera Unit := dispatcher P (.exit false) (.exit false)

/-- Three attempts were in vain. -/
def exhausted : Prog Camera Unit := do
  let _ ← unchecked (act fun s => some { s with trigger := Function.update s.trigger .rootfs false })
  let _ ← unchecked (act fun s => some { s with trigger := Function.update s.trigger .home false })
  if ← allOf [verify Camera.stockRoot, verify Camera.stockHome] then
    steps P [(act fun s => some { s with automatic := true }, "write automatic recovery reason"),
      (act fun s => some { s with restore := true }, "request automatic recovery"),
      (sync, "")]
    execDispatcher P
  else fail P "bootloader update did not finish after three attempts; use recovery"

/-- An image under its new name, and in its place. -/
def stageImage (p : Part) : List (Prog Camera Bool × String) :=
  [(act fun s => some { s with triggerNew := Function.update s.triggerNew p true }, "stage bootloader image"),
    (verify fun s => s.triggerNew p, "staged image verification"),
    (act fun s => if s.triggerNew p then some { s with
      triggerNew := Function.update s.triggerNew p false
      trigger := Function.update s.trigger p true
      staged := Function.update s.staged p (s.staged p + 1) } else none, "activate bootloader image")]

/-- `attempts`: 0 where there is no journal of them, nothing where it cannot be read. -/
def readAttempts : Prog Camera (Option Nat) := do
  if ← Prog.test fun s => s.attempts.isNone then return some 0
  else do
    let ok ← external
    .cmd (fun _ s => (s, true)) fun _ s => .pure (if ok then s.attempts else none)

def stage : Prog Camera Unit := do
  let attempts ← readAttempts
  match attempts with
  | some n =>
    if n ≤ 2 then
      steps P [(act fun s => some { s with attemptsNew := some (n + 1) }, "attempt journal"),
        (act fun s => s.attemptsNew.map fun n => { s with attempts := some n, attemptsNew := none },
          "commit attempt journal"),
        (sync, "")]
      steps P (stageImage .rootfs ++ stageImage .home)
      let _ ← act fun s => some { s with
        result := "Flash-core staged. Automatic reboots will install and verify images. DO NOT remove SD or power." }
      restart P
    else exhausted P
  | none => exhausted P

/-- What every installation begins with. -/
def preamble : List (Prog Camera Bool × String) :=
  [(external, "metadata"), (external, "wrong model/vendor firmware"), (external, "package checksum")] ++
  List.replicate 8 (external, "unsupported flash layout")

def install : Prog Camera Unit := do
  steps P preamble
  if ← Prog.test fun s => s.restore then execDispatcher P
  else do
    if ← Prog.test fun s => (s.backup .pending).isSome then resume P
    else fresh P
    stage P

/-- `--prepare-clean`; `clean` is what follows its refusals. -/
def prepareClean (clean : Prog Camera Unit) : Prog Camera Unit := do
  steps P preamble
  if ← Prog.test fun s => s.restore then execDispatcher P
  else do
    steps P [(external, "clean reinstall requires matching installed flash-core"),
      (Prog.test fun s => (s.backup .coreInit).any (!·.isEmpty) && (s.backup .originalInit).any (!·.isEmpty),
        "missing previous flash-core startup"),
      (Prog.test fun s => (s.backup .pending).isNone && !s.recovery,
        "preserve previous recovery directory and use a clean card")]
    clean

end

end YiHack.FlashCore
