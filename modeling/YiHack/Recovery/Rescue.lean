/-
  File:      YiHack/Recovery/Rescue.lean
  Subject:   `rescue.sh` and the launcher: from a broken installation back to the vendor's firmware.

  The rescue system runs `rescue` at its start. It saves the camera's partitions and `/backup` on
  the card, puts the vendor's files into `/backup`, the start-up file last, and then the vendor's
  root image in place of its own on the card, for the boot loader to install. The vendor's root
  system runs `/backup/init.sh`, which is then `launcher`.

  `Disk` is what outlives a loss of power: card and flash. A write is there for good once its command
  has ended: `sync` is left out, so that a loss of power which takes away what was written before it
  is not among the runs. Every command may fail; `cp`, `dd` and `tar` may leave anything, whatever
  their status says, which is why the script compares, all but the archive of `tar`. Any other write
  is as asked for where it succeeds, and what it leaves where it fails is never read. Mounts, free
  space and the layout of the flash are up to the surroundings.

  * `Package`, `Package.checked` -- the files of the card, as `pack_vendor_recovery.py` lists them;
  * `rescue`, with `saveOnce`, `install`, `stageRoot`; `vendorStart`, with `launcher`.
-/
import YiHack.General.Bytes
import YiHack.General.Shell
import Mathlib.Logic.Function.Basic

namespace YiHack.Recovery

open General

/-! ## 1. Files -/

/-- What stands at a name of `/backup`; a link may lead to a directory. -/
inductive Entry
  | file (c : Bytes)
  | folder
  | link (toFolder : Bool)
  deriving DecidableEq, Repr

/-- A name, by its components. -/
abbrev Path := List String

def initSh : Path := ["init.sh"]

/-- `$relative.vendor-new`. -/
def staging (f : Path) : Path := f.dropLast ++ [f.getLastD "" ++ ".vendor-new"]

/-- What a copy of a partition or of `/backup` is kept in. -/
inductive SavedFile
  | mtdblock (n : Nat)
  | backupFiles
  deriving DecidableEq, Repr

/-- What `rescue.sh` was built for. `content` is what the files of `vendor-recovery` hold, `rescue`
    the image of the system the script runs in, `archive` what `tar` makes of a directory, `sums`
    how `md5sum -c` reads a list. -/
structure Package (H : Type) where
  md5 : Bytes → H
  support : List Path
  content : Path → Bytes
  rescue : Bytes
  manifest : Bytes
  sums : Bytes → List (Path × H)
  archive : (Path → Option Entry) → Bytes
  homever : Bytes
  homeBlocks : Nat
  homeMd5 : H
  listed : ∀ e, e ∈ sums manifest ↔ ∃ f ∈ ["home.stage"] :: ["rootfs.stage"] ::
    (support ++ [initSh]).map ("support" :: ·), e = (f, md5 (content f))
  apart : ∀ f ∈ support ++ [initSh], ∀ g ∈ support ++ [initSh], staging f ≠ g
  folders : ∀ f ∈ support ++ [initSh], f.dropLast = [] ∧ f ≠ ["tools"] ∧ f ≠ ["ko"] ∨
    f.dropLast = ["tools"] ∨ f.dropLast = ["ko"]
  last : initSh ∉ support
  images : rescue ≠ content ["rootfs.stage"]

namespace Package

variable {H : Type} (P : Package H)

/-- `@SUPPORT_FILES@ init.sh`. -/
def files : List Path := P.support ++ [initSh]

/-- What the manifest has sums of. -/
def checked : List Path := ["home.stage"] :: ["rootfs.stage"] :: P.files.map ("support" :: ·)

/-- What the vendor has at a name of `/backup`. -/
def source (f : Path) : Bytes := P.content ("support" :: f)

/-- The vendor's root image. -/
def stage : Bytes := P.content ["rootfs.stage"]

end Package

/-- The system in the root partition: an image, or what a broken update left. -/
inductive Root
  | image (c : Bytes)
  | torn
  deriving DecidableEq, Repr

/-- Flash and card. `root` is what runs from the root partition, and `mtd` what is read from the
    partitions; nothing reads that of `/backup` (4) once the script has written there. `payload` are
    the files of `vendor-recovery`, `sums` is `checksums.md5`, `trigger` the file that the boot
    loader takes for an update of the root system. `starts` is `mtd` at each start, `ran` is `/backup`
    each time `/backup/init.sh` was run, `staged` how often the vendor's root image was put in
    place. -/
structure Disk (H : Type) where
  root : Root
  mtd : Nat → Bytes
  homever : Bytes
  backup : Path → Option Entry
  payload : Option (Path → Option Bytes)
  saved : Bool
  copies : SavedFile → Option Bytes
  sums : Option (List (SavedFile × H))
  verified : Bool
  attempts : Option Nat
  attemptsNew : Option Nat
  triggerNew : Option Bytes
  trigger : Option Bytes
  homeTrigger : Option Bytes
  staged : Nat
  starts : List (Nat → Bytes)
  ran : List (Path → Option Entry)

/-- What is found after a copy. -/
inductive Fate
  | asked
  | found (b : Option Bytes)
  deriving DecidableEq, Repr

/-- The camera; `fates` is what becomes of the next copies. -/
structure Camera (H : Type) where
  disk : Disk H
  result : String
  fates : List Fate

namespace Disk

variable {H : Type}

/-- A name of `/backup` is a directory. -/
def isFolder (d : Disk H) (p : Path) : Bool :=
  p.isEmpty || d.backup p = some .folder || d.backup p = some (.link true)

def isLink (d : Disk H) (p : Path) : Bool :=
  d.backup p = some (.link true) || d.backup p = some (.link false)

/-- The bytes of a file. -/
def bytes (d : Disk H) (p : Path) : Option Bytes :=
  match d.backup p with
  | some (.file c) => some c
  | _ => none

def set (p : Path) (e : Option Entry) (d : Disk H) : Disk H :=
  { d with backup := Function.update d.backup p e }

theorem set_backup_self (d : Disk H) (p : Path) (e : Option Entry) : (d.set p e).backup p = e := by
  simp only [set, Function.update_self]

theorem set_backup_of_ne (d : Disk H) {p q : Path} (h : q ≠ p) (e : Option Entry) :
    (d.set p e).backup q = d.backup q := by
  simp only [set, Function.update_of_ne h]

theorem backup_of_bytes {d : Disk H} {p : Path} {c : Bytes} (h : d.bytes p = some c) :
    d.backup p = some (.file c) := by
  rw [bytes] at h
  split at h
  · next hb => rw [hb, Option.some.inj h]
  · exact absurd h nofun

theorem isFolder_eq_false {d : Disk H} {p : Path} : d.isFolder p = false ↔
    p ≠ [] ∧ d.backup p ≠ some .folder ∧ d.backup p ≠ some (.link true) := by
  simp only [isFolder, Bool.or_eq_false_iff, decide_eq_false_iff_not, List.isEmpty_eq_false_iff,
    and_assoc]

/-- A file of `vendor-recovery`. -/
def onCard (d : Disk H) (f : Path) : Option Bytes := d.payload.bind (· f)

/-- `mkdir -p` of a directory at the top of `/backup`. -/
def mkdir (p : Path) (d : Disk H) : Option (Disk H) :=
  if d.isFolder p then some d
  else if d.backup p = none then some (d.set p (some .folder)) else none

/-- `rm -f`, which does not remove directories. -/
def rm (p : Path) (d : Disk H) : Option (Disk H) :=
  if d.backup p = some .folder then none else some (d.set p none)

/-- `mv -f "$relative.vendor-new" "$relative"`: into a directory where there is one. -/
def activate (f : Path) (d : Disk H) : Option (Disk H) :=
  (d.backup (staging f)).map fun e =>
    let d' := d.set (staging f) none
    match d.backup f with
    | some .folder => d'.set (f ++ [f.getLastD "" ++ ".vendor-new"]) (some e)
    | some (.link true) => d'
    | _ => d'.set f (some e)

end Disk

/-! ## 2. Commands -/

section

variable {H : Type}

/-- A comparison, or a question; where one of its programs fails the answer is no. -/
def verify (p : Camera H → Bool) : Prog (Camera H) Bool :=
  .cmd (fun ok s => (s, ok && p s)) fun ok _ => .pure ok

/-- What only the surroundings know. -/
def external : Prog (Camera H) Bool := verify fun _ => true

/-- A command on card and flash, which does nothing where it fails. -/
def act (f : Disk H → Option (Disk H)) : Prog (Camera H) Bool :=
  Prog.command fun s => (f s.disk).map fun d => { s with disk := d }

/-- `cp`, `dd` and `tar`: from `source`, where there is one, to where `put` has it. -/
def copy (source : Disk H → Option Bytes) (put : Option Bytes → Disk H → Disk H) :
    Prog (Camera H) Bool :=
  .cmd (fun ok s =>
    match source s.disk with
    | none => (s, false)
    | some c =>
      match s.fates with
      | [] => ({ s with disk := put (some c) s.disk }, ok)
      | .asked :: fs => ({ s with disk := put (some c) s.disk, fates := fs }, ok)
      | .found b :: fs => ({ s with disk := put b s.disk, fates := fs }, ok))
    fun ok _ => .pure ok

/-- `echo ... > vendor_recovery_result.txt`. -/
def report (text : String) : Prog (Camera H) Bool :=
  Prog.command fun s => some { s with result := text }

def error {α : Type} (text : String) : Prog (Camera H) α := do
  let _ ← report ("Vendor recovery failed: " ++ text)
  .exit false

/-- `command || error text`. -/
def require (c : Prog (Camera H) Bool) (text : String) : Prog (Camera H) Unit := do
  if ← c then return () else error text

/-- `command || exit 1`. -/
def orExit (c : Prog (Camera H) Bool) : Prog (Camera H) Unit := do
  if ← c then return () else .exit false

/-- `command || command`, and so on. -/
def anyOf : List (Prog (Camera H) Bool) → Prog (Camera H) Bool
  | [] => return false
  | c :: cs => do if ← c then return true else anyOf cs

/-- One after the other. -/
def each {α : Type} (body : α → Prog (Camera H) Unit) : List α → Prog (Camera H) Unit
  | [] => return ()
  | x :: xs => do
    body x
    each body xs

/-! ## 3. `rescue.sh` -/

variable [DecidableEq H] (P : Package H)

/-- `[ "$(hash A)" = "$(hash B)" ]`; there is no hash of a file that is not there. -/
def sameHash (f g : Disk H → Option Bytes) : Prog (Camera H) Bool :=
  verify fun s => (f s.disk).map P.md5 = (g s.disk).map P.md5

/-- What the script finds before it writes anything. -/
def checks : Prog (Camera H) Unit := do
  orExit (anyOf [external, external])
  orExit (anyOf [external, external, external])
  require (verify fun s => s.disk.payload.isSome) "original recovery card required"
  require (verify fun s => (s.disk.onCard ["payload.md5"]).map P.md5 = some (P.md5 P.manifest))
    "manifest checksum"
  require (verify fun s => (s.disk.onCard ["payload.md5"]).any fun m =>
      (P.sums m).all fun e => (s.disk.onCard e.1).map P.md5 = some e.2)
    "damaged or mixed recovery files"
  each (fun _ => require external "unsupported partition layout") (List.range 8)
  require (verify fun s => s.disk.homever = P.homever)
    "home not restored for this model; leave recovery card inserted and power-cycle"
  require (verify fun s => P.md5 ((s.disk.mtd 3).take (4096 * P.homeBlocks)) = P.homeMd5)
    "home update incomplete; leave recovery card inserted and power-cycle"

/-- One partition: its copy, and the comparison. -/
def savePartition (n : Nat) : Prog (Camera H) Unit := do
  require (copy (fun d => some (d.mtd n))
      fun b d => { d with copies := Function.update d.copies (.mtdblock n) b })
    "partition backup"
  require (sameHash P (fun d => d.copies (.mtdblock n)) fun d => some (d.mtd n)) "backup read-back"

/-- What `checksums.md5` has sums of. -/
def savedFiles : List SavedFile := (List.range 8).map .mtdblock ++ [.backupFiles]

/-- `md5sum *.bin backup-files.tar`. -/
def listed (d : Disk H) : Option (List (SavedFile × H)) :=
  if savedFiles.all fun f => (d.copies f).isSome then
    some (savedFiles.filterMap fun f => (d.copies f).map fun c => (f, P.md5 c))
  else none

/-- The copies on the card, and the journal that they are whole. -/
def saveAll : Prog (Camera H) Unit := do
  require (Prog.test fun s => !s.disk.saved)
    "incomplete backup exists; preserve this card and use another recovery card"
  require external "cannot measure SD space"
  require external "SD needs at least 16 MiB free"
  require (act fun d => if d.saved then none else some { d with saved := true })
    "backup already running"
  each (savePartition P) (List.range 8)
  require (copy (fun d => some (P.archive d.backup))
      fun b d => { d with copies := Function.update d.copies .backupFiles b })
    "writable files backup"
  require (act fun d => (listed P d).map fun m => { d with sums := some m })
    "backup checksums"
  require (act fun d => some { d with verified := true }) "backup journal"

/-- Private data is kept on the card before anything is written, once. -/
def saveOnce : Prog (Camera H) Unit := do
  if ← Prog.test fun s => s.disk.verified then return () else saveAll P

/-- Whether a file is the vendor's already; a link is not. -/
def upToDate (f : Path) : Prog (Camera H) Bool := do
  if ← Prog.test fun s => s.disk.isLink f then return false
  else sameHash P (fun d => d.bytes f) fun d => d.onCard ("support" :: f)

/-- One file of the vendor's, unless it is there. -/
def install (f : Path) : Prog (Camera H) Unit := do
  if ← upToDate P f then return ()
  else
    require external "cannot measure internal space"
    require external "insufficient internal space; backups retained"
    require (act fun d => d.mkdir f.dropLast) "support directory"
    require (act fun d => d.rm (staging f)) "clear previous support staging"
    require (copy (fun d => if d.isFolder f.dropLast then d.onCard ("support" :: f) else none)
        fun b d => d.set (staging f) (b.map .file))
      "stage support"
    let _ ← external
    require (sameHash P (fun d => d.bytes (staging f)) fun d => d.onCard ("support" :: f))
      "support read-back"
    require (act fun d => d.activate f) "activate support"

/-- `/bin/sh "$B/init.sh"`. -/
def runInit : Prog (Camera H) Unit :=
  Prog.assign fun s => { s with disk := { s.disk with ran := s.disk.ran ++ [s.disk.backup] } }

/-- `attempts`: 0 where there is no journal of them, nothing where it cannot be read. -/
def readAttempts : Prog (Camera H) (Option Nat) := do
  if ← Prog.test fun s => s.disk.attempts.isNone then return some 0
  else
    if ← external then
      .cmd (fun _ s => (s, true)) fun _ s => .pure s.disk.attempts
    else return none

/-- Three attempts were in vain. -/
def exhausted : Prog (Camera H) Unit := do
  let _ ← report ("Vendor services restored, but final rootfs update was ignored after three " ++
    "attempts. Rescue rootfs remains. Preserve card and result file.")
  runInit
  .exit true

/-- The vendor's root image, for the boot loader. -/
def stageRoot : Prog (Camera H) Unit := do
  let attempts ← readAttempts
  match attempts with
  | some n =>
    if n ≤ 2 then
      require (act fun d => some { d with attemptsNew := some (n + 1) }) "retry journal"
      require (act fun d => d.attemptsNew.map fun n =>
          { d with attempts := some n, attemptsNew := none })
        "commit retry journal"
      require (copy (fun d => d.onCard ["rootfs.stage"]) fun b d => { d with triggerNew := b })
        "stage final rootfs"
      require (verify fun s => s.disk.triggerNew.map P.md5 = some (P.md5 P.stage))
        "final image checksum"
      require (act fun d => d.triggerNew.map fun c =>
          { d with trigger := some c, triggerNew := none, staged := d.staged + 1 })
        "activate final rootfs"
      let _ ← report ("Vendor startup restored. Rebooting to install original vendor rootfs; " ++
        "keep SD and power connected.")
      .exit true
    else exhausted
  | none => exhausted

def rescue : Prog (Camera H) Unit := do
  checks P
  saveOnce P
  require (verify fun s => s.disk.sums.any fun m => m.all fun e =>
      (s.disk.copies e.1).map P.md5 = some e.2)
    "saved backup damaged"
  require (sameHash P (fun d => some (d.mtd 6)) fun d => d.copies (.mtdblock 6))
    "recovery card belongs to another camera"
  each (fun directory => require (Prog.test fun s => !s.disk.isLink [directory])
    "unsupported support-directory symlink") ["tools", "ko"]
  each (install P) P.files
  stageRoot P

/-! ## 4. The launcher -/

/-- `[ "$root" = @ROOT_MD5@ ] && [ "$home" = @HOME_MD5@ ]`, where there is a recovery card. -/
def confirmed : Prog (Camera H) Bool := do
  if ← Prog.test fun s => s.disk.payload.isSome then
    if ← verify fun s => s.disk.root = .image P.stage then
      verify fun s => P.md5 ((s.disk.mtd 3).take (4096 * P.homeBlocks)) = P.homeMd5
    else return false
  else return false

/-- A trigger that is the package's own is removed. -/
def retire (trigger : Disk H → Option Bytes) (image : Bytes) (rm : Disk H → Disk H) :
    Prog (Camera H) Unit := do
  if ← verify fun s => (trigger s.disk).map P.md5 = some (P.md5 image) then
    let _ ← act fun d => some (rm d)
    return ()
  else return ()

/-- Success is reported once both file systems are the vendor's. -/
def concluded : Prog (Camera H) Unit := do
  if ← confirmed P then
    let _ ← report ("Vendor rootfs/home verified. Vendor services starting. " ++
      "Power off before removing SD.")
    retire P (·.trigger) P.stage fun d => { d with trigger := none }
    retire P (·.homeTrigger) (P.content ["home.stage"]) fun d => { d with homeTrigger := none }
  else return ()

/-- `/backup/init.sh` of the package; the vendor's own script goes on from its end. -/
def launcher : Prog (Camera H) Unit := do
  orExit (anyOf [external, external])
  orExit (anyOf [external, external])
  concluded P
  orExit (verify fun s => s.disk.homever = P.homever)

/-- What the vendor's root system starts. -/
def vendorStart : Prog (Camera H) Unit := do
  runInit
  if ← Prog.test fun s => s.disk.bytes initSh = some (P.source initSh) then launcher P
  else return ()

end

end YiHack.Recovery
