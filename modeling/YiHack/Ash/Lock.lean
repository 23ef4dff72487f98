/-
  File:      YiHack/Ash/Lock.lean
  Subject:   The builtin `yi_lock` of the patched shell, and the processes that have it.

  A lock is an abstract socket: the kernel lets one socket be bound to an address, and forgets it
  with its last descriptor. A process has its descriptors, the list `yi_locks`, and what it has put
  aside of redirected descriptors. The shell's own file is not in the tree, only the patch of it is:
  the functions that the patched ones call, or that call them, are those of an `Unpatched` shell, of
  which `Unpatched.Documented` says what it promises to do with descriptors. Signals that end a
  process are its exit. An open or a `dup` that fails in a redirection changes nothing, it is no
  step.

  Beside these the model notes which process has bound a socket, the foreground ancestors of a
  process (its `line`), and whether it is a background child. Such a child is in the line of its
  parent until it has dropped the locks.

  * `yiLockcmd`, `Process.saveFdOnRedirect`, `Process.internallyOpenedFd`, `Process.dropLock`,
    `Process.mustFork` -- the functions of the patch;
  * `Unpatched`, `Unpatched.Documented` -- the shell around it;
  * `step` -- all processes.
-/
import YiHack.General.Descriptors
import YiHack.General.Run

namespace YiHack.Ash

open General

/-! ## 1. Names and addresses -/

abbrev Name := List Char

/-- What `strspn` lets pass. -/
def nameChars : List Char := "abcdefghijklmnopqrstuvwxyz0123456789-.".toList

/-- `sizeof(lock->name)`. -/
def nameSize : Nat := 64

def validName (name : Name) : Bool :=
  !name.isEmpty && name.length < nameSize && name.all nameChars.contains

/-- `sun_path` up to the length that `bind` is told. -/
def address (name : Name) : List Char := Char.ofNat 0 :: "yi-hack.v1.".toList ++ name

/-! ## 2. Processes -/

inductive File
  | other
  | socket (i : Nat)
  deriving DecidableEq, Repr

/-- A bound socket: its address, and who bound it. -/
structure Socket where
  address : List Char
  owner : Nat
  deriving DecidableEq, Repr

/-- `struct yi_lock_fd`. -/
structure LockFd where
  fd : Nat
  name : Name
  deriving DecidableEq, Repr

/-- What the shell's functions work on: the descriptors, and those put aside for a redirection with
    where they were moved to, none for one that was closed. `rest` is whatever else a shell has. -/
structure Shell (R : Type) where
  fds : Table File
  saved : List (Nat × Option Nat)
  rest : R
  deriving DecidableEq, Repr

/-- `locks` is `yi_locks`. -/
structure Process (R : Type) extends Shell R where
  alive : Bool
  background : Bool
  dropping : Bool
  line : List Nat
  locks : List LockFd
  deriving DecidableEq, Repr

/-- By process number, which is not used again. -/
structure World (R : Type) where
  procs : List (Process R)
  sockets : List Socket
  deriving DecidableEq, Repr

variable {R : Type}

namespace World

def boot : World R := ⟨[], []⟩

def set (w : World R) (p : Nat) (P : Process R) : World R := { w with procs := w.procs.set p P }

/-- A descriptor of some process is open on a socket bound to the address. -/
def inUse (w : World R) (a : List Char) : Bool :=
  w.procs.any fun P => P.fds.any fun d =>
    match d.file with
    | .other => false
    | .socket i => w.sockets[i]?.any (·.address == a)

end World

/-! ## 3. `yi_lockcmd` -/

/-- Which system calls succeed, apart from the address being in use. -/
structure Syscalls where
  socket : Bool
  dupfd : Bool
  setfd : Bool
  bind : Bool
  deriving DecidableEq, Repr

/-- Release or not, and the name. -/
def lockArgs : List Name → Option (Bool × Name)
  | [name] => some (false, name)
  | [flag, name] => if flag = "-u".toList then some (true, name) else none
  | _ => none

/-- `socket`, `fcntl`, `bind`: the status, and the process with its sockets. -/
def acquire (sys : Syscalls) (w : World R) (p : Nat) (P : Process R) (name : Name) :
    Nat × Process R × List Socket :=
  let failed (status : Nat) (fds : Table File) := (status, { P with fds }, w.sockets)
  let socket := w.sockets.length
  if sys.socket then
    let fd := P.fds.lowest 0
    let fds : Table File := ⟨fd, .socket socket, false⟩ :: P.fds
    if sys.dupfd then
      let copy := fds.lowest 10
      let fds := Table.close (⟨copy, .socket socket, false⟩ :: fds) fd
      if sys.setfd then
        let fds := fds.setCloexec copy
        if w.inUse (address name) then failed 75 (fds.close copy)
        else if sys.bind then
          (0, { P with fds, locks := ⟨copy, name⟩ :: P.locks }, w.sockets ++ [⟨address name, p⟩])
        else failed 1 (fds.close copy)
      else failed 1 (fds.close copy)
    else failed 1 (fds.close fd)
  else failed 1 P.fds

def yiLockcmd (args : List Name) (sys : Syscalls) (w : World R) (p : Nat) (P : Process R) :
    Nat × Process R × List Socket :=
  match lockArgs args with
  | none => (2, P, w.sockets)
  | some (release, name) =>
    if validName name then
      match P.locks.find? (·.name == name) with
      | some lock =>
        if release then
          (0, { P with fds := P.fds.close lock.fd, locks := P.locks.erase lock }, w.sockets)
        else (75, P, w.sockets)
      | none => if release then (2, P, w.sockets) else acquire sys w p P name
    else (2, P, w.sockets)

/-! ## 4. The shell around the patch -/

/-- `N>&-`, `N>FILE`, `N>&M`. -/
inductive Target
  | close
  | file
  | dup (fd : Nat)
  deriving DecidableEq, Repr

/-- What the patched functions call, and what follows the locks in `save_fd_on_redirect` and
    `internally_opened_fd`. -/
structure Callees (R : Type) where
  xdupCloexecAndClose : Table File → Nat → Nat → Nat × Table File
  saveFdOnRedirect : Shell R → Nat → Nat → Bool → Bool × Shell R
  internallyOpenedFd : Shell R → Nat → Bool

/-- And what calls them: `redirect` for one redirection, `popredir` for one descriptor put aside,
    and `forkchild` for a background child or another. -/
structure Unpatched (R : Type) extends Callees R where
  init : R
  redirect : Process R → Nat → Target → Bool → Process R
  popredir : Shell R → Nat → Shell R
  forkchild : Shell R → Bool → Shell R

namespace Process

/-! ## 5. Forks -/

/-- Input, output and errors. -/
def standardFds : Table File := [⟨0, .other, false⟩, ⟨1, .other, false⟩, ⟨2, .other, false⟩]

/-- A shell that `init` or `cron` starts. -/
def new (ash : Unpatched R) (p : Nat) : Process R where
  fds := standardFds
  saved := []
  rest := ash.init
  alive := true
  background := false
  dropping := false
  line := [p]
  locks := []

/-- `forkshell`; the child of `FORK_BG` begins with `yi_drop_locks`, any other with `forkchild`. -/
def fork (ash : Unpatched R) (P : Process R) (child : Nat) (background : Bool) : Process R :=
  { P with
    toShell := if background then P.toShell else ash.forkchild P.toShell false
    background
    dropping := background
    line := child :: P.line }

/-- One round of `yi_drop_locks`; behind the last one the child is on its own. -/
def dropLock (ash : Unpatched R) (P : Process R) (p : Nat) : Process R :=
  match P.locks with
  | lock :: locks => { P with locks, fds := P.fds.close lock.fd }
  | [] => { P with toShell := ash.forkchild P.toShell true, dropping := false, line := [p] }

/-- In `evalcommand`: not the last command, traps, or locks. -/
def mustFork (P : Process R) (last traps : Bool) : Bool := !last || traps || !P.locks.isEmpty

/-- What becomes of the shell over `execve`. -/
def exec (P : Process R) : Process R := { P with fds := P.fds.exec, locks := [], saved := [] }

def exit (P : Process R) : Process R :=
  { P with alive := false, fds := [], locks := [], saved := [] }

/-! ## 6. Redirections -/

/-- The first lock with the descriptor gets another. -/
def moveLock (fd copy : Nat) : List LockFd → List LockFd
  | [] => []
  | lock :: locks =>
    if lock.fd = fd then { lock with fd := copy } :: locks else lock :: moveLock fd copy locks

/-- `save_fd_on_redirect`: whether it has closed the descriptor. With `push` what is no lock is put
    aside. -/
def saveFdOnRedirect (ash : Callees R) (P : Process R) (fd avoidFd : Nat) (push : Bool) :
    Bool × Process R :=
  let avoidFd := max avoidFd 9
  if P.locks.any (·.fd == fd) then
    let (copy, fds) := ash.xdupCloexecAndClose P.fds fd avoidFd
    (true, { P with fds, locks := moveLock fd copy P.locks })
  else
    let (closed, shell) := ash.saveFdOnRedirect P.toShell fd avoidFd push
    (closed, { P with toShell := shell })

def internallyOpenedFd (ash : Callees R) (P : Process R) (fd : Nat) : Bool :=
  P.locks.any (·.fd == fd) || ash.internallyOpenedFd P.toShell fd

end Process

/-! ## 7. What a shell promises -/

/-- The same descriptors on sockets. -/
structure SameSockets (t t' : Table File) : Prop where
  once : t.Once → t'.Once
  mem : ∀ d i, d.file = .socket i → (d ∈ t' ↔ d ∈ t)

/-- A free descriptor behind `avoidFd`. -/
def Spare (t : Table File) (avoidFd copy : Nat) : Prop := avoidFd < copy ∧ t.closed copy = true

/-- A descriptor that is no lock's, ahead of its redirection: with `push` it is put aside, as closed
    or with a copy, once; a copy that is in the way is copied again; and a descriptor of the shell's
    own, a script or the terminal, is moved away. -/
inductive Saves (S : Shell R) (fd avoidFd : Nat) : Bool → Bool × Shell R → Prop
  | unasked : Saves S fd avoidFd false (false, S)
  | closed (h : S.fds.closed fd = true) :
      Saves S fd avoidFd true (false, { S with saved := (fd, none) :: S.saved })
  | copied (d : Desc File) (copy : Nat) (hd : S.fds.lookup fd = some d)
      (hcopy : Spare S.fds avoidFd copy) :
      Saves S fd avoidFd true (false, { S with
        fds := ⟨copy, d.file, true⟩ :: S.fds
        saved := (fd, some copy) :: S.saved })
  | already (copy : Option Nat) (h : (fd, copy) ∈ S.saved) : Saves S fd avoidFd true (false, S)
  | again (i old copy : Nat) (d : Desc File) (h : S.saved[i]? = some (old, some fd))
      (hd : S.fds.lookup fd = some d) (hcopy : Spare S.fds avoidFd copy) :
      Saves S fd avoidFd true (false, { S with
        fds := ⟨copy, d.file, true⟩ :: S.fds
        saved := S.saved.set i (old, some copy) })
  | own (push : Bool) (rest : R) (d : Desc File) (copy : Nat) (hd : S.fds.lookup fd = some d)
      (hcopy : Spare S.fds avoidFd copy) :
      Saves S fd avoidFd push (true, { S with
        fds := Table.close (⟨copy, d.file, true⟩ :: S.fds) fd
        rest })

/-- A redirection: the descriptor is saved, then closed, or made a copy of the file's or of the
    other one. A file opened at the descriptor itself is noted as one that was closed; a descriptor
    that the shell has opened for itself is refused. -/
inductive Redirects (ash : Callees R) (P : Process R) (fd : Nat) (push : Bool) :
    Target → Process R → Prop
  | close (closed : Bool) (P' : Process R) (h : P.saveFdOnRedirect ash fd 0 push = (closed, P')) :
      Redirects ash P fd push .close (if closed then P' else { P' with fds := P'.fds.close fd })
  | opened (h : P.fds.closed fd = true) :
      Redirects ash P fd push .file { P with
        fds := ⟨fd, .other, false⟩ :: P.fds
        saved := if push then (fd, none) :: P.saved else P.saved }
  | moved (newfd : Nat) (closed : Bool) (P' : Process R) (hfree : P.fds.closed newfd = true)
      (h : Process.saveFdOnRedirect ash { P with fds := ⟨newfd, .other, false⟩ :: P.fds } fd newfd
        push = (closed, P')) :
      Redirects ash P fd push .file { P' with fds := (P'.fds.dup2 newfd fd).close newfd }
  | same : Redirects ash P fd push (.dup fd) P
  | refused (src : Nat) (closed : Bool) (P' : Process R)
      (h : P.saveFdOnRedirect ash fd src push = (closed, P'))
      (hown : P'.internallyOpenedFd ash src = true) : Redirects ash P fd push (.dup src) P'
  | copied (src : Nat) (closed : Bool) (P' : Process R)
      (h : P.saveFdOnRedirect ash fd src push = (closed, P'))
      (hown : P'.internallyOpenedFd ash src = false) :
      Redirects ash P fd push (.dup src) { P' with fds := P'.fds.dup2 src fd }

/-- A descriptor is put back: closed, or from its copy. -/
inductive PutsBack (S : Shell R) (i : Nat) : Shell R → Prop
  | nothing (h : S.saved[i]? = none) : PutsBack S i S
  | closed (fd : Nat) (h : S.saved[i]? = some (fd, none)) :
      PutsBack S i { S with saved := S.saved.eraseIdx i, fds := S.fds.close fd }
  | copied (fd copy : Nat) (h : S.saved[i]? = some (fd, some copy)) :
      PutsBack S i { S with
        saved := S.saved.eraseIdx i
        fds := (S.fds.dup2 copy fd).close copy }

namespace Unpatched

/-- What a shell does to descriptors: it moves one to another that is free and close-on-exec, puts
    redirected ones aside and back, and the child of a fork has its parent's sockets. -/
structure Documented (ash : Unpatched R) : Prop where
  moves : ∀ t fd avoidFd d, t.lookup fd = some d → ∃ copy, Spare t avoidFd copy ∧
    ash.xdupCloexecAndClose t fd avoidFd = (copy, Table.close (⟨copy, d.file, true⟩ :: t) fd)
  saves : ∀ S fd avoidFd push, Saves S fd avoidFd push (ash.saveFdOnRedirect S fd avoidFd push)
  redirects : ∀ P fd target push,
    Redirects ash.toCallees P fd push target (ash.redirect P fd target push)
  putsBack : ∀ S i, PutsBack S i (ash.popredir S i)
  forks : ∀ S background, SameSockets S.fds (ash.forkchild S background).fds

end Unpatched

/-! ## 8. Steps -/

/-- `popredir i` puts back the `i`th of the descriptors put aside. -/
inductive Command
  | yiLock (args : List Name) (sys : Syscalls)
  | fork (background : Bool)
  | redirect (fd : Nat) (target : Target) (push : Bool)
  | popredir (i : Nat)
  | external (last traps : Bool)
  | exec
  deriving DecidableEq, Repr

inductive Event
  | spawn
  | command (p : Nat) (c : Command)
  | dropLock (p : Nat)
  | exit (p : Nat)
  deriving DecidableEq, Repr

namespace World

def fork (ash : Unpatched R) (w : World R) (P : Process R) (background : Bool) : World R :=
  { w with procs := w.procs ++ [P.fork ash w.procs.length background] }

/-- The command of a process; the child of `external` has its `exec` before it. -/
def perform (ash : Unpatched R) (w : World R) (p : Nat) (P : Process R) : Command → World R
  | .yiLock args sys =>
    let (_, P', sockets) := yiLockcmd args sys w p P
    { procs := w.procs.set p P', sockets }
  | .fork background => w.fork ash P background
  | .redirect fd target push => w.set p (ash.redirect P fd target push)
  | .popredir i => w.set p { P with toShell := ash.popredir P.toShell i }
  | .external last traps => if P.mustFork last traps then w.fork ash P false else w.set p P.exec
  | .exec => w.set p P.exec

/-- The process `p`, where it is alive. -/
def live (w : World R) (p : Nat) : Option (Process R) := w.procs[p]?.filter (·.alive)

end World

/-- A child that drops locks does nothing else. -/
def step (ash : Unpatched R) (w : World R) : Event → World R
  | .spawn => { w with procs := w.procs ++ [.new ash w.procs.length] }
  | .command p c =>
    match w.live p with
    | some P => if P.dropping then w else w.perform ash p P c
    | none => w
  | .dropLock p =>
    match w.live p with
    | some P => if P.dropping then w.set p (P.dropLock ash p) else w
    | none => w
  | .exit p =>
    match w.live p with
    | some P => w.set p P.exit
    | none => w

end YiHack.Ash
