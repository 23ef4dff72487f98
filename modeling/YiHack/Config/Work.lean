/-
  File:      YiHack/Config/Work.lean
  Subject:   `config_work.sh`: the lock and the work directory of the configuration CGIs.

  One thread is one CGI under its process number, which is not used again: `config_work_begin`, the
  request, and `config_work_cleanup` from the exit trap. Every command is one action, the
  redirection of `echo` and its write are two. A signal that the trap catches ends the commands
  behind the trap early; any other death is a kill.

  Beside the files the model notes which live processes have made the lock directory and not yet
  removed it (`inside`), which have begun and not yet cleaned up (`working`), how many directories
  were removed as stale, and whether a work directory was ever removed under a live process.

  * `configWorkBegin`, `configWorkCleanup` -- the functions of the source;
  * **`work_exclusive`** -- one process at a time, as long as no lock of a live process is removed
    as stale;
  * `recovery_removes_lock` -- two recoveries of one stale lock.
-/
import YiHack.General.Threads

namespace YiHack.Config

open General

/-! ## 1. The files -/

/-- The file `pid`: which file it is, and its text, none before it is written. -/
structure PidFile where
  inode : Nat
  text : Option Nat
  deriving DecidableEq, Repr

/-- The lock directory, its file, the work directories by who made them, the processes, and the
    notes. -/
structure Work where
  lock : Bool
  pid : Option PidFile
  inodes : Nat
  root : Option Nat
  request : Option Nat
  born : Nat → Bool
  alive : Nat → Bool
  inside : List Nat
  working : List Nat
  recovered : Nat
  trespassed : Bool

def Work.boot : Work where
  lock := false
  pid := none
  inodes := 0
  root := none
  request := none
  born := fun _ => false
  alive := fun _ => false
  inside := []
  working := []
  recovered := 0
  trespassed := false

namespace Work

def birth (p : Nat) (s : Work) : Work :=
  { s with born := Function.update s.born p true, alive := Function.update s.alive p true }

def exit (p : Nat) (s : Work) : Work := { s with alive := Function.update s.alive p false }

/-- `mkdir "$CONFIG_LOCK"`. -/
def mkdirLock (p : Nat) (s : Work) : Work :=
  if s.lock then s else { s with lock := true, pid := none, inside := p :: s.inside }

/-- `rm -f "$CONFIG_LOCK/pid"`. -/
def rmPid (s : Work) : Work := { s with pid := none }

/-- `rmdir "$CONFIG_LOCK"` of a recovery. -/
def rmdirStale (s : Work) : Work :=
  if s.lock ∧ s.pid = none then { s with lock := false, recovered := s.recovered + 1 } else s

/-- `rmdir "$CONFIG_LOCK"` of a cleanup. -/
def rmdirLock (p : Nat) (s : Work) : Work :=
  { s with
    lock := if s.pid = none then false else s.lock
    inside := s.inside.erase p }

/-- `> "$CONFIG_LOCK/pid"`. -/
def openPid (s : Work) : Work :=
  if s.lock then
    { s with
      pid := some ⟨(s.pid.map PidFile.inode).getD s.inodes, none⟩
      inodes := s.inodes + 1 }
  else s

/-- What `echo` writes into the file it has opened. -/
def writePid (p inode : Nat) (s : Work) : Work :=
  { s with pid := s.pid.map fun f => if f.inode = inode then ⟨inode, some p⟩ else f }

/-- The work directory of another process that is at work. -/
def foreign (p : Nat) (s : Work) : Bool := s.root.any fun q => q != p && s.working.contains q

/-- `rm -rf "$CONFIG_ROOT"`. -/
def rmRoot (p : Nat) (s : Work) : Work :=
  { s with root := none, request := none, trespassed := s.trespassed || s.foreign p }

/-- `mkdir "$CONFIG_ROOT"`; `made` says whether it can be made. -/
def mkdirRoot (p : Nat) (made : Bool) (s : Work) : Work :=
  if made ∧ s.root = none then
    { s with root := some p, trespassed := s.trespassed || s.working.any fun q => q != p }
  else s

/-- `mkdir "$CONFIG_WORK"`, the end of `config_work_begin`. -/
def mkdirRequest (p : Nat) (made : Bool) (s : Work) : Work :=
  if made ∧ s.root ≠ none ∧ s.request = none then
    { s with request := some p, working := p :: s.working }
  else s

/-- `config_work_cleanup` begins with `rm -rf "$CONFIG_ROOT"`. -/
def startCleanup (p : Nat) (s : Work) : Work := { s.rmRoot p with working := s.working.erase p }

end Work

/-! ## 2. The functions -/

/-- What a CGI meets: whether the card is mounted, whether a process that is dead is gone for
    `kill -0`, whether `CONFIG_ROOT` and `CONFIG_WORK` can be made, and how many of the commands
    behind the trap come before a signal. -/
structure Cgi where
  mounted : Bool
  reaped : Bool
  makesRoot : Bool
  makesRequest : Bool
  commands : Nat

/-- The process ends with no trap set. -/
def leave (p : Nat) : Code Work Unit := Code.store (Work.exit p)

/-- `config_work_cleanup`, and the end of the process. -/
def configWorkCleanup (p : Nat) : Code Work Unit := do
  Code.store (Work.startCleanup p)
  Code.store Work.rmPid
  Code.store (Work.rmdirLock p)
  leave p

/-- Behind the traps: the commands that come before the signal, if one comes. Whether the last one
    succeeds or not, the process goes on to its exit and the trap. -/
def configWorkMake (p : Nat) (d : Cgi) : Code Work Unit :=
  if d.commands = 0 then configWorkCleanup p
  else do
    Code.store (Work.rmRoot p)
    if d.commands = 1 then configWorkCleanup p
    else do
      let made ← Code.rmw (Work.mkdirRoot p d.makesRoot) fun s => d.makesRoot && s.root.isNone
      if made = false ∨ d.commands = 2 then configWorkCleanup p
      else do
        Code.store (Work.mkdirRequest p d.makesRequest)
        configWorkCleanup p

/-- `echo "$$" > "$CONFIG_LOCK/pid"`, and what follows. -/
def configWorkLocked (p : Nat) (d : Cgi) : Code Work Unit := do
  let file ← Code.rmw Work.openPid fun s => (s.openPid.pid).filter fun _ => s.lock
  match file with
  | none => configWorkMake p d
  | some f => do
    Code.store (Work.writePid p f.inode)
    configWorkMake p d

/-- Behind `kill -0`: the lock is taken as stale. -/
def configWorkRecover (p : Nat) (d : Cgi) : Code Work Unit := do
  Code.store Work.rmPid
  let removed ← Code.rmw Work.rmdirStale fun s => s.lock && s.pid.isNone
  if removed = false then leave p
  else do
    let made ← Code.rmw (Work.mkdirLock p) fun s => !s.lock
    if made = false then leave p else configWorkLocked p d

/-- `config_work_begin`, and the rest of the process. -/
def configWorkBegin (p : Nat) (d : Cgi) : Code Work Unit :=
  if d.mounted = false then leave p
  else do
    let made ← Code.rmw (Work.mkdirLock p) fun s => !s.lock
    if made then configWorkLocked p d
    else do
      let owner ← Code.load fun s => s.pid.bind PidFile.text
      match owner with
      | none => leave p
      | some o => do
        let dead ← Code.load fun s => !s.alive o && d.reaped
        if dead then configWorkRecover p d else leave p

/-- A CGI, under a number that was not used before. -/
def cgi (p : Nat) (d : Cgi) : Code Work Unit := do
  let fresh ← Code.rmw (fun s => if s.born p then s else s.birth p) fun s => !s.born p
  if fresh then configWorkBegin p d else Code.ret ()

/-- Any number of CGIs; each may be killed at any moment. -/
def workSystem : System Nat Cgi Work where
  program p d := some (cgi p d)
  bury p s :=
    { s.exit p with inside := s.inside.erase p, working := s.working.erase p }

/-- No directory is removed as stale while a live process has made it. -/
def Heedful (s s' : Work) : Prop := s.recovered < s'.recovered → s.inside = []

/-! ## 3. What holds between the actions -/

variable {p q : Nat} {s s' : Work} {d : Cgi}

structure Inv (s : Work) : Prop where
  alone : s.inside = [] ∨ ∃ p, s.inside = [p] ∧ s.lock = true
  subset : s.working = [] ∨ s.working = s.inside
  clean : s.trespassed = false

/-- What the others leave `p`. -/
def Spares (p : Nat) (s s' : Work) : Prop :=
  (p ∈ s'.inside ↔ p ∈ s.inside) ∧ (p ∈ s'.working ↔ p ∈ s.working)

/-- What `p` relies on. -/
structure Rely (p : Nat) (s s' : Work) : Prop where
  inv : Inv s'
  mine : Spares p s s'

/-- What `p` guarantees. -/
structure Guarantee (p : Nat) (s s' : Work) : Prop where
  inv : Inv s → Inv s'
  others : ∀ q, q ≠ p → Spares q s s'

/-- Whether `p` has the lock, and whether it has begun. -/
structure At (p : Nat) (i w : Bool) (s : Work) : Prop where
  inv : Inv s
  inside : p ∈ s.inside ↔ i = true
  working : p ∈ s.working ↔ w = true

def Idle (p : Nat) (s : Work) : Prop := p ∉ s.inside ∧ p ∉ s.working

theorem stable_at {i w : Bool} : Code.Stable (Rely p) (At p i w) :=
  fun _ _ hs hr => ⟨hr.inv, hr.mine.1.trans hs.inside, hr.mine.2.trans hs.working⟩

theorem stable_idle : Code.Stable (Rely p) (Idle p) :=
  fun _ _ hs hr => ⟨fun h => hs.1 (hr.mine.1.mp h), fun h => hs.2 (hr.mine.2.mp h)⟩

theorem Spares.refl (p : Nat) (s : Work) : Spares p s s := ⟨Iff.rfl, Iff.rfl⟩

theorem Spares.of_eq (hinside : s'.inside = s.inside) (hworking : s'.working = s.working) :
    Spares p s s' := ⟨by rw [hinside], by rw [hworking]⟩

theorem Guarantee.refl (p : Nat) (s : Work) : Guarantee p s s := ⟨id, fun q _ => Spares.refl q s⟩

/-- A step that leaves lock and notes alone. -/
theorem quiet_at {i w : Bool} (hs : At p i w s) (hlock : s'.lock = s.lock)
    (hinside : s'.inside = s.inside) (hworking : s'.working = s.working)
    (htrespassed : s'.trespassed = s.trespassed) : Guarantee p s s' ∧ At p i w s' := by
  have hinv : ∀ s, Inv s → s'.lock = s.lock → s'.inside = s.inside → s'.working = s.working →
      s'.trespassed = s.trespassed → Inv s' := fun s h h1 h2 h3 h4 =>
    ⟨by rw [h1, h2]; exact h.alone, by rw [h2, h3]; exact h.subset, h4.trans h.clean⟩
  exact ⟨⟨fun h => hinv s h hlock hinside hworking htrespassed, fun q _ => .of_eq hinside hworking⟩,
    hinv s hs.inv hlock hinside hworking htrespassed, by rw [hinside]; exact hs.inside,
    by rw [hworking]; exact hs.working⟩

/-- Who has made the directory is the only one. -/
theorem Inv.only (h : Inv s) (hp : p ∈ s.inside) : s.inside = [p] ∧ s.lock = true := by
  obtain hnone | ⟨q, hq, hlock⟩ := h.alone
  · exact absurd (hnone ▸ hp) List.not_mem_nil
  · rw [hq] at hp
    exact ⟨by rw [hq, List.mem_singleton.mp hp], hlock⟩

/-- Nobody else is at work. -/
theorem Inv.mine (h : Inv s) (hp : p ∈ s.inside) : ∀ q ∈ s.working, q = p := by
  intro q hq
  obtain hnone | hsame := h.subset
  · exact absurd (hnone ▸ hq) List.not_mem_nil
  · rw [hsame, (h.only hp).1] at hq
    exact List.mem_singleton.mp hq

/-! ## 4. The actions -/

theorem notMem_singleton (h : q ≠ p) : q ∉ [p] := fun hq => h (List.mem_singleton.mp hq)

/-- **The directory is made**, or it is there. -/
theorem mkdirLock_at (hs : At p false false s) :
    Guarantee p s (s.mkdirLock p) ∧ At p (!s.lock) false (s.mkdirLock p) := by
  cases hlock : s.lock with
  | true =>
    rw [Work.mkdirLock, hlock, if_pos rfl]
    exact ⟨.refl p s, hs⟩
  | false =>
    have hnone : s.inside = [] := by
      obtain hnone | ⟨q, -, htrue⟩ := hs.inv.alone
      · exact hnone
      · exact absurd (hlock.symm.trans htrue) nofun
    have hidle : s.working = [] := by
      obtain hidle | hsame := hs.inv.subset
      · exact hidle
      · rw [hsame, hnone]
    have hmade : s.mkdirLock p = { s with lock := true, pid := none, inside := [p] } := by
      rw [Work.mkdirLock, hlock, if_neg nofun, hnone]
    have hinv : Inv (s.mkdirLock p) := by
      rw [hmade]
      exact ⟨.inr ⟨p, rfl, rfl⟩, .inl hidle, hs.inv.clean⟩
    refine ⟨⟨fun _ => hinv, fun q hq => ⟨?_, ?_⟩⟩, hinv, ?_, ?_⟩
    · rw [hmade, hnone]
      exact ⟨fun h => absurd h (notMem_singleton hq), fun h => absurd h List.not_mem_nil⟩
    · rw [hmade]
    · rw [hmade]
      exact ⟨fun _ => rfl, fun _ => List.mem_singleton_self p⟩
    · rw [hmade]
      exact hs.working

/-- **A directory is removed as stale**, no live process having made it. -/
theorem rmdirStale_at (hs : At p false false s) (hheed : Heedful s s.rmdirStale) :
    Guarantee p s s.rmdirStale ∧ At p false false s.rmdirStale := by
  by_cases hstale : s.lock = true ∧ s.pid = none
  · have hgone : s.rmdirStale = { s with lock := false, recovered := s.recovered + 1 } :=
      if_pos hstale
    rw [hgone] at hheed ⊢
    have hnone : s.inside = [] := hheed (Nat.lt_succ_self _)
    have hinv : Inv { s with lock := false, recovered := s.recovered + 1 } :=
      ⟨.inl hnone, hs.inv.subset, hs.inv.clean⟩
    exact ⟨⟨fun _ => hinv, fun q _ => .of_eq rfl rfl⟩, hinv, hs.inside, hs.working⟩
  · have hsame : s.rmdirStale = s := if_neg hstale
    rw [hsame]
    exact ⟨.refl p s, hs⟩

theorem openPid_at {i w : Bool} (hs : At p i w s) :
    Guarantee p s s.openPid ∧ At p i w s.openPid := by
  unfold Work.openPid
  split
  · exact quiet_at hs rfl rfl rfl rfl
  · exact ⟨.refl p s, hs⟩

/-- **Who has the lock removes its own directory.** -/
theorem rmRoot_at {w : Bool} (hs : At p true w s) :
    Guarantee p s (s.rmRoot p) ∧ At p true w (s.rmRoot p) := by
  refine quiet_at hs rfl rfl rfl ?_
  have hown : s.foreign p = false := by
    rw [Work.foreign, Option.any_eq_false]
    intro q _
    rw [Bool.and_eq_false_imp]
    intro hne
    rw [List.contains_eq_mem, decide_eq_false_iff_not]
    exact fun hq => bne_iff_ne.mp hne (hs.inv.mine (hs.inside.mpr rfl) q hq)
  rw [Work.rmRoot, hown, Bool.or_false]

theorem mkdirRoot_at {w : Bool} (made : Bool) (hs : At p true w s) :
    Guarantee p s (s.mkdirRoot p made) ∧ At p true w (s.mkdirRoot p made) := by
  unfold Work.mkdirRoot
  split
  · refine quiet_at hs rfl rfl rfl ?_
    have hown : (s.working.any fun q => q != p) = false :=
      List.any_eq_false.mpr fun q hq h =>
        bne_iff_ne.mp h (hs.inv.mine (hs.inside.mpr rfl) q hq)
    rw [hown, Bool.or_false]
  · exact ⟨.refl p s, hs⟩

/-- **Begun**, or not. -/
theorem mkdirRequest_at (made : Bool) (hs : At p true false s) :
    Guarantee p s (s.mkdirRequest p made) ∧ ∃ w, At p true w (s.mkdirRequest p made) := by
  unfold Work.mkdirRequest
  split
  · have hinside := (hs.inv.only (hs.inside.mpr rfl)).1
    have hidle : s.working = [] := by
      obtain hidle | hsame := hs.inv.subset
      · exact hidle
      · have hmem : p ∈ s.working := by
          rw [hsame]
          exact hs.inside.mpr rfl
        exact absurd (hs.working.mp hmem) nofun
    have hinv : Inv { s with request := some p, working := p :: s.working } :=
      ⟨hs.inv.alone, .inr (by rw [hinside, hidle]), hs.inv.clean⟩
    refine ⟨⟨fun _ => hinv, fun q hq => ⟨Iff.rfl, ?_⟩⟩, true, hinv, hs.inside, ?_⟩
    · exact ⟨fun h => (List.mem_cons.mp h).resolve_left hq, List.mem_cons_of_mem _⟩
    · exact ⟨fun _ => rfl, fun _ => List.mem_cons_self⟩
  · exact ⟨.refl p s, false, hs⟩

/-- The work is over. -/
theorem startCleanup_at {w : Bool} (hs : At p true w s) :
    Guarantee p s (s.startCleanup p) ∧ At p true false (s.startCleanup p) := by
  obtain ⟨-, hroot⟩ := rmRoot_at hs
  have hidle : s.working.erase p = [] := by
    obtain hidle | hsame := hs.inv.subset
    · rw [hidle, List.erase_nil]
    · rw [hsame, (hs.inv.only (hs.inside.mpr rfl)).1, List.erase_cons_head]
  have hinv : Inv (s.startCleanup p) := ⟨hroot.inv.alone, .inl hidle, hroot.inv.clean⟩
  refine ⟨⟨fun _ => hinv, fun q hq => ⟨Iff.rfl, List.mem_erase_of_ne hq⟩⟩, hinv, hroot.inside, ?_⟩
  show p ∈ s.working.erase p ↔ _
  rw [hidle]
  exact ⟨fun h => absurd h List.not_mem_nil, nofun⟩

/-- The lock is given up. -/
theorem rmdirLock_at (hs : At p true false s) :
    Guarantee p s (s.rmdirLock p) ∧ At p false false (s.rmdirLock p) := by
  have hinside := (hs.inv.only (hs.inside.mpr rfl)).1
  have hgone : s.inside.erase p = [] := by rw [hinside, List.erase_cons_head]
  have hidle : s.working = [] := by
    obtain hidle | hsame := hs.inv.subset
    · exact hidle
    · have hmem : p ∈ s.working := by
        rw [hsame]
        exact hs.inside.mpr rfl
      exact absurd (hs.working.mp hmem) nofun
  have hinv : Inv (s.rmdirLock p) := ⟨.inl hgone, .inl hidle, hs.inv.clean⟩
  refine ⟨⟨fun _ => hinv, fun q hq => ⟨List.mem_erase_of_ne hq, Iff.rfl⟩⟩, hinv, ?_, hs.working⟩
  show p ∈ s.inside.erase p ↔ _
  rw [hgone]
  exact ⟨fun h => absurd h List.not_mem_nil, nofun⟩

/-! ## 5. The programs -/

/-- `p` keeps its guarantee and is idle in the end, as long as it is heedful. -/
def Keeps (p : Nat) (c : Code Work Unit) (s : Work) : Prop :=
  c.Ok (Rely p) (Guarantee p) Heedful (fun _ => Idle p) s

theorem rmw_at {α : Type} {f : Work → Work} {g : Work → α} {c : α → Code Work Unit} {i w : Bool}
    (i' : α → Bool) (hs : At p i w s)
    (hf : ∀ s, At p i w s → Heedful s (f s) → Guarantee p s (f s) ∧ At p (i' (g s)) w (f s))
    (hc : ∀ a s, At p (i' a) w s → Keeps p (c a) s) : Keeps p (Code.rmw f g >>= c) s :=
  Code.rmw_then stable_at hs fun s hs hheed => ⟨(hf s hs hheed).1, hc _ _ (hf s hs hheed).2⟩

theorem store_at {f : Work → Work} {c : Unit → Code Work Unit} {i w i' w' : Bool} (hs : At p i w s)
    (hf : ∀ s, At p i w s → Guarantee p s (f s) ∧ At p i' w' (f s))
    (hc : ∀ s, At p i' w' s → Keeps p (c ()) s) : Keeps p (Code.store f >>= c) s :=
  Code.store_then stable_at hs fun s hs _ => ⟨(hf s hs).1, hc _ (hf s hs).2⟩

theorem idle_of_at (hs : At p false false s) : Idle p s :=
  ⟨fun h => Bool.noConfusion (hs.inside.mp h), fun h => Bool.noConfusion (hs.working.mp h)⟩

theorem leave_ok (hs : At p false false s) : Keeps p (leave p) s :=
  store_at (c := Code.ret) hs (fun _ hs => quiet_at hs rfl rfl rfl rfl) fun _ hs =>
    Code.ok_ret stable_idle (idle_of_at hs) fun _ => id

/-- **The cleanup** gives the lock up. -/
theorem configWorkCleanup_ok {w : Bool} (hs : At p true w s) : Keeps p (configWorkCleanup p) s := by
  refine store_at hs (fun _ => startCleanup_at) fun s hs => ?_
  refine store_at hs (fun _ hs => quiet_at hs rfl rfl rfl rfl) fun s hs => ?_
  exact store_at hs (fun _ => rmdirLock_at) fun s hs => leave_ok hs

theorem configWorkMake_ok (d : Cgi) (hs : At p true false s) : Keeps p (configWorkMake p d) s := by
  unfold configWorkMake
  split
  · exact configWorkCleanup_ok hs
  refine store_at hs (fun _ => rmRoot_at) fun s hs => ?_
  split
  · exact configWorkCleanup_ok hs
  refine rmw_at (fun _ => true) hs (fun _ hs _ => mkdirRoot_at d.makesRoot hs) fun made s hs => ?_
  split
  · exact configWorkCleanup_ok hs
  refine Code.store_then stable_at hs fun s hs _ => ?_
  obtain ⟨hg, w, hs⟩ := mkdirRequest_at d.makesRequest hs
  exact ⟨hg, configWorkCleanup_ok hs⟩

theorem configWorkLocked_ok (d : Cgi) (hs : At p true false s) :
    Keeps p (configWorkLocked p d) s := by
  refine rmw_at (fun _ => true) hs (fun _ hs _ => openPid_at hs) fun file s hs => ?_
  cases file with
  | none => exact configWorkMake_ok d hs
  | some f =>
    exact store_at hs (fun _ hs => quiet_at hs rfl rfl rfl rfl) fun s hs => configWorkMake_ok d hs

/-- Made, or there already. -/
theorem mkdirLock_then {c : Bool → Code Work Unit} (hs : At p false false s)
    (hc : ∀ made s, At p made false s → Keeps p (c made) s) :
    Keeps p (Code.rmw (Work.mkdirLock p) (fun s => !s.lock) >>= c) s :=
  rmw_at id hs (fun _ hs _ => mkdirLock_at hs) hc

theorem configWorkRecover_ok (d : Cgi) (hs : At p false false s) :
    Keeps p (configWorkRecover p d) s := by
  refine store_at hs (fun _ hs => quiet_at hs rfl rfl rfl rfl) fun s hs => ?_
  refine rmw_at (fun _ => false) hs (fun _ => rmdirStale_at) fun removed s hs => ?_
  split
  · exact leave_ok hs
  refine mkdirLock_then hs fun made s hs => ?_
  split
  next hmade => exact leave_ok (hmade ▸ hs)
  next hmade =>
    rw [Bool.not_eq_false] at hmade
    exact configWorkLocked_ok d (hmade ▸ hs)

theorem load_at {α : Type} {g : Work → α} {c : α → Code Work Unit} {i w : Bool} (hs : At p i w s)
    (hc : ∀ a s, At p i w s → Keeps p (c a) s) : Keeps p (Code.load g >>= c) s :=
  Code.load_then (Guarantee.refl p) stable_at hs fun s hs => hc _ s hs

theorem configWorkBegin_ok (d : Cgi) (hs : At p false false s) :
    Keeps p (configWorkBegin p d) s := by
  unfold configWorkBegin
  split
  · exact leave_ok hs
  refine mkdirLock_then hs fun made s hs => ?_
  split
  next hmade => exact configWorkLocked_ok d (hmade ▸ hs)
  next hmade =>
    rw [Bool.not_eq_true] at hmade
    rw [hmade] at hs
    refine load_at hs fun owner s hs => ?_
    cases owner with
    | none => exact leave_ok hs
    | some o =>
      refine load_at hs fun dead s hs => ?_
      split
      · exact configWorkRecover_ok d hs
      · exact leave_ok hs

theorem cgi_ok (d : Cgi) (hs : At p false false s) : Keeps p (cgi p d) s := by
  refine rmw_at (fun _ => false) hs (fun s hs _ => ?_) fun fresh s hs => ?_
  · split
    · exact ⟨.refl p s, hs⟩
    · exact quiet_at hs rfl rfl rfl rfl
  · split
    · exact configWorkBegin_ok d hs
    · exact Code.ok_ret stable_idle (idle_of_at hs) fun _ => id

/-! ## 6. The machine -/

/-- A process dies. -/
theorem bury_spares (hinv : Inv s) : Inv (workSystem.bury p s) ∧ Idle p (workSystem.bury p s) ∧
    ∀ q, q ≠ p → Rely q s (workSystem.bury p s) := by
  by_cases hp : p ∈ s.inside
  · obtain ⟨hinside, -⟩ := hinv.only hp
    have hgone : s.inside.erase p = [] := by rw [hinside, List.erase_cons_head]
    have hidle : s.working.erase p = [] := by
      obtain hidle | hsame := hinv.subset
      · rw [hidle, List.erase_nil]
      · rw [hsame, hgone]
    have hinv' : Inv (workSystem.bury p s) := ⟨.inl hgone, .inl hidle, hinv.clean⟩
    refine ⟨hinv', ⟨?_, ?_⟩, fun q hq => ⟨hinv', List.mem_erase_of_ne hq, List.mem_erase_of_ne hq⟩⟩
    · show p ∉ s.inside.erase p
      rw [hgone]
      exact List.not_mem_nil
    · show p ∉ s.working.erase p
      rw [hidle]
      exact List.not_mem_nil
  · have hworking : p ∉ s.working := by
      obtain hidle | hsame := hinv.subset
      · rw [hidle]
        exact List.not_mem_nil
      · rw [hsame]
        exact hp
    have hbury : workSystem.bury p s = s.exit p := by
      show { s.exit p with inside := s.inside.erase p, working := s.working.erase p } = _
      rw [List.erase_of_not_mem hp, List.erase_of_not_mem hworking]
      rfl
    rw [hbury]
    exact ⟨⟨hinv.alone, hinv.subset, hinv.clean⟩, ⟨hp, hworking⟩,
      fun q _ => ⟨⟨hinv.alone, hinv.subset, hinv.clean⟩, .of_eq rfl rfl⟩⟩

theorem workSystem_sound : Sound workSystem Rely Guarantee (fun _ => Heedful) Inv Idle where
  other i j hij s s' hs hg := ⟨hg.inv hs, hg.others j (Ne.symm hij)⟩
  keeps i s s' hs hg := hg.inv hs
  idle i := stable_idle
  call p d c hc s hinv hs := by
    obtain rfl := Option.some.inj hc
    exact cgi_ok d ⟨hinv, ⟨fun h => absurd h hs.1, nofun⟩, ⟨fun h => absurd h hs.2, nofun⟩⟩
  bury p s hinv := bury_spares hinv

/-- **One process at a time**, and no process removes or makes anew the work directory of another
    that is at work, in every run in which no directory of a live process is removed as stale. -/
theorem work_exclusive (es : List (Event Nat Cgi))
    (hheed : StepsMeet workSystem.step (Machine.Meets fun _ => Heedful) (Machine.idle Work.boot) es) :
    let s := (run workSystem.step (Machine.idle Work.boot) es).memory
    s.working.length ≤ 1 ∧ s.inside.length ≤ 1 ∧ s.trespassed = false := by
  intro s
  have hinv : Inv s := workSystem_sound.run ⟨.inl rfl, .inl rfl, rfl⟩
    (fun p => ⟨List.not_mem_nil, List.not_mem_nil⟩) hheed
  have hinside : s.inside.length ≤ 1 := by
    obtain hnone | ⟨p, hp, -⟩ := hinv.alone
    · rw [hnone]
      exact Nat.zero_le _
    · rw [hp]
      exact Nat.le_refl _
  refine ⟨?_, hinside, hinv.clean⟩
  obtain hidle | hsame := hinv.subset
  · rw [hidle]
    exact Nat.zero_le _
  · rwa [hsame]

/-- A CGI that nothing fails and no signal ends. -/
def easy : Cgi := ⟨true, true, true, true, 3⟩

instance (s s' : Work) : Decidable (Heedful s s') :=
  inferInstanceAs (Decidable (s.recovered < s'.recovered → s.inside = []))

/-- Process `p` takes `n` steps. -/
def steps (p n : Nat) : List (Event Nat Cgi) := List.replicate n (.step p)

/-- Process 1 is killed at work. -/
def killedAtWork : List (Event Nat Cgi) := .call 1 easy :: steps 1 7 ++ [.kill 1]

/-- Process 2 finds the lock stale, removes it and begins; process 3 finds it held. -/
def oneRecovery : List (Event Nat Cgi) :=
  killedAtWork ++ .call 2 easy :: steps 2 12 ++ .call 3 easy :: steps 3 5

/-- After a recovery: 2 is at work, and alone. -/
theorem work_exclusive_recovered :
    let s := (run workSystem.step (Machine.idle Work.boot) oneRecovery).memory
    (s.working.length ≤ 1 ∧ s.inside.length ≤ 1 ∧ s.trespassed = false) ∧
      s.recovered = 1 ∧ s.working = [2] ∧ s.alive 3 = false := by
  have hheed : StepsMeet workSystem.step
      (fun m e => Heedful m.memory (workSystem.step m e).memory) (Machine.idle Work.boot)
      oneRecovery := by decide
  exact ⟨work_exclusive oneRecovery (hheed.mono fun _ _ h => Machine.meets_of_step h),
    by decide⟩

/-- Processes 2 and 3 both find the lock stale, 2 begins, and then 3. -/
def bothRecover : List (Event Nat Cgi) :=
  .call 2 easy :: steps 2 4 ++ .call 3 easy :: steps 3 4 ++ steps 2 8 ++ steps 3 8

def twoRecoveries : List (Event Nat Cgi) := killedAtWork ++ bothRecover

/-- **The second recovery removes the lock of the first**, and its work directory. -/
theorem recovery_removes_lock : ¬ ∀ es : List (Event Nat Cgi),
    let s := (run workSystem.step (Machine.idle Work.boot) es).memory
    s.working.length ≤ 1 ∧ s.trespassed = false := by
  intro h
  have hworking : (run workSystem.step (Machine.idle Work.boot) twoRecoveries).memory.working =
      [3, 2] := by decide
  have hone := (h twoRecoveries).1
  rw [hworking] at hone
  exact absurd hone (by decide)

end YiHack.Config
