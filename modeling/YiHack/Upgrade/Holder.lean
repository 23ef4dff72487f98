/-
  File:      YiHack/Upgrade/Holder.lean
  Subject:   A request as the others see it: waiting for the lock, or with it.

  Other requests change the disk between its commands. Before it has the lock, and once it has given
  it up, nothing is known of the disk (`Waits`); with the lock, nothing changes but which processes
  live (`Ready`).

  * `Gives` -- with the lock: it keeps it, up to the `rmdir` after which it leaves the files alone;
  * `locked_ready`, `ready_step` -- the script from the lock on, and its steps;
  * `upgrade_waits`, `waits_step` -- the script up to the lock, and its steps.
-/
import YiHack.Upgrade.Request

namespace YiHack.Upgrade

open General

/-! ## 1. Processes -/

/-- Other processes live. -/
def World.withProc (proc : Nat → Bool) (w : World) : World :=
  { w with disk := { w.disk with proc := proc } }

/-- The script does not ask which processes live. -/
def Unaware {α : Type} (p : Prog World α) : Prop := ∀ proc, p.Blind (World.withProc proc)

/-- What a request has of the lock. -/
def lockView (w : World) : Bool × Option Disk × Bool :=
  (w.vars.trapped, w.vars.held, w.disk.lock.isSome)

/-- The script neither takes nor gives up the lock, and keeps the trap. -/
structure Tame {α : Type} (p : Prog World α) : Prop where
  leaves : p.Leaves lockView
  unaware : Unaware p

section Tame

variable {α β : Type}

theorem Tame.bind {p : Prog World α} {f : α → Prog World β} (hp : Tame p) (hf : ∀ a, Tame (f a)) :
    Tame (p >>= f) :=
  ⟨hp.leaves.bind fun a => (hf a).leaves,
    fun proc => (hp.unaware proc).bind fun a => (hf a).unaware proc⟩

theorem tame_pure {a : α} : Tame (Prog.pure a) := ⟨trivial, fun _ => trivial⟩

theorem tame_exit {ok : Bool} : Tame (Prog.exit ok : Prog World α) := ⟨trivial, fun _ => trivial⟩

theorem tame_check : Tame Prog.check := ⟨Prog.leaves_check, fun _ => Prog.blind_check⟩

theorem tame_test {p : World → Bool} (hp : ∀ proc w, p (w.withProc proc) = p w) :
    Tame (Prog.test p) :=
  ⟨Prog.leaves_test, fun proc => Prog.blind_test (hp proc)⟩

theorem tame_capture {g : World → α} (hg : ∀ proc w, g (w.withProc proc) = g w) :
    Tame (Prog.capture (fun _ => true) g) :=
  ⟨Prog.leaves_capture, fun proc => Prog.blind_capture (fun _ => rfl) (hg proc)⟩

theorem tame_command {f : World → Option World}
    (hf : ∀ w w', f w = some w' → lockView w' = lockView w)
    (hb : ∀ proc w, f (w.withProc proc) = (f w).map (World.withProc proc)) :
    Tame (Prog.command f) :=
  ⟨Prog.leaves_command hf, fun proc => Prog.blind_command (hb proc)⟩

theorem tame_onDisk {f : Disk → Option Disk}
    (hf : ∀ d d', f d = some d' → d'.lock.isSome = d.lock.isSome)
    (hb : ∀ (proc : Nat → Bool) d,
      f { d with proc := proc } = (f d).map fun d' => { d' with proc := proc }) :
    Tame (onDisk f) := by
  refine tame_command (fun w w' hw' => ?_) fun proc w => ?_
  · obtain ⟨d, hd, rfl⟩ := Option.map_eq_some_iff.mp hw'
    exact congrArg (fun l => (w.vars.trapped, w.vars.held, l)) (hf _ _ hd)
  · show (f { w.disk with proc := proc }).map _ = _
    rw [hb, Option.map_map, Option.map_map]
    rfl

theorem tame_onVars {f : Vars → Vars} (hf : ∀ v, (f v).trapped = v.trapped ∧ (f v).held = v.held) :
    Tame (onVars f) := by
  refine ⟨Prog.leaves_assign fun w => ?_, fun _ => Prog.blind_assign fun _ => rfl⟩
  show ((f w.vars).trapped, (f w.vars).held, _) = _
  rw [(hf w.vars).1, (hf w.vars).2]
  rfl

theorem tame_noop : Tame noop :=
  ⟨Prog.leaves_assign fun _ => rfl, fun _ => Prog.blind_assign fun _ => rfl⟩

theorem tame_ite {c : Prop} [Decidable c] {p q : Prog World α} (hp : Tame p) (hq : Tame q) :
    Tame (if c then p else q) := by
  split
  · exact hp
  · exact hq

/-- A file that is there is given to a command. -/
theorem tame_map {γ : Type} {g : World → Option γ} {k : γ → World → World}
    (hg : ∀ proc w, g (w.withProc proc) = g w) (hk : ∀ c w, lockView (k c w) = lockView w)
    (hb : ∀ proc c w, k c (w.withProc proc) = (k c w).withProc proc) :
    Tame (Prog.command fun w => (g w).map fun c => k c w) := by
  refine tame_command (fun w w' hw' => ?_) fun proc w => ?_
  · obtain ⟨c, -, rfl⟩ := Option.map_eq_some_iff.mp hw'
    exact hk c w
  · rw [hg, Option.map_map]
    exact congrArg (fun h => (g w).map h) (funext fun c => hb proc c w)

theorem tame_die (message : String) : Tame (die message) := by
  refine Tame.bind (tame_command (fun w w' hw' => ?_) fun _ w => ?_) fun _ => tame_exit
  · cases hw'
    rfl
  · rfl

theorem tame_orDie {p : Prog World Bool} {message : String} (hp : Tame p) :
    Tame (orDie p message) :=
  Tame.bind hp fun _ => tame_ite (tame_die message) tame_pure

/-- `if [ ... ]; then ...; fi`. -/
theorem tame_when {p : World → Bool} {q : Prog World Unit}
    (hp : ∀ proc w, p (w.withProc proc) = p w) (hq : Tame q) :
    Tame (Prog.test p >>= fun b => if b = true then q else pure ()) :=
  Tame.bind (tame_test hp) fun _ => tame_ite hq tame_pure

/-- A command on files other than the lock. -/
theorem tame_change {f : Disk → Disk} (hf : ∀ d, (f d).lock.isSome = d.lock.isSome)
    (hb : ∀ (proc : Nat → Bool) d, f { d with proc := proc } = { f d with proc := proc }) :
    Tame (onDisk fun d => some (f d)) := by
  refine tame_onDisk (fun d d' hd => ?_) fun proc d => congrArg some (hb proc d)
  obtain rfl := Option.some.inj hd
  exact hf d

/-- The same, where it needs another file. -/
theorem tame_changeOf {γ : Type} {g : Disk → Option γ} {f : γ → Disk → Disk}
    (hg : ∀ (proc : Nat → Bool) d, g { d with proc := proc } = g d)
    (hf : ∀ c d, (f c d).lock.isSome = d.lock.isSome)
    (hb : ∀ (proc : Nat → Bool) c d, f c { d with proc := proc } = { f c d with proc := proc }) :
    Tame (onDisk fun d => (g d).map fun c => f c d) := by
  refine tame_onDisk (fun d d' hd => ?_) fun proc d => ?_
  · obtain ⟨c, -, rfl⟩ := Option.map_eq_some_iff.mp hd
    exact hf c d
  · rw [hg, Option.map_map]
    exact congrArg (fun h => (g d).map h) (funext fun c => hb proc c d)

end Tame

/-! ## 2. The script -/

theorem tame_rollback : Tame rollback := by
  have hinit : Tame restoreInit := by
    refine tame_when (fun _ _ => rfl) (tame_when (fun _ _ => rfl) ?_)
    refine Tame.bind ?_ fun _ => Tame.bind tame_check fun _ => tame_pure
    exact tame_map (fun _ _ => rfl) (fun _ _ => rfl) fun _ _ _ => rfl
  have haside : Tame setAside := by
    refine tame_when (fun _ _ => rfl) (tame_when (fun _ _ => rfl) ?_)
    refine Tame.bind (tame_change (fun _ => rfl) fun _ _ => rfl) fun _ => ?_
    refine Tame.bind ?_ fun _ => tame_pure
    exact tame_changeOf (fun _ _ => rfl) (fun _ _ => rfl) fun _ _ _ => rfl
  have htree : Tame restoreTree := by
    refine tame_when (fun _ _ => rfl) (tame_when (fun _ _ => rfl) ?_)
    refine Tame.bind ?_ fun _ => tame_pure
    exact tame_map (fun _ _ => rfl) (fun _ _ => rfl) fun _ _ _ => rfl
  refine Tame.bind tame_noop fun _ => Tame.bind hinit fun _ => Tame.bind haside fun _ => ?_
  refine Tame.bind htree fun _ => ?_
  refine Tame.bind (tame_command (fun w w' hw' => ?_) fun _ _ => ?_) fun _ => ?_
  · cases hw'
    rfl
  · rfl
  · exact tame_onVars fun _ => ⟨rfl, rfl⟩

theorem tame_findSlot (n : Nat) : Tame (findSlot n) := by
  induction n with
  | zero => exact tame_pure
  | succ n ih =>
    have hoccupied : Tame occupied :=
      Tame.bind (tame_test fun _ _ => rfl) fun _ => tame_ite tame_pure (tame_test fun _ _ => rfl)
    refine Tame.bind hoccupied fun _ => tame_ite ?_ tame_pure
    refine Tame.bind tame_noop fun _ => ?_
    refine Tame.bind (tame_orDie (tame_test fun _ _ => rfl)) fun _ => ?_
    refine Tame.bind (tame_onVars fun _ => ⟨rfl, rfl⟩) fun _ => ?_
    exact Tame.bind (tame_onVars fun _ => ⟨rfl, rfl⟩) fun _ => ih

theorem tame_reserve : Tame reserve := by
  refine Tame.bind (tame_orDie tame_check) fun _ => Tame.bind (tame_orDie tame_check) fun _ => ?_
  refine Tame.bind (tame_orDie tame_check) fun _ => Tame.bind (tame_orDie tame_check) fun _ => ?_
  exact Tame.bind tame_noop fun _ => tame_findSlot 100

theorem tame_checkArchive : Tame checkArchive := by
  have hboot : ∀ model, Tame (checkBootImage model) := fun model =>
    tame_when (fun _ _ => rfl) (Tame.bind (tame_orDie (tame_test fun _ _ => rfl)) fun _ =>
      tame_orDie tame_check)
  refine Tame.bind (tame_orDie tame_check) fun _ => ?_
  refine Tame.bind (tame_orDie (tame_change (fun _ => rfl) fun _ _ => rfl)) fun _ => ?_
  refine Tame.bind (tame_orDie tame_check) fun _ => Tame.bind (tame_orDie tame_check) fun _ => ?_
  refine Tame.bind (tame_orDie (tame_test fun _ _ => rfl)) fun _ => ?_
  refine Tame.bind (tame_orDie (tame_test fun _ _ => rfl)) fun _ => ?_
  refine Tame.bind (tame_orDie (tame_test fun _ _ => rfl)) fun _ => ?_
  refine Tame.bind (tame_capture fun _ _ => rfl) fun model => ?_
  refine Tame.bind (tame_capture fun _ _ => rfl) fun version => ?_
  refine Tame.bind (tame_orDie tame_check) fun _ => ?_
  refine Tame.bind (tame_orDie (tame_test fun _ _ => rfl)) fun _ => ?_
  exact Tame.bind (hboot model) fun _ => tame_pure

theorem tame_unpack (version : Bytes) : Tame (unpack version) := by
  refine Tame.bind (tame_change (fun _ => rfl) fun _ _ => rfl) fun _ => ?_
  refine Tame.bind (tame_orDie (tame_change (fun _ => rfl) fun _ _ => rfl)) fun _ => ?_
  refine Tame.bind (tame_orDie ?_) fun _ => ?_
  · refine tame_onDisk (fun d d' hd => ?_) fun proc d => ?_
    · split at hd
      · cases hd
        rfl
      · exact absurd hd nofun
    · cases d.localFw <;> cases d.stage <;> rfl
  refine Tame.bind (tame_orDie (tame_test fun _ _ => rfl)) fun _ => ?_
  refine Tame.bind (tame_orDie (tame_test fun _ _ => rfl)) fun _ => ?_
  refine Tame.bind (tame_orDie tame_check) fun _ => ?_
  refine Tame.bind (tame_orDie (tame_test fun _ _ => rfl)) fun _ => ?_
  refine Tame.bind (tame_orDie (tame_test fun _ _ => rfl)) fun _ => ?_
  refine Tame.bind (tame_orDie (tame_change (fun _ => rfl) fun _ _ => rfl)) fun _ => ?_
  refine Tame.bind (tame_orDie tame_check) fun _ => Tame.bind (tame_orDie tame_check) fun _ => ?_
  refine Tame.bind (tame_orDie tame_check) fun _ => tame_when (fun _ _ => rfl) ?_
  refine Tame.bind (tame_orDie tame_check) fun _ => ?_
  exact Tame.bind (tame_orDie (tame_test fun _ _ => rfl)) fun _ => tame_orDie tame_check

theorem tame_prepare : Tame prepare := by
  have hstaged : ∀ f : Disk → Tree → Tree,
      (∀ (proc : Nat → Bool) d t, f { d with proc := proc } t = f d t) → Tame (onStaged f) :=
    fun f hf => tame_changeOf (fun _ _ => rfl) (fun _ _ => rfl) fun proc c d => by rw [hf]
  have hconfig : Tame keepConfig :=
    tame_when (fun _ _ => rfl) (tame_orDie (hstaged _ fun _ _ _ => rfl))
  refine Tame.bind (tame_orDie (hstaged _ fun _ _ _ => rfl)) fun _ => Tame.bind hconfig fun _ => ?_
  refine Tame.bind (hstaged _ fun _ _ _ => rfl) fun _ => Tame.bind (tame_orDie ?_) fun _ => ?_
  · exact tame_map (fun _ _ => rfl) (fun _ _ => rfl) fun _ _ _ => rfl
  refine Tame.bind (tame_orDie (tame_test fun _ _ => rfl)) fun _ => Tame.bind tame_check fun _ => ?_
  refine Tame.bind (tame_change (fun _ => rfl) fun _ _ => rfl) fun _ => ?_
  refine Tame.bind (tame_orDie ?_) fun _ => ?_
  · exact tame_changeOf (fun _ _ => rfl) (fun _ _ => rfl) fun _ _ _ => rfl
  refine Tame.bind (tame_orDie tame_check) fun _ => Tame.bind (tame_orDie tame_check) fun _ => ?_
  exact Tame.bind (tame_orDie tame_check) fun _ => Tame.bind tame_check fun _ => tame_pure

theorem tame_activate (version : Bytes) : Tame (activate version) := by
  refine Tame.bind (tame_orDie ?_) fun _ => ?_
  · exact tame_map (fun _ _ => rfl) (fun _ _ => rfl) fun _ _ _ => rfl
  refine Tame.bind (tame_onVars fun _ => ⟨rfl, rfl⟩) fun _ => Tame.bind (tame_orDie ?_) fun _ => ?_
  · exact tame_changeOf (fun _ _ => rfl) (fun _ _ => rfl) fun _ _ _ => rfl
  refine Tame.bind (tame_onVars fun _ => ⟨rfl, rfl⟩) fun _ => ?_
  refine Tame.bind (tame_orDie (tame_test fun _ _ => rfl)) fun _ => ?_
  refine Tame.bind (tame_orDie (tame_test fun _ _ => rfl)) fun _ => ?_
  refine Tame.bind (tame_orDie tame_check) fun _ => Tame.bind (tame_orDie ?_) fun _ => ?_
  · exact tame_map (fun _ _ => rfl) (fun _ _ => rfl) fun _ _ _ => rfl
  refine Tame.bind (tame_onVars fun _ => ⟨rfl, rfl⟩) fun _ => ?_
  exact Tame.bind (tame_orDie tame_check) fun _ => tame_orDie tame_check

theorem tame_retireFactory (version : Bytes) : Tame (retireFactory version) := by
  refine tame_when (fun _ _ => rfl) (Tame.bind tame_noop fun _ => ?_)
  refine Tame.bind (tame_orDie ?_) fun _ => ?_
  · exact tame_change (fun _ => rfl) fun _ _ => rfl
  · exact tame_orDie (tame_changeOf (fun _ _ => rfl) (fun _ _ => rfl) fun _ _ _ => rfl)

theorem tame_patchKernel : Tame patchKernel := by
  refine tame_when (fun _ _ => rfl) (Tame.bind (tame_orDie tame_check) fun _ => ?_)
  exact Tame.bind (tame_orDie (tame_test fun _ _ => rfl)) fun _ => tame_orDie tame_check

/-! ## 3. The end -/

/-- Nothing is left to do on the files. -/
def Idle {α : Type} (p : Prog World α) : Prop := p.Leaves fun w => (w.disk, w.vars.held)

/-- The script keeps the lock until it has nothing left to do on the files, and sets no trap. -/
def Gives : Prog World Unit → Prop
  | .pure _ => True
  | .exit _ => True
  | .cmd run next => ∀ ok w, ((run ok w).1.vars.trapped = true → w.vars.trapped = true) ∧
      (((run ok w).1.vars.held = w.vars.held ∧
          (run ok w).1.disk.lock.isSome = w.disk.lock.isSome ∧
          Gives (next (run ok w).2 (run ok w).1)) ∨
        ((run ok w).1.vars.held = none ∧ Idle (next (run ok w).2 (run ok w).1)))

/-- What is known of a script that runs with the lock. -/
structure Holding (p : Prog World Unit) : Prop where
  gives : Gives p
  unaware : Unaware p

theorem Tame.holding {α : Type} {p : Prog World α} {f : α → Prog World Unit} (hp : Tame p)
    (hf : ∀ a, Holding (f a)) : Holding (p >>= f) := by
  obtain ⟨hleaves, hunaware⟩ := hp
  refine ⟨?_, fun proc => (hunaware proc).bind fun a => (hf a).unaware proc⟩
  clear hunaware
  show Gives (p.bind f)
  induction p with
  | pure a => exact (hf a).gives
  | exit ok => trivial
  | cmd run next ih =>
    intro ok w
    have hview := hleaves.1 ok w
    simp only [lockView, Prod.mk.injEq] at hview
    obtain ⟨htrapped, hheld, hlock⟩ := hview
    exact ⟨fun h => htrapped ▸ h, .inl ⟨hheld, hlock, ih _ _ (hleaves.2 _ _)⟩⟩

theorem holding_exit {ok : Bool} : Holding (Prog.exit ok) := ⟨trivial, fun _ => trivial⟩

/-- The trap is taken off. -/
theorem holding_untrap {g : Vars → Vars} {f : Unit → Prog World Unit}
    (hg : ∀ v, (g v).trapped = false) (hheld : ∀ v, (g v).held = v.held) (hf : Holding (f ())) :
    Holding (onVars g >>= f) where
  gives _ w :=
    ⟨fun h => absurd ((hg w.vars).symm.trans h) nofun, .inl ⟨hheld w.vars, rfl, hf.gives⟩⟩
  unaware proc := Prog.Blind.bind (Prog.blind_assign fun _ => rfl) fun _ => hf.unaware proc

/-- The `rmdir` ends well, or the lock is kept. -/
theorem holding_cleanup {k : Prog World Unit} (hk : Holding k) (hidle : Idle k) :
    Holding (cleanup >>= fun _ => k) := by
  refine (tame_change (f := fun d => { d with listTmp := false, manifest := false })
    (fun _ => rfl) fun _ _ => rfl).holding fun _ => ?_
  refine (tame_change (f := fun d => { d with lock := d.lock.map fun _ => none })
    (fun _ => Option.isSome_map) fun _ _ => rfl).holding fun _ => ⟨fun ok w => ?_, fun proc => ?_⟩
  · cases ok with
    | false => exact ⟨id, .inl ⟨rfl, rfl, hk.gives⟩⟩
    | true =>
      simp only [if_true]
      split
      · next w' hw' =>
        split at hw'
        · obtain rfl := Option.some.inj hw'
          exact ⟨id, .inr ⟨rfl, hidle⟩⟩
        · exact absurd hw' nofun
      · exact ⟨id, .inl ⟨rfl, rfl, hk.gives⟩⟩
  · refine Prog.Blind.bind (Prog.blind_command fun w => ?_) fun _ => hk.unaware proc
    dsimp only [World.withProc]
    rcases w.disk.lock with _ | _ | _ <;> rfl

/-- `on_exit` once the trap is off. -/
theorem holding_restore (rc : Bool) : Holding (do
    if ← Prog.test fun _ => !rc then
      rollback
    cleanup
    Prog.exit rc) := by
  have hend : Holding (cleanup >>= fun _ => Prog.exit rc) := holding_cleanup holding_exit trivial
  refine Tame.holding (tame_test fun _ _ => rfl) fun b => ?_
  cases b with
  | true => exact tame_rollback.holding fun _ => hend
  | false => exact hend

theorem holding_onExit (rc : Bool) : Holding (onExit rc) :=
  tame_noop.holding fun _ => holding_untrap (fun _ => rfl) (fun _ => rfl) (holding_restore rc)

theorem holding_finish (version : Bytes) : Holding (finish version) := by
  refine (tame_retireFactory version).holding fun _ => tame_patchKernel.holding fun _ => ?_
  refine Tame.holding (tame_change (fun _ => rfl) fun _ _ => rfl) fun _ => ?_
  refine Tame.holding (tame_change (fun _ => rfl) fun _ _ => rfl) fun _ => ?_
  refine tame_check.holding fun _ => tame_check.holding fun _ => tame_check.holding fun _ => ?_
  refine Tame.holding (tame_command (fun w w' hw' => ?_) fun _ _ => ?_) fun _ => ?_
  · cases hw'
    rfl
  · rfl
  refine holding_untrap (fun _ => rfl) (fun _ => rfl) (holding_cleanup ?_ ?_)
  · exact tame_noop.holding fun _ => holding_exit
  · exact Prog.Leaves.bind (Prog.leaves_assign fun _ => rfl) fun _ => trivial

/-- The script from the lock on. -/
def fromLock : Prog World Unit := do
  let _ ← writePid
  reserve
  let archiveVersion ← checkArchive
  unpack archiveVersion
  prepare
  activate archiveVersion
  finish archiveVersion

theorem holding_fromLock : Holding fromLock := by
  have hwrite : Tame writePid := by
    refine tame_command (fun w w' hw' => ?_) fun proc w => ?_
    · obtain ⟨l, hl, rfl⟩ := Option.map_eq_some_iff.mp hw'
      show (_, _, true) = (_, _, w.disk.lock.isSome)
      rw [hl]
      rfl
    · rw [Option.map_map]
      rfl
  refine hwrite.holding fun _ => tame_reserve.holding fun _ => ?_
  refine tame_checkArchive.holding fun version => (tame_unpack version).holding fun _ => ?_
  refine tame_prepare.holding fun _ => (tame_activate version).holding fun _ => ?_
  exact holding_finish version

/-! ## 4. With the lock -/

/-- What a request has rolled back is as it was when it took the lock. -/
def Settled (B : Base) (w : World) : Prop := w.vars.phase = .settled → Untouched B w.disk

/-- Enough for the trap, or for what was rolled back. -/
def Restores (B : Base) (st : Bool) (w : World) : Prop :=
  if w.vars.trapped = true then Phased B w ∧ (st = false → Restorable B w) else Settled B w

/-- No rollback copy is asked for but the request's own. -/
def Base.bare (d : Disk) : Base where
  disk := d
  kept _ := false
  sub _ hk := absurd hk nofun

variable {B : Base}

theorem Leavable.restores {st : Bool} {w : World} (h : Leavable B st w) : Restores B st w := by
  unfold Leavable at h
  unfold Restores
  split at h
  · next ht =>
    rw [if_pos ht]
    exact h
  · next ht =>
    rw [if_neg ht]
    exact fun hs => (h (by rw [hs]; nofun)).failed hs

/-- A script that goes well, for the others. -/
abbrev Keeps (B : Base) (p : Prog World Unit) (st : Bool) (w : World) : Prop :=
  p.Safe Works (Restores B) (fun _ _ w => Settled B w) st w

theorem Goes.keeps {p : Prog World Unit} {st : Bool} {w : World}
    (h : Goes B (fun _ _ w => Left B w) p st w) : Keeps B p st w :=
  (Prog.Safe.imp h (fun _ _ => id) fun _ _ => Leavable.restores).mono fun _ _ _ h => h.failed

/-- `on_exit` after a success rolls nothing back. -/
theorem onExit_success {w : World} (h : Restores B true w) (ht : w.vars.trapped = true) :
    Keeps B (onExit true) true w := by
  unfold Restores at h
  rw [if_pos ht] at h
  have hout : ∀ w' : World, w'.vars.trapped = false → w'.vars.phase = w.vars.phase →
      ∀ st, Restores B st w' := by
    intro w' ht' hphase st
    unfold Restores
    rw [if_neg (by rw [ht']; decide)]
    exact fun hs => absurd (hphase.symm.trans hs) h.1.running.2
  have hleaves : cleanup.Leaves fun w => (w.vars.trapped, w.vars.phase) := by
    refine Prog.Leaves.bind (Prog.leaves_command fun _ _ hw' => ?_) fun _ => ?_
    · cases hw'
      rfl
    refine Prog.Leaves.bind (Prog.leaves_command fun _ _ hw' => ?_) fun _ => ?_
    · cases hw'
      rfl
    refine Prog.Leaves.bind (Prog.leaves_command fun _ _ hw' => ?_) fun _ => trivial
    split at hw'
    · cases hw'
      rfl
    · exact absurd hw' nofun
  have hstill : Restores B true w := by
    unfold Restores
    rw [if_pos ht]
    exact ⟨h.1, nofun⟩
  refine Prog.assign_then hstill (Prog.assign_then hstill ?_)
  refine Prog.test_then (hout { w with vars := { w.vars with trapped := false } } rfl rfl _) ?_
  refine hleaves.then (fun st w' hview => ?_) fun _ st w' hview => ?_
  · exact hout w' (congrArg Prod.fst hview) (congrArg Prod.snd hview) st
  · have hw' := hout w' (congrArg Prod.fst hview) (congrArg Prod.snd hview)
    exact Prog.safe_exit (hw' _) (hw' _)

/-- **A request that is left, wherever that is**, goes well for its own rollback. -/
theorem enter_keeps {d : Disk} (st : Bool) (w : World) (h : Restores (Base.bare d) st w) :
    (trap.enter st w).Safe Works (Restores (Base.bare d)) (Settled (Base.bare d)) := by
  unfold Trap.enter
  cases ht : w.vars.trapped with
  | false =>
    rw [if_neg (show ¬ trap.on w = true from fun h => absurd (ht.symm.trans h) nofun)]
    unfold Restores at h
    rw [if_neg (by rw [ht]; decide)] at h
    exact h
  | true =>
    rw [if_pos (show trap.on w = true from ht)]
    cases st with
    | true => exact onExit_success h ht
    | false =>
      unfold Restores at h
      rw [if_pos ht] at h
      exact Goes.keeps (onExit_safe ht h.1 h.2 ⟨h.1.running.1, fun _ => ⟨nofun, fun _ => rfl⟩⟩)

/-- A request with the lock, which it took on the disk `d`. Under `K` the commands of its rollback
    work. -/
structure Locked (K : Prop) (d : Disk) (p : Prog World Unit) (st : Bool) (w : World) : Prop where
  held : w.vars.held = some d
  lock : w.disk.lock.isSome = true
  holding : Holding p
  keeps : K → Keeps (Base.bare d) p st w

variable {K : Prop}

/-- The request takes the lock. -/
theorem fromLock_locked {d : Disk} {v : Vars} (h : Before (Base.bare d) ⟨d, v⟩) :
    Locked K d fromLock true ⟨{ d with lock := some none }, { v with held := some d }⟩ where
  held := rfl
  lock := rfl
  holding := holding_fromLock
  keeps := fun _ => by
    have hbefore : Before (Base.bare d)
        ⟨{ d with lock := some none }, { v with held := some d }⟩ :=
      ⟨h.trapped, h.phase, h.oldMoved, h.newMoved, h.initInstalled,
        rfl, rfl, rfl, rfl, fun _ _ => rfl⟩
    refine Goes.keeps (hbefore.command_then (fun w' hw' => ?_) fun _ _ h' => locked_safe h')
    obtain rfl := Option.some.inj hw'
    exact hbefore.onDisk ⟨rfl, rfl, rfl, rfl, fun _ _ => rfl⟩

/-! ## 5. Without it -/

/-- The request does not have the lock, and does with the files, before it is in `on_exit`, nothing
    but to remove the lock as stale and to take it. -/
def Waits (K : Prop) : Prog World Unit → Vars → Prop
  | .pure _, v => v.held = none
  | .exit _, v => v.held = none
  | .cmd run next, v => v.held = none ∧ ∀ ok d,
      ((v.trapped = true → (run ok ⟨d, v⟩).1.disk = d ∨
          (ok = true ∧ (run ok ⟨d, v⟩).1.disk.lock = none)) ∧
        Waits K (next (run ok ⟨d, v⟩).2 (run ok ⟨d, v⟩).1) (run ok ⟨d, v⟩).1.vars) ∨
      (d.lock = none ∧ Locked K d (next (run ok ⟨d, v⟩).2 (run ok ⟨d, v⟩).1) (run ok ⟨d, v⟩).2
        (run ok ⟨d, v⟩).1)

theorem Waits.held {p : Prog World Unit} {v : Vars} (h : Waits K p v) : v.held = none := by
  cases p with
  | pure _ => exact h
  | exit _ => exact h
  | cmd _ _ => exact h.1

theorem Idle.waits {p : Prog World Unit} {v : Vars} (hp : Idle p) (hv : v.held = none) :
    Waits K p v := by
  induction p generalizing v with
  | pure _ => exact hv
  | exit _ => exact hv
  | cmd run next ih =>
    refine ⟨hv, fun ok d => .inl ?_⟩
    have hrun := hp.1 ok ⟨d, v⟩
    simp only [Prod.mk.injEq] at hrun
    exact ⟨fun _ => .inl hrun.1, ih _ _ (hp.2 _ _) (hrun.2.trans hv)⟩

/-- In `on_exit`. -/
theorem Gives.waits {p : Prog World Unit} {v : Vars} (hp : Gives p) (hv : v.held = none)
    (ht : v.trapped = false) : Waits K p v := by
  induction p generalizing v with
  | pure _ => exact hv
  | exit _ => exact hv
  | cmd run next ih =>
    refine ⟨hv, fun ok d => .inl ⟨fun h => absurd (ht.symm.trans h) nofun, ?_⟩⟩
    obtain ⟨htrapped, ⟨hheld, -, hnext⟩ | ⟨hheld, hnext⟩⟩ := hp ok ⟨d, v⟩
    · refine ih _ _ hnext (hheld.trans hv) (Bool.eq_false_iff.mpr fun h => ?_)
      exact absurd (ht.symm.trans (htrapped h)) nofun
    · exact hnext.waits hheld

theorem waits_onExit {rc : Bool} {v : Vars} (hv : v.held = none) : Waits K (onExit rc) v := by
  refine ⟨hv, fun ok d => .inl ⟨fun _ => .inl rfl, hv, fun ok d => .inl ⟨fun _ => .inl rfl, ?_⟩⟩⟩
  exact (holding_restore rc).gives.waits hv rfl

/-- The request has done nothing but print. -/
structure Fresh (v : Vars) : Prop where
  held : v.held = none
  before : ∀ d, Before (Base.bare d) ⟨d, v⟩

def unprinted (v : Vars) : Vars := { v with printed := [] }

theorem Fresh.same {v v' : Vars} (h : Fresh v) (hv : unprinted v' = unprinted v) : Fresh v' where
  held := (congrArg Vars.held hv).trans h.held
  before d :=
    have hb := h.before d
    ⟨(congrArg Vars.trapped hv).trans hb.trapped, (congrArg Vars.phase hv).trans hb.phase,
      (congrArg Vars.oldMoved hv).trans hb.oldMoved, (congrArg Vars.newMoved hv).trans hb.newMoved,
      (congrArg Vars.initInstalled hv).trans hb.initInstalled, hb.disk⟩

theorem fresh_start (pid : Nat) (modelSuffix fwVersion : Bytes) :
    Fresh (startVars pid modelSuffix fwVersion) :=
  ⟨rfl, fun d => start_before pid modelSuffix fwVersion (Base.bare d)⟩

/-- The script only asks and prints. -/
abbrev Asks {α : Type} (p : Prog World α) : Prop := p.Leaves fun w => (w.disk, unprinted w.vars)

theorem Asks.waits {α : Type} {p : Prog World α} {f : α → Prog World Unit} {v : Vars} (hp : Asks p)
    (hv : Fresh v) (hf : ∀ a v', Fresh v' → Waits K (f a) v') : Waits K (p >>= f) v := by
  show Waits K (p.bind f) v
  induction p generalizing v with
  | pure a => exact hf a v hv
  | exit _ => exact hv.held
  | cmd run next ih =>
    refine ⟨hv.held, fun ok d => .inl ?_⟩
    have hrun := hp.1 ok ⟨d, v⟩
    simp only [Prod.mk.injEq] at hrun
    exact ⟨fun _ => .inl hrun.1, ih _ _ (hp.2 _ _) (hv.same hrun.2)⟩

theorem asks_print {text : World → List Bytes} : Asks (Prog.command fun w => some { w with
    vars := { w.vars with printed := text w } }) := by
  refine Prog.leaves_command fun w w' hw' => ?_
  cases hw'
  rfl

theorem asks_die {message : String} : Asks (die message) :=
  Prog.Leaves.bind asks_print fun _ => trivial

theorem waits_die {message : String} {f : Unit → Prog World Unit} {v : Vars} (hv : Fresh v) :
    Waits K (die message >>= f) v := by
  rw [die, Prog.bind_assoc]
  exact Asks.waits asks_print hv fun _ _ hv' => hv'.held

theorem asks_orDie {p : Prog World Bool} {message : String} (hp : Asks p) :
    Asks (orDie p message) :=
  Prog.Leaves.bind hp fun _ => Prog.leaves_ite asks_die trivial

theorem waits_mkdirLock {v : Vars} {f : Bool → Prog World Unit} (hv : Fresh v)
    (hdone : f true = fromLock) (hnot : Waits K (f false) v) : Waits K (mkdirLock >>= f) v := by
  refine ⟨hv.held, fun ok d => ?_⟩
  cases ok with
  | false => exact .inl ⟨fun _ => .inl rfl, hnot⟩
  | true =>
    cases hlock : d.lock with
    | none =>
      simp only [if_true, hlock]
      refine .inr ⟨trivial, ?_⟩
      show Locked K d (f true) true _
      rw [hdone]
      exact fromLock_locked (hv.before d)
    | some _ =>
      simp only [if_true, hlock]
      exact .inl ⟨fun _ => .inl trivial, hnot⟩

theorem waits_takeOver {v : Vars} (hv : Fresh v) : Waits K (takeOver >>= fun _ => fromLock) v := by
  have halive : ∀ oldPid, Asks (refuseAlive oldPid) := fun oldPid =>
    Prog.Leaves.bind Prog.leaves_test fun _ => Prog.leaves_ite
      (Prog.Leaves.bind Prog.leaves_test fun _ => Prog.leaves_ite asks_die trivial) trivial
  have hlast : ∀ v', Fresh v' → Waits K (orDie mkdirLock "unable to acquire upgrade lock" >>=
      fun _ => fromLock) v' := fun v' hv' =>
    waits_mkdirLock hv' rfl (waits_die hv')
  have hremove : ∀ v', Fresh v' → Waits K (onDisk (fun d => some { d with lock := none }) >>=
      fun _ => orDie mkdirLock "unable to acquire upgrade lock" >>= fun _ => fromLock) v' := by
    refine fun v' hv' => ⟨hv'.held, fun ok d => .inl ?_⟩
    cases ok with
    | false => exact ⟨fun _ => .inl rfl, hlast v' hv'⟩
    | true => exact ⟨fun _ => .inr ⟨rfl, rfl⟩, hlast v' hv'⟩
  simp only [takeOver, Prog.bind_assoc]
  refine Asks.waits Prog.leaves_capture hv fun oldPid v' hv' => ?_
  exact (halive oldPid).waits hv' fun _ v'' hv'' => hremove v'' hv''

theorem acquire_then (k : Prog World Unit) :
    (acquire >>= fun _ => k) = lockOrTakeOver >>= fun _ => writePid >>= fun _ => k :=
  Prog.bind_assoc ..

/-- **A request up to the lock.** -/
theorem upgrade_waits {v : Vars} (hv : Fresh v) : Waits K upgrade v := by
  have hrefuse : Asks refuse := by
    refine Prog.Leaves.bind (asks_orDie Prog.leaves_test) fun _ => ?_
    refine Prog.Leaves.bind (asks_orDie Prog.leaves_test) fun _ => ?_
    refine Prog.Leaves.bind (asks_orDie Prog.leaves_test) fun _ => ?_
    exact asks_orDie Prog.leaves_test
  refine hrefuse.waits hv fun _ v' hv' => ?_
  rw [acquire_then]
  exact waits_mkdirLock (f := fun ok => (if !ok then takeOver else pure ()) >>= fun _ => fromLock)
    hv' rfl (waits_takeOver hv')

/-! ## 6. Steps -/

theorem Restores.withProc {st : Bool} {w : World} (proc : Nat → Bool) (h : Restores B st w) :
    Restores B st (w.withProc proc) := by
  have hsame : SameSystem w.disk (w.withProc proc).disk := ⟨rfl, rfl, rfl, rfl⟩
  unfold Restores at h ⊢
  cases ht : w.vars.trapped with
  | true =>
    rw [if_pos ht] at h
    rw [if_pos (show (w.withProc proc).vars.trapped = true from ht)]
    obtain ⟨hphased, hrestore⟩ := h
    refine ⟨⟨fun hb => (hphased.before hb).same hsame, fun ha => (hphased.active ha).same hsame,
      hphased.running⟩, fun hst => ?_⟩
    exact ⟨(hrestore hst).init, (hrestore hst).tree, (hrestore hst).trees, (hrestore hst).inits⟩
  | false =>
    rw [if_neg (by rw [ht]; decide)] at h
    rw [if_neg (show ¬ (w.withProc proc).vars.trapped = true by rw [World.withProc, ht]; decide)]
    exact fun hs => (h hs).same hsame

/-- Other requests come and go. -/
theorem Locked.withProc {d : Disk} {p : Prog World Unit} {st : Bool} {w : World}
    (proc : Nat → Bool) (h : Locked K d p st w) : Locked K d p st (w.withProc proc) where
  held := h.held
  lock := h.lock
  holding := h.holding
  keeps hK := (h.holding.unaware proc).safe (fun _ _ => id) (fun _ _ hN => hN.withProc proc)
    (fun _ _ _ hQ hs => (hQ hs).same ⟨rfl, rfl, rfl, rfl⟩) (h.keeps hK)

/-- **A step with the lock**: the request keeps it, or is done with the files. -/
theorem locked_step {d : Disk} {c : Config World} {i : Input}
    (h : Locked K d c.prog c.status c.state) (hi : K → c.Meets Works (fun _ _ => True) i) :
    Locked K d (c.step trap i).prog (c.step trap i).status (c.step trap i).state ∨
      Waits K (c.step trap i).prog (c.step trap i).state.vars := by
  obtain ⟨prog, st, w⟩ := c
  have hkeeps := fun hK => step_safe (fun st s hs _ => enter_keeps st s hs) (hi hK) (h.keeps hK)
  have henter : ∀ st', (K → (trap.enter st' w).Safe Works (Restores (Base.bare d))
      (Settled (Base.bare d))) → Locked K d (trap.enter st' w).prog (trap.enter st' w).status
        (trap.enter st' w).state := by
    intro st'
    unfold Trap.enter
    split
    · exact fun hsafe => ⟨h.held, h.lock, holding_onExit st', hsafe⟩
    · exact fun hsafe => ⟨h.held, h.lock, ⟨trivial, fun _ => trivial⟩, hsafe⟩
  cases prog with
  | pure _ => exact .inl h
  | exit ok =>
    cases i with
    | outcome _ => exact .inl (henter ok hkeeps)
    | signal => exact .inl (henter st hkeeps)
  | cmd run next =>
    cases i with
    | signal => exact .inl (henter st hkeeps)
    | outcome ok =>
      obtain ⟨-, ⟨hheld, hlock, hnext⟩ | ⟨hheld, hidle⟩⟩ := h.holding.gives ok w
      · exact .inl ⟨hheld.trans h.held, hlock.trans h.lock,
          ⟨hnext, fun proc => ((h.holding.unaware proc).2 _ _).2⟩, hkeeps⟩
      · exact .inr (hidle.waits hheld)

/-- **A step without it**: but in `on_exit` the files stay as they are, or the lock is removed or
    taken. -/
theorem waits_step {c : Config World} {i : Input} (h : Waits K c.prog c.state.vars) :
    ((c.state.vars.trapped = true → (c.step trap i).state.disk = c.state.disk ∨
        (i = .outcome true ∧ (c.step trap i).state.disk.lock = none)) ∧
      Waits K (c.step trap i).prog (c.step trap i).state.vars) ∨
    (c.state.disk.lock = none ∧ Locked K c.state.disk (c.step trap i).prog (c.step trap i).status
      (c.step trap i).state) := by
  obtain ⟨prog, st, d, v⟩ := c
  have henter : ∀ st', (v.trapped = true → (trap.enter st' ⟨d, v⟩).state.disk = d) ∧
      Waits K (trap.enter st' ⟨d, v⟩).prog (trap.enter st' ⟨d, v⟩).state.vars := by
    intro st'
    unfold Trap.enter
    split
    · exact ⟨fun _ => rfl, waits_onExit h.held⟩
    · exact ⟨fun _ => rfl, h.held⟩
  cases prog with
  | pure _ => exact .inl ⟨fun _ => .inl rfl, h⟩
  | exit ok =>
    cases i with
    | outcome _ => exact .inl ⟨fun ht => .inl ((henter ok).1 ht), (henter ok).2⟩
    | signal => exact .inl ⟨fun ht => .inl ((henter st).1 ht), (henter st).2⟩
  | cmd run next =>
    cases i with
    | signal => exact .inl ⟨fun ht => .inl ((henter st).1 ht), (henter st).2⟩
    | outcome ok =>
      refine (h.2 ok d).imp (fun hstill => ⟨fun ht => (hstill.1 ht).imp_right fun hgone => ?_,
        hstill.2⟩) id
      exact ⟨congrArg _ hgone.1, hgone.2⟩

/-- Where nothing is left to do on the files, a step changes none. -/
theorem idle_step {c : Config World} {i : Input} (h : c.prog.Leaves World.disk) :
    (c.step trap i).state.disk = c.state.disk := by
  obtain ⟨prog, st, w⟩ := c
  have henter : ∀ st', (trap.enter st' w).state.disk = w.disk := by
    intro st'
    unfold Trap.enter
    split <;> rfl
  cases prog with
  | pure _ => rfl
  | exit ok =>
    cases i with
    | outcome _ => exact henter ok
    | signal => exact henter st
  | cmd run next =>
    cases i with
    | signal => exact henter st
    | outcome ok => exact h.1 ok w

end YiHack.Upgrade
