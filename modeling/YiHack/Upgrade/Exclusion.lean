/-
  File:      YiHack/Upgrade/Exclusion.lean
  Subject:   Web upgrades that run side by side.

  Any number of requests, their commands in any order, and other processes that come and go. A
  request has the lock from its `mkdir` to the `rmdir` of its own cleanup (`Host.held`).

  * `Disturbs` -- the request is in `on_exit` with files left to remove, or about to remove the lock
    as stale;
  * `outsider_step` -- a request that does not disturb changes no file while another has the lock;
  * **`upgrades_exclude`** -- if none without the lock disturbs the one with it, one at most has the
    lock, and what it rolls back is as it was when it took it;
  * `upgrades_overlap` -- a refused request takes lock and rollback copy from the running one.
-/
import YiHack.Upgrade.Holder

namespace YiHack.Upgrade

open General

/-! ## 1. Requests side by side -/

/-- A request under way. -/
structure Proc where
  prog : Prog World Unit
  status : Bool
  vars : Vars

/-- The disk they share, and the requests by their pid. -/
structure Host where
  disk : Disk
  procs : Nat → Option Proc

/-- A request comes in, another process starts or ends, a request takes a step. -/
inductive Event
  | request (pid : Nat) (modelSuffix fwVersion : Bytes)
  | process (pid : Nat) (lives : Bool)
  | step (pid : Nat) (i : Input)

def Proc.on (p : Proc) (d : Disk) : Config World := ⟨p.prog, p.status, ⟨d, p.vars⟩⟩

def Disk.setProc (d : Disk) (pid : Nat) (lives : Bool) : Disk :=
  { d with proc := Function.update d.proc pid lives }

/-- What a step has left of a request; a request that is over is a process no more. -/
def Host.put (h : Host) (pid : Nat) (c : Config World) : Host :=
  if c.over then ⟨c.state.disk.setProc pid false, Function.update h.procs pid none⟩
  else ⟨c.state.disk, Function.update h.procs pid (some ⟨c.prog, c.status, c.state.vars⟩)⟩

def Host.step (h : Host) : Event → Host
  | .request pid modelSuffix fwVersion =>
    if (h.procs pid).isNone && !h.disk.proc pid then
      ⟨h.disk.setProc pid true,
        Function.update h.procs pid (some ⟨upgrade, true, startVars pid modelSuffix fwVersion⟩)⟩
    else h
  | .process pid lives =>
    if (h.procs pid).isNone then { h with disk := h.disk.setProc pid lives } else h
  | .step pid i =>
    match h.procs pid with
    | none => h
    | some p => h.put pid ((p.on h.disk).step trap i)

/-- No request is under way. -/
def idleHost (d : Disk) : Host := ⟨d, fun _ => none⟩

/-- The disk a request has taken the lock on. -/
def Host.held (h : Host) (pid : Nat) : Option Disk := (h.procs pid).bind fun p => p.vars.held

/-- The next command removes the lock. -/
def RemovesLock (c : Config World) : Prop :=
  c.state.disk.lock.isSome = true ∧ (c.step trap (.outcome true)).state.disk.lock = none

/-- The request is in `on_exit`, with something left to do on the files, or it removes the lock as
    stale. -/
def Disturbs (c : Config World) : Prop :=
  (c.state.vars.trapped = false ∧ ¬ c.prog.Leaves World.disk) ∨ RemovesLock c

/-- What is asked of a step: a request without the lock does not disturb the one that has it. -/
def Orderly (h : Host) : Event → Prop
  | .step pid _ => ∀ p, h.procs pid = some p → p.vars.held = none → (∃ q, h.held q ≠ none) →
      ¬ Disturbs (p.on h.disk)
  | _ => True

/-- The commands of the rollback work, for the request with the lock. -/
def Undoes (h : Host) : Event → Prop
  | .step pid i => ∀ p, h.procs pid = some p → p.vars.held ≠ none →
      (p.on h.disk).Meets Works (fun _ _ => True) i
  | _ => True

/-- The request that takes the step. -/
def Event.actor : Event → Option Nat
  | .step pid _ => some pid
  | _ => none

/-! ## 2. What holds in every state -/

/-- Every request waits for the lock or has it, and one at most has it. -/
structure Sound (K : Prop) (h : Host) : Prop where
  each : ∀ pid p, h.procs pid = some p →
    Waits K p.prog p.vars ∨ ∃ d, Locked K d p.prog p.status ⟨h.disk, p.vars⟩
  one : ∀ p q, h.held p ≠ none → h.held q ≠ none → p = q

theorem Locked.settled {d : Disk} {p : Prog World Unit} {st : Bool} {w : World}
    (h : Locked True d p st w) : Settled (Base.bare d) w := by
  have hnow : ∀ st', Restores (Base.bare d) st' w → Settled (Base.bare d) w := by
    intro st' hr
    unfold Restores at hr
    split at hr
    · exact fun hs => absurd hs hr.1.running.2
    · exact hr
  have hkeeps := h.keeps trivial
  cases p with
  | pure _ => exact hkeeps
  | exit _ => exact hnow _ hkeeps.1
  | cmd _ _ => exact hnow _ hkeeps.1

variable {K : Prop} {h : Host}

theorem held_of {pid : Nat} {p : Proc} (hp : h.procs pid = some p) : h.held pid = p.vars.held := by
  unfold Host.held
  rw [hp]
  rfl

theorem exists_of_held {pid : Nat} (hheld : h.held pid ≠ none) :
    ∃ p, h.procs pid = some p ∧ p.vars.held ≠ none := by
  cases hp : h.procs pid with
  | none => exact absurd (by unfold Host.held; rw [hp]; rfl) hheld
  | some p => exact ⟨p, rfl, held_of hp ▸ hheld⟩

/-- The request with the lock. -/
theorem Sound.locked (hs : Sound K h) {pid : Nat} (hheld : h.held pid ≠ none) :
    ∃ p d, h.procs pid = some p ∧ Locked K d p.prog p.status ⟨h.disk, p.vars⟩ := by
  obtain ⟨p, hp, hsome⟩ := exists_of_held hheld
  rcases hs.each pid p hp with hwaits | ⟨d, hlocked⟩
  · exact absurd hwaits.held hsome
  · exact ⟨p, d, hp, hlocked⟩

/-- **A request without the lock that does not disturb changes no file** while another has it. -/
theorem outsider_step (hs : Sound K h) {pid q : Nat} {p : Proc} {i : Input} (hq : h.held q ≠ none)
    (hne : pid ≠ q) (hp : h.procs pid = some p) (ho : Orderly h (.step pid i)) :
    ((p.on h.disk).step trap i).state.disk = h.disk ∧
      Waits K ((p.on h.disk).step trap i).prog ((p.on h.disk).step trap i).state.vars := by
  obtain ⟨r, d, hr, hlocked⟩ := hs.locked hq
  have hlock : h.disk.lock.isSome = true := hlocked.lock
  have hnone : p.vars.held = none := by
    by_contra hsome
    exact hne (hs.one pid q (held_of hp ▸ hsome) hq)
  have hcalm := ho p hp hnone ⟨q, hq⟩
  have hwaits : Waits K p.prog p.vars := by
    rcases hs.each pid p hp with hwaits | ⟨d', hl⟩
    · exact hwaits
    · exact absurd (hnone.symm.trans hl.held) nofun
  rcases waits_step (c := p.on h.disk) (i := i) hwaits with ⟨hdisk, hnext⟩ | ⟨hfree, -⟩
  · refine ⟨?_, hnext⟩
    cases ht : p.vars.trapped with
    | true =>
      rcases hdisk ht with hsame | ⟨hi, hgone⟩
      · exact hsame
      · exact absurd (.inr ⟨hlock, hi ▸ hgone⟩) hcalm
    | false =>
      by_contra hchanged
      exact hcalm (.inl ⟨ht, fun hleaves => hchanged (idle_step hleaves)⟩)
  · have hfree : h.disk.lock = none := hfree
    rw [hfree] at hlock
    exact absurd hlock nofun

/-- Of the disk a request leaves, the others see the files. -/
theorem put_disk (h : Host) (pid : Nat) (c : Config World) :
    ∃ proc, (h.put pid c).disk = { c.state.disk with proc := proc } := by
  unfold Host.put
  split
  · exact ⟨_, rfl⟩
  · exact ⟨_, rfl⟩

theorem put_other {pid q : Nat} (c : Config World) (hne : q ≠ pid) :
    (h.put pid c).procs q = h.procs q := by
  unfold Host.put
  split
  · exact Function.update_of_ne hne _ _
  · exact Function.update_of_ne hne _ _

theorem put_self {pid : Nat} {c : Config World} {p : Proc} (hp : (h.put pid c).procs pid = some p) :
    p = ⟨c.prog, c.status, c.state.vars⟩ ∧ (h.put pid c).disk = c.state.disk := by
  unfold Host.put at hp ⊢
  split at hp
  · exact absurd ((Function.update_self _ _ _).symm.trans hp) nofun
  · next hover =>
    replace hp := (Function.update_self pid _ h.procs).symm.trans hp
    rw [if_neg hover]
    exact ⟨(Option.some.inj hp).symm, rfl⟩

/-- A step of one request; the others wait, or the step changes no file. -/
theorem put_sound (hs : Sound K h) {pid : Nat} {c : Config World}
    (hmine : Waits K c.prog c.state.vars ∨ ∃ d, Locked K d c.prog c.status c.state)
    (hothers : ∀ q, q ≠ pid → h.held q ≠ none →
      c.state.disk = h.disk ∧ Waits K c.prog c.state.vars) : Sound K (h.put pid c) where
  each := by
    intro q p hp
    by_cases hq : q = pid
    · subst hq
      obtain ⟨rfl, hdisk⟩ := put_self hp
      rw [hdisk]
      exact hmine
    · rw [put_other c hq] at hp
      refine (hs.each q p hp).imp_right ?_
      intro hd
      obtain ⟨d, hl⟩ := hd
      have hheld : h.held q ≠ none := by
        rw [held_of hp, hl.held]
        nofun
      obtain ⟨proc, hdisk⟩ := put_disk h pid c
      rw [hdisk, (hothers q hq hheld).1]
      exact ⟨d, hl.withProc proc⟩
  one := by
    have hlone : ∀ q, q ≠ pid → (h.put pid c).held pid ≠ none → (h.put pid c).held q ≠ none →
        False := by
      intro q hq hpid hheld
      obtain ⟨p, hp, hsome⟩ := exists_of_held hpid
      obtain ⟨rfl, -⟩ := put_self hp
      have hold : h.held q ≠ none := by
        unfold Host.held at hheld ⊢
        rwa [put_other c hq] at hheld
      exact hsome (hothers q hq hold).2.held
    intro p q hp hq
    by_cases hpp : p = pid <;> by_cases hqp : q = pid
    · exact hpp.trans hqp.symm
    · exact (hlone q hqp (hpp ▸ hp) hq).elim
    · exact (hlone p hpp (hqp ▸ hq) hp).elim
    · unfold Host.held at hp hq
      rw [put_other c hpp] at hp
      rw [put_other c hqp] at hq
      exact hs.one p q hp hq

/-- Another process comes or goes. -/
theorem Sound.setProc (hs : Sound K h) (pid : Nat) (lives : Bool) :
    Sound K { h with disk := h.disk.setProc pid lives } where
  each q p hp := (hs.each q p hp).imp_right fun hl => hl.imp fun _ hl => hl.withProc _
  one := hs.one

/-- A request comes in. -/
theorem Sound.request (hs : Sound K h) (pid : Nat) (modelSuffix fwVersion : Bytes) :
    Sound K ⟨h.disk, Function.update h.procs pid
      (some ⟨upgrade, true, startVars pid modelSuffix fwVersion⟩)⟩ := by
  have hprocs : ∀ q p, Function.update h.procs pid
      (some ⟨upgrade, true, startVars pid modelSuffix fwVersion⟩) q = some p →
      (p.prog = upgrade ∧ Fresh p.vars) ∨ h.procs q = some p := by
    intro q p hp
    rw [Function.update_apply] at hp
    split at hp
    · obtain rfl := Option.some.inj hp
      exact .inl ⟨rfl, fresh_start _ _ _⟩
    · exact .inr hp
  have hheld : ∀ q, Host.held ⟨h.disk, Function.update h.procs pid
      (some ⟨upgrade, true, startVars pid modelSuffix fwVersion⟩)⟩ q ≠ none → h.held q ≠ none := by
    intro q hq
    obtain ⟨p, hp, hsome⟩ := exists_of_held hq
    rcases hprocs q p hp with ⟨-, hfresh⟩ | hold
    · exact absurd hfresh.held hsome
    · rwa [held_of hold]
  refine ⟨fun q p hp => ?_, fun p q hp hq => hs.one p q (hheld p hp) (hheld q hq)⟩
  rcases hprocs q p hp with ⟨hprog, hfresh⟩ | hold
  · rw [hprog]
    exact .inl (upgrade_waits hfresh)
  · exact hs.each q p hold

/-- **A step that is orderly keeps it.** -/
theorem step_sound (hs : Sound K h) {e : Event} (ho : Orderly h e) (hu : K → Undoes h e) :
    Sound K (h.step e) := by
  cases e with
  | request pid modelSuffix fwVersion =>
    simp only [Host.step]
    split
    · exact (hs.setProc pid true).request pid modelSuffix fwVersion
    · exact hs
  | process pid lives =>
    simp only [Host.step]
    split
    · exact hs.setProc pid lives
    · exact hs
  | step pid i =>
    simp only [Host.step]
    cases hp : h.procs pid with
    | none => exact hs
    | some p =>
      refine put_sound hs ?_ fun q hq hheld => outsider_step hs hheld hq.symm hp ho
      rcases hs.each pid p hp with hwaits | ⟨d, hl⟩
      · rcases waits_step (c := p.on h.disk) (i := i) hwaits with ⟨-, hnext⟩ | ⟨-, hl⟩
        · exact .inl hnext
        · exact .inr ⟨_, hl⟩
      · have hsome : p.vars.held ≠ none := by
          rw [hl.held]
          nofun
        rcases locked_step (c := p.on h.disk) hl (fun hK => hu hK p hp hsome) with hl' | hnext
        · exact .inr ⟨d, hl'⟩
        · exact .inl hnext

theorem idle_sound (d : Disk) : Sound K (idleHost d) where
  each _ _ hp := absurd hp nofun
  one _ _ hp := absurd rfl hp

/-! ## 3. Exclusion -/

/-- **Requests exclude each other** in every run in which none without the lock disturbs the one
    with it: one at most has the lock, the steps of the others change no file, and where the
    commands of its rollback work, what it has rolled back is as it was when it took the lock. -/
theorem upgrades_exclude (d : Disk) (es : List Event)
    (hes : StepsMeet Host.step Orderly (idleHost d) es) :
    let h := run Host.step (idleHost d) es
    (∀ p q, h.held p ≠ none → h.held q ≠ none → p = q) ∧
    (∀ p e, h.held p ≠ none → Orderly h e → e.actor ≠ some p →
      ∃ proc, (h.step e).disk = { h.disk with proc := proc }) ∧
    (StepsMeet Host.step Undoes (idleHost d) es →
      ∀ pid p d₀, h.procs pid = some p → p.vars.held = some d₀ → p.vars.phase = .settled →
        h.disk.init = d₀.init ∧ h.disk.tree = d₀.tree) := by
  intro h
  have hs : Sound False h := run_inv_of (I := Sound False)
    (fun _ _ ho hs => step_sound hs ho False.elim) (idle_sound d) hes
  refine ⟨hs.one, fun p e hheld ho hactor => ?_, fun hundo pid p d₀ hp hheld hphase => ?_⟩
  · cases e with
    | request pid modelSuffix fwVersion =>
      simp only [Host.step]
      split
      · exact ⟨_, rfl⟩
      · exact ⟨_, rfl⟩
    | process pid lives =>
      simp only [Host.step]
      split
      · exact ⟨_, rfl⟩
      · exact ⟨_, rfl⟩
    | step pid i =>
      simp only [Host.step]
      cases hr : h.procs pid with
      | none => exact ⟨_, rfl⟩
      | some r =>
        have hne : pid ≠ p := fun heq => hactor (congrArg some heq)
        obtain ⟨proc, hdisk⟩ := put_disk h pid ((r.on h.disk).step trap i)
        exact ⟨proc, by rw [hdisk, (outsider_step hs hheld hne hr ho).1]⟩
  · have hs : Sound True h := run_inv_of (I := Sound True)
      (fun _ _ ho hs => step_sound hs ho.1 fun _ => ho.2) (idle_sound d) (hes.and hundo)
    rcases hs.each pid p hp with hwaits | ⟨d₁, hl⟩
    · exact absurd (hwaits.held.symm.trans hheld) nofun
    · obtain rfl := Option.some.inj (hl.held.symm.trans hheld)
      have huntouched := hl.settled hphase
      exact ⟨huntouched.init, huntouched.tree⟩

/-! ## 4. Runs -/

def steps (pid n : Nat) : List Event := List.replicate n (.step pid (.outcome true))

/-- Request 7 gets as far as its new `init.sh`, then request 8 is refused. -/
def refused : Host := run Host.step (idleHost sampleDisk)
  ([.request 7 (ascii "y28ga") (ascii "1"), .request 8 (ascii "y28ga") (ascii "1")] ++
    steps 7 59 ++ steps 8 23)

/-- Request 9 comes in. -/
def overlapping : Host :=
  run Host.step refused (.request 9 (ascii "y28ga") (ascii "2") :: steps 9 5)

/-- Request 7 fails. -/
def failed : Host := run Host.step refused (.step 7 (.outcome false) :: steps 7 17)

/-- **A refused request breaks the lock**: after it request 9 has the lock beside request 7, and the
    rollback copy of request 7 is gone, so that its failure leaves the new `init.sh`. -/
theorem upgrades_overlap :
    (overlapping.held 7 ≠ none ∧ overlapping.held 9 ≠ none) ∧
    (refused.held 7 ≠ none ∧ refused.disk.lock = none ∧ refused.disk.manifest = false ∧
      refused.disk.rollbackInit (ascii "1", 0) = none) ∧
    ∃ p d₀, failed.procs 7 = some p ∧ p.vars.held = some d₀ ∧ p.vars.phase = .settled ∧
      failed.disk.init ≠ d₀.init := by
  refine ⟨⟨?_, ?_⟩, ⟨?_, ?_⟩, ?_⟩
  · exact Option.isSome_iff_ne_none.mp (by decide +kernel)
  · exact Option.isSome_iff_ne_none.mp (by decide +kernel)
  · exact Option.isSome_iff_ne_none.mp (by decide +kernel)
  · decide +kernel
  · have hfails : failed.procs 7 |>.any (fun p => p.vars.phase = .settled &&
        p.vars.held.any fun d₀ => failed.disk.init ≠ d₀.init) := by decide +kernel
    obtain ⟨p, hp, hfails⟩ := (Option.any_eq_true _ _).mp hfails
    obtain ⟨hphase, hinit⟩ := Bool.and_eq_true_iff.mp hfails
    obtain ⟨d₀, hheld, hinit⟩ := (Option.any_eq_true _ _).mp hinit
    exact ⟨p, d₀, hp, hheld, of_decide_eq_true hphase, of_decide_eq_true hinit⟩

/-- A request without the lock still has its trap, and its next command does not remove the lock of
    another. -/
def Calm (h : Host) : Event → Prop
  | .step pid _ => ∀ p ∈ h.procs pid, p.vars.held.isSome = true ∨ h.disk.lock.isSome = false ∨
      (p.vars.trapped = true ∧
        ((p.on h.disk).step trap (.outcome true)).state.disk.lock.isSome = true)
  | _ => True

instance (h : Host) (e : Event) : Decidable (Calm h e) :=
  match e with
  | .step pid _ => inferInstanceAs (Decidable (∀ p ∈ h.procs pid, _))
  | .request .. | .process .. => isTrue trivial

instance (h : Host) (e : Event) : Decidable (Undoes h e) :=
  match e with
  | .step pid i => inferInstanceAs (Decidable (∀ p ∈ h.procs pid, p.vars.held ≠ none →
      (p.on h.disk).Meets Works (fun _ _ => True) i))
  | .request .. | .process .. => isTrue trivial

theorem orderly_of_calm (hs : Sound K h) {e : Event} (hcalm : Calm h e) : Orderly h e := by
  cases e with
  | request pid modelSuffix fwVersion => trivial
  | process pid lives => trivial
  | step pid i =>
    intro p hp hnone hholder hdisturbs
    obtain ⟨q, hq⟩ := hholder
    obtain ⟨r, d, hr, hlocked⟩ := hs.locked hq
    have hlock : h.disk.lock.isSome = true := hlocked.lock
    rcases hcalm p hp with hheld | hfree | ⟨htrapped, hkept⟩
    · exact absurd (hnone ▸ hheld) nofun
    · exact absurd (hlock.symm.trans hfree) nofun
    · rcases hdisturbs with ⟨hleft, -⟩ | ⟨-, hgone⟩
      · exact absurd (htrapped.symm.trans hleft) nofun
      · rw [hgone] at hkept
        exact absurd hkept nofun

theorem orderly_of_calms {d : Disk} {es : List Event}
    (hes : StepsMeet Host.step Calm (idleHost d) es) :
    StepsMeet Host.step Orderly (idleHost d) es :=
  .of_inv (I := Sound False) (fun _ _ hs hcalm => orderly_of_calm hs hcalm)
    (fun _ _ ho hs => step_sound hs ho False.elim) (idle_sound d) hes

/-- Request 7 gets as far as its new `init.sh` while request 8 makes its checks; 7 fails, takes all
    back and is over. Then 8 does the same, and once it has taken all back, request 9 is at the
    lock. -/
def inTurn : List Event :=
  [.request 7 (ascii "y28ga") (ascii "1"), .request 8 (ascii "y28ga") (ascii "1")] ++ steps 7 59 ++
    steps 8 4 ++ .step 7 (.outcome false) :: steps 7 23 ++ steps 8 55 ++
    .step 8 (.outcome false) :: steps 8 19 ++ .request 9 (ascii "y28ga") (ascii "1") :: steps 9 4

/-- Where it leads to. -/
def turned : Host := run Host.step (idleHost sampleDisk) inTurn

/-- Request 8 has the lock after request 7, request 9 does not get it, and the disk is as before the
    first of them. -/
theorem turns_exclude :
    turned.held 8 ≠ none ∧ (∀ q, turned.held q ≠ none → q = 8) ∧
    (∃ proc, (turned.step (.step 9 (.outcome true))).disk = { turned.disk with proc := proc }) ∧
    turned.disk.init = sampleDisk.init ∧ turned.disk.tree = sampleDisk.tree := by
  have hmeets : StepsMeet Host.step Orderly (idleHost sampleDisk) inTurn :=
    orderly_of_calms (by decide +kernel)
  have hundoes : StepsMeet Host.step Undoes (idleHost sampleDisk) inTurn := by decide +kernel
  have hexcl := upgrades_exclude sampleDisk inTurn hmeets
  rw [show run Host.step (idleHost sampleDisk) inTurn = turned from rfl] at hexcl
  obtain ⟨hone, hsame, hback⟩ := hexcl
  have hheld : turned.held 8 ≠ none := Option.isSome_iff_ne_none.mp (by decide +kernel)
  have hnine : Orderly turned (.step 9 (.outcome true)) :=
    orderly_of_calm (run_inv_of (I := Sound False) (fun _ _ ho hs => step_sound hs ho False.elim)
      (idle_sound _) hmeets) (by decide +kernel)
  have hsettled : (turned.procs 8).any fun p => p.vars.phase = .settled &&
      p.vars.held.any fun d₀ => d₀.init = sampleDisk.init && d₀.tree = sampleDisk.tree := by
    decide +kernel
  obtain ⟨p, hp, hsettled⟩ := (Option.any_eq_true _ _).mp hsettled
  obtain ⟨hphase, hdisk⟩ := Bool.and_eq_true_iff.mp hsettled
  obtain ⟨d₀, hd₀, hdisk⟩ := (Option.any_eq_true _ _).mp hdisk
  obtain ⟨hinit, htree⟩ := Bool.and_eq_true_iff.mp hdisk
  have hinit : d₀.init = sampleDisk.init := of_decide_eq_true hinit
  have htree : d₀.tree = sampleDisk.tree := of_decide_eq_true htree
  obtain ⟨hinitBack, htreeBack⟩ := hback hundoes 8 p d₀ hp hd₀ (of_decide_eq_true hphase)
  exact ⟨hheld, fun q hq => hone q 8 hq hheld, hsame 8 _ hheld hnine nofun,
    hinitBack.trans hinit, htreeBack.trans htree⟩

end YiHack.Upgrade
