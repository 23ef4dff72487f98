/-
  File:      YiHack/Upgrade/Rollback.lean
  Subject:   What `on_exit` leaves.

  * `AllOrNothing` -- what a request may leave: the upgrade complete, or everything as it was;
  * `Clear` -- where the script may be left: with a failure only while no earlier rollback copy has
    the name in `ROLLBACK_INIT`, with success not between the two renames that activate the
    upgrade, and not at all while `on_exit` rolls back;
  * `onExit_safe` -- from there `on_exit` leaves what it may.
-/
import YiHack.Upgrade.Script

namespace YiHack.Upgrade

open General

/-! ## 1. What a request may leave -/

/-- What a request starts from, and the rollback copies of `init.sh` that are to be kept. -/
structure Base where
  disk : Disk
  kept : Name → Bool
  sub : ∀ k, kept k = true → disk.rollbackInit k ≠ none

/-- All copies that are there are to be kept. -/
def Base.all (d : Disk) : Base where
  disk := d
  kept k := (d.rollbackInit k).isSome
  sub _ hk hnone := absurd (hk.symm.trans (congrArg Option.isSome hnone)) nofun

theorem Base.ne {B : Base} {k n : Name} (hk : B.kept k = true) (hn : B.kept n = false) : k ≠ n := by
  rintro rfl
  exact absurd (hk.symm.trans hn) nofun

/-- The old tree, the old `init.sh`, all earlier rollback trees and the copies to be kept are in
    place. -/
structure Untouched (B : Base) (d : Disk) : Prop where
  tree : d.tree = B.disk.tree
  init : d.init = B.disk.init
  trees : ∀ k, B.disk.rollbackTree k ≠ none → d.rollbackTree k = B.disk.rollbackTree k
  inits : ∀ k, B.kept k = true → d.rollbackInit k = B.disk.rollbackInit k

/-- The tree has every file of the archive; what is under `etc` may be the camera's own. -/
def Carries (fw : Payload) (tree : Tree) : Prop :=
  ∀ path content, underEtc path = false → fw.tree.lookup path = some content →
    tree.lookup path = some content

/-- The tree and the `init.sh` of the archive are active. -/
def Complete (B : Base) (d : Disk) : Prop :=
  ∃ fw tree, B.disk.localFw = some fw ∧ d.tree = some tree ∧ Carries fw tree ∧
    fw.init ≠ none ∧ d.init = fw.init

def AllOrNothing (B : Base) (d : Disk) : Prop := Complete B d ∨ Untouched B d

/-- What a request leaves; a failure that was rolled back leaves everything as it was. -/
structure Left (B : Base) (w : World) : Prop where
  disk : AllOrNothing B w.disk
  failed : w.vars.phase = .settled → Untouched B w.disk

/-! ## 2. Where it may be left -/

/-- Where a script may be left, by a signal or an `exit`, with the status found there. -/
def Clear (B : Base) (st : Bool) (w : World) : Prop :=
  w.vars.phase ≠ .rolling ∧
    (w.vars.trapped = true → (st = true → w.vars.phase ≠ .moving) ∧
      (st = false → B.kept w.vars.initName = false))

instance (B : Base) (st : Bool) (w : World) : Decidable (Clear B st w) :=
  inferInstanceAs (Decidable (_ ∧ _))

/-- The commands of the rollback do not fail. -/
def Works (w : World) (ok : Bool) : Prop := w.vars.phase = .rolling → ok = true

instance (w : World) (ok : Bool) : Decidable (Works w ok) := inferInstanceAs (Decidable (_ → _))

/-- What the phase says of the disk. -/
structure Phased (B : Base) (w : World) : Prop where
  before : w.vars.phase = .before → Untouched B w.disk
  active : w.vars.phase = .active → Complete B w.disk
  running : w.vars.phase ≠ .rolling ∧ w.vars.phase ≠ .settled

/-- The variables tell `rollback` what to undo. -/
structure Restorable (B : Base) (w : World) : Prop where
  init : (w.vars.initInstalled = false ∧ w.disk.init = B.disk.init) ∨
    (w.vars.initInstalled = true ∧ w.disk.rollbackInit w.vars.initName = B.disk.init ∧
      hasSize B.disk.init = true)
  tree : (w.vars.oldMoved = false ∧ w.vars.newMoved = false ∧ w.disk.tree = B.disk.tree) ∨
    (w.vars.oldMoved = true ∧ w.disk.rollbackTree w.vars.treeName = B.disk.tree ∧ B.disk.tree ≠ none ∧
      B.disk.rollbackTree w.vars.treeName = none ∧ (w.vars.newMoved = false → w.disk.tree = none))
  trees : ∀ k, B.disk.rollbackTree k ≠ none → w.disk.rollbackTree k = B.disk.rollbackTree k
  inits : ∀ k, B.kept k = true → w.disk.rollbackInit k = B.disk.rollbackInit k

/-- What holds at every command boundary: under the trap, enough for it; without it, what may be
    left, unless the rollback is under way. -/
def Leavable (B : Base) (st : Bool) (w : World) : Prop :=
  if w.vars.trapped = true then Phased B w ∧ (st = false → Restorable B w)
  else w.vars.phase ≠ .rolling → Left B w

/-- A request that goes well leaves what it may. -/
abbrev Goes (B : Base) {α : Type} (Q : α → Bool → World → Prop) (p : Prog World α) :
    Bool → World → Prop :=
  Prog.Safe Works (Leavable B) Q p

variable {B : Base}

theorem leavable_rolling {st : Bool} {w : World} (ht : w.vars.trapped = false)
    (hp : w.vars.phase = .rolling) : Leavable B st w := by
  unfold Leavable
  rw [if_neg (by rw [ht]; decide)]
  exact fun h => absurd hp h

theorem leavable_out {st : Bool} {w : World} (ht : w.vars.trapped = false)
    (h : Left B w) : Leavable B st w := by
  unfold Leavable
  rw [if_neg (by rw [ht]; decide)]
  exact fun _ => h

theorem leavable_trapped {st : Bool} {w : World} (ht : w.vars.trapped = true) (hp : Phased B w)
    (hr : st = false → Restorable B w) : Leavable B st w := by
  unfold Leavable
  rw [if_pos ht]
  exact ⟨hp, hr⟩

/-! ## 3. rollback -/

/-- The rollback is under way, on the trees and rollback copies that are left to restore. -/
structure Rolling (B : Base) (w : World) : Prop where
  trapped : w.vars.trapped = false
  phase : w.vars.phase = .rolling
  slot : B.kept w.vars.initName = false
  trees : ∀ k, B.disk.rollbackTree k ≠ none → w.disk.rollbackTree k = B.disk.rollbackTree k
  inits : ∀ k, B.kept k = true → w.disk.rollbackInit k = B.disk.rollbackInit k

/-- The trees as `Restorable` has them. -/
def TreeKept (B : Base) (w : World) : Prop :=
  (w.vars.oldMoved = false ∧ w.vars.newMoved = false ∧ w.disk.tree = B.disk.tree) ∨
    (w.vars.oldMoved = true ∧ w.disk.rollbackTree w.vars.treeName = B.disk.tree ∧ B.disk.tree ≠ none ∧
      B.disk.rollbackTree w.vars.treeName = none ∧ (w.vars.newMoved = false → w.disk.tree = none))

theorem Rolling.leavable {w : World} (h : Rolling B w) (st : Bool) : Leavable B st w :=
  leavable_rolling h.trapped h.phase

/-- A command of the rollback ends well where it can. -/
theorem Rolling.command {Q : Bool → Bool → World → Prop} {f : World → Option World} {st : Bool}
    {w w' : World} (h : Rolling B w) (hf : f w = some w') (hQ : Q true true w') :
    Goes B Q (Prog.command f) st w := by
  refine Prog.safe_command (h.leavable st) (fun s' _ hs => ?_) fun hnot => ?_
  · obtain rfl := Option.some.inj (hf.symm.trans hs)
    exact hQ
  · rcases hnot with hno | hnone
    · exact absurd (hno h.phase) (by decide)
    · exact absurd (hf.symm.trans hnone) nofun

theorem Rolling.command_then {α : Type} {Q : α → Bool → World → Prop} {f : World → Option World}
    {g : Bool → Prog World α} {st : Bool} {w w' : World} (h : Rolling B w) (hf : f w = some w')
    (hQ : Goes B Q (g true) true w') : Goes B Q (Prog.command f >>= g) st w :=
  Prog.safe_bind.mpr (h.command (Q := fun a => Goes B Q (g a)) hf hQ)

theorem restoreInit_safe {st : Bool} {w : World} (h : Rolling B w) (htree : TreeKept B w)
    (hinit : (w.vars.initInstalled = false ∧ w.disk.init = B.disk.init) ∨
      (w.vars.initInstalled = true ∧ w.disk.rollbackInit w.vars.initName = B.disk.init ∧
        hasSize B.disk.init = true)) :
    Goes B (fun _ _ w' => Rolling B w' ∧ TreeKept B w' ∧ w'.disk.init = B.disk.init) restoreInit
      st w := by
  refine Prog.test_then (h.leavable _) ?_
  rcases hinit with ⟨hno, hinit⟩ | ⟨hyes, hcopy, hsize⟩
  · rw [hno]
    exact ⟨h, htree, hinit⟩
  · rw [hyes]
    refine Prog.test_then (h.leavable _) ?_
    rw [hcopy, hsize]
    cases hc : B.disk.init with
    | none => exact absurd (hc ▸ hsize) (by decide)
    | some c =>
      have h' : Rolling B { w with disk := { w.disk with init := some c } } :=
        ⟨h.trapped, h.phase, h.slot, h.trees, h.inits⟩
      refine h.command_then (by rw [hcopy, hc]; rfl) ?_
      refine Prog.check_then (h'.leavable _) fun _ _ => ?_
      exact ⟨h', htree, rfl⟩

theorem setAside_safe {st : Bool} {w : World} (h : Rolling B w) (htree : TreeKept B w)
    (hinit : w.disk.init = B.disk.init) :
    Goes B (fun _ _ w' => Rolling B w' ∧ w'.disk.init = B.disk.init ∧
      ((w'.vars.oldMoved = false ∧ w'.disk.tree = B.disk.tree) ∨
        (w'.vars.oldMoved = true ∧ w'.disk.rollbackTree w'.vars.treeName = B.disk.tree ∧
          B.disk.tree ≠ none ∧ B.disk.rollbackTree w'.vars.treeName = none ∧ w'.disk.tree = none)))
      setAside st w := by
  refine Prog.test_then (h.leavable _) ?_
  rcases htree with ⟨hold, hnew, htree⟩ | ⟨hold, hcopy, hsome, hfree, hnone⟩
  · rw [hnew]
    exact ⟨h, hinit, .inl ⟨hold, htree⟩⟩
  · cases hnew : w.vars.newMoved with
    | false => exact ⟨h, hinit, .inr ⟨hold, hcopy, hsome, hfree, hnone hnew⟩⟩
    | true =>
      refine Prog.test_then (h.leavable _) ?_
      cases ht : w.disk.tree with
      | none => exact ⟨h, hinit, .inr ⟨hold, hcopy, hsome, hfree, ht⟩⟩
      | some t =>
        have h' : Rolling B { w with disk := { w.disk with failedTree := none } } :=
          ⟨h.trapped, h.phase, h.slot, h.trees, h.inits⟩
        refine h.command_then rfl ?_
        refine h'.command_then (by simp only [ht]; rfl) ?_
        exact ⟨⟨h.trapped, h.phase, h.slot, h.trees, h.inits⟩, hinit,
          .inr ⟨hold, hcopy, hsome, hfree, rfl⟩⟩

theorem restoreTree_safe {st : Bool} {w : World} (h : Rolling B w)
    (hinit : w.disk.init = B.disk.init)
    (htree : (w.vars.oldMoved = false ∧ w.disk.tree = B.disk.tree) ∨
      (w.vars.oldMoved = true ∧ w.disk.rollbackTree w.vars.treeName = B.disk.tree ∧
        B.disk.tree ≠ none ∧ B.disk.rollbackTree w.vars.treeName = none ∧ w.disk.tree = none)) :
    Goes B (fun _ _ w' => Rolling B w' ∧ w'.disk.init = B.disk.init ∧ w'.disk.tree = B.disk.tree)
      restoreTree st w := by
  refine Prog.test_then (h.leavable _) ?_
  rcases htree with ⟨hold, htree⟩ | ⟨hold, hcopy, hsome, hfree, hnone⟩
  · rw [hold]
    exact ⟨h, hinit, htree⟩
  · rw [hold]
    refine Prog.test_then (h.leavable _) ?_
    cases ht : B.disk.tree with
    | none => exact absurd ht hsome
    | some t =>
      rw [hcopy, ht]
      refine h.command_then (by rw [hcopy, ht]; rfl) ?_
      refine ⟨⟨h.trapped, h.phase, h.slot, fun k hk => ?_, h.inits⟩, hinit, ?_⟩
      · have hne : k ≠ w.vars.treeName := fun heq => hk (heq ▸ hfree)
        exact (Function.update_of_ne hne _ _).trans (h.trees k hk)
      · show some (mvTree _ t w.disk.tree) = some t
        rw [hnone]
        rfl

/-- **The rollback leaves everything as it was.** -/
theorem rollback_safe {st : Bool} {w : World} (h : Restorable B w)
    (ht : w.vars.trapped = false) (hp : w.vars.phase = .rolling)
    (hslot : B.kept w.vars.initName = false) :
    Goes B (fun _ _ w' => w'.vars.trapped = false ∧ w'.vars.phase ≠ .rolling ∧
      Untouched B w'.disk) rollback st w := by
  have hroll : Rolling B w := ⟨ht, hp, hslot, h.trees, h.inits⟩
  refine Prog.assign_then (hroll.leavable _) ?_
  refine Prog.Safe.bind (restoreInit_safe hroll h.tree h.init) ?_
  rintro _ _ w₁ ⟨h₁, htree, hinit⟩
  refine Prog.Safe.bind (setAside_safe h₁ htree hinit) ?_
  rintro _ _ w₂ ⟨h₂, hinit, htree⟩
  refine Prog.Safe.bind (restoreTree_safe h₂ hinit htree) ?_
  rintro _ _ w₃ ⟨h₃, hinit, htree⟩
  refine h₃.command_then rfl ?_
  refine Prog.safe_assign (leavable_rolling h₃.trapped h₃.phase) ?_
  refine ⟨h₃.trapped, nofun, htree, hinit, h₃.trees, fun k hk => ?_⟩
  have hne : k ≠ w₃.vars.initName := Base.ne hk h₃.slot
  exact (Function.update_of_ne hne _ _).trans (h₃.inits k hk)

/-! ## 4. on_exit -/

/-- What matters of two disks is the same. -/
structure SameSystem (d d' : Disk) : Prop where
  tree : d'.tree = d.tree
  init : d'.init = d.init
  trees : d'.rollbackTree = d.rollbackTree
  inits : d'.rollbackInit = d.rollbackInit

theorem Untouched.same {d d' : Disk} (h : Untouched B d) (hs : SameSystem d d') :
    Untouched B d' where
  tree := hs.tree.trans h.tree
  init := hs.init.trans h.init
  trees := fun k hk => (congrFun hs.trees k).trans (h.trees k hk)
  inits := fun k hk => (congrFun hs.inits k).trans (h.inits k hk)

theorem Complete.same {d d' : Disk} (h : Complete B d) (hs : SameSystem d d') :
    Complete B d' := by
  obtain ⟨fw, tree, hfw, htree, hcarries, hne, hinit⟩ := h
  exact ⟨fw, tree, hfw, hs.tree.trans htree, hcarries, hne, hs.init.trans hinit⟩

/-- Outside the trap, with what may be left. -/
structure Out (B : Base) (w : World) : Prop where
  trapped : w.vars.trapped = false
  left : Left B w

theorem Out.leavable {w : World} (h : Out B w) (st : Bool) : Leavable B st w :=
  leavable_out h.trapped h.left

/-- A command on other files. -/
theorem Out.command_then {α : Type} {Q : α → Bool → World → Prop} {f : World → Option World}
    {g : Bool → Prog World α} {st : Bool} {w : World} (h : Out B w)
    (hf : ∀ w', f w = some w' → w'.vars.trapped = w.vars.trapped ∧
      w'.vars.phase = w.vars.phase ∧ SameSystem w.disk w'.disk)
    (hg : ∀ ok w', Out B w' → Goes B Q (g ok) ok w') :
    Goes B Q (Prog.command f >>= g) st w := by
  refine Prog.command_then (h.leavable st) (fun w' _ hw' => ?_) fun _ => hg false w h
  obtain ⟨ht, hphase, hsame⟩ := hf w' hw'
  refine hg true w' ⟨ht.trans h.trapped, ?_, fun hs => ?_⟩
  · exact h.left.disk.imp (fun hc => hc.same hsame) fun hu => hu.same hsame
  · exact (h.left.failed (hphase.symm.trans hs)).same hsame

theorem cleanup_safe {st : Bool} {w : World} (h : Out B w) :
    Goes B (fun _ _ w' => Out B w') cleanup st w := by
  refine h.command_then ?_ fun _ w₁ h₁ => ?_
  · rintro w' ⟨⟩
    exact ⟨rfl, rfl, rfl, rfl, rfl, rfl⟩
  refine h₁.command_then ?_ fun _ w₂ h₂ => ?_
  · rintro w' ⟨⟩
    exact ⟨rfl, rfl, rfl, rfl, rfl, rfl⟩
  refine h₂.command_then ?_ fun _ w₃ h₃ => h₃
  intro w' hw'
  split at hw'
  · cases hw'
    exact ⟨rfl, rfl, rfl, rfl, rfl, rfl⟩
  · exact absurd hw' nofun

/-- **From where it may be entered, `on_exit` leaves what it may.** -/
theorem onExit_safe {rc : Bool} {w : World} (ht : w.vars.trapped = true) (hp : Phased B w)
    (hr : rc = false → Restorable B w) (hclear : Clear B rc w) :
    Goes B (fun _ _ w' => Left B w') (onExit rc) rc w := by
  obtain ⟨hmoving, hslot⟩ := hclear.2 ht
  refine Prog.assign_then (leavable_trapped ht hp hr) ?_
  refine Prog.assign_then (leavable_trapped ht hp nofun) ?_
  have hleave : ∀ {st : Bool} {w' : World}, Out B w' →
      Goes B (fun (_ : Unit) _ w' => Left B w')
        (cleanup >>= fun _ => Prog.exit rc) st w' := by
    intro st w' h
    exact Prog.Safe.bind (cleanup_safe h) fun _ _ w₁ h₁ =>
      Prog.safe_exit (h₁.leavable _) (h₁.leavable _)
  cases rc with
  | true =>
    have hleft : AllOrNothing B w.disk := by
      cases hphase : w.vars.phase with
      | before => exact .inr (hp.before hphase)
      | moving => exact absurd hphase (hmoving rfl)
      | active => exact .inl (hp.active hphase)
      | rolling => exact absurd hphase hp.running.1
      | settled => exact absurd hphase hp.running.2
    have hout : Out B { w with vars := { w.vars with trapped := false } } :=
      ⟨rfl, hleft, fun hs => absurd hs hp.running.2⟩
    exact Prog.test_then (hout.leavable _) (hleave hout)
  | false =>
    refine Prog.test_then (leavable_rolling rfl rfl) ?_
    refine Prog.Safe.bind (rollback_safe ?_ rfl rfl (hslot rfl)) ?_
    · have h := hr rfl
      exact ⟨h.init, h.tree, h.trees, h.inits⟩
    · rintro _ _ w' ⟨htrap, -, huntouched⟩
      exact hleave ⟨htrap, .inr huntouched, fun _ => huntouched⟩

/-- **Leaving the script where it may be left goes well.** -/
theorem enter_safe (st : Bool) (w : World) (hN : Leavable B st w) (hclear : Clear B st w) :
    (trap.enter st w).Safe Works (Leavable B) (Left B) := by
  unfold Leavable at hN
  unfold Trap.enter
  cases ht : w.vars.trapped with
  | true =>
    rw [if_pos ht] at hN
    rw [if_pos (show trap.on w = true from ht)]
    exact onExit_safe ht hN.1 hN.2 hclear
  | false =>
    rw [if_neg (by rw [ht]; decide)] at hN
    rw [if_neg (show ¬ trap.on w = true from fun h => absurd (ht.symm.trans h) nofun)]
    exact hN hclear.1

end YiHack.Upgrade
