/-
  File:      YiHack/Upgrade/Request.lean
  Subject:   A web upgrade is all or nothing.

  The script part by part, each with what holds when it is through: `Before`, `Reserved`, `Staged`,
  `Ready`, `Moving`, `Active`. A part that fails is left through `die`, where `on_exit` undoes what
  has been done (`Failing`).

  * `upgrade_safe` -- the whole script goes well;
  * `all_or_nothing` -- a request that is left only where it may be ends complete or undone;
  * `refused_drops_copy`, `signal_loses_tree`, `signal_stops_rollback` -- where it may not.
-/
import YiHack.Upgrade.Rollback

namespace YiHack.Upgrade

open General

variable {B : Base}

/-! ## 1. die -/

/-- The script may fail here. -/
structure Failing (B : Base) (w : World) : Prop where
  trapped : w.vars.trapped = true
  phased : Phased B w
  restorable : Restorable B w

theorem Failing.leavable {w : World} (h : Failing B w) (st : Bool) : Leavable B st w :=
  leavable_trapped h.trapped h.phased fun _ => h.restorable

theorem die_safe {Q : Unit → Bool → World → Prop} {w : World} (h : Failing B w) (message : String)
    (st : Bool) : Goes B Q (die message) st w := by
  refine Prog.command_then (h.leavable st) ?_ fun _ => ?_
  · rintro w' - ⟨⟩
    have h' : Failing B { w with vars := { w.vars with printed := w.vars.printed ++
        [ascii "Firmware upgrade failed: " ++ ascii message ++ [10]] } } :=
      ⟨h.trapped, ⟨h.phased.before, h.phased.active, h.phased.running⟩,
        ⟨h.restorable.init, h.restorable.tree, h.restorable.trees, h.restorable.inits⟩⟩
    exact Prog.safe_exit (h'.leavable _) (h'.leavable _)
  · exact Prog.safe_exit (h.leavable _) (h.leavable _)

section OrDie

variable {α : Type} {Q : α → Bool → World → Prop} {g : Unit → Prog World α} {message : String}
  {st : Bool} {w : World}

theorem orDie_then {p : Prog World Bool}
    (h : Goes B (fun ok st w => if ok then Goes B Q (g ()) st w else Failing B w) p st w) :
    Goes B Q (orDie p message >>= g) st w := by
  refine Prog.Safe.bind (R := fun _ => Goes B Q (g ())) ?_ fun _ _ _ h => h
  refine Prog.Safe.bind h fun ok st' w' hok => ?_
  cases ok with
  | true => exact hok
  | false => exact die_safe hok message st'

theorem orDie_check (hf : Failing B w) (h : Goes B Q (g ()) true w) :
    Goes B Q (orDie Prog.check message >>= g) st w := by
  refine orDie_then (Prog.safe_check (hf.leavable st) fun ok _ => ?_)
  cases ok with
  | true => exact h
  | false => exact hf

theorem orDie_test {p : World → Bool} (hf : Failing B w)
    (h : p w = true → Goes B Q (g ()) true w) :
    Goes B Q (orDie (Prog.test p) message >>= g) st w := by
  refine orDie_then (Prog.safe_test (hf.leavable st) ?_)
  cases hp : p w with
  | true => exact h hp
  | false => exact hf

theorem orDie_command {f : World → Option World} (hf : Failing B w)
    (h : ∀ w', f w = some w' → Goes B Q (g ()) true w') :
    Goes B Q (orDie (Prog.command f) message >>= g) st w := by
  refine orDie_then (Prog.safe_command (hf.leavable st) (fun w' _ hw' => ?_) fun _ => ?_)
  · exact h w' hw'
  · exact hf

end OrDie

/-! ## 2. Before the activation -/

/-- What counts before the activation is as it was. -/
structure SameBase (B : Base) (d : Disk) : Prop where
  localFw : d.localFw = B.disk.localFw
  tree : d.tree = B.disk.tree
  init : d.init = B.disk.init
  trees : d.rollbackTree = B.disk.rollbackTree
  inits : ∀ k, B.kept k = true → d.rollbackInit k = B.disk.rollbackInit k

/-- Nothing has been moved. -/
structure Before (B : Base) (w : World) : Prop where
  trapped : w.vars.trapped = true
  phase : w.vars.phase = .before
  oldMoved : w.vars.oldMoved = false
  newMoved : w.vars.newMoved = false
  initInstalled : w.vars.initInstalled = false
  disk : SameBase B w.disk

theorem Before.failing {w : World} (h : Before B w) : Failing B w where
  trapped := h.trapped
  phased :=
    { before := fun _ => ⟨h.disk.tree, h.disk.init, fun k _ => congrFun h.disk.trees k, h.disk.inits⟩
      active := fun ha => absurd (h.phase.symm.trans ha) nofun
      running := by rw [h.phase]; exact ⟨nofun, nofun⟩ }
  restorable :=
    { init := .inl ⟨h.initInstalled, h.disk.init⟩
      tree := .inl ⟨h.oldMoved, h.newMoved, h.disk.tree⟩
      trees := fun k _ => congrFun h.disk.trees k
      inits := h.disk.inits }

/-- Another file changes. -/
theorem Before.onDisk {w : World} (h : Before B w) {d : Disk} (hd : SameBase B d) :
    Before B { w with disk := d } :=
  ⟨h.trapped, h.phase, h.oldMoved, h.newMoved, h.initInstalled, hd⟩

theorem refuse_safe {st : Bool} {w : World} (h : Before B w) :
    Goes B (fun _ _ w' => Before B w') refuse st w := by
  refine orDie_test h.failing fun _ => ?_
  refine orDie_test h.failing fun _ => ?_
  refine orDie_test h.failing fun _ => ?_
  exact Prog.safe_last (orDie_test h.failing fun _ => h)

section Rest

variable {α : Type} {Q : α → Bool → World → Prop} {g : Bool → Prog World α} {st : Bool} {w : World}

/-- A command on files that do not count. -/
theorem Before.command_then {f : World → Option World} (h : Before B w)
    (hf : ∀ w', f w = some w' → Before B w')
    (hg : ∀ ok w', Before B w' → Goes B Q (g ok) ok w') :
    Goes B Q (Prog.command f >>= g) st w :=
  Prog.command_then (h.failing.leavable st) (fun w' _ hw' => hg true w' (hf w' hw'))
    fun _ => hg false w h

end Rest

theorem mkdirLock_before {w w' : World} (h : Before B w)
    (hw' : (match w.disk.lock with
      | none => some {
          disk := { w.disk with lock := some none }
          vars := { w.vars with held := some w.disk } : World }
      | some _ => none) = some w') : Before B w' := by
  split at hw'
  · cases hw'
    exact ⟨h.trapped, h.phase, h.oldMoved, h.newMoved, h.initInstalled,
      h.disk.localFw, h.disk.tree, h.disk.init, h.disk.trees, h.disk.inits⟩
  · exact absurd hw' nofun

theorem refuseAlive_safe {st : Bool} {w : World} (h : Before B w) (oldPid : Nat) :
    Goes B (fun _ _ w' => Before B w') (refuseAlive oldPid) st w := by
  refine Prog.test_then (h.failing.leavable _) ?_
  split
  · refine Prog.test_then (h.failing.leavable _) ?_
    split
    · exact die_safe h.failing _ _
    · exact h
  · exact h

theorem takeOver_safe {st : Bool} {w : World} (h : Before B w) :
    Goes B (fun _ _ w' => Before B w') takeOver st w := by
  refine Prog.capture_then (h.failing.leavable _) ?_
  refine Prog.Safe.bind (refuseAlive_safe h _) fun _ st₁ w₁ h₁ => ?_
  refine h₁.command_then (fun w' hw' => ?_) fun _ w₂ h₂ => ?_
  · cases hw'
    exact h₁.onDisk ⟨h₁.disk.localFw, h₁.disk.tree, h₁.disk.init, h₁.disk.trees, h₁.disk.inits⟩
  · exact Prog.safe_last (orDie_command h₂.failing fun w' hw' => mkdirLock_before h₂ hw')

theorem acquire_safe {st : Bool} {w : World} (h : Before B w) :
    Goes B (fun _ _ w' => Before B w') acquire st w := by
  have hlock : Goes B (fun _ _ w' => Before B w') lockOrTakeOver st w := by
    refine h.command_then (fun w' hw' => mkdirLock_before h hw') fun ok w₁ h₁ => ?_
    cases ok with
    | true => exact h₁
    | false => exact takeOver_safe h₁
  refine Prog.Safe.bind hlock fun _ st₁ w₁ h₁ => ?_
  refine h₁.command_then (fun w' hw' => ?_) fun _ w₂ h₂ => h₂
  obtain ⟨_, -, rfl⟩ := Option.map_eq_some_iff.mp hw'
  exact h₁.onDisk ⟨h₁.disk.localFw, h₁.disk.tree, h₁.disk.init, h₁.disk.trees, h₁.disk.inits⟩

/-! ## 3. The slot -/

/-- The names of this request's rollback copies are free. -/
structure Reserved (B : Base) (w : World) : Prop where
  before : Before B w
  tree : B.disk.rollbackTree w.vars.treeName = none
  init : B.kept w.vars.initName = false

theorem occupied_safe {st : Bool} {w : World} (h : Before B w) :
    Goes B (fun taken _ w' => Before B w' ∧ (taken = false → Reserved B w')) occupied st w := by
  refine Prog.test_then (h.failing.leavable _) ?_
  cases htree : w.disk.rollbackTree w.vars.treeName with
  | some t => exact ⟨h, nofun⟩
  | none =>
    refine Prog.safe_test (h.failing.leavable _) ⟨h, fun hfree => ⟨h, ?_, ?_⟩⟩
    · rw [← h.disk.trees]
      exact htree
    · by_contra hkept
      have hkept := Bool.eq_true_of_not_eq_false hkept
      rw [h.disk.inits _ hkept, Option.isSome_eq_false_iff, Option.isNone_iff_eq_none] at hfree
      exact B.sub _ hkept hfree

theorem findSlot_safe {n : Nat} (hn : n ≠ 0) {st : Bool} {w : World} (h : Before B w) :
    Goes B (fun _ _ w' => Reserved B w') (findSlot n) st w := by
  induction n generalizing st w with
  | zero => exact absurd rfl hn
  | succ n ih =>
    refine Prog.Safe.bind (occupied_safe h) ?_
    rintro taken st₁ w₁ ⟨h₁, hfree⟩
    cases taken with
    | false => exact hfree rfl
    | true =>
      refine Prog.assign_then (h₁.failing.leavable _) ?_
      refine orDie_test h₁.failing fun hslot => ?_
      have hset : ∀ f : Vars → Vars, (∀ v, (f v).trapped = v.trapped ∧ (f v).phase = v.phase ∧
          (f v).oldMoved = v.oldMoved ∧ (f v).newMoved = v.newMoved ∧
          (f v).initInstalled = v.initInstalled) → ∀ w : World, Before B w →
          Before B { w with vars := f w.vars } := by
        intro f hf w h
        obtain ⟨ht, hp, ho, hne, hi⟩ := hf w.vars
        exact ⟨ht.trans h.trapped, hp.trans h.phase, ho.trans h.oldMoved, hne.trans h.newMoved,
          hi.trans h.initInstalled, h.disk⟩
      have hpos : n ≠ 0 := by
        have := of_decide_eq_true hslot
        omega
      have h₂ :=
        hset (fun v => { v with treeSlot := 100 - n }) (fun _ => ⟨rfl, rfl, rfl, rfl, rfl⟩) _ h₁
      have h₃ :=
        hset (fun v => { v with initSlot := 100 - n }) (fun _ => ⟨rfl, rfl, rfl, rfl, rfl⟩) _ h₂
      refine Prog.assign_then (h₁.failing.leavable _) ?_
      refine Prog.assign_then (h₂.failing.leavable _) ?_
      exact ih hpos h₃

theorem reserve_safe {st : Bool} {w : World} (h : Before B w) :
    Goes B (fun _ _ w' => Reserved B w') reserve st w := by
  refine orDie_check h.failing ?_
  refine orDie_check h.failing ?_
  refine orDie_check h.failing ?_
  refine orDie_check h.failing ?_
  refine Prog.assign_then (h.failing.leavable _) ?_
  exact findSlot_safe (by decide) h

/-! ## 4. The archive -/

theorem Reserved.failing {w : World} (h : Reserved B w) : Failing B w := h.before.failing

theorem Reserved.onDisk {w : World} (h : Reserved B w) {d : Disk} (hd : SameBase B d) :
    Reserved B { w with disk := d } :=
  ⟨h.before.onDisk hd, h.tree, h.init⟩

/-- The archive has the `init.sh` that is asked for. -/
def HasInit (B : Base) : Prop := ∃ fw, B.disk.localFw = some fw ∧ fw.init ≠ none

theorem checkBootImage_safe {st : Bool} {w : World} (h : Reserved B w) (archiveModel : Bytes) :
    Goes B (fun _ _ w' => Reserved B w') (checkBootImage archiveModel) st w := by
  refine Prog.test_then (h.failing.leavable _) ?_
  split
  · refine orDie_test h.failing fun _ => ?_
    exact Prog.safe_last (orDie_check h.failing h)
  · exact h

theorem checkArchive_safe {st : Bool} {w : World} (h : Reserved B w) :
    Goes B (fun _ _ w' => Reserved B w' ∧ HasInit B) checkArchive st w := by
  refine orDie_check h.failing ?_
  refine orDie_command h.failing fun w₁ hw₁ => ?_
  have h₁ : Reserved B w₁ := by
    cases hw₁
    have hd := h.before.disk
    exact h.onDisk ⟨hd.localFw, hd.tree, hd.init, hd.trees, hd.inits⟩
  clear hw₁ h
  refine orDie_check h₁.failing ?_
  refine orDie_check h₁.failing ?_
  refine orDie_test h₁.failing fun _ => ?_
  refine orDie_test h₁.failing fun _ => ?_
  refine orDie_test h₁.failing fun hinit => ?_
  have hhas : HasInit B := by
    rw [h₁.before.disk.localFw] at hinit
    obtain ⟨c, hc⟩ := Option.isSome_iff_exists.mp hinit
    obtain ⟨fw, hfw, hc⟩ := Option.bind_eq_some_iff.mp hc
    exact ⟨fw, hfw, by rw [hc]; nofun⟩
  refine Prog.capture_then (h₁.failing.leavable _) ?_
  refine Prog.capture_then (h₁.failing.leavable _) ?_
  refine orDie_check h₁.failing ?_
  refine orDie_test h₁.failing fun _ => ?_
  exact Prog.Safe.bind (checkBootImage_safe h₁ _) fun _ _ w₂ h₂ => ⟨h₂, hhas⟩

/-! ## 5. Unpacking -/

/-- The archive is unpacked. -/
structure Staged (B : Base) (fw : Payload) (w : World) : Prop where
  reserved : Reserved B w
  archive : B.disk.localFw = some fw
  hasInit : fw.init ≠ none
  stage : ∃ stage, w.disk.stage = some stage ∧ stage.init = fw.init ∧ Carries fw stage.tree

theorem Staged.failing {fw : Payload} {w : World} (h : Staged B fw w) : Failing B w :=
  h.reserved.failing

theorem lookup_filter {p : Bytes × Bytes → Bool} {path : Bytes} (hp : ∀ c, p (path, c) = true)
    (tree : Tree) : (tree.filter p).lookup path = tree.lookup path := by
  induction tree with
  | nil => rfl
  | cons e tree ih =>
    obtain ⟨k, c⟩ := e
    by_cases hk : path = k
    · subst hk
      rw [List.filter_cons_of_pos (hp c), List.lookup_cons_self, List.lookup_cons_self]
    · have hne : (path == k) = false := beq_false_of_ne hk
      by_cases hpk : p (k, c) = true
      · rw [List.filter_cons_of_pos hpk, List.lookup_cons, List.lookup_cons, hne]
        exact ih
      · rw [List.filter_cons_of_neg hpk, List.lookup_cons, hne]
        exact ih

theorem lookup_filter_none {p : Bytes × Bytes → Bool} {path : Bytes}
    (hp : ∀ c, p (path, c) = false) (tree : Tree) : (tree.filter p).lookup path = none := by
  induction tree with
  | nil => rfl
  | cons e tree ih =>
    obtain ⟨k, c⟩ := e
    by_cases hpk : p (k, c) = true
    · have hne : (path == k) = false := by
        refine beq_false_of_ne ?_
        rintro rfl
        exact absurd (hpk.symm.trans (hp c)) nofun
      rw [List.filter_cons_of_pos hpk, List.lookup_cons, hne]
      exact ih
    · rw [List.filter_cons_of_neg hpk]
      exact ih

/-- What is unpacked is found again. -/
theorem carries_overlay (fw : Payload) (old : Tree) : Carries fw (overlay fw.tree old) := by
  intro path content _ hlookup
  unfold overlay
  rw [List.lookup_append, hlookup, Option.some_or]

/-- The camera's own configuration goes over files under `etc` alone. -/
theorem Carries.keepEtc {fw : Payload} {tree : Tree} (h : Carries fw tree) (old : Tree) :
    Carries fw (overlay (old.filter fun e => underEtc e.1) tree) := by
  intro path content hpath hlookup
  have hnone : (old.filter fun e => underEtc e.1).lookup path = none :=
    lookup_filter_none (fun _ => hpath) old
  unfold overlay
  rw [List.lookup_append, hnone, Option.none_or, lookup_filter]
  · exact h path content hpath hlookup
  · intro _
    exact decide_eq_true hnone

theorem Carries.dropArchives {fw : Payload} {tree : Tree} (h : Carries fw tree) :
    Carries fw (tree.filter fun e => !etcArchive e.1) := by
  intro path content hpath hlookup
  rw [lookup_filter]
  · exact h path content hpath hlookup
  · intro _
    simp [etcArchive, hpath]

theorem unpack_safe {st : Bool} {w : World} (h : Reserved B w) (hhas : HasInit B)
    (version : Bytes) :
    Goes B (fun _ _ w' => ∃ fw, Staged B fw w') (unpack version) st w := by
  obtain ⟨fw, hfw, hinit⟩ := hhas
  have hd := h.before.disk
  have clear : Goes B (fun _ _ w' => Reserved B w')
      (onDisk fun d => some { d with stage := none, failedTree := none }) st w := by
    refine Prog.safe_command (h.failing.leavable _) (fun w' _ hw' => ?_) fun _ => h
    cases hw'
    exact h.onDisk ⟨hd.localFw, hd.tree, hd.init, hd.trees, hd.inits⟩
  refine Prog.Safe.bind clear fun _ st₁ w₁ h₁ => ?_
  clear clear hd h
  refine orDie_command h₁.failing fun w₂ hw₂ => ?_
  have h₂ : Reserved B w₂ := by
    cases hw₂
    have hd := h₁.before.disk
    exact h₁.onDisk ⟨hd.localFw, hd.tree, hd.init, hd.trees, hd.inits⟩
  clear hw₂ h₁
  refine orDie_command h₂.failing fun w₃ hw₃ => ?_
  have h₃ : Staged B fw w₃ := by
    have hd := h₂.before.disk
    obtain ⟨d, hunpacked, rfl⟩ := Option.map_eq_some_iff.mp hw₃
    simp only [hd.localFw, hfw] at hunpacked
    split at hunpacked
    · rename_i old heq _
      cases heq
      cases hunpacked
      refine ⟨h₂.onDisk ⟨hfw.symm, hd.tree, hd.init, hd.trees, hd.inits⟩, hfw, hinit, _, rfl,
        ?_, carries_overlay fw _⟩
      obtain ⟨c, hc⟩ := Option.ne_none_iff_exists'.mp hinit
      rw [hc, Option.some_or]
    · exact absurd hunpacked nofun
  clear hw₃ h₂
  refine orDie_test h₃.failing fun _ => ?_
  refine orDie_test h₃.failing fun _ => ?_
  refine orDie_check h₃.failing ?_
  refine orDie_test h₃.failing fun _ => ?_
  refine orDie_test h₃.failing fun _ => ?_
  refine orDie_command h₃.failing fun w₄ hw₄ => ?_
  have h₄ : Staged B fw w₄ := by
    cases hw₄
    have hd := h₃.reserved.before.disk
    exact ⟨h₃.reserved.onDisk ⟨hd.localFw, hd.tree, hd.init, hd.trees, hd.inits⟩, hfw, hinit,
      h₃.stage⟩
  clear hw₄ h₃
  refine orDie_check h₄.failing ?_
  refine orDie_check h₄.failing ?_
  refine orDie_check h₄.failing ?_
  refine Prog.test_then (h₄.failing.leavable _) ?_
  split
  · refine orDie_check h₄.failing ?_
    refine orDie_test h₄.failing fun _ => ?_
    exact Prog.safe_last (orDie_check h₄.failing ⟨fw, h₄⟩)
  · exact ⟨fw, h₄⟩

/-! ## 6. Before the activation -/

/-- A change of the staged tree that keeps what is unpacked. -/
theorem onStaged_staged {fw : Payload} {w w' : World} (h : Staged B fw w) {f : Disk → Tree → Tree}
    (hw' : (stagedWith f w.disk).map (fun d => ({ w with disk := d } : World)) = some w')
    (hf : ∀ t, Carries fw t → Carries fw (f w.disk t)) : Staged B fw w' := by
  obtain ⟨stage, hstage, hinit, hcarries⟩ := h.stage
  simp only [stagedWith, hstage, Option.map_some] at hw'
  cases hw'
  have hd := h.reserved.before.disk
  exact ⟨h.reserved.onDisk ⟨hd.localFw, hd.tree, hd.init, hd.trees, hd.inits⟩, h.archive, h.hasInit,
    _, rfl, hinit, hf _ hcarries⟩

theorem keepConfig_safe {fw : Payload} {st : Bool} {w : World} (h : Staged B fw w) :
    Goes B (fun _ _ w' => Staged B fw w') keepConfig st w := by
  refine Prog.test_then (h.failing.leavable _) ?_
  split
  · refine Prog.safe_last (orDie_command h.failing fun w' hw' => ?_)
    exact onStaged_staged h hw' fun t ht => ht.keepEtc _
  · exact h

/-- The rollback copy is made, the new `init.sh` is next to the old. -/
structure Ready (B : Base) (fw : Payload) (w : World) : Prop where
  staged : Staged B fw w
  copy : w.disk.rollbackInit w.vars.initName = B.disk.init
  size : hasSize B.disk.init = true
  initNew : w.disk.initNew = fw.init

theorem Ready.failing {fw : Payload} {w : World} (h : Ready B fw w) : Failing B w :=
  h.staged.failing

theorem copyInit_staged {fw : Payload} {w w' : World} (h : Staged B fw w)
    (hw' : (w.disk.init.map fun c => ({ w with disk := { w.disk with
      rollbackInit := Function.update w.disk.rollbackInit w.vars.initName (some c) } } : World)) =
        some w') :
    Staged B fw w' ∧ w'.disk.rollbackInit w'.vars.initName = B.disk.init := by
  have hd := h.reserved.before.disk
  obtain ⟨c, hc, rfl⟩ := Option.map_eq_some_iff.mp hw'
  refine ⟨⟨h.reserved.onDisk ⟨hd.localFw, hd.tree, hd.init, hd.trees, fun k hk => ?_⟩, h.archive,
    h.hasInit, h.stage⟩, ?_⟩
  · have hne : k ≠ w.vars.initName := Base.ne hk h.reserved.init
    exact (Function.update_of_ne hne _ _).trans (hd.inits k hk)
  · exact (Function.update_self _ _ _).trans (hc.symm.trans hd.init)

theorem prepare_safe {fw : Payload} {st : Bool} {w : World} (h : Staged B fw w) :
    Goes B (fun _ _ w' => Ready B fw w') prepare st w := by
  refine orDie_command h.failing fun w₁ hw₁ => ?_
  have h₁ : Staged B fw w₁ := onStaged_staged h hw₁ fun t ht => ht
  clear hw₁ h
  refine Prog.Safe.bind (keepConfig_safe h₁) fun _ st₂ w₂ h₂ => ?_
  have drop : Goes B (fun _ _ w' => Staged B fw w')
      (onStaged fun _ t => t.filter fun e => !etcArchive e.1) st₂ w₂ := by
    refine Prog.safe_command (h₂.failing.leavable _) (fun w' _ hw' => ?_) fun _ => h₂
    exact onStaged_staged h₂ hw' fun t ht => ht.dropArchives
  refine Prog.Safe.bind drop fun _ _ w₃ h₃ => ?_
  clear drop h₂ h₁
  refine orDie_command h₃.failing fun w₄ hw₄ => ?_
  obtain ⟨h₄, hcopy⟩ := copyInit_staged h₃ hw₄
  clear hw₄ h₃
  refine orDie_test h₄.failing fun hsize => ?_
  rw [hcopy] at hsize
  refine Prog.check_then (h₄.failing.leavable _) fun ok _ => ?_
  have unstage : Goes B (fun _ _ w' => Staged B fw w' ∧
      w'.disk.rollbackInit w'.vars.initName = B.disk.init)
      (onDisk fun d => some { d with initNew := none }) ok w₄ := by
    refine Prog.safe_command (h₄.failing.leavable _) (fun w' _ hw' => ?_) fun _ => ⟨h₄, hcopy⟩
    cases hw'
    have hd := h₄.reserved.before.disk
    exact ⟨⟨h₄.reserved.onDisk ⟨hd.localFw, hd.tree, hd.init, hd.trees, hd.inits⟩, h₄.archive,
      h₄.hasInit, h₄.stage⟩, hcopy⟩
  refine Prog.Safe.bind unstage ?_
  rintro _ _ w₅ ⟨h₅, hcopy⟩
  clear unstage h₄
  refine orDie_command h₅.failing fun w₆ hw₆ => ?_
  have h₆ : Ready B fw w₆ := by
    obtain ⟨stage, hstage, hinit, hcarries⟩ := h₅.stage
    obtain ⟨d, hcopied, rfl⟩ := Option.map_eq_some_iff.mp hw₆
    simp only [hstage, Option.bind_some, hinit] at hcopied
    obtain ⟨c, hc, rfl⟩ := Option.map_eq_some_iff.mp hcopied
    have hd := h₅.reserved.before.disk
    exact ⟨⟨h₅.reserved.onDisk ⟨hd.localFw, hd.tree, hd.init, hd.trees, hd.inits⟩, h₅.archive,
      h₅.hasInit, stage, rfl, hinit, hcarries⟩, hcopy, hsize, hc.symm⟩
  clear hw₆ h₅
  refine orDie_check h₆.failing ?_
  refine orDie_check h₆.failing ?_
  refine orDie_check h₆.failing ?_
  exact Prog.check_then (h₆.failing.leavable _) fun _ _ => h₆

/-! ## 7. The activation -/

/-- The old tree is out of its place, the new `init.sh` is not in its place. -/
structure Moving (B : Base) (fw : Payload) (b : Bool) (w : World) : Prop where
  trapped : w.vars.trapped = true
  phase : w.vars.phase = .moving
  oldMoved : w.vars.oldMoved = true
  newMoved : w.vars.newMoved = b
  initInstalled : w.vars.initInstalled = false
  archive : B.disk.localFw = some fw
  hasInit : fw.init ≠ none
  init : w.disk.init = B.disk.init
  copy : w.disk.rollbackInit w.vars.initName = B.disk.init
  size : hasSize B.disk.init = true
  initNew : w.disk.initNew = fw.init
  kept : w.disk.rollbackTree w.vars.treeName = B.disk.tree ∧ B.disk.tree ≠ none
  free : B.disk.rollbackTree w.vars.treeName = none
  trees : ∀ k, B.disk.rollbackTree k ≠ none → w.disk.rollbackTree k = B.disk.rollbackTree k
  inits : ∀ k, B.kept k = true → w.disk.rollbackInit k = B.disk.rollbackInit k
  tree : if b then ∃ t, w.disk.tree = some t ∧ Carries fw t else w.disk.tree = none
  stage : b = false →
    ∃ stage, w.disk.stage = some stage ∧ stage.init = fw.init ∧ Carries fw stage.tree

theorem moving_phased {w : World} (h : w.vars.phase = .moving) : Phased B w where
  before := fun hb => absurd (h.symm.trans hb) nofun
  active := fun ha => absurd (h.symm.trans ha) nofun
  running := by rw [h]; exact ⟨nofun, nofun⟩

theorem Moving.failing {fw : Payload} {b : Bool} {w : World} (h : Moving B fw b w) :
    Failing B w where
  trapped := h.trapped
  phased := moving_phased h.phase
  restorable :=
    { init := .inl ⟨h.initInstalled, h.init⟩
      tree := .inr ⟨h.oldMoved, h.kept.1, h.kept.2, h.free, fun hnew => by
        have hb : b = false := h.newMoved.symm.trans hnew
        have htree := h.tree
        rwa [if_neg (by rw [hb]; decide)] at htree⟩
      trees := h.trees
      inits := h.inits }

/-- The upgrade is active. -/
structure Active (B : Base) (w : World) : Prop where
  failing : Failing B w
  phase : w.vars.phase = .active

theorem Active.complete {w : World} (h : Active B w) : Complete B w.disk :=
  h.failing.phased.active h.phase

theorem activate_safe {fw : Payload} {st : Bool} {w : World} (h : Ready B fw w)
    (version : Bytes) : Goes B (fun _ _ w' => Active B w') (activate version) st w := by
  refine orDie_command h.failing fun w₁ hw₁ => ?_
  obtain ⟨t, ht, rfl⟩ := Option.map_eq_some_iff.mp hw₁
  have hb := h.staged.reserved.before
  have hd := hb.disk
  have hfree := h.staged.reserved.tree
  refine Prog.assign_then (leavable_trapped hb.trapped (moving_phased rfl) nofun) ?_
  have h₂ : Moving B fw false { w with
      disk := { w.disk with
        tree := none
        rollbackTree := Function.update w.disk.rollbackTree w.vars.treeName
          (some (mvTree (ascii "yi-hack") t (w.disk.rollbackTree w.vars.treeName))) }
      vars := { w.vars with phase := .moving, oldMoved := true } } :=
    { trapped := hb.trapped
      phase := rfl
      oldMoved := rfl
      newMoved := hb.newMoved
      initInstalled := hb.initInstalled
      archive := h.staged.archive
      hasInit := h.staged.hasInit
      init := hd.init
      copy := h.copy
      size := h.size
      initNew := h.initNew
      kept := by
        refine ⟨(Function.update_self _ _ _).trans ?_, ?_⟩
        · rw [hd.trees, hfree, ← hd.tree, ht]
          rfl
        · rw [← hd.tree, ht]
          nofun
      free := hfree
      trees := fun k hk => by
        have hne : k ≠ w.vars.treeName := fun heq => hk (heq ▸ hfree)
        exact (Function.update_of_ne hne _ _).trans (congrFun hd.trees k)
      inits := hd.inits
      tree := rfl
      stage := fun _ => h.staged.stage }
  refine orDie_command h₂.failing fun w₃ hw₃ => ?_
  obtain ⟨d, hmoved, rfl⟩ := Option.map_eq_some_iff.mp hw₃
  obtain ⟨stage, hstage, rfl⟩ := Option.map_eq_some_iff.mp hmoved
  obtain ⟨stage', hstage', -, hcarries⟩ := h₂.stage rfl
  obtain rfl := Option.some.inj (hstage.symm.trans hstage')
  refine Prog.assign_then (leavable_trapped h₂.trapped (moving_phased rfl) nofun) ?_
  have h₃ : Moving B fw true { w with
      disk := { w.disk with
        tree := some stage.tree
        stage := some { stage with tree := [] }
        rollbackTree := Function.update w.disk.rollbackTree w.vars.treeName
          (some (mvTree (ascii "yi-hack") t (w.disk.rollbackTree w.vars.treeName))) }
      vars := { w.vars with phase := .moving, oldMoved := true, newMoved := true } } :=
    { trapped := h₂.trapped
      phase := rfl
      oldMoved := rfl
      newMoved := rfl
      initInstalled := h₂.initInstalled
      archive := h₂.archive
      hasInit := h₂.hasInit
      init := h₂.init
      copy := h₂.copy
      size := h₂.size
      initNew := h₂.initNew
      kept := h₂.kept
      free := h₂.free
      trees := h₂.trees
      inits := h₂.inits
      tree := ⟨stage.tree, rfl, hcarries⟩
      stage := nofun }
  refine orDie_test h₃.failing fun _ => ?_
  refine orDie_test h₃.failing fun _ => ?_
  refine orDie_check h₃.failing ?_
  refine orDie_command h₃.failing fun w₄ hw₄ => ?_
  obtain ⟨c, hc, rfl⟩ := Option.map_eq_some_iff.mp hw₄
  have hcomplete : Complete B { w.disk with
      tree := some stage.tree
      stage := some { stage with tree := [] }
      rollbackTree := Function.update w.disk.rollbackTree w.vars.treeName
        (some (mvTree (ascii "yi-hack") t (w.disk.rollbackTree w.vars.treeName)))
      init := some c
      initNew := none } :=
    ⟨fw, stage.tree, h₃.archive, rfl, hcarries, h₃.hasInit, hc.symm.trans h₃.initNew⟩
  have hphased : ∀ v : Vars, v.phase = .active → Phased B ⟨_, v⟩ := fun v hv =>
    { before := fun hb => absurd (hv.symm.trans hb) nofun
      active := fun _ => hcomplete
      running := by
        show v.phase ≠ .rolling ∧ v.phase ≠ .settled
        rw [hv]
        exact ⟨nofun, nofun⟩ }
  refine Prog.assign_then (leavable_trapped h₃.trapped (hphased _ rfl) nofun) ?_
  have h₄ : Active B ⟨_, { w.vars with
      phase := .active, oldMoved := true, newMoved := true, initInstalled := true }⟩ :=
    { failing :=
        { trapped := h₃.trapped
          phased := hphased _ rfl
          restorable :=
            { init := .inr ⟨rfl, h₃.copy, h₃.size⟩
              tree := .inr ⟨rfl, h₃.kept.1, h₃.kept.2, h₃.free, nofun⟩
              trees := h₃.trees
              inits := h₃.inits } }
      phase := rfl }
  refine orDie_check h₄.failing ?_
  exact Prog.safe_last (orDie_check h₄.failing h₄)

/-! ## 8. After it -/

/-- A change of other files. -/
theorem Active.onDisk {w : World} (h : Active B w) {d : Disk} (hs : SameSystem w.disk d) :
    Active B { w with disk := d } where
  failing :=
    { trapped := h.failing.trapped
      phased :=
        { before := fun hb => absurd (h.phase.symm.trans hb) nofun
          active := fun _ => h.complete.same hs
          running := h.failing.phased.running }
      restorable :=
        { init := by
            show _ ∨ (_ ∧ d.rollbackInit w.vars.initName = _ ∧ _)
            rw [hs.init, hs.inits]
            exact h.failing.restorable.init
          tree := by
            show _ ∨ (_ ∧ d.rollbackTree w.vars.treeName = _ ∧ _ ∧ _ ∧ _)
            rw [hs.tree, hs.trees]
            exact h.failing.restorable.tree
          trees := fun k hk => (congrFun hs.trees k).trans (h.failing.restorable.trees k hk)
          inits := fun k hk => (congrFun hs.inits k).trans (h.failing.restorable.inits k hk) } }
  phase := h.phase

theorem retireFactory_safe {st : Bool} {w : World} (h : Active B w) (version : Bytes) :
    Goes B (fun _ _ w' => Active B w') (retireFactory version) st w := by
  refine Prog.test_then (h.failing.leavable _) ?_
  split
  · refine Prog.assign_then (h.failing.leavable _) ?_
    refine orDie_command h.failing fun w₁ hw₁ => ?_
    have h₁ : Active B w₁ := by
      cases hw₁
      exact h.onDisk ⟨rfl, rfl, rfl, rfl⟩
    clear hw₁ h
    refine Prog.safe_last (orDie_command h₁.failing fun w₂ hw₂ => ?_)
    obtain ⟨d, hd, rfl⟩ := Option.map_eq_some_iff.mp hw₂
    obtain ⟨t, -, rfl⟩ := Option.map_eq_some_iff.mp hd
    exact h₁.onDisk ⟨rfl, rfl, rfl, rfl⟩
  · exact h

theorem patchKernel_safe {st : Bool} {w : World} (h : Active B w) :
    Goes B (fun _ _ w' => Active B w') patchKernel st w := by
  refine Prog.test_then (h.failing.leavable _) ?_
  split
  · refine orDie_check h.failing ?_
    refine orDie_test h.failing fun _ => ?_
    exact Prog.safe_last (orDie_check h.failing h)
  · exact h

/-- A command on other files, whether it works or not. -/
theorem Active.command_then {Q : Unit → Bool → World → Prop} {f : World → Option World}
    {g : Bool → Prog World Unit} {st : Bool} {w : World} (h : Active B w)
    (hf : ∀ w', f w = some w' → Active B w')
    (hg : ∀ ok w', Active B w' → Goes B Q (g ok) ok w') :
    Goes B Q (Prog.command f >>= g) st w :=
  Prog.command_then (h.failing.leavable st) (fun w' _ hw' => hg true w' (hf w' hw'))
    fun _ => hg false w h

theorem finish_safe {st : Bool} {w : World} (h : Active B w) (version : Bytes) :
    Goes B (fun _ _ w' => Left B w') (finish version) st w := by
  refine Prog.Safe.bind (retireFactory_safe h version) fun _ _ w₁ h₁ => ?_
  refine Prog.Safe.bind (patchKernel_safe h₁) fun _ _ w₂ h₂ => ?_
  refine h₂.command_then (fun w' hw' => ?_) fun _ w₃ h₃ => ?_
  · cases hw'
    exact h₂.onDisk ⟨rfl, rfl, rfl, rfl⟩
  refine h₃.command_then (fun w' hw' => ?_) fun _ w₄ h₄ => ?_
  · cases hw'
    exact h₃.onDisk ⟨rfl, rfl, rfl, rfl⟩
  refine Prog.check_then (h₄.failing.leavable _) fun _ _ => ?_
  refine Prog.check_then (h₄.failing.leavable _) fun _ _ => ?_
  refine Prog.check_then (h₄.failing.leavable _) fun _ _ => ?_
  refine h₄.command_then (fun w' hw' => ?_) fun _ w₅ h₅ => ?_
  · cases hw'
    have hf := h₄.failing
    exact ⟨⟨hf.trapped, ⟨hf.phased.before, hf.phased.active, hf.phased.running⟩,
      ⟨hf.restorable.init, hf.restorable.tree, hf.restorable.trees, hf.restorable.inits⟩⟩,
      h₄.phase⟩
  refine Prog.assign_then (h₅.failing.leavable _) ?_
  have hout : Out B { w₅ with vars := { w₅.vars with trapped := false } } :=
    ⟨rfl, .inl h₅.complete, fun hs => absurd (h₅.phase.symm.trans hs) nofun⟩
  refine Prog.Safe.bind (cleanup_safe hout) fun _ _ w₆ h₆ => ?_
  refine Prog.assign_then (h₆.leavable _) ?_
  exact Prog.safe_exit (h₆.leavable _) (h₆.leavable _)

/-! ## 9. The whole request -/

/-- The script once it has the lock. -/
theorem locked_safe {st : Bool} {w : World} (h : Before B w) :
    Goes B (fun _ _ w' => Left B w') (do
      reserve
      let archiveVersion ← checkArchive
      unpack archiveVersion
      prepare
      activate archiveVersion
      finish archiveVersion) st w := by
  refine Prog.Safe.bind (reserve_safe h) fun _ _ w₁ h₁ => ?_
  refine Prog.Safe.bind (checkArchive_safe h₁) ?_
  rintro version _ w₂ ⟨h₂, hhas⟩
  refine Prog.Safe.bind (unpack_safe h₂ hhas version) ?_
  rintro _ _ w₃ ⟨fw, h₃⟩
  refine Prog.Safe.bind (prepare_safe h₃) fun _ _ w₄ h₄ => ?_
  refine Prog.Safe.bind (activate_safe h₄ version) fun _ _ w₅ h₅ => ?_
  exact finish_safe h₅ version

theorem start_before (pid : Nat) (modelSuffix fwVersion : Bytes) (B : Base) :
    Before B ⟨B.disk, startVars pid modelSuffix fwVersion⟩ :=
  ⟨rfl, rfl, rfl, rfl, rfl, rfl, rfl, rfl, rfl, fun _ _ => rfl⟩

/-- **The script goes well from every disk.** -/
theorem upgrade_safe (pid : Nat) (modelSuffix fwVersion : Bytes) (B : Base) :
    (start pid modelSuffix fwVersion B.disk).Safe Works (Leavable B) (Left B) := by
  show Goes B _ upgrade _ _
  refine Prog.Safe.bind (refuse_safe (start_before pid modelSuffix fwVersion B)) ?_
  intro _ _ w₁ h₁
  refine Prog.Safe.bind (acquire_safe h₁) fun _ _ w₂ h₂ => ?_
  exact locked_safe h₂

/-- **A request is all or nothing** when it is left only where it may be: however its commands end
    and wherever signals come, once it is over the upgrade is complete, or the tree, `init.sh` and
    all earlier rollback copies are as they were. -/
theorem all_or_nothing (pid : Nat) (modelSuffix fwVersion : Bytes) (d : Disk) (is : List Input)
    (hmeets : StepsMeet (Config.step trap) (Config.Meets Works (Clear (Base.all d)))
      (start pid modelSuffix fwVersion d) is)
    (hover : (run (Config.step trap) (start pid modelSuffix fwVersion d) is).over = true) :
    AllOrNothing (Base.all d)
      (run (Config.step trap) (start pid modelSuffix fwVersion d) is).state.disk :=
  ((run_safe enter_safe hmeets (upgrade_safe pid modelSuffix fwVersion (Base.all d))).finished
    hover).disk

/-! ## 10. Where it may not be left -/

/-- A camera with an archive to upgrade to. -/
def sampleDisk : Disk where
  sdRoot := true
  backupRoot := true
  localFw := some {
    tree := [(ascii "model_suffix", ascii "y28ga"), (ascii "version", ascii "2")]
    init := some (ascii "new")
    boot := none }
  tree := some [(ascii "model_suffix", ascii "y28ga"), (ascii "version", ascii "1")]
  init := some (ascii "old")
  rollbackTree := fun _ => none
  rollbackInit := fun _ => none
  failedTree := none
  stage := none
  initNew := none
  listTmp := false
  manifest := false
  lock := none
  factory := none
  retiredFactory := fun _ => none
  proc := fun _ => false

/-- The same without an archive, and with the copies an earlier upgrade has left. -/
def upgradedDisk : Disk := { sampleDisk with
  localFw := none
  rollbackTree := fun k => if k = (ascii "1", 0) then sampleDisk.tree else none
  rollbackInit := fun k => if k = (ascii "1", 0) then sampleDisk.init else none }

/-- A request on a disk, run on some inputs. -/
def requestOn (d : Disk) (is : List Input) : Config World :=
  run (Config.step trap) (start 7 (ascii "y28ga") (ascii "1") d) is

def works (n : Nat) : List Input := List.replicate n (.outcome true)

/-- **A signal between the two renames loses the tree**: it finds the status of the `mv` before,
    which is success, and nothing is rolled back. A refused request removes an earlier rollback
    copy, as `ROLLBACK_INIT` has the base name until the slots are searched. A signal while
    `on_exit` rolls back ends the rollback. -/
theorem request_not_atomic :
    ((requestOn sampleDisk (works 51 ++ [.signal] ++ works 20)).over = true ∧
      ¬ AllOrNothing (Base.all sampleDisk)
        (requestOn sampleDisk (works 51 ++ [.signal] ++ works 20)).state.disk) ∧
    ((requestOn upgradedDisk (works 30)).over = true ∧
      ¬ AllOrNothing (Base.all upgradedDisk) (requestOn upgradedDisk (works 30)).state.disk) ∧
    ((requestOn sampleDisk (works 56 ++ [.outcome false] ++ works 4 ++ [.signal])).over = true ∧
      ¬ AllOrNothing (Base.all sampleDisk)
        (requestOn sampleDisk (works 56 ++ [.outcome false] ++ works 4 ++ [.signal])).state.disk) := by
  have hlost : ∀ {B : Base} {d : Disk}, B.disk.tree ≠ none → d.tree = none → ¬ AllOrNothing B d := by
    rintro B d hsome hnone (⟨fw, tree, -, htree, -⟩ | h)
    · exact absurd (hnone.symm.trans htree) nofun
    · exact hsome (h.tree.symm.trans hnone)
  refine ⟨⟨by decide +kernel, hlost nofun (by decide +kernel)⟩, ⟨by decide +kernel, ?_⟩,
    ⟨by decide, ?_⟩⟩
  · rintro (⟨fw, tree, hfw, -⟩ | h)
    · exact absurd hfw nofun
    · have hcopy := h.inits (ascii "1", 0) (by decide)
      exact absurd hcopy (by decide)
  · rintro (⟨fw, tree, hfw, -, -, -, hinit⟩ | h)
    · obtain rfl := Option.some.inj hfw
      exact absurd hinit (by decide)
    · exact absurd h.tree (by decide)

/-- A request that runs to its end. -/
theorem all_or_nothing_complete :
    (requestOn sampleDisk (works 75)).over = true ∧
      AllOrNothing (Base.all sampleDisk) (requestOn sampleDisk (works 75)).state.disk := by
  have hmeets : StepsMeet (Config.step trap) (Config.Meets Works (Clear (Base.all sampleDisk)))
      (start 7 (ascii "y28ga") (ascii "1") sampleDisk) (works 75) := by decide
  have hover : (requestOn sampleDisk (works 75)).over = true := by decide
  refine ⟨hover, ?_⟩
  unfold requestOn at hover ⊢
  exact all_or_nothing _ _ _ _ _ hmeets hover

end YiHack.Upgrade
