/-
  File:      YiHack/FlashCore/PowerLoss.lean
  Subject:   Power may be lost at any command of a fresh installation.

  The machine runs the script that a start of the camera runs, command by command; at any time power
  may be lost and the camera starts again. `Inv` is what holds at every command boundary, of the part
  of the camera that counts (`View`).

  * `restoreOriginal_goes`, `fresh_goes`, `resume_goes`, `stage_goes` -- the parts of the scripts;
  * `Machine.step`, `power_loss_safe` -- over every run with power losses.
-/
import YiHack.FlashCore.Triples

namespace YiHack.FlashCore

open General Prog

/-! ## 1. What counts -/

/-- What recovery rests on. -/
structure View where
  init : Option Bytes
  initNew : Option Bytes
  initRestore : Option Bytes
  coreInit : Option Bytes
  coreInitNew : Option Bytes
  pending : Option Bytes
  saved : Option Bytes
  root : Image
  home : Image
  recovery : Bool
  restore : Bool
  journaled : Bool
  attempts : Option Nat
  attemptsNew : Option Nat
  staged : Part → Nat

def view (s : Camera) : View where
  init := s.backup .init
  initNew := s.backup .initNew
  initRestore := s.backup .initRestore
  coreInit := s.backup .coreInit
  coreInitNew := s.backup .coreInitNew
  pending := s.backup .pending
  saved := s.files .init
  root := s.root
  home := s.home
  recovery := s.recovery
  restore := s.restore
  journaled := s.journaled
  attempts := s.attempts
  attemptsNew := s.attemptsNew
  staged := s.staged

/-- Without the files that `fail` takes back. -/
def View.core (v : View) : View := { v with initNew := none, coreInitNew := none }

section

variable {H : Type} (P : Package H) (o : Bytes)

/-- Both images are there, with the bootstrap that starts them. -/
def View.Installed (v : View) : Prop :=
  v.root = .new ∧ v.home = .new ∧ v.coreInit = some P.coreInit

instance View.decidableInstalled (v : View) : Decidable (v.Installed P) :=
  inferInstanceAs (Decidable (_ ∧ _))

/-- What holds at every command boundary; `o` is the start-up file of the vendor. -/
structure Inv (v : View) : Prop where
  startup : v.init = some o ∨ v.init = some P.dispatcher
  journal : v.pending.isSome → v.journaled
  request : v.restore → v.journaled
  dispatched : v.init = some P.dispatcher →
    v.journaled ∧ (v.pending.isSome ∨ v.restore ∨ v.Installed P)
  original : v.journaled → v.saved = some o ∧ v.recovery
  bootstrap : v.journaled → v.coreInit = none ∨ v.coreInit = some P.coreInit
  attempts : v.attempts.getD 0 ≤ 3
  staged : ∀ p, v.staged p ≤ v.attempts.getD 0

theorem Inv.of_core {v w : View} (h : Inv P o v) (he : w.core = v.core) : Inv P o w := by
  cases v
  cases w
  simp only [View.core, View.mk.injEq] at he
  obtain ⟨rfl, -, rfl, rfl, -, rfl, rfl, rfl, rfl, rfl, rfl, rfl, rfl, rfl, rfl⟩ := he
  exact ⟨h.startup, h.journal, h.request, h.dispatched, h.original, h.bootstrap, h.attempts, h.staged⟩

end

section

variable {α H : Type} {P : Package H} {o : Bytes}

theorem view_uncounted : Uncounted view := fun _ _ => rfl

theorem core_uncounted : Uncounted fun s => (view s).core := fun _ _ => rfl

/-! ## 2. fail -/

theorem leaves_restoreTool {t : Tool} : (restoreTool t).Leaves view := by
  refine leaves_onlyIf (leaves_act view_uncounted fun s s' h => ?_)
  obtain ⟨c, -, rfl⟩ := Option.map_eq_some_iff.mp h
  rfl

theorem leaves_rollbackUncommitted [DecidableEq H] :
    (rollbackUncommitted P).Leaves fun s => (view s).core := by
  refine leaves_allOf (List.forall_mem_append.mpr ⟨List.forall_mem_append.mpr ⟨?_, ?_⟩, ?_⟩)
  · simp only [List.forall_mem_cons, List.not_mem_nil, false_implies, implies_true, and_true]
    have hv {q : Camera → Bool} : (verify q).Leaves fun s => (view s).core :=
      leaves_verify core_uncounted
    refine ⟨leaves_test, hv, hv, hv, hv, hv, ?_, ?_, ?_, ?_, ?_⟩
    · exact leaves_onlyIf (leaves_put core_uncounted fun _ => rfl)
    · exact leaves_unchecked (leaves_put core_uncounted fun _ => rfl)
    · exact leaves_rmBackup core_uncounted fun _ => rfl
    · exact leaves_rmBackup core_uncounted fun _ => rfl
    · exact leaves_rmBackup core_uncounted fun _ => rfl
  · rintro c hc
    obtain ⟨t, -, rfl⟩ := List.mem_map.mp hc
    exact leaves_restoreTool.map View.core
  · simp only [List.forall_mem_cons, List.not_mem_nil, false_implies, implies_true, and_true]
    refine ⟨?_, ?_, ?_, leaves_sync core_uncounted, leaves_external core_uncounted⟩
    · exact leaves_onlyIf (leaves_put core_uncounted fun _ => rfl)
    · exact leaves_onlyIf (leaves_put core_uncounted fun _ => rfl)
    · exact leaves_unchecked (leaves_put core_uncounted fun _ => rfl)

theorem fail_goes [DecidableEq H] {Q : α → View → Prop} {text : String} :
    Goes view (Inv P o) (Inv P o) (fail P text) Q := by
  have hcore {β : Type} {p : Prog Camera β} (hp : p.Leaves fun s => (view s).core) :
      Goes view (Inv P o) (Inv P o) p fun _ => Inv P o :=
    goes_frame hp (fun _ _ he h => h.of_core P o he) fun _ h => h
  refine Goes.bind (hcore ?_) fun _ => ?_
  · exact leaves_assign fun _ => rfl
  refine Goes.bind (hcore ?_) fun _ => ?_
  · exact leaves_put core_uncounted fun _ => rfl
  refine (hcore leaves_rollbackUncommitted).bind fun _ => ?_
  exact (hcore (leaves_sync core_uncounted)).bind fun _ => goes_exit fun _ h => h

/-! ## 3. The dispatcher -/

/-- Restoration has been asked for. -/
structure Restoring (P : Package H) (o : Bytes) (v : View) : Prop where
  inv : Inv P o v
  restore : v.restore = true

theorem Restoring.rm {f : BackupFile} {s : Camera} (h : Restoring P o (view s))
    (hf : f ∈ [.hostapd, .coreInit, .coreInitNew, .initNew]) : Restoring P o (view (s.rm f)) := by
  have hi := h.inv
  have hj := hi.request h.restore
  simp only [List.mem_cons, List.not_mem_nil, or_false] at hf
  rcases hf with rfl | rfl | rfl | rfl
  · exact h
  · refine ⟨{ hi with
      dispatched := fun _ => ⟨hj, .inr (.inl h.restore)⟩
      bootstrap := fun _ => .inl rfl }, h.restore⟩
  · exact ⟨hi.of_core P o rfl, h.restore⟩
  · exact ⟨hi.of_core P o rfl, h.restore⟩

/-- The start-up file of the vendor is back. -/
structure Restored (P : Package H) (o : Bytes) (v : View) : Prop where
  inv : Inv P o v
  init : v.init = some o

/-- The copy of the start-up file, and its renaming. -/
theorem load_restoring {s s' : Camera} (h : Restoring P o (view s))
    (hs : s.load .init .initRestore = some s') :
    Restoring P o (view s') ∧ (view s').initRestore = some o := by
  obtain ⟨c, hc, rfl⟩ := Option.map_eq_some_iff.mp hs
  have ho := (h.inv.original (h.inv.request h.restore)).1
  exact ⟨⟨{ h.inv with }, h.restore⟩, hc.symm.trans ho⟩

theorem mv_restored {s s' : Camera} (h : Restoring P o (view s) ∧ (view s).initRestore = some o)
    (hs : s.mv .initRestore .init = some s') : Restored P o (view s') := by
  obtain ⟨⟨hi, hr⟩, hnew⟩ := h
  obtain ⟨c, hc, rfl⟩ := Option.map_eq_some_iff.mp hs
  obtain rfl : c = o := Option.some.inj (hc.symm.trans hnew)
  exact ⟨{ hi with
    startup := .inl rfl
    dispatched := fun _ => ⟨hi.request hr, .inr (.inl hr)⟩ }, rfl⟩

section

variable (ho : o ≠ P.dispatcher)
include ho

theorem Restored.undispatched {v : View} (h : Restored P o v) (hd : v.init = some P.dispatcher) :
    False :=
  ho (Option.some.inj (h.init.symm.trans hd))

theorem retire_goes {c : Prog Camera Bool} (hc : c ∈ retire) :
    Goes view (Inv P o) (Restored P o) c fun _ => Restored P o := by
  have hR (v : View) (h : Restored P o v) : Inv P o v := h.inv
  have hput {g : Camera → Camera} (hg : ∀ s, Restored P o (view s) → Restored P o (view (g s))) :
      Goes view (Inv P o) (Restored P o) (unchecked (act fun s => some (g s))) fun _ => Restored P o :=
    goes_unchecked (goes_act_keeps view_uncounted hR fun s _ hs h => Option.some.inj h ▸ hg s hs)
  simp only [retire, List.mem_cons, List.not_mem_nil, or_false] at hc
  rcases hc with rfl | rfl | rfl | rfl | rfl | rfl
  · refine hput fun s h => ⟨{ h.inv with
      journal := nofun
      dispatched := fun hd => (h.undispatched ho hd).elim }, h.init⟩
  · exact hput fun s h => h
  · exact hput fun s h => h
  · refine hput fun s h => ⟨{ h.inv with
      request := nofun
      dispatched := fun hd => (h.undispatched ho hd).elim }, h.init⟩
  · exact hput fun s h => h
  · exact hput fun s h => h

theorem restoreOriginal_goes [DecidableEq H] :
    Goes view (Inv P o) (Restoring P o) (restoreOriginal P) fun _ => Inv P o := by
  have hR (v : View) (h : Restoring P o v) : Inv P o v := h.inv
  have hv {q : Camera → Bool} : (verify q).Leaves view := leaves_verify view_uncounted
  refine goes_then hR (leaves_orExit (leaves_allOf ?_)) fun _ => ?_
  · simp only [List.forall_mem_cons, List.not_mem_nil, false_implies, implies_true, and_true]
    exact ⟨hv, hv, hv⟩
  refine goes_then hR (leaves_orExit hv) fun _ => ?_
  refine Goes.bind (T := fun _ => Restoring P o) (goes_allOf fun c hc => ?_) fun _ => ?_
  · obtain ⟨f, hf, rfl⟩ := List.mem_map.mp hc
    exact goes_rmBackup view_uncounted hR fun s h => h.rm hf
  refine goes_then hR (leaves_unchecked (leaves_put view_uncounted fun _ => rfl)) fun _ => ?_
  refine goes_then hR (leaves_allOf fun c hc => ?_) fun _ => ?_
  · obtain ⟨t, -, rfl⟩ := List.mem_map.mp hc
    exact leaves_orExit leaves_restoreTool
  refine goes_then hR (leaves_rmBackup view_uncounted fun _ => rfl) fun _ => ?_
  refine goes_then hR (leaves_unchecked (leaves_put view_uncounted fun _ => rfl)) fun _ => ?_
  refine Goes.bind (T := fun _ v => Restoring P o v ∧ v.initRestore = some o)
    (goes_orExit (goes_act view_uncounted hR fun s s' h hs => load_restoring h hs)) fun _ => ?_
  refine goes_then (fun _ h => h.1.inv) (leaves_sync view_uncounted) fun _ => ?_
  refine Goes.bind (T := fun _ => Restored P o)
    (goes_orExit (goes_act view_uncounted (fun _ h => h.1.inv) fun s s' h hs => mv_restored h hs)) fun _ => ?_
  refine (goes_allOf fun c hc => retire_goes ho hc).bind fun _ => ?_
  have hR (v : View) (h : Restored P o v) : Inv P o v := h.inv
  refine goes_then hR (leaves_put view_uncounted fun _ => rfl) fun _ => ?_
  refine goes_then hR (leaves_sync view_uncounted) fun _ => ?_
  exact goes_then hR (leaves_external view_uncounted) fun _ => goes_exit hR

end

theorem leaves_bootError {text : String} : (bootError text : Prog Camera α).Leaves view := by
  refine Prog.Leaves.bind ?_ fun _ => ?_
  · exact leaves_put view_uncounted fun _ => rfl
  exact (leaves_sync view_uncounted).bind fun _ => trivial

theorem leaves_mountCard : mountCard.Leaves view := by
  have hx : external.Leaves view := leaves_external view_uncounted
  have hany (n : Nat) : (anyOf (List.replicate n external)).Leaves view :=
    leaves_anyOf fun c hc => (List.eq_of_mem_replicate hc) ▸ hx
  refine (hany 2).bind fun _ => leaves_ite ?_ leaves_bootError
  refine hx.bind fun _ => leaves_ite ?_ leaves_bootError
  refine (hany 3).bind fun _ => leaves_ite trivial ?_
  exact leaves_test.bind fun _ => leaves_ite leaves_bootError trivial

/-- The journal has been written. -/
structure Journaled (P : Package H) (o : Bytes) (v : View) : Prop where
  inv : Inv P o v
  journaled : v.journaled = true

/-- The journal is there. -/
structure Pending (P : Package H) (o : Bytes) (v : View) : Prop where
  inv : Inv P o v
  pending : v.pending.isSome

theorem Pending.toJournaled {v : View} (h : Pending P o v) : Journaled P o v :=
  ⟨h.inv, h.inv.journal h.pending⟩

theorem dispatcher_goes [DecidableEq H] (ho : o ≠ P.dispatcher) {resume clean : Prog Camera Unit}
    (hresume : Goes view (Inv P o) (Pending P o) resume fun _ => Inv P o)
    (hclean : Goes view (Inv P o) (Journaled P o) clean fun _ => Inv P o) :
    Goes view (Inv P o) (Journaled P o) (dispatcher P resume clean) fun _ => Inv P o := by
  have hR (v : View) (h : Journaled P o v) : Inv P o v := h.inv
  refine goes_then hR leaves_mountCard fun card => ?_
  refine Goes.bind (T := fun ok v => Journaled P o v ∧ (ok = true → v.restore = true))
    (goes_test hR fun s h => ⟨h, fun hc => (Bool.and_eq_true_iff.mp hc).2⟩) fun _ => goes_ite ?_ ?_
  · exact (restoreOriginal_goes ho).imp (fun _ h => ⟨h.1.1.inv, h.1.2 h.2⟩) fun _ _ h => h
  refine Goes.bind (T := fun ok v => Journaled P o v ∧ (ok = true → v.pending.isSome = true))
    (goes_test (fun _ h => h.1.1.inv) fun s h => ⟨h.1.1, fun hp => hp⟩) fun _ => goes_ite ?_ ?_
  · exact hresume.imp (fun _ h => ⟨h.1.1.inv, h.1.2 h.2⟩) fun _ _ h => h
  refine Goes.bind (T := fun _ => Journaled P o)
    (goes_test (fun _ h => h.1.1.inv) fun s h => h.1.1) fun _ => goes_ite ?_ ?_
  · refine ((goes_leaves (leaves_external view_uncounted) hR).imp (fun _ h => h.1)
      fun _ _ h => h).bind fun _ => goes_ite ?_ ?_
    · exact hclean.imp (fun _ h => h.1) fun _ _ h => h
    · exact (goes_leaves (leaves_bootError) hR).imp (fun _ h => h.1) fun _ _ h => h.inv
  · exact goes_exit fun _ h => h.1.inv

/-! ## 4. Staging the images -/

/-- Each of these images has been put in place less often than tried. -/
structure Room (P : Package H) (o : Bytes) (ps : List Part) (v : View) : Prop where
  journaled : Journaled P o v
  room : ∀ p ∈ ps, v.staged p < v.attempts.getD 0

theorem Journaled.commit {s s' : Camera} {n : Nat} (h : Journaled P o (view s)) (hn : n ≤ 2)
    (hread : s.attempts.getD 0 = n) (hnew : s.attemptsNew = some (n + 1))
    (hs : (s.attemptsNew.map fun n => { s with attempts := some n, attemptsNew := none }) = some s') :
    Room P o [.rootfs, .home] (view s') := by
  rw [hnew] at hs
  obtain rfl := Option.some.inj hs
  have hstaged (p : Part) : s.staged p ≤ n := hread ▸ h.inv.staged p
  refine ⟨⟨{ h.inv with attempts := ?_, staged := fun p => ?_ }, h.journaled⟩, fun p _ => ?_⟩
  · exact Nat.succ_le_succ hn
  · exact Nat.le_succ_of_le (hstaged p)
  · exact Nat.lt_succ_of_le (hstaged p)

theorem Room.stage {s s' : Camera} {p : Part} {ps : List Part} (hp : p ∉ ps)
    (h : Room P o (p :: ps) (view s))
    (hs : (if s.triggerNew p then some { s with
      triggerNew := Function.update s.triggerNew p false
      trigger := Function.update s.trigger p true
      staged := Function.update s.staged p (s.staged p + 1) } else none) = some s') :
    Room P o ps (view s') := by
  split at hs
  · obtain rfl := Option.some.inj hs
    obtain ⟨⟨hi, hj⟩, hroom⟩ := h
    refine ⟨⟨{ hi with staged := fun q => ?_ }, hj⟩, fun q hq => ?_⟩
    · by_cases hqp : q = p
      · subst hqp
        exact (Function.update_self q _ s.staged).trans_le (hroom q List.mem_cons_self)
      · exact (Function.update_of_ne hqp _ s.staged).trans_le (hi.staged q)
    · have hqp : q ≠ p := fun e => hp (e ▸ hq)
      exact (Function.update_of_ne hqp _ s.staged).trans_lt (hroom q (List.mem_cons_of_mem p hq))
  · nomatch hs

theorem readAttempts_goes : Goes view (Inv P o) (Journaled P o) readAttempts fun read v =>
    Journaled P o v ∧ ∀ n, read = some n → v.attempts.getD 0 = n := by
  have hR (v : View) (h : Journaled P o v) : Inv P o v := h.inv
  refine Goes.bind (T := fun ok v => Journaled P o v ∧ (ok = true → v.attempts = none))
    (goes_test hR fun s h => ⟨h, Option.isNone_iff_eq_none.mp⟩) fun _ => goes_ite ?_ ?_
  · refine goes_pure fun v h => ⟨h.1.1, fun n hn => ?_⟩
    rw [h.1.2 h.2, ← Option.some.inj hn]
    rfl
  · refine (goes_then hR (leaves_external view_uncounted) fun ok => ?_).imp (fun _ h => h.1.1)
      fun _ _ h => h
    refine fun st s hs => ⟨hR _ hs, fun _ _ => ⟨hs, fun n hn => ?_⟩⟩
    cases ok with
    | true => exact congrArg (Option.getD · 0) hn
    | false => nomatch hn

section

variable [DecidableEq H] (ho : o ≠ P.dispatcher)

theorem stageImage_goes {p : Part} {ps : List Part} (hp : p ∉ ps) :
    Goes view (Inv P o) (Room P o (p :: ps)) (steps P (stageImage p)) fun _ => Room P o ps := by
  have hR (v : View) (h : Room P o (p :: ps) v) : Inv P o v := h.journaled.inv
  refine steps_skip fail_goes hR (leaves_put view_uncounted fun _ => rfl) ?_
  refine steps_skip fail_goes hR (leaves_verify view_uncounted) ?_
  exact steps_cons fail_goes (goes_act view_uncounted hR fun s s' h hs => h.stage hp hs) steps_nil

include ho

theorem execDispatcher_goes :
    Goes view (Inv P o) (Journaled P o) (execDispatcher P) fun _ => Inv P o :=
  dispatcher_goes ho (goes_exit fun _ h => h.inv) (goes_exit fun _ h => h.inv)

theorem exhausted_goes : Goes view (Inv P o) (Journaled P o) (exhausted P) fun _ => Inv P o := by
  have hR (v : View) (h : Journaled P o v) : Inv P o v := h.inv
  have hv {q : Camera → Bool} : (verify q).Leaves view := leaves_verify view_uncounted
  refine goes_then hR (leaves_unchecked (leaves_put view_uncounted fun _ => rfl)) fun _ => ?_
  refine goes_then hR (leaves_unchecked (leaves_put view_uncounted fun _ => rfl)) fun _ => ?_
  refine goes_then hR (leaves_allOf ?_) fun ok => goes_ite ?_ ?_
  · simp only [List.forall_mem_cons, List.not_mem_nil, false_implies, implies_true, and_true]
    exact ⟨hv, hv⟩
  · refine Goes.bind (T := fun _ => Journaled P o) (Goes.imp ?_ (fun _ h => h.1) fun _ _ h => h)
      fun _ => execDispatcher_goes ho
    refine steps_skip fail_goes hR (leaves_put view_uncounted fun _ => rfl) ?_
    refine steps_cons fail_goes (T := Journaled P o) (goes_act view_uncounted hR fun s s' h hs => ?_) ?_
    · obtain rfl := Option.some.inj hs
      exact ⟨{ h.inv with
        request := fun _ => h.journaled
        dispatched := fun _ => ⟨h.journaled, .inr (.inl rfl)⟩ }, h.journaled⟩
    exact steps_skip fail_goes hR (leaves_sync view_uncounted) steps_nil
  · exact fail_goes.imp (fun _ h => hR _ h.1) fun _ _ h => h

theorem stage_goes : Goes view (Inv P o) (Journaled P o) (stage P) fun _ => Inv P o := by
  have hR (v : View) (h : Journaled P o v) : Inv P o v := h.inv
  refine readAttempts_goes.bind fun read => ?_
  have hexhausted : Goes view (Inv P o)
      (fun v => Journaled P o v ∧ ∀ n, read = some n → v.attempts.getD 0 = n)
      (exhausted P) fun _ => Inv P o :=
    (exhausted_goes ho).imp (fun _ h => h.1) fun _ _ h => h
  cases read with
  | none => exact hexhausted
  | some n =>
    by_cases hn : n ≤ 2
    · simp only [hn, if_true]
      refine Goes.bind (T := fun _ => Room P o [.rootfs, .home]) ?_ fun _ => ?_
      · refine steps_cons fail_goes (T := fun v => Journaled P o v ∧ v.attempts.getD 0 = n ∧
          v.attemptsNew = some (n + 1)) (goes_act view_uncounted (fun _ h => h.1.inv) fun s s' h hs => ?_) ?_
        · obtain rfl := Option.some.inj hs
          exact ⟨⟨{ h.1.inv with }, h.1.journaled⟩, h.2 n rfl, rfl⟩
        refine steps_cons fail_goes (T := Room P o [.rootfs, .home])
          (goes_act view_uncounted (fun _ h => h.1.inv) fun s s' h hs => ?_) ?_
        · exact h.1.commit hn h.2.1 h.2.2 hs
        exact steps_skip fail_goes (fun _ h => h.journaled.inv) (leaves_sync view_uncounted) steps_nil
      refine Goes.bind (T := fun _ => Room P o []) ?_ fun _ => ?_
      · exact steps_append (stageImage_goes (by decide)) (stageImage_goes (by decide))
      refine goes_then (fun _ h => h.journaled.inv) (leaves_put view_uncounted fun _ => rfl) fun _ => ?_
      exact restart_goes fail_goes view_uncounted fun _ h => h.journaled.inv
    · simp only [hn, if_false]
      exact hexhausted

end

/-! ## 5. Resumption -/

/-- The new dispatcher is renamed. -/
theorem mv_pending {s s' : Camera} (h : Pending P o (view s) ∧ (view s).initNew = some P.dispatcher)
    (hs : s.mv .initNew .init = some s') : Pending P o (view s') := by
  obtain ⟨⟨hi, hp⟩, hnew⟩ := h
  obtain ⟨c, hc, rfl⟩ := Option.map_eq_some_iff.mp hs
  obtain rfl : c = P.dispatcher := Option.some.inj (hc.symm.trans hnew)
  exact ⟨{ hi with
    startup := .inr rfl
    dispatched := fun _ => ⟨hi.journal hp, .inl hp⟩ }, hp⟩

/-- Both images and the bootstrap are there. -/
structure Ready (P : Package H) (o : Bytes) (v : View) : Prop where
  inv : Inv P o v
  installed : v.Installed P

section

variable [DecidableEq H] {Q : Unit → View → Prop}

theorem leaves_sameHash {f g : Camera → Option Bytes} : (sameHash P f g).Leaves view :=
  leaves_verify view_uncounted

theorem resumeDispatcher_goes :
    Goes view (Inv P o) (Pending P o) (resumeDispatcher P) fun _ => Pending P o := by
  have hR (v : View) (h : Pending P o v) : Inv P o v := h.inv
  refine goes_then hR leaves_sameHash fun ok => goes_ite (goes_pure fun _ h => h.1) ?_
  refine Goes.imp (R := Pending P o) ?_ (fun _ h => h.1) fun _ _ h => h
  refine steps_skip fail_goes hR (leaves_verify view_uncounted) ?_
  refine steps_cons fail_goes (T := fun v => Pending P o v ∧ v.initNew = some P.dispatcher)
    (goes_act view_uncounted hR fun s s' h hs => ?_) ?_
  · obtain rfl := Option.some.inj hs
    exact ⟨⟨h.inv.of_core P o rfl, h.pending⟩, rfl⟩
  refine steps_skip fail_goes (fun _ h => h.1.inv) leaves_sameHash ?_
  refine steps_skip fail_goes (fun _ h => h.1.inv) (leaves_sync view_uncounted) ?_
  refine steps_cons fail_goes (T := Pending P o)
    (goes_act view_uncounted (fun _ h => h.1.inv) fun s s' h hs => mv_pending h hs) ?_
  exact steps_skip fail_goes hR (leaves_sync view_uncounted) steps_nil

theorem finish_goes :
    Goes view (Inv P o) (fun v => Pending P o v ∧ v.root = .new ∧ v.home = .new) (finish P) Q := by
  have hR (v : View) (h : Ready P o v) : Inv P o v := h.inv
  refine Goes.bind (T := fun _ => Ready P o) ?_ fun _ => ?_
  · refine steps_cons fail_goes (T := Ready P o)
      (goes_verify view_uncounted (fun _ h => h.1.inv) fun s h hs => ?_) ?_
    · obtain ⟨c, hc, -⟩ := Option.map_eq_some_iff.mp (of_decide_eq_true hs)
      rcases h.1.inv.bootstrap (h.1.inv.journal h.1.pending) with hb | hb
      · exact nomatch hb.symm.trans hc
      · exact ⟨h.1.inv, h.2.1, h.2.2, hb⟩
    refine steps_skip fail_goes hR (leaves_unchecked (leaves_put view_uncounted fun _ => rfl)) ?_
    refine steps_skip fail_goes hR (leaves_unchecked (leaves_put view_uncounted fun _ => rfl)) ?_
    refine steps_skip fail_goes hR (leaves_onlyIf (leaves_put view_uncounted fun _ => rfl)) ?_
    refine steps_skip fail_goes hR (leaves_onlyIf (leaves_put view_uncounted fun _ => rfl)) ?_
    refine steps_cons fail_goes ((goes_rmBackup view_uncounted hR fun s h => ?_).imp (fun _ h => h)
      (orLost_of hR)) steps_nil
    exact ⟨{ h.inv with
      journal := nofun
      dispatched := fun hd => ⟨(h.inv.dispatched hd).1, .inr (.inr h.installed)⟩ }, h.installed⟩
  refine goes_then hR (leaves_put view_uncounted fun _ => rfl) fun _ => ?_
  exact restart_goes fail_goes view_uncounted hR

theorem resume_goes : Goes view (Inv P o) (Pending P o) (resume P) fun _ => Journaled P o := by
  have hR (v : View) (h : Pending P o v) : Inv P o v := h.inv
  have hv {q : Camera → Bool} : (verify q).Leaves view := leaves_verify view_uncounted
  refine Goes.bind (T := fun _ => Pending P o) ?_ fun _ => resumeDispatcher_goes.bind fun _ => ?_
  · exact steps_skip fail_goes hR hv (steps_skip fail_goes hR hv steps_nil)
  refine Goes.bind (T := fun ok v => Pending P o v ∧ (ok = true → v.root = .new ∧ v.home = .new))
    ?_ fun _ => goes_ite ?_ ?_
  · exact goes_both view_uncounted hR (fun s h => of_decide_eq_true h) fun s h => of_decide_eq_true h
  · exact finish_goes.imp (fun _ h => ⟨h.1.1, h.1.2 h.2⟩) fun _ _ h => h
  · refine Goes.imp (R := Pending P o) ?_ (fun _ h => h.1.1) fun _ _ h => h
    refine Goes.imp (steps_keep fail_goes hR ?_) (fun _ h => h) fun _ _ h => h.toJournaled
    simp only [List.forall_mem_cons, List.not_mem_nil, false_implies, implies_true, and_true]
    refine ⟨leaves_anyOf ?_, leaves_anyOf ?_⟩
    · simp only [List.forall_mem_cons, List.not_mem_nil, false_implies, implies_true, and_true]
      exact ⟨hv, hv⟩
    · simp only [List.forall_mem_cons, List.not_mem_nil, false_implies, implies_true, and_true]
      exact ⟨hv, hv⟩

end

/-! ## 6. The fresh installation -/

/-- No recovery directory yet, so nothing has been tried. -/
structure Untried (P : Package H) (o : Bytes) (v : View) : Prop where
  inv : Inv P o v
  recovery : v.recovery = false

/-- The journal has not been written. -/
structure Unjournaled (P : Package H) (o : Bytes) (v : View) : Prop where
  inv : Inv P o v
  journaled : v.journaled = false
  recovery : v.recovery = true

/-- The start-up file is on the card. -/
structure Copied (P : Package H) (o : Bytes) (v : View) : Prop where
  unjournaled : Unjournaled P o v
  saved : v.saved = some o

theorem Untried.unjournaled {v : View} (h : Untried P o v) : v.journaled = false :=
  Bool.eq_false_iff.mpr fun hj => Bool.false_ne_true (h.recovery.symm.trans (h.inv.original hj).2)

theorem Unjournaled.init {v : View} (h : Unjournaled P o v) : v.init = some o := by
  rcases h.inv.startup with hi | hi
  · exact hi
  · exact absurd ((h.inv.dispatched hi).1.symm.trans h.journaled) nofun

/-- Without a journal the other files do not count. -/
theorem Inv.unjournaled {v w : View} (h : Inv P o v) (hv : v.journaled = false) (hinit : w.init = v.init)
    (hpending : w.pending = v.pending) (hrestore : w.restore = v.restore)
    (hjournaled : w.journaled = v.journaled) (hattempts : w.attempts = v.attempts)
    (hstaged : w.staged = v.staged) : Inv P o w := by
  have hno : ¬ w.journaled = true := fun e => Bool.false_ne_true (hv.symm.trans (hjournaled.symm.trans e))
  refine ⟨hinit ▸ h.startup, ?_, ?_, ?_, fun e => (hno e).elim, fun e => (hno e).elim, ?_, ?_⟩
  · rw [hpending, hjournaled]
    exact h.journal
  · rw [hrestore, hjournaled]
    exact h.request
  · rw [hinit]
    exact fun e => absurd ((h.dispatched e).1.symm.trans hv) nofun
  · rw [hattempts]
    exact h.attempts
  · rw [hattempts, hstaged]
    exact h.staged

theorem Untried.mkdir {s : Camera} (h : Untried P o (view s)) :
    Unjournaled P o (view { s with recovery := true }) :=
  ⟨h.inv.unjournaled h.unjournaled rfl rfl rfl rfl rfl rfl, h.unjournaled, rfl⟩

theorem Unjournaled.save {s s' : Camera} (h : Unjournaled P o (view s))
    (hs : s.save .init .init = some s') : Copied P o (view s') := by
  obtain ⟨c, hc, rfl⟩ := Option.map_eq_some_iff.mp hs
  have hinv :=
    h.inv.unjournaled (w := view { s with files := Function.update s.files .init (some c) })
    h.journaled rfl rfl rfl rfl rfl rfl
  exact ⟨⟨hinv, h.journaled, h.recovery⟩, hc.symm.trans h.init⟩

/-- The bootstrap and the dispatcher are staged. -/
structure Staged (P : Package H) (o : Bytes) (v : View) : Prop where
  copied : Copied P o v
  coreInitNew : v.coreInitNew = some P.coreInit
  initNew : v.initNew = some P.dispatcher

/-- The bootstrap is in its place. -/
structure Activated (P : Package H) (o : Bytes) (v : View) : Prop where
  copied : Copied P o v
  coreInit : v.coreInit = some P.coreInit
  initNew : v.initNew = some P.dispatcher

theorem Copied.inv {v : View} (h : Copied P o v) : Inv P o v := h.unjournaled.inv

theorem Copied.of_core {v w : View} (h : Copied P o v) (he : w.core = v.core) : Copied P o w :=
  ⟨⟨h.inv.of_core P o he, (congrArg View.journaled he).trans h.unjournaled.journaled,
    (congrArg View.recovery he).trans h.unjournaled.recovery⟩, (congrArg View.saved he).trans h.saved⟩

theorem Staged.mv {s s' : Camera} (h : Staged P o (view s))
    (hs : (s.mv .coreInitNew .coreInit).map (fun s => { s with activated := true }) = some s') :
    Activated P o (view s') := by
  obtain ⟨s'', hmv, rfl⟩ := Option.map_eq_some_iff.mp hs
  obtain ⟨c, hc, rfl⟩ := Option.map_eq_some_iff.mp hmv
  have hu := h.copied.unjournaled
  have hinv : Inv P o (view ((s.rm .coreInitNew).write .coreInit c)) :=
    hu.inv.unjournaled hu.journaled rfl rfl rfl rfl rfl rfl
  exact ⟨⟨⟨hinv, hu.journaled, hu.recovery⟩, h.copied.saved⟩, hc.symm.trans h.coreInitNew, h.initNew⟩

theorem Activated.commit {s : Camera} (h : Activated P o (view s)) (c : Bytes) :
    Pending P o (view { s.write .pending c with journaled := true }) ∧
      (view s).initNew = some P.dispatcher := by
  have hu := h.copied.unjournaled
  refine ⟨⟨{ hu.inv with
    journal := fun _ => rfl
    request := fun _ => rfl
    dispatched := fun _ => ⟨rfl, .inl rfl⟩
    original := fun _ => ⟨h.copied.saved, hu.recovery⟩
    bootstrap := fun _ => .inr h.coreInit }, rfl⟩, h.initNew⟩

section

variable [DecidableEq H] {text : String}

/-- The kernel of y623. -/
theorem leaves_kernel {b : Bool} {x : Prog Camera Bool × String}
    (hx : x ∈ if b = true then [(external, text)] else []) : x.1.Leaves view := by
  split at hx
  · exact List.mem_singleton.mp hx ▸ leaves_external view_uncounted
  · nomatch hx

theorem partitioned_goes (hR : ∀ v, R v → Inv P o v) :
    Goes view (Inv P o) R (partitioned P) (OrLost (Inv P o) R) := by
  rw [partitioned]
  split
  · refine goes_then hR (leaves_external view_uncounted) fun ok => goes_ite (goes_pure fun _ h => h.1) ?_
    refine Goes.imp (R := R) ?_ (fun _ h => h.1) fun _ _ h => h
    refine Goes.bind (T := fun _ => R) ?_ fun _ => ?_
    · refine steps_skip fail_goes hR (leaves_onlyIf (leaves_put view_uncounted fun _ => rfl)) ?_
      exact steps_skip fail_goes hR (leaves_onlyIf (leaves_put view_uncounted fun _ => rfl)) steps_nil
    refine goes_then hR (leaves_put view_uncounted fun _ => rfl) fun _ => ?_
    exact restart_goes fail_goes view_uncounted hR
  · exact goes_pure fun _ h => h

theorem checks_goes : Goes view (Inv P o) (Inv P o) (steps P (checks P)) fun _ => Untried P o := by
  have hR (v : View) (h : Untried P o v) : Inv P o v := h.inv
  have hx : external.Leaves view := leaves_external view_uncounted
  have ht {q : Camera → Bool} : (Prog.test q).Leaves view := leaves_test
  refine steps_append (T := Untried P o) ?_ (steps_keep fail_goes hR fun x hx => ?_)
  · refine steps_skip fail_goes (fun _ h => h) (leaves_verify view_uncounted) ?_
    refine steps_skip fail_goes (fun _ h => h) (leaves_verify view_uncounted) ?_
    refine steps_cons fail_goes (T := Untried P o) (goes_test (fun _ h => h) fun s h => ?_) ?_
    · cases hr : s.recovery with
      | false => exact ⟨h, hr⟩
      | true => exact h
    refine steps_each fail_goes ?_
    have hc {c : Prog Camera Bool} (hc : c.Leaves view) :
        Goes view (Inv P o) (Untried P o) c (OrLost (Inv P o) (Untried P o)) := goes_skip hR hc
    simp only [List.forall_mem_cons, List.not_mem_nil, false_implies, implies_true, and_true]
    exact ⟨hc ht, hc ht, hc ht, hc ht, hc ht, hc ht, hc hx, hc hx, hc hx, hc hx, partitioned_goes hR,
      hc (leaves_onlyIf hx)⟩
  · exact leaves_kernel hx

theorem backups_goes : Goes view (Inv P o) (Untried P o) (steps P backups) fun _ => Copied P o := by
  have hR (v : View) (h : Unjournaled P o v) : Inv P o v := h.inv
  refine steps_append (T := Unjournaled P o) (steps_append (T := Unjournaled P o) ?_ ?_) ?_
  · refine steps_cons fail_goes (goes_act view_uncounted (fun _ h => h.inv) fun s s' h hs => ?_) steps_nil
    exact Option.some.inj hs ▸ h.mkdir
  · refine steps_keep fail_goes hR fun x hx => ?_
    obtain ⟨n, -, hx⟩ := List.mem_flatMap.mp hx
    rcases List.mem_pair.mp hx with rfl | rfl
    · exact leaves_put view_uncounted fun _ => rfl
    · exact leaves_verify view_uncounted
  · refine steps_cons fail_goes (goes_act view_uncounted hR fun s s' h hs => h.save hs) ?_
    refine steps_skip fail_goes (fun _ h => h.inv) (leaves_put view_uncounted fun _ => rfl) ?_
    refine steps_skip fail_goes (fun _ h => h.inv) (leaves_put view_uncounted fun _ => rfl) ?_
    exact steps_skip fail_goes (fun _ h => h.inv) (leaves_sync view_uncounted) steps_nil

theorem reclaim_goes (ts : List Tool) :
    Goes view (Inv P o) (Copied P o) (reclaim P ts) fun _ => Copied P o := by
  have hR (v : View) (h : Copied P o v) : Inv P o v := h.inv
  induction ts with
  | nil => exact goes_pure fun _ h => h
  | cons t ts ih =>
    refine goes_then hR leaves_test fun ok => goes_ite ?_ (ih.imp (fun _ h => h.1) fun _ _ h => h)
    refine Goes.imp (R := Copied P o) ?_ (fun _ h => h.1) fun _ _ h => h
    refine goes_then hR (leaves_external view_uncounted) fun named => ?_
    refine Goes.bind (T := fun _ => Copied P o) ?_ fun _ => ih
    refine steps_skip fail_goes hR (leaves_act view_uncounted fun s s' hs => ?_) ?_
    · obtain ⟨c, -, rfl⟩ := Option.map_eq_some_iff.mp hs
      cases named <;> rfl
    refine steps_skip fail_goes hR leaves_sameHash ?_
    exact steps_skip fail_goes hR (leaves_put view_uncounted fun _ => rfl) steps_nil

theorem leaves_addSetting {f : Bytes} : (addSetting f).Leaves view := by
  refine leaves_act view_uncounted fun s s' hs => ?_
  obtain ⟨c, -, rfl⟩ := Option.map_eq_some_iff.mp hs
  rfl

theorem leaves_settings {x : Prog Camera Bool × String} (hx : x ∈ settings P) :
    x.1.Leaves view := by
  have hx' : external.Leaves view := leaves_external view_uncounted
  have ht {q : Camera → Bool} : (Prog.test q).Leaves view := leaves_test
  simp only [settings, List.mem_append, List.mem_cons, List.not_mem_nil, or_false, List.mem_map] at hx
  rcases hx with (((hx | ⟨f, -, rfl⟩) | ⟨f, -, rfl⟩) | hx) | hx
  · rcases hx with rfl | rfl | rfl | rfl | rfl | rfl
    · exact ht
    · exact leaves_put view_uncounted fun _ => rfl
    · exact leaves_onlyIf hx'
    · exact leaves_onlyIf (leaves_put view_uncounted fun _ => rfl)
    · exact ht
    · exact leaves_put view_uncounted fun _ => rfl
  · exact leaves_addSetting
  · exact leaves_addSetting
  · rcases hx with rfl | rfl | rfl | rfl
    · exact leaves_sync view_uncounted
    · exact leaves_sameHash
    · exact hx'
    · exact hx'
  · exact leaves_kernel hx

theorem activate_goes :
    Goes view (Inv P o) (Staged P o) (steps P (activate P)) fun _ => Pending P o := by
  refine steps_cons fail_goes (goes_act view_uncounted (fun _ h => h.copied.inv) fun s s' h hs => h.mv hs) ?_
  refine steps_cons fail_goes (T := fun v => Pending P o v ∧ v.initNew = some P.dispatcher)
    (goes_act view_uncounted (fun _ h => h.copied.inv) fun s s' h hs => ?_) ?_
  · obtain rfl := Option.some.inj hs
    exact h.commit _
  refine steps_skip fail_goes (fun _ h => h.1.inv) (leaves_unchecked (leaves_put view_uncounted fun _ => rfl)) ?_
  refine steps_skip fail_goes (fun _ h => h.1.inv) (leaves_sync view_uncounted) ?_
  refine steps_cons fail_goes (T := Pending P o)
    (goes_act view_uncounted (fun _ h => h.1.inv) fun s s' h hs => mv_pending h hs) ?_
  exact steps_skip fail_goes (fun _ h => h.inv) (leaves_sync view_uncounted) steps_nil

theorem fresh_goes : Goes view (Inv P o) (Inv P o) (fresh P) fun _ => Pending P o := by
  have hR (v : View) (h : Copied P o v) : Inv P o v := h.inv
  refine checks_goes.bind fun _ => backups_goes.bind fun _ => (reclaim_goes tools).bind fun _ => ?_
  refine Goes.bind (T := fun _ => Copied P o) ?_ fun _ => ?_
  · exact steps_skip fail_goes hR (leaves_put view_uncounted fun _ => rfl) steps_nil
  refine goes_then hR (leaves_assign fun _ => rfl) fun _ => ?_
  refine Goes.bind (T := fun _ => Copied P o) (steps_keep fail_goes hR ?_) fun _ => ?_
  · simp only [preserve, List.forall_mem_cons, List.not_mem_nil, false_implies, implies_true, and_true]
    refine ⟨leaves_act view_uncounted fun s s' hs => ?_, leaves_sameHash⟩
    obtain ⟨c, -, rfl⟩ := Option.map_eq_some_iff.mp hs
    rfl
  refine Goes.bind (T := fun _ v => Copied P o v ∧ v.coreInitNew = some P.coreInit) ?_ fun _ => ?_
  · refine steps_cons fail_goes (goes_act view_uncounted hR fun s s' h hs => ?_) steps_nil
    obtain rfl := Option.some.inj hs
    exact ⟨h.of_core rfl, rfl⟩
  refine (steps_keep fail_goes (fun _ h => h.1.inv) fun x hx => leaves_settings hx).bind fun _ => ?_
  refine Goes.bind (T := fun _ => Staged P o) ?_ fun _ => ?_
  · refine steps_cons fail_goes (goes_act view_uncounted (fun _ h => h.1.inv) fun s s' h hs => ?_) steps_nil
    obtain rfl := Option.some.inj hs
    exact ⟨h.1.of_core rfl, h.2, rfl⟩
  refine Goes.bind (T := fun _ => Staged P o) (steps_keep fail_goes (fun _ h => h.copied.inv) ?_) fun _ =>
    activate_goes
  simp only [dispatcherChecks, List.forall_mem_cons, List.not_mem_nil, false_implies, implies_true,
    and_true]
  exact ⟨leaves_sameHash, leaves_sync view_uncounted, leaves_external view_uncounted⟩

end

/-! ## 7. install.sh -/

section

variable [DecidableEq H]

omit [DecidableEq H] in
theorem preamble_external {x : Prog Camera Bool × String} (hx : x ∈ preamble) :
    ∃ text, x = (external, text) := by
  rcases List.mem_append.mp hx with hx | hx
  · simp only [List.mem_cons, List.not_mem_nil, or_false] at hx
    rcases hx with rfl | rfl | rfl <;> exact ⟨_, rfl⟩
  · exact ⟨_, List.eq_of_mem_replicate hx⟩

theorem preamble_goes (hR : ∀ v, R v → Inv P o v) :
    Goes view (Inv P o) R (steps P preamble) fun _ => R := by
  refine steps_keep fail_goes hR fun x hx => ?_
  obtain ⟨text, rfl⟩ := preamble_external hx
  exact leaves_external view_uncounted

variable (ho : o ≠ P.dispatcher)
include ho

theorem install_goes : Goes view (Inv P o) (Inv P o) (install P) fun _ => Inv P o := by
  have hR (v : View) (h : Inv P o v) : Inv P o v := h
  refine (preamble_goes hR).bind fun _ => ?_
  refine Goes.bind (T := fun ok v => Inv P o v ∧ (ok = true → v.restore = true))
    (goes_test hR fun s h => ⟨h, fun hr => hr⟩) fun _ => goes_ite ?_ ?_
  · exact (execDispatcher_goes ho).imp (fun _ h => ⟨h.1.1, h.1.1.request (h.1.2 h.2)⟩) fun _ _ h => h
  refine Goes.bind (T := fun ok v => Inv P o v ∧ (ok = true → v.pending.isSome = true))
    (goes_test (fun _ h => h.1.1) fun s h => ⟨h.1.1, fun hp => hp⟩) fun _ => goes_ite ?_ ?_
  · exact (resume_goes.bind fun _ => stage_goes ho).imp (fun _ h => ⟨h.1.1, h.1.2 h.2⟩) fun _ _ h => h
  · refine (fresh_goes.bind fun _ => ?_).imp (fun _ h => h.1.1) fun _ _ h => h
    exact (stage_goes ho).imp (fun _ h => h.toJournaled) fun _ _ h => h

/-- The card of an installation is refused, as it has a recovery directory. -/
theorem prepareClean_goes {clean : Prog Camera Unit} :
    Goes view (Inv P o) (Journaled P o) (prepareClean P clean) fun _ => Inv P o := by
  have hR (v : View) (h : Journaled P o v) : Inv P o v := h.inv
  refine (preamble_goes hR).bind fun _ => ?_
  refine goes_then hR leaves_test fun ok => goes_ite ?_ ?_
  · exact (execDispatcher_goes ho).imp (fun _ h => h.1) fun _ _ h => h
  refine Goes.imp (R := Journaled P o) ?_ (fun _ h => h.1) fun _ _ h => h
  refine Goes.bind (T := fun _ _ => False) ?_ fun _ _ _ h => h.elim
  refine steps_skip fail_goes hR (leaves_external view_uncounted) ?_
  refine steps_skip fail_goes hR leaves_test ?_
  refine steps_cons fail_goes (T := fun _ => False) (goes_test hR fun s h => ?_) steps_nil
  have hrecovery : s.recovery = true := (h.inv.original h.journaled).2
  simp only [hrecovery, Bool.not_true, Bool.and_false]
  exact h.inv

end

/-! ## 8. Power losses -/

/-- The camera starts, wherever it was: the boot loader flashes some of the images that are staged,
    and may take some away; the start-up of the vendor runs the hook of the card, or does not. Or the
    next command runs. -/
inductive Event
  | start (flashed taken : Part → Bool) (hook : Bool)
  | command (ok : Bool)

def flash (flashed : Part → Bool) (s : Camera) (p : Part) (image : Image) : Image :=
  if s.trigger p && flashed p then .new else image

def Camera.started (flashed taken : Part → Bool) (s : Camera) : Camera := { s with
  root := flash flashed s .rootfs s.root
  home := flash flashed s .home s.home
  trigger := fun p => s.trigger p && !taken p
  ready := false }

/-- What `/backup/init.sh` comes to. -/
def startup [DecidableEq H] (P : Package H) (clean : Prog Camera Unit) (hook : Bool) (s : Camera) :
    Prog Camera Unit :=
  if s.backup .init = some P.dispatcher then dispatcher P (install P) (prepareClean P clean)
  else if hook then install P else return ()

/-- No signals. -/
def untrapped : Trap Camera where
  on _ := false
  handler _ := return ()

namespace Machine

def step [DecidableEq H] (P : Package H) (clean : Prog Camera Unit) (c : Config Camera) :
    Event → Config Camera
  | .start flashed taken hook =>
    ⟨startup P clean hook (c.state.started flashed taken), true, c.state.started flashed taken⟩
  | .command ok => c.step untrapped (.outcome ok)

end Machine

/-- Before the installation; `o` is the start-up file of the vendor, and there is no recovery
    directory yet. -/
structure Fresh (P : Package H) (o : Bytes) (s : Camera) : Prop where
  other : o ≠ P.dispatcher
  init : s.backup .init = some o
  pending : s.backup .pending = none
  recovery : s.recovery = false
  restore : s.restore = false
  attempts : s.attempts = none
  journaled : s.journaled = false
  staged : ∀ p, s.staged p = 0

theorem Fresh.inv {s : Camera} (h : Fresh P o s) : Inv P o (view s) where
  startup := .inl h.init
  journal hp := absurd (h.pending ▸ hp : (none : Option Bytes).isSome = true) nofun
  request hr := absurd (h.restore.symm.trans hr) nofun
  dispatched hd := absurd (Option.some.inj (h.init.symm.trans hd)) h.other
  original hj := absurd (h.journaled.symm.trans hj) nofun
  bootstrap hj := absurd (h.journaled.symm.trans hj) nofun
  attempts := by
    show s.attempts.getD 0 ≤ 3
    rw [h.attempts]
    exact Nat.zero_le 3
  staged p := (h.staged p).trans_le (Nat.zero_le _)

/-- What a power loss must find. -/
structure Recoverable (P : Package H) (o : Bytes) (s : Camera) : Prop where
  startup : s.backup .init = some o ∨ s.backup .init = some P.dispatcher
  dispatched : s.backup .init = some P.dispatcher →
    (s.backup .pending).isSome ∨ s.restore ∨
      s.root = .new ∧ s.home = .new ∧ s.backup .coreInit = some P.coreInit
  original : s.journaled → s.files .init = some o
  staged : ∀ p, s.staged p ≤ 3

theorem Inv.recoverable {s : Camera} (h : Inv P o (view s)) : Recoverable P o s where
  startup := h.startup
  dispatched hd := (h.dispatched hd).2
  original hj := (h.original hj).1
  staged p := (h.staged p).trans h.attempts

theorem Inv.started {s : Camera} (h : Inv P o (view s)) (flashed taken : Part → Bool) :
    Inv P o (view (s.started flashed taken)) := by
  have hnew (p : Part) (image : Image) (hi : image = .new) : flash flashed s p image = .new := by
    rw [flash, hi, ite_self]
  refine { h with dispatched := fun hd => ?_ }
  obtain ⟨hj, hp | hr | ⟨hroot, hhome, hcore⟩⟩ := h.dispatched hd
  · exact ⟨hj, .inl hp⟩
  · exact ⟨hj, .inr (.inl hr)⟩
  · exact ⟨hj, .inr (.inr ⟨hnew .rootfs _ hroot, hnew .home _ hhome, hcore⟩)⟩

/-- At every command boundary, and at the end. -/
def Sound (P : Package H) (o : Bytes) (c : Config Camera) : Prop :=
  c.Safe (fun _ _ => True) (fun _ s => Inv P o (view s)) fun s => Inv P o (view s)

theorem Sound.now {c : Config Camera} (h : Sound P o c) : Inv P o (view c.state) :=
  Config.Safe.now (I := fun s => Inv P o (view s)) h

section

variable [DecidableEq H] {clean : Prog Camera Unit}

theorem startup_sound (ho : o ≠ P.dispatcher) {hook : Bool} {s : Camera} (h : Inv P o (view s))
    (st : Bool) : Sound P o ⟨startup P clean hook s, st, s⟩ := by
  show (startup P clean hook s).Safe _ _ _ st s
  rw [startup]
  split
  · next hd =>
    refine dispatcher_goes ho ?_ (prepareClean_goes ho) st s ⟨h, (h.dispatched hd).1⟩
    exact (install_goes ho).imp (fun _ h => h.inv) fun _ _ h => h
  · split
    · exact install_goes ho st s h
    · exact h

theorem step_sound (ho : o ≠ P.dispatcher) (c : Config Camera) (e : Event) (h : Sound P o c) :
    Sound P o (Machine.step P clean c e) := by
  cases e with
  | start flashed taken hook =>
    exact startup_sound ho (h.now.started flashed taken) true
  | command ok =>
    refine step_safe (A := fun _ _ => True) (S := fun _ _ => True) (fun st s hN _ => hN) ?_ h
    obtain ⟨prog, st, s⟩ := c
    cases prog <;> trivial

/-- **Power may be lost at any command of a fresh installation**, as often as it likes. -/
theorem power_loss_safe {s : Camera} (h : Fresh P o s) (es : List Event) :
    Recoverable P o (run (Machine.step P clean) ⟨.pure (), true, s⟩ es).state := by
  have hrun : Sound P o (run (Machine.step P clean) ⟨.pure (), true, s⟩ es) :=
    run_inv (fun c e => step_sound h.other c e) (show Sound P o ⟨.pure (), true, s⟩ from h.inv) es
  exact hrun.now.recoverable

end

end

/-! ### A camera with a card -/

def samplePackage : Package Bytes where
  md5 := id
  dispatcher := ascii "dispatcher"
  coreInit := ascii "core"
  release := ascii "1"
  previousDispatch := none
  y623 := false
  etc := [ascii "system.conf"]

def sampleCamera : Camera where
  root := .stock
  home := .stock
  backup := fun f => if f = .init then some (ascii "vendor") else none
  config := none
  recovery := false
  mtd := fun _ => false
  files := fun _ => none
  archive := false
  manifest := none
  restore := false
  automatic := false
  attempts := none
  attemptsNew := none
  failedSettings := false
  settings := none
  cleanInstall := false
  trigger := fun _ => false
  triggerNew := fun _ => false
  lowerHalf := true
  factory := false
  wifiCfg := false
  result := ""
  ready := false
  failing := false
  failures := 0
  reclaimed := false
  activated := false
  journaled := false
  staged := fun _ => 0

theorem sampleCamera_fresh : Fresh samplePackage (ascii "vendor") sampleCamera where
  other := by decide
  init := rfl
  pending := rfl
  recovery := rfl
  restore := rfl
  attempts := rfl
  journaled := rfl
  staged _ := rfl

/-- From the sample camera, with nothing behind the refusals of `--prepare-clean`. -/
def sampleRun (es : List Event) : Config Camera :=
  run (Machine.step samplePackage (.exit false)) ⟨.pure (), true, sampleCamera⟩ es

def commands (n : Nat) : List Event := List.replicate n (.command true)

def restarted : Event := .start (fun _ => true) (fun _ => true) true

/-- Power is lost before the images are staged, and again while they are. -/
def threeStarts : List Event :=
  restarted :: commands 85 ++ restarted :: commands 40 ++ restarted :: commands 60

theorem sampleCamera_recoverable :
    ((sampleRun threeStarts).over = true ∧ (view (sampleRun threeStarts).state).Installed samplePackage) ∧
      Recoverable samplePackage (ascii "vendor") (sampleRun threeStarts).state :=
  ⟨by decide +kernel, power_loss_safe sampleCamera_fresh _⟩

end YiHack.FlashCore
