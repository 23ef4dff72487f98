/-
  File:      YiHack/FlashCore/Abandon.lean
  Subject:   A fresh installation that is abandoned before its journal: what `fail` takes back.

  Any commands may fail before `fail` is entered, with no effect; what `fail` runs succeeds. `Early`
  is before `ROLLBACK_READY`, where `fail` takes nothing back; `Late` is from there to the journal,
  where it takes back all but the bootstrap under its final name.

  * `fail_early`, `fail_late` -- `fail`, from either;
  * `checks_lands`, `backups_lands`, `reclaim_lands`, `settings_lands` -- the installation;
  * **`abandoned_iff`** -- when all of `/backup` is as it was.
-/
import YiHack.FlashCore.PowerLoss

namespace YiHack.FlashCore.Abandon

open General Prog

/-! ## 1. What counts -/

/-- What `fail` works with, and the notes. -/
structure Ledger where
  backup : BackupFile → Option Bytes
  config : Option (List Bytes)
  files : RecoveryFile → Option Bytes
  manifest : Option (List (RecoveryFile × Bytes))
  root : Image
  home : Image
  recovery : Bool
  identity : Bool
  restore : Bool
  ready : Bool
  failing : Bool
  reclaimed : Bool
  activated : Bool
  journaled : Bool

def ledger (s : Camera) : Ledger where
  backup := s.backup
  config := s.config
  files := s.files
  manifest := s.manifest
  root := s.root
  home := s.home
  recovery := s.recovery
  identity := s.mtd 6
  restore := s.restore
  ready := s.ready
  failing := s.failing
  reclaimed := s.reclaimed
  activated := s.activated
  journaled := s.journaled

theorem ledger_uncounted : Uncounted ledger := fun _ _ => rfl

/-- What `fail` runs succeeds. -/
def Obeys (s : Camera) (ok : Bool) : Prop := s.failing = true → ok = true

instance (s : Camera) (ok : Bool) : Decidable (Obeys s ok) :=
  inferInstanceAs (Decidable (_ → _))

/-- Every file under `/backup` is as it was, and there is no other. -/
def RolledBack (v₀ v : Ledger) : Prop := v.backup = v₀.backup ∧ v.config = v₀.config

section

variable {H : Type} (P : Package H) (v₀ : Ledger)

/-- No updater tool was removed before `ROLLBACK_READY`, and no other bootstrap took its name. -/
def InTime (v : Ledger) : Prop :=
  (v.reclaimed = true → v.ready = true) ∧
    (v.activated = true → v₀.backup .coreInit = some P.coreInit)

/-- What an abandoned installation comes to. -/
def Promise (v : Ledger) : Prop :=
  v.failing = true → v.journaled = false → (RolledBack v₀ v ↔ InTime P v₀ v)

/-- Before `ROLLBACK_READY`. -/
structure Early (v : Ledger) : Prop where
  ready : v.ready = false
  activated : v.activated = false
  config : v.config = v₀.config
  reclaimed : v.reclaimed = true ↔ v.backup ≠ v₀.backup

/-- What only the installer writes, and `fail` removes. -/
def staging : List BackupFile := [.coreInitNew, .originalInit, .initNew]

/-- An updater tool is where it was, or on the card. -/
def ToolSafe (v : Ledger) (t : Tool) : Prop :=
  (v.backup (.tool t) = v₀.backup (.tool t) ∧
      (v.files (.tool t) = none ∨ v.files (.tool t) = v₀.backup (.tool t))) ∨
    (v.backup (.tool t) = none ∧ v.files (.tool t) = v₀.backup (.tool t))

/-- Neither a tool, nor the bootstrap, nor what `fail` removes. -/
def kept : BackupFile → Bool
  | .init | .initRestore | .pending | .hostapd | .lastError | .other _ => true
  | _ => false

/-- From `ROLLBACK_READY` to the journal. -/
structure Late (v : Ledger) : Prop where
  failing : v.failing = false
  ready : v.ready = true
  root : v.root = .stock
  home : v.home = .stock
  identity : v.identity = true
  manifest : ∃ m, v.manifest = some m ∧ ∀ e ∈ m, v.files e.1 = some e.2
  saved : v.files .init = v₀.backup .init
  pending : v₀.backup .pending = none
  kept : ∀ f, kept f = true → v.backup f = v₀.backup f
  tools : ∀ t, ToolSafe v₀ v t
  core : v.backup .coreInit = if v.activated then some P.coreInit else v₀.backup .coreInit
  staged : ∀ f ∈ staging, v₀.backup f = none
  config : v₀.config = none

end

section

variable {H : Type} {P : Package H} {v₀ v : Ledger}

theorem Early.promise (h : Early v₀ v) : Promise P v₀ v := by
  intro _ _
  have hrolled : RolledBack v₀ v ↔ v.backup = v₀.backup := ⟨And.left, fun hb => ⟨hb, h.config⟩⟩
  rw [hrolled, InTime, h.ready, h.activated]
  constructor
  · intro hb
    exact ⟨fun hr => absurd hb (h.reclaimed.mp hr), nofun⟩
  · intro hin
    by_contra hb
    exact Bool.false_ne_true (hin.1 (h.reclaimed.mpr hb))

theorem Late.promise (h : Late P v₀ v) : Promise P v₀ v := fun hf =>
  absurd (h.failing.symm.trans hf) Bool.false_ne_true

/-! ## 2. fail -/

/-- The command comes to a state and a status, as long as what `fail` runs succeeds. -/
def Gives {α : Type} (c : Prog Camera α) (s : Camera) (a : α) (s' : Camera) : Prop :=
  ∀ (E : Camera → Prop) (Q : α → Camera → Prop), Q a s' → c.Ends Obeys E Q s

theorem Gives.then {α β : Type} {c : Prog Camera α} {k : α → Prog Camera β} {s s' : Camera} {a : α}
    (h : Gives c s a s') {E : Camera → Prop} {Q : β → Camera → Prop}
    (hk : (k a).Ends Obeys E Q s') : (c >>= k).Ends Obeys E Q s :=
  ends_bind.mpr (h E (fun a => (k a).Ends Obeys E Q) hk)

theorem gives_test {p : Camera → Bool} {s : Camera} {ok : Bool} (hp : p s = ok) :
    Gives (Prog.test p) s ok s := by
  subst hp
  exact fun _ _ hQ _ _ => hQ

theorem gives_unchecked {c : Prog Camera Bool} {s s' : Camera} {ok : Bool} (h : Gives c s ok s') :
    Gives (unchecked c) s true s' :=
  fun _ _ hQ => h.then hQ

theorem gives_done {s : Camera} : Gives (allOf []) s true s := fun _ _ hQ => hQ

theorem gives_next {c : Prog Camera Bool} {cs : List (Prog Camera Bool)} {s s' s'' : Camera}
    {ok : Bool} (hc : Gives c s true s') (hcs : Gives (allOf cs) s' ok s'') :
    Gives (allOf (c :: cs)) s ok s'' :=
  fun E Q hQ => hc.then (hcs E Q hQ)

theorem gives_stop {c : Prog Camera Bool} {cs : List (Prog Camera Bool)} {s s' : Camera}
    (hc : Gives c s false s') : Gives (allOf (c :: cs)) s false s' :=
  fun _ _ hQ => hc.then hQ

section

variable {s : Camera} (hs : s.failing = true)
include hs

theorem gives_act {f : Camera → Option Camera} {s' : Camera} (hf : f s = some s') :
    Gives (act f) s true s' := by
  intro E Q hQ ok hok
  obtain rfl := hok hs
  simp only [if_true, hf]
  exact hQ

theorem gives_put {g : Camera → Camera} : Gives (act fun s => some (g s)) s true (g s) :=
  gives_act hs rfl

theorem gives_verify {p : Camera → Bool} (hp : p s = true) : Gives (verify p) s true s := by
  intro E Q hQ ok hok
  obtain rfl := hok hs
  simp only [if_true, hp]
  exact hQ

theorem gives_onlyIf {p : Camera → Bool} {g : Camera → Camera} :
    Gives (onlyIf p (act fun s => some (g s))) s true (if p s then g s else s) := by
  intro E Q hQ
  refine (gives_test rfl).then ?_
  cases hp : p s with
  | true =>
    rw [hp] at hQ
    exact gives_put hs E Q hQ
  | false =>
    rw [hp] at hQ
    exact hQ

theorem gives_sync : Gives sync s true s := gives_unchecked (gives_verify hs rfl)

end

/-- The updater tools that were kept are there again. -/
def putBack (files : RecoveryFile → Option Bytes) :
    List Tool → (BackupFile → Option Bytes) → BackupFile → Option Bytes
  | [], b => b
  | t :: ts, b =>
    putBack files ts
      (match files (.tool t) with
      | some c => Function.update b (.tool t) (some c)
      | none => b)

theorem gives_restoreTool {t : Tool} {s : Camera} (hs : s.failing = true) :
    Gives (restoreTool t) s true { s with backup := putBack s.files [t] s.backup } := by
  intro E Q hQ
  refine (gives_test rfl).then ?_
  cases hc : s.files (.tool t) with
  | none =>
    simp only [putBack, hc] at hQ
    exact hQ
  | some c =>
    simp only [putBack, hc] at hQ
    have hload : s.load (.tool t) (.tool t) = some (s.write (.tool t) c) := by
      rw [Camera.load, hc]
      rfl
    exact gives_act hs hload E Q hQ

theorem gives_tools {ts : List Tool} {cs : List (Prog Camera Bool)} {s s' : Camera} {ok : Bool}
    (hs : s.failing = true)
    (h : Gives (allOf cs) { s with backup := putBack s.files ts s.backup } ok s') :
    Gives (allOf (ts.map restoreTool ++ cs)) s ok s' := by
  induction ts generalizing s with
  | nil => exact h
  | cons t ts ih => exact gives_next (gives_restoreTool hs) (ih hs h)

theorem putBack_of_ne {files : RecoveryFile → Option Bytes} {ts : List Tool}
    {b : BackupFile → Option Bytes} {f : BackupFile} (hf : ∀ t ∈ ts, f ≠ .tool t) :
    putBack files ts b f = b f := by
  induction ts generalizing b with
  | nil => rfl
  | cons t ts ih =>
    rw [putBack, ih fun t' ht => hf t' (List.mem_cons_of_mem t ht)]
    cases files (.tool t) with
    | none => rfl
    | some c => exact Function.update_of_ne (hf t List.mem_cons_self) _ b

theorem putBack_tool {files : RecoveryFile → Option Bytes} {ts : List Tool}
    {b : BackupFile → Option Bytes} {t : Tool} (ht : t ∈ ts) :
    putBack files ts b (.tool t) = (files (.tool t)).or (b (.tool t)) := by
  induction ts generalizing b with
  | nil => cases ht
  | cons u ts ih =>
    rw [putBack]
    by_cases hu : t ∈ ts
    · rw [ih hu]
      cases hf : files (.tool u) with
      | none => rfl
      | some c =>
        by_cases he : t = u
        · rw [he, hf]
          rfl
        · exact congrArg _ (Function.update_of_ne (fun e => he (BackupFile.tool.inj e)) _ b)
    · obtain rfl : t = u := (List.mem_cons.mp ht).resolve_right hu
      have hne : ∀ t' ∈ ts, BackupFile.tool t ≠ .tool t' := by
        intro t' ht' e
        rw [BackupFile.tool.inj e] at hu
        exact hu ht'
      rw [putBack_of_ne hne]
      cases files (.tool t) with
      | none => rfl
      | some c => exact Function.update_self _ _ b

/-- The settings are kept on the card. -/
def stashed (s : Camera) : Camera :=
  if s.settings.isSome then { s with settings := none, failedSettings := true } else s

/-- `/backup` is cleared of what was staged, and the tools are back. -/
def cleared (s : Camera) : Camera :=
  let s := ((({ s with config := none } : Camera).rm .coreInitNew).rm .originalInit).rm .initNew
  { s with backup := putBack s.files tools s.backup }

def noLowerHalf (s : Camera) : Camera := if s.lowerHalf then { s with lowerHalf := false } else s

def noFactory (s : Camera) : Camera := if s.factory then { s with factory := false } else s

/-- The triggers are retired, and the result says so. -/
def retired (s : Camera) : Camera :=
  { noFactory (noLowerHalf s) with
    result := (noFactory (noLowerHalf s)).result ++
      "\nPrevious firmware/startup retained; failed installer retired.\n" }

theorem ledger_stashed (s : Camera) : ledger (stashed s) = ledger s := by
  unfold stashed
  split <;> rfl

theorem ledger_noLowerHalf (s : Camera) : ledger (noLowerHalf s) = ledger s := by
  unfold noLowerHalf
  split <;> rfl

theorem ledger_noFactory (s : Camera) : ledger (noFactory s) = ledger s := by
  unfold noFactory
  split <;> rfl

theorem ledger_retired (s : Camera) : ledger (retired s) = ledger s :=
  (ledger_noFactory (noLowerHalf s)).trans (ledger_noLowerHalf s)

/-- What `rollback_uncommitted` leaves. -/
def clear (v : Ledger) : Ledger := { v with
  config := none
  backup := putBack v.files tools (Function.update (Function.update (Function.update v.backup
    .coreInitNew none) .originalInit none) .initNew none) }

theorem ledger_takenBack (s : Camera) :
    ledger (retired (cleared (stashed s))) = clear (ledger s) :=
  (ledger_retired _).trans (congrArg clear (ledger_stashed s))

/-- What `rollback_uncommitted` asks for. -/
structure Recoverable (v : Ledger) : Prop where
  ready : v.ready = true
  pending : v.backup .pending = none
  init : v.backup .init = v.files .init
  root : v.root = .stock
  home : v.home = .stock
  identity : v.identity = true
  manifest : ∃ m, v.manifest = some m ∧ ∀ e ∈ m, v.files e.1 = some e.2

/-- **`rollback_uncommitted`, where it gets what it asks for.** -/
theorem gives_rollback [DecidableEq H] {s : Camera} (hs : s.failing = true)
    (h : Recoverable (ledger s)) :
    Gives (rollbackUncommitted P) s true (retired (cleared (stashed s))) := by
  obtain ⟨m, hm, hfiles⟩ := h.manifest
  have hfirst : (s.ready && (s.backup .pending).isNone) = true :=
    Bool.and_eq_true_iff.mpr ⟨h.ready, Option.isNone_iff_eq_none.mpr h.pending⟩
  have hinit : decide ((s.backup .init).map P.md5 = (s.files .init).map P.md5) = true :=
    decide_eq_true (congrArg (Option.map P.md5) h.init)
  have hmanifest : (s.manifest.any fun m => m.all fun e =>
      (s.files e.1).map P.md5 = some (P.md5 e.2)) = true := by
    have hm : s.manifest = some m := hm
    rw [hm]
    refine List.all_eq_true.mpr fun e he => decide_eq_true ?_
    have he : s.files e.1 = some e.2 := hfiles e he
    rw [he]
    rfl
  have hstashed : (stashed s).failing = true :=
    (congrArg Ledger.failing (ledger_stashed s)).trans hs
  have hlower : (noLowerHalf (cleared (stashed s))).failing = true :=
    (congrArg Ledger.failing (ledger_noLowerHalf _)).trans hstashed
  have hfactory : (noFactory (noLowerHalf (cleared (stashed s)))).failing = true :=
    (congrArg Ledger.failing (ledger_noFactory _)).trans hlower
  have hroot : s.root = .stock := h.root
  have hhome : s.home = .stock := h.home
  unfold rollbackUncommitted
  rw [List.append_assoc]
  simp only [List.cons_append, List.nil_append]
  refine gives_next (gives_test hfirst) ?_
  refine gives_next (gives_verify hs hinit) ?_
  refine gives_next (gives_verify hs (decide_eq_true hroot)) ?_
  refine gives_next (gives_verify hs (decide_eq_true hhome)) ?_
  refine gives_next (gives_verify hs h.identity) ?_
  refine gives_next (gives_verify hs hmanifest) ?_
  refine gives_next (gives_onlyIf hs) ?_
  refine gives_next (gives_unchecked (gives_put (by exact hstashed))) ?_
  refine gives_next (gives_unchecked (gives_put (by exact hstashed))) ?_
  refine gives_next (gives_unchecked (gives_put (by exact hstashed))) ?_
  refine gives_next (gives_unchecked (gives_put (by exact hstashed))) ?_
  refine gives_tools (by exact hstashed) ?_
  refine gives_next (gives_onlyIf (by exact hstashed)) ?_
  refine gives_next (gives_onlyIf (by exact hlower)) ?_
  refine gives_next (gives_unchecked (gives_put (by exact hfactory))) ?_
  refine gives_next (gives_sync (by exact hfactory)) ?_
  exact gives_next (gives_verify (by exact hfactory) rfl) gives_done

theorem ToolSafe.or {t : Tool} (h : ToolSafe v₀ v t) :
    (v.files (.tool t)).or (v.backup (.tool t)) = v₀.backup (.tool t) := by
  obtain ⟨hb, hf | hf⟩ | ⟨hb, hf⟩ := h
  · rw [hb, hf]
    rfl
  · rw [hb, hf, Option.or_self]
  · rw [hb, hf, Option.or_none]

theorem mem_tools (t : Tool) : t ∈ tools := by
  cases t <;> decide

theorem clear_of_ne (f : BackupFile) (hf : ∀ t, f ≠ .tool t) :
    (clear v).backup f = Function.update (Function.update (Function.update v.backup
      .coreInitNew none) .originalInit none) .initNew none f :=
  putBack_of_ne fun t _ => hf t

/-- All but the bootstrap is as it was. -/
theorem Late.clear (h : Late P v₀ v) {f : BackupFile} (hf : f ≠ .coreInit) :
    (clear v).backup f = v₀.backup f := by
  cases f with
  | tool t => exact (putBack_tool (mem_tools t)).trans (h.tools t).or
  | coreInit => exact absurd rfl hf
  | coreInitNew =>
    exact (clear_of_ne .coreInitNew nofun).trans (h.staged .coreInitNew (by decide)).symm
  | originalInit =>
    exact (clear_of_ne .originalInit nofun).trans (h.staged .originalInit (by decide)).symm
  | initNew => exact (clear_of_ne .initNew nofun).trans (h.staged .initNew (by decide)).symm
  | init => exact (clear_of_ne .init nofun).trans (h.kept .init rfl)
  | initRestore => exact (clear_of_ne .initRestore nofun).trans (h.kept .initRestore rfl)
  | pending => exact (clear_of_ne .pending nofun).trans (h.kept .pending rfl)
  | hostapd => exact (clear_of_ne .hostapd nofun).trans (h.kept .hostapd rfl)
  | lastError => exact (clear_of_ne .lastError nofun).trans (h.kept .lastError rfl)
  | other n => exact (clear_of_ne (.other n) nofun).trans (h.kept (.other n) rfl)

/-- **What is taken back**: everything, unless another bootstrap took its name. -/
theorem Late.rolledBack (h : Late P v₀ v) :
    RolledBack v₀ (Abandon.clear v) ↔ InTime P v₀ (Abandon.clear v) := by
  have hcore : (Abandon.clear v).backup .coreInit =
      if v.activated then some P.coreInit else v₀.backup .coreInit :=
    (clear_of_ne .coreInit nofun).trans h.core
  have hback : (Abandon.clear v).backup = v₀.backup ↔
      (Abandon.clear v).backup .coreInit = v₀.backup .coreInit := by
    refine ⟨fun he => congrFun he _, fun he => funext fun f => ?_⟩
    by_cases hf : f = .coreInit
    · rw [hf, he]
    · exact h.clear hf
  have hrolled : RolledBack v₀ (Abandon.clear v) ↔ (Abandon.clear v).backup = v₀.backup :=
    ⟨And.left, fun he => ⟨he, h.config.symm⟩⟩
  rw [hrolled, hback, hcore]
  cases ha : v.activated with
  | false =>
    exact ⟨fun _ => ⟨fun _ => h.ready, fun hact => absurd (ha.symm.trans hact) nofun⟩, fun _ => rfl⟩
  | true => exact ⟨fun he => ⟨fun _ => h.ready, fun _ => he.symm⟩, fun hin => (hin.2 ha).symm⟩

section

variable [DecidableEq H] {α : Type} {text : String} {Q : α → Ledger → Prop}

/-- **`fail` before `ROLLBACK_READY`** takes nothing back. -/
theorem fail_early :
    Lands Obeys ledger (Promise P v₀) (Early v₀) (fail P text : Prog Camera α) Q := by
  intro s hs
  refine fun _ _ => ?_
  refine Gives.then (gives_put (s := { s with failing := true }) rfl) ?_
  have hstop : (s.ready && (s.backup .pending).isNone) = false := by
    have hready : s.ready = false := hs.ready
    rw [hready]
    rfl
  refine Gives.then (gives_stop (gives_test hstop)) ?_
  refine Gives.then (gives_sync rfl) ?_
  exact Early.promise ⟨hs.ready, hs.activated, hs.config, hs.reclaimed⟩

/-- **`fail` between `ROLLBACK_READY` and the journal.** -/
theorem fail_late :
    Lands Obeys ledger (Promise P v₀) (Late P v₀) (fail P text : Prog Camera α) Q := by
  intro s hs
  refine fun _ _ => ?_
  refine Gives.then (gives_put (s := { s with failing := true }) rfl) ?_
  have hpending : s.backup .pending = none := (hs.kept .pending rfl).trans hs.pending
  have hinit : s.backup .init = s.files .init := (hs.kept .init rfl).trans hs.saved.symm
  have hrecoverable : Recoverable (ledger s) :=
    ⟨hs.ready, hpending, hinit, hs.root, hs.home, hs.identity, hs.manifest⟩
  refine Gives.then (gives_rollback (by rfl) (by exact { hrecoverable with })) ?_
  refine Gives.then (gives_sync ?_) ?_
  · exact congrArg Ledger.failing (ledger_takenBack _)
  · show Promise P v₀ (ledger _)
    rw [ledger_takenBack]
    exact fun _ _ => hs.rolledBack

end

/-! ## 3. Steps -/

/-- Where the installation comes to from `R`, as far as `fail` succeeds. -/
abbrev Comes {α : Type} (P : Package H) (v₀ : Ledger) (R : Ledger → Prop) (p : Prog Camera α)
    (Q : α → Ledger → Prop) : Prop :=
  Lands Obeys ledger (Promise P v₀) R p Q

section

variable {I R S T : Ledger → Prop} {c : Prog Camera Bool} {cs : List (Prog Camera Bool × String)}
  {text : String}

theorem comes_act {f : Camera → Option Camera} (hR : ∀ v, R v → I v)
    (hf : ∀ s s', R (ledger s) → f s = some s' → T (ledger s')) :
    Comes P v₀ R (act f) (OrLost I T) := by
  intro s hs ok _
  cases ok with
  | false => exact hR _ hs
  | true =>
    simp only [if_true]
    cases h : f s with
    | none => exact hR _ hs
    | some s' => exact hf s s' hs h

theorem comes_verify {p : Camera → Bool} (hR : ∀ v, R v → I v)
    (hp : ∀ s, R (ledger s) → p s = true → T (ledger s)) :
    Comes P v₀ R (verify p) (OrLost I T) := by
  intro s hs ok _
  cases ok with
  | false => exact hR _ hs
  | true =>
    simp only [if_true]
    cases h : p s with
    | false => exact hR _ hs
    | true => exact hp s hs h

theorem comes_test {p : Camera → Bool} (hR : ∀ v, R v → I v)
    (hp : ∀ s, R (ledger s) → p s = true → T (ledger s)) :
    Comes P v₀ R (Prog.test p) (OrLost I T) := by
  refine lands_test fun s hs => ?_
  cases h : p s with
  | false => exact hR _ hs
  | true => exact hp s hs h

/-- A command that leaves the ledger alone. -/
theorem comes_skip (hR : ∀ v, R v → I v) (hI : ∀ v, I v → Promise P v₀ v) (hc : c.Leaves ledger) :
    Comes P v₀ R c (OrLost I R) :=
  (lands_leaves hc fun v h => hI v (hR v h)).imp (fun _ h => h) (orLost_of hR)

theorem comes_nil [DecidableEq H] : Comes P v₀ R (steps P []) fun _ => R := lands_pure fun _ h => h

theorem comes_append [DecidableEq H] {ds : List (Prog Camera Bool × String)}
    (hcs : Comes P v₀ R (steps P cs) fun _ => T) (hds : Comes P v₀ T (steps P ds) fun _ => S) :
    Comes P v₀ R (steps P (cs ++ ds)) fun _ => S := by
  rw [steps_concat]
  exact hcs.bind fun _ => hds

variable [DecidableEq H]
  (hfail : ∀ {α : Type} {Q : α → Ledger → Prop} {text : String}, Comes P v₀ I (fail P text) Q)
include hfail

theorem comes_cons (hc : Comes P v₀ R c (OrLost I T)) (hcs : Comes P v₀ T (steps P cs) fun _ => S) :
    Comes P v₀ R (steps P ((c, text) :: cs)) fun _ => S := by
  refine hc.bind fun ok => ?_
  cases ok with
  | true => exact hcs
  | false => exact hfail

theorem comes_each (hcs : ∀ x ∈ cs, Comes P v₀ R x.1 (OrLost I R)) :
    Comes P v₀ R (steps P cs) fun _ => R := by
  induction cs with
  | nil => exact comes_nil
  | cons x cs ih =>
    obtain ⟨hx, hcs⟩ := List.forall_mem_cons.mp hcs
    exact comes_cons hfail hx (ih hcs)


end

/-! ## 4. What is found -/

/-- Where a fresh installation begins: no journal, no request, nothing noted, and no files in a
    recovery directory that is not there. -/
structure Opening (v₀ : Ledger) : Prop where
  pending : v₀.backup .pending = none
  restore : v₀.restore = false
  ready : v₀.ready = false
  failing : v₀.failing = false
  reclaimed : v₀.reclaimed = false
  activated : v₀.activated = false
  files : v₀.recovery = false → ∀ f, v₀.files f = none

/-- What the checks make sure of. -/
structure Found (v₀ : Ledger) : Prop where
  root : v₀.root = .stock
  home : v₀.home = .stock
  recovery : v₀.recovery = false
  staged : ∀ f ∈ staging, v₀.backup f = none
  config : v₀.config = none

/-- Nothing has changed yet. -/
def At (v₀ : Ledger) (K : Prop) (v : Ledger) : Prop := v = v₀ ∧ K

section

variable [DecidableEq H] (h₀ : Opening v₀) {K L : Prop} {S : Ledger → Prop}
  {cs : List (Prog Camera Bool × String)} {text : String}
include h₀

theorem Opening.early : Early v₀ v₀ :=
  ⟨h₀.ready, h₀.activated, rfl,
    ⟨fun hr => absurd (h₀.reclaimed.symm.trans hr) Bool.false_ne_true, fun he => absurd rfl he⟩⟩

theorem Opening.at (v : Ledger) (hv : At v₀ K v) : Early v₀ v := hv.1 ▸ h₀.early

theorem look_verify {p : Camera → Bool} (hp : ∀ s, ledger s = v₀ → p s = true → L)
    (hcs : Comes P v₀ (At v₀ (K ∧ L)) (steps P cs) fun _ => S) :
    Comes P v₀ (At v₀ K) (steps P ((verify p, text) :: cs)) fun _ => S :=
  comes_cons fail_early
    (comes_verify h₀.at fun s hs h => ⟨hs.1, hs.2, hp s hs.1 h⟩) hcs

theorem look_test {p : Camera → Bool} (hp : ∀ s, ledger s = v₀ → p s = true → L)
    (hcs : Comes P v₀ (At v₀ (K ∧ L)) (steps P cs) fun _ => S) :
    Comes P v₀ (At v₀ K) (steps P ((Prog.test p, text) :: cs)) fun _ => S :=
  comes_cons fail_early
    (comes_test h₀.at fun s hs h => ⟨hs.1, hs.2, hp s hs.1 h⟩) hcs

theorem look_skip {c : Prog Camera Bool} (hc : c.Leaves ledger)
    (hcs : Comes P v₀ (At v₀ K) (steps P cs) fun _ => S) :
    Comes P v₀ (At v₀ K) (steps P ((c, text) :: cs)) fun _ => S :=
  comes_cons fail_early (comes_skip h₀.at (fun _ h => h.promise) hc) hcs

/-- A restart that fails comes to `fail`, and there is nothing to take back. -/
theorem partitioned_lands :
    Comes P v₀ (At v₀ K) (partitioned P) (OrLost (Early v₀) (At v₀ K)) := by
  have hx : external.Leaves ledger := leaves_external ledger_uncounted
  have hR (v : Ledger) (h : At v₀ K v) : Promise P v₀ v := (h₀.at v h).promise
  have hskip {c : Prog Camera Bool} (hc : c.Leaves ledger) :
      Comes P v₀ (At v₀ K) c fun _ => At v₀ K := lands_leaves hc hR
  unfold partitioned
  refine lands_ite ?_ (lands_pure fun _ h => h.1)
  refine Lands.imp (R := At v₀ K) ?_ (fun _ h => h.1) fun _ _ h => h
  refine (hskip hx).bind fun ok => lands_ite (lands_pure fun _ h => h.1) ?_
  refine Lands.imp (R := At v₀ K) ?_ (fun _ h => h.1) fun _ _ h => h
  refine Lands.bind (T := fun _ => At v₀ K) ?_ fun _ => ?_
  · refine look_skip h₀ (leaves_onlyIf (leaves_put ledger_uncounted fun _ => rfl)) ?_
    exact look_skip h₀ (leaves_onlyIf (leaves_put ledger_uncounted fun _ => rfl)) comes_nil
  refine Lands.bind (hskip ?_) fun _ => ?_
  · exact leaves_put ledger_uncounted fun _ => rfl
  refine (hskip (leaves_sync ledger_uncounted)).bind fun _ => ?_
  refine (hskip hx).bind fun ok => lands_ite ?_ ?_
  · exact lands_exit fun v h => hR v h.1
  · exact fail_early.imp (fun v h => h₀.at v h.1) fun _ _ h => h

/-- **The checks** change nothing. -/
theorem checks_lands :
    Comes P v₀ (At v₀ True) (steps P (checks P)) fun _ => At v₀ (Found v₀) := by
  have hx : external.Leaves ledger := leaves_external ledger_uncounted
  unfold checks
  simp only [List.cons_append, List.nil_append]
  refine look_verify h₀ (L := v₀.root = .stock) (fun s hs h => ?_) ?_
  · exact (congrArg Ledger.root hs).symm.trans (of_decide_eq_true h)
  refine look_verify h₀ (L := v₀.home = .stock) (fun s hs h => ?_) ?_
  · exact (congrArg Ledger.home hs).symm.trans (of_decide_eq_true h)
  refine look_test h₀ (L := v₀.recovery = false) (fun s hs h => ?_) ?_
  · have hrecovery : s.recovery = false := by simpa using h
    exact (congrArg Ledger.recovery hs).symm.trans hrecovery
  refine look_test h₀ (L := v₀.backup .originalInit = none) (fun s hs h => ?_) ?_
  · exact (congrFun (congrArg Ledger.backup hs) _).symm.trans (Option.isNone_iff_eq_none.mp h)
  refine look_test h₀ (L := v₀.backup .coreInitNew = none ∧ v₀.backup .initNew = none)
    (fun s hs h => ?_) ?_
  · obtain ⟨h1, h2⟩ := Bool.and_eq_true_iff.mp h
    have hb : s.backup = v₀.backup := congrArg Ledger.backup hs
    rw [← hb]
    exact ⟨Option.isNone_iff_eq_none.mp h1, Option.isNone_iff_eq_none.mp h2⟩
  refine look_test h₀ (L := v₀.config = none) (fun s hs h => ?_) ?_
  · have h := Option.isNone_iff_eq_none.mp (Bool.and_eq_true_iff.mp h).1
    exact (congrArg Ledger.config hs).symm.trans h
  refine look_skip h₀ leaves_test (look_skip h₀ leaves_test (look_skip h₀ leaves_test ?_))
  refine look_skip h₀ hx (look_skip h₀ hx (look_skip h₀ hx (look_skip h₀ hx ?_)))
  refine comes_cons fail_early (partitioned_lands h₀) (look_skip h₀ (leaves_onlyIf hx) ?_)
  refine Lands.imp (R := At v₀ (Found v₀)) ?_ (fun v h => ⟨h.1, ?_⟩) fun _ _ h => h
  · split
    · exact look_skip h₀ hx comes_nil
    · exact comes_nil
  · obtain ⟨-, ⟨⟨⟨⟨⟨-, hroot⟩, hhome⟩, hrecovery⟩, horiginal⟩, hcore, hinit⟩, hconfig⟩ := h
    refine ⟨hroot, hhome, hrecovery, ?_, hconfig⟩
    simp only [staging, List.forall_mem_cons, List.not_mem_nil, false_implies, implies_true,
      and_true]
    exact ⟨hcore, horiginal, hinit⟩

end

/-! ## 5. The copies -/

/-- Tools at most have been removed, and those are on the card. -/
structure Saving (v₀ v : Ledger) : Prop where
  found : Found v₀
  early : Early v₀ v
  failing : v.failing = false
  root : v.root = .stock
  home : v.home = .stock
  kept : ∀ f, (∀ t, f ≠ .tool t) → v.backup f = v₀.backup f
  tools : ∀ t, ToolSafe v₀ v t

/-- The card is of this camera, and holds its start-up file. -/
structure Backed (v₀ v : Ledger) : Prop where
  saving : Saving v₀ v
  identity : v.identity = true
  saved : v.files .init = v₀.backup .init

/-- The card is of this camera if its partition has been copied. -/
def Copying (v₀ : Ledger) (K : Prop) (v : Ledger) : Prop := Saving v₀ v ∧ (K → v.identity = true)

theorem Saving.promise (h : Saving v₀ v) : Promise P v₀ v := h.early.promise

theorem Opening.mkdir (h₀ : Opening v₀) {s : Camera} (hs : At v₀ (Found v₀) (ledger s)) :
    Saving v₀ (ledger { s with recovery := true }) := by
  obtain ⟨hv, hfound⟩ := hs
  have hearly : Early v₀ (ledger s) := hv ▸ h₀.early
  have hroot : s.root = v₀.root := congrArg Ledger.root hv
  have hhome : s.home = v₀.home := congrArg Ledger.home hv
  have hbackup : s.backup = v₀.backup := congrArg Ledger.backup hv
  have hfiles : s.files = v₀.files := congrArg Ledger.files hv
  exact {
    found := hfound
    early := { hearly with }
    failing := (congrArg Ledger.failing hv).trans h₀.failing
    root := hroot.trans hfound.root
    home := hhome.trans hfound.home
    kept := fun f _ => congrFun hbackup f
    tools := fun t => .inl ⟨congrFun hbackup _,
      .inl ((congrFun hfiles _).trans (h₀.files hfound.recovery _))⟩ }

/-- The start-up file goes to the card. -/
theorem Saving.saveInit {s s' : Camera} (h : Saving v₀ (ledger s) ∧ s.mtd 6 = true)
    (hs : s.save .init .init = some s') : Backed v₀ (ledger s') := by
  obtain ⟨h, hid⟩ := h
  obtain ⟨c, hc, rfl⟩ := Option.map_eq_some_iff.mp hs
  have hinit : s.backup .init = v₀.backup .init := h.kept .init nofun
  exact ⟨{ h with early := { h.early with } }, hid, hc.symm.trans hinit⟩

theorem Backed.present (h : Backed v₀ v) {t : Tool} {c : Bytes} (hc : v.backup (.tool t) = some c) :
    v.backup (.tool t) = v₀.backup (.tool t) := by
  obtain ⟨hb, -⟩ | ⟨hb, -⟩ := h.saving.tools t
  · exact hb
  · exact nomatch hb.symm.trans hc

/-- A tool goes to the card. -/
theorem Backed.saveTool {s s' : Camera} {t : Tool} (h : Backed v₀ (ledger s))
    (hs : s.save (.tool t) (.tool t) = some s') :
    Backed v₀ (ledger s') ∧ (s'.backup (.tool t)).isSome ∧
      s'.files (.tool t) = s'.backup (.tool t) := by
  obtain ⟨c, hc, rfl⟩ := Option.map_eq_some_iff.mp hs
  have hpresent : s.backup (.tool t) = v₀.backup (.tool t) := h.present hc
  have hfiles : Function.update s.files (.tool t) (some c) (.tool t) = some c :=
    Function.update_self _ _ _
  have hsome : (s.backup (.tool t)).isSome := hc ▸ rfl
  refine ⟨⟨{ h.saving with early := { h.saving.early with }, tools := fun u => ?_ }, h.identity,
    h.saved⟩, hsome, hfiles.trans hc.symm⟩
  by_cases hu : u = t
  · subst hu
    exact .inl ⟨hpresent, .inr (hfiles.trans (hc.symm.trans hpresent))⟩
  · have hother : Function.update s.files (.tool t) (some c) (.tool u) = s.files (.tool u) :=
      Function.update_of_ne (fun e => hu (RecoveryFile.tool.inj e)) _ _
    unfold ToolSafe
    exact (congrArg (fun x => _ ∧ (x = none ∨ x = _) ∨ _ ∧ x = _) hother) ▸ h.saving.tools u

/-- A tool that is on the card is removed. -/
theorem Backed.rmTool {s : Camera} {t : Tool}
    (h : Backed v₀ (ledger s) ∧ (s.backup (.tool t)).isSome ∧
      s.files (.tool t) = s.backup (.tool t)) :
    Backed v₀ (ledger { s.rm (.tool t) with reclaimed := true }) := by
  obtain ⟨h, hsome, hfiles⟩ := h
  obtain ⟨c, hc⟩ := Option.isSome_iff_exists.mp hsome
  have hpresent : s.backup (.tool t) = v₀.backup (.tool t) := h.present hc
  have hgone : Function.update s.backup (.tool t) none (.tool t) = none :=
    Function.update_self _ _ _
  have hother {f : BackupFile} (hf : f ≠ .tool t) :
      Function.update s.backup (.tool t) none f = s.backup f := Function.update_of_ne hf _ _
  refine ⟨{ h.saving with
    early := { h.saving.early with reclaimed := ⟨fun _ he => ?_, fun _ => rfl⟩ }
    kept := fun f hf => (hother (hf t)).trans (h.saving.kept f hf)
    tools := fun u => ?_ }, h.identity, h.saved⟩
  · have he : Function.update s.backup (.tool t) none = v₀.backup := he
    exact nomatch hgone.symm.trans ((congrFun he _).trans (hpresent.symm.trans hc))
  · by_cases hu : u = t
    · subst hu
      exact .inr ⟨hgone, hfiles.trans hpresent⟩
    · obtain ⟨hb, hf⟩ | ⟨hb, hf⟩ := h.saving.tools u
      · exact .inl ⟨(hother fun e => hu (BackupFile.tool.inj e)).trans hb, hf⟩
      · exact .inr ⟨(hother fun e => hu (BackupFile.tool.inj e)).trans hb, hf⟩

section

variable [DecidableEq H]

theorem partition_lands {K : Prop} (n : Nat) :
    Comes P v₀ (Copying v₀ K) (steps P (backupPartition n)) fun _ => Copying v₀ (K ∨ 6 = n) := by
  have hR {L : Prop} (v : Ledger) (h : Copying v₀ L v) : Early v₀ v := h.1.early
  refine comes_cons fail_early (T := Copying v₀ (K ∨ 6 = n)) (comes_act hR fun s s' h hs => ?_) ?_
  · obtain rfl := Option.some.inj hs
    refine ⟨{ h.1 with early := { h.1.early with } }, fun hK => ?_⟩
    show Function.update s.mtd n true 6 = true
    by_cases hn : 6 = n
    · rw [hn, Function.update_self]
    · rw [Function.update_of_ne hn]
      exact h.2 (hK.resolve_right hn)
  · exact comes_cons fail_early
      (comes_skip hR (fun _ h => h.promise) (leaves_verify ledger_uncounted)) comes_nil

theorem partitions_lands {K : Prop} (ns : List Nat) :
    Comes P v₀ (Copying v₀ K) (steps P (ns.flatMap backupPartition))
      fun _ => Copying v₀ (K ∨ 6 ∈ ns) := by
  induction ns generalizing K with
  | nil => exact lands_pure fun v h => ⟨h.1, fun hK => h.2 (hK.resolve_right List.not_mem_nil)⟩
  | cons n ns ih =>
    rw [List.flatMap_cons]
    refine (comes_append (partition_lands n) ih).imp (fun _ h => h) fun _ v h => ⟨h.1, fun hK => ?_⟩
    rw [List.mem_cons, ← or_assoc] at hK
    exact h.2 hK

/-- **The copies on the card.** -/
theorem backups_lands (h₀ : Opening v₀) :
    Comes P v₀ (At v₀ (Found v₀)) (steps P backups) fun _ => Backed v₀ := by
  have hR (v : Ledger) (h : Backed v₀ v) : Early v₀ v := h.saving.early
  refine comes_append (T := Copying v₀ (False ∨ 6 ∈ List.range 8)) (comes_append
    (T := Copying v₀ False) ?_ (partitions_lands _)) ?_
  · refine comes_cons fail_early (comes_act h₀.at fun s s' h hs => ?_) comes_nil
    obtain rfl := Option.some.inj hs
    exact ⟨h₀.mkdir h, False.elim⟩
  refine comes_cons fail_early (T := Backed v₀)
    (comes_act (fun _ h => h.1.early) fun s s' h hs => ?_) ?_
  · exact Saving.saveInit ⟨h.1, h.2 (.inr (by decide))⟩ hs
  refine comes_cons fail_early (comes_skip hR (fun _ h => h.promise) ?_) ?_
  · exact leaves_put ledger_uncounted fun _ => rfl
  refine comes_cons fail_early (T := Backed v₀) (comes_act hR fun s s' h hs => ?_) ?_
  · obtain rfl := Option.some.inj hs
    exact ⟨{ h.saving with early := { h.saving.early with } }, h.identity, h.saved⟩
  exact comes_cons fail_early (comes_skip hR (fun _ h => h.promise) (leaves_sync ledger_uncounted))
    comes_nil

/-- **The updater tools** are removed after they are on the card. -/
theorem reclaim_lands (ts : List Tool) :
    Comes P v₀ (Backed v₀) (reclaim P ts) fun _ => Backed v₀ := by
  have hR (v : Ledger) (h : Backed v₀ v) : Early v₀ v := h.saving.early
  induction ts with
  | nil => exact lands_pure fun _ h => h
  | cons t ts ih =>
    refine Lands.bind (T := fun _ => Backed v₀) (lands_test fun s h => h) fun ok =>
      lands_ite ?_ (ih.imp (fun _ h => h.1) fun _ _ h => h)
    refine Lands.imp (R := Backed v₀) ?_ (fun _ h => h.1) fun _ _ h => h
    refine (lands_leaves (leaves_external ledger_uncounted) fun v h => (hR v h).promise).bind
      fun named => ?_
    refine Lands.bind (T := fun _ => Backed v₀) ?_ fun _ => ih
    cases named with
    | true =>
      refine comes_cons fail_early (T := fun v => Backed v₀ v ∧ (v.backup (.tool t)).isSome ∧
        v.files (.tool t) = v.backup (.tool t)) (comes_act hR fun s s' h hs => h.saveTool hs) ?_
      refine comes_cons fail_early (comes_skip (fun v h => hR v h.1) (fun _ h => h.promise)
        (leaves_verify ledger_uncounted)) ?_
      refine comes_cons fail_early (T := Backed v₀)
        (comes_act (fun v h => hR v h.1) fun s s' h hs => ?_) comes_nil
      obtain rfl := Option.some.inj hs
      exact Backed.rmTool h
    | false =>
      -- the copy has another name, so the comparison fails
      refine comes_cons fail_early (T := fun v => Backed v₀ v ∧ (v.backup (.tool t)).isSome)
        (comes_act hR fun s s' h hs => ?_) ?_
      · obtain ⟨c, hc, rfl⟩ := Option.map_eq_some_iff.mp hs
        have hsome : (s.backup (.tool t)).isSome := hc ▸ rfl
        exact ⟨⟨{ h.saving with early := { h.saving.early with } }, h.identity, h.saved⟩, hsome⟩
      refine comes_cons fail_early (T := fun _ => False)
        (comes_verify (fun v h => hR v h.1) fun s h hs => ?_) fun s h => h.elim
      obtain ⟨c, hc⟩ := Option.isSome_iff_exists.mp h.2
      have hc : s.backup (.tool t) = some c := hc
      have hs : (s.backup (.tool t)).map P.md5 = none := of_decide_eq_true hs
      rw [hc] at hs
      exact nomatch hs

end

/-! ## 6. From ROLLBACK_READY to the journal -/

/-- The manifest is of what is on the card. -/
structure Listed (v₀ v : Ledger) : Prop where
  backed : Backed v₀ v
  manifest : ∃ m, v.manifest = some m ∧ ∀ e ∈ m, v.files e.1 = some e.2

theorem Backed.listed {s : Camera} (h : Backed v₀ (ledger s)) : Listed v₀ (ledger s.listed) := by
  refine ⟨⟨{ h.saving with early := { h.saving.early with } }, h.identity, h.saved⟩, _, rfl, ?_⟩
  intro e he
  obtain ⟨f, -, hf⟩ := List.mem_filterMap.mp he
  obtain ⟨c, hc, rfl⟩ := Option.map_eq_some_iff.mp hf
  exact hc

/-- `ROLLBACK_READY=yes`. -/
theorem Listed.late (h₀ : Opening v₀) {s : Camera} (h : Listed v₀ (ledger s)) :
    Late P v₀ (ledger { s with ready := true }) := by
  obtain ⟨⟨hsaving, hid, hsaved⟩, hmanifest⟩ := h
  have hactivated : s.activated = false := hsaving.early.activated
  exact {
    failing := hsaving.failing
    ready := rfl
    root := hsaving.root
    home := hsaving.home
    identity := hid
    manifest := hmanifest
    saved := hsaved
    pending := h₀.pending
    kept := fun f hf => hsaving.kept f fun t e => by
      rw [e] at hf
      cases hf
    tools := hsaving.tools
    core := by
      show s.backup .coreInit = if s.activated = true then _ else _
      rw [hactivated]
      exact hsaving.kept .coreInit nofun
    staged := hsaving.found.staged
    config := hsaving.found.config }

theorem kept_staging {f g : BackupFile} (hf : f ∈ staging) (hg : kept g = true) : g ≠ f := by
  intro e
  subst e
  simp only [staging, List.mem_cons, List.not_mem_nil, or_false] at hf
  rcases hf with rfl | rfl | rfl <;> cases hg

/-- What `fail` removes may be written. -/
theorem Late.write {s : Camera} {f : BackupFile} {c : Bytes} (h : Late P v₀ (ledger s))
    (hf : f ∈ staging) : Late P v₀ (ledger (s.write f c)) := by
  have hkept (g : BackupFile) (hg : Abandon.kept g = true) :
      Function.update s.backup f (some c) g = v₀.backup g :=
    (Function.update_of_ne (kept_staging hf hg) _ _).trans (h.kept g hg)
  simp only [staging, List.mem_cons, List.not_mem_nil, or_false] at hf
  rcases hf with rfl | rfl | rfl
  · exact { h with kept := hkept }
  · exact { h with kept := hkept }
  · exact { h with kept := hkept }

/-- The new bootstrap is staged. -/
structure Booted (P : Package H) (v₀ v : Ledger) : Prop where
  late : Late P v₀ v
  core : v.backup .coreInitNew = some P.coreInit

/-- The bootstrap takes its name. -/
theorem Booted.mv {s s' : Camera} (h : Booted P v₀ (ledger s))
    (hs : (s.mv .coreInitNew .coreInit).map (fun s => { s with activated := true }) = some s') :
    Late P v₀ (ledger s') := by
  obtain ⟨s'', hmv, rfl⟩ := Option.map_eq_some_iff.mp hs
  obtain ⟨c, hc, rfl⟩ := Option.map_eq_some_iff.mp hmv
  obtain rfl : c = P.coreInit := Option.some.inj (hc.symm.trans h.core)
  have hkept (g : BackupFile) (hg : Abandon.kept g = true) :
      Function.update (Function.update s.backup .coreInitNew none) .coreInit (some P.coreInit) g =
        v₀.backup g := by
    have hcore : g ≠ .coreInit := fun e => by
      rw [e] at hg
      cases hg
    rw [Function.update_of_ne hcore, Function.update_of_ne (kept_staging (by decide) hg)]
    exact h.late.kept g hg
  exact { h.late with kept := hkept, core := rfl }

section

variable [DecidableEq H]

/-- **The staging of the settings**, up to the dispatcher. -/
theorem settings_lands :
    Comes P v₀ (Booted P v₀) (steps P (settings P)) fun _ => Booted P v₀ := by
  have hR (v : Ledger) (h : Booted P v₀ v) : Late P v₀ v := h.late
  have hskip {c : Prog Camera Bool} (hc : c.Leaves ledger) :
      Comes P v₀ (Booted P v₀) c (OrLost (Late P v₀) (Booted P v₀)) :=
    comes_skip hR (fun _ h => h.promise) hc
  have hx : external.Leaves ledger := leaves_external ledger_uncounted
  have hadd {f : Bytes} :
      Comes P v₀ (Booted P v₀) (addSetting f) (OrLost (Late P v₀) (Booted P v₀)) :=
    comes_act hR fun s s' h hs => by
      obtain ⟨names, -, rfl⟩ := Option.map_eq_some_iff.mp hs
      exact ⟨{ h.late with }, h.core⟩
  have hconfig : Comes P v₀ (Booted P v₀) (act fun s => some { s with config := some [] })
      (OrLost (Late P v₀) (Booted P v₀)) :=
    comes_act hR fun s s' h hs => by
      obtain rfl := Option.some.inj hs
      exact ⟨{ h.late with }, h.core⟩
  refine comes_each fail_late fun x hx' => ?_
  simp only [settings, List.mem_append, List.mem_cons, List.not_mem_nil, or_false, List.mem_map]
    at hx'
  rcases hx' with (((hx' | ⟨f, -, rfl⟩) | ⟨f, -, rfl⟩) | hx') | hx'
  · rcases hx' with rfl | rfl | rfl | rfl | rfl | rfl
    · exact hskip leaves_test
    · exact hskip (leaves_put ledger_uncounted fun _ => rfl)
    · exact hskip (leaves_onlyIf hx)
    · exact hskip (leaves_onlyIf (leaves_put ledger_uncounted fun _ => rfl))
    · exact hskip leaves_test
    · exact hconfig
  · exact hadd
  · exact hadd
  · rcases hx' with rfl | rfl | rfl | rfl
    · exact hskip (leaves_sync ledger_uncounted)
    · exact hskip (leaves_verify ledger_uncounted)
    · exact hskip hx
    · exact hskip hx
  · split at hx'
    · rw [List.mem_singleton.mp hx']
      exact hskip hx
    · cases hx'

/-! ## 7. Behind the journal -/

theorem journaled_uncounted : Uncounted Camera.journaled := fun _ _ => rfl

/-- What has been noted, and `ROLLBACK_READY`. -/
def marks (s : Camera) : Bool × Bool × Bool × Bool :=
  (s.reclaimed, s.ready, s.activated, s.journaled)

theorem marks_uncounted : Uncounted marks := fun _ _ => rfl

theorem rollback_marks : (rollbackUncommitted P).Leaves marks := by
  have hv {p : Camera → Bool} : (verify p).Leaves marks := leaves_verify marks_uncounted
  have hrm {f : BackupFile} : (rmBackup f).Leaves marks :=
    leaves_rmBackup marks_uncounted fun _ => rfl
  have hput {g : Camera → Camera} (hg : ∀ s, marks (g s) = marks s) :
      (act fun s => some (g s)).Leaves marks := leaves_put marks_uncounted hg
  refine leaves_allOf (List.forall_mem_append.mpr ⟨List.forall_mem_append.mpr ⟨?_, ?_⟩, ?_⟩)
  · simp only [List.forall_mem_cons, List.not_mem_nil, false_implies, implies_true, and_true]
    exact ⟨leaves_test, hv, hv, hv, hv, hv, leaves_onlyIf (hput fun _ => rfl),
      leaves_unchecked (hput fun _ => rfl), hrm, hrm, hrm⟩
  · intro c hc
    obtain ⟨t, -, rfl⟩ := List.mem_map.mp hc
    refine leaves_onlyIf (leaves_act marks_uncounted fun s s' hs => ?_)
    obtain ⟨c, -, rfl⟩ := Option.map_eq_some_iff.mp hs
    rfl
  · simp only [List.forall_mem_cons, List.not_mem_nil, false_implies, implies_true, and_true]
    exact ⟨leaves_onlyIf (hput fun _ => rfl), leaves_onlyIf (hput fun _ => rfl),
      leaves_unchecked (hput fun _ => rfl), leaves_sync marks_uncounted,
      leaves_external marks_uncounted⟩

/-- **What `InTime` asks about is as it was when `fail` was entered.** -/
theorem fail_marks {α : Type} {text : String} : (fail P text : Prog Camera α).Leaves marks := by
  refine Leaves.bind ?_ fun _ => ?_
  · exact leaves_assign fun _ => rfl
  refine Leaves.bind ?_ fun _ => rollback_marks.bind fun _ => ?_
  · exact leaves_put marks_uncounted fun _ => rfl
  exact (leaves_sync marks_uncounted).bind fun _ => trivial

theorem leaves_fail {α : Type} {text : String} :
    (fail P text : Prog Camera α).Leaves Camera.journaled :=
  fail_marks.map fun m => m.2.2.2

theorem leaves_restart {α : Type} : (restart P : Prog Camera α).Leaves Camera.journaled :=
  (leaves_sync journaled_uncounted).bind fun _ =>
    (leaves_external journaled_uncounted).bind fun _ => leaves_ite trivial leaves_fail

theorem leaves_mv {f g : BackupFile} : (act fun s => s.mv f g).Leaves Camera.journaled := by
  refine leaves_act journaled_uncounted fun s s' hs => ?_
  obtain ⟨c, -, rfl⟩ := Option.map_eq_some_iff.mp hs
  rfl

theorem leaves_restoreOriginal : (restoreOriginal P).Leaves Camera.journaled := by
  have hv {p : Camera → Bool} : (verify p).Leaves Camera.journaled :=
    leaves_verify journaled_uncounted
  have hrm {f : BackupFile} : (rmBackup f).Leaves Camera.journaled :=
    leaves_rmBackup journaled_uncounted fun _ => rfl
  have hput {g : Camera → Camera} (hg : ∀ s, (g s).journaled = s.journaled) :
      (unchecked (act fun s => some (g s))).Leaves Camera.journaled :=
    leaves_unchecked (leaves_put journaled_uncounted hg)
  refine (leaves_orExit (leaves_allOf ?_)).bind fun _ => ?_
  · simp only [List.forall_mem_cons, List.not_mem_nil, false_implies, implies_true, and_true]
    exact ⟨hv, hv, hv⟩
  refine (leaves_orExit hv).bind fun _ => ?_
  refine (leaves_allOf fun c hc => ?_).bind fun _ => ?_
  · obtain ⟨f, -, rfl⟩ := List.mem_map.mp hc
    exact hrm
  refine Leaves.bind ?_ fun _ => ?_
  · exact hput fun _ => rfl
  refine (leaves_allOf fun c hc => ?_).bind fun _ => ?_
  · obtain ⟨t, -, rfl⟩ := List.mem_map.mp hc
    exact leaves_orExit (leaves_restoreTool.map View.journaled)
  refine hrm.bind fun _ => Leaves.bind ?_ fun _ => ?_
  · exact hput fun _ => rfl
  refine (leaves_orExit (leaves_act journaled_uncounted fun s s' hs => ?_)).bind fun _ => ?_
  · obtain ⟨c, -, rfl⟩ := Option.map_eq_some_iff.mp hs
    rfl
  refine (leaves_sync journaled_uncounted).bind fun _ => (leaves_orExit leaves_mv).bind fun _ => ?_
  refine (leaves_allOf ?_).bind fun _ => ?_
  · simp only [retire, List.forall_mem_cons, List.not_mem_nil, false_implies, implies_true,
      and_true]
    exact ⟨hrm, hput fun _ => rfl, hput fun _ => rfl, hput fun _ => rfl, hput fun _ => rfl,
      hput fun _ => rfl⟩
  refine Leaves.bind ?_ fun _ => ?_
  · exact leaves_put journaled_uncounted fun _ => rfl
  exact (leaves_sync journaled_uncounted).bind fun _ =>
    (leaves_external journaled_uncounted).bind fun _ => trivial

theorem leaves_execDispatcher : (execDispatcher P).Leaves Camera.journaled := by
  refine (leaves_mountCard.map View.journaled).bind fun _ => leaves_test.bind fun _ =>
    leaves_ite leaves_restoreOriginal ?_
  refine leaves_test.bind fun _ => leaves_ite trivial ?_
  refine leaves_test.bind fun _ => leaves_ite ?_ trivial
  exact (leaves_external journaled_uncounted).bind fun _ =>
    leaves_ite trivial (leaves_bootError.map View.journaled)

theorem leaves_exhausted : (exhausted P).Leaves Camera.journaled := by
  have hv {p : Camera → Bool} : (verify p).Leaves Camera.journaled :=
    leaves_verify journaled_uncounted
  refine Leaves.bind ?_ fun _ => Leaves.bind ?_ fun _ => Leaves.bind ?_ fun _ => leaves_ite ?_ ?_
  · exact leaves_unchecked (leaves_put journaled_uncounted fun _ => rfl)
  · exact leaves_unchecked (leaves_put journaled_uncounted fun _ => rfl)
  · refine leaves_allOf ?_
    simp only [List.forall_mem_cons, List.not_mem_nil, false_implies, implies_true, and_true]
    exact ⟨hv, hv⟩
  · refine Leaves.bind (leaves_steps (fun _ => leaves_fail) ?_) fun _ => leaves_execDispatcher
    simp only [List.forall_mem_cons, List.not_mem_nil, false_implies, implies_true, and_true]
    exact ⟨leaves_put journaled_uncounted fun _ => rfl, leaves_put journaled_uncounted fun _ => rfl,
      leaves_sync journaled_uncounted⟩
  · exact leaves_fail

theorem leaves_stageImage {p : Part} {x : Prog Camera Bool × String} (hx : x ∈ stageImage p) :
    x.1.Leaves Camera.journaled := by
  simp only [stageImage, List.mem_cons, List.not_mem_nil, or_false] at hx
  rcases hx with rfl | rfl | rfl
  · exact leaves_put journaled_uncounted fun _ => rfl
  · exact leaves_verify journaled_uncounted
  · refine leaves_act journaled_uncounted fun s s' hs => ?_
    split at hs
    · obtain rfl := Option.some.inj hs
      rfl
    · cases hs

theorem leaves_stage : (stage P).Leaves Camera.journaled := by
  refine Leaves.bind ?_ fun read => ?_
  · refine leaves_test.bind fun _ => leaves_ite trivial ?_
    exact (leaves_external journaled_uncounted).bind fun _ => ⟨fun _ _ => rfl, fun _ _ => trivial⟩
  cases read with
  | none => exact leaves_exhausted
  | some n =>
    refine leaves_ite ?_ leaves_exhausted
    refine Leaves.bind (leaves_steps (fun _ => leaves_fail) ?_) fun _ => ?_
    · simp only [List.forall_mem_cons, List.not_mem_nil, false_implies, implies_true, and_true]
      refine ⟨leaves_put journaled_uncounted fun _ => rfl, ?_, leaves_sync journaled_uncounted⟩
      refine leaves_act journaled_uncounted fun s s' hs => ?_
      obtain ⟨n, -, rfl⟩ := Option.map_eq_some_iff.mp hs
      rfl
    refine Leaves.bind (leaves_steps (fun _ => leaves_fail) fun x hx => ?_) fun _ => ?_
    · exact (List.mem_append.mp hx).elim leaves_stageImage leaves_stageImage
    refine Leaves.bind ?_ fun _ => leaves_restart
    exact leaves_put journaled_uncounted fun _ => rfl

omit [DecidableEq H] in
/-- Behind the journal nothing is promised. -/
theorem noted_lands {α : Type} {p : Prog Camera α} (hp : p.Leaves Camera.journaled) :
    Comes P v₀ (fun v => v.journaled = true) p fun _ v => v.journaled = true := by
  intro s hs
  have hs : s.journaled = true := hs
  exact hp.ends (fun s' he _ hj => absurd ((he.trans hs).symm.trans hj) nofun)
    fun _ s' he => he.trans hs

/-- **Bootstrap, journal and dispatcher.** -/
theorem activate_lands :
    Comes P v₀ (Booted P v₀) (steps P (activate P)) fun _ v => v.journaled = true := by
  refine comes_cons fail_late (T := Late P v₀)
    (comes_act (fun _ h => h.late) fun s s' h hs => h.mv hs) ?_
  refine comes_cons fail_late (T := fun v => v.journaled = true)
    (comes_act (fun _ h => h) fun s s' h hs => ?_) ?_
  · obtain rfl := Option.some.inj hs
    rfl
  refine noted_lands (leaves_steps (fun _ => leaves_fail) ?_)
  simp only [List.forall_mem_cons, List.not_mem_nil, false_implies, implies_true, and_true]
  exact ⟨leaves_unchecked (leaves_put journaled_uncounted fun _ => rfl),
    leaves_sync journaled_uncounted, leaves_mv, leaves_sync journaled_uncounted⟩

/-! ## 8. install.sh -/

theorem fresh_lands (h₀ : Opening v₀) :
    Comes P v₀ (At v₀ True) (fresh P) fun _ v => v.journaled = true := by
  refine (checks_lands h₀).bind fun _ => (backups_lands h₀).bind fun _ =>
    (reclaim_lands tools).bind fun _ => ?_
  refine Lands.bind (T := fun _ => Listed v₀) ?_ fun _ => ?_
  · refine comes_cons fail_early
      (comes_act (fun _ h => h.saving.early) fun s s' h hs => ?_) comes_nil
    obtain rfl := Option.some.inj hs
    exact h.listed
  refine Lands.bind (T := fun _ => Late P v₀) (lands_assign fun s h => h.late h₀) fun _ => ?_
  refine Lands.bind (T := fun _ => Late P v₀) ?_ fun _ => ?_
  · refine comes_cons fail_late (T := Late P v₀) (comes_act (fun _ h => h) fun s s' h hs => ?_) ?_
    · obtain ⟨c, -, rfl⟩ := Option.map_eq_some_iff.mp hs
      exact h.write (by decide)
    exact comes_cons fail_late (comes_skip (fun _ h => h) (fun _ h => h.promise)
      (leaves_verify ledger_uncounted)) comes_nil
  refine Lands.bind (T := fun _ => Booted P v₀) ?_ fun _ => settings_lands.bind fun _ => ?_
  · refine comes_cons fail_late (T := Booted P v₀)
      (comes_act (fun _ h => h) fun s s' h hs => ?_) comes_nil
    obtain rfl := Option.some.inj hs
    exact ⟨h.write (by decide), rfl⟩
  have hR (v : Ledger) (h : Booted P v₀ v) : Late P v₀ v := h.late
  refine Lands.bind (T := fun _ => Booted P v₀) ?_ fun _ => ?_
  · refine comes_cons fail_late (T := Booted P v₀) (comes_act hR fun s s' h hs => ?_) comes_nil
    obtain rfl := Option.some.inj hs
    exact ⟨h.late.write (by decide), h.core⟩
  refine Lands.bind (T := fun _ => Booted P v₀) (comes_each fail_late fun x hx => ?_) fun _ =>
    activate_lands
  refine comes_skip hR (fun _ h => h.promise) ?_
  simp only [dispatcherChecks, List.mem_cons, List.not_mem_nil, or_false] at hx
  rcases hx with rfl | rfl | rfl
  · exact leaves_verify ledger_uncounted
  · exact leaves_sync ledger_uncounted
  · exact leaves_external ledger_uncounted

/-- **`install.sh`**, where there is neither a request nor a journal. -/
theorem install_lands (h₀ : Opening v₀) :
    Comes P v₀ (At v₀ True) (install P) fun _ => Promise P v₀ := by
  refine Lands.bind (T := fun _ => At v₀ True) (comes_each fail_early fun x hx => ?_) fun _ => ?_
  · obtain ⟨text, rfl⟩ := preamble_external hx
    exact comes_skip h₀.at (fun _ h => h.promise) (leaves_external ledger_uncounted)
  refine Lands.bind (T := fun ok v => At v₀ True v ∧ ok = false) (lands_test fun s h => ?_)
    fun ok => lands_ite (fun s h => absurd (h.1.2.symm.trans h.2) nofun) ?_
  · exact ⟨h, (congrArg Ledger.restore h.1).trans h₀.restore⟩
  refine Lands.bind (T := fun ok v => At v₀ True v ∧ ok = false) (lands_test fun s h => ?_)
    fun ok => ?_
  · have hpending : s.backup .pending = none :=
      (congrFun (congrArg Ledger.backup h.1.1.1) _).trans h₀.pending
    exact ⟨h.1.1, by rw [hpending]; rfl⟩
  have hnoted (v : Ledger) (hj : v.journaled = true) : Promise P v₀ v := fun _ hn =>
    absurd (hj.symm.trans hn) nofun
  have hstage : Comes P v₀ (fun v => v.journaled = true) (stage P) fun _ => Promise P v₀ :=
    (noted_lands leaves_stage).imp (fun _ h => h) fun _ => hnoted
  refine lands_ite (fun s h => absurd (h.1.2.symm.trans h.2) nofun) ?_
  exact ((fresh_lands h₀).bind fun _ => hstage).imp (fun _ h => h.1.1) fun _ _ h => h

end

/-! ## 9. Runs -/

/-- `install.sh` from a camera, with each command ending well or not. -/
def installRun (P : Package H) [DecidableEq H] (s₀ : Camera) (oks : List Bool) : Config Camera :=
  run (Config.step untrapped) ⟨install P, true, s₀⟩ (oks.map .outcome)

/-- What `fail` runs in it succeeds. -/
def FailSucceeds (P : Package H) [DecidableEq H] (s₀ : Camera) (oks : List Bool) : Prop :=
  StepsMeet (Config.step untrapped) (Config.Meets Obeys fun _ _ => True) ⟨install P, true, s₀⟩
    (oks.map .outcome)

instance (P : Package H) [DecidableEq H] (s₀ : Camera) (oks : List Bool) :
    Decidable (FailSucceeds P s₀ oks) :=
  inferInstanceAs (Decidable (StepsMeet _ _ _ _))

/-- **When an abandoned installation leaves `/backup` as it was.** Whatever fails before the
    journal, `fail` restores every file and leaves no other if and only if no updater tool had been
    removed before `ROLLBACK_READY`, and no other bootstrap had taken its name. -/
theorem abandoned_iff [DecidableEq H] {s₀ : Camera} (h₀ : Opening (ledger s₀)) {oks : List Bool}
    (hoks : FailSucceeds P s₀ oks) (hover : (installRun P s₀ oks).over = true)
    (hfailing : (installRun P s₀ oks).state.failing = true)
    (hjournal : (installRun P s₀ oks).state.journaled = false) :
    RolledBack (ledger s₀) (ledger (installRun P s₀ oks).state) ↔
      InTime P (ledger s₀) (ledger (installRun P s₀ oks).state) :=
  (install_lands h₀ s₀ ⟨rfl, trivial⟩).finished (fun _ => rfl) hoks hover hfailing hjournal

end

/-- A camera with one of the updater tools. -/
def toolCamera : Camera := { sampleCamera with
  backup := Function.update sampleCamera.backup (.tool .upgradeSh) (some (ascii "upgrade")) }

theorem toolCamera_opening : Opening (ledger toolCamera) where
  pending := rfl
  restore := rfl
  ready := rfl
  failing := rfl
  reclaimed := rfl
  activated := rfl
  files _ _ := rfl

/-- The command after `n` others fails, `m` more do not. -/
def failsAfter (n m : Nat) : List Bool :=
  List.replicate n true ++ false :: List.replicate m true

/-- The dispatcher cannot be staged. -/
theorem unstaged_iff :
    RolledBack (ledger toolCamera)
        (ledger (installRun samplePackage toolCamera (failsAfter 77 40)).state) ↔
      InTime samplePackage (ledger toolCamera)
        (ledger (installRun samplePackage toolCamera (failsAfter 77 40)).state) :=
  abandoned_iff toolCamera_opening (by decide +kernel) (by decide +kernel) (by decide +kernel)
    (by decide +kernel)

/-- The second manifest cannot be written: the tool that was removed stays away. -/
theorem reclaimed_tool_lost :
    ¬ ∀ (P : Package Bytes) (s₀ : Camera) (oks : List Bool), Opening (ledger s₀) →
      FailSucceeds P s₀ oks → (installRun P s₀ oks).over = true →
      (installRun P s₀ oks).state.failing = true →
      (installRun P s₀ oks).state.journaled = false →
      (installRun P s₀ oks).state.failures = 1 →
      RolledBack (ledger s₀) (ledger (installRun P s₀ oks).state) := by
  intro h
  have hback := (h samplePackage toolCamera (failsAfter 58 10) toolCamera_opening
    (by decide) (by decide) (by decide) (by decide)
    (by decide)).1
  have hlost : (installRun samplePackage toolCamera (failsAfter 58 10)).state.backup
      (.tool .upgradeSh) = none := by decide
  exact nomatch hlost.symm.trans (congrFun hback (.tool .upgradeSh))

end YiHack.FlashCore.Abandon
