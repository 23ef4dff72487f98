/-
  File:      YiHack/Hotspot/Requests.lean
  Subject:   What becomes of a request, whatever comes in between.

  A request that no run has finished is in the request file, or else in the pending file (`Inv`). The
  worker's assertions are about what requests leave alone; `Enduring` says so once.

  * `restoreStation_ok`, `startAp_ok` -- the transitions;
  * `perform_ok`, `applyLocked_ok` -- the choice between them; `Finished` -- what comes of it;
  * `system_sound` -- requests and runs side by side;
  * **`requests_resolved`** -- over every run;
  * `stop_given_up` -- a stop whose restoration has failed is not taken up again.
-/
import YiHack.Hotspot.Script

namespace YiHack.Hotspot

open General
open Wifi (HotspotState)

/-! ## 1. The invariant -/

/-- Station, and no maintenance. -/
def Settled (s : Files) : Prop :=
  (s.state = .absent ∨ s.state = .station) ∧ s.maintenance = false

instance (s : Files) : Decidable (Settled s) := inferInstanceAs (Decidable (_ ∧ _))

/-- What a run with this status has made of a start. Where it says that it did, the access point is
    up; where no command failed either it is, or it did not come up and the run gave it back. -/
def Started (status : Bool) (s : Files) : Prop :=
  (status = true → s.launched = true ∧ s.state = .active ∧ s.pending = none) ∧
    (status = false → s.clean = true → s.launched = true ∧ s.state = .failed ∧
      s.maintenance = false ∧ s.pending = none)

/-- What a run with this status has made of the request it moved. -/
def Finished (status : Bool) (s : Files) : Prop :=
  (s.clean = true → s.moved = some .stop → Settled s ∧ s.pending = none) ∧
    ∀ r, s.moved = some r → r ≠ .stop → Started status s

theorem finished_of_failed {s : Files} (h : s.clean = false) : Finished false s :=
  ⟨fun hc => absurd (h.symm.trans hc) Bool.false_ne_true,
    fun _ _ _ => ⟨fun hb => absurd hb Bool.false_ne_true,
      fun _ hc => absurd (h.symm.trans hc) Bool.false_ne_true⟩⟩

theorem finished_of_none {s : Files} (h : s.moved = none) (b : Bool) : Finished b s :=
  ⟨fun _ hm => absurd (h.symm.trans hm) nofun, fun _ hm => absurd (h.symm.trans hm) nofun⟩

structure Inv (s : Files) : Prop where
  queued : ∀ r, s.request = some r → s.last = some r ∧ s.answered = false
  kept : ∀ r, s.last = some r → s.answered = false →
    s.request = some r ∨ s.request = none ∧ s.pending = some (some r)
  taken : ∀ r, s.found = some (some r) → s.launched = true → ∃ r', s.moved = some r' ∧ r' ≠ .stop
  resumed : s.found = some none → s.seen = .starting ∨ s.seen = .stopping → s.launched = false
  executed : ∀ b, s.ended = some b → Finished b s

theorem Inv.ask {s : Files} (h : Inv s) (r : Request) : Inv (s.ask r) where
  queued _ hr := ⟨hr, rfl⟩
  kept _ hr _ := .inl hr
  taken := h.taken
  resumed := h.resumed
  executed := h.executed

theorem inv_boot : Inv .boot where
  queued _ h := absurd h nofun
  kept _ h _ := absurd h nofun
  taken _ h _ := absurd h nofun
  resumed h _ := absurd h nofun
  executed _ h := absurd h nofun

/-- What `me` relies on: the worker on everything but requests. -/
def Rely : Option Nat → Files → Files → Prop
  | none, s, s' => s' = s ∨ ∃ r, s' = s.ask r
  | some _, _, _ => True

/-- What `me` guarantees. -/
def Guarantee : Option Nat → Files → Files → Prop
  | none, s, s' => Inv s → Inv s'
  | some _, s, s' => s' = s ∨ ∃ r, s' = s.ask r

/-- The worker. -/
abbrev Does {α : Type} (Q : α → Files → Prop) (c : Code Files α) (s : Files) : Prop :=
  Code.Ok (Rely none) (Guarantee none) (fun _ _ => True) Q c s

/-! ## 2. Assertions of the worker -/

/-- The assertion holds of invariant files, and neither requests nor the ends of other commands
    change it. -/
structure Enduring (P : Files → Prop) : Prop where
  inv : ∀ s, P s → Inv s
  asked : ∀ s r, P s → P (s.ask r)
  spent : ∀ s o c, P s → (c = true → s.clean = true) → P { s with outcomes := o, clean := c }

/-- Nor do state file and marker. -/
structure Roaming (P : Files → Prop) : Prop extends Enduring P where
  state : ∀ s h, P s → P { s with state := h }
  maintenance : ∀ s m, P s → P { s with maintenance := m }

variable {P : Files → Prop} {s : Files}

theorem Enduring.stable (hP : Enduring P) : Code.Stable (Rely none) P := by
  intro s s' h hr
  obtain rfl | ⟨r, rfl⟩ := hr
  · exact h
  · exact hP.asked s r h

/-- What is said of the clean runs only. -/
theorem Enduring.andClean (hP : Enduring P) {Z : Files → Prop} (hask : ∀ s r, Z s → Z (s.ask r))
    (hspent : ∀ s o c, Z s → Z { s with outcomes := o, clean := c }) :
    Enduring fun s => P s ∧ (s.clean = true → Z s) where
  inv s h := hP.inv s h.1
  asked s r h := ⟨hP.asked s r h.1, fun hc => hask s r (h.2 hc)⟩
  spent s o c h hc := ⟨hP.spent s o c h.1 hc, fun hc' => hspent s o c (h.2 (hc hc'))⟩

/-- A run that is not clean stays so. -/
theorem Enduring.failed (hP : Enduring P) : Enduring fun s => P s ∧ s.clean = false where
  inv s h := hP.inv s h.1
  asked s r h := ⟨hP.asked s r h.1, h.2⟩
  spent s o c h hc := by
    refine ⟨hP.spent s o c h.1 hc, ?_⟩
    rcases c with - | -
    · rfl
    · exact absurd (hc rfl) (by rw [h.2]; exact Bool.false_ne_true)

theorem Roaming.failed (hP : Roaming P) : Roaming fun s => P s ∧ s.clean = false where
  toEnduring := hP.toEnduring.failed
  state s t h := ⟨hP.state s t h.1, h.2⟩
  maintenance s m h := ⟨hP.maintenance s m h.1, h.2⟩

/-- With the status: where it is false, the run is not clean. -/
theorem Enduring.status (hP : Enduring P) (b : Bool) :
    Enduring fun s => P s ∧ (b = false → s.clean = false) := by
  rcases b with - | -
  · simpa using hP.failed
  · simpa using hP

theorem ret_ok {α : Type} {Q : α → Files → Prop} {a : α} (hQ : Enduring (Q a)) (h : Q a s) :
    Does Q (Code.ret a) s :=
  Code.ok_ret hQ.stable h fun _ => id

/-- **One command.** -/
theorem command_ok {f : Files → Option Files} {Q : Bool → Files → Prop} (hP : Enduring P)
    (hQ : ∀ b, Enduring (Q b)) (hdone : ∀ s s', P s → f s = some s' → Q true s')
    (hnot : ∀ s, P s → s.clean = false → Q false s) (h : P s) : Does Q (command f) s := by
  refine Code.ok_rmw hP.stable h fun s h _ => ?_
  have hspent : P { s with outcomes := s.outcomes.tail } := hP.spent s _ s.clean h id
  have hfail : Q false { s with outcomes := s.outcomes.tail, clean := false } :=
    hnot _ (hP.spent s _ false h fun hc => absurd hc Bool.false_ne_true) rfl
  have hpost : Q (s.succeeds f) (s.attempt f) := by
    rw [Files.succeeds, Files.attempt]
    rcases s.good with - | -
    · exact hfail
    · rcases hf : f { s with outcomes := s.outcomes.tail } with - | s'
      · exact hfail
      · exact hdone _ _ hspent hf
  exact ⟨fun _ => (hQ _).inv _ hpost, fun s' hr => (hQ _).stable.star hr hpost⟩

/-- A command that keeps the assertion. -/
theorem command_keeps {f : Files → Option Files} (hP : Enduring P)
    (hf : ∀ s s', P s → f s = some s' → P s') (h : P s) :
    Does (fun b s => P s ∧ (b = false → s.clean = false)) (command f) s :=
  command_ok hP hP.status (fun s s' hs hs' => ⟨hf s s' hs hs', nofun⟩)
    (fun _ hs hc => ⟨hs, fun _ => hc⟩) h

theorem external_ok (hP : Enduring P) (h : P s) :
    Does (fun b s => P s ∧ (b = false → s.clean = false)) external s :=
  command_keeps hP (fun _ _ hs hs' => Option.some.inj hs' ▸ hs) h

theorem setState_ok (hP : Roaming P) (t : HotspotState) (h : P s) :
    Does (fun b s => P s ∧ (b = false → s.clean = false)) (setState t) s :=
  command_keeps hP.toEnduring (fun s _ hs hs' => Option.some.inj hs' ▸ hP.state s t hs) h

/-- Whatever the status. -/
theorem void_ok {Q : Bool → Files → Prop} {c : Code Files Bool} (hP : Enduring P) (h : Does Q c s)
    (hQ : ∀ b s, Q b s → P s) : Does (fun _ => P) c.void s :=
  h.bind fun b s hs => ret_ok (Q := fun _ => P) hP (hQ b s hs)

theorem external_void (hP : Enduring P) (h : P s) : Does (fun _ => P) external.void s :=
  void_ok hP (external_ok hP h) fun _ _ => And.left

theorem setState_void (hP : Roaming P) (t : HotspotState) (h : P s) :
    Does (fun _ => P) (setState t).void s :=
  void_ok hP.toEnduring (setState_ok hP t h) fun _ _ => And.left

/-- **`command || return 1`**, and what follows. -/
theorem orReturn_ok {Q W : Bool → Files → Prop} {c d : Code Files Bool} (hW : Enduring (W false))
    (hc : Does Q c s) (hd : ∀ s, Q true s → Does W d s) (hfail : ∀ s, Q false s → W false s) :
    Does W (orReturn c d) s := by
  refine hc.bind fun b s hs => ?_
  rcases b with - | -
  · exact ret_ok hW (hfail s hs)
  · exact hd s hs

/-- The same for an external command. -/
theorem external_orReturn {Q : Bool → Files → Prop} {d : Code Files Bool} (hP : Enduring P)
    (hQ : Enduring (Q false)) (h : P s) (hd : ∀ s, P s → Does Q d s)
    (hfail : ∀ s, P s → s.clean = false → Q false s) : Does Q (orReturn external d) s :=
  orReturn_ok hQ (external_ok hP h) (fun s hs => hd s hs.1) fun s hs => hfail s hs.1 (hs.2 rfl)

theorem probe_ok (hP : Enduring P) (h : P s) : Does (fun _ => P) probe s := by
  refine Code.ok_rmw hP.stable h fun s h _ => ?_
  have hspent : P { s with outcomes := s.outcomes.tail } := hP.spent s _ s.clean h id
  exact ⟨fun _ => hP.inv _ hspent, fun s' hr => hP.stable.star hr hspent⟩

/-! ## 3. Station and access point -/

theorem stopAp_ok (hP : Enduring P) (h : P s) : Does (fun _ => P) stopAp s :=
  (external_void hP h).bind fun _ _ h => (external_void hP h).bind fun _ _ h => external_void hP h

theorem killStation_ok (hP : Enduring P) (h : P s) : Does (fun _ => P) killStation s :=
  (external_void hP h).bind fun _ _ h => (external_void hP h).bind fun _ _ h => external_void hP h

/-- What `restore_station` leaves, with its status. -/
def Restored (P : Files → Prop) (b : Bool) (s : Files) : Prop :=
  P s ∧ (b = true → s.clean = true → Settled s) ∧ (b = false → s.clean = false)

theorem Restored.enduring (hP : Enduring P) (b : Bool) : Enduring (Restored P b) := by
  rcases b with - | -
  · have hsame : Restored P false = fun s => P s ∧ s.clean = false := by funext s; simp [Restored]
    rw [hsame]
    exact hP.failed
  · have hsame : Restored P true = fun s => P s ∧ (s.clean = true → Settled s) := by
      funext s
      simp [Restored]
    rw [hsame]
    exact hP.andClean (fun _ _ h => h) fun _ _ _ h => h

/-- **The station is restored**, where no command fails. -/
theorem restoreStation_ok (hP : Roaming P) (h : P s) : Does (Restored P) restoreStation s := by
  have hfail : ∀ s, P s → s.clean = false → Restored P false s := fun s hs hc =>
    ⟨hs, nofun, fun _ => hc⟩
  have hend := Restored.enduring hP.toEnduring
  refine orReturn_ok (hend false) (setState_ok hP .stopping h) (fun s hs => ?_)
    fun s hs => hfail s hs.1 (hs.2 rfl)
  refine (stopAp_ok hP.toEnduring hs.1).bind fun _ s h => ?_
  refine (killStation_ok hP.toEnduring h).bind fun _ s h => ?_
  -- from here on the marker is gone in clean runs
  have hM : Enduring fun s : Files => P s ∧ (s.clean = true → s.maintenance = false) :=
    hP.toEnduring.andClean (Z := fun s => s.maintenance = false) (fun _ _ h => h) fun _ _ _ h => h
  have hmarker : Does (fun _ s => P s ∧ (s.clean = true → s.maintenance = false))
      (command fun s => some { s with maintenance := false }) s := by
    refine command_ok hP.toEnduring (fun _ => hM) (fun s s' hs hs' => ?_) (fun s hs hc => ?_) h
    · obtain rfl := Option.some.inj hs'
      exact ⟨hP.maintenance s false hs, fun _ => rfl⟩
    · exact ⟨hs, fun hc' => absurd hc' (by rw [hc]; exact Bool.false_ne_true)⟩
  refine (void_ok hM hmarker fun _ _ h => h).bind fun _ s h => ?_
  refine (external_void hM h).bind fun _ s h => ?_
  refine external_orReturn hM (hend false) h (fun s h => ?_) fun s h hc => hfail s h.1 hc
  refine external_orReturn hM (hend false) h (fun s h => ?_) fun s h hc => hfail s h.1 hc
  refine external_orReturn hM (hend false) h (fun s h => ?_) fun s h hc => hfail s h.1 hc
  refine command_ok hM hend (fun s s' hs hs' => ?_) (fun s hs hc => hfail s hs.1 hc) h
  obtain rfl := Option.some.inj hs'
  exact ⟨hP.state s .station hs.1, fun _ hc => ⟨.inr rfl, hs.2 hc⟩, nofun⟩

/-- The access point may be launched: the request that was moved is no stop, and where none was
    found no transition was under way. -/
structure Starting (s : Files) : Prop where
  inv : Inv s
  ended : s.ended = none
  moved : s.moved ≠ some .stop
  taken : ∀ r, s.found = some (some r) → s.moved ≠ none
  resumed : s.found = some none → ¬ (s.seen = .starting ∨ s.seen = .stopping)

/-- It is not. -/
structure Stopping (s : Files) : Prop where
  inv : Inv s
  ended : s.ended = none
  launched : s.launched = false
  moved : ∀ r, s.moved = some r → r = .stop

/-- The invariant is not about state file, marker, outcomes. -/
theorem Inv.roam (h : Inv s) (hended : s.ended = none) (t : HotspotState) (m : Bool) (o : List Bool)
    (c : Bool) : Inv { s with state := t, maintenance := m, outcomes := o, clean := c } where
  queued := h.queued
  kept := h.kept
  taken := h.taken
  resumed := h.resumed
  executed _ hb := absurd (hended.symm.trans hb) nofun

theorem starting_roaming : Roaming Starting where
  inv _ h := h.inv
  asked _ r h := ⟨h.inv.ask r, h.ended, h.moved, h.taken, h.resumed⟩
  spent _ _ _ h _ := ⟨h.inv.roam h.ended _ _ _ _, h.ended, h.moved, h.taken, h.resumed⟩
  state _ _ h := ⟨h.inv.roam h.ended _ _ _ _, h.ended, h.moved, h.taken, h.resumed⟩
  maintenance _ _ h := ⟨h.inv.roam h.ended _ _ _ _, h.ended, h.moved, h.taken, h.resumed⟩

theorem stopping_roaming : Roaming Stopping where
  inv _ h := h.inv
  asked _ r h := ⟨h.inv.ask r, h.ended, h.launched, h.moved⟩
  spent _ _ _ h _ := ⟨h.inv.roam h.ended _ _ _ _, h.ended, h.launched, h.moved⟩
  state _ _ h := ⟨h.inv.roam h.ended _ _ _ _, h.ended, h.launched, h.moved⟩
  maintenance _ _ h := ⟨h.inv.roam h.ended _ _ _ _, h.ended, h.launched, h.moved⟩

theorem Starting.launch (h : Starting s) : Starting { s with launched := true } where
  inv :=
    { queued := h.inv.queued
      kept := h.inv.kept
      taken := fun r hr _ => by
        rcases hm : s.moved with - | r'
        · exact absurd hm (h.taken r hr)
        · exact ⟨r', rfl, fun hstop => h.moved (hm.trans (congrArg some hstop))⟩
      resumed := fun hf hseen => absurd hseen (h.resumed hf)
      executed := fun _ hb => absurd (h.ended.symm.trans hb) nofun }
  ended := h.ended
  moved := h.moved
  taken := h.taken
  resumed := h.resumed

/-- The state is `starting`, and not before the launch is the access point up. -/
def Under (launched : Bool) (s : Files) : Prop :=
  Starting s ∧ s.state = .starting ∧ (launched = true → s.launched = true)

theorem under_enduring (launched : Bool) : Enduring (Under launched) where
  inv _ h := h.1.inv
  asked s r h := ⟨starting_roaming.asked s r h.1, h.2⟩
  spent s o c h hc := ⟨starting_roaming.spent s o c h.1 hc, h.2⟩

/-- The access point is up. -/
structure Up (s : Files) : Prop extends Starting s where
  launched : s.launched = true
  state : s.state = .active

theorem up_enduring : Enduring Up where
  inv _ h := h.inv
  asked s r h := ⟨starting_roaming.asked s r h.toStarting, h.launched, h.state⟩
  spent s o c h hc := ⟨starting_roaming.spent s o c h.toStarting hc, h.launched, h.state⟩

/-- It has not come up: where no command failed, it was launched and the state tells. -/
structure Down (s : Files) : Prop extends Starting s where
  launched : s.clean = true → s.launched = true
  state : s.clean = true → s.state = .starting

theorem down_enduring : Enduring Down where
  inv _ h := h.inv
  asked s r h := ⟨starting_roaming.asked s r h.toStarting, h.launched, h.state⟩
  spent s o c h hc := ⟨starting_roaming.spent s o c h.toStarting hc, fun hc' => h.launched (hc hc'),
    fun hc' => h.state (hc hc')⟩

theorem Starting.down (h : Starting s) (hc : s.clean = false) : Down s :=
  ⟨h, fun hc' => absurd (hc.symm.trans hc') Bool.false_ne_true,
    fun hc' => absurd (hc.symm.trans hc') Bool.false_ne_true⟩

theorem Under.down (h : Under true s) : Down s := ⟨h.1, fun _ => h.2.2 rfl, fun _ => h.2.1⟩

/-- What `start_ap` leaves, with its status. -/
def Raised (b : Bool) (s : Files) : Prop := if b then Up s else Down s

theorem raised_enduring (b : Bool) : Enduring (Raised b) := by
  rcases b with - | -
  · exact down_enduring
  · exact up_enduring

/-- A command that `start_ap` returns behind where it fails. -/
theorem external_raised {P : Files → Prop} {d : Code Files Bool} (hP : Enduring P)
    (hS : ∀ s, P s → Starting s) (h : P s) (hd : ∀ s, P s → Does Raised d s) :
    Does Raised (orReturn external d) s :=
  external_orReturn hP down_enduring h hd fun s hs hc => (hS s hs).down hc

theorem launch_ok (h : Under false s) :
    Does (fun b s => if b then Under true s else Down s) launch s := by
  refine Code.store_then (under_enduring false).stable h fun s h _ => ⟨fun _ => h.1.launch.inv, ?_⟩
  have hlaunched : Under true { s with launched := true } := ⟨h.1.launch, h.2.1, fun _ => rfl⟩
  refine command_ok (under_enduring true) (fun b => ?_)
    (fun _ _ hs hs' => Option.some.inj hs' ▸ hs) (fun _ hs hc => hs.1.down hc) hlaunched
  rcases b with - | -
  · exact down_enduring
  · exact under_enduring true

theorem apReady_ok (n : Nat) (h : Under true s) : Does (fun _ => Under true) (apReady n) s := by
  have hU := under_enduring true
  induction n generalizing s with
  | zero => exact ret_ok (Q := fun _ => Under true) hU h
  | succ n ih =>
    refine (probe_ok hU h).bind fun b s h => ?_
    rcases b with - | -
    · exact (external_void hU h).bind fun _ s h => ih h
    · exact ret_ok (Q := fun _ => Under true) hU h

/-- Only here does the state become `active`. -/
theorem serve_ok (h : Under true s) : Does Raised serve s := by
  have hU := under_enduring true
  refine external_raised hU (fun _ => And.left) h fun s h => ?_
  refine (external_void hU h).bind fun _ s h => (external_void hU h).bind fun _ s h => ?_
  refine (probe_ok hU h).bind fun b s h => ?_
  rcases b with - | -
  · exact ret_ok (Q := Raised) down_enduring h.down
  · refine orReturn_ok down_enduring (command_ok hU raised_enduring (fun s s' hs hs' => ?_)
      (fun _ hs _ => hs.down) h) (fun s h => ?_) fun s h => h
    · obtain rfl := Option.some.inj hs'
      exact ⟨starting_roaming.state s .active hs.1, hs.2.2 rfl, rfl⟩
    · have h : Up s := h
      exact (external_void up_enduring h).bind fun _ s h => ret_ok (Q := Raised) up_enduring h

/-- **`start_ap`** starts an access point that may be launched. -/
theorem startAp_ok (h : Starting s) : Does Raised startAp s := by
  have hS := starting_roaming.toEnduring
  have hU := under_enduring false
  refine external_raised hS (fun _ => id) h fun s h => external_raised hS (fun _ => id) h fun s h =>
    external_raised hS (fun _ => id) h fun s h => ?_
  have hpost : ∀ b : Bool, Enduring fun s => if b then Under false s else Down s := by
    intro b
    rcases b with - | -
    · exact down_enduring
    · exact hU
  refine orReturn_ok (Q := fun b s => if b then Under false s else Down s) down_enduring
    (command_ok hS hpost (fun s s' hs hs' => ?_) (fun _ hs hc => hs.down hc) h) (fun s h => ?_)
    fun s h => h
  · obtain rfl := Option.some.inj hs'
    exact ⟨starting_roaming.state s .starting hs, rfl, fun hb => absurd hb Bool.false_ne_true⟩
  have h : Under false s := h
  refine (killStation_ok hU h).bind fun _ s h => (stopAp_ok hU h).bind fun _ s h => ?_
  refine external_raised hU (fun _ => And.left) h fun s h =>
    external_raised hU (fun _ => And.left) h fun s h => ?_
  refine orReturn_ok down_enduring (launch_ok h) (fun s h => ?_) fun s h => h
  have h : Under true s := h
  exact orReturn_ok down_enduring (apReady_ok 5 h) (fun s h => serve_ok h) fun s h => h.down

/-! ## 4. The choice -/

/-- The end of a run with this status. -/
structure Done (b : Bool) (s : Files) : Prop where
  inv : Inv s
  ended : s.ended = none
  finished : Finished b s

theorem Finished.spent {b c : Bool} (h : Finished b s) (o : List Bool)
    (hc : c = true → s.clean = true) : Finished b { s with outcomes := o, clean := c } :=
  ⟨fun hc' => h.1 (hc hc'), fun r hm hr =>
    ⟨(h.2 r hm hr).1, fun hb hc' => (h.2 r hm hr).2 hb (hc hc')⟩⟩

theorem done_enduring (b : Bool) : Enduring (Done b) where
  inv _ h := h.inv
  asked _ r h := ⟨h.inv.ask r, h.ended, h.finished⟩
  spent _ _ _ h hc := ⟨h.inv.roam h.ended _ _ _ _, h.ended, h.finished.spent _ hc⟩

theorem Inv.done_of_failed (h : Inv s) (hended : s.ended = none) (hc : s.clean = false) :
    Done false s :=
  ⟨h, hended, finished_of_failed hc⟩

/-- A stop is done where it is settled, or a command has failed. -/
theorem Stopping.finished {b : Bool} (h : Stopping s)
    (hsettled : s.clean = true → Settled s ∧ s.pending = none) : Finished b s :=
  ⟨fun hc _ => hsettled hc, fun r hm hr => absurd (h.moved r hm) hr⟩

theorem Inv.removePending (h : Inv s) (hended : s.ended = none) : Inv s.removePending where
  queued r hr := by
    have hr : s.request = some r := hr
    refine ⟨(h.queued r hr).1, ?_⟩
    show (s.answered || s.request.isNone) = false
    rw [(h.queued r hr).2, hr]
    rfl
  kept r hr hanswered := by
    obtain ⟨hnot, hsome⟩ := Bool.or_eq_false_iff.mp hanswered
    rcases h.kept r hr hnot with hreq | ⟨hreq, -⟩
    · exact .inl hreq
    · rw [hreq] at hsome
      exact absurd hsome nofun
  taken := h.taken
  resumed := h.resumed
  executed _ hb := absurd (hended.symm.trans hb) nofun

/-- The last command of a run. -/
theorem removePending_ok (hP : Enduring P) (hended : ∀ s, P s → s.ended = none)
    (hgone : ∀ s, P s → Finished true s.removePending) (h : P s) : Does Done removePending s := by
  refine command_ok hP done_enduring (fun s s' hs hs' => ?_)
    (fun s hs hc => (hP.inv s hs).done_of_failed (hended s hs) hc) h
  obtain rfl := Option.some.inj hs'
  exact ⟨(hP.inv s hs).removePending (hended s hs), hended s hs, hgone s hs⟩

/-- The same before a `return`. -/
theorem removePending_return (b : Bool) (hP : Enduring P) (hended : ∀ s, P s → s.ended = none)
    (hgone : ∀ s, P s → Finished b s.removePending)
    (hstays : ∀ s, P s → s.clean = false → Finished b s) (h : P s) :
    Does Done (do removePending.void; return b) s := by
  have hD := done_enduring b
  refine (void_ok hD (command_ok hP (fun _ => hD) (fun s s' hs hs' => ?_) (fun s hs hc => ?_) h)
    fun _ _ => id).bind fun _ s h => ret_ok (Q := Done) hD h
  · obtain rfl := Option.some.inj hs'
    exact ⟨(hP.inv s hs).removePending (hended s hs), hended s hs, hgone s hs⟩
  · exact ⟨hP.inv s hs, hended s hs, hstays s hs hc⟩

theorem restore_ok (h : Stopping s) : Does Done restore s := by
  refine (restoreStation_ok stopping_roaming h).bind fun b s h => ?_
  rcases b with - | -
  · refine (setState_void stopping_roaming.failed .failed ⟨h.1, h.2.2 rfl⟩).bind fun _ s h => ?_
    -- behind a failure nothing is promised
    have hD : Enduring fun s : Files => Stopping s ∧ s.clean = false := stopping_roaming.toEnduring.failed
    refine (void_ok (done_enduring false) (command_ok hD (fun _ => done_enduring false)
      (fun s s' hs hs' => ?_) (fun s hs hc => hs.1.inv.done_of_failed hs.1.ended hc) h)
      fun _ _ => id).bind fun _ s h => (external_void (done_enduring false) h).bind fun _ s h =>
        ret_ok (Q := Done) (done_enduring false) h
    obtain rfl := Option.some.inj hs'
    exact (hs.1.inv.removePending hs.1.ended).done_of_failed hs.1.ended hs.2
  · exact removePending_ok (Restored.enduring stopping_roaming.toEnduring true) (fun _ h => h.1.ended)
      (fun s h => Stopping.finished (s := s.removePending)
        ⟨h.1.inv.removePending h.1.ended, h.1.ended, h.1.launched, h.1.moved⟩
        fun hc => ⟨h.2.1 rfl hc, rfl⟩) h

/-- **A stop** never launches the access point. -/
theorem performStop_ok (h : Stopping s) : Does Done performStop s := by
  have hS := stopping_roaming.toEnduring
  refine Code.load_then (fun _ => id) hS.stable h fun s h => ?_
  split
  · rename_i hstate
    have hE : Enduring fun t : Files => Stopping t ∧ (t.state = .absent ∨ t.state = .station) :=
      ⟨fun t h => h.1.inv, fun t r h => ⟨hS.asked t r h.1, h.2⟩,
        fun t o c h hc => ⟨hS.spent t o c h.1 hc, h.2⟩⟩
    refine Code.load_then (fun _ => id) hE.stable ⟨h, hstate⟩ fun s h => ?_
    split
    · rename_i hmarker
      have hmarker : s.maintenance = false := by simpa using hmarker
      have hE' : Enduring fun t : Files => Stopping t ∧ Settled t :=
        ⟨fun t h => h.1.inv, fun t r h => ⟨hS.asked t r h.1, h.2⟩,
          fun t o c h hc => ⟨hS.spent t o c h.1 hc, h.2⟩⟩
      refine removePending_return true hE' (fun _ h => h.1.ended) (fun t h => ?_)
        (fun t h hc => h.1.finished fun hc' => absurd (hc.symm.trans hc') Bool.false_ne_true)
        ⟨h.1, h.2, hmarker⟩
      exact Stopping.finished (s := t.removePending)
        ⟨h.1.inv.removePending h.1.ended, h.1.ended, h.1.launched, h.1.moved⟩ fun _ => ⟨h.2, rfl⟩
    · exact restore_ok h.1
  · exact restore_ok h

/-- An access point that did not come up is given back, where no command fails. -/
structure GivenBack (s : Files) : Prop extends Starting s where
  launched : s.clean = true → s.launched = true
  told : s.clean = true → s.state = .failed ∧ s.maintenance = false

theorem givenBack_enduring : Enduring GivenBack where
  inv _ h := h.inv
  asked s r h := ⟨starting_roaming.asked s r h.toStarting, h.launched, h.told⟩
  spent s o c h hc := ⟨starting_roaming.spent s o c h.toStarting hc, fun hc' => h.launched (hc hc'),
    fun hc' => h.told (hc hc')⟩

theorem GivenBack.finished (h : GivenBack s) : Finished false s.removePending :=
  ⟨fun _ hm => absurd hm h.moved,
    fun _ _ _ => ⟨fun hb => absurd hb Bool.false_ne_true,
      fun _ hc => ⟨h.launched hc, (h.told hc).1, (h.told hc).2, rfl⟩⟩⟩

theorem giveBack_ok (h : Starting s ∧ (s.clean = true → s.launched = true)) :
    Does Done (do restoreStation.void; (setState .failed).void; removePending.void; return false) s := by
  have hS := starting_roaming
  have hR : Roaming fun s : Files => Starting s ∧ (s.clean = true → s.launched = true) :=
    { toEnduring := hS.toEnduring.andClean (Z := fun s => s.launched = true) (fun _ _ h => h)
        fun _ _ _ h => h
      state := fun s t h => ⟨hS.state s t h.1, h.2⟩
      maintenance := fun s m h => ⟨hS.maintenance s m h.1, h.2⟩ }
  have hM : Enduring fun s : Files => (Starting s ∧ (s.clean = true → s.launched = true)) ∧
      (s.clean = true → s.maintenance = false) :=
    hR.toEnduring.andClean (Z := fun s => s.maintenance = false) (fun _ _ h => h) fun _ _ _ h => h
  refine (void_ok hM ((restoreStation_ok hR h).mono fun b s h => ?_) fun _ _ => id).bind
    fun _ s h => ?_
  · rcases b with - | -
    · exact ⟨h.1, fun hc => absurd ((h.2.2 rfl).symm.trans hc) Bool.false_ne_true⟩
    · exact ⟨h.1, fun hc => (h.2.1 rfl hc).2⟩
  have hG := givenBack_enduring
  refine (void_ok hG (command_ok hM (fun _ => hG) (fun s s' hs hs' => ?_) (fun s hs hc => ?_) h)
    fun _ _ => id).bind fun _ s h => ?_
  · obtain rfl := Option.some.inj hs'
    exact ⟨hS.state s .failed hs.1.1, hs.1.2, fun hc => ⟨rfl, hs.2 hc⟩⟩
  · exact ⟨hs.1.1, hs.1.2, fun hc' => absurd (hc.symm.trans hc') Bool.false_ne_true⟩
  · exact removePending_return false hG (fun _ h => h.ended) (fun _ h => h.finished)
      (fun _ _ hc => finished_of_failed hc) h

/-- **A start**: the access point is up, or it is given back. -/
theorem performStart_ok (h : Starting s) : Does Done performStart s := by
  refine (startAp_ok h).bind fun b s h => ?_
  rcases b with - | -
  · have h : Down s := h
    have hF := starting_roaming.failed
    have hfailed : ∀ s, (Starting s ∧ s.clean = false) →
        Does Done (do removePending.void; return false) s := fun s h =>
      removePending_return false hF.toEnduring (fun _ h => h.1.ended)
        (fun t h => finished_of_failed (s := t.removePending) h.2)
        (fun _ _ hc => finished_of_failed hc) h
    refine Code.load_then (fun _ => id) down_enduring.stable h fun s h => ?_
    -- where no command failed, the state is `starting`
    have hclean : s.state ≠ .starting → s.clean = false := fun hne => by
      rcases hc : s.clean with - | -
      · rfl
      · exact absurd (h.state hc) hne
    split
    · rename_i hactive
      exact hfailed s ⟨h.toStarting, hclean (by rw [hactive]; nofun)⟩
    · split
      · exact (external_void down_enduring h).bind fun _ s h => giveBack_ok ⟨h.toStarting, h.launched⟩
      · rename_i hno
        exact (setState_void hF .failed ⟨h.toStarting, hclean fun hs => hno (.inl hs)⟩).bind
          fun _ s h => hfailed s h
  · have h : Up s := h
    exact removePending_ok up_enduring (fun _ h => h.ended) (fun t h => ⟨fun _ hm => absurd hm h.moved,
      fun _ _ _ => ⟨fun _ => ⟨h.launched, h.state, rfl⟩, nofun⟩⟩) h

/-- Behind the look: `NEW_REQUEST` says what was found, and the action is a stop exactly where a
    stop was moved. -/
structure Chosen (action : Request) (s : Files) : Prop where
  inv : Inv s
  ended : s.ended = none
  launched : s.launched = false
  stop : ∀ r, s.moved = some r → (r = .stop ↔ action = .stop)
  found : s.newRequest = true → s.moved ≠ none ∧ ∃ r, s.found = some (some r)
  unfound : s.newRequest = false → s.found = some none ∧ s.moved = none ∧ s.seen = s.state

theorem chosen_enduring (action : Request) : Enduring (Chosen action) where
  inv _ h := h.inv
  asked _ r h := ⟨h.inv.ask r, h.ended, h.launched, h.stop, h.found, h.unfound⟩
  spent _ _ _ h _ := ⟨h.inv.roam h.ended _ _ _ _, h.ended, h.launched, h.stop, h.found, h.unfound⟩

theorem Chosen.stopping {action : Request} (h : Chosen action s)
    (hstop : s.newRequest = false ∨ action = .stop) : Stopping s := by
  refine ⟨h.inv, h.ended, h.launched, fun r hr => ?_⟩
  rcases hstop with hno | hstop
  · exact absurd ((h.unfound hno).2.1.symm.trans hr) nofun
  · exact (h.stop r hr).mpr hstop

/-- **The action is performed** as it may be. -/
theorem perform_ok {action : Request} (h : Chosen action s) :
    Does Done (perform action) s := by
  have hC := chosen_enduring action
  refine Code.load_then (fun _ => id) hC.stable h fun s h => ?_
  have hE : Enduring fun t : Files => Chosen action t ∧ t.newRequest = s.newRequest :=
    ⟨fun t h => h.1.inv, fun t r h => ⟨hC.asked t r h.1, h.2⟩,
      fun t o c h hc => ⟨hC.spent t o c h.1 hc, h.2⟩⟩
  refine Code.load_then (fun _ => id) hE.stable ⟨h, rfl⟩ fun s' h => ?_
  split
  · rename_i hno
    exact performStop_ok (h.1.stopping (.inl (h.2.trans hno.1)))
  · rename_i hno
    split
    · exact performStop_ok (h.1.stopping (.inr rfl))
    · rename_i hstop
      refine performStart_ok ⟨h.1.inv, h.1.ended, fun hm => hstop ((h.1.stop _ hm).mp rfl),
        fun r hr => ?_, fun hf hseen => ?_⟩
      · rcases hnew : s'.newRequest with - | -
        · exact absurd ((h.1.unfound hnew).1.symm.trans hr) nofun
        · exact (h.1.found hnew).1
      · rcases hnew : s'.newRequest with - | -
        · rw [(h.1.unfound hnew).2.2] at hseen
          exact hno ⟨h.2.symm.trans hnew, hseen.symm⟩
        · obtain ⟨r, hr⟩ := (h.1.found hnew).2
          exact absurd (hf.symm.trans hr) nofun

/-- The run has not looked yet. -/
structure Fresh (s : Files) : Prop where
  inv : Inv s
  ended : s.ended = none
  launched : s.launched = false
  newRequest : s.newRequest = false
  found : s.found = none
  moved : s.moved = none

theorem fresh_roaming : Roaming Fresh where
  inv _ h := h.inv
  asked _ r h := ⟨h.inv.ask r, h.ended, h.launched, h.newRequest, h.found, h.moved⟩
  spent _ _ _ h _ := ⟨h.inv.roam h.ended _ _ _ _, h.ended, h.launched, h.newRequest, h.found, h.moved⟩
  state _ _ h := ⟨h.inv.roam h.ended _ _ _ _, h.ended, h.launched, h.newRequest, h.found, h.moved⟩
  maintenance _ _ h := ⟨h.inv.roam h.ended _ _ _ _, h.ended, h.launched, h.newRequest, h.found, h.moved⟩

theorem Fresh.done (h : Fresh s) (b : Bool) : Done b s :=
  ⟨h.inv, h.ended, finished_of_none h.moved b⟩

/-- It has looked, and moved what it found. -/
structure Took (s : Files) : Prop where
  inv : Inv s
  ended : s.ended = none
  launched : s.launched = false
  found : s.newRequest = true →
    ∃ r, s.moved = some r ∧ s.pending = some (some r) ∧ ∃ r', s.found = some (some r')
  unfound : s.newRequest = false → s.found = some none ∧ s.moved = none ∧ s.seen = s.state

theorem took_enduring : Enduring Took where
  inv _ h := h.inv
  asked _ r h := ⟨h.inv.ask r, h.ended, h.launched, h.found, h.unfound⟩
  spent _ _ _ h _ := ⟨h.inv.roam h.ended _ _ _ _, h.ended, h.launched, h.found, h.unfound⟩

/-- It has found a request. -/
structure Found (s : Files) : Prop where
  inv : Inv s
  ended : s.ended = none
  launched : s.launched = false
  found : ∃ r, s.found = some (some r)
  moved : s.moved = none
  request : s.request ≠ none

theorem found_enduring : Enduring Found where
  inv _ h := h.inv
  asked _ r h := ⟨h.inv.ask r, h.ended, h.launched, h.found, h.moved, nofun⟩
  spent _ _ _ h _ := ⟨h.inv.roam h.ended _ _ _ _, h.ended, h.launched, h.found, h.moved, h.request⟩

theorem Fresh.look (h : Fresh s) : Inv s.look where
  queued := h.inv.queued
  kept := h.inv.kept
  taken _ _ hl := absurd (h.launched.symm.trans hl) Bool.false_ne_true
  resumed _ _ := h.launched
  executed _ hb := absurd (h.ended.symm.trans hb) nofun

/-- **A request that is moved is not lost.** -/
theorem Found.move (h : Found s) {s' : Files} (hs' : s.move = some s') : Took s' := by
  rcases hr : s.request with - | r
  · exact absurd hr h.request
  · rw [Files.move, hr] at hs'
    obtain rfl := Option.some.inj hs'
    refine ⟨⟨nofun, fun r' hlast hanswered => ?_, fun _ _ hl => ?_, fun _ _ => h.launched,
      fun _ hb => absurd (h.ended.symm.trans hb) nofun⟩, h.ended, h.launched, fun _ => ⟨r, rfl, rfl, h.found⟩, nofun⟩
    · rcases h.inv.kept r' hlast hanswered with hreq | ⟨hreq, -⟩
      · exact .inr ⟨rfl, by rw [Option.some.inj (hr.symm.trans hreq)]⟩
      · exact absurd (hr.symm.trans hreq) nofun
    · exact absurd (h.launched.symm.trans hl) Bool.false_ne_true

/-- What `takeRequest` leaves, with its status. -/
def Taken (b : Bool) (s : Files) : Prop :=
  if b then Took s else Done false s

theorem taken_enduring (b : Bool) : Enduring (Taken b) := by
  rcases b with - | -
  · exact done_enduring false
  · exact took_enduring

theorem takeRequest_ok (h : Fresh s) : Does Taken takeRequest s := by
  refine Code.rmw_then fresh_roaming.toEnduring.stable h fun s h _ => ⟨fun _ => h.look, ?_⟩
  rcases hr : s.request with - | r
  · refine ret_ok (taken_enduring true) ⟨h.look, h.ended, h.launched, ?_, ?_⟩
    · exact fun hn => absurd (h.newRequest.symm.trans hn) Bool.false_ne_true
    · exact fun _ => ⟨congrArg some hr, h.moved, rfl⟩
  · have hfound : Found s.look :=
      ⟨h.look, h.ended, h.launched, ⟨r, congrArg some hr⟩, h.moved, by
        show s.request ≠ none
        rw [hr]
        nofun⟩
    refine command_ok found_enduring taken_enduring (fun s s' hs hs' => hs.move hs') ?_ hfound
    exact fun s hs _ => ⟨hs.inv, hs.ended, finished_of_none hs.moved false⟩

theorem Took.chosen {action : Request} (h : Took s)
    (hstop : ∀ r, s.moved = some r → (r = .stop ↔ action = .stop)) : Chosen action s where
  inv := h.inv
  ended := h.ended
  launched := h.launched
  stop := hstop
  found hn := by
    obtain ⟨r, hm, -, hf⟩ := h.found hn
    exact ⟨by rw [hm]; nofun, hf⟩
  unfound := h.unfound

/-- Where the pending file has no request, none was moved. -/
theorem Took.not_moved (h : Took s) (hp : s.pending.join = none) : s.moved = none := by
  rcases hn : s.newRequest with - | -
  · exact (h.unfound hn).2.1
  · obtain ⟨r, -, hpend, -⟩ := h.found hn
    rw [hpend] at hp
    exact absurd hp nofun

/-- What is moved is what is pending. -/
theorem Took.pending (h : Took s) {r r' : Request} (hp : s.pending.join = some r)
    (hm : s.moved = some r') : r = r' := by
  rcases hn : s.newRequest with - | -
  · exact absurd ((h.unfound hn).2.1.symm.trans hm) nofun
  · obtain ⟨r₁, hmoved, hpend, -⟩ := h.found hn
    rw [hpend] at hp
    rw [← Option.some.inj (hmoved.symm.trans hm)]
    exact (Option.some.inj hp).symm

theorem performState_ok (h : Took s) (hm : s.moved = none) :
    Does Done performState s := by
  have hE : Enduring fun t => Took t ∧ t.moved = none :=
    ⟨fun t h => h.1.inv, fun t r h => ⟨took_enduring.asked t r h.1, h.2⟩,
      fun t o c h hc => ⟨took_enduring.spent t o c h.1 hc, h.2⟩⟩
  have hdone : ∀ t : Files, Took t ∧ t.moved = none → Done true t := fun t h =>
    ⟨h.1.inv, h.1.ended, finished_of_none h.2 true⟩
  have hchosen : ∀ action, ∀ t : Files, Took t ∧ t.moved = none → Chosen action t := fun action t h =>
    h.1.chosen fun _ hm => absurd (h.2.symm.trans hm) nofun
  refine Code.load_then (fun _ => id) hE.stable ⟨h, hm⟩ fun s h => ?_
  split
  · exact perform_ok (hchosen .stop s h)
  · exact perform_ok (hchosen .stop s h)
  · refine (probe_ok hE h).bind fun b s h => ?_
    rcases b with - | -
    · exact perform_ok (hchosen .start s h)
    · refine (probe_ok hE h).bind fun b s h => ?_
      rcases b with - | -
      · exact (external_void hE h).bind fun _ s h => perform_ok (hchosen .stop s h)
      · exact ret_ok (Q := Done) (done_enduring true) (hdone s h)
  · exact ret_ok (Q := Done) (done_enduring true) (hdone s h)

/-- **`apply_locked`** executes the request it moves. -/
theorem applyLocked_ok (h : Fresh s) : Does Done applyLocked s := by
  have hD := done_enduring false
  refine external_orReturn fresh_roaming.toEnduring hD h (fun s h => ?_) fun s h _ => h.done false
  refine orReturn_ok (W := Done) hD (takeRequest_ok h) (fun s h => ?_) fun s h => h
  have h : Took s := h
  refine Code.load_then (fun _ => id) took_enduring.stable h fun s h => ?_
  split
  · rename_i hp
    have hC : Chosen .start s := h.chosen fun r hm => by
      rw [← h.pending hp hm]
      exact iff_of_false nofun nofun
    exact external_orReturn (chosen_enduring .start) hD hC (fun s h => perform_ok h)
      fun s h hc => h.inv.done_of_failed h.ended hc
  · rename_i hp
    exact perform_ok (h.chosen fun r hm => by rw [h.pending hp hm])
  · rename_i hp
    exact performState_ok h (h.not_moved hp)

/-! ## 5. Any interleaving -/

/-- **The automatic start** never comes over a request that is pending. -/
theorem writePending_ok (h : Fresh s) (hp : s.pending.join = none) :
    Does (fun b s => if b then Fresh s else Done false s) writePending s := by
  have hE : Enduring fun t : Files => Fresh t ∧ t.pending.join = none :=
    ⟨fun t h => h.1.inv, fun t r h => ⟨fresh_roaming.asked t r h.1, h.2⟩,
      fun t o c h hc => ⟨fresh_roaming.spent t o c h.1 hc, h.2⟩⟩
  have hpost : ∀ b : Bool, Enduring fun t : Files => if b then Fresh t else Done false t := by
    intro b
    rcases b with - | -
    · exact done_enduring false
    · exact fresh_roaming.toEnduring
  -- a request that is not finished is in the request file
  have hwrite : ∀ (t : Files) (p : Option (Option Request)), Fresh t ∧ t.pending.join = none →
      Fresh { t with pending := p } := by
    intro t p h
    obtain ⟨ht, hp⟩ := h
    refine ⟨⟨ht.inv.queued, fun r hr hanswered => .inl ?_, ht.inv.taken, ht.inv.resumed,
      fun _ hb => absurd (ht.ended.symm.trans hb) nofun⟩, ht.ended, ht.launched, ht.newRequest,
      ht.found, ht.moved⟩
    rcases ht.inv.kept r hr hanswered with hreq | ⟨-, hpend⟩
    · exact hreq
    · rw [hpend] at hp
      exact absurd hp nofun
  refine orReturn_ok (Q := fun b t => if b then Fresh t ∧ t.pending.join = none else Done false t)
    (hpost false) (command_ok hE (fun b => ?_) (fun t t' ht ht' => ?_) (fun t ht _ => ht.1.done false)
      ⟨h, hp⟩) (fun t ht => ?_) fun t ht => ht
  · rcases b with - | -
    · exact done_enduring false
    · exact hE
  · obtain rfl := Option.some.inj ht'
    exact ⟨hwrite t _ ht, rfl⟩
  · have ht : Fresh t ∧ t.pending.join = none := ht
    refine command_ok hE hpost (fun t t' ht ht' => ?_) (fun t ht _ => ht.1.done false) ht
    obtain rfl := Option.some.inj ht'
    exact hwrite t _ ht

theorem recover_ok (mode : Bool) (h : Fresh s) : Does Done (recover mode) s := by
  have hS := fresh_roaming.toEnduring
  rcases mode with - | -
  · exact ret_ok (Q := Done) (done_enduring false) (h.done false)
  · refine Code.load_then (fun _ => id) hS.stable h fun s h => ?_
    refine Code.load_then (fun _ => id) hS.stable h fun s' h => ?_
    split
    · exact ret_ok (Q := Done) (done_enduring false) (h.done false)
    · rename_i hempty
      have hp : s'.pending.join = none := by
        rcases hj : s'.pending.join with - | r
        · rfl
        · exact absurd (.inr (by rw [hj]; rfl)) hempty
      have hE : Enduring fun t : Files => Fresh t ∧ t.pending.join = none :=
        ⟨fun t h => h.1.inv, fun t r h => ⟨hS.asked t r h.1, h.2⟩,
          fun t o c h hc => ⟨hS.spent t o c h.1 hc, h.2⟩⟩
      refine Code.load_then (fun _ => id) hE.stable ⟨h, hp⟩ fun s h => ?_
      split
      · exact ret_ok (Q := Done) (done_enduring false) (h.1.done false)
      · refine external_orReturn hE (done_enduring false) h (fun s h => ?_) fun s h _ => h.1.done false
        refine orReturn_ok (W := Done) (done_enduring false) (writePending_ok h.1 h.2) (fun s h => ?_)
          fun s h => h
        exact applyLocked_ok h

theorem failover_ok (usable : Bool) (h : Fresh s) : Does Done (failover usable) s := by
  have hS := fresh_roaming.toEnduring
  refine Code.load_then (fun _ => id) hS.stable h fun s h => ?_
  split
  · exact ret_ok (Q := Done) (done_enduring false) (h.done false)
  · refine Code.load_then (fun _ => id) hS.stable h fun s h => ?_
    refine Code.load_then (fun _ => id) hS.stable h fun s h => ?_
    split
    · exact ret_ok (Q := Done) (done_enduring false) (h.done false)
    · refine command_ok hS done_enduring (fun s s' hs hs' => ?_) (fun s hs _ => hs.done false) h
      obtain rfl := Option.some.inj hs'
      exact (fresh_roaming.maintenance s true hs).done true

theorem Inv.begin (h : Inv s) (outcomes : List Bool) : Fresh (s.begin outcomes) where
  inv :=
    { queued := h.queued
      kept := h.kept
      taken := fun _ hf => absurd hf nofun
      resumed := fun hf => absurd hf nofun
      executed := fun _ hb => absurd hb nofun }
  ended := rfl
  launched := rfl
  newRequest := rfl
  found := rfl
  moved := rfl

theorem worker_ok (job : Job) (outcomes : List Bool) (h : Inv s) :
    Does (fun _ _ => True) (worker job outcomes) s := by
  have hI : Code.Stable (Rely none) Inv := by
    intro s s' h hr
    obtain rfl | ⟨r, rfl⟩ := hr
    · exact h
    · exact h.ask r
  refine Code.store_then hI h fun s h _ => ⟨fun _ => (h.begin outcomes).inv, ?_⟩
  have hjob : Does Done job.code (s.begin outcomes) := by
    cases job with
    | apply => exact applyLocked_ok (h.begin outcomes)
    | recover mode => exact recover_ok mode (h.begin outcomes)
    | failover usable => exact failover_ok usable (h.begin outcomes)
  refine hjob.bind fun status s h => ?_
  refine Code.ok_rmw (done_enduring status).stable h fun s h _ => ⟨fun _ => ?_, fun _ _ => trivial⟩
  exact ⟨h.inv.queued, h.inv.kept, h.inv.taken, h.inv.resumed,
    fun _ hb => Option.some.inj hb ▸ h.finished⟩

/-- A requester writes one request, or none. -/
theorem request_ok (i : Nat) (r : Request) :
    (request r).Ok (Rely (some i)) (Guarantee (some i)) (fun _ _ => True) (fun _ _ => True) s :=
  fun _ _ _ => ⟨.inr ⟨r, rfl⟩, fun _ _ => trivial⟩

theorem nothing_ok (i : Nat) :
    (Code.ret () : Code Files Unit).Ok (Rely (some i)) (Guarantee (some i))
    (fun _ _ => True) (fun _ _ => True) s :=
  fun _ _ => trivial

theorem bootRequest_ok (i : Nat) (settings : Settings) (passes : Bool) :
    (bootRequest settings passes).Ok (Rely (some i)) (Guarantee (some i)) (fun _ _ => True)
      (fun _ _ => True) s := by
  rw [bootRequest]
  split
  · split
    · exact request_ok i .start
    · exact nothing_ok i
  · split
    · split
      · split
        · exact request_ok i .start
        · exact nothing_ok i
      · exact request_ok i .startOpen
    · exact nothing_ok i

/-- **Requests and runs side by side.** -/
theorem system_sound :
    Sound system Rely Guarantee (fun _ _ _ => True) Inv (fun _ _ => True) where
  other i j hij s s' _ hg := by
    match i, j with
    | none, none => exact absurd rfl hij
    | none, some _ => trivial
    | some _, none => exact hg
    | some _, some _ => trivial
  keeps i s s' hinv hg := by
    cases i with
    | none => exact hg hinv
    | some i =>
      rcases hg with rfl | ⟨r, rfl⟩
      · exact hinv
      · exact hinv.ask r
  idle _ := fun _ _ _ _ => trivial
  call i x c hc s hinv _ := by
    match i, x with
    | none, .run job outcomes =>
      cases hc
      exact worker_ok job outcomes hinv
    | some i, .start passes =>
      cases hc
      split
      · exact request_ok i .start
      · exact nothing_ok i
    | some i, .stop =>
      cases hc
      exact request_ok i .stop
    | some i, .boot settings passes =>
      cases hc
      exact bootRequest_ok i settings passes
    | some i, .button =>
      cases hc
      exact request_ok i .startOpen
    | none, .start _ => exact absurd hc nofun
    | none, .stop => exact absurd hc nofun
    | none, .boot _ _ => exact absurd hc nofun
    | none, .button => exact absurd hc nofun
    | some _, .run _ _ => exact absurd hc nofun
  bury i s hinv := by
    refine ⟨hinv, trivial, fun j _ => ?_⟩
    cases j with
    | none => exact .inl rfl
    | some _ => trivial

/-! ## 6. A run that nothing interrupts

No outcome is left to come: every command ends well. -/

section Alone

variable {α β : Type} {s' : Files}

theorem then_alone {c : Code Files α} {a : α} {k : α → Code Files β} (hc : c.alone s = (s', a)) :
    (c >>= k).alone s = (k a).alone s' := by
  rw [Code.alone_bind, hc]

theorem orReturn_alone {c d : Code Files Bool} (hc : c.alone s = (s', true)) :
    (orReturn c d).alone s = d.alone s' := then_alone hc

theorem void_alone {c : Code Files α} {a : α} (hc : c.alone s = (s', a)) :
    c.void.alone s = (s', ()) := then_alone hc

variable (hs : s.outcomes = [])
include hs

theorem command_alone {f : Files → Option Files} (hf : f s = some s') :
    (command f).alone s = (s', true) := by
  show (s.attempt f, s.succeeds f) = _
  have hsame : { s with outcomes := s.outcomes.tail } = s := by rw [hs, List.tail_nil, ← hs]
  have hgood : s.good = true := by rw [Files.good, hs]; rfl
  rw [Files.attempt, Files.succeeds, hsame, hgood, hf]
  rfl

theorem external_alone : external.alone s = (s, true) := command_alone hs rfl

theorem setState_alone (h : HotspotState) : (setState h).alone s = ({ s with state := h }, true) :=
  command_alone hs rfl

theorem removePending_alone : removePending.alone s = (s.removePending, true) :=
  command_alone hs rfl

theorem stopAp_alone : stopAp.alone s = (s, ()) := by
  have h := void_alone (external_alone hs)
  rw [stopAp, then_alone h, then_alone h, h]

theorem killStation_alone : killStation.alone s = (s, ()) := by
  have h := void_alone (external_alone hs)
  rw [killStation, then_alone h, then_alone h, h]

theorem restoreStation_alone :
    restoreStation.alone s = ({ s with state := .station, maintenance := false }, true) := by
  have hs1 : ({ s with state := .stopping } : Files).outcomes = [] := hs
  have hs2 : ({ s with state := .stopping, maintenance := false } : Files).outcomes = [] := hs
  have hmarker :=
    void_alone (command_alone (f := fun s => some { s with maintenance := false }) hs1 rfl)
  have h := external_alone hs2
  rw [restoreStation, orReturn_alone (setState_alone hs .stopping), then_alone (stopAp_alone hs1),
    then_alone (killStation_alone hs1), then_alone hmarker, then_alone (void_alone h),
    orReturn_alone h, orReturn_alone h, orReturn_alone h, setState_alone hs2 .station]

theorem restore_alone :
    restore.alone s = ({ s with state := .station, maintenance := false }.removePending, true) := by
  rw [restore, then_alone (restoreStation_alone hs)]
  exact removePending_alone hs

theorem performStop_alone : (performStop.alone s).2 = true ∧ Settled (performStop.alone s).1 := by
  have hrestore : (restore.alone s).2 = true ∧ Settled (restore.alone s).1 := by
    rw [restore_alone hs]
    exact ⟨rfl, .inr rfl, rfl⟩
  rw [performStop, Code.alone_load]
  split
  · next hst =>
    rw [Code.alone_load]
    split
    · next hm =>
      rw [then_alone (void_alone (removePending_alone hs))]
      have hm' : s.maintenance = false := by simpa using hm
      exact ⟨rfl, hst, hm'⟩
    · exact hrestore
  · exact hrestore

theorem perform_stop_alone :
    ((perform .stop).alone s).2 = true ∧ Settled ((perform .stop).alone s).1 := by
  rw [perform, Code.alone_load, Code.alone_load]
  split
  · exact performStop_alone hs
  · exact performStop_alone hs

theorem applyLocked_alone (hstop : s.request = some .stop ∨ s.request = none ∧ s.pending = some (some .stop)) :
    (applyLocked.alone s).2 = true ∧ Settled (applyLocked.alone s).1 := by
  rw [applyLocked, orReturn_alone (external_alone hs)]
  rcases hstop with hreq | ⟨hreq, hpend⟩
  · have htake : takeRequest.alone s = ({ s.look with
        request := none, pending := some (some .stop), moved := some .stop, newRequest := true }, true) := by
      have hmove : s.look.move = some { s.look with
          request := none, pending := some (some .stop), moved := some .stop, newRequest := true } := by
        simp [Files.move, Files.look, hreq]
      rw [takeRequest, Code.alone_rmw, hreq]
      exact command_alone (s := s.look) hs hmove
    rw [orReturn_alone htake, Code.alone_load]
    exact perform_stop_alone hs
  · have htake : takeRequest.alone s = (s.look, true) := by
      rw [takeRequest, Code.alone_rmw, hreq]
      rfl
    have hlook : s.look.pending.join = some .stop := by rw [Files.look, hpend]; rfl
    rw [orReturn_alone htake, Code.alone_load, hlook]
    exact perform_stop_alone hs

end Alone

/-! ## 7. What becomes of a request -/

/-- An `apply` run that nothing interrupts and whose commands all end well. -/
def applied (s : Files) : Files := ((worker .apply []).alone s).1

/-- **A stop that no run has finished** is executed by the next one. -/
theorem applied_settled (h : Inv s) (hlast : s.last = some .stop) (hopen : s.answered = false) :
    (applied s).ended = some true ∧ Settled (applied s) := by
  obtain ⟨hended, hsettled⟩ :=
    applyLocked_alone (s := s.begin []) rfl (h.kept .stop hlast hopen)
  rw [applied, worker, Code.alone_store, Code.alone_bind, Code.alone_store_last]
  exact ⟨congrArg some hended, hsettled⟩

/-- What is promised of requests. -/
structure Resolved (m : Machine (Option Nat) Files) : Prop where
  stop : m.code none = none → m.memory.last = some .stop → m.memory.answered = false →
    (∃ n, run system.step m (.call none (.run .apply []) :: List.replicate n (.step none)) =
        ⟨applied m.memory, m.code⟩) ∧
      (applied m.memory).ended = some true ∧ Settled (applied m.memory)
  replaced : m.memory.found = some (some .stop) → m.memory.launched = true →
    ∃ r, m.memory.moved = some r ∧ r ≠ .stop
  executed : m.memory.found = some (some .stop) → m.memory.moved = some .stop →
    m.memory.launched = false ∧ (m.memory.ended ≠ none → m.memory.clean = true →
      Settled m.memory ∧ m.memory.pending = none)
  started : ∀ r b, m.memory.moved = some r → r ≠ .stop → m.memory.ended = some b →
    Started b m.memory
  resumed : m.memory.found = some none → m.memory.seen = .starting ∨ m.memory.seen = .stopping →
    m.memory.launched = false

/-- **The request protocol.** Whatever requests, runs and deaths of runs came before: a stop that is
    the last request and that no run has finished is executed by an `apply` run whose commands all
    end well; a run that finds a stop when it looks executes it, or the request that has replaced
    it, of which it says truly whether the access point is up, and if it is not gives it back; a run
    that finds none and a transition under way launches no access point. -/
theorem requests_resolved (es : List (Event (Option Nat) Call)) :
    Resolved (run system.step (Machine.idle .boot) es) := by
  have hinv := system_sound.every_run inv_boot (fun _ => trivial) es
  refine ⟨fun hfree hlast hopen => ⟨?_, applied_settled hinv hlast hopen⟩, hinv.taken .stop, ?_,
    fun r b hmoved hr hended => (hinv.executed b hended).2 r hmoved hr, hinv.resumed⟩
  · exact system.run_call _ none hfree rfl
  · intro hfound hmoved
    refine ⟨?_, fun hended hclean => ?_⟩
    · rcases hl : (run system.step (Machine.idle .boot) es).memory.launched with - | -
      · rfl
      · obtain ⟨r, hr, hne⟩ := hinv.taken .stop hfound hl
        exact absurd (Option.some.inj (hr.symm.trans hmoved)) hne
    · obtain ⟨b, hb⟩ := Option.ne_none_iff_exists'.mp hended
      exact (hinv.executed b hb).1 hclean hmoved

/-- The files after a maintenance session, a stop, and a run in which there is no primary
    profile. -/
def givenUp : Files :=
  let session := ((worker (.failover true) []).alone .boot).1
  let stopped := session.ask .stop
  ((worker .apply (List.replicate 11 true ++ [false])).alone stopped).1

theorem applied_givenUp : givenUp.last = some .stop ∧ (applied givenUp).state = .failed :=
  ⟨rfl, rfl⟩

/-- The session, the stop and the run, one after the other. -/
theorem givenUp_reached : ∃ es : List (Event (Option Nat) Call),
    run system.step (Machine.idle .boot) es = Machine.idle givenUp := by
  let session := ((worker (.failover true) []).alone .boot).1
  obtain ⟨n, hn⟩ :=
    system.run_call (Machine.idle Files.boot) none (x := .run (.failover true) []) rfl rfl
  obtain ⟨k, hk⟩ := system.run_call (Machine.idle session) (some 0) (x := .stop) rfl rfl
  obtain ⟨l, hl⟩ := system.run_call (Machine.idle (session.ask .stop)) none
    (x := .run .apply (List.replicate 11 true ++ [false])) rfl rfl
  refine ⟨(.call none (.run (.failover true) []) :: List.replicate n (.step none)) ++
    (.call (some 0) .stop :: List.replicate k (.step (some 0))) ++
    (.call none (.run .apply (List.replicate 11 true ++ [false])) :: List.replicate l (.step none)), ?_⟩
  rw [run_append, run_append, hn]
  exact (congrArg (fun m => run system.step m _) hk).trans hl

/-- A stop is not taken up again by any run, once the state is `failed`. -/
theorem stop_given_up : ¬ ∀ es : List (Event (Option Nat) Call),
    let m := run system.step (Machine.idle .boot) es
    m.code none = none → m.memory.last = some .stop → Settled (applied m.memory) := by
  intro h
  obtain ⟨es, hes⟩ := givenUp_reached
  have hm := h es
  rw [hes] at hm
  rcases (hm rfl applied_givenUp.1).1 with hs | hs
  · exact absurd (applied_givenUp.2.symm.trans hs) nofun
  · exact absurd (applied_givenUp.2.symm.trans hs) nofun

end YiHack.Hotspot
