/-
  File:      YiHack/Wifi/Gating.lean
  Subject:   No recovery before its time, as long as no worker is launched by a stale counter.

  A counter that is not stale counts at most what the notes count, and the outage began no earlier
  than they say (`Inv`). The other processes leave the watchdog's variables alone.

  * `change_guarantees` -- what happens at any moment;
  * `checkPrimary_ok`, `checkSession_ok` -- the two branches;
  * **`recoveries_due`** -- over every run whose launches are heedful;
  * `recoveries_not_due` -- counters that survive a maintenance session.
-/
import YiHack.Wifi.Watchdog

namespace YiHack.Wifi

open General

/-! ## 1. The invariant -/

structure Inv (s : Radio) : Prop where
  positive : 0 < s.uptime
  readable : s.readable = true
  since : s.since ≤ s.uptime
  idle : s.failsafeCounter = 0 → s.failsafeStarted = 0
  primary : s.primaryStale = false → s.failsafeCounter ≤ s.misses ∧
    (s.failsafeStarted ≠ 0 → s.since ≤ s.failsafeStarted)
  session : s.sessionStale = false → s.maintenanceCounter ≤ s.sessionMisses
  launched : ∀ l ∈ s.launched, l.Due

theorem Started.inv {s : Radio} (h : Started s) : Inv s where
  positive := h.uptime
  readable := h.readable
  since := Nat.le_of_eq h.since
  idle _ := h.failsafeStarted
  primary _ := ⟨h.failsafeCounter ▸ Nat.zero_le _, fun h0 => absurd h.failsafeStarted h0⟩
  session _ := h.maintenanceCounter ▸ Nat.zero_le _
  launched l hl := absurd hl (by rw [h.launched]; exact List.not_mem_nil)

/-- The watchdog's variables stay, the clock does not go back. -/
structure Kept (s s' : Radio) : Prop where
  counter : s'.failsafeCounter = s.failsafeCounter
  started : s'.failsafeStarted = s.failsafeStarted
  maintenance : s'.maintenanceCounter = s.maintenanceCounter
  launched : s'.launched = s.launched
  uptime : s.uptime ≤ s'.uptime

/-- What `me` relies on: the watchdog on its variables. -/
def Rely : Option Nat → Radio → Radio → Prop
  | none, s, s' => Inv s' ∧ Kept s s'
  | some _, _, s' => Inv s'

/-- What `me` guarantees. -/
def Guarantee : Option Nat → Radio → Radio → Prop
  | none, s, s' => Inv s → Inv s'
  | some _, s, s' => (Inv s → Inv s') ∧ Kept s s'

/-- A thread in slot `me`. -/
abbrev Does {α : Type} (me : Option Nat) (Q : α → Radio → Prop) (c : Code Radio α) (s : Radio) :
    Prop :=
  Code.Ok (Rely me) (Guarantee me) Heedful Q c s

variable {me : Option Nat} {s s' : Radio}

theorem Kept.refl (s : Radio) : Kept s s := ⟨rfl, rfl, rfl, rfl, Nat.le_refl _⟩

theorem Guarantee.refl (me : Option Nat) (s : Radio) : Guarantee me s s := by
  cases me with
  | none => exact id
  | some i => exact ⟨id, .refl s⟩

theorem Rely.inv (h : Rely me s s') : Inv s' := by
  cases me with
  | none => exact h.1
  | some i => exact h

theorem stable_inv : Code.Stable (Rely me) Inv := fun _ _ _ hr => hr.inv

/-! ## 2. The other processes -/

theorem enter_guarantees (i : Nat) (s : Radio) : Guarantee (some i) s s.enter := by
  unfold Radio.enter
  split
  · refine ⟨fun h => { h with session := fun hfresh => ?_ }, ⟨rfl, rfl, rfl, rfl, Nat.le_refl _⟩⟩
    have h0 : s.maintenanceCounter = 0 := by simpa using hfresh
    exact Nat.le_of_eq h0
  · exact ⟨fun h => { h with }, ⟨rfl, rfl, rfl, rfl, Nat.le_refl _⟩⟩

theorem exit_guarantees (i : Nat) (s : Radio) : Guarantee (some i) s s.exit := by
  unfold Radio.exit
  split
  · exact .refl (some i) s
  · refine ⟨fun h => { h with
      since := Nat.le_refl _
      primary := fun hfresh => ?_ }, ⟨rfl, rfl, rfl, rfl, Nat.le_refl _⟩⟩
    have h0 : s.failsafeCounter = 0 := by simpa using hfresh
    exact ⟨Nat.le_of_eq h0, fun hne => absurd (h.idle h0) hne⟩

theorem setState_guarantees (i : Nat) (h : HotspotState) (s : Radio) :
    Guarantee (some i) s (s.setState h) :=
  ⟨fun hinv => { hinv with }, ⟨rfl, rfl, rfl, rfl, Nat.le_refl _⟩⟩

/-- **What may happen at any moment.** -/
theorem change_guarantees (i : Nat) (c : Change) (s : Radio) :
    Guarantee (some i) s (c.apply s) := by
  cases c with
  | setState h => exact setState_guarantees i h s
  | request queued => exact ⟨fun h => { h with }, ⟨rfl, rfl, rfl, rfl, Nat.le_refl _⟩⟩
  | pending queued => exact ⟨fun h => { h with }, ⟨rfl, rfl, rfl, rfl, Nat.le_refl _⟩⟩
  | enter => exact enter_guarantees i s
  | exit => exact exit_guarantees i s
  | pass seconds =>
    refine ⟨fun h => { h with
      positive := Nat.lt_of_lt_of_le h.positive (Nat.le_add_right _ _)
      since := Nat.le_trans h.since (Nat.le_add_right _ _) }, ?_⟩
    exact ⟨rfl, rfl, rfl, rfl, Nat.le_add_right _ _⟩

/-- A store of another process. -/
theorem store_other {i : Nat} {Q : Unit → Radio → Prop} {f : Radio → Radio}
    {k : Unit → Code Radio Unit} (hf : ∀ s, Guarantee (some i) s (f s)) (h : Inv s)
    (hk : ∀ s, Inv s → Does (some i) Q (k ()) s) : Does (some i) Q (Code.store f >>= k) s :=
  Code.store_then stable_inv h fun s h _ => ⟨hf s, hk _ ((hf s).1 h)⟩

theorem last_other {i : Nat} {f : Radio → Radio} (hf : ∀ s, Guarantee (some i) s (f s)) (h : Inv s) :
    Does (some i) (fun _ _ => True) (Code.store f) s :=
  Code.ok_rmw stable_inv h fun s _ _ => ⟨hf s, fun _ _ => trivial⟩

theorem restoreStation_ok (i : Nat) (restored : Bool) (h : Inv s) :
    Does (some i) (fun _ _ => True) (restoreStation restored) s :=
  store_other (setState_guarantees i _) h fun _ h =>
    store_other (exit_guarantees i) h fun _ h => last_other (setState_guarantees i _) h

theorem wifiFailover_ok (i : Nat) (usable : Bool) (h : Inv s) :
    Does (some i) (fun _ _ => True) (wifiFailover usable) s := by
  refine Code.load_then (.refl _) stable_inv h fun s h => ?_
  split
  · exact fun _ _ => trivial
  · refine Code.load_then (.refl _) stable_inv h fun t h => ?_
    refine Code.load_then (.refl _) stable_inv h fun u h => ?_
    split
    · exact fun _ _ => trivial
    · exact last_other (enter_guarantees i) h

/-! ## 3. The watchdog -/

theorem effectiveGrace_range (grace : Bytes) :
    30 ≤ effectiveGrace grace ∧ effectiveGrace grace ≤ 3600 := by
  simp only [effectiveGrace]
  generalize (if isDecimal grace then decimal grace else 180) = n
  by_cases hn : 30 ≤ n ∧ n < 2 ^ 63
  · rw [if_pos hn]
    split <;> omega
  · rw [if_neg hn]
    decide

theorem Inv.reset (h : Inv s) : Inv s.reset where
  positive := h.positive
  readable := h.readable
  since := Nat.le_refl _
  idle _ := rfl
  primary _ := ⟨Nat.le_refl _, fun h0 => absurd rfl h0⟩
  session := h.session
  launched := h.launched

theorem Inv.seeHotspot (h : Inv s) : Inv s.seeHotspot := by
  unfold Radio.seeHotspot
  split
  · exact h.reset
  · exact h

/-- A worker is launched when it is due. -/
theorem Inv.launch {l : Launch} (h : Inv s) (hl : l.Due) : Inv (s.launch l) :=
  { h with
    launched := fun l' hl' => by
      rcases List.mem_cons.mp hl' with rfl | hl'
      · exact hl
      · exact h.launched l' hl' }

/-- What is launched is not launched by a stale counter. -/
theorem Heedful.fresh {l : Launch} (h : Heedful s (s.launch l)) : l.stale s = false :=
  h l (Option.mem_some_self l) (Nat.lt_succ_self _)

/-- The last action of a run. -/
theorem last_own {f : Radio → Radio} {P : Radio → Prop} (hP : Code.Stable (Rely none) P) (h : P s)
    (hf : ∀ s, P s → Heedful s (f s) → Inv s → Inv (f s)) :
    Does none (fun _ _ => True) (Code.store f) s :=
  Code.ok_rmw hP h fun s h ha => ⟨hf s h ha, fun _ _ => trivial⟩

/-- **The maintenance branch.** -/
theorem checkSession_ok (o : Outcomes) (h : Inv s) :
    Does none (fun _ _ => True) (checkSession o) s := by
  unfold checkSession
  split
  · exact last_own stable_inv h fun s h _ _ => { h with session := fun _ => Nat.le_refl _ }
  · split
    · exact last_own stable_inv h fun s h _ _ => h.launch nofun
    · refine Code.rmw_then stable_inv h fun s h _ => ⟨fun _ => ?_, ?_⟩
      · exact { h with session := fun hfresh => Nat.succ_le_succ (h.session hfresh) }
      · have h' : Inv s.countSession :=
          { h with session := fun hfresh => Nat.succ_le_succ (h.session hfresh) }
        refine last_own (P := fun t => Inv t ∧ t.maintenanceCounter = s.maintenanceCounter + 1)
          (stable_inv.and fun t t' ht hr => hr.2.maintenance.trans ht) ⟨h', rfl⟩
          fun t ⟨ht, hcounter⟩ hheed _ => ht.launch fun hreboot => ?_
        split at hreboot
        · next hsix =>
          have hfresh : t.sessionStale = false := by
            have := hheed.fresh
            rwa [if_pos hsix] at this
          have := ht.session hfresh
          omega
        · exact absurd hreboot nofun

/-- **The primary branch.** -/
theorem checkPrimary_ok (o : Outcomes) (h : Inv s) :
    Does none (fun _ _ => True) (checkPrimary o) s := by
  unfold checkPrimary
  split
  · exact last_own stable_inv h fun s h _ _ => h.reset
  · have hcount : ∀ s, Inv s → Inv s.countPrimary := fun s h =>
      { h with
        idle := fun h0 => absurd h0 (Nat.succ_ne_zero _)
        primary := fun hfresh => ⟨Nat.succ_le_succ (h.primary hfresh).1, (h.primary hfresh).2⟩ }
    refine Code.store_then stable_inv h fun s h _ => ⟨hcount s, ?_⟩
    refine Code.rmw_then (P := fun t => Inv t ∧ t.failsafeCounter ≠ 0)
      (stable_inv.and fun t t' ht hr => by rw [hr.2.counter]; exact ht)
      ⟨hcount s h, Nat.succ_ne_zero _⟩ fun t ⟨ht, hne⟩ _ => ?_
    have hnow : t.now = t.uptime := by simp only [Radio.now, ht.readable, if_true]
    -- The outage began at the clock's present value, or when it began before.
    have hstart : Inv t.start := by
      refine { ht with
        idle := fun h0 => absurd h0 hne
        primary := fun hfresh => ⟨(ht.primary hfresh).1, fun _ => ?_⟩ }
      show t.since ≤ if t.failsafeStarted = 0 then t.now else t.failsafeStarted
      split
      · rw [hnow]
        exact ht.since
      · next h0 => exact (ht.primary hfresh).2 h0
    have hstarted : t.start.failsafeStarted ≠ 0 := by
      simp only [Radio.start, hnow]
      have := ht.positive
      split <;> omega
    refine ⟨fun _ => hstart, ?_⟩
    split
    · next hdue =>
      obtain ⟨hgrace, hsix⟩ := hdue
      simp only [Radio.lostSeconds, hnow] at hgrace
      refine last_own (P := fun u => Inv u ∧ u.failsafeCounter = t.failsafeCounter ∧
          u.failsafeStarted = t.start.failsafeStarted ∧ t.uptime ≤ u.uptime)
        (stable_inv.and fun u u' hu hr => ⟨hr.2.counter.trans hu.1, hr.2.started.trans hu.2.1,
          Nat.le_trans hu.2.2 hr.2.uptime⟩)
        ⟨hstart, rfl, rfl, Nat.le_refl _⟩ fun u ⟨hu, hcounter, hbegan, huptime⟩ hheed _ => ?_
      obtain ⟨hmisses, hsince⟩ := hu.primary hheed.fresh
      have hrange := effectiveGrace_range o.grace
      have := hsince (by rw [hbegan]; exact hstarted)
      exact hu.launch ⟨by omega, by omega, hrange.1, hrange.2⟩
    · exact last_own stable_inv hstart fun s h _ _ => h.launch trivial

theorem checkWifi_ok (o : Outcomes) (h : Inv s) : Does none (fun _ _ => True) (checkWifi o) s := by
  refine Code.rmw_then stable_inv h fun s h _ => ⟨fun _ => h.seeHotspot, ?_⟩
  split
  · exact fun _ _ => trivial
  · refine Code.load_then (Guarantee.refl none) stable_inv h.seeHotspot fun t h => ?_
    refine Code.load_then (Guarantee.refl none) stable_inv h fun u h => ?_
    split
    · exact fun _ _ => trivial
    · refine Code.load_then (Guarantee.refl none) stable_inv h fun v h => ?_
      split
      · exact checkPrimary_ok o h
      · exact checkSession_ok o h

/-! ## 4. Any interleaving -/

theorem system_sound :
    Sound system Rely Guarantee (fun _ => Heedful) Inv (fun _ _ => True) where
  other i j hij s s' hinv hg := by
    match i, j with
    | none, none => exact absurd rfl hij
    | none, some j => exact hg hinv
    | some i, none => exact ⟨hg.1 hinv, hg.2⟩
    | some i, some j => exact hg.1 hinv
  keeps i s s' hinv hg := by
    cases i with
    | none => exact hg hinv
    | some i => exact hg.1 hinv
  idle _ := fun _ _ _ _ => trivial
  call i x c hc s hinv _ := by
    match i, x with
    | none, .check o =>
      cases hc
      exact checkWifi_ok o hinv
    | some i, .change c =>
      cases hc
      exact last_other (change_guarantees i c) hinv
    | some i, .restoreStation restored =>
      cases hc
      exact restoreStation_ok i restored hinv
    | some i, .wifiFailover usable =>
      cases hc
      exact wifiFailover_ok i usable hinv
    | none, .change _ => exact absurd hc nofun
    | none, .restoreStation _ => exact absurd hc nofun
    | none, .wifiFailover _ => exact absurd hc nofun
    | some _, .check _ => exact absurd hc nofun
  bury i s hinv := by
    refine ⟨hinv, trivial, fun j _ => ?_⟩
    cases j with
    | none => exact ⟨hinv, .refl s⟩
    | some j => exact hinv

/-- **No recovery before its time.** From the start of the watchdog, whatever its runs find and
    whatever the other processes do at any moment: as long as no worker is launched by a counter
    kept from before the end of the last maintenance session, and no reboot by one kept from before
    the beginning of this session, the workers of the primary branch are launched after six misses
    and the grace period, and a reboot after six failed checks of the session. -/
theorem recoveries_due (s : Radio) (hs : Started s) (es : List (Event (Option Nat) Call))
    (hheed : StepsMeet system.step
      (fun m e => Heedful m.memory (system.step m e).memory) (Machine.idle s) es) :
    ∀ l ∈ (run system.step (Machine.idle s) es).memory.launched, l.Due :=
  (system_sound.run hs.inv (fun _ => trivial)
    (hheed.mono fun _ _ h => Machine.meets_of_step h)).launched

/-- A minute and a half after power-on. -/
def sampleRadio : Radio where
  hotspot := .station
  request := false
  pending := false
  maintenance := .absent
  uptime := 100
  readable := true
  failsafeCounter := 0
  failsafeStarted := 0
  maintenanceCounter := 0
  misses := 0
  since := 100
  sessionMisses := 0
  primaryStale := false
  sessionStale := false
  launched := []

theorem started_sampleRadio : Started sampleRadio :=
  ⟨by decide, rfl, rfl, rfl, rfl, rfl, rfl, rfl, rfl⟩

/-- Nothing is connected. -/
def nothing : Outcomes := ⟨false, false, true, ascii "30"⟩

/-- A run of the watchdog that nobody interrupts. -/
def checked : List (Event (Option Nat) Call) :=
  .call none (.check nothing) :: List.replicate 7 (.step none)

def changed (c : Change) : List (Event (Option Nat) Call) :=
  [.call (some 0) (.change c), .step (some 0)]

/-- Six misses within 40 seconds. -/
def outage : List (Event (Option Nat) Call) :=
  (List.replicate 5 checked).flatten ++ changed (.pass 40) ++ checked

theorem recoveries_due_once :
    (run system.step (Machine.idle sampleRadio) outage).memory.launched ≠ [] ∧
      ∀ l ∈ (run system.step (Machine.idle sampleRadio) outage).memory.launched, l.Due :=
  ⟨by decide, recoveries_due sampleRadio started_sampleRadio outage (by decide)⟩

/-- Five misses, a maintenance session of 40 seconds, one miss. -/
def stalePrimary : List (Event (Option Nat) Call) :=
  (List.replicate 5 checked).flatten ++ changed .enter ++ changed (.pass 40) ++ changed .exit ++ checked

/-- Five failed checks of a session, and one of the next session. -/
def staleSession : List (Event (Option Nat) Call) :=
  changed .enter ++ (List.replicate 5 checked).flatten ++ changed .exit ++ changed .enter ++ checked

/-- **The counters survive a maintenance session**: a recovery is launched after one miss, and a
    reboot after one failed check. -/
theorem recoveries_not_due :
    (¬ ∀ (s : Radio) (es : List (Event (Option Nat) Call)), Started s →
      ∀ w misses since uptime grace,
        .primary w misses since uptime grace ∈ (run system.step (Machine.idle s) es).memory.launched →
        6 ≤ misses ∧ since + grace ≤ uptime) ∧
    ¬ ∀ (s : Radio) (es : List (Event (Option Nat) Call)), Started s →
      ∀ misses, .session .reboot misses ∈ (run system.step (Machine.idle s) es).memory.launched →
        6 ≤ misses := by
  constructor
  · intro h
    have hlaunch : .primary .failover 1 140 140 30 ∈
        (run system.step (Machine.idle sampleRadio) stalePrimary).memory.launched := by decide +kernel
    have hdue := h sampleRadio stalePrimary started_sampleRadio _ _ _ _ _ hlaunch
    exact absurd hdue.1 (by decide)
  · intro h
    have hlaunch : .session .reboot 1 ∈
        (run system.step (Machine.idle sampleRadio) staleSession).memory.launched := by decide
    have hdue := h sampleRadio staleSession started_sampleRadio _ hlaunch
    exact absurd hdue (by decide)

end YiHack.Wifi
