/-
  File:      YiHack/Record/History.lean
  Subject:   `motion_metadata_events.c`: the history of motion transitions in shared memory.

  The history keeps a baseline (a state and since when it is known) and the newest 512
  transitions after it. `motion_history_add` drops an observation that repeats the last state,
  and turns the oldest transition into the baseline where the ring is full.

  Over it stands what the history is about, the observations themselves: `transitions` are those
  that change the state, `stateAt` is the state in force at a time. `Represents` says what a
  history holds of them: the transitions are some old ones, the last of which is the baseline,
  followed by the ring (`represents_run`).
-/
import YiHack.General.Ring
import YiHack.General.Run

namespace YiHack.Record

open General (Ring run)

/-! ## 1. The history -/

/-- `struct motion_event`. -/
structure MotionEvent where
  unixMs : Int
  state : Int
  deriving DecidableEq, Repr

def EVENT_CAPACITY : Nat := 512

/-- `struct motion_history`; `events` holds its `first`, `count` and `events`. -/
structure MotionHistory where
  baselineState : Int
  baselineIsSample : Bool
  baselineMs : Int
  lastState : Int
  events : Ring MotionEvent EVENT_CAPACITY

/-- `motion_history_add`. -/
def motionHistoryAdd (h : MotionHistory) (state unixMs : Int) : MotionHistory :=
  if state = h.lastState then h
  else
    let h :=
      if h.events.count = EVENT_CAPACITY then
        { h with
          baselineMs := (h.events.get 0).unixMs
          baselineState := (h.events.get 0).state
          baselineIsSample := false }
      else h
    { h with events := h.events.push ⟨unixMs, state⟩, lastState := state }

/-- `motion_history_observe`, with the writer mapped. -/
def motionHistoryObserve (h : MotionHistory) (e : MotionEvent) : MotionHistory :=
  if e.state = h.lastState then h else motionHistoryAdd h e.state e.unixMs

/-- What `motion_history_start` finds: the model, the first byte of `/tmp/motion.state` and
    whether the notify server's alarm file is there. -/
structure StartEnv where
  model : String
  motionState : Option Char
  motionAlarm : Bool
  now : Int

/-- The baseline state `motion_history_start` settles on. -/
def baselineStateOf (e : StartEnv) : Int :=
  if e.model = "y623" then
    match e.motionState with
    | some '0' => 0
    | some '1' => 1
    | _ => -1
  else if e.model = "y28ga" then (if e.motionAlarm then 1 else 0)
  else -1

/-- A history with the baseline `state` since `ms` and no transition. -/
def historyInit (state ms : Int) : MotionHistory where
  baselineState := state
  baselineIsSample := true
  baselineMs := ms
  lastState := state
  events := Ring.empty (fun _ => ⟨0, 0⟩) (by decide)

/-- `motion_history_start`. -/
def motionHistoryStart (e : StartEnv) : MotionHistory := historyInit (baselineStateOf e) e.now

/-- The history after the observations `obs`. -/
def historyRun (state ms : Int) (obs : List MotionEvent) : MotionHistory :=
  run motionHistoryObserve (historyInit state ms) obs

/-! ## 2. The observations -/

/-- The observations that change the state, from the state `s` on. -/
def transitions (s : Int) : List MotionEvent → List MotionEvent
  | [] => []
  | e :: es => if e.state = s then transitions s es else e :: transitions e.state es

/-- The state after `es`. -/
def finalState (s : Int) (es : List MotionEvent) : Int := es.foldl (fun _ e => e.state) s

/-- The state in force at `t`: that of the last entry not after `t`, or `s`. -/
def stateAt (s : Int) (es : List MotionEvent) (t : Int) : Int :=
  es.foldl (fun s e => if e.unixMs ≤ t then e.state else s) s

/-- Nondecreasing times, none before `t₀`. -/
def Timely (t₀ : Int) (es : List MotionEvent) : Prop :=
  es.Pairwise (fun a b => a.unixMs ≤ b.unixMs) ∧ ∀ e ∈ es, t₀ ≤ e.unixMs

theorem stateAt_append (s : Int) (a b : List MotionEvent) (t : Int) :
    stateAt s (a ++ b) t = stateAt (stateAt s a t) b t := List.foldl_append

@[simp] theorem stateAt_nil (s t : Int) : stateAt s [] t = s := rfl

@[simp] theorem stateAt_cons (s : Int) (e : MotionEvent) (es : List MotionEvent) (t : Int) :
    stateAt s (e :: es) t = stateAt (if e.unixMs ≤ t then e.state else s) es t := rfl

/-- Entries after `t` do not count at `t`. -/
theorem stateAt_late {es : List MotionEvent} {t : Int} (h : ∀ e ∈ es, t < e.unixMs) (s : Int) :
    stateAt s es t = s := by
  induction es generalizing s with
  | nil => rfl
  | cons e es ih =>
    have he := h e (by simp)
    rw [stateAt_cons, if_neg (by omega), ih fun x hx => h x (by simp [hx])]

/-- Where every entry counts, the last one decides. -/
theorem stateAt_all {es : List MotionEvent} {t : Int} (h : ∀ e ∈ es, e.unixMs ≤ t) (s : Int) :
    stateAt s es t = finalState s es := by
  induction es generalizing s with
  | nil => rfl
  | cons e es ih =>
    rw [stateAt_cons, if_pos (h e (by simp)), ih fun x hx => h x (by simp [hx])]
    rfl

theorem Timely.append {t₀ : Int} {a b : List MotionEvent} (h : Timely t₀ (a ++ b)) :
    Timely t₀ a ∧ Timely t₀ b ∧ ∀ x ∈ a, ∀ y ∈ b, x.unixMs ≤ y.unixMs := by
  obtain ⟨hp, hm⟩ := h
  obtain ⟨ha, hb, hab⟩ := List.pairwise_append.mp hp
  exact ⟨⟨ha, fun e he => hm e (by simp [he])⟩, ⟨hb, fun e he => hm e (by simp [he])⟩, hab⟩

theorem transitions_sublist (s : Int) (es : List MotionEvent) :
    (transitions s es).Sublist es := by
  induction es generalizing s with
  | nil => exact .slnil
  | cons e es ih =>
    unfold transitions
    split
    · exact (ih s).cons e
    · exact (ih e.state).cons_cons e

theorem Timely.transitions {t₀ : Int} {es : List MotionEvent} (h : Timely t₀ es) (s : Int) :
    Timely t₀ (transitions s es) :=
  ⟨h.1.sublist (transitions_sublist s es), fun e he => h.2 e ((transitions_sublist s es).subset he)⟩

/-- The final state is that of the last transition. -/
theorem finalState_transitions (s : Int) (es : List MotionEvent) :
    finalState s (transitions s es) = finalState s es := by
  induction es generalizing s with
  | nil => rfl
  | cons e es ih =>
    unfold transitions
    split
    · rename_i h
      rw [ih s]
      simp [finalState, h]
    · exact ih e.state

theorem transitions_append (s : Int) (a b : List MotionEvent) :
    transitions s (a ++ b) = transitions s a ++ transitions (finalState s a) b := by
  induction a generalizing s with
  | nil => rfl
  | cons e a ih =>
    simp only [List.cons_append, transitions]
    split
    · rename_i h
      rw [ih s]
      simp [finalState, h]
    · rw [ih e.state]
      rfl

/-- **Repeated observations change no state**: the transitions alone give the state in force. -/
theorem stateAt_transitions {t₀ : Int} {es : List MotionEvent} (h : Timely t₀ es) (s t : Int) :
    stateAt s (transitions s es) t = stateAt s es t := by
  induction es generalizing s with
  | nil => rfl
  | cons e es ih =>
    have hes : Timely t₀ es := ⟨(List.pairwise_cons.mp h.1).2, fun x hx => h.2 x (by simp [hx])⟩
    unfold transitions
    split
    · rename_i he
      rw [ih hes, stateAt_cons, he, ite_self]
    · by_cases ht : e.unixMs ≤ t
      · rw [stateAt_cons, stateAt_cons, if_pos ht, ih hes]
      · have hlate : ∀ x ∈ es, t < x.unixMs := fun x hx => by
          have := (List.pairwise_cons.mp h.1).1 x hx
          omega
        rw [stateAt_cons, stateAt_cons, if_neg ht, stateAt_late hlate,
          stateAt_late fun x hx => hlate x ((transitions_sublist _ _).subset hx)]

/-! ## 3. What a history holds -/

/-- `h` holds the transitions `T` after the baseline `(s₀, t₀)`: `old` are those that left the
    ring, the last of them the baseline. -/
structure Represents (s₀ t₀ : Int) (T old : List MotionEvent) (h : MotionHistory) : Prop where
  split : T = old ++ h.events.toList
  last : h.lastState = finalState s₀ T
  fresh : old = [] → h.baselineState = s₀ ∧ h.baselineMs = t₀ ∧ h.baselineIsSample = true
  baseline : old ≠ [] → old.getLast? = some ⟨h.baselineMs, h.baselineState⟩ ∧
    h.baselineIsSample = false
  full : old ≠ [] → h.events.count = EVENT_CAPACITY

/-- **An observation that changes the state adds a transition; any other adds none.** -/
theorem represents_observe {s₀ t₀ : Int} {T old : List MotionEvent} {h : MotionHistory}
    (hR : Represents s₀ t₀ T old h) (e : MotionEvent) :
    ∃ old', Represents s₀ t₀ (T ++ transitions (finalState s₀ T) [e]) old'
      (motionHistoryObserve h e) := by
  obtain ⟨hsplit, hlast, hfresh, hbase, hfull⟩ := hR
  unfold motionHistoryObserve
  by_cases he : e.state = h.lastState
  · refine ⟨old, ?_⟩
    rw [if_pos he, transitions, if_pos (he.trans hlast), transitions, List.append_nil]
    exact ⟨hsplit, hlast, hfresh, hbase, hfull⟩
  · have e1 : transitions (finalState s₀ T) [e] = [e] := by
      rw [transitions, if_neg (hlast ▸ he), transitions]
    rw [if_neg he, e1]
    unfold motionHistoryAdd
    rw [if_neg he]
    by_cases hc : h.events.count = EVENT_CAPACITY
    · -- the oldest entry of the full ring becomes the baseline
      have hcons := h.events.toList_cons (by rw [hc]; decide)
      refine ⟨old ++ [h.events.get 0], ?_, by simp [finalState], by simp, fun _ => ?_, fun _ => ?_⟩
      · simp only [Ring.toList_push, hc, if_true]
        rw [hsplit, hcons]
        simp
      · simp [hc]
      · simp [hc, Ring.push_count]
    · refine ⟨old, ?_, by simp [finalState], ?_, ?_, fun hne => absurd (hfull hne) hc⟩
      · simp only [Ring.toList_push, hc, if_false]
        rw [hsplit]
        simp
      · simpa [hc] using hfresh
      · simpa [hc] using hbase

/-- **The history after any observations** holds their transitions. -/
theorem represents_run (s₀ t₀ : Int) (obs : List MotionEvent) :
    ∃ old, Represents s₀ t₀ (transitions s₀ obs) old (historyRun s₀ t₀ obs) := by
  induction obs using List.reverseRecOn with
  | nil =>
    exact ⟨[], rfl, rfl, fun _ => ⟨rfl, rfl, rfl⟩, fun h => absurd rfl h, fun h => absurd rfl h⟩
  | append_singleton obs e ih =>
    obtain ⟨old, hR⟩ := ih
    obtain ⟨old', hR'⟩ := represents_observe hR e
    refine ⟨old', ?_⟩
    rw [transitions_append, ← finalState_transitions s₀ obs]
    simpa [historyRun] using hR'

/-- The transitions that left the ring end no later than the baseline. -/
theorem Represents.old_le {s₀ t₀ : Int} {T old : List MotionEvent} {h : MotionHistory}
    (hR : Represents s₀ t₀ T old h) (hT : Timely t₀ T) : ∀ e ∈ old, e.unixMs ≤ h.baselineMs := by
  intro e he
  have hne : old ≠ [] := List.ne_nil_of_mem he
  obtain ⟨hlast, -⟩ := hR.baseline hne
  obtain ⟨ys, rfl⟩ := List.getLast?_eq_some_iff.mp hlast
  rw [hR.split] at hT
  obtain ⟨hold, -, -⟩ := hT.append
  obtain ⟨-, -, hys⟩ := hold.append
  rcases List.mem_append.mp he with he | he
  · exact hys e he _ (List.mem_singleton_self _)
  · cases List.mem_singleton.mp he
    exact Int.le_refl _

/-- The ring begins no earlier than the baseline, and the baseline no earlier than the start. -/
theorem Represents.baseline_le {s₀ t₀ : Int} {T old : List MotionEvent} {h : MotionHistory}
    (hR : Represents s₀ t₀ T old h) (hT : Timely t₀ T) :
    t₀ ≤ h.baselineMs ∧ ∀ e ∈ h.events.toList, h.baselineMs ≤ e.unixMs := by
  by_cases hne : old = []
  · obtain ⟨-, hb, -⟩ := hR.fresh hne
    refine ⟨by omega, fun e he => ?_⟩
    have := hT.2 e (by rw [hR.split]; simp [he])
    omega
  · obtain ⟨hlast, -⟩ := hR.baseline hne
    have hmem := List.mem_of_getLast? hlast
    rw [hR.split] at hT
    obtain ⟨hold, -, hle⟩ := hT.append
    exact ⟨hold.2 _ hmem, fun e he => hle _ hmem e he⟩

/-- The baseline state is the state after the transitions that left the ring. -/
theorem Represents.baselineState_eq {s₀ t₀ : Int} {T old : List MotionEvent} {h : MotionHistory}
    (hR : Represents s₀ t₀ T old h) : h.baselineState = finalState s₀ old := by
  by_cases hne : old = []
  · rw [hne, (hR.fresh hne).1]
    rfl
  · obtain ⟨ys, hys⟩ := List.getLast?_eq_some_iff.mp (hR.baseline hne).1
    rw [hys]
    simp [finalState]

end YiHack.Record
