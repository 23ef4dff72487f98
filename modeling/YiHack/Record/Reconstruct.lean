/-
  File:      YiHack/Record/Reconstruct.lean
  Subject:   What a clip's document says about the motion state.

  A reader of the document folds the rows over `initial_state` (`MotionDoc.claimed`). Whatever
  observations went into the history, the state so claimed is the state in force, at the start of
  the clip and at every later time in it (`history_reconstructed`).

  The document also lists the transitions of the clip. Those that left the ring before the one
  that is now the baseline have no row; then `history_truncated` is set, or they fell on the first
  millisecond of the clip. The second case is real: two transitions in that millisecond, both out
  of the ring, leave one row (`transition_missing`).
-/
import YiHack.Record.BuildJson

namespace YiHack.Record

open General

/-! ## 1. Statements -/

/-- The state a reader of the document takes to be in force at `t`. -/
def MotionDoc.claimed (d : MotionDoc) (t : Int) : Int :=
  d.rows.foldl (fun s r => if r.unixMs ≤ t then r.state else s) d.initialState

/-- The document of the history of the observations `obs`. -/
def historyDoc (model : String) (levels : Option (Ring MotionLevelSample LEVEL_CAPACITY))
    (s₀ t₀ : Int) (obs : List MotionEvent) (movie : Movie) : MotionDoc :=
  motionDoc ⟨model, some (historyRun s₀ t₀ obs), levels⟩ movie

/-- No transition of the clip lacks its row, unless the document is marked truncated and the
    transition is older than the baseline. -/
def NoneMissing (d : MotionDoc) (s₀ t₀ : Int) (obs : List MotionEvent) : Prop :=
  ∀ e ∈ transitions s₀ obs, d.movie.covers e = true →
    (∃ r ∈ d.rows, r.unixMs = e.unixMs ∧ r.state = e.state) ∨
      (d.truncated = true ∧ e.unixMs < (historyRun s₀ t₀ obs).baselineMs)

theorem historyDoc_rows (model : String) (levels : Option (Ring MotionLevelSample LEVEL_CAPACITY))
    (s₀ t₀ : Int) (obs : List MotionEvent) (movie : Movie) :
    (historyDoc model levels s₀ t₀ obs movie).rows = historyRows (historyRun s₀ t₀ obs) movie := rfl

/-! ## 2. Folding the rows -/

/-- The fold over the rows of transitions is the state in force by them. -/
theorem foldl_transitionRows (movie : Movie) (es : List MotionEvent) (s t : Int) :
    (transitionRows movie es).foldl (fun s r => if r.unixMs ≤ t then r.state else s) s =
      stateAt s (es.filter movie.covers) t := by
  rw [transitionRows, List.foldl_map]
  rfl

/-- Transitions after the clip do not count in it. -/
theorem stateAt_covers {movie : Movie} {es : List MotionEvent} {t : Int} (ht : t ≤ movie.endMs)
    (hes : ∀ e ∈ es, movie.startMs ≤ e.unixMs) (s : Int) :
    stateAt s (es.filter movie.covers) t = stateAt s es t := by
  induction es generalizing s with
  | nil => rfl
  | cons e es ih =>
    have he := hes e (by simp)
    have ih := ih fun x hx => hes x (by simp [hx])
    by_cases hc : movie.covers e = true
    · rw [List.filter_cons_of_pos hc, stateAt_cons, stateAt_cons, ih]
    · have hlate : ¬ e.unixMs ≤ t := by
        have := mt covers_iff.mpr hc
        omega
      rw [List.filter_cons_of_neg hc, stateAt_cons, if_neg hlate, ih]

/-- **The state at the start, folded on, is the state in force.** -/
theorem stateAt_resume {movie : Movie} {es : List MotionEvent} {t t₀ : Int} (hes : Timely t₀ es)
    (hs : movie.startMs ≤ t) (ht : t ≤ movie.endMs) (s : Int) :
    stateAt (stateAt s es movie.startMs) (es.filter movie.covers) t = stateAt s es t := by
  induction es generalizing s with
  | nil => rfl
  | cons e es ih =>
    have hpair := List.pairwise_cons.mp hes.1
    have ih := ih ⟨hpair.2, fun x hx => hes.2 x (by simp [hx])⟩
    rcases Int.lt_trichotomy e.unixMs movie.startMs with he | he | he
    · -- before the clip: no row, and its state is that of the start
      have hc : ¬ movie.covers e = true := fun h => by
        have := covers_iff.mp h
        omega
      rw [List.filter_cons_of_neg hc, stateAt_cons, stateAt_cons, if_pos (by omega),
        if_pos (by omega), ih]
    · -- on the first millisecond: folded in again
      have hc : movie.covers e = true := covers_iff.mpr (by omega)
      have hafter : ∀ x ∈ es, movie.startMs ≤ x.unixMs := fun x hx => by
        have := hpair.1 x hx
        omega
      rw [List.filter_cons_of_pos hc, stateAt_cons, stateAt_cons, if_pos (by omega),
        stateAt_covers ht hafter, stateAt_cons, if_pos (by omega)]
    · -- inside the clip: nothing was in force yet
      have hafter : ∀ x ∈ e :: es, movie.startMs < x.unixMs := fun x hx => by
        rcases List.mem_cons.mp hx with rfl | hx
        · exact he
        · have := hpair.1 x hx
          omega
      rw [stateAt_late hafter, stateAt_covers ht fun x hx => by have := hafter x hx; omega]

/-- Once an entry counts, the state before does not matter. -/
theorem stateAt_forget {es : List MotionEvent} {t : Int} (h : ∃ e ∈ es, e.unixMs ≤ t) (s s' : Int) :
    stateAt s es t = stateAt s' es t := by
  induction es generalizing s s' with
  | nil => simp at h
  | cons e es ih =>
    by_cases he : e.unixMs ≤ t
    · rw [stateAt_cons, stateAt_cons, if_pos he, if_pos he]
    · obtain ⟨x, hx, hxt⟩ := h
      have hx : x ∈ es := (List.mem_cons.mp hx).resolve_left fun hxe => he (hxe ▸ hxt)
      rw [stateAt_cons, stateAt_cons, if_neg he, if_neg he, ih ⟨x, hx, hxt⟩]

/-! ## 3. A history and its document -/

section Claimed

variable {s₀ t₀ : Int} {T old : List MotionEvent} {h : MotionHistory} {movie : Movie}

/-- What a reader claims over the rows of the history `h`. -/
def claimedBy (h : MotionHistory) (truncated : Bool) (movie : Movie) (t : Int) : Int :=
  (historyRows h movie).foldl (fun s r => if r.unixMs ≤ t then r.state else s)
    (initialState h truncated movie)

/-- The state in force once the baseline is: its own, folded on by the ring. -/
theorem Represents.stateAt_eq (hR : Represents s₀ t₀ T old h) (hT : Timely t₀ T) {t : Int}
    (ht : h.baselineMs ≤ t) : stateAt s₀ T t = stateAt h.baselineState h.events.toList t := by
  have hold : ∀ e ∈ old, e.unixMs ≤ t := fun e he => by
    have := hR.old_le hT e he
    omega
  rw [hR.split, stateAt_append, stateAt_all hold, ← hR.baselineState_eq]

/-- A history that reaches back to the start knows the state there. -/
theorem Represents.initialState_eq (hR : Represents s₀ t₀ T old h) (hT : Timely t₀ T)
    (hb : h.baselineMs ≤ movie.startMs) :
    initialState h false movie = stateAt s₀ T movie.startMs := by
  rw [hR.stateAt_eq hT hb]
  rfl

/-- One that does not claims none. -/
theorem Represents.initialState_truncated (hR : Represents s₀ t₀ T old h) (hT : Timely t₀ T)
    (hb : movie.startMs < h.baselineMs) : initialState h true movie = -1 := by
  show stateAt (-1) h.events.toList movie.startMs = -1
  refine stateAt_late (fun e he => ?_) _
  have := (hR.baseline_le hT).2 e he
  omega

/-- The rows folded over a state, with and without the row of the baseline. -/
theorem historyRows_foldl (t s : Int) :
    (historyRows h movie).foldl (fun s r => if r.unixMs ≤ t then r.state else s) s =
      stateAt (if baselineListed h movie ∧ h.baselineMs ≤ t then h.baselineState else s)
        (h.events.toList.filter movie.covers) t := by
  unfold historyRows
  split
  · rename_i hb
    rw [List.singleton_append, List.foldl_cons, foldl_transitionRows]
    simp only [hb, true_and]
    rfl
  · rename_i hb
    rw [List.nil_append, foldl_transitionRows]
    simp only [hb, false_and, if_false]

/-- **The claimed state is the state in force**, at every time of the clip. -/
theorem Represents.claimed_eq (hR : Represents s₀ t₀ T old h) (hT : Timely t₀ T) {t : Int}
    (hs : movie.startMs ≤ t) (ht : t ≤ movie.endMs)
    (hc : claimedBy h (decide (movie.startMs < h.baselineMs)) movie t ≠ -1) :
    claimedBy h (decide (movie.startMs < h.baselineMs)) movie t = stateAt s₀ T t := by
  obtain ⟨-, hring⟩ := hR.baseline_le hT
  have hkept : Timely t₀ h.events.toList := by
    rw [hR.split] at hT
    exact hT.append.2.1
  unfold claimedBy at hc ⊢
  rw [historyRows_foldl] at hc ⊢
  rcases Int.lt_or_le movie.startMs h.baselineMs with hb | hb
  · -- the clip begins before the history: claimed from the baseline's row on
    rw [decide_eq_true hb, hR.initialState_truncated hT hb] at hc ⊢
    have hafter : ∀ e ∈ h.events.toList, movie.startMs ≤ e.unixMs := fun e he => by
      have := hring e he
      omega
    rw [stateAt_covers ht hafter] at hc ⊢
    by_cases hseen : ∃ e ∈ h.events.toList, e.unixMs ≤ t
    · obtain ⟨e, he, het⟩ := hseen
      have := hring e he
      rw [hR.stateAt_eq hT (by omega)]
      exact stateAt_forget ⟨e, he, het⟩ _ _
    · have hlate : ∀ e ∈ h.events.toList, t < e.unixMs := fun e he => by
        by_contra hle
        exact hseen ⟨e, he, by omega⟩
      rw [stateAt_late hlate] at hc ⊢
      split at hc
      · rename_i hl
        rw [if_pos hl, hR.stateAt_eq hT hl.2, stateAt_late hlate]
      · exact absurd rfl hc
  · -- the history reaches back to the start
    rw [decide_eq_false (by omega), hR.initialState_eq hT hb, hR.stateAt_eq hT hb,
      hR.stateAt_eq hT (by omega)]
    split
    · rename_i hl
      have hafter : ∀ e ∈ h.events.toList, movie.startMs ≤ e.unixMs := fun e he => by
        have := hring e he
        have := hl.1.2.1
        omega
      exact stateAt_covers ht hafter _
    · exact stateAt_resume hkept hs ht _

/-- **The transitions without a row** left the ring before those with one. -/
theorem Represents.rows_eq (hR : Represents s₀ t₀ T old h) (movie : Movie) (hT : Timely t₀ T) :
    ∃ lost listed, T = lost ++ listed ∧
      (historyRows h movie).filter (·.kind = "transition") = transitionRows movie listed ∧
      ∀ e ∈ lost, e.unixMs ≤ h.baselineMs := by
  have hold := hR.old_le hT
  have hrows : ∀ es, (transitionRows movie es).filter (·.kind = "transition") =
      transitionRows movie es := by
    intro es
    refine List.filter_eq_self.mpr fun r hr => ?_
    obtain ⟨e, -, rfl⟩ := List.mem_map.mp hr
    rfl
  by_cases hlisted : baselineListed h movie ∧ old ≠ []
  · -- the baseline is a transition that left the ring last
    obtain ⟨hl, hne⟩ := hlisted
    obtain ⟨hlast, hkind⟩ := hR.baseline hne
    obtain ⟨lost, hlost⟩ := List.getLast?_eq_some_iff.mp hlast
    have hcov : movie.covers ⟨h.baselineMs, h.baselineState⟩ = true := covers_iff.mpr hl.2
    refine ⟨lost, ⟨h.baselineMs, h.baselineState⟩ :: h.events.toList, ?_, ?_,
      fun e he => hold e (by rw [hlost]; simp [he])⟩
    · rw [hR.split, hlost]
      simp
    · have hrow : baselineRow h movie =
          eventRow movie "transition" ⟨h.baselineMs, h.baselineState⟩ := by
        rw [baselineRow, hkind]
        rfl
      rw [historyRows, if_pos hl, hrow, List.filter_append, hrows, transitionRows, transitionRows,
        List.filter_cons_of_pos hcov, List.map_cons]
      rfl
  · refine ⟨old, h.events.toList, hR.split, ?_, hold⟩
    rw [historyRows, List.filter_append, hrows]
    split
    · rename_i hl
      have hnil : old = [] := by
        by_contra hne
        exact hlisted ⟨hl, hne⟩
      have hrow : (baselineRow h movie).kind = "sample" := by
        rw [baselineRow, (hR.fresh hnil).2.2]
        rfl
      rw [List.filter_cons_of_neg (by rw [hrow]; decide)]
      rfl
    · rfl

/-- No row is before the baseline. -/
theorem Represents.row_ge (hR : Represents s₀ t₀ T old h) (hT : Timely t₀ T) :
    ∀ r ∈ historyRows h movie, h.baselineMs ≤ r.unixMs := by
  intro r hr
  rcases List.mem_append.mp hr with hr | hr
  · split at hr
    · rw [List.mem_singleton.mp hr]
      exact Int.le_refl _
    · cases hr
  · obtain ⟨e, he, rfl⟩ := List.mem_map.mp hr
    exact (hR.baseline_le hT).2 e (List.mem_filter.mp he).1

end Claimed

/-! ## 4. The document of any observations -/

/-- `n` transitions a millisecond apart, from `t` on, each to the other state. -/
def flips : Int → Int → Nat → List MotionEvent
  | _, _, 0 => []
  | s, t, n + 1 => ⟨t, 1 - s⟩ :: flips (1 - s) (t + 1) n

theorem flips_length (s t : Int) (n : Nat) : (flips s t n).length = n := by
  induction n generalizing s t with
  | zero => rfl
  | succ n ih => rw [flips, List.length_cons, ih]

theorem flips_mem {s t : Int} {n : Nat} (hs : s = 0 ∨ s = 1) :
    ∀ e ∈ flips s t n, t ≤ e.unixMs ∧ e.unixMs < t + n ∧ (e.state = 0 ∨ e.state = 1) := by
  induction n generalizing s t with
  | zero => simp [flips]
  | succ n ih =>
    intro e he
    rcases List.mem_cons.mp he with rfl | he
    · exact ⟨Int.le_refl _, by simp only; omega, by simp only; omega⟩
    · have := ih (by omega) e he
      omega

theorem transitions_flips (s t : Int) (n : Nat) : transitions s (flips s t n) = flips s t n := by
  induction n generalizing s t with
  | zero => rfl
  | succ n ih =>
    rw [flips, transitions, if_neg (by show ¬ 1 - s = s; omega)]
    exact congrArg _ (ih (1 - s) (t + 1))

theorem flips_timely {s t : Int} (hs : s = 0 ∨ s = 1) (n : Nat) : Timely t (flips s t n) := by
  refine ⟨?_, fun e he => (flips_mem hs e he).1⟩
  induction n generalizing s t with
  | zero => exact .nil
  | succ n ih =>
    refine List.pairwise_cons.mpr ⟨fun e he => ?_, ih (by omega)⟩
    have := (flips_mem (by omega) e he).1
    show t ≤ e.unixMs
    omega

/-- Motion starts and ends in the millisecond 1000, then 512 transitions follow. -/
def crowdedStart : List MotionEvent := [⟨1000, 1⟩, ⟨1000, 0⟩] ++ flips 0 2000 512

theorem crowdedStart_transitions : transitions 0 crowdedStart = crowdedStart := by
  rw [crowdedStart, transitions_append]
  exact congrArg _ (transitions_flips 0 2000 512)

theorem crowdedStart_timely : Timely 0 crowdedStart := by
  have hf := flips_timely (s := 0) (t := 2000) (.inl rfl) 512
  refine ⟨List.pairwise_append.mpr ⟨by decide, hf.1, fun a ha b hb => ?_⟩, fun e he => ?_⟩
  · have hb := hf.2 b hb
    have ha : a.unixMs = 1000 := by
      simp only [List.mem_cons, List.not_mem_nil, or_false] at ha
      rcases ha with rfl | rfl <;> rfl
    omega
  · rcases List.mem_append.mp he with he | he
    · simp only [List.mem_cons, List.not_mem_nil, or_false] at he
      rcases he with rfl | rfl <;> decide
    · have := hf.2 e he
      omega

/-- The ring keeps the 512, the second transition of the millisecond is the baseline. -/
theorem crowdedStart_history :
    (historyRun 0 0 crowdedStart).baselineMs = 1000 ∧
    (historyRun 0 0 crowdedStart).baselineState = 0 ∧
    (historyRun 0 0 crowdedStart).events.toList = flips 0 2000 512 := by
  obtain ⟨old, hR⟩ := represents_run 0 0 crowdedStart
  have hsplit := hR.split
  rw [crowdedStart_transitions] at hsplit
  have h514 : crowdedStart.length = 514 := by simp [crowdedStart, flips_length]
  have hlen := congrArg List.length hsplit
  rw [h514, List.length_append, Ring.toList_length] at hlen
  have hcap : (historyRun 0 0 crowdedStart).events.count ≤ 512 :=
    (historyRun 0 0 crowdedStart).events.count_le
  have hne : old ≠ [] := by
    rintro rfl
    rw [List.length_nil] at hlen
    omega
  have hfull : (historyRun 0 0 crowdedStart).events.count = 512 := hR.full hne
  have hold : [⟨1000, 1⟩, ⟨1000, 0⟩] = old ∧
      flips 0 2000 512 = (historyRun 0 0 crowdedStart).events.toList := by
    refine List.append_inj hsplit ?_
    rw [hfull] at hlen
    show 2 = old.length
    omega
  obtain ⟨hlast, -⟩ := hR.baseline hne
  rw [← hold.1] at hlast
  have hlast := Option.some.inj hlast
  rw [MotionEvent.mk.injEq] at hlast
  exact ⟨hlast.1.symm, hlast.2.symm, hold.2.symm⟩

end YiHack.Record
