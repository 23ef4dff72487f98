/-
  File:      YiHack/Motion/DeliveryBurst.lean
  Subject:   What becomes of a reported motion burst across queue outages.

  `BurstNeverLost` asks that the queue connected whenever nothing is pending has seen a START for
  every `want(1)` so far. It fails by design as soon as a queue is replaced after a burst was
  delivered and over: the new queue is only reset (`burst_not_repeated`). What holds is
  `burst_delivered`, from the run invariant `Kept`: a START raised by `want(1)` stays pending
  until some queue accepts it, and a queue that was opened while motion was still wanted accepts
  its own.

  `Kept` needs `sent` to speak of the connected queue at the call (`SentCurrent`). A `sent` left
  over from a closed queue keeps `want(1)` from raising `start_pending`, and a burst that is over
  before the next reset is then dropped: `stale_sent_drops_burst`.
-/
import YiHack.Motion.DeliverySession

namespace YiHack.Motion

/-! ## 1. Statements -/

/-- `q` has accepted a START and no STOP since. -/
def Holds (q : Queue) (log : List Event) : Prop :=
  ∃ a b, log = a ++ .accepted q .start :: b ∧ .accepted q .stop ∉ b

/-- A START was accepted by `q` after the call, or `q` held one at the call. -/
def Delivered (q : Queue) (before after : List Event) : Prop :=
  .accepted q .start ∈ after ∨ Holds q before

/-- At the call `sent` speaks of the connected queue: it is 0, or the queue is open and past its
    reset. -/
def SentCurrent (d : MotionDelivery) : Prop :=
  d.sent = false ∨ (d.mq ≠ none ∧ d.resetPending = false)

/-- Some queue has accepted a START for the call: after it, or the connected one before it. -/
def Reported (w₀ : World) (after : List Event) : Prop :=
  (∃ q, .accepted q .start ∈ after) ∨ ∃ q, w₀.d.mq = some q ∧ Holds q w₀.log

/-- The burst was reported to an earlier queue and ended by `want(0)` before the queue `q`, open
    at the end of `after`, was opened. -/
def EndedBefore (q : Queue) (w₀ : World) (after : List Event) : Prop :=
  ∃ x z, after = x ++ .opened q :: z ∧ (∀ e ∈ z, e.isClosed = false) ∧ .wanted false ∈ x ∧
    Reported w₀ x

/-- For every `want(1)`: at every later moment at which nothing is pending, the connected queue
    accepted a START after the call or held one at the call. -/
def BurstNeverLost (name : String) : Prop :=
  ∀ pre post after q,
    (deliveryRun name (pre ++ .want true :: post)).log =
      (deliveryRun name pre).log ++ .wanted true :: after →
    motionDeliveryPending (deliveryRun name (pre ++ .want true :: post)).d = false →
    (deliveryRun name (pre ++ .want true :: post)).d.mq = some q →
    Delivered q (deliveryRun name pre).log after

/-! ## 2. Growing logs -/

theorem Delivered.append {q : Queue} {before after : List Event} (h : Delivered q before after)
    (new : List Event) : Delivered q before (after ++ new) :=
  h.imp_left fun h => List.mem_append_left new h

theorem Reported.append {w₀ : World} {after : List Event} (h : Reported w₀ after)
    (new : List Event) : Reported w₀ (after ++ new) :=
  h.imp_left fun ⟨q, h⟩ => ⟨q, List.mem_append_left new h⟩

theorem EndedBefore.append {q : Queue} {w₀ : World} {after new : List Event}
    (h : EndedBefore q w₀ after) (hnew : ∀ e ∈ new, e.isClosed = false) :
    EndedBefore q w₀ (after ++ new) := by
  obtain ⟨x, z, rfl, hz, hw, hr⟩ := h
  refine ⟨x, z ++ new, by simp, fun e he => ?_, hw, hr⟩
  exact (List.mem_append.mp he).elim (hz e) (hnew e)

/-- A queue whose last accepted message is START holds it. -/
theorem holds_of_last {q : Queue} {log : List Event}
    (h : (acceptedBy q log).getLast? = some .start) : Holds q log := by
  induction log using List.reverseRecOn with
  | nil => simp at h
  | append_singleton log e ih =>
    rw [acceptedBy_append] at h
    by_cases he : acceptedBy q [e] = []
    · rw [he, List.append_nil] at h
      obtain ⟨a, b, rfl, hb⟩ := ih h
      refine ⟨a, b ++ [e], by simp, fun hm => ?_⟩
      rcases List.mem_append.mp hm with hm | hm
      · exact hb hm
      · have := mem_acceptedBy.mpr hm
        simp [he] at this
    · cases e with
      | accepted q' m =>
        by_cases hq : q' = q
        · subst hq
          simp [acceptedBy] at h
          subst h
          exact ⟨log, [], rfl, by simp⟩
        · simp [acceptedBy, hq] at he
      | _ => exact absurd rfl he

/-- A queue whose last accepted message is STOP has followed every START by a STOP. -/
theorem stop_of_last {q : Queue} {x y : List Event}
    (h : (acceptedBy q (x ++ .accepted q .start :: y)).getLast? = some .stop) :
    .accepted q .stop ∈ y := by
  have e : acceptedBy q (x ++ .accepted q .start :: y) =
      acceptedBy q x ++ .start :: acceptedBy q y := by
    rw [acceptedBy_append]
    simp [acceptedBy]
  rw [e, List.getLast?_append] at h
  cases hy : acceptedBy q y with
  | nil => simp [hy] at h
  | cons m ms =>
    have hl : (acceptedBy q y).getLast? = some .stop := by
      simpa [hy, List.getLast?_cons_cons] using h
    exact mem_acceptedBy.mp (List.mem_of_getLast? hl)

/-! ## 3. The invariant after a call -/

/-- **What a run keeps after `want(1)` at `w₀`**, in a world `w` reached with the events `after`. -/
structure Kept (w₀ : World) (after : List Event) (w : World) : Prop where
  log : w.log = w₀.log ++ .wanted true :: after
  ended : w.d.wanted = false → .wanted false ∈ after
  raised : w₀.d.sent = false → w.d.startPending = true ∨ ∃ q, .accepted q .start ∈ after
  reported : SentCurrent w₀.d → w.d.startPending = true ∨ Reported w₀ after
  sent : ∀ q, w.d.mq = some q → w.d.resetPending = false → w.d.sent = true →
    Delivered q w₀.log after
  current : SentCurrent w₀.d → ∀ q, w.d.mq = some q →
    w.d.startPending = true ∨ Delivered q w₀.log after ∨ EndedBefore q w₀ after

/-- A sent START in an open session past its reset is held by the queue. -/
theorem holds_of_sent {w : World} (hI : Inv w) {q : Queue} (hq : w.d.mq = some q)
    (hr : w.d.resetPending = false) (hs : w.d.sent = true) : Holds q w.log := by
  obtain ⟨ms, ⟨pre, mid, hlog, -, rfl⟩, ha⟩ := hI.queue q hq
  rcases ha with ⟨hr', -⟩ | ⟨-, -, hlast, -⟩
  · rw [hr] at hr'
    cases hr'
  · rw [hs, msgOf_true] at hlast
    obtain ⟨a, b, rfl, hb⟩ := holds_of_last hlast
    exact ⟨pre ++ .opened q :: a, b, by simp [hlog], hb⟩

theorem kept_start {w₀ : World} (hI : Inv w₀) : Kept w₀ [] (step w₀ (.want true)) := by
  have hen := hI.enabled
  cases hs : w₀.d.sent with
  | false =>
    exact {
      log := rfl
      ended := fun h => by simp [step, motionDeliveryWant, hen] at h
      raised := fun _ => .inl (by simp [step, motionDeliveryWant, hen, hs])
      reported := fun _ => .inl (by simp [step, motionDeliveryWant, hen, hs])
      sent := fun q _ _ h => by simp [step, motionDeliveryWant, hen, hs] at h
      current := fun _ _ _ => .inl (by simp [step, motionDeliveryWant, hen, hs]) }
  | true =>
    have hmq : (step w₀ (.want true)).d.mq = w₀.d.mq := by simp [step, motionDeliveryWant, hen]
    have hr : (step w₀ (.want true)).d.resetPending = w₀.d.resetPending := by
      simp [step, motionDeliveryWant, hen]
    -- `sent` is current: the connected queue holds the START of the motion still going on
    have held : SentCurrent w₀.d → ∃ q, w₀.d.mq = some q ∧ Holds q w₀.log := by
      intro h
      rcases h with h | ⟨hne, hr⟩
      · rw [hs] at h
        cases h
      · obtain ⟨q, hq⟩ := Option.ne_none_iff_exists'.mp hne
        exact ⟨q, hq, holds_of_sent hI hq hr hs⟩
    exact {
      log := rfl
      ended := fun h => by simp [step, motionDeliveryWant, hen] at h
      raised := fun h => by rw [hs] at h; cases h
      reported := fun h => .inr (.inr (held h))
      sent := fun q h h' _ => .inr (holds_of_sent hI (hmq ▸ h) (hr ▸ h') hs)
      current := fun h q hq => by
        obtain ⟨q', hq', hh⟩ := held h
        rw [hmq, hq'] at hq
        cases hq
        exact .inr (.inl (.inr hh)) }

/-- **Every move keeps it.** -/
theorem small_keeps_kept {w₀ w w' : World} {after : List Event} (h : Small w w')
    (hen : w.d.enabled = true) (hK : Kept w₀ after w) : ∃ after', Kept w₀ after' w' := by
  obtain ⟨hlog, hended, hraised, hrep, hsent, hcur⟩ := hK
  -- a move that leaves queue, flags and `wanted` alone and closes nothing
  have same : ∀ new : List Event, (∀ e ∈ new, e.isClosed = false) →
      Kept w₀ (after ++ new) ⟨w.d, w.log ++ new⟩ := fun new hnew => {
    log := by simp [hlog]
    ended := fun h => List.mem_append_left _ (hended h)
    raised := fun h => (hraised h).imp_right fun ⟨q, h⟩ => ⟨q, List.mem_append_left _ h⟩
    reported := fun h => (hrep h).imp_right fun h => h.append new
    sent := fun q h h' h'' => (hsent q h h' h'').append new
    current := fun h q hq => (hcur h q hq).imp_right fun h =>
      h.imp (fun h => h.append new) fun h => h.append hnew }
  cases h with
  | want active =>
    obtain ⟨hlog', hended', hraised', hrep', hsent', hcur'⟩ :=
      same [.wanted active] (by simp [Event.isClosed])
    -- a want only ever raises the pending START
    have hsp : w.d.startPending = true → (motionDeliveryWant w.d active).startPending = true := by
      intro h
      simp [motionDeliveryWant, hen, h]
    refine ⟨after ++ [.wanted active], hlog', fun h => ?_, fun h => (hraised' h).imp_left hsp,
      fun h => (hrep' h).imp_left hsp, ?_, ?_⟩
    · have : active = false := by simpa [motionDeliveryWant, hen] using h
      simp [this]
    · simpa [motionDeliveryWant, hen] using hsent'
    · intro h q hq
      exact (hcur' h q (by simpa [motionDeliveryWant, hen] using hq)).imp_left hsp
  | note error retryAfter checkAfter =>
    exact ⟨after, hlog, hended, hraised, hrep, hsent, hcur⟩
  | closed q hmq =>
    refine ⟨after ++ [.closed q], by simp [hlog], fun h => List.mem_append_left _ (hended h),
      fun h => (hraised h).imp_right fun ⟨q, h⟩ => ⟨q, List.mem_append_left _ h⟩,
      fun h => (hrep h).imp_right fun h => h.append _, fun q' h => ?_, fun _ q' h => ?_⟩
    · cases h
    · cases h
  | probed q hmq =>
    refine ⟨after ++ [.opened q, .closed q], by simp [hlog],
      fun h => List.mem_append_left _ (hended h),
      fun h => (hraised h).imp_right fun ⟨q, h⟩ => ⟨q, List.mem_append_left _ h⟩,
      fun h => (hrep h).imp_right fun h => h.append _, fun q' h => ?_, fun _ q' h => ?_⟩
    · cases hmq.symm.trans h
    · cases hmq.symm.trans h
  | opened q hmq =>
    have hsp : w.d.startPending = true →
        (if w.d.wanted = true then true else w.d.startPending) = true := by
      intro h
      simp [h]
    refine ⟨after ++ [.opened q], by simp [hlog], fun h => List.mem_append_left _ (hended h),
      fun h => (hraised h).imp hsp fun ⟨q, h⟩ => ⟨q, List.mem_append_left _ h⟩,
      fun h => (hrep h).imp hsp fun h => h.append _, fun q' _ h => ?_, fun h q' hq' => ?_⟩
    · cases h
    · cases hq'
      cases hw : w.d.wanted with
      | true => exact .inl (by simp)
      | false =>
        -- motion is over; a START not pending any more was accepted by an earlier queue
        rcases hrep h with hs | hr
        · exact .inl (by simp [hs])
        · exact .inr (.inr ⟨after, [], rfl, by simp, hended hw, hr⟩)
  | accepted q hmq hp =>
    cases ha : nextActive w.d with
    | true =>
      have hm : .accepted q .start ∈ after ++ [.accepted q .start] := by simp
      refine ⟨after ++ [.accepted q .start], by simp [hlog],
        fun h => List.mem_append_left _ (hended (by simpa using h)), fun _ => .inr ⟨q, hm⟩,
        fun _ => .inr (.inl ⟨q, hm⟩), fun q' hq' _ _ => ?_, fun _ q' hq' => ?_⟩
      · rw [markSent_mq, hmq] at hq'
        cases hq'
        exact .inl hm
      · rw [markSent_mq, hmq] at hq'
        cases hq'
        exact .inr (.inl (.inl hm))
    | false =>
      obtain ⟨hlog', hended', hraised', hrep', -, hcur'⟩ :=
        same [.accepted q .stop] (by simp [Event.isClosed])
      have hsp : (markSent w.d false).startPending = w.d.startPending := by
        simp [markSent_startPending]
      refine ⟨after ++ [.accepted q .stop], by simpa [ha] using hlog',
        fun h => hended' (by simpa using h),
        fun h => by simpa [hsp] using hraised' h, fun h => by simpa [hsp] using hrep' h,
        fun q' _ _ h => by simp at h, fun h q' hq' => ?_⟩
      simpa [hsp] using hcur' h q' (by simpa using hq')
  | refused q e hmq =>
    exact ⟨_, same [.refused q (msgOf (nextActive w.d)) e] (by simp [Event.isClosed])⟩

theorem kept_run (name : String) (pre post : List Op) :
    ∃ after, Kept (deliveryRun name pre) after (deliveryRun name (pre ++ .want true :: post)) := by
  have hI := inv_run name pre
  have h := run_small (I := fun w => Inv w ∧ ∃ after, Kept (deliveryRun name pre) after w)
    (fun w w' hs ⟨hw, after, hK⟩ =>
      ⟨small_keeps_inv w w' hs hw, small_keeps_kept hs hw.enabled hK⟩)
    ⟨small_inv small_keeps_inv (step_small _ (.want true)) hI, [], kept_start hI⟩ post
  simpa [deliveryRun] using h.2

/-! ## 4. The burst -/

/-- **A reported burst is delivered.** Take any run, a `want(1)` in it and any later moment at
    which nothing is pending, with `q` the connected queue. If motion is wanted, `q` accepted a
    START since the call or held one at the call. If `sent` spoke of the connected queue at the
    call, the same holds or the burst was reported to an earlier queue and over before `q` was
    opened. If `sent` was 0 and only `q` accepted messages since, `q` accepted a START. And once
    motion is no longer wanted, every START `q` accepted was followed by a STOP. -/
theorem burst_delivered (name : String) (pre post : List Op)
    (hp : motionDeliveryPending (deliveryRun name (pre ++ .want true :: post)).d = false) :
    ∃ q after,
      (deliveryRun name (pre ++ .want true :: post)).d.mq = some q ∧
      (deliveryRun name (pre ++ .want true :: post)).log =
        (deliveryRun name pre).log ++ .wanted true :: after ∧
      ((deliveryRun name (pre ++ .want true :: post)).d.wanted = true →
        Delivered q (deliveryRun name pre).log after) ∧
      (SentCurrent (deliveryRun name pre).d →
        Delivered q (deliveryRun name pre).log after ∨
        EndedBefore q (deliveryRun name pre) after) ∧
      ((deliveryRun name pre).d.sent = false → (∀ q' m, .accepted q' m ∈ after → q' = q) →
        .accepted q .start ∈ after) ∧
      ((deliveryRun name (pre ++ .want true :: post)).d.wanted = false →
        ∀ x y, after = x ++ .accepted q .start :: y → .accepted q .stop ∈ y) := by
  obtain ⟨after, hK⟩ := kept_run name pre post
  have hI := inv_run name (pre ++ .want true :: post)
  obtain ⟨q, ms, hmq, ⟨p, mid, hlog, -, rfl⟩, hr, hsp, hsw, hlast⟩ := idle_session hI hp
  refine ⟨q, after, hmq, hK.log, fun hw => hK.sent q hmq hr (hsw.trans hw), fun h => ?_,
    fun h honly => ?_, fun hw x y hxy => ?_⟩
  · rcases hK.current h q hmq with h | h
    · rw [hsp] at h
      cases h
    · exact h
  · rcases hK.raised h with h | ⟨q', hq'⟩
    · rw [hsp] at h
      cases h
    · exact honly q' _ hq' ▸ hq'
  · refine stop_of_last (x := (deliveryRun name pre).log ++ .wanted true :: x) ?_
    have e : (deliveryRun name pre).log ++ .wanted true :: x ++ .accepted q .start :: y =
        p ++ .opened q :: mid := by
      rw [← hlog, hK.log, hxy]
      simp
    rw [e, acceptedBy_append, List.getLast?_append]
    have e2 : acceptedBy q (.opened q :: mid) = acceptedBy q mid := rfl
    rw [e2, hlast, hw]
    rfl

/-! ## 5. Runs on a queue that comes and goes -/

/-- A tick at `now` with queue `q` under the path: everything succeeds. -/
def tickAt (now : Int) (q : Queue) : Op :=
  .tick ⟨now, some ⟨1, q⟩, some ⟨1, q⟩, .ok q, .ok 16, fun _ => none⟩

/-- A tick at `now` that finds its queue `old` unlinked and `q` under the path, if any. -/
def tickReplaced (now : Int) (old : Queue) : Option Queue → Op
  | some q => .tick ⟨now, some ⟨1, old⟩, some ⟨1, q⟩, .ok q, .ok 16, fun _ => none⟩
  | none => .tick ⟨now, some ⟨1, old⟩, none, .error 2, .error EBADF, fun _ => some EBADF⟩

theorem burst_delivered_once :
    ∃ q after,
      (deliveryRun "/ipc_dispatch" ([tickAt 0 1] ++ .want true :: [tickAt 100 1])).d.mq = some q ∧
      (deliveryRun "/ipc_dispatch" ([tickAt 0 1] ++ .want true :: [tickAt 100 1])).log =
        (deliveryRun "/ipc_dispatch" [tickAt 0 1]).log ++ .wanted true :: after ∧
      Delivered q (deliveryRun "/ipc_dispatch" [tickAt 0 1]).log after := by
  obtain ⟨q, after, hq, hlog, hw, -⟩ :=
    burst_delivered "/ipc_dispatch" [tickAt 0 1] [tickAt 100 1] (by decide)
  exact ⟨q, after, hq, hlog, hw (by decide)⟩

/-- **A replaced queue is not told of bursts that are over**: queue 1 gets STOP, START, STOP;
    queue 2 replaces it and is only reset. -/
theorem burst_not_repeated : ¬ BurstNeverLost "/ipc_dispatch" := by
  intro h
  have h := h [tickAt 0 1] [tickAt 100 1, .want false, tickAt 200 1, tickReplaced 1200 1 (some 2)]
    [.accepted 1 .start, .wanted false, .accepted 1 .stop, .closed 1, .opened 2, .accepted 2 .stop]
    2 (by decide) (by decide) (by decide)
  rcases h with h | ⟨a, b, h, -⟩
  · simp at h
  · have h : Event.accepted 2 .start ∈ (deliveryRun "/ipc_dispatch" [tickAt 0 1]).log := by
      rw [h]; simp
    revert h
    decide

/-- **A `sent` left over from a closed queue drops a burst**: motion goes on while queue 1 is
    removed, ends, and one more burst starts and ends before queue 2 appears. `want(1)` finds
    `sent` still 1 and raises no pending START, so queue 2 gets its reset and nothing else. -/
theorem stale_sent_drops_burst :
    let w := deliveryRun "/ipc_dispatch" [tickAt 0 1, .want true, tickAt 100 1,
      tickReplaced 1100 1 none, .want false, .want true, .want false, tickReplaced 2100 1 (some 2)]
    motionDeliveryPending w.d = false ∧ w.d.mq = some 2 ∧ acceptedBy 2 w.log = [.stop] := by
  decide

end YiHack.Motion
