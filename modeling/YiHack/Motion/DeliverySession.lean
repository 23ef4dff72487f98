/-
  File:      YiHack/Motion/DeliverySession.lean
  Subject:   What one opened recorder queue sees.

  A session is the stretch of the log from one `mq_open` to the next close. `Inv` ties the four
  flags to the messages of the open session:

  * while `reset_pending` is set the queue has accepted nothing;
  * after that its messages alternate from STOP, `sent` is the last one, and a pending START
    means that last one was STOP.

  `message_discipline` reads the alternation and the agreement with `wanted` off it.
-/
import YiHack.Motion.DeliverySteps
import Mathlib.Data.List.Chain

namespace YiHack.Motion

/-! ## 1. Sessions -/

/-- The messages `q` accepts in a stretch of the log, oldest first. -/
def acceptedBy (q : Queue) (log : List Event) : List Msg :=
  log.filterMap fun
    | .accepted q' m => if q' = q then some m else none
    | _ => none

/-- The event ends a session. -/
def Event.isClosed : Event → Bool
  | .closed _ => true
  | _ => false

/-- The event begins a session. -/
def Event.isOpened : Event → Bool
  | .opened _ => true
  | _ => false

/-- `log` ends in an open session of `q` that has accepted `ms`: the queue was opened and neither
    closed nor opened again since. -/
def Session (log : List Event) (q : Queue) (ms : List Msg) : Prop :=
  ∃ pre mid, log = pre ++ .opened q :: mid ∧ (∀ e ∈ mid, e.isClosed = false ∧ e.isOpened = false) ∧
    ms = acceptedBy q mid

theorem acceptedBy_append (q : Queue) (a b : List Event) :
    acceptedBy q (a ++ b) = acceptedBy q a ++ acceptedBy q b := List.filterMap_append

@[simp] theorem acceptedBy_nil (q : Queue) : acceptedBy q [] = [] := rfl

theorem mem_acceptedBy {q : Queue} {m : Msg} {log : List Event} :
    m ∈ acceptedBy q log ↔ .accepted q m ∈ log := by
  unfold acceptedBy
  rw [List.mem_filterMap]
  constructor
  · rintro ⟨e, he, h⟩
    split at h
    · rename_i q' m'
      split at h
      · rename_i hq
        cases h
        exact hq ▸ he
      · cases h
    · cases h
  · intro h
    exact ⟨_, h, by simp⟩

theorem session_opened (log : List Event) (q : Queue) : Session (log ++ [.opened q]) q [] :=
  ⟨log, [], rfl, by simp, rfl⟩

/-- A session goes on over an event that neither closes nor opens. -/
theorem Session.snoc {log : List Event} {q : Queue} {ms : List Msg} (h : Session log q ms)
    (e : Event) (hc : e.isClosed = false) (ho : e.isOpened = false) :
    Session (log ++ [e]) q (ms ++ acceptedBy q [e]) := by
  obtain ⟨pre, mid, rfl, hmid, rfl⟩ := h
  refine ⟨pre, mid ++ [e], by simp, fun x hx => ?_, (acceptedBy_append q mid [e]).symm⟩
  rcases List.mem_append.mp hx with hx | hx
  · exact hmid x hx
  · cases List.mem_singleton.mp hx
    exact ⟨hc, ho⟩

/-- STOP first, then strictly alternating. -/
def Discipline (ms : List Msg) : Prop :=
  (∀ m ∈ ms.head?, m = .stop) ∧ ms.IsChain (· ≠ ·)

theorem discipline_nil : Discipline [] := ⟨by simp, .nil⟩

theorem discipline_stop : Discipline [.stop] := ⟨by simp, .singleton _⟩

/-- A disciplined session takes one more message if that differs from the last. -/
theorem Discipline.snoc {ms : List Msg} {l m : Msg} (h : Discipline ms)
    (hl : ms.getLast? = some l) (hne : l ≠ m) : Discipline (ms ++ [m]) := by
  refine ⟨fun x hx => ?_, ?_⟩
  · cases ms with
    | nil => simp at hl
    | cons a as => exact h.1 x (by simpa using hx)
  · rw [List.isChain_append]
    refine ⟨h.2, .singleton _, fun x hx y hy => ?_⟩
    rw [hl] at hx
    cases hx
    cases hy
    exact hne

/-! ## 2. The invariant -/

/-- What the flags say about the messages of the open session. -/
def Agrees (d : MotionDelivery) (ms : List Msg) : Prop :=
  (d.resetPending = true ∧ ms = []) ∨
  (d.resetPending = false ∧ Discipline ms ∧ ms.getLast? = some (msgOf d.sent) ∧
    (d.startPending = true → d.sent = false))

/-- **The invariant of a run.** -/
structure Inv (w : World) : Prop where
  enabled : w.d.enabled = true
  queue : ∀ q, w.d.mq = some q → ∃ ms, Session w.log q ms ∧ Agrees w.d ms
  sessions : ∀ log q ms, log <+: w.log → Session log q ms → Discipline ms
  idle : w.d.mq = none → ∀ q ms, ¬ Session w.log q ms
  fresh : ∀ pre q, pre ++ [.opened q] <+: w.log → ∀ q' ms, ¬ Session pre q' ms

theorem Agrees.discipline {d : MotionDelivery} {ms : List Msg} (h : Agrees d ms) :
    Discipline ms := by
  rcases h with ⟨_, rfl⟩ | ⟨_, h, _⟩
  · exact discipline_nil
  · exact h

theorem inv_start (name : String) : Inv (start name) where
  enabled := rfl
  queue q h := by cases h
  sessions log q ms hp h := by
    obtain ⟨pre, mid, rfl, -⟩ := h
    have := List.prefix_nil.mp hp
    simp at this
  idle _ q ms h := by
    obtain ⟨pre, mid, h, -⟩ := h
    simp [start] at h
  fresh pre q hp := by
    have := List.prefix_nil.mp hp
    simp at this

/-- A session that is closed at once has accepted nothing. -/
theorem no_session_closed {log : List Event} {q q' : Queue} {ms : List Msg} :
    ¬ Session (log ++ [.closed q]) q' ms := by
  rintro ⟨pre, mid, h, hmid, -⟩
  rcases List.eq_nil_or_concat mid with rfl | ⟨mid', e, rfl⟩
  · have := (List.append_inj' h rfl).2
    cases this
  · rw [List.concat_eq_append, ← List.cons_append, ← List.append_assoc] at h
    have := (List.append_inj' h rfl).2
    cases this
    simpa [Event.isClosed] using (hmid (.closed q) (by simp)).1

/-- A log has at most one open session. -/
theorem session_unique {log : List Event} {q q' : Queue} {ms ms' : List Msg}
    (h : Session log q ms) (h' : Session log q' ms') : q = q' ∧ ms = ms' := by
  obtain ⟨pre, mid, rfl, hmid, rfl⟩ := h
  obtain ⟨pre', mid', e, hmid', rfl⟩ := h'
  rcases List.append_eq_append_iff.mp e with ⟨a, rfl, ha⟩ | ⟨a, rfl, ha⟩
  · cases a with
    | nil => cases ha; exact ⟨rfl, rfl⟩
    | cons x a =>
      cases ha
      have := (hmid (.opened q') (by simp)).2
      cases this
  · cases a with
    | nil => cases ha; exact ⟨rfl, rfl⟩
    | cons x a =>
      cases ha
      have := (hmid' (.opened q) (by simp)).2
      cases this

/-- A session over one more event that does not open was a session before it. -/
theorem Session.of_snoc {log : List Event} {e : Event} {q : Queue} {ms : List Msg}
    (h : Session (log ++ [e]) q ms) (ho : e.isOpened = false) :
    ∃ ms', Session log q ms' ∧ ms = ms' ++ acceptedBy q [e] := by
  obtain ⟨pre, mid, h, hmid, rfl⟩ := h
  rcases List.eq_nil_or_concat mid with rfl | ⟨mid', x, rfl⟩
  · cases (List.append_inj' h rfl).2
    cases ho
  · rw [List.concat_eq_append, ← List.cons_append, ← List.append_assoc] at h
    obtain ⟨rfl, hx⟩ := List.append_inj' h rfl
    cases hx
    rw [List.concat_eq_append] at hmid ⊢
    exact ⟨_, ⟨pre, mid', rfl, fun y hy => hmid y (by simp [hy]), rfl⟩, acceptedBy_append q mid' _⟩

/-- One more event keeps every session of the log disciplined if it keeps the open one so. -/
theorem sessions_snoc {log : List Event} {e : Event}
    (h : ∀ l q ms, l <+: log → Session l q ms → Discipline ms)
    (he : ∀ q ms, Session (log ++ [e]) q ms → Discipline ms) :
    ∀ l q ms, l <+: log ++ [e] → Session l q ms → Discipline ms := by
  intro l q ms hl hs
  rcases List.prefix_concat_iff.mp hl with rfl | hl
  · exact he q ms hs
  · exact h l q ms hl hs

@[simp] theorem markSent_mq (d : MotionDelivery) (active : Bool) :
    (markSent d active).mq = d.mq := by
  unfold markSent
  cases d.resetPending <;> cases active <;> rfl

@[simp] theorem markSent_enabled (d : MotionDelivery) (active : Bool) :
    (markSent d active).enabled = d.enabled := by
  unfold markSent
  cases d.resetPending <;> cases active <;> rfl

@[simp] theorem markSent_wanted (d : MotionDelivery) (active : Bool) :
    (markSent d active).wanted = d.wanted := by
  unfold markSent
  cases d.resetPending <;> cases active <;> rfl

@[simp] theorem markSent_sent (d : MotionDelivery) (active : Bool) :
    (markSent d active).sent = active := by
  unfold markSent
  cases d.resetPending <;> cases active <;> rfl

@[simp] theorem markSent_resetPending (d : MotionDelivery) (active : Bool) :
    (markSent d active).resetPending = false := by
  unfold markSent
  cases d.resetPending <;> cases active <;> simp

theorem markSent_startPending (d : MotionDelivery) (active : Bool) :
    (markSent d active).startPending =
      (d.startPending && (d.resetPending || !active)) := by
  unfold markSent
  cases d.resetPending <;> cases active <;> simp

/-- One more event opens a queue only where no session is open. -/
theorem fresh_snoc {log : List Event} {e : Event}
    (h : ∀ pre q, pre ++ [.opened q] <+: log → ∀ q' ms, ¬ Session pre q' ms)
    (he : e.isOpened = true → ∀ q ms, ¬ Session log q ms) :
    ∀ pre q, pre ++ [.opened q] <+: log ++ [e] → ∀ q' ms, ¬ Session pre q' ms := by
  intro pre q hp
  rcases List.prefix_concat_iff.mp hp with heq | hp
  · obtain ⟨rfl, he'⟩ := List.append_inj' heq rfl
    cases he'
    exact he rfl
  · exact h pre q hp

/-- The record after an accepted message agrees with the longer session. -/
theorem agrees_markSent {d : MotionDelivery} {ms : List Msg} {q : Queue} (h : Agrees d ms)
    (hen : d.enabled = true) (hmq : d.mq = some q) (hp : motionDeliveryPending d = true) :
    Agrees (markSent d (nextActive d)) (ms ++ [msgOf (nextActive d)]) := by
  refine .inr ⟨markSent_resetPending _ _, ?_, by simp, fun hs => ?_⟩
  · rcases h with ⟨hr, rfl⟩ | ⟨hr, hd, hlast, hsp⟩
    · -- the reset: whatever is wanted, the first message is STOP
      simp [nextActive, hr, discipline_stop]
    · refine hd.snoc hlast fun e => ?_
      have e := msgOf_injective e
      cases hs : d.startPending with
      | true => simp [nextActive, hr, hs, hsp hs] at e
      | false => simp [nextActive, hr, hs, motionDeliveryPending, hen, hmq] at e hp; exact hp e
  · rw [markSent_startPending] at hs
    rw [markSent_sent]
    cases hr : d.resetPending with
    | true => simp [nextActive, hr]
    | false =>
      rw [Bool.and_eq_true, hr, Bool.false_or, Bool.not_eq_true'] at hs
      exact hs.2

/-- A want leaves the agreement: it raises a pending START only where `sent` is 0. -/
theorem agrees_want {d : MotionDelivery} {ms : List Msg} (hen : d.enabled = true) (active : Bool)
    (h : Agrees d ms) : Agrees (motionDeliveryWant d active) ms := by
  simp only [Agrees, motionDeliveryWant, hen, Bool.not_true, Bool.false_eq_true, if_false] at h ⊢
  rcases h with ⟨hr, rfl⟩ | ⟨hr, hd, hlast, hsp⟩
  · exact .inl ⟨hr, rfl⟩
  · refine .inr ⟨hr, hd, hlast, fun hs => ?_⟩
    cases hsent : d.sent with
    | false => rfl
    | true => simp [hsent] at hs; exact absurd (hsp hs) (by simp [hsent])

/-- **Every move keeps the invariant.** -/
theorem small_keeps_inv (w w' : World) (h : Small w w') (hI : Inv w) : Inv w' := by
  obtain ⟨hen, hq, hS, hidle, hfresh⟩ := hI
  -- an event that accepts nothing leaves the messages of every session alone
  have silent : ∀ e : Event, e.isClosed = false → e.isOpened = false →
      (∀ q, acceptedBy q [e] = []) →
      (∀ l q ms, l <+: w.log ++ [e] → Session l q ms → Discipline ms) ∧
      (w.d.mq = none → ∀ q ms, ¬ Session (w.log ++ [e]) q ms) ∧
      (∀ pre q, pre ++ [.opened q] <+: w.log ++ [e] → ∀ q' ms, ¬ Session pre q' ms) ∧
      ∀ q, w.d.mq = some q → ∃ ms, Session (w.log ++ [e]) q ms ∧ Agrees w.d ms := by
    intro e hc ho hnil
    refine ⟨sessions_snoc hS fun q ms hs => ?_, fun hmq q ms hs => ?_,
      fresh_snoc hfresh fun h => by simp [ho] at h, fun q hmq => ?_⟩
    · obtain ⟨ms', hs', rfl⟩ := hs.of_snoc ho
      rw [hnil, List.append_nil]
      exact hS _ q ms' (List.prefix_refl _) hs'
    · obtain ⟨ms', hs', -⟩ := hs.of_snoc ho
      exact hidle hmq q ms' hs'
    · obtain ⟨ms, hs, ha⟩ := hq q hmq
      refine ⟨ms, ?_, ha⟩
      simpa [hnil] using hs.snoc e hc ho
  cases h with
  | want active =>
    obtain ⟨hS', hidle', hfresh', hq'⟩ := silent (.wanted active) rfl rfl fun _ => rfl
    have hmq' : (motionDeliveryWant w.d active).mq = w.d.mq := by simp [motionDeliveryWant, hen]
    refine ⟨by simp [motionDeliveryWant, hen], fun q hmq => ?_, hS', ?_, hfresh'⟩
    · obtain ⟨ms, hs, ha⟩ := hq' q (hmq' ▸ hmq)
      exact ⟨ms, hs, agrees_want hen active ha⟩
    · exact fun hmq => hidle' (hmq' ▸ hmq)
  | note error retryAfter checkAfter => exact ⟨hen, hq, hS, hidle, hfresh⟩
  | closed q hmq =>
    refine ⟨hen, fun q' h => ?_, sessions_snoc hS fun q' ms hs => absurd hs no_session_closed,
      fun _ _ _ => no_session_closed, fresh_snoc hfresh fun h => ?_⟩
    · cases h
    · cases h
  | probed q hmq =>
    have h1 := sessions_snoc (e := .opened q) hS fun q' ms hs => by
      rw [(session_unique hs (session_opened w.log q)).2]
      exact discipline_nil
    have h2 := sessions_snoc (e := .closed q) h1 fun q' ms hs => absurd hs no_session_closed
    have f1 := fresh_snoc (e := .opened q) hfresh fun _ => hidle hmq
    have f2 := fresh_snoc (e := .closed q) f1 fun h => by cases h
    have elog : w.log ++ [.opened q, .closed q] = w.log ++ [.opened q] ++ [.closed q] := by simp
    refine ⟨hen, fun q' h => absurd (hmq.symm.trans h) nofun, ?_, fun _ q' ms => ?_, ?_⟩
    · exact elog ▸ h2
    · exact elog ▸ no_session_closed
    · exact elog ▸ f2
  | opened q hmq =>
    refine ⟨hen, fun q' h => ?_, sessions_snoc hS fun q' ms hs => ?_, fun h => ?_,
      fresh_snoc hfresh fun _ => hidle hmq⟩
    · cases h
      exact ⟨[], session_opened w.log q, .inl ⟨rfl, rfl⟩⟩
    · rw [(session_unique hs (session_opened w.log q)).2]
      exact discipline_nil
    · cases h
  | accepted q hmq hp =>
    obtain ⟨ms, hs, ha⟩ := hq q hmq
    have hs' := hs.snoc (.accepted q (msgOf (nextActive w.d))) rfl rfl
    have ha' := agrees_markSent ha hen hmq hp
    have e1 : acceptedBy q [.accepted q (msgOf (nextActive w.d))] = [msgOf (nextActive w.d)] := by
      simp [acceptedBy]
    rw [e1] at hs'
    refine ⟨by simp [hen], fun q' h => ?_, sessions_snoc hS fun q' ms' hs'' => ?_, fun h => ?_,
      fresh_snoc hfresh fun h => ?_⟩
    · rw [markSent_mq, hmq] at h
      cases h
      exact ⟨_, hs', ha'⟩
    · obtain ⟨-, rfl⟩ := session_unique hs'' hs'
      exact ha'.discipline
    · rw [markSent_mq, hmq] at h
      cases h
    · cases h
  | refused q e hmq =>
    obtain ⟨hS', hidle', hfresh', hq'⟩ :=
      silent (.refused q (msgOf (nextActive w.d)) e) rfl rfl fun _ => rfl
    exact ⟨hen, hq', hS', hidle', hfresh'⟩

/-- **The invariant on every run.** -/
theorem inv_run (name : String) (ops : List Op) : Inv (deliveryRun name ops) :=
  run_small small_keeps_inv (inv_start name) ops

/-! ## 3. The discipline -/

/-- An idle record: its queue has accepted something, and last what is wanted. -/
theorem idle_session {w : World} (hI : Inv w) (hp : motionDeliveryPending w.d = false) :
    ∃ q ms, w.d.mq = some q ∧ Session w.log q ms ∧ w.d.resetPending = false ∧
      w.d.startPending = false ∧ w.d.sent = w.d.wanted ∧ ms.getLast? = some (msgOf w.d.wanted) := by
  simp only [motionDeliveryPending, hI.enabled, Bool.true_and, Bool.or_eq_false_iff,
    Option.isNone_eq_false_iff, Option.isSome_iff_exists, bne_eq_false_iff_eq] at hp
  obtain ⟨⟨⟨⟨q, hmq⟩, hr⟩, hs⟩, hw⟩ := hp
  obtain ⟨ms, hs', ha⟩ := hI.queue q hmq
  rcases ha with ⟨hr', -⟩ | ⟨-, -, hlast, -⟩
  · rw [hr] at hr'
    cases hr'
  · exact ⟨q, ms, hmq, hs', hr, hs, hw, hw ▸ hlast⟩

/-- From an opening on, as long as nothing is closed nothing is opened either. -/
theorem Inv.no_reopen {w : World} (hI : Inv w) {pre mid : List Event} {q : Queue}
    (hp : pre ++ .opened q :: mid <+: w.log) (hc : ∀ e ∈ mid, e.isClosed = false) :
    ∀ e ∈ mid, e.isClosed = false ∧ e.isOpened = false := by
  -- the induction is on the end of the stretch: its last event is the first that might open
  induction mid using List.reverseRecOn with
  | nil => simp
  | append_singleton mid e ih =>
    have hp' : pre ++ .opened q :: mid <+: w.log :=
      List.IsPrefix.trans ⟨[e], by simp⟩ hp
    have hmid := ih hp' fun x hx => hc x (by simp [hx])
    intro x hx
    rcases List.mem_append.mp hx with hx | hx
    · exact hmid x hx
    · cases List.mem_singleton.mp hx
      refine ⟨hc e (by simp), ?_⟩
      cases e with
      | opened q' =>
        refine absurd ⟨pre, mid, rfl, hmid, rfl⟩ (hI.fresh (pre ++ .opened q :: mid) q' ?_ q _)
        simpa using hp
      | _ => rfl

/-- **Message discipline per queue.** In every run: the messages a queue accepts between its
    opening and the next close are none, or STOP and then strictly alternating; whenever nothing
    is pending, the open queue has accepted something since it was opened and last what is
    wanted; and no tick calls `mq_send` more than twice. -/
theorem message_discipline (name : String) (ops : List Op) :
    (∀ pre q mid post, (deliveryRun name ops).log = pre ++ .opened q :: (mid ++ post) →
      (∀ e ∈ mid, e.isClosed = false) → Discipline (acceptedBy q mid)) ∧
    (motionDeliveryPending (deliveryRun name ops).d = false →
      ∃ q pre mid, (deliveryRun name ops).d.mq = some q ∧
        (deliveryRun name ops).log = pre ++ .opened q :: mid ∧ (∀ e ∈ mid, e.isClosed = false) ∧
        (acceptedBy q mid).getLast? = some (msgOf (deliveryRun name ops).d.wanted)) ∧
    (∀ e, SendsAtMost 2 (deliveryRun name ops) (motionDeliveryTick (deliveryRun name ops) e).1) := by
  have hI := inv_run name ops
  refine ⟨fun pre q mid post h hmid => ?_, fun hp => ?_, fun e => tick_sends e _⟩
  · have hp : pre ++ .opened q :: mid <+: (deliveryRun name ops).log := ⟨post, by simp [h]⟩
    exact hI.sessions _ q _ hp ⟨pre, mid, rfl, hI.no_reopen hp hmid, rfl⟩
  · obtain ⟨q, ms, hmq, ⟨pre, mid, hlog, hmid, rfl⟩, -, -, -, hlast⟩ := idle_session hI hp
    exact ⟨q, pre, mid, hmq, hlog, fun e he => (hmid e he).1, hlast⟩

end YiHack.Motion
