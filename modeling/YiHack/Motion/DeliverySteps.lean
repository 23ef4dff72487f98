/-
  File:      YiHack/Motion/DeliverySteps.lean
  Subject:   What a call of `motion_delivery.h` can do to the record and the log.

  `Small` lists the moves a call is made of: a want, a bookkeeping write, a close, an open that
  stays, an open that is closed at once, one accepted or refused message. `step_small` says that
  every call is a sequence of such moves, so every invariant below is proved over `Small` alone
  and never unfolds `motion_delivery_tick`.
-/
import YiHack.Motion.Delivery
import Mathlib.Logic.Relation

namespace YiHack.Motion

open Relation (ReflTransGen)

/-- One move of a call on an enabled record. -/
inductive Small : World → World → Prop where
  | want (w : World) (active : Bool) :
      Small w ⟨motionDeliveryWant w.d active, w.log ++ [.wanted active]⟩
  | note (w : World) (error : Errno) (retryAfter checkAfter : Int) :
      Small w ⟨{ w.d with error := error, retryAfter := retryAfter, checkAfter := checkAfter },
        w.log⟩
  | closed (w : World) (q : Queue) (h : w.d.mq = some q) :
      Small w ⟨{ w.d with mq := none }, w.log ++ [.closed q]⟩
  | probed (w : World) (q : Queue) (h : w.d.mq = none) :
      Small w ⟨w.d, w.log ++ [.opened q, .closed q]⟩
  | opened (w : World) (q : Queue) (h : w.d.mq = none) :
      Small w ⟨{ w.d with
        mq := some q
        resetPending := true
        startPending := if w.d.wanted then true else w.d.startPending }, w.log ++ [.opened q]⟩
  | accepted (w : World) (q : Queue) (h : w.d.mq = some q) (hp : motionDeliveryPending w.d = true) :
      Small w ⟨markSent w.d (nextActive w.d), w.log ++ [.accepted q (msgOf (nextActive w.d))]⟩
  | refused (w : World) (q : Queue) (e : Errno) (h : w.d.mq = some q) :
      Small w ⟨w.d, w.log ++ [.refused q (msgOf (nextActive w.d)) e]⟩

/-! ## 1. A call is a sequence of moves -/

theorem note_small (w : World) (error : Errno) (retryAfter checkAfter : Int) :
    ReflTransGen Small w
      ⟨{ w.d with error := error, retryAfter := retryAfter, checkAfter := checkAfter }, w.log⟩ :=
  .single (.note w error retryAfter checkAfter)

theorem close_small (w : World) : ReflTransGen Small w (motionDeliveryClose w) := by
  unfold motionDeliveryClose
  cases h : w.d.mq with
  | none => exact .refl
  | some q => exact .single (.closed w q h)

theorem reconnect_small (e : TickEnv) (w : World) (errno : Errno) :
    ReflTransGen Small w (reconnect e w errno).1 := by
  unfold reconnect
  have h1 := note_small w errno w.d.retryAfter w.d.checkAfter
  have h2 := close_small ⟨{ w.d with error := errno }, w.log⟩
  exact (h1.trans h2).trans (note_small _ _ _ _)

theorem sendLoop_small (e : TickEnv) (attempts : List Nat) (w : World) :
    ReflTransGen Small w (sendLoop e attempts w).1 := by
  induction attempts generalizing w with
  | nil => exact note_small w _ _ _
  | cons i attempts ih =>
    unfold sendLoop
    cases hp : motionDeliveryPending w.d with
    | false => exact note_small w _ _ _
    | true =>
      simp only [Bool.not_true, Bool.false_eq_true, if_false]
      split
      · exact reconnect_small e w EBADF
      · rename_i q hq
        split
        · exact .head (.accepted w q hq hp) (ih _)
        · rename_i errno _
          refine .head (.refused w q errno hq) ?_
          split
          · exact note_small _ _ _ _
          · exact reconnect_small e _ errno

theorem checkIdentity_small (e : TickEnv) (w : World) :
    ReflTransGen Small w (checkIdentity e w) := by
  unfold checkIdentity
  split
  · split
    · exact (close_small w).trans (note_small _ _ _ _)
    · exact note_small _ _ _ _
  · exact .refl

/-- A queue that is opened and given up in the same tick, with the way the tick then ends. -/
theorem probe_small (e : TickEnv) (w : World) (q : Queue) (errno : Errno) (h : w.d.mq = none) :
    ReflTransGen Small w
      (reconnect e ⟨{ w.d with mq := some q }, w.log ++ [.opened q]⟩ errno).1 := by
  have h1 : ReflTransGen Small w ⟨w.d, w.log ++ [.opened q, .closed q]⟩ :=
    .single (.probed w q h)
  refine h1.trans ?_
  have h2 := note_small ⟨w.d, w.log ++ [.opened q, .closed q]⟩ errno (e.now + 1000) w.d.checkAfter
  have e1 : (reconnect e ⟨{ w.d with mq := some q }, w.log ++ [.opened q]⟩ errno).1 =
      ⟨{ w.d with error := errno, retryAfter := e.now + 1000, checkAfter := w.d.checkAfter },
        w.log ++ [.opened q, .closed q]⟩ := by
    simp [reconnect, motionDeliveryClose, h]
  rw [e1]
  exact h2

theorem tick_small (e : TickEnv) (w : World) :
    ReflTransGen Small w (motionDeliveryTick w e).1 := by
  unfold motionDeliveryTick
  split
  · exact .refl
  · refine (checkIdentity_small e w).trans ?_
    generalize checkIdentity e w = v
    dsimp only
    split
    · exact sendLoop_small e _ v
    · rename_i hv
      split
      · exact .refl
      · split
        · exact reconnect_small e v _
        · rename_i q _
          split
          · exact probe_small e v q _ hv
          · split
            · exact probe_small e v q _ hv
            · refine .head (.opened v q hv) ?_
              exact (note_small _ _ _ _).trans (sendLoop_small e _ _)

/-- **Every call is a sequence of moves.** -/
theorem step_small (w : World) (op : Op) : ReflTransGen Small w (step w op) := by
  cases op with
  | want active => exact .single (.want w active)
  | tick e => exact tick_small e w

/-- What every move keeps, a sequence of moves keeps. -/
theorem small_inv {I : World → Prop} (hI : ∀ w w', Small w w' → I w → I w') {w w' : World}
    (h : ReflTransGen Small w w') (hw : I w) : I w' := by
  induction h with
  | refl => exact hw
  | tail _ hs ih => exact hI _ _ hs ih

/-- **What every move keeps, every run keeps.** -/
theorem run_small {I : World → Prop} (hI : ∀ w w', Small w w' → I w → I w') {w : World}
    (hw : I w) (ops : List Op) : I (General.run step w ops) :=
  General.run_inv (fun v op hv => small_inv hI (step_small v op) hv) hw ops

/-! ## 2. How many messages one tick offers -/

/-- The event is a call of `mq_send`. -/
def Event.isSend : Event → Bool
  | .accepted _ _ => true
  | .refused _ _ _ => true
  | _ => false

/-- `w'` extends the log of `w` by events with at most `n` sends among them. -/
def SendsAtMost (n : Nat) (w w' : World) : Prop :=
  ∃ new, w'.log = w.log ++ new ∧ new.countP Event.isSend ≤ n

theorem sendsAtMost_refl (w : World) (d : MotionDelivery) : SendsAtMost 0 w ⟨d, w.log⟩ :=
  ⟨[], by simp, by simp⟩

theorem SendsAtMost.trans {m n : Nat} {u v w : World} (h : SendsAtMost m u v)
    (h' : SendsAtMost n v w) : SendsAtMost (m + n) u w := by
  obtain ⟨a, ha, hm⟩ := h
  obtain ⟨b, hb, hn⟩ := h'
  exact ⟨a ++ b, by rw [hb, ha, List.append_assoc], by rw [List.countP_append]; omega⟩

theorem SendsAtMost.mono {m n : Nat} {u v : World} (h : SendsAtMost m u v) (hmn : m ≤ n) :
    SendsAtMost n u v := by
  obtain ⟨a, ha, hm⟩ := h
  exact ⟨a, ha, by omega⟩

theorem close_sends (w : World) : SendsAtMost 0 w (motionDeliveryClose w) := by
  unfold motionDeliveryClose
  cases w.d.mq with
  | none => exact sendsAtMost_refl w w.d
  | some q => exact ⟨[.closed q], rfl, by simp [Event.isSend]⟩

theorem reconnect_sends (e : TickEnv) (w : World) (errno : Errno) :
    SendsAtMost 0 w (reconnect e w errno).1 :=
  (close_sends ⟨{ w.d with error := errno }, w.log⟩).trans (sendsAtMost_refl _ _)

theorem checkIdentity_sends (e : TickEnv) (w : World) : SendsAtMost 0 w (checkIdentity e w) := by
  unfold checkIdentity
  split
  · split
    · exact (close_sends w).trans (sendsAtMost_refl _ _)
    · exact sendsAtMost_refl _ _
  · exact sendsAtMost_refl w w.d

theorem sendLoop_sends (e : TickEnv) (attempts : List Nat) (w : World) :
    SendsAtMost attempts.length w (sendLoop e attempts w).1 := by
  induction attempts generalizing w with
  | nil => exact sendsAtMost_refl w _
  | cons i attempts ih =>
    unfold sendLoop
    split
    · exact (sendsAtMost_refl w _).mono (by simp)
    · dsimp only
      split
      · exact (reconnect_sends e w EBADF).mono (by simp)
      · rename_i q _
        have one : ∀ (d : MotionDelivery) (ev : Event), SendsAtMost 1 w ⟨d, w.log ++ [ev]⟩ :=
          fun d ev => ⟨[ev], rfl, by simp [List.countP_cons]; split <;> omega⟩
        split
        · exact ((one _ _).trans (ih _)).mono (by simp; omega)
        · split
          · exact (one _ _).mono (by simp)
          · exact ((one w.d _).trans (reconnect_sends e _ _)).mono (by simp)

/-- **One tick sends at most two messages**, accepted or not. -/
theorem tick_sends (e : TickEnv) (w : World) : SendsAtMost 2 w (motionDeliveryTick w e).1 := by
  unfold motionDeliveryTick
  split
  · exact (sendsAtMost_refl w w.d).mono (by omega)
  · have h0 := checkIdentity_sends e w
    generalize checkIdentity e w = v at h0 ⊢
    refine (h0.trans (n := 2) ?_).mono (by omega)
    have opening : ∀ (d : MotionDelivery) (q : Queue),
        SendsAtMost 0 v ⟨d, v.log ++ [.opened q]⟩ :=
      fun d q => ⟨[.opened q], rfl, by simp [Event.isSend]⟩
    dsimp only
    split
    · exact sendLoop_sends e [0, 1] v
    · split
      · exact (sendsAtMost_refl v v.d).mono (by omega)
      · split
        · exact (reconnect_sends e v _).mono (by omega)
        · split
          · exact ((opening _ _).trans (reconnect_sends e _ _)).mono (by omega)
          · split
            · exact ((opening _ _).trans (reconnect_sends e _ _)).mono (by omega)
            · exact ((opening _ _).trans (sendLoop_sends e [0, 1] _)).mono (by simp)

end YiHack.Motion
