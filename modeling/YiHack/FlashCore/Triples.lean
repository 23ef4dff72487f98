/-
  File:      YiHack/FlashCore/Triples.lean
  Subject:   Rules for the commands of the installation.

  `π` is any view of the camera that does not count failures, `I` what holds at every command
  boundary. A step that does not succeed comes to `fail`, so its rules ask that `fail` keeps `I`.
-/
import YiHack.FlashCore.Frame

namespace YiHack.FlashCore

open General Prog

/-! ## 1. Commands -/

/-- After a command that is followed by `|| fail`. -/
def OrLost {κ : Type} (I T : κ → Prop) (ok : Bool) (v : κ) : Prop := if ok then T v else I v

section

variable {κ : Type} {π : Camera → κ} {I R T : κ → Prop}

theorem orLost_of (hR : ∀ v, R v → I v) (ok : Bool) (v : κ) (h : R v) : OrLost I R ok v := by
  cases ok with
  | true => exact h
  | false => exact hR v h

theorem goes_skip {c : Prog Camera Bool} (hR : ∀ v, R v → I v) (hc : c.Leaves π) :
    Goes π I R c (OrLost I R) :=
  (goes_leaves hc hR).imp (fun _ h => h) (orLost_of hR)

theorem goes_unchecked {c : Prog Camera Bool} (hc : Goes π I R c fun _ => T) :
    Goes π I R (unchecked c) fun _ => T :=
  hc.bind fun _ => goes_pure fun _ h => h

theorem goes_allOf {cs : List (Prog Camera Bool)} (hcs : ∀ c ∈ cs, Goes π I R c fun _ => R) :
    Goes π I R (allOf cs) fun _ => R := by
  induction cs with
  | nil => exact goes_pure fun _ h => h
  | cons c cs ih =>
    obtain ⟨hc, hcs⟩ := List.forall_mem_cons.mp hcs
    exact hc.bind fun ok => goes_ite ((ih hcs).imp (fun _ h => h.1) fun _ _ h => h)
      (goes_pure fun _ h => h.1)

theorem goes_orExit {c : Prog Camera Bool} (hc : Goes π I R c (OrLost I T)) :
    Goes π I R (orExit c) fun _ => T := by
  refine hc.bind fun ok => ?_
  cases ok with
  | true => exact goes_pure fun _ h => h
  | false => exact goes_exit fun _ h => h

theorem Uncounted.counted (hπ : Uncounted π) {s : Camera} (h : R (π s)) (n : Nat) :
    R (π { s with failures := n }) :=
  (congrArg R (hπ s n)).mpr h

variable (hπ : Uncounted π)
include hπ

theorem goes_act {f : Camera → Option Camera} (hR : ∀ v, R v → I v)
    (hf : ∀ s s', R (π s) → f s = some s' → T (π s')) : Goes π I R (act f) (OrLost I T) := by
  refine fun st s hs => ⟨hR _ hs, fun ok _ => ?_⟩
  cases ok with
  | false => exact hπ.counted (hR _ hs) _
  | true =>
    simp only [if_true]
    cases h : f s with
    | none => exact hR _ hs
    | some s' => exact hf s s' hs h

/-- A command that keeps what holds, whether it succeeds or not. -/
theorem goes_act_keeps {f : Camera → Option Camera} (hR : ∀ v, R v → I v)
    (hf : ∀ s s', R (π s) → f s = some s' → R (π s')) : Goes π I R (act f) fun _ => R := by
  refine fun st s hs => ⟨hR _ hs, fun ok _ => ?_⟩
  cases ok with
  | false => exact hπ.counted hs _
  | true =>
    simp only [if_true]
    cases h : f s with
    | none => exact hs
    | some s' => exact hf s s' hs h

theorem goes_rmBackup {f : BackupFile} (hR : ∀ v, R v → I v)
    (hf : ∀ s, R (π s) → R (π (s.rm f))) : Goes π I R (rmBackup f) fun _ => R :=
  goes_unchecked (goes_act_keeps hπ hR fun s _ hs h => Option.some.inj h ▸ hf s hs)

theorem goes_verify {p : Camera → Bool} (hR : ∀ v, R v → I v)
    (hp : ∀ s, R (π s) → p s = true → T (π s)) : Goes π I R (verify p) (OrLost I T) := by
  refine fun st s hs => ⟨hR _ hs, fun ok _ => ?_⟩
  cases ok with
  | false => exact hπ.counted (hR _ hs) _
  | true =>
    simp only [if_true]
    cases h : p s with
    | false => exact hR _ hs
    | true => exact hp s hs h

/-- A test that fails for other reasons too. -/
theorem goes_looks {A : κ → Prop} {p : Camera → Bool} (hR : ∀ v, R v → I v)
    (hp : ∀ s, p s = true → A (π s)) :
    Goes π I R (verify p) fun ok v => R v ∧ (ok = true → A v) := by
  refine fun st s hs => ⟨hR _ hs, fun ok _ => ?_⟩
  cases ok with
  | false => exact ⟨hπ.counted hs _, nofun⟩
  | true => exact ⟨hs, hp s⟩

theorem goes_both {A B : κ → Prop} {p q : Camera → Bool} (hR : ∀ v, R v → I v)
    (hp : ∀ s, p s = true → A (π s)) (hq : ∀ s, q s = true → B (π s)) :
    Goes π I R (allOf [verify p, verify q]) fun ok v => R v ∧ (ok = true → A v ∧ B v) := by
  refine (goes_looks hπ hR hp).bind fun ok => goes_ite ?_ (goes_pure fun _ h => ⟨h.1.1, nofun⟩)
  refine Goes.imp (R := fun v => R v ∧ A v) ?_ (fun _ h => ⟨h.1.1, h.1.2 h.2⟩) fun _ _ h => h
  refine (goes_looks hπ (fun _ h => hR _ h.1) hq).bind fun ok => goes_ite ?_ ?_
  · exact goes_pure fun _ h => ⟨h.1.1.1, fun _ => ⟨h.1.1.2, h.1.2 h.2⟩⟩
  · exact goes_pure fun _ h => ⟨h.1.1.1, nofun⟩

end

/-! ## 2. Steps -/

section

variable {α β H : Type} [DecidableEq H] {P : Package H} {text : String}
  {cs ds : List (Prog Camera Bool × String)}

theorem fail_bind {f : α → Prog Camera β} :
    (fail P text >>= f : Prog Camera β) = fail P text := by
  simp only [fail, Prog.bind_assoc]
  rfl

theorem steps_concat : steps P (cs ++ ds) = steps P cs >>= fun _ => steps P ds := by
  induction cs with
  | nil => rfl
  | cons x cs ih =>
    show (x.1 >>= fun ok => if ok = true then steps P (cs ++ ds) else fail P x.2) = _
    rw [steps, Prog.bind_assoc]
    congr
    funext ok
    cases ok with
    | true => exact ih
    | false => exact fail_bind.symm

variable {κ : Type} {π : Camera → κ} {I R S T : κ → Prop} {c : Prog Camera Bool}

theorem steps_nil : Goes π I R (steps P []) fun _ => R := goes_pure fun _ h => h

theorem steps_append (hcs : Goes π I R (steps P cs) fun _ => T)
    (hds : Goes π I T (steps P ds) fun _ => S) : Goes π I R (steps P (cs ++ ds)) fun _ => S := by
  rw [steps_concat]
  exact hcs.bind fun _ => hds

variable (hfail : ∀ {α : Type} {Q : α → κ → Prop} {text : String}, Goes π I I (fail P text) Q)
include hfail

theorem steps_cons (hc : Goes π I R c (OrLost I T)) (hcs : Goes π I T (steps P cs) fun _ => S) :
    Goes π I R (steps P ((c, text) :: cs)) fun _ => S := by
  refine hc.bind fun ok => ?_
  cases ok with
  | true => exact hcs
  | false => exact hfail

/-- A command that leaves the view alone. -/
theorem steps_skip (hR : ∀ v, R v → I v) (hc : c.Leaves π)
    (hcs : Goes π I R (steps P cs) fun _ => S) : Goes π I R (steps P ((c, text) :: cs)) fun _ => S :=
  steps_cons hfail (goes_skip hR hc) hcs

theorem steps_each (hcs : ∀ x ∈ cs, Goes π I R x.1 (OrLost I R)) :
    Goes π I R (steps P cs) fun _ => R := by
  induction cs with
  | nil => exact steps_nil
  | cons x cs ih =>
    obtain ⟨hx, hcs⟩ := List.forall_mem_cons.mp hcs
    exact steps_cons hfail hx (ih hcs)

theorem steps_keep (hR : ∀ v, R v → I v) (hcs : ∀ x ∈ cs, x.1.Leaves π) :
    Goes π I R (steps P cs) fun _ => R :=
  steps_each hfail fun x hx => goes_skip hR (hcs x hx)

theorem restart_goes {Q : α → κ → Prop} (hπ : Uncounted π) (hR : ∀ v, R v → I v) :
    Goes π I R (restart P) Q := by
  refine goes_then hR (leaves_sync hπ) fun _ => ?_
  refine goes_then hR (leaves_external hπ) fun ok => goes_ite ?_ ?_
  · exact goes_exit fun _ h => hR _ h.1
  · exact hfail.imp (fun _ h => hR _ h.1) fun _ _ h => h

end

end YiHack.FlashCore
