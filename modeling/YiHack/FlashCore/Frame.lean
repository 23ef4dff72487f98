/-
  File:      YiHack/FlashCore/Frame.lean
  Subject:   What the scripts of the installation leave alone, command by command.

  `π` is any view of the camera that does not count failures.
-/
import YiHack.FlashCore.Script

namespace YiHack.FlashCore

open General Prog

variable {α κ H : Type} [DecidableEq H] {P : Package H} {π : Camera → κ}

/-- A view that does not count failures. -/
def Uncounted (π : Camera → κ) : Prop := ∀ s n, π { s with failures := n } = π s

section

variable (hπ : Uncounted π)
include hπ

theorem leaves_act {f : Camera → Option Camera} (hf : ∀ s s', f s = some s' → π s' = π s) :
    (act f).Leaves π := by
  refine ⟨fun ok s => ?_, fun _ _ => trivial⟩
  cases ok with
  | false => exact hπ s _
  | true =>
    simp only [if_true]
    split
    · next s' h => exact hf s s' h
    · rfl

theorem leaves_put {g : Camera → Camera} (hg : ∀ s, π (g s) = π s) :
    (act fun s => some (g s)).Leaves π :=
  leaves_act hπ fun s _ h => Option.some.inj h ▸ hg s

theorem leaves_verify {p : Camera → Bool} : (verify p).Leaves π := by
  refine ⟨fun ok s => ?_, fun _ _ => trivial⟩
  cases ok with
  | false => exact hπ s _
  | true => rfl

theorem leaves_external : external.Leaves π := leaves_verify hπ

theorem leaves_sync : sync.Leaves π := (leaves_external hπ).bind fun _ => trivial

theorem leaves_rmBackup {f : BackupFile} (hf : ∀ s : Camera, π (s.rm f) = π s) :
    (rmBackup f).Leaves π := (leaves_put hπ hf).bind fun _ => trivial

end

theorem leaves_unchecked {c : Prog Camera Bool} (hc : c.Leaves π) : (unchecked c).Leaves π :=
  hc.bind fun _ => trivial

theorem leaves_onlyIf {p : Camera → Bool} {c : Prog Camera Bool} (hc : c.Leaves π) :
    (onlyIf p c).Leaves π := leaves_test.bind fun _ => leaves_ite hc trivial

theorem leaves_orExit {c : Prog Camera Bool} (hc : c.Leaves π) : (orExit c).Leaves π :=
  hc.bind fun _ => leaves_ite trivial trivial

theorem leaves_allOf {cs : List (Prog Camera Bool)} (hcs : ∀ c ∈ cs, c.Leaves π) :
    (allOf cs).Leaves π := by
  induction cs with
  | nil => trivial
  | cons c cs ih =>
    obtain ⟨hc, hcs⟩ := List.forall_mem_cons.mp hcs
    exact hc.bind fun _ => leaves_ite (ih hcs) trivial

theorem leaves_anyOf {cs : List (Prog Camera Bool)} (hcs : ∀ c ∈ cs, c.Leaves π) :
    (anyOf cs).Leaves π := by
  induction cs with
  | nil => trivial
  | cons c cs ih =>
    obtain ⟨hc, hcs⟩ := List.forall_mem_cons.mp hcs
    exact hc.bind fun _ => leaves_ite trivial (ih hcs)

theorem leaves_steps (hfail : ∀ text, (fail P text : Prog Camera Unit).Leaves π)
    {cs : List (Prog Camera Bool × String)} (hcs : ∀ x ∈ cs, x.1.Leaves π) :
    (steps P cs).Leaves π := by
  induction cs with
  | nil => trivial
  | cons x cs ih =>
    obtain ⟨hx, hcs⟩ := List.forall_mem_cons.mp hcs
    exact hx.bind fun _ => leaves_ite (ih hcs) (hfail x.2)

end YiHack.FlashCore
