/-
  File:      YiHack/General/Shell.lean
  Subject:   Shell scripts: commands that end well or not, `exit`, a trap, signals.

  Names nothing of the repository. A script is a tree of commands over a state; what the
  surroundings decide (how a command ends, when a signal comes) is the machine's input.

  * `Prog`, `Config.step` -- scripts, and one step of the machine that runs them under a trap;
  * `Prog.Safe` -- a script goes well from a state: at every command boundary, at every `exit` and
    at the end what is promised there holds;
  * `Prog.Safe.bind` -- scripts one after the other;
  * `step_safe`, `run_safe` -- what goes well keeps going well, over one step and over a run;
  * `Prog.Leaves`, `Prog.Leaves.then` -- what a script does not touch;
  * `Prog.Blind`, `Prog.Blind.safe` -- what it does not look at;
  * `Prog.Goes` -- Hoare triples over a view of the state;
  * `Prog.Well`, `Prog.Well.reached` -- what a script does when every command ends well, which is one
    of its runs;
  * `Prog.Lands`, `Prog.Ends.finished` -- where scripts end, as long as commands end in ways that are
    allowed, and where their runs do;
  * `Prog.Answers`, `Prog.Returns.step` -- triples that also say what an `exit` means by its status,
    over one step.
-/
import YiHack.General.Run

namespace YiHack.General

/-- A script: it is over, it exits with a status, or it runs a command. The command sees how the
    surroundings let it end, and gives a state and a status; both decide what comes next. -/
inductive Prog (σ α : Type)
  | pure (a : α)
  | exit (ok : Bool)
  | cmd (run : Bool → σ → σ × Bool) (next : Bool → σ → Prog σ α)

namespace Prog

variable {σ α β : Type}

/-- One script after the other. -/
def bind : Prog σ α → (α → Prog σ β) → Prog σ β
  | pure a, f => f a
  | exit ok, _ => exit ok
  | cmd run next, f => cmd run fun ok s => (next ok s).bind f

instance : Monad (Prog σ) where
  pure := Prog.pure
  bind := Prog.bind

theorem bind_assoc {γ : Type} (p : Prog σ α) (f : α → Prog σ β) (g : β → Prog σ γ) :
    p >>= f >>= g = p >>= fun a => f a >>= g := by
  induction p with
  | pure a => rfl
  | exit ok => rfl
  | cmd run next ih => exact congrArg (cmd run) (funext fun ok => funext fun s => ih ok s)

/-! ## 1. Commands -/

/-- A command: where it can and the surroundings let it, it changes the state; else nothing. -/
def command (f : σ → Option σ) : Prog σ Bool :=
  cmd (fun ok s => if ok then match f s with | some s' => (s', true) | none => (s, false)
    else (s, false)) fun ok _ => pure ok

/-- A command that only looks, and ends as the surroundings say. -/
def check : Prog σ Bool := cmd (fun ok s => (s, ok)) fun ok _ => pure ok

/-- `[ ... ]` on the state. -/
def test (p : σ → Bool) : Prog σ Bool := cmd (fun _ s => (s, p s)) fun ok _ => pure ok

/-- Assignments and builtins, which do not fail. -/
def assign (f : σ → σ) : Prog σ Unit := cmd (fun _ s => (f s, true)) fun _ _ => pure ()

/-- `x=$(...)`: a value of the state, and whether the command that prints it succeeds. -/
def capture (ok : σ → Bool) (g : σ → α) : Prog σ α :=
  cmd (fun _ s => (s, ok s)) fun _ s => pure (g s)

/-! ## 2. What goes well -/

section Safe

variable (A : σ → Bool → Prop) (N : Bool → σ → Prop)

/-- The script goes well from a state and the status of the last command, as long as commands end
    in ways `A` allows: `N` holds before each command, and of the status an `exit` gives, and `Q` at
    the end. -/
def Safe (Q : α → Bool → σ → Prop) : Prog σ α → Bool → σ → Prop
  | pure a, st, s => Q a st s
  | exit ok, st, s => N st s ∧ N ok s
  | cmd run next, st, s => N st s ∧ ∀ ok, A s ok →
      Safe Q (next (run ok s).2 (run ok s).1) (run ok s).2 (run ok s).1

variable {A N}

theorem safe_bind {Q : β → Bool → σ → Prop} {p : Prog σ α} {f : α → Prog σ β} {st : Bool} {s : σ} :
    Safe A N Q (p.bind f) st s ↔ Safe A N (fun a => Safe A N Q (f a)) p st s := by
  induction p generalizing st s with
  | pure a => exact Iff.rfl
  | exit ok => exact Iff.rfl
  | cmd run next ih =>
    refine and_congr_right fun _ => forall_congr' fun ok => forall_congr' fun _ => ?_
    exact ih _ _

theorem Safe.mono {Q Q' : α → Bool → σ → Prop} {p : Prog σ α} {st : Bool} {s : σ}
    (h : Safe A N Q p st s) (hQ : ∀ a st s, Q a st s → Q' a st s) : Safe A N Q' p st s := by
  induction p generalizing st s with
  | pure a => exact hQ a st s h
  | exit ok => exact h
  | cmd run next ih => exact ⟨h.1, fun ok hok => ih _ _ (h.2 ok hok)⟩

theorem Safe.imp {A' : σ → Bool → Prop} {N' : Bool → σ → Prop} {Q : α → Bool → σ → Prop}
    {p : Prog σ α} {st : Bool} {s : σ} (h : Safe A N Q p st s) (hA : ∀ s ok, A' s ok → A s ok)
    (hN : ∀ st s, N st s → N' st s) : Safe A' N' Q p st s := by
  induction p generalizing st s with
  | pure a => exact h
  | exit ok => exact ⟨hN _ _ h.1, hN _ _ h.2⟩
  | cmd run next ih => exact ⟨hN _ _ h.1, fun ok hok => ih _ _ (h.2 ok (hA _ _ hok))⟩

/-- **Scripts one after the other**: the second goes well from wherever the first ends. -/
theorem Safe.bind {R : α → Bool → σ → Prop} {Q : β → Bool → σ → Prop} {p : Prog σ α}
    {f : α → Prog σ β} {st : Bool} {s : σ} (h : Safe A N R p st s)
    (hf : ∀ a st s, R a st s → Safe A N Q (f a) st s) : Safe A N Q (p >>= f) st s :=
  safe_bind.mpr (h.mono hf)

/-- A script with nothing after it. -/
theorem safe_last {Q : α → Bool → σ → Prop} {p : Prog σ α} {st : Bool} {s : σ}
    (h : Safe A N Q (p >>= Prog.pure) st s) : Safe A N Q p st s := safe_bind.mp h

theorem safe_command {Q : Bool → Bool → σ → Prop} {f : σ → Option σ} {st : Bool} {s : σ}
    (hN : N st s) (hdone : ∀ s', A s true → f s = some s' → Q true true s')
    (hnot : A s false ∨ f s = none → Q false false s) : Safe A N Q (command f) st s := by
  refine ⟨hN, fun ok hok => ?_⟩
  cases ok with
  | false => exact hnot (.inl hok)
  | true =>
    simp only [if_true]
    cases hf : f s with
    | none => exact hnot (.inr hf)
    | some s' => exact hdone s' hok hf

theorem safe_check {Q : Bool → Bool → σ → Prop} {st : Bool} {s : σ} (hN : N st s)
    (hQ : ∀ ok, A s ok → Q ok ok s) : Safe A N Q check st s :=
  ⟨hN, hQ⟩

theorem safe_test {Q : Bool → Bool → σ → Prop} {p : σ → Bool} {st : Bool} {s : σ} (hN : N st s)
    (hQ : Q (p s) (p s) s) : Safe A N Q (test p) st s :=
  ⟨hN, fun _ _ => hQ⟩

theorem safe_assign {Q : Unit → Bool → σ → Prop} {f : σ → σ} {st : Bool} {s : σ} (hN : N st s)
    (hQ : Q () true (f s)) : Safe A N Q (assign f) st s :=
  ⟨hN, fun _ _ => hQ⟩

theorem safe_exit {Q : α → Bool → σ → Prop} {ok st : Bool} {s : σ} (hN : N st s) (hok : N ok s) :
    Safe A N Q (exit ok) st s :=
  ⟨hN, hok⟩

/-! ### A command and what follows -/

theorem command_then {Q : β → Bool → σ → Prop} {f : σ → Option σ} {g : Bool → Prog σ β} {st : Bool}
    {s : σ} (hN : N st s) (hdone : ∀ s', A s true → f s = some s' → Safe A N Q (g true) true s')
    (hnot : A s false ∨ f s = none → Safe A N Q (g false) false s) :
    Safe A N Q (command f >>= g) st s :=
  safe_bind.mpr (safe_command (Q := fun a => Safe A N Q (g a)) hN hdone hnot)

theorem check_then {Q : β → Bool → σ → Prop} {g : Bool → Prog σ β} {st : Bool} {s : σ}
    (hN : N st s) (hQ : ∀ ok, A s ok → Safe A N Q (g ok) ok s) : Safe A N Q (check >>= g) st s :=
  ⟨hN, hQ⟩

theorem test_then {Q : β → Bool → σ → Prop} {p : σ → Bool} {g : Bool → Prog σ β} {st : Bool} {s : σ}
    (hN : N st s) (hQ : Safe A N Q (g (p s)) (p s) s) : Safe A N Q (test p >>= g) st s :=
  ⟨hN, fun _ _ => hQ⟩

theorem assign_then {Q : β → Bool → σ → Prop} {f : σ → σ} {g : Unit → Prog σ β} {st : Bool} {s : σ}
    (hN : N st s) (hQ : Safe A N Q (g ()) true (f s)) : Safe A N Q (assign f >>= g) st s :=
  ⟨hN, fun _ _ => hQ⟩

theorem capture_then {Q : β → Bool → σ → Prop} {ok : σ → Bool} {v : σ → α} {g : α → Prog σ β}
    {st : Bool} {s : σ} (hN : N st s) (hQ : Safe A N Q (g (v s)) (ok s) s) :
    Safe A N Q (capture ok v >>= g) st s :=
  ⟨hN, fun _ _ => hQ⟩

end Safe

/-! ## 3. What a script leaves alone -/

section Leaves

variable {κ : Type} (π : σ → κ)

/-- No command of the script changes `π`. -/
def Leaves : Prog σ α → Prop
  | pure _ => True
  | exit _ => True
  | cmd run next => (∀ ok s, π (run ok s).1 = π s) ∧ ∀ ok s, Leaves (next ok s)

variable {π}

theorem Leaves.bind {p : Prog σ α} {f : α → Prog σ β} (hp : p.Leaves π) (hf : ∀ a, (f a).Leaves π) :
    (p >>= f).Leaves π := by
  show (p.bind f).Leaves π
  induction p with
  | pure a => exact hf a
  | exit ok => trivial
  | cmd run next ih => exact ⟨hp.1, fun ok s => ih ok s (hp.2 ok s)⟩

theorem leaves_test {p : σ → Bool} : (test p).Leaves π := ⟨fun _ _ => rfl, fun _ _ => trivial⟩

theorem leaves_assign {f : σ → σ} (hf : ∀ s, π (f s) = π s) : (assign f).Leaves π :=
  ⟨fun _ s => hf s, fun _ _ => trivial⟩

theorem leaves_check : (check : Prog σ Bool).Leaves π := ⟨fun _ _ => rfl, fun _ _ => trivial⟩

theorem leaves_capture {ok : σ → Bool} {g : σ → α} : (capture ok g).Leaves π :=
  ⟨fun _ _ => rfl, fun _ _ => trivial⟩

theorem leaves_command {f : σ → Option σ} (hf : ∀ s s', f s = some s' → π s' = π s) :
    (command f).Leaves π := by
  refine ⟨fun ok s => ?_, fun _ _ => trivial⟩
  cases ok with
  | false => rfl
  | true =>
    simp only [if_true]
    cases h : f s with
    | none => rfl
    | some s' => exact hf s s' h

theorem leaves_ite {c : Prop} [Decidable c] {p q : Prog σ α} (hp : p.Leaves π) (hq : q.Leaves π) :
    (if c then p else q).Leaves π := by
  split
  · exact hp
  · exact hq

/-- **What is said of `π` holds all the way.** -/
theorem Leaves.safe {p : Prog σ α} (hp : p.Leaves π) (st : Bool) (s : σ) :
    Safe (fun _ _ => True) (fun _ s' => π s' = π s) (fun _ _ s' => π s' = π s) p st s := by
  suffices h : ∀ s', π s' = π s → ∀ st,
      Safe (fun _ _ => True) (fun _ s' => π s' = π s) (fun _ _ s' => π s' = π s) p st s' from h s rfl st
  induction p with
  | pure a => exact fun s' h st => h
  | exit ok => exact fun s' h st => ⟨h, h⟩
  | cmd run next ih =>
    exact fun s' h st => ⟨h, fun ok _ => ih _ _ (hp.2 _ _) _ ((hp.1 ok s').trans h) _⟩

/-- A script that leaves alone what `N` is about, and what follows. -/
theorem Leaves.then {A : σ → Bool → Prop} {N : Bool → σ → Prop} {Q : β → Bool → σ → Prop}
    {p : Prog σ α} {f : α → Prog σ β} {st : Bool} {s : σ} (hp : p.Leaves π)
    (hN : ∀ st s', π s' = π s → N st s') (h : ∀ a st s', π s' = π s → Safe A N Q (f a) st s') :
    Safe A N Q (p >>= f) st s :=
  ((hp.safe st s).imp (fun _ _ _ => trivial) hN).bind h

/-- Less is left alone. -/
theorem Leaves.map {κ' : Type} (f : κ → κ') {p : Prog σ α} (hp : p.Leaves π) :
    p.Leaves fun s => f (π s) := by
  induction p with
  | pure a => trivial
  | exit ok => trivial
  | cmd run next ih => exact ⟨fun ok s => congrArg f (hp.1 ok s), fun ok s => ih ok s (hp.2 ok s)⟩

end Leaves

/-! ### What it does not look at -/

section Blind

variable (e : σ → σ)

/-- The script works on `e s` as it does on `s`. -/
def Blind : Prog σ α → Prop
  | pure _ => True
  | exit _ => True
  | cmd run next => (∀ ok s, run ok (e s) = (e (run ok s).1, (run ok s).2)) ∧
      ∀ ok s, next ok (e s) = next ok s ∧ Blind (next ok s)

variable {e}

theorem Blind.bind {p : Prog σ α} {f : α → Prog σ β} (hp : p.Blind e) (hf : ∀ a, (f a).Blind e) :
    (p >>= f).Blind e := by
  show (p.bind f).Blind e
  induction p with
  | pure a => exact hf a
  | exit ok => trivial
  | cmd run next ih =>
    exact ⟨hp.1, fun ok s => ⟨congrArg (·.bind f) (hp.2 ok s).1, ih ok s (hp.2 ok s).2⟩⟩

theorem blind_check : (check : Prog σ Bool).Blind e :=
  ⟨fun _ _ => rfl, fun _ _ => ⟨rfl, trivial⟩⟩

theorem blind_test {p : σ → Bool} (hp : ∀ s, p (e s) = p s) : (test p).Blind e :=
  ⟨fun _ s => congrArg (Prod.mk (e s)) (hp s), fun _ _ => ⟨rfl, trivial⟩⟩

theorem blind_assign {f : σ → σ} (hf : ∀ s, f (e s) = e (f s)) : (assign f).Blind e :=
  ⟨fun _ s => congrArg (·, true) (hf s), fun _ _ => ⟨rfl, trivial⟩⟩

theorem blind_capture {ok : σ → Bool} {g : σ → α} (hok : ∀ s, ok (e s) = ok s)
    (hg : ∀ s, g (e s) = g s) : (capture ok g).Blind e :=
  ⟨fun _ s => congrArg (Prod.mk (e s)) (hok s), fun _ s => ⟨congrArg pure (hg s), trivial⟩⟩

theorem blind_command {f : σ → Option σ} (hf : ∀ s, f (e s) = (f s).map e) :
    (command f).Blind e := by
  refine ⟨fun ok s => ?_, fun _ _ => ⟨rfl, trivial⟩⟩
  cases ok with
  | false => rfl
  | true =>
    simp only [if_true, hf]
    cases f s <;> rfl

/-- **What a script does not look at may change under it.** -/
theorem Blind.safe {A : σ → Bool → Prop} {N : Bool → σ → Prop} {Q : α → Bool → σ → Prop}
    {p : Prog σ α} {st : Bool} {s : σ} (hp : p.Blind e) (hA : ∀ s ok, A (e s) ok → A s ok)
    (hN : ∀ st s, N st s → N st (e s)) (hQ : ∀ a st s, Q a st s → Q a st (e s))
    (h : Safe A N Q p st s) : Safe A N Q p st (e s) := by
  induction p generalizing st s with
  | pure a => exact hQ a st s h
  | exit ok => exact ⟨hN _ _ h.1, hN _ _ h.2⟩
  | cmd run next ih =>
    refine ⟨hN _ _ h.1, fun ok hok => ?_⟩
    rw [hp.1 ok s, (hp.2 _ _).1]
    exact ih _ _ (hp.2 _ _).2 (h.2 ok (hA s ok hok))

end Blind

/-! ## 4. Triples -/

section Goes

variable {κ : Type} (π : σ → κ) (I : κ → Prop)

/-- From `R` the script keeps `I` at every command boundary and ends in `Q`, all of them said of
    what `π` shows. -/
def Goes (R : κ → Prop) (p : Prog σ α) (Q : α → κ → Prop) : Prop :=
  ∀ st s, R (π s) → p.Safe (fun _ _ => True) (fun _ s => I (π s)) (fun a _ s => Q a (π s)) st s

variable {π I} {R : κ → Prop}

theorem Goes.bind {T : α → κ → Prop} {Q : β → κ → Prop} {p : Prog σ α} {f : α → Prog σ β}
    (hp : Goes π I R p T) (hf : ∀ a, Goes π I (T a) (f a) Q) : Goes π I R (p >>= f) Q :=
  fun st s hs => (hp st s hs).bind fun a st s h => hf a st s h

theorem Goes.imp {R' : κ → Prop} {Q Q' : α → κ → Prop} {p : Prog σ α} (hp : Goes π I R p Q)
    (hR : ∀ v, R' v → R v) (hQ : ∀ a v, Q a v → Q' a v) : Goes π I R' p Q' :=
  fun st s hs => (hp st s (hR _ hs)).mono fun a _ s h => hQ a (π s) h

theorem goes_pure {Q : α → κ → Prop} {a : α} (h : ∀ v, R v → Q a v) :
    Goes π I R (Prog.pure a : Prog σ α) Q :=
  fun _ s hs => h (π s) hs

theorem goes_exit {Q : α → κ → Prop} {ok : Bool} (hR : ∀ v, R v → I v) :
    Goes π I R (exit ok : Prog σ α) Q :=
  fun _ _ hs => ⟨hR _ hs, hR _ hs⟩

theorem goes_test {Q : Bool → κ → Prop} {p : σ → Bool} (hR : ∀ v, R v → I v)
    (hp : ∀ s, R (π s) → Q (p s) (π s)) : Goes π I R (test p) Q :=
  fun _ s hs => ⟨hR _ hs, fun _ _ => hp s hs⟩

theorem goes_ite {Q : α → κ → Prop} {c : Bool} {p q : Prog σ α}
    (hp : Goes π I (fun v => R v ∧ c = true) p Q) (hq : Goes π I (fun v => R v ∧ c = false) q Q) :
    Goes π I R (if c = true then p else q) Q := by
  cases c with
  | true => exact hp.imp (fun _ h => ⟨h, rfl⟩) fun _ _ h => h
  | false => exact hq.imp (fun _ h => ⟨h, rfl⟩) fun _ _ h => h

/-- A script that leaves the view alone. -/
theorem goes_leaves {p : Prog σ α} (hp : p.Leaves π) (hR : ∀ v, R v → I v) :
    Goes π I R p fun _ => R := by
  intro st s hs
  refine ((hp.safe st s).imp (fun _ _ _ => trivial) fun _ s' he => ?_).mono fun _ _ s' he => ?_
  · exact hR _ (he ▸ hs)
  · exact he ▸ hs

theorem goes_then {Q : β → κ → Prop} {p : Prog σ α} {f : α → Prog σ β} (hR : ∀ v, R v → I v)
    (hp : p.Leaves π) (hf : ∀ a, Goes π I R (f a) Q) : Goes π I R (p >>= f) Q :=
  (goes_leaves hp hR).bind hf

/-- A script that leaves alone what `R` is about. -/
theorem goes_frame {κ' : Type} {f : κ → κ'} {p : Prog σ α} (hp : p.Leaves fun s => f (π s))
    (hf : ∀ v w, f w = f v → R v → R w) (hR : ∀ v, R v → I v) : Goes π I R p fun _ => R := by
  intro st s hs
  refine ((hp.safe st s).imp (fun _ _ _ => trivial) fun _ s' he => ?_).mono fun _ _ s' he => ?_
  · exact hR _ (hf _ _ he hs)
  · exact hf _ _ he hs

end Goes

/-! ## 5. When every command ends well -/

/-- Every command ends well: `E` holds where the script exits, `Q` where it comes to its end. -/
def Well (E : σ → Prop) (Q : α → σ → Prop) : Prog σ α → σ → Prop
  | pure a, s => Q a s
  | exit _, s => E s
  | cmd run next, s => Well E Q (next (run true s).2 (run true s).1) (run true s).1

theorem well_bind {E : σ → Prop} {Q : β → σ → Prop} {p : Prog σ α} {f : α → Prog σ β} {s : σ} :
    Well E Q (p >>= f) s ↔ Well E (fun a => Well E Q (f a)) p s := by
  induction p generalizing s with
  | pure a => exact Iff.rfl
  | exit ok => exact Iff.rfl
  | cmd run next ih => exact ih _ _

theorem Well.mono {E : σ → Prop} {Q Q' : α → σ → Prop} {p : Prog σ α} {s : σ} (h : Well E Q p s)
    (hQ : ∀ a s, Q a s → Q' a s) : Well E Q' p s := by
  induction p generalizing s with
  | pure a => exact hQ a s h
  | exit ok => exact h
  | cmd run next ih => exact ih _ _ h

/-- One script after the other. -/
theorem Well.bind {E : σ → Prop} {R : α → σ → Prop} {Q : β → σ → Prop} {p : Prog σ α}
    {f : α → Prog σ β} {s : σ} (h : Well E R p s) (hf : ∀ a s, R a s → Well E Q (f a) s) :
    Well E Q (p >>= f) s :=
  well_bind.mpr (h.mono hf)

theorem well_assign {E : σ → Prop} {Q : β → σ → Prop} {f : σ → σ} {g : Unit → Prog σ β} {s : σ}
    (h : Well E Q (g ()) (f s)) : Well E Q (assign f >>= g) s := h

theorem well_check {E : σ → Prop} {Q : β → σ → Prop} {g : Bool → Prog σ β} {s : σ}
    (h : Well E Q (g true) s) : Well E Q (check >>= g) s := h

theorem well_command {E : σ → Prop} {Q : β → σ → Prop} {f : σ → Option σ} {g : Bool → Prog σ β}
    {s s' : σ} (hf : f s = some s') (h : Well E Q (g true) s') : Well E Q (command f >>= g) s := by
  refine well_bind.mpr ?_
  simp only [command, Well, if_true, hf]
  exact h

/-- What is safe on the way holds where every command ends well. -/
theorem Safe.well {N : Bool → σ → Prop} {E : σ → Prop} {Q : α → Bool → σ → Prop} {T : α → σ → Prop}
    {p : Prog σ α} {st : Bool} {s : σ} (h : p.Safe (fun _ _ => True) N Q st s)
    (hw : p.Well E T s) : p.Well E (fun a s => (∃ st, Q a st s) ∧ T a s) s := by
  induction p generalizing st s with
  | pure a => exact ⟨⟨st, h⟩, hw⟩
  | exit ok => exact hw
  | cmd run next ih => exact ih _ _ (h.2 true trivial) hw

theorem Goes.well {κ : Type} {π : σ → κ} {I R : κ → Prop} {Q : α → κ → Prop} {E : σ → Prop}
    {T : α → σ → Prop} {p : Prog σ α} {s : σ} (h : Goes π I R p Q) (hs : R (π s))
    (hw : p.Well E T s) : p.Well E (fun a s => Q a (π s) ∧ T a s) s :=
  (Safe.well (h true s hs) hw).mono fun _ _ ha => ⟨ha.1.elim fun _ h => h, ha.2⟩

/-! ## 6. Where a script ends -/

section Ends

variable (A : σ → Bool → Prop) (E : σ → Prop)

/-- As long as commands end in ways `A` allows, `E` holds where the script exits, and `Q` where it
    comes to its end. -/
def Ends (Q : α → σ → Prop) : Prog σ α → σ → Prop
  | pure a, s => Q a s
  | exit _, s => E s
  | cmd run next, s => ∀ ok, A s ok → Ends Q (next (run ok s).2 (run ok s).1) (run ok s).1

variable {A E}

theorem ends_bind {Q : β → σ → Prop} {p : Prog σ α} {f : α → Prog σ β} {s : σ} :
    Ends A E Q (p >>= f) s ↔ Ends A E (fun a => Ends A E Q (f a)) p s := by
  induction p generalizing s with
  | pure a => exact Iff.rfl
  | exit ok => exact Iff.rfl
  | cmd run next ih => exact forall_congr' fun ok => forall_congr' fun _ => ih _ _

theorem Ends.mono {Q Q' : α → σ → Prop} {p : Prog σ α} {s : σ} (h : Ends A E Q p s)
    (hQ : ∀ a s, Q a s → Q' a s) : Ends A E Q' p s := by
  induction p generalizing s with
  | pure a => exact hQ a s h
  | exit ok => exact h
  | cmd run next ih => exact fun ok hok => ih _ _ (h ok hok)

/-- What `E` and `Q` say of what the script leaves alone they say at its end. -/
theorem Leaves.ends {κ : Type} {π : σ → κ} {Q : α → σ → Prop} {p : Prog σ α} (hp : p.Leaves π)
    {s : σ} (hE : ∀ s', π s' = π s → E s') (hQ : ∀ a s', π s' = π s → Q a s') :
    Ends A E Q p s := by
  induction p generalizing s with
  | pure a => exact hQ a s rfl
  | exit ok => exact hE s rfl
  | cmd run next ih =>
    intro ok _
    have hrun := hp.1 ok s
    exact ih _ _ (hp.2 _ _) (fun s' h => hE s' (h.trans hrun)) fun a s' h => hQ a s' (h.trans hrun)

end Ends

section Lands

variable {κ : Type} (A : σ → Bool → Prop) (π : σ → κ) (E : κ → Prop)

/-- From `R` the script exits where `E` holds or ends in `Q`, all of them said of what `π` shows. -/
def Lands (R : κ → Prop) (p : Prog σ α) (Q : α → κ → Prop) : Prop :=
  ∀ s, R (π s) → p.Ends A (fun s => E (π s)) (fun a s => Q a (π s)) s

variable {A π E} {R : κ → Prop}

theorem Lands.bind {T : α → κ → Prop} {Q : β → κ → Prop} {p : Prog σ α} {f : α → Prog σ β}
    (hp : Lands A π E R p T) (hf : ∀ a, Lands A π E (T a) (f a) Q) : Lands A π E R (p >>= f) Q :=
  fun s hs => ends_bind.mpr ((hp s hs).mono fun a s h => hf a s h)

theorem Lands.imp {R' : κ → Prop} {Q Q' : α → κ → Prop} {p : Prog σ α} (hp : Lands A π E R p Q)
    (hR : ∀ v, R' v → R v) (hQ : ∀ a v, Q a v → Q' a v) : Lands A π E R' p Q' :=
  fun s hs => (hp s (hR _ hs)).mono fun a s h => hQ a (π s) h

theorem lands_pure {Q : α → κ → Prop} {a : α} (h : ∀ v, R v → Q a v) :
    Lands A π E R (Prog.pure a : Prog σ α) Q :=
  fun s hs => h (π s) hs

theorem lands_exit {Q : α → κ → Prop} {ok : Bool} (hR : ∀ v, R v → E v) :
    Lands A π E R (exit ok : Prog σ α) Q :=
  fun s hs => hR (π s) hs

theorem lands_test {Q : Bool → κ → Prop} {p : σ → Bool} (hp : ∀ s, R (π s) → Q (p s) (π s)) :
    Lands A π E R (test p) Q :=
  fun s hs _ _ => hp s hs

theorem lands_assign {Q : Unit → κ → Prop} {f : σ → σ} (hf : ∀ s, R (π s) → Q () (π (f s))) :
    Lands A π E R (assign f) Q :=
  fun s hs _ _ => hf s hs

theorem lands_ite {Q : α → κ → Prop} {c : Bool} {p q : Prog σ α}
    (hp : Lands A π E (fun v => R v ∧ c = true) p Q)
    (hq : Lands A π E (fun v => R v ∧ c = false) q Q) :
    Lands A π E R (if c = true then p else q) Q := by
  cases c with
  | true => exact hp.imp (fun _ h => ⟨h, rfl⟩) fun _ _ h => h
  | false => exact hq.imp (fun _ h => ⟨h, rfl⟩) fun _ _ h => h

/-- A script that leaves the view alone. -/
theorem lands_leaves {p : Prog σ α} (hp : p.Leaves π) (hR : ∀ v, R v → E v) :
    Lands A π E R p fun _ => R :=
  fun _ hs => hp.ends (fun _ he => hR _ (he ▸ hs)) fun _ _ he => he ▸ hs

end Lands

/-! ## 7. What an `exit` means -/

section Returns

variable {κ : Type} (π : σ → κ) (I : κ → Prop) (E : Bool → κ → Prop)

/-- `I` holds before each command, `E` of the status where the script exits, and `Q` where it comes
    to its end, all of them said of what `π` shows. -/
def Returns (Q : α → κ → Prop) : Prog σ α → σ → Prop
  | pure a, s => Q a (π s)
  | exit ok, s => I (π s) ∧ E ok (π s)
  | cmd run next, s => I (π s) ∧ ∀ ok, Returns Q (next (run ok s).2 (run ok s).1) (run ok s).1

/-- From `R` the script returns what `E` says, or ends in `Q`. -/
def Answers (R : κ → Prop) (p : Prog σ α) (Q : α → κ → Prop) : Prop :=
  ∀ s, R (π s) → p.Returns π I E Q s

variable {π I E} {R : κ → Prop}

theorem returns_bind {Q : β → κ → Prop} {p : Prog σ α} {f : α → Prog σ β} {s : σ} {T : α → κ → Prop}
    (h : p.Returns π I E T s) (hf : ∀ a, Answers π I E (T a) (f a) Q) :
    (p >>= f).Returns π I E Q s := by
  show (p.bind f).Returns π I E Q s
  induction p generalizing s with
  | pure a => exact hf a s h
  | exit ok => exact h
  | cmd run next ih => exact ⟨h.1, fun ok => ih _ _ (h.2 ok)⟩

theorem Returns.mono {Q Q' : α → κ → Prop} {p : Prog σ α} {s : σ} (h : p.Returns π I E Q s)
    (hQ : ∀ a v, Q a v → Q' a v) : p.Returns π I E Q' s := by
  induction p generalizing s with
  | pure a => exact hQ a _ h
  | exit ok => exact h
  | cmd run next ih => exact ⟨h.1, fun ok => ih _ _ (h.2 ok)⟩

theorem Answers.bind {T : α → κ → Prop} {Q : β → κ → Prop} {p : Prog σ α} {f : α → Prog σ β}
    (hp : Answers π I E R p T) (hf : ∀ a, Answers π I E (T a) (f a) Q) :
    Answers π I E R (p >>= f) Q :=
  fun s hs => returns_bind (hp s hs) hf

theorem Answers.imp {R' : κ → Prop} {Q Q' : α → κ → Prop} {p : Prog σ α}
    (hp : Answers π I E R p Q) (hR : ∀ v, R' v → R v) (hQ : ∀ a v, Q a v → Q' a v) :
    Answers π I E R' p Q' :=
  fun s hs => (hp s (hR _ hs)).mono hQ

theorem answers_pure {Q : α → κ → Prop} {a : α} (h : ∀ v, R v → Q a v) :
    Answers π I E R (Prog.pure a : Prog σ α) Q :=
  fun s hs => h (π s) hs

theorem answers_exit {Q : α → κ → Prop} {ok : Bool} (hR : ∀ v, R v → I v)
    (hE : ∀ v, R v → E ok v) : Answers π I E R (exit ok : Prog σ α) Q :=
  fun _ hs => ⟨hR _ hs, hE _ hs⟩

theorem answers_test {Q : Bool → κ → Prop} {p : σ → Bool} (hR : ∀ v, R v → I v)
    (hp : ∀ s, R (π s) → Q (p s) (π s)) : Answers π I E R (test p) Q :=
  fun s hs => ⟨hR _ hs, fun _ => hp s hs⟩

theorem answers_assign {Q : Unit → κ → Prop} {f : σ → σ} (hR : ∀ v, R v → I v)
    (hf : ∀ s, R (π s) → Q () (π (f s))) : Answers π I E R (assign f) Q :=
  fun s hs => ⟨hR _ hs, fun _ => hf s hs⟩

theorem answers_command {Q : Bool → κ → Prop} {f : σ → Option σ} (hR : ∀ v, R v → I v)
    (hdone : ∀ s s', R (π s) → f s = some s' → Q true (π s'))
    (hnot : ∀ v, R v → Q false v) : Answers π I E R (command f) Q := by
  refine fun s hs => ⟨hR _ hs, fun ok => ?_⟩
  cases ok with
  | false => exact hnot _ hs
  | true =>
    simp only [if_true]
    cases hf : f s with
    | none => exact hnot _ hs
    | some s' => exact hdone s s' hs hf

theorem Returns.now {Q : α → κ → Prop} {p : Prog σ α} {s : σ} (h : p.Returns π I E Q s)
    (hQ : ∀ a v, Q a v → I v) : I (π s) := by
  cases p with
  | pure a => exact hQ a _ h
  | exit ok => exact h.1
  | cmd run next => exact h.1

end Returns

end Prog

/-! ## 8. The machine -/

section Machine

variable {σ : Type}

/-- What runs on `exit` and on signals, where the trap is set. -/
structure Trap (σ : Type) where
  on : σ → Bool
  handler : Bool → Prog σ Unit

/-- The rest of a script, the status of the last command, and the state. -/
structure Config (σ : Type) where
  prog : Prog σ Unit
  status : Bool
  state : σ

/-- Nothing is left to run. -/
def Config.over (c : Config σ) : Bool :=
  match c.prog with
  | .pure _ => true
  | _ => false

/-- What the surroundings decide: how the next command ends, or that a signal comes before it. -/
inductive Input
  | outcome (ok : Bool)
  | signal

/-- Into the trap, or out of the script where none is set. -/
def Trap.enter (t : Trap σ) (status : Bool) (s : σ) : Config σ :=
  if t.on s then ⟨t.handler status, status, s⟩ else ⟨.pure (), status, s⟩

def Config.step (t : Trap σ) (c : Config σ) (i : Input) : Config σ :=
  match c.prog, i with
  | .pure _, _ => c
  | _, .signal => t.enter c.status c.state
  | .exit ok, .outcome _ => t.enter ok c.state
  | .cmd run next, .outcome ok =>
    ⟨next (run ok c.state).2 (run ok c.state).1, (run ok c.state).2, (run ok c.state).1⟩

variable {A : σ → Bool → Prop} {N S : Bool → σ → Prop} {F : σ → Prop} {t : Trap σ}

/-- A configuration goes well, up to the promise `F` at the end. -/
def Config.Safe (A : σ → Bool → Prop) (N : Bool → σ → Prop) (F : σ → Prop) (c : Config σ) : Prop :=
  c.prog.Safe A N (fun _ _ => F) c.status c.state

/-- What is asked of a step: a command ends in a way `A` allows; a signal, or an `exit` with its
    status, comes where `S` allows it. -/
def Config.Meets (A : σ → Bool → Prop) (S : Bool → σ → Prop) (c : Config σ) (i : Input) : Prop :=
  match c.prog, i with
  | _, .signal => S c.status c.state
  | .exit ok, .outcome _ => S ok c.state
  | _, .outcome ok => A c.state ok

instance Config.decidableMeets (A : σ → Bool → Prop) (S : Bool → σ → Prop)
    [∀ s ok, Decidable (A s ok)] [∀ st s, Decidable (S st s)] (c : Config σ) (i : Input) :
    Decidable (c.Meets A S i) := by
  obtain ⟨prog, st, s⟩ := c
  cases prog <;> cases i <;> unfold Config.Meets <;> infer_instance

/-- **What goes well keeps going well over a step**, if `N` is enough to leave the script. -/
theorem step_safe (hN : ∀ st s, N st s → S st s → (t.enter st s).Safe A N F) {c : Config σ}
    {i : Input} (hi : c.Meets A S i) (h : c.Safe A N F) : (c.step t i).Safe A N F := by
  obtain ⟨prog, st, s⟩ := c
  cases prog with
  | pure _ => exact h
  | exit ok =>
    cases i with
    | outcome _ => exact hN ok s h.2 hi
    | signal => exact hN st s h.1 hi
  | cmd run next =>
    cases i with
    | outcome ok => exact h.2 ok hi
    | signal => exact hN st s h.1 hi

/-- Over a run whose steps all are as asked. -/
theorem run_safe (hN : ∀ st s, N st s → S st s → (t.enter st s).Safe A N F) {c : Config σ}
    {is : List Input} (his : StepsMeet (Config.step t) (Config.Meets A S) c is)
    (h : c.Safe A N F) : (run (Config.step t) c is).Safe A N F :=
  run_inv_of (fun _ _ hi h => step_safe hN hi h) h his

/-- What goes well is as promised now. -/
theorem Config.Safe.now {I : σ → Prop} {c : Config σ} (h : c.Safe A (fun _ => I) I) :
    I c.state := by
  obtain ⟨prog, st, s⟩ := c
  cases prog with
  | pure _ => exact h
  | exit _ => exact h.1
  | cmd _ _ => exact h.1

/-- **Where a script gets when every command ends well** it gets in some run. -/
theorem Prog.Well.reached {P : σ → Prop} {p : Prog σ Unit} {s : σ} (h : p.Well P (fun _ => P) s)
    (t : Trap σ) (st : Bool) : ∃ is, P (run (Config.step t) ⟨p, st, s⟩ is).state := by
  induction p generalizing st s with
  | pure _ => exact ⟨[], h⟩
  | exit _ => exact ⟨[], h⟩
  | cmd run next ih =>
    obtain ⟨is, his⟩ := ih (run true s).2 (run true s).1 h (run true s).2
    exact ⟨.outcome true :: is, his⟩

/-- It gets there in the run in which every command ends well. -/
theorem Prog.Well.reached_outcomes {P : σ → Prop} {p : Prog σ Unit} {s : σ}
    (h : p.Well P (fun _ => P) s) (t : Trap σ) (st : Bool) :
    ∃ n, P (run (Config.step t) ⟨p, st, s⟩ (List.replicate n (.outcome true))).state := by
  induction p generalizing st s with
  | pure _ => exact ⟨0, h⟩
  | exit _ => exact ⟨0, h⟩
  | cmd run next ih =>
    obtain ⟨n, hn⟩ := ih (run true s).2 (run true s).1 h (run true s).2
    exact ⟨n + 1, hn⟩

/-- **A run that comes to its end ends as the script does**, where no trap is set. -/
theorem Prog.Ends.finished {E : σ → Prop} {p : Prog σ Unit} {s : σ} (h : p.Ends A E (fun _ => E) s)
    (ht : ∀ s, t.on s = false) {st : Bool} {oks : List Bool}
    (hoks : StepsMeet (Config.step t) (Config.Meets A S) ⟨p, st, s⟩ (oks.map .outcome))
    (hover : (run (Config.step t) ⟨p, st, s⟩ (oks.map .outcome)).over = true) :
    E (run (Config.step t) ⟨p, st, s⟩ (oks.map .outcome)).state := by
  induction oks generalizing p st s with
  | nil =>
    cases p with
    | pure _ => exact h
    | exit _ => exact absurd hover nofun
    | cmd _ _ => exact absurd hover nofun
  | cons ok oks ih =>
    obtain ⟨hok, hoks⟩ := hoks
    cases p with
    | pure a => exact ih h hoks hover
    | exit a =>
      have hstep : Config.step t ⟨.exit a, st, s⟩ (.outcome ok) = ⟨.pure (), a, s⟩ := by
        show t.enter a s = _
        rw [Trap.enter, ht s, if_neg Bool.false_ne_true]
      rw [List.map_cons, run_cons, hstep] at hover ⊢
      rw [hstep] at hoks
      exact ih (show (Prog.pure ()).Ends A E (fun _ => E) s from h) hoks hover
    | cmd next k => exact ih (h ok hok) hoks hover

/-- **One command of a script that returns what `E` says**, where no trap is set: it is still under
    way, or over with a status that means what `E` says. -/
theorem Prog.Returns.step {κ : Type} {π : σ → κ} {I : κ → Prop} {E : Bool → κ → Prop} {c : Config σ}
    (h : c.prog.Returns π I E (fun _ _ => False) c.state) (ht : ∀ s, t.on s = false) (ok : Bool) :
    (c.step t (.outcome ok)).over = true ∧
        E (c.step t (.outcome ok)).status (π (c.step t (.outcome ok)).state) ∨
      (c.step t (.outcome ok)).prog.Returns π I E (fun _ _ => False)
        (c.step t (.outcome ok)).state := by
  obtain ⟨prog, st, s⟩ := c
  cases prog with
  | pure _ => exact h.elim
  | exit a =>
    have hstep : Config.step t ⟨.exit a, st, s⟩ (.outcome ok) = ⟨.pure (), a, s⟩ := by
      show t.enter a s = _
      rw [Trap.enter, ht s, if_neg Bool.false_ne_true]
    rw [hstep]
    exact .inl ⟨rfl, h.2⟩
  | cmd next k => exact .inr (h.2 ok)

/-- What went well and is over has kept the promise. -/
theorem Config.Safe.finished {c : Config σ} (h : c.Safe A N F) (hover : c.over = true) :
    F c.state := by
  obtain ⟨prog, st, s⟩ := c
  cases prog with
  | pure _ => exact h
  | exit _ => exact absurd hover nofun
  | cmd _ _ => exact absurd hover nofun

end Machine

end YiHack.General
