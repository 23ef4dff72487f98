/-
  File:      YiHack/General/Threads.lean
  Subject:   Threads over a shared memory, and what each may rely on.

  Names nothing of the repository. A thread is a tree of indivisible actions on the memory; the
  machine lets the threads act in any order, calls new ones and kills them between two actions.

  * `Code`, `Code.alone` -- what a thread does, with the others and alone;
  * `System.step` -- one step of the machine;
  * `Code.Ok` -- a thread does what it guarantees as long as the others do what it relies on;
  * `Code.rmw_then` -- the rule for one action: an assertion that the others keep holds before it;
  * **`Sound.run`** -- threads whose guarantees are what the others rely on keep the invariant over
    every run.
-/
import YiHack.General.Run
import Mathlib.Logic.Relation
import Mathlib.Logic.Function.Basic

namespace YiHack.General

/-- A thread: it has returned, or it acts on the memory. What it finds there before the action
    decides how it goes on. -/
inductive Code (σ α : Type)
  | ret (a : α)
  | act (run : σ → σ) (next : σ → Code σ α)

namespace Code

variable {σ α β : Type}

def bind : Code σ α → (α → Code σ β) → Code σ β
  | ret a, f => f a
  | act run next, f => act run fun s => (next s).bind f

instance : Monad (Code σ) where
  pure := Code.ret
  bind := Code.bind

/-! ## 1. Actions -/

/-- A read-modify-write. -/
def rmw (f : σ → σ) (g : σ → α) : Code σ α := act f fun s => ret (g s)

def load (g : σ → α) : Code σ α := rmw id g

def store (f : σ → σ) : Code σ Unit := rmw f fun _ => ()

/-- Stores one after the other. -/
def stores : List (σ → σ) → Code σ Unit
  | [] => ret ()
  | f :: fs => store f >>= fun _ => stores fs

/-- The thread, its result dropped. -/
def void (c : Code σ α) : Code σ Unit := c >>= fun _ => ret ()

/-- The thread runs to its end with no other acting. -/
def alone : Code σ α → σ → σ × α
  | ret a, s => (s, a)
  | act run next, s => (next s).alone (run s)

/-- The first actions with no other acting: the memory, and what is left to do. -/
def after : Nat → Code σ α → σ → σ × Code σ α
  | 0, c, s => (s, c)
  | _ + 1, ret a, s => (s, ret a)
  | n + 1, act run next, s => (next s).after n (run s)

/-- What is left to do, if anything. -/
def rest : Code σ Unit → Option (Code σ Unit)
  | ret _ => none
  | act run next => some (act run next)

@[simp] theorem ret_bind (a : α) (f : α → Code σ β) : (ret a >>= f) = f a := rfl

@[simp] theorem alone_ret (a : α) (s : σ) : (ret a : Code σ α).alone s = (s, a) := rfl

@[simp] theorem alone_rmw (f : σ → σ) (g : σ → α) (k : α → Code σ β) (s : σ) :
    (rmw f g >>= k).alone s = (k (g s)).alone (f s) := rfl

@[simp] theorem alone_load (g : σ → α) (k : α → Code σ β) (s : σ) :
    (load g >>= k).alone s = (k (g s)).alone s := rfl

@[simp] theorem alone_store (f : σ → σ) (k : Unit → Code σ β) (s : σ) :
    (store f >>= k).alone s = (k ()).alone (f s) := rfl

@[simp] theorem alone_load_last (g : σ → α) (s : σ) : (load g).alone s = (s, g s) := rfl

@[simp] theorem alone_store_last (f : σ → σ) (s : σ) : (store f).alone s = (f s, ()) := rfl

/-- One after the other, alone. -/
theorem alone_bind (c : Code σ α) (f : α → Code σ β) (s : σ) :
    (c >>= f).alone s = (f (c.alone s).2).alone (c.alone s).1 := by
  show (c.bind f).alone s = _
  induction c generalizing s with
  | ret a => rfl
  | act run next ih => exact ih s (run s)

/-- What follows what follows. -/
theorem bind_assoc {γ : Type} (c : Code σ α) (f : α → Code σ β) (g : β → Code σ γ) :
    (c >>= f) >>= g = c >>= fun a => f a >>= g := by
  show (c.bind f).bind g = c.bind fun a => (f a).bind g
  induction c with
  | ret a => rfl
  | act run next ih => exact congrArg (act run) (funext ih)

@[simp] theorem after_rmw (f : σ → σ) (g : σ → α) (k : α → Code σ β) (n : Nat) (s : σ) :
    (rmw f g >>= k).after (n + 1) s = (k (g s)).after n (f s) := rfl

@[simp] theorem after_load (g : σ → α) (k : α → Code σ β) (n : Nat) (s : σ) :
    (load g >>= k).after (n + 1) s = (k (g s)).after n s := rfl

@[simp] theorem after_store (f : σ → σ) (k : Unit → Code σ β) (n : Nat) (s : σ) :
    (store f >>= k).after (n + 1) s = (k ()).after n (f s) := rfl

@[simp] theorem after_zero (c : Code σ α) (s : σ) : c.after 0 s = (s, c) := rfl

/-- The first stores. -/
theorem after_stores (fs fs' : List (σ → σ)) (k : Unit → Code σ β) (s : σ) :
    (stores (fs ++ fs') >>= k).after fs.length s =
      (fs.foldl (fun s f => f s) s, stores fs' >>= k) := by
  induction fs generalizing s with
  | nil => rfl
  | cons f fs ih => exact ih (f s)

theorem alone_stores (fs : List (σ → σ)) (s : σ) :
    (stores fs).alone s = (fs.foldl (fun s f => f s) s, ()) := by
  induction fs generalizing s with
  | nil => rfl
  | cons f fs ih => exact ih (f s)

/-! ## 2. What a thread relies on and what it guarantees -/

section Ok

/-- What is kept by the others. -/
def Stable (R : σ → σ → Prop) (P : σ → Prop) : Prop := ∀ s s', P s → R s s' → P s'

theorem Stable.star {R : σ → σ → Prop} {P : σ → Prop} (hP : Stable R P) {s s' : σ}
    (h : Relation.ReflTransGen R s s') (hs : P s) : P s' := by
  induction h with
  | refl => exact hs
  | tail _ hr ih => exact hP _ _ ih hr

theorem Stable.and {R : σ → σ → Prop} {P Q : σ → Prop} (hP : Stable R P) (hQ : Stable R Q) :
    Stable R fun s => P s ∧ Q s :=
  fun s s' h hr => ⟨hP s s' h.1 hr, hQ s s' h.2 hr⟩

variable (R G A : σ → σ → Prop)

/-- Whatever the others do in between (`R`), each action is as guaranteed (`G`), and `Q` holds of
    the result; actions are asked to be as `A` allows. -/
def Ok (Q : α → σ → Prop) : Code σ α → σ → Prop
  | ret a, s => ∀ s', Relation.ReflTransGen R s s' → Q a s'
  | act run next, s => ∀ s', Relation.ReflTransGen R s s' → A s' (run s') →
      G s' (run s') ∧ Ok Q (next s') (run s')

variable {R G A}

/-- The others may go first. -/
theorem Ok.env {Q : α → σ → Prop} {c : Code σ α} {s s' : σ} (h : Ok R G A Q c s)
    (hr : Relation.ReflTransGen R s s') : Ok R G A Q c s' := by
  cases c with
  | ret a => exact fun s'' hr' => h s'' (hr.trans hr')
  | act run next => exact fun s'' hr' => h s'' (hr.trans hr')

theorem Ok.mono {Q Q' : α → σ → Prop} {c : Code σ α} {s : σ} (h : Ok R G A Q c s)
    (hQ : ∀ a s, Q a s → Q' a s) : Ok R G A Q' c s := by
  induction c generalizing s with
  | ret a => exact fun s' hr => hQ a s' (h s' hr)
  | act run next ih => exact fun s' hr ha => ⟨(h s' hr ha).1, ih s' (h s' hr ha).2⟩

/-- **One thread after the other.** -/
theorem Ok.bind {P : α → σ → Prop} {Q : β → σ → Prop} {c : Code σ α} {f : α → Code σ β} {s : σ}
    (h : Ok R G A P c s) (hf : ∀ a s, P a s → Ok R G A Q (f a) s) : Ok R G A Q (c >>= f) s := by
  show Ok R G A Q (c.bind f) s
  induction c generalizing s with
  | ret a => exact hf a s (h s .refl)
  | act run next ih => exact fun s' hr ha => ⟨(h s' hr ha).1, ih s' (h s' hr ha).2⟩

/-- The end, where the others keep what is promised. -/
theorem ok_ret {P : σ → Prop} {Q : α → σ → Prop} {a : α} {s : σ} (hP : Stable R P) (h : P s)
    (hQ : ∀ s, P s → Q a s) : Ok R G A Q (ret a) s :=
  fun _ hr => hQ _ (hP.star hr h)

/-- **One action**: the others keep `P` until it comes. -/
theorem ok_rmw {P : σ → Prop} {Q : α → σ → Prop} {f : σ → σ} {g : σ → α} {s : σ} (hP : Stable R P)
    (h : P s) (hact : ∀ s, P s → A s (f s) → G s (f s) ∧ ∀ s', Relation.ReflTransGen R (f s) s' →
      Q (g s) s') : Ok R G A Q (rmw f g) s :=
  fun s' hr ha => hact s' (hP.star hr h) ha

/-- One action and what follows. -/
theorem rmw_then {P : σ → Prop} {Q : β → σ → Prop} {f : σ → σ} {g : σ → α} {k : α → Code σ β}
    {s : σ} (hP : Stable R P) (h : P s)
    (hact : ∀ s, P s → A s (f s) → G s (f s) ∧ Ok R G A Q (k (g s)) (f s)) :
    Ok R G A Q (rmw f g >>= k) s :=
  fun s' hr ha => hact s' (hP.star hr h) ha

theorem load_then {P : σ → Prop} {Q : β → σ → Prop} {g : σ → α} {k : α → Code σ β} {s : σ}
    (hG : ∀ s, G s s) (hP : Stable R P) (h : P s) (hk : ∀ s, P s → Ok R G A Q (k (g s)) s) :
    Ok R G A Q (load g >>= k) s :=
  rmw_then hP h fun s hs _ => ⟨hG s, hk s hs⟩

theorem store_then {P : σ → Prop} {Q : β → σ → Prop} {f : σ → σ} {k : Unit → Code σ β} {s : σ}
    (hP : Stable R P) (h : P s)
    (hact : ∀ s, P s → A s (f s) → G s (f s) ∧ Ok R G A Q (k ()) (f s)) :
    Ok R G A Q (store f >>= k) s :=
  rmw_then hP h hact

/-- Stores that each keep what the others keep. -/
theorem ok_stores {P : σ → Prop} {fs : List (σ → σ)} {s : σ} (hP : Stable R P) (h : P s)
    (hact : ∀ f ∈ fs, ∀ s, P s → A s (f s) → G s (f s) ∧ P (f s)) :
    Ok R G A (fun _ s => P s) (stores fs) s := by
  induction fs generalizing s with
  | nil => exact ok_ret hP h fun _ => id
  | cons f fs ih =>
    refine store_then hP h fun s hs ha => ?_
    obtain ⟨hg, hp⟩ := hact f List.mem_cons_self s hs ha
    exact ⟨hg, ih hp fun f hf => hact f (List.mem_cons_of_mem _ hf)⟩

/-- **What is promised of the end** holds where nobody interrupts. -/
theorem Ok.alone {Q : α → σ → Prop} {c : Code σ α} {s : σ}
    (h : Ok R G (fun _ _ => True) Q c s) : Q (c.alone s).2 (c.alone s).1 := by
  induction c generalizing s with
  | ret a => exact h s .refl
  | act run next ih => exact ih s (h s .refl trivial).2

end Ok

/-! ### Threads that only look -/

/-- No action changes the memory. -/
def Looks : Code σ α → Prop
  | ret _ => True
  | act run next => (∀ s, run s = s) ∧ ∀ s, (next s).Looks

theorem looks_load {g : σ → α} : (load g).Looks := ⟨fun _ => rfl, fun _ => trivial⟩

theorem Looks.bind {c : Code σ α} {f : α → Code σ β} (hc : c.Looks) (hf : ∀ a, (f a).Looks) :
    (c >>= f).Looks := by
  show (c.bind f).Looks
  induction c with
  | ret a => exact hf a
  | act run next ih => exact ⟨hc.1, fun s => ih s (hc.2 s)⟩

theorem Looks.ite {p : Prop} [Decidable p] {c d : Code σ α} (hc : c.Looks) (hd : d.Looks) :
    (if p then c else d).Looks := by
  split
  · exact hc
  · exact hd

/-- What the others keep is there at the end. -/
theorem Looks.ok {R G A : σ → σ → Prop} {P : σ → Prop} (hG : ∀ s, G s s) (hP : Stable R P)
    {c : Code σ α} (hc : c.Looks) {s : σ} (hs : P s) : Ok R G A (fun _ s => P s) c s := by
  induction c generalizing s with
  | ret a => exact ok_ret hP hs fun _ => id
  | act run next ih =>
    intro s' hr _
    have hs' := hP.star hr hs
    rw [hc.1 s']
    exact ⟨hG s', ih s' (hc.2 s') hs'⟩

theorem Looks.alone {c : Code σ α} (hc : c.Looks) (s : σ) : (c.alone s).1 = s := by
  induction c generalizing s with
  | ret a => rfl
  | act run next ih =>
    show ((next s).alone (run s)).1 = s
    rw [hc.1 s, ih s (hc.2 s)]

end Code

/-! ## 3. The machine -/

section Machine

variable {ι χ σ : Type} [DecidableEq ι]

/-- The memory and the threads in their slots. -/
structure Machine (ι σ : Type) where
  memory : σ
  code : ι → Option (Code σ Unit)

def Machine.put (m : Machine ι σ) (i : ι) (c : Option (Code σ Unit)) : Machine ι σ :=
  { m with code := Function.update m.code i c }

theorem Machine.put_code (m : Machine ι σ) (i : ι) (c : Option (Code σ Unit)) :
    (m.put i c).code i = c := by
  simp only [Machine.put, Function.update_self]

/-- What is called in which slot, and what the death of a thread leaves of the notes the model
    keeps beside the memory. -/
structure System (ι χ σ : Type) where
  program : ι → χ → Option (Code σ Unit)
  bury : ι → σ → σ

inductive Event (ι χ : Type)
  | call (i : ι) (x : χ)
  | step (i : ι)
  | kill (i : ι)

/-- No thread is under way. -/
def Machine.idle (s : σ) : Machine ι σ := ⟨s, fun _ => none⟩

/-- A call waits for its slot to be free; a thread that has returned frees it. -/
def System.step (S : System ι χ σ) (m : Machine ι σ) : Event ι χ → Machine ι σ
  | .call i x =>
    match m.code i, S.program i x with
    | none, some c => m.put i c.rest
    | _, _ => m
  | .step i =>
    match m.code i with
    | some (.act run next) =>
      { memory := run m.memory, code := Function.update m.code i (next m.memory).rest }
    | _ => m
  | .kill i => { memory := S.bury i m.memory, code := Function.update m.code i none }

def Event.slot : Event ι χ → ι
  | .call i _ => i
  | .step i => i
  | .kill i => i

/-- A step in one slot leaves the others. -/
theorem System.step_code_of_ne (S : System ι χ σ) (m : Machine ι σ) {e : Event ι χ} {j : ι}
    (h : j ≠ e.slot) : (S.step m e).code j = m.code j := by
  cases e with
  | call i x =>
    simp only [System.step]
    split
    · exact Function.update_of_ne h _ _
    · rfl
  | step i =>
    simp only [System.step]
    split
    · exact Function.update_of_ne h _ _
    · rfl
  | kill i => exact Function.update_of_ne h _ _

theorem System.run_code_of_ne (S : System ι χ σ) (m : Machine ι σ) {es : List (Event ι χ)} {j : ι}
    (h : ∀ e ∈ es, j ≠ e.slot) : (General.run S.step m es).code j = m.code j := by
  induction es generalizing m with
  | nil => rfl
  | cons e es ih =>
    rw [run_cons, ih _ fun e he => h e (List.mem_cons_of_mem _ he),
      S.step_code_of_ne m (h e List.mem_cons_self)]

theorem System.step_call (S : System ι χ σ) {m : Machine ι σ} {i : ι} {x : χ} {c : Code σ Unit}
    (hfree : m.code i = none) (hc : S.program i x = some c) :
    S.step m (.call i x) = m.put i c.rest := by
  simp only [System.step, hfree, hc]

/-- Actions that nobody interrupts. -/
theorem System.run_after (S : System ι χ σ) (m : Machine ι σ) (i : ι) (n : Nat) {c : Code σ Unit}
    (h : m.code i = c.rest) : General.run S.step m (List.replicate n (.step i)) =
      ⟨(c.after n m.memory).1, Function.update m.code i (c.after n m.memory).2.rest⟩ := by
  induction n generalizing m c with
  | zero =>
    simp only [List.replicate_zero, run_nil, Code.after, ← h, Function.update_eq_self]
  | succ n ih =>
    rw [List.replicate_succ, run_cons]
    cases c with
    | ret a =>
      have hstep : S.step m (.step i) = m := by simp only [System.step, h, Code.rest]
      rw [hstep, ih m h]
      cases n <;> rfl
    | act run next =>
      have hstep : S.step m (.step i) =
          ⟨run m.memory, Function.update m.code i (next m.memory).rest⟩ := by
        simp only [System.step, h, Code.rest]
      rw [hstep, ih _ (Function.update_self ..)]
      simp only [Function.update_idem, Code.after]

/-- Called, and killed after some actions. -/
theorem System.run_killed (S : System ι χ σ) (m : Machine ι σ) (i : ι) {x : χ} {c : Code σ Unit}
    (hfree : m.code i = none) (hc : S.program i x = some c) (n : Nat) :
    General.run S.step m (.call i x :: List.replicate n (.step i) ++ [.kill i]) =
      ⟨S.bury i (c.after n m.memory).1, m.code⟩ := by
  rw [List.cons_append, run_cons, S.step_call hfree hc, run_append,
    S.run_after (m.put i c.rest) i n (m.put_code i c.rest), run_cons, run_nil]
  simp only [System.step, Machine.put, Function.update_idem]
  rw [← hfree, Function.update_eq_self]

/-- A thread that nobody interrupts runs as it does alone. -/
theorem System.run_steps (S : System ι χ σ) (m : Machine ι σ) (i : ι) {c : Code σ Unit}
    (h : m.code i = c.rest) : ∃ n, General.run S.step m (List.replicate n (.step i)) =
      ⟨(c.alone m.memory).1, Function.update m.code i none⟩ := by
  induction c generalizing m with
  | ret a =>
    have hfree : m.code i = none := h
    have hcode : Function.update m.code i none = m.code := by
      rw [← hfree, Function.update_eq_self]
    exact ⟨0, by rw [hcode]; rfl⟩
  | act run next ih =>
    have hstep : S.step m (.step i) =
        ⟨run m.memory, Function.update m.code i (next m.memory).rest⟩ := by
      simp only [System.step, h, Code.rest]
    obtain ⟨n, hn⟩ :=
      ih m.memory (S.step m (.step i)) (by rw [hstep]; exact Function.update_self ..)
    refine ⟨n + 1, ?_⟩
    rw [List.replicate_succ, run_cons, hn, hstep]
    simp only [Function.update_idem, Code.alone]

/-- From the call to the end, nobody interrupting. -/
theorem System.run_call (S : System ι χ σ) (m : Machine ι σ) (i : ι) {x : χ} {c : Code σ Unit}
    (hfree : m.code i = none) (hc : S.program i x = some c) :
    ∃ n, General.run S.step m (.call i x :: List.replicate n (.step i)) =
      ⟨(c.alone m.memory).1, m.code⟩ := by
  obtain ⟨n, hn⟩ := S.run_steps (m.put i c.rest) i (m.put_code i c.rest)
  refine ⟨n, ?_⟩
  rw [run_cons, S.step_call hfree hc, hn]
  simp only [Machine.put, Function.update_idem]
  rw [← hfree, Function.update_eq_self]

/-- What is in a slot has something to do. -/
theorem System.run_rest (S : System ι χ σ) (s : σ) (es : List (Event ι χ)) (i : ι) :
    ∃ c : Code σ Unit, (General.run S.step (Machine.idle s) es).code i = c.rest := by
  refine run_inv (I := fun m : Machine ι σ => ∀ i, ∃ c : Code σ Unit, m.code i = c.rest)
    (fun m e h j => ?_) (fun _ => ⟨.ret (), rfl⟩) es i
  by_cases hj : j = e.slot
  · subst hj
    cases e with
    | call i x =>
      simp only [System.step]
      split
      next c _ _ => exact ⟨c, m.put_code i c.rest⟩
      · exact h i
    | step i =>
      simp only [System.step]
      split
      next run next _ => exact ⟨next m.memory, Function.update_self ..⟩
      · exact h i
    | kill i => exact ⟨.ret (), Function.update_self ..⟩
  · rw [S.step_code_of_ne m hj]
    exact h j

/-- A thread that acts, acts as `A` allows. -/
def Machine.Meets (A : ι → σ → σ → Prop) (m : Machine ι σ) : Event ι χ → Prop
  | .step i => ∀ run next, m.code i = some (.act run next) → A i m.memory (run m.memory)
  | _ => True

/-- The same, said of the step. -/
theorem Machine.meets_of_step {S : System ι χ σ} {A : ι → σ → σ → Prop} {m : Machine ι σ}
    {e : Event ι χ} (h : A e.slot m.memory (S.step m e).memory) : m.Meets A e := by
  cases e with
  | call i x => trivial
  | kill i => trivial
  | step i =>
    intro run next hcode
    simp only [System.step, hcode] at h
    exact h

/-! ## 4. Threads side by side -/

/-- What is to be shown of the threads: each keeps what it guarantees from wherever it is called,
    and guarantees what the others rely on. -/
structure Steady (S : System ι χ σ) (R G A : ι → σ → σ → Prop) (I : σ → Prop)
    (Idle : ι → σ → Prop) : Prop where
  other : ∀ i j, i ≠ j → ∀ s s', I s → G i s s' → R j s s'
  keeps : ∀ i s s', I s → G i s s' → I s'
  idle : ∀ i, Code.Stable (R i) (Idle i)
  call : ∀ i x c, S.program i x = some c → ∀ s, I s → Idle i s →
    c.Ok (R i) (G i) (A i) (fun _ => Idle i) s

/-- The same where threads are killed. -/
structure Sound (S : System ι χ σ) (R G A : ι → σ → σ → Prop) (I : σ → Prop)
    (Idle : ι → σ → Prop) : Prop extends Steady S R G A I Idle where
  bury : ∀ i s, I s → I (S.bury i s) ∧ Idle i (S.bury i s) ∧ ∀ j, j ≠ i → R j s (S.bury i s)

/-- The invariant holds, and every thread keeps what it guarantees. -/
structure Machine.Good (R G A : ι → σ → σ → Prop) (I : σ → Prop) (Idle : ι → σ → Prop)
    (m : Machine ι σ) : Prop where
  inv : I m.memory
  free : ∀ i, m.code i = none → Idle i m.memory
  busy : ∀ i c, m.code i = some c → c.Ok (R i) (G i) (A i) (fun _ => Idle i) m.memory

namespace Machine.Good

variable {S : System ι χ σ} {R G A : ι → σ → σ → Prop} {I : σ → Prop} {Idle : ι → σ → Prop}
  {m : Machine ι σ}

omit [DecidableEq ι] in
theorem start {s : σ} (hs : I s) (hidle : ∀ i, Idle i s) : (idle s).Good R G A I Idle where
  inv := hs
  free i _ := hidle i
  busy _ _ h := absurd h nofun

/-- Slot `i` takes up `c`, or is freed, in a memory that is as the others rely on. -/
theorem take (hS : Steady S R G A I Idle) (h : m.Good R G A I Idle) {i : ι} {s : σ}
    {c : Code σ Unit} (hs : I s) (hR : ∀ j, j ≠ i → Relation.ReflTransGen (R j) m.memory s)
    (hc : c.Ok (R i) (G i) (A i) (fun _ => Idle i) s) :
    Good R G A I Idle ⟨s, Function.update m.code i c.rest⟩ where
  inv := hs
  free j hj := by
    by_cases hji : j = i
    · subst hji
      cases c with
      | ret a => exact hc s .refl
      | act run next => simp [Code.rest] at hj
    · simp only [Function.update_of_ne hji] at hj
      exact (hS.idle j).star (hR j hji) (h.free j hj)
  busy j c' hj := by
    by_cases hji : j = i
    · subst hji
      cases c with
      | ret a => simp [Code.rest] at hj
      | act run next =>
        simp only [Code.rest, Function.update_self, Option.some.injEq] at hj
        exact hj ▸ hc
    · simp only [Function.update_of_ne hji] at hj
      exact (h.busy j c' hj).env (hR j hji)

/-- **One step of the machine** that kills no thread. -/
theorem step_alive (hS : Steady S R G A I Idle) (h : m.Good R G A I Idle) {e : Event ι χ}
    (he : m.Meets A e) (halive : ∀ i, e ≠ .kill i) : (S.step m e).Good R G A I Idle := by
  cases e with
  | call i x =>
    simp only [System.step]
    split
    · next hfree hprog =>
      exact h.take hS h.inv (fun _ _ => .refl) (hS.call i x _ hprog _ h.inv (h.free i hfree))
    · exact h
  | step i =>
    simp only [System.step]
    split
    · next run next hcode =>
      obtain ⟨hg, hok⟩ := h.busy i _ hcode m.memory .refl (he run next hcode)
      exact h.take hS (hS.keeps i _ _ h.inv hg)
        (fun j hj => .single (hS.other i j hj.symm _ _ h.inv hg)) hok
    · exact h
  | kill i => exact absurd rfl (halive i)

/-- **One step of the machine.** -/
theorem step (hS : Sound S R G A I Idle) (h : m.Good R G A I Idle) {e : Event ι χ}
    (he : m.Meets A e) : (S.step m e).Good R G A I Idle := by
  cases e with
  | call i x => exact h.step_alive hS.toSteady he nofun
  | step i => exact h.step_alive hS.toSteady he nofun
  | kill i =>
    obtain ⟨hinv, hidle, hR⟩ := hS.bury i m.memory h.inv
    refine h.take (c := .ret ()) hS.toSteady hinv (fun j hj => .single (hR j hj)) ?_
    exact fun s hs => (hS.idle i).star hs hidle

end Machine.Good

/-- **What the threads keep, every run keeps** whose steps are as `A` allows. -/
theorem Sound.run {S : System ι χ σ} {R G A : ι → σ → σ → Prop} {I : σ → Prop}
    {Idle : ι → σ → Prop} (hS : Sound S R G A I Idle) {s : σ} (hs : I s) (hidle : ∀ i, Idle i s)
    {es : List (Event ι χ)} (hes : StepsMeet S.step (Machine.Meets A) (Machine.idle s) es) :
    I (General.run S.step (Machine.idle s) es).memory :=
  (run_inv_of (I := Machine.Good R G A I Idle) (fun _ _ he h => h.step hS he) (.start hs hidle)
    hes).inv

omit [DecidableEq ι] in
/-- Every event is as allowed where all actions are. -/
theorem Machine.meets_all (m : Machine ι σ) (e : Event ι χ) : m.Meets (fun _ _ _ => True) e := by
  cases e <;> simp [Machine.Meets]

/-- Where no thread is killed, **over every run**. -/
theorem Steady.run_alive {S : System ι χ σ} {R G : ι → σ → σ → Prop} {I : σ → Prop}
    {Idle : ι → σ → Prop} (hS : Steady S R G (fun _ _ _ => True) I Idle) {m : Machine ι σ}
    (h : m.Good R G (fun _ _ _ => True) I Idle) {es : List (Event ι χ)}
    (halive : ∀ e ∈ es, ∀ i, e ≠ .kill i) :
    (General.run S.step m es).Good R G (fun _ _ _ => True) I Idle := by
  induction es generalizing m with
  | nil => exact h
  | cons e es ih =>
    exact ih (h.step_alive hS (m.meets_all e) (halive e List.mem_cons_self))
      fun e' he' => halive e' (List.mem_cons_of_mem _ he')

/-- Where all actions are allowed, **over every run**. -/
theorem Sound.every_run {S : System ι χ σ} {R G : ι → σ → σ → Prop} {I : σ → Prop}
    {Idle : ι → σ → Prop} (hS : Sound S R G (fun _ _ _ => True) I Idle) {s : σ} (hs : I s)
    (hidle : ∀ i, Idle i s) (es : List (Event ι χ)) :
    I (General.run S.step (Machine.idle s) es).memory :=
  (run_inv (I := Machine.Good R G (fun _ _ _ => True) I Idle)
    (fun m e h => h.step hS (m.meets_all e)) (.start hs hidle) es).inv

end Machine

end YiHack.General
