/-
  File:      YiHack/Ipc/DispatchPoll.lean
  Subject:   `dispatch_poll.c`: `popen` and `pclose` in front of the C library's own.

  One command is answered by a plain file. A table of four slots under a mutex remembers which
  streams are plain, since `pclose` is given nothing but the stream. Any number of threads call the
  two functions; a thread acts as far as the table, the mutex, the C library or the caller can see
  it. Streams are addresses, `NULL` is 0, and the C library gives out any address that is free.

  * `Store`, `Call`, `go` -- the process, where a call is, and what it does next;
  * `Note`, `Life` -- what was done with a stream, and what may be done with it next;
  * `At`, `Frame`, `Mine` -- what holds where a thread is, what the others leave to it, and that it
    has no stream but that of its call;
  * `Inv`, `go_ok`, `go_mine` -- the table and the streams that are given out;
  * **`streams_matched`** -- every stream is closed once, by the function it came from, before the
    call that it was given to returns.
-/
import YiHack.General.Run
import Mathlib.Data.List.Perm.Basic
import Mathlib.Logic.Function.Basic

namespace YiHack.Ipc

open General

/-! ## 1. The process -/

abbrev Addr := Nat

/-- What a stream is: a file of `fopen`, or a child of the C library's `popen`. -/
inductive Origin
  | file
  | child
  deriving DecidableEq, Repr

/-- Who may use a stream: the program, or the call of a thread. -/
inductive Owner
  | program
  | thread (t : Nat)
  deriving DecidableEq, Repr

/-- A stream was opened, given to `pclose`, or closed, by `fclose` or the C library's `pclose`. -/
inductive Note
  | opened (f : Addr) (o : Origin)
  | given (f : Addr)
  | closed (f : Addr) (o : Origin)
  deriving DecidableEq, Repr

/-- `direct`, `lock`, and the streams that are open; `notes` is what was done with streams, in
    order. -/
structure Store where
  direct : Nat → Addr
  lock : Option Nat
  live : Addr → Option Origin
  owner : Addr → Option Owner
  notes : List Note

/-- `sizeof(direct)/sizeof(direct[0])`. -/
def slots : Nat := 4

/-- Where the call of a thread is. -/
inductive Call
  | idle
  -- popen
  | opening
  | opened (f : Addr)
  | looking (f : Addr) (i : Nat)
  | storing (f : Addr) (i : Nat)
  | stored (f : Addr)
  | refused (f : Addr)
  | spawning
  -- pclose
  | closing (f : Addr)
  | searching (f : Addr) (i : Nat)
  | clearing (f : Addr) (i : Nat)
  | cleared (f : Addr)
  | own (f : Addr)
  | foreign (f : Addr)
  deriving DecidableEq, Repr

namespace Store

def give (f : Addr) (w : Owner) (m : Store) : Store :=
  { m with owner := Function.update m.owner f (some w) }

def note (n : Note) (m : Store) : Store := { m with notes := m.notes ++ [n] }

/-- `fopen` or the C library's `popen` succeeds. -/
def open_ (f : Addr) (o : Origin) (w : Owner) (m : Store) : Store :=
  ({ m with live := Function.update m.live f (some o) }.give f w).note (.opened f o)

/-- `pclose` is called. -/
def hand (f : Addr) (t : Nat) (m : Store) : Store := (m.give f (.thread t)).note (.given f)

/-- `fclose` or the C library's `pclose`. -/
def close (f : Addr) (o : Origin) (m : Store) : Store :=
  { m with
    live := Function.update m.live f none
    owner := Function.update m.owner f none }.note (.closed f o)

def acquire (t : Nat) (m : Store) : Store := { m with lock := some t }

def release (m : Store) : Store := { m with lock := none }

def put (i : Nat) (f : Addr) (m : Store) : Store :=
  { m with direct := Function.update m.direct i f }

end Store

/-- What a thread does next; `new` is what `fopen` or `popen` of the C library returns. -/
def go (t : Nat) (new : Option Addr) (m : Store) : Call → Store × Call
  | .idle => (m, .idle)
  | .opening =>
    match new with
    | some f => (m.open_ f .file (.thread t), .opened f)
    | none => (m, .spawning)
  | .opened f => if m.lock = none then (m.acquire t, .looking f 0) else (m, .opened f)
  | .looking f i =>
    if i < slots then
      if m.direct i = 0 then (m, .storing f i) else (m, .looking f (i + 1))
    else (m.release, .refused f)
  | .storing f i => (m.put i f, .stored f)
  | .stored f => (m.release.give f .program, .idle)
  | .refused f => (m.close f .file, .spawning)
  | .spawning =>
    match new with
    | some f => (m.open_ f .child .program, .idle)
    | none => (m, .idle)
  | .closing f => if m.lock = none then (m.acquire t, .searching f 0) else (m, .closing f)
  | .searching f i =>
    if i < slots then
      if m.direct i = f then (m, .clearing f i) else (m, .searching f (i + 1))
    else (m.release, .foreign f)
  | .clearing f i => (m.put i 0, .cleared f)
  | .cleared f => (m.release, .own f)
  | .own f => (m.close f .file, .idle)
  | .foreign f => (m.close f .child, .idle)

structure Process where
  store : Store
  calls : Nat → Call

/-- A thread calls `popen`, with the one command that is answered by a file or another; it calls
    `pclose`; or its call goes on. -/
inductive Event
  | popen (t : Nat) (cid : Bool)
  | pclose (t : Nat) (f : Addr)
  | go (t : Nat) (new : Option Addr)

def Process.goto (p : Process) (t : Nat) (m : Store) (c : Call) : Process :=
  ⟨m, Function.update p.calls t c⟩

def step (p : Process) : Event → Process
  | .popen t cid =>
    if p.calls t = .idle then p.goto t p.store (if cid then .opening else .spawning) else p
  | .pclose t f =>
    if p.calls t = .idle then p.goto t (p.store.hand f t) (.closing f) else p
  | .go t new =>
    let r := Ipc.go t new p.store (p.calls t)
    p.goto t r.1 r.2

/-- What is asked of the program: it closes what it was given. And of the C library: an address it
    returns is none that is open. -/
def Fair (p : Process) : Event → Prop
  | .popen _ _ => True
  | .pclose _ f => p.store.owner f = some .program
  | .go _ (some f) => f ≠ 0 ∧ p.store.live f = none
  | .go _ none => True

instance (p : Process) (e : Event) : Decidable (Fair p e) := by
  unfold Fair
  split <;> infer_instance

def start : Process where
  store := {
    direct := fun _ => 0
    lock := none
    live := fun _ => none
    owner := fun _ => none
    notes := [] }
  calls _ := .idle

/-! ## 2. The life of a stream -/

/-- What an address is: closed, open and with whoever opened it, or given to `pclose`. -/
inductive Life
  | shut
  | open_ (o : Origin)
  | given (o : Origin)
  deriving DecidableEq, Repr

def Note.stream : Note → Addr
  | .opened f _ | .given f | .closed f _ => f

/-- A closed address may be opened, an open stream given to `pclose` or closed, and one that was given
    closed, each by the function it came from. -/
def Life.noted : Life → Note → Option Life
  | .shut, .opened _ o => some (.open_ o)
  | .open_ o, .given _ => some (.given o)
  | .open_ o, .closed _ o' => if o' = o then some .shut else none
  | .given o, .closed _ o' => if o' = o then some .shut else none
  | _, _ => none

/-- What is noted of another stream does not count. -/
def Life.next (f : Addr) (l : Option Life) (n : Note) : Option Life :=
  if n.stream = f then l.bind (·.noted n) else l

/-- What the address is after all; nothing where something was done that may not be. -/
def Store.life (f : Addr) (m : Store) : Option Life := m.notes.foldl (Life.next f) (some .shut)

section

variable {m : Store} {n : Note} {f : Addr}

theorem Store.life_note : (m.note n).life f = Life.next f (m.life f) n := List.foldl_append

theorem Store.life_note_of_ne (h : n.stream ≠ f) : (m.note n).life f = m.life f :=
  Store.life_note.trans (if_neg h)

theorem Store.life_note_self {l : Life} (hf : n.stream = f) (h : m.life f = some l) :
    (m.note n).life f = l.noted n := by
  rw [Store.life_note, Life.next, if_pos hf, h, Option.bind_some]

end

/-! ## 3. What holds where a thread is -/

namespace Store

/-- The stream is in a slot. -/
def In (f : Addr) (m : Store) : Prop := ∃ i < slots, m.direct i = f

/-- A plain stream that is given out is in a slot, a child is not. -/
def Placed (f : Addr) (m : Store) : Prop :=
  m.live f = some .file ∧ m.In f ∨ m.live f = some .child ∧ ¬ m.In f

/-- A plain stream that is nobody else's and in no slot. -/
def Loose (t : Nat) (f : Addr) (m : Store) : Prop :=
  m.owner f = some (.thread t) ∧ m.live f = some .file ∧ ¬ m.In f

/-- It has not been given to `pclose`. -/
def Fresh (f : Addr) (m : Store) : Prop := ∃ o, m.life f = some (.open_ o)

end Store

/-- What thread `t` may rely on. -/
def At (t : Nat) (m : Store) : Call → Prop
  | .idle | .opening | .spawning => True
  | .opened f => m.Loose t f ∧ m.Fresh f
  | .refused f | .own f => m.Loose t f
  | .looking f _ => m.Loose t f ∧ m.Fresh f ∧ m.lock = some t
  | .cleared f => m.Loose t f ∧ m.lock = some t
  | .storing f i => m.Loose t f ∧ m.Fresh f ∧ m.lock = some t ∧ i < slots ∧ m.direct i = 0
  | .stored f => m.owner f = some (.thread t) ∧ m.Placed f ∧ m.Fresh f ∧ m.lock = some t
  | .closing f => m.owner f = some (.thread t) ∧ m.Placed f
  | .searching f i => m.owner f = some (.thread t) ∧ m.Placed f ∧ m.lock = some t ∧
    ∀ j < i, m.direct j ≠ f
  | .clearing f i => m.owner f = some (.thread t) ∧ m.Placed f ∧ m.lock = some t ∧ i < slots ∧
    m.direct i = f
  | .foreign f => m.owner f = some (.thread t) ∧ m.live f = some .child

/-- What the other threads leave to thread `t`. -/
structure Frame (t : Nat) (m m' : Store) : Prop where
  owner : ∀ f, m.owner f = some (.thread t) → m'.owner f = m.owner f
  live : ∀ f, m.owner f = some (.thread t) → m'.live f = m.live f
  slot : ∀ f, m.owner f = some (.thread t) → (m'.In f ↔ m.In f)
  life : ∀ f, m.owner f = some (.thread t) → m'.life f = m.life f
  lock : m.lock = some t → m'.lock = m.lock
  direct : m.lock = some t → m'.direct = m.direct

section

variable {t : Nat} {m m' : Store} {f : Addr}

theorem Frame.loose (h : Frame t m m') (hl : m.Loose t f) : m'.Loose t f :=
  ⟨(h.owner f hl.1).trans hl.1, (h.live f hl.1).trans hl.2.1,
    fun hi => hl.2.2 ((h.slot f hl.1).mp hi)⟩

theorem Frame.fresh (h : Frame t m m') (ho : m.owner f = some (.thread t)) (hf : m.Fresh f) :
    m'.Fresh f := by
  rw [Store.Fresh, h.life f ho]
  exact hf

theorem Frame.placed (h : Frame t m m') (ho : m.owner f = some (.thread t)) (hp : m.Placed f) :
    m'.Placed f := by
  rw [Store.Placed, h.live f ho, h.slot f ho]
  exact hp

theorem Frame.refl (t : Nat) (m : Store) : Frame t m m :=
  ⟨fun _ _ => rfl, fun _ _ => rfl, fun _ _ => Iff.rfl, fun _ _ => rfl, fun _ => rfl, fun _ => rfl⟩

theorem Frame.trans {m'' : Store} (h : Frame t m m') (h' : Frame t m' m'') : Frame t m m'' where
  owner f hf := (h'.owner f ((h.owner f hf).trans hf)).trans (h.owner f hf)
  live f hf := (h'.live f ((h.owner f hf).trans hf)).trans (h.live f hf)
  slot f hf := (h'.slot f ((h.owner f hf).trans hf)).trans (h.slot f hf)
  life f hf := (h'.life f ((h.owner f hf).trans hf)).trans (h.life f hf)
  lock hk := (h'.lock ((h.lock hk).trans hk)).trans (h.lock hk)
  direct hk := (h'.direct ((h.lock hk).trans hk)).trans (h.direct hk)

/-- **What a thread relies on the others keep.** -/
theorem Frame.at_ (h : Frame t m m') {c : Call} (hc : At t m c) : At t m' c := by
  cases c with
  | idle => trivial
  | opening => trivial
  | spawning => trivial
  | opened f => exact ⟨h.loose hc.1, h.fresh hc.1.1 hc.2⟩
  | refused f => exact h.loose hc
  | own f => exact h.loose hc
  | looking f i =>
    obtain ⟨hl, hf, hk⟩ := hc
    exact ⟨h.loose hl, h.fresh hl.1 hf, (h.lock hk).trans hk⟩
  | cleared f => exact ⟨h.loose hc.1, (h.lock hc.2).trans hc.2⟩
  | storing f i =>
    obtain ⟨hl, hf, hk, hi, hd⟩ := hc
    exact ⟨h.loose hl, h.fresh hl.1 hf, (h.lock hk).trans hk, hi, by rw [h.direct hk, hd]⟩
  | stored f =>
    obtain ⟨ho, hp, hf, hk⟩ := hc
    exact ⟨(h.owner f ho).trans ho, h.placed ho hp, h.fresh ho hf, (h.lock hk).trans hk⟩
  | closing f => exact ⟨(h.owner f hc.1).trans hc.1, h.placed hc.1 hc.2⟩
  | searching f i =>
    obtain ⟨ho, hp, hk, hd⟩ := hc
    exact ⟨(h.owner f ho).trans ho, h.placed ho hp, (h.lock hk).trans hk, by rwa [h.direct hk]⟩
  | clearing f i =>
    obtain ⟨ho, hp, hk, hi, hd⟩ := hc
    exact ⟨(h.owner f ho).trans ho, h.placed ho hp, (h.lock hk).trans hk, hi,
      by rw [h.direct hk, hd]⟩
  | foreign f => exact ⟨(h.owner f hc.1).trans hc.1, (h.live f hc.1).trans hc.2⟩

end

/-! ## 4. The table and the streams -/

/-- What is noted of the address and whether it is open go together; what was given to `pclose` is not
    the program's. -/
def Store.Lives (f : Addr) (m : Store) : Prop :=
  m.live f = none ∧ m.life f = some .shut ∨ ∃ o, m.live f = some o ∧
    (m.life f = some (.open_ o) ∨ m.life f = some (.given o) ∧ m.owner f ≠ some .program)

/-- The slots hold plain streams that are open, each one; what the program was given is in its
    place. -/
structure Store.Ok (m : Store) : Prop where
  plain : ∀ i < slots, m.direct i ≠ 0 → m.live (m.direct i) = some .file
  once : ∀ i < slots, ∀ j < slots, m.direct i = m.direct j → m.direct i ≠ 0 → i = j
  held : ∀ f, m.owner f = some .program → m.Placed f
  owned : ∀ f, m.owner f = none ↔ m.live f = none
  null : m.live 0 = none
  lives : ∀ f, m.Lives f

/-- The stream of a call. -/
def Call.stream : Call → Option Addr
  | .idle | .opening | .spawning => none
  | .opened f | .looking f _ | .storing f _ | .stored f | .refused f | .closing f
  | .searching f _ | .clearing f _ | .cleared f | .own f | .foreign f => some f

/-- A thread has no other stream. -/
def Mine (t : Nat) (m : Store) (c : Call) : Prop :=
  ∀ f, m.owner f = some (.thread t) → c.stream = some f

structure Inv (p : Process) : Prop where
  store : p.store.Ok
  calls : ∀ t, At t p.store (p.calls t)
  mine : ∀ t, Mine t p.store (p.calls t)

/-! ## 5. What each action does -/

section

variable {t t' i : Nat} {m : Store} {f g : Addr} {o : Origin} {w : Owner}

theorem Store.Placed.live (h : m.Placed f) : m.live f ≠ none := by
  obtain ⟨h, -⟩ | ⟨h, -⟩ := h <;> rw [h] <;> exact nofun

/-- What is open has an owner, and `NULL` is not. -/
theorem Store.Ok.ne_null (h : m.Ok) (hw : m.owner f = some w) : f ≠ 0 := by
  intro he
  have := (h.owned f).mpr (he ▸ h.null)
  exact absurd (hw.symm.trans this) nofun

theorem Store.Ok.not_in_of_closed (h : m.Ok) (hf : f ≠ 0) (hl : m.live f = none) : ¬ m.In f := by
  intro ⟨i, hi, hd⟩
  have := h.plain i hi (hd ▸ hf)
  rw [hd, hl] at this
  exact absurd this nofun

theorem Store.Ok.not_in_of_child (h : m.Ok) (hf : f ≠ 0) (hl : m.live f = some .child) :
    ¬ m.In f := by
  intro ⟨i, hi, hd⟩
  have := h.plain i hi (hd ▸ hf)
  rw [hd, hl] at this
  exact absurd this nofun

theorem ne_of_owner (htt : t' ≠ t) (hf : m.owner f = some (.thread t))
    (hg : m.owner g = some (.thread t')) : g ≠ f := by
  intro he
  rw [he, hf] at hg
  exact htt (Owner.thread.inj (Option.some.inj hg)).symm

theorem Store.Ok.life_open (h : m.Ok) (hl : m.live f = none) :
    (m.open_ f o w).life f = some (.open_ o) := by
  have hshut : m.life f = some .shut := (h.lives f).elim And.right fun ⟨o', hl', _⟩ =>
    absurd (hl.symm.trans hl') nofun
  exact Store.life_note_self (n := .opened f o) rfl hshut

theorem Store.Ok.open_ (h : m.Ok) (hf : f ≠ 0) (hl : m.live f = none)
    (hw : w = .program → o = .child) : (m.open_ f o w).Ok where
  plain j hj hd := by
    have hne : m.direct j ≠ f := fun he => h.not_in_of_closed hf hl ⟨j, hj, he⟩
    show Function.update m.live f (some o) (m.direct j) = _
    rw [Function.update_of_ne hne, h.plain j hj hd]
  once := h.once
  held g hg := by
    simp only [Store.open_, Store.note, Store.give] at hg ⊢
    by_cases hgf : g = f
    · subst hgf
      rw [Function.update_self] at hg
      refine .inr ⟨?_, h.not_in_of_closed hf hl⟩
      rw [hw (Option.some.inj hg)]
      exact Function.update_self ..
    · rw [Function.update_of_ne hgf] at hg
      have hp := h.held g hg
      unfold Store.Placed at hp ⊢
      simp only [Function.update_of_ne hgf]
      exact hp
  owned g := by
    simp only [Store.open_, Store.note, Store.give]
    by_cases hgf : g = f
    · subst hgf
      simp only [Function.update_self, reduceCtorEq]
    · simp only [Function.update_of_ne hgf, h.owned g]
  null := by
    show Function.update m.live f (some o) 0 = none
    rw [Function.update_of_ne (Ne.symm hf), h.null]
  lives g := by
    by_cases hgf : g = f
    · subst hgf
      exact .inr ⟨o, Function.update_self .., .inl (h.life_open hl)⟩
    · have hlife : (m.open_ f o w).life g = m.life g := Store.life_note_of_ne (Ne.symm hgf)
      have hg := h.lives g
      unfold Store.Lives at hg ⊢
      rw [hlife]
      simp only [Store.open_, Store.note, Store.give, Function.update_of_ne hgf]
      exact hg

theorem frame_open (h : m.Ok) (hl : m.live f = none) : Frame t' m (m.open_ f o w) := by
  have hne (g : Addr) (hg : m.owner g = some (.thread t')) : g ≠ f := by
    intro he
    rw [he, (h.owned f).mpr hl] at hg
    exact absurd hg nofun
  exact ⟨fun g hg => Function.update_of_ne (hne g hg) ..,
    fun g hg => Function.update_of_ne (hne g hg) ..,
    fun _ _ => Iff.rfl, fun g hg => Store.life_note_of_ne (hne g hg).symm, fun _ => rfl,
    fun _ => rfl⟩

theorem Store.Ok.close (h : m.Ok) (hf : f ≠ 0) (hl : m.live f = some o) (hi : ¬ m.In f) :
    (m.close f o).Ok where
  plain j hj hd := by
    have hne : m.direct j ≠ f := fun he => hi ⟨j, hj, he⟩
    show Function.update m.live f none (m.direct j) = _
    rw [Function.update_of_ne hne, h.plain j hj hd]
  once := h.once
  held g hg := by
    simp only [Store.close, Store.note] at hg ⊢
    have hgf : g ≠ f := by
      intro he
      rw [he, Function.update_self] at hg
      exact absurd hg nofun
    rw [Function.update_of_ne hgf] at hg
    have hp := h.held g hg
    unfold Store.Placed at hp ⊢
    simp only [Function.update_of_ne hgf]
    exact hp
  owned g := by
    simp only [Store.close, Store.note]
    by_cases hgf : g = f
    · subst hgf
      simp only [Function.update_self]
    · simp only [Function.update_of_ne hgf, h.owned g]
  null := by
    show Function.update m.live f none 0 = none
    rw [Function.update_of_ne (Ne.symm hf), h.null]
  lives g := by
    by_cases hgf : g = f
    · subst hgf
      have hnoted : ∀ l, m.life g = some l → l.noted (.closed g o) = some .shut →
          (m.close g o).life g = some .shut := fun l hlife hn =>
        (Store.life_note_self (n := .closed g o) rfl hlife).trans hn
      refine .inl ⟨Function.update_self .., ?_⟩
      obtain ⟨hnone, -⟩ | ⟨o', hl', hlife⟩ := h.lives g
      · exact absurd (hnone.symm.trans hl) nofun
      · obtain rfl := Option.some.inj (hl.symm.trans hl')
        obtain hlife | ⟨hlife, -⟩ := hlife
        · exact hnoted _ hlife (if_pos rfl)
        · exact hnoted _ hlife (if_pos rfl)
    · have hlife : (m.close f o).life g = m.life g := Store.life_note_of_ne (Ne.symm hgf)
      have hg := h.lives g
      unfold Store.Lives at hg ⊢
      rw [hlife]
      simp only [Store.close, Store.note, Function.update_of_ne hgf]
      exact hg

theorem frame_close (htt : t' ≠ t) (ho : m.owner f = some (.thread t)) :
    Frame t' m (m.close f o) :=
  ⟨fun _ hg => Function.update_of_ne (ne_of_owner htt ho hg) ..,
    fun _ hg => Function.update_of_ne (ne_of_owner htt ho hg) .., fun _ _ => Iff.rfl,
    fun _ hg => Store.life_note_of_ne (ne_of_owner htt ho hg).symm, fun _ => rfl, fun _ => rfl⟩

/-- A stream changes hands. -/
theorem Store.Ok.give (h : m.Ok) (ho : m.owner f ≠ none)
    (hw : w = .program → m.Placed f ∧ m.Fresh f) : (m.give f w).Ok where
  plain := h.plain
  once := h.once
  held g hg := by
    simp only [Store.give] at hg
    by_cases hgf : g = f
    · subst hgf
      rw [Function.update_self] at hg
      exact (hw (Option.some.inj hg)).1
    · rw [Function.update_of_ne hgf] at hg
      exact h.held g hg
  owned g := by
    simp only [Store.give]
    by_cases hgf : g = f
    · subst hgf
      simp only [Function.update_self, reduceCtorEq, false_iff]
      exact fun hl => ho ((h.owned g).mpr hl)
    · simp only [Function.update_of_ne hgf, h.owned g]
  null := h.null
  lives g := by
    obtain hg | ⟨o, hl, hlife⟩ := h.lives g
    · exact .inl hg
    · refine .inr ⟨o, hl, hlife.imp_right fun ⟨hgiven, hne⟩ => ⟨hgiven, fun he => ?_⟩⟩
      simp only [Store.give] at he
      by_cases hgf : g = f
      · subst hgf
        rw [Function.update_self] at he
        obtain ⟨o', hopen⟩ := (hw (Option.some.inj he)).2
        exact absurd (hopen.symm.trans hgiven) nofun
      · rw [Function.update_of_ne hgf] at he
        exact hne he

theorem frame_give (hne : m.owner f ≠ some (.thread t')) : Frame t' m (m.give f w) := by
  refine ⟨fun g hg => Function.update_of_ne ?_ .., fun _ _ => rfl, fun _ _ => Iff.rfl,
    fun _ _ => rfl, fun _ => rfl, fun _ => rfl⟩
  intro he
  exact hne (he ▸ hg)

/-- **The program gives a stream to `pclose`.** -/
theorem Store.Ok.hand (h : m.Ok) (ho : m.owner f = some .program) : (m.hand f t).Ok := by
  have hgive : (m.give f (.thread t)).Ok := h.give (fun he => absurd (ho.symm.trans he) nofun) nofun
  refine { hgive with lives := fun g => ?_ }
  by_cases hgf : g = f
  · subst hgf
    obtain ⟨hnone, -⟩ | ⟨o, hl, hlife⟩ := h.lives g
    · exact absurd ((h.owned g).mpr hnone) (fun he => absurd (ho.symm.trans he) nofun)
    · have hopen : m.life g = some (.open_ o) := hlife.resolve_right fun hgiven => hgiven.2 ho
      refine .inr ⟨o, hl, .inr ⟨Store.life_note_self (n := .given g) rfl hopen, ?_⟩⟩
      show Function.update m.owner g (some (.thread t)) g ≠ some .program
      rw [Function.update_self]
      exact nofun
  · have hlife : (m.hand f t).life g = m.life g := Store.life_note_of_ne (Ne.symm hgf)
    have hg := hgive.lives g
    unfold Store.Lives at hg ⊢
    rw [hlife]
    exact hg

theorem frame_hand (ho : m.owner f = some .program) : Frame t' m (m.hand f t) := by
  have hne (g : Addr) (hg : m.owner g = some (.thread t')) : g ≠ f := fun he =>
    absurd ((he ▸ hg).symm.trans ho) nofun
  exact ⟨fun g hg => Function.update_of_ne (hne g hg) .., fun _ _ => rfl, fun _ _ => Iff.rfl,
    fun g hg => Store.life_note_of_ne (hne g hg).symm, fun _ => rfl, fun _ => rfl⟩

theorem frame_acquire (hk : m.lock = none) : Frame t' m (m.acquire t) :=
  ⟨fun _ _ => rfl, fun _ _ => rfl, fun _ _ => Iff.rfl, fun _ _ => rfl,
    fun h => absurd (hk.symm.trans h) nofun, fun _ => rfl⟩

theorem frame_release (htt : t' ≠ t) (hk : m.lock = some t) : Frame t' m m.release :=
  ⟨fun _ _ => rfl, fun _ _ => rfl, fun _ _ => Iff.rfl, fun _ _ => rfl,
    fun h => absurd (Option.some.inj (hk.symm.trans h)).symm htt, fun _ => rfl⟩

/-- Where the slot neither held the stream nor does now, nothing changes for it. -/
theorem in_put (hg : g ≠ f) (hi : m.direct i ≠ g) : (m.put i f).In g ↔ m.In g := by
  refine exists_congr fun j => and_congr_right fun _ => ?_
  simp only [Store.put]
  by_cases hj : j = i
  · rw [hj, Function.update_self]
    exact ⟨fun h => absurd h.symm hg, fun h => absurd h hi⟩
  · rw [Function.update_of_ne hj]

theorem frame_put (h : m.Ok) (htt : t' ≠ t) (hk : m.lock = some t)
    (hf : f = 0 ∨ m.owner f = some (.thread t))
    (hi : m.direct i = 0 ∨ m.owner (m.direct i) = some (.thread t)) :
    Frame t' m (m.put i f) := by
  have hother {a g : Addr} (ha : a = 0 ∨ m.owner a = some (.thread t))
      (hg : m.owner g = some (.thread t')) : g ≠ a := by
    obtain rfl | ha := ha
    · exact h.ne_null hg
    · exact ne_of_owner htt ha hg
  have hlock (hk' : m.lock = some t') : False := htt (Option.some.inj (hk.symm.trans hk')).symm
  exact ⟨fun _ _ => rfl, fun _ _ => rfl, fun g hg => in_put (hother hf hg) (hother hi hg).symm,
    fun _ _ => rfl, fun hk' => (hlock hk').elim, fun hk' => (hlock hk').elim⟩

/-- **A plain stream takes a free slot.** -/
theorem Store.Ok.store (h : m.Ok) (hl : m.Loose t f) (hi : i < slots) (hd : m.direct i = 0) :
    (m.put i f).Ok ∧ (m.put i f).Placed f := by
  have hf := h.ne_null hl.1
  have hdirect (j : Nat) : (m.put i f).direct j = if j = i then f else m.direct j := by
    simp only [Store.put, Function.update_apply]
  refine ⟨⟨fun j hj hne => ?_, fun j hj k hk he hne => ?_, fun g hg => ?_,
      h.owned, h.null, h.lives⟩,
    .inl ⟨hl.2.1, i, hi, by rw [hdirect, if_pos rfl]⟩⟩
  · rw [hdirect] at hne ⊢
    split
    · exact hl.2.1
    · next hji => exact h.plain j hj (by rwa [if_neg hji] at hne)
  · have hout (n : Nat) (hn : n < slots) : m.direct n ≠ f := fun he => hl.2.2 ⟨n, hn, he⟩
    rw [hdirect, hdirect] at he
    rw [hdirect] at hne
    by_cases hji : j = i
    · by_cases hki : k = i
      · rw [hji, hki]
      · rw [if_pos hji, if_neg hki] at he
        exact absurd he.symm (hout k hk)
    · by_cases hki : k = i
      · rw [if_neg hji, if_pos hki] at he
        exact absurd he (hout j hj)
      · rw [if_neg hji, if_neg hki] at he
        exact h.once j hj k hk he (by rwa [if_neg hji] at hne)
  · have hgf : g ≠ f := by
      intro he
      have hg' : m.owner g = some .program := hg
      rw [he, hl.1] at hg'
      exact absurd hg' nofun
    have hp := h.held g hg
    unfold Store.Placed at hp ⊢
    rw [in_put hgf (hd ▸ (h.ne_null hg).symm)]
    exact hp

/-- **The slot of a stream is cleared**, and it was the only one. -/
theorem Store.Ok.clear (h : m.Ok) (ho : m.owner f = some (.thread t)) (hi : i < slots)
    (hd : m.direct i = f) : (m.put i 0).Ok ∧ (m.put i 0).Loose t f := by
  have hf := h.ne_null ho
  have hdirect (j : Nat) : (m.put i 0).direct j = if j = i then 0 else m.direct j := by
    simp only [Store.put, Function.update_apply]
  refine ⟨⟨fun j hj hne => ?_, fun j hj k hk he hne => ?_, fun g hg => ?_,
      h.owned, h.null, h.lives⟩,
    ho, hd ▸ h.plain i hi (hd ▸ hf), ?_⟩
  · rw [hdirect] at hne ⊢
    split at hne
    · exact absurd rfl hne
    · next hji =>
      rw [if_neg hji]
      exact h.plain j hj hne
  · rw [hdirect] at hne
    split at hne
    · exact absurd rfl hne
    · next hji =>
      rw [hdirect, hdirect, if_neg hji] at he
      split at he
      · exact absurd he hne
      · exact h.once j hj k hk he hne
  · have hgf : g ≠ f := by
      intro he
      have hg' : m.owner g = some .program := hg
      rw [he, ho] at hg'
      exact absurd hg' nofun
    have hp := h.held g hg
    unfold Store.Placed at hp ⊢
    rw [in_put (h.ne_null hg) (hd ▸ hgf.symm)]
    exact hp
  · intro ⟨j, hj, hdj⟩
    rw [hdirect] at hdj
    split at hdj
    · exact hf hdj.symm
    · next hji =>
      exact hji (h.once j hj i hi (hdj.trans hd.symm) (hdj ▸ hf))

end

/-! ## 6. Runs -/

section

variable {t : Nat} {m : Store} {new : Option Addr}

/-- **What the next action of a thread does**: the table stays as it should, the thread is where it
    may be, and the others lose nothing. -/
theorem go_ok {c : Call} (h : m.Ok) (hc : At t m c)
    (hnew : ∀ f, new = some f → f ≠ 0 ∧ m.live f = none) :
    (go t new m c).1.Ok ∧ At t (go t new m c).1 (go t new m c).2 ∧
      ∀ t', t' ≠ t → Frame t' m (go t new m c).1 := by
  have hsame (t' : Nat) : Frame t' m m := Frame.refl t' m
  cases c with
  | idle => exact ⟨h, trivial, fun t' _ => hsame t'⟩
  | opening =>
    cases new with
    | none => exact ⟨h, trivial, fun t' _ => hsame t'⟩
    | some f =>
      obtain ⟨hf, hl⟩ := hnew f rfl
      have hok : (m.open_ f .file (.thread t)).Ok := h.open_ hf hl nofun
      exact ⟨hok, ⟨⟨Function.update_self .., Function.update_self .., h.not_in_of_closed hf hl⟩,
        .file, h.life_open hl⟩, fun t' _ => frame_open h hl⟩
  | opened f =>
    simp only [go]
    split
    · next hk => exact ⟨{ h with }, ⟨hc.1, hc.2, rfl⟩, fun t' _ => frame_acquire hk⟩
    · exact ⟨h, hc, fun t' _ => hsame t'⟩
  | looking f i =>
    obtain ⟨hl, hf, hk⟩ := hc
    simp only [go]
    split
    · next hi =>
      split
      · next hd => exact ⟨h, ⟨hl, hf, hk, hi, hd⟩, fun t' _ => hsame t'⟩
      · exact ⟨h, ⟨hl, hf, hk⟩, fun t' _ => hsame t'⟩
    · exact ⟨{ h with }, hl, fun t' ht => frame_release ht hk⟩
  | storing f i =>
    obtain ⟨hl, hf, hk, hi, hd⟩ := hc
    obtain ⟨hok, hp⟩ := h.store hl hi hd
    exact ⟨hok, ⟨hl.1, hp, hf, hk⟩, fun t' ht => frame_put h ht hk (.inr hl.1) (.inl hd)⟩
  | stored f =>
    obtain ⟨ho, hp, hf, hk⟩ := hc
    have hne (t' : Nat) (ht : t' ≠ t) : m.release.owner f ≠ some (.thread t') := fun he =>
      ht (Owner.thread.inj (Option.some.inj (ho.symm.trans he))).symm
    have hreleased : m.release.Ok := { h with }
    exact ⟨hreleased.give (fun he => absurd (ho.symm.trans he) nofun) fun _ => ⟨hp, hf⟩, trivial,
      fun t' ht => (frame_release ht hk).trans (frame_give (hne t' ht))⟩
  | refused f =>
    exact ⟨h.close (h.ne_null hc.1) hc.2.1 hc.2.2, trivial, fun t' ht => frame_close ht hc.1⟩
  | spawning =>
    cases new with
    | none => exact ⟨h, trivial, fun t' _ => hsame t'⟩
    | some f =>
      obtain ⟨hf, hl⟩ := hnew f rfl
      exact ⟨h.open_ hf hl fun _ => rfl, trivial, fun t' _ => frame_open h hl⟩
  | closing f =>
    simp only [go]
    split
    · next hk => exact ⟨{ h with }, ⟨hc.1, hc.2, rfl, nofun⟩, fun t' _ => frame_acquire hk⟩
    · exact ⟨h, hc, fun t' _ => hsame t'⟩
  | searching f i =>
    obtain ⟨ho, hp, hk, hbefore⟩ := hc
    simp only [go]
    split
    · next hi =>
      split
      · next hd => exact ⟨h, ⟨ho, hp, hk, hi, hd⟩, fun t' _ => hsame t'⟩
      · next hd =>
        refine ⟨h, ⟨ho, hp, hk, fun j hj => ?_⟩, fun t' _ => hsame t'⟩
        obtain hj | rfl := Nat.lt_succ_iff_lt_or_eq.mp hj
        · exact hbefore j hj
        · exact hd
    · next hi =>
      -- the stream was in no slot
      have hout : ¬ m.In f := fun ⟨j, hj, hd⟩ => hbefore j (by omega) hd
      obtain ⟨-, hin⟩ | ⟨hl, -⟩ := hp
      · exact absurd hin hout
      · exact ⟨{ h with }, ⟨ho, hl⟩, fun t' ht => frame_release ht hk⟩
  | clearing f i =>
    obtain ⟨ho, -, hk, hi, hd⟩ := hc
    obtain ⟨hok, hl⟩ := h.clear ho hi hd
    exact ⟨hok, ⟨hl, hk⟩, fun t' ht => frame_put h ht hk (.inl rfl) (.inr (hd ▸ ho))⟩
  | cleared f => exact ⟨{ h with }, hc.1, fun t' ht => frame_release ht hc.2⟩
  | own f =>
    exact ⟨h.close (h.ne_null hc.1) hc.2.1 hc.2.2, trivial, fun t' ht => frame_close ht hc.1⟩
  | foreign f =>
    have hf := h.ne_null hc.1
    exact ⟨h.close hf hc.2 (h.not_in_of_child hf hc.2), trivial, fun t' ht => frame_close ht hc.1⟩

/-- The stream of a call changes hands. -/
theorem mine_update {m' : Store} {c c' : Call} {f : Addr} {w : Option Owner} (hmine : Mine t m c)
    (howner : m'.owner = Function.update m.owner f w) (hstream : ∀ g, c.stream = some g → g = f)
    (hw : ∀ t', w = some (.thread t') → t' = t ∧ c'.stream = some f) : Mine t m' c' ∧
      ∀ t' g, t' ≠ t → m'.owner g = some (.thread t') → m.owner g = some (.thread t') := by
  rw [howner]
  refine ⟨fun g hg => ?_, fun t' g ht hg => ?_⟩
  · rw [howner] at hg
    by_cases hgf : g = f
    · rw [hgf, Function.update_self] at hg
      exact hgf ▸ (hw t hg).2
    · rw [Function.update_of_ne hgf] at hg
      exact absurd (hstream g (hmine g hg)) hgf
  · by_cases hgf : g = f
    · rw [hgf, Function.update_self] at hg
      exact absurd (hw t' hg).1 ht
    · rwa [Function.update_of_ne hgf] at hg

/-- **No other thread comes to a stream, and this one has that of its call.** -/
theorem go_mine {c : Call} (hmine : Mine t m c) : Mine t (go t new m c).1 (go t new m c).2 ∧
    ∀ t' f, t' ≠ t → (go t new m c).1.owner f = some (.thread t') → m.owner f = some (.thread t') := by
  have hsame : ∀ t' f, t' ≠ t → m.owner f = some (.thread t') → m.owner f = some (.thread t') :=
    fun _ _ _ hf => hf
  have hstream {f : Addr} : ∀ g, some f = some g → g = f := fun g hg => (Option.some.inj hg).symm
  cases c with
  | idle => exact ⟨hmine, hsame⟩
  | opening =>
    cases new with
    | none => exact ⟨hmine, hsame⟩
    | some f =>
      exact mine_update hmine rfl nofun fun t' ht =>
        ⟨(Owner.thread.inj (Option.some.inj ht)).symm, rfl⟩
  | opened f =>
    simp only [go]
    split
    · exact ⟨hmine, hsame⟩
    · exact ⟨hmine, hsame⟩
  | looking f i =>
    simp only [go]
    split
    · split
      · exact ⟨hmine, hsame⟩
      · exact ⟨hmine, hsame⟩
    · exact ⟨hmine, hsame⟩
  | storing f i => exact ⟨hmine, hsame⟩
  | stored f => exact mine_update hmine rfl hstream nofun
  | refused f => exact mine_update hmine rfl hstream nofun
  | spawning =>
    cases new with
    | none => exact ⟨hmine, hsame⟩
    | some f => exact mine_update hmine rfl nofun nofun
  | closing f =>
    simp only [go]
    split
    · exact ⟨hmine, hsame⟩
    · exact ⟨hmine, hsame⟩
  | searching f i =>
    simp only [go]
    split
    · split
      · exact ⟨hmine, hsame⟩
      · exact ⟨hmine, hsame⟩
    · exact ⟨hmine, hsame⟩
  | clearing f i => exact ⟨hmine, hsame⟩
  | cleared f => exact ⟨hmine, hsame⟩
  | own f => exact mine_update hmine rfl hstream nofun
  | foreign f => exact mine_update hmine rfl hstream nofun

variable {p : Process}

/-- One thread acts. -/
theorem Inv.goto {c : Call} (h : Inv p) (hok : m.Ok) (hc : At t m c)
    (hframe : ∀ t', t' ≠ t → Frame t' p.store m) (hmine : Mine t m c)
    (hothers : ∀ t' f, t' ≠ t → m.owner f = some (.thread t') →
      p.store.owner f = some (.thread t')) : Inv (p.goto t m c) where
  store := hok
  calls t' := by
    simp only [Process.goto]
    by_cases ht : t' = t
    · rw [ht, Function.update_self]
      exact hc
    · rw [Function.update_of_ne ht]
      exact (hframe t' ht).at_ (h.calls t')
  mine t' := by
    simp only [Process.goto]
    by_cases ht : t' = t
    · rw [ht, Function.update_self]
      exact hmine
    · rw [Function.update_of_ne ht]
      exact fun f hf => h.mine t' f (hothers t' f ht hf)

theorem fresh_of_fair {new : Option Addr} (h : Fair p (.go t new)) (f : Addr)
    (hf : new = some f) : f ≠ 0 ∧ p.store.live f = none := by
  subst hf
  exact h

/-- An idle thread has no stream. -/
theorem Inv.idle (h : Inv p) (ht : p.calls t = .idle) (f : Addr) :
    p.store.owner f ≠ some (.thread t) := fun hf =>
  absurd ((congrArg Call.stream ht).symm.trans (h.mine t f hf)) nofun

theorem step_inv {e : Event} (hfair : Fair p e) (h : Inv p) : Inv (step p e) := by
  cases e with
  | popen t cid =>
    simp only [step]
    split
    · next ht =>
      exact h.goto h.store (by cases cid <;> trivial) (fun t' _ => Frame.refl t' _)
        (fun f hf => absurd hf (h.idle ht f)) fun _ _ _ hf => hf
    · exact h
  | pclose t f =>
    have ho : p.store.owner f = some .program := hfair
    simp only [step]
    split
    · next ht =>
      refine h.goto (h.store.hand ho) ⟨Function.update_self .., h.store.held f ho⟩
        (fun t' _ => frame_hand ho) (fun g hg => ?_) fun t' g ht' hg => ?_
      · by_cases hgf : g = f
        · rw [hgf]
          rfl
        · exact absurd ((Function.update_of_ne hgf ..).symm.trans hg) (h.idle ht g)
      · by_cases hgf : g = f
        · subst hgf
          have hthread := (Function.update_self ..).symm.trans hg
          exact absurd (Owner.thread.inj (Option.some.inj hthread)).symm ht'
        · exact (Function.update_of_ne hgf ..).symm.trans hg
    · exact h
  | go t new =>
    obtain ⟨hok, hc, hframe⟩ := go_ok h.store (h.calls t) (fresh_of_fair hfair)
    obtain ⟨hmine, hothers⟩ := go_mine (h.mine t)
    exact h.goto hok hc hframe hmine hothers

theorem start_inv : Inv start where
  store := {
    plain := fun _ _ hd => absurd rfl hd
    once := fun _ _ _ _ _ hd => absurd rfl hd
    held := nofun
    owned := fun _ => iff_of_true rfl rfl
    null := rfl
    lives := fun _ => .inl ⟨rfl, rfl⟩ }
  calls _ := trivial
  mine _ _ := nofun

/-- What the program may rely on. What is noted of an address is a life: opened, then closed by the
    function it came from, and no more until it is opened again. Every open stream is the program's,
    in the table if it is plain, and not yet given to `pclose`, or that of a call which has not
    returned. And the program holds four plain streams at most. -/
structure Matched (p : Process) : Prop where
  lives : ∀ f, p.store.live f = none ∧ p.store.life f = some .shut ∨ ∃ o, p.store.live f = some o ∧
    (p.store.life f = some (.open_ o) ∨ p.store.life f = some (.given o))
  open_ : ∀ f, p.store.live f ≠ none → p.store.owner f = some .program ∧ p.store.Fresh f ∨
    ∃ t, p.store.owner f = some (.thread t) ∧ (p.calls t).stream = some f
  held : ∀ f, p.store.owner f = some .program →
    p.store.live f = some .file ∧ p.store.In f ∨ p.store.live f = some .child ∧ ¬ p.store.In f
  few : ∀ fs : List Addr, fs.Nodup →
    (∀ f ∈ fs, p.store.owner f = some .program ∧ p.store.live f = some .file) → fs.length ≤ slots

/-- Streams that are in slots are no more than the slots. -/
theorem length_le_slots {fs : List Addr} (hfs : fs.Nodup) (hin : ∀ f ∈ fs, m.In f) :
    fs.length ≤ slots := by
  have hsub : fs ⊆ (List.range slots).map m.direct := by
    intro f hf
    obtain ⟨i, hi, hd⟩ := hin f hf
    exact List.mem_map.mpr ⟨i, List.mem_range.mpr hi, hd⟩
  have hle := (List.subperm_of_subset hfs hsub).length_le
  rwa [List.length_map, List.length_range] at hle

theorem Inv.matched (h : Inv p) : Matched p where
  lives f := (h.store.lives f).imp_right fun ⟨o, hl, hlife⟩ => ⟨o, hl, hlife.imp_right And.left⟩
  open_ f hf := by
    rcases ho : p.store.owner f with - | - | t
    · exact absurd ((h.store.owned f).mp ho) hf
    · obtain ⟨hnone, -⟩ | ⟨o, -, hopen | ⟨-, hne⟩⟩ := h.store.lives f
      · exact absurd hnone hf
      · exact .inl ⟨rfl, o, hopen⟩
      · exact absurd ho hne
    · exact .inr ⟨t, rfl, h.mine t f ho⟩
  held := h.store.held
  few fs hfs hall := length_le_slots (m := p.store) hfs fun f hf => by
    obtain ⟨-, hin⟩ | ⟨hl, -⟩ := h.store.held f (hall f hf).1
    · exact hin
    · exact absurd ((hall f hf).2.symm.trans hl) nofun

/-- **Every stream is closed once, by the function it came from**, before the call it was given to
    returns, whatever threads open and close streams at once and whatever addresses the C library
    uses again. -/
theorem streams_matched {es : List Event} (h : StepsMeet step Fair start es) :
    Matched (run step start es) :=
  (run_inv_of (I := Inv) (fun _ _ hf hp => step_inv hf hp) start_inv h).matched

end

/-- Two threads open the one command at once; the first closes its stream, and another command gets
    the same address. -/
def bothOpen : List Event :=
  [.popen 1 true, .go 1 (some 10), .popen 2 true, .go 2 (some 20), .go 1 none, .go 1 none, .go 1 none,
    .go 2 none, .go 1 none]

def firstCloses : List Event :=
  [.pclose 1 10, .go 2 none, .go 2 none, .go 2 none, .go 2 none, .go 2 none, .go 1 none, .go 1 none,
    .go 1 none, .go 1 none, .go 1 none]

def usedAgain : List Event :=
  [.popen 2 false, .go 2 (some 10), .pclose 2 10, .go 2 none, .go 2 none, .go 2 none, .go 2 none,
    .go 2 none, .go 2 none, .go 2 none]

def sampleEvents : List Event := bothOpen ++ (firstCloses ++ usedAgain)

theorem streams_matched_reused :
    ((run step start sampleEvents).store.live 10 = none ∧
      (run step start sampleEvents).store.owner 20 = some .program) ∧
      Matched (run step start sampleEvents) :=
  ⟨by decide, streams_matched (by decide)⟩

end YiHack.Ipc
