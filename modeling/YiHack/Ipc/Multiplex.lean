/-
  File:      YiHack/Ipc/Multiplex.lean
  Subject:   `ipc_multiplex.c`: `mq_receive` in front of the C library's own, which sends what a
             thread has received to the queues of the mirrors.

  Any number of threads receive; readers of the mirrors take messages at any moment. A thread acts
  as far as the others can see it: the queues and the `pthread_once` are shared. What `mq_open` and
  the original `mq_receive` answer, and what they leave in `errno`, is up to the surroundings. The
  mirrors are empty at first, and `dlsym` finds the original. The debug print is left out.

  Beside this the model notes what each thread was given by the original and what it returned, and
  for each mirror what was put there, what was taken and what was lost.

  * `go` -- what a thread does next;
  * `Mirrored` -- what the threads return, and what the mirrors get;
  * `Inv`, `Frame` -- what holds where a thread is, and what the others leave to it;
  * **`mirrored`** -- over every run.
-/
import YiHack.General.Run
import YiHack.General.Bytes
import Mathlib.Data.List.Nodup
import Mathlib.Logic.Function.Basic

namespace YiHack.Ipc.Multiplex

open General

/-! ## 1. The process -/

abbrev Errno := Nat

/-- `mq_maxmsg` of the mirrors. -/
def MAXMSG : Nat := 64

def IPC_MESSAGE_MAX_SIZE : Nat := 512

/-- A message that was received, with its number and the thread. -/
structure Entry where
  number : Nat
  thread : Nat
  message : Bytes
  deriving DecidableEq, Repr

/-- `initialize_once`. -/
inductive Once
  | unset
  | running (t : Nat)
  | set
  deriving DecidableEq, Repr

/-- Where the call of a thread is; `saved` is `saved_errno`. -/
inductive Call
  | idle
  | entered (saved : Errno)
  | opening (saved : Errno) (i : Nat)
  | receiving
  | forwarding (saved : Errno) (e : Entry) (i : Nat)
  deriving DecidableEq, Repr

/-- What `mq_receive` returns, none for -1, and `errno` behind it. -/
abbrev Return := Option Bytes × Errno

/-- `opened` is that `ipc_mq[i]` is valid. An entry that was lost is noted with the number of
    messages that were waiting. -/
structure World where
  once : Once
  opened : Nat → Bool
  queue : Nat → List Entry
  errno : Nat → Errno
  calls : Nat → Call
  received : List Entry
  given : Nat → List Return
  returned : Nat → List Return
  put : Nat → List Entry
  took : Nat → List Entry
  lost : Nat → List (Entry × Nat)

/-- What the next call of the C library does. -/
structure Answer where
  ok : Bool
  errno : Errno
  message : Option Bytes

/-- `IPC_MULTIPLEX_ALL` is 1. -/
def firstQueue (all : Bool) : Nat := if all then 1 else 2

def lastQueue (all : Bool) : Nat := if all then 9 else 2

namespace World

def goto (w : World) (t : Nat) (c : Call) : World :=
  { w with calls := Function.update w.calls t c }

def setErrno (w : World) (t : Nat) (e : Errno) : World :=
  { w with errno := Function.update w.errno t e }

def setOpened (w : World) (i : Nat) (ok : Bool) : World :=
  { w with opened := Function.update w.opened i ok }

/-- What the original has answered. -/
def give (w : World) (t : Nat) (r : Return) : World :=
  { w with given := Function.update w.given t (w.given t ++ [r]) }

/-- The end of a call. -/
def answer (w : World) (t : Nat) (r : Return) : World :=
  { w with returned := Function.update w.returned t (w.returned t ++ [r]) }

def receive (w : World) (e : Entry) : World := { w with received := w.received ++ [e] }

/-- `mq_send` to a mirror. -/
def send (w : World) (e : Entry) (i : Nat) : World :=
  if w.opened i && e.message.length ≤ IPC_MESSAGE_MAX_SIZE && (w.queue i).length < MAXMSG then
    { w with
      queue := Function.update w.queue i (w.queue i ++ [e])
      put := Function.update w.put i (w.put i ++ [e]) }
  else { w with lost := Function.update w.lost i (w.lost i ++ [(e, (w.queue i).length)]) }

/-- A reader of a mirror takes the oldest message. -/
def take (w : World) (i : Nat) : World :=
  match w.queue i with
  | [] => w
  | e :: es =>
    { w with
      queue := Function.update w.queue i es
      took := Function.update w.took i (w.took i ++ [e]) }

end World

/-- What a thread does next. -/
def go (all : Bool) (t : Nat) (a : Answer) (w : World) : World :=
  match w.calls t with
  | .idle => w
  | .entered saved =>
    match w.once with
    | .unset => { w with once := .running t }.goto t (.opening saved (firstQueue all))
    | .running _ => w
    | .set => (w.setErrno t saved).goto t .receiving
  | .opening saved i =>
    if i ≤ lastQueue all then
      ((w.setOpened i a.ok).setErrno t a.errno).goto t (.opening saved (i + 1))
    else ({ w with once := .set }.setErrno t saved).goto t .receiving
  | .receiving =>
    match a.message with
    | none =>
      let r : Return := (none, a.errno)
      (((w.setErrno t a.errno).give t r).answer t r).goto t .idle
    | some m =>
      let e : Entry := ⟨w.received.length, t, m⟩
      (((w.setErrno t a.errno).give t (some m, a.errno)).receive e).goto t
        (.forwarding a.errno e (firstQueue all))
  | .forwarding saved e i =>
    if i ≤ lastQueue all then
      ((w.send e i).setErrno t a.errno).goto t (.forwarding saved e (i + 1))
    else ((w.setErrno t saved).answer t (some e.message, saved)).goto t .idle

/-- A thread calls `mq_receive`, its call goes on, its `errno` changes elsewhere; a reader takes a
    message. -/
inductive Event
  | call (t : Nat)
  | go (t : Nat) (a : Answer)
  | errno (t : Nat) (e : Errno)
  | take (i : Nat)

def step (all : Bool) (w : World) : Event → World
  | .call t => if w.calls t = .idle then w.goto t (.entered (w.errno t)) else w
  | .go t a => go all t a w
  | .errno t e => if w.calls t = .idle then w.setErrno t e else w
  | .take i => w.take i

def start : World where
  once := .unset
  opened _ := false
  queue _ := []
  errno _ := 0
  calls _ := .idle
  received := []
  given _ := []
  returned _ := []
  put _ := []
  took _ := []
  lost _ := []

/-! ## 2. What a run is to keep -/

/-- What a thread has received. -/
def own (t : Nat) (es : List Entry) : List Entry := es.filter fun e => e.thread = t

/-- What a call under way will return. -/
def Call.owes : Call → List Return
  | .forwarding saved e _ => [(some e.message, saved)]
  | _ => []

/-- The call under way has still to send the entry to the mirror. -/
def Call.Owes (c : Call) (e : Entry) (j : Nat) : Prop :=
  ∃ saved i, c = .forwarding saved e i ∧ i ≤ j

/-- What the threads return, and what the mirrors get. -/
structure Mirrored (all : Bool) (w : World) : Prop where
  transparent : ∀ t, w.given t = w.returned t ++ (w.calls t).owes
  fifo : ∀ j, w.put j = w.took j ++ w.queue j
  room : ∀ j, (w.queue j).length ≤ MAXMSG
  ordered : ∀ t j, (own t (w.put j)).Sublist (own t w.received)
  complete : ∀ e ∈ w.received, ∀ j, firstQueue all ≤ j → j ≤ lastQueue all →
    e ∈ w.put j ∨ (∃ n, (e, n) ∈ w.lost j) ∨ (w.calls e.thread).Owes e j
  excused : ∀ j e n, (e, n) ∈ w.lost j →
    w.opened j = false ∨ IPC_MESSAGE_MAX_SIZE < e.message.length ∨ n = MAXMSG
  unrepeated : ∀ j, (w.put j).Nodup
  private_ : ∀ j, ¬ (firstQueue all ≤ j ∧ j ≤ lastQueue all) → w.put j = []

/-! ## 3. What holds where a thread is -/

/-- What thread `t` may rely on, of `initialize_once`. -/
def Call.Ready (t : Nat) (o : Once) : Call → Prop
  | .idle | .entered _ => True
  | .opening _ _ => o = .running t
  | .receiving | .forwarding _ _ _ => o = .set

/-- What is being sent is the newest the thread has received, and no mirror from here on has it. -/
structure Newest (all : Bool) (t : Nat) (w : World) (e : Entry) (i : Nat) : Prop where
  mine : e.thread = t
  first : firstQueue all ≤ i
  behind : ∃ earlier, own t w.received = earlier ++ [e] ∧
    ∀ j, i ≤ j → (own t (w.put j)).Sublist earlier

structure Inv (all : Bool) (w : World) : Prop where
  transparent : ∀ t, w.given t = w.returned t ++ (w.calls t).owes
  fifo : ∀ j, w.put j = w.took j ++ w.queue j
  room : ∀ j, (w.queue j).length ≤ MAXMSG
  ordered : ∀ t j, (own t (w.put j)).Sublist (own t w.received)
  complete : ∀ e ∈ w.received, ∀ j, firstQueue all ≤ j → j ≤ lastQueue all →
    e ∈ w.put j ∨ (∃ n, (e, n) ∈ w.lost j) ∨ (w.calls e.thread).Owes e j
  excused : ∀ j e n, (e, n) ∈ w.lost j →
    w.opened j = false ∨ IPC_MESSAGE_MAX_SIZE < e.message.length ∨ n = MAXMSG
  private_ : ∀ j, ¬ (firstQueue all ≤ j ∧ j ≤ lastQueue all) → w.put j = []
  numbered : w.received.map Entry.number = List.range w.received.length
  unlost : w.once ≠ .set → ∀ j, w.lost j = []
  ready : ∀ t, (w.calls t).Ready t w.once
  newest : ∀ t saved e i, w.calls t = .forwarding saved e i → Newest all t w e i

section

variable {all : Bool} {w : World} {t : Nat} {c : Call} {e : Entry} {i : Nat} {es fs : List Entry}

@[simp] theorem own_nil : own t [] = [] := rfl

theorem own_append : own t (es ++ fs) = own t es ++ own t fs := List.filter_append ..

theorem own_of_mine (h : e.thread = t) : own t [e] = [e] := by
  simp [own, h]

theorem own_of_not_mine (h : e.thread ≠ t) : own t [e] = [] := by
  simp [own, h]

theorem count_own (e : Entry) (es : List Entry) : (own e.thread es).count e = es.count e :=
  List.count_filter (by simp)

/-- **A mirror gets nothing twice**, being in the order of each thread. -/
theorem Inv.unrepeated (h : Inv all w) (j : Nat) : (w.put j).Nodup := by
  have hr : w.received.Nodup := by
    refine List.Nodup.of_map Entry.number ?_
    rw [h.numbered]
    exact List.nodup_range
  rw [List.nodup_iff_count_le_one] at hr ⊢
  intro e
  calc (w.put j).count e = (own e.thread (w.put j)).count e := (count_own e _).symm
    _ ≤ (own e.thread w.received).count e := (h.ordered e.thread j).count_le e
    _ = w.received.count e := count_own e _
    _ ≤ 1 := hr e

theorem Inv.mirrored_ (h : Inv all w) : Mirrored all w where
  transparent := h.transparent
  fifo := h.fifo
  room := h.room
  ordered := h.ordered
  complete := h.complete
  excused := h.excused
  unrepeated := h.unrepeated
  private_ := h.private_

theorem Inv.start (all : Bool) : Inv all start where
  transparent _ := rfl
  fifo _ := rfl
  room _ := Nat.zero_le _
  ordered _ _ := List.Sublist.refl _
  complete _ he := absurd he List.not_mem_nil
  excused _ _ _ he := absurd he List.not_mem_nil
  private_ _ _ := rfl
  numbered := rfl
  unlost _ _ := rfl
  ready _ := trivial
  newest _ _ _ _ h := nomatch h

/-! ## 4. What each action keeps -/

theorem Call.owes_of_silent (h : ∀ saved e i, c ≠ .forwarding saved e i) : c.owes = [] := by
  cases c with
  | forwarding saved e i => exact absurd rfl (h saved e i)
  | _ => rfl

theorem Inv.balanced (h : Inv all w) (hc : ∀ saved e i, w.calls t ≠ .forwarding saved e i) :
    w.given t = w.returned t := by
  rw [h.transparent, Call.owes_of_silent hc, List.append_nil]

/-- **A step that neither receives nor sends.** The call that ends has nothing left to send. -/
theorem Inv.moves {o : Once} {p : Nat → Bool} {m : Nat → Errno} {g r : Nat → List Return}
    (h : Inv all w) (told : ∀ e j, j ≤ lastQueue all → ¬ (w.calls t).Owes e j)
    (silent : ∀ saved e i, c ≠ .forwarding saved e i) (ready : c.Ready t o)
    (kept : w.once = .set → o = .set ∧ p = w.opened)
    (others : ∀ u, u ≠ t → w.once = .running u → o = .running u)
    (mine : g t = r t) (theirs : ∀ u, u ≠ t → g u = w.given u ∧ r u = w.returned u) :
    Inv all { w with
      once := o, opened := p, errno := m, calls := Function.update w.calls t c,
      given := g, returned := r } where
  transparent u := by
    by_cases hu : u = t
    · subst hu
      show g u = r u ++ (Function.update w.calls u c u).owes
      rw [Function.update_self, Call.owes_of_silent silent, List.append_nil, mine]
    · show g u = r u ++ (Function.update w.calls t c u).owes
      rw [Function.update_of_ne hu, (theirs u hu).1, (theirs u hu).2, h.transparent]
  fifo := h.fifo
  room := h.room
  ordered := h.ordered
  complete e he j hf hl := by
    obtain hp | hp | hp := h.complete e he j hf hl
    · exact .inl hp
    · exact .inr (.inl hp)
    · have hne : e.thread ≠ t := fun ht => told e j hl (ht ▸ hp)
      refine .inr (.inr ?_)
      show (Function.update w.calls t c e.thread).Owes e j
      rwa [Function.update_of_ne hne]
  excused j e n he := by
    have hs : w.once = .set := by
      by_contra hn
      rw [h.unlost hn j] at he
      exact absurd he List.not_mem_nil
    show p j = false ∨ _
    rw [(kept hs).2]
    exact h.excused j e n he
  private_ := h.private_
  numbered := h.numbered
  unlost hn := h.unlost fun hs => hn (kept hs).1
  ready u := by
    show (Function.update w.calls t c u).Ready u o
    by_cases hu : u = t
    · subst hu
      rwa [Function.update_self]
    · rw [Function.update_of_ne hu]
      have := h.ready u
      revert this
      cases w.calls u with
      | idle => exact fun _ => trivial
      | entered saved => exact fun _ => trivial
      | opening saved i => exact others u hu
      | receiving => exact fun hs => (kept hs).1
      | forwarding saved e i => exact fun hs => (kept hs).1
  newest u saved e i hc := by
    have hu : u ≠ t := by
      intro hu
      subst hu
      exact silent saved e i ((Function.update_self ..).symm.trans hc)
    have hc : Function.update w.calls t c u = .forwarding saved e i := hc
    rw [Function.update_of_ne hu] at hc
    obtain ⟨hm, hf, hb⟩ := h.newest u saved e i hc
    exact ⟨hm, hf, hb⟩

theorem Inv.errno (h : Inv all w) (m : Nat → Errno) : Inv all { w with errno := m } where
  transparent := h.transparent
  fifo := h.fifo
  room := h.room
  ordered := h.ordered
  complete := h.complete
  excused := h.excused
  private_ := h.private_
  numbered := h.numbered
  unlost := h.unlost
  ready := h.ready
  newest u saved e i hc := by
    obtain ⟨hm, hf, hb⟩ := h.newest u saved e i hc
    exact ⟨hm, hf, hb⟩

theorem Inv.take (h : Inv all w) (i : Nat) : Inv all (w.take i) := by
  unfold World.take
  split
  · exact h
  · rename_i e es hq
    exact {
      transparent := h.transparent
      fifo := fun j => by
        show w.put j =
          Function.update w.took i (w.took i ++ [e]) j ++ Function.update w.queue i es j
        by_cases hj : j = i
        · subst hj
          rw [Function.update_self, Function.update_self, h.fifo, hq, List.append_assoc,
            List.singleton_append]
        · rw [Function.update_of_ne hj, Function.update_of_ne hj, h.fifo]
      room := fun j => by
        show (Function.update w.queue i es j).length ≤ MAXMSG
        by_cases hj : j = i
        · subst hj
          have hr := h.room j
          rw [hq, List.length_cons] at hr
          rw [Function.update_self]
          omega
        · rw [Function.update_of_ne hj]
          exact h.room j
      ordered := h.ordered
      complete := h.complete
      excused := h.excused
      private_ := h.private_
      numbered := h.numbered
      unlost := h.unlost
      ready := h.ready
      newest := fun u saved e i hc => by
        obtain ⟨hm, hf, hb⟩ := h.newest u saved e i hc
        exact ⟨hm, hf, hb⟩ }

/-- **A message is received**: it is the newest of its thread, and to be sent to every mirror. -/
theorem Inv.receive (h : Inv all w) (hc : w.calls t = .receiving) (m : Bytes) (n : Errno) :
    Inv all ((((w.setErrno t n).give t (some m, n)).receive ⟨w.received.length, t, m⟩).goto t
      (.forwarding n ⟨w.received.length, t, m⟩ (firstQueue all))) := by
  have hset : w.once = .set := by
    have := h.ready t
    rwa [hc] at this
  exact {
    transparent := fun u => by
      show Function.update w.given t (w.given t ++ [(some m, n)]) u =
        w.returned u ++ (Function.update w.calls t _ u).owes
      by_cases hu : u = t
      · subst hu
        have ht := h.transparent u
        rw [hc, Call.owes_of_silent (by exact nofun), List.append_nil] at ht
        rw [Function.update_self, Function.update_self, ht]
        rfl
      · rw [Function.update_of_ne hu, Function.update_of_ne hu, h.transparent]
    fifo := h.fifo
    room := h.room
    ordered := fun u j => by
      show (own u (w.put j)).Sublist (own u (w.received ++ [_]))
      rw [own_append]
      exact (h.ordered u j).trans (List.sublist_append_left ..)
    complete := fun e he j hf hl => by
      show _ ∨ _ ∨ (Function.update w.calls t _ e.thread).Owes e j
      obtain he | he := List.mem_append.mp he
      · obtain hp | hp | hp := h.complete e he j hf hl
        · exact .inl hp
        · exact .inr (.inl hp)
        · have hne : e.thread ≠ t := by
            intro ht
            obtain ⟨saved, i, hs, -⟩ := hp
            rw [ht, hc] at hs
            exact nomatch hs
          rw [Function.update_of_ne hne]
          exact .inr (.inr hp)
      · have he : e = ⟨w.received.length, t, m⟩ := List.mem_singleton.mp he
        subst he
        rw [Function.update_self]
        exact .inr (.inr ⟨n, _, rfl, hf⟩)
    excused := h.excused
    private_ := h.private_
    numbered := by
      show (w.received ++ [_]).map Entry.number = List.range (w.received ++ [_]).length
      rw [List.map_append, h.numbered, List.length_append, List.length_singleton, List.range_succ]
      rfl
    unlost := h.unlost
    ready := fun u => by
      show (Function.update w.calls t _ u).Ready u w.once
      by_cases hu : u = t
      · subst hu
        rw [Function.update_self]
        exact hset
      · rw [Function.update_of_ne hu]
        exact h.ready u
    newest := fun u saved e i hu => by
      have hu : Function.update w.calls t _ u = .forwarding saved e i := hu
      by_cases hut : u = t
      · subst hut
        rw [Function.update_self] at hu
        cases hu
        refine ⟨rfl, Nat.le_refl _, own u w.received, ?_, fun j _ => h.ordered u j⟩
        show own u (w.received ++ [_]) = _
        rw [own_append]
        exact congrArg _ (own_of_mine rfl)
      · rw [Function.update_of_ne hut] at hu
        obtain ⟨hm, hf, earlier, he, hp⟩ := h.newest u saved e i hu
        refine ⟨hm, hf, earlier, ?_, hp⟩
        show own u (w.received ++ [_]) = _
        rw [own_append, own_of_not_mine (fun ht => hut ht.symm), List.append_nil, he] }

/-! ## 5. Sending -/

/-- Where a message is put in a mirror, or lost. -/
theorem Inv.sends {q p : Nat → List Entry} {l : Nat → List (Entry × Nat)} {saved : Errno}
    {m : Nat → Errno} (h : Inv all w) (hc : w.calls t = .forwarding saved e i)
    (hi : i ≤ lastQueue all)
    (hq : ∀ j, j ≠ i → q j = w.queue j ∧ p j = w.put j ∧ l j = w.lost j)
    (hs : q i = w.queue i ++ [e] ∧ p i = w.put i ++ [e] ∧ l i = w.lost i ∧
        (w.queue i).length < MAXMSG ∨
      q i = w.queue i ∧ p i = w.put i ∧ l i = w.lost i ++ [(e, (w.queue i).length)] ∧
        (w.opened i = false ∨ IPC_MESSAGE_MAX_SIZE < e.message.length ∨
          MAXMSG ≤ (w.queue i).length)) :
    Inv all { w with
      queue := q, put := p, lost := l, errno := m,
      calls := Function.update w.calls t (.forwarding saved e (i + 1)) } := by
  have hset : w.once = .set := by
    have := h.ready t
    rwa [hc] at this
  obtain ⟨hmine, hfirst, earlier, hearlier, hbehind⟩ := h.newest t saved e i hc
  have hput : p i = w.put i ∨ p i = w.put i ++ [e] := by
    obtain hs | hs := hs
    · exact .inr hs.2.1
    · exact .inl hs.2.1
  have hold : ∀ j, w.put j ⊆ p j := by
    intro j
    by_cases hj : j = i
    · subst hj
      obtain hp | hp := hput <;> rw [hp]
      · exact List.Subset.refl _
      · exact List.subset_append_left ..
    · rw [(hq j hj).2.1]
      exact List.Subset.refl _
  have hlost : ∀ j, w.lost j ⊆ l j := by
    intro j
    by_cases hj : j = i
    · subst hj
      obtain ⟨-, -, hl, -⟩ | ⟨-, -, hl, -⟩ := hs <;> rw [hl]
      · exact List.Subset.refl _
      · exact List.subset_append_left ..
    · rw [(hq j hj).2.2]
      exact List.Subset.refl _
  exact {
    transparent := fun u => by
      show w.given u = w.returned u ++ (Function.update w.calls t _ u).owes
      by_cases hu : u = t
      · subst hu
        rw [Function.update_self, h.transparent, hc]
        rfl
      · rw [Function.update_of_ne hu, h.transparent]
    fifo := fun j => by
      show p j = w.took j ++ q j
      by_cases hj : j = i
      · subst hj
        obtain ⟨hqi, hpi, -⟩ | ⟨hqi, hpi, -⟩ := hs
        · rw [hqi, hpi, h.fifo, List.append_assoc]
        · rw [hqi, hpi, h.fifo]
      · rw [(hq j hj).1, (hq j hj).2.1, h.fifo]
    room := fun j => by
      show (q j).length ≤ MAXMSG
      by_cases hj : j = i
      · subst hj
        obtain ⟨hqi, -, -, hlen⟩ | ⟨hqi, -⟩ := hs
        · rw [hqi, List.length_append, List.length_singleton]
          exact hlen
        · rw [hqi]
          exact h.room j
      · rw [(hq j hj).1]
        exact h.room j
    ordered := fun u j => by
      show (own u (p j)).Sublist (own u w.received)
      by_cases hj : j = i
      · subst hj
        obtain hp | hp := hput <;> rw [hp]
        · exact h.ordered u j
        · rw [own_append]
          by_cases hu : u = t
          · subst hu
            rw [own_of_mine hmine, hearlier]
            exact (hbehind j (Nat.le_refl j)).append_right [e]
          · rw [own_of_not_mine (fun he => hu (he.symm.trans hmine)), List.append_nil]
            exact h.ordered u j
      · rw [(hq j hj).2.1]
        exact h.ordered u j
    complete := fun e' he' j hf hl => by
      show e' ∈ p j ∨ (∃ n, (e', n) ∈ l j) ∨ (Function.update w.calls t _ e'.thread).Owes e' j
      obtain hp | ⟨n, hn⟩ | hp := h.complete e' he' j hf hl
      · exact .inl (hold j hp)
      · exact .inr (.inl ⟨n, hlost j hn⟩)
      · by_cases ht : e'.thread = t
        · obtain ⟨saved', i', hcall, hle⟩ := hp
          rw [ht, hc] at hcall
          cases hcall
          by_cases hj : j = i
          -- the mirror that has just been served
          · subst hj
            obtain ⟨-, hpi, -⟩ | ⟨-, -, hli, -⟩ := hs
            · rw [hpi]
              exact .inl (List.mem_append_right _ (List.mem_singleton_self _))
            · rw [hli]
              exact .inr (.inl ⟨_, List.mem_append_right _ (List.mem_singleton_self _)⟩)
          · rw [ht, Function.update_self]
            exact .inr (.inr ⟨saved, i + 1, rfl, by omega⟩)
        · rw [Function.update_of_ne ht]
          exact .inr (.inr hp)
    excused := fun j e' n hmem => by
      show w.opened j = false ∨ IPC_MESSAGE_MAX_SIZE < e'.message.length ∨ n = MAXMSG
      have hn : (e', n) ∈ l j := hmem
      clear hmem
      by_cases hj : j = i
      · subst hj
        obtain ⟨-, -, hli, -⟩ | ⟨-, -, hli, why⟩ := hs
        · rw [hli] at hn
          exact h.excused j e' n hn
        · rw [hli] at hn
          obtain hn | hn := List.mem_append.mp hn
          · exact h.excused j e' n hn
          · cases List.mem_singleton.mp hn
            obtain ho | hlen | hfull := why
            · exact .inl ho
            · exact .inr (.inl hlen)
            · exact .inr (.inr (Nat.le_antisymm (h.room j) hfull))
      · rw [(hq j hj).2.2] at hn
        exact h.excused j e' n hn
    private_ := fun j hj => by
      have hne : j ≠ i := by
        intro he
        subst he
        exact hj ⟨hfirst, hi⟩
      show p j = []
      rw [(hq j hne).2.1]
      exact h.private_ j hj
    numbered := h.numbered
    unlost := fun hn => absurd hset hn
    ready := fun u => by
      show (Function.update w.calls t _ u).Ready u w.once
      by_cases hu : u = t
      · subst hu
        rw [Function.update_self]
        exact hset
      · rw [Function.update_of_ne hu]
        exact h.ready u
    newest := fun u saved' e' i' hu => by
      have hu : Function.update w.calls t _ u = .forwarding saved' e' i' := hu
      by_cases hut : u = t
      · subst hut
        rw [Function.update_self] at hu
        cases hu
        refine ⟨hmine, Nat.le_succ_of_le hfirst, earlier, hearlier, fun j hj => ?_⟩
        show (own u (p j)).Sublist earlier
        rw [(hq j (by omega)).2.1]
        exact hbehind j (by omega)
      · rw [Function.update_of_ne hut] at hu
        obtain ⟨hm, hf, theirs, he, hb⟩ := h.newest u saved' e' i' hu
        refine ⟨hm, hf, theirs, he, fun j hj => ?_⟩
        show (own u (p j)).Sublist theirs
        by_cases hji : j = i
        · subst hji
          obtain hp | hp := hput <;> rw [hp]
          · exact hb j hj
          · rw [own_append, own_of_not_mine (fun h => hut (h.symm.trans hmine)), List.append_nil]
            exact hb j hj
        · rw [(hq j hji).2.1]
          exact hb j hj }

/-- **A message is sent to a mirror.** -/
theorem Inv.send {saved n : Errno} (h : Inv all w) (hc : w.calls t = .forwarding saved e i)
    (hi : i ≤ lastQueue all) :
    Inv all (((w.send e i).setErrno t n).goto t (.forwarding saved e (i + 1))) := by
  unfold World.send
  split
  · rename_i hsent
    obtain ⟨-, hroom⟩ := Bool.and_eq_true_iff.mp hsent
    refine h.sends hc hi (fun j hj => ?_) (.inl ?_)
    · exact ⟨Function.update_of_ne hj .., Function.update_of_ne hj .., rfl⟩
    · exact ⟨Function.update_self .., Function.update_self .., rfl, of_decide_eq_true hroom⟩
  · rename_i hnot
    refine h.sends hc hi (fun j hj => ?_) (.inr ?_)
    · exact ⟨rfl, rfl, Function.update_of_ne hj ..⟩
    · refine ⟨rfl, rfl, Function.update_self .., ?_⟩
      cases ho : w.opened i with
      | false => exact .inl rfl
      | true =>
        simp only [ho, Bool.true_and, Bool.and_eq_true, decide_eq_true_eq, not_and, not_lt] at hnot
        by_cases hlen : e.message.length ≤ IPC_MESSAGE_MAX_SIZE
        · exact .inr (.inr (hnot hlen))
        · exact .inr (.inl (Nat.lt_of_not_le hlen))

/-! ## 6. Every run -/

theorem Call.not_owes (h : ∀ saved e i, c ≠ .forwarding saved e i) (e : Entry) (j : Nat) :
    ¬ c.Owes e j := by
  intro ⟨saved, i, hc, _⟩
  exact h saved e i hc

theorem Inv.go (h : Inv all w) (t : Nat) (a : Answer) : Inv all (go all t a w) := by
  unfold Multiplex.go
  have hready := h.ready t
  split
  · exact h
  · rename_i saved hc
    have told : ∀ e j, j ≤ lastQueue all → ¬ (w.calls t).Owes e j :=
      fun e j _ => Call.not_owes (by rw [hc]; exact nofun) e j
    split
    · rename_i ho
      exact h.moves told (by exact nofun) rfl (by rw [ho]; exact nofun) (by rw [ho]; exact nofun)
        (h.balanced (by rw [hc]; exact nofun)) fun _ _ => ⟨rfl, rfl⟩
    · exact h
    · rename_i ho
      exact h.moves told (by exact nofun) ho (fun _ => ⟨ho, rfl⟩) (fun _ _ hr => hr)
        (h.balanced (by rw [hc]; exact nofun)) fun _ _ => ⟨rfl, rfl⟩
  · rename_i saved i hc
    have told : ∀ e j, j ≤ lastQueue all → ¬ (w.calls t).Owes e j :=
      fun e j _ => Call.not_owes (by rw [hc]; exact nofun) e j
    rw [hc] at hready
    have hrun : w.once = .running t := hready
    split
    · exact h.moves told (by exact nofun) hrun (by rw [hrun]; exact nofun) (fun _ _ hr => hr)
        (h.balanced (by rw [hc]; exact nofun)) fun _ _ => ⟨rfl, rfl⟩
    · refine h.moves told (by exact nofun) rfl (by rw [hrun]; exact nofun) (fun u hu hr => ?_)
        (h.balanced (by rw [hc]; exact nofun)) fun _ _ => ⟨rfl, rfl⟩
      exact absurd (Once.running.inj (hrun.symm.trans hr)).symm hu
  · rename_i hc
    have told : ∀ e j, j ≤ lastQueue all → ¬ (w.calls t).Owes e j :=
      fun e j _ => Call.not_owes (by rw [hc]; exact nofun) e j
    split
    · refine h.moves told (by exact nofun) trivial (fun hs => ⟨hs, rfl⟩) (fun _ _ hr => hr) ?_
        fun u hu => ⟨Function.update_of_ne hu .., Function.update_of_ne hu ..⟩
      show Function.update w.given t (w.given t ++ _) t =
        Function.update w.returned t (w.returned t ++ _) t
      rw [Function.update_self, Function.update_self, h.balanced (by rw [hc]; exact nofun)]
    · exact h.receive hc _ _
  · rename_i saved e i hc
    split
    · rename_i hi
      exact h.send hc hi
    · rename_i hi
      refine h.moves (fun e' j hj => ?_) (by exact nofun) trivial (fun hs => ⟨hs, rfl⟩)
        (fun _ _ hr => hr) ?_ fun u hu => ⟨rfl, Function.update_of_ne hu ..⟩
      · intro ⟨saved', i', hcall, hle⟩
        rw [hc] at hcall
        cases hcall
        omega
      · show w.given t = Function.update w.returned t _ t
        rw [Function.update_self, h.transparent, hc]
        rfl

theorem Inv.step (h : Inv all w) (e : Event) : Inv all (step all w e) := by
  cases e with
  | call t =>
    simp only [Multiplex.step]
    split
    · rename_i hc
      exact h.moves (fun e j _ => Call.not_owes (by rw [hc]; exact nofun) e j) (by exact nofun)
        trivial (fun hs => ⟨hs, rfl⟩) (fun _ _ hr => hr) (h.balanced (by rw [hc]; exact nofun))
        fun _ _ => ⟨rfl, rfl⟩
    · exact h
  | go t a => exact h.go t a
  | errno t n =>
    simp only [Multiplex.step]
    split
    · exact h.errno _
    · exact h
  | take i => exact h.take i

end

/-- **`mq_receive` is as the original to its callers, and mirrors what it receives.** Over every
    run of any threads and readers, a thread is returned what the original gave it, message, -1 and
    `errno`, in that order, but for a message whose call is still sending. Every message that was
    received is put in every mirror, unless that could not be opened, the message is over 512 bytes
    or 64 were waiting, or its call has still to send it there; none is put twice, each thread's
    stand in the order they were received, and the readers take them in the order they were put. -/
theorem mirrored (all : Bool) (es : List Event) : Mirrored all (run (step all) start es) :=
  (run_inv (I := Inv all) (fun _ e h => h.step e) (Inv.start all) es).mirrored_

end YiHack.Ipc.Multiplex
