/-
  File:      YiHack/Record/Tracked.lean
  Subject:   `record_metadata.c`: which descriptors the hooked `open` and `close` hold to be
             recordings, for threads that act in any order.

  `dlsym` finds the functions of libc. A thread moves by the steps that others can come between:
  the real call, the part under `fd_lock`, `finalize_metadata`, the return. What else opens and
  closes descriptors, the reading of the OSD offset among it, does so in one step.

  Beside the memory the model notes what became of each descriptor.

  * `step` -- one step of one thread; `track` and `untrack` the loops over `tracked`;
  * `Rules` -- the kernel and the callers of the hooks; `ClosedOnce` -- nothing is closed twice;
  * `Registered` -- what is asked of the table and of `finalize_metadata`;
  * `Inv`, `Inv.local` -- what a step keeps, by the one descriptor it is about;
  * **`tracked_exact`** -- it holds over every run; `double_close_skips` -- not if a descriptor is
    closed twice at once.
-/
import YiHack.General.Bytes
import YiHack.General.Run
import Mathlib.Data.List.Count
import Mathlib.Data.List.Nodup
import Mathlib.Data.List.Perm.Subperm
import Mathlib.Logic.Function.Basic

namespace YiHack.Record.Tracked

open General

def RECORD_FDS : Nat := 4

def O_RDONLY : Nat := 0

def O_ACCMODE : Nat := 3

def O_CREAT : Nat := 0o100

def O_TRUNC : Nat := 0o1000

def O_LARGEFILE : Nat := 0o400000

/-! ## 1. The functions -/

/-- `recording_path`. -/
def recordingPath (root path : Bytes) (flags : Nat) : Bool :=
  flags &&& O_CREAT != 0 && flags &&& O_TRUNC != 0 && flags &&& O_ACCMODE != O_RDONLY &&
    path.take root.length == root && path.getD root.length 0 == 47 &&
    ((ascii ".mp4.tmp").isSuffixOf path || (ascii ".mp4").isSuffixOf path)

/-- The loop of `recording_open`. -/
def track : List Int → Int → List Int
  | [], _ => []
  | x :: xs, fd => if x = -1 then fd :: xs else x :: track xs fd

/-- The loop of `close`, and `recording` behind it. -/
def untrack : List Int → Int → List Int × Bool
  | [], _ => ([], false)
  | x :: xs, fd =>
    if x = fd then (-1 :: xs, true) else (x :: (untrack xs fd).1, (untrack xs fd).2)

/-! ## 2. The machine -/

/-- Where a thread is in a hooked call: `opened` behind the real `open` of a recording, `returning`
    behind all of `recording_open`, `untracked` behind the lock of `close`, with `recording`. -/
inductive Stage
  | idle
  | opening (recording : Bool)
  | opened (fd : Int)
  | returning (fd : Int)
  | closing (fd : Int)
  | untracked (fd : Int) (recording : Bool)
  | finalizing (fd : Int)
  | ready (fd : Int)
  deriving DecidableEq

/-- The number that the call is about. -/
def Stage.fd : Stage → Option Int
  | .idle => none
  | .opening _ => none
  | .opened fd => some fd
  | .returning fd => some fd
  | .closing fd => some fd
  | .untracked fd _ => some fd
  | .finalizing fd => some fd
  | .ready fd => some fd

/-- An open descriptor: whether a recording was opened, whether the open has returned and a close
    has begun, and how many runs of `finalize_metadata` have started and ended on it. -/
structure Desc where
  recording : Bool
  returned : Bool
  closing : Bool
  started : Nat
  ended : Nat
  deriving DecidableEq

/-- `tracked`, the descriptors of the process, the threads, the descriptors that were closed, and
    the numbers `finalize_metadata` was given that no descriptor had. -/
structure State where
  tracked : List Int
  table : Int → Option Desc
  threads : Nat → Stage
  past : List Desc
  strays : List Int

def State.start : State where
  tracked := List.replicate RECORD_FDS (-1)
  table := fun _ => none
  threads := fun _ => .idle
  past := []
  strays := []

namespace State

/-- The thread goes on. -/
def goto (s : State) (t : Nat) (x : Stage) : State :=
  { s with threads := Function.update s.threads t x }

@[simp] theorem goto_at (s : State) (t : Nat) (x : Stage) : (s.goto t x).threads t = x :=
  Function.update_self ..

theorem goto_other (s : State) {t t' : Nat} (h : t' ≠ t) (x : Stage) :
    (s.goto t x).threads t' = s.threads t' :=
  Function.update_of_ne h ..

@[simp] theorem goto_tracked (s : State) (t : Nat) (x : Stage) :
    (s.goto t x).tracked = s.tracked := rfl

@[simp] theorem goto_table (s : State) (t : Nat) (x : Stage) : (s.goto t x).table = s.table := rfl

/-- The kernel hands out a number. -/
def assign (s : State) (fd : Int) (d : Desc) : State :=
  { s with table := Function.update s.table fd (some d) }

/-- A note on the descriptor that has the number, if any. -/
def note (s : State) (fd : Int) (f : Desc → Desc) : State :=
  { s with table := Function.update s.table fd ((s.table fd).map f) }

/-- `finalize_metadata` is called. -/
def startFinalize (s : State) (fd : Int) : State :=
  match s.table fd with
  | none => { s with strays := fd :: s.strays }
  | some d => s.assign fd { d with started := d.started + 1 }

/-- The real `close`. -/
def release (s : State) (fd : Int) : State :=
  match s.table fd with
  | none => s
  | some d => { s with table := Function.update s.table fd none, past := d :: s.past }

end State

/-- What a thread does next; `large` is `open64`. -/
inductive Action
  | callOpen (large : Bool) (path : Bytes) (flags : Nat)
  | realOpen (fd : Option Int)
  | lockTrack
  | leave
  | callClose (fd : Int)
  | lockUntrack
  | finalizeStart
  | finalizeEnd
  | realClose
  | otherOpen (fd : Int)
  | otherClose (fd : Int)

/-- `needs_mode` apart, the flags `recording_open` is given. -/
def openFlags (large : Bool) (flags : Nat) : Nat := if large then flags ||| O_LARGEFILE else flags

/-- One step of a thread; nothing where it is not at this step. -/
def step (root : Bytes) (s : State) (e : Nat × Action) : State :=
  match s.threads e.1, e.2 with
  | .idle, .callOpen large path flags =>
    s.goto e.1 (.opening (recordingPath root path (openFlags large flags)))
  | .opening _, .realOpen none => s.goto e.1 .idle
  | .opening recording, .realOpen (some fd) =>
    (s.assign fd ⟨recording, false, false, 0, 0⟩).goto e.1
      (if recording then .opened fd else .returning fd)
  | .opened fd, .lockTrack =>
    { s with tracked := track s.tracked fd }.goto e.1 (.returning fd)
  | .returning fd, .leave => (s.note fd fun d => { d with returned := true }).goto e.1 .idle
  | .idle, .callClose fd => (s.note fd fun d => { d with closing := true }).goto e.1 (.closing fd)
  | .closing fd, .lockUntrack =>
    { s with tracked := (untrack s.tracked fd).1 }.goto e.1
      (.untracked fd (untrack s.tracked fd).2)
  | .untracked fd true, .finalizeStart => (s.startFinalize fd).goto e.1 (.finalizing fd)
  | .finalizing fd, .finalizeEnd =>
    (s.note fd fun d => { d with ended := d.ended + 1 }).goto e.1 (.ready fd)
  | .untracked fd false, .realClose => (s.release fd).goto e.1 .idle
  | .ready fd, .realClose => (s.release fd).goto e.1 .idle
  | .idle, .otherOpen fd => s.assign fd ⟨false, true, false, 0, 0⟩
  | .idle, .otherClose fd => s.release fd
  | _, _ => s

/-! ## 3. What is assumed, and what is asked -/

/-- No more than four recordings are open. -/
def AtMostFour (s : State) : Prop :=
  ∀ fds : List Int, fds.Nodup → (∀ fd ∈ fds, ∃ d, s.table fd = some d ∧ d.recording = true) →
    fds.length ≤ RECORD_FDS

/-- The number is free: no descriptor has it, and no call that closes it is under way. -/
def Free (s : State) (fd : Int) : Prop :=
  0 ≤ fd ∧ s.table fd = none ∧ ∀ t, (s.threads t).fd ≠ some fd

/-- A number is handed out when it is free, what is closed has been opened, and there are four
    recordings at most. What is closed otherwise was opened otherwise. -/
def Rules (root : Bytes) (s : State) (e : Nat × Action) : Prop :=
  AtMostFour (step root s e) ∧
    match s.threads e.1, e.2 with
    | .opening _, .realOpen (some fd) => Free s fd
    | .idle, .callClose fd => ∀ d, s.table fd = some d → d.returned = true
    | .idle, .otherOpen fd => Free s fd
    | .idle, .otherClose fd =>
      ∀ d, s.table fd = some d → d.recording = false ∧ d.returned = true ∧ d.closing = false
    | _, _ => True

/-- No descriptor is closed on which a close has begun. -/
def ClosedOnce (s : State) (e : Nat × Action) : Prop :=
  match s.threads e.1, e.2 with
  | .idle, .callClose fd => ∀ d, s.table fd = some d → d.closing = false
  | _, _ => True

/-- The table and `finalize_metadata` are as they should be. -/
structure Registered (s : State) : Prop where
  /-- From the return of its open to its close a recording is in the table once. -/
  inside : ∀ fd d, s.table fd = some d → d.recording = true → d.returned = true →
    d.closing = false → s.tracked.count fd = 1
  /-- Nothing else is. -/
  nothingElse : ∀ fd ∈ s.tracked, fd ≠ -1 →
    s.tracked.count fd = 1 ∧ ∃ d, s.table fd = some d ∧ d.recording = true ∧ d.started = 0
  /-- A recording that was closed was finalized, once and before. -/
  finalized : ∀ d ∈ s.past, d.recording = true → d.started = 1 ∧ d.ended = 1
  /-- One that is open is not finalized twice, nor before its close. -/
  atMostOnce : ∀ fd d, s.table fd = some d → d.started ≤ 1 ∧ (d.started = 1 → d.closing = true)
  /-- Nothing else is finalized. -/
  never : ∀ d, (d ∈ s.past ∨ ∃ fd, s.table fd = some d) → d.recording = false → d.started = 0
  stray : ∀ fd ∈ s.strays, fd = -1

/-! ## 4. The loops -/

section Loops

variable {l : List Int} {fd : Int}

/-- What is in the table; -1 is a free slot. -/
def entries (l : List Int) : List Int := l.filter fun x => x != -1

theorem mem_entries : fd ∈ entries l ↔ fd ∈ l ∧ fd ≠ -1 := by simp [entries]

theorem entries_free (l : List Int) : entries (-1 :: l) = entries l :=
  List.filter_cons_of_neg (by decide)

theorem entries_taken {x : Int} (hx : x ≠ -1) (l : List Int) :
    entries (x :: l) = x :: entries l :=
  List.filter_cons_of_pos (by simpa using hx)

theorem track_length (l : List Int) (fd : Int) : (track l fd).length = l.length := by
  fun_induction track l fd with
  | case1 fd => rfl
  | case2 fd xs => rfl
  | case3 fd x xs hx ih => rw [List.length_cons, List.length_cons, ih]

theorem untrack_length (l : List Int) (fd : Int) : (untrack l fd).1.length = l.length := by
  fun_induction untrack l fd with
  | case1 fd => rfl
  | case2 fd xs => rfl
  | case3 x xs fd hx ih => rw [List.length_cons, List.length_cons, ih]

/-- Where a slot is free the descriptor is put in. -/
theorem entries_track (hfree : -1 ∈ l) (hfd : fd ≠ -1) :
    (entries (track l fd)).Perm (fd :: entries l) := by
  fun_induction track l fd with
  | case1 fd => cases hfree
  | case2 fd xs =>
    rw [entries_taken hfd, entries_free]
  | case3 x xs fd hx ih =>
    have hrest := ih ((List.mem_cons.mp hfree).resolve_left (Ne.symm hx)) hfd
    rw [entries_taken hx, entries_taken hx]
    exact (hrest.cons x).trans (List.Perm.swap fd x _)

/-- The descriptor is taken out. -/
theorem entries_untrack (hfd : fd ≠ -1) : entries (untrack l fd).1 = (entries l).erase fd := by
  fun_induction untrack l fd with
  | case1 fd => rfl
  | case2 xs fd => rw [entries_free, entries_taken hfd, List.erase_cons_head]
  | case3 x xs fd hx ih =>
    by_cases hfree : x = -1
    · rw [hfree, entries_free, entries_free, ih hfd]
    · rw [entries_taken hfree, entries_taken hfree, ih hfd,
        List.erase_cons_tail (by simpa using hx)]

theorem untrack_found (l : List Int) (fd : Int) : (untrack l fd).2 = decide (fd ∈ l) := by
  fun_induction untrack l fd with
  | case1 fd => rfl
  | case2 fd xs => simp
  | case3 x xs fd hx ih => simp [ih, Ne.symm hx]

/-- A free slot is found for -1, and stays free. -/
theorem untrack_free (l : List Int) : (untrack l (-1)).1 = l := by
  induction l with
  | nil => rfl
  | cons x xs ih =>
    unfold untrack
    by_cases hx : x = -1
    · rw [if_pos hx, hx]
    · rw [if_neg hx, ih]

/-- A table that is not full has a free slot. -/
theorem free_slot (h : (entries l).length < l.length) : -1 ∈ l := by
  by_contra hnone
  have hall : entries l = l :=
    List.filter_eq_self.mpr fun x hx => bne_iff_ne.mpr fun hx' => hnone (hx' ▸ hx)
  rw [hall] at h
  exact Nat.lt_irrefl _ h

end Loops

/-! ## 5. The invariant -/

section Invariant

variable {s s' : State}

/-- What a thread knows of the descriptor its call is about. -/
def StageOk (table : Int → Option Desc) (tracked : List Int) : Stage → Prop
  | .idle => True
  | .opening _ => True
  | .opened fd => ∃ d, table fd = some d ∧ d.recording = true ∧ d.returned = false ∧
      d.closing = false ∧ d.started = 0 ∧ d.ended = 0 ∧ fd ∉ tracked
  | .returning fd => ∃ d, table fd = some d ∧ d.returned = false ∧ d.closing = false ∧
      d.started = 0 ∧ d.ended = 0 ∧ (d.recording = true → fd ∈ tracked)
  | .closing fd => ∀ d, table fd = some d → d.closing = true ∧ d.started = 0 ∧ d.ended = 0 ∧
      (d.recording = true → fd ∈ tracked)
  | .untracked fd found => (table fd = none → found = true → fd = -1) ∧
      ∀ d, table fd = some d → d.closing = true ∧ d.started = 0 ∧ d.ended = 0 ∧
        found = d.recording ∧ fd ∉ tracked
  | .finalizing fd => (table fd = none → fd = -1) ∧
      ∀ d, table fd = some d → d.recording = true ∧ d.closing = true ∧ d.started = 1 ∧
        d.ended = 0 ∧ fd ∉ tracked
  | .ready fd =>
      ∀ d, table fd = some d → d.recording = true ∧ d.closing = true ∧ d.started = 1 ∧
        d.ended = 1 ∧ fd ∉ tracked

/-- What is known of an open descriptor. -/
structure DescOk (tracked : List Int) (fd : Int) (d : Desc) : Prop where
  nonneg : 0 ≤ fd
  kept : d.returned = true → d.closing = false →
    d.started = 0 ∧ d.ended = 0 ∧ (d.recording = true → fd ∈ tracked)
  once : d.started ≤ 1
  only : d.started ≠ 0 → d.recording = true ∧ d.closing = true

/-- What is known of a closed one. -/
def PastOk (d : Desc) : Prop :=
  (d.recording = true → d.started = 1 ∧ d.ended = 1) ∧ (d.recording = false → d.started = 0)

structure Inv (s : State) : Prop where
  slots : s.tracked.length = RECORD_FDS
  nodup : (entries s.tracked).Nodup
  recordings : ∀ fd ∈ entries s.tracked,
    ∃ d, s.table fd = some d ∧ d.recording = true ∧ d.started = 0
  descs : ∀ fd d, s.table fd = some d → DescOk s.tracked fd d
  stages : ∀ t, StageOk s.table s.tracked (s.threads t)
  alone : ∀ t t' fd, s.table fd ≠ none → (s.threads t).fd = some fd →
    (s.threads t').fd = some fd → t = t'
  past : ∀ d ∈ s.past, PastOk d
  strays : ∀ fd ∈ s.strays, fd = -1

theorem inv_start : Inv State.start where
  slots := rfl
  nodup := by decide
  recordings := by intro fd hfd; simp [State.start, entries] at hfd
  descs := by intro fd d hd; cases hd
  stages := fun _ => trivial
  alone := fun _ _ _ hopen => absurd rfl hopen
  past := by intro d hd; cases hd
  strays := by intro fd hfd; cases hfd

/-- A number that no descriptor has is not in the table. -/
theorem Inv.not_tracked (h : Inv s) {fd : Int} (hfd : fd ≠ -1) (hfree : s.table fd = none) :
    fd ∉ s.tracked := by
  intro hmem
  obtain ⟨d, hd, -⟩ := h.recordings fd (mem_entries.mpr ⟨hmem, hfd⟩)
  rw [hfree] at hd
  cases hd

/-- A descriptor a call is about has not been returned, or is being closed. -/
theorem StageOk.busy {x : Stage} {fd : Int} {d : Desc} (h : StageOk s.table s.tracked x)
    (hx : x.fd = some fd) (hd : s.table fd = some d) : d.returned = false ∨ d.closing = true := by
  cases x with
  | idle => cases hx
  | opening recording => cases hx
  | opened fd =>
    cases hx
    obtain ⟨d', hd', -, hreturned, -⟩ := h
    obtain rfl : d = d' := Option.some.inj (hd.symm.trans hd')
    exact .inl hreturned
  | returning fd =>
    cases hx
    obtain ⟨d', hd', hreturned, -⟩ := h
    obtain rfl : d = d' := Option.some.inj (hd.symm.trans hd')
    exact .inl hreturned
  | closing fd => cases hx; exact .inr (h d hd).1
  | untracked fd found => cases hx; exact .inr (h.2 d hd).1
  | finalizing fd => cases hx; exact .inr (h.2 d hd).2.1
  | ready fd => cases hx; exact .inr (h d hd).2.1

/-- What a thread knows depends on its number only. -/
theorem StageOk.congr {x : Stage} (h : StageOk s.table s.tracked x)
    (htable : ∀ fd, x.fd = some fd → s'.table fd = s.table fd)
    (htracked : ∀ fd, x.fd = some fd → s.table fd ≠ none → (fd ∈ s'.tracked ↔ fd ∈ s.tracked)) :
    StageOk s'.table s'.tracked x := by
  have hmem : ∀ fd d, x.fd = some fd → s.table fd = some d →
      (fd ∈ s'.tracked ↔ fd ∈ s.tracked) := fun fd d hx hd => htracked fd hx (by rw [hd]; simp)
  cases x with
  | idle => trivial
  | opening recording => trivial
  | opened fd =>
    obtain ⟨d, hd, hrest⟩ := h
    refine ⟨d, (htable fd rfl).trans hd, ?_⟩
    rw [hmem fd d rfl hd]
    exact hrest
  | returning fd =>
    obtain ⟨d, hd, hrest⟩ := h
    refine ⟨d, (htable fd rfl).trans hd, ?_⟩
    rw [hmem fd d rfl hd]
    exact hrest
  | closing fd =>
    intro d hd
    rw [htable fd rfl] at hd
    rw [hmem fd d rfl hd]
    exact h d hd
  | untracked fd found =>
    refine ⟨by rw [htable fd rfl]; exact h.1, fun d hd => ?_⟩
    rw [htable fd rfl] at hd
    rw [hmem fd d rfl hd]
    exact h.2 d hd
  | finalizing fd =>
    refine ⟨by rw [htable fd rfl]; exact h.1, fun d hd => ?_⟩
    rw [htable fd rfl] at hd
    rw [hmem fd d rfl hd]
    exact h.2 d hd
  | ready fd =>
    intro d hd
    rw [htable fd rfl] at hd
    rw [hmem fd d rfl hd]
    exact h d hd

/-- **A step about one descriptor.** Thread `t` moves, and nothing changes but the descriptor `fd`
    and whether it is in the table: what holds of that one is all there is to show. -/
theorem Inv.local (h : Inv s) (t : Nat) (fd : Int)
    (hthreads : ∀ t', t' ≠ t → s'.threads t' = s.threads t')
    (htable : ∀ fd', fd' ≠ fd → s'.table fd' = s.table fd')
    (htracked : ∀ fd', fd' ≠ fd → (fd' ∈ entries s'.tracked ↔ fd' ∈ entries s.tracked))
    (halone : ∀ t', t' ≠ t → (s.threads t').fd = some fd →
      s.table fd = none ∧ s'.table fd = none)
    (hself : ∀ fd', (s'.threads t).fd = some fd' → fd' = fd)
    (hstage : StageOk s'.table s'.tracked (s'.threads t))
    (hdesc : ∀ d, s'.table fd = some d → DescOk s'.tracked fd d)
    (hslots : s'.tracked.length = RECORD_FDS)
    (hnodup : (entries s'.tracked).Nodup)
    (hentry : fd ∈ entries s'.tracked →
      ∃ d, s'.table fd = some d ∧ d.recording = true ∧ d.started = 0)
    (hpast : ∀ d ∈ s'.past, PastOk d)
    (hstrays : ∀ fd ∈ s'.strays, fd = -1) : Inv s' where
  slots := hslots
  nodup := hnodup
  recordings := by
    intro fd' hfd'
    by_cases heq : fd' = fd
    · rw [heq] at hfd' ⊢
      exact hentry hfd'
    · rw [htable fd' heq]
      exact h.recordings fd' ((htracked fd' heq).mp hfd')
  descs := by
    intro fd' d hd
    by_cases heq : fd' = fd
    · rw [heq] at hd ⊢
      exact hdesc d hd
    · rw [htable fd' heq] at hd
      have hok := h.descs fd' d hd
      refine ⟨hok.nonneg, fun hr hc => ?_, hok.once, hok.only⟩
      obtain ⟨hstarted, hended, hmem⟩ := hok.kept hr hc
      refine ⟨hstarted, hended, fun hrec => ?_⟩
      have hne : fd' ≠ -1 := fun hne => absurd hok.nonneg (by rw [hne]; decide)
      exact (mem_entries.mp ((htracked fd' heq).mpr (mem_entries.mpr ⟨hmem hrec, hne⟩))).1
  stages := by
    intro t'
    by_cases ht : t' = t
    · rw [ht]
      exact hstage
    · rw [hthreads t' ht]
      refine (h.stages t').congr ?_ ?_
      · intro fd' hfd'
        by_cases heq : fd' = fd
        · rw [heq] at hfd' ⊢
          obtain ⟨hnone, hnone'⟩ := halone t' ht hfd'
          rw [hnone, hnone']
        · exact htable fd' heq
      · intro fd' hfd' hopen
        by_cases heq : fd' = fd
        · rw [heq] at hfd' hopen
          exact absurd (halone t' ht hfd').1 hopen
        · obtain ⟨d, hd⟩ := Option.ne_none_iff_exists'.mp hopen
          have hne : fd' ≠ -1 := fun hne => absurd (h.descs fd' d hd).nonneg (by rw [hne]; decide)
          have hiff := htracked fd' heq
          rw [mem_entries, mem_entries] at hiff
          exact ⟨fun hm => (hiff.mp ⟨hm, hne⟩).1, fun hm => (hiff.mpr ⟨hm, hne⟩).1⟩
  alone := by
    have hother : ∀ t' fd', t' ≠ t → (s'.threads t').fd = some fd' → s'.table fd' ≠ none →
        fd' ≠ fd := by
      rintro t' fd' ht hfd' hopen rfl
      rw [hthreads t' ht] at hfd'
      exact hopen (halone t' ht hfd').2
    intro t₁ t₂ fd' hopen h₁ h₂
    by_cases ht₁ : t₁ = t
    · by_cases ht₂ : t₂ = t
      · rw [ht₁, ht₂]
      · rw [ht₁] at h₁
        exact absurd (hself fd' h₁) (hother t₂ fd' ht₂ h₂ hopen)
    · have hne := hother t₁ fd' ht₁ h₁ hopen
      by_cases ht₂ : t₂ = t
      · rw [ht₂] at h₂
        exact absurd (hself fd' h₂) hne
      · rw [htable fd' hne] at hopen
        rw [hthreads t₁ ht₁] at h₁
        rw [hthreads t₂ ht₂] at h₂
        exact h.alone t₁ t₂ fd' hopen h₁ h₂
  past := hpast
  strays := hstrays

theorem count_entries {l : List Int} {fd : Int} (hfd : fd ≠ -1) :
    (entries l).count fd = l.count fd :=
  List.count_filter (by simpa using hfd)

/-- What is asked follows. -/
theorem Inv.registered (h : Inv s) : Registered s := by
  have hone : ∀ fd, fd ≠ -1 → fd ∈ s.tracked → s.tracked.count fd = 1 := by
    intro fd hfd hmem
    rw [← count_entries hfd]
    exact List.count_eq_one_of_mem h.nodup (mem_entries.mpr ⟨hmem, hfd⟩)
  refine ⟨?_, ?_, fun d hd => (h.past d hd).1, ?_, ?_, h.strays⟩
  · intro fd d hd hrecording hreturned hclosing
    have hok := h.descs fd d hd
    exact hone fd (fun hfd => absurd hok.nonneg (by rw [hfd]; decide))
      ((hok.kept hreturned hclosing).2.2 hrecording)
  · intro fd hmem hfd
    exact ⟨hone fd hfd hmem, h.recordings fd (mem_entries.mpr ⟨hmem, hfd⟩)⟩
  · intro fd d hd
    have hok := h.descs fd d hd
    exact ⟨hok.once, fun hstarted => (hok.only (by rw [hstarted]; decide)).2⟩
  · intro d hd hother
    obtain hpast | ⟨fd, hopen⟩ := hd
    · exact (h.past d hpast).2 hother
    · by_contra hstarted
      have hrecording := ((h.descs fd d hopen).only hstarted).1
      rw [hother] at hrecording
      cases hrecording

/-! ## 6. The steps -/

theorem Inv.neg_closed (h : Inv s) : s.table (-1) = none := by
  cases hd : s.table (-1) with
  | none => rfl
  | some d => exact absurd (h.descs _ d hd).nonneg (by decide)

theorem Inv.open_ne (h : Inv s) {fd : Int} {d : Desc} (hd : s.table fd = some d) : fd ≠ -1 := by
  rintro rfl
  rw [h.neg_closed] at hd
  cases hd

/-- No other thread is at the descriptor a thread is at. -/
theorem Inv.others (h : Inv s) {t : Nat} {fd : Int} {d : Desc} (hd : s.table fd = some d)
    (ht : (s.threads t).fd = some fd) : ∀ t', t' ≠ t → (s.threads t').fd ≠ some fd :=
  fun t' hne ht' => hne (h.alone t' t fd (by rw [hd]; simp) ht' ht)

/-- No thread is at a descriptor that has been returned and is not being closed. -/
theorem Inv.nobody (h : Inv s) {fd : Int} {d : Desc} (hd : s.table fd = some d)
    (hreturned : d.returned = true) (hclosing : d.closing = false) :
    ∀ t, (s.threads t).fd ≠ some fd := by
  intro t ht
  obtain hbusy | hbusy := (h.stages t).busy ht hd
  · rw [hreturned] at hbusy
    cases hbusy
  · rw [hclosing] at hbusy
    cases hbusy

/-- A thread goes on, and nothing else changes. -/
theorem Inv.goto (h : Inv s) (t : Nat) {x : Stage} (hx : StageOk s.table s.tracked x)
    (hfd : ∀ fd, x.fd = some fd → s.table fd ≠ none → (s.threads t).fd = some fd) :
    Inv (s.goto t x) := by
  refine { h with stages := ?_, alone := ?_ }
  · intro t'
    by_cases ht : t' = t
    · rw [ht, State.goto_at]
      exact hx
    · rw [State.goto_other _ ht]
      exact h.stages t'
  · have hback : ∀ t' fd, s.table fd ≠ none → ((s.goto t x).threads t').fd = some fd →
        (s.threads t').fd = some fd := by
      intro t' fd hopen ht'
      by_cases ht : t' = t
      · rw [ht, State.goto_at] at ht'
        rw [ht]
        exact hfd fd ht' hopen
      · rw [State.goto_other _ ht] at ht'
        exact ht'
    intro t₁ t₂ fd hopen h₁ h₂
    exact h.alone t₁ t₂ fd hopen (hback t₁ fd hopen h₁) (hback t₂ fd hopen h₂)

theorem goto_self {t : Nat} {x : Stage} (h : s.threads t = x) : s.goto t x = s := by
  rw [State.goto, ← h, Function.update_eq_self]

theorem note_none {fd : Int} (h : s.table fd = none) (f : Desc → Desc) : s.note fd f = s := by
  rw [State.note, h, Option.map_none, ← h, Function.update_eq_self]

theorem note_some {fd : Int} {d : Desc} (h : s.table fd = some d) (f : Desc → Desc) :
    s.note fd f = s.assign fd (f d) := by
  rw [State.note, h]
  rfl

/-- A number is handed out, or something is noted on the descriptor that has it. -/
theorem Inv.assign (h : Inv s) {t : Nat} {fd : Int} {d : Desc} {x : Stage}
    (hothers : ∀ t', t' ≠ t → (s.threads t').fd ≠ some fd)
    (hx : ∀ fd', x.fd = some fd' → fd' = fd)
    (hstage : StageOk (s.assign fd d).table s.tracked x) (hdesc : DescOk s.tracked fd d)
    (hentry : fd ∈ s.tracked → d.recording = true ∧ d.started = 0) :
    Inv ((s.assign fd d).goto t x) := by
  refine h.local t fd ?_ ?_ (fun _ _ => Iff.rfl) (fun t' ht hfd => absurd hfd (hothers t' ht))
    ?_ ?_ ?_ h.slots h.nodup ?_ h.past h.strays
  · intro t' ht
    exact State.goto_other _ ht _
  · intro fd' hfd'
    exact Function.update_of_ne hfd' _ _
  · intro fd' hfd'
    rw [State.goto_at] at hfd'
    exact hx fd' hfd'
  · rw [State.goto_at]
    exact hstage
  · intro d' hd'
    obtain rfl : d = d' := by
      have hsome : (s.assign fd d).table fd = some d := Function.update_self _ _ _
      exact Option.some.inj (hsome.symm.trans hd')
    exact hdesc
  · intro hmem
    exact ⟨d, Function.update_self _ _ _, hentry (mem_entries.mp hmem).1⟩

/-- A descriptor is closed. -/
theorem Inv.release (h : Inv s) {t : Nat} {fd : Int} {d : Desc} (hd : s.table fd = some d)
    (hothers : ∀ t', t' ≠ t → (s.threads t').fd ≠ some fd) (hpast : PastOk d)
    (hmem : fd ∉ s.tracked) : Inv ((s.release fd).goto t .idle) := by
  have heq : s.release fd =
      { s with table := Function.update s.table fd none, past := d :: s.past } := by
    unfold State.release
    rw [hd]
  rw [heq]
  refine h.local t fd ?_ ?_ (fun _ _ => Iff.rfl) (fun t' ht hfd => absurd hfd (hothers t' ht))
    ?_ ?_ ?_ h.slots h.nodup ?_ ?_ h.strays
  · intro t' ht
    exact State.goto_other _ ht _
  · intro fd' hfd'
    exact Function.update_of_ne hfd' _ _
  · intro fd' hfd'
    rw [State.goto_at] at hfd'
    cases hfd'
  · rw [State.goto_at]
    trivial
  · intro d' hd'
    have hnone : Function.update s.table fd none fd = none := Function.update_self _ _ _
    exact absurd (hnone.symm.trans hd') (by simp)
  · intro hin
    exact absurd (mem_entries.mp hin).1 hmem
  · intro d' hd'
    obtain rfl | hd' := List.mem_cons.mp hd'
    · exact hpast
    · exact h.past d' hd'

/-- The number is put into the table. -/
theorem Inv.lockTrack (h : Inv s) {t : Nat} {fd : Int} (ht : s.threads t = .opened fd)
    (hfour : AtMostFour s) :
    Inv ({ s with tracked := track s.tracked fd }.goto t (.returning fd)) := by
  have hstage := h.stages t
  rw [ht] at hstage
  obtain ⟨d, hd, hrecording, hreturned, hclosing, hstarted, hended, hmem⟩ := hstage
  have hfd := h.open_ne hd
  have hnew : fd ∉ entries s.tracked := fun hin => hmem (mem_entries.mp hin).1
  have hfree : -1 ∈ s.tracked := by
    have hlen := hfour (fd :: entries s.tracked) (List.nodup_cons.mpr ⟨hnew, h.nodup⟩) (by
      intro fd' hfd'
      obtain rfl | hin := List.mem_cons.mp hfd'
      · exact ⟨d, hd, hrecording⟩
      · obtain ⟨d', hd', hrec, -⟩ := h.recordings fd' hin
        exact ⟨d', hd', hrec⟩)
    rw [List.length_cons] at hlen
    exact free_slot (by rw [h.slots]; omega)
  have hperm := entries_track hfree hfd
  have hin : fd ∈ entries (track s.tracked fd) := hperm.mem_iff.mpr (List.mem_cons_self ..)
  refine h.local t fd ?_ (fun _ _ => rfl) ?_ ?_ ?_ ?_ ?_ ?_ ?_ ?_ h.past h.strays
  · intro t' hne
    exact State.goto_other _ hne _
  · intro fd' hne
    rw [State.goto_tracked, hperm.mem_iff, List.mem_cons]
    exact or_iff_right hne
  · intro t' hne hfd'
    exact absurd hfd' (h.others hd (by rw [ht]; rfl) t' hne)
  · intro fd' hfd'
    rw [State.goto_at] at hfd'
    exact (Option.some.inj hfd').symm
  · rw [State.goto_at]
    exact ⟨d, hd, hreturned, hclosing, hstarted, hended, fun _ => (mem_entries.mp hin).1⟩
  · intro d' hd'
    obtain rfl : d = d' := Option.some.inj (hd.symm.trans hd')
    have hok := h.descs fd d hd
    refine ⟨hok.nonneg, fun hyes => ?_, hok.once, hok.only⟩
    rw [hreturned] at hyes
    cases hyes
  · rw [State.goto_tracked, track_length, h.slots]
  · rw [State.goto_tracked, hperm.nodup_iff, List.nodup_cons]
    exact ⟨hnew, h.nodup⟩
  · exact fun _ => ⟨d, hd, hrecording, hstarted⟩

/-- The number is taken out of the table. -/
theorem Inv.lockUntrack (h : Inv s) {t : Nat} {fd : Int} (ht : s.threads t = .closing fd) :
    Inv ({ s with tracked := (untrack s.tracked fd).1 }.goto t
      (.untracked fd (untrack s.tracked fd).2)) := by
  have hstage := h.stages t
  rw [ht] at hstage
  by_cases hfd : fd = -1
  · -- a free slot is what is looked for
    rw [hfd, untrack_free]
    refine h.goto t ⟨fun _ _ => rfl, fun d hd => ?_⟩ fun fd' hfd' hopen => ?_
    · rw [h.neg_closed] at hd
      cases hd
    · cases hfd'
      exact absurd h.neg_closed hopen
  · have hentries := entries_untrack (l := s.tracked) hfd
    have hout : fd ∉ entries (untrack s.tracked fd).1 := by
      rw [hentries]
      exact h.nodup.not_mem_erase
    have hout' : fd ∉ (untrack s.tracked fd).1 := fun hin => hout (mem_entries.mpr ⟨hin, hfd⟩)
    refine h.local t fd ?_ (fun _ _ => rfl) ?_ ?_ ?_ ?_ ?_ ?_ ?_ ?_ h.past h.strays
    · intro t' hne
      exact State.goto_other _ hne _
    · intro fd' hne
      rw [State.goto_tracked, hentries]
      exact List.mem_erase_of_ne hne
    · intro t' hne hfd'
      have hnone : s.table fd = none := by
        by_contra hopen
        exact hne (h.alone t' t fd hopen hfd' (by rw [ht]; rfl))
      exact ⟨hnone, hnone⟩
    · intro fd' hfd'
      rw [State.goto_at] at hfd'
      exact (Option.some.inj hfd').symm
    · rw [State.goto_at, untrack_found]
      refine ⟨fun hnone hfound => absurd (of_decide_eq_true hfound) (h.not_tracked hfd hnone), ?_⟩
      intro d hd
      obtain ⟨hclosing, hstarted, hended, hmem⟩ := hstage d hd
      refine ⟨hclosing, hstarted, hended, ?_, hout'⟩
      cases hrecording : d.recording with
      | true => exact decide_eq_true (hmem hrecording)
      | false =>
        refine decide_eq_false fun hin => ?_
        obtain ⟨d', hd', hrec, -⟩ := h.recordings fd (mem_entries.mpr ⟨hin, hfd⟩)
        obtain rfl : d = d' := Option.some.inj (hd.symm.trans hd')
        rw [hrecording] at hrec
        cases hrec
    · intro d hd
      have hok := h.descs fd d hd
      refine ⟨hok.nonneg, fun _ hno => ?_, hok.once, hok.only⟩
      rw [(hstage d hd).1] at hno
      cases hno
    · rw [State.goto_tracked, untrack_length, h.slots]
    · rw [State.goto_tracked, hentries]
      exact h.nodup.erase fd
    · exact fun hin => absurd hin hout

/-- A fresh descriptor: not in the table, and no thread is at it. -/
theorem Inv.handOut (h : Inv s) {t : Nat} {fd : Int} (hfree : Free s fd) {d : Desc} {x : Stage}
    (hstarted : d.started = 0) (hended : d.ended = 0)
    (hrecording : d.returned = true → d.recording = false) (hx : ∀ fd', x.fd = some fd' → fd' = fd)
    (hstage : StageOk (s.assign fd d).table s.tracked x) : Inv ((s.assign fd d).goto t x) := by
  obtain ⟨hnonneg, hclosed, hnobody⟩ := hfree
  have hne : fd ≠ -1 := fun hne => absurd hnonneg (by rw [hne]; decide)
  refine h.assign (fun t' _ => hnobody t') hx hstage ⟨hnonneg, ?_, ?_, ?_⟩
    fun hin => absurd hin (h.not_tracked hne hclosed)
  · intro hreturned _
    refine ⟨hstarted, hended, fun hyes => ?_⟩
    rw [hrecording hreturned] at hyes
    cases hyes
  · rw [hstarted]
    exact Nat.zero_le 1
  · exact fun hne => absurd hstarted hne

/-- The real `open` of the hook. -/
theorem Inv.realOpen (h : Inv s) {t : Nat} {fd : Int} (hfree : Free s fd) (recording : Bool) :
    Inv ((s.assign fd ⟨recording, false, false, 0, 0⟩).goto t
      (if recording then .opened fd else .returning fd)) := by
  have hne : fd ≠ -1 := fun hne => absurd hfree.1 (by rw [hne]; decide)
  have hself : (s.assign fd ⟨recording, false, false, 0, 0⟩).table fd =
      some ⟨recording, false, false, 0, 0⟩ := Function.update_self ..
  cases recording with
  | true =>
    refine h.handOut hfree rfl rfl (fun hno => by cases hno)
      (fun fd' hfd' => (Option.some.inj hfd').symm) ?_
    exact ⟨_, hself, rfl, rfl, rfl, rfl, rfl, h.not_tracked hne hfree.2.1⟩
  | false =>
    refine h.handOut hfree rfl rfl (fun hno => by cases hno)
      (fun fd' hfd' => (Option.some.inj hfd').symm) ?_
    exact ⟨_, hself, rfl, rfl, rfl, rfl, fun hno => by cases hno⟩

/-- The return of the hooked `open`. -/
theorem Inv.leave (h : Inv s) {t : Nat} {fd : Int} (ht : s.threads t = .returning fd) :
    Inv ((s.note fd fun d => { d with returned := true }).goto t .idle) := by
  have hstage := h.stages t
  rw [ht] at hstage
  obtain ⟨d, hd, -, hclosing, hstarted, hended, hmem⟩ := hstage
  have hok := h.descs fd d hd
  rw [note_some hd]
  refine h.assign (h.others hd (by rw [ht]; rfl)) (fun fd' hfd' => by cases hfd') trivial
    ⟨hok.nonneg, fun _ _ => ⟨hstarted, hended, hmem⟩, hok.once, hok.only⟩ fun hin => ?_
  obtain ⟨d', hd', hrec, hstart⟩ := h.recordings fd (mem_entries.mpr ⟨hin, h.open_ne hd⟩)
  obtain rfl : d = d' := Option.some.inj (hd.symm.trans hd')
  exact ⟨hrec, hstart⟩

/-- The call of the hooked `close`. -/
theorem Inv.callClose (h : Inv s) {t : Nat} {fd : Int}
    (hreturned : ∀ d, s.table fd = some d → d.returned = true)
    (honce : ∀ d, s.table fd = some d → d.closing = false) :
    Inv ((s.note fd fun d => { d with closing := true }).goto t (.closing fd)) := by
  cases hd : s.table fd with
  | none =>
    rw [note_none hd]
    refine h.goto t (fun d hd' => ?_) fun fd' hfd' hopen => ?_
    · rw [hd] at hd'
      cases hd'
    · cases hfd'
      exact absurd hd hopen
  | some d =>
    have hok := h.descs fd d hd
    obtain ⟨hstarted, hended, hmem⟩ := hok.kept (hreturned d hd) (honce d hd)
    have hself : (s.assign fd { d with closing := true }).table fd =
        some { d with closing := true } := Function.update_self ..
    rw [note_some hd]
    refine h.assign (fun t' _ => h.nobody hd (hreturned d hd) (honce d hd) t')
      (fun fd' hfd' => (Option.some.inj hfd').symm) ?_ ⟨hok.nonneg, ?_, hok.once, ?_⟩ fun hin => ?_
    · intro d' hd'
      obtain rfl := Option.some.inj (hself.symm.trans hd')
      exact ⟨rfl, hstarted, hended, hmem⟩
    · exact fun _ hno => by cases hno
    · exact fun hne => ⟨(hok.only hne).1, rfl⟩
    · obtain ⟨d', hd', hrec, hstart⟩ := h.recordings fd (mem_entries.mpr ⟨hin, h.open_ne hd⟩)
      obtain rfl : d = d' := Option.some.inj (hd.symm.trans hd')
      exact ⟨hrec, hstart⟩

/-- `finalize_metadata` is called. -/
theorem Inv.finalizeStart (h : Inv s) {t : Nat} {fd : Int}
    (ht : s.threads t = .untracked fd true) :
    Inv ((s.startFinalize fd).goto t (.finalizing fd)) := by
  have hstage := h.stages t
  rw [ht] at hstage
  cases hd : s.table fd with
  | none =>
    have heq : s.startFinalize fd = { s with strays := fd :: s.strays } := by
      unfold State.startFinalize
      rw [hd]
    have hneg : fd = -1 := hstage.1 hd rfl
    have hinv : Inv { s with strays := fd :: s.strays } :=
      { h with
        strays := fun fd' hfd' => (List.mem_cons.mp hfd').elim (·.trans hneg) (h.strays fd') }
    rw [heq]
    refine hinv.goto t ⟨fun _ => hneg, fun d hd' => ?_⟩ fun fd' hfd' hopen => ?_
    · exact absurd (hd.symm.trans hd') (by simp)
    · cases hfd'
      exact absurd hd hopen
  | some d =>
    obtain ⟨hclosing, hstarted, hended, hfound, hmem⟩ := hstage.2 d hd
    have hok := h.descs fd d hd
    have heq : s.startFinalize fd = s.assign fd { d with started := d.started + 1 } := by
      unfold State.startFinalize
      rw [hd]
    have hself : (s.assign fd { d with started := d.started + 1 }).table fd =
        some { d with started := d.started + 1 } := Function.update_self ..
    rw [heq]
    refine h.assign (h.others hd (by rw [ht]; rfl)) (fun fd' hfd' => (Option.some.inj hfd').symm)
      ⟨fun hnone => ?_, fun d' hd' => ?_⟩ ⟨hok.nonneg, ?_, ?_, ?_⟩ fun hin => absurd hin hmem
    · exact absurd (hself.symm.trans hnone) (by simp)
    · obtain rfl := Option.some.inj (hself.symm.trans hd')
      exact ⟨hfound.symm, hclosing, by rw [hstarted], hended, hmem⟩
    · intro _ hno
      rw [hclosing] at hno
      cases hno
    · rw [hstarted]
    · exact fun _ => ⟨hfound.symm, hclosing⟩

/-- `finalize_metadata` returns. -/
theorem Inv.finalizeEnd (h : Inv s) {t : Nat} {fd : Int} (ht : s.threads t = .finalizing fd) :
    Inv ((s.note fd fun d => { d with ended := d.ended + 1 }).goto t (.ready fd)) := by
  have hstage := h.stages t
  rw [ht] at hstage
  cases hd : s.table fd with
  | none =>
    rw [note_none hd]
    refine h.goto t (fun d hd' => ?_) fun fd' hfd' hopen => ?_
    · exact absurd (hd.symm.trans hd') (by simp)
    · cases hfd'
      exact absurd hd hopen
  | some d =>
    obtain ⟨hrecording, hclosing, hstarted, hended, hmem⟩ := hstage.2 d hd
    have hok := h.descs fd d hd
    have hself : (s.assign fd { d with ended := d.ended + 1 }).table fd =
        some { d with ended := d.ended + 1 } := Function.update_self ..
    rw [note_some hd]
    refine h.assign (h.others hd (by rw [ht]; rfl)) (fun fd' hfd' => (Option.some.inj hfd').symm)
      (fun d' hd' => ?_) ⟨hok.nonneg, ?_, hok.once, hok.only⟩ fun hin => absurd hin hmem
    · obtain rfl := Option.some.inj (hself.symm.trans hd')
      exact ⟨hrecording, hclosing, hstarted, by rw [hended], hmem⟩
    · intro _ hno
      rw [hclosing] at hno
      cases hno

/-- The real `close` of the hook, behind `finalize_metadata` for a recording. -/
theorem Inv.realClose (h : Inv s) {t : Nat} {fd : Int}
    (ht : s.threads t = .untracked fd false ∨ s.threads t = .ready fd) :
    Inv ((s.release fd).goto t .idle) := by
  have hstage := h.stages t
  cases hd : s.table fd with
  | none =>
    have heq : s.release fd = s := by
      unfold State.release
      rw [hd]
    rw [heq]
    exact h.goto t trivial fun fd' hfd' => by cases hfd'
  | some d =>
    obtain ht | ht := ht
    · rw [ht] at hstage
      obtain ⟨-, hstarted, -, hfound, hmem⟩ := hstage.2 d hd
      refine h.release hd (h.others hd (by rw [ht]; rfl)) ⟨fun hyes => ?_, fun _ => hstarted⟩ hmem
      rw [← hfound] at hyes
      cases hyes
    · rw [ht] at hstage
      obtain ⟨hrecording, -, hstarted, hended, hmem⟩ := hstage d hd
      refine h.release hd (h.others hd (by rw [ht]; rfl)) ⟨fun _ => ⟨hstarted, hended⟩, ?_⟩ hmem
      intro hno
      rw [hrecording] at hno
      cases hno

/-- A descriptor that was opened otherwise is closed so. -/
theorem Inv.otherClose (h : Inv s) {t : Nat} {fd : Int} (ht : s.threads t = .idle)
    (hrule : ∀ d, s.table fd = some d →
      d.recording = false ∧ d.returned = true ∧ d.closing = false) : Inv (s.release fd) := by
  cases hd : s.table fd with
  | none =>
    have heq : s.release fd = s := by
      unfold State.release
      rw [hd]
    rw [heq]
    exact h
  | some d =>
    obtain ⟨hother, hreturned, hclosing⟩ := hrule d hd
    have hstarted := ((h.descs fd d hd).kept hreturned hclosing).1
    have hmem : fd ∉ s.tracked := by
      intro hin
      obtain ⟨d', hd', hrec, -⟩ := h.recordings fd (mem_entries.mpr ⟨hin, h.open_ne hd⟩)
      obtain rfl : d = d' := Option.some.inj (hd.symm.trans hd')
      rw [hother] at hrec
      cases hrec
    have hidle : (s.release fd).threads t = .idle := by
      unfold State.release
      rw [hd]
      exact ht
    rw [← goto_self hidle]
    refine h.release hd (fun t' _ => h.nobody hd hreturned hclosing t') ⟨fun hyes => ?_, ?_⟩ hmem
    · rw [hother] at hyes
      cases hyes
    · exact fun _ => hstarted

/-- **A step keeps the invariant** under the rules, where nothing is closed twice. -/
theorem inv_step (root : Bytes) (s : State) (e : Nat × Action)
    (hrules : Rules root s e ∧ ClosedOnce s e) (h : Inv s) : Inv (step root s e) := by
  obtain ⟨⟨hfour, hrule⟩, honce⟩ := hrules
  obtain ⟨t, a⟩ := e
  cases a with
  | callOpen large path flags =>
    cases hst : s.threads t with
    | idle =>
      simp only [step, hst]
      exact h.goto t trivial fun fd hfd => by cases hfd
    | _ => simpa only [step, hst] using h
  | realOpen fd =>
    cases hst : s.threads t with
    | opening recording =>
      cases fd with
      | none =>
        simp only [step, hst]
        exact h.goto t trivial fun fd hfd => by cases hfd
      | some fd =>
        simp only [hst] at hrule
        simp only [step, hst]
        exact h.realOpen hrule recording
    | _ => simpa only [step, hst] using h
  | lockTrack =>
    cases hst : s.threads t with
    | opened fd =>
      simp only [step, hst] at hfour ⊢
      exact h.lockTrack hst hfour
    | _ => simpa only [step, hst] using h
  | leave =>
    cases hst : s.threads t with
    | returning fd =>
      simp only [step, hst]
      exact h.leave hst
    | _ => simpa only [step, hst] using h
  | callClose fd =>
    cases hst : s.threads t with
    | idle =>
      simp only [hst] at hrule
      simp only [ClosedOnce, hst] at honce
      simp only [step, hst]
      exact h.callClose hrule honce
    | _ => simpa only [step, hst] using h
  | lockUntrack =>
    cases hst : s.threads t with
    | closing fd =>
      simp only [step, hst]
      exact h.lockUntrack hst
    | _ => simpa only [step, hst] using h
  | finalizeStart =>
    cases hst : s.threads t with
    | untracked fd recording =>
      cases recording with
      | true =>
        simp only [step, hst]
        exact h.finalizeStart hst
      | false => simpa only [step, hst] using h
    | _ => simpa only [step, hst] using h
  | finalizeEnd =>
    cases hst : s.threads t with
    | finalizing fd =>
      simp only [step, hst]
      exact h.finalizeEnd hst
    | _ => simpa only [step, hst] using h
  | realClose =>
    cases hst : s.threads t with
    | untracked fd recording =>
      cases recording with
      | true => simpa only [step, hst] using h
      | false =>
        simp only [step, hst]
        exact h.realClose (.inl hst)
    | ready fd =>
      simp only [step, hst]
      exact h.realClose (.inr hst)
    | _ => simpa only [step, hst] using h
  | otherOpen fd =>
    cases hst : s.threads t with
    | idle =>
      simp only [hst] at hrule
      have hidle : (s.assign fd ⟨false, true, false, 0, 0⟩).threads t = .idle := hst
      simp only [step, hst]
      rw [← goto_self hidle]
      exact h.handOut hrule rfl rfl (fun _ => rfl) (fun fd' hfd' => by cases hfd') trivial
    | _ => simpa only [step, hst] using h
  | otherClose fd =>
    cases hst : s.threads t with
    | idle =>
      simp only [hst] at hrule
      simp only [step, hst]
      exact h.otherClose hst hrule
    | _ => simpa only [step, hst] using h

end Invariant

/-! ## 7. Every run -/

/-- **The table is exact, and every recording finalized once.** For every run under the rules in
    which no descriptor is closed twice, whatever the threads and their order. -/
theorem tracked_exact (root : Bytes) (es : List (Nat × Action))
    (h : StepsMeet (step root) (fun s e => Rules root s e ∧ ClosedOnce s e) State.start es) :
    Registered (run (step root) State.start es) :=
  (run_inv_of (inv_step root) inv_start h).registered

section Clip

variable {root : Bytes} {s : State} {e : Nat × Action}

/-- No number but `fd` is in use. -/
def Only (fd : Int) (s : State) : Prop := ∀ fd', fd' ≠ fd → s.table fd' = none

/-- No number but `fd` is handed out. -/
def HandsOut (fd : Int) : Action → Prop
  | .realOpen (some fd') => fd' = fd
  | .otherOpen fd' => fd' = fd
  | _ => True

theorem Only.assign {fd : Int} (h : Only fd s) (d : Desc) : Only fd (s.assign fd d) := by
  intro fd' hne
  rw [State.assign]
  exact (Function.update_of_ne hne _ _).trans (h fd' hne)

theorem Only.note {fd : Int} (h : Only fd s) (fd' : Int) (f : Desc → Desc) :
    Only fd (s.note fd' f) := by
  by_cases hfd : fd' = fd
  · cases hd : s.table fd' with
    | none =>
      rw [note_none hd]
      exact h
    | some d =>
      rw [note_some hd, hfd]
      exact h.assign _
  · rw [note_none (h fd' hfd)]
    exact h

theorem Only.startFinalize {fd : Int} (h : Only fd s) (fd' : Int) :
    Only fd (s.startFinalize fd') := by
  unfold State.startFinalize
  split
  · exact h
  · rename_i d hd
    have hfd : fd' = fd := by
      by_contra hne
      rw [h fd' hne] at hd
      cases hd
    rw [hfd]
    exact h.assign _

theorem Only.release {fd : Int} (h : Only fd s) (fd' : Int) : Only fd (s.release fd') := by
  unfold State.release
  split
  · exact h
  · intro x hx
    by_cases heq : x = fd'
    · rw [heq]
      exact Function.update_self ..
    · exact (Function.update_of_ne heq _ _).trans (h x hx)

theorem Only.step {fd : Int} (h : Only fd s) (he : HandsOut fd e.2) : Only fd (step root s e) := by
  unfold Tracked.step
  split
  case h_3 fd' _ ha =>
    rw [ha] at he
    obtain rfl : fd' = fd := he
    exact h.assign _
  case h_12 fd' _ ha =>
    rw [ha] at he
    obtain rfl : fd' = fd := he
    exact h.assign _
  all_goals
    first
      | exact h
      | exact h.note _ _
      | exact h.startFinalize _
      | exact h.release _

/-- One number is one recording at most. -/
theorem Only.atMostFour {fd : Int} (h : Only fd s) : AtMostFour s := by
  intro fds hnodup hfds
  have hall : ∀ fd' ∈ fds, fd' = fd := by
    intro fd' hin
    by_contra hne
    obtain ⟨d, hd, -⟩ := hfds fd' hin
    rw [h fd' hne] at hd
    cases hd
  have hsub : fds ⊆ [fd] := fun fd' hin => List.mem_singleton.mpr (hall fd' hin)
  have hlen := (hnodup.subperm hsub).length_le
  exact Nat.le_trans hlen (by rw [List.length_singleton]; decide)

/-- The default `record_root`. -/
def recordRoot : Bytes := ascii "/tmp/sd/record"

/-- A recorder opens a clip as 3. -/
def clipOpened : List (Nat × Action) :=
  [(0, .callOpen false (ascii "/tmp/sd/record/clip.mp4.tmp") 0o1101), (0, .realOpen (some 3)),
    (0, .lockTrack), (0, .leave)]

/-- It closes the clip. -/
def clipClosed : List (Nat × Action) :=
  [(0, .callClose 3), (0, .lockUntrack), (0, .finalizeStart), (0, .finalizeEnd), (0, .realClose)]

/-- It closes the clip while a second thread does. -/
def closedTwice : List (Nat × Action) :=
  [(0, .callClose 3), (1, .callClose 3), (0, .lockUntrack), (1, .lockUntrack), (1, .realClose)]

theorem clip_step : step recordRoot State.start
    (0, .callOpen false (ascii "/tmp/sd/record/clip.mp4.tmp") 0o1101) =
      State.start.goto 0 (.opening true) := by
  have hpath : recordingPath recordRoot (ascii "/tmp/sd/record/clip.mp4.tmp")
      (openFlags false 0o1101) = true := by decide
  show State.start.goto 0 (.opening (recordingPath _ _ _)) = _
  rw [hpath]

/-- One more step of a run that uses one number. -/
theorem meets_next {C : State → Nat × Action → Prop} {es : List (Nat × Action)} {s' : State}
    (ho : Only 3 s) (he : HandsOut 3 e.2) (hs : step root s e = s')
    (hC : AtMostFour (step root s e) → C s e)
    (hrest : Only 3 s' → StepsMeet (step root) C s' es) : StepsMeet (step root) C s (e :: es) := by
  have hstep : Only 3 (step root s e) := ho.step he
  subst hs
  exact ⟨hC hstep.atMostFour, hrest hstep⟩

/-- What is behind the open. -/
def clipState : State :=
  run (step recordRoot) (State.start.goto 0 (.opening true))
    [(0, .realOpen (some 3)), (0, .lockTrack), (0, .leave)]

theorem clipOpened_meets {C : State → Nat × Action → Prop} {es : List (Nat × Action)}
    (hC : ∀ s e, Rules recordRoot s e → ClosedOnce s e → C s e)
    (hrest : Only 3 clipState → StepsMeet (step recordRoot) C clipState es) :
    StepsMeet (step recordRoot) C State.start (clipOpened ++ es) := by
  refine meets_next (fun _ _ => rfl) trivial clip_step (fun h => hC _ _ ⟨h, trivial⟩ trivial) ?_
  intro ho
  refine meets_next ho rfl rfl (fun h => hC _ _ ⟨h, by decide, rfl, ?_⟩ trivial) fun ho => ?_
  · intro t
    by_cases ht : t = 0
    · rw [ht, State.goto_at]
      exact fun hno => by cases hno
    · rw [State.goto_other _ ht]
      exact fun hno => by cases hno
  refine meets_next ho trivial rfl (fun h => hC _ _ ⟨h, trivial⟩ trivial) fun ho => ?_
  exact meets_next ho trivial rfl (fun h => hC _ _ ⟨h, trivial⟩ trivial) hrest

theorem clip_registered :
    Registered (run (step recordRoot) State.start (clipOpened ++ clipClosed)) := by
  refine tracked_exact recordRoot _ (clipOpened_meets (fun _ _ h h' => ⟨h, h'⟩) fun ho => ?_)
  refine meets_next ho trivial rfl (fun h => ⟨⟨h, ?_⟩, ?_⟩) fun ho => ?_
  · exact fun d hd => by cases hd; rfl
  · exact fun d hd => by cases hd; rfl
  refine meets_next ho trivial rfl (fun h => ⟨⟨h, trivial⟩, trivial⟩) fun ho => ?_
  refine meets_next ho trivial rfl (fun h => ⟨⟨h, trivial⟩, trivial⟩) fun ho => ?_
  refine meets_next ho trivial rfl (fun h => ⟨⟨h, trivial⟩, trivial⟩) fun ho => ?_
  exact meets_next ho trivial rfl (fun h => ⟨⟨h, trivial⟩, trivial⟩) fun _ => trivial

/-- The second close is the real one, and comes before the first has finalized the clip. -/
theorem double_close_skips :
    ¬ ∀ (root : Bytes) (es : List (Nat × Action)),
      StepsMeet (step root) (Rules root) State.start es →
        Registered (run (step root) State.start es) := by
  intro h
  have hmeets : StepsMeet (step recordRoot) (Rules recordRoot) State.start
      (clipOpened ++ closedTwice) := by
    refine clipOpened_meets (fun _ _ h _ => h) fun ho => ?_
    refine meets_next ho trivial rfl (fun h => ⟨h, fun d hd => by cases hd; rfl⟩) fun ho => ?_
    refine meets_next ho trivial rfl (fun h => ⟨h, fun d hd => by cases hd; rfl⟩) fun ho => ?_
    refine meets_next ho trivial rfl (fun h => ⟨h, trivial⟩) fun ho => ?_
    refine meets_next ho trivial rfl (fun h => ⟨h, trivial⟩) fun ho => ?_
    exact meets_next ho trivial rfl (fun h => ⟨h, trivial⟩) fun _ => trivial
  have hregistered := h recordRoot _ hmeets
  rw [clipOpened, List.cons_append, run_cons, clip_step] at hregistered
  have hpast := hregistered.finalized ⟨true, true, true, 0, 0⟩ (List.mem_singleton.mpr rfl) rfl
  exact absurd hpast.1 (by decide)

end Clip

end YiHack.Record.Tracked
