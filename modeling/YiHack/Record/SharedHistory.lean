/-
  File:      YiHack/Record/SharedHistory.lean
  Subject:   A history in a shared mapping: one writer, which may die at any store, and readers
             that copy the history between two looks at its sequence.

  The two histories of the recorder (motion transitions, motion levels) share header, protocol and
  reader; here they are one, over the words `κ` of the history and the statics `ς` of the writer.

  Beside the memory the model notes the count behind the sequence, the updates begun, every history
  published (newest first), and for each snapshot the histories published from the first look at
  the sequence to the second.

  * `Keeps`, `update_ok` -- the writer: odd, the stores, even with what is published;
  * `readSnapshot_ok` -- the reader;
  * **`snapshots_sound`** -- a writer that keeps to it and any readers, over any run: a snapshot is
    one of the histories published meanwhile, if fewer than 2^31 updates begin.
-/
import YiHack.General.Seqlock

namespace YiHack.Record

open General

/-! ## 1. The mapping -/

/-- A copy that was returned, the histories published from the first look at the sequence to the
    second, and how many updates began and were published in between. -/
structure Snapshot (κ : Type) where
  copy : κ → Word
  between : List (κ → Word)
  begun : Nat
  publications : Nat

/-- The mapping, the statics of the writer's process, and the notes. -/
structure Shared (κ ς : Type) where
  magic : Word
  version : Word
  sequence : Word
  history : κ → Word
  own : ς
  count : Nat
  begun : Nat
  log : List (κ → Word)
  snapshots : List (Snapshot κ)

variable {κ ς : Type}

/-- The half of a 64-bit field. -/
inductive Half
  | lo
  | hi
  deriving DecidableEq

def halfOf (v : BitVec 64) : Half → Word
  | .lo => v.setWidth 32
  | .hi => (v >>> 32).setWidth 32

/-- A 64-bit store: two words. -/
def put64 (field : Half → κ) (v : BitVec 64) : List (κ × Word) :=
  [(field .lo, halfOf v .lo), (field .hi, halfOf v .hi)]

/-- What the two mappings differ in: marks, words, and what the reader asks of a copy. -/
structure Layout (κ : Type) where
  magic : Word
  version : Word
  words : List κ
  all : ∀ k, k ∈ words
  accepts : (κ → Word) → Bool

/-! ## 2. The writer's stores -/

namespace Shared

/-- The store that makes the sequence odd. -/
def openUpdate (w : Word) (s : Shared κ ς) : Shared κ ς :=
  { s with sequence := w, count := s.count + 1 + s.count % 2, begun := s.begun + 1 }

/-- The store that makes the sequence even. -/
def publish (w : Word) (s : Shared κ ς) : Shared κ ς :=
  { s with sequence := w, count := s.count + 1, log := s.history :: s.log }

/-- A store to a word of the history. -/
def put [DecidableEq κ] (x : κ × Word) (s : Shared κ ς) : Shared κ ς :=
  { s with history := Function.update s.history x.1 x.2 }

def setMagic (w : Word) (s : Shared κ ς) : Shared κ ς := { s with magic := w }

def setVersion (w : Word) (s : Shared κ ς) : Shared κ ς := { s with version := w }

/-- A change of the writer's statics. -/
def setOwn (f : ς → ς) (s : Shared κ ς) : Shared κ ς := { s with own := f s.own }

end Shared

/-- `sequence += sequence & 1`. -/
def roundUp (w : Word) : Word := w + (w &&& 1#32)

/-! ## 3. The reader -/

/-- The tests behind `memcpy`; the copy is returned where all pass. -/
def checkCopy (L : Layout κ) (retry : Code (Shared κ ς) Unit) (before : Word × Nat × Nat)
    (copy : κ → Word) : Code (Shared κ ς) Unit := do
  let again ← Code.load fun s => (s.sequence, s.begun, s.log)
  if before.1 ≠ again.1 then retry
  else do
    let magic ← Code.load (·.magic)
    let version ← Code.load (·.version)
    if magic ≠ L.magic ∨ version ≠ L.version ∨ L.accepts copy = false then retry
    else Code.store fun s =>
      { s with snapshots :=
        { copy
          between := again.2.2.take (again.2.2.length - before.2.2 + 1)
          begun := again.2.1 - before.2.1
          publications := again.2.2.length - before.2.2 } :: s.snapshots }

/-- The attempts of `read_snapshot`. -/
def readSnapshot [DecidableEq κ] (L : Layout κ) : Nat → Code (Shared κ ς) Unit
  | 0 => Code.ret ()
  | attempts + 1 => do
    let before ← Code.load fun s => (s.sequence, s.begun, s.log.length)
    if odd before.1 then readSnapshot L attempts
    else do
      let copy ← gather (·.history) L.words fun _ => 0
      checkCopy L (readSnapshot L attempts) before copy

/-- `read_snapshot` with the file found: its size is right and it is mapped. Where it is not, the
    reader returns -1. -/
def snapshotOf [DecidableEq κ] (L : Layout κ) (found : Bool) : Code (Shared κ ς) Unit :=
  if found then readSnapshot L 4 else Code.ret ()

/-! ## 4. The invariant -/

/-- `base` is the sequence at the start, rounded up. -/
structure Counted (base : Nat) (s : Shared κ ς) : Prop where
  even : base % 2 = 0
  word : s.sequence = BitVec.ofNat 32 s.count
  counted : s.count + s.count % 2 = base + 2 * s.begun
  published : s.count % 2 = 0 → s.log.head? = some s.history
  snapshots : ∀ x ∈ s.snapshots, x.begun < 2 ^ 31 → x.copy ∈ x.between

/-- The mapping as it is found at first, with whatever is in it. -/
structure Untouched (s : Shared κ ς) : Prop where
  count : s.count = s.sequence.toNat
  begun : s.begun = 0
  log : s.log = if odd s.sequence then [] else [s.history]
  snapshots : s.snapshots = []

/-- The count at the start, rounded up. -/
def baseOf (s : Shared κ ς) : Nat := s.sequence.toNat + s.sequence.toNat % 2

theorem Untouched.counted {s : Shared κ ς} (h : Untouched s) : Counted (baseOf s) s := by
  have hword : s.sequence = BitVec.ofNat 32 s.count := by
    rw [h.count, BitVec.ofNat_toNat, BitVec.setWidth_eq]
  refine ⟨by unfold baseOf; omega, hword, ?_, fun heven => ?_, fun x hx => ?_⟩
  · rw [h.count, h.begun]
    rfl
  · have hodd : odd s.sequence = false := by
      rw [hword, odd_ofNat, heven]
      rfl
    rw [h.log, hodd]
    rfl
  · rw [h.snapshots] at hx
    exact absurd hx List.not_mem_nil

variable {base : Nat} {s s' : Shared κ ς}

/-- Readers add snapshots and leave the rest. -/
def OnlyReads (s s' : Shared κ ς) : Prop := ∃ xs, s' = { s with snapshots := xs }

/-- What the writer relies on. -/
structure WriterRely (base : Nat) (s s' : Shared κ ς) : Prop where
  inv : Counted base s'
  reads : OnlyReads s s'

/-- What a reader relies on. -/
structure ReaderRely (base : Nat) (s s' : Shared κ ς) : Prop where
  inv : Counted base s'
  quiet : Quiet s.count s.history s'.count s'.history

/-- What the writer guarantees. -/
structure WriterGuarantee (base : Nat) (s s' : Shared κ ς) : Prop where
  inv : Counted base s → Counted base s'
  quiet : Quiet s.count s.history s'.count s'.history

/-- What a reader guarantees. -/
structure ReaderGuarantee (base : Nat) (s s' : Shared κ ς) : Prop where
  inv : Counted base s → Counted base s'
  reads : OnlyReads s s'

theorem OnlyReads.refl (s : Shared κ ς) : OnlyReads s s := ⟨s.snapshots, rfl⟩

theorem WriterGuarantee.refl (base : Nat) (s : Shared κ ς) : WriterGuarantee base s s :=
  ⟨id, .refl _ _⟩

theorem ReaderGuarantee.refl (base : Nat) (s : Shared κ ς) : ReaderGuarantee base s s :=
  ⟨id, .refl s⟩

/-! ## 5. The writer -/

/-- The writer knows the count, as nobody else moves it. -/
structure Writing (base n : Nat) (s : Shared κ ς) : Prop where
  inv : Counted base s
  count : s.count = n

theorem stable_writing {n : Nat} :
    Code.Stable (WriterRely base) (Writing (ς := ς) (κ := κ) base n) := by
  intro s s' h hr
  obtain ⟨hinv, xs, rfl⟩ := hr
  exact ⟨hinv, h.count⟩

/-- A thread of the writer. -/
def WriterOk (base : Nat) {α : Type} (Q : α → Shared κ ς → Prop) (c : Code (Shared κ ς) α)
    (s : Shared κ ς) : Prop :=
  Code.Ok (WriterRely base) (WriterGuarantee base) (fun _ _ => True) Q c s

/-- A store of the writer that leaves sequence, log and snapshots alone. -/
structure Inner (f : Shared κ ς → Shared κ ς) : Prop where
  sequence : ∀ s, (f s).sequence = s.sequence
  count : ∀ s, (f s).count = s.count
  begun : ∀ s, (f s).begun = s.begun
  log : ∀ s, (f s).log = s.log
  snapshots : ∀ s, (f s).snapshots = s.snapshots

/-- A store between the two of the sequence. -/
theorem Inner.guarantees {f : Shared κ ς → Shared κ ς} (hf : Inner f) {n : Nat} (hn : n % 2 = 1)
    (h : Writing base n s) : WriterGuarantee base s (f s) ∧ Writing base n (f s) := by
  have hcount : (f s).count = n := (hf.count s).trans h.count
  have hinv : Counted base (f s) := by
    refine ⟨h.inv.even, ?_, ?_, fun h0 => ?_, ?_⟩
    · rw [hf.sequence, hf.count]
      exact h.inv.word
    · rw [hf.count, hf.begun]
      exact h.inv.counted
    · rw [hcount] at h0
      omega
    · rw [hf.snapshots]
      exact h.inv.snapshots
  refine ⟨⟨fun _ => hinv, ?_⟩, hinv, hcount⟩
  rw [hcount, h.count]
  exact .of_odd hn

/-- The sequence becomes odd. -/
theorem openUpdate_guarantees {n : Nat} (h : Writing base n s) :
    WriterGuarantee base s (s.openUpdate (BitVec.ofNat 32 (n + 1 + n % 2))) ∧
      Writing base (n + 1 + n % 2) (s.openUpdate (BitVec.ofNat 32 (n + 1 + n % 2))) := by
  have hn := h.count
  have hinv : Counted base (s.openUpdate (BitVec.ofNat 32 (n + 1 + n % 2))) := by
    refine ⟨h.inv.even, ?_, ?_, fun h0 => ?_, h.inv.snapshots⟩
    · show _ = BitVec.ofNat 32 (s.count + 1 + s.count % 2)
      rw [hn]
      rfl
    · have hcounted := h.inv.counted
      have heven := h.inv.even
      show s.count + 1 + s.count % 2 + (s.count + 1 + s.count % 2) % 2 = base + 2 * (s.begun + 1)
      omega
    · have h0 : (s.count + 1 + s.count % 2) % 2 = 0 := h0
      omega
  refine ⟨⟨fun _ => hinv, .of_lt ?_⟩, hinv, ?_⟩
  · show s.count < s.count + 1 + s.count % 2
    omega
  · show s.count + 1 + s.count % 2 = n + 1 + n % 2
    rw [hn]

/-- The sequence becomes even, and the history is published. -/
theorem publish_guarantees {n : Nat} (hn : n % 2 = 1) (h : Writing base n s) :
    WriterGuarantee base s (s.publish (BitVec.ofNat 32 (n + 1))) ∧
      Writing base (n + 1) (s.publish (BitVec.ofNat 32 (n + 1))) := by
  have hcount := h.count
  have hinv : Counted base (s.publish (BitVec.ofNat 32 (n + 1))) := by
    refine ⟨h.inv.even, ?_, ?_, fun _ => rfl, h.inv.snapshots⟩
    · show _ = BitVec.ofNat 32 (s.count + 1)
      rw [hcount]
      rfl
    · have hcounted := h.inv.counted
      show s.count + 1 + (s.count + 1) % 2 = base + 2 * s.begun
      omega
  refine ⟨⟨fun _ => hinv, .of_lt (Nat.lt_succ_self _)⟩, hinv, ?_⟩
  show s.count + 1 = n + 1
  rw [hcount]

/-- **An update**: odd, the stores, even. -/
theorem update_ok {n : Nat} {w w' : Shared κ ς → Word} {fs : List (Shared κ ς → Shared κ ς)}
    (hw : ∀ s, Writing base n s → w s = BitVec.ofNat 32 (n + 1 + n % 2))
    (hfs : ∀ f ∈ fs, Inner f)
    (hw' : ∀ s, Writing base (n + 1 + n % 2) s → w' s = BitVec.ofNat 32 (n + 1 + n % 2 + 1))
    (h : Writing base n s) :
    WriterOk base (fun _ => Writing base (n + 1 + n % 2 + 1)) (do
      Code.store fun s => s.openUpdate (w s)
      Code.stores fs
      Code.store fun s => s.publish (w' s)) s := by
  have hodd : (n + 1 + n % 2) % 2 = 1 := by omega
  refine Code.store_then stable_writing h fun s h _ => ?_
  rw [hw s h]
  obtain ⟨hg, h⟩ := openUpdate_guarantees h
  refine ⟨hg, Code.Ok.bind (Code.ok_stores stable_writing h fun f hf s h _ =>
    (hfs f hf).guarantees hodd h) fun _ s h => ?_⟩
  refine Code.ok_rmw stable_writing h fun s h _ => ?_
  rw [hw' s h]
  obtain ⟨hg, h⟩ := publish_guarantees hodd h
  exact ⟨hg, fun _ hr => stable_writing.star hr h⟩

theorem roundUp_ofNat (n : Nat) : roundUp (BitVec.ofNat 32 n) = BitVec.ofNat 32 (n + n % 2) := by
  have h : BitVec.ofNat 32 n &&& 1#32 = BitVec.ofNat 32 (n % 2) := by
    rw [← BitVec.toNat_inj, BitVec.toNat_and, BitVec.toNat_ofNat, BitVec.toNat_ofNat]
    show n % 2 ^ 32 &&& 1 = n % 2 % 2 ^ 32
    rw [Nat.and_one_is_mod]
    omega
  rw [roundUp, h, BitVec.ofNat_add]

/-- An update from the sequence the writer read: rounded up, plus one, plus two. -/
theorem update_from_ok {n : Nat} {fs : List (Shared κ ς → Shared κ ς)} (hfs : ∀ f ∈ fs, Inner f)
    {sequence : Word} (hseq : sequence = BitVec.ofNat 32 n) (h : Writing base n s) :
    WriterOk base (fun _ s => Counted base s ∧ s.count % 2 = 0) (do
      Code.store fun s => s.openUpdate (roundUp sequence + 1#32)
      Code.stores fs
      Code.store fun s => s.publish (roundUp sequence + 2#32)) s := by
  refine (update_ok (fun _ _ => ?_) hfs (fun _ _ => ?_) h).mono fun _ s h => ⟨h.inv, ?_⟩
  · rw [hseq, roundUp_ofNat, word_succ, Nat.add_right_comm]
  · rw [hseq, roundUp_ofNat, word_add_two]
    exact congrArg _ (by omega)
  · rw [h.count]
    omega

/-- An update by two increments, from an even sequence. -/
theorem fetchAdd_ok {n : Nat} (hn : n % 2 = 0) {fs : List (Shared κ ς → Shared κ ς)}
    (hfs : ∀ f ∈ fs, Inner f) (h : Writing base n s) :
    WriterOk base (fun _ s => Counted base s ∧ s.count % 2 = 0) (do
      Code.store fun s => s.openUpdate (s.sequence + 1#32)
      Code.stores fs
      Code.store fun s => s.publish (s.sequence + 1#32)) s := by
  refine (update_ok (fun s h => ?_) hfs (fun s h => ?_) h).mono fun _ s h => ⟨h.inv, ?_⟩
  · rw [h.inv.word, h.count, word_succ, hn]
  · rw [h.inv.word, h.count, word_succ]
  · rw [h.count]
    omega

/-- Readers leave the statics. -/
theorem stable_own {F : ς → Prop} :
    Code.Stable (WriterRely (κ := κ) base) fun s => F s.own := by
  intro s s' h hr
  obtain ⟨-, xs, rfl⟩ := hr
  exact h

/-- A change of the statics is nobody else's concern. -/
theorem setOwn_guarantees (f : ς → ς) : WriterGuarantee base s (Shared.setOwn f s) where
  inv h := ⟨h.even, h.word, h.counted, h.published, h.snapshots⟩
  quiet := .refl _ _

theorem inner_put [DecidableEq κ] (x : κ × Word) : Inner (Shared.put (ς := ς) x) :=
  ⟨fun _ => rfl, fun _ => rfl, fun _ => rfl, fun _ => rfl, fun _ => rfl⟩

theorem inner_puts [DecidableEq κ] (xs : List (κ × Word)) :
    ∀ f ∈ xs.map (Shared.put (ς := ς)), Inner f := by
  intro f hf
  obtain ⟨x, -, rfl⟩ := List.mem_map.mp hf
  exact inner_put x

theorem inner_setMagic (w : Word) : Inner (Shared.setMagic (κ := κ) (ς := ς) w) :=
  ⟨fun _ => rfl, fun _ => rfl, fun _ => rfl, fun _ => rfl, fun _ => rfl⟩

theorem inner_setVersion (w : Word) : Inner (Shared.setVersion (κ := κ) (ς := ς) w) :=
  ⟨fun _ => rfl, fun _ => rfl, fun _ => rfl, fun _ => rfl, fun _ => rfl⟩

theorem inner_setOwn (f : ς → ς) : Inner (Shared.setOwn (κ := κ) f) :=
  ⟨fun _ => rfl, fun _ => rfl, fun _ => rfl, fun _ => rfl, fun _ => rfl⟩

/-- The marks and the history. -/
theorem inner_reset [DecidableEq κ] (m v : Word) (xs : List (κ × Word)) :
    ∀ f ∈ Shared.setMagic m :: Shared.setVersion v :: xs.map (Shared.put (ς := ς)), Inner f :=
  List.forall_mem_cons.mpr ⟨inner_setMagic m,
    List.forall_mem_cons.mpr ⟨inner_setVersion v, inner_puts xs⟩⟩

/-! ### The history after a list of stores -/

section Written

variable [DecidableEq κ]

def written (h : κ → Word) (xs : List (κ × Word)) : κ → Word :=
  xs.foldl (fun h x => Function.update h x.1 x.2) h

theorem written_append (h : κ → Word) (xs ys : List (κ × Word)) :
    written h (xs ++ ys) = written (written h xs) ys := List.foldl_append

/-- The last store to a word is what it holds. -/
theorem written_cons_of_notMem {h : κ → Word} {k : κ} {v : Word} {xs : List (κ × Word)}
    (hk : ∀ x ∈ xs, x.1 ≠ k) : written h ((k, v) :: xs) k = v := by
  have hkeep : ∀ (xs : List (κ × Word)) (h : κ → Word), (∀ x ∈ xs, x.1 ≠ k) →
      written h xs k = h k := by
    intro xs
    induction xs with
    | nil => exact fun _ _ => rfl
    | cons x xs ih =>
      intro h hk
      refine (ih _ fun y hy => hk y (List.mem_cons_of_mem _ hy)).trans ?_
      exact Function.update_of_ne (hk x List.mem_cons_self).symm _ _
  exact (hkeep xs _ hk).trans (Function.update_self ..)

/-- `memset`. -/
theorem written_zeros {h : κ → Word} {ks : List κ} {k : κ} (hk : k ∈ ks) :
    written h (ks.map fun k => (k, 0#32)) k = 0#32 := by
  induction ks generalizing h with
  | nil => exact absurd hk List.not_mem_nil
  | cons k' ks ih =>
    by_cases hks : k ∈ ks
    · exact ih hks
    · have hk' : k = k' := (List.mem_cons.mp hk).resolve_right hks
      subst hk'
      refine written_cons_of_notMem fun x hx => ?_
      obtain ⟨k', hk', rfl⟩ := List.mem_map.mp hx
      exact fun he => hks (he ▸ hk')

theorem foldl_put (xs : List (κ × Word)) (s : Shared κ ς) :
    (xs.map Shared.put).foldl (fun s f => f s) s = { s with history := written s.history xs } := by
  induction xs generalizing s with
  | nil => rfl
  | cons x xs ih => exact ih (Shared.put x s)

end Written

/-! ## 6. The reader -/

/-- A reader that began where `began` updates had begun, and what it saw since. -/
structure Looking (base start began : Nat) (seen : (κ → Word) → Prop) (s : Shared κ ς) : Prop where
  inv : Counted base s
  reading : Reading start seen s.count s.history
  start : start = base + 2 * began

theorem stable_counted : Code.Stable (ReaderRely (κ := κ) (ς := ς) base) (Counted base) :=
  fun _ _ _ hr => hr.inv

/-- **The reader finds its sequence again**: the copy is what was published last. -/
theorem Looking.found {start began : Nat} {copy : κ → Word}
    (h : Looking base start began (copy = ·) s) (hword : BitVec.ofNat 32 start = s.sequence)
    (hfew : s.begun - began < 2 ^ 31) : s.log.head? = some copy := by
  have heven := h.inv.even
  have hstart := h.start
  have hlt : s.count < start + 2 ^ 32 := by
    have := h.inv.counted
    omega
  obtain ⟨hcount, hcopy⟩ := h.reading.found hlt (hword.trans h.inv.word)
  rw [hcopy]
  exact h.inv.published (by omega)

/-- What is returned is noted. -/
theorem return_guarantees (x : Snapshot κ) (hx : x.begun < 2 ^ 31 → x.copy ∈ x.between) :
    ReaderGuarantee base s { s with snapshots := x :: s.snapshots } where
  inv h := { h with
    snapshots := fun y hy hfew => by
      rcases List.mem_cons.mp hy with rfl | hy
      · exact hx hfew
      · exact h.snapshots y hy hfew }
  reads := ⟨_, rfl⟩

theorem mem_take_of_head? {α : Type} {l : List α} {a : α} (h : l.head? = some a) (n : Nat) :
    a ∈ l.take (n + 1) := by
  cases l with
  | nil => cases h
  | cons b l =>
    cases h
    exact List.mem_cons_self

/-- **`read_snapshot`.** -/
theorem readSnapshot_ok [DecidableEq κ] (L : Layout κ) (attempts : Nat) (h : Counted base s) :
    Code.Ok (ReaderRely base) (ReaderGuarantee base) (fun _ _ => True) (fun _ _ => True)
      (readSnapshot L attempts) s := by
  induction attempts generalizing s with
  | zero => exact fun _ _ => trivial
  | succ attempts ih =>
    refine Code.load_then (.refl base) stable_counted h fun s h => ?_
    cases hodd : odd s.sequence with
    | true => exact ih h
    | false =>
      have heven : s.count % 2 = 0 := even_of_not_odd (h.word ▸ hodd)
      have hstart : s.count = base + 2 * s.begun := by
        have := h.counted
        omega
      have hcopy := ok_copy (R := ReaderRely base) (G := ReaderGuarantee base)
        (A := fun _ _ => True) (P := Counted base) heven (.refl base) stable_counted
        (fun _ _ _ hr => hr.quiet) h L.all (fun _ => 0) (Nat.le_refl s.count)
      have hword := h.word
      generalize s.count = start at heven hstart hword hcopy
      refine Code.Ok.bind hcopy fun copy t ⟨ht, hseen⟩ => ?_
      refine Code.load_then (P := Looking base start s.begun (copy = ·)) (.refl base)
        (fun _ _ h hr => ⟨hr.inv, h.reading.quiet heven hr.quiet, h.start⟩) ⟨ht, hseen, hstart⟩
        fun u hu => ?_
      split
      · exact ih hu.inv
      · next hsame =>
        have hfound := fun hfew => hu.found (hword.symm.trans (not_not.mp hsame)) hfew
        refine Code.load_then (.refl base) stable_counted hu.inv fun v hv => ?_
        refine Code.load_then (.refl base) stable_counted hv fun v hv => ?_
        split
        · exact ih hv
        · refine Code.ok_rmw stable_counted hv fun v _ _ => ⟨?_, fun _ _ => trivial⟩
          exact return_guarantees _ fun hfew => mem_take_of_head? (hfound hfew) _

/-! ## 7. Any interleaving -/

section System

variable {χ : Type} [DecidableEq κ]

/-- The writer in the slot `none`, which minds the statics of a live process; readers in the
    others. -/
structure Publishes (L : Layout κ) (alive : ς → Bool) (S : System (Option Nat) χ (Shared κ ς)) :
    Prop where
  reader : ∀ i x c, S.program (some i) x = some c → ∃ found, c = snapshotOf L found
  writer : ∀ x c, S.program none x = some c → ∀ base n s, Writing base n s →
    (alive s.own = true → n % 2 = 0) →
    WriterOk base (fun _ s => Counted base s ∧ (alive s.own = true → s.count % 2 = 0)) c s
  buryReader : ∀ i s, S.bury (some i) s = s
  buryWriter : ∀ s, ∃ own, S.bury none s = { s with own } ∧ alive own = false

/-- The writer is not under way, or it died. -/
def Resting (alive : ς → Bool) (i : Option Nat) (s : Shared κ ς) : Prop :=
  i = none → alive s.own = true → s.count % 2 = 0

def SharedRely (base : Nat) : Option Nat → Shared κ ς → Shared κ ς → Prop
  | none => WriterRely base
  | some _ => ReaderRely base

def SharedGuarantee (base : Nat) : Option Nat → Shared κ ς → Shared κ ς → Prop
  | none => WriterGuarantee base
  | some _ => ReaderGuarantee base

omit [DecidableEq κ] in
/-- The death of the writer is no store. -/
theorem counted_setOwn (h : Counted base s) (own : ς) : Counted base { s with own } :=
  ⟨h.even, h.word, h.counted, h.published, h.snapshots⟩

theorem publishes_sound {L : Layout κ} {alive : ς → Bool} {S : System (Option Nat) χ (Shared κ ς)}
    (hS : Publishes L alive S) (base : Nat) :
    Sound S (SharedRely base) (SharedGuarantee base) (fun _ _ _ => True) (Counted base)
      (Resting alive) where
  other i j hij s s' hinv hg := by
    match i, j with
    | none, none => exact absurd rfl hij
    | none, some _ => exact ⟨hg.inv hinv, hg.quiet⟩
    | some _, none => exact ⟨hg.inv hinv, hg.reads⟩
    | some _, some _ =>
      obtain ⟨xs, rfl⟩ := hg.reads
      exact ⟨hg.inv hinv, .refl _ _⟩
  keeps i s s' hinv hg := by
    match i with
    | none => exact hg.inv hinv
    | some _ => exact hg.inv hinv
  idle i s s' h hr := by
    match i with
    | none =>
      obtain ⟨-, xs, rfl⟩ := hr
      exact h
    | some _ => exact fun h => absurd h nofun
  call i x c hc s hinv hidle := by
    match i with
    | none =>
      exact (hS.writer x c hc base s.count s ⟨hinv, rfl⟩ (hidle rfl)).mono fun _ s h _ => h.2
    | some i =>
      obtain ⟨found, rfl⟩ := hS.reader i x c hc
      cases found with
      | true => exact (readSnapshot_ok L 4 hinv).mono fun _ _ _ h => absurd h nofun
      | false => exact fun _ _ h => absurd h nofun
  bury i s hinv := by
    match i with
    | none =>
      obtain ⟨own, hown, hdead⟩ := hS.buryWriter s
      rw [hown]
      refine ⟨counted_setOwn hinv own, fun _ h => absurd (hdead.symm.trans h) nofun, fun j hj => ?_⟩
      match j with
      | none => exact absurd rfl hj
      | some _ => exact ⟨counted_setOwn hinv own, .refl _ _⟩
    | some i =>
      rw [hS.buryReader i s]
      refine ⟨hinv, fun h => absurd h nofun, fun j _ => ?_⟩
      match j with
      | none => exact ⟨hinv, .refl s⟩
      | some _ => exact ⟨hinv, .refl _ _⟩

/-- **Snapshots are sound**: from whatever is in the mapping at first, over any run. -/
theorem snapshots_sound {L : Layout κ} {alive : ς → Bool} {S : System (Option Nat) χ (Shared κ ς)}
    (hS : Publishes L alive S) {s : Shared κ ς} (hs : Untouched s) (hdead : alive s.own = false)
    (es : List (Event (Option Nat) χ)) (x : Snapshot κ)
    (hx : x ∈ (run S.step (Machine.idle s) es).memory.snapshots) (hfew : x.begun < 2 ^ 31) :
    x.copy ∈ x.between :=
  ((publishes_sound hS (baseOf s)).every_run hs.counted
    (fun _ _ h => absurd (hdead.symm.trans h) nofun) es).snapshots x hx hfew

end System

end YiHack.Record
