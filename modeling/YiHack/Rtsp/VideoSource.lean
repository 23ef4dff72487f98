/-
  File:      YiHack/Rtsp/VideoSource.lean
  Subject:   `VideoFramedMemorySource.cpp`: frames of a stream out of the queue, and the resync at a
             gap.

  The source knows a gap by the 16-bit counter of the last frame it delivered. A frame it skips
  while it waits for a sync point changes nothing, so the gaps add up: once they make a turn of the
  counter, a frame behind them passes for the successor.

  * `lastOk_step` -- the counter is that of the last frame delivered, in every run;
  * `step_kept_iff` -- one event;
  * **`continuous_iff`** -- every frame delivered is a sync point or the successor of the one before
    exactly where no such frame comes to the front;
  * `continuous_of_near` -- so it is while the gaps do not add up to a turn.

  The reader's buffer, presentation times and durations are not modelled.
-/
import YiHack.General.Bytes
import YiHack.General.Run

namespace YiHack.Rtsp

open General

/-! ## 1. The queue -/

/-- `output_frame`, and which frame of the stream it is. -/
structure OutputFrame where
  index : Nat
  frame : Bytes
  deriving DecidableEq

/-- The counter a frame carries. -/
def OutputFrame.counter (f : OutputFrame) : Nat := f.index % 65536

/-- `MAX_QUEUE_SIZE`. -/
def maxQueueSize : Nat := 20

/-- "overflow trim". -/
def trim (q : List OutputFrame) : List OutputFrame := q.drop (q.length - maxQueueSize)

def NALU_HEADER : Bytes := [0x00, 0x00, 0x00, 0x01]

/-- `isSyncFrame`. -/
def isSyncFrame (hNumber : Nat) (frame : Bytes) : Bool :=
  if frame.length < 5 then false
  else
    let nalHdr := byteAt frame 4
    if hNumber = 264 then
      let nut := nalHdr &&& 0x1F
      nut = 5 ∨ nut = 7 ∨ nut = 8
    else if hNumber = 265 then
      let nut := (nalHdr >>> 1) &&& 0x3F
      (nut ≥ 16 ∧ nut ≤ 23) ∨ nut = 32 ∨ nut = 33 ∨ nut = 34
    else true

/-! ## 2. The source -/

/-- The queue, the members of the source, and the frames delivered, the last one first. -/
structure Source where
  queue : List OutputFrame
  nextIndex : Nat
  haveStartedReading : Bool
  haveLastCounter : Bool
  lastCounter : Nat
  /-- `fMaxSize` while `doGetNextFrame` is in its loop. -/
  reading : Option Nat
  delivered : List OutputFrame

/-- A new source on a stream of which `n` frames are gone. -/
def newSource (n : Nat) : Source := ⟨[], n, false, false, 0, none, []⟩

/-- `push` is the capture thread: `lost` frames never came to the queue, the next one does. The
    others are the event loop: `doGetNextFrame` up to its loop, from the reader or as a delayed
    task, one turn of the loop, and `doStopGettingFrames`. -/
inductive Event
  | push (lost : Nat) (frame : Bytes)
  | get (maxSize : Nat)
  | turn
  | stop

/-- "Force a resync to a keyframe/parameter-set before delivering the first frame". -/
def doGetNextFrame (s : Source) (maxSize : Nat) : Source :=
  if s.haveStartedReading then { s with reading := some maxSize }
  else if s.queue.length < 5 then s
  else { s with haveStartedReading := true, haveLastCounter := false, reading := some maxSize }

def Source.discontinuity (s : Source) (f : OutputFrame) : Bool :=
  !s.haveLastCounter || f.counter ≠ ((s.lastCounter + 1) &&& 0xFFFF)

/-- What the loop does with the front of the queue. -/
def takeFront (hNumber : Nat) (s : Source) (maxSize : Nat) (f : OutputFrame)
    (rest : List OutputFrame) : Source :=
  if f.frame.length < 5 then { s with queue := rest }
  else if f.frame.take 4 ≠ NALU_HEADER then { s with queue := rest }
  else if s.discontinuity f ∧ isSyncFrame hNumber f.frame = false then { s with queue := rest }
  else if f.frame.length - 4 ≤ maxSize then
    { s with
      queue := rest
      haveLastCounter := true
      lastCounter := f.counter
      reading := none
      delivered := f :: s.delivered }
  -- "The frame is larger than the available buffer: drop it"
  else { s with queue := rest, reading := none }

/-- One turn of the loop, under the lock. -/
def loopTurn (hNumber : Nat) (s : Source) (maxSize : Nat) : Source :=
  match s.queue with
  | [] => { s with reading := none }
  | f :: rest => takeFront hNumber s maxSize f rest

def step (hNumber : Nat) (s : Source) : Event → Source
  | .push lost frame =>
    { s with
      queue := trim (s.queue ++ [⟨s.nextIndex + lost, frame⟩])
      nextIndex := s.nextIndex + lost + 1 }
  | .get maxSize =>
    match s.reading with
    | none => doGetNextFrame s maxSize
    | some _ => s
  | .turn =>
    match s.reading with
    | none => s
    | some maxSize => loopTurn hNumber s maxSize
  | .stop =>
    match s.reading with
    | none => { s with haveStartedReading := false }
    | some _ => s

/-! ## 3. What is delivered -/

/-- The frames delivered, the last one first: each is a sync point or the successor of the one
    before. -/
def Continuous (hNumber : Nat) : List OutputFrame → Prop
  | [] => True
  | [f] => isSyncFrame hNumber f.frame
  | f :: g :: rest =>
    (isSyncFrame hNumber f.frame ∨ f.index = g.index + 1) ∧ Continuous hNumber (g :: rest)

/-- A frame the source can deliver. -/
def Fits (maxSize : Nat) (f : OutputFrame) : Prop :=
  5 ≤ f.frame.length ∧ f.frame.take 4 = NALU_HEADER ∧ f.frame.length - 4 ≤ maxSize

/-- Before the event no frame is at the front that is no sync point and has the counter of the
    successor without being it. -/
def Unaliased (hNumber : Nat) (s : Source) : Event → Prop
  | .turn => ∀ maxSize f g, s.reading = some maxSize → s.queue.head? = some f →
      s.delivered.head? = some g → s.haveLastCounter → Fits maxSize f →
        isSyncFrame hNumber f.frame = false → f.counter = (g.index + 1) % 65536 →
          f.index = g.index + 1
  | _ => True

/-- The counter kept is that of the last frame delivered. -/
def LastOk (s : Source) : Prop :=
  s.haveLastCounter → ∃ g, s.delivered.head? = some g ∧ s.lastCounter = g.counter

variable {hNumber : Nat} {s : Source}

/-- The front of the queue is dropped, or delivered. -/
theorem takeFront_cases (hNumber : Nat) (s : Source) (maxSize : Nat) (f : OutputFrame)
    (rest : List OutputFrame) :
    ((takeFront hNumber s maxSize f rest).delivered = s.delivered ∧
        (takeFront hNumber s maxSize f rest).haveLastCounter = s.haveLastCounter ∧
        (takeFront hNumber s maxSize f rest).lastCounter = s.lastCounter ∧
        (Fits maxSize f → s.discontinuity f ∧ isSyncFrame hNumber f.frame = false)) ∨
      (Fits maxSize f ∧ (s.discontinuity f → isSyncFrame hNumber f.frame) ∧
        (takeFront hNumber s maxSize f rest).delivered = f :: s.delivered ∧
        (takeFront hNumber s maxSize f rest).haveLastCounter = true ∧
        (takeFront hNumber s maxSize f rest).lastCounter = f.counter) := by
  unfold takeFront
  split
  · rename_i hsmall
    exact .inl ⟨rfl, rfl, rfl, fun hfits => absurd hfits.1 (by omega)⟩
  · split
    · rename_i hwrong
      exact .inl ⟨rfl, rfl, rfl, fun hfits => absurd hfits.2.1 hwrong⟩
    · split
      · rename_i horphan
        exact .inl ⟨rfl, rfl, rfl, fun _ => horphan⟩
      · rename_i hlong hright hsync
        split
        · rename_i hsize
          refine .inr ⟨⟨by omega, not_not.mp hright, hsize⟩, fun hd => ?_, rfl, rfl, rfl⟩
          exact Bool.eq_true_of_not_eq_false fun hf => hsync ⟨hd, hf⟩
        · rename_i hsize
          exact .inl ⟨rfl, rfl, rfl, fun hfits => absurd hfits.2.2 hsize⟩

/-- **What a turn of the loop can do.** -/
theorem loopTurn_cases (hNumber : Nat) (s : Source) (maxSize : Nat) :
    ((loopTurn hNumber s maxSize).delivered = s.delivered ∧
        (loopTurn hNumber s maxSize).haveLastCounter = s.haveLastCounter ∧
        (loopTurn hNumber s maxSize).lastCounter = s.lastCounter ∧
        ∀ f, s.queue.head? = some f → Fits maxSize f →
          s.discontinuity f ∧ isSyncFrame hNumber f.frame = false) ∨
      ∃ f, s.queue.head? = some f ∧ Fits maxSize f ∧
        (s.discontinuity f → isSyncFrame hNumber f.frame) ∧
        (loopTurn hNumber s maxSize).delivered = f :: s.delivered ∧
        (loopTurn hNumber s maxSize).haveLastCounter = true ∧
        (loopTurn hNumber s maxSize).lastCounter = f.counter := by
  unfold loopTurn
  cases s.queue with
  | nil => exact .inl ⟨rfl, rfl, rfl, fun f hf => absurd hf (by simp)⟩
  | cons f rest =>
    rcases takeFront_cases hNumber s maxSize f rest with ⟨hd, hh, hl, hskip⟩ | hdeliver
    · refine .inl ⟨hd, hh, hl, fun f' hf' => ?_⟩
      obtain rfl : f = f' := Option.some.inj hf'
      exact hskip
    · exact .inr ⟨f, rfl, hdeliver⟩

/-- **What an event can do**: nothing is delivered and the counter is kept or given up, or a turn of
    the loop delivers the front of the queue. -/
theorem step_cases (hNumber : Nat) (s : Source) (e : Event) :
    ((step hNumber s e).delivered = s.delivered ∧
        ((step hNumber s e).haveLastCounter →
          s.haveLastCounter ∧ (step hNumber s e).lastCounter = s.lastCounter) ∧
        (e = .turn → ∀ maxSize f, s.reading = some maxSize → s.queue.head? = some f →
          Fits maxSize f → s.discontinuity f ∧ isSyncFrame hNumber f.frame = false)) ∨
      (e = .turn ∧ ∃ maxSize f, s.reading = some maxSize ∧ s.queue.head? = some f ∧
        Fits maxSize f ∧ (s.discontinuity f → isSyncFrame hNumber f.frame) ∧
        (step hNumber s e).delivered = f :: s.delivered ∧
        (step hNumber s e).haveLastCounter = true ∧
        (step hNumber s e).lastCounter = f.counter) := by
  cases e with
  | push lost frame => exact .inl ⟨rfl, fun h => ⟨h, rfl⟩, fun h => by cases h⟩
  | get maxSize =>
    simp only [step, doGetNextFrame]
    refine .inl ⟨?_, ?_, fun h => by cases h⟩
    · split
      · split
        · rfl
        · split <;> rfl
      · rfl
    · split
      · split
        · exact fun h => ⟨h, rfl⟩
        · split
          · exact fun h => ⟨h, rfl⟩
          · exact fun h => absurd h (by simp)
      · exact fun h => ⟨h, rfl⟩
  | stop =>
    simp only [step]
    refine .inl ⟨?_, ?_, fun h => by cases h⟩
    · split <;> rfl
    · split <;> exact fun h => ⟨h, rfl⟩
  | turn =>
    cases hreading : s.reading with
    | none =>
      simp only [step, hreading]
      exact .inl ⟨trivial, fun h => ⟨h, trivial⟩, fun _ _ _ h => by cases h⟩
    | some maxSize =>
      simp only [step, hreading]
      rcases loopTurn_cases hNumber s maxSize with ⟨hd, hh, hl, hskip⟩ | ⟨f, hdeliver⟩
      · refine .inl ⟨hd, fun h => ⟨hh ▸ h, hl⟩, fun _ maxSize' f hm => ?_⟩
        obtain rfl : maxSize = maxSize' := Option.some.inj hm
        exact hskip f
      · exact .inr ⟨trivial, maxSize, f, rfl, hdeliver⟩

theorem lastOk_newSource (n : Nat) : LastOk (newSource n) :=
  fun h => absurd h Bool.false_ne_true

/-- **Every event keeps the counter that of the last frame delivered.** -/
theorem lastOk_step (hNumber : Nat) (s : Source) (e : Event) (h : LastOk s) :
    LastOk (step hNumber s e) := by
  intro hhave
  rcases step_cases hNumber s e with ⟨hd, hkeep, -⟩ | ⟨-, _, f, -, -, -, -, hd, -, hl⟩
  · obtain ⟨hbefore, hl⟩ := hkeep hhave
    rw [hd, hl]
    exact h hbefore
  · exact ⟨f, by rw [hd]; rfl, hl⟩

/-- The frame is no gap exactly where it carries the next counter. -/
theorem discontinuity_eq_false_iff {f g : OutputFrame} (hhave : s.haveLastCounter)
    (hlast : s.lastCounter = g.counter) :
    s.discontinuity f = false ↔ f.counter = (g.index + 1) % 65536 := by
  have hmod : (s.lastCounter + 1) &&& 0xFFFF = (g.index + 1) % 65536 := by
    have hmask : (0xFFFF : Nat) = 2 ^ 16 - 1 := rfl
    rw [hmask, Nat.and_two_pow_sub_one_eq_mod, hlast, OutputFrame.counter]
    omega
  unfold Source.discontinuity
  rw [hhave, hmod]
  simp

/-- A frame delivered without a gap has one delivered before it. -/
theorem not_gap {f : OutputFrame} (hok : LastOk s) (h : s.discontinuity f = false) :
    s.haveLastCounter ∧ ∃ g, s.delivered.head? = some g ∧ f.counter = (g.index + 1) % 65536 := by
  have hhave : s.haveLastCounter := by
    unfold Source.discontinuity at h
    rw [Bool.or_eq_false_iff, Bool.not_eq_false'] at h
    exact h.1
  obtain ⟨g, hg, hlast⟩ := hok hhave
  exact ⟨hhave, g, hg, (discontinuity_eq_false_iff hhave hlast).mp h⟩

/-- **One event keeps what is delivered continuous exactly where it is unaliased.** -/
theorem step_kept_iff (hNumber : Nat) (s : Source) (e : Event) (hok : LastOk s)
    (hc : Continuous hNumber s.delivered) :
    Unaliased hNumber s e ↔ Continuous hNumber (step hNumber s e).delivered := by
  rcases step_cases hNumber s e with ⟨hd, -, hskip⟩ |
    ⟨rfl, maxSize, f, hreading, hf, hfits, hsync, hd, -, -⟩
  · rw [hd]
    refine ⟨fun _ => hc, fun _ => ?_⟩
    cases e with
    | turn =>
      intro maxSize f g hreading hf hg hhave hfits hnot hcounter
      obtain ⟨g', hg', hlast⟩ := hok hhave
      obtain rfl : g = g' := Option.some.inj (hg.symm.trans hg')
      have hgap := (hskip rfl maxSize f hreading hf hfits).1
      rw [(discontinuity_eq_false_iff hhave hlast).mpr hcounter] at hgap
      cases hgap
    | push => trivial
    | get => trivial
    | stop => trivial
  · rw [hd]
    constructor
    · intro hun
      by_cases hsyncf : isSyncFrame hNumber f.frame
      · cases hdel : s.delivered with
        | nil => exact hsyncf
        | cons g rest => exact ⟨.inl hsyncf, hdel ▸ hc⟩
      · have hgap : s.discontinuity f = false :=
          Bool.eq_false_iff.mpr fun hgap => hsyncf (hsync hgap)
        obtain ⟨hhave, g, hg, hcounter⟩ := not_gap hok hgap
        obtain ⟨rest, hdel⟩ := List.head?_eq_some_iff.mp hg
        rw [hdel] at hc ⊢
        refine ⟨.inr ?_, hc⟩
        exact hun maxSize f g hreading hf hg hhave hfits (Bool.eq_false_iff.mpr hsyncf) hcounter
    · intro hnew maxSize' f' g _ hf' hg _ _ hnot _
      obtain rfl : f = f' := Option.some.inj (hf.symm.trans hf')
      obtain ⟨rest, hdel⟩ := List.head?_eq_some_iff.mp hg
      rw [hdel] at hnew
      rcases hnew.1 with hyes | hnext
      · rw [hnot] at hyes
        cases hyes
      · exact hnext

/-- **No frame is spliced behind a gap exactly where no event of the run is aliased.** -/
theorem continuous_iff (hNumber n : Nat) (es : List Event) :
    (∀ k, Continuous hNumber (run (step hNumber) (newSource n) (es.take k)).delivered) ↔
      StepsMeet (step hNumber) (Unaliased hNumber) (newSource n) es :=
  stepsMeet_iff (I := fun s : Source => Continuous hNumber s.delivered)
    (fun s e => lastOk_step hNumber s e) (fun s e => step_kept_iff hNumber s e) (lastOk_newSource n)
    (trivial : Continuous hNumber []) es

/-- A sync point, and four frames that are none: the first behind a gap of 40000 frames, the second
    behind one of 25535. -/
def gaps : List Event :=
  [.push 0 [0, 0, 0, 1, 0x65], .push 40000 [0, 0, 0, 1, 0x41], .push 25535 [0, 0, 0, 1, 0x41],
   .push 0 [0, 0, 0, 1, 0x41], .push 0 [0, 0, 0, 1, 0x41], .get 1000, .turn, .get 1000, .turn,
   .turn]

def Event.lost : Event → Nat
  | .push lost _ => lost
  | .get _ | .turn | .stop => 0

/-- The first frame behind the gaps is skipped, the second one delivered behind the sync point: its
    index is 65537, its counter 1. -/
theorem gaps_spliced :
    (∀ e ∈ gaps, e.lost < 65535) ∧
      ¬ Continuous 264 (run (step 264) (newSource 0) gaps).delivered := by
  have hrun : (run (step 264) (newSource 0) gaps).delivered =
      [⟨65537, [0, 0, 0, 1, 0x41]⟩, ⟨0, [0, 0, 0, 1, 0x65]⟩] := by decide
  refine ⟨by decide, ?_⟩
  rw [hrun]
  rintro ⟨hsync | hnext, -⟩
  · exact absurd hsync (by decide)
  · exact absurd hnext (by decide)

/-! ## 4. How far a frame must be for it -/

/-- The frames come in the order of the stream. -/
structure Ordered (s : Source) : Prop where
  queue : s.queue.Pairwise fun f f' => f.index < f'.index
  coming : ∀ f ∈ s.queue, f.index < s.nextIndex
  behind : ∀ g ∈ s.delivered, g.index < s.nextIndex ∧ ∀ f ∈ s.queue, g.index < f.index

theorem ordered_newSource (n : Nat) : Ordered (newSource n) :=
  ⟨List.Pairwise.nil, fun _ h => absurd h List.not_mem_nil, fun _ h => absurd h List.not_mem_nil⟩

theorem Ordered.of_queue {s s' : Source} (h : Ordered s) (hq : s'.queue <:+ s.queue)
    (hn : s'.nextIndex = s.nextIndex) (hd : s'.delivered = s.delivered) : Ordered s' := by
  have hmem : ∀ f ∈ s'.queue, f ∈ s.queue := fun f hf => hq.subset hf
  refine ⟨h.queue.sublist hq.sublist, fun f hf => hn ▸ h.coming f (hmem f hf), fun g hg => ?_⟩
  obtain ⟨hlt, hall⟩ := h.behind g (hd ▸ hg)
  exact ⟨hn ▸ hlt, fun f hf => hall f (hmem f hf)⟩

theorem ordered_push (h : Ordered s) (hNumber lost : Nat) (frame : Bytes) :
    Ordered (step hNumber s (.push lost frame)) := by
  have hmem : ∀ f ∈ trim (s.queue ++ [⟨s.nextIndex + lost, frame⟩]),
      f ∈ s.queue ∨ f.index = s.nextIndex + lost := by
    intro f hf
    rcases List.mem_append.mp (List.mem_of_mem_drop hf) with hold | hnew
    · exact .inl hold
    · exact .inr (by rw [List.mem_singleton.mp hnew])
  refine ⟨?_, fun f hf => ?_, fun g hg => ⟨?_, fun f hf => ?_⟩⟩
  · refine List.Pairwise.drop (List.pairwise_append.mpr ⟨h.queue, List.pairwise_singleton _ _, ?_⟩)
    intro f hf f' hf'
    rw [List.mem_singleton.mp hf']
    have := h.coming f hf
    change f.index < s.nextIndex + lost
    omega
  · change f.index < s.nextIndex + lost + 1
    rcases hmem f hf with hold | hnew
    · have := h.coming f hold
      omega
    · omega
  · have := (h.behind g hg).1
    change g.index < s.nextIndex + lost + 1
    omega
  · have hg' := h.behind g hg
    rcases hmem f hf with hold | hnew
    · exact hg'.2 f hold
    · have := hg'.1
      omega

theorem ordered_takeFront (h : Ordered s) (hNumber maxSize : Nat) {f : OutputFrame}
    {rest : List OutputFrame} (hq : s.queue = f :: rest) :
    Ordered (takeFront hNumber s maxSize f rest) := by
  have hsuffix : rest <:+ s.queue := hq ▸ List.suffix_cons f rest
  unfold takeFront
  split
  · exact h.of_queue hsuffix rfl rfl
  · split
    · exact h.of_queue hsuffix rfl rfl
    · split
      · exact h.of_queue hsuffix rfl rfl
      · split
        · have hfirst : ∀ f' ∈ rest, f.index < f'.index :=
            (List.pairwise_cons.mp (hq ▸ h.queue)).1
          refine ⟨h.queue.sublist hsuffix.sublist,
            fun f' hf' => h.coming f' (hsuffix.subset hf'), fun g hg => ?_⟩
          rcases List.mem_cons.mp hg with rfl | hold
          · exact ⟨h.coming g (hq ▸ List.mem_cons_self), hfirst⟩
          · obtain ⟨hlt, hall⟩ := h.behind g hold
            exact ⟨hlt, fun f' hf' => hall f' (hsuffix.subset hf')⟩
        · exact h.of_queue hsuffix rfl rfl

theorem ordered_step (hNumber : Nat) (s : Source) (e : Event) (h : Ordered s) :
    Ordered (step hNumber s e) := by
  have hsame := List.suffix_refl s.queue
  cases e with
  | push lost frame => exact ordered_push h hNumber lost frame
  | get maxSize =>
    simp only [step, doGetNextFrame]
    split
    · split
      · exact h.of_queue hsame rfl rfl
      · split
        · exact h
        · exact h.of_queue hsame rfl rfl
    · exact h
  | stop =>
    simp only [step]
    split
    · exact h.of_queue hsame rfl rfl
    · exact h
  | turn =>
    simp only [step]
    split
    · exact h
    · unfold loopTurn
      split
      · exact h.of_queue hsame rfl rfl
      · rename_i hq
        exact ordered_takeFront h hNumber _ hq

/-- The front of the queue is within a turn of the counter behind the last frame delivered. -/
def Near (s : Source) (_ : Event) : Prop :=
  ∀ f g, s.queue.head? = some f → s.delivered.head? = some g → f.index ≤ g.index + 65536

/-- Within a turn the counter tells the successor. -/
theorem unaliased_of_near (h : Ordered s) {e : Event} (hnear : Near s e) :
    Unaliased hNumber s e := by
  cases e with
  | turn =>
    intro _ f g _ hf hg _ _ _ hcounter
    have hbehind := (h.behind g (List.mem_of_head? hg)).2 f (List.mem_of_head? hf)
    have hwithin := hnear f g hf hg
    unfold OutputFrame.counter at hcounter
    omega
  | push => trivial
  | get => trivial
  | stop => trivial

/-- **What is delivered is continuous as long as no front is more than a turn of the counter behind
    the last frame delivered.** -/
theorem continuous_of_near (hNumber n : Nat) {es : List Event}
    (h : StepsMeet (step hNumber) Near (newSource n) es) :
    Continuous hNumber (run (step hNumber) (newSource n) es).delivered := by
  have hrun := run_inv_of
    (I := fun s : Source => LastOk s ∧ Ordered s ∧ Continuous hNumber s.delivered)
    (fun s e hnear hs => ⟨lastOk_step hNumber s e hs.1, ordered_step hNumber s e hs.2.1,
      (step_kept_iff hNumber s e hs.1 hs.2.2).mp (unaliased_of_near hs.2.1 hnear)⟩)
    ⟨lastOk_newSource n, ordered_newSource n, (trivial : Continuous hNumber [])⟩ h
  exact hrun.2.2

end YiHack.Rtsp
