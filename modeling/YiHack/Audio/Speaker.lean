/-
  File:      YiHack/Audio/Speaker.lean
  Subject:   Who has the speaker: `Speaker.cpp` as `PCMFileSink.cpp` drives it, and `stream_pcm` of
             `speaker.c`, with the semaphore they share.

  `sem_open` creates the semaphore with the value 1 where there is none, so the value is 1 from the
  start. What the device, the FIFO and the standard input answer is data of the call.

  Beside the memory the model notes who is between taking the semaphore and posting it, and how
  often each has done either.

  * `switchSpeaker`, `releaseSpeaker`, `addData`, `streamPcm` -- the functions of the source;
  * `switchOff_ok`, `switchOn_ok`, `streamPcm_ok` -- what they do whatever the others are at;
  * **`speaker_owned`** -- one owner at most, and every acquisition posted once.
-/
import YiHack.General.Threads

namespace YiHack.Audio

open General

/-! ## 1. The memory -/

inductive Party
  | speaker (i : Nat)
  | stream (j : Nat)
  deriving DecidableEq, Repr

/-- A `PCMFileSink` with its `Speaker`; `releaseTask` says whether the task is scheduled. -/
structure Sink where
  alive : Bool
  isActive : Bool
  releaseTask : Bool
  outFid : Bool
  deriving DecidableEq, Repr

def Sink.none : Sink := ⟨false, false, false, false⟩

/-- The semaphore, the device, the sinks, and the notes. -/
structure Output where
  value : Nat
  amplifier : Bool
  sinks : Nat → Sink
  holders : List Party
  taken : Party → Nat
  posted : Party → Nat

def Output.boot : Output where
  value := 1
  amplifier := false
  sinks := fun _ => Sink.none
  holders := []
  taken := fun _ => 0
  posted := fun _ => 0

namespace Output

/-- `sem_trywait` by `p` where the value is positive. -/
def take (p : Party) (s : Output) : Output :=
  if s.value = 0 then s
  else
    { s with
      value := s.value - 1
      holders := p :: s.holders
      taken := Function.update s.taken p (s.taken p + 1) }

/-- `sem_post` by `p`. -/
def post (p : Party) (s : Output) : Output :=
  { s with
    value := s.value + 1
    holders := s.holders.erase p
    posted := Function.update s.posted p (s.posted p + 1) }

/-- `runIo`. -/
def runIo (on : Bool) (s : Output) : Output := { s with amplifier := on }

def setSink (i : Nat) (f : Sink → Sink) (s : Output) : Output :=
  { s with sinks := Function.update s.sinks i (f (s.sinks i)) }

end Output

def semTrywait (p : Party) : Code Output Bool :=
  Code.rmw (Output.take p) fun s => decide (s.value ≠ 0)

def semPost (p : Party) : Code Output Unit := Code.store (Output.post p)

/-- `runIo`, if the device can be opened. -/
def tryIo (cpld on : Bool) : Code Output Unit :=
  if cpld then Code.store (Output.runIo on) else Code.ret ()

/-! ## 2. `Speaker` -/

def SPEAKER_OFF : Int := 0

def SPEAKER_ON : Int := 1

/-- `switchSpeaker(SPEAKER_OFF)`; `cpld` says whether the device can be opened. -/
def switchOff (i : Nat) (cpld : Bool) : Code Output Int := do
  Code.store (Output.setSink i fun k => { k with releaseTask := false })
  let active ← Code.load fun s => (s.sinks i).isActive
  if active = false then Code.ret 0
  else do
    tryIo cpld false
    Code.store (Output.setSink i fun k => { k with isActive := false })
    semPost (.speaker i)
    Code.ret 0

/-- The end of `switchSpeaker(SPEAKER_ON)`. -/
def reschedule (i : Nat) : Code Output Int := do
  Code.store (Output.setSink i fun k => { k with releaseTask := true })
  Code.ret 0

/-- `switchSpeaker(SPEAKER_ON)`. -/
def switchOn (i : Nat) (cpld : Bool) : Code Output Int := do
  let active ← Code.load fun s => (s.sinks i).isActive
  if active then reschedule i
  else do
    let got ← semTrywait (.speaker i)
    if got = false then Code.ret (-1)
    else if cpld = false then do
      semPost (.speaker i)
      Code.ret (-3)
    else do
      Code.store (Output.runIo true)
      Code.store (Output.setSink i fun k => { k with isActive := true })
      reschedule i

/-- `Speaker::switchSpeaker`. -/
def switchSpeaker (i : Nat) (on : Int) (cpld : Bool) : Code Output Int :=
  if on ≠ SPEAKER_ON ∧ on ≠ SPEAKER_OFF then Code.ret (-2)
  else if on = SPEAKER_OFF then switchOff i cpld
  else switchOn i cpld

/-- `Speaker::releaseSpeaker`, called by the scheduler, which has taken the task off. -/
def releaseSpeaker (i : Nat) (cpld : Bool) : Code Output Int := do
  Code.store (Output.setSink i fun k => { k with releaseTask := false })
  switchSpeaker i SPEAKER_OFF cpld

/-! ## 3. `PCMFileSink` -/

/-- What a `write` to the FIFO answers. -/
inductive WriteResult
  | wrote (n : Nat)
  | interrupted
  | wouldBlock
  | failed

/-- The loop of `addData`: whether the FIFO is given up. Where no answer is left the FIFO is full. -/
def writeLoop : Nat → List WriteResult → Bool
  | 0, _ => false
  | _ + 1, [] => false
  | left + 1, .wrote n :: rs => writeLoop (left + 1 - n) rs
  | left + 1, .interrupted :: rs => writeLoop (left + 1) rs
  | _ + 1, .wouldBlock :: _ => false
  | _ + 1, .failed :: _ => true

/-- What a call of `addData` meets. -/
structure Packet where
  usable : Bool
  cpldOn : Bool
  fifo : Bool
  bytes : Nat
  writes : List WriteResult
  cpldOff : Bool

/-- `PCMFileSink::addData`, the speaker enabled. -/
def addData (i : Nat) (k : Packet) : Code Output Unit :=
  if k.usable = false then Code.ret ()
  else do
    let rc ← switchSpeaker i SPEAKER_ON k.cpldOn
    if rc < 0 then Code.ret ()
    else do
      let out ← Code.load fun s => (s.sinks i).outFid
      if out = false ∧ k.fifo = false then (switchSpeaker i SPEAKER_OFF k.cpldOff).void
      else do
        Code.store (Output.setSink i fun k => { k with outFid := true })
        if writeLoop k.bytes k.writes then do
          Code.store (Output.setSink i fun k => { k with outFid := false })
          (switchSpeaker i SPEAKER_OFF k.cpldOff).void
        else Code.ret ()

/-- `PCMFileSink::createNew`, where `sem_open` succeeds. -/
def createNew (i : Nat) : Code Output Unit :=
  Code.store (Output.setSink i fun _ => ⟨true, false, false, false⟩)

/-- `PCMFileSink::~PCMFileSink` with `Speaker::~Speaker`. -/
def destroy (i : Nat) (cpld : Bool) : Code Output Unit := do
  let _ ← switchSpeaker i SPEAKER_OFF cpld
  Code.store (Output.setSink i fun _ => Sink.none)

/-- What is called on a sink. -/
inductive SinkCall
  | create
  | switch (on : Int) (cpld : Bool)
  | timer (cpld : Bool)
  | data (k : Packet)
  | destroy (cpld : Bool)

/-- A call on a sink that is there, of the task if it is scheduled; a new one where there is none. -/
def sinkCall (i : Nat) (x : SinkCall) : Code Output Unit := do
  let k ← Code.load fun s => s.sinks i
  match x with
  | .create => if k.alive then Code.ret () else createNew i
  | .switch on cpld => if k.alive then (switchSpeaker i on cpld).void else Code.ret ()
  | .timer cpld => if k.alive ∧ k.releaseTask then (releaseSpeaker i cpld).void else Code.ret ()
  | .data p => if k.alive then addData i p else Code.ret ()
  | .destroy cpld => if k.alive then destroy i cpld else Code.ret ()

/-! ## 4. `speaker stream` -/

/-- How the loop of `stream_pcm` ends. -/
inductive Ending
  | eof
  | stopped
  | failed

/-- What a process meets. -/
structure Stream where
  supported : Bool
  handlers : Bool
  semOpened : Bool
  fifo : Bool
  cpldOn : Bool
  chunks : Nat
  ending : Ending
  cpldOff : Bool

/-- Behind the label `unlock`. -/
def unlock (j : Nat) (speakerOn : Bool) (e : Stream) (rc : Int) : Code Output Int := do
  tryIo (speakerOn && e.cpldOff) false
  semPost (.stream j)
  Code.ret rc

/-- The loop; a chunk takes its time and moves nothing here. -/
def pump : Nat → Code Output Unit
  | 0 => Code.ret ()
  | chunks + 1 => do
    Code.load fun _ => ()
    pump chunks

/-- `stream_pcm`. -/
def streamPcm (j : Nat) (e : Stream) : Code Output Int :=
  if e.supported = false then Code.ret 2
  else if e.handlers = false then Code.ret 1
  else if e.semOpened = false then Code.ret 1
  else do
    let got ← semTrywait (.stream j)
    if got = false then Code.ret 1
    else if e.fifo = false then unlock j false e 1
    else if e.cpldOn = false then unlock j false e 1
    else do
      Code.store (Output.runIo true)
      pump e.chunks
      unlock j true e (match e.ending with | .failed => 1 | _ => 0)

/-! ## 5. The machine -/

inductive AudioCall
  | sink (x : SinkCall)
  | stream (e : Stream)

/-- The parties; a crash leaves the semaphore as it is. -/
def audioSystem : System Party AudioCall Output where
  program
    | .speaker i, .sink x => some (sinkCall i x)
    | .stream j, .stream e => some (streamPcm j e).void
    | _, _ => none
  bury _ s := s

/-! ## 6. What holds between the actions -/

variable {p q : Party} {i : Nat} {s s' : Output} {h : Bool} {o : Option Sink} {k : Sink}

/-- Semaphore, owners and notes agree. -/
structure Inv (s : Output) : Prop where
  one : s.value + s.holders.length = 1
  balance : ∀ p, s.taken p = s.posted p + s.holders.count p

/-- What only `p` stores to. -/
def own : Party → Output → Option Sink
  | .speaker i, s => some (s.sinks i)
  | .stream _, _ => none

/-- What `p` relies on. -/
structure Rely (p : Party) (s s' : Output) : Prop where
  inv : Inv s'
  mine : p ∈ s'.holders ↔ p ∈ s.holders
  own : own p s' = own p s

/-- What `p` guarantees. -/
structure Guarantee (p : Party) (s s' : Output) : Prop where
  inv : Inv s → Inv s'
  others : ∀ q, q ≠ p → (q ∈ s'.holders ↔ q ∈ s.holders) ∧ own q s' = own q s

/-- The invariant holds, `h` says whether `p` has the semaphore, and `o` is its own part. -/
structure At (p : Party) (h : Bool) (o : Option Sink) (s : Output) : Prop where
  inv : Inv s
  holds : p ∈ s.holders ↔ h = true
  own : own p s = o

theorem stable_at : Code.Stable (Rely p) (At p h o) :=
  fun _ _ hs hr => ⟨hr.inv, hr.mine.trans hs.holds, hr.own.trans hs.own⟩

theorem Guarantee.refl (p : Party) (s : Output) : Guarantee p s s :=
  ⟨id, fun _ _ => ⟨Iff.rfl, rfl⟩⟩

/-- A step that leaves the semaphore alone. -/
theorem Inv.of_eq (hs : Inv s) (hvalue : s'.value = s.value) (hholders : s'.holders = s.holders)
    (htaken : s'.taken = s.taken) (hposted : s'.posted = s.posted) : Inv s' :=
  ⟨by rw [hvalue, hholders]; exact hs.one, fun p => by rw [htaken, hposted, hholders]; exact hs.balance p⟩

/-- Who has the semaphore has it alone. -/
theorem Inv.holder (hs : Inv s) (hp : p ∈ s.holders) : s.value = 0 ∧ s.holders = [p] := by
  have hone := hs.one
  cases hholders : s.holders with
  | nil => exact absurd (hholders ▸ hp) List.not_mem_nil
  | cons q rest =>
    rw [hholders, List.length_cons] at hone
    obtain rfl : rest = [] := List.eq_nil_of_length_eq_zero (by omega)
    rw [hholders] at hp
    exact ⟨by simp at hone; omega, by rw [List.mem_singleton.mp hp]⟩

/-! ## 7. The actions -/

/-- **The semaphore is taken**, or it is not. -/
theorem take_at (hs : At p false o s) : Guarantee p s (s.take p) ∧
    At p (decide (s.value ≠ 0)) o (s.take p) := by
  by_cases hzero : s.value = 0
  · have hsame : s.take p = s := if_pos hzero
    rw [hsame, hzero]
    exact ⟨.refl p s, hs⟩
  have hone := hs.inv.one
  have hnone : s.holders = [] := List.eq_nil_of_length_eq_zero (by omega)
  have htake : s.take p = { s with
      value := s.value - 1
      holders := [p]
      taken := Function.update s.taken p (s.taken p + 1) } := by
    rw [Output.take, if_neg hzero, hnone]
  have hinv : Inv (s.take p) := by
    rw [htake]
    refine ⟨by simp only [List.length_singleton]; omega, fun q => ?_⟩
    have hbalance := hs.inv.balance q
    rw [hnone, List.count_nil] at hbalance
    by_cases hq : q = p
    · subst hq
      simp only [Function.update_self, List.count_singleton_self]
      omega
    · simp only [Function.update_of_ne hq]
      rw [List.count_singleton, if_neg (by simpa using Ne.symm hq)]
      exact hbalance
  refine ⟨⟨fun _ => hinv, fun q hq => ⟨?_, ?_⟩⟩, hinv, ?_, ?_⟩
  · rw [htake, hnone]
    simp [hq]
  · rw [htake]
    cases q <;> rfl
  · rw [htake]
    simp [hzero]
  · rw [htake, ← hs.own]
    cases p <;> rfl

/-- **The semaphore is posted** by its owner. -/
theorem post_at (hs : At p true o s) : Guarantee p s (s.post p) ∧ At p false o (s.post p) := by
  obtain ⟨hzero, hholders⟩ := hs.inv.holder (hs.holds.mpr rfl)
  have hpost : s.post p = { s with
      value := 1
      holders := []
      posted := Function.update s.posted p (s.posted p + 1) } := by
    rw [Output.post, hzero, hholders, List.erase_cons_head]
  have hinv : Inv (s.post p) := by
    rw [hpost]
    refine ⟨rfl, fun q => ?_⟩
    have hbalance := hs.inv.balance q
    rw [hholders, List.count_singleton] at hbalance
    by_cases hq : q = p
    · subst hq
      simpa using hbalance
    · rw [if_neg (by simpa using Ne.symm hq)] at hbalance
      simp only [Function.update_of_ne hq, List.count_nil]
      exact hbalance
  refine ⟨⟨fun _ => hinv, fun q hq => ⟨?_, ?_⟩⟩, hinv, ?_, ?_⟩
  · rw [hpost, hholders]
    simp [hq]
  · rw [hpost]
    cases q <;> rfl
  · rw [hpost]
    simp
  · rw [hpost, ← hs.own]
    cases p <;> rfl

/-- A store to the device. -/
theorem runIo_at (hs : At p h o s) (on : Bool) :
    Guarantee p s (s.runIo on) ∧ At p h o (s.runIo on) := by
  refine ⟨⟨fun hinv => hinv.of_eq rfl rfl rfl rfl, fun q _ => ⟨Iff.rfl, ?_⟩⟩,
    hs.inv.of_eq rfl rfl rfl rfl, hs.holds, ?_⟩
  · cases q <;> rfl
  · rw [← hs.own]
    cases p <;> rfl

/-- **A store to one's own sink.** -/
theorem setSink_at (hs : At (.speaker i) h (some k) s) (f : Sink → Sink) :
    Guarantee (.speaker i) s (s.setSink i f) ∧ At (.speaker i) h (some (f k)) (s.setSink i f) := by
  have hk : s.sinks i = k := Option.some.inj hs.own
  refine ⟨⟨fun hinv => hinv.of_eq rfl rfl rfl rfl, fun q hq => ⟨Iff.rfl, ?_⟩⟩,
    hs.inv.of_eq rfl rfl rfl rfl, hs.holds, ?_⟩
  · cases q with
    | stream j => rfl
    | speaker j =>
      have hij : j ≠ i := fun heq => hq (by rw [heq])
      simp only [own, Output.setSink, Function.update_of_ne hij]
  · simp only [own, Output.setSink, Function.update_self, hk]

/-! ## 8. The functions -/

/-- `p` keeps its guarantee, and `Q` holds at the end. -/
def Keeps {α : Type} (p : Party) (Q : α → Output → Prop) (c : Code Output α) (s : Output) : Prop :=
  c.Ok (Rely p) (Guarantee p) (fun _ _ => True) Q s

section Rules

variable {α : Type} {Q : α → Output → Prop} {f : Output → Output} {h' : Bool} {o' : Option Sink}

theorem store_at {c : Unit → Code Output α} (hs : At p h o s)
    (hf : ∀ s, At p h o s → Guarantee p s (f s) ∧ At p h' o' (f s))
    (hc : ∀ s, At p h' o' s → Keeps p Q (c ()) s) : Keeps p Q (Code.store f >>= c) s :=
  Code.store_then stable_at hs fun s hs _ => ⟨(hf s hs).1, hc _ (hf s hs).2⟩

theorem load_at {β : Type} {g : Sink → β} {c : β → Code Output α} (hs : At (.speaker i) h (some k) s)
    (hc : ∀ s, At (.speaker i) h (some k) s → Keeps (.speaker i) Q (c (g k)) s) :
    Keeps (.speaker i) Q (Code.load (fun s => g (s.sinks i)) >>= c) s := by
  refine Code.load_then (Guarantee.refl _) stable_at hs fun s hs => ?_
  rw [show s.sinks i = k from Option.some.inj hs.own]
  exact hc s hs

theorem ret_at {a : α} (hs : At p h o s) (hQ : ∀ s, At p h o s → Q a s) :
    Keeps p Q (Code.ret a) s :=
  Code.ok_ret stable_at hs hQ

theorem trywait_at {c : Bool → Code Output α} (hs : At p false o s)
    (hc : ∀ got s, At p got o s → Keeps p Q (c got) s) : Keeps p Q (semTrywait p >>= c) s :=
  Code.rmw_then stable_at hs fun _ hs _ => ⟨(take_at hs).1, hc _ _ (take_at hs).2⟩

theorem post_then {c : Unit → Code Output α} (hs : At p true o s)
    (hc : ∀ s, At p false o s → Keeps p Q (c ()) s) : Keeps p Q (semPost p >>= c) s :=
  store_at hs (fun _ => post_at) hc

theorem tryIo_then {c : Unit → Code Output α} (cpld on : Bool) (hs : At p h o s)
    (hc : ∀ s, At p h o s → Keeps p Q (c ()) s) : Keeps p Q (tryIo cpld on >>= c) s := by
  unfold tryIo
  split
  · exact store_at hs (fun _ hs => runIo_at hs on) hc
  · exact hc s hs

theorem Keeps.mono {Q' : α → Output → Prop} {c : Code Output α} (h : Keeps p Q c s)
    (hQ : ∀ a s, Q a s → Q' a s) : Keeps p Q' c s := Code.Ok.mono h hQ

theorem Keeps.bind {γ : Type} {P : γ → Output → Prop} {c : Code Output γ} {f : γ → Code Output α}
    (h : Keeps p P c s) (hf : ∀ a s, P a s → Keeps p Q (f a) s) : Keeps p Q (c >>= f) s :=
  Code.Ok.bind h hf

end Rules

/-- The sink with the speaker off. -/
def Sink.off (k : Sink) : Sink := { k with releaseTask := false, isActive := false }

/-- The sink with the speaker on. -/
def Sink.on (k : Sink) : Sink := { k with isActive := true, releaseTask := true }

theorem Sink.off_eq (hoff : k.isActive = false) : k.off = { k with releaseTask := false } := by
  rw [Sink.off, ← hoff]

theorem Sink.on_eq (hon : k.isActive = true) : k.on = { k with releaseTask := true } := by
  rw [Sink.on, ← hon]

/-- **Off**: whoever had the semaphore has posted it. -/
theorem switchOff_ok (cpld : Bool) (hs : At (.speaker i) k.isActive (some k) s) :
    Keeps (.speaker i) (fun _ => At (.speaker i) false (some k.off)) (switchOff i cpld) s := by
  refine store_at hs (fun _ hs => setSink_at hs _) fun s hs => load_at hs fun s hs => ?_
  split
  next hoff =>
    have hoff : k.isActive = false := hoff
    refine ret_at hs fun s hs => ?_
    have hs : At (.speaker i) k.isActive (some k.off) s := by rwa [Sink.off_eq hoff]
    rwa [hoff] at hs
  next hon =>
    have hon : k.isActive = true := Bool.not_eq_false _ ▸ hon
    rw [hon] at hs
    refine tryIo_then cpld false hs fun s hs => ?_
    refine store_at hs (fun _ hs => setSink_at hs _) fun s hs => ?_
    exact post_then hs fun s hs => ret_at hs fun _ => id

theorem reschedule_ok (hs : At (.speaker i) true (some k) s) (hactive : k.isActive = true) :
    Keeps (.speaker i) (fun rc s => rc = 0 ∧ At (.speaker i) true (some k.on) s) (reschedule i) s := by
  refine store_at hs (fun _ hs => setSink_at hs _) fun s hs => ret_at hs fun s hs => ⟨rfl, ?_⟩
  rwa [Sink.on_eq hactive]

/-- **On**: the semaphore is taken with the speaker, or neither is. -/
theorem switchOn_ok (cpld : Bool) (hs : At (.speaker i) k.isActive (some k) s) :
    Keeps (.speaker i) (fun rc s => rc = 0 ∧ At (.speaker i) true (some k.on) s ∨
      rc < 0 ∧ k.isActive = false ∧ At (.speaker i) false (some k) s) (switchOn i cpld) s := by
  refine load_at hs fun s hs => ?_
  split
  next hon =>
    rw [hon] at hs
    exact (reschedule_ok hs hon).mono fun _ _ => .inl
  next hoff =>
    rw [Bool.not_eq_true] at hoff
    rw [hoff] at hs
    refine trywait_at hs fun got s hs => ?_
    split
    next hgot =>
      rw [hgot] at hs
      exact ret_at hs fun s hs => .inr ⟨by decide, hoff, hs⟩
    next hgot =>
      rw [Bool.not_eq_false] at hgot
      rw [hgot] at hs
      split
      · exact post_then hs fun s hs => ret_at hs fun s hs => .inr ⟨by decide, hoff, hs⟩
      · refine store_at hs (fun _ hs => runIo_at hs true) fun s hs => ?_
        refine store_at hs (fun _ hs => setSink_at hs _) fun s hs => ?_
        exact (reschedule_ok hs rfl).mono fun _ _ => .inl

/-- A party at rest: a sink has the semaphore exactly while its speaker is on, and then its task is
    scheduled; a process has not. -/
def Rested (h : Bool) : Option Sink → Prop
  | none => h = false
  | some k => h = k.isActive ∧ (k.isActive = true → k.releaseTask = true ∧ k.alive = true)

def Idle (p : Party) (s : Output) : Prop := ∃ h o, At p h o s ∧ Rested h o

theorem stable_idle : Code.Stable (Rely p) (Idle p) :=
  fun _ _ ⟨h, o, hs, hrest⟩ hr => ⟨h, o, stable_at _ _ hs hr, hrest⟩

theorem idle_off (hs : At (.speaker i) false (some k.off) s) : Idle (.speaker i) s :=
  ⟨false, some k.off, hs, rfl, nofun⟩

theorem idle_on (halive : k.alive = true) (hs : At (.speaker i) true (some k.on) s) :
    Idle (.speaker i) s := ⟨true, some k.on, hs, rfl, fun _ => ⟨rfl, halive⟩⟩

theorem switchSpeaker_ok (on : Int) (cpld : Bool) (halive : k.alive = true)
    (htask : k.isActive = true → k.releaseTask = true)
    (hs : At (.speaker i) k.isActive (some k) s) :
    Keeps (.speaker i) (fun _ => Idle (.speaker i)) (switchSpeaker i on cpld) s := by
  have hsame : ∀ s, At (.speaker i) k.isActive (some k) s → Idle (.speaker i) s := fun s hs =>
    ⟨k.isActive, some k, hs, rfl, fun h => ⟨htask h, halive⟩⟩
  unfold switchSpeaker
  split
  · exact ret_at hs hsame
  split
  · exact (switchOff_ok cpld hs).mono fun _ _ => idle_off
  · refine (switchOn_ok cpld hs).mono fun rc s hs => ?_
    obtain ⟨-, hs⟩ | ⟨-, hoff, hs⟩ := hs
    · exact idle_on halive hs
    · exact hsame s (hoff ▸ hs)

/-! ## 9. The calls -/

theorem switchSpeaker_on (cpld : Bool) : switchSpeaker i SPEAKER_ON cpld = switchOn i cpld := rfl

/-- The result is dropped. -/
theorem void_ok {α : Type} {c : Code Output α} (h : Keeps p (fun _ => Idle p) c s) :
    Keeps p (fun _ => Idle p) c.void s :=
  h.bind fun _ _ hs => Code.ok_ret stable_idle hs fun _ => id

theorem off_void_ok (cpld : Bool) (hs : At (.speaker i) k.isActive (some k) s) :
    Keeps (.speaker i) (fun _ => Idle (.speaker i)) (switchSpeaker i SPEAKER_OFF cpld).void s :=
  void_ok ((switchOff_ok cpld hs).mono fun _ _ => idle_off)

theorem releaseSpeaker_ok (cpld : Bool) (hs : At (.speaker i) k.isActive (some k) s) :
    Keeps (.speaker i) (fun _ => Idle (.speaker i)) (releaseSpeaker i cpld).void s := by
  refine void_ok (store_at hs (fun _ hs => setSink_at hs _) fun s hs => ?_)
  exact (switchOff_ok (k := { k with releaseTask := false }) cpld hs).mono fun _ _ => idle_off

/-- **A packet** leaves the speaker on, with its task, or off. -/
theorem addData_ok (d : Packet) (halive : k.alive = true)
    (htask : k.isActive = true → k.releaseTask = true)
    (hs : At (.speaker i) k.isActive (some k) s) :
    Keeps (.speaker i) (fun _ => Idle (.speaker i)) (addData i d) s := by
  have hsame : ∀ s, At (.speaker i) k.isActive (some k) s → Idle (.speaker i) s := fun s hs =>
    ⟨k.isActive, some k, hs, rfl, fun h => ⟨htask h, halive⟩⟩
  unfold addData
  split
  · exact ret_at hs hsame
  rw [switchSpeaker_on]
  refine (switchOn_ok d.cpldOn hs).bind fun rc s hs => ?_
  obtain ⟨hrc, hs⟩ | ⟨hrc, hoff, hs⟩ := hs
  · rw [if_neg (by omega)]
    refine load_at hs fun s hs => ?_
    split
    · exact off_void_ok (k := k.on) d.cpldOff hs
    · refine store_at hs (fun _ hs => setSink_at hs _) fun s hs => ?_
      split
      · refine store_at hs (fun _ hs => setSink_at hs _) fun s hs => ?_
        exact off_void_ok (k := { k.on with outFid := false }) d.cpldOff hs
      · exact ret_at hs fun s hs =>
          ⟨true, some { k.on with outFid := true }, hs, rfl, fun _ => ⟨rfl, halive⟩⟩
  · rw [if_pos hrc]
    exact ret_at hs fun s hs => hsame s (hoff ▸ hs)

theorem destroy_ok (cpld : Bool) (hs : At (.speaker i) k.isActive (some k) s) :
    Keeps (.speaker i) (fun _ => Idle (.speaker i)) (destroy i cpld) s := by
  refine (switchOff_ok cpld hs).bind fun _ s hs => ?_
  exact (store_at (c := Code.ret) hs (fun _ hs => setSink_at hs _) fun s hs =>
    ret_at hs fun s hs => ⟨false, some Sink.none, hs, rfl, nofun⟩)

/-- **A call on a sink.** -/
theorem sinkCall_ok (x : SinkCall) (hs : Idle (.speaker i) s) :
    Keeps (.speaker i) (fun _ => Idle (.speaker i)) (sinkCall i x) s := by
  obtain ⟨h, o, hs, hrest⟩ := hs
  obtain ⟨k, rfl⟩ : ∃ k, o = some k := ⟨s.sinks i, hs.own.symm⟩
  obtain ⟨rfl, htask⟩ := hrest
  have hsame : Keeps (.speaker i) (fun _ => Idle (.speaker i)) (Code.ret ()) s :=
    ret_at hs fun s hs => ⟨k.isActive, some k, hs, rfl, htask⟩
  refine load_at (g := id) hs fun s hs => ?_
  have hsame : Keeps (.speaker i) (fun _ => Idle (.speaker i)) (Code.ret ()) s :=
    ret_at hs fun s hs => ⟨k.isActive, some k, hs, rfl, htask⟩
  have hon : k.isActive = true → k.releaseTask = true := fun h => (htask h).1
  cases x with
  | create =>
    dsimp only [id]
    split
    · exact hsame
    next hdead =>
      have hoff : k.isActive = false := Bool.eq_false_iff.mpr fun h => hdead (htask h).2
      rw [hoff] at hs
      exact store_at (c := Code.ret) hs (fun _ hs => setSink_at hs _) fun s hs =>
        ret_at hs fun s hs => ⟨false, _, hs, rfl, nofun⟩
  | «switch» on cpld =>
    dsimp only [id]
    split
    next halive => exact void_ok (switchSpeaker_ok on cpld halive hon hs)
    · exact hsame
  | timer cpld =>
    dsimp only [id]
    split
    · exact releaseSpeaker_ok cpld hs
    · exact hsame
  | data d =>
    dsimp only [id]
    split
    next halive => exact addData_ok d halive hon hs
    · exact hsame
  | destroy cpld =>
    dsimp only [id]
    split
    · exact destroy_ok cpld hs
    · exact hsame

theorem unlock_ok {j : Nat} (on : Bool) (e : Stream) (rc : Int) (hs : At (.stream j) true none s) :
    Keeps (.stream j) (fun _ => At (.stream j) false none) (unlock j on e rc) s :=
  tryIo_then _ _ hs fun _ hs => post_then hs fun _ hs => ret_at hs fun _ => id

theorem pump_ok {j : Nat} (chunks : Nat) (hs : At (.stream j) true none s) :
    Keeps (.stream j) (fun _ => At (.stream j) true none) (pump chunks) s := by
  induction chunks generalizing s with
  | zero => exact ret_at hs fun _ => id
  | succ chunks ih => exact Code.load_then (Guarantee.refl _) stable_at hs fun _ hs => ih hs

/-- **A process**: what it took it has posted. -/
theorem streamPcm_ok {j : Nat} (e : Stream) (hs : At (.stream j) false none s) :
    Keeps (.stream j) (fun _ => At (.stream j) false none) (streamPcm j e) s := by
  unfold streamPcm
  split
  · exact ret_at hs fun _ => id
  split
  · exact ret_at hs fun _ => id
  split
  · exact ret_at hs fun _ => id
  refine trywait_at hs fun got s hs => ?_
  split
  next hgot =>
    rw [hgot] at hs
    exact ret_at hs fun _ => id
  next hgot =>
    rw [Bool.not_eq_false] at hgot
    rw [hgot] at hs
    split
    · exact unlock_ok _ e _ hs
    split
    · exact unlock_ok _ e _ hs
    refine store_at hs (fun _ hs => runIo_at hs true) fun s hs => ?_
    exact (pump_ok e.chunks hs).bind fun _ s hs => unlock_ok _ e _ hs

theorem idle_stream {j : Nat} : Idle (.stream j) s ↔ At (.stream j) false none s := by
  constructor
  · rintro ⟨h, o, hs, hrest⟩
    obtain rfl : o = none := hs.own.symm
    obtain rfl : h = false := hrest
    exact hs
  · exact fun hs => ⟨false, none, hs, rfl⟩

/-! ## 10. The machine -/

theorem audioSystem_steady :
    Steady audioSystem Rely Guarantee (fun _ _ _ => True) Inv Idle where
  other i j hij s s' hs hg := ⟨hg.inv hs, (hg.others j (Ne.symm hij)).1, (hg.others j (Ne.symm hij)).2⟩
  keeps i s s' hs hg := hg.inv hs
  idle i := stable_idle
  call p x c hc s _ hs := by
    match p, x with
    | .speaker i, .sink x => exact Option.some.inj hc ▸ sinkCall_ok x hs
    | .stream j, .stream e =>
      obtain rfl := Option.some.inj hc
      exact void_ok ((streamPcm_ok e (idle_stream.mp hs)).mono fun _ _ => idle_stream.mpr)
    | .speaker _, .stream _ => exact absurd hc nofun
    | .stream _, .sink _ => exact absurd hc nofun

theorem boot_idle (p : Party) : Idle p Output.boot := by
  have hinv : Inv Output.boot := ⟨rfl, fun _ => rfl⟩
  cases p with
  | speaker i => exact ⟨false, some Sink.none, ⟨hinv, ⟨nofun, nofun⟩, rfl⟩, rfl, nofun⟩
  | stream j => exact ⟨false, none, ⟨hinv, ⟨nofun, nofun⟩, rfl⟩, rfl⟩

/-- A machine whose threads all keep their guarantees. -/
abbrev Good (m : Machine Party Output) : Prop := m.Good Rely Guarantee (fun _ _ _ => True) Inv Idle

/-- The events of one party, its death apart. -/
def Own (p : Party) (e : Event Party AudioCall) : Prop := e.slot = p ∧ ∀ q, e ≠ .kill q

/-- **The task posts** what the speaker took. -/
theorem timer_ok (cpld : Bool) (hs : At (.speaker i) k.isActive (some k) s)
    (htask : k.alive = true ∧ k.releaseTask = true) :
    Keeps (.speaker i) (fun _ => At (.speaker i) false (some k.off))
      (sinkCall i (.timer cpld)) s := by
  refine load_at (g := id) hs fun s hs => ?_
  dsimp only [id]
  rw [if_pos htask]
  refine Keeps.bind (P := fun _ => At (.speaker i) false (some k.off)) ?_ fun _ _ hs =>
    ret_at hs fun _ => id
  refine store_at hs (fun _ hs => setSink_at hs _) fun s hs => ?_
  exact switchOff_ok (k := { k with releaseTask := false }) cpld hs

theorem own_replicate (p : Party) (n : Nat) : ∀ e ∈ List.replicate n (Event.step p), Own p e :=
  fun _ he => (List.mem_replicate.mp he).2 ▸ ⟨rfl, nofun⟩

/-- A party at rest posts with its own steps. -/
theorem rest_posts {m : Machine Party Output} (hm : Good m) (hrest : m.code p = none) :
    ∃ es, (∀ e ∈ es, Own p e) ∧ p ∉ (run audioSystem.step m es).memory.holders := by
  obtain ⟨h, o, hs, hrested⟩ := hm.free p hrest
  by_cases hholds : p ∈ m.memory.holders
  · cases p with
    | stream j =>
      have hfalse : h = false := by
        obtain rfl : o = none := hs.own.symm
        exact hrested
      exact absurd (hfalse ▸ hs.holds.mp hholds) nofun
    | speaker i =>
      obtain ⟨k, rfl⟩ : ∃ k, o = some k := ⟨_, hs.own.symm⟩
      obtain ⟨rfl, htask⟩ := hrested
      obtain ⟨hreleased, halive⟩ := htask (hs.holds.mp hholds)
      obtain ⟨n, hn⟩ := audioSystem.run_call m (.speaker i) (x := .sink (.timer true)) hrest rfl
      have hposted := (timer_ok true hs ⟨halive, hreleased⟩).alone
      refine ⟨.call (.speaker i) (.sink (.timer true)) :: List.replicate n (.step (.speaker i)),
        List.forall_mem_cons.mpr ⟨⟨rfl, nofun⟩, own_replicate (.speaker i) n⟩, ?_⟩
      rw [hn]
      exact fun hmem => Bool.noConfusion (hposted.holds.mp hmem)
  · exact ⟨[], fun _ he => absurd he List.not_mem_nil, hholds⟩

/-- **Every owner posts with its own steps**, whatever the others are at. -/
theorem owner_posts {m : Machine Party Output} (hm : Good m) {c : Code Output Unit}
    (hcode : m.code p = c.rest) :
    ∃ es, (∀ e ∈ es, Own p e) ∧ p ∉ (run audioSystem.step m es).memory.holders := by
  obtain ⟨n, hn⟩ := audioSystem.run_steps m p hcode
  have hown : ∀ e ∈ List.replicate n (.step p), Own p e := own_replicate p n
  have hm' := audioSystem_steady.run_alive hm fun e he q => (hown e he).2 q
  obtain ⟨es, hes, hposted⟩ := rest_posts (p := p) hm' (by rw [hn]; exact Function.update_self ..)
  refine ⟨List.replicate n (.step p) ++ es, fun e he => ?_, ?_⟩
  · rcases List.mem_append.mp he with he | he
    · exact hown e he
    · exact hes e he
  · rwa [run_append]

/-- **The speaker has one owner at most, and every acquisition is posted once**: the value of the
    semaphore and the number of owners are one together; what a party took it has posted, but for
    what it holds; from wherever it is, its own steps and its task post that; and a process that
    has ended, or a sink whose speaker is off, holds nothing. -/
theorem speaker_owned (es : List (Event Party AudioCall)) (halive : ∀ e ∈ es, ∀ p, e ≠ .kill p) :
    let m := run audioSystem.step (Machine.idle Output.boot) es
    m.memory.holders.length ≤ 1 ∧ m.memory.value + m.memory.holders.length = 1 ∧
    (∀ p, m.memory.taken p = m.memory.posted p + m.memory.holders.count p) ∧
    (∀ p, ∃ es', (∀ e ∈ es', Own p e) ∧
      let m' := run audioSystem.step m es'
      m'.memory.taken p = m'.memory.posted p) ∧
    (∀ j, m.code (.stream j) = none → m.memory.taken (.stream j) = m.memory.posted (.stream j)) ∧
    (∀ i, m.code (.speaker i) = none → (m.memory.sinks i).isActive = false →
      m.memory.taken (.speaker i) = m.memory.posted (.speaker i)) := by
  intro m
  have hm : Good m := audioSystem_steady.run_alive
    (Machine.Good.start ⟨rfl, fun _ => rfl⟩ boot_idle) halive
  have hone := hm.inv.one
  have hnone : ∀ {m : Machine Party Output}, Good m → ∀ p, p ∉ m.memory.holders →
      m.memory.taken p = m.memory.posted p := fun hm p hp => by
    rw [hm.inv.balance p, List.count_eq_zero_of_not_mem hp, Nat.add_zero]
  refine ⟨by omega, hone, hm.inv.balance, fun p => ?_, fun j hrest => ?_, fun i hrest hoff => ?_⟩
  · obtain ⟨c, hc⟩ := audioSystem.run_rest Output.boot es p
    obtain ⟨es', hes', hposted⟩ := owner_posts hm hc
    exact ⟨es', hes', hnone (audioSystem_steady.run_alive hm fun e he q => (hes' e he).2 q) p hposted⟩
  · have hs := idle_stream.mp (hm.free _ hrest)
    exact hnone hm _ fun hmem => Bool.noConfusion (hs.holds.mp hmem)
  · obtain ⟨h, o, hs, hrested⟩ := hm.free _ hrest
    obtain rfl : o = some (m.memory.sinks i) := hs.own.symm
    obtain ⟨rfl, -⟩ := hrested
    exact hnone hm _ fun hmem => Bool.noConfusion (hoff.symm.trans (hs.holds.mp hmem))

/-- A process begins to stream, and a sink gets a packet. -/
theorem speaker_owned_once :
    let es : List (Event Party AudioCall) :=
      [.call (.speaker 0) (.sink .create), .call (.stream 0) (.stream ⟨true, true, true, true, true, 3, .eof, true⟩),
        .step (.speaker 0), .step (.speaker 0), .step (.stream 0),
        .call (.speaker 0) (.sink (.data ⟨true, true, true, 2, [.wrote 2], true⟩))]
    let m := run audioSystem.step (Machine.idle Output.boot) es
    m.memory.holders.length ≤ 1 ∧ m.memory.holders = [.stream 0] :=
  ⟨(speaker_owned _ (by simp)).1, rfl⟩

end YiHack.Audio
