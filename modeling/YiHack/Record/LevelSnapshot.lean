/-
  File:      YiHack/Record/LevelSnapshot.lean
  Subject:   `motion_metadata_levels.c`: the motion levels in the mapping.

  The second of the two histories. `motion_levels_start` keeps what it finds unless it is corrupt,
  was left half written or lies in the future; `motion_levels_tick` resets after a clock step, and
  appends a sample where there is a usable one.

  * **`metadata_snapshots_sound`** -- snapshots of both histories, over any run;
  * `publications_do_not_bound` -- counting publications is not enough: starts that are killed
    move the sequence without publishing.
-/
import YiHack.Record.BuildJson
import YiHack.Record.EventSnapshot

namespace YiHack.Record

open General

/-! ## 1. The words -/

/-- The words of `struct motion_levels`. -/
inductive LevelWord
  | first
  | count
  | startedMs (h : Half)
  | discardedMs (h : Half)
  | observedUntilMs (h : Half)
  | sampleMs (i : Fin LEVEL_CAPACITY) (h : Half)
  | binRatio (i : Fin LEVEL_CAPACITY) (h : Half)
  | scene (i : Fin LEVEL_CAPACITY)
  | move (i : Fin LEVEL_CAPACITY)
  | movingLevel (i : Fin LEVEL_CAPACITY)
  | movingTh (i : Fin LEVEL_CAPACITY)
  deriving DecidableEq

/-- The words of a sample. -/
def sampleWords (i : Fin LEVEL_CAPACITY) : List LevelWord :=
  [.sampleMs i .lo, .sampleMs i .hi, .binRatio i .lo, .binRatio i .hi, .scene i, .move i,
    .movingLevel i, .movingTh i]

/-- In the order of their addresses. -/
def levelWords : List LevelWord :=
  [.first, .count, .startedMs .lo, .startedMs .hi, .discardedMs .lo, .discardedMs .hi,
    .observedUntilMs .lo, .observedUntilMs .hi] ++
    (List.finRange LEVEL_CAPACITY).flatMap sampleWords

theorem mem_levelWords (k : LevelWord) : k ∈ levelWords := by
  have hsample : ∀ i, ∀ k ∈ sampleWords i, k ∈ levelWords := fun i k hk =>
    List.mem_append_right _ (List.mem_flatMap.mpr ⟨i, List.mem_finRange i, hk⟩)
  cases k with
  | first => exact List.mem_append_left _ (by simp)
  | count => exact List.mem_append_left _ (by simp)
  | startedMs h => cases h <;> exact List.mem_append_left _ (by simp)
  | discardedMs h => cases h <;> exact List.mem_append_left _ (by simp)
  | observedUntilMs h => cases h <;> exact List.mem_append_left _ (by simp)
  | sampleMs i h => cases h <;> exact hsample i _ (by simp [sampleWords])
  | binRatio i h => cases h <;> exact hsample i _ (by simp [sampleWords])
  | scene i => exact hsample i _ (by simp [sampleWords])
  | move i => exact hsample i _ (by simp [sampleWords])
  | movingLevel i => exact hsample i _ (by simp [sampleWords])
  | movingTh i => exact hsample i _ (by simp [sampleWords])

def LEVEL_MAGIC : Word := 0x59494c31#32

/-- `first` and `count` are within the ring. -/
def levelsFit (h : LevelWord → Word) : Bool :=
  decide ((h .first).toNat < LEVEL_CAPACITY) && decide ((h .count).toNat ≤ LEVEL_CAPACITY)

/-- The mapping of the levels, and the tests on a copy. -/
def levelLayout : Layout LevelWord where
  magic := LEVEL_MAGIC
  version := 2#32
  words := levelWords
  all := mem_levelWords
  accepts := levelsFit

/-! ## 2. The writer -/

/-- `struct motion_level_sample`; `binRatio` are the bits of the double. -/
structure LevelSample where
  unixMs : Int
  binRatio : BitVec 64
  scene : Word
  move : Word
  movingLevel : Word
  movingTh : Word

/-- `isfinite(r) && r >= 0 && r <= 100`, on the bits: those of the doubles from 0 to 100 are in
    order, and minus zero is not below 0. -/
def ratioUsable (bits : BitVec 64) : Bool :=
  bits == 0x8000000000000000#64 || decide (bits ≤ 0x4059000000000000#64)

/-- The statics of the writer's process. -/
structure LevelStatics where
  mapped : Bool
  lastWall : Int
  lastMono : Int

abbrev SharedLevels := Shared LevelWord LevelStatics

/-- `reset_levels`. -/
def resetLevels (unixMs : Int) : List (LevelWord × Word) :=
  levelWords.map (fun k => (k, 0#32)) ++ put64 .startedMs (BitVec.ofInt 64 unixMs) ++
    put64 .discardedMs (BitVec.ofInt 64 (-1)) ++ put64 .observedUntilMs (BitVec.ofInt 64 unixMs)

/-- The two words of `observed_until_ms`. -/
def observedUntil (h : LevelWord → Word) : Int :=
  (h (.observedUntilMs .hi) ++ h (.observedUntilMs .lo)).toInt

/-- `motion_levels_start` keeps what it finds. -/
def retains (now : Int) (s : SharedLevels) : Bool :=
  !odd s.sequence && s.magic == LEVEL_MAGIC && s.version == 2#32 && levelsFit s.history &&
    decide (observedUntil s.history ≤ now)

/-- `motion_levels_start`; what it reads of the mapping is what it left there itself. -/
def levelsStart (m : Mapping) (now : Int) : Code SharedLevels Unit :=
  match m with
  | .failed => Code.ret ()
  | .unmapped => Code.store (Shared.setOwn fun own => { own with mapped := false })
  | .mapped => do
    Code.store (Shared.setOwn fun own => { own with mapped := true })
    let found ← Code.load id
    Code.store fun s => s.openUpdate (roundUp found.sequence + 1#32)
    Code.stores (Shared.setOwn (fun own => { own with lastWall := 0, lastMono := 0 }) ::
      Shared.setMagic LEVEL_MAGIC :: Shared.setVersion 2#32 ::
      (if retains now found then [] else resetLevels now).map Shared.put)
    Code.store fun s => s.publish (roundUp found.sequence + 2#32)

/-- A clock step since the last tick. -/
def clockStepped (own : LevelStatics) (unixMs monotonicMs : Int) : Bool :=
  own.lastMono != 0 && (decide (unixMs < own.lastWall) ||
    decide (2000 < ((unixMs - own.lastWall) - (monotonicMs - own.lastMono)).natAbs))

/-- The slot a 32-bit index names. -/
def levelSlot (w : Word) : Fin LEVEL_CAPACITY :=
  ⟨w.toNat % LEVEL_CAPACITY, Nat.mod_lt _ (by decide)⟩

/-- The stores that append a sample to the ring as `h` has it. -/
def appendSample (h : LevelWord → Word) (x : LevelSample) : List (LevelWord × Word) :=
  let full := (h .count).toNat = LEVEL_CAPACITY
  let oldest := levelSlot (h .first)
  let first := if full then (h .first + 1#32) % BitVec.ofNat 32 LEVEL_CAPACITY else h .first
  let count := if full then h .count - 1#32 else h .count
  let index := levelSlot ((first + count) % BitVec.ofNat 32 LEVEL_CAPACITY)
  (if full then
    [(.discardedMs .lo, h (.sampleMs oldest .lo)), (.discardedMs .hi, h (.sampleMs oldest .hi)),
      (.first, first), (.count, count)]
  else []) ++ [(.count, count + 1#32)] ++ put64 (.sampleMs index) (BitVec.ofInt 64 x.unixMs) ++
    put64 (.binRatio index) x.binRatio ++
    [(.scene index, x.scene), (.move index, x.move), (.movingLevel index, x.movingLevel),
      (.movingTh index, x.movingTh)]

/-- The stores of `motion_levels_tick` to the history, from `h` and the statics. -/
def tickStores (own : LevelStatics) (h : LevelWord → Word) (active valid : Bool) (x : LevelSample)
    (monotonicMs : Int) : List (LevelWord × Word) :=
  let stepped := clockStepped own x.unixMs monotonicMs
  let h' := if stepped then fun _ => 0#32 else h
  (if stepped then resetLevels x.unixMs else []) ++
    put64 .observedUntilMs (BitVec.ofInt 64 x.unixMs) ++
    (if active && valid && ratioUsable x.binRatio && !x.movingLevel.msb then appendSample h' x
      else [])

/-- `motion_levels_tick`; `none` is no sample. -/
def levelsTick (active valid : Bool) (sample : Option LevelSample) (monotonicMs : Int) :
    Code SharedLevels Unit := do
  let found ← Code.load id
  match found.own.mapped, sample with
  | true, some x => do
    Code.store fun s => s.openUpdate (s.sequence + 1#32)
    Code.stores (Shared.setOwn (fun own =>
        { own with lastWall := x.unixMs, lastMono := monotonicMs }) ::
      (tickStores found.own found.history active valid x monotonicMs).map Shared.put)
    Code.store fun s => s.publish (s.sequence + 1#32)
  | _, _ => Code.ret ()

inductive LevelCall
  | start (m : Mapping) (now : Int)
  | tick (active valid : Bool) (sample : Option LevelSample) (monotonicMs : Int)
  | read (found : Bool)

/-- `motiond`'s writer in the slot `none`, recording threads in the others. -/
def levelSystem : System (Option Nat) LevelCall SharedLevels where
  program
    | none, .start m now => some (levelsStart m now)
    | none, .tick active valid sample ms => some (levelsTick active valid sample ms)
    | some _, .read found => some (snapshotOf levelLayout found)
    | _, _ => none
  bury
    | none, s => { s with own := { s.own with mapped := false } }
    | some _, s => s

/-! ## 3. The writer keeps to the protocol -/

variable {base n : Nat} {s : SharedLevels}

theorem levelsStart_ok (m : Mapping) (now : Int) (h : Writing base n s)
    (hrest : s.own.mapped = true → n % 2 = 0) :
    WriterOk base (fun _ s => Counted base s ∧ (s.own.mapped = true → s.count % 2 = 0))
      (levelsStart m now) s := by
  unfold levelsStart
  have hst : Code.Stable (WriterRely base) (Writing (κ := LevelWord) (ς := LevelStatics) base n) :=
    stable_writing
  cases m with
  | failed =>
    exact Code.ok_ret (hst.and (stable_own (F := fun own : LevelStatics => own.mapped = true → n % 2 = 0)))
      ⟨h, hrest⟩ fun s h => ⟨h.1.inv, h.1.count ▸ h.2⟩
  | unmapped =>
    refine Code.ok_rmw hst h fun s h _ => ⟨setOwn_guarantees _, fun s' hr => ?_⟩
    have hdead := (hst.and (stable_own (F := fun own : LevelStatics => own.mapped = false))).star hr
      ⟨⟨(setOwn_guarantees _).inv h.inv, h.count⟩, rfl⟩
    exact ⟨hdead.1.inv, fun ht => absurd (hdead.2.symm.trans ht) nofun⟩
  | mapped =>
    refine Code.store_then hst h fun s h _ => ⟨setOwn_guarantees _, ?_⟩
    refine Code.load_then (.refl base) hst ⟨(setOwn_guarantees _).inv h.inv, h.count⟩ fun s h => ?_
    exact (update_from_ok (List.forall_mem_cons.mpr ⟨inner_setOwn _, inner_reset _ _ _⟩)
      (h.count ▸ h.inv.word) h).mono fun _ s h => ⟨h.1, fun _ => h.2⟩

theorem levelsTick_ok (active valid : Bool) (sample : Option LevelSample) (monotonicMs : Int)
    (h : Writing base n s) (hrest : s.own.mapped = true → n % 2 = 0) :
    WriterOk base (fun _ s => Counted base s ∧ (s.own.mapped = true → s.count % 2 = 0))
      (levelsTick active valid sample monotonicMs) s := by
  have hst : Code.Stable (WriterRely base) fun s : SharedLevels =>
      Writing base n s ∧ (s.own.mapped = true → n % 2 = 0) :=
    stable_writing.and (stable_own (F := fun own : LevelStatics => own.mapped = true → n % 2 = 0))
  refine Code.load_then (.refl base) hst ⟨h, hrest⟩ fun s h => ?_
  have hidle : WriterOk base
      (fun _ s => Counted base s ∧ (s.own.mapped = true → s.count % 2 = 0)) (Code.ret ()) s :=
    Code.ok_ret hst h fun s h => ⟨h.1.inv, h.1.count ▸ h.2⟩
  simp only [id]
  cases hmapped : s.own.mapped with
  | false => exact hidle
  | true =>
    cases sample with
    | none => exact hidle
    | some x =>
      exact (fetchAdd_ok (h.2 hmapped) (List.forall_mem_cons.mpr ⟨inner_setOwn _, inner_puts _⟩)
        h.1).mono fun _ s h => ⟨h.1, fun _ => h.2⟩

/-- **The levels' writer and readers are as the protocol asks.** -/
theorem levels_publish : Publishes levelLayout LevelStatics.mapped levelSystem where
  reader i x c hc := by
    cases x with
    | read found => exact ⟨found, (Option.some.inj hc).symm⟩
    | start => exact absurd hc nofun
    | tick => exact absurd hc nofun
  writer x c hc base n s h hrest := by
    cases x with
    | start m now => exact Option.some.inj hc ▸ levelsStart_ok m now h hrest
    | tick active valid sample ms =>
      exact Option.some.inj hc ▸ levelsTick_ok active valid sample ms h hrest
    | read => exact absurd hc nofun
  buryReader _ _ := rfl
  buryWriter s := ⟨{ s.own with mapped := false }, rfl, rfl⟩

/-! ## 4. Both histories -/

/-- **Snapshots of both histories are sound.** From whatever the mapping holds at first, with one
    writer at a time that may be killed at any store and started again, and any readers: a history
    returned is, word by word, one that was published between the two looks at the sequence, if
    fewer than 2^31 updates begin in between. -/
theorem metadata_snapshots_sound :
    (∀ s : SharedEvents, Untouched s → s.own = false →
      ∀ (es : List (Event (Option Nat) HistoryCall)) (x : Snapshot HistoryWord),
        x ∈ (run historySystem.step (Machine.idle s) es).memory.snapshots →
        x.begun < 2 ^ 31 → x.copy ∈ x.between) ∧
    (∀ s : SharedLevels, Untouched s → s.own.mapped = false →
      ∀ (es : List (Event (Option Nat) LevelCall)) (x : Snapshot LevelWord),
        x ∈ (run levelSystem.step (Machine.idle s) es).memory.snapshots →
        x.begun < 2 ^ 31 → x.copy ∈ x.between) :=
  ⟨fun _ hs hdead es x => snapshots_sound events_publish hs hdead es x,
    fun _ hs hdead es x => snapshots_sound levels_publish hs hdead es x⟩

/-! ## 5. Starts that are killed -/

/-- The mapping as `ftruncate` makes it. -/
def emptyEvents : SharedEvents where
  magic := 0
  version := 0
  sequence := 0
  history _ := 0
  own := false
  count := 0
  begun := 0
  log := [fun _ => 0]
  snapshots := []

def startAt (now : Int) : StartEnv := ⟨"y623", none, false, now⟩

/-- A start that is killed behind its first store to the mapping. -/
def killedStart : List (Event (Option Nat) HistoryCall) :=
  .call none (.start .mapped (startAt 0)) :: List.replicate 3 (.step none) ++ [.kill none]

/-- What it leaves. -/
def afterKilled (s : SharedEvents) : SharedEvents :=
  { s.openUpdate (roundUp s.sequence + 1#32) with own := false }

theorem run_killedStart (m : Machine (Option Nat) SharedEvents) (h : m.code none = none) :
    run historySystem.step m killedStart = ⟨afterKilled m.memory, m.code⟩ :=
  historySystem.run_killed (x := .start .mapped (startAt 0)) (c := historyStart .mapped (startAt 0))
    m none h rfl 3

/-- `n` of them, after one that left the sequence odd. -/
def skipped (n : Nat) (s : SharedEvents) : SharedEvents :=
  { s with
    sequence := BitVec.ofNat 32 (s.count + 2 * n)
    count := s.count + 2 * n
    begun := s.begun + n }

theorem skipped_succ (n : Nat) (s : SharedEvents) :
    skipped n (skipped 1 s) = skipped (n + 1) s := by
  simp only [skipped, Nat.mul_succ, Nat.mul_zero, Nat.zero_add, Nat.add_assoc, Nat.add_comm,
    Nat.add_left_comm]

theorem afterKilled_eq {s : SharedEvents} (hdead : s.own = false)
    (hword : s.sequence = BitVec.ofNat 32 s.count) (hodd : s.count % 2 = 1) :
    afterKilled s = skipped 1 s := by
  simp only [afterKilled, Shared.openUpdate, hword, roundUp_ofNat, hodd, word_succ, skipped]
  rw [← hdead]

theorem run_killedStarts (n : Nat) (m : Machine (Option Nat) SharedEvents) (h : m.code none = none)
    (hdead : m.memory.own = false) (hword : m.memory.sequence = BitVec.ofNat 32 m.memory.count)
    (hodd : m.memory.count % 2 = 1) :
    run historySystem.step m (List.replicate n killedStart).flatten =
      ⟨skipped n m.memory, m.code⟩ := by
  induction n generalizing m with
  | zero =>
    simp only [List.replicate_zero, List.flatten_nil, run_nil, skipped, Nat.mul_zero, Nat.add_zero]
    rw [← hword]
  | succ n ih =>
    rw [List.replicate_succ, List.flatten_cons, run_append, run_killedStart m h,
      afterKilled_eq hdead hword hodd, ih ⟨skipped 1 m.memory, m.code⟩ h hdead rfl, skipped_succ]
    show (m.memory.count + 2 * 1) % 2 = 1
    omega

/-- A start alone. -/
def started (e : StartEnv) (s : SharedEvents) : SharedEvents :=
  { s with
    magic := HISTORY_MAGIC
    version := 1#32
    sequence := roundUp s.sequence + 2#32
    history := written s.history (startStores e)
    own := true
    count := s.count + 1 + s.count % 2 + 1
    begun := s.begun + 1
    log := written s.history (startStores e) :: s.log }

theorem started_log (e : StartEnv) (s : SharedEvents) :
    (started e s).log = (started e s).history :: s.log := by
  simp only [started]

theorem started_history (e : StartEnv) (s : SharedEvents) :
    written s.history (startStores e) = (started e s).history := by
  simp only [started]

theorem historyStart_alone (e : StartEnv) (s : SharedEvents) :
    ((historyStart .mapped e).alone s).1 = started e s := by
  unfold historyStart started
  generalize startStores e = xs
  simp only [Code.alone_bind, Code.alone_stores, List.foldl_cons, foldl_put, Code.alone_store_last]
  rfl

theorem startStores_baselineMs (now : Int) (h : HistoryWord → Word) (half : Half) :
    written h (startStores (startAt now)) (.baselineMs half) =
      halfOf (BitVec.ofInt 64 now) half := by
  have hstate : baselineStateOf (startAt now) = -1 := rfl
  simp only [startStores, written_append, put64, hstate, if_true]
  cases half <;> simp [written, startAt]

theorem startStores_accepted (now : Int) (h : HistoryWord → Word) :
    written h (startStores (startAt now)) .first = 0#32 ∧
      written h (startStores (startAt now)) .count = 0#32 := by
  have hstate : baselineStateOf (startAt now) = -1 := rfl
  have hzero : ∀ k, written h (historyWords.map fun k => (k, 0#32)) k = 0#32 := fun k =>
    written_zeros (mem_historyWords k)
  simp only [startStores, written_append, put64, hstate, if_true]
  generalize written h (historyWords.map fun k => (k, 0#32)) = h' at hzero
  constructor <;> simp [written, hzero]

/-- What a reader that stops within `baseline_ms` has copied, and what it has not. -/
def seenWords : List HistoryWord :=
  [.first, .count, .baselineState, .baselineIsSample, .baselineMs .lo]

def unseenWords : List HistoryWord :=
  [.baselineMs .hi, .lastState] ++ (List.finRange EVENT_CAPACITY).flatMap fun i =>
    [.eventMs i .lo, .eventMs i .hi, .eventState i]

theorem checkCopy_alone {L : Layout HistoryWord} (retry : Code SharedEvents Unit)
    {before : Word × Nat × Nat} {copy : HistoryWord → Word} {s : SharedEvents}
    (hseq : before.1 = s.sequence) (hmagic : s.magic = L.magic) (hversion : s.version = L.version)
    (hcopy : L.accepts copy = true) :
    ((checkCopy L retry before copy).alone s).1.snapshots =
      ⟨copy, s.log.take (s.log.length - before.2.2 + 1), s.begun - before.2.1,
        s.log.length - before.2.2⟩ :: s.snapshots := by
  simp only [checkCopy, Code.alone_load, hseq, ne_eq, not_true_eq_false, if_false, hmagic, hversion,
    hcopy, Bool.true_eq_false, or_self, Code.alone_store_last]

/-- Where the reader stopped: what is left of its attempt. -/
def stopped (s : SharedEvents) : Code SharedEvents Unit :=
  gather (·.history) unseenWords (copied s.history seenWords fun _ => 0) >>=
    checkCopy historyLayout (readSnapshot historyLayout 3) (s.sequence, s.begun, s.log.length)

/-- A reader begins, and stops within `baseline_ms`. -/
theorem reader_stops (s : SharedEvents) (hs : odd s.sequence = false) :
    ∃ code, run historySystem.step (Machine.idle s) (.call (some 0) (.read true) ::
        List.replicate 1 (.step (some 0)) ++ List.replicate seenWords.length (.step (some 0))) =
          ⟨s, code⟩ ∧ code none = none ∧ code (some 0) = (stopped s).rest := by
  have hafter : ((snapshotOf historyLayout true).after 1 s) =
      (s, gather (·.history) (seenWords ++ unseenWords) (fun _ => 0) >>= checkCopy historyLayout
        (readSnapshot historyLayout 3) (s.sequence, s.begun, s.log.length)) := by
    show (s, if odd s.sequence = true then _ else _) = _
    rw [hs]
    rfl
  have hcall : historySystem.step (Machine.idle s) (.call (some 0) (.read true)) =
      (Machine.idle s).put (some 0) (snapshotOf historyLayout true).rest :=
    historySystem.step_call rfl rfl
  refine ⟨Function.update (fun _ => none) (some 0) (stopped s).rest, ?_, ?_, ?_⟩
  · rw [List.cons_append, run_cons, hcall, run_append,
      historySystem.run_after _ (some 0) 1 (Machine.put_code ..)]
    simp only [Machine.put, Machine.idle, hafter, Function.update_idem]
    rw [run_gather historySystem _ (some 0) (·.history) seenWords unseenWords (fun _ => 0)
      (checkCopy historyLayout (readSnapshot historyLayout 3) (s.sequence, s.begun, s.log.length))
      (by simp only [Function.update_self])]
    simp only [Function.update_idem, stopped]
  · generalize (stopped s).rest = r
    rfl
  · generalize (stopped s).rest = r
    rfl

/-- The copy that comes out, some of it from `s` and the rest from `s'`. -/
def tornFrom (s s' : SharedEvents) : HistoryWord → Word :=
  copied s'.history unseenWords (copied s.history seenWords fun _ => 0)

/-- The reader goes on where the sequence is the one it began with. -/
theorem stopped_alone {s s' : SharedEvents} (hseq : s.sequence = s'.sequence)
    (hmagic : s'.magic = HISTORY_MAGIC) (hversion : s'.version = 1#32)
    (hcopy : historyLayout.accepts (tornFrom s s') = true) :
    ((stopped s).alone s').1.snapshots =
      ⟨tornFrom s s', s'.log.take (s'.log.length - s.log.length + 1), s'.begun - s.begun,
        s'.log.length - s.log.length⟩ :: s'.snapshots := by
  have halone : (stopped s).alone s' = (checkCopy historyLayout (readSnapshot historyLayout 3)
      (s.sequence, s.begun, s.log.length) (tornFrom s s')).alone s' := by
    simp only [stopped, Code.alone_bind, gather_alone, tornFrom]
  rw [halone]
  exact checkCopy_alone _ hseq hmagic hversion hcopy

theorem seen_notMem : HistoryWord.first ∉ unseenWords ∧ HistoryWord.count ∉ unseenWords ∧
    HistoryWord.baselineMs .lo ∉ unseenWords := by
  simp [unseenWords]

theorem tornFrom_seen (s s' : SharedEvents) {k : HistoryWord} (hk : k ∉ unseenWords)
    (hk' : k ∈ seenWords) : tornFrom s s' k = s.history k :=
  (copied_of_notMem hk).trans (copied_of_mem hk')

/-- **A torn copy**: `n + 2` is 2^31, the updates begun while the reader stands still. -/
theorem torn_copy (n : Nat) (hn : n + 2 = 2 ^ 31) :
    ∃ (es : List (Event (Option Nat) HistoryCall)) (x : Snapshot HistoryWord),
      x ∈ (run historySystem.step (Machine.idle emptyEvents) es).memory.snapshots ∧
      x.publications = 1 ∧ x.copy (.baselineMs .lo) = 1#32 ∧ x.copy (.baselineMs .hi) = 5#32 ∧
      ∀ h ∈ x.between, h (.baselineMs .lo) ≠ 1#32 ∨ h (.baselineMs .hi) ≠ 5#32 := by
  -- The first history is published, and a reader copies half of its baseline.
  obtain ⟨n₁, h₁⟩ := historySystem.run_call (x := .start .mapped (startAt 1))
    (Machine.idle emptyEvents) none rfl rfl
  rw [historyStart_alone] at h₁
  change _ = Machine.idle (started (startAt 1) emptyEvents) at h₁
  have hseq₁ : (started (startAt 1) emptyEvents).sequence = 2#32 := by decide
  have hlog₁ := started_log (startAt 1) emptyEvents
  have hms₁ := startStores_baselineMs 1 emptyEvents.history
  have hfit₁ := startStores_accepted 1 emptyEvents.history
  have hcount₁ : (started (startAt 1) emptyEvents).count = 2 := rfl
  rw [started_history] at hms₁ hfit₁
  generalize started (startAt 1) emptyEvents = s₁ at h₁ hseq₁ hlog₁ hms₁ hfit₁ hcount₁
  obtain ⟨code, h₂, hcode, hstopped⟩ := reader_stops s₁ (by rw [hseq₁]; decide)
  -- The writer is killed, and so are all the starts after it but one.
  let dead : SharedEvents := afterKilled { s₁ with own := false }
  have h₃ : run historySystem.step ⟨s₁, code⟩ (.kill none :: killedStart) = ⟨dead, code⟩ := by
    rw [run_cons]
    have hkill : historySystem.step ⟨s₁, code⟩ (.kill none) = ⟨{ s₁ with own := false }, code⟩ := by
      simp only [System.step, historySystem]
      rw [← hcode, Function.update_eq_self]
    rw [hkill, run_killedStart _ hcode]
  have hdeadCount : dead.count = 3 := by
    show s₁.count + 1 + s₁.count % 2 = 3
    rw [hcount₁]
  have hdeadSeq : dead.sequence = BitVec.ofNat 32 dead.count := by
    rw [hdeadCount]
    show roundUp s₁.sequence + 1#32 = 3#32
    rw [hseq₁]
    decide
  have h₄ := run_killedStarts n ⟨dead, code⟩ hcode rfl hdeadSeq (by rw [hdeadCount])
  -- The last one publishes; the sequence has come round.
  obtain ⟨n₅, h₅⟩ := historySystem.run_call (x := .start .mapped (startAt (5 * 2 ^ 32 + 7)))
    ⟨skipped n dead, code⟩ none hcode rfl
  rw [historyStart_alone] at h₅
  have hms₅ := startStores_baselineMs (5 * 2 ^ 32 + 7) (skipped n dead).history
  have hlog₅ := started_log (startAt (5 * 2 ^ 32 + 7)) (skipped n dead)
  have hseq₅ : (started (startAt (5 * 2 ^ 32 + 7)) (skipped n dead)).sequence = s₁.sequence := by
    show roundUp (BitVec.ofNat 32 (dead.count + 2 * n)) + 2#32 = s₁.sequence
    have hround : dead.count + 2 * n + (dead.count + 2 * n) % 2 = 2 ^ 32 := by omega
    rw [roundUp_ofNat, hround, hseq₁]
    decide
  have hmarks₅ : (started (startAt (5 * 2 ^ 32 + 7)) (skipped n dead)).magic = HISTORY_MAGIC ∧
    (started (startAt (5 * 2 ^ 32 + 7)) (skipped n dead)).version = 1#32 := ⟨rfl, rfl⟩
  rw [started_history] at hms₅
  generalize started (startAt (5 * 2 ^ 32 + 7)) (skipped n dead) = s₅ at h₅ hms₅ hlog₅ hseq₅ hmarks₅
  -- The reader goes on.
  obtain ⟨n₆, h₆⟩ := historySystem.run_steps ⟨s₅, code⟩ (some 0) hstopped
  have haccepts : historyLayout.accepts (tornFrom s₁ s₅) = true := by
    have hfirst := tornFrom_seen s₁ s₅ seen_notMem.1 (by decide)
    have hcount := tornFrom_seen s₁ s₅ seen_notMem.2.1 (by decide)
    simp [historyLayout, hfirst, hcount, hfit₁, EVENT_CAPACITY]
  have hsnap := stopped_alone hseq₅.symm hmarks₅.1 hmarks₅.2 haccepts
  have hlow := tornFrom_seen s₁ s₅ seen_notMem.2.2 (by decide)
  have hhigh : tornFrom s₁ s₅ (.baselineMs .hi) = s₅.history (.baselineMs .hi) :=
    copied_of_mem (by simp [unseenWords])
  have hlength : s₅.log.length - s₁.log.length = 1 := by
    rw [hlog₅]
    show (s₁.log.length + 1) - s₁.log.length = 1
    omega
  refine ⟨(.call none (.start .mapped (startAt 1)) :: List.replicate n₁ (.step none)) ++
    ((.call (some 0) (.read true) :: List.replicate 1 (.step (some 0)) ++
      List.replicate seenWords.length (.step (some 0))) ++
    ((.kill none :: killedStart) ++ ((List.replicate n killedStart).flatten ++
    ((.call none (.start .mapped (startAt (5 * 2 ^ 32 + 7))) :: List.replicate n₅ (.step none)) ++
      List.replicate n₆ (.step (some 0)))))), ⟨tornFrom s₁ s₅,
        s₅.log.take (s₅.log.length - s₁.log.length + 1), s₅.begun - s₁.begun,
        s₅.log.length - s₁.log.length⟩, ?_, hlength, ?_, ?_, ?_⟩
  · rw [run_append, h₁, run_append, h₂, run_append, h₃, run_append, h₄, run_append, h₅, h₆]
    simp only [hsnap, List.mem_cons, true_or]
  · simp only [hlow, hms₁]
    decide
  · simp only [hhigh, hms₅]
    decide
  · rw [hlength, hlog₅]
    show ∀ h ∈ (s₅.history :: s₁.log).take 2, _
    rw [hlog₁]
    intro h hh
    rcases List.mem_cons.mp hh with rfl | hh
    · left
      rw [hms₅]
      decide
    · have hh : h = s₁.history := List.mem_singleton.mp hh
      right
      rw [hh, hms₁]
      decide

/-- **Publications do not bound the counter.** -/
theorem publications_do_not_bound :
    ¬ ((∀ s : SharedEvents, Untouched s → s.own = false →
      ∀ (es : List (Event (Option Nat) HistoryCall)) (x : Snapshot HistoryWord),
        x ∈ (run historySystem.step (Machine.idle s) es).memory.snapshots →
        x.publications < 2 ^ 31 → x.copy ∈ x.between) ∧
    (∀ s : SharedLevels, Untouched s → s.own.mapped = false →
      ∀ (es : List (Event (Option Nat) LevelCall)) (x : Snapshot LevelWord),
        x ∈ (run levelSystem.step (Machine.idle s) es).memory.snapshots →
        x.publications < 2 ^ 31 → x.copy ∈ x.between)) := by
  intro h
  obtain ⟨es, x, hx, hpub, hlow, hhigh, hbetween⟩ := torn_copy (2 ^ 31 - 2) (by decide)
  have hmem := h.1 emptyEvents ⟨rfl, rfl, rfl, rfl⟩ rfl es x hx (by rw [hpub]; decide)
  rcases hbetween _ hmem with hne | hne
  · exact hne hlow
  · exact hne hhigh

/-- One start and one read: the copy is the history that was published. -/
theorem metadata_snapshots_once :
    ∃ (es : List (Event (Option Nat) HistoryCall)) (x : Snapshot HistoryWord),
      x ∈ (run historySystem.step (Machine.idle emptyEvents) es).memory.snapshots ∧
        x.copy ∈ x.between := by
  obtain ⟨n₁, h₁⟩ := historySystem.run_call (x := .start .mapped (startAt 1))
    (Machine.idle emptyEvents) none rfl rfl
  rw [historyStart_alone] at h₁
  change _ = Machine.idle (started (startAt 1) emptyEvents) at h₁
  have hodd : odd (started (startAt 1) emptyEvents).sequence = false := by decide
  have hmarks : (started (startAt 1) emptyEvents).magic = HISTORY_MAGIC ∧
    (started (startAt 1) emptyEvents).version = 1#32 := ⟨rfl, rfl⟩
  have hfit := startStores_accepted 1 emptyEvents.history
  rw [started_history] at hfit
  generalize started (startAt 1) emptyEvents = s₁ at h₁ hodd hmarks hfit
  obtain ⟨n₂, h₂⟩ := historySystem.run_call (x := .read true) (Machine.idle s₁) (some 0) rfl rfl
  have hcopy : copied s₁.history historyWords (fun _ => 0) = s₁.history :=
    funext fun k => copied_of_mem (mem_historyWords k)
  have hsnap : ((snapshotOf historyLayout true).alone s₁).1.snapshots =
      ⟨s₁.history, s₁.log.take (s₁.log.length - s₁.log.length + 1), s₁.begun - s₁.begun,
        s₁.log.length - s₁.log.length⟩ :: s₁.snapshots := by
    have haccepts : historyLayout.accepts s₁.history = true := by
      simp [historyLayout, hfit, EVENT_CAPACITY]
    have hcopied : (snapshotOf historyLayout true).alone s₁ = (checkCopy historyLayout
        (readSnapshot historyLayout 3) (s₁.sequence, s₁.begun, s₁.log.length) s₁.history).alone
          s₁ := by
      show (if odd s₁.sequence = true then _ else gather _ historyWords _ >>= _ : Code _ _).alone s₁ = _
      rw [hodd, if_neg (by decide), Code.alone_bind, gather_alone, hcopy]
    rw [hcopied]
    exact checkCopy_alone _ rfl hmarks.1 hmarks.2 haccepts
  have hmem : (⟨s₁.history, s₁.log.take (s₁.log.length - s₁.log.length + 1), s₁.begun - s₁.begun,
      s₁.log.length - s₁.log.length⟩ : Snapshot HistoryWord) ∈
        (run historySystem.step (Machine.idle emptyEvents)
          ((.call none (.start .mapped (startAt 1)) :: List.replicate n₁ (.step none)) ++
            .call (some 0) (.read true) :: List.replicate n₂ (.step (some 0)))).memory.snapshots := by
    rw [run_append, h₁, h₂]
    change _ ∈ ((snapshotOf historyLayout true).alone s₁).1.snapshots
    rw [hsnap]
    exact List.mem_cons_self
  refine ⟨_, _, hmem, metadata_snapshots_sound.1 emptyEvents ⟨rfl, rfl, rfl, rfl⟩ rfl _ _ hmem ?_⟩
  show s₁.begun - s₁.begun < 2 ^ 31
  omega

end YiHack.Record
