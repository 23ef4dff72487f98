/-
  File:      YiHack/Record/EventSnapshot.lean
  Subject:   `motion_metadata_events.c`: the motion transitions in the mapping.

  What the writer stores, word by word as the camera's 32-bit stores have it, and the reader's
  attempts. `motion_history_start` sets the sequence from what it finds, `motion_history_observe`
  increments it; both stay within what `update_ok` covers (`events_publish`).
-/
import YiHack.Record.History
import YiHack.Record.SharedHistory

namespace YiHack.Record

open General

/-! ## 1. The words -/

/-- The words of `struct motion_history`. -/
inductive HistoryWord
  | first
  | count
  | baselineState
  | baselineIsSample
  | baselineMs (h : Half)
  | lastState
  | eventMs (i : Fin EVENT_CAPACITY) (h : Half)
  | eventState (i : Fin EVENT_CAPACITY)
  deriving DecidableEq

/-- In the order of their addresses. -/
def historyWords : List HistoryWord :=
  [.first, .count, .baselineState, .baselineIsSample, .baselineMs .lo, .baselineMs .hi, .lastState] ++
    (List.finRange EVENT_CAPACITY).flatMap fun i =>
      [.eventMs i .lo, .eventMs i .hi, .eventState i]

theorem mem_historyWords (k : HistoryWord) : k ∈ historyWords := by
  unfold historyWords
  cases k with
  | baselineMs h => cases h <;> simp
  | eventMs i h =>
    refine List.mem_append_right _ (List.mem_flatMap.mpr ⟨i, List.mem_finRange i, ?_⟩)
    cases h <;> simp
  | eventState i =>
    exact List.mem_append_right _ (List.mem_flatMap.mpr ⟨i, List.mem_finRange i, by simp⟩)
  | _ => simp

def HISTORY_MAGIC : Word := 0x59494d31#32

/-- The mapping of the history, and the tests on a copy. -/
def historyLayout : Layout HistoryWord where
  magic := HISTORY_MAGIC
  version := 1#32
  words := historyWords
  all := mem_historyWords
  accepts copy := decide ((copy .first).toNat < EVENT_CAPACITY) &&
    decide ((copy .count).toNat ≤ EVENT_CAPACITY)

/-! ## 2. The writer -/

/-- The slot a 32-bit index names. -/
def slot (w : Word) : Fin EVENT_CAPACITY :=
  ⟨w.toNat % EVENT_CAPACITY, Nat.mod_lt _ (by decide)⟩

/-- The stores of `motion_history_add` where the ring is full: its oldest event becomes the
    baseline. -/
def dropOldest (h : HistoryWord → Word) : List (HistoryWord × Word) :=
  let oldest := slot (h .first)
  [(.baselineMs .lo, h (.eventMs oldest .lo)), (.baselineMs .hi, h (.eventMs oldest .hi)),
    (.baselineState, h (.eventState oldest)), (.baselineIsSample, 0#32),
    (.first, (h .first + 1#32) % BitVec.ofNat 32 EVENT_CAPACITY), (.count, h .count - 1#32)]

/-- `motion_history_add`; the writer reads back what it stored itself. -/
def addStores (h : HistoryWord → Word) (state : Word) (unixMs : BitVec 64) :
    List (HistoryWord × Word) :=
  if state = h .lastState then []
  else
    let full := (h .count).toNat = EVENT_CAPACITY
    let first := if full then (h .first + 1#32) % BitVec.ofNat 32 EVENT_CAPACITY else h .first
    let count := if full then h .count - 1#32 else h .count
    let index := slot ((first + count) % BitVec.ofNat 32 EVENT_CAPACITY)
    (if full then dropOldest h else []) ++ [(.count, count + 1#32)] ++
      put64 (.eventMs index) unixMs ++ [(.lastState, state), (.eventState index, state)]

/-- How opening and mapping the file ends. -/
inductive Mapping
  | failed
  | unmapped
  | mapped

/-- The stores of `motion_history_start` to the history. -/
def startStores (e : StartEnv) : List (HistoryWord × Word) :=
  historyWords.map (fun k => (k, 0#32)) ++ put64 .baselineMs (BitVec.ofInt 64 e.now) ++
    [(.baselineState, BitVec.ofInt 32 (-1)), (.baselineIsSample, 1#32)] ++
    (if baselineStateOf e = -1 then []
      else [(.baselineState, BitVec.ofInt 32 (baselineStateOf e))]) ++
    [(.lastState, BitVec.ofInt 32 (baselineStateOf e))]

/-- The mapping of the events; the writer's static says whether it is mapped. -/
abbrev SharedEvents := Shared HistoryWord Bool

/-- `motion_history_start`. -/
def historyStart (m : Mapping) (e : StartEnv) : Code SharedEvents Unit :=
  match m with
  | .failed => Code.ret ()
  | .unmapped => Code.store (Shared.setOwn fun _ => false)
  | .mapped => do
    Code.store (Shared.setOwn fun _ => true)
    let sequence ← Code.load (·.sequence)
    Code.store fun s => s.openUpdate (roundUp sequence + 1#32)
    Code.stores (Shared.setMagic HISTORY_MAGIC :: Shared.setVersion 1#32 ::
      (startStores e).map Shared.put)
    Code.store fun s => s.publish (roundUp sequence + 2#32)

/-- `motion_history_observe`. -/
def historyObserve (state : Word) (unixMs : BitVec 64) : Code SharedEvents Unit := do
  let found ← Code.load fun s => (s.own, s.history)
  if found.1 = false ∨ state = found.2 .lastState then Code.ret ()
  else do
    Code.store fun s => s.openUpdate (s.sequence + 1#32)
    Code.stores ((addStores found.2 state unixMs).map Shared.put)
    Code.store fun s => s.publish (s.sequence + 1#32)

inductive HistoryCall
  | start (m : Mapping) (e : StartEnv)
  | observe (state : Word) (unixMs : BitVec 64)
  | read (found : Bool)

/-- `ipc2file`'s writer in the slot `none`, recording threads in the others. -/
def historySystem : System (Option Nat) HistoryCall SharedEvents where
  program
    | none, .start m e => some (historyStart m e)
    | none, .observe state unixMs => some (historyObserve state unixMs)
    | some _, .read found => some (snapshotOf historyLayout found)
    | _, _ => none
  bury
    | none, s => { s with own := false }
    | some _, s => s

/-! ## 3. The writer keeps to the protocol -/

variable {base n : Nat} {s : SharedEvents}

/-- Between two calls the sequence is even, as long as the process lives. -/
def AtRest (base : Nat) (s : SharedEvents) : Prop :=
  Counted base s ∧ (s.own = true → s.count % 2 = 0)

theorem historyStart_ok (m : Mapping) (e : StartEnv) (h : Writing base n s)
    (hrest : s.own = true → n % 2 = 0) :
    WriterOk base (fun _ => AtRest base) (historyStart m e) s := by
  unfold historyStart
  have hst : Code.Stable (WriterRely base) (Writing (κ := HistoryWord) (ς := Bool) base n) :=
    stable_writing
  cases m with
  | failed =>
    exact Code.ok_ret (hst.and (stable_own (F := fun own => own = true → n % 2 = 0))) ⟨h, hrest⟩
      fun s h => ⟨h.1.inv, h.1.count ▸ h.2⟩
  | unmapped =>
    refine Code.ok_rmw hst h fun s h _ => ⟨setOwn_guarantees _, fun s' hr => ?_⟩
    have hdead := (hst.and (stable_own (F := fun own => own = false))).star hr
      ⟨⟨(setOwn_guarantees _).inv h.inv, h.count⟩, rfl⟩
    exact ⟨hdead.1.inv, fun ht => absurd (hdead.2.symm.trans ht) nofun⟩
  | mapped =>
    refine Code.store_then hst h fun s h _ => ⟨setOwn_guarantees _, ?_⟩
    refine Code.load_then (.refl base) hst ⟨(setOwn_guarantees _).inv h.inv, h.count⟩ fun s h => ?_
    exact (update_from_ok (inner_reset _ _ _) (h.count ▸ h.inv.word) h).mono
      fun _ s h => ⟨h.1, fun _ => h.2⟩

theorem historyObserve_ok (state : Word) (unixMs : BitVec 64) (h : Writing base n s)
    (hrest : s.own = true → n % 2 = 0) :
    WriterOk base (fun _ => AtRest base) (historyObserve state unixMs) s := by
  have hst : Code.Stable (WriterRely base) fun s : SharedEvents =>
      Writing base n s ∧ (s.own = true → n % 2 = 0) :=
    stable_writing.and (stable_own (F := fun own => own = true → n % 2 = 0))
  refine Code.load_then (.refl base) hst ⟨h, hrest⟩ fun s h => ?_
  split
  · exact Code.ok_ret hst h fun s h => ⟨h.1.inv, h.1.count ▸ h.2⟩
  · next hfound =>
    have hn := h.2 (by simpa using (not_or.mp hfound).1)
    exact (fetchAdd_ok hn (inner_puts _) h.1).mono fun _ s h => ⟨h.1, fun _ => h.2⟩

/-- **The history's writer and readers are as the protocol asks.** -/
theorem events_publish : Publishes historyLayout id historySystem where
  reader i x c hc := by
    cases x with
    | read found => exact ⟨found, (Option.some.inj hc).symm⟩
    | start => exact absurd hc nofun
    | observe => exact absurd hc nofun
  writer x c hc base n s h hrest := by
    cases x with
    | start m e => exact Option.some.inj hc ▸ historyStart_ok m e h hrest
    | observe state unixMs => exact Option.some.inj hc ▸ historyObserve_ok state unixMs h hrest
    | read => exact absurd hc nofun
  buryReader _ _ := rfl
  buryWriter _ := ⟨false, rfl, rfl⟩

end YiHack.Record
