/-
  File:      YiHack/Rtsp/Pipeline.lean
  Subject:   `rRTSPServer.cpp`: from the vendor's ring to the readers of the two streams.

  The capture thread polls the ring, goes through the frames of the poll one by one and puts each
  into the queue of its stream; the event loop takes them out again for the readers. The steps of
  the two may come in any order. What the comparisons of the codec detection find is up to the
  surroundings.

  * `emit` -- what the capture thread makes of a frame, **`emit_handOne`** -- as in `Video.handOn`;
  * `Pipeline.step` -- capture thread and event loop;
  * `Shows` -- what a reader may be shown, against the records the vendor wrote;
  * **`pipeline_shows`** -- so it is, in every run.
-/
import YiHack.Rtsp.VideoSource
import YiHack.Video.FrameRun
import YiHack.Video.Sps

namespace YiHack.Rtsp

open General
open Video (FrameHeader FrameType Geometry HandedFrame Pattern Record Settings Stage StreamType
  Stream Template)

/-! ## 1. A frame goes through the capture thread -/

/-- The streams with a video source. -/
inductive Resolution
  | low
  | high
  deriving DecidableEq, Repr

def Resolution.frameType : Resolution → FrameType
  | .low => .low
  | .high => .high

def Resolution.output : Resolution → Video.Output
  | .low => .low
  | .high => .high

/-- The codec detection, where its comparisons end at `m`. -/
def observe (s : Stage) (h : FrameHeader) (m : Option Pattern) : Stage :=
  if h.isSps then
    if s.types.codecLow = none ∧ h.type &&& 0x0800 ≠ 0 then
      match m with
      | some p =>
        { s with
          types := { s.types with codecLow := some p.codec, spsTypeLow := p.spsType }
          lowMatch := some p }
      | none => s
    else if s.types.codecHigh = none ∧ h.type &&& 0x0400 ≠ 0 then
      match m with
      | some p =>
        { s with
          types := { s.types with codecHigh := some p.codec, spsTypeHigh := p.spsType }
          highMatch := some p }
      | none => s
    else s
  else s

/-- What is copied for a frame. -/
def frameBytes (cfg : Settings) (st : StreamType) (f : Video.Frame) : Bytes :=
  match Video.replacement cfg st f.header with
  | some t => t.ti
  | none => f.payload

/-- The queue a frame is put into, and its bytes there. -/
def emit (cfg : Settings) (st : StreamType) (f : Video.Frame) : Option (Video.Output × Bytes) :=
  if Video.writeEnable .rRTSPServer cfg f.header.frameType then
    match Video.Program.select .rRTSPServer cfg st f.header.frameType with
    | none => none
    | some o =>
      -- "Guard against a corrupt/short frame"
      if (frameBytes cfg st f).length > 0 then some (o, frameBytes cfg st f) else none
  else none

/-- What is sent for a frame: its payload, or an SPS with timing information in its place. -/
def Sent (cfg : Settings) (f : Video.Frame) (frame : Bytes) : Prop :=
  frame = f.payload ∨ ∃ st t, Video.replacement cfg st f.header = some t ∧ frame = t.ti

theorem sent_frameBytes (cfg : Settings) (st : StreamType) (f : Video.Frame) :
    Sent cfg f (frameBytes cfg st f) := by
  rw [frameBytes]
  cases h : Video.replacement cfg st f.header with
  | some t => exact .inr ⟨st, t, h, rfl⟩
  | none => exact .inl rfl

/-- What is put into a queue is what is sent for a frame of its stream. -/
theorem emit_eq_some {cfg : Settings} {st : StreamType} {f : Video.Frame} {o : Video.Output}
    {frame : Bytes} (h : emit cfg st f = some (o, frame)) :
    Sent cfg f frame ∧ ∀ r : Resolution, o = r.output → f.header.frameType = r.frameType := by
  rw [emit] at h
  split at h
  · cases ho : Video.Program.select .rRTSPServer cfg st f.header.frameType with
    | none =>
      simp only [ho] at h
      exact absurd h nofun
    | some o' =>
      simp only [ho] at h
      split at h
      · obtain ⟨rfl, rfl⟩ := Prod.mk.inj (Option.some.inj h)
        refine ⟨sent_frameBytes cfg st f, fun r hr => ?_⟩
        obtain ⟨rfl, hf⟩ | ⟨rfl, hf⟩ | ⟨rfl, hf⟩ := Video.select_cases ho
        · cases r with
          | low => exact hf
          | high => exact absurd hr nofun
        · cases r with
          | low => exact absurd hr nofun
          | high => exact hf
        · cases r <;> exact absurd hr nofun
      · exact absurd h nofun
  · exact absurd h nofun

section

variable {g : Geometry} {f : HandedFrame g}

/-- The bytes that `cb2s_memcpy` copies. -/
def copied (f : HandedFrame g) (e : Video.Emitted) : Bytes :=
  match e.src with
  | .ring addr => Video.cb2sMemcpy g f.mem addr e.len.toNat
  | .array t => t.ti

theorem observe_eq (s : Stage) : Video.observe s f =
    observe s f.header (Video.matchOf (if s.types.codecLow = none ∧ f.header.type &&& 0x0800 ≠ 0
      then Video.lowChain else Video.highChain) f) := by
  unfold Video.observe Video.detect observe
  split
  · split
    · rfl
    · rfl
  · rfl

theorem cb2sMemcpy_length (m : Wrap.Mem) (src : Int) (n : Nat) :
    (Video.cb2sMemcpy g m src n).length = n := by
  rw [Video.cb2sMemcpy]
  split
  · rw [List.length_append, Wrap.readMem_length, Wrap.readMem_length]
    omega
  · exact Wrap.readMem_length _ _ _

/-- The frame as it leaves the loop over the records. -/
def handed (f : HandedFrame g) : Video.Frame :=
  Video.handOne g (Video.cb2sMemcpy g) f.mem (f.addr, f.header)

theorem handed_payload :
    (handed f).payload = if f.len > 0 then Video.cb2sMemcpy g f.mem f.start f.len.toNat else [] :=
  rfl

theorem frameBytes_handed (f : HandedFrame g) (cfg : Settings) (st : StreamType) :
    ((frameBytes cfg st (handed f)).length > 0 ↔ (Video.copyOf cfg st f).2 > 0) ∧
      ∀ o, (Video.copyOf cfg st f).2 > 0 → frameBytes cfg st (handed f) =
        copied f ⟨o, (Video.copyOf cfg st f).1, (Video.copyOf cfg st f).2⟩ := by
  have hheader : (handed f).header = f.header := rfl
  rw [frameBytes, Video.copyOf, hheader]
  cases Video.replacement cfg st f.header with
  | some t =>
    refine ⟨?_, fun _ _ => rfl⟩
    simp only
    omega
  | none =>
    simp only [handed_payload]
    refine ⟨?_, fun _ h => if_pos h⟩
    split
    · next h =>
      rw [cb2sMemcpy_length]
      omega
    · next h => exact ⟨fun h' => absurd h' (Nat.lt_irrefl 0), fun h' => absurd h' h⟩

/-- **A frame leaves the loop as the stages behind it say.** -/
theorem emit_handOne (cfg : Settings) (st : StreamType) :
    emit cfg st (handed f) =
      (Video.handOn .rRTSPServer cfg st f).map fun e => (e.output, copied f e) := by
  have hheader : (handed f).header = f.header := rfl
  obtain ⟨hlen, hbytes⟩ := frameBytes_handed f cfg st
  rw [emit, Video.handOn, hheader]
  split
  · cases Video.Program.select .rRTSPServer cfg st f.header.frameType with
    | none => rfl
    | some o =>
      by_cases hpos : Video.Program.rRTSPServer.guarded cfg st f > 0
      · simp only [if_pos hpos, if_pos (hlen.mpr hpos), ← hbytes o hpos, Option.map_some]
      · simp only [if_neg hpos, if_neg fun h => hpos (hlen.mp h), Option.map_none]
  · rfl

end

/-! ## 2. The threads -/

/-- `seen` counts the frames of each stream that the capture thread has gone through, from the
    number on that the first of them has in the stream. -/
structure Pipeline where
  world : Video.World
  pending : List Video.Frame
  stage : Stage
  sources : Resolution → Source
  seen : Resolution → Nat

/-- A poll of the ring; the next frame of it, where the comparisons end at `m`; and what the event
    loop does for the source of a stream. -/
inductive Turn
  | poll (p : Video.Poll)
  | hand (m : Option Pattern)
  | get (r : Resolution) (maxSize : Nat)
  | turn (r : Resolution)
  | stop (r : Resolution)

/-- What runs: the ring and its writer, the options, and the codecs of the streams. -/
structure Server where
  geometry : Geometry
  stream : Stream geometry
  settings : Settings
  hNumber : Resolution → Nat

namespace Server

variable (v : Server)

def read (s : Pipeline) (r : Resolution) (e : Event) : Pipeline :=
  { s with sources := Function.update s.sources r (step (v.hNumber r) (s.sources r) e) }

/-- The frame comes to the queue as the one that has been gone through last. -/
def push (s : Pipeline) (r : Resolution) (frame : Bytes) : Pipeline :=
  v.read s r (.push (s.seen r - 1 - (s.sources r).nextIndex) frame)

/-- The next frame of the poll. -/
def hand (s : Pipeline) (f : Video.Frame) (rest : List Video.Frame) (m : Option Pattern) :
    Pipeline :=
  let s' := { s with
    pending := rest
    stage := observe s.stage f.header m
    seen := fun r => if f.header.frameType = r.frameType then s.seen r + 1 else s.seen r }
  match emit v.settings s'.stage.types f with
  | some (.low, frame) => v.push s' .low frame
  | some (.high, frame) => v.push s' .high frame
  | some (.audio, _) => s'
  | none => s'

def step (s : Pipeline) : Turn → Pipeline
  | .poll p =>
    match s.pending with
    | [] =>
      let w := Video.step (Video.capture v.geometry) v.stream s.world p
      { s with world := w, pending := w.handed.drop s.world.handed.length }
    | _ :: _ => s
  | .hand m =>
    match s.pending with
    | [] => s
    | f :: rest => v.hand s f rest m
  | .get r maxSize => v.read s r (.get maxSize)
  | .turn r => v.read s r .turn
  | .stop r => v.read s r .stop

/-- The server started while the records `[newest, e)` are the newest batch; the next frames of
    the streams are number `first`. -/
def start (newest e : Nat) (first : Resolution → Nat) : Pipeline where
  world := Video.start v.stream newest e
  pending := []
  stage := Video.unset
  sources r := newSource (first r)
  seen := first

/-- Where a run gets. -/
def reached (newest e : Nat) (first : Resolution → Nat) (ts : List Turn) : Pipeline :=
  run v.step (v.start newest e first) ts

/-- What is asked of a turn: a poll finds what it reads, and no front of a queue is more than a
    turn of the counter behind what was delivered last. -/
def Fair (s : Pipeline) : Turn → Prop
  | .poll p => s.pending = [] →
    Video.PollFair v.stream s.world.next p ∧ Video.PollClear v.stream s.world.next p
  | .hand _ => True
  | .get r _ => Near (s.sources r) (.get 0)
  | .turn r => Near (s.sources r) .turn
  | .stop r => Near (s.sources r) .stop

/-! ## 3. What a reader may be shown -/

/-- The records of a stream, from `e` on. -/
def records (e : Nat) (r : Resolution) : List (Record v.geometry.header) :=
  (v.stream.records.drop e).filter fun rec => rec.header.frameType = r.frameType

/-- The vendor numbers the records of a stream one after the other. -/
def Numbered (e : Nat) (first : Resolution → Nat) : Prop :=
  ∀ r k rec, (v.records e r)[k]? = some rec → rec.header.streamCounter = (first r + k) % 65536

/-- **What a reader is shown**, the last frame first: frames of the stream, in its order and each
    once, with their bytes and their counter, and after a gap a sync point. -/
structure Shows (e : Nat) (first : Resolution → Nat) (r : Resolution)
    (delivered : List OutputFrame) : Prop where
  order : delivered.Pairwise fun f g => g.index < f.index
  frames : ∀ f ∈ delivered, ∃ k rec, f.index = first r + k ∧ (v.records e r)[k]? = some rec ∧
    f.counter = rec.header.streamCounter ∧ Sent v.settings rec.frame f.frame
  continuous : Continuous (v.hNumber r) delivered

end Server

/-! ## 4. The source of a stream -/

/-- The frames of a stream. -/
def ofStream (r : Resolution) (fs : List Video.Frame) : List Video.Frame :=
  fs.filter fun f => f.header.frameType = r.frameType

theorem ofStream_own {r : Resolution} {fs : List Video.Frame} {f : Video.Frame}
    (hf : f.header.frameType = r.frameType) : ofStream r (fs ++ [f]) = ofStream r fs ++ [f] := by
  rw [ofStream, List.filter_append, List.filter_cons_of_pos (by simpa using hf), List.filter_nil]
  rfl

theorem ofStream_other {r : Resolution} {fs : List Video.Frame} {f : Video.Frame}
    (hf : f.header.frameType ≠ r.frameType) : ofStream r (fs ++ [f]) = ofStream r fs := by
  rw [ofStream, List.filter_append, List.filter_cons_of_neg (by simpa using hf), List.filter_nil,
    List.append_nil]
  rfl

/-- What the event loop does to a source. -/
inductive Read : Event → Prop
  | get (maxSize : Nat) : Read (.get maxSize)
  | turn : Read .turn
  | stop : Read .stop

/-- The event loop leaves an end of the queue. -/
theorem Read.queue {hNumber : Nat} {s : Source} {e : Event} (he : Read e) :
    (step hNumber s e).queue <:+ s.queue ∧ (step hNumber s e).nextIndex = s.nextIndex := by
  have hsame := List.suffix_refl s.queue
  cases he with
  | get maxSize =>
    simp only [step, doGetNextFrame]
    split
    · split
      · exact ⟨hsame, rfl⟩
      · split
        · exact ⟨hsame, rfl⟩
        · exact ⟨hsame, rfl⟩
    · exact ⟨hsame, rfl⟩
  | stop =>
    simp only [step]
    split
    · exact ⟨hsame, rfl⟩
    · exact ⟨hsame, rfl⟩
  | turn =>
    simp only [step]
    split
    · exact ⟨hsame, rfl⟩
    · unfold loopTurn
      split
      · exact ⟨hsame, rfl⟩
      · next f rest hq =>
        rw [hq, takeFront]
        have hrest := List.suffix_cons f rest
        split
        · exact ⟨hrest, rfl⟩
        · split
          · exact ⟨hrest, rfl⟩
          · split
            · exact ⟨hrest, rfl⟩
            · split
              · exact ⟨hrest, rfl⟩
              · exact ⟨hrest, rfl⟩

/-- What is delivered is what was, or the front of the queue too. -/
theorem delivered_cases (hNumber : Nat) (s : Source) (e : Event) :
    (step hNumber s e).delivered = s.delivered ∨
      ∃ f ∈ s.queue, (step hNumber s e).delivered = f :: s.delivered := by
  obtain ⟨hd, -⟩ | ⟨-, _, f, -, hf, -, -, hd, -⟩ := step_cases hNumber s e
  · exact .inl hd
  · exact .inr ⟨f, List.mem_of_head? hf, hd⟩

theorem descending_step (hNumber : Nat) {s : Source} (e : Event) (ho : Ordered s)
    (hd : s.delivered.Pairwise fun f g => g.index < f.index) :
    (step hNumber s e).delivered.Pairwise fun f g => g.index < f.index := by
  obtain h | ⟨f, hf, h⟩ := delivered_cases hNumber s e
  · rw [h]
    exact hd
  · rw [h]
    exact List.pairwise_cons.mpr ⟨fun g hg => (ho.behind g hg).2 f hf, hd⟩

/-- A source, against the frames the capture thread has gone through. -/
structure Fed (v : Server) (first : Resolution → Nat) (r : Resolution) (done : List Video.Frame)
    (s : Source) : Prop where
  ordered : Ordered s
  descending : s.delivered.Pairwise fun f g => g.index < f.index
  last : LastOk s
  continuous : Continuous (v.hNumber r) s.delivered
  next : s.nextIndex ≤ first r + (ofStream r done).length
  frames : ∀ f, f ∈ s.queue ∨ f ∈ s.delivered → ∃ k fr, f.index = first r + k ∧
    (ofStream r done)[k]? = some fr ∧ Sent v.settings fr f.frame

section

variable {v : Server} {first : Resolution → Nat} {r : Resolution} {done : List Video.Frame}
  {s : Source}

/-- The event loop takes frames out of the queue. -/
theorem Fed.read {e : Event} (h : Fed v first r done s) (he : Read e) (hnear : Near s e) :
    Fed v first r done (step (v.hNumber r) s e) where
  ordered := ordered_step _ s e h.ordered
  descending := descending_step _ e h.ordered h.descending
  last := lastOk_step _ s e h.last
  continuous :=
    (step_kept_iff _ s e h.last h.continuous).mp (unaliased_of_near h.ordered hnear)
  next := by
    rw [he.queue.2]
    exact h.next
  frames f hf := by
    refine h.frames f ?_
    obtain hf | hf := hf
    · exact .inl (he.queue.1.subset hf)
    · obtain hd | ⟨f', hf', hd⟩ := delivered_cases (v.hNumber r) s e
      · exact .inr (hd ▸ hf)
      · rw [hd] at hf
        obtain rfl | hf := List.mem_cons.mp hf
        · exact .inl hf'
        · exact .inr hf

/-- The capture thread goes on. -/
theorem Fed.grow (h : Fed v first r done s) (f : Video.Frame) : Fed v first r (done ++ [f]) s where
  ordered := h.ordered
  descending := h.descending
  last := h.last
  continuous := h.continuous
  next := by
    rw [ofStream, List.filter_append, List.length_append]
    exact h.next.trans (Nat.add_le_add_left (Nat.le_add_right _ _) _)
  frames f' hf := by
    obtain ⟨k, fr, hk, hfr, hs⟩ := h.frames f' hf
    refine ⟨k, fr, hk, ?_, hs⟩
    rw [ofStream, List.filter_append, List.getElem?_append_left]
    · exact hfr
    · exact (List.getElem?_eq_some_iff.mp hfr).1

/-- **The capture thread puts a frame into the queue**, with the number it has in the stream. -/
theorem Fed.push (h : Fed v first r done s) {f : Video.Frame} {frame : Bytes}
    (hf : f.header.frameType = r.frameType) (hs : Sent v.settings f frame) {lost : Nat}
    (hlost : s.nextIndex + lost = first r + (ofStream r done).length) :
    Fed v first r (done ++ [f]) (step (v.hNumber r) s (.push lost frame)) where
  ordered := ordered_step _ s _ h.ordered
  descending := h.descending
  last := h.last
  continuous := h.continuous
  next := by
    rw [ofStream_own hf, List.length_append]
    show s.nextIndex + lost + 1 ≤ _
    rw [hlost]
    exact Nat.le_refl _
  frames f' hf' := by
    have hold (hf' : f' ∈ s.queue ∨ f' ∈ s.delivered) := (h.grow f).frames f' hf'
    obtain hf' | hf' := hf'
    · obtain hf' | hf' := List.mem_append.mp (List.mem_of_mem_drop hf')
      · exact hold (.inl hf')
      · rw [List.mem_singleton.mp hf']
        refine ⟨(ofStream r done).length, f, hlost, ?_, hs⟩
        rw [ofStream_own hf, List.getElem?_concat_length]
    · exact hold (.inr hf')

end

/-! ## 5. Runs -/

section

variable {v : Server} {first : Resolution → Nat} {e : Nat}

/-- The capture thread has gone through `done`, and each stream counts what was its own. -/
structure Inv (v : Server) (first : Resolution → Nat) (e : Nat) (done : List Video.Frame)
    (s : Pipeline) : Prop where
  handed : Video.Handed v.stream e s.world
  split : s.world.handed = done ++ s.pending
  seen : ∀ r, s.seen r = first r + (ofStream r done).length
  fed : ∀ r, Fed v first r done (s.sources r)

theorem Inv.read {done : List Video.Frame} {s : Pipeline} (h : Inv v first e done s)
    (r : Resolution) {ev : Event} (he : Read ev) (hnear : Near (s.sources r) ev) :
    Inv v first e done (v.read s r ev) where
  handed := h.handed
  split := h.split
  seen := h.seen
  fed q := by
    simp only [Server.read]
    by_cases hq : q = r
    · subst hq
      rw [Function.update_self]
      exact (h.fed q).read he hnear
    · rw [Function.update_of_ne hq]
      exact h.fed q

theorem Inv.hand {done : List Video.Frame} {s : Pipeline} {f : Video.Frame}
    {rest : List Video.Frame} {m : Option Pattern} (h : Inv v first e done s)
    (hp : s.pending = f :: rest) : Inv v first e (done ++ [f]) (v.hand s f rest m) := by
  let s' : Pipeline := { s with
    pending := rest
    stage := observe s.stage f.header m
    seen := fun r => if f.header.frameType = r.frameType then s.seen r + 1 else s.seen r }
  have hpass : Inv v first e (done ++ [f]) s' := by
    refine ⟨h.handed, ?_, fun r => ?_, fun r => (h.fed r).grow f⟩
    · show s.world.handed = _
      rw [h.split, hp, List.append_assoc]
      rfl
    · by_cases hf : f.header.frameType = r.frameType
      · rw [ofStream_own hf, List.length_append, ← Nat.add_assoc, ← h.seen r]
        exact if_pos hf
      · rw [ofStream_other hf, ← h.seen r]
        exact if_neg hf
  have hpush (r : Resolution) (frame : Bytes)
      (he : emit v.settings s'.stage.types f = some (r.output, frame)) :
      Inv v first e (done ++ [f]) (v.push s' r frame) := by
    obtain ⟨hs, hf⟩ := emit_eq_some he
    refine ⟨hpass.handed, hpass.split, hpass.seen, fun q => ?_⟩
    simp only [Server.push, Server.read]
    by_cases hq : q = r
    · subst hq
      rw [Function.update_self]
      refine (h.fed q).push (hf q rfl) hs ?_
      have hseen : s'.seen q = s.seen q + 1 := if_pos (hf q rfl)
      have hnext := (h.fed q).next
      show (s.sources q).nextIndex + (s'.seen q - 1 - (s.sources q).nextIndex) = _
      rw [hseen, h.seen q]
      omega
    · rw [Function.update_of_ne hq]
      exact hpass.fed q
  show Inv v first e (done ++ [f]) (match emit v.settings s'.stage.types f with
    | some (.low, frame) => v.push s' .low frame
    | some (.high, frame) => v.push s' .high frame
    | some (.audio, _) => s'
    | none => s')
  split
  · next frame he => exact hpush .low frame he
  · next frame he => exact hpush .high frame he
  · exact hpass
  · exact hpass

theorem step_inv {s : Pipeline} {t : Turn} (hfair : v.Fair s t) (h : ∃ done, Inv v first e done s) :
    ∃ done, Inv v first e done (v.step s t) := by
  obtain ⟨done, h⟩ := h
  cases t with
  | poll p =>
    simp only [Server.step]
    cases hp : s.pending with
    | nil =>
      obtain ⟨hf, hc⟩ := hfair hp
      refine ⟨done, Video.step_handed hf hc h.handed, ?_, h.seen, h.fed⟩
      have hdone : s.world.handed = done := by rw [h.split, hp, List.append_nil]
      show _ = done ++ List.drop s.world.handed.length (s.world.handed ++ _)
      rw [List.drop_left, ← hdone]
      rfl
    | cons f rest => exact ⟨done, h⟩
  | hand m =>
    simp only [Server.step]
    cases hp : s.pending with
    | nil => exact ⟨done, h⟩
    | cons f rest => exact ⟨_, h.hand hp⟩
  | get r maxSize => exact ⟨done, h.read r (.get maxSize) hfair⟩
  | turn r => exact ⟨done, h.read r .turn hfair⟩
  | stop r => exact ⟨done, h.read r .stop hfair⟩

theorem start_inv {newest : Nat} (hle : newest ≤ e)
    (hbatch : v.stream.written e - v.stream.written newest ≤ v.geometry.span) :
    Inv v first e [] (v.start newest e first) where
  handed := Video.start_handed hle hbatch
  split := rfl
  seen _ := rfl
  fed r := ⟨ordered_newSource _, List.Pairwise.nil, lastOk_newSource _, trivial, Nat.le_refl _,
    fun _ hf => absurd hf (by simp [Server.start, newSource])⟩

/-- The frames of a stream that were gone through are the first of its records. -/
theorem Inv.records {done : List Video.Frame} {s : Pipeline} (h : Inv v first e done s)
    (r : Resolution) {k : Nat} {fr : Video.Frame} (hk : (ofStream r done)[k]? = some fr) :
    ∃ rec, (v.records e r)[k]? = some rec ∧ rec.frame = fr := by
  have hprefix : done <+: (v.stream.records.drop e).map Record.frame := by
    refine List.IsPrefix.trans ⟨s.pending, h.split.symm⟩ ?_
    rw [h.handed.handed]
    exact (List.take_prefix _ _).map _
  obtain ⟨rest, hrest⟩ := hprefix
  have hframes : (v.records e r).map Record.frame = ofStream r done ++ ofStream r rest := by
    rw [ofStream, ofStream, ← List.filter_append, hrest, List.filter_map]
    rfl
  have hlt := (List.getElem?_eq_some_iff.mp hk).1
  have hget : ((v.records e r).map Record.frame)[k]? = some fr := by
    rw [hframes, List.getElem?_append_left hlt, hk]
  rw [List.getElem?_map] at hget
  exact Option.map_eq_some_iff.mp hget

end

/-! ### Eight records -/

/-- A record of the low stream. -/
def lowRecord (n : Fin 8) : Record .h22 where
  head := [5, 0, 0, 0, .ofNat n, 0, 0, 0, 0, 0, 0, 0, 0, 0, 0, 0, 0, 8, .ofNat n, 0, 0, 0]
  payload := [0, 0, 0, 1, 0x65]
  head_length := rfl
  payload_length := by revert n; decide
  sps_length := by revert n; decide

/-- Its first one, with the parameter sets. -/
def lowSps : Record .h22 where
  head := [11, 0, 0, 0, 0, 0, 0, 0, 0, 0, 0, 0, 0, 0, 0, 0, 2, 8, 0, 0, 0, 0]
  payload := [9, 9, 9, 9, 9, 9, 0, 0, 0, 1, 0x67]
  head_length := rfl
  payload_length := rfl
  sps_length := fun _ => by decide

def sampleServer : Server where
  geometry := ⟨300, 600, .h22, by decide⟩
  stream := ⟨100, fun _ => 0, lowSps :: [1, 2, 3, 4, 5, 6, 7].map lowRecord⟩
  settings := ⟨.both, 0, false⟩
  hNumber _ := 264

def sampleTurns : List Turn :=
  .poll ⟨0, 8, fun _ => 222, fun _ => 222⟩ :: .hand (some .sps4Start) ::
    List.replicate 6 (.hand none) ++ [.get .low 100, .turn .low]

theorem near_of_nil {s : Source} {e : Event} (h : s.delivered = []) : Near s e := by
  intro f g _ hg
  rw [h] at hg
  exact absurd hg nofun

theorem sampleTurns_fair :
    StepsMeet sampleServer.step sampleServer.Fair (sampleServer.start 0 0 fun _ => 0)
      sampleTurns := by
  have hread (i : Nat) : Video.ReadsAt sampleServer.stream 0 8 222 := by
    refine ⟨?_, ?_, ?_⟩ <;> decide +kernel
  refine ⟨fun _ => ⟨⟨?_, ?_, ?_, ?_, ?_, hread, hread⟩, ⟨?_, ?_⟩⟩, trivial, trivial, trivial,
    trivial, trivial, trivial, trivial, near_of_nil (e := .get 0) ?_, near_of_nil (e := .turn) ?_,
    trivial⟩ <;> decide +kernel

theorem sampleServer_numbered : sampleServer.Numbered 0 fun _ => 0 := by
  have hall : ∀ r, ∀ q ∈ (sampleServer.records 0 r).zipIdx,
      q.1.header.streamCounter = (0 + q.2) % 65536 := by
    intro r
    cases r <;> decide
  exact fun r k rec h => hall r (rec, k) (List.mem_zipIdx_iff_getElem?.mpr h)

end YiHack.Rtsp
