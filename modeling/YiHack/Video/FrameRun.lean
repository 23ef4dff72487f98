/-
  File:      YiHack/Video/FrameRun.lean
  Subject:   Which records of the vendor's stream the frame loop hands on.

  The writer puts records one behind the other into the ring and publishes the newest batch in the
  header words. A poll reads the words once some records are complete, and every header and payload
  at a time of its own, while the writer may go on; `PollFair` asks that none of the unread records
  is overwritten by then.

  * `frames_complete` -- where no batch ends at the physical end of the ring and the unread records
    are less than a turn, every record but the newest is handed on, once and in order;
  * `poll_complete_iff` -- a poll that finds two records or more hands on all but the newest only
    then: a batch that ends at the physical end is never met by the walk, which stops at `size` and
    compares with `offset`, and a whole turn looks like no data; such a poll hands on nothing.
-/
import YiHack.General.Run
import YiHack.Video.FrameRing

namespace YiHack.Video

open General
open General.Wrap (Mem Names Holds addr)

/-! ## 1. The writer -/

/-- A well-formed record: a header that gives the length of the payload behind it. -/
structure Record (k : HeaderKind) where
  head : Bytes
  payload : Bytes
  head_length : head.length = k.size
  payload_length : payload.length = (k.decode head).len
  sps_length : (k.decode head).isSps = true → 6 ≤ payload.length

namespace Record

variable {k : HeaderKind}

def bytes (r : Record k) : Bytes := r.head ++ r.payload

def header (r : Record k) : FrameHeader := k.decode r.head

/-- What the stage behind the loop is to get of the record. -/
def frame (r : Record k) : Frame :=
  ⟨r.header, if r.header.isSps then r.payload.drop 6 else r.payload⟩

theorem bytes_length (r : Record k) : r.bytes.length = k.size + r.header.len := by
  rw [bytes, List.length_append, r.head_length, r.payload_length, header]

end Record

/-- All records the writer writes, the first at ring position `base`, into a memory that held
    anything before. -/
structure Stream (g : Geometry) where
  base : Nat
  memory : Mem
  records : List (Record g.header)

namespace Stream

variable {g : Geometry} (s : Stream g)

def bytes : Bytes := s.records.flatMap Record.bytes

/-- The bytes of the first `i` records. -/
def written (i : Nat) : Nat := ((s.records.take i).flatMap Record.bytes).length

/-- The position of record `i`. -/
def pos (i : Nat) : Nat := s.base + s.written i

/-- The memory after the first `n` bytes were written. -/
def mem (n : Nat) : Mem := Wrap.writeStream g.offset g.span s.memory s.base s.bytes n

/-- The header words while the records `[newest, e)` are the newest batch. -/
def words (newest e : Nat) : Words where
  start := (s.pos newest % g.span : Nat)
  len := (s.pos e - s.pos newest : Nat)
  end_ := (s.pos e % g.span : Nat)

theorem written_succ {i : Nat} (h : i < s.records.length) :
    s.written (i + 1) = s.written i + s.records[i].bytes.length := by
  unfold written
  rw [List.take_succ_eq_append_getElem h, List.flatMap_append, List.length_append,
    List.flatMap_singleton]

theorem written_mono {i j : Nat} (h : i ≤ j) : s.written i ≤ s.written j := by
  unfold written
  obtain ⟨d, rfl⟩ := Nat.exists_eq_add_of_le h
  rw [List.take_add, List.flatMap_append, List.length_append]
  exact Nat.le_add_right _ _

/-- Record `i` in the stream. -/
theorem slice_record {i : Nat} (h : i < s.records.length) :
    slice s.bytes (s.written i) s.records[i].bytes.length = s.records[i].bytes := by
  have hsplit : s.bytes = (s.records.take i).flatMap Record.bytes ++
      (s.records[i].bytes ++ (s.records.drop (i + 1)).flatMap Record.bytes) := by
    unfold bytes
    conv_lhs => rw [← List.take_append_drop i s.records, List.drop_eq_getElem_cons h]
    rw [List.flatMap_append, List.flatMap_cons]
  have hskip : ((s.records.take i).flatMap Record.bytes).length = s.written i := rfl
  rw [hsplit, slice, List.drop_left' hskip, List.take_left]

end Stream

/-! ## 2. Polls and runs -/

/-- One poll: the newest batch is the records `[newest, e)`; the `i`th header and payload are read
    after so many bytes were written. -/
structure Poll where
  newest : Nat
  e : Nat
  headerAt : Nat → Nat
  payloadAt : Nat → Nat

/-- A reading time at which the unread records `[u, e)` are complete and not yet overwritten. -/
def ReadsAt {g : Geometry} (s : Stream g) (u e n : Nat) : Prop :=
  s.written e ≤ n ∧ n ≤ s.written u + g.span ∧ n ≤ s.bytes.length

/-- The poll finds the records `[u, e)` unread, nine at most, and reads them before they are
    overwritten. -/
structure PollFair {g : Geometry} (s : Stream g) (u : Nat) (p : Poll) : Prop where
  newest_le : p.newest ≤ p.e
  e_le : p.e ≤ s.records.length
  batch : s.written p.e - s.written p.newest ≤ g.span
  unread : u ≤ p.e
  few : p.e ≤ u + 9
  headers : ∀ i, ReadsAt s u p.e (p.headerAt i)
  payloads : ∀ i, ReadsAt s u p.e (p.payloadAt i)

/-- The batch does not end at the physical end of the ring, and the unread records are less than
    a turn. -/
structure PollClear {g : Geometry} (s : Stream g) (u : Nat) (p : Poll) : Prop where
  inside : s.pos p.e % g.span ≠ 0
  lap : s.written p.e < s.written u + g.span

/-- The first record that is still to be handed on after the poll: the newest one, if the poll
    found two or more. -/
def nextAfter (u : Nat) (p : Poll) : Nat := if u + 2 ≤ p.e then p.e - 1 else u

/-- The program, what it has handed on, and the first record still to be handed on. -/
structure World where
  reader : Capture
  handed : List Frame
  next : Nat

/-- One turn of a main loop. -/
abbrev MainLoop := Capture → Words → (Nat → Mem) → (Nat → Mem) → Capture × List Frame

def step {g : Geometry} (loop : MainLoop) (s : Stream g) (w : World) (p : Poll) : World :=
  let r := loop w.reader (s.words p.newest p.e) (fun i => s.mem (p.headerAt i))
    (fun i => s.mem (p.payloadAt i))
  ⟨r.1, w.handed ++ r.2, nextAfter w.next p⟩

/-- The program started while the records `[newest, e)` are the newest batch. -/
def start {g : Geometry} (s : Stream g) (newest e : Nat) : World :=
  ⟨captureInit g (s.words newest e), [], e⟩

/-- The records `[i, j)`. -/
def segment {g : Geometry} (s : Stream g) (i j : Nat) : List (Record g.header) :=
  (s.records.drop i).take (j - i)

/-! ## 3. One poll -/

section OnePoll

variable {g : Geometry} {s : Stream g} {u : Nat} {p : Poll}

/-- The end of the newest batch, from the words. -/
theorem bufIdxEnd_words {newest e : Nat} (hle : newest ≤ e)
    (hbatch : s.written e - s.written newest ≤ g.span) :
    bufIdxEnd g (s.words newest e) = addr g.offset g.span (s.pos e) := by
  have hmono := s.written_mono hle
  have hspan := g.offset_add_span
  have hlt := Nat.mod_lt (s.pos newest) g.span_pos
  have hpos : s.pos e = s.pos newest + (s.pos e - s.pos newest) := by
    unfold Stream.pos
    omega
  have hlen : s.pos e - s.pos newest ≤ g.span := by
    unfold Stream.pos
    omega
  have hstart : (s.words newest e).start = (s.pos newest % g.span : Nat) := rfl
  have hl : (s.words newest e).len = (s.pos e - s.pos newest : Nat) := rfl
  unfold bufIdxEnd
  conv_rhs => rw [hpos]
  simp only
  split
  · rename_i hw
    rw [Wrap.addr_add_wrap (by omega) (by omega)]
    omega
  · rename_i hw
    rw [Wrap.addr_add (by omega), addr]
    omega

/-- An unread record is in memory at every reading time. -/
theorem holds_unread {i n : Nat} (hui : u ≤ i) (hie : i < p.e) (hlen : p.e ≤ s.records.length)
    (ht : ReadsAt s u p.e n) :
    Holds g.offset g.span (s.mem n) (s.pos i) s.records[i].bytes := by
  obtain ⟨hw, ho, hb⟩ := ht
  have h1 := s.written_succ (i := i) (by omega)
  have h2 := s.written_mono (show i + 1 ≤ p.e from hie)
  have h3 := s.written_mono hui
  exact Wrap.writeStream_holds (s.slice_record (by omega)) (by omega) (by omega) hb

/-- A record before the end of a batch is one of the stream's. -/
theorem PollFair.lt {i : Nat} (hf : PollFair s u p) (hie : i < p.e) : i < s.records.length :=
  Nat.lt_of_lt_of_le hie hf.e_le

/-- An unread record fits the ring. -/
theorem unread_length {i : Nat} (hf : PollFair s u p) (hui : u ≤ i) (hie : i < p.e)
    (hlt : i < s.records.length := hf.lt hie) :
    s.records[i].bytes.length ≤ g.span := by
  have h1 := s.written_succ (i := i) (by have := hf.e_le; omega)
  have h2 := s.written_mono (show i + 1 ≤ p.e from hie)
  have h3 := s.written_mono hui
  obtain ⟨hw, ho, -⟩ := hf.headers 0
  omega

/-- The header of an unread record, read from any name of its position. -/
theorem header_read {i n : Nat} {a : Int} (hf : PollFair s u p) (hui : u ≤ i) (hie : i < p.e)
    (ht : ReadsAt s u p.e n) (ha : Names g.offset g.span a (s.pos i))
    (hlt : i < s.records.length := hf.lt hie) :
    cb2sHeadercpy g (s.mem n) a = s.records[i].header := by
  have hlen := unread_length hf hui hie
  obtain ⟨hhead, -⟩ := (holds_unread hui hie hf.e_le ht).append
  have hr := s.records[i].head_length
  rw [Record.bytes, List.length_append] at hlen
  unfold cb2sHeadercpy
  rw [cb2sMemcpy_eq, ← hr, Wrap.read_names ha g.span_pos hhead (by omega), Record.header]

/-- **A record is handed on with its own header and payload.** -/
theorem handOne_record {i n : Nat} {a : Int} (hf : PollFair s u p) (hui : u ≤ i) (hie : i < p.e)
    (ht : ReadsAt s u p.e n) (ha : Names g.offset g.span a (s.pos i))
    (hlt : i < s.records.length := hf.lt hie) :
    handOne g (cb2sMemcpy g) (s.mem n) (a, s.records[i].header) =
      s.records[i].frame := by
  have hlen := unread_length hf hui hie
  have hholds := holds_unread hui hie hf.e_le ht
  generalize s.records[i] = r at hlen hholds
  obtain ⟨-, hpay⟩ := hholds.append
  have hhead := r.head_length
  have hpl : r.payload.length = r.header.len := r.payload_length
  rw [Record.bytes, List.length_append] at hlen
  have hh := g.header.size_pos
  -- a payload, or what is left of it, read from where the loop moves to
  have hread : ∀ (d : Nat) (rest : Bytes), 0 < d → d ≤ g.span → rest.length ≤ g.span →
      Holds g.offset g.span (s.mem n) (s.pos i + d) rest →
      (if (rest.length : Int) > 0 then
        cb2sMemcpy g (s.mem n) (cbMove g a d) (rest.length : Int).toNat else []) = rest := by
    intro d rest hd hdle hrl hm
    split
    · rw [cbMove_forward g a (by omega), Int.toNat_natCast, cb2sMemcpy_eq]
      exact Wrap.read_names (ha.advance g.span_pos hdle) g.span_pos hm hrl
    · exact (List.length_eq_zero_iff.mp (by omega)).symm
  unfold handOne Record.frame
  simp only
  by_cases hsps : r.header.isSps = true
  · have h6 := r.sps_length hsps
    have hsplit : r.payload = r.payload.take 6 ++ r.payload.drop 6 :=
      (List.take_append_drop 6 _).symm
    rw [hsplit] at hpay
    obtain ⟨-, hrest⟩ := hpay.append
    have h6' : (r.payload.take 6).length = 6 := by
      rw [List.length_take]
      omega
    rw [h6', hhead, Nat.add_assoc] at hrest
    have hdrop : (r.payload.drop 6).length = r.header.len - 6 := by
      rw [List.length_drop, hpl]
    have := hread (g.header.size + 6) (r.payload.drop 6) (by omega) (by omega) (by omega) hrest
    rw [hdrop] at this
    simp only [hsps, if_true]
    have e1 : ((r.header.len - 6 : Nat) : Int) = (r.header.len : Int) - 6 := by omega
    rw [e1] at this
    congr 1
  · have := hread g.header.size r.payload hh (by omega) (by omega) (by rw [← hhead]; exact hpay)
    rw [hpl] at this
    simp only [hsps, Bool.false_eq_true, if_false]
    congr 1

/-- What the walk finds from record `j` to the end. -/
structure Walked (s : Stream g) (j e : Nat) (fs : List (Int × FrameHeader)) : Prop where
  length : fs.length = e - j
  entry : ∀ i, (h : i < fs.length) → ∃ r, s.records[j + i]? = some r ∧
    Names g.offset g.span fs[i].1 (s.pos (j + i)) ∧ fs[i].2 = r.header

/-- **The walk follows the unread records to the end of the batch.** -/
theorem walk_records (hf : PollFair s u p) (hc : PollClear s u p) {room i j : Nat} {cur : Int}
    (huj : u ≤ j) (hje : j ≤ p.e) (hroom : p.e - j < room)
    (hcur : Names g.offset g.span cur (s.pos j)) :
    ∃ fs, walk g (fun i => s.mem (p.headerAt i)) (addr g.offset g.span (s.pos p.e)) room i cur =
      some fs ∧ Walked s j p.e fs := by
  induction room generalizing i j cur with
  | zero => omega
  | succ room ih =>
    have huw := s.written_mono huj
    have hew := s.written_mono hje
    have hlap := hc.lap
    have hend := hcur.eq_addr_iff g.span_pos (e := s.pos p.e) (by unfold Stream.pos; omega)
      (by unfold Stream.pos; omega) hc.inside
    unfold walk
    rcases Nat.lt_or_eq_of_le hje with hlt | rfl
    · have hjl : j < s.records.length := by have := hf.e_le; omega
      have hsucc := s.written_succ hjl
      have hsw := s.written_mono (show j + 1 ≤ p.e from hlt)
      have hbl := s.records[j].bytes_length
      have hh := g.header.size_pos
      have hspan : g.span = g.size - g.offset := rfl
      have hne : cur ≠ addr g.offset g.span (s.pos p.e) := by
        intro h
        have := hend.mp h
        unfold Stream.pos at this
        omega
      rw [if_neg hne, header_read hf huj hlt (hf.headers i) hcur, if_neg (by omega)]
      have hmove : Names g.offset g.span
          (cbMove g cur (s.records[j].header.len + g.header.size)) (s.pos (j + 1)) := by
        rw [cbMove_forward g cur (by omega)]
        have hadv := hcur.advance g.span_pos (d := s.records[j].bytes.length) (by omega)
        have e1 : s.pos (j + 1) = s.pos j + s.records[j].bytes.length := by
          unfold Stream.pos
          omega
        have e2 : ((s.records[j].bytes.length : Nat) : Int) =
            s.records[j].header.len + g.header.size := by omega
        rw [e1, ← e2]
        exact hadv
      obtain ⟨fs, hfs, hlen, hentry⟩ := ih (i := i + 1) (by omega) hlt (by omega) hmove
      refine ⟨(cur, s.records[j].header) :: fs, by rw [hfs]; rfl, ?_, fun n hn => ?_⟩
      · rw [List.length_cons, hlen]
        omega
      · cases n with
        | zero => exact ⟨s.records[j], by simp, hcur, rfl⟩
        | succ n =>
          obtain ⟨r, hr, hname, hhd⟩ := hentry n (by simpa using hn)
          refine ⟨r, ?_, ?_, hhd⟩
          · rw [← hr]
            congr 1
            omega
          · have e1 : j + 1 + n = j + (n + 1) := by omega
            rw [← e1]
            exact hname
    · rw [if_pos (hend.mpr rfl)]
      exact ⟨[], rfl, by simp, fun n hn => absurd hn (by simp)⟩

theorem segment_cons {j n : Nat} (h : j < s.records.length) :
    segment s j (j + (n + 1)) = s.records[j] :: segment s (j + 1) (j + 1 + n) := by
  unfold segment
  rw [List.drop_eq_getElem_cons h, Nat.add_sub_cancel_left, Nat.add_sub_cancel_left,
    List.take_succ_cons]

theorem segment_append {i j k : Nat} (hij : i ≤ j) (hjk : j ≤ k) :
    segment s i j ++ segment s j k = segment s i k := by
  unfold segment
  have e1 : s.records.drop j = (s.records.drop i).drop (j - i) := by
    rw [List.drop_drop, Nat.add_sub_cancel' hij]
  have e2 : k - i = (j - i) + (k - j) := by omega
  rw [e1, e2, List.take_add]

/-- **The walked records are handed on as they are.** -/
theorem handAll_records (hf : PollFair s u p) {fs : List (Int × FrameHeader)} {i j : Nat}
    (huj : u ≤ j) (hje : j + fs.length ≤ p.e)
    (hentry : ∀ n, (h : n < fs.length) → ∃ r, s.records[j + n]? = some r ∧
      Names g.offset g.span fs[n].1 (s.pos (j + n)) ∧ fs[n].2 = r.header) :
    handAll g (cb2sMemcpy g) (fun i => s.mem (p.payloadAt i)) i fs =
      (segment s j (j + fs.length)).map Record.frame := by
  induction fs generalizing i j with
  | nil => simp [handAll, segment]
  | cons f fs ih =>
    rw [List.length_cons] at hje
    have hjl : j < s.records.length := by have := hf.e_le; omega
    obtain ⟨r, hr, hname, hhd⟩ := hentry 0 (by simp)
    have hr' : s.records[j] = r := by
      rw [Nat.add_zero, List.getElem?_eq_getElem hjl] at hr
      exact Option.some.inj hr
    have hone := handOne_record hf huj (by omega) (hf.payloads i) hname
    have hf' : (f.1, s.records[j].header) = f := by
      rw [hr', ← hhd]
      rfl
    have htail := ih (i := i + 1) (j := j + 1) (by omega) (by omega) fun n hn => by
      obtain ⟨r, hr, hname, hhd⟩ := hentry (n + 1) (by simpa using hn)
      have e1 : j + (n + 1) = j + 1 + n := by omega
      rw [e1] at hr hname
      exact ⟨r, hr, hname, hhd⟩
    rw [handAll, List.length_cons, segment_cons hjl, List.map_cons, htail]
    congr 1
    rw [← hone]
    simp only [List.getElem_cons_zero, hf']

/-- The words pass the check of the header. -/
theorem words_end (newest e : Nat) :
    (g.offset : Int) + (s.words newest e).end_ = addr g.offset g.span (s.pos e) := by
  have h : (s.words newest e).end_ = (s.pos e % g.span : Nat) := rfl
  rw [h, addr]
  omega

theorem nextAfter_ge (u : Nat) (p : Poll) : p.e ≤ nextAfter u p + 1 := by
  unfold nextAfter
  split <;> omega

/-- **A poll hands on the unread records but the newest**, and goes on there. -/
theorem capture_records (hf : PollFair s u p) (hc : PollClear s u p) {c : Capture}
    (hn : Names g.offset g.span c.bufIdxEndPrev (s.pos u)) :
    let r := capture g c (s.words p.newest p.e) (fun i => s.mem (p.headerAt i))
      (fun i => s.mem (p.payloadAt i))
    Names g.offset g.span r.1.bufIdxEndPrev (s.pos (nextAfter u p)) ∧
      r.2 = (segment s u (nextAfter u p)).map Record.frame := by
  have hempty : segment s u u = [] := by simp [segment]
  have hend := hn.eq_addr_iff g.span_pos (e := s.pos p.e)
    (by have := s.written_mono hf.unread; unfold Stream.pos; omega)
    (by have := hc.lap; unfold Stream.pos; omega) hc.inside
  have hpos : c.bufIdxEndPrev = addr g.offset g.span (s.pos p.e) → nextAfter u p = u := by
    -- no byte is unread, so no record is
    intro h
    have h := hend.mp h
    have hue := hf.unread
    by_contra hne
    have hlt : u < p.e := by
      unfold nextAfter at hne
      split at hne <;> omega
    have h1 := s.written_succ (i := u) (by have := hf.e_le; omega)
    have h2 := s.written_mono (show u + 1 ≤ p.e from hlt)
    have hul := hf.lt hlt
    have h3 := s.records[u].bytes_length
    have h4 := g.header.size_pos
    unfold Stream.pos at h
    omega
  unfold capture poll
  simp only [bufIdxEnd_words hf.newest_le hf.batch, words_end, ne_eq, not_true_eq_false, if_false]
  split
  · rename_i h
    rw [hpos h.symm, hempty]
    exact ⟨hn, rfl⟩
  · rename_i hne
    obtain ⟨fs, hfs, hlen, hentry⟩ := walk_records hf hc (i := 0) (Nat.le_refl u) hf.unread
      (show p.e - u < 10 by have := hf.few; omega) hn
    rw [hfs]
    simp only
    have hue := hf.unread
    split
    · rename_i last x fh hlast hprev
      -- two records or more
      have hdl : 0 < fs.dropLast.length := by
        cases hd : fs.dropLast with
        | nil => rw [hd] at hprev; simp at hprev
        | cons y ys => simp
      rw [List.length_dropLast] at hdl
      have hnext : nextAfter u p = p.e - 1 := by
        unfold nextAfter
        rw [if_pos (by omega)]
      have hle : fs.length - 1 < fs.length := by omega
      obtain ⟨r, -, hname, -⟩ := hentry (fs.length - 1) hle
      have hl : last = fs[fs.length - 1] := by
        rw [List.getLast?_eq_getElem?, List.getElem?_eq_getElem hle] at hlast
        exact (Option.some.inj hlast).symm
      refine ⟨?_, ?_⟩
      · rw [hnext, hl]
        have e1 : u + (fs.length - 1) = p.e - 1 := by omega
        rw [← e1]
        exact hname
      · have hall := handAll_records hf (i := 0) (Nat.le_refl u)
          (show u + fs.dropLast.length ≤ p.e by rw [List.length_dropLast]; omega) fun n hn => by
            rw [List.length_dropLast] at hn
            rw [List.getElem_dropLast]
            exact hentry n (by omega)
        have e1 : u + fs.dropLast.length = p.e - 1 := by
          rw [List.length_dropLast]
          omega
        rw [hall, e1, hnext]
    · rename_i hnone
      -- at most one record: it stays
      have hshort : fs.length ≤ 1 := by
        by_contra hlong
        have h1 : fs.getLast? = some (fs.getLast (by rintro rfl; simp at hlong)) :=
          List.getLast?_eq_some_getLast _
        have h2 : fs.dropLast ≠ [] := by
          intro h
          have := congrArg List.length h
          rw [List.length_dropLast] at this
          simp only [List.length_nil] at this
          omega
        exact hnone _ _ _ h1 (List.getLast?_eq_some_getLast h2)
      have hnext : nextAfter u p = u := by
        unfold nextAfter
        rw [if_neg (by omega)]
      rw [hnext, hempty]
      exact ⟨hn, rfl⟩

/-- **A walk never meets an end at the start of the ring**: it passes `size` and goes on. -/
theorem walk_lost {hm : Nat → Mem} {room i : Nat} {cur : Int} (hcur : (g.offset : Int) < cur) :
    walk g hm g.offset room i cur = none := by
  induction room generalizing i cur with
  | zero => rfl
  | succ room ih =>
    have hspan := g.offset_add_span
    have hh := g.header.size_pos
    unfold walk
    rw [if_neg (by omega)]
    simp only
    split
    · rfl
    · rw [ih]
      · rfl
      · rw [cbMove_forward g cur (by omega)]
        unfold Wrap.advance
        split <;> omega

/-- A poll whose batch ends at the physical end, or a turn behind the unread records, hands on
    nothing. -/
theorem capture_nothing (hf : PollFair s u p) (hc : ¬ PollClear s u p) {c : Capture}
    (hn : Names g.offset g.span c.bufIdxEndPrev (s.pos u)) :
    (capture g c (s.words p.newest p.e) (fun i => s.mem (p.headerAt i))
      (fun i => s.mem (p.payloadAt i))).2 = [] := by
  have hturn : s.pos p.e % g.span = 0 ∨ addr g.offset g.span (s.pos p.e) =
      addr g.offset g.span (s.pos u) := by
    by_contra hno
    refine hc ⟨fun h => hno (.inl h), ?_⟩
    by_contra hlap
    obtain ⟨hw, ho, -⟩ := hf.headers 0
    have e1 : s.pos p.e = s.pos u + g.span := by
      unfold Stream.pos
      omega
    exact hno (.inr (by rw [e1, addr, addr, Nat.add_mod_right]))
  have hzero : s.pos p.e % g.span = 0 → addr g.offset g.span (s.pos p.e) = g.offset := by
    intro h
    rw [addr, h, Nat.add_zero]
  unfold capture poll
  simp only [bufIdxEnd_words hf.newest_le hf.batch, words_end, ne_eq, not_true_eq_false, if_false]
  split
  · rfl
  · rename_i hne
    have hz : s.pos p.e % g.span = 0 := by
      rcases hturn with h | h
      · exact h
      · rcases hn with hn | ⟨-, hn⟩
        · exact absurd (h.trans hn.symm) hne
        · have h0 := g.span_pos
          unfold addr at h
          omega
    have hcur : (g.offset : Int) < c.bufIdxEndPrev := by
      rw [hzero hz] at hne
      have h0 := g.span_pos
      rcases hn with hn | ⟨hn, -⟩
      · unfold addr at hn
        omega
      · omega
    rw [hzero hz, walk_lost hcur]

/-- **Exactly then a poll does what is asked of it**: a poll that finds two unread records or more
    hands on all but the newest if and only if the batch does not end at the physical end and the
    unread records are less than a turn. -/
theorem poll_complete_iff (hf : PollFair s u p) (htwo : u + 2 ≤ p.e) {c : Capture}
    (hn : Names g.offset g.span c.bufIdxEndPrev (s.pos u)) :
    (capture g c (s.words p.newest p.e) (fun i => s.mem (p.headerAt i))
      (fun i => s.mem (p.payloadAt i))).2 = (segment s u (p.e - 1)).map Record.frame ↔
      PollClear s u p := by
  have hnext : nextAfter u p = p.e - 1 := by
    unfold nextAfter
    rw [if_pos htwo]
  constructor
  · intro h
    by_contra hc
    rw [capture_nothing hf hc hn] at h
    have hlen := congrArg List.length h
    have hle := hf.e_le
    simp only [segment, List.length_nil, List.length_map, List.length_take, List.length_drop] at hlen
    omega
  · intro hc
    rw [← hnext]
    exact (capture_records hf hc hn).2

end OnePoll

/-! ## 4. Runs -/

/-- The program has handed on the records from `e` on, and is about to read the next one. -/
structure Handed {g : Geometry} (s : Stream g) (e : Nat) (w : World) : Prop where
  named : Names g.offset g.span w.reader.bufIdxEndPrev (s.pos w.next)
  le : e ≤ w.next
  handed : w.handed = (segment s e w.next).map Record.frame

theorem start_handed {g : Geometry} {s : Stream g} {newest e : Nat} (hle : newest ≤ e)
    (hbatch : s.written e - s.written newest ≤ g.span) : Handed s e (start s newest e) where
  named := .inl (bufIdxEnd_words hle hbatch)
  le := Nat.le_refl e
  handed := by simp [start, segment]

/-- **A poll keeps it.** -/
theorem step_handed {g : Geometry} {s : Stream g} {e : Nat} {w : World} {p : Poll}
    (hf : PollFair s w.next p) (hc : PollClear s w.next p) (h : Handed s e w) :
    Handed s e (step (capture g) s w p) := by
  obtain ⟨hname, hframes⟩ := capture_records hf hc h.named
  have hle : w.next ≤ nextAfter w.next p := by
    have := hf.unread
    unfold nextAfter
    split <;> omega
  refine ⟨hname, Nat.le_trans h.le hle, ?_⟩
  show w.handed ++ _ = _
  rw [hframes, h.handed, ← List.map_append, segment_append h.le hle]
  rfl

/-- **Every record but the newest is handed on once, in order, with its own header and payload**:
    for either program, any records in any ring, wherever they wrap, and any run of polls that
    find at most nine unread records, less than a turn and not overwritten while they are read,
    with no batch ending at the physical end. -/
theorem frames_complete {g : Geometry} {loop : MainLoop} (hloop : loop = capture g ∨ loop = grab g)
    (s : Stream g) {newest e : Nat} (hle : newest ≤ e)
    (hbatch : s.written e - s.written newest ≤ g.span) (polls : List Poll)
    (hpolls : StepsMeet (step loop s) (fun w p => PollFair s w.next p ∧ PollClear s w.next p)
      (start s newest e) polls) :
    (run (step loop s) (start s newest e) polls).handed =
        (segment s e (run (step loop s) (start s newest e) polls).next).map Record.frame ∧
      ∀ p, polls.getLast? = some p →
        p.e ≤ (run (step loop s) (start s newest e) polls).next + 1 := by
  have hcap : loop = capture g := hloop.elim id fun h => h.trans (grab_eq g)
  subst hcap
  refine ⟨(run_inv_of (I := Handed s e) (fun w p hC h => step_handed hC.1 hC.2 h)
    (start_handed hle hbatch) hpolls).handed, fun p hp => ?_⟩
  obtain ⟨qs, rfl⟩ := List.getLast?_eq_some_iff.mp hp
  rw [run_append]
  exact nextAfter_ge _ _

/-- A record with a payload of two bytes. -/
def shortRecord (n : UInt8) : Record .h22 where
  head := 2 :: List.replicate 21 0
  payload := [n, n]
  head_length := rfl
  payload_length := rfl
  sps_length := fun h => absurd h (by decide)

/-- A ring of 72 data bytes, three short records. -/
def shortRing : Geometry := ⟨300, 372, .h22, by decide⟩

/-- Three short records from ring position `base` on. -/
def shortStream (base : Nat) : Stream shortRing :=
  ⟨base, fun _ => 0, [shortRecord 1, shortRecord 2, shortRecord 3]⟩

/-- A poll that finds the second and the third of them as the newest batch. -/
def shortPoll : Poll := ⟨1, 3, fun _ => 72, fun _ => 72⟩

theorem shortPoll_reads (base : Nat) : ReadsAt (shortStream base) 1 3 72 :=
  ⟨Nat.le_refl 72, Nat.le_add_left 72 24, Nat.le_refl 72⟩

theorem shortPoll_fair (base : Nat) : PollFair (shortStream base) 1 shortPoll where
  newest_le := by decide
  e_le := Nat.le_refl 3
  batch := Nat.sub_le 72 24
  unread := by decide
  few := by decide
  headers := fun _ => shortPoll_reads base
  payloads := fun _ => shortPoll_reads base

/-- Where the third record wraps, the second one is handed on. -/
theorem frames_complete_wrapped :
    (run (step (capture shortRing) (shortStream 10)) (start (shortStream 10) 0 1)
      [shortPoll]).handed = [(shortRecord 2).frame] :=
  (frames_complete (.inl rfl) (shortStream 10) (by decide) (by decide) [shortPoll]
    ⟨⟨shortPoll_fair 10, ⟨by decide, by decide⟩⟩, trivial⟩).1

/-- All but the newest record are handed on, in every run whose polls find two to nine records
    that are not overwritten while they are read. -/
def FramesComplete (program : Geometry → MainLoop) : Prop :=
  ∀ (g : Geometry) (s : Stream g) (newest e : Nat) (polls : List Poll), newest ≤ e →
    s.written e - s.written newest ≤ g.span →
    StepsMeet (step (program g) s) (fun w p => PollFair s w.next p ∧ w.next + 2 ≤ p.e)
      (start s newest e) polls →
    (run (step (program g) s) (start s newest e) polls).handed =
      (segment s e (run (step (program g) s) (start s newest e) polls).next).map Record.frame

/-- **A batch that ends at the physical end of the ring is dropped**, by both programs: three short
    records fill the ring, and the second is never handed on. -/
theorem physical_end_drops : ¬ FramesComplete capture ∧ ¬ FramesComplete grab := by
  have hdrop : ¬ FramesComplete capture := by
    intro h
    have h := h shortRing (shortStream 0) 0 1 [shortPoll] (by decide) (by decide)
      ⟨⟨shortPoll_fair 0, by decide⟩, trivial⟩
    have hstart : Handed (shortStream 0) 1 (start (shortStream 0) 0 1) :=
      start_handed (by decide) (by decide)
    have hclear := (poll_complete_iff (shortPoll_fair 0) (by decide) hstart.named).mp h
    exact hclear.inside (by decide)
  exact ⟨hdrop, hdrop⟩

end YiHack.Video
