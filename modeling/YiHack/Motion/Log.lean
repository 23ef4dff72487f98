/-
  File:      YiHack/Motion/Log.lean
  Subject:   `motion_log.sh`: the awk program that writes the detector's log.

  One file takes the lines, and one has the generation before it. The program may be killed at any
  moment and started again, and any write may come short, as the files are in RAM. A file that is
  not there is an empty one. Lengths are in bytes.

  Beside the files the model notes the lines that were taken since the start, whether a write came
  short since, and whether there was a rotation.

  * `step` -- a start, a line, a step of `rotate`;
  * `Bounded` -- the files are short, whatever is written of a line;
  * `Ordered` -- they hold the newest lines, if all of them were written;
  * **`log_kept`** -- over every run.
-/
import YiHack.General.LineEdit
import YiHack.General.Run

namespace YiHack.Motion.Log

open General

/-! ## 1. The program -/

/-- `limit`. -/
def LIMIT : Nat := 65536

/-- `$0`. -/
def Line : Type := { l : Bytes // newline ∉ l }

/-- Between two lines; in `rotate`, with what `getline` has still to return; behind it. The line
    that does not fit is printed then. -/
inductive Phase
  | waiting
  | rotating (todo : List Bytes) (line : Bytes)
  | printing (line : Bytes)

structure Logger where
  current : Bytes
  backup : Bytes
  bytes : Nat
  phase : Phase
  taken : List Bytes
  short : Bool
  rotated : Bool

/-- A line longer than the file is cut. -/
def cutLine (l : Bytes) : Bytes := if LIMIT ≤ l.length then l.take (LIMIT - 1) else l

/-- `print line >> logfile`, of which `w` bytes are written. -/
def Logger.print (s : Logger) (line : Bytes) (w : Nat) : Logger :=
  { s with
    current := s.current ++ (line ++ [newline]).take w
    bytes := s.bytes + (line.length + 1)
    phase := .waiting
    taken := s.taken ++ [line]
    short := s.short || w < line.length + 1 }

/-- `BEGIN`. -/
def Logger.begin (s : Logger) : Logger :=
  { s with current := [], bytes := 0, phase := .waiting, taken := [], short := false,
           rotated := false }

/-- The next step of `rotate`. -/
def Logger.go (s : Logger) (w : Nat) : Logger :=
  match s.phase with
  | .waiting => s
  | .rotating (l :: todo) line =>
    { s with
      backup := s.backup ++ (l ++ [newline]).take w
      phase := .rotating todo line
      short := s.short || w < l.length + 1 }
  | .rotating [] line =>
    { s with current := [], bytes := 0, phase := .printing line, rotated := true }
  | .printing line => s.print line w

/-- A start, also after a kill at any moment; a line; the next step of `rotate`. -/
inductive Event
  | begin
  | line (l : Line) (w : Nat)
  | go (w : Nat)

def step (s : Logger) : Event → Logger
  | .begin => s.begin
  | .line l w =>
    match s.phase with
    | .waiting =>
      let line := cutLine l.val
      if s.bytes + (line.length + 1) > LIMIT then
        { s with backup := [], phase := .rotating (lines s.current) line }
      else s.print line w
    | _ => s
  | .go w => s.go w

/-- The first start, with the generation an earlier program has left. -/
def start (backup : Bytes) : Logger := ⟨[], backup, 0, .waiting, [], false, false⟩

theorem cutLine_length (l : Bytes) : (cutLine l).length + 1 ≤ LIMIT := by
  have hpos : 0 < LIMIT := by decide
  rw [cutLine]
  split
  · rw [List.length_take]
    omega
  · omega

theorem cutLine_single (l : Line) : newline ∉ cutLine l.val := by
  rw [cutLine]
  split
  · exact fun h => l.property (List.mem_of_mem_take h)
  · exact l.property

/-! ## 2. Bounds -/

/-- What a line that is not ended costs. -/
def owed (f : Bytes) : Nat := if rest f = [] then 0 else 1

theorem owed_le (f : Bytes) : owed f ≤ 1 := by
  rw [owed]
  split <;> omega

theorem owed_newline (f : Bytes) : owed (f ++ [newline]) = 0 := by
  have hf : f ++ [newline] = print (whole f ++ [rest f]) ++ [] := by
    conv_lhs => rw [← print_whole f]
    simp only [print, List.flatMap_append, List.flatMap_cons, List.flatMap_nil,
      List.append_nil, List.append_assoc]
  have hsingle : ∀ l ∈ whole f ++ [rest f], newline ∉ l := by
    intro l hl
    obtain hl | hl := List.mem_append.mp hl
    · exact (whole_single f).1 l hl
    · exact List.mem_singleton.mp hl ▸ (whole_single f).2
  have hrest := splitOn_print hsingle (r := []) List.not_mem_nil
  rw [owed, hf, rest, hrest, if_pos]
  rw [List.getLastD_concat]

/-- Copying a file line by line ends its last line. -/
theorem length_print_lines (f : Bytes) : (print (lines f)).length = f.length + owed f := by
  have hlen := congrArg List.length (print_whole f)
  rw [List.length_append] at hlen
  rw [lines_eq, owed]
  split
  · next h => rw [List.append_nil, ← hlen, h, List.length_nil, Nat.add_zero]
  · rw [print, List.flatMap_append, List.length_append, ← print, List.flatMap_cons,
      List.flatMap_nil, List.append_nil, List.length_append, List.length_singleton, ← hlen]
    omega

/-- What is written of a line, and what it owes, is no more than the line. -/
theorem length_written (f line : Bytes) (w : Nat) :
    (f ++ (line ++ [newline]).take w).length + owed (f ++ (line ++ [newline]).take w) ≤
      f.length + owed f + (line.length + 1) := by
  by_cases hw : line.length + 1 ≤ w
  · have htake : (line ++ [newline]).take w = line ++ [newline] :=
      List.take_of_length_le (by rw [List.length_append, List.length_singleton]; exact hw)
    rw [htake, ← List.append_assoc, owed_newline, List.length_append, List.length_append,
      List.length_singleton]
    omega
  · have hone := owed_le (f ++ (line ++ [newline]).take w)
    rw [List.length_append, List.length_take, List.length_append, List.length_singleton]
    omega

/-- What is in the backup, and what will come to it. -/
def Room (s : Logger) : Prop :=
  match s.phase with
  | .waiting => s.backup.length ≤ LIMIT
  | .rotating todo line =>
    s.backup.length + (print todo).length ≤ LIMIT ∧ line.length + 1 ≤ LIMIT
  | .printing line => s.backup.length ≤ LIMIT ∧ s.bytes + (line.length + 1) ≤ LIMIT

structure Bounded (s : Logger) : Prop where
  counted : s.current.length + owed s.current ≤ s.bytes
  bytes : s.bytes ≤ LIMIT
  room : Room s

theorem Room.backup {s : Logger} (h : Room s) : s.backup.length ≤ LIMIT := by
  unfold Room at h
  split at h
  · exact h
  · exact (Nat.le_add_right _ _).trans h.1
  · exact h.1

theorem Bounded.printed {s : Logger} (h : Bounded s) {line : Bytes}
    (hline : s.bytes + (line.length + 1) ≤ LIMIT) (w : Nat) : Bounded (s.print line w) where
  counted := (length_written s.current line w).trans (Nat.add_le_add_right h.counted _)
  bytes := hline
  room := h.room.backup

theorem Bounded.go {s : Logger} (h : Bounded s) (w : Nat) : Bounded (s.go w) := by
  obtain ⟨current, backup, bytes, phase, taken, short, rotated⟩ := s
  obtain ⟨hcounted, hbytes, hroom⟩ := h
  cases phase with
  | waiting => exact ⟨hcounted, hbytes, hroom⟩
  | rotating todo line =>
    cases todo with
    | nil => exact ⟨Nat.le_refl 0, Nat.zero_le _, (Nat.le_add_right _ _).trans hroom.1,
        (Nat.zero_add _).trans_le hroom.2⟩
    | cons l todo =>
      refine ⟨hcounted, hbytes, ?_, hroom.2⟩
      have htodo := hroom.1
      rw [print_cons, List.length_append, List.length_cons] at htodo
      show (backup ++ (l ++ [newline]).take w).length + (print todo).length ≤ LIMIT
      have hw : ((l ++ [newline]).take w).length ≤ l.length + 1 :=
        (List.length_take_le' _ _).trans_eq List.length_append
      rw [List.length_append]
      exact (by omega : _ ≤ backup.length + (l.length + ((print todo).length + 1))).trans htodo
  | printing line => exact Bounded.printed ⟨hcounted, hbytes, hroom⟩ hroom.2 w

/-- **A step keeps both files short.** -/
theorem Bounded.step {s : Logger} (h : Bounded s) (e : Event) : Bounded (step s e) := by
  cases e with
  | begin => exact ⟨Nat.le_refl 0, Nat.zero_le _, h.room.backup⟩
  | line l w =>
    rw [Log.step]
    split
    · dsimp only
      split
      · refine ⟨h.counted, h.bytes, ?_, cutLine_length l.val⟩
        show [].length + (print (lines s.current)).length ≤ LIMIT
        rw [List.length_nil, Nat.zero_add, length_print_lines]
        exact h.counted.trans h.bytes
      · next hfit => exact h.printed (not_lt.mp hfit) w
    · exact h
  | go w => exact h.go w

/-! ## 3. What the files hold -/

/-- The lines `new` are in the files. -/
def Holds (s : Logger) (new : List Bytes) : Prop :=
  match s.phase with
  | .waiting =>
    if s.rotated then ∃ prev cur, new = prev ++ cur ∧ s.backup = print prev ∧ s.current = print cur
    else s.current = print new
  | .rotating todo _ => ∃ done, new = done ++ todo ∧ s.current = print new ∧ s.backup = print done
  | .printing _ => s.rotated = true ∧ s.backup = print new ∧ s.current = []

/-- What is printed next. -/
def pending (s : Logger) : Nat :=
  match s.phase with
  | .waiting => 0
  | .rotating _ line => line.length + 1
  | .printing line => line.length + 1

/-- The newest of the lines taken are in the files, and with the line to come they would not fit
    into one, if any is missing. -/
def Newest (s : Logger) : Prop :=
  ∃ older new, s.taken = older ++ new ∧ Holds s new ∧
    (older ≠ [] → LIMIT < (print new).length + pending s)

/-- A line that waits to be printed is one line. -/
def Single (s : Logger) : Prop :=
  match s.phase with
  | .waiting => True
  | .rotating _ line => newline ∉ line
  | .printing line => newline ∉ line

/-- As long as no write came short. -/
structure Ordered (s : Logger) : Prop where
  counted : s.bytes = s.current.length
  single : ∀ l ∈ s.taken, newline ∉ l
  next : Single s
  newest : Newest s

theorem print_append (ls ms : List Bytes) : print (ls ++ ms) = print ls ++ print ms :=
  List.flatMap_append

theorem print_single (l : Bytes) : print [l] = l ++ [newline] := List.append_nil _

theorem length_print_concat (ls : List Bytes) (l : Bytes) :
    (print (ls ++ [l])).length = (print ls).length + (l.length + 1) := by
  rw [print_append, print_single, List.length_append, List.length_append, List.length_singleton]

/-- A write that did not come short. -/
theorem take_of_whole {line : Bytes} {w : Nat} (h : decide (w < line.length + 1) = false) :
    (line ++ [newline]).take w = line ++ [newline] := by
  refine List.take_of_length_le ?_
  rw [List.length_append, List.length_singleton]
  exact not_lt.mp (of_decide_eq_false h)

/-- A line behind the others, where it fits. -/
theorem Ordered.printed {s : Logger} (h : Ordered s) (hphase : s.phase = .waiting) {line : Bytes}
    (hline : newline ∉ line) {w : Nat} (hw : decide (w < line.length + 1) = false) :
    Ordered (s.print line w) := by
  obtain ⟨older, new, htaken, hholds, hover⟩ := h.newest
  rw [Holds, hphase] at hholds
  rw [pending, hphase] at hover
  have hcurrent : (s.print line w).current = s.current ++ (line ++ [newline]) :=
    congrArg (s.current ++ ·) (take_of_whole hw)
  refine ⟨?_, fun l hl => ?_, trivial, older, new ++ [line], ?_, ?_, fun hne => ?_⟩
  · rw [hcurrent, List.length_append, ← h.counted, List.length_append, List.length_singleton]
    rfl
  · obtain hl | hl := List.mem_append.mp hl
    · exact h.single l hl
    · exact List.mem_singleton.mp hl ▸ hline
  · rw [← List.append_assoc, ← htaken]
    rfl
  · show if s.rotated then _ else _
    dsimp only at hholds
    split at hholds
    · next hrot =>
      obtain ⟨prev, cur, hnew, hbackup, hcur⟩ := hholds
      rw [if_pos hrot]
      refine ⟨prev, cur ++ [line], ?_, hbackup, ?_⟩
      · rw [hnew, List.append_assoc]
      · rw [hcurrent, hcur, print_append, print_single]
    · next hrot =>
      rw [if_neg hrot, hcurrent, hholds, print_append, print_single]
  · have hlt := hover hne
    show LIMIT < (print (new ++ [line])).length + 0
    rw [length_print_concat]
    exact hlt.trans_le (Nat.add_le_add_left (Nat.zero_le _) _)

/-- A line that does not fit: the generation before is gone, and this one is copied. -/
theorem Ordered.rotate {s : Logger} (h : Ordered s) (hphase : s.phase = .waiting) {line : Bytes}
    (hline : newline ∉ line) (hfull : s.bytes + (line.length + 1) > LIMIT) :
    Ordered { s with backup := [], phase := .rotating (lines s.current) line } := by
  obtain ⟨older, new, htaken, hholds, -⟩ := h.newest
  rw [Holds, hphase] at hholds
  dsimp only at hholds
  have hnew : ∃ prev cur, new = prev ++ cur ∧ s.current = print cur := by
    split at hholds
    · obtain ⟨prev, cur, hnew, -, hcur⟩ := hholds
      exact ⟨prev, cur, hnew, hcur⟩
    · exact ⟨[], new, rfl, hholds⟩
  obtain ⟨prev, cur, hnew, hcur⟩ := hnew
  have hlines : lines s.current = cur := by
    rw [hcur]
    refine lines_print fun l hl => h.single l ?_
    rw [htaken, hnew]
    exact List.mem_append_right _ (List.mem_append_right _ hl)
  refine ⟨h.counted, h.single, hline, older ++ prev, cur, ?_, ⟨[], hlines.symm, hcur, rfl⟩, ?_⟩
  · rw [List.append_assoc, ← hnew]
    exact htaken
  · intro _
    rw [← hcur, ← h.counted]
    exact hfull

theorem Ordered.go {s : Logger} (h : Ordered s) {w : Nat} (hshort : (s.go w).short = false) :
    Ordered (s.go w) := by
  obtain ⟨current, backup, bytes, phase, taken, short, rotated⟩ := s
  obtain ⟨hcounted, hsingle, hnext, older, new, htaken, hholds, hover⟩ := h
  cases phase with
  | waiting => exact ⟨hcounted, hsingle, hnext, older, new, htaken, hholds, hover⟩
  | rotating todo line =>
    obtain ⟨done, hnew, hcurrent, hbackup⟩ := hholds
    cases todo with
    | nil =>
      refine ⟨rfl, hsingle, hnext, older, new, htaken, ⟨rfl, ?_, rfl⟩, hover⟩
      rw [hnew, List.append_nil]
      exact hbackup
    | cons l todo =>
      have hw := (Bool.or_eq_false_iff.mp hshort).2
      refine ⟨hcounted, hsingle, hnext, older, new, htaken, ⟨done ++ [l], ?_, hcurrent, ?_⟩, hover⟩
      · rw [hnew, List.append_assoc, List.singleton_append]
      · show backup ++ (l ++ [newline]).take w = _
        rw [take_of_whole hw, print_append, print_single]
        exact congrArg (· ++ (l ++ [newline])) hbackup
  | printing line =>
    obtain ⟨hrot, hbackup, hcurrent⟩ := hholds
    have hw := (Bool.or_eq_false_iff.mp hshort).2
    have hwrite : current ++ (line ++ [newline]).take w = print [line] := by
      rw [take_of_whole hw, print_single]
      exact congrArg (· ++ (line ++ [newline])) hcurrent
    refine ⟨?_, fun l hl => ?_, trivial, older, new ++ [line], ?_, ?_, fun hne => ?_⟩
    · show bytes + (line.length + 1) = (current ++ (line ++ [newline]).take w).length
      rw [hwrite, print_single, List.length_append, List.length_singleton]
      have hbytes : bytes = 0 := hcounted.trans (congrArg List.length hcurrent)
      rw [hbytes, Nat.zero_add]
    · obtain hl | hl := List.mem_append.mp hl
      · exact hsingle l hl
      · exact List.mem_singleton.mp hl ▸ hnext
    · rw [← List.append_assoc]
      exact congrArg (· ++ [line]) htaken
    · show if rotated then _ else _
      rw [if_pos hrot]
      exact ⟨new, [line], rfl, hbackup, hwrite⟩
    · show LIMIT < (print (new ++ [line])).length + 0
      rw [length_print_concat]
      exact hover hne

theorem short_step {s : Logger} {e : Event} (he : e ≠ .begin) (h : s.short = true) :
    (step s e).short = true := by
  cases e with
  | begin => exact absurd rfl he
  | line l w =>
    rw [step]
    split
    · dsimp only
      split
      · exact h
      · exact Bool.or_eq_true_iff.mpr (.inl h)
    · exact h
  | go w =>
    obtain ⟨current, backup, bytes, phase, taken, short, rotated⟩ := s
    cases phase with
    | waiting => exact h
    | rotating todo line =>
      cases todo with
      | nil => exact h
      | cons l todo => exact Bool.or_eq_true_iff.mpr (.inl h)
    | printing line => exact Bool.or_eq_true_iff.mpr (.inl h)

theorem ordered_begin (s : Logger) : Ordered s.begin where
  counted := rfl
  single _ hl := absurd hl List.not_mem_nil
  next := trivial
  newest := ⟨[], [], rfl, rfl, fun h => absurd rfl h⟩

/-- **A step keeps the newest lines**, unless a write comes short. -/
theorem step_ordered (s : Logger) (e : Event) (h : s.short = false → Ordered s)
    (hshort : (step s e).short = false) : Ordered (step s e) := by
  by_cases he : e = .begin
  · rw [he]
    exact ordered_begin s
  · have hs : s.short = false := by
      by_contra hs
      exact absurd ((short_step he (Bool.eq_true_of_not_eq_false hs)).symm.trans hshort) nofun
    cases e with
    | begin => exact absurd rfl he
    | go w => exact (h hs).go hshort
    | line l w =>
      rw [step] at hshort ⊢
      split
      · next hphase =>
        rw [hphase] at hshort
        dsimp only at hshort ⊢
        split
        · next hfull => exact (h hs).rotate hphase (cutLine_single l) hfull
        · next hfit =>
          rw [if_neg hfit] at hshort
          exact (h hs).printed hphase (cutLine_single l) (Bool.or_eq_false_iff.mp hshort).2
      · exact h hs

/-! ## 4. Every run -/

/-- What the two files are for: they are short, and as long as no write has come short they hold
    the newest lines taken since the start, all of them unless these would be too many for one
    file. -/
structure Kept (s : Logger) : Prop where
  current : s.current.length ≤ LIMIT
  backup : s.backup.length ≤ LIMIT
  newest : s.short = false → Newest s

theorem start_bounded {backup : Bytes} (h : backup.length ≤ LIMIT) : Bounded (start backup) :=
  ⟨Nat.le_refl 0, Nat.zero_le _, h⟩

theorem start_ordered (backup : Bytes) : Ordered (start backup) where
  counted := rfl
  single _ hl := absurd hl List.not_mem_nil
  next := trivial
  newest := ⟨[], [], rfl, rfl, fun h => absurd rfl h⟩

/-- **The log is bounded and keeps its newest lines**, over any lines, kills and starts. -/
theorem log_kept (backup : { b : Bytes // b.length ≤ LIMIT }) (es : List Event) :
    Kept (run step (start backup.val) es) := by
  have h := run_inv (I := fun s => Bounded s ∧ (s.short = false → Ordered s))
    (fun s e h => ⟨h.1.step e, step_ordered s e h.2⟩)
    ⟨start_bounded backup.property, fun _ => start_ordered backup.val⟩ es
  exact ⟨(Nat.le_add_right _ _).trans (h.1.counted.trans h.1.bytes), h.1.room.backup,
    fun hs => (h.2 hs).newest⟩

end YiHack.Motion.Log
