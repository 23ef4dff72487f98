/-
  File:      YiHack/Alarm/Files.lean
  Subject:   `ipc2file.c`: the alarm files that mirror the messages of the vendor's process.

  All file operations succeed in a run; `processEvent` itself takes whether `fopen` did. The thread
  that takes the sound file away acts between any two messages.

  * `parseMessage`, `processEvent` -- the functions of the source;
  * `Mirrors` -- the files of a run are those of the alarms that are on;
  * **`mirrors_iff`** -- where two alarms never overlap, and nowhere else.
-/
import YiHack.General.Run
import Mathlib.Data.List.Induction
import Mathlib.Data.List.Find

namespace YiHack.Alarm

open General

/-! ## 1. Messages -/

/-- `IPC_MESSAGE_TYPE`, less the bounds of the table. -/
inductive IpcMessageType
  | motionStart
  | motionStop
  | aiHumanDetection
  | aiVehicleDetection
  | aiAnimalDetection
  | babyCrying
  | soundDetection
  deriving DecidableEq, Repr

def IPC_MOTION_START : List UInt8 := [1, 0, 0, 0, 2, 0, 0, 0, 0x7c, 0, 0x7c, 0, 0, 0, 0, 0]

def IPC_MOTION_START_C : List UInt8 := [4, 0, 0, 0, 2, 0, 0, 0, 0x09, 0x70, 0x09, 0x70, 0, 0, 0, 0]

def IPC_MOTION_STOP : List UInt8 := [1, 0, 0, 0, 2, 0, 0, 0, 0x7d, 0, 0x7d, 0, 0, 0, 0, 0]

def IPC_AI_HUMAN_DETECTION : List UInt8 := [1, 0, 0, 0, 2, 0, 0, 0, 0xed, 0, 0xed, 0, 0, 0, 0, 0]

def IPC_AI_BODY_DETECTION_C : List UInt8 :=
  [4, 0, 0, 0, 2, 0, 0, 0, 0x06, 0x70, 0x06, 0x70, 0, 0, 0, 0]

def IPC_AI_VEHICLE_DETECTION_C : List UInt8 :=
  [4, 0, 0, 0, 2, 0, 0, 0, 0x07, 0x70, 0x07, 0x70, 0, 0, 0, 0]

def IPC_AI_ANIMAL_DETECTION_C : List UInt8 :=
  [4, 0, 0, 0, 2, 0, 0, 0, 0x08, 0x70, 0x08, 0x70, 0, 0, 0, 0]

def IPC_BABY_CRYING : List UInt8 := [4, 0, 0, 0, 2, 0, 0, 0, 0x02, 0x60, 0x02, 0x60, 0, 0, 0, 0]

def IPC_SOUND_DETECTION : List UInt8 := [4, 0, 0, 0, 2, 0, 0, 0, 0x04, 0x60, 0x04, 0x60, 0, 0, 0, 0]

/-- The tests of `parse_message`, in the order of the source, with what each handles. -/
def messageTable : List (List UInt8 × IpcMessageType) :=
  [(IPC_MOTION_START, .motionStart), (IPC_MOTION_START_C, .motionStart),
    (IPC_MOTION_STOP, .motionStop), (IPC_AI_HUMAN_DETECTION, .aiHumanDetection),
    (IPC_AI_BODY_DETECTION_C, .aiHumanDetection), (IPC_AI_VEHICLE_DETECTION_C, .aiVehicleDetection),
    (IPC_AI_ANIMAL_DETECTION_C, .aiAnimalDetection), (IPC_BABY_CRYING, .babyCrying),
    (IPC_SOUND_DETECTION, .soundDetection)]

/-- `len >= sizeof(text) - 1 && memcmp(msg, text, sizeof(text) - 1) == 0`. -/
def begins (msg text : List UInt8) : Bool :=
  text.length ≤ msg.length && msg.take text.length == text

/-- `parse_message`: what is handled, if the message is recognised. -/
def parseMessage (msg : List UInt8) : Option IpcMessageType :=
  (messageTable.find? fun row => begins msg row.1).map Prod.snd

theorem begins_append {text other : List UInt8} (h : text.length = other.length) (rest : List UInt8) :
    begins (text ++ rest) other = (text == other) := by
  have htake : (text ++ rest).take other.length = text := by rw [← h, List.take_left]
  rw [begins, htake, List.length_append, h, decide_eq_true (Nat.le_add_right _ _), Bool.true_and]

theorem messageTable_length : ∀ row ∈ messageTable, row.1.length = 16 := by decide

/-- **Each message is recognised by its first bytes**, whatever follows them. -/
theorem parseMessage_text {row : List UInt8 × IpcMessageType} (h : row ∈ messageTable)
    (rest : List UInt8) : parseMessage (row.1 ++ rest) = some row.2 := by
  have hfirst : ∀ row ∈ messageTable,
      (messageTable.find? fun r => row.1 == r.1).map Prod.snd = some row.2 := by decide
  have htests : ∀ r ∈ messageTable, begins (row.1 ++ rest) r.1 = (row.1 == r.1) := fun r hr =>
    begins_append ((messageTable_length row h).trans (messageTable_length r hr).symm) rest
  have hfind : (messageTable.find? fun r => begins (row.1 ++ rest) r.1) =
      messageTable.find? fun r => row.1 == r.1 := List.find?_congr htests
  rw [parseMessage, hfind]
  exact hfirst row h

/-! ## 2. Files -/

/-- The files under `/tmp/onvif_notify_server`. -/
inductive AlarmFile
  | motionAlarm
  | humanDetection
  | vehicleDetection
  | animalDetection
  | babyCrying
  | soundDetection
  deriving DecidableEq, Repr

/-- The file that a message creates. -/
def createdBy : IpcMessageType → Option AlarmFile
  | .motionStart => some .motionAlarm
  | .aiHumanDetection => some .humanDetection
  | .aiVehicleDetection => some .vehicleDetection
  | .aiAnimalDetection => some .animalDetection
  | .babyCrying => some .babyCrying
  | .soundDetection => some .soundDetection
  | .motionStop => none

/-- The file that a stop removes, by `last_alarm`. -/
def removedAfter : IpcMessageType → Option AlarmFile
  | .motionStart => some .motionAlarm
  | .aiHumanDetection => some .humanDetection
  | .aiVehicleDetection => some .vehicleDetection
  | .aiAnimalDetection => some .animalDetection
  | .babyCrying => some .babyCrying
  | _ => none

/-- The directory and the process: `last_alarm` is none before the first alarm, `sleepers` are the
    threads that sleep before they take the sound file away. -/
structure Ipc2file where
  files : AlarmFile → Bool
  lastAlarm : Option IpcMessageType
  sleepers : Nat

def Ipc2file.start : Ipc2file := ⟨fun _ => false, none, 0⟩

namespace Ipc2file

/-- `fopen` with `fclose`. -/
def create (s : Ipc2file) (f : AlarmFile) : Ipc2file :=
  { s with files := fun g => if g = f then true else s.files g }

def remove (s : Ipc2file) (f : AlarmFile) : Ipc2file :=
  { s with files := fun g => if g = f then false else s.files g }

/-- The file of the last alarm, if a stop removes it. -/
def lastFile (s : Ipc2file) : Option AlarmFile := s.lastAlarm.bind removedAfter

end Ipc2file

/-- The two lines behind the `switch` of `process_event`. -/
def remember (s : Ipc2file) (alarm : IpcMessageType) : Ipc2file :=
  if alarm = .soundDetection then s else { s with lastAlarm := some alarm }

/-- `process_event`; `opened` says whether `fopen` succeeds. -/
def processEvent (s : Ipc2file) (alarm : IpcMessageType) (opened : Bool) : Ipc2file :=
  match createdBy alarm with
  | some f =>
    if opened = false then s
    else if alarm = .soundDetection then
      remember { s.create f with sleepers := s.sleepers + 1 } alarm
    else remember (s.create f) alarm
  | none =>
    match s.lastFile with
    | some f => remember (s.remove f) alarm
    | none => remember s alarm

/-- `sound_stop_thread` behind its `sleep`. -/
def soundStopThread (s : Ipc2file) : Ipc2file :=
  if s.sleepers = 0 then s else { s.remove .soundDetection with sleepers := s.sleepers - 1 }

/-! ## 3. Runs -/

inductive Event
  | message (msg : List UInt8)
  | soundStop

/-- What an event says of the alarms. -/
def Event.alarm : Event → Option IpcMessageType
  | .message msg => parseMessage msg
  | .soundStop => none

/-- A message received, every file operation succeeding, or a thread's end. -/
def step (s : Ipc2file) : Event → Ipc2file
  | .message msg =>
    match parseMessage msg with
    | some alarm => processEvent s alarm true
    | none => s
  | .soundStop => soundStopThread s

/-- The event stops the alarms. -/
def Event.Stops (e : Event) : Prop := e.alarm = some .motionStop

/-- The event starts the alarm of the file. -/
def Event.Starts (e : Event) (f : AlarmFile) : Prop := e.alarm.bind removedAfter = some f

/-- The files that a stop takes away. -/
def AlarmFile.Stopped (f : AlarmFile) : Prop := f ≠ .soundDetection

/-- The files mirror the alarms, behind every prefix of the run. -/
structure Mirrors (es : List Event) : Prop where
  silent : ∀ before stop after rest, es = before ++ stop :: (after ++ rest) → stop.Stops →
    (∀ e ∈ after, ∀ f, ¬ e.Starts f) →
    ∀ f, f.Stopped → (run step .start (before ++ stop :: after)).files f = false
  lasting : ∀ before start after rest f, es = before ++ start :: (after ++ rest) → start.Starts f →
    (∀ e ∈ after, ¬ e.Stops) → (run step .start (before ++ start :: after)).files f = true

/-- Up to each stop, and since the stop before, one alarm is started. -/
def OneAlarm (es : List Event) : Prop :=
  ∀ before between stop rest, es = before ++ (between ++ stop :: rest) → stop.Stops →
    (∀ e ∈ between, ¬ e.Stops) →
    ∀ e ∈ between, ∀ e' ∈ between, ∀ f f', e.Starts f → e'.Starts f' → f = f'

/-! ## 4. Steps -/

variable {s : Ipc2file} {e : Event} {es : List Event} {f g : AlarmFile}

/-- A message that a stop answers is not the stop, and creates the file it removes. -/
theorem createdBy_of_removedAfter {alarm : IpcMessageType} (h : removedAfter alarm = some f) :
    createdBy alarm = some f ∧ alarm ≠ .soundDetection ∧ f.Stopped := by
  cases alarm <;> cases h <;> exact ⟨rfl, nofun, nofun⟩

theorem Event.Starts.stopped (h : e.Starts f) : f.Stopped := by
  obtain ⟨alarm, -, hf⟩ := Option.bind_eq_some_iff.mp h
  exact (createdBy_of_removedAfter hf).2.2

theorem Event.Starts.unique (hf : e.Starts f) (hg : e.Starts g) : f = g :=
  Option.some.inj (hf.symm.trans hg)

/-- **A start** creates its file and is remembered. -/
theorem step_starts (h : e.Starts f) : (step s e).lastFile = some f ∧
    ∀ g, (step s e).files g = if g = f then true else s.files g := by
  obtain ⟨alarm, halarm, hf⟩ := Option.bind_eq_some_iff.mp h
  obtain ⟨hcreated, hsound, -⟩ := createdBy_of_removedAfter hf
  cases e with
  | soundStop => exact absurd halarm nofun
  | message msg =>
    have hmsg : parseMessage msg = some alarm := halarm
    have hstep : step s (.message msg) = { s.create f with lastAlarm := some alarm } := by
      simp only [step, hmsg, processEvent, hcreated, Bool.true_eq_false, if_false, hsound, remember]
    rw [hstep]
    exact ⟨hf, fun g => rfl⟩

/-- **A stop** removes the file of the last alarm. -/
theorem step_stops (h : e.Stops) : (step s e).lastFile = none ∧
    ∀ g, (step s e).files g = (s.files g && decide (s.lastFile ≠ some g)) := by
  cases e with
  | soundStop => exact absurd h nofun
  | message msg =>
    have hmsg : parseMessage msg = some .motionStop := h
    simp only [step, hmsg, processEvent, createdBy]
    cases hlast : s.lastFile with
    | none => exact ⟨rfl, fun g => by simp [remember]⟩
    | some f =>
      refine ⟨rfl, fun g => ?_⟩
      by_cases hg : g = f
      · simp [remember, Ipc2file.remove, hg]
      · simp [remember, Ipc2file.remove, hg, Ne.symm hg]

/-- **Sounds and what is not recognised** leave the files of the alarms alone. -/
theorem step_other (hstop : ¬ e.Stops) (hstart : ∀ f, ¬ e.Starts f) :
    (step s e).lastFile = s.lastFile ∧ ∀ g, g.Stopped → (step s e).files g = s.files g := by
  cases e with
  | soundStop =>
    rw [step, soundStopThread]
    split
    · exact ⟨rfl, fun g _ => rfl⟩
    · exact ⟨rfl, fun g hg => if_neg hg⟩
  | message msg =>
    rw [step]
    split
    next alarm hmsg =>
      cases alarm with
      | soundDetection => exact ⟨rfl, fun g hg => if_neg hg⟩
      | motionStop => exact absurd hmsg hstop
      | motionStart => exact absurd (congrArg (Option.bind · removedAfter) hmsg) (hstart _)
      | aiHumanDetection => exact absurd (congrArg (Option.bind · removedAfter) hmsg) (hstart _)
      | aiVehicleDetection => exact absurd (congrArg (Option.bind · removedAfter) hmsg) (hstart _)
      | aiAnimalDetection => exact absurd (congrArg (Option.bind · removedAfter) hmsg) (hstart _)
      | babyCrying => exact absurd (congrArg (Option.bind · removedAfter) hmsg) (hstart _)
    next => exact ⟨rfl, fun g _ => rfl⟩

/-! ## 5. Between two stops -/

/-- No file is left for a stop. -/
def Ipc2file.Clear (s : Ipc2file) : Prop := ∀ g, AlarmFile.Stopped g → s.files g = false

/-- Of the files that a stop removes there is at most the last alarm's, and that is `f`. -/
def Ipc2file.Only (s : Ipc2file) (f : AlarmFile) : Prop :=
  ∀ g, AlarmFile.Stopped g → s.files g = true → g = f ∧ s.lastFile = some f

theorem only_step (h : s.Only f) (hstop : ¬ e.Stops) (hstart : ∀ g, e.Starts g → g = f) :
    (step s e).Only f := by
  by_cases hf : ∃ g, e.Starts g
  · obtain ⟨g, hg⟩ := hf
    obtain rfl := hstart g hg
    obtain ⟨hlast, hfiles⟩ := step_starts (s := s) hg
    intro k hk htrue
    refine ⟨?_, hlast⟩
    by_contra hne
    rw [hfiles, if_neg hne] at htrue
    exact hne (h k hk htrue).1
  · obtain ⟨hlast, hfiles⟩ := step_other (s := s) hstop fun g hg => hf ⟨g, hg⟩
    intro k hk htrue
    rw [hfiles k hk] at htrue
    rw [hlast]
    exact h k hk htrue

theorem only_run (h : s.Only f) (hstop : ∀ e ∈ es, ¬ e.Stops)
    (hstart : ∀ e ∈ es, ∀ g, e.Starts g → g = f) : (run step s es).Only f := by
  induction es generalizing s with
  | nil => exact h
  | cons e es ih =>
    exact ih (only_step h (hstop e List.mem_cons_self) (hstart e List.mem_cons_self))
      (fun e' he' => hstop e' (List.mem_cons_of_mem _ he'))
      fun e' he' => hstart e' (List.mem_cons_of_mem _ he')

/-- **A stop behind one alarm clears.** -/
theorem clear_of_only (h : s.Only f) (hstop : e.Stops) : (step s e).Clear := by
  intro g hg
  rw [(step_stops hstop).2 g]
  cases hfile : s.files g with
  | false => rfl
  | true =>
    obtain ⟨rfl, hlast⟩ := h g hg hfile
    simp [hlast]

/-- The alarms between two stops are one. -/
theorem exists_only (h : ∀ e ∈ es, ∀ e' ∈ es, ∀ f f', e.Starts f → e'.Starts f' → f = f') :
    ∃ f, ∀ e ∈ es, ∀ g, e.Starts g → g = f := by
  by_cases hany : ∃ e ∈ es, ∃ f, e.Starts f
  · obtain ⟨e, he, f, hf⟩ := hany
    exact ⟨f, fun e' he' g hg => h e' he' e he g f hg hf⟩
  · exact ⟨.motionAlarm, fun e he g hg => absurd ⟨e, he, g, hg⟩ hany⟩

theorem only_of_clear (h : s.Clear) (f : AlarmFile) : s.Only f :=
  fun g hg htrue => Bool.noConfusion ((h g hg).symm.trans htrue)

theorem clear_run (h : s.Clear) (hstart : ∀ e ∈ es, ∀ f, ¬ e.Starts f) : (run step s es).Clear := by
  induction es generalizing s with
  | nil => exact h
  | cons e es ih =>
    refine ih (fun g hg => ?_) fun e' he' => hstart e' (List.mem_cons_of_mem _ he')
    have hnone := hstart e List.mem_cons_self
    by_cases hstop : e.Stops
    · rw [(step_stops hstop).2 g, h g hg]
      rfl
    · rw [(step_other hstop hnone).2 g hg, h g hg]

/-- **A file stays up to the next stop.** -/
theorem lasts_run (h : s.files f = true) (hf : f.Stopped) (hstop : ∀ e ∈ es, ¬ e.Stops) :
    (run step s es).files f = true := by
  induction es generalizing s with
  | nil => exact h
  | cons e es ih =>
    refine ih ?_ fun e' he' => hstop e' (List.mem_cons_of_mem _ he')
    by_cases hstart : ∃ g, e.Starts g
    · obtain ⟨g, hg⟩ := hstart
      rw [(step_starts hg).2 f]
      split
      · rfl
      · exact h
    · rw [(step_other (hstop e List.mem_cons_self) fun g hg => hstart ⟨g, hg⟩).2 f hf, h]

/-! ## 6. Runs -/

instance (e : Event) : Decidable e.Stops := inferInstanceAs (Decidable (_ = _))

theorem OneAlarm.suffix {before : List Event} (h : OneAlarm (before ++ es)) : OneAlarm es := by
  intro before' between stop rest hes
  refine h (before ++ before') between stop rest ?_
  rw [hes, List.append_assoc]

/-- A list up to its first stop. -/
theorem exists_first_stop (es : List Event) : (∀ e ∈ es, ¬ e.Stops) ∨
    ∃ between stop rest, es = between ++ stop :: rest ∧ stop.Stops ∧ ∀ e ∈ between, ¬ e.Stops := by
  induction es with
  | nil => exact .inl fun e he => absurd he List.not_mem_nil
  | cons e es ih =>
    by_cases hstop : e.Stops
    · exact .inr ⟨[], e, es, rfl, hstop, fun e he => absurd he List.not_mem_nil⟩
    · obtain hnone | ⟨between, stop, rest, rfl, hs, hbetween⟩ := ih
      · exact .inl (List.forall_mem_cons.mpr ⟨hstop, hnone⟩)
      · exact .inr ⟨e :: between, stop, rest, rfl, hs, List.forall_mem_cons.mpr ⟨hstop, hbetween⟩⟩

/-- **Behind every stop all is clear**, where one alarm is started at a time. -/
theorem clear_at_stop (hs : s.Clear) {before rest : List Event} {stop : Event}
    (h : OneAlarm (before ++ stop :: rest)) (hstop : stop.Stops) :
    (run step s (before ++ [stop])).Clear := by
  induction hn : before.length using Nat.strongRecOn generalizing before s with
  | ind n ih =>
    obtain hnone | ⟨between, first, before', rfl, hfirst, hbetween⟩ := exists_first_stop before
    · obtain ⟨f, hf⟩ := exists_only (h [] before stop rest rfl hstop hnone)
      rw [run_append]
      exact clear_of_only (only_run (only_of_clear hs f) hnone hf) hstop
    · have hsplit : between ++ first :: before' ++ stop :: rest =
          between ++ [first] ++ (before' ++ stop :: rest) := by simp
      obtain ⟨f, hf⟩ := exists_only (h [] between first (before' ++ stop :: rest)
        (by simp) hfirst hbetween)
      have hclear : (run step s (between ++ [first])).Clear := by
        rw [run_append]
        exact clear_of_only (only_run (only_of_clear hs f) hbetween hf) hfirst
      have hlast :=
        ih before'.length (by simp at hn; omega) hclear (OneAlarm.suffix (hsplit ▸ h)) rfl
      rw [← run_append] at hlast
      rwa [show between ++ first :: before' ++ [stop] = between ++ [first] ++ (before' ++ [stop]) by simp]

/-- The last alarm of a stretch without stops. -/
theorem lastFile_run (hs : ∀ e ∈ es, ¬ e.Stops) (hany : ∃ e ∈ es, ∃ f, e.Starts f) :
    ∃ f, (run step s es).lastFile = some f := by
  induction es using List.reverseRecOn with
  | nil =>
    obtain ⟨e, he, -⟩ := hany
    exact absurd he List.not_mem_nil
  | append_singleton es e ih =>
    rw [run_concat]
    by_cases hstart : ∃ f, e.Starts f
    · obtain ⟨f, hf⟩ := hstart
      exact ⟨f, (step_starts hf).1⟩
    · have hnone : ∀ f, ¬ e.Starts f := fun f hf => hstart ⟨f, hf⟩
      rw [(step_other (hs e (by simp)) hnone).1]
      refine ih (fun e' he' => hs e' (by simp [he'])) ?_
      obtain ⟨e', he', f, hf⟩ := hany
      rcases List.mem_append.mp he' with he' | he'
      · exact ⟨e', he', f, hf⟩
      · exact absurd (List.mem_singleton.mp he' ▸ hf) (hnone f)

/-- **The files mirror the alarms exactly where no two alarms overlap.** -/
theorem mirrors_iff (es : List Event) : Mirrors es ↔ OneAlarm es := by
  have hclear : Ipc2file.start.Clear := fun g _ => rfl
  constructor
  · intro h before between stop rest hes hstop hbetween e he e' he' f f' hf hf'
    obtain ⟨g, hg⟩ := lastFile_run (s := run step .start before) hbetween ⟨e, he, f, hf⟩
    have hgone : ∀ e ∈ between, ∀ f, e.Starts f → f = g := by
      intro e he f hf
      by_contra hne
      obtain ⟨as, bs, hsplit⟩ := List.append_of_mem he
      have hthere : (run step .start (before ++ between)).files f = true := by
        have := h.lasting (before ++ as) e bs (stop :: rest) f (by rw [hes, hsplit]; simp) hf
          fun e' he' => hbetween e' (by rw [hsplit]; simp [he'])
        rwa [hsplit, ← List.append_assoc]
      have hsilent := h.silent (before ++ between) stop [] rest (by rw [hes]; simp) hstop
        (fun e' he' => absurd he' List.not_mem_nil) f hf.stopped
      rw [run_append, run_cons, run_nil, (step_stops hstop).2 f, hthere, run_append, hg] at hsilent
      simp [Ne.symm hne] at hsilent
    exact (hgone e he f hf).trans (hgone e' he' f' hf').symm
  · intro h
    refine ⟨fun before stop after rest hes hstop hafter f hf => ?_,
      fun before start after rest f hes hstart hafter => ?_⟩
    · have hstopped := clear_at_stop hclear (hes ▸ h) hstop
      rw [show before ++ stop :: after = before ++ [stop] ++ after by simp, run_append]
      exact clear_run hstopped hafter f hf
    · rw [run_append, run_cons]
      refine lasts_run ?_ hstart.stopped hafter
      rw [(step_starts hstart).2 f, if_pos rfl]

/-- Motion begins, a person is seen, the alarms stop. -/
def overlap : List Event :=
  [.message IPC_MOTION_START, .message IPC_AI_HUMAN_DETECTION, .message IPC_MOTION_STOP]

/-- **The file of the first alarm is left behind.** -/
theorem overlap_leaves_file : ¬ Mirrors overlap := fun h =>
  Bool.noConfusion (h.silent [.message IPC_MOTION_START, .message IPC_AI_HUMAN_DETECTION]
    (.message IPC_MOTION_STOP) [] [] rfl (by decide) (fun e he => absurd he List.not_mem_nil)
    .motionAlarm nofun)

end YiHack.Alarm
