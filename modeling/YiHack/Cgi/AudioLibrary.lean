/-
  File:      YiHack/Cgi/AudioLibrary.lean
  Subject:   `audio_library.sh`: the library of audio files behind the web page.

  A request is a process under its number. Any number of them act at once, a command at a time, and
  any of them may be killed. What a script looks at the result of may fail, and so may the `rm` of
  its trap; `ls`, `printf` and the filters do what they are asked. `AUDIO_DIR` has the library and,
  under names with a dot in front, two files of each upload. `httpd` hands over the length in
  digits, and what arrives of the body. Files have no NUL in their first four rows; modes, the
  locale and signals that the trap catches are left out.

  Beside the files the model notes what was stored and deleted by which request, what each was
  answered, which processes were killed and which could not remove a file of theirs.

  * `extract`, `accepts` -- what an upload is taken for; `audioLibrary` -- the script;
  * `Uploaded` -- what may be stored; `Reply.json` -- what the page reads;
  * **`library_kept`** -- over every run.
-/
import YiHack.Audio.Wav
import YiHack.Cgi.EventsDelete
import YiHack.General.Form
import YiHack.General.Json
import YiHack.General.Threads

namespace YiHack.Cgi.AudioLibrary

open General

/-! ## 1. Names -/

def isNameByte (b : UInt8) : Bool :=
  (65 ≤ b && b ≤ 90) || (97 ≤ b && b ≤ 122) || isDigit b || b == 46 || b == 95 || b == 45

def isPcm (s : Bytes) : Bool := (ascii ".pcm").isSuffixOf s || (ascii ".PCM").isSuffixOf s

def isWav (s : Bytes) : Bool := (ascii ".wav").isSuffixOf s || (ascii ".WAV").isSuffixOf s

/-- `valid_audio_name`. -/
def validAudioName (s : Bytes) : Bool :=
  if s = [] ∨ s.head? = some 46 ∨ 47 ∈ s ∨ 92 ∈ s ∨ s.all isNameByte = false then false
  else isPcm s || isWav s

/-- `sanitize_audio_name`. -/
def sanitizeAudioName (s : Bytes) : Bytes :=
  ((s.rtakeWhile fun b => b != 47 && b != 92).map fun b => if isNameByte b then b else 95).dropWhile
    (· == 46)

/-! ## 2. Requests -/

/-- What `httpd` hands over; the body is what arrives on standard input. -/
structure Request where
  query : Bytes
  post : Bool
  length : Nat
  body : Bytes

/-- `cut -d'&'` of a line, fields counted from 0. -/
def parameterLine (n : Nat) (l : Bytes) : Bytes := if 38 ∈ l then (l.splitOn 38).getD n [] else l

/-- `cut -d'&'` -/
def parameter (n : Nat) (q : Bytes) : Bytes :=
  [newline].intercalate ((q.splitOn newline).map (parameterLine n))

/-- `ACTION` and `VOLDB`. -/
structure Query where
  action : Bytes
  voldb : Bytes

/-- The loop over the parameters. -/
def parse (q : Bytes) : Query :=
  [0, 1, 2].foldl (fun a i =>
    if cut 0 (parameter i q) = ascii "action" then { a with action := cut 1 (parameter i q) }
    else if cut 0 (parameter i q) = ascii "voldb" then { a with voldb := cut 1 (parameter i q) }
    else a) ⟨[], ascii "0"⟩

/-- `validateNumber`. -/
def validateNumber (s : Bytes) : Bool :=
  !s.isEmpty && s.all fun b => isDigit b || (ascii ".,-").contains b

/-- `read_post_name`. -/
def readPostName (body : Bytes) : Bytes := (row body 0).filter (· != 0)

/-- What `json_error` is called with. -/
inductive Refusal
  | parameter
  | volume
  | card
  | directory
  | post
  | length
  | upload
  | multipart
  | name
  | empty
  | extract
  | riff
  | wave
  | samples
  | store
  | filename
  | missing
  | delete
  | fifo
  | format
  | speaker
  | action
  deriving DecidableEq

def Refusal.text : Refusal → String
  | parameter => "Wrong parameter"
  | volume => "Invalid volume"
  | card => "SD card is not mounted"
  | directory => "Unable to create audio library"
  | post => "POST required"
  | length => "File is too big or empty"
  | upload => "Upload failed"
  | multipart => "Invalid multipart upload"
  | name => "Only .pcm and .wav files with simple filenames are supported"
  | empty => "Uploaded file is empty"
  | extract => "Unable to extract upload"
  | riff => "WAV file is not RIFF/WAVE"
  | wave => "WAV must be PCM 16 kHz, 16-bit, mono"
  | samples => "PCM file must contain complete 16-bit samples"
  | store => "Unable to store audio file"
  | filename => "Invalid filename"
  | missing => "File not found"
  | delete => "Unable to delete file"
  | fifo => "Audio input is not available"
  | format => "Unsupported audio format"
  | speaker => "Speaker busy or unavailable"
  | action => "Unknown action"

/-- What is answered. -/
inductive Reply
  | error (x : Refusal)
  | files (list : List (Bytes × Nat))
  | uploaded (name : Bytes) (size : Nat)
  | deleted (name : Bytes)
  | played (name : Bytes)

/-- A name in a text. -/
def asString (name : Bytes) : String := String.ofList (name.map fun b => Char.ofNat b.toNat)

/-- The loop of `list` over the files, from `FIRST` on. -/
def itemsText (first : Bool) : List (Bytes × Nat) → List Char
  | [] => []
  | e :: es =>
    (if first then [] else [',']) ++
      ("\x7b\x22name\x22:\x22".toList ++ (asString e.1).toList ++ "\x22,\x22size\x22:".toList ++
        (toString (e.2 : Int)).toList ++ "\x7d".toList) ++ itemsText false es

/-- What `json_error` prints behind the header. -/
def errorText (x : Refusal) : List Char :=
  "\x7b\x22error\x22:true,\x22description\x22:\x22".toList ++ x.text.toList ++ "\x22\x7d".toList

def filesText (list : List (Bytes × Nat)) : List Char :=
  "\x7b\x22error\x22:false,\x22files\x22:[".toList ++ itemsText true list ++ "]\x7d".toList

def uploadedText (name : Bytes) (size : Nat) : List Char :=
  "\x7b\x22error\x22:false,\x22description\x22:\x22Uploaded\x22,\x22name\x22:\x22".toList ++
    (asString name).toList ++ "\x22,\x22size\x22:".toList ++ (toString (size : Int)).toList ++
    "\x7d".toList

def deletedText (name : Bytes) : List Char :=
  "\x7b\x22error\x22:false,\x22description\x22:\x22Deleted\x22,\x22name\x22:\x22".toList ++
    (asString name).toList ++ "\x22\x7d".toList

def playedText (name : Bytes) : List Char :=
  "\x7b\x22error\x22:false,\x22description\x22:\x22Played\x22,\x22name\x22:\x22".toList ++
    (asString name).toList ++ "\x22\x7d".toList

/-- What is printed behind the header. -/
def Reply.print : Reply → List Char
  | .error x => errorText x
  | .files list => filesText list
  | .uploaded name size => uploadedText name size
  | .deleted name => deletedText name
  | .played name => playedText name

def entryJson (e : Bytes × Nat) : Json :=
  .object [("name", .string (asString e.1)), ("size", .number (.ofInt e.2))]

/-- What the page reads. -/
def Reply.json : Reply → Json
  | .error x => .object [("error", .bool true), ("description", .string x.text)]
  | .files list => .object [("error", .bool false), ("files", .array (list.map entryJson))]
  | .uploaded name size =>
    .object [("error", .bool false), ("description", .string "Uploaded"),
      ("name", .string (asString name)), ("size", .number (.ofInt size))]
  | .deleted name =>
    .object [("error", .bool false), ("description", .string "Deleted"),
      ("name", .string (asString name))]
  | .played name =>
    .object [("error", .bool false), ("description", .string "Played"),
      ("name", .string (asString name))]

/-- The names that stand in an answer. -/
def Reply.names : Reply → List Bytes
  | .error _ => []
  | .files list => list.map Prod.fst
  | .uploaded name _ => [name]
  | .deleted name => [name]
  | .played name => [name]

/-! ## 3. Uploads -/

def MAX_UPLOAD : Nat := 8388608

/-- `ORIGINAL_NAME`, of the second row. -/
def originalName (row2 : Bytes) : Bytes :=
  ((quoted (Form.filenameMark ++ [quote]) row2).getD []).filter (· != cr)

/-- `LENSKIPSTART`. -/
def lenSkipStart (f : Bytes) : Nat := skip f 4

/-- `LENSKIPEND`. -/
def lenSkipEnd (f : Bytes) : Nat := (row f 0).length + 1 + 4

/-- `PAYLOAD_LEN`. -/
def payloadLen (length : Nat) (f : Bytes) : Int := length - lenSkipStart f - lenSkipEnd f

/-- The name of the file, and what `dd` is to copy, from the file the request was written to. -/
def extract (length : Nat) (f : Bytes) : Except Refusal (Bytes × Bytes) :=
  if (ascii "--").isPrefixOf (row f 0) = false then .error .multipart
  else
    let name := sanitizeAudioName (originalName (row f 1))
    if validAudioName name = false then .error .name
    else if payloadLen length f ≤ 0 then .error .empty
    else .ok (name, slice f (lenSkipStart f) (payloadLen length f).toNat)

/-- `MAGIC`. -/
def magic (c : Bytes) : Bytes := capture ((c.take 4).filter (· != 0))

/-- The checks of what was copied; none where `speaker decode` takes more than `fuel` turns. -/
def accepts (fuel : Nat) (name c : Bytes) : Option (Except Refusal Unit) :=
  if c = [] then some (.error .empty)
  else if isWav name then
    if magic c ≠ ascii "RIFF" then some (.error .riff)
    else
      match Audio.decodeAudioFile none fuel (some c) with
      | none => none
      | some d => some (if d.rc = 0 then .ok () else .error .wave)
  else if isPcm name ∧ c.length % 2 ≠ 0 then some (.error .samples)
  else some (.ok ())

/-! ## 4. The directory -/

/-- What was done to the library. -/
inductive Change
  | stored (r : Request) (name content : Bytes)
  | deleted (r : Request) (name : Bytes)

def removeFile (name : Bytes) (fs : List (Bytes × Bytes)) : List (Bytes × Bytes) :=
  fs.filter fun e => e.1 != name

def Change.apply (fs : List (Bytes × Bytes)) : Change → List (Bytes × Bytes)
  | .stored _ name c => removeFile name fs ++ [(name, c)]
  | .deleted _ name => removeFile name fs

structure Library where
  files : List (Bytes × Bytes)
  request : Nat → Option Bytes
  payload : Nat → Option Bytes
  history : List Change
  replies : List (Request × Reply)
  killed : List Nat
  stuck : List Nat

namespace Library

def start (files : List (Bytes × Bytes)) : Library where
  files := files
  request _ := none
  payload _ := none
  history := []
  replies := []
  killed := []
  stuck := []

def writeRequest (p : Nat) (f : Bytes) (w : Library) : Library :=
  { w with request := Function.update w.request p (some f) }

def writePayload (p : Nat) (c : Bytes) (w : Library) : Library :=
  { w with payload := Function.update w.payload p (some c) }

/-- `rm -f "$REQUEST_FILE"`, whose result nobody looks at. -/
def rmRequest (works : Bool) (p : Nat) (w : Library) : Library :=
  if works then { w with request := Function.update w.request p none }
  else { w with stuck := p :: w.stuck }

def rmPayload (works : Bool) (p : Nat) (w : Library) : Library :=
  if works then { w with payload := Function.update w.payload p none }
  else { w with stuck := p :: w.stuck }

def change (x : Change) (w : Library) : Library :=
  { w with files := x.apply w.files, history := w.history ++ [x] }

/-- `mv -f "$PAYLOAD_FILE"`. -/
def mv (p : Nat) (r : Request) (name : Bytes) (w : Library) : Library :=
  match w.payload p with
  | some c => { w.change (.stored r name c) with payload := Function.update w.payload p none }
  | none => w

def tell (r : Request) (x : Reply) (w : Library) : Library :=
  { w with replies := w.replies ++ [(r, x)] }

def bury (p : Nat) (w : Library) : Library := { w with killed := p :: w.killed }

/-- `"$AUDIO_DIR"/*`. -/
def glob (w : Library) : List Bytes :=
  ((w.files.map Prod.fst).filter fun name => name.head? != some 46).mergeSort
    fun a b => decide (a ≤ b)

/-- `file_size`; nothing of a file that is not there. -/
def fileSize (name : Bytes) (w : Library) : Option Nat := (w.files.lookup name).map List.length

end Library

/-! ## 5. The script -/

/-- What the commands of a process meet: `cat` and `dd` may fail behind some bytes. -/
structure Luck where
  mounted : Bool
  mkdir : Bool
  cat : Option Nat
  dd : Option Nat
  fuel : Nat
  mv : Bool
  rm : Bool
  rmRequest : Bool
  rmPayload : Bool
  fifo : Bool
  speaker : Bool

/-- What was written before the command failed. -/
def written (failed : Option Nat) (b : Bytes) : Bytes :=
  match failed with
  | some n => b.take n
  | none => b

section

variable (p : Nat) (r : Request) (l : Luck)

def jsonError (x : Refusal) : Code Library Unit := Code.store (Library.tell r (.error x))

/-- The trap: `rm -f` of both files. -/
def trap (w : Library) : Library := (w.rmRequest l.rmRequest p).rmPayload l.rmPayload p

/-- The same where the trap is set. -/
def fail (x : Refusal) : Code Library Unit := do
  jsonError r x
  Code.store (trap p l)

/-- A command that does not come to its end; the process is killed some day. -/
def hang : Code Library Unit := Code.store (Library.bury p)

/-- `mv`, and what follows. -/
def place (name : Bytes) (size : Nat) : Code Library Unit :=
  if l.mv = false then fail p r l .store
  else do
    let moved ← Code.rmw (Library.mv p r name) fun w => (w.payload p).isSome
    if moved = false then fail p r l .store
    else do
      Code.store (Library.rmRequest l.rmRequest p)
      Code.store (Library.tell r (.uploaded name size))

/-- Behind `dd`. -/
def check (name : Bytes) : Code Library Unit := do
  let c ← Code.load fun w => (w.payload p).getD []
  match accepts l.fuel name c with
  | none => hang p
  | some (.error x) => fail p r l x
  | some (.ok _) => place p r l name c.length

def upload : Code Library Unit :=
  if r.post = false then jsonError r .post
  else if r.length = 0 ∨ MAX_UPLOAD < r.length then jsonError r .length
  else do
    Code.store (Library.writeRequest p (written l.cat r.body))
    if l.cat.isSome then fail p r l .upload
    else do
      let f ← Code.load fun w => (w.request p).getD []
      match extract r.length f with
      | .error x => fail p r l x
      | .ok (name, c) => do
        Code.store (Library.writePayload p (written l.dd c))
        if l.dd.isSome then fail p r l .extract else check p r l name

/-- The loop of `list`, behind what it has printed. -/
def listLoop (printed : List (Bytes × Nat)) : List Bytes → Code Library Unit
  | [] => Code.store (Library.tell r (.files printed))
  | name :: names => do
    let file ← Code.load fun w => w.files.lookup name
    if file.isNone ∨ validAudioName name = false then listLoop printed names
    else do
      -- `[ -n "$SIZE" ] || SIZE=0`: the file may be gone by now
      let size ← Code.load (Library.fileSize name)
      listLoop (printed ++ [(name, size.getD 0)]) names

def list : Code Library Unit := do
  let names ← Code.load Library.glob
  listLoop r [] names

def delete : Code Library Unit :=
  let name := readPostName r.body
  if r.post = false then jsonError r .post
  else if validAudioName name = false then jsonError r .filename
  else do
    let file ← Code.load fun w => w.files.lookup name
    if file.isNone then jsonError r .missing
    else if l.rm = false then jsonError r .delete
    else do
      Code.store (Library.change (.deleted r name))
      Code.store (Library.tell r (.deleted name))

def play : Code Library Unit :=
  let name := readPostName r.body
  if r.post = false then jsonError r .post
  else if validAudioName name = false then jsonError r .filename
  else do
    let file ← Code.load fun w => w.files.lookup name
    if file.isNone then jsonError r .missing
    else if l.fifo = false then jsonError r .fifo
    else do
      let file ← Code.load fun w => w.files.lookup name
      match Audio.decodeAudioFile none l.fuel file with
      | none => hang p
      | some d =>
        if d.rc ≠ 0 then jsonError r .format
        else if l.speaker = false then jsonError r .speaker
        else Code.store (Library.tell r (.played name))

def audioLibrary : Code Library Unit :=
  if validateQueryString r.query = false then jsonError r .parameter
  else if validateNumber (parse r.query).voldb = false then jsonError r .volume
  else if l.mounted = false then jsonError r .card
  else if l.mkdir = false then jsonError r .directory
  else if (parse r.query).action = ascii "list" then list r
  else if (parse r.query).action = ascii "upload" then upload p r l
  else if (parse r.query).action = ascii "delete" then delete r l
  else if (parse r.query).action = ascii "play" then play p r l
  else jsonError r .action

end

/-- Any number of requests; each may be killed at any moment. -/
def system : System Nat (Request × Luck) Library where
  program p x := some (audioLibrary p x.1 x.2)
  bury := Library.bury

/-! ## 6. What is to hold -/

/-- What the checks of a file come to: one of samples is of whole samples, one of `RIFF` is as
    `speaker decode` takes it. -/
structure Accepted (name c : Bytes) : Prop where
  filled : c ≠ []
  wave : isWav name = true → magic c = ascii "RIFF" ∧
    ∃ fuel d, Audio.decodeAudioFile none fuel (some c) = some d ∧ d.rc = 0
  samples : isWav name = false → isPcm name = true → c.length % 2 = 0

/-- A browser has sent the form, and `k` bytes of it have arrived. -/
def Request.Posts (r : Request) (F : Form) (k : Nat) : Prop :=
  r.body = F.body.take k ∧ r.length = F.body.length

/-- What an upload may store, and under which name. -/
structure Uploaded (r : Request) (name c : Bytes) : Prop where
  asked : (parse r.query).action = ascii "upload" ∧ r.post = true ∧ r.length ≤ MAX_UPLOAD
  valid : validAudioName name = true
  cut : c = slice r.body (lenSkipStart r.body) (payloadLen r.length r.body).toNat
  form : ∀ F k, r.Posts F k → name = sanitizeAudioName F.filename ∧
    c = F.content.take (k - (print F.header).length)
  accepted : Accepted name c

structure Deleted (r : Request) (name : Bytes) : Prop where
  asked : (parse r.query).action = ascii "delete" ∧ r.post = true
  valid : validAudioName name = true
  cut : name = readPostName r.body

def Change.Justified : Change → Prop
  | .stored r name c => Uploaded r name c
  | .deleted r name => Deleted r name

/-- What a name stood for after the changes. -/
def found (files : List (Bytes × Bytes)) (past : List Change) (name : Bytes) : Option Bytes :=
  (past.foldl Change.apply files).lookup name

/-- A file that was there, and later was not. -/
def Vanished (files : List (Bytes × Bytes)) (history : List Change) (name : Bytes) : Prop :=
  ∃ past past', past <+: past' ∧ past' <+: history ∧ found files past name ≠ none ∧
    found files past' name = none

/-- What is listed: a file with the size it had at some moment, or one that vanished between the
    look at its name and the look at its size, with 0. -/
structure Listed (files : List (Bytes × Bytes)) (history : List Change) (e : Bytes × Nat) :
    Prop where
  valid : validAudioName e.1 = true
  size : (∃ past c, past <+: history ∧ found files past e.1 = some c ∧ e.2 = c.length) ∨
    Vanished files history e.1 ∧ e.2 = 0

/-- What was answered has been done. -/
def Told (files : List (Bytes × Bytes)) (history : List Change) (r : Request) : Reply → Prop
  | .uploaded name size => ∃ c, .stored r name c ∈ history ∧ c.length = size
  | .deleted name => .deleted r name ∈ history
  | .files list => ∀ e ∈ list, Listed files history e
  | .error _ => True
  | .played name => validAudioName name = true

/-- What every run keeps. The library is what the changes made of the files that were there, and
    every change is one that was asked for. -/
structure Kept (files : List (Bytes × Bytes)) (m : Machine Nat Library) : Prop where
  replayed : m.memory.files = m.memory.history.foldl Change.apply files
  whole : ∀ e ∈ m.memory.files, e ∈ files ∨ validAudioName e.1 = true ∧ Accepted e.1 e.2
  changes : ∀ x ∈ m.memory.history, x.Justified
  replies : ∀ e ∈ m.memory.replies, Told files m.memory.history e.1 e.2
  printed : ∀ e ∈ m.memory.replies, Json.parse e.2.print = some e.2.json
  tidy : ∀ p, m.code p = none → p ∉ m.memory.killed → p ∉ m.memory.stuck →
    m.memory.request p = none ∧ m.memory.payload p = none

/-! ## 7. Answers -/

/-- The bytes of names are characters that stand for themselves. -/
theorem plain_nameByte {b : UInt8} (h : isNameByte b = true) :
    isPlain (Char.ofNat b.toNat) = true := by
  have hall : ∀ n < 256, isNameByte (UInt8.ofNat n) = true → isPlain (Char.ofNat n) = true := by
    decide +kernel
  exact hall b.toNat b.toNat_lt (by rwa [UInt8.ofNat_toNat])

theorem plain_name {name : Bytes} (h : validAudioName name = true) :
    (asString name).toList.all isPlain = true := by
  rw [asString, String.toList_ofList, List.all_eq_true]
  intro c hc
  obtain ⟨b, hb, rfl⟩ := List.mem_map.mp hc
  unfold validAudioName at h
  split at h
  · cases h
  · rename_i hgood
    have hall : name.all isNameByte = true := by
      by_contra hbad
      exact hgood (.inr (.inr (.inr (.inr (Bool.not_eq_true _ ▸ hbad)))))
    exact plain_nameByte (List.all_eq_true.mp hall b hb)

theorem plain_text (x : Refusal) : x.text.toList.all isPlain = true := by
  cases x <;> decide

theorem entry_render {e : Bytes × Nat} (h : validAudioName e.1 = true) :
    "\x7b\x22name\x22:\x22".toList ++ (asString e.1).toList ++ "\x22,\x22size\x22:".toList ++
      (toString (e.2 : Int)).toList ++ "\x7d".toList = (entryJson e).render := by
  simp only [entryJson, Json.render, renderFields, renderString_plain (plain_name h)]
  simp [renderString, escape, Number.ofInt]

/-- The list behind its first item, and the whole of it. -/
theorem itemsText_render {es : List (Bytes × Nat)} (h : ∀ e ∈ es, validAudioName e.1 = true) :
    itemsText false es ++ [']'] = renderItems (es.map entryJson) := by
  induction es with
  | nil => rfl
  | cons e es ih =>
    obtain ⟨he, hes⟩ := List.forall_mem_cons.mp h
    rw [itemsText, entry_render he, List.append_assoc, ih hes, List.map_cons, renderItems]
    rfl

theorem array_render {es : List (Bytes × Nat)} (h : ∀ e ∈ es, validAudioName e.1 = true) :
    '[' :: (itemsText true es ++ [']']) = (Json.array (es.map entryJson)).render := by
  cases es with
  | nil => rfl
  | cons e es =>
    obtain ⟨he, hes⟩ := List.forall_mem_cons.mp h
    rw [itemsText, entry_render he, List.append_assoc, itemsText_render hes, List.map_cons,
      Json.render]
    rfl

/-- **An answer is JSON**, whatever the names in it. -/
theorem print_eq {y : Reply} (h : ∀ n ∈ y.names, validAudioName n = true) :
    y.print = y.json.render := by
  cases y with
  | error x =>
    rw [Reply.print, Reply.json]
    unfold errorText
    simp only [Json.render, renderFields]
    rw [renderString_plain (plain_text x)]
    simp [renderString, escape]
  | files list =>
    have harray := array_render fun e he => h e.1 (List.mem_map_of_mem he)
    rw [Reply.print, Reply.json]
    unfold filesText
    rw [Json.render, renderFields, ← harray]
    simp [Json.render, renderFields, renderString, escape]
  | uploaded name size =>
    rw [Reply.print, Reply.json]
    unfold uploadedText
    simp only [Json.render, renderFields]
    rw [renderString_plain (plain_name (h name List.mem_cons_self))]
    simp [renderString, escape, Number.ofInt]
  | deleted name =>
    rw [Reply.print, Reply.json]
    unfold deletedText
    simp only [Json.render, renderFields]
    rw [renderString_plain (plain_name (h name List.mem_cons_self))]
    simp [renderString, escape]
  | played name =>
    rw [Reply.print, Reply.json]
    unfold playedText
    simp only [Json.render, renderFields]
    rw [renderString_plain (plain_name (h name List.mem_cons_self))]
    simp [renderString, escape]

/-! ## 8. What is cut out -/

variable {files : List (Bytes × Bytes)} {r : Request} {name c f : Bytes}

theorem accepts_ok {fuel : Nat} (h : accepts fuel name c = some (.ok ())) : Accepted name c := by
  unfold accepts at h
  split at h
  · exact absurd h nofun
  · rename_i hne
    split at h
    · rename_i hwav
      split at h
      · exact absurd h nofun
      · rename_i hmagic
        split at h
        · exact absurd h nofun
        · rename_i d hd
          split at h
          · rename_i hrc
            exact ⟨hne, fun _ => ⟨not_not.mp hmagic, fuel, d, hd, hrc⟩,
              fun hnot => absurd (hwav.symm.trans hnot) nofun⟩
          · exact absurd h nofun
    · rename_i hwav
      split at h
      · exact absurd h nofun
      · rename_i hpcm
        refine ⟨hne, fun hw => absurd hw hwav, fun _ hp => ?_⟩
        by_contra hodd
        exact hpcm ⟨hp, hodd⟩

theorem extract_ok {length : Nat} (h : extract length f = .ok (name, c)) :
    name = sanitizeAudioName (originalName (row f 1)) ∧ validAudioName name = true ∧
      c = slice f (lenSkipStart f) (payloadLen length f).toNat := by
  unfold extract at h
  split at h
  · exact absurd h nofun
  · dsimp only at h
    split at h
    · exact absurd h nofun
    · rename_i hvalid
      split at h
      · exact absurd h nofun
      · cases h
        exact ⟨rfl, Bool.not_eq_false _ ▸ hvalid, rfl⟩

/-- The name is the one that the browser gave. -/
theorem originalName_disposition (F : Form) : originalName F.disposition = F.filename := by
  rw [originalName, F.quoted_disposition, Option.getD_some, List.filter_eq_self]
  intro b hb
  rw [bne_iff_ne]
  exact (F.single b (by simp [hb])).2

/-- **What is cut out of a form that arrived.** -/
theorem extract_form {F : Form} {k : Nat} (hposts : r.Posts F k)
    (h : extract r.length r.body = .ok (name, c)) (hne : c ≠ []) :
    name = sanitizeAudioName F.filename ∧ c = F.content.take (k - (print F.header).length) := by
  obtain ⟨hname, -, hc⟩ := extract_ok h
  obtain ⟨hbody, hlength⟩ := hposts
  rw [hbody] at hname hc
  have hskip : skip (F.body.take k) 4 < (F.body.take k).length := by
    by_contra hle
    apply hne
    rw [hc, slice, lenSkipStart, List.drop_of_length_le (not_lt.mp hle), List.take_nil]
  obtain ⟨-, hrows⟩ := F.arrived hskip
  constructor
  · rw [hname, row_of_rows hrows (by decide)]
    exact congrArg sanitizeAudioName (originalName_disposition F)
  · rw [hc, lenSkipStart]
    refine F.cut_arrived k _ fun _ => ?_
    have hstart : skip (F.body.take k) 4 = (print F.header).length := by
      rw [skip, hrows, length_print]
    have hend : lenSkipEnd (F.body.take k) = F.close.length := by
      rw [lenSkipEnd, row_of_rows hrows (by decide), F.close_length]
      rfl
    have htotal : F.body.length =
        (print F.header).length + (F.content.length + F.close.length) := by
      rw [Form.body, List.length_append, List.length_append]
    rw [payloadLen, lenSkipStart, hstart, hend, hlength, htotal]
    omega

/-! ## 9. What the processes leave to each other -/

structure Inv (files : List (Bytes × Bytes)) (w : Library) : Prop where
  replayed : w.files = w.history.foldl Change.apply files
  changes : ∀ x ∈ w.history, x.Justified
  replies : ∀ e ∈ w.replies, Told files w.history e.1 e.2

/-- What the others leave `p`. -/
structure Spares (p : Nat) (w w' : Library) : Prop where
  request : w'.request p = w.request p
  payload : w'.payload p = w.payload p
  history : w.history <+: w'.history
  killed : p ∈ w.killed → p ∈ w'.killed
  stuck : p ∈ w.stuck → p ∈ w'.stuck

/-- What `p` relies on. -/
structure Rely (files : List (Bytes × Bytes)) (p : Nat) (w w' : Library) : Prop where
  inv : Inv files w'
  mine : Spares p w w'

/-- What `p` guarantees. -/
structure Guarantee (files : List (Bytes × Bytes)) (p : Nat) (w w' : Library) : Prop where
  inv : Inv files w → Inv files w'
  others : ∀ q, q ≠ p → Spares q w w'

/-- Nothing is left of an earlier upload of `p`, unless it was killed or could not remove it. -/
def Idle (p : Nat) (w : Library) : Prop :=
  p ∈ w.killed ∨ p ∈ w.stuck ∨ w.request p = none ∧ w.payload p = none

section

variable {p : Nat} {w w' : Library} {l : Luck} {x : Refusal} {y : Reply} {z : Change}
  {o : Option Bytes}

theorem stable_inv : Code.Stable (Rely files p) (Inv files) := fun _ _ _ hr => hr.inv

theorem stable_request : Code.Stable (Rely files p) fun w => w.request p = o :=
  fun _ _ h hr => hr.mine.request.trans h

theorem stable_payload : Code.Stable (Rely files p) fun w => w.payload p = o :=
  fun _ _ h hr => hr.mine.payload.trans h

theorem stable_history : Code.Stable (Rely files p) fun w => z ∈ w.history :=
  fun _ _ h hr => hr.mine.history.subset h

theorem stable_idle : Code.Stable (Rely files p) (Idle p) := by
  intro w w' h hr
  obtain hk | hs | ⟨hrequest, hpayload⟩ := h
  · exact .inl (hr.mine.killed hk)
  · exact .inr (.inl (hr.mine.stuck hs))
  · exact .inr (.inr ⟨hr.mine.request.trans hrequest, hr.mine.payload.trans hpayload⟩)

theorem Guarantee.refl (files : List (Bytes × Bytes)) (p : Nat) (w : Library) :
    Guarantee files p w w :=
  ⟨id, fun _ _ => ⟨rfl, rfl, List.prefix_rfl, id, id⟩⟩

theorem Spares.trans {w'' : Library} (h : Spares p w w') (h' : Spares p w' w'') :
    Spares p w w'' :=
  ⟨h'.request.trans h.request, h'.payload.trans h.payload, h.history.trans h'.history,
    fun hk => h'.killed (h.killed hk), fun hs => h'.stuck (h.stuck hs)⟩

theorem Guarantee.trans {w'' : Library} (h : Guarantee files p w w')
    (h' : Guarantee files p w' w'') : Guarantee files p w w'' :=
  ⟨fun hi => h'.inv (h.inv hi), fun q hq => (h.others q hq).trans (h'.others q hq)⟩

/-- The two files of `p` are no others'. -/
theorem guarantee_temps {request payload : Nat → Option Bytes}
    (hrequest : ∀ q, q ≠ p → request q = w.request q)
    (hpayload : ∀ q, q ≠ p → payload q = w.payload q) :
    Guarantee files p w { w with request := request, payload := payload } :=
  ⟨fun h => ⟨h.replayed, h.changes, h.replies⟩,
    fun q hq => ⟨hrequest q hq, hpayload q hq, List.prefix_rfl, id, id⟩⟩

theorem guarantee_stuck : Guarantee files p w { w with stuck := p :: w.stuck } :=
  ⟨fun h => ⟨h.replayed, h.changes, h.replies⟩,
    fun _ _ => ⟨rfl, rfl, List.prefix_rfl, id, List.mem_cons_of_mem _⟩⟩

theorem guarantee_rmRequest (works : Bool) : Guarantee files p w (w.rmRequest works p) := by
  cases works with
  | false => exact guarantee_stuck
  | true => exact guarantee_temps (fun q hq => Function.update_of_ne hq _ _) fun _ _ => rfl

theorem guarantee_rmPayload (works : Bool) : Guarantee files p w (w.rmPayload works p) := by
  cases works with
  | false => exact guarantee_stuck
  | true => exact guarantee_temps (fun _ _ => rfl) fun q hq => Function.update_of_ne hq _ _

theorem idle_rmRequest (works : Bool) (h : w.payload p = none) :
    Idle p (w.rmRequest works p) := by
  cases works with
  | false => exact .inr (.inl List.mem_cons_self)
  | true => exact .inr (.inr ⟨Function.update_self .., h⟩)

/-- Behind the trap. -/
theorem idle_trap : Idle p (trap p l w) := by
  unfold trap
  cases l.rmPayload with
  | false => exact .inr (.inl List.mem_cons_self)
  | true =>
    cases l.rmRequest with
    | false => exact .inr (.inl List.mem_cons_self)
    | true => exact .inr (.inr ⟨Function.update_self .., Function.update_self ..⟩)

theorem Vanished.mono {history history' : List Change} (h : Vanished files history name)
    (hpre : history <+: history') : Vanished files history' name := by
  obtain ⟨past, past', hpast, hpast', hfound⟩ := h
  exact ⟨past, past', hpast, hpast'.trans hpre, hfound⟩

theorem Listed.mono {history history' : List Change} {e : Bytes × Nat}
    (h : Listed files history e) (hpre : history <+: history') : Listed files history' e := by
  obtain ⟨hvalid, ⟨past, c, hpast, hfound⟩ | ⟨hvanished, hsize⟩⟩ := h
  · exact ⟨hvalid, .inl ⟨past, c, hpast.trans hpre, hfound⟩⟩
  · exact ⟨hvalid, .inr ⟨hvanished.mono hpre, hsize⟩⟩

/-- **What is printed of a file that was there**, at the second look. -/
theorem listed_size {past : List Change} (hi : Inv files w) (hvalid : validAudioName name = true)
    (hpast : past <+: w.history) (hfound : found files past name ≠ none) :
    Listed files w.history (name, (w.fileSize name).getD 0) := by
  have hnow : w.files.lookup name = found files w.history name := by
    rw [hi.replayed, found]
  refine ⟨hvalid, ?_⟩
  rw [Library.fileSize, hnow]
  cases h : found files w.history name with
  | none => exact .inr ⟨⟨past, w.history, hpast, List.prefix_rfl, hfound, h⟩, rfl⟩
  | some c => exact .inl ⟨w.history, c, List.prefix_rfl, h, rfl⟩

theorem stable_listed {es : List (Bytes × Nat)} :
    Code.Stable (Rely files p) fun w => ∀ e ∈ es, Listed files w.history e :=
  fun _ _ h hr e he => (h e he).mono hr.mine.history

theorem stable_past {past : List Change} :
    Code.Stable (Rely files p) fun w => past <+: w.history :=
  fun _ _ h hr => h.trans hr.mine.history

theorem Told.mono {history history' : List Change} (h : Told files history r y)
    (hpre : history <+: history') : Told files history' r y := by
  cases y with
  | error x => trivial
  | files list => exact fun e he => (h e he).mono hpre
  | uploaded name size =>
    obtain ⟨c, hc, hsize⟩ := h
    exact ⟨c, hpre.subset hc, hsize⟩
  | deleted name => exact hpre.subset h
  | played name => exact h

/-- The names of a true answer are names of the library. -/
theorem Told.names {history : List Change} (h : Told files history r y)
    (hchanges : ∀ x ∈ history, x.Justified) : ∀ n ∈ y.names, validAudioName n = true := by
  intro n hn
  cases y with
  | error x => exact absurd hn List.not_mem_nil
  | files list =>
    obtain ⟨e, he, rfl⟩ := List.mem_map.mp hn
    exact (h e he).valid
  | uploaded name size =>
    obtain ⟨c, hc, -⟩ := h
    have hup : Uploaded r name c := hchanges _ hc
    exact List.mem_singleton.mp hn ▸ hup.valid
  | deleted name =>
    have hdel : Deleted r name := hchanges _ h
    exact List.mem_singleton.mp hn ▸ hdel.valid
  | played name => exact List.mem_singleton.mp hn ▸ h

theorem guarantee_tell (h : Told files w.history r y) : Guarantee files p w (w.tell r y) := by
  refine ⟨fun hi => ⟨hi.replayed, hi.changes, fun e he => ?_⟩,
    fun _ _ => ⟨rfl, rfl, List.prefix_rfl, id, id⟩⟩
  obtain he | he := List.mem_append.mp he
  · exact hi.replies e he
  · rw [List.mem_singleton.mp he]
    exact h

/-- **A change that was asked for.** -/
theorem Inv.change (h : Inv files w) (hz : z.Justified) : Inv files (w.change z) where
  replayed := by
    show z.apply w.files = (w.history ++ [z]).foldl Change.apply files
    rw [List.foldl_append, ← h.replayed]
    rfl
  changes y hy := by
    obtain hy | hy := List.mem_append.mp hy
    · exact h.changes y hy
    · exact List.mem_singleton.mp hy ▸ hz
  replies e he := (h.replies e he).mono (List.prefix_append ..)

theorem guarantee_change (hz : z.Justified) : Guarantee files p w (w.change z) :=
  ⟨fun h => h.change hz, fun _ _ => ⟨rfl, rfl, List.prefix_append .., id, id⟩⟩

theorem guarantee_mv (hc : w.payload p = some c) (hup : Uploaded r name c) :
    Guarantee files p w (w.mv p r name) := by
  rw [Library.mv, hc]
  refine ⟨fun h => ?_, fun q hq => ?_⟩
  · have hi := h.change (z := .stored r name c) hup
    exact ⟨hi.replayed, hi.changes, hi.replies⟩
  · exact ⟨rfl, Function.update_of_ne hq _ _, List.prefix_append .., id, id⟩

/-! ## 10. The script, step by step -/

/-- What is to be shown of a part of the script. -/
abbrev Ok (files : List (Bytes × Bytes)) (p : Nat) (c : Code Library Unit) (w : Library) : Prop :=
  c.Ok (Rely files p) (Guarantee files p) (fun _ _ => True) (fun _ => Idle p) w

theorem tell_ok {P : Library → Prop} (hP : Code.Stable (Rely files p) P) (h : P w)
    (hidle : ∀ w, P w → Idle p w) (hy : ∀ w, P w → Told files w.history r y) :
    Ok files p (Code.store (Library.tell r y)) w :=
  Code.ok_rmw hP h fun w' hw' _ =>
    ⟨guarantee_tell (hy w' hw'), fun _ hr => stable_idle.star hr (hidle w' hw')⟩

theorem jsonError_ok (h : Idle p w) : Ok files p (jsonError r x) w :=
  tell_ok stable_idle h (fun _ => id) fun _ _ => trivial

theorem fail_ok (h : Inv files w) : Ok files p (fail p r l x) w := by
  refine Code.store_then stable_inv h fun w _ _ => ⟨guarantee_tell trivial, ?_⟩
  refine Code.ok_rmw (P := fun _ => True) (fun _ _ _ _ => trivial) trivial fun w _ _ => ⟨?_, ?_⟩
  · exact (guarantee_rmRequest _).trans (guarantee_rmPayload _)
  · exact fun _ hr => stable_idle.star hr idle_trap

theorem hang_ok : Ok files p (hang p) w :=
  Code.ok_rmw (P := fun _ => True) (fun _ _ _ _ => trivial) trivial fun _ _ _ =>
    ⟨⟨fun h => ⟨h.replayed, h.changes, h.replies⟩,
      fun _ _ => ⟨rfl, rfl, List.prefix_rfl, List.mem_cons_of_mem _, id⟩⟩,
      fun _ hr => stable_idle.star hr (.inl List.mem_cons_self)⟩

/-- **What was checked is put in its place.** -/
theorem place_ok (h : Inv files w) (hc : w.payload p = some c) (hup : Uploaded r name c) :
    Ok files p (place p r l name c.length) w := by
  unfold place
  split
  · exact fail_ok h
  · refine Code.rmw_then (stable_inv.and stable_payload) ⟨h, hc⟩ fun w hw _ =>
      ⟨guarantee_mv hw.2 hup, ?_⟩
    have hmv : w.mv p r name = { w.change (.stored r name c) with
        payload := Function.update w.payload p none } := by
      rw [Library.mv, hw.2]
    have hpayload : (w.mv p r name).payload p = none := by
      rw [hmv]
      exact Function.update_self ..
    have hstored : .stored r name c ∈ (w.mv p r name).history := by
      rw [hmv]
      exact List.mem_append_right _ (List.mem_singleton_self _)
    rw [if_neg (by rw [hw.2]; exact nofun)]
    refine Code.store_then (stable_payload.and stable_history) ⟨hpayload, hstored⟩ fun w hw _ =>
      ⟨guarantee_rmRequest _, ?_⟩
    have hhistory : (w.rmRequest l.rmRequest p).history = w.history := by
      cases h : l.rmRequest <;> rfl
    exact tell_ok (stable_idle.and stable_history)
      ⟨idle_rmRequest _ hw.1, hhistory.symm ▸ hw.2⟩ (fun _ => And.left)
      fun _ hw => ⟨c, hw.2, rfl⟩

theorem check_ok (h : Inv files w) (hc : w.payload p = some c)
    (hup : Accepted name c → Uploaded r name c) : Ok files p (check p r l name) w := by
  refine Code.load_then (Guarantee.refl files p) (stable_inv.and stable_payload) ⟨h, hc⟩
    fun w hw => ?_
  rw [hw.2, Option.getD_some]
  split
  · exact hang_ok
  · exact fail_ok hw.1
  · rename_i haccepts
    exact place_ok hw.1 hw.2 (hup (accepts_ok haccepts))

theorem extract_uploaded (hasked : (parse r.query).action = ascii "upload") (hpost : r.post = true)
    (hlength : r.length ≤ MAX_UPLOAD) (h : extract r.length r.body = .ok (name, c))
    (hc : Accepted name c) : Uploaded r name c :=
  ⟨⟨hasked, hpost, hlength⟩, (extract_ok h).2.1, (extract_ok h).2.2,
    fun _ _ hposts => extract_form hposts h hc.filled, hc⟩

theorem upload_ok (h : Inv files w) (hidle : Idle p w)
    (hasked : (parse r.query).action = ascii "upload") : Ok files p (upload p r l) w := by
  unfold upload
  split
  · exact jsonError_ok hidle
  · rename_i hpost
    split
    · exact jsonError_ok hidle
    · rename_i hlength
      refine Code.store_then stable_inv h fun w hw _ => ⟨?_, ?_⟩
      · exact guarantee_temps (fun q hq => Function.update_of_ne hq _ _) fun _ _ => rfl
      have hinv : Inv files (w.writeRequest p (written l.cat r.body)) :=
        ⟨hw.replayed, hw.changes, hw.replies⟩
      split
      · exact fail_ok hinv
      · rename_i hcat
        have hwritten : written l.cat r.body = r.body := by
          rw [Option.not_isSome_iff_eq_none.mp hcat]
          rfl
        rw [hwritten] at hinv ⊢
        refine Code.load_then (Guarantee.refl files p) (stable_inv.and stable_request)
          ⟨hinv, Function.update_self ..⟩ fun w hw => ?_
        rw [hw.2, Option.getD_some]
        split
        · exact fail_ok hw.1
        · rename_i name c hextract
          refine Code.store_then stable_inv hw.1 fun w hw _ => ⟨?_, ?_⟩
          · exact guarantee_temps (fun _ _ => rfl) fun q hq => Function.update_of_ne hq _ _
          have hinv : Inv files (w.writePayload p (written l.dd c)) :=
            ⟨hw.replayed, hw.changes, hw.replies⟩
          split
          · exact fail_ok hinv
          · rename_i hdd
            rw [Option.not_isSome_iff_eq_none.mp hdd] at hinv ⊢
            exact check_ok hinv (Function.update_self ..) (extract_uploaded hasked
              (Bool.not_eq_false _ ▸ hpost) (not_lt.mp (not_or.mp hlength).2) hextract)

/-- **The loop.** What it has printed stays true of the past. -/
theorem listLoop_ok {printed : List (Bytes × Nat)} (names : List Bytes) (h : Inv files w)
    (hidle : Idle p w) (hprinted : ∀ e ∈ printed, Listed files w.history e) :
    Ok files p (listLoop r printed names) w := by
  induction names generalizing printed w with
  | nil =>
    exact tell_ok (stable_idle.and stable_listed) ⟨hidle, hprinted⟩ (fun _ => And.left)
      fun _ => And.right
  | cons name names ih =>
    refine Code.load_then (Guarantee.refl files p)
      ((stable_inv.and stable_idle).and stable_listed) ⟨⟨h, hidle⟩, hprinted⟩ fun w hw => ?_
    obtain ⟨⟨hinv, hidle⟩, hprinted⟩ := hw
    split
    · exact ih hinv hidle hprinted
    · rename_i hfile
      obtain ⟨hthere, hvalid⟩ := not_or.mp hfile
      have hfound : found files w.history name ≠ none := by
        rw [found, ← hinv.replayed]
        exact fun hnone => hthere (Option.isNone_iff_eq_none.mpr hnone)
      -- the others act before the second look, and may have deleted the file
      refine Code.load_then (Guarantee.refl files p)
        (((stable_inv.and stable_idle).and stable_listed).and stable_past)
        ⟨⟨⟨hinv, hidle⟩, hprinted⟩, List.prefix_rfl⟩ fun w hw => ?_
      obtain ⟨⟨⟨hinv, hidle⟩, hprinted⟩, hpast⟩ := hw
      refine ih hinv hidle fun e he => ?_
      obtain he | he := List.mem_append.mp he
      · exact hprinted e he
      · rw [List.mem_singleton.mp he]
        exact listed_size hinv (Bool.not_eq_false _ ▸ hvalid) hpast hfound

theorem list_ok (h : Inv files w) (hidle : Idle p w) : Ok files p (list r) w :=
  Code.load_then (Guarantee.refl files p) (stable_inv.and stable_idle) ⟨h, hidle⟩ fun _ hw =>
    listLoop_ok _ hw.1 hw.2 fun _ he => absurd he List.not_mem_nil

theorem delete_ok (h : Idle p w) (hasked : (parse r.query).action = ascii "delete") :
    Ok files p (delete r l) w := by
  unfold delete
  dsimp only
  split
  · exact jsonError_ok h
  · rename_i hpost
    split
    · exact jsonError_ok h
    · rename_i hvalid
      have hdeleted : Deleted r (readPostName r.body) :=
        ⟨⟨hasked, Bool.not_eq_false _ ▸ hpost⟩, Bool.not_eq_false _ ▸ hvalid, rfl⟩
      refine Code.load_then (Guarantee.refl files p) stable_idle h fun w hw => ?_
      split
      · exact jsonError_ok hw
      · split
        · exact jsonError_ok hw
        · refine Code.store_then stable_idle hw fun w hw _ => ⟨guarantee_change hdeleted, ?_⟩
          exact tell_ok (stable_idle.and stable_history)
            ⟨hw, List.mem_append_right _ (List.mem_singleton_self _)⟩ (fun _ => And.left)
            fun _ => And.right

theorem play_ok (h : Idle p w) : Ok files p (play p r l) w := by
  unfold play
  dsimp only
  split
  · exact jsonError_ok h
  · split
    · exact jsonError_ok h
    · rename_i hvalid
      have hname : validAudioName (readPostName r.body) = true := Bool.not_eq_false _ ▸ hvalid
      refine Code.load_then (Guarantee.refl files p) stable_idle h fun w hw => ?_
      split
      · exact jsonError_ok hw
      · split
        · exact jsonError_ok hw
        · refine Code.load_then (Guarantee.refl files p) stable_idle hw fun w hw => ?_
          split
          · exact hang_ok
          · split
            · exact jsonError_ok hw
            · split
              · exact jsonError_ok hw
              · exact tell_ok stable_idle hw (fun _ => id) fun _ _ => hname

/-- **A request, from its first command to its last.** -/
theorem audioLibrary_ok (h : Inv files w) (hidle : Idle p w) :
    Ok files p (audioLibrary p r l) w := by
  unfold audioLibrary
  split
  · exact jsonError_ok hidle
  split
  · exact jsonError_ok hidle
  split
  · exact jsonError_ok hidle
  split
  · exact jsonError_ok hidle
  split
  · exact list_ok h hidle
  split
  · rename_i hasked
    exact upload_ok h hidle hasked
  split
  · rename_i hasked
    exact delete_ok hidle hasked
  split
  · exact play_ok hidle
  · exact jsonError_ok hidle

theorem system_sound (files : List (Bytes × Bytes)) :
    Sound system (Rely files) (Guarantee files) (fun _ _ _ => True) (Inv files) Idle where
  other i j hij w w' hi hg := ⟨hg.inv hi, hg.others j hij.symm⟩
  keeps _ _ _ hi hg := hg.inv hi
  idle _ := stable_idle
  call i x c hc w hi hidle := by
    cases hc
    exact audioLibrary_ok hi hidle
  bury i w hi := by
    have hinv : Inv files (w.bury i) := ⟨hi.replayed, hi.changes, hi.replies⟩
    exact ⟨hinv, .inl List.mem_cons_self, fun j _ =>
      ⟨hinv, rfl, rfl, List.prefix_rfl, List.mem_cons_of_mem _, id⟩⟩

/-- What the changes leave of the files that were there, and what they add. -/
theorem whole_of_changes {history : List Change} (h : ∀ x ∈ history, x.Justified) :
    ∀ e ∈ history.foldl Change.apply files,
      e ∈ files ∨ validAudioName e.1 = true ∧ Accepted e.1 e.2 := by
  induction history using List.reverseRecOn with
  | nil => exact fun e he => .inl he
  | append_singleton history x ih =>
    have ih := ih fun y hy => h y (List.mem_append_left _ hy)
    have hx := h x (List.mem_append_right _ (List.mem_singleton_self x))
    intro e he
    rw [List.foldl_append] at he
    cases x with
    | stored r name c =>
      obtain he | he := List.mem_append.mp he
      · exact ih e (List.mem_of_mem_filter he)
      · rw [List.mem_singleton.mp he]
        exact .inr ⟨hx.valid, hx.accepted⟩
    | deleted r name => exact ih e (List.mem_of_mem_filter he)

end

/-- All goes well. -/
def Luck.good : Luck := ⟨true, true, none, none, 0, true, true, true, true, true, true⟩

/-- A file that is deleted between the two looks of a list. -/
example :
    ((run system.step (Machine.idle (Library.start [(ascii "a.pcm", [1, 2])]))
      [.call 1 (⟨ascii "action=list", false, 0, []⟩, .good), .step 1, .step 1,
        .call 2 (⟨ascii "action=delete", true, 0, ascii "a.pcm"⟩, .good), .step 2, .step 2,
        .step 1, .step 1]).memory.replies.head?.map fun x => x.2.print) =
      some (Reply.files [(ascii "a.pcm", 0)]).print := by
  decide +kernel

end YiHack.Cgi.AudioLibrary
