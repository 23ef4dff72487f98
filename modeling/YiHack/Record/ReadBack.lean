/-
  File:      YiHack/Record/ReadBack.lean
  Subject:   A finished clip, read back: from the boxes of `moov` to the motion state.

  A reader of a clip (`docs/MOTION_METADATA.md`) takes the `yi_motion` tags out of the `udta` boxes
  of `moov` and parses their JSON; `schema` tells the two formats apart. Whatever the recorder wrote
  in `finalize_metadata` the reader gets back:

  * `clipTags_tagged` -- a tagged clip has the tags it had, and the new one behind them;
  * `MotionDoc.text_json`, `rawText_json` -- what `build_json` writes is the text of a JSON value;
  * **`event_clip_read_back`** -- the states of an event clip are those of the observations;
  * **`raw_clip_read_back`** -- the samples of a raw clip are those of the ring, within its times.
-/
import YiHack.General.Json
import YiHack.Record.Fits
import YiHack.Record.Reconstruct

namespace YiHack.Record

open General Fits

/-! ## 1. The tags of a clip -/

/-- What is inside the movie's box. -/
def Movie.payload (m : Movie) (f : Bytes) : Bytes := slice f (m.offset + 8) (m.size - 8)

/-- The text of a `----` item by that name. -/
def itemText (mean name : String) (item : Bytes × Bytes) : Option Bytes :=
  if item.1 = ascii "----" then
    (parseBoxes item.2).bind fun boxes =>
      if (boxes.lookup (ascii "mean")).map (List.drop 4) = some (ascii mean) ∧
          (boxes.lookup (ascii "name")).map (List.drop 4) = some (ascii name) then
        (boxes.lookup (ascii "data")).map (List.drop 8)
      else none
  else none

/-- The text of the motion tag in a child of `moov`. -/
def motionTag (child : Bytes × Bytes) : Option Bytes :=
  if child.1 = ascii "udta" then
    (parseBoxes child.2).bind fun udta =>
      (udta.lookup (ascii "meta")).bind fun payload =>
        (parseBoxes (payload.drop 4)).bind fun boxes =>
          (boxes.lookup (ascii "ilst")).bind fun ilst =>
            (parseBoxes ilst).bind fun items => items.findSome? (itemText "com.yi-hack" "yi_motion")
  else none

/-- The texts of the motion tags of a clip whose `moov` is tiled by boxes. -/
def clipTags (f : Bytes) : Option (List Bytes) :=
  ((findMovie true f.length).on f).bind fun m =>
    (parseBoxes (m.payload f)).map fun children => children.filterMap motionTag

/-- The tag of `finalize_metadata` is read. -/
theorem motionTag_tiled {tag json : Bytes} (h : Tiled tag json) :
    ∃ child, parseBoxes tag = some [child] ∧ motionTag child = some json := by
  have hitem : itemText "com.yi-hack" "yi_motion" (ascii "----", customPayload json) =
      some json := by
    rw [itemText, if_pos rfl, h.custom, Option.bind_some]
    rfl
  refine ⟨_, h.udta, ?_⟩
  have hmeta : List.lookup (ascii "meta") [(ascii "meta", metaPayload json)] =
      some (metaPayload json) := rfl
  have hilst : List.lookup (ascii "ilst") [(ascii "hdlr", hdlrPayload),
      (ascii "ilst", ilstPayload json)] = some (ilstPayload json) := rfl
  rw [motionTag, if_pos rfl, h.meta_, Option.bind_some, hmeta, Option.bind_some, h.children,
    Option.bind_some, hilst, Option.bind_some, h.ilst, Option.bind_some, List.findSome?_cons, hitem]

/-- The box of a tagged clip's movie: what was in it, and the tag. -/
theorem Tagged.payload {f json g : Bytes} {m : Movie} {n : Nat} (h : Tagged f m json g n) :
    ∃ tag, Tiled tag json ∧
      ({ m with size := m.size + n, end_ := m.end_ + n } : Movie).payload g =
        m.payload f ++ tag := by
  obtain ⟨tag, hlen, htiled, hg⟩ := h.appended
  have hreach := h.found.reaches
  have hge := h.found.size_ge
  refine ⟨tag, htiled, ?_⟩
  have hpatched : (patch f m.offset (store32 (m.size + n))).length = f.length := by
    rw [patch_length (by omega), store32_length]
    omega
  have hbehind : slice (patch f m.offset (store32 (m.size + n))) (m.offset + 8) (m.size - 8) =
      slice f (m.offset + 8) (m.size - 8) :=
    slice_patch_after (by omega) (by rw [store32_length]; omega)
  have hdrop : (patch f m.offset (store32 (m.size + n))).drop (m.offset + 8) = m.payload f := by
    rw [Movie.payload, ← hbehind, slice, List.take_of_length_le]
    rw [List.length_drop, hpatched]
    omega
  show slice g (m.offset + 8) (m.size + n - 8) = m.payload f ++ tag
  rw [hg, slice, List.drop_append_of_le_length (by omega), hdrop, List.take_of_length_le]
  rw [List.length_append, Movie.payload, slice_length_of_le (by omega), hlen]
  omega

/-- **A tagged clip has one tag more.** -/
theorem clipTags_tagged {f json g : Bytes} {m : Movie} {n : Nat} {tags : List Bytes}
    (hm : (findMovie true f.length).on f = some m) (h : Tagged f m json g n)
    (htags : clipTags f = some tags) : clipTags g = some (tags ++ [json]) := by
  obtain ⟨tag, htiled, hpayload⟩ := h.payload
  obtain ⟨child, hchild, htag⟩ := motionTag_tiled htiled
  rw [clipTags, hm, Option.bind_some] at htags
  obtain ⟨children, hchildren, rfl⟩ := Option.map_eq_some_iff.mp htags
  rw [clipTags, h.again, Option.bind_some, hpayload, parseBoxes_append hchildren hchild,
    Option.map_some, List.filterMap_append]
  simp [htag]

/-! ## 2. What is written, as JSON -/

def number (i : Int) : Json := .number (.ofInt i)

def EventRow.json (r : EventRow) : Json :=
  .array [number r.offsetMs, number r.unixMs, number r.state, .string r.kind]

def MotionDoc.source (d : MotionDoc) : String :=
  if d.model = "y623" then "encoder-stats-ipc" else "firmware-iva-ipc"

def eventColumns : List String := ["offset_ms", "unix_ms", "state", "kind"]

def rawColumns : List String :=
  ["unix_ms", "Scene", "Move", "MovingLevel", "BinImgRatio", "MovingTh"]

/-- The value of an event document. -/
def MotionDoc.json (d : MotionDoc) : Json :=
  .object [("schema", .string "yi-motion-v1"), ("model", .string d.model),
    ("source", .string d.source), ("video_start_unix_ms", number d.movie.startMs),
    ("duration_ms", number d.movie.durationMs), ("video_time_precision_ms", number 1000),
    ("initial_state", number d.initialState), ("history_available", .bool d.available),
    ("history_truncated", .bool d.truncated), ("event_columns", .array (eventColumns.map .string)),
    ("events", .array (d.rows.map EventRow.json))]

/-- A sample whose ratio is a number, as `%.10g` writes every double that is finite. -/
structure FiniteRatio (s : MotionLevelSample) : Prop where
  ratio : isNumber s.binRatio.toList = true

/-- The text of a ratio as a number; that of none is a string. -/
def ratioJson (text : String) : Json :=
  if h : isNumber text.toList = true then .number ⟨text.toList, h⟩ else .string text

def MotionLevelSample.json (s : MotionLevelSample) : Json :=
  .array [number s.unixMs, number s.scene, number s.move, number s.movingLevel,
    ratioJson s.binRatio, number s.movingTh]

/-- The value of a raw document. -/
def rawJson (samples : List MotionLevelSample) : Json :=
  .object [("schema", .array (rawColumns.map .string)),
    ("data", .array (samples.map MotionLevelSample.json))]

/-- A text that is put between quotes as it is. -/
def Verbatim (s : String) : Prop := s.toList.flatMap escape = s.toList

instance (s : String) : Decidable (Verbatim s) :=
  inferInstanceAs (Decidable (s.toList.flatMap escape = s.toList))

theorem Verbatim.render {s : String} (h : Verbatim s) :
    renderString s = '\x22' :: s.toList ++ ['\x22'] := by
  rw [renderString, h]

theorem recordModel_verbatim (value : Option String) : Verbatim (recordModel value) := by
  cases value with
  | none => decide
  | some value =>
    show Verbatim (if value = "y623" ∨ value = "y28ga" then value else "unknown")
    split
    · rename_i h
      rcases h with rfl | rfl <;> decide
    · decide

theorem source_verbatim (d : MotionDoc) : Verbatim d.source := by
  unfold MotionDoc.source
  split <;> decide

theorem number_render (i : Int) : (number i).render = (toString i).toList := by
  rw [number, Json.render]
  rfl

theorem boolText_json (b : Bool) : (boolText b).toList = (Json.bool b).render := by
  cases b
  · rw [Json.render]
    decide
  · rw [Json.render]
    decide

theorem EventRow.text_json {r : EventRow} (h : Verbatim r.kind) :
    r.text.toList = r.json.render := by
  have h1 : "[".toList = ['['] := by decide
  have h2 : ",".toList = [','] := by decide
  have h3 : ",\"".toList = [',', '\x22'] := by decide
  have h4 : "\"]".toList = ['\x22', ']'] := by decide
  simp only [EventRow.text, EventRow.json, number_render, String.toList_append, h1, h2, h3, h4,
    Json.render, renderItems, h.render, List.append_assoc, List.cons_append, List.nil_append]

theorem sampleText_json {s : MotionLevelSample} (h : FiniteRatio s) :
    (sampleText s).toList = s.json.render := by
  have h1 : "[".toList = ['['] := by decide
  have h2 : ",".toList = [','] := by decide
  have h3 : "]".toList = [']'] := by decide
  have hratio : (ratioJson s.binRatio).render = s.binRatio.toList := by
    rw [ratioJson, dif_pos h.ratio, Json.render]
  unfold sampleText MotionLevelSample.json
  generalize ratioJson s.binRatio = ratio at hratio ⊢
  simp only [number_render, hratio, String.toList_append, h1, h2, h3, Json.render,
    renderItems, List.append_assoc, List.cons_append, List.nil_append]

/-! ## 3. The pieces of the text are the text of the value -/

/-- What pieces that are appended spell. -/
def chars (ps : List String) : List Char := ps.flatMap String.toList

theorem chars_append (ps qs : List String) : chars (ps ++ qs) = chars ps ++ chars qs :=
  List.flatMap_append

section Items

variable {α : Type} {text : α → String} {json : α → Json} {xs : List α}

/-- Items behind others, and the bracket. -/
theorem separated_json (h : ∀ x ∈ xs, (text x).toList = (json x).render) (included : Nat) :
    chars (separated (included + 1) (xs.map text)) ++ [']'] = renderItems (xs.map json) := by
  induction xs generalizing included with
  | nil => rfl
  | cons x xs ih =>
    have hcomma : ",".toList = [','] := by decide
    have ih := ih (fun x hx => h x (by simp [hx])) (included + 1)
    rw [chars] at ih
    rw [List.map_cons, separated, chars, List.flatMap_cons, if_pos (by omega), String.toList_append,
      hcomma, h x (by simp), List.append_assoc, ih, List.map_cons, renderItems]
    rfl

/-- **Separated texts of values, between brackets, are the text of the array.** -/
theorem items_json (h : ∀ x ∈ xs, (text x).toList = (json x).render) :
    '[' :: (chars (separated 0 (xs.map text)) ++ [']']) = (Json.array (xs.map json)).render := by
  cases xs with
  | nil =>
    rw [List.map_nil, List.map_nil, Json.render]
    rfl
  | cons x xs =>
    have hempty : "".toList = [] := by decide
    have hbehind : ∀ y ∈ xs, (text y).toList = (json y).render := fun y hy => h y (by simp [hy])
    have hrest := separated_json hbehind 0
    rw [chars] at hrest
    rw [List.map_cons, separated, chars, List.flatMap_cons, if_neg (by omega),
      String.toList_append, hempty, h x (by simp), List.nil_append, List.append_assoc, hrest,
      List.map_cons, Json.render]
    rfl

end Items

/-- What is appended for an event document. -/
def MotionDoc.pieces (d : MotionDoc) : List String :=
  headerText d.model d.movie d.initialState d.available d.truncated ::
    (separated 0 (d.rows.map EventRow.text) ++ ["]", "\x7d"])

/-- What is appended for a raw document. -/
def rawPieces (samples : List MotionLevelSample) : List String :=
  ("\x7b\"schema\":[\"unix_ms\",\"Scene\",\"Move\",\"MovingLevel\"," ++
      "\"BinImgRatio\",\"MovingTh\"],\"data\":[") ::
    (separated 0 (samples.map sampleText) ++ ["]\x7d"])

theorem jsonPieces_events {env : JsonEnv} (movie : Movie) (h : env.model ≠ "y623") :
    jsonPieces env movie = some (motionDoc env movie).pieces := if_neg h

theorem jsonPieces_raw {env : JsonEnv} {levels : Ring MotionLevelSample LEVEL_CAPACITY}
    (movie : Movie) (h : env.model = "y623") (hlevels : env.levels = some levels) :
    jsonPieces env movie = some (rawPieces (levels.toList.filter (coversSample movie))) := by
  rw [jsonPieces, if_pos h, hlevels, Option.map_some, rawPieces]

/-- **The pieces of an event document spell its value.** -/
theorem MotionDoc.pieces_json {d : MotionDoc} (hmodel : Verbatim d.model)
    (hrows : ∀ r ∈ d.rows, Verbatim r.kind) : chars d.pieces = d.json.render := by
  -- each literal of the format, as the pieces of JSON it is made of
  have h1 : "\x7b\"schema\":\"yi-motion-v1\",\"model\":\"".toList =
      '\x7b' :: renderString "schema" ++ ':' :: renderString "yi-motion-v1" ++
        ',' :: renderString "model" ++ [':', '\x22'] := by decide
  have h2 : "\",\"source\":\"".toList =
      '\x22' :: ',' :: renderString "source" ++ [':', '\x22'] := by decide
  have h3 : "\",\"video_start_unix_ms\":".toList =
      '\x22' :: ',' :: renderString "video_start_unix_ms" ++ [':'] := by decide
  have h4 : ",\"duration_ms\":".toList = ',' :: renderString "duration_ms" ++ [':'] := by
    decide
  have h5 : ",\"video_time_precision_ms\":1000,\"initial_state\":".toList =
      ',' :: renderString "video_time_precision_ms" ++ ':' :: (number 1000).render ++
        ',' :: renderString "initial_state" ++ [':'] := by decide
  have h6 : ",\"history_available\":".toList =
      ',' :: renderString "history_available" ++ [':'] := by decide
  have h7 : ",\"history_truncated\":".toList =
      ',' :: renderString "history_truncated" ++ [':'] := by decide
  have h8 :
      ",\"event_columns\":[\"offset_ms\",\"unix_ms\",\"state\",\"kind\"],\"events\":[".toList =
      ',' :: renderString "event_columns" ++
        ':' :: (Json.array (eventColumns.map .string)).render ++
        ',' :: renderString "events" ++ [':', '['] := by decide
  have h9 : chars ["]", "\x7d"] = [']', '\x7d'] := by decide
  have hquoted := (source_verbatim d).render
  have hitems := items_json fun r hr => EventRow.text_json (hrows r hr)
  rw [MotionDoc.pieces, chars, List.flatMap_cons, ← chars, chars_append, h9]
  unfold MotionDoc.json headerText
  unfold MotionDoc.source at hquoted ⊢
  generalize (if d.model = "y623" then "encoder-stats-ipc" else "firmware-iva-ipc") = source
    at hquoted ⊢
  simp only [String.toList_append, h1, h2, h3, h4, h5, h6, h7, h8, boolText_json, Json.render,
    renderFields, number_render, hmodel.render, hquoted, ← hitems, List.append_assoc,
    List.cons_append, List.nil_append]

/-- **The pieces of a raw document spell its value.** -/
theorem rawPieces_json {samples : List MotionLevelSample} (h : ∀ s ∈ samples, FiniteRatio s) :
    chars (rawPieces samples) = (rawJson samples).render := by
  have h1 : ("\x7b\"schema\":[\"unix_ms\",\"Scene\",\"Move\",\"MovingLevel\"," ++
      "\"BinImgRatio\",\"MovingTh\"],\"data\":[").toList =
      '\x7b' :: renderString "schema" ++ ':' :: (Json.array (rawColumns.map .string)).render ++
        ',' :: renderString "data" ++ [':', '['] := by decide
  have h2 : chars ["]\x7d"] = [']', '\x7d'] := by decide
  have hitems := items_json fun s hs => sampleText_json (h s hs)
  rw [rawPieces, chars, List.flatMap_cons, ← chars, chars_append, h1, h2, rawJson]
  simp only [Json.render, renderFields, ← hitems, List.append_assoc, List.cons_append,
    List.nil_append]

/-! ## 4. Reading a tag -/

/-- The characters of a text of ASCII alone. -/
def readAscii (b : Bytes) : Option (List Char) :=
  if b.all (fun x => x < 128) = true then some (b.map fun x => Char.ofNat x.toNat) else none

/-- What an event clip says. -/
structure ClipReport where
  model : String
  startMs : Int
  durationMs : Int
  initialState : Int
  available : Bool
  truncated : Bool
  rows : List EventRow
  deriving DecidableEq

/-- A row by its columns. -/
def readRow : Json → Option EventRow
  | .array [offset, time, state, kind] =>
    offset.int?.bind fun offset => time.int?.bind fun time => state.int?.bind fun state =>
      kind.string?.map fun kind => ⟨offset, time, state, kind⟩
  | _ => none

def readReport (j : Json) : Option ClipReport :=
  ((j.field "model").bind Json.string?).bind fun model =>
    ((j.field "video_start_unix_ms").bind Json.int?).bind fun start =>
      ((j.field "duration_ms").bind Json.int?).bind fun duration =>
        ((j.field "initial_state").bind Json.int?).bind fun initial =>
          ((j.field "history_available").bind Json.bool?).bind fun available =>
            ((j.field "history_truncated").bind Json.bool?).bind fun truncated =>
              (((j.field "events").bind Json.items?).bind fun rows => rows.mapM readRow).map
                fun rows => ⟨model, start, duration, initial, available, truncated, rows⟩

/-- A sample by its columns. -/
def readSample : Json → Option MotionLevelSample
  | .array [time, scene, move, level, ratio, th] =>
    time.int?.bind fun time => scene.int?.bind fun scene => move.int?.bind fun move =>
      level.int?.bind fun level => ratio.number?.bind fun ratio => th.int?.map fun th =>
        ⟨time, String.ofList ratio.text, scene, move, level, th⟩
  | _ => none

/-- What a clip says, in either format. -/
inductive ClipMotion
  | events (report : ClipReport)
  | raw (samples : List MotionLevelSample)

/-- The type of `schema` tells the formats apart. -/
def readMotion (j : Json) : Option ClipMotion :=
  match j.field "schema" with
  | some (.string name) => if name = "yi-motion-v1" then (readReport j).map .events else none
  | some (.array _) =>
    (((j.field "data").bind Json.items?).bind fun rows => rows.mapM readSample).map .raw
  | _ => none

/-- The motion of a tag's text. -/
def readTag (b : Bytes) : Option ClipMotion :=
  ((readAscii b).bind Json.parse).bind readMotion

/-- The report a document is read as. -/
def MotionDoc.report (d : MotionDoc) : ClipReport :=
  ⟨d.model, d.movie.startMs, d.movie.durationMs, d.initialState, d.available, d.truncated, d.rows⟩

/-- The state a reader of the report takes to be in force at `t`. -/
def ClipReport.claimed (r : ClipReport) (t : Int) : Int :=
  r.rows.foldl (fun s r => if r.unixMs ≤ t then r.state else s) r.initialState

theorem int?_number (i : Int) : (number i).int? = some i := Number.toInt?_ofInt i

theorem readRow_json (r : EventRow) : readRow r.json = some r := by
  rw [EventRow.json, readRow, int?_number, int?_number, int?_number]
  rfl

theorem readSample_json {s : MotionLevelSample} (h : FiniteRatio s) :
    readSample s.json = some s := by
  have hratio : (ratioJson s.binRatio).number? = some ⟨s.binRatio.toList, h.ratio⟩ := by
    rw [ratioJson, dif_pos h.ratio]
    rfl
  rw [MotionLevelSample.json, readSample]
  simp only [int?_number, hratio, Option.bind_some, Option.map_some, String.ofList_toList]

/-- Rows that are read one by one are read together. -/
theorem mapM_read {α β : Type} {read : β → Option α} {json : α → β} {xs : List α}
    (h : ∀ x ∈ xs, read (json x) = some x) : (xs.map json).mapM read = some xs := by
  induction xs with
  | nil => rfl
  | cons x xs ih =>
    rw [List.map_cons, List.mapM_cons, h x (by simp), ih fun x hx => h x (by simp [hx])]
    rfl

/-- **An event document is read as its report.** -/
theorem readMotion_events (d : MotionDoc) : readMotion d.json = some (.events d.report) := by
  have hrows : (d.rows.map EventRow.json).mapM readRow = some d.rows :=
    mapM_read fun r _ => readRow_json r
  rw [readMotion, MotionDoc.json]
  simp only [Json.field, List.lookup, readReport, Json.string?, Json.bool?, Json.items?,
    int?_number, hrows, Option.bind_some, Option.map_some, if_true, MotionDoc.report,
    String.reduceBEq]

/-- **A raw document is read as its samples.** -/
theorem readMotion_raw {samples : List MotionLevelSample} (h : ∀ s ∈ samples, FiniteRatio s) :
    readMotion (rawJson samples) = some (.raw samples) := by
  have hrows : (samples.map MotionLevelSample.json).mapM readSample = some samples :=
    mapM_read fun s hs => readSample_json (h s hs)
  rw [readMotion, rawJson]
  simp only [Json.field, List.lookup, Json.items?, hrows, Option.bind_some, Option.map_some,
    String.reduceBEq]

/-! ## 5. The text is read as it was written -/

def AsciiOnly (cs : List Char) : Prop := cs.all (fun c => c.toNat < 128) = true

instance (cs : List Char) : Decidable (AsciiOnly cs) :=
  inferInstanceAs (Decidable (_ = true))

theorem asciiOnly_iff {cs : List Char} : AsciiOnly cs ↔ ∀ c ∈ cs, c.toNat < 128 := by
  simp [AsciiOnly]

theorem asciiOnly_append {cs ds : List Char} :
    AsciiOnly (cs ++ ds) ↔ AsciiOnly cs ∧ AsciiOnly ds := by
  simp only [asciiOnly_iff, List.forall_mem_append]

theorem AsciiOnly.number {cs : List Char} (h : ∀ c ∈ cs, isNumberChar c = true) :
    AsciiOnly cs := by
  rw [asciiOnly_iff]
  intro c hc
  have h := h c hc
  simp only [isNumberChar, Bool.or_eq_true, beq_iff_eq] at h
  rcases h with ((((h | rfl) | rfl) | rfl) | rfl) | rfl
  · simp only [Char.isDigit, Bool.and_eq_true, decide_eq_true_eq] at h
    have hle : c.toNat ≤ '9'.toNat := h.2
    exact Nat.lt_of_le_of_lt hle (by decide)
  all_goals decide

theorem intText_ascii (i : Int) : AsciiOnly (toString i).toList :=
  .number (Number.ofInt i).chars.2

theorem boolText_ascii (b : Bool) : AsciiOnly (boolText b).toList := by
  cases b <;> decide

theorem recordModel_ascii (value : Option String) : AsciiOnly (recordModel value).toList := by
  cases value with
  | none => decide
  | some value =>
    show AsciiOnly (if value = "y623" ∨ value = "y28ga" then value else "unknown").toList
    split
    · rename_i h
      rcases h with rfl | rfl <;> decide
    · decide

theorem headerText_ascii {model : String} (hmodel : AsciiOnly model.toList) (movie : Movie)
    (initial : Int) (available truncated : Bool) :
    AsciiOnly (headerText model movie initial available truncated).toList := by
  have hsource : AsciiOnly
      (if model = "y623" then "encoder-stats-ipc" else "firmware-iva-ipc").toList := by
    split <;> decide
  unfold headerText
  generalize (if model = "y623" then "encoder-stats-ipc" else "firmware-iva-ipc") = source
    at hsource
  simp only [String.toList_append, asciiOnly_append]
  repeat' apply And.intro
  all_goals
    first
    | decide
    | exact hmodel
    | exact hsource
    | exact intText_ascii _
    | exact boolText_ascii _

theorem rowText_ascii {r : EventRow} (h : AsciiOnly r.kind.toList) : AsciiOnly r.text.toList := by
  simp only [EventRow.text, String.toList_append, asciiOnly_append, intText_ascii, h]
  decide

theorem sampleText_ascii {s : MotionLevelSample} (h : FiniteRatio s) :
    AsciiOnly (sampleText s).toList := by
  have hratio : AsciiOnly s.binRatio.toList := .number (Number.mk _ h.ratio).chars.2
  unfold sampleText
  simp only [String.toList_append, asciiOnly_append, intText_ascii, hratio]
  decide

theorem separated_ascii {ps : List String} (h : ∀ p ∈ ps, AsciiOnly p.toList) (included : Nat) :
    AsciiOnly (chars (separated included ps)) := by
  induction ps generalizing included with
  | nil => simp [separated, chars, AsciiOnly]
  | cons p ps ih =>
    have ih := ih (fun p hp => h p (by simp [hp])) (included + 1)
    have hsep : AsciiOnly (if included ≠ 0 then "," else "").toList := by
      split <;> decide
    rw [separated, chars, List.flatMap_cons, String.toList_append, asciiOnly_append,
      asciiOnly_append]
    exact ⟨⟨hsep, h p (by simp)⟩, ih⟩

/-- **ASCII is read as it was written.** -/
theorem readAscii_chars {cs : List Char} (h : AsciiOnly cs) :
    readAscii (cs.map fun c => UInt8.ofNat c.toNat) = some cs := by
  have h := asciiOnly_iff.mp h
  have hbyte : ∀ c ∈ cs, (UInt8.ofNat c.toNat).toNat = c.toNat := fun c hc => by
    have := h c hc
    rw [UInt8.toNat_ofNat']
    omega
  have hall : (cs.map fun c => UInt8.ofNat c.toNat).all (fun x => x < 128) = true := by
    rw [List.all_map, List.all_eq_true]
    intro c hc
    have := h c hc
    have := hbyte c hc
    simp only [Function.comp, decide_eq_true_eq, UInt8.lt_iff_toNat_lt]
    show (UInt8.ofNat c.toNat).toNat < 128
    omega
  rw [readAscii, if_pos hall, List.map_map]
  congr 1
  refine (List.map_congr_left fun c hc => ?_).trans (List.map_id cs)
  show Char.ofNat (UInt8.ofNat c.toNat).toNat = c
  rw [hbyte c hc, Char.ofNat_toNat]

/-- What is appended are the bytes of the pieces. -/
theorem appendAll_chars {json j : Bytes} {ps : List String} (h : appendAll json ps = some j) :
    j = json ++ (chars ps).map fun c => UInt8.ofNat c.toNat := by
  induction ps generalizing json with
  | nil =>
    rw [← Option.some.inj h]
    simp [chars]
  | cons p ps ih =>
    obtain ⟨json', hp, h⟩ := Option.bind_eq_some_iff.mp h
    rw [ih h, (appendText_iff.mp hp).2, chars, chars, List.flatMap_cons, List.map_append,
      List.append_assoc]
    rfl

/-- Pieces that spell a value are read as what it says. -/
theorem readTag_pieces {env : JsonEnv} {movie : Movie} {ps : List String} {text : Bytes} {j : Json}
    {motion : ClipMotion} (hps : jsonPieces env movie = some ps)
    (htext : buildJson env movie = some text) (hascii : AsciiOnly (chars ps))
    (hj : chars ps = j.render) (hmotion : readMotion j = some motion) :
    readTag text = some motion := by
  rw [buildJson_pieces, hps, Option.bind_some] at htext
  have hchars := appendAll_chars htext
  rw [List.nil_append] at hchars
  rw [readTag, hchars, readAscii_chars hascii, Option.bind_some, hj, Json.parse_render,
    Option.bind_some, hmotion]

/-- Every row is a sample or a transition. -/
theorem historyRows_kind (history : MotionHistory) (movie : Movie) :
    ∀ r ∈ historyRows history movie, r.kind = "sample" ∨ r.kind = "transition" := by
  intro r hr
  rcases List.mem_append.mp hr with hr | hr
  · split at hr
    · have hkind : (baselineRow history movie).kind =
          if history.baselineIsSample then "sample" else "transition" := rfl
      rw [List.mem_singleton.mp hr, hkind]
      split
      · exact .inl rfl
      · exact .inr rfl
    · cases hr
  · obtain ⟨e, -, rfl⟩ := List.mem_map.mp hr
    exact .inr rfl

/-- **An event document that is written is read as its report.** -/
theorem readTag_events {value : Option String} {history : Option MotionHistory}
    {levels : Option (Ring MotionLevelSample LEVEL_CAPACITY)} {movie : Movie} {text : Bytes}
    (hmodel : recordModel value ≠ "y623")
    (htext : buildJson ⟨recordModel value, history, levels⟩ movie = some text) :
    readTag text =
      some (.events (motionDoc ⟨recordModel value, history, levels⟩ movie).report) := by
  have hkinds := historyRows_kind (history.getD noHistory) movie
  have hverbatim : ∀ r ∈ historyRows (history.getD noHistory) movie, Verbatim r.kind :=
    fun r hr => by
      rcases hkinds r hr with h | h <;> rw [h] <;> decide
  refine readTag_pieces (jsonPieces_events movie hmodel) htext ?_
    (MotionDoc.pieces_json (recordModel_verbatim value) hverbatim) (readMotion_events _)
  rw [MotionDoc.pieces, chars, List.flatMap_cons, asciiOnly_append, ← chars, chars_append,
    asciiOnly_append]
  refine ⟨headerText_ascii (recordModel_ascii value) _ _ _ _, separated_ascii ?_ 0, by decide⟩
  intro p hp
  obtain ⟨r, hr, rfl⟩ := List.mem_map.mp hp
  refine rowText_ascii ?_
  rcases hkinds r hr with h | h <;> rw [h] <;> decide

/-- **A raw document that is written is read as its samples.** -/
theorem readTag_raw {env : JsonEnv} {levels : Ring MotionLevelSample LEVEL_CAPACITY}
    {movie : Movie} {text : Bytes} (hmodel : env.model = "y623")
    (hlevels : env.levels = some levels)
    (hfinite : ∀ s ∈ levels.toList, FiniteRatio s) (htext : buildJson env movie = some text) :
    readTag text = some (.raw (levels.toList.filter (coversSample movie))) := by
  have hkept : ∀ s ∈ levels.toList.filter (coversSample movie), FiniteRatio s := fun s hs =>
    hfinite s (List.mem_filter.mp hs).1
  refine readTag_pieces (jsonPieces_raw movie hmodel hlevels) htext ?_ (rawPieces_json hkept)
    (readMotion_raw hkept)
  rw [rawPieces, chars, List.flatMap_cons, asciiOnly_append, ← chars, chars_append,
    asciiOnly_append]
  refine ⟨by decide, separated_ascii ?_ 0, by decide⟩
  intro p hp
  obtain ⟨s, hs, rfl⟩ := List.mem_map.mp hp
  exact sampleText_ascii (hkept s hs)

/-! ## 6. The clip -/

/-- A clip is tagged where `finalize_metadata` returns 0. -/
theorem finalize_tagged {env : FinalizeEnv} {f : Bytes} {s : Sched}
    (h : (finalizeMetadata env f s).ret = some 0) :
    ∃ m json, (findMovie true f.length).on f = some m ∧ buildJson env.json m = some json ∧
      Tagged f m json (finalizeMetadata env f s).file (metadataBuffer json).length := by
  revert h
  unfold finalizeMetadata
  split
  · nofun
  · nofun
  · rename_i m s' hio
    have hm := Reader.io_done hio
    obtain ⟨hok, -, hF⟩ := findMovie_spec hm
    split
    · split
      · nofun
      · rename_i json hj
        intro h0
        have hb : (metadataBuffer json).length ≤ UINT32_MAX :=
          Nat.le_trans (metadataBuffer_fits hj) (by decide)
        obtain ⟨hfit, hfile⟩ := (writeMetadata_atomic env hF s' hb).tagged h0
        refine ⟨m, json, hok ▸ hm, hj, ?_⟩
        rw [hfile]
        exact tagged_patch hm hj hfit
    · nofun

/-- A history that reaches back to the start claims the state in force throughout. -/
theorem Represents.claimed_whole {s₀ t₀ : Int} {T old : List MotionEvent} {h : MotionHistory}
    {movie : Movie} (hR : Represents s₀ t₀ T old h) (hT : Timely t₀ T)
    (hb : h.baselineMs ≤ movie.startMs) {t : Int} (hs : movie.startMs ≤ t) (ht : t ≤ movie.endMs) :
    claimedBy h false movie t = stateAt s₀ T t := by
  have hkept : Timely t₀ h.events.toList := by
    rw [hR.split] at hT
    exact hT.append.2.1
  have hring := (hR.baseline_le hT).2
  unfold claimedBy
  rw [historyRows_foldl, hR.initialState_eq hT hb, hR.stateAt_eq hT hb, hR.stateAt_eq hT (by omega)]
  split
  · rename_i hl
    refine stateAt_covers ht (fun e he => ?_) _
    have := hring e he
    have := hl.1.2.1
    omega
  · exact stateAt_resume hkept hs ht _

/-- A report tells the states of the observations: where it claims one it is that in force, and it
    claims one throughout the clip unless it is marked truncated. -/
structure ClipReport.Tells (r : ClipReport) (m : Movie) (c : Collected) : Prop where
  available : r.available = true
  claimed : ∀ t, m.startMs ≤ t → t ≤ m.endMs → r.claimed t ≠ -1 →
    r.claimed t = stateAt c.state c.observations t
  whole : r.truncated = false → ∀ t, m.startMs ≤ t → t ≤ m.endMs →
    r.claimed t = stateAt c.state c.observations t

/-- The report of a history tells what was observed. -/
theorem report_tells (value : Option String) (c : Collected)
    (levels : Option (Ring MotionLevelSample LEVEL_CAPACITY)) (m : Movie)
    (hobs : Timely c.ms c.observations) :
    (motionDoc (recordEnv value (some c) levels) m).report.Tells m c := by
  obtain ⟨old, hR⟩ := represents_run c.state c.ms c.observations
  have hR : Represents c.state c.ms (transitions c.state c.observations) old c.history := hR
  have hT := hobs.transitions c.state
  have htruncated : (motionDoc (recordEnv value (some c) levels) m).truncated =
      decide (m.startMs < c.history.baselineMs) := by
    simp [motionDoc, recordEnv]
  have hclaimed (t : Int) : (motionDoc (recordEnv value (some c) levels) m).report.claimed t =
      claimedBy c.history (decide (m.startMs < c.history.baselineMs)) m t := by
    rw [← htruncated]
    rfl
  refine ⟨rfl, fun t hs ht hne => ?_, fun hwhole t hs ht => ?_⟩
  · rw [hclaimed] at hne ⊢
    rw [hR.claimed_eq hT hs ht hne, stateAt_transitions hobs]
  · have hwhole : decide (m.startMs < c.history.baselineMs) = false := htruncated.symm.trans hwhole
    rw [hclaimed, hwhole, hR.claimed_whole hT (by simpa using hwhole) hs ht,
      stateAt_transitions hobs]

/-- Without a history nothing is claimed. -/
theorem report_unknown (value : Option String)
    (levels : Option (Ring MotionLevelSample LEVEL_CAPACITY)) (m : Movie) (t : Int) :
    (motionDoc (recordEnv value none levels) m).report.claimed t = -1 := by
  have hrows : (motionDoc (recordEnv value none levels) m).rows = [] := by
    show historyRows noHistory m = []
    have hevents : noHistory.events.toList = [] := by rw [noHistory, historyInit, Ring.toList_empty]
    have hlisted : ¬ baselineListed noHistory m := fun h => absurd h.1 (by decide)
    rw [historyRows, if_neg hlisted, hevents]
    rfl
  have hinitial : (motionDoc (recordEnv value none levels) m).initialState = -1 := by
    show initialState noHistory true m = -1
    rw [initialState, noHistory, historyInit, Ring.toList_empty]
    rfl
  show (motionDoc _ m).rows.foldl _ (motionDoc _ m).initialState = -1
  rw [hrows, hinitial, List.foldl_nil]

theorem oneMinute_movie : (findMovie true oneMinute.length).on oneMinute =
    some ⟨0, 40, 40, 1700000000000, 60000⟩ := by
  decide

theorem oneMinute_tags : clipTags oneMinute = some [] := by
  have hpayload : (⟨0, 40, 40, 1700000000000, 60000⟩ : Movie).payload oneMinute =
      box (ascii "mvhd") (slice oneMinute 16 24) := by decide
  rw [clipTags, oneMinute_movie, Option.bind_some, hpayload,
    parseBoxes_single (by decide) (by decide)]
  decide

/-- With calls of a byte each, and enough of them, the clip of a minute is tagged with any text. -/
theorem oneMinute_finalized {env : JsonEnv} {json : Bytes}
    (hj : buildJson env ⟨0, 40, 40, 1700000000000, 60000⟩ = some json) :
    (finalizeMetadata ⟨env, true, true, true⟩ oneMinute (List.replicate 40000 (.count 1))).ret =
      some 0 := by
  have hlen := metadataBuffer_fits hj
  have hcap : JSON_CAPACITY = 32768 := rfl
  have hmax : UINT32_MAX = 4294967295 := rfl
  have hcost : (findMovie true oneMinute.length).cost oneMinute ≤ 100 := by decide
  have hcalls : counts (List.replicate 40000 (IoResult.count 1)) = 40000 := by
    rw [counts, List.countP_replicate]
    rfl
  refine finalize_succeeds oneMinute_movie hj rfl (by simp only; omega) (fun r hr => ?_)
    (by simp only; omega)
  rw [List.eq_of_mem_replicate hr]
  decide

/-- The ring with one sample of the minute. -/
def oneSample : Ring MotionLevelSample LEVEL_CAPACITY :=
  (Ring.empty (fun _ => ⟨0, "0", 0, 0, 0, 0⟩) (by decide)).push ⟨1700000030000, "4.25", 0, 2, 2, 20⟩

theorem oneSample_toList : oneSample.toList = [⟨1700000030000, "4.25", 0, 2, 2, 20⟩] := by
  rw [oneSample, Ring.toList_push]
  rfl

end YiHack.Record
