/-
  File:      YiHack/Record/BuildJson.lean
  Subject:   `record_metadata.c`: `build_json` and `build_raw_json`.

  The text is appended piece by piece to a buffer of 32768 bytes, and a piece that does not fit
  ends it. `buildJson` follows the code. `motionDoc` is the document an event history is rendered
  to, with its rows as a list, and `buildJson_text` says that what is written is its text.
  `buildJson_written`: with a model, states and times of the usual width it always fits.
-/
import YiHack.Record.History
import YiHack.Record.Movie

namespace YiHack.Record

open General

def JSON_CAPACITY : Nat := 32768
def LEVEL_CAPACITY : Nat := 512

/-! ## 1. Inputs -/

/-- `struct motion_level_sample`; `binRatio` is the text `%.10g` gives the double. -/
structure MotionLevelSample where
  unixMs : Int
  binRatio : String
  scene : Int
  move : Int
  movingLevel : Int
  movingTh : Int

/-- What `build_json` reads besides the movie: the model, and the two shared snapshots where
    they can be read. -/
structure JsonEnv where
  model : String
  history : Option MotionHistory
  levels : Option (Ring MotionLevelSample LEVEL_CAPACITY)

/-- The history `build_json` goes on with where none can be read. -/
def noHistory : MotionHistory := historyInit (-1) INT64_MAX

/-! ## 2. build_json -/

/-- `append_text`. -/
def appendText (json : Bytes) (text : String) : Option Bytes :=
  if (ascii text).length ≥ JSON_CAPACITY - json.length then none else some (json ++ ascii text)

def boolText (b : Bool) : String := if b then "true" else "false"

def sampleText (s : MotionLevelSample) : String :=
  "[" ++ toString s.unixMs ++ "," ++ toString s.scene ++ "," ++ toString s.move ++ "," ++
    toString s.movingLevel ++ "," ++ s.binRatio ++ "," ++ toString s.movingTh ++ "]"

/-- The loop of `build_raw_json`. -/
def appendSamples (movie : Movie) : List MotionLevelSample → Nat → Bytes → Option Bytes
  | [], _, json => some json
  | s :: ss, included, json =>
    if s.unixMs < movie.startMs ∨ s.unixMs > movie.startMs + movie.durationMs then
      appendSamples movie ss included json
    else
      (appendText json ((if included ≠ 0 then "," else "") ++ sampleText s)).bind
        (appendSamples movie ss (included + 1))

/-- `build_raw_json`. -/
def buildRawJson (env : JsonEnv) (movie : Movie) : Option Bytes :=
  env.levels.bind fun levels =>
    (appendText [] ("\x7b\"schema\":[\"unix_ms\",\"Scene\",\"Move\",\"MovingLevel\"," ++
        "\"BinImgRatio\",\"MovingTh\"],\"data\":[")).bind fun json =>
      (appendSamples movie levels.toList 0 json).bind fun json =>
        appendText json "]\x7d"

/-- A row `[offset, unix_ms, state, kind]`. -/
structure EventRow where
  offsetMs : Int
  unixMs : Int
  state : Int
  kind : String
  deriving DecidableEq, Repr

def EventRow.text (r : EventRow) : String :=
  "[" ++ toString r.offsetMs ++ "," ++ toString r.unixMs ++ "," ++ toString r.state ++ ",\"" ++
    r.kind ++ "\"]"

/-- The row of an event. -/
def eventRow (movie : Movie) (kind : String) (e : MotionEvent) : EventRow :=
  ⟨e.unixMs - movie.startMs, e.unixMs, e.state, kind⟩

/-- `end`: the movie's last millisecond. -/
def Movie.endMs (movie : Movie) : Int := movie.startMs + movie.durationMs

/-- The loop over the retained transitions. -/
def appendEvents (movie : Movie) : List MotionEvent → Nat → Bytes → Option Bytes
  | [], _, json => some json
  | e :: es, included, json =>
    if e.unixMs < movie.startMs ∨ e.unixMs > movie.endMs then appendEvents movie es included json
    else
      (appendText json ((if included ≠ 0 then "," else "") ++
          (eventRow movie "transition" e).text)).bind
        (appendEvents movie es (included + 1))

/-- `initial`: the baseline state unless the history begins after the movie, overridden by every
    retained transition not after the movie's start. -/
def initialState (history : MotionHistory) (truncated : Bool) (movie : Movie) : Int :=
  history.events.toList.foldl (fun s e => if e.unixMs ≤ movie.startMs then e.state else s)
    (if truncated then -1 else history.baselineState)

def headerText (model : String) (movie : Movie) (initial : Int) (available truncated : Bool) :
    String :=
  "\x7b\"schema\":\"yi-motion-v1\",\"model\":\"" ++ model ++ "\",\"source\":\"" ++
    (if model = "y623" then "encoder-stats-ipc" else "firmware-iva-ipc") ++
    "\",\"video_start_unix_ms\":" ++ toString movie.startMs ++
    ",\"duration_ms\":" ++ toString movie.durationMs ++
    ",\"video_time_precision_ms\":1000,\"initial_state\":" ++ toString initial ++
    ",\"history_available\":" ++ boolText available ++
    ",\"history_truncated\":" ++ boolText truncated ++
    ",\"event_columns\":[\"offset_ms\",\"unix_ms\",\"state\",\"kind\"],\"events\":["

/-- Whether the baseline gets a row. -/
def baselineListed (history : MotionHistory) (movie : Movie) : Prop :=
  history.baselineState ≥ 0 ∧ history.baselineMs ≥ movie.startMs ∧
    history.baselineMs ≤ movie.endMs

instance (history : MotionHistory) (movie : Movie) : Decidable (baselineListed history movie) :=
  inferInstanceAs (Decidable (_ ∧ _ ∧ _))

/-- The row of the baseline. -/
def baselineRow (history : MotionHistory) (movie : Movie) : EventRow :=
  eventRow movie (if history.baselineIsSample then "sample" else "transition")
    ⟨history.baselineMs, history.baselineState⟩

/-- The rows: that of the baseline, if it gets one, and those of the retained transitions. -/
def appendRows (history : MotionHistory) (movie : Movie) (json : Bytes) : Option Bytes :=
  if baselineListed history movie then
    (appendText json (baselineRow history movie).text).bind
      (appendEvents movie history.events.toList 1)
  else appendEvents movie history.events.toList 0 json

@[simp] theorem baselineRow_state (history : MotionHistory) (movie : Movie) :
    (baselineRow history movie).state = history.baselineState := rfl

/-- `build_json`. -/
def buildJson (env : JsonEnv) (movie : Movie) : Option Bytes :=
  if env.model = "y623" then buildRawJson env movie
  else
    let available := env.history.isSome
    let history := env.history.getD noHistory
    let truncated := !available || history.baselineMs > movie.startMs
    let initial := initialState history truncated movie
    (appendText [] (headerText env.model movie initial available truncated)).bind fun json =>
      (appendRows history movie json).bind fun json =>
        (appendText json "]").bind fun json => appendText json "\x7d"

/-! ## 3. The document -/

/-- The document of an event history. -/
structure MotionDoc where
  model : String
  movie : Movie
  initialState : Int
  available : Bool
  truncated : Bool
  rows : List EventRow

/-- Rows behind `included` others. -/
def rowsText : Nat → List EventRow → String
  | _, [] => ""
  | included, r :: rs => (if included ≠ 0 then "," else "") ++ r.text ++ rowsText (included + 1) rs

def MotionDoc.text (d : MotionDoc) : String :=
  headerText d.model d.movie d.initialState d.available d.truncated ++
    (rowsText 0 d.rows ++ ("]" ++ "\x7d"))

/-- In the movie's window. -/
def Movie.covers (movie : Movie) (e : MotionEvent) : Bool :=
  decide (movie.startMs ≤ e.unixMs ∧ e.unixMs ≤ movie.endMs)

/-- The rows of the retained transitions. -/
def transitionRows (movie : Movie) (es : List MotionEvent) : List EventRow :=
  (es.filter movie.covers).map (eventRow movie "transition")

/-- The rows of a history. -/
def historyRows (history : MotionHistory) (movie : Movie) : List EventRow :=
  (if baselineListed history movie then [baselineRow history movie] else []) ++
    transitionRows movie history.events.toList

/-- The document of the history `env` reads. -/
def motionDoc (env : JsonEnv) (movie : Movie) : MotionDoc :=
  let history := env.history.getD noHistory
  let truncated := !env.history.isSome || history.baselineMs > movie.startMs
  { model := env.model
    movie := movie
    initialState := initialState history truncated movie
    available := env.history.isSome
    truncated := truncated
    rows := historyRows history movie }

/-! ## 4. What is written is the document's text -/

theorem ascii_append (a b : String) : ascii (a ++ b) = ascii a ++ ascii b := by
  simp [ascii]

@[simp] theorem ascii_empty : ascii "" = [] := rfl

theorem ascii_length (a : String) : (ascii a).length = a.length := by
  rw [ascii, List.length_map, String.length_toList]

theorem appendText_iff {json j : Bytes} {text : String} :
    appendText json text = some j ↔
      json.length + (ascii text).length < JSON_CAPACITY ∧ j = json ++ ascii text := by
  unfold appendText
  split
  · simp
    omega
  · simp only [Option.some.injEq, eq_comm (a := j)]
    constructor
    · intro h
      exact ⟨by omega, h⟩
    · exact fun h => h.2

/-- Pieces that are appended one after another are appended as one. -/
theorem appendText_bind {json j : Bytes} {a b : String} :
    (appendText json a).bind (fun j => appendText j b) = some j ↔
      appendText json (a ++ b) = some j := by
  simp only [Option.bind_eq_some_iff, appendText_iff, ascii_append]
  constructor
  · rintro ⟨i, ⟨-, rfl⟩, hlt, rfl⟩
    simp only [List.length_append] at hlt ⊢
    exact ⟨by omega, by simp⟩
  · rintro ⟨hlt, rfl⟩
    simp only [List.length_append] at hlt
    exact ⟨_, ⟨by omega, rfl⟩, by simp only [List.length_append]; omega, by simp⟩

/-- A failing append fails whatever follows. -/
theorem appendText_empty {json : Bytes} (h : json.length < JSON_CAPACITY) :
    appendText json "" = some json := by
  rw [appendText_iff]
  exact ⟨by simpa using h, by simp⟩

theorem covers_iff {movie : Movie} {e : MotionEvent} :
    movie.covers e = true ↔ movie.startMs ≤ e.unixMs ∧ e.unixMs ≤ movie.endMs := by
  simp [Movie.covers]

/-- **The loop appends the rows of the window.** -/
theorem appendEvents_iff {movie : Movie} {es : List MotionEvent} {included : Nat} {json j : Bytes}
    (h : json.length < JSON_CAPACITY) :
    appendEvents movie es included json = some j ↔
      appendText json (rowsText included (transitionRows movie es)) = some j := by
  induction es generalizing included json with
  | nil =>
    rw [appendEvents, transitionRows, List.filter_nil, List.map_nil, rowsText, appendText_empty h]
  | cons e es ih =>
    unfold appendEvents
    by_cases hc : movie.covers e = true
    · have hw := covers_iff.mp hc
      rw [if_neg (by omega), transitionRows, List.filter_cons_of_pos hc, List.map_cons, rowsText,
        ← appendText_bind]
      simp only [Option.bind_eq_some_iff]
      refine exists_congr fun i => and_congr_right fun hi => ?_
      obtain ⟨hlt, rfl⟩ := appendText_iff.mp hi
      exact ih (by simpa only [List.length_append] using hlt)
    · have hw := mt covers_iff.mpr hc
      rw [if_pos (by omega), transitionRows, List.filter_cons_of_neg hc]
      exact ih h

theorem appendRows_iff {history : MotionHistory} {movie : Movie} {json j : Bytes}
    (h : json.length < JSON_CAPACITY) :
    appendRows history movie json = some j ↔
      appendText json (rowsText 0 (historyRows history movie)) = some j := by
  unfold appendRows historyRows
  split
  · rw [List.singleton_append, rowsText, ← appendText_bind]
    simp only [ne_eq, not_true_eq_false, if_false, String.empty_append, Option.bind_eq_some_iff]
    refine exists_congr fun i => and_congr_right fun hi => ?_
    obtain ⟨hlt, rfl⟩ := appendText_iff.mp hi
    exact appendEvents_iff (by simpa only [List.length_append] using hlt)
  · rw [List.nil_append]
    exact appendEvents_iff h

/-- Behind any header the rows and the closing brackets are appended as one text. -/
theorem appendRest_iff {header : String} {history : MotionHistory} {movie : Movie} {j : Bytes} :
    ((appendText [] header).bind fun json => (appendRows history movie json).bind fun json =>
        (appendText json "]").bind fun json => appendText json "\x7d") = some j ↔
      appendText [] (header ++ (rowsText 0 (historyRows history movie) ++ ("]" ++ "\x7d"))) =
        some j := by
  rw [← appendText_bind]
  simp only [Option.bind_eq_some_iff]
  refine exists_congr fun i => and_congr_right fun hi => ?_
  obtain ⟨hlt, rfl⟩ := appendText_iff.mp hi
  rw [← appendText_bind]
  simp only [Option.bind_eq_some_iff]
  refine exists_congr fun k => and_congr (appendRows_iff (by simpa using hlt)) ?_
  rw [← appendText_bind, Option.bind_eq_some_iff]

/-- **What `build_json` writes is the document's text**, and it writes it where it fits. -/
theorem buildJson_iff {env : JsonEnv} {movie : Movie} (hm : env.model ≠ "y623") {j : Bytes} :
    buildJson env movie = some j ↔ appendText [] (motionDoc env movie).text = some j := by
  unfold buildJson
  rw [if_neg hm]
  exact appendRest_iff

theorem buildJson_text {env : JsonEnv} {movie : Movie} (hm : env.model ≠ "y623") {j : Bytes}
    (h : buildJson env movie = some j) : j = ascii (motionDoc env movie).text := by
  have h := (appendText_iff.mp ((buildJson_iff hm).mp h)).2
  simpa using h

/-! ## 5. The document fits -/

theorem intText_length {i : Int} {k : Nat} (hk : 0 < k) (h : i.natAbs < 10 ^ k) :
    (toString i).length ≤ k + 1 := by
  cases i with
  | ofNat n =>
    have hn : n.repr.length ≤ k := (Nat.length_repr_le_iff hk).mpr h
    show n.repr.length ≤ k + 1
    omega
  | negSucc n =>
    have hn : (n + 1).repr.length ≤ k := (Nat.length_repr_le_iff hk).mpr h
    have h1 : "-".length = 1 := rfl
    show ("-" ++ (n + 1).repr).length ≤ k + 1
    rw [String.length_append]
    omega

/-- Times of a movie that was found, and a state that is an `int`. -/
structure EventRow.Usual (r : EventRow) : Prop where
  offset : r.offsetMs.natAbs < 10 ^ 9
  time : r.unixMs.natAbs < 10 ^ 19
  state : r.state.natAbs < 10 ^ 10
  kind : r.kind.length ≤ 10

theorem EventRow.Usual.text_length {r : EventRow} (h : r.Usual) : r.text.length ≤ 58 := by
  have ho := intText_length (by omega) h.offset
  have ht := intText_length (by omega) h.time
  have hs := intText_length (by omega) h.state
  have hk := h.kind
  have h1 : "[".length = 1 := rfl
  have h2 : ",".length = 1 := rfl
  have h3 : ",\"".length = 2 := rfl
  have h4 : "\"]".length = 2 := rfl
  simp only [EventRow.text, String.length_append]
  omega

theorem rowsText_length {rows : List EventRow} (h : ∀ r ∈ rows, r.Usual) (included : Nat) :
    (rowsText included rows).length ≤ 59 * rows.length := by
  induction rows generalizing included with
  | nil => exact Nat.zero_le _
  | cons r rs ih =>
    have hr := (h r (by simp)).text_length
    have hrs := ih (fun r hr => h r (by simp [hr])) (included + 1)
    have hsep : (if included ≠ 0 then "," else "").length ≤ 1 := by
      split
      · exact Nat.le_refl _
      · exact Nat.zero_le _
    simp only [rowsText, String.length_append, List.length_cons]
    omega

theorem headerText_length {model : String} {movie : Movie} {initial : Int}
    {available truncated : Bool} (hm : model.length ≤ 16) (hs : movie.startMs.natAbs < 10 ^ 19)
    (hd : movie.durationMs.natAbs < 10 ^ 9) (hi : initial.natAbs < 10 ^ 10) :
    (headerText model movie initial available truncated).length ≤ 400 := by
  -- the literals as variables: their lengths are looked at once, not compared with each other
  have pieces : ∀ {l₁ l₂ l₃ l₄ l₅ l₆ l₇ l₈ a b c d e f g : String}, l₁.length = 34 →
      l₂.length = 12 → l₃.length = 24 → l₄.length = 15 → l₅.length = 48 → l₆.length = 21 →
      l₇.length = 21 → l₈.length = 66 → a.length ≤ 16 → b.length ≤ 17 → c.length ≤ 20 →
      d.length ≤ 10 → e.length ≤ 11 → f.length ≤ 5 → g.length ≤ 5 →
      (l₁ ++ a ++ l₂ ++ b ++ l₃ ++ c ++ l₄ ++ d ++ l₅ ++ e ++ l₆ ++ f ++ l₇ ++ g ++ l₈).length ≤
        400 := by
    intros
    simp only [String.length_append]
    omega
  have hb : ∀ b, (boolText b).length ≤ 5 := by decide
  have hsource :
      (if model = "y623" then "encoder-stats-ipc" else "firmware-iva-ipc").length ≤ 17 := by
    split <;> decide
  exact pieces String.length_ofList String.length_ofList String.length_ofList String.length_ofList
    String.length_ofList String.length_ofList String.length_ofList String.length_ofList hm hsource
    (intText_length (by omega) hs) (intText_length (by omega) hd) (intText_length (by omega) hi)
    (hb available) (hb truncated)

/-- Every state of the history is an `int`. -/
def IntStates (h : MotionHistory) : Prop :=
  h.baselineState.natAbs < 10 ^ 10 ∧ ∀ e ∈ h.events.toList, e.state.natAbs < 10 ^ 10

/-- The row of an event of the window is of the usual width. -/
theorem eventRow_usual {movie : Movie} {kind : String} {e : MotionEvent}
    (hs : 0 ≤ movie.startMs ∧ movie.startMs ≤ INT64_MAX)
    (hd : 0 ≤ movie.durationMs ∧ movie.durationMs ≤ 86400000) (he : e.state.natAbs < 10 ^ 10)
    (hc : movie.startMs ≤ e.unixMs ∧ e.unixMs ≤ movie.endMs) (hk : kind.length ≤ 10) :
    (eventRow movie kind e).Usual := by
  have hend : movie.endMs = movie.startMs + movie.durationMs := rfl
  have hmax : INT64_MAX = 9223372036854775807 := rfl
  refine ⟨?_, ?_, he, hk⟩
  · show (e.unixMs - movie.startMs).natAbs < 10 ^ 9
    omega
  · show e.unixMs.natAbs < 10 ^ 19
    omega

/-- The state at the movie's start is one of the history's, or -1. -/
theorem initialState_int {history : MotionHistory} (h : IntStates history) (truncated : Bool)
    (movie : Movie) : (initialState history truncated movie).natAbs < 10 ^ 10 := by
  refine List.foldlRecOn (motive := fun s : Int => s.natAbs < 10 ^ 10) _ _ ?_ ?_
  · cases truncated
    · exact h.1
    · show (-1 : Int).natAbs < 10 ^ 10
      decide
  · intro s hs e he
    split
    · exact h.2 e he
    · exact hs

/-- **The document always fits**: 513 rows at most. -/
theorem buildJson_complete {env : JsonEnv} {movie : Movie} (hm : env.model ≠ "y623")
    (hlen : env.model.length ≤ 16) (hint : IntStates (env.history.getD noHistory))
    (hs : 0 ≤ movie.startMs ∧ movie.startMs ≤ INT64_MAX)
    (hd : 0 ≤ movie.durationMs ∧ movie.durationMs ≤ 86400000) :
    buildJson env movie = some (ascii (motionDoc env movie).text) := by
  rw [buildJson_iff hm, appendText_iff]
  refine ⟨?_, (List.nil_append _).symm⟩
  have hmax : INT64_MAX = 9223372036854775807 := rfl
  have hrows : (motionDoc env movie).rows = historyRows (env.history.getD noHistory) movie := rfl
  have hhead : (headerText env.model movie (motionDoc env movie).initialState
      (motionDoc env movie).available (motionDoc env movie).truncated).length ≤ 400 :=
    headerText_length hlen (by omega) (by omega) (initialState_int hint _ movie)
  generalize env.history.getD noHistory = history at hint hrows
  have husual : ∀ r ∈ historyRows history movie, r.Usual := by
    intro r hr
    rcases List.mem_append.mp hr with hr | hr
    · split at hr
      · rename_i hb
        rw [List.mem_singleton.mp hr]
        refine eventRow_usual hs hd hint.1 ⟨hb.2.1, hb.2.2⟩ ?_
        split <;> decide
      · cases hr
    · obtain ⟨e, he, rfl⟩ := List.mem_map.mp hr
      obtain ⟨he, hc⟩ := List.mem_filter.mp he
      exact eventRow_usual hs hd (hint.2 e he) (covers_iff.mp hc) (by decide)
  have hcount : (historyRows history movie).length ≤ 513 := by
    have hfilter := List.length_filter_le movie.covers history.events.toList
    have hcap := history.events.count_le
    have hN : EVENT_CAPACITY = 512 := rfl
    rw [Ring.toList_length] at hfilter
    simp only [historyRows, transitionRows, List.length_append, List.length_map]
    split
    · rw [List.length_singleton]
      omega
    · rw [List.length_nil]
      omega
  have hbody := rowsText_length husual 0
  have hend : ("]" ++ "\x7d").length = 2 := by decide
  rw [ascii_length]
  simp only [MotionDoc.text, String.length_append, hrows, List.length_nil] at hhead hend ⊢
  show _ < 32768
  have e1 : (motionDoc env movie).model = env.model := rfl
  have e2 : (motionDoc env movie).movie = movie := rfl
  rw [e1, e2]
  omega

/-- The same of a history that was read. -/
theorem buildJson_written {env : JsonEnv} {movie : Movie} {history : MotionHistory}
    (hm : env.model ≠ "y623") (hlen : env.model.length ≤ 16) (hh : env.history = some history)
    (hint : IntStates history) (hs : 0 ≤ movie.startMs ∧ movie.startMs ≤ INT64_MAX)
    (hd : 0 ≤ movie.durationMs ∧ movie.durationMs ≤ 86400000) :
    buildJson env movie = some (ascii (motionDoc env movie).text) :=
  buildJson_complete hm hlen (by rw [hh]; exact hint) hs hd

end YiHack.Record
