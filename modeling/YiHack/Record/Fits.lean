/-
  File:      YiHack/Record/Fits.lean
  Subject:   `record_metadata.c`: the room in the buffer of `finalize_metadata`.

  * `Collected` -- a history the collector has built, of any times and any `int` states;
  * `jsonPieces`, `appendAll` -- `build_json` as the pieces it appends (`buildJson_pieces`);
  * `finalizeCursor` -- where `finalize_metadata` writes into its buffer, and how much;
  * `finalizeCursor_inside` -- that is inside, whatever is read;
  * **`event_metadata_fits`** -- and the text of an event history is never cut off.
-/
import YiHack.Record.Finalize
import YiHack.Record.MovieTimes

namespace YiHack.Record.Fits

open General

/-! ## 1. What is read -/

/-- `model`, by what `initialize` finds in the environment. -/
def recordModel : Option String → String
  | some value => if value = "y623" ∨ value = "y28ga" then value else "unknown"
  | none => "unknown"

/-- A history as the collector builds it: its baseline, and the observations since. The times are
    any, the states are `int`. -/
structure Collected where
  state : Int
  ms : Int
  observations : List MotionEvent
  int : -2 ^ 31 ≤ state ∧ state < 2 ^ 31
  ints : ∀ e ∈ observations, -2 ^ 31 ≤ e.state ∧ e.state < 2 ^ 31

def Collected.history (c : Collected) : MotionHistory := historyRun c.state c.ms c.observations

/-- What `build_json` reads, the history where it can be read. -/
def recordEnv (value : Option String) (collected : Option Collected)
    (levels : Option (Ring MotionLevelSample LEVEL_CAPACITY)) : JsonEnv :=
  ⟨recordModel value, collected.map (·.history), levels⟩

theorem recordModel_length (value : Option String) : (recordModel value).length ≤ 16 := by
  cases value with
  | none => decide
  | some value =>
    show (if value = "y623" ∨ value = "y28ga" then value else "unknown").length ≤ 16
    split
    · rename_i h
      obtain rfl | rfl := h <;> decide
    · decide

/-- The states of a history are among the observed ones and that of its baseline. -/
theorem Collected.intStates (c : Collected) : IntStates c.history := by
  obtain ⟨old, hR⟩ := represents_run c.state c.ms c.observations
  have hobserved : ∀ e ∈ old ++ c.history.events.toList, e.state.natAbs < 10 ^ 10 := by
    intro e he
    have hmem : e ∈ transitions c.state c.observations := by
      rw [hR.split]
      exact he
    have hint := c.ints e ((transitions_sublist _ _).subset hmem)
    omega
  refine ⟨?_, fun e he => hobserved e (List.mem_append_right _ he)⟩
  by_cases hold : old = []
  · have hfresh : c.history.baselineState = c.state := (hR.fresh hold).1
    have hint := c.int
    rw [hfresh]
    omega
  · have hlast := List.mem_of_getLast? (hR.baseline hold).1
    exact hobserved _ (List.mem_append_left _ hlast)

/-- What is read in place of a history is usual too. -/
theorem recordEnv_intStates (value : Option String) (collected : Option Collected)
    (levels : Option (Ring MotionLevelSample LEVEL_CAPACITY)) :
    IntStates ((recordEnv value collected levels).history.getD noHistory) := by
  cases collected with
  | some c => exact c.intStates
  | none =>
    refine ⟨?_, fun e he => ?_⟩
    · show (-1 : Int).natAbs < 10 ^ 10
      decide
    · have he : e ∈ noHistory.events.toList := he
      rw [noHistory, historyInit, Ring.toList_empty] at he
      cases he

/-! ## 2. The pieces of the text -/

/-- `append_text`, once for each piece. -/
def appendAll (json : Bytes) : List String → Option Bytes
  | [] => some json
  | p :: ps => (appendText json p).bind fun json => appendAll json ps

/-- Pieces behind `included` others. -/
def separated : Nat → List String → List String
  | _, [] => []
  | included, p :: ps => ((if included ≠ 0 then "," else "") ++ p) :: separated (included + 1) ps

/-- In the movie's window. -/
def coversSample (movie : Movie) (s : MotionLevelSample) : Bool :=
  decide (movie.startMs ≤ s.unixMs ∧ s.unixMs ≤ movie.startMs + movie.durationMs)

/-- What `build_json` appends; nothing where the levels cannot be read. -/
def jsonPieces (env : JsonEnv) (movie : Movie) : Option (List String) :=
  if env.model = "y623" then
    env.levels.map fun levels =>
      ("\x7b\"schema\":[\"unix_ms\",\"Scene\",\"Move\",\"MovingLevel\"," ++
          "\"BinImgRatio\",\"MovingTh\"],\"data\":[") ::
        (separated 0 ((levels.toList.filter (coversSample movie)).map sampleText) ++ ["]\x7d"])
  else
    let d := motionDoc env movie
    some (headerText d.model d.movie d.initialState d.available d.truncated ::
      (separated 0 (d.rows.map EventRow.text) ++ ["]", "\x7d"]))

theorem appendAll_append (json : Bytes) (ps qs : List String) :
    appendAll json (ps ++ qs) = (appendAll json ps).bind fun json => appendAll json qs := by
  induction ps generalizing json with
  | nil => rfl
  | cons p ps ih =>
    rw [List.cons_append, appendAll, appendAll, Option.bind_assoc]
    exact congrArg _ (funext ih)

theorem appendEvents_pieces (movie : Movie) (es : List MotionEvent) (included : Nat)
    (json : Bytes) :
    appendEvents movie es included json =
      appendAll json (separated included ((transitionRows movie es).map EventRow.text)) := by
  induction es generalizing included json with
  | nil => rfl
  | cons e es ih =>
    unfold appendEvents
    by_cases hc : movie.covers e = true
    · have hw := covers_iff.mp hc
      rw [if_neg (by omega), transitionRows, List.filter_cons_of_pos hc, List.map_cons,
        List.map_cons, separated, appendAll]
      exact congrArg _ (funext fun json => ih (included + 1) json)
    · have hw := mt covers_iff.mpr hc
      rw [if_pos (by omega), transitionRows, List.filter_cons_of_neg hc]
      exact ih included json

theorem appendSamples_pieces (movie : Movie) (ss : List MotionLevelSample) (included : Nat)
    (json : Bytes) :
    appendSamples movie ss included json =
      appendAll json
        (separated included ((ss.filter (coversSample movie)).map sampleText)) := by
  induction ss generalizing included json with
  | nil => rfl
  | cons s ss ih =>
    unfold appendSamples
    by_cases hc : coversSample movie s = true
    · have hw := of_decide_eq_true hc
      rw [if_neg (by omega), List.filter_cons_of_pos hc, List.map_cons, separated, appendAll]
      exact congrArg _ (funext fun json => ih (included + 1) json)
    · have hw : ¬ (movie.startMs ≤ s.unixMs ∧ s.unixMs ≤ movie.startMs + movie.durationMs) :=
        fun hw => hc (decide_eq_true hw)
      rw [if_pos (by omega), List.filter_cons_of_neg hc]
      exact ih included json

theorem appendRows_pieces (history : MotionHistory) (movie : Movie) (json : Bytes) :
    appendRows history movie json =
      appendAll json (separated 0 ((historyRows history movie).map EventRow.text)) := by
  unfold appendRows historyRows
  split
  · rw [List.singleton_append, List.map_cons, separated, appendAll]
    simp only [ne_eq, not_true_eq_false, if_false, String.empty_append]
    exact congrArg _ (funext fun json => appendEvents_pieces movie _ 1 json)
  · exact appendEvents_pieces movie _ 0 json

/-- **`build_json` appends its pieces.** -/
theorem buildJson_pieces (env : JsonEnv) (movie : Movie) :
    buildJson env movie = (jsonPieces env movie).bind (appendAll []) := by
  unfold buildJson jsonPieces
  split
  · unfold buildRawJson
    cases env.levels with
    | none => rfl
    | some levels =>
      simp only [Option.bind_some, Option.map_some, appendAll, appendAll_append,
        appendSamples_pieces, Option.bind_fun_some]
  · simp only [Option.bind_some, appendAll, appendAll_append, Option.bind_fun_some]
    exact congrArg _ (funext fun json => by rw [appendRows_pieces]; rfl)

/-! ## 3. The stores -/

/-- Bytes written from a place on. -/
structure Store where
  off : Nat
  len : Nat
  deriving DecidableEq

/-- The stores of `vsnprintf` for the pieces, with `json` at `base` so far: the text and its end, as
    far as the capacity goes. -/
def textStores (base : Nat) (json : Bytes) : List String → List Store
  | [] => []
  | p :: ps =>
    ⟨base + json.length, min ((ascii p).length + 1) (JSON_CAPACITY - json.length)⟩ ::
      (match appendText json p with
      | none => []
      | some json => textStores base json ps)

/-- `used`, and the stores so far. -/
structure Cursor where
  used : Nat
  stores : List Store

namespace Cursor

/-- `store32` at `used`. -/
def store32 (c : Cursor) : Cursor := { c with stores := c.stores ++ [⟨c.used, 4⟩] }

/-- `used += n`. -/
def skip (c : Cursor) (n : Nat) : Cursor := { c with used := c.used + n }

/-- `append_text` to `used`, for each piece. -/
def store (c : Cursor) (ss : List Store) : Cursor := { c with stores := c.stores ++ ss }

/-- `memcpy` of `n` bytes to `used`, and past them. -/
def copy (c : Cursor) (n : Nat) : Cursor := ⟨c.used + n, c.stores ++ [⟨c.used, n⟩]⟩

/-- `begin_box`. -/
def beginBox (c : Cursor) : Cursor := ⟨c.used + 8, c.stores ++ [⟨c.used, 4⟩, ⟨c.used + 4, 4⟩]⟩

/-- `end_box` of the box that starts at `start`. -/
def endBox (c : Cursor) (start : Nat) : Cursor := { c with stores := c.stores ++ [⟨start, 4⟩] }

end Cursor

/-- Where the text begins, and the boxes that are open there. -/
structure OpenBoxes where
  cursor : Cursor
  udta : Nat
  meta_ : Nat
  ilst : Nat
  custom : Nat
  data : Nat

/-- `finalize_metadata`, up to its `build_json`. -/
def openBoxes : OpenBoxes :=
  let c : Cursor := ⟨0, []⟩
  let udta := c.used
  let c := c.beginBox
  let meta_ := c.used
  let c := c.beginBox.skip 4
  let hdlr := c.used
  let c := (((c.beginBox.skip 8).copy 4).skip 13).endBox hdlr
  let ilst := c.used
  let c := c.beginBox
  let custom := c.used
  let c := c.beginBox
  let mean := c.used
  let c := ((c.beginBox.skip 4).copy 11).endBox mean
  let name := c.used
  let c := ((c.beginBox.skip 4).copy 9).endBox name
  let data := c.used
  let c := c.beginBox.store32.skip 8
  ⟨c, udta, meta_, ilst, custom, data⟩

/-- `finalize_metadata`, as far as it writes into its buffer: a text that is not complete ends it,
    behind a complete one the boxes are ended. -/
def finalizeCursor (env : JsonEnv) (movie : Movie) : Cursor :=
  let o := openBoxes
  let c := o.cursor.store (textStores o.cursor.used [] ((jsonPieces env movie).getD []))
  match buildJson env movie with
  | none => c
  | some json =>
    (((((c.skip json.length).endBox o.data).endBox o.custom).endBox o.ilst).endBox o.meta_).endBox
      o.udta

/-- The text is not written past its capacity. -/
theorem textStores_inside {base : Nat} {json : Bytes} (h : json.length < JSON_CAPACITY)
    (ps : List String) : ∀ x ∈ textStores base json ps, x.off + x.len ≤ base + JSON_CAPACITY := by
  induction ps generalizing json with
  | nil => intro x hx; cases hx
  | cons p ps ih =>
    intro x hx
    obtain rfl | hx := List.mem_cons.mp hx
    · simp only
      omega
    · cases hp : appendText json p with
      | none =>
        rw [hp] at hx
        cases hx
      | some json' =>
        rw [hp] at hx
        exact ih (appendText_length hp) x hx

/-- Every store ends within `n` bytes. -/
def Cursor.Inside (n : Nat) (c : Cursor) : Prop := ∀ x ∈ c.stores, x.off + x.len ≤ n

theorem Cursor.Inside.store {n : Nat} {c : Cursor} {ss : List Store} (h : c.Inside n)
    (hs : ∀ x ∈ ss, x.off + x.len ≤ n) : (c.store ss).Inside n := by
  intro x hx
  obtain hx | hx := List.mem_append.mp hx
  · exact h x hx
  · exact hs x hx

theorem Cursor.Inside.skip {n : Nat} {c : Cursor} (h : c.Inside n) (k : Nat) :
    (c.skip k).Inside n := h

theorem Cursor.Inside.endBox {n start : Nat} {c : Cursor} (h : c.Inside n) (hs : start + 4 ≤ n) :
    (c.endBox start).Inside n :=
  h.store fun x hx => by
    rw [List.mem_singleton.mp hx]
    exact hs

/-- The 129 bytes before the text are written inside, and the open boxes are among them. -/
theorem openBoxes_inside : openBoxes.cursor.used = 129 ∧ openBoxes.cursor.Inside 129 ∧
    openBoxes.udta + 4 ≤ 129 ∧ openBoxes.meta_ + 4 ≤ 129 ∧ openBoxes.ilst + 4 ≤ 129 ∧
    openBoxes.custom + 4 ≤ 129 ∧ openBoxes.data + 4 ≤ 129 := by
  unfold Cursor.Inside
  decide

/-- **Nothing is written past the buffer**, whatever is read. -/
theorem finalizeCursor_inside (env : JsonEnv) (movie : Movie) :
    (finalizeCursor env movie).Inside (JSON_CAPACITY + 256) := by
  obtain ⟨hused, hopen, hudta, hmeta, hilst, hcustom, hdata⟩ := openBoxes_inside
  have hroom {n : Nat} (hn : n ≤ 129) : n ≤ JSON_CAPACITY + 256 := Nat.le_trans hn (by decide)
  have hopen : openBoxes.cursor.Inside (JSON_CAPACITY + 256) := fun x hx => hroom (hopen x hx)
  have hbase : openBoxes.cursor.used + JSON_CAPACITY ≤ JSON_CAPACITY + 256 := by
    rw [hused]
    decide
  have hempty : ([] : Bytes).length < JSON_CAPACITY := by decide
  have htext := hopen.store fun x hx =>
    Nat.le_trans (textStores_inside hempty ((jsonPieces env movie).getD []) x hx) hbase
  unfold finalizeCursor
  split
  · exact htext
  · rename_i json hjson
    exact (((((htext.skip json.length).endBox (hroom hdata)).endBox (hroom hcustom)).endBox
      (hroom hilst)).endBox (hroom hmeta)).endBox (hroom hudta)

/-! ## 4. The text fits -/

/-- The text has its room, with every row of the window. -/
structure MetadataFits (env : JsonEnv) (movie : Movie) : Prop where
  written : buildJson env movie = some (ascii (motionDoc env movie).text)
  room : (ascii (motionDoc env movie).text).length + 1 ≤ JSON_CAPACITY
  baseline : baselineListed (env.history.getD noHistory) movie →
    baselineRow (env.history.getD noHistory) movie ∈ (motionDoc env movie).rows
  rows : ∀ e ∈ (env.history.getD noHistory).events.toList, movie.covers e = true →
    eventRow movie "transition" e ∈ (motionDoc env movie).rows

/-- **Event metadata always fits.** For every model but y623, every history the collector builds or
    none, and every movie that is found and whose end is an `int64_t`, the text has its room; and
    with any model `finalize_metadata` keeps to its buffer. -/
theorem event_metadata_fits {value : Option String} (hmodel : recordModel value ≠ "y623")
    (collected : Option Collected) (levels : Option (Ring MotionLevelSample LEVEL_CAPACITY))
    {f : Bytes} {movie : Movie} (hfound : (findMovie true f.length).on f = some movie)
    (hend : movie.endMs ≤ INT64_MAX) :
    MetadataFits (recordEnv value collected levels) movie ∧
      ∀ env, (finalizeCursor env movie).Inside (JSON_CAPACITY + 256) := by
  obtain ⟨moov, size, creation, scale, duration, hfinal, rfl⟩ := findMovie_iff.mp hfound
  obtain ⟨_, child, -, -, hmvhd⟩ := hfinal.mvhd
  have hday : durationOf scale duration ≤ 86400000 := hmvhd.range.day
  simp only [Movie.endMs] at hend
  have hwritten : buildJson (recordEnv value collected levels)
      ⟨moov, f.length, size, startOf creation, durationOf scale duration⟩ = some _ :=
    buildJson_complete hmodel (recordModel_length value)
      (recordEnv_intStates value collected levels) ⟨by simp only; omega, by simp only; omega⟩
      ⟨by simp only; omega, by simp only; omega⟩
  refine ⟨?_, fun env => finalizeCursor_inside env _⟩
  exact {
    written := hwritten
    room := buildJson_length hwritten
    baseline := fun hb => List.mem_append_left _ (by
      rw [if_pos hb]
      exact List.mem_singleton_self _)
    rows := fun e he hc => List.mem_append_right _
      (List.mem_map_of_mem (List.mem_filter.mpr ⟨he, hc⟩)) }

/-- A `moov` alone that lasts a minute. -/
def oneMinute : Bytes :=
  [0, 0, 0, 40] ++ ascii "moov" ++ [0, 0, 0, 32] ++ ascii "mvhd" ++ [0, 0, 0, 0] ++
    [0xe1, 0x79, 0xa1, 0x80] ++ [0, 0, 0, 0] ++ [0, 0, 3, 0xe8] ++ [0, 0, 0xea, 0x60] ++
    [0, 0, 0, 0]

/-- A motion that begins in it and goes on. -/
def oneMotion : Collected where
  state := 0
  ms := 1700000000000
  observations := [⟨1700000030000, 1⟩]
  int := by decide
  ints := by decide

/-- The clip of a motion that begins in it, for a camera that says no model. -/
theorem one_minute_fits :
    MetadataFits (recordEnv none (some oneMotion) none) ⟨0, 40, 40, 1700000000000, 60000⟩ ∧
      ∀ env, (finalizeCursor env ⟨0, 40, 40, 1700000000000, 60000⟩).Inside (JSON_CAPACITY + 256) :=
  event_metadata_fits (by decide) (some oneMotion) none
    (show (findMovie true oneMinute.length).on oneMinute = some ⟨0, 40, 40, 1700000000000, 60000⟩ by
      decide) (by decide)

end YiHack.Record.Fits
