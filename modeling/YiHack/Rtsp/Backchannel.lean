/-
  File:      YiHack/Rtsp/Backchannel.lean
  Subject:   The negotiation of the backchannel in `YiRTSPServer.cpp`: `requiresBackchannel` looks
             for the feature in a request, `handleCmd_DESCRIBE_afterLookup` takes the reverse
             tracks out of a response.

  A text is the C string it is read from. The response is the one live555 puts into its buffer:
  lines that end in CRLF, with a header line `Content-Length: ` if there is a body.

  * `Requires` -- some header line lists the feature;
  * `Response.sent` -- the response without its reverse tracks;
  * **`requiresBackchannel_right`** -- the request is read right, always;
  * **`negotiation_right_iff`** -- exactly the responses that are rewritten right;
  * `echo_miscounts` -- a `CSeq` that reads like the length.
-/
import YiHack.General.Find
import YiHack.Mqtt.Validate

namespace YiHack.Rtsp

open General
open Mqtt (strncasecmp)

/-! ## 1. The request -/

def BACKCHANNEL : Bytes := ascii "www.onvif.org/ver20/backchannel"

/-- Blank, tab and comma. -/
def isSeparator (b : UInt8) : Bool := b == 32 || b == 9 || b == 44

/-- The tokens of a line from `pos` on; nothing without fuel. -/
def requiredTokens : Nat → Bytes → Nat → Option Bool
  | 0, _, _ => none
  | fuel + 1, line, pos =>
    if pos < line.length then
      match findFirstNotOf isSeparator line pos with
      | none => some false
      | some pos =>
        let last := findFirstOf isSeparator line pos
        if substr line pos last = BACKCHANNEL then some true
        else
          match last with
          | none => some false
          | some last => requiredTokens fuel line last
    else some false

/-- The lines of a request from `start` on. -/
def requestLines : Nat → Bytes → Nat → Option Bool
  | 0, _, _ => none
  | fuel + 1, lines, start =>
    if start < lines.length then
      match find lines crlf start with
      | none => some false
      | some stop =>
        if stop = start then some false
        else
          let line := substr lines start (some stop)
          if strncasecmp line (ascii "Require:") 8 then
            match requiredTokens fuel line 8 with
            | none => none
            | some true => some true
            | some false => requestLines fuel lines (stop + 2)
          else requestLines fuel lines (stop + 2)
    else some false

/-- `requiresBackchannel`. -/
def requiresBackchannel (fuel : Nat) (request : Bytes) : Option Bool :=
  match find request crlf 0 with
  | none => requestLines fuel request 1 -- `npos + 2`
  | some stop => requestLines fuel request (stop + 2)

/-- A header line that lists the feature. -/
def Lists (line : Bytes) : Prop :=
  strncasecmp line (ascii "Require:") 8 = true ∧ BACKCHANNEL ∈ wordsBy isSeparator (line.drop 8)

instance (line : Bytes) : Decidable (Lists line) := inferInstanceAs (Decidable (_ ∧ _))

/-- The lines before the first empty one. -/
def headerLines (lines : List Bytes) : List Bytes := lines.takeWhile fun l => !l.isEmpty

/-- Among the header lines behind the first line, some lists the feature. -/
def Requires (request : Bytes) : Prop := ∃ line ∈ headerLines (crlfLines request).tail, Lists line

instance (request : Bytes) : Decidable (Requires request) :=
  inferInstanceAs (Decidable (∃ line ∈ headerLines _, Lists line))

section Request

variable {a t r w s : Bytes} {p : UInt8 → Bool}

theorem findFirstOf_stop (ha : ∀ b ∈ a, p b = false) (hr : ∀ b ∈ r.head?, p b = true) :
    findFirstOf p (s ++ (a ++ r)) s.length =
      if r = [] then none else some (s.length + a.length) := by
  rw [findFirstOf, List.drop_left, findFrom_append]
  · cases r with
    | nil => rfl
    | cons b r =>
      have hb := hr b rfl
      simp [findFrom, hb]
  · intro u v huv hv
    cases v with
    | nil => exact absurd rfl hv
    | cons b v =>
      have hb := ha b (huv ▸ List.mem_append_right u List.mem_cons_self)
      simp [hb]

/-- How a text begins: with separators, and then it is over or there is a token. -/
theorem token_cases (t : Bytes) : ∃ a r, t = a ++ r ∧ (∀ b ∈ a, isSeparator b = true) ∧
    (r = [] ∨ ∃ w q, r = w ++ q ∧ w ≠ [] ∧ (∀ b ∈ w, isSeparator b = false) ∧
      ∀ b ∈ q.head?, isSeparator b = true) := by
  refine ⟨t.takeWhile isSeparator, t.dropWhile isSeparator, List.takeWhile_append_dropWhile.symm,
    fun b hb => List.mem_takeWhile_imp hb, ?_⟩
  cases hr : t.dropWhile isSeparator with
  | nil => exact .inl rfl
  | cons b r =>
    have hb : isSeparator b = false := stops_dropWhile isSeparator t b (by rw [hr]; rfl)
    refine .inr ⟨_, _, (List.takeWhile_append_dropWhile (p := fun b => !isSeparator b)).symm, ?_, ?_,
      ?_⟩
    · rw [List.takeWhile_cons_of_pos (by simp [hb])]
      exact List.cons_ne_nil _ _
    · intro c hc
      simpa using List.mem_takeWhile_imp hc
    · intro c hc
      simpa using stops_dropWhile (fun b => !isSeparator b) (b :: r) c hc

/-- **The tokens of a line**, one search after the other. -/
theorem requiredTokens_eq {fuel : Nat} (hfuel : t.length < fuel) :
    requiredTokens fuel (s ++ t) s.length =
      some (decide (BACKCHANNEL ∈ wordsBy isSeparator t)) := by
  induction fuel generalizing s t with
  | zero => exact absurd hfuel (Nat.not_lt_zero _)
  | succ fuel ih =>
    obtain ⟨a, r, rfl, ha, hr⟩ := token_cases t
    rw [requiredTokens, wordsBy_separators ha]
    have hnot : findFirstNotOf isSeparator (s ++ (a ++ r)) s.length =
        if r = [] then none else some (s.length + a.length) := by
      refine findFirstOf_stop (fun b hb => by simp [ha b hb]) fun b hb => ?_
      rcases hr with rfl | ⟨w, q, rfl, hne, hw, -⟩
      · exact absurd hb nofun
      · cases w with
        | nil => exact absurd rfl hne
        | cons c w =>
          obtain rfl := Option.some.inj hb
          simp [hw c List.mem_cons_self]
    rw [hnot]
    rcases hr with rfl | ⟨w, q, rfl, hne, hw, hq⟩
    · simp
    · have hlength : 0 < w.length := List.length_pos_iff.mpr hne
      have hword : wordsBy isSeparator (w ++ q) = w :: wordsBy isSeparator q :=
        wordsBy_cons hne hw fun b hb => by simp [hq b hb]
      have hlast : findFirstOf isSeparator (s ++ (a ++ (w ++ q))) (s.length + a.length) =
          if q = [] then none else some (s.length + a.length + w.length) := by
        have h := findFirstOf_stop (s := s ++ a) hw hq
        rwa [List.append_assoc, List.length_append] at h
      have htoken : substr (s ++ (a ++ (w ++ q))) (s.length + a.length)
          (if q = [] then none else some (s.length + a.length + w.length)) = w := by
        have hdrop : (s ++ (a ++ (w ++ q))).drop (s.length + a.length) = w ++ q := by
          rw [← List.append_assoc, ← List.length_append, List.drop_left]
        split
        · next hnil => rw [substr, hdrop, hnil, List.append_nil]
        · rw [substr, hdrop, Nat.add_sub_cancel_left, List.take_left]
      have hrest : w ++ q ≠ [] := fun h => hne (List.append_eq_nil_iff.mp h).1
      rw [if_pos (by simp only [List.length_append]; omega), if_neg hrest]
      simp only [hlast, htoken, hword, List.mem_cons]
      by_cases hfound : w = BACKCHANNEL
      · simp [hfound]
      · rw [if_neg hfound]
        by_cases hnil : q = []
        · simp [hnil, Ne.symm hfound]
        · rw [if_neg hnil]
          have hgo := ih (s := s ++ (a ++ w)) (t := q) (by
            simp only [List.length_append] at hfuel
            omega)
          simp only [List.length_append, List.append_assoc, Nat.add_assoc] at hgo ⊢
          rw [hgo]
          simp [Ne.symm hfound]

/-- The tokens behind `Require:`. -/
theorem requiredTokens_line {fuel : Nat} (hfuel : w.length < fuel)
    (h : strncasecmp w (ascii "Require:") 8 = true) :
    requiredTokens fuel w 8 = some (decide (Lists w)) := by
  have hlength : (w.take 8).length = 8 := by
    simp only [strncasecmp, Mqtt.strcasecmp, beq_iff_eq] at h
    simpa [ascii] using congrArg List.length h
  have hrest : (w.drop 8).length < fuel := by
    rw [List.length_drop]
    omega
  have htokens := requiredTokens_eq (s := w.take 8) hrest
  rw [hlength, List.take_append_drop] at htokens
  rw [htokens]
  simp only [Lists, h, true_and]

/-- **The lines of a request**, one search after the other. -/
theorem requestLines_eq {fuel : Nat} (hfuel : t.length < fuel) :
    requestLines fuel (s ++ t) s.length =
      some (decide (∃ line ∈ headerLines (crlfLines t), Lists line)) := by
  induction fuel generalizing s t with
  | zero => exact absurd hfuel (Nat.not_lt_zero _)
  | succ fuel ih =>
    have hfind : find (s ++ t) crlf s.length = findFrom (crlf ++ []).isPrefixOf s.length t :=
      find_append s t crlf
    rcases line_or_rest t with ⟨w, r, rfl, hw⟩ | ht
    · have hcut : findFrom (crlf ++ []).isPrefixOf s.length (w ++ (crlf ++ r)) =
          some (s.length + w.length) := by rw [find_line hw]; rfl
      have hline :
          substr (s ++ (w ++ (crlf ++ r))) s.length (some (s.length + w.length)) = w := by
        rw [substr, List.drop_left, Nat.add_sub_cancel_left, List.take_left]
      rw [requestLines, hfind, hcut, crlfLines_line hw,
        if_pos (by simp only [List.length_append, crlf, List.length_cons]; omega)]
      by_cases hempty : w = []
      · simp [hempty, headerLines]
      · have hlength : 0 < w.length := List.length_pos_iff.mpr hempty
        have hheader : headerLines (w :: crlfLines r) = w :: headerLines (crlfLines r) :=
          List.takeWhile_cons_of_pos (by simp [hempty])
        have hgo : requestLines fuel (s ++ (w ++ (crlf ++ r))) (s.length + w.length + 2) =
            some (decide (∃ line ∈ headerLines (crlfLines r), Lists line)) := by
          have h := ih (s := s ++ (w ++ crlf)) (t := r) (by
            simp only [List.length_append, crlf, List.length_cons] at hfuel
            omega)
          simp only [List.length_append, List.append_assoc, crlf, List.length_cons,
            List.length_nil] at h ⊢
          rw [← h, Nat.add_assoc]
        rw [hheader]
        simp only [hline, show ¬ s.length + w.length = s.length by omega, if_false,
          List.exists_mem_cons_iff]
        by_cases hname : strncasecmp w (ascii "Require:") 8 = true
        · rw [if_pos hname, requiredTokens_line (by
            simp only [List.length_append, crlf, List.length_cons] at hfuel
            omega) hname]
          by_cases hlists : Lists w
          · simp [hlists]
          · simp only [hlists, decide_false, hgo, false_or]
        · have hlists : ¬ Lists w := fun h => hname h.1
          rw [if_neg hname, hgo]
          simp only [hlists, false_or]
    · have hnone : findFrom (crlf ++ []).isPrefixOf s.length t = none := find_rest ht s.length
      rw [requestLines, hfind, hnone, crlfLines_rest ht]
      split
      · rfl
      · rfl

/-- **The request is read right**: the scan ends, and says whether the feature is required. -/
theorem requiresBackchannel_right {fuel : Nat} {request : Bytes} (hfuel : request.length < fuel) :
    requiresBackchannel fuel request = some (decide (Requires request)) := by
  have hfind : find request crlf 0 = findFrom (crlf ++ []).isPrefixOf 0 request := rfl
  rw [requiresBackchannel, hfind]
  rcases line_or_rest request with ⟨w, r, rfl, hw⟩ | hrest
  · have hr : r.length < fuel := by
      simp only [List.length_append] at hfuel
      omega
    have hgo := requestLines_eq (s := w ++ crlf) hr
    have hcut : findFrom (crlf ++ []).isPrefixOf 0 (w ++ (crlf ++ r)) = some (0 + w.length) := by
      rw [find_line hw]
      rfl
    rw [hcut]
    simp only [Requires, crlfLines_line hw, List.tail_cons, Nat.zero_add]
    rw [List.append_assoc, List.length_append] at hgo
    exact hgo
  · rw [find_rest hrest]
    simp only [Requires, crlfLines_rest hrest]
    -- a text of one byte or none is over at `npos + 2`
    cases request with
    | nil =>
      cases fuel with
      | zero => exact absurd hfuel (Nat.not_lt_zero _)
      | succ fuel => rfl
    | cons b r =>
      have hr : Line r := Line.of_suffix (u := [b]) hrest
      have hlength : r.length < fuel := Nat.lt_of_succ_lt hfuel
      have hgo := requestLines_eq (s := [b]) hlength
      rw [crlfLines_rest hr] at hgo
      exact hgo

end Request

/-! ## 2. The response -/

def CONTENT_LENGTH : Bytes := ascii "Content-Length: "

def SENDONLY : Bytes := ascii "a=sendonly"

def MEDIA : Bytes := ascii "m="

/-- `erase(start, stop - start)`. -/
def erase (s : Bytes) (start : Nat) (stop : Option Nat) : Bytes :=
  match stop with
  | none => s.take start
  | some stop => s.take start ++ s.drop stop

/-- The tracks from `start` on; nothing without fuel. -/
def filterTracks : Nat → Bytes → Nat → Option Bytes
  | 0, _, _ => none
  | fuel + 1, sdp, start =>
    let stop := (find sdp (crlf ++ MEDIA) start).map (· + 2)
    let track := substr sdp start stop
    if (find track (crlf ++ (SENDONLY ++ crlf)) 0).isSome then
      -- behind an erased track the next one begins where it began
      if (erase sdp start stop).length ≤ start then some (erase sdp start stop)
      else filterTracks fuel (erase sdp start stop) start
    else
      match stop with
      | none => some sdp
      | some stop => if sdp.length ≤ stop then some sdp else filterTracks fuel sdp stop

/-- What is left in the buffer; `thrown` is the exception of `substr` for `npos`. -/
inductive Answer
  | left (response : Bytes)
  | thrown
  deriving DecidableEq

/-- The tracks of a session description. -/
def filterSdp (fuel : Nat) (sdp : Bytes) : Option Bytes :=
  match find sdp MEDIA 0 with
  | none => some sdp
  | some start => filterTracks fuel sdp start

/-- `handleCmd_DESCRIBE_afterLookup`, with the response in a buffer of `size` bytes. -/
def handleCmd_DESCRIBE_afterLookup (fuel size : Nat) (fWantBackchannel : Bool) (response : Bytes) :
    Option Answer :=
  if fWantBackchannel then some (.left response)
  else
    match find response (crlf ++ crlf) 0 with
    | none => some (.left response)
    | some body =>
      match filterSdp fuel (response.drop (body + 4)) with
      | none => none
      | some sdp =>
        match find response CONTENT_LENGTH 0 with
        | none => some (.left response)
        | some length =>
          match find response crlf length with
          | none => some .thrown
          | some stop =>
            let header := response.take length ++ (CONTENT_LENGTH ++ ascii (toString sdp.length) ++
              substr response stop (if stop ≤ body + 4 then some (body + 4) else none))
            some (.left ((header ++ sdp).take (size - 1)))

/-! ## 3. What the rewriting is for -/

/-- A line that begins a media section. -/
def media (l : Bytes) : Bool := MEDIA.isPrefixOf l

/-- The session part of a description, and its media sections. -/
def sections : List Bytes → List Bytes × List (List Bytes)
  | [] => ([], [])
  | l :: ls =>
    if media l then ([], (l :: (sections ls).1) :: (sections ls).2)
    else (l :: (sections ls).1, (sections ls).2)

/-- The description without the sections that have a line `a=sendonly`. -/
def wanted (body : List Bytes) : List Bytes :=
  (sections body).1 ++ ((sections body).2.filter fun s => !s.contains SENDONLY).flatten

/-- The length of a body, in its header line. -/
def lengthLine (n : Nat) : Bytes := CONTENT_LENGTH ++ ascii (toString n)

/-- A header line, for a body of `n` bytes. -/
def relength (n : Nat) (l : Bytes) : Bytes :=
  if CONTENT_LENGTH.isPrefixOf l then lengthLine n else l

/-- Header lines and a body. -/
def message (header body : List Bytes) : Bytes := crlfText header ++ (crlf ++ crlfText body)

/-- A response in a buffer of `size` bytes. A body comes with its length. -/
structure Response (size : Nat) where
  header : List Bytes
  body : List Bytes
  headerLines : ∀ l ∈ header, Line l ∧ l ≠ []
  bodyLines : ∀ l ∈ body, Line l
  told : body = [] ∨ ∃ l ∈ header, CONTENT_LENGTH <+: l
  fits : (message header body).length < size

variable {size : Nat}

def Response.text (r : Response size) : Bytes := message r.header r.body

/-- How many bytes of the body are wanted. -/
def Response.count (r : Response size) : Nat := (crlfText (wanted r.body)).length

/-- **The response without its reverse tracks**: the session part, the other media sections, and
    their length in the header. -/
def Response.sent (r : Response size) : Bytes :=
  message (r.header.map (relength r.count)) (wanted r.body)

/-- A line with its number behind the first `Content-Length: ` set. -/
def recount (n : Nat) (l : Bytes) : Bytes :=
  match find l CONTENT_LENGTH 0 with
  | none => l
  | some i => l.take i ++ lengthLine n

/-- No line `a=sendonly` stands behind a session line that has `m=` in it. -/
def SessionClean (session : List Bytes) : Prop :=
  ∀ a l b, session = a ++ l :: b → MEDIA <:+: l → SENDONLY ∉ b

/-- **A response that is rewritten right.** -/
structure Clean (r : Response size) : Prop where
  session : SessionClean (sections r.body).1
  /-- The first `Content-Length: ` of the header begins a line, or has the right number already, and
      so has every later line that begins with it. -/
  header : ∀ a l b, r.header = a ++ l :: b → (∀ x ∈ a, ¬ CONTENT_LENGTH <:+: x) →
    CONTENT_LENGTH <:+: l → (CONTENT_LENGTH <+: l ∨ recount r.count l = l) ∧
      ∀ x ∈ b, relength r.count x = x
  /-- What is sent fits the buffer. -/
  fits : r.sent.length < size

/-! ## 4. The tracks -/

section Tracks

variable {h l : Bytes} {s body : List Bytes} {m : List (List Bytes)}

/-- A line that begins a section, and lines that do not. -/
def Track (s : List Bytes) : Prop :=
  ∃ l t, s = l :: t ∧ media l = true ∧ ∀ x ∈ t, media x = false

theorem sections_flatten (ls : List Bytes) : (sections ls).1 ++ (sections ls).2.flatten = ls := by
  induction ls with
  | nil => rfl
  | cons l ls ih =>
    rw [sections]
    split
    · rw [List.nil_append, List.flatten_cons, List.cons_append, ih]
    · rw [List.cons_append, ih]

theorem session_lines (ls : List Bytes) : ∀ l ∈ (sections ls).1, media l = false := by
  induction ls with
  | nil => exact nofun
  | cons l ls ih =>
    rw [sections]
    split
    · exact nofun
    · next hl => exact List.forall_mem_cons.mpr ⟨Bool.not_eq_true _ ▸ hl, ih⟩

theorem section_track (ls : List Bytes) : ∀ s ∈ (sections ls).2, Track s := by
  induction ls with
  | nil => exact nofun
  | cons l ls ih =>
    rw [sections]
    split
    · next hl => exact List.forall_mem_cons.mpr ⟨⟨l, _, rfl, hl, session_lines ls⟩, ih⟩
    · exact ih

theorem media_crlf (l : Bytes) (t : Bytes) : MEDIA.isPrefixOf (l ++ (crlf ++ t)) = media l := by
  rw [media, Bool.eq_iff_iff, List.isPrefixOf_iff_prefix, List.isPrefixOf_iff_prefix]
  exact prefix_append_cons (by decide)

/-- **The next section begins at the next media line.** -/
theorem find_media (hh : Line h) (hs : ∀ x ∈ s, Line x ∧ media x = false) (i : Nat) (t : Bytes) :
    findFrom (crlf ++ MEDIA).isPrefixOf i (crlfText (h :: s) ++ t) =
      if MEDIA.isPrefixOf t then some (i + (crlfText (h :: s)).length - 2)
      else findFrom (crlf ++ MEDIA).isPrefixOf (i + (crlfText (h :: s)).length) t := by
  induction s generalizing h i with
  | nil =>
    have hlength : (crlfText [h]).length = h.length + 2 := by simp [crlfText, crlf]
    rw [hlength, crlfText_cons, List.append_assoc, List.append_assoc, find_line hh, ← Nat.add_assoc,
      Nat.add_sub_cancel]
    rfl
  | cons x s ih =>
    obtain ⟨hx, hs⟩ := List.forall_mem_cons.mp hs
    have hno : MEDIA.isPrefixOf (crlfText (x :: s) ++ t) = false := by
      rw [crlfText_cons, List.append_assoc, List.append_assoc, media_crlf, hx.2]
    rw [crlfText_cons h, List.append_assoc, List.append_assoc, find_line hh, hno,
      if_neg Bool.false_ne_true, ih hx.1 hs]
    have hlength : i + h.length + 2 + (crlfText (x :: s)).length =
        i + (h ++ (crlf ++ crlfText (x :: s))).length := by
      simp only [List.length_append, crlf, List.length_cons, List.length_nil]
      omega
    rw [hlength]

theorem line_sendonly : Line SENDONLY := by
  rw [Line, ← findFrom_eq_none (i := 0) (by decide)]
  decide

/-- A track is erased for its line `a=sendonly`. -/
theorem find_sendonly (hh : Line h) (hs : ∀ x ∈ s, Line x) (i : Nat) :
    (findFrom (crlf ++ (SENDONLY ++ crlf)).isPrefixOf i (crlfText (h :: s))).isSome =
      s.contains SENDONLY := by
  induction s generalizing h i with
  | nil =>
    rw [crlfText_cons, find_line hh]
    simp [crlfText, findFrom, SENDONLY, ascii]
  | cons x s ih =>
    obtain ⟨hx, hs⟩ := List.forall_mem_cons.mp hs
    have hfirst : (SENDONLY ++ crlf).isPrefixOf (crlfText (x :: s)) = (SENDONLY == x) := by
      rw [Bool.eq_iff_iff, List.isPrefixOf_iff_prefix, beq_iff_eq, crlfText_cons]
      constructor
      · rintro ⟨r, hr⟩
        rw [List.append_assoc] at hr
        exact (line_inj line_sendonly hx hr).1
      · rintro rfl
        rw [← List.append_assoc]
        exact List.prefix_append _ _
    rw [crlfText_cons h, find_line hh, hfirst, List.contains_cons]
    cases SENDONLY == x with
    | true => rfl
    | false => exact ih hx hs _

/-- The sections that are kept. -/
def kept (m : List (List Bytes)) : List (List Bytes) := m.filter fun s => !s.contains SENDONLY

theorem kept_flatten (hl : media l = true) : (kept ((l :: s) :: m)).flatten =
    (if s.contains SENDONLY then [] else l :: s) ++ (kept m).flatten := by
  have hne : (SENDONLY == l) = false := by
    rw [beq_eq_false_iff_ne]
    rintro rfl
    exact absurd hl (by decide)
  rw [kept, List.filter_cons, List.contains_cons, hne, Bool.false_or]
  cases s.contains SENDONLY <;> rfl

/-- **The loop over the tracks**, from the line it begins in; the induction is on the sections that
    are left. -/
theorem filterTracks_eq {fuel : Nat} {pre : Bytes} (hfuel : m.length < fuel) (hh : Line h)
    (hs : ∀ x ∈ s, Line x ∧ media x = false) (hm : ∀ s ∈ m, Track s ∧ ∀ x ∈ s, Line x) :
    filterTracks fuel (pre ++ crlfText (h :: s ++ m.flatten)) pre.length =
      some (pre ++
        crlfText ((if s.contains SENDONLY then [] else h :: s) ++ (kept m).flatten)) := by
  induction m generalizing fuel pre h s with
  | nil =>
    obtain ⟨fuel, rfl⟩ : ∃ n, fuel = n + 1 :=
      Nat.exists_eq_succ_of_ne_zero (Nat.ne_of_gt (Nat.zero_lt_of_lt hfuel))
    have hstop : find (pre ++ crlfText (h :: s)) (crlf ++ MEDIA) pre.length = none := by
      rw [find_append]
      have h := find_media hh hs pre.length []
      rw [List.append_nil] at h
      exact h
    have hsendonly : find (crlfText (h :: s)) (crlf ++ (SENDONLY ++ crlf)) 0 =
        findFrom (crlf ++ (SENDONLY ++ crlf)).isPrefixOf 0 (crlfText (h :: s)) := by
      rw [find, List.drop_zero]
    rw [List.flatten_nil, List.append_nil, filterTracks]
    simp only [hstop, Option.map_none, substr, List.drop_left, erase, List.take_left, hsendonly,
      find_sendonly hh fun x hx => (hs x hx).1]
    cases s.contains SENDONLY with
    | true => simp [kept, crlfText]
    | false => simp [kept]
  | cons s' m ih =>
    obtain ⟨fuel, rfl⟩ : ∃ n, fuel = n + 1 :=
      Nat.exists_eq_succ_of_ne_zero (Nat.ne_of_gt (Nat.zero_lt_of_lt hfuel))
    obtain ⟨⟨⟨l, t, rfl, hl, ht⟩, hlines⟩, hm'⟩ := List.forall_mem_cons.mp hm
    obtain ⟨hline, hlines⟩ := List.forall_mem_cons.mp hlines
    have ht : ∀ x ∈ t, Line x ∧ media x = false := fun x hx => ⟨hlines x hx, ht x hx⟩
    have hcut : crlfText (h :: s ++ ((l :: t) :: m).flatten) =
        crlfText (h :: s) ++ crlfText (l :: t ++ m.flatten) := by
      rw [List.flatten_cons, crlfText_append]
    have hnext : MEDIA.isPrefixOf (crlfText (l :: t ++ m.flatten)) = true := by
      rw [List.cons_append, crlfText_cons, media_crlf, hl]
    have hlength : 2 ≤ (crlfText (h :: s)).length := by
      rw [crlfText_cons, List.length_append, List.length_append]
      simp only [crlf, List.length_cons]
      omega
    have hrest : 0 < (crlfText (l :: t ++ m.flatten)).length := by
      rw [List.cons_append, crlfText_cons, List.length_append, List.length_append]
      simp only [crlf, List.length_cons]
      omega
    have hstop : (find (pre ++ (crlfText (h :: s) ++ crlfText (l :: t ++ m.flatten)))
        (crlf ++ MEDIA) pre.length).map (· + 2) =
          some (pre.length + (crlfText (h :: s)).length) := by
      rw [find_append, find_media hh hs, if_pos hnext, Option.map_some,
        Nat.sub_add_cancel (by omega)]
    have hsendonly : find (crlfText (h :: s)) (crlf ++ (SENDONLY ++ crlf)) 0 =
        findFrom (crlf ++ (SENDONLY ++ crlf)).isPrefixOf 0 (crlfText (h :: s)) := by
      rw [find, List.drop_zero]
    have hdrop : (pre ++ (crlfText (h :: s) ++ crlfText (l :: t ++ m.flatten))).drop
        (pre.length + (crlfText (h :: s)).length) = crlfText (l :: t ++ m.flatten) := by
      rw [← List.append_assoc, ← List.length_append, List.drop_left]
    have hgo : ∀ front, filterTracks fuel (front ++ crlfText (l :: t ++ m.flatten)) front.length =
        some (front ++ crlfText (kept ((l :: t) :: m)).flatten) := by
      intro front
      rw [ih (Nat.succ_lt_succ_iff.mp hfuel) hline ht hm', kept_flatten hl]
    rw [hcut, filterTracks]
    simp only [hstop, substr, List.drop_left, Nat.add_sub_cancel_left, List.take_left, hsendonly,
      find_sendonly hh fun x hx => (hs x hx).1, erase, hdrop]
    cases s.contains SENDONLY with
    | true =>
      rw [if_pos rfl, if_neg (by rw [List.length_append]; omega), hgo]
      rfl
    | false =>
      have hfront := hgo (pre ++ crlfText (h :: s))
      rw [List.append_assoc, List.append_assoc, List.length_append] at hfront
      rw [if_neg Bool.false_ne_true, if_neg (by simp only [List.length_append]; omega), hfront,
        if_neg Bool.false_ne_true, crlfText_append]

theorem sections_length (ls : List Bytes) : (sections ls).2.length ≤ ls.length := by
  induction ls with
  | nil => exact Nat.le_refl 0
  | cons l ls ih =>
    rw [sections]
    split
    · exact Nat.succ_le_succ ih
    · exact ih.trans (Nat.le_succ _)

/-- What comes behind a later element comes behind the first one. -/
theorem subset_of_first {α : Type} {P : α → Prop} {a b a' b' : List α} {x x' : α}
    (h : a ++ x :: b = a' ++ x' :: b') (ha : ∀ y ∈ a, ¬ P y) (hx : P x') :
    ∀ y ∈ b', y ∈ b := by
  rcases List.append_eq_append_iff.mp h with ⟨c, rfl, hc⟩ | ⟨c, rfl, hc⟩
  · cases c with
    | nil =>
      obtain ⟨rfl, rfl⟩ := List.cons.inj hc
      exact fun _ hy => hy
    | cons z c =>
      obtain ⟨-, rfl⟩ := List.cons.inj hc
      exact fun _ hy => List.mem_append_right c (List.mem_cons_of_mem _ hy)
  · cases c with
    | nil =>
      obtain ⟨rfl, rfl⟩ := List.cons.inj hc
      exact fun _ hy => hy
    | cons z c =>
      obtain ⟨rfl, -⟩ := List.cons.inj hc
      exact absurd hx (ha _ (List.mem_append_right a' List.mem_cons_self))

/-- **What the loop leaves of a description**: no more than is wanted, and exactly that unless it
    began in the session part and erased some of it. -/
theorem filterSdp_spec (hbody : ∀ l ∈ body, Line l) : ∃ g,
    (∀ fuel, body.length < fuel → filterSdp fuel (crlfText body) = some g) ∧
      g.length ≤ (crlfText (wanted body)).length ∧
      (g = crlfText (wanted body) ↔ SessionClean (sections body).1) := by
  have hflat := sections_flatten body
  have hcount := sections_length body
  have hsession : ∀ x ∈ (sections body).1, Line x ∧ media x = false := fun x hx =>
    ⟨hbody x (hflat ▸ List.mem_append_left _ hx), session_lines body x hx⟩
  have hsections : ∀ s ∈ (sections body).2, Track s ∧ ∀ x ∈ s, Line x := fun s hs =>
    ⟨section_track body s hs, fun x hx =>
      hbody x (hflat ▸ List.mem_append_right _ (List.mem_flatten.mpr ⟨s, hs, hx⟩))⟩
  have htext :
      crlfText body = crlfText (sections body).1 ++ crlfText (sections body).2.flatten := by
    rw [← crlfText_append, hflat]
  have hwanted : wanted body = (sections body).1 ++ (kept (sections body).2).flatten := rfl
  rw [hwanted]
  generalize (sections body).1 = session, (sections body).2 = m at *
  have hfind : find (crlfText body) MEDIA 0 =
      findFrom MEDIA.isPrefixOf 0 (crlfText session ++ crlfText m.flatten) := by
    rw [find, List.drop_zero, htext]
  by_cases hhit : ∃ l ∈ session, MEDIA <:+: l
  · obtain ⟨a, u, v, b, rfl, ha, hu⟩ := first_line (by decide) hhit
    have hstart := find_first (c := b) (by decide) (by decide) (by decide) ha hu
      (crlfText m.flatten)
    have hlines := fun x hx => hsession x (List.mem_append_right a hx)
    obtain ⟨hl, hb⟩ := List.forall_mem_cons.mp hlines
    have hfront : ∀ ls, crlfText (a ++ (u ++ (MEDIA ++ v)) :: b ++ ls) =
        crlfText a ++ u ++ crlfText ((MEDIA ++ v) :: b ++ ls) := by
      intro ls
      simp only [crlfText_append, crlfText_cons, List.append_assoc, List.cons_append]
    have hloop : ∀ fuel, body.length < fuel → filterSdp fuel (crlfText body) =
        some (crlfText a ++ u ++ crlfText
          ((if b.contains SENDONLY then [] else (MEDIA ++ v) :: b) ++ (kept m).flatten)) := by
      intro fuel hfuel
      rw [filterSdp, hfind, hstart]
      simp only
      rw [htext, ← crlfText_append, hfront, ← List.length_append]
      exact filterTracks_eq (hcount.trans_lt hfuel) hl.1.of_suffix hb hsections
    refine ⟨_, hloop, ?_⟩
    rw [hfront]
    by_cases hsendonly : SENDONLY ∈ b
    · rw [if_pos (List.contains_iff_mem.mpr hsendonly), List.nil_append, crlfText_append (_ :: b)]
      have hlonger : 0 < (crlfText ((MEDIA ++ v) :: b)).length := by
        rw [crlfText_cons]
        simp only [List.length_append, crlf, List.length_cons]
        omega
      refine ⟨by simp only [List.length_append]; omega, fun heq => ?_, fun hclean => ?_⟩
      · have hlength := congrArg List.length heq
        simp only [List.length_append] at hlength
        omega
      · exact absurd hsendonly (hclean a _ b rfl ⟨u, v, List.append_assoc _ _ _⟩)
    · rw [if_neg (mt List.contains_iff_mem.mp hsendonly)]
      refine ⟨Nat.le_refl _, fun _ => ?_, fun _ => rfl⟩
      intro a' l' b' heq hl' hmem
      exact hsendonly (subset_of_first heq ha hl' _ hmem)
  · have hclean : SessionClean session := by
      rintro a l b rfl hl
      exact absurd ⟨l, List.mem_append_right a List.mem_cons_self, hl⟩ hhit
    have hpass := find_lines (by decide) (by decide) (by decide)
      (fun l hl hmedia => hhit ⟨l, hl, hmedia⟩) 0 (crlfText m.flatten)
    refine ⟨crlfText (session ++ (kept m).flatten), fun fuel hfuel => ?_, Nat.le_refl _,
      fun _ => hclean, fun _ => rfl⟩
    rw [filterSdp, hfind, hpass]
    cases m with
    | nil =>
      rw [htext, ← crlfText_append]
      rfl
    | cons s m =>
      obtain ⟨⟨⟨l, t, rfl, hl, ht⟩, hlines⟩, hm⟩ := List.forall_mem_cons.mp hsections
      obtain ⟨hline, hlines⟩ := List.forall_mem_cons.mp hlines
      have hnext : MEDIA.isPrefixOf (crlfText (l :: t ++ m.flatten)) = true := by
        rw [List.cons_append, crlfText_cons, media_crlf, hl]
      have hne : crlfText (l :: t ++ m.flatten) ≠ [] := by
        rw [List.cons_append, crlfText_cons]
        simp [crlf]
      rw [List.flatten_cons, findFrom_here hnext hne, htext, List.flatten_cons, Nat.zero_add]
      simp only
      rw [filterTracks_eq ((Nat.lt_of_succ_le hcount).trans hfuel) hline
        (fun x hx => ⟨hlines x hx, ht x hx⟩) hm, kept_flatten hl, crlfText_append session]

end Tracks

/-! ## 5. The header -/

section Header

variable {L L' a c : List Bytes} {F G u v : Bytes} {n : Nat}

/-- The header ends at the first empty line. -/
theorem find_end (hL : ∀ l ∈ L, Line l ∧ l ≠ []) {h : Bytes} (hh : Line h) (i : Nat) :
    findFrom (crlf ++ crlf).isPrefixOf i (crlfText (h :: L) ++ (crlf ++ F)) =
      some (i + (crlfText (h :: L)).length - 2) := by
  induction L generalizing h i with
  | nil =>
    have hlength : (crlfText [h]).length = h.length + 2 := by simp [crlfText, crlf]
    rw [hlength, crlfText_cons, List.append_assoc, List.append_assoc, find_line hh, ← Nat.add_assoc,
      Nat.add_sub_cancel]
    rfl
  | cons l L ih =>
    obtain ⟨hl, hL⟩ := List.forall_mem_cons.mp hL
    have hno : crlf.isPrefixOf (crlfText (l :: L) ++ (crlf ++ F)) = false := by
      rw [← Bool.not_eq_true, List.isPrefixOf_iff_prefix, crlfText_cons, List.append_assoc]
      exact hl.1.no_end hl.2 (by simp [crlf])
    rw [crlfText_cons h, List.append_assoc, List.append_assoc, find_line hh, hno,
      if_neg Bool.false_ne_true, ih hL hl.1]
    simp only [List.length_append, crlf, List.length_cons, List.length_nil]
    congr 2
    omega

/-- Header lines and body are told apart in one way only. -/
theorem message_inj (hL : ∀ l ∈ L, Line l ∧ l ≠ []) (hL' : ∀ l ∈ L', Line l ∧ l ≠ [])
    (h : crlfText L ++ (crlf ++ F) = crlfText L' ++ (crlf ++ G)) : L = L' ∧ F = G := by
  have hnil : ∀ l (M : List Bytes) (K J : Bytes), Line l → l ≠ [] →
      [] ++ (crlf ++ J) ≠ crlfText (l :: M) ++ (crlf ++ K) := by
    intro l M K J hl hne heq
    rw [crlfText_cons, List.append_assoc, List.append_assoc] at heq
    exact hne (line_inj (w := []) (by rw [Line]; decide) hl heq).1.symm
  induction L generalizing L' with
  | nil =>
    cases L' with
    | nil => exact ⟨rfl, List.append_cancel_left h⟩
    | cons l' L' =>
      obtain ⟨hline, hne⟩ := hL' l' List.mem_cons_self
      exact absurd h (hnil l' L' G F hline hne)
  | cons l L ih =>
    obtain ⟨hl, hL⟩ := List.forall_mem_cons.mp hL
    cases L' with
    | nil => exact absurd h.symm (hnil l L F G hl.1 hl.2)
    | cons l' L' =>
      obtain ⟨hl', hM⟩ := List.forall_mem_cons.mp hL'
      rw [crlfText_cons, crlfText_cons, List.append_assoc, List.append_assoc, List.append_assoc,
        List.append_assoc] at h
      obtain ⟨rfl, hrest⟩ := line_inj hl.1 hl'.1 h
      obtain ⟨rfl, hbody⟩ := ih hL hM hrest
      exact ⟨rfl, hbody⟩

/-- What has no line feed makes no line end. -/
theorem Line.append (hu : Line u) (hv : 10 ∉ v) : Line (u ++ v) := by
  rintro ⟨s, t, h⟩
  rcases List.append_eq_append_iff.mp h with ⟨x, rfl, -⟩ | ⟨x, hx, rfl⟩
  · exact hu ⟨s, x, rfl⟩
  · by_cases hx0 : x = []
    · rw [hx0, List.append_nil] at hx
      exact hu ⟨s, [], by rw [List.append_nil, hx]⟩
    · have hlast : (u ++ x).getLast? = some 10 := by rw [← hx]; simp [crlf]
      rw [List.getLast?_append_of_ne_nil u hx0] at hlast
      exact hv (List.mem_append_left t (List.mem_of_getLast? hlast))

theorem toString_lf (n : Nat) : 10 ∉ ascii (toString n) := by
  rw [ascii, List.mem_map]
  rintro ⟨c, hc, h⟩
  have hdigit : c.isDigit = true :=
    Nat.isDigit_of_mem_toDigits (by decide) (Nat.le_refl 10) (by simpa using hc)
  simp only [Char.isDigit, Bool.and_eq_true, decide_eq_true_eq] at hdigit
  have hmod : c.toNat % 256 = 10 := by simpa using congrArg UInt8.toNat h
  have h48 : 48 ≤ c.toNat := hdigit.1
  have h57 : c.toNat ≤ 57 := hdigit.2
  omega

theorem lengthLine_lf (n : Nat) : 10 ∉ lengthLine n := by
  rw [lengthLine, List.mem_append]
  exact not_or.mpr ⟨by decide, toString_lf n⟩

/-- The first element with a property is one element. -/
theorem first_unique {α : Type} {P : α → Prop} {a b a' b' : List α} {x x' : α}
    (h : a ++ x :: b = a' ++ x' :: b') (ha : ∀ y ∈ a, ¬ P y) (ha' : ∀ y ∈ a', ¬ P y) (hx : P x)
    (hx' : P x') : a = a' ∧ x = x' ∧ b = b' := by
  rcases List.append_eq_append_iff.mp h with ⟨c, rfl, hc⟩ | ⟨c, rfl, hc⟩
  · cases c with
    | nil =>
      obtain ⟨rfl, rfl⟩ := List.cons.inj hc
      exact ⟨(List.append_nil a).symm, rfl, rfl⟩
    | cons z c =>
      obtain ⟨rfl, -⟩ := List.cons.inj hc
      exact absurd hx (ha' x (List.mem_append_right a List.mem_cons_self))
  · cases c with
    | nil =>
      obtain ⟨rfl, rfl⟩ := List.cons.inj hc
      exact ⟨List.append_nil a', rfl, rfl⟩
    | cons z c =>
      obtain ⟨rfl, -⟩ := List.cons.inj hc
      exact absurd hx' (ha _ (List.mem_append_right a' List.mem_cons_self))

theorem find_eq_findFrom (s pattern : Bytes) :
    find s pattern 0 = findFrom pattern.isPrefixOf 0 s := by
  rw [find, List.drop_zero]

theorem drop_parts (x y z t : Bytes) :
    (x ++ (y ++ (z ++ t))).drop (x.length + (y.length + z.length)) = t := by
  rw [← List.drop_drop, List.drop_left, ← List.drop_drop, List.drop_left, List.drop_left]

theorem substr_parts (x y z t : Bytes) : substr (x ++ (y ++ (z ++ t))) (x.length + y.length)
    (some (x.length + (y.length + z.length))) = z := by
  rw [substr, ← Nat.add_assoc, Nat.add_sub_cancel_left, ← List.drop_drop, List.drop_left,
    List.drop_left, List.take_left]

/-- **The length of a header is set behind its first `Content-Length: `.** -/
theorem rewrite_eq {fuel : Nat} {g : Bytes} {body : List Bytes}
    (hfirst : findFrom CONTENT_LENGTH.isPrefixOf 0 (u ++ (CONTENT_LENGTH ++ v)) = some u.length)
    (ha : ∀ l ∈ a, ¬ CONTENT_LENGTH <:+: l)
    (hL : ∀ l ∈ a ++ (u ++ (CONTENT_LENGTH ++ v)) :: c, Line l ∧ l ≠ [])
    (hg : filterSdp fuel (crlfText body) = some g) :
    handleCmd_DESCRIBE_afterLookup fuel size false
        (message (a ++ (u ++ (CONTENT_LENGTH ++ v)) :: c) body) =
      some (.left
        ((crlfText (a ++ (u ++ lengthLine g.length) :: c) ++ (crlf ++ g)).take (size - 1))) := by
  obtain ⟨h, T, hcons⟩ : ∃ h T, a ++ (u ++ (CONTENT_LENGTH ++ v)) :: c = h :: T := by
    cases a with
    | nil => exact ⟨_, _, rfl⟩
    | cons x a => exact ⟨_, _, rfl⟩
  have hline := (hL _ (List.mem_append_right a List.mem_cons_self)).1.of_suffix
  have hend : find (message (a ++ (u ++ (CONTENT_LENGTH ++ v)) :: c) body) (crlf ++ crlf) 0 =
      some ((crlfText (a ++ (u ++ (CONTENT_LENGTH ++ v)) :: c)).length - 2) := by
    rw [hcons] at hL ⊢
    obtain ⟨hh, hT⟩ := List.forall_mem_cons.mp hL
    rw [find_eq_findFrom, message, find_end hT hh.1, Nat.zero_add]
  have hlength : (crlfText (a ++ (u ++ (CONTENT_LENGTH ++ v)) :: c)).length - 2 + 4 =
      (crlfText a ++ u).length +
        ((CONTENT_LENGTH ++ v).length + (crlf ++ (crlfText c ++ crlf)).length) := by
    simp only [crlfText_append, crlfText_cons, List.length_append, crlf, List.length_cons,
      List.length_nil]
    omega
  have hwhole : message (a ++ (u ++ (CONTENT_LENGTH ++ v)) :: c) body =
      crlfText a ++ u ++
        (CONTENT_LENGTH ++ v ++ (crlf ++ (crlfText c ++ crlf) ++ crlfText body)) := by
    simp only [message, crlfText_append, crlfText_cons, List.append_assoc]
  have hlen : find (message (a ++ (u ++ (CONTENT_LENGTH ++ v)) :: c) body) CONTENT_LENGTH 0 =
      some (crlfText a ++ u).length := by
    rw [find_eq_findFrom, message, List.length_append,
      find_first (by decide) (by decide) (by decide) ha hfirst (crlf ++ crlfText body)]
  have hstop : find (message (a ++ (u ++ (CONTENT_LENGTH ++ v)) :: c) body) crlf
      (crlfText a ++ u).length =
        some ((crlfText a ++ u).length + (CONTENT_LENGTH ++ v).length) := by
    rw [hwhole, find_append, List.append_assoc crlf]
    exact find_line (q := []) hline _
  have hbody : (message (a ++ (u ++ (CONTENT_LENGTH ++ v)) :: c) body).drop
      ((crlfText (a ++ (u ++ (CONTENT_LENGTH ++ v)) :: c)).length - 2 + 4) = crlfText body := by
    rw [hlength, hwhole, drop_parts]
  have htake : (message (a ++ (u ++ (CONTENT_LENGTH ++ v)) :: c) body).take
      (crlfText a ++ u).length = crlfText a ++ u := by
    rw [hwhole, List.take_left]
  have hmiddle : substr (message (a ++ (u ++ (CONTENT_LENGTH ++ v)) :: c) body)
      ((crlfText a ++ u).length + (CONTENT_LENGTH ++ v).length)
      (some ((crlfText (a ++ (u ++ (CONTENT_LENGTH ++ v)) :: c)).length - 2 + 4)) =
        crlf ++ (crlfText c ++ crlf) := by
    rw [hlength, hwhole, substr_parts]
  rw [handleCmd_DESCRIBE_afterLookup, if_neg Bool.false_ne_true, hend]
  simp only [hbody, hg, hlen, hstop]
  rw [if_pos (by rw [hlength]; omega), hmiddle, htake]
  simp only [lengthLine, crlfText_append, crlfText_cons, List.append_assoc]

/-- A header line that has no length stays. -/
theorem relength_of_notInfix {l : Bytes} (h : ¬ CONTENT_LENGTH <:+: l) (n : Nat) :
    relength n l = l :=
  if_neg fun hp => h (List.isPrefixOf_iff_prefix.mp hp).isInfix

/-- **The header is right** exactly where the first `Content-Length: ` begins a line or has the
    right number, and the lines behind it have. -/
theorem header_eq_iff (ha : ∀ l ∈ a, ¬ CONTENT_LENGTH <:+: l)
    (hfirst : findFrom CONTENT_LENGTH.isPrefixOf 0 (u ++ (CONTENT_LENGTH ++ v)) = some u.length) :
    a ++ (u ++ lengthLine n) :: c = (a ++ (u ++ (CONTENT_LENGTH ++ v)) :: c).map (relength n) ↔
      (CONTENT_LENGTH <+: u ++ (CONTENT_LENGTH ++ v) ∨
        recount n (u ++ (CONTENT_LENGTH ++ v)) = u ++ (CONTENT_LENGTH ++ v)) ∧
          ∀ x ∈ c, relength n x = x := by
  have hkept : a.map (relength n) = a := by
    rw [List.map_congr_left fun l hl => relength_of_notInfix (ha l hl) n, List.map_id']
  have hrecount : recount n (u ++ (CONTENT_LENGTH ++ v)) = u ++ lengthLine n := by
    rw [recount, find_eq_findFrom, hfirst]
    simp only [List.take_left]
  have htail : c = c.map (relength n) ↔ ∀ x ∈ c, relength n x = x := by
    constructor
    · intro h x hx
      have hmap : c.map id = c.map (relength n) := by rw [List.map_id]; exact h
      exact (List.map_inj_left.mp hmap x hx).symm
    · intro h
      rw [List.map_congr_left h, List.map_id']
  rw [List.map_append, List.map_cons, hkept, List.append_cancel_left_eq, List.cons.injEq, htail,
    hrecount, relength]
  refine and_congr_left fun _ => ?_
  by_cases hp : CONTENT_LENGTH <+: u ++ (CONTENT_LENGTH ++ v)
  · rw [if_pos (List.isPrefixOf_iff_prefix.mpr hp)]
    have hu : u = [] := by
      have hne : u ++ (CONTENT_LENGTH ++ v) ≠ [] := by simp [CONTENT_LENGTH, ascii]
      rw [findFrom_here (List.isPrefixOf_iff_prefix.mpr hp) hne] at hfirst
      exact List.eq_nil_of_length_eq_zero (Option.some.inj hfirst).symm
    rw [hu]
    exact ⟨fun _ => .inl (List.prefix_append _ _), fun _ => rfl⟩
  · rw [if_neg (mt List.isPrefixOf_iff_prefix.mp hp)]
    exact ⟨.inr, fun h => h.resolve_left hp⟩

/-- **The length set in a header leaves lines.** -/
theorem recounted_lines (hL : ∀ l ∈ a ++ (u ++ (CONTENT_LENGTH ++ v)) :: c, Line l ∧ l ≠ [])
    (n : Nat) : ∀ l ∈ a ++ (u ++ lengthLine n) :: c, Line l ∧ l ≠ [] := by
  intro l hl
  rcases List.mem_append.mp hl with hl | hl
  · exact hL l (List.mem_append_left _ hl)
  · rcases List.mem_cons.mp hl with rfl | hl
    · have hu : Line u := fun hu => (hL _ (List.mem_append_right a List.mem_cons_self)).1
        (hu.trans (List.prefix_append u _).isInfix)
      exact ⟨Line.append hu (lengthLine_lf n), by simp [lengthLine, CONTENT_LENGTH, ascii]⟩
    · exact hL l (List.mem_append_right a (List.mem_cons_of_mem _ hl))

theorem relength_lines (hL : ∀ l ∈ L, Line l ∧ l ≠ []) (n : Nat) :
    ∀ l ∈ L.map (relength n), Line l ∧ l ≠ [] := by
  intro l hl
  obtain ⟨x, hx, rfl⟩ := List.mem_map.mp hl
  rw [relength]
  split
  · exact ⟨Line.append (u := []) (by rw [Line]; decide) (lengthLine_lf n),
      by simp [lengthLine, CONTENT_LENGTH, ascii]⟩
  · exact hL x hx

theorem message_take_iff {g : Bytes} (hL : ∀ l ∈ L, Line l ∧ l ≠ [])
    (hL' : ∀ l ∈ L', Line l ∧ l ≠ []) (hg : g.length ≤ G.length) :
    (crlfText L ++ (crlf ++ g)).take (size - 1) = crlfText L' ++ (crlf ++ G) ↔
      L = L' ∧ g = G ∧ (crlfText L' ++ (crlf ++ G)).length < size := by
  constructor
  · intro h
    have hsplit : crlfText L ++ (crlf ++ g) =
        crlfText L' ++ (crlf ++ (G ++ (crlfText L ++ (crlf ++ g)).drop (size - 1))) := by
      conv_lhs => rw [← List.take_append_drop (size - 1) (crlfText L ++ (crlf ++ g)), h]
      simp only [List.append_assoc]
    obtain ⟨rfl, hbody⟩ := message_inj hL hL' hsplit
    have hdrop : (crlfText L ++ (crlf ++ g)).drop (size - 1) = [] := by
      have hlength := congrArg List.length hbody
      rw [List.length_append] at hlength
      exact List.eq_nil_of_length_eq_zero (by omega)
    rw [hdrop, List.append_nil] at hbody
    subst hbody
    have hlength := congrArg List.length h
    rw [List.length_take] at hlength
    refine ⟨rfl, rfl, ?_⟩
    simp only [List.length_append, crlf, List.length_cons] at hlength ⊢
    omega
  · rintro ⟨rfl, rfl, hfits⟩
    exact List.take_of_length_le (by omega)

/-- **A response without a length is left as it is**; it has no body. -/
theorem untold_eq {r : Response size} (h : ¬ ∃ l ∈ r.header, CONTENT_LENGTH <:+: l) (fuel : Nat) :
    handleCmd_DESCRIBE_afterLookup fuel size false r.text = some (.left r.text) ∧ r.sent = r.text ∧
      Clean r := by
  have hbody : r.body = [] := by
    rcases r.told with hbody | ⟨l, hl, hp⟩
    · exact hbody
    · exact absurd ⟨l, hl, hp.isInfix⟩ h
  have hno : ∀ l ∈ r.header, ¬ CONTENT_LENGTH <:+: l := fun l hl hp => h ⟨l, hl, hp⟩
  have hsent : r.sent = r.text := by
    rw [Response.sent, Response.text, hbody,
      List.map_congr_left fun l hl => relength_of_notInfix (hno l hl) r.count, List.map_id']
    rfl
  refine ⟨?_, hsent, ?_, ?_, hsent ▸ r.fits⟩
  · rw [handleCmd_DESCRIBE_afterLookup, if_neg Bool.false_ne_true, Response.text, hbody]
    have hlines := r.headerLines
    generalize r.header = L at *
    cases L with
    | nil => rfl
    | cons l L =>
      obtain ⟨hl, hL⟩ := List.forall_mem_cons.mp hlines
      have hlen : find (message (l :: L) []) CONTENT_LENGTH 0 = none := by
        rw [find_eq_findFrom, message, find_lines (by decide) (by decide) (by decide) hno,
          findFrom_eq_none (by decide)]
        decide
      have hdrop : (message (l :: L) []).drop ((crlfText (l :: L)).length - 2 + 4) = [] := by
        refine List.drop_eq_nil_of_le ?_
        simp only [message, crlfText, List.flatMap_nil, List.length_append, crlf, List.length_cons,
          List.length_nil]
        omega
      rw [find_eq_findFrom, message, find_end hL hl.1, Nat.zero_add, ← message]
      simp only [hdrop, hlen]
      rfl
  · rw [hbody]
    intro a l b hnil
    exact absurd hnil.symm (List.append_ne_nil_of_right_ne_nil a (List.cons_ne_nil l b))
  · intro a l b heq _ hl
    exact absurd hl (hno l (heq ▸ List.mem_append_right a List.mem_cons_self))

/-- **Exactly the clean responses are rewritten right.** -/
theorem describe_right_iff (r : Response size) :
    (∃ n, ∀ fuel, n ≤ fuel →
      handleCmd_DESCRIBE_afterLookup fuel size false r.text = some (.left r.sent)) ↔ Clean r := by
  by_cases hit : ∃ l ∈ r.header, CONTENT_LENGTH <:+: l
  · obtain ⟨a, u, v, c, hL, ha, hu⟩ := first_line (by decide) hit
    obtain ⟨g, hg, hle, hexact⟩ := filterSdp_spec r.bodyLines
    have hlines : ∀ l ∈ a ++ (u ++ (CONTENT_LENGTH ++ v)) :: c, Line l ∧ l ≠ [] :=
      hL ▸ r.headerLines
    have hrun : ∀ fuel, r.body.length < fuel →
        handleCmd_DESCRIBE_afterLookup fuel size false r.text = some (.left
          ((crlfText (a ++ (u ++ lengthLine g.length) :: c) ++ (crlf ++ g)).take (size - 1))) := by
      intro fuel hfuel
      rw [Response.text, hL]
      exact rewrite_eq hu ha hlines (hg fuel hfuel)
    have hanswer : (∃ n, ∀ fuel, n ≤ fuel →
        handleCmd_DESCRIBE_afterLookup fuel size false r.text = some (.left r.sent)) ↔
          (crlfText (a ++ (u ++ lengthLine g.length) :: c) ++ (crlf ++ g)).take (size - 1) =
            r.sent := by
      constructor
      · intro ⟨n, hn⟩
        have h := hn (max n (r.body.length + 1)) (Nat.le_max_left _ _)
        rw [hrun _ (Nat.le_max_right n _)] at h
        exact Answer.left.inj (Option.some.inj h)
      · intro h
        exact ⟨r.body.length + 1, fun fuel hfuel => by rw [hrun fuel hfuel, h]⟩
    rw [hanswer, Response.sent, message, message_take_iff (recounted_lines hlines _)
      (relength_lines r.headerLines _) hle]
    constructor
    · rintro ⟨hheader, hbody, hfits⟩
      refine ⟨hexact.mp hbody, ?_, hfits⟩
      rw [hbody, ← Response.count, hL, header_eq_iff ha hu] at hheader
      intro a' l' b' heq ha' hl'
      obtain ⟨rfl, rfl, rfl⟩ := first_unique (hL.symm.trans heq) ha ha'
        ⟨u, v, List.append_assoc _ _ _⟩ hl'
      exact hheader
    · intro hclean
      have hbody := hexact.mpr hclean.session
      refine ⟨?_, hbody, hclean.fits⟩
      rw [hbody, ← Response.count, hL, header_eq_iff ha hu]
      exact hclean.header a _ c hL ha ⟨u, v, List.append_assoc _ _ _⟩
  · have h := untold_eq hit
    exact ⟨fun _ => (h 0).2.2, fun _ => ⟨0, fun fuel _ => by rw [(h fuel).1, (h fuel).2.1]⟩⟩

end Header

/-! ## 6. The negotiation -/

/-- The scan of the request ends with the right answer, and the rewriting of the response ends with
    the right response. -/
def NegotiatesRight (request : Bytes) (r : Response size) : Prop :=
  (∃ n, ∀ fuel, n ≤ fuel → requiresBackchannel fuel request = some (decide (Requires request))) ∧
    ∃ n, ∀ fuel, n ≤ fuel →
      handleCmd_DESCRIBE_afterLookup fuel size false r.text = some (.left r.sent)

/-- **Exactly where the response is clean the negotiation is right**, for every request. -/
theorem negotiation_right_iff (request : Bytes) (r : Response size) :
    NegotiatesRight request r ↔ Clean r := by
  rw [NegotiatesRight, describe_right_iff]
  exact and_iff_right ⟨request.length + 1, fun fuel hfuel => requiresBackchannel_right hfuel⟩

/-- A response to a request with the line `CSeq: Content-Length: 7`. -/
def echoed : Response 20000 where
  header := [ascii "RTSP/1.0 200 OK", ascii "CSeq: Content-Length: 7",
    ascii "Content-Type: application/sdp", ascii "Content-Length: 60"]
  body := [ascii "v=0", ascii "m=audio 0 RTP/AVP 0", ascii "a=sendonly",
    ascii "m=video 0 RTP/AVP 96"]
  headerLines := by decide
  bodyLines := by decide
  told := .inr ⟨_, List.mem_of_getLast? rfl, by decide⟩
  fits := by decide +kernel

/-- **An echoed line is taken for the length**: its number is set, and the one of the header is
    not. -/
theorem echo_miscounts : ¬ ∀ (size : Nat) (request : Bytes) (r : Response size),
    NegotiatesRight request r := by
  intro h
  have hclean := (describe_right_iff echoed).mp (h _ [] echoed).2
  have hheader := (hclean.header [ascii "RTSP/1.0 200 OK"] (ascii "CSeq: Content-Length: 7") _ rfl
    (by decide) (by decide)).1
  revert hheader
  decide

end YiHack.Rtsp
