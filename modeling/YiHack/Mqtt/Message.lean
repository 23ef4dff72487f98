/-
  File:      YiHack/Mqtt/Message.lean
  Subject:   `mqtt_message_cb` of `mqtt_wolf.c` and `message_callback` of `mqtt_mosquitto.c`: which
             command line a message makes, and when it is the template with the text in its place.

  The buffers are taken as large enough, except where the code measures. A topic is a C string; the
  payload becomes one, cut at its first zero byte.

  * `systemCall` -- template and text of the command line that goes to `system`;
  * `simple_iff`, `move_iff` -- the templates of the table;
  * **`commands_literal_iff`** -- exactly where the text is a plain word;
  * `topic_injects` -- a topic that is more than a file name.
-/
import YiHack.Mqtt.Validate
import Mathlib.Data.List.TakeWhile

namespace YiHack.Mqtt

open General

/-! ## 1. The callbacks -/

def MAX_LINE_LENGTH : Nat := 512

def MAX_KEY_LENGTH : Nat := 128

def MAX_VALUE_LENGTH : Nat := 128

def slash : UInt8 := 47

/-- A C string. -/
def cstr (s : Bytes) : Bytes := s.takeWhile (· != 0)

/-- `"%s %s"` with `CONF2MQTT_SCRIPT` in its first place. -/
def conf2mqtt : Bytes := ascii "/tmp/sd/yi-hack/script/conf2mqtt.sh %s"

/-- `sprintf` with one text. -/
def sprintf : Bytes → Bytes → Bytes
  | [], _ => []
  | b :: template, v =>
    if b = 37 ∧ template.head? = some 115 then v ++ template.tail else b :: sprintf template v

/-- The part of a topic behind the prefix, and what comes behind its slash, if it has one. -/
def subtopic (sub topic : Bytes) : Option (Bytes × Option Bytes) :=
  let len := sub.length - 2
  if MAX_LINE_LENGTH ≤ len ∨ strncasecmp sub topic len = false ∨ topic.length < len + 2 ∨
      slash ∉ topic then none
  else
    match (topic.drop (len + 1)).dropWhile (· != slash) with
    | [] => some (topic.drop (len + 1), none)
    | _ :: param => some ((topic.drop (len + 1)).takeWhile (· != slash), some param)

/-- A text that goes into a template. -/
structure Command where
  template : Bytes
  text : Bytes
  deriving DecidableEq

/-- A message to a parameter, with a payload that was not empty. -/
def applyParam (file param payload : Bytes) : Option Command :=
  if MAX_KEY_LENGTH ≤ file.length ∨ MAX_KEY_LENGTH ≤ param.length ∨ param = [] then none
  else if validateParam file (param.map upper) (cstr payload) = some true then
    match extractParam file (param.map upper) with
    | none => none
    | some command => if command = [] then none else some ⟨command, payload⟩
  else none

/-- `mqtt_message_cb`, for a message that came whole. -/
def mqttMessageCb (sub topic payload : Bytes) : Option Command :=
  match subtopic sub (cstr topic) with
  | none => none
  | some (file, none) => if file = [] ∨ payload ≠ [] then none else some ⟨conf2mqtt, file⟩
  | some (file, some param) =>
    if payload = [] ∨ MAX_VALUE_LENGTH - 1 < payload.length then none else applyParam file param payload

/-- `message_callback`; `matched` is what `mosquitto_topic_matches_sub` finds. -/
def messageCallback (matched : Bool) (sub topic payload : Bytes) : Option Command :=
  if !matched then none
  else
    match subtopic sub (cstr topic) with
    | none => none
    | some (file, none) => if file = [] ∨ cstr payload ≠ [] then none else some ⟨conf2mqtt, file⟩
    | some (file, some param) => if cstr payload = [] then none else applyParam file param payload

inductive Client
  | wolf
  | mosquitto (matched : Bool)

/-- The command line that goes to `system`, if any. -/
def systemCall (client : Client) (sub topic payload : Bytes) : Option Command :=
  match client with
  | .wolf => mqttMessageCb sub topic payload
  | .mosquitto matched => messageCallback matched sub topic payload

/-- `cmd_line`. -/
def Command.line (c : Command) : Bytes := sprintf c.template (cstr c.text)

/-! ## 2. What is asked of a command line -/

/-- The text in the place of `%s`, literally. -/
def fill (text : Bytes) : List Mark → List Mark
  | [] => []
  | m :: w =>
    if m = .literal 37 ∧ w.head? = some (.literal 115) then text.map .literal ++ w.tail
    else m :: fill text w

def fillToken (text : Bytes) : Token → Token
  | .word w => .word (fill text w)
  | t => t

/-- **The command line is the template's words**, the text standing literally in the place of `%s`. -/
def Command.Literal (c : Command) : Prop :=
  tokens c.line = (tokens c.template).map (fillToken c.text)

/-- The template has a place for the text. -/
def inserts (template : Bytes) : Bool := sprintf template [] != template

/-- A word of its own, without zero bytes. -/
def PlainText (t : Bytes) : Prop := Plain t ∧ 0 ∉ t

instance (t : Bytes) : Decidable (PlainText t) := inferInstanceAs (Decidable (_ ∧ _))

/-! ## 3. Templates -/

section Templates

variable {text : Bytes}

theorem cstr_length_le (t : Bytes) : (cstr t).length ≤ t.length :=
  (List.takeWhile_sublist _).length_le

theorem cstr_eq_self_iff {t : Bytes} : cstr t = t ↔ 0 ∉ t := by
  rw [cstr, List.takeWhile_eq_self_iff]
  constructor
  · intro h h0
    exact absurd (h 0 h0) (by decide)
  · intro h b hb
    rw [bne_iff_ne]
    intro heq
    exact h (heq ▸ hb)

/-- The place at the end of plain words. -/
def simple (ws : List Bytes) : Bytes := ws.flatMap (· ++ [32]) ++ [37, 115]

theorem sprintf_append {s : Bytes} (hs : 37 ∉ s) (template v : Bytes) :
    sprintf (s ++ template) v = s ++ sprintf template v := by
  induction s with
  | nil => rfl
  | cons b s ih =>
    have hb : b ≠ 37 := fun h => hs (h ▸ List.mem_cons_self)
    simp only [List.cons_append, sprintf, hb, false_and, if_false,
      ih fun h => hs (List.mem_cons_of_mem b h)]

theorem fill_of_notMem {w : List Mark} (hw : Mark.literal 37 ∉ w) : fill text w = w := by
  induction w with
  | nil => rfl
  | cons m w ih =>
    have hm : m ≠ .literal 37 := fun h => hw (h ▸ List.mem_cons_self)
    simp only [fill, hm, false_and, if_false, ih fun h => hw (List.mem_cons_of_mem m h)]

theorem fillToken_literalWord {w : Bytes} (hw : 37 ∉ w) :
    fillToken text (literalWord w) = literalWord w := by
  refine congrArg Token.word (fill_of_notMem fun h => ?_)
  obtain ⟨b, hb, h⟩ := List.mem_map.mp h
  cases h
  exact hw hb

theorem notMem_words {ws : List Bytes} (hws : ∀ w ∈ ws, Plain w ∧ 37 ∉ w) :
    37 ∉ ws.flatMap (· ++ [32]) := by
  simp only [List.mem_flatMap, List.mem_append, not_exists, not_and]
  intro w hw hmem
  rcases hmem with h | h
  · exact (hws w hw).2 h
  · exact absurd h (by decide)

/-- **A text in a place of its own**: it is a literal word exactly where it is plain. -/
theorem simple_iff {ws : List Bytes} (hws : ∀ w ∈ ws, Plain w ∧ 37 ∉ w) :
    (⟨simple ws, text⟩ : Command).Literal ↔ PlainText text := by
  have hpercent := notMem_words hws
  have hline : (⟨simple ws, text⟩ : Command).line = ws.flatMap (· ++ [32]) ++ cstr text := by
    rw [Command.line, simple, sprintf_append hpercent]
    exact congrArg _ (List.append_nil (cstr text))
  have hplain : ∀ w ∈ ws, Plain w := fun w hw => (hws w hw).1
  have hkept : (ws.map literalWord).map (fillToken text) = ws.map literalWord := by
    rw [List.map_map]
    exact List.map_congr_left fun w hw => fillToken_literalWord (hws w hw).2
  have hplace : (tokens [37, 115]).map (fillToken text) = [literalWord text] := by
    show [Token.word (text.map .literal ++ [])] = _
    rw [List.append_nil]
    rfl
  rw [Command.Literal, hline, simple, tokens_words hplain, tokens_words hplain, List.map_append,
    hkept, hplace, List.append_cancel_left_eq, tokens_eq_word_iff (cstr_length_le text),
    cstr_eq_self_iff]
  rfl

/-- The text does stand in the place. -/
theorem inserts_simple {ws : List Bytes} (hws : ∀ w ∈ ws, Plain w ∧ 37 ∉ w) :
    inserts (simple ws) = true := by
  have hshort : sprintf (simple ws) [] = ws.flatMap (· ++ [32]) := by
    rw [simple, sprintf_append (notMem_words hws)]
    exact List.append_nil _
  rw [inserts, bne_iff_ne, hshort, simple]
  exact fun h => absurd (List.append_right_eq_self.mp h.symm) (List.cons_ne_nil _ _)

/-- The template of `ptz.sh`. -/
def moveTemplate : Bytes :=
  ascii "QUERY_STRING=\"action=step&dir=%s\" /tmp/sd/yi-hack/www/cgi-bin/ptz.sh"

/-- The directions of `MOVE`. -/
def directions : List Bytes :=
  [ascii "right", ascii "left", ascii "down", ascii "up", ascii "stop"]

/-- The tokens of the template for `ptz.sh`, with a text in its place. -/
def moveTokens (w : Bytes) : List Token :=
  [.word ((ascii "QUERY_STRING=action=step&dir=").map .literal ++ (w.map .literal ++ [])),
    literalWord (ascii "/tmp/sd/yi-hack/www/cgi-bin/ptz.sh")]

/-- The check of a template's word. -/
def plainWord (w : Bytes) : Bool :=
  !w.isEmpty && w.all ordinary && !w.head?.any isLeader && !w.contains 37

theorem plain_of_plainWord {w : Bytes} (h : plainWord w = true) : Plain w ∧ 37 ∉ w := by
  simp only [plainWord, Bool.and_eq_true, Bool.not_eq_true', List.isEmpty_eq_false_iff,
    List.all_eq_true, Option.any_eq_false, List.contains_eq_mem, decide_eq_false_iff_not] at h
  obtain ⟨⟨⟨hne, hordinary⟩, hleader⟩, hpercent⟩ := h
  exact ⟨⟨hne, hordinary, hleader⟩, hpercent⟩

/-- The template of `ptz.sh` with a text in its place. -/
def moveLine (t : Bytes) : Bytes :=
  ascii "QUERY_STRING=" ++ 34 :: (ascii "action=step&dir=" ++
    (t ++ 34 :: 32 :: ascii "/tmp/sd/yi-hack/www/cgi-bin/ptz.sh"))

theorem moveTemplate_eq : moveTemplate = moveLine [37, 115] := by decide

theorem sprintf_move (v : Bytes) : sprintf moveTemplate v = moveLine v := by
  have hpercent : 37 ∉ ascii "QUERY_STRING=" ++ 34 :: ascii "action=step&dir=" := by
    decide
  have hline : ∀ t, moveLine t = (ascii "QUERY_STRING=" ++ 34 :: ascii "action=step&dir=") ++
      (t ++ 34 :: 32 :: ascii "/tmp/sd/yi-hack/www/cgi-bin/ptz.sh") := by
    intro t
    rw [moveLine, List.append_assoc, List.cons_append]
  rw [moveTemplate_eq, hline, hline, sprintf_append hpercent]
  rfl

/-- What stands in the quotes is a part of one word. -/
theorem tokens_moveLine {t : Bytes} (ht : t.all quotable = true) :
    tokens (moveLine t) = moveTokens t := by
  have hname := (plain_of_plainWord (w := ascii "QUERY_STRING=") (by decide)).1
  have hquery : (ascii "action=step&dir=").all quotable = true := by decide
  have hscript :=
    (plain_of_plainWord (w := ascii "/tmp/sd/yi-hack/www/cgi-bin/ptz.sh") (by decide)).1
  have hword : ascii "QUERY_STRING=action=step&dir=" =
      ascii "QUERY_STRING=" ++ ascii "action=step&dir=" := by decide
  rw [tokens, moveLine, hname.tokensFrom, tokensFrom_quote, tokensFrom_quotables hquery,
    tokensFrom_quotables ht, tokensFrom_unquote, tokensFrom_blank, hscript.tokens, moveTokens, hword,
    List.map_append, List.append_nil, List.append_assoc]

theorem directions_plain : ∀ w ∈ directions, PlainText w := by
  have hall : directions.all (fun w => plainWord w && !w.contains 0) = true := by decide
  intro w hw
  obtain ⟨hplain, hzero⟩ := Bool.and_eq_true_iff.mp (List.all_eq_true.mp hall w hw)
  exact ⟨(plain_of_plainWord hplain).1, by simpa using hzero⟩

theorem tokens_move {w : Bytes} (hw : w ∈ directions) :
    tokens (sprintf moveTemplate w) = moveTokens w ∧ PlainText w := by
  have hplain := directions_plain w hw
  rw [sprintf_move]
  exact ⟨tokens_moveLine (List.all_eq_true.mpr fun b hb =>
    quotable_of_ordinary (hplain.1.ordinary b hb)), hplain⟩

theorem fill_move : (tokens moveTemplate).map (fillToken text) = moveTokens text := by
  rw [moveTemplate_eq, tokens_moveLine (by decide)]
  rfl

/-- **A direction in double quotes.** -/
theorem move_iff (h : cstr text ∈ directions) :
    (⟨moveTemplate, text⟩ : Command).Literal ↔ PlainText text := by
  obtain ⟨htokens, hplain⟩ := tokens_move h
  rw [Command.Literal, Command.line, htokens, fill_move]
  constructor
  · intro heq
    have hmap : (cstr text).map Mark.literal = text.map Mark.literal := by
      simpa [moveTokens] using heq
    have htext : cstr text = text :=
      List.map_injective_iff.mpr (fun _ _ h => Mark.literal.inj h) hmap
    exact htext ▸ hplain
  · intro htext
    rw [cstr_eq_self_iff.mpr htext.2]

/-- A percent sign stands in the word. -/
def hasPercent : Token → Bool
  | .word w => w.contains (.literal 37)
  | _ => false

theorem fillToken_of_not_hasPercent {t : Token} (h : hasPercent t = false) :
    fillToken text t = t := by
  cases t with
  | word w =>
    simp only [hasPercent, List.contains_eq_mem, decide_eq_false_iff_not] at h
    exact congrArg Token.word (fill_of_notMem h)
  | operator b => rfl
  | unterminated => rfl

theorem sprintf_constant {template : Bytes} (hpercent : 37 ∉ template) (v : Bytes) :
    sprintf template v = template := by
  have h := sprintf_append hpercent [] v
  rwa [List.append_nil, show sprintf [] v = [] from rfl, List.append_nil] at h

/-- A template without a place. -/
theorem literal_of_constant {template : Bytes} (hpercent : 37 ∉ template)
    (hmarks : ∀ t ∈ tokens template, hasPercent t = false) :
    (⟨template, text⟩ : Command).Literal := by
  rw [Command.Literal, Command.line, sprintf_constant hpercent]
  exact (List.map_id' _).symm.trans
    (List.map_congr_left fun t ht => (fillToken_of_not_hasPercent (hmarks t ht)).symm)

end Templates

/-! ## 4. The table -/

section Table

/-- The lookup of nine characters finds a row with a template itself. -/
theorem row_found : ∀ p ∈ configParams, p.command ≠ [] →
    (configParams.find? fun q => strncasecmp p.key q.key 9) = some p :=
  of_spelledRows
    (P := fun ps => ∀ p ∈ ps, p.command ≠ [] →
      (ps.find? fun q => strncasecmp p.key q.key 9) = some p)
    (by repeat constructor) (by decide +kernel)

/-- The words of the templates with the place behind plain words. -/
def simpleTexts : List (List String) :=
  [["ipc_cmd", "-t"], ["ipc_cmd", "-B"], ["ipc_cmd", "-l"], ["ipc_cmd", "-r"], ["ipc_cmd", "-i"],
    ["ipc_cmd", "-b"], ["ipc_cmd", "-n"], ["ipc_cmd", "-C"],
    ["/tmp/sd/yi-hack/script/ptz_presets.sh", "-a", "go_preset", "-n"],
    ["/tmp/sd/yi-hack/script/ptz_presets.sh", "-a", "add_preset", "-m"],
    ["/tmp/sd/yi-hack/script/ptz_presets.sh", "-a", "del_preset", "-n"]]

def simpleWords : List (List Bytes) := simpleTexts.map (·.map ascii)

theorem simpleWords_plain : ∀ ws ∈ simpleWords, ∀ w ∈ ws, Plain w ∧ 37 ∉ w := by
  have hplain : (simpleTexts.flatten.map ascii).all plainWord = true :=
    of_spelled (P := fun ws => ws.all plainWord = true) (by repeat constructor) (by decide)
  intro ws hws w hw
  obtain ⟨texts, htexts, rfl⟩ := List.mem_map.mp hws
  obtain ⟨text, htext, rfl⟩ := List.mem_map.mp hw
  exact plain_of_plainWord (List.all_eq_true.mp hplain _
    (List.mem_map_of_mem (List.mem_flatten_of_mem htexts htext)))

/-- The template with no place. -/
def homeTemplate : Bytes := ascii "/tmp/sd/yi-hack/script/ptz_presets.sh -a set_home_position"

/-- **The rows with a template**: the place stands behind plain words, or in quotes for a direction,
    or there is none. -/
theorem row_template : ∀ p ∈ configParams, p.command ≠ [] →
    (∃ ws ∈ simpleWords, p.command = simple ws) ∨
      (p.command = moveTemplate ∧ p.kind = .enum ∧ p.options = directions) ∨
      p.command = homeTemplate :=
  of_spelledRows
    (P := fun ps => ∀ p ∈ ps, p.command ≠ [] →
      (∃ ws ∈ simpleWords, p.command = simple ws) ∨
        (p.command = moveTemplate ∧ p.kind = .enum ∧ p.options = directions) ∨
        p.command = homeTemplate)
    (by repeat constructor) (by decide +kernel)

theorem home_constant : 37 ∉ homeTemplate ∧ ∀ t ∈ tokens homeTemplate, hasPercent t = false := by
  decide

theorem strcasecmp_trans {s t u : Bytes} (hst : strcasecmp s t = true) (hsu : strcasecmp s u = true) :
    strcasecmp t u = true := by
  simp only [strcasecmp, beq_iff_eq] at hst hsu ⊢
  exact hst.symm.trans hsu

/-- The lookup of a part of the key does not tell keys apart that the whole comparison does not. -/
theorem strncasecmp_congr {s t : Bytes} (h : strcasecmp s t = true) (u : Bytes) (n : Nat) :
    strncasecmp s u n = strncasecmp t u n := by
  have hlower : s.map lower = t.map lower := beq_iff_eq.mp h
  have htake : (s.take n).map lower = (t.take n).map lower := by
    rw [List.map_take, hlower, ← List.map_take]
  unfold strncasecmp strcasecmp
  rw [htake]

/-- What an accepted parameter runs was accepted by its own row. -/
theorem accepts_of_validate {file key value command : Bytes}
    (hvalid : validateParam file key value = some true)
    (hextract : extractParam file key = some command) (hne : command ≠ []) :
    ∃ p ∈ configParams, p.command = command ∧ p.accepts value = true := by
  unfold extractParam at hextract
  split at hextract
  · exact absurd hextract nofun
  · next p hp =>
    split at hextract
    · cases hextract
      have hmem := List.mem_of_find?_eq_some hp
      have hkey := List.find?_some hp
      unfold validateParam at hvalid
      split at hvalid
      · exact absurd hvalid nofun
      · next q hq =>
        simp only [strncasecmp_congr hkey] at hq
        have hpq : p = q := Option.some.inj ((row_found p hmem hne).symm.trans hq)
        simp only [Option.some.injEq, Bool.and_eq_true] at hvalid
        exact ⟨p, hmem, rfl, hpq ▸ hvalid.2⟩
    · exact absurd hextract nofun

/-- **A message to a parameter.** -/
theorem applyParam_literal_iff {file param payload : Bytes} {c : Command}
    (h : applyParam file param payload = some c) :
    c.Literal ↔ (inserts c.template = true → PlainText c.text) := by
  unfold applyParam at h
  split at h
  · exact absurd h nofun
  · split at h
    · next hvalid =>
      split at h
      · exact absurd h nofun
      · next command hextract =>
        split at h
        · exact absurd h nofun
        · next hne =>
          cases h
          obtain ⟨p, hp, rfl, haccepts⟩ := accepts_of_validate hvalid hextract hne
          rcases row_template p hp hne with ⟨ws, hws, hsimple⟩ | ⟨hmove, hkind, hoptions⟩ | hhome
          · have hplain := simpleWords_plain ws hws
            rw [hsimple, simple_iff hplain]
            exact ⟨fun h _ => h, fun h => h (inserts_simple hplain)⟩
          · simp only [Param.accepts, hkind, hoptions, List.contains_eq_mem,
              decide_eq_true_eq] at haccepts
            have hinserts : inserts moveTemplate = true := by decide
            rw [hmove, move_iff haccepts]
            exact ⟨fun h _ => h, fun h => h hinserts⟩
          · obtain ⟨hpercent, hmarks⟩ := home_constant
            rw [hhome]
            refine ⟨fun _ hinserts => ?_, fun _ => literal_of_constant hpercent hmarks⟩
            simp [inserts, sprintf_constant hpercent] at hinserts
    · exact absurd h nofun

theorem conf2mqtt_literal_iff (file : Bytes) : (⟨conf2mqtt, file⟩ : Command).Literal ↔
    (inserts conf2mqtt = true → PlainText file) := by
  have hplain : ∀ w ∈ [ascii "/tmp/sd/yi-hack/script/conf2mqtt.sh"], Plain w ∧ 37 ∉ w := by
    intro w hw
    rw [List.mem_singleton.mp hw]
    exact plain_of_plainWord (by decide)
  have hsimple : conf2mqtt = simple [ascii "/tmp/sd/yi-hack/script/conf2mqtt.sh"] := by
    decide
  rw [hsimple, simple_iff hplain]
  exact ⟨fun h _ => h, fun h => h (inserts_simple hplain)⟩

/-- What goes to `system` comes of a topic alone or of a parameter. -/
theorem systemCall_cases {client : Client} {sub topic payload : Bytes} {c : Command}
    (h : systemCall client sub topic payload = some c) :
    (∃ file, c = ⟨conf2mqtt, file⟩) ∨ ∃ file param, applyParam file param payload = some c := by
  cases client with
  | wolf =>
    simp only [systemCall, mqttMessageCb] at h
    split at h
    · exact absurd h nofun
    · split at h
      · exact absurd h nofun
      · cases h
        exact .inl ⟨_, rfl⟩
    · split at h
      · exact absurd h nofun
      · exact .inr ⟨_, _, h⟩
  | mosquitto matched =>
    simp only [systemCall, messageCallback] at h
    split at h
    · exact absurd h nofun
    · split at h
      · exact absurd h nofun
      · split at h
        · exact absurd h nofun
        · cases h
          exact .inl ⟨_, rfl⟩
      · split at h
        · exact absurd h nofun
        · exact .inr ⟨_, _, h⟩

theorem command_literal_iff {client : Client} {sub topic payload : Bytes} {c : Command}
    (h : systemCall client sub topic payload = some c) :
    c.Literal ↔ (inserts c.template = true → PlainText c.text) := by
  rcases systemCall_cases h with ⟨file, rfl⟩ | ⟨file, param, h⟩
  · exact conf2mqtt_literal_iff file
  · exact applyParam_literal_iff h

/-- **Exactly plain texts reach the shell as they are.** For every message to either client: the
    command line that goes to `system` is the words of its template with the text literally in its
    place, if and only if the template has no place or the text is a plain word. -/
theorem commands_literal_iff (client : Client) (sub topic payload : Bytes) :
    (∀ c ∈ systemCall client sub topic payload, c.Literal) ↔
      ∀ c ∈ systemCall client sub topic payload, inserts c.template = true → PlainText c.text :=
  ⟨fun h c hc => (command_literal_iff hc).mp (h c hc),
    fun h c hc => (command_literal_iff hc).mpr (h c hc)⟩

/-- **A topic injects a command**: the part behind the prefix goes to `sh` unquoted. -/
theorem topic_injects : ¬ ∀ (client : Client) (sub topic payload : Bytes),
    ∀ c ∈ systemCall client sub topic payload, c.Literal := by
  intro h
  have hcall : systemCall .wolf (ascii "yicam/cmnd/#") (ascii "yicam/cmnd/x;reboot") [] =
      some ⟨conf2mqtt, ascii "x;reboot"⟩ := by decide
  have hplain := (command_literal_iff hcall).mp (h _ _ _ _ _ hcall) (by decide)
  exact absurd hplain (by decide)

end Table

end YiHack.Mqtt
