/-
  File:      YiHack/Mqtt/Buffers.lean
  Subject:   The fixed buffers of `mqtt_message_cb` (`mqtt_wolf.c`) and of `message_callback`
             (`mqtt_mosquitto.c`), with every copy into one of them measured.

  A copy that leaves its buffer ends the callback there: what the code does behind it is not known.

  * `Copying` -- what runs until a copy leaves its buffer;
  * **`copies_fit_iff`** -- exactly the messages whose copies all fit;
  * `callback_systemCall` -- a callback that stays in its buffers runs what `systemCall` says;
  * `setting_overflows` -- a setting with a command, which goes into two bytes.
-/
import YiHack.General.Fallible
import YiHack.Mqtt.Message

namespace YiHack.Mqtt

open General

/-! ## 1. Buffers and copies -/

inductive Buffer
  | topicName
  | topicPrefix
  | topic
  | file
  | param
  | value
  | ipcCmdParam
  | cmdLine
  | confFile
  deriving DecidableEq

/-- The sizes the buffers are declared with. -/
def Buffer.size : Buffer → Nat
  | .topicName | .topicPrefix | .topic => MAX_LINE_LENGTH
  | .file | .param => MAX_KEY_LENGTH
  | .value => MAX_VALUE_LENGTH
  | .ipcCmdParam => 2
  | .cmdLine => 1024
  | .confFile => 256

/-- What runs until a copy leaves its buffer. -/
abbrev Copying := Except Buffer

/-- `strcpy`, and `sprintf` of a whole text: the text with its zero byte. -/
def strcpy (b : Buffer) (s : Bytes) : Copying Bytes := if s.length < b.size then .ok s else .error b

/-- `strncpy` to a buffer of zeros: it writes `n` bytes, and a count below zero is a huge one. -/
def strncpy (b : Buffer) (s : Bytes) (n : Int) : Copying Bytes :=
  let text := s.take n.toNat
  if 0 ≤ n ∧ n ≤ b.size ∧ text.length < b.size then .ok text else .error b

/-- `memcpy` to a buffer of zeros. -/
def memcpy (b : Buffer) (s : Bytes) : Copying Bytes :=
  if s.length ≤ b.size ∧ (cstr s).length < b.size then .ok (cstr s) else .error b

/-! ## 2. The callbacks -/

def CONF_FILE_PATH : Bytes := ascii "/tmp/sd/yi-hack/etc"

def CONF2MQTT_SCRIPT : Bytes := ascii "/tmp/sd/yi-hack/script/conf2mqtt.sh"

/-- What a callback does before it returns; `fault` is a null pointer of the table. -/
inductive Effect
  | nothing
  | system (line : Bytes)
  | configReplace (confFile param value : Bytes)
  | fault
  deriving DecidableEq

/-- The topic behind the prefix. -/
def topicBehind (sub name : Bytes) : Copying (Option Bytes) :=
  let len : Int := sub.length - 2
  if MAX_LINE_LENGTH ≤ len then .ok none
  else do
    let topicPrefix ← strncpy .topicPrefix sub len
    if strncasecmp topicPrefix name len.toNat = false ∨ (name.length : Int) < len + 2 ∨
        slash ∉ name then
      pure none
    else
      let topic ← strcpy .topic (name.drop (len.toNat + 1))
      pure (some topic)

/-- A topic without a slash. -/
def dump (topic payload : Bytes) : Copying Effect := do
  let file ← strcpy .file topic
  if file = [] ∨ payload ≠ [] then pure .nothing
  else
    let line ← strcpy .cmdLine (CONF2MQTT_SCRIPT ++ 32 :: file)
    pure (.system line)

/-- File and parameter: what stands before the slash and behind it. -/
def fileParam (before behind : Bytes) : Copying (Option (Bytes × Bytes)) :=
  if MAX_KEY_LENGTH ≤ before.length then .ok none
  else do
    let file ← strncpy .file before before.length
    if MAX_KEY_LENGTH ≤ behind.length then pure none
    else
      let param ← strcpy .param behind
      pure (if param = [] then none else some (file, param))

/-- A parameter with its value. -/
def setParam (file param value : Bytes) : Copying Effect :=
  match validateParam file param value with
  | none => .ok .fault
  | some false => .ok .nothing
  | some true =>
    match extractParam file param with
    | none => .ok .nothing
    | some command => do
      let ipcCmdParam ← strcpy .ipcCmdParam command
      if ipcCmdParam ≠ [] then
        let line ← strcpy .cmdLine (sprintf ipcCmdParam value)
        pure (.system line)
      else
        let confFile ← strcpy .confFile (CONF_FILE_PATH ++ slash :: file ++ ascii ".conf")
        pure (.configReplace confFile param value)

/-- What the callbacks do with the topic behind the prefix; `value` is how they take the payload. -/
def handleTopic (topic payload : Bytes) (value : Copying (Option Bytes)) : Copying Effect :=
  match topic.dropWhile (· != slash) with
  | [] => dump topic payload
  | _ :: behind => do
    match ← fileParam (topic.takeWhile (· != slash)) behind with
    | none => pure .nothing
    | some (file, param) =>
      match ← value with
      | none => pure .nothing
      | some v => setParam file (param.map upper) v

/-- What the callbacks share, from the name of the topic on. -/
def handle (sub name payload : Bytes) (value : Copying (Option Bytes)) : Copying Effect := do
  match ← topicBehind sub name with
  | none => pure .nothing
  | some topic => handleTopic topic payload value

structure Message where
  msgNew : UInt8
  msgDone : UInt8
  topic : Bytes
  payload : Bytes

/-- The payload, as `mqtt_message_cb` takes it. -/
def copyValue (payload : Bytes) : Copying (Option Bytes) :=
  if payload = [] ∨ MAX_VALUE_LENGTH - 1 < payload.length then .ok none
  else some <$> memcpy .value payload

/-- `mqtt_message_cb`. -/
def Copying.mqttMessageCb (sub : Bytes) (msg : Message) : Copying Effect :=
  if msg.msgNew ≠ 1 ∨ msg.msgDone ≠ 1 then .ok .nothing
  else do
    let name ← strncpy .topicName (cstr msg.topic) msg.topic.length
    handle sub name msg.payload (copyValue msg.payload)

/-- `message_callback`: topic and payload are used where they are. -/
def Copying.messageCallback (matched : Bool) (sub : Bytes) (msg : Message) : Copying Effect :=
  if !matched then .ok .nothing
  else
    handle sub (cstr msg.topic) (cstr msg.payload)
      (.ok (if cstr msg.payload = [] then none else some (cstr msg.payload)))

def callback (client : Client) (sub : Bytes) (msg : Message) : Copying Effect :=
  match client with
  | .wolf => Copying.mqttMessageCb sub msg
  | .mosquitto matched => Copying.messageCallback matched sub msg

/-! ## 3. Each copy -/

section Copies

variable {b : Buffer} {s t : Bytes} {file param value : Bytes}

theorem strcpy_ok_iff : strcpy b s = .ok t ↔ s.length < b.size ∧ s = t := by
  rw [strcpy]
  split
  · next h => exact ⟨fun heq => ⟨h, Except.ok.inj heq⟩, fun heq => congrArg _ heq.2⟩
  · next h => exact ⟨nofun, fun heq => absurd heq.1 h⟩

theorem strncpy_ok_iff {n : Int} : strncpy b s n = .ok t ↔
    (0 ≤ n ∧ n ≤ b.size ∧ (s.take n.toNat).length < b.size) ∧ s.take n.toNat = t := by
  rw [strncpy]
  split
  · next h => exact ⟨fun heq => ⟨h, Except.ok.inj heq⟩, fun heq => congrArg _ heq.2⟩
  · next h => exact ⟨nofun, fun heq => absurd heq.1 h⟩

/-- The part before the first slash is all of it. -/
theorem dropWhile_slash_eq_nil : t.dropWhile (· != slash) = [] ↔ slash ∉ t := by
  rw [List.dropWhile_eq_nil_iff]
  constructor
  · intro h hmem
    exact absurd (h slash hmem) (by decide)
  · intro h x hx
    rw [bne_iff_ne]
    rintro rfl
    exact h hx

/-- A topic with a slash is cut at its first one. -/
theorem cut_slash {c : UInt8} {behind : Bytes} (h : t.dropWhile (· != slash) = c :: behind) :
    t = t.takeWhile (· != slash) ++ slash :: behind ∧ slash ∉ t.takeWhile (· != slash) := by
  have hc : c = slash := by
    have hhead := List.head?_dropWhile_not (· != slash) t
    rw [h] at hhead
    simpa using hhead
  constructor
  · conv_lhs => rw [← List.takeWhile_append_dropWhile (p := (· != slash)) (l := t), h, hc]
  · intro hmem
    exact absurd (List.mem_takeWhile_imp hmem) (by decide)

/-- The setting of a parameter that has a command. -/
def RunsCommand (file param value : Bytes) : Prop :=
  validateParam file param value = some true ∧
    ∃ command, extractParam file param = some command ∧ command ≠ []

theorem command_length : ∀ p ∈ configParams, p.command = [] ∨ 2 ≤ p.command.length :=
  of_spelledRows (P := fun ps => ∀ p ∈ ps, p.command = [] ∨ 2 ≤ p.command.length)
    (by repeat constructor) (by decide +kernel)

theorem extractParam_length {command : Bytes} (h : extractParam file param = some command) :
    command = [] ∨ 2 ≤ command.length := by
  unfold extractParam at h
  split at h
  · exact absurd h nofun
  · next p hp =>
    split at h
    · cases h
      exact command_length p (List.mem_of_find?_eq_some hp)
    · exact absurd h nofun

theorem confFile_length (hfile : file.length < MAX_KEY_LENGTH) :
    (CONF_FILE_PATH ++ slash :: file ++ ascii ".conf").length < Buffer.confFile.size := by
  have hpath : CONF_FILE_PATH.length = 19 := by decide
  have hconf : (ascii ".conf").length = 5 := by decide
  simp only [List.length_append, List.length_cons, hpath, hconf, MAX_KEY_LENGTH, Buffer.size] at *
  omega

/-- **The entry of the table goes into two bytes**: only an empty one fits. -/
theorem succeeds_setParam (hfile : file.length < MAX_KEY_LENGTH) :
    Succeeds (setParam file param value) ↔ ¬ RunsCommand file param value := by
  unfold setParam
  split
  · next hvalid => simp [RunsCommand, hvalid]
  · next hvalid => simp [RunsCommand, hvalid]
  · next hvalid =>
    split
    · next hextract => simp [RunsCommand, hextract]
    · next command hextract =>
      simp only [RunsCommand, hvalid, hextract, true_and, Option.some.injEq, exists_eq_left',
        not_not, succeeds_bind, strcpy_ok_iff]
      constructor
      · rintro ⟨_, ⟨hfits, rfl⟩, -⟩
        exact (extractParam_length hextract).resolve_right (Nat.not_le.mpr hfits)
      · rintro rfl
        refine ⟨[], ⟨by decide, rfl⟩, ?_⟩
        rw [if_neg (not_not.mpr rfl)]
        exact succeeds_bind.mpr ⟨_, strcpy_ok_iff.mpr ⟨confFile_length hfile, rfl⟩, succeeds_pure⟩

theorem succeeds_dump {payload : Bytes} :
    Succeeds (dump t payload) ↔ t.length < MAX_KEY_LENGTH := by
  simp only [dump, succeeds_bind, strcpy_ok_iff]
  constructor
  · rintro ⟨_, ⟨hfits, -⟩, -⟩
    exact hfits
  · intro hfits
    refine ⟨t, ⟨hfits, rfl⟩, ?_⟩
    split
    · exact succeeds_pure
    · have hscript : CONF2MQTT_SCRIPT.length = 35 := by decide
      refine succeeds_bind.mpr ⟨_, strcpy_ok_iff.mpr ⟨?_, rfl⟩, succeeds_pure⟩
      simp only [List.length_append, List.length_cons, hscript, MAX_KEY_LENGTH, Buffer.size] at *
      omega

theorem fileParam_eq : fileParam file param =
    .ok (if file.length < MAX_KEY_LENGTH ∧ param.length < MAX_KEY_LENGTH ∧ param ≠ [] then
      some (file, param) else none) := by
  unfold fileParam
  by_cases hfile : MAX_KEY_LENGTH ≤ file.length
  · rw [if_pos hfile, if_neg fun h => Nat.not_le.mpr h.1 hfile]
  · have hcopy : strncpy .file file file.length = .ok file := by
      rw [strncpy_ok_iff, Int.toNat_natCast, List.take_length]
      exact ⟨⟨by omega, by simp only [Buffer.size]; omega, Nat.not_le.mp hfile⟩, rfl⟩
    rw [if_neg hfile, hcopy]
    by_cases hparam : MAX_KEY_LENGTH ≤ param.length
    · rw [if_neg fun h => Nat.not_le.mpr h.2.1 hparam]
      exact if_pos hparam
    · have hcopy : strcpy .param param = .ok param :=
        strcpy_ok_iff.mpr ⟨Nat.not_le.mp hparam, rfl⟩
      show (if MAX_KEY_LENGTH ≤ param.length then _ else _) = _
      rw [if_neg hparam, hcopy]
      by_cases hne : param = [] <;> simp [hne, Nat.not_le.mp hfile, Nat.not_le.mp hparam]

end Copies

/-! ## 4. The messages that fit -/

section Messages

variable {sub name payload topic : Bytes} {value : Option Bytes}

/-- The topic behind the prefix, where a callback comes to it. -/
def reached (sub name : Bytes) : Option Bytes :=
  let len := sub.length - 2
  if strncasecmp sub name len = false ∨ name.length < len + 2 ∨ slash ∉ name then none
  else some (name.drop (len + 1))

/-- A topic behind the prefix that stays in the buffers, with the value that comes with it. -/
structure Fitting (topic : Bytes) (value : Option Bytes) : Prop where
  line : topic.length < MAX_LINE_LENGTH
  key : slash ∉ topic → topic.length < MAX_KEY_LENGTH
  command : ∀ file param, topic = file ++ slash :: param → slash ∉ file →
    file.length < MAX_KEY_LENGTH → param.length < MAX_KEY_LENGTH → param ≠ [] →
      ∀ v ∈ value, ¬ RunsCommand file (param.map upper) v

/-- A prefix that is too long is refused; any other one is cut, and what is behind it fits. -/
def NameFits (sub name : Bytes) (value : Option Bytes) : Prop :=
  sub.length < MAX_LINE_LENGTH + 2 → 2 ≤ sub.length ∧ ∀ t ∈ reached sub name, Fitting t value

/-- The value `mqtt_message_cb` takes of a payload. -/
def wolfValue (payload : Bytes) : Option Bytes :=
  if payload = [] ∨ MAX_VALUE_LENGTH - 1 < payload.length then none else some (cstr payload)

/-- The value `message_callback` takes of a payload. -/
def mosquittoValue (payload : Bytes) : Option Bytes :=
  if cstr payload = [] then none else some (cstr payload)

/-- **A message that stays in the buffers**: its topic is short enough, and it does not set a
    parameter that has a command. -/
def Small : Client → Bytes → Message → Prop
  | .wolf, sub, msg => msg.msgNew = 1 → msg.msgDone = 1 →
    msg.topic.length ≤ MAX_LINE_LENGTH ∧ (cstr msg.topic).length < MAX_LINE_LENGTH ∧
      NameFits sub (cstr msg.topic) (wolfValue msg.payload)
  | .mosquitto matched, sub, msg => matched = true →
    NameFits sub (cstr msg.topic) (mosquittoValue msg.payload)

theorem copyValue_eq (payload : Bytes) : copyValue payload = .ok (wolfValue payload) := by
  rw [copyValue, wolfValue]
  split
  · rfl
  · next h =>
    have hlength : payload.length < MAX_VALUE_LENGTH := by
      simp only [MAX_VALUE_LENGTH] at h ⊢
      omega
    rw [memcpy, if_pos ⟨hlength.le, (cstr_length_le payload).trans_lt hlength⟩]
    rfl

theorem topicBehind_ok_iff {r : Option Bytes} : topicBehind sub name = .ok r ↔
    (MAX_LINE_LENGTH + 2 ≤ sub.length ∧ none = r) ∨
      (2 ≤ sub.length ∧ sub.length < MAX_LINE_LENGTH + 2 ∧ reached sub name = r ∧
        ∀ t ∈ r, t.length < MAX_LINE_LENGTH) := by
  have hlen : ((sub.length : Int) - 2).toNat = sub.length - 2 := by omega
  simp only [topicBehind, hlen]
  by_cases hlong : MAX_LINE_LENGTH + 2 ≤ sub.length
  · rw [if_pos (by omega), Except.ok.injEq]
    exact ⟨fun h => .inl ⟨hlong, h⟩, fun h => h.elim And.right fun h => absurd h.2.1 (by omega)⟩
  · rw [if_neg (by omega), ok_bind_iff]
    simp only [strncpy_ok_iff, hlong, false_and, false_or, hlen]
    by_cases hshort : 2 ≤ sub.length
    · have hprefix : strncasecmp (sub.take (sub.length - 2)) name (sub.length - 2) =
          strncasecmp sub name (sub.length - 2) := by
        rw [strncasecmp, List.take_take, min_self, strncasecmp]
      have hfits : 0 ≤ (sub.length : Int) - 2 ∧ (sub.length : Int) - 2 ≤ Buffer.topicPrefix.size ∧
          (sub.take (sub.length - 2)).length < Buffer.topicPrefix.size := by
        simp only [List.length_take, Buffer.size]
        omega
      simp only [hfits, true_and, exists_eq_left', hprefix, hshort, Nat.not_le.mp hlong, reached,
        and_self]
      have hname : (name.length : Int) < (sub.length : Int) - 2 + 2 ↔
          name.length < sub.length - 2 + 2 := by omega
      simp only [hname]
      split
      · rw [pure_ok_iff]
        exact ⟨fun h => ⟨h, by simp [← h]⟩, And.left⟩
      · simp only [ok_bind_iff, strcpy_ok_iff, pure_ok_iff]
        constructor
        · rintro ⟨_, ⟨hfits, rfl⟩, rfl⟩
          exact ⟨rfl, fun t ht => Option.some.inj ht ▸ hfits⟩
        · rintro ⟨rfl, hfits⟩
          exact ⟨_, ⟨hfits _ rfl, rfl⟩, rfl⟩
    · constructor
      · rintro ⟨_, ⟨⟨h, -⟩, -⟩, -⟩
        omega
      · exact fun h => absurd h.1 hshort

theorem succeeds_handleTopic (hline : topic.length < MAX_LINE_LENGTH) :
    Succeeds (handleTopic topic payload (.ok value)) ↔ Fitting topic value := by
  unfold handleTopic
  split
  · next hcut =>
    have hslash := dropWhile_slash_eq_nil.mp hcut
    rw [succeeds_dump]
    constructor
    · intro hkey
      refine ⟨hline, fun _ => hkey, ?_⟩
      rintro file param rfl
      exact absurd (List.mem_append_right _ List.mem_cons_self) hslash
    · exact fun h => h.key hslash
  · next c behind hcut =>
    obtain ⟨htopic, hfile⟩ := cut_slash hcut
    have hfitting : Fitting topic value ↔
        ((topic.takeWhile (· != slash)).length < MAX_KEY_LENGTH ∧ behind.length < MAX_KEY_LENGTH ∧
          behind ≠ [] →
          ∀ v ∈ value, ¬ RunsCommand (topic.takeWhile (· != slash)) (behind.map upper) v) := by
      constructor
      · exact fun h hs => h.command _ _ htopic hfile hs.1 hs.2.1 hs.2.2
      · intro h
        have hslash : slash ∈ topic := htopic ▸ List.mem_append_right _ List.mem_cons_self
        refine ⟨hline, fun hno => absurd hslash hno, ?_⟩
        intro file param heq hno hf hp hne
        obtain ⟨rfl, rfl⟩ := sep_inj hfile hno (htopic.symm.trans heq)
        exact h ⟨hf, hp, hne⟩
    rw [hfitting, fileParam_eq, succeeds_bind]
    simp only [Except.ok.injEq, exists_eq_left']
    split
    · next hcut =>
      split at hcut
      · exact absurd hcut nofun
      · next hbounds => exact ⟨fun _ h => absurd h hbounds, fun _ => succeeds_pure⟩
    · next file param hcut =>
      split at hcut
      · next hbounds =>
        cases hcut
        simp only [succeeds_bind, Except.ok.injEq, exists_eq_left']
        cases value with
        | none => exact ⟨fun _ _ => nofun, fun _ => succeeds_pure⟩
        | some v =>
          rw [succeeds_setParam hbounds.1]
          exact ⟨fun h _ w hw => Option.some.inj hw ▸ h, fun h => h hbounds v rfl⟩
      · exact absurd hcut nofun

theorem succeeds_handle :
    Succeeds (handle sub name payload (.ok value)) ↔ NameFits sub name value := by
  simp only [handle, succeeds_bind, topicBehind_ok_iff]
  constructor
  · rintro ⟨r, ⟨hlong, -⟩ | ⟨hshort, -, rfl, hline⟩, hr⟩ hsub
    · omega
    · refine ⟨hshort, fun t ht => ?_⟩
      rw [ht] at hr
      exact (succeeds_handleTopic (hline t ht)).mp hr
  · intro h
    by_cases hsub : sub.length < MAX_LINE_LENGTH + 2
    · obtain ⟨hshort, hfits⟩ := h hsub
      refine ⟨reached sub name, .inr ⟨hshort, hsub, rfl, fun t ht => (hfits t ht).line⟩, ?_⟩
      split
      · exact succeeds_pure
      · next t ht => exact (succeeds_handleTopic (hfits t ht).line).mpr (hfits t ht)
    · exact ⟨none, .inl ⟨Nat.not_lt.mp hsub, rfl⟩, succeeds_pure⟩

/-- **Exactly the small messages stay in the buffers.** For every prefix and every message, with a
    topic and a payload of any length: every copy of the callback fits its buffer, zero byte and
    all, if and only if the topic is short enough and sets no parameter that has a command. -/
theorem copies_fit_iff (client : Client) (sub : Bytes) (msg : Message) :
    Succeeds (callback client sub msg) ↔ Small client sub msg := by
  cases client with
  | wolf =>
    simp only [callback, Copying.mqttMessageCb, copyValue_eq, Small]
    split
    · next h => exact ⟨fun _ hnew hdone => by simp [hnew, hdone] at h, fun _ => succeeds_ok⟩
    · next h =>
      simp only [not_or, not_not] at h
      have htake : (cstr msg.topic).take msg.topic.length = cstr msg.topic :=
        List.take_of_length_le (cstr_length_le msg.topic)
      simp only [succeeds_bind, strncpy_ok_iff, Int.toNat_natCast, htake, h, forall_const]
      constructor
      · rintro ⟨_, ⟨⟨-, hname, hterminated⟩, rfl⟩, hrest⟩
        exact ⟨Int.ofNat_le.mp hname, hterminated, succeeds_handle.mp hrest⟩
      · intro ⟨hname, hterminated, hrest⟩
        exact ⟨_, ⟨⟨Int.natCast_nonneg _, Int.ofNat_le.mpr hname, hterminated⟩, rfl⟩,
          succeeds_handle.mpr hrest⟩
  | mosquitto matched =>
    cases matched with
    | false => exact ⟨fun _ h => absurd h nofun, fun _ => succeeds_ok⟩
    | true => exact succeeds_handle.trans ⟨fun h _ => h, fun h => h rfl⟩

/-- **A setting with a command leaves its buffer**: the fourteen bytes of the entry for the LED go
    into the two of `ipc_cmd_param`. -/
theorem setting_overflows : ¬ ∀ (client : Client) (sub : Bytes) (msg : Message),
    Succeeds (callback client sub msg) := by
  intro h
  have herror : callback .wolf (ascii "yicam/cmnd/#")
      ⟨1, 1, ascii "yicam/cmnd/camera/LED", ascii "on"⟩ = .error .ipcCmdParam := by decide
  exact not_succeeds_error (herror ▸ h _ _ _)

end Messages

/-! ## 5. What runs within the buffers -/

section Within

variable {sub name payload dumped topic file param : Bytes} {value : Option Bytes} {e : Effect}

/-- The command line that goes to `system`. -/
def Effect.line : Effect → Option Bytes
  | .system line => some line
  | _ => none

/-- File and parameter of a topic behind the prefix. -/
def cutTopic (topic : Bytes) : Bytes × Option Bytes :=
  match topic.dropWhile (· != slash) with
  | [] => (topic, none)
  | _ :: param => (topic.takeWhile (· != slash), some param)

theorem subtopic_eq {r : Option Bytes} (h : topicBehind sub name = .ok r) :
    subtopic sub name = r.map cutTopic := by
  rcases topicBehind_ok_iff.mp h with ⟨hlong, rfl⟩ | ⟨hshort, hsub, rfl, -⟩
  · exact if_pos (.inl (by omega))
  · have hlen : ¬ MAX_LINE_LENGTH ≤ sub.length - 2 := by omega
    simp only [subtopic, reached, hlen, false_or]
    split
    · rfl
    · rw [Option.map_some, cutTopic]
      cases (name.drop (sub.length - 2 + 1)).dropWhile (· != slash) with
      | nil => rfl
      | cons c behind => rfl

theorem dump_line (hzero : 0 ∉ topic) (h : dump topic dumped = .ok e) : e.line =
    (if topic = [] ∨ dumped ≠ [] then none
      else some (⟨conf2mqtt, topic⟩ : Command)).map Command.line := by
  simp only [dump, ok_bind_iff, strcpy_ok_iff] at h
  obtain ⟨_, ⟨-, rfl⟩, h⟩ := h
  split at h
  · next hcond =>
    cases h
    rw [if_pos hcond]
    rfl
  · next hcond =>
    obtain ⟨_, hline, h⟩ := ok_bind_iff.mp h
    obtain ⟨-, rfl⟩ := strcpy_ok_iff.mp hline
    cases h
    have hscript : conf2mqtt = (CONF2MQTT_SCRIPT ++ [32]) ++ [37, 115] := by decide
    have hpercent : 37 ∉ CONF2MQTT_SCRIPT ++ [32] := by decide
    rw [if_neg hcond, Option.map_some, Command.line, cstr_eq_self_iff.mpr hzero, hscript,
      sprintf_append hpercent]
    show some (CONF2MQTT_SCRIPT ++ 32 :: topic) = some (CONF2MQTT_SCRIPT ++ [32] ++ (topic ++ []))
    rw [List.append_nil, List.append_assoc, List.singleton_append]

/-- A setting that stays in the buffers runs nothing. -/
theorem setParam_line (hfile : file.length < MAX_KEY_LENGTH)
    (h : setParam file (param.map upper) (cstr payload) = .ok e) :
    e.line = (applyParam file param payload).map Command.line := by
  have hquiet := (succeeds_setParam hfile).mp ⟨e, h⟩
  have hnone : applyParam file param payload = none := by
    unfold applyParam
    split
    · rfl
    · split
      · next hvalid =>
        split
        · rfl
        · next command hextract =>
          split
          · rfl
          · next hne => exact absurd ⟨hvalid, command, hextract, hne⟩ hquiet
      · rfl
  rw [hnone]
  unfold setParam at h
  split at h
  · cases h
    rfl
  · cases h
    rfl
  · next hvalid =>
    split at h
    · cases h
      rfl
    · next command hextract =>
      have hempty : command = [] := by
        by_contra hne
        exact hquiet ⟨hvalid, command, hextract, hne⟩
      subst hempty
      simp only [ok_bind_iff, strcpy_ok_iff] at h
      obtain ⟨_, ⟨-, rfl⟩, h⟩ := h
      rw [if_neg (not_not.mpr rfl)] at h
      obtain ⟨_, -, h⟩ := ok_bind_iff.mp h
      cases h
      rfl

/-- The command of a topic behind the prefix. -/
def topicCommand (dumped payload : Bytes) (value : Option Bytes) :
    Bytes × Option Bytes → Option Command
  | (file, none) => if file = [] ∨ dumped ≠ [] then none else some ⟨conf2mqtt, file⟩
  | (file, some param) => if value = none then none else applyParam file param payload

theorem handleTopic_line (hzero : 0 ∉ topic) (hvalue : ∀ v ∈ value, v = cstr payload)
    (h : handleTopic topic dumped (.ok value) = .ok e) :
    e.line = (topicCommand dumped payload value (cutTopic topic)).map Command.line := by
  unfold handleTopic at h
  rw [cutTopic]
  split at h
  · exact dump_line hzero h
  · next behind hcut =>
    simp only [topicCommand]
    rw [fileParam_eq] at h
    obtain ⟨_, hpair, h⟩ := ok_bind_iff.mp h
    cases hpair
    by_cases hbounds : (topic.takeWhile (· != slash)).length < MAX_KEY_LENGTH ∧
        behind.length < MAX_KEY_LENGTH ∧ behind ≠ []
    · rw [if_pos hbounds] at h
      cases value with
      | none =>
        cases h
        rfl
      | some v =>
        rw [hvalue v rfl] at h
        exact setParam_line hbounds.1 h
    · rw [if_neg hbounds] at h
      cases h
      have hnone : applyParam (topic.takeWhile (· != slash)) behind payload = none := by
        refine if_pos ?_
        by_contra hno
        simp only [not_or, Nat.not_le] at hno
        exact hbounds hno
      rw [hnone, ite_self]
      rfl

theorem handle_line (hzero : 0 ∉ name) (hvalue : ∀ v ∈ value, v = cstr payload)
    (h : handle sub name dumped (.ok value) = .ok e) :
    e.line = ((subtopic sub name).bind (topicCommand dumped payload value)).map Command.line := by
  obtain ⟨r, hr, h⟩ := ok_bind_iff.mp h
  rw [subtopic_eq hr]
  cases r with
  | none =>
    cases h
    rfl
  | some topic =>
    refine handleTopic_line (fun h0 => hzero ?_) hvalue h
    rcases topicBehind_ok_iff.mp hr with ⟨-, h⟩ | ⟨-, -, h, -⟩
    · exact absurd h nofun
    · simp only [reached] at h
      split at h
      · exact absurd h nofun
      · cases h
        exact List.mem_of_mem_drop h0

theorem mqttMessageCb_eq (sub topic payload : Bytes) : mqttMessageCb sub topic payload =
    (subtopic sub (cstr topic)).bind (topicCommand payload payload (wolfValue payload)) := by
  rw [mqttMessageCb]
  rcases subtopic sub (cstr topic) with - | ⟨file, - | param⟩
  · rfl
  · rfl
  · simp only [Option.bind_some, topicCommand, wolfValue]
    split <;> rfl

theorem messageCallback_eq (sub topic payload : Bytes) : messageCallback true sub topic payload =
    (subtopic sub (cstr topic)).bind
      (topicCommand (cstr payload) payload (mosquittoValue payload)) := by
  rw [messageCallback]
  rcases subtopic sub (cstr topic) with - | ⟨file, - | param⟩
  · rfl
  · rfl
  · simp only [Bool.not_true, Bool.false_eq_true, if_false, Option.bind_some, topicCommand,
      mosquittoValue]
    split <;> rfl

/-- **A callback that stays in its buffers runs what `systemCall` says**, for a message that came
    whole. -/
theorem callback_systemCall {client : Client} {msg : Message}
    (hwhole : msg.msgNew = 1 ∧ msg.msgDone = 1) (h : callback client sub msg = .ok e) :
    e.line = (systemCall client sub msg.topic msg.payload).map Command.line := by
  have hzero : 0 ∉ cstr msg.topic := by
    intro h0
    exact absurd (List.mem_takeWhile_imp h0) (by decide)
  cases client with
  | wolf =>
    simp only [callback, Copying.mqttMessageCb, copyValue_eq, hwhole, ne_eq, not_true_eq_false,
      or_self, if_false, ok_bind_iff, strncpy_ok_iff, Int.toNat_natCast,
      List.take_of_length_le (cstr_length_le msg.topic)] at h
    obtain ⟨_, ⟨-, rfl⟩, h⟩ := h
    rw [systemCall, mqttMessageCb_eq]
    refine handle_line hzero (fun v hv => ?_) h
    simp only [wolfValue] at hv
    split at hv
    · cases hv
    · exact (Option.some.inj hv).symm
  | mosquitto matched =>
    cases matched with
    | false =>
      cases h
      rfl
    | true =>
      rw [systemCall, messageCallback_eq]
      refine handle_line hzero (fun v hv => ?_) h
      simp only [mosquittoValue] at hv
      split at hv
      · cases hv
      · exact (Option.some.inj hv).symm

end Within

end YiHack.Mqtt
