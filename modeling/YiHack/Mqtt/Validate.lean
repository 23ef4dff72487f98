/-
  File:      YiHack/Mqtt/Validate.lean
  Subject:   `validate.c`: the table of parameters, the check of a value and the lookup of a template.

  `validate_param` compares the first nine characters of the key, `extract_param` the whole key. The
  table has one row less than `PARAM_NUM`: a key that is in none of them runs into a row of null
  pointers, where the comparison faults. A column of a row that is empty is left out at its end.
-/
import YiHack.General.Quoting

namespace YiHack.Mqtt

open General

/-! ## 1. The table -/

inductive Kind
  | bool
  | int
  | string
  | enum
  deriving DecidableEq

/-- A row of `config_params`: the columns 3 to 7 are the options, column 8 is the command. -/
structure Param where
  file : Bytes
  key : Bytes
  kind : Kind
  options : List Bytes
  command : Bytes
  deriving DecidableEq

def row (file key : String) (kind : Kind) (options : List String) (command : String) : Param :=
  ⟨ascii file, ascii key, kind, options.map ascii, ascii command⟩

def configParams : List Param :=
  [row "system" "HTTPD" .bool [] "",
    row "system" "TELNETD" .bool [] "",
    row "system" "SSHD" .bool [] "",
    row "system" "FTPD" .bool [] "",
    row "system" "BUSYBOX_FTPD" .bool [] "",
    row "system" "MDNSD" .bool [] "",
    row "system" "REC_WITHOUT_CLOUD" .bool [] "",
    row "system" "MQTT" .bool [] "",
    row "system" "RTSP" .bool [] "",
    row "system" "RTSP_ALT" .enum ["standard", "alternative", "go2rtc"] "",
    row "system" "RTSP_STREAM" .enum ["high", "low", "both"] "",
    row "system" "RTSP_AUDIO" .enum ["no", "pcm", "alaw", "ulaw", "aac"] "",
    row "system" "RTSP_AUDIO_NR_LEVEL" .int ["0", "30"] "",
    row "system" "SPEAKER_AUDIO" .bool [] "",
    row "system" "SNAPSHOT" .bool [] "",
    row "system" "SNAPSHOT_VIDEO" .bool [] "",
    row "system" "SNAPSHOT_LOW" .bool [] "",
    row "system" "TIMELAPSE" .bool [] "",
    row "system" "TIMELAPSE_FTP" .bool [] "",
    row "system" "TIMELAPSE_FTP_SAME_NAME" .bool [] "",
    row "system" "TIMELAPSE_DT" .int ["1", "1440"] "",
    row "system" "TIMELAPSE_VDT" .string ["1", "1440"] "",
    row "system" "ONVIF" .bool [] "",
    row "system" "ONVIF_WSDD" .bool [] "",
    row "system" "ONVIF_PROFILE" .enum ["high", "low", "both"] "",
    row "system" "ONVIF_WM_SNAPSHOT" .bool [] "",
    row "system" "ONVIF_NETIF" .string [] "",
    row "system" "ONVIF_AUDIO_BC" .enum ["NONE", "G711", "AAC"] "",
    row "system" "ONVIF_ENABLE_MEDIA2" .bool [] "",
    row "system" "ONVIF_FAULT_IF_UNKNOWN" .bool [] "",
    row "system" "ONVIF_SYNOLOGY_NVR" .bool [] "",
    row "system" "TIME_OSD" .bool [] "",
    row "system" "NTPD" .bool [] "",
    row "system" "NTP_SERVER" .string [] "",
    row "system" "PROXYCHAINSNG" .bool [] "",
    row "system" "SWAP_FILE" .bool [] "",
    row "system" "SWAP_SWAPPINESS" .int ["0", "100"] "",
    row "system" "RTSP_PORT" .int ["1", "65535"] "",
    row "system" "HTTPD_PORT" .int ["1", "65535"] "",
    row "system" "USERNAME" .string [] "",
    row "system" "PASSWORD" .string [] "",
    row "system" "TIMEZONE" .string [] "",
    row "system" "EVENTS_TIME" .enum ["autodetect", "local", "gmt"] "",
    row "system" "FREE_SPACE" .int ["0", "100"] "",
    row "system" "FTP_UPLOAD" .bool [] "",
    row "system" "FTP_HOST" .string [] "",
    row "system" "FTP_DIR" .string [] "",
    row "system" "FTP_DIR_TREE" .bool [] "",
    row "system" "FTP_USERNAME" .string [] "",
    row "system" "FTP_PASSWORD" .string [] "",
    row "system" "FTP_FILE_DELETE_AFTER_UPLOAD" .bool [] "",
    row "system" "SSH_PASSWORD" .string [] "",
    row "system" "CRONTAB" .string [] "",
    row "system" "DEBUG_LOG" .bool [] "",
    row "system" "STATIC_IP" .string [] "",
    row "system" "STATIC_MASK" .string [] "",
    row "system" "STATIC_GW" .string [] "",
    row "system" "STATIC_DNS1" .string [] "",
    row "system" "STATIC_DNS2" .string [] "",
    row "camera" "SWITCH_ON" .bool [] "ipc_cmd -t %s",
    row "camera" "SAVE_VIDEO_ON_MOTION" .bool [] "",
    row "camera" "MOTION_DETECTION" .bool [] "",
    row "camera" "MOTION_SENSITIVITY" .int ["1", "10"] "",
    row "camera" "BABY_CRYING_DETECT" .bool [] "ipc_cmd -B %s",
    row "camera" "LED" .bool [] "ipc_cmd -l %s",
    row "camera" "ROTATE" .bool [] "ipc_cmd -r %s",
    row "camera" "IR" .bool [] "ipc_cmd -i %s",
    row "camera" "SOUND_DETECTION" .bool [] "ipc_cmd -b %s",
    row "camera" "SOUND_SENSITIVITY" .int ["30", "90"] "ipc_cmd -n %s",
    row "camera" "CRUISE" .enum ["no", "presets", "360"] "ipc_cmd -C %s",
    row "ptz" "MOVE" .enum ["right", "left", "down", "up", "stop"]
      "QUERY_STRING=\"action=step&dir=%s\" /tmp/sd/yi-hack/www/cgi-bin/ptz.sh",
    row "ptz" "GOTO_PRESET" .int ["0", "7"]
      "/tmp/sd/yi-hack/script/ptz_presets.sh -a go_preset -n %s",
    row "ptz" "ADD_PRESET" .string [] "/tmp/sd/yi-hack/script/ptz_presets.sh -a add_preset -m %s",
    row "ptz" "SET_HOME_POSITION" .string []
      "/tmp/sd/yi-hack/script/ptz_presets.sh -a set_home_position",
    row "ptz" "REMOVE_PRESET" .int ["0", "7"]
      "/tmp/sd/yi-hack/script/ptz_presets.sh -a del_preset -n %s"]

/-- Rows, and the same rows with their bytes in place of the texts. -/
inductive SpelledRows : List Param → List Param → Prop
  | nil : SpelledRows [] []
  | cons {options : List String} {bytes : List Bytes} {ps qs : List Param}
      (file key : List Char) (kind : Kind) (command : List Char)
      (hoptions : Spelled options bytes) (h : SpelledRows ps qs) :
      SpelledRows
        (row (String.ofList file) (String.ofList key) kind options (String.ofList command) :: ps)
        (⟨file.map (fun c => UInt8.ofNat c.toNat), key.map (fun c => UInt8.ofNat c.toNat), kind,
          bytes, command.map (fun c => UInt8.ofNat c.toNat)⟩ :: qs)

theorem SpelledRows.eq {ps qs : List Param} (h : SpelledRows ps qs) : ps = qs := by
  induction h with
  | nil => rfl
  | cons file key kind command hoptions h ih =>
    rw [ih, row, ascii, ascii, ascii, String.toList_ofList, String.toList_ofList,
      String.toList_ofList, hoptions.map_ascii]

/-- What holds of the bytes holds of the rows. -/
theorem of_spelledRows {P : List Param → Prop} {ps qs : List Param} (h : SpelledRows ps qs)
    (hP : P qs) : P ps :=
  h.eq ▸ hP

/-! ## 2. The check -/

def PARAM_SIZE : Nat := 128

/-- `tolower`. -/
def lower (b : UInt8) : UInt8 := if 65 ≤ b ∧ b ≤ 90 then b + 32 else b

/-- `toupper`. -/
def upper (b : UInt8) : UInt8 := if 97 ≤ b ∧ b ≤ 122 then b - 32 else b

/-- `strcasecmp(s, t) == 0`. -/
def strcasecmp (s t : Bytes) : Bool := s.map lower == t.map lower

/-- `strncasecmp(s, t, n) == 0`. -/
def strncasecmp (s t : Bytes) (n : Nat) : Bool := strcasecmp (s.take n) (t.take n)

def isSpace (b : UInt8) : Bool := b == 32 || (9 ≤ b && b ≤ 13)

/-- `strtol` in base 10, and whether there was a number at all. A value out of range is out of every
    range of the table. -/
def strtol (s : Bytes) : Option Int :=
  let t := s.dropWhile isSpace
  let digits := if t.head? = some 45 ∨ t.head? = some 43 then t.tail else t
  let n := decimal (digits.takeWhile isDigit)
  if (digits.takeWhile isDigit).isEmpty then none
  else some (if t.head? = some 45 then -(n : Int) else n)

/-- The branches of `validate_param`. What follows a number is not looked at. -/
def Param.accepts (p : Param) (value : Bytes) : Bool :=
  match p.kind with
  | .bool => value == ascii "yes" || value == ascii "no" || value == ascii "on" || value == ascii "off"
  | .int =>
    match strtol (p.options.getD 0 []), strtol (p.options.getD 1 []), strtol value with
    | some low, some high, some n => decide (low ≤ n ∧ n ≤ high)
    | _, _, _ => false
  | .string => decide (value.length < PARAM_SIZE)
  | .enum => p.options.contains value

/-- `validate_param`: nothing where it faults. -/
def validateParam (file key value : Bytes) : Option Bool :=
  match configParams.find? fun p => strncasecmp key p.key 9 with
  | none => none
  | some p => some (strcasecmp file p.file && p.accepts value)

/-- `extract_param` of column 8: nothing where it fails or faults. -/
def extractParam (file key : Bytes) : Option Bytes :=
  match configParams.find? fun p => strcasecmp key p.key with
  | none => none
  | some p => if strcasecmp file p.file then some p.command else none

end YiHack.Mqtt
