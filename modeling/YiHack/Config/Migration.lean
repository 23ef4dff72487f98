/-
  File:      YiHack/Config/Migration.lean
  Subject:   The migration of `system.conf`, `camera.conf` and `mqttv4.conf` by `check_conf.sh`.

  A file that is not there is an empty one. A backchannel of the old ONVIF setting is taken over
  once, and ONVIF follows the backchannel from then on.

  * `migrateSystem`, `migrateCamera`, `migrateMqttv4` -- the edits, one after the other;
  * `Preserves` -- what they keep and what they add;
  * **`migration_preserves`** -- they do, where every line that is added gets a line of its own;
  * `onvif_taken_over` -- the backchannel of the old setting is not the default.
-/
import YiHack.General.LineEdit

namespace YiHack.Config

open General

/-! ## 1. The texts -/

def parms1 : List Bytes :=
  ["HTTPD=yes", "TELNETD=yes", "SSHD=yes", "FTPD=yes", "BUSYBOX_FTPD=no", "MDNSD=yes",
    "DISABLE_CLOUD=yes", "REC_WITHOUT_CLOUD=no", "MQTT=no", "RTSP=yes", "RTSP_ALT=standard",
    "RTSP_STREAM=high", "RTSP_AUDIO=aac", "RTSP_BACKCHANNEL=NONE", "RTSP_STI=yes",
    "SPEAKER_AUDIO=yes", "SNAPSHOT=yes", "SNAPSHOT_VIDEO=no", "SNAPSHOT_LOW=no", "TIMELAPSE=no",
    "TIMELAPSE_FTP=no", "TIMELAPSE_FTP_SAME_NAME=no", "TIMELAPSE_DT=60", "TIMELAPSE_VDT=",
    "ONVIF=yes", "ONVIF_WSDD=yes", "ONVIF_PROFILE=high", "ONVIF_NETIF=wlan0",
    "ONVIF_WM_SNAPSHOT=yes", "ONVIF_AUDIO_BC=NONE", "ONVIF_ENABLE_MEDIA2=no",
    "ONVIF_FAULT_IF_UNKNOWN=no", "ONVIF_FAULT_IF_SET=no", "ONVIF_SYNOLOGY_NVR=no", "TIME_OSD=no",
    "NTPD=yes", "MANUAL_TIME_EPOCH=", "NTP_SERVER=pool.ntp.org", "PROXYCHAINSNG=no",
    "SWAP_FILE=yes", "SWAP_SWAPPINESS=15", "WIFI_HOTSPOT_BOOT=no", "WIFI_HOTSPOT_PASSWORD=",
    "WIFI_HOTSPOT_SSID=", "WIFI_HOTSPOT_CHANNEL=6", "WIFI_RESET_HOTSPOT=yes",
    "WIFI_RECOVERY_MODE=hotspot", "WIFI_MAINTENANCE_ENABLED=no", "WIFI_MAINTENANCE_SSID=",
    "WIFI_MAINTENANCE_PASSWORD=", "WIFI_MAINTENANCE_GRACE=180", "RTSP_PORT=554", "HTTPD_PORT=80",
    "USERNAME=", "PASSWORD=", "TIMEZONE=", "EVENTS_TIME=autodetect", "FREE_SPACE=0",
    "FTP_UPLOAD=no", "FTP_HOST=", "FTP_DIR=", "FTP_DIR_TREE=no", "FTP_USERNAME=", "FTP_PASSWORD=",
    "FTP_FILE_DELETE_AFTER_UPLOAD=yes", "SSH_PASSWORD=", "CRONTAB=", "DEBUG_LOG=no", "STATIC_IP=",
    "STATIC_MASK=", "STATIC_GW=", "STATIC_DNS1=", "STATIC_DNS2="].map ascii

def parms2 : List Bytes :=
  ["SWITCH_ON=yes", "SAVE_VIDEO_ON_MOTION=yes", "MOTION_DETECTION=no", "MOTION_SENSITIVITY=5",
    "MOTION_CUSTOM=no", "MOTION_START_THRESHOLD=3.00", "MOTION_STOP_THRESHOLD=0.30",
    "MOTION_START_SAMPLES=3", "MOTION_STOP_DELAY=2000", "MOTION_POLL_INTERVAL=100",
    "MOTION_STOP_REQUIRE_ZERO=yes", "SOUND_DETECTION=no", "SOUND_SENSITIVITY=80", "LED=no",
    "ROTATE=no", "IR=yes", "NIGHTVISION_THRESHOLD=50", "CRUISE=no"].map ascii

def parms3 : List Bytes :=
  ["MQTT_IP=0.0.0.0", "MQTT_PORT=1883", "MQTT_TLS=0", "MQTT_CLIENT_ID=yi-cam", "MQTT_USER=",
    "MQTT_PASSWORD=", "MQTT_PREFIX=yicam", "TOPIC_BIRTH_WILL=status",
    "TOPIC_MOTION=motion_detection", "TOPIC_MOTION_IMAGE=motion_detection_image",
    "MOTION_IMAGE_DELAY=0.5", "TOPIC_MOTION_FILES=motion_files",
    "TOPIC_SOUND_DETECTION=sound_detection", "BIRTH_MSG=online", "WILL_MSG=offline",
    "MOTION_START_MSG=motion_start", "MOTION_STOP_MSG=motion_stop", "AI_HUMAN_DETECTION_MSG=human",
    "AI_VEHICLE_DETECTION_MSG=vehicle", "AI_ANIMAL_DETECTION_MSG=animal", "BABY_CRYING_MSG=crying",
    "SOUND_DETECTION_MSG=sound_detected", "MQTT_KEEPALIVE=120", "MQTT_QOS=1",
    "MQTT_RETAIN_BIRTH_WILL=1", "MQTT_RETAIN_MOTION=0", "MQTT_RETAIN_MOTION_IMAGE=0",
    "MQTT_RETAIN_MOTION_FILES=0", "MQTT_RETAIN_SOUND_DETECTION=0"].map ascii

/-- The motion controls that are removed. -/
def removed : List Bytes :=
  ["SENSITIVITY", "AI_HUMAN_DETECTION", "AI_VEHICLE_DETECTION", "AI_ANIMAL_DETECTION",
    "FACE_DETECTION", "MOTION_TRACKING"].map ascii

def rtspBackchannel : Bytes := ascii "RTSP_BACKCHANNEL"

def onvifAudioBc : Bytes := ascii "ONVIF_AUDIO_BC"

def disableCloud : Bytes := ascii "DISABLE_CLOUD"

def nightvisionMode : Bytes := ascii "NIGHTVISION_MODE"

def go2rtc : Bytes := ascii "RTSP_ALT=go2rtc"

/-- `case "$VALUE" in G711|g711)` -/
def backchannel (v : Bytes) : Bytes :=
  if v = ascii "G711" ∨ v = ascii "g711" then ascii "G711" else ascii "NONE"

/-- Every entry is a line `KEY=VALUE`, and the first with its key. -/
def IsTable (is : List Bytes) : Prop :=
  ∀ i ∈ is, (equals ∈ i ∧ newline ∉ i) ∧ is.find? (startsWith (cutName i)) = some i

/-- No default has the old server, and the cloud is disabled by default. -/
def Current (i : Bytes) : Prop :=
  i ≠ go2rtc ∧ (cutName i = disableCloud → i = disableCloud ++ equals :: ascii "yes")

/-- No default is removed again. -/
def Stays (i : Bytes) : Prop := cutName i ∉ removed ∧ cutName i ≠ nightvisionMode

theorem parms1_table : IsTable parms1 ∧ ∀ i ∈ parms1, Current i := by
  refine of_spelled (P := fun is => IsTable is ∧ ∀ i ∈ is, Current i) (by repeat constructor) ?_
  unfold IsTable Current
  decide

theorem parms2_table : IsTable parms2 ∧ ∀ i ∈ parms2, Stays i := by
  refine of_spelled (P := fun is => IsTable is ∧ ∀ i ∈ is, Stays i) (by repeat constructor) ?_
  unfold IsTable Stays
  decide

theorem parms3_table : IsTable parms3 := by
  refine of_spelled (P := IsTable) (by repeat constructor) ?_
  unfold IsTable
  decide

theorem IsTable.settings {is : List Bytes} (h : IsTable is) : ∀ i ∈ is, equals ∈ i ∧ newline ∉ i :=
  fun i hi => (h i hi).1

/-- The entries of the migrated keys. -/
theorem parms1_has : ascii "RTSP_BACKCHANNEL=NONE" ∈ parms1 ∧
    ascii "ONVIF_AUDIO_BC=NONE" ∈ parms1 ∧ ascii "DISABLE_CLOUD=yes" ∈ parms1 := by
  refine ⟨List.mem_map_of_mem ?_, List.mem_map_of_mem ?_, List.mem_map_of_mem ?_⟩ <;> simp

/-- A text for a key. -/
def IsName (k : Bytes) : Prop := equals ∉ k ∧ newline ∉ k

/-- What is decided about the texts of the script. -/
structure Texts : Prop where
  rtsp : IsName rtspBackchannel
  onvif : IsName onvifAudioBc
  cloud : IsName disableCloud
  mode : IsName nightvisionMode
  removed : ∀ k ∈ removed, equals ∉ k ∧ k ≠ nightvisionMode
  distinct : rtspBackchannel ≠ onvifAudioBc ∧ rtspBackchannel ≠ disableCloud ∧
    onvifAudioBc ≠ disableCloud
  entries : cutName (ascii "RTSP_BACKCHANNEL=NONE") = rtspBackchannel ∧
    cutName (ascii "ONVIF_AUDIO_BC=NONE") = onvifAudioBc ∧
    cutName (ascii "DISABLE_CLOUD=yes") = disableCloud
  server : keyOf (ascii "RTSP_ALT=standard") = keyOf go2rtc ∧
    ascii "RTSP_ALT=standard" ≠ go2rtc ∧ newline ∉ ascii "RTSP_ALT=standard"
  serverKey : keyOf go2rtc ≠ some rtspBackchannel ∧ keyOf go2rtc ≠ some onvifAudioBc ∧
    keyOf go2rtc ≠ some disableCloud
  values : ∀ v ∈ ["G711", "NONE", "yes", "off", "auto"].map ascii, newline ∉ v
  one : ∀ v ∈ ["G711", "NONE"].map ascii,
    backchannel (capture ((print [v]).filter (· != 0))) = v
  none : ascii "NONE" = 78 :: ascii "ONE"

theorem texts : Texts := by
  constructor <;> (try unfold IsName) <;> decide

/-! ## 2. The edits -/

/-- `grep -q '^KEY='` -/
def grep (k f : Bytes) : Bool := (lines f).any (startsWith k)

/-- `$(grep '^KEY=' | cut -d= -f2-)`: the shell drops zero bytes and the newlines at the end. -/
def valueOf (k : Bytes) (ls : List Bytes) : Bytes :=
  capture ((print ((ls.filter (startsWith k)).map cutValue)).filter (· != 0))

/-- A key gets a value, on every line that has it or on a new one. -/
def setKey (k v f : Bytes) : Bytes :=
  if grep k f then sed (fun l => some (put k v l)) f else append f (k ++ equals :: v)

/-- `sed 's/^RTSP_ALT=go2rtc$/RTSP_ALT=standard/'` -/
def standard (l : Bytes) : Bytes := if l = go2rtc then ascii "RTSP_ALT=standard" else l

/-- The migration of `system.conf`. -/
def migrateSystem (f : Bytes) : Bytes :=
  let f := if grep rtspBackchannel f then f
    else append f (rtspBackchannel ++ equals :: backchannel (valueOf onvifAudioBc (lines f)))
  let f := parms1.foldl appendMissing f
  let f := if (lines f).contains go2rtc then sed (fun l => some (standard l)) f else f
  let v := backchannel (valueOf rtspBackchannel (lines f))
  setKey disableCloud (ascii "yes") (setKey onvifAudioBc v (setKey rtspBackchannel v f))

/-- The old IR preference as a mode. -/
def irMode (f : Bytes) : Bytes :=
  if (lines f).contains (ascii "IR=no") then ascii "off" else ascii "auto"

/-- `sed -i "/^KEY=/d"` -/
def delete (f k : Bytes) : Bytes := sed (fun l => if startsWith k l then none else some l) f

/-- The migration of `camera.conf`. -/
def migrateCamera (f : Bytes) : Bytes :=
  let f := if grep nightvisionMode f then f
    else append f (nightvisionMode ++ equals :: irMode f)
  removed.foldl delete (parms2.foldl appendMissing f)

/-- The migration of `mqttv4.conf`. -/
def migrateMqttv4 (f : Bytes) : Bytes := parms3.foldl appendMissing f

/-- The three files. -/
structure Confs where
  system : Bytes
  camera : Bytes
  mqttv4 : Bytes
  deriving DecidableEq

def migrate (c : Confs) : Confs :=
  ⟨migrateSystem c.system, migrateCamera c.camera, migrateMqttv4 c.mqttv4⟩

theorem migrate_system (c : Confs) : (migrate c).system = migrateSystem c.system := by rw [migrate]

theorem migrate_camera (c : Confs) : (migrate c).camera = migrateCamera c.camera := by rw [migrate]

theorem migrate_mqttv4 (c : Confs) : (migrate c).mqttv4 = migrateMqttv4 c.mqttv4 := by rw [migrate]

/-! ## 3. What they keep and what they add -/

/-- Lines survive in their order, except the migrated ones; a default that was missing has one line
    of its own. -/
structure Preserves (migrated : Bytes → Bool) (defaults : List Bytes) (f f' : Bytes) : Prop where
  survive : ((lines f).filter fun l => !migrated l).Sublist (lines f')
  added : ∀ i ∈ defaults, grep (cutName i) f = false →
    (lines f').filter (startsWith (cutName i)) = [i]

/-- The lines of `system.conf` that are migrated. -/
def migratedSystem (l : Bytes) : Bool :=
  startsWith rtspBackchannel l || startsWith onvifAudioBc l || startsWith disableCloud l ||
    l == go2rtc

/-- The lines of `camera.conf` that are removed. -/
def migratedCamera (l : Bytes) : Bool := removed.any fun k => startsWith k l

/-- **Settings are preserved, with these defaults.** -/
structure PreservesAll (system camera mqttv4 : List Bytes) (c c' : Confs) : Prop where
  system : Preserves migratedSystem system c.system c'.system
  camera : Preserves migratedCamera camera c.camera c'.camera
  mqttv4 : Preserves (fun _ => false) mqttv4 c.mqttv4 c'.mqttv4

/-- The backchannel: the setting, or the old ONVIF one where there is none. -/
def chosen (f : Bytes) : Bytes :=
  backchannel (valueOf (if grep rtspBackchannel f then rtspBackchannel else onvifAudioBc) (lines f))

/-- The defaults of `system.conf`: RTSP and ONVIF have the same backchannel. -/
def systemDefaults (f : Bytes) : List Bytes :=
  parms1.map fun i => put onvifAudioBc (chosen f) (put rtspBackchannel (chosen f) i)

/-- The defaults of `camera.conf`, with the mode of the night vision. -/
def cameraDefaults (f : Bytes) : List Bytes := (nightvisionMode ++ equals :: irMode f) :: parms2

/-- What is added to the file gets lines of its own: it is closed, or nothing is added. -/
def Ready (defaults : List Bytes) (f : Bytes) : Prop := Closed f ∨ Complete defaults f

/-- Several backchannels, the first of them G711 and the others empty, are read as one. -/
def Repeated (f : Bytes) : Prop :=
  1 < ((lines f).filter (startsWith rtspBackchannel)).length ∧ chosen f = ascii "G711"

/-! ## 4. A backchannel -/

section Backchannel

variable {k v : Bytes} {f : Bytes} {ls ls' : List Bytes}

theorem backchannel_cases (v : Bytes) :
    backchannel v = ascii "G711" ∨ backchannel v = ascii "NONE" :=
  ite_eq_or_eq _ _ _

theorem newline_notMem_backchannel (v : Bytes) : newline ∉ backchannel v := by
  rcases backchannel_cases v with h | h <;> rw [h] <;> exact texts.values _ (by simp)

theorem valueOf_congr (h : ls.filter (startsWith k) = ls'.filter (startsWith k)) :
    valueOf k ls = valueOf k ls' := by
  rw [valueOf, valueOf, h]

/-- The value of one line. -/
theorem valueOf_single (hk : equals ∉ k)
    (h : ls.filter (startsWith k) = [k ++ equals :: backchannel v]) :
    backchannel (valueOf k ls) = backchannel v := by
  have hvalue : cutValue (k ++ equals :: backchannel v) = backchannel v := by
    rw [cutValue, cutKey_append hk]
  rw [valueOf, h, List.map_singleton, hvalue]
  rcases backchannel_cases v with hv | hv <;> rw [hv] <;> exact texts.one _ (by simp)

/-- A text begins with the first byte of its first line. -/
theorem head_none (h : ∀ l ∈ ls, l = ascii "NONE") :
    ∀ b ∈ ((print ls).filter (· != 0)).head?, b = 78 := by
  cases ls with
  | nil => nofun
  | cons l ls =>
    intro b hb
    have hl : l = 78 :: ascii "ONE" := (h l List.mem_cons_self).trans texts.none
    rw [print_cons, hl, List.cons_append, List.filter_cons_of_pos (by decide)] at hb
    exact (Option.some.inj hb).symm

/-- Lines without a backchannel have none together. -/
theorem valueOf_none (hk : equals ∉ k)
    (h : ∀ l ∈ ls.filter (startsWith k), l = k ++ equals :: ascii "NONE") :
    backchannel (valueOf k ls) = ascii "NONE" := by
  have hvalues : ∀ l ∈ (ls.filter (startsWith k)).map cutValue, l = ascii "NONE" := by
    intro l hl
    obtain ⟨l', hl', rfl⟩ := List.mem_map.mp hl
    rw [h l' hl', cutValue, cutKey_append hk]
  have hhead := head_none hvalues
  obtain ⟨u, hu⟩ : valueOf k ls <+: _ := List.rdropWhile_prefix (· == newline) _
  rw [← hu] at hhead
  rw [backchannel, if_neg]
  rintro (hv | hv)
  · exact absurd (hhead 71 (by rw [hv]; rfl)) (by decide)
  · exact absurd (hhead 103 (by rw [hv]; rfl)) (by decide)

end Backchannel

/-! ## 5. `system.conf` -/

section SystemConf

variable {f l k v : Bytes} {ls : List Bytes}

/-- The first line that may be added. -/
def takenOver (f : Bytes) : Bytes :=
  rtspBackchannel ++ equals :: backchannel (valueOf onvifAudioBc (lines f))

/-- The file with all that was missing. -/
def filledSystem (f : Bytes) : Bytes := (takenOver f :: parms1).foldl appendMissing f

theorem systemParms_settings (f : Bytes) :
    ∀ i ∈ takenOver f :: parms1, equals ∈ i ∧ newline ∉ i := by
  refine List.forall_mem_cons.mpr ⟨⟨by simp [takenOver], ?_⟩, parms1_table.1.settings⟩
  rw [takenOver, List.mem_append, List.mem_cons]
  exact not_or.mpr ⟨texts.rtsp.2, not_or.mpr ⟨by decide, newline_notMem_backchannel _⟩⟩

theorem Ready.system (h : Ready parms1 f) : Closed f ∨ Complete (takenOver f :: parms1) f := by
  refine h.imp_right fun hcomplete => List.forall_mem_cons.mpr ⟨?_, hcomplete⟩
  rw [takenOver, cutName_append texts.rtsp.1, ← texts.entries.1]
  exact hcomplete _ parms1_has.1

theorem filledSystem_append (h : Ready parms1 f) :
    ∃ new, lines (filledSystem f) = lines f ++ new := by
  rw [filledSystem, lines_appendMissing (fun i hi => (systemParms_settings f i hi).2) h.system]
  exact addMissing_append _ _

theorem filledSystem_filter (h : Ready parms1 f) (hk : equals ∉ k) :
    (lines (filledSystem f)).filter (startsWith k) =
      if grep k f then (lines f).filter (startsWith k)
      else ((takenOver f :: parms1).find? (startsWith k)).toList := by
  rw [filledSystem, lines_appendMissing (fun i hi => (systemParms_settings f i hi).2) h.system,
    filter_addMissing hk fun i hi => (systemParms_settings f i hi).1]
  rfl

theorem filledSystem_complete (h : Ready parms1 f) : Complete parms1 (filledSystem f) :=
  (List.forall_mem_cons.mp (complete_appendMissing (systemParms_settings f) h.system)).2

/-- What becomes of a line. -/
def rewriteSystem (v l : Bytes) : Bytes :=
  put disableCloud (ascii "yes") (put onvifAudioBc v (put rtspBackchannel v (standard l)))

theorem keyOf_standard (l : Bytes) : keyOf (standard l) = keyOf l := by
  rw [standard]
  split
  · next h => rw [h, texts.server.1]
  · rfl

theorem keyOf_rewriteSystem (v l : Bytes) : keyOf (rewriteSystem v l) = keyOf l := by
  rw [rewriteSystem, keyOf_put texts.cloud.1, keyOf_put texts.onvif.1, keyOf_put texts.rtsp.1,
    keyOf_standard]

theorem rewriteSystem_rtsp (h : keyOf l = some rtspBackchannel) :
    rewriteSystem v l = rtspBackchannel ++ equals :: v := by
  have hput : put rtspBackchannel v (standard l) = rtspBackchannel ++ equals :: v :=
    put_of_key texts.rtsp.1 ((keyOf_standard l).trans h)
  have hkey := keyOf_append texts.rtsp.1 v
  rw [rewriteSystem, hput, put_of_ne texts.onvif.1, put_of_ne texts.cloud.1] <;> rw [hkey]
  · exact mt Option.some.inj texts.distinct.2.1
  · exact mt Option.some.inj texts.distinct.1

theorem rewriteSystem_onvif (h : keyOf l = some onvifAudioBc) :
    rewriteSystem v l = onvifAudioBc ++ equals :: v := by
  have hput : put onvifAudioBc v (put rtspBackchannel v (standard l)) =
      onvifAudioBc ++ equals :: v := by
    refine put_of_key texts.onvif.1 ?_
    rw [keyOf_put texts.rtsp.1, keyOf_standard, h]
  have hkey := keyOf_append texts.onvif.1 v
  rw [rewriteSystem, hput, put_of_ne texts.cloud.1]
  rw [hkey]
  exact mt Option.some.inj texts.distinct.2.2

theorem rewriteSystem_cloud (h : keyOf l = some disableCloud) :
    rewriteSystem v l = disableCloud ++ equals :: ascii "yes" := by
  refine put_of_key texts.cloud.1 ?_
  rw [keyOf_put texts.onvif.1, keyOf_put texts.rtsp.1, keyOf_standard, h]

theorem rewriteSystem_other (hrtsp : keyOf l ≠ some rtspBackchannel)
    (honvif : keyOf l ≠ some onvifAudioBc) (hcloud : keyOf l ≠ some disableCloud) :
    rewriteSystem v l = standard l := by
  have hstandard := keyOf_standard l
  rw [rewriteSystem, put_of_ne texts.rtsp.1, put_of_ne texts.onvif.1, put_of_ne texts.cloud.1] <;>
    rwa [hstandard]

theorem standard_single (h : newline ∉ l) : newline ∉ standard l ∧ (l ≠ [] → standard l ≠ []) := by
  rw [standard]
  split
  · exact ⟨texts.server.2.2, fun _ => by simp [ascii]⟩
  · exact ⟨h, id⟩

theorem put_single (hk : newline ∉ k) (hv : newline ∉ v) (h : newline ∉ l) :
    newline ∉ put k v l ∧ (l ≠ [] → put k v l ≠ []) := by
  rw [put]
  split
  · rw [List.mem_append, List.mem_cons]
    exact ⟨not_or.mpr ⟨hk, not_or.mpr ⟨by decide, hv⟩⟩, fun _ => by simp⟩
  · exact ⟨h, id⟩

theorem lines_standard : lines (if (lines f).contains go2rtc then sed (fun l => some (standard l)) f
    else f) = (lines f).map standard := by
  by_cases hold : (lines f).contains go2rtc = true
  · rw [if_pos hold, lines_sed]
    · exact congrFun List.filterMap_eq_map (lines f)
    intro l hl l' hl'
    obtain rfl := Option.some.inj hl'
    exact standard_single (lines_single f l hl)
  · have hsame : ∀ l ∈ lines f, standard l = l := fun l hl => by
      refine if_neg fun heq => hold ?_
      exact List.contains_iff_mem.mpr (heq ▸ hl)
    rw [if_neg hold, List.map_congr_left hsame, List.map_id']

theorem lines_setKey (hk : newline ∉ k) (hv : newline ∉ v) (h : grep k f = true) :
    lines (setKey k v f) = (lines f).map (put k v) := by
  rw [setKey, if_pos h, lines_sed]
  · exact congrFun List.filterMap_eq_map (lines f)
  intro l hl l' hl'
  obtain rfl := Option.some.inj hl'
  exact put_single hk hv (lines_single f l hl)

/-- A key is found behind an edit that keeps the keys. -/
theorem grep_map {f' : Bytes} {g : Bytes → Bytes} (hk : equals ∉ k)
    (hg : ∀ l, keyOf (g l) = keyOf l) (h : lines f' = (lines f).map g) : grep k f' = grep k f := by
  rw [Bool.eq_iff_iff, grep, grep, any_iff_filter, any_iff_filter, h, filter_map_of_keyOf hk hg,
    ne_eq, List.map_eq_nil_iff]

/-- The backchannel that the file is given. -/
theorem backchannel_filled (h : Ready parms1 f) :
    backchannel (valueOf rtspBackchannel ((lines (filledSystem f)).map standard)) = chosen f := by
  have hmap : ((lines (filledSystem f)).map standard).filter (startsWith rtspBackchannel) =
      (lines (filledSystem f)).filter (startsWith rtspBackchannel) := by
    rw [filter_map_of_keyOf texts.rtsp.1 keyOf_standard]
    have hsame : ∀ l ∈ (lines (filledSystem f)).filter (startsWith rtspBackchannel),
        standard l = l := fun l hl => by
      refine if_neg fun heq => ?_
      have hstarts := List.of_mem_filter hl
      rw [heq, startsWith_iff texts.rtsp.1] at hstarts
      exact texts.serverKey.1 hstarts
    rw [List.map_congr_left hsame, List.map_id']
  have hfilter := filledSystem_filter h texts.rtsp.1
  rw [valueOf_congr hmap, chosen]
  by_cases hpresent : grep rtspBackchannel f = true
  · rw [if_pos hpresent] at hfilter ⊢
    rw [valueOf_congr hfilter]
  · have hfirst : startsWith rtspBackchannel (takenOver f) = true := startsWith_append _ _
    rw [if_neg hpresent, List.find?_cons_of_pos hfirst] at hfilter
    rw [if_neg hpresent]
    exact valueOf_single texts.rtsp.1 hfilter

theorem appendMissing_takenOver (f : Bytes) : appendMissing f (takenOver f) =
    if grep rtspBackchannel f then f else append f (takenOver f) := by
  have hname : cutName (takenOver f) = rtspBackchannel := cutName_append texts.rtsp.1 _
  rw [appendMissing, hname, grep]

/-- Every default is there, and the backchannel. -/
theorem grep_filled (h : Ready parms1 f) : grep rtspBackchannel (filledSystem f) = true ∧
    grep onvifAudioBc (filledSystem f) = true ∧ grep disableCloud (filledSystem f) = true := by
  have hcomplete := filledSystem_complete h
  exact ⟨texts.entries.1 ▸ hcomplete _ parms1_has.1, texts.entries.2.1 ▸ hcomplete _ parms1_has.2.1,
    texts.entries.2.2 ▸ hcomplete _ parms1_has.2.2⟩

/-- **The lines of the migrated file.** -/
theorem lines_migrateSystem (h : Ready parms1 f) :
    lines (migrateSystem f) = (lines (filledSystem f)).map (rewriteSystem (chosen f)) := by
  have hfill : parms1.foldl appendMissing (if grep rtspBackchannel f then f
      else append f (takenOver f)) = filledSystem f := by
    rw [← appendMissing_takenOver, filledSystem, List.foldl_cons]
  obtain ⟨hrtsp, honvif, hcloud⟩ := grep_filled h
  have hv : newline ∉ chosen f := newline_notMem_backchannel _
  have hyes : newline ∉ ascii "yes" := texts.values _ (by simp)
  rw [migrateSystem, ← takenOver, hfill]
  generalize hold : (if (lines (filledSystem f)).contains go2rtc then
    sed (fun l => some (standard l)) (filledSystem f) else filledSystem f) = f₁
  have h₁ : lines f₁ = (lines (filledSystem f)).map standard := hold ▸ lines_standard
  rw [h₁, backchannel_filled h]
  have h₂ := lines_setKey texts.rtsp.2 hv ((grep_map texts.rtsp.1 keyOf_standard h₁).trans hrtsp)
  generalize setKey rtspBackchannel (chosen f) f₁ = f₂ at h₂ ⊢
  rw [h₁, List.map_map] at h₂
  have hkey₂ : ∀ l, keyOf ((put rtspBackchannel (chosen f) ∘ standard) l) = keyOf l := fun l =>
    (keyOf_put texts.rtsp.1).trans (keyOf_standard l)
  have h₃ := lines_setKey texts.onvif.2 hv ((grep_map texts.onvif.1 hkey₂ h₂).trans honvif)
  generalize setKey onvifAudioBc (chosen f) f₂ = f₃ at h₃ ⊢
  rw [h₂, List.map_map] at h₃
  have hkey₃ : ∀ l, keyOf ((put onvifAudioBc (chosen f) ∘
      put rtspBackchannel (chosen f) ∘ standard) l) = keyOf l := fun l =>
    (keyOf_put texts.onvif.1).trans (hkey₂ l)
  rw [lines_setKey texts.cloud.2 hyes ((grep_map texts.cloud.1 hkey₃ h₃).trans hcloud), h₃,
    List.map_map]
  rfl

/-- A line that is not migrated stays as it is. -/
theorem rewriteSystem_kept (h : migratedSystem l = false) : rewriteSystem v l = l := by
  simp only [migratedSystem, Bool.or_eq_false_iff, beq_eq_false_iff_ne] at h
  have hne : ∀ k, equals ∉ k → startsWith k l = false → keyOf l ≠ some k := fun k hk hno heq =>
    absurd ((startsWith_iff hk).mpr heq) (by rw [hno]; decide)
  rw [rewriteSystem_other (hne _ texts.rtsp.1 h.1.1.1) (hne _ texts.onvif.1 h.1.1.2)
    (hne _ texts.cloud.1 h.1.2)]
  exact if_neg h.2

/-- A default behind all edits. -/
theorem rewriteSystem_default {i : Bytes} (hi : i ∈ parms1) : rewriteSystem v i =
    put onvifAudioBc v (put rtspBackchannel v i) := by
  obtain ⟨hcurrent, hcloud⟩ := parms1_table.2 i hi
  have hstandard : standard i = i := if_neg hcurrent
  have hname := keyOf_setting (parms1_table.1.settings i hi).1
  rw [rewriteSystem, hstandard]
  by_cases hkey : cutName i = disableCloud
  · have hself := hcloud hkey
    have hne : keyOf i ≠ some rtspBackchannel ∧ keyOf i ≠ some onvifAudioBc := by
      rw [hname, hkey]
      exact ⟨fun heq => texts.distinct.2.1 (Option.some.inj heq).symm,
        fun heq => texts.distinct.2.2 (Option.some.inj heq).symm⟩
    rw [put_of_ne texts.rtsp.1 hne.1, put_of_ne texts.onvif.1 hne.2,
      put_of_key texts.cloud.1 (hname.trans (congrArg some hkey)), ← hself]
  · refine put_of_ne texts.cloud.1 ?_
    rw [keyOf_put texts.onvif.1, keyOf_put texts.rtsp.1, hname]
    exact mt Option.some.inj hkey

/-- **`system.conf` keeps its settings.** -/
theorem preserves_system (h : Ready parms1 f) :
    Preserves migratedSystem (systemDefaults f) f (migrateSystem f) := by
  constructor
  · have hkept : ((lines f).filter fun l => !migratedSystem l).map (rewriteSystem (chosen f)) =
        (lines f).filter fun l => !migratedSystem l := by
      rw [List.map_congr_left fun l hl => rewriteSystem_kept (by simpa using List.of_mem_filter hl),
        List.map_id']
    obtain ⟨new, hnew⟩ := filledSystem_append h
    rw [lines_migrateSystem h, hnew, ← hkept]
    exact (List.filter_sublist.trans (List.sublist_append_left _ _)).map _
  · intro i hi hmissing
    obtain ⟨i₀, hi₀, rfl⟩ := List.mem_map.mp hi
    have hname := keyOf_setting (parms1_table.1.settings i₀ hi₀).1
    have hkey : cutName (put onvifAudioBc (chosen f) (put rtspBackchannel (chosen f) i₀)) =
        cutName i₀ := by
      refine cutName_of_keyOf ?_
      rw [keyOf_put texts.onvif.1, keyOf_put texts.rtsp.1, hname]
    have hk := equals_notMem_cutName i₀
    rw [hkey] at hmissing ⊢
    rw [lines_migrateSystem h, filter_map_of_keyOf hk (keyOf_rewriteSystem _),
      filledSystem_filter h hk, if_neg (by rw [hmissing]; decide)]
    by_cases hrtsp : cutName i₀ = rtspBackchannel
    · have hfirst : startsWith (cutName i₀) (takenOver f) = true := hrtsp ▸ startsWith_append _ _
      have htaken : keyOf (takenOver f) = some rtspBackchannel := keyOf_append texts.rtsp.1 _
      have hnew := keyOf_append texts.rtsp.1 (chosen f)
      rw [List.find?_cons_of_pos hfirst, Option.toList_some, List.map_singleton,
        rewriteSystem_rtsp htaken, put_of_key texts.rtsp.1 (hname.trans (congrArg some hrtsp)),
        put_of_ne texts.onvif.1]
      rw [hnew]
      exact mt Option.some.inj texts.distinct.1
    · have hfirst : ¬ startsWith (cutName i₀) (takenOver f) = true := by
        rw [startsWith_iff hk, takenOver, keyOf_append texts.rtsp.1]
        exact fun heq => hrtsp (Option.some.inj heq).symm
      rw [List.find?_cons_of_neg hfirst, (parms1_table.1 i₀ hi₀).2, Option.toList_some,
        List.map_singleton, rewriteSystem_default hi₀]

/-- The backchannel of the migrated file is the one it was given. -/
theorem backchannel_again (h : Ready parms1 f) (hone : ¬ Repeated f) :
    backchannel (valueOf rtspBackchannel (lines (migrateSystem f))) = chosen f := by
  have hlines : (lines (migrateSystem f)).filter (startsWith rtspBackchannel) =
      ((lines (filledSystem f)).filter (startsWith rtspBackchannel)).map
        fun _ => rtspBackchannel ++ equals :: chosen f := by
    rw [lines_migrateSystem h, filter_map_of_keyOf texts.rtsp.1 (keyOf_rewriteSystem _)]
    refine List.map_congr_left fun l hl => rewriteSystem_rtsp ?_
    exact (startsWith_iff texts.rtsp.1).mp (List.of_mem_filter hl)
  rcases backchannel_cases (valueOf (if grep rtspBackchannel f then rtspBackchannel
    else onvifAudioBc) (lines f)) with hv | hv <;> rw [← chosen] at hv
  · -- G711: there is one line
    have hlength : ((lines (filledSystem f)).filter (startsWith rtspBackchannel)).length = 1 := by
      have hfirst : startsWith rtspBackchannel (takenOver f) = true := startsWith_append _ _
      rw [filledSystem_filter h texts.rtsp.1]
      split
      · next hpresent =>
        have hne := List.length_pos_iff.mpr (any_iff_filter.mp hpresent)
        have hle := not_lt.mp fun hmany => hone ⟨hmany, hv⟩
        omega
      · rw [List.find?_cons_of_pos hfirst]
        rfl
    obtain ⟨l, hl⟩ := List.length_eq_one_iff.mp hlength
    rw [hl, List.map_singleton] at hlines
    exact valueOf_single texts.rtsp.1 hlines
  · rw [hv] at hlines ⊢
    refine valueOf_none texts.rtsp.1 fun l hl => ?_
    rw [hlines] at hl
    obtain ⟨-, -, rfl⟩ := List.mem_map.mp hl
    rfl

/-- **A second run changes nothing.** -/
theorem again_system (h : Ready parms1 f) (hone : ¬ Repeated f) :
    migrateSystem (migrateSystem f) = migrateSystem f := by
  have hlines := lines_migrateSystem h
  have hv := backchannel_again h hone
  have hkeys : ∀ k, equals ∉ k → grep k (migrateSystem f) = grep k (filledSystem f) := fun k hk =>
    grep_map hk (keyOf_rewriteSystem _) hlines
  obtain ⟨hrtsp, honvif, hcloud⟩ := grep_filled h
  have hcomplete : Complete parms1 (migrateSystem f) := fun i hi =>
    (hkeys _ (equals_notMem_cutName i)).trans (filledSystem_complete h i hi)
  have hset : ∀ k v, equals ∉ k → grep k (filledSystem f) = true →
      (∀ l, keyOf l = some k → rewriteSystem (chosen f) l = k ++ equals :: v) →
      setKey k v (migrateSystem f) = migrateSystem f := by
    intro k v hk hgrep hrewrite
    rw [setKey, if_pos ((hkeys k hk).trans hgrep)]
    refine sed_eq_self fun l hl => congrArg some ?_
    obtain ⟨l₀, -, rfl⟩ := List.mem_map.mp (hlines ▸ hl)
    by_cases hkey : keyOf l₀ = some k
    · rw [hrewrite l₀ hkey]
      exact put_of_key hk (keyOf_append hk v)
    · exact put_of_ne hk (keyOf_rewriteSystem (chosen f) l₀ ▸ hkey)
  have hold : ¬ (lines (migrateSystem f)).contains go2rtc = true := by
    rw [List.contains_iff_mem, hlines]
    intro hmem
    obtain ⟨l, -, hl⟩ := List.mem_map.mp hmem
    have hkey : keyOf l = keyOf go2rtc := by rw [← hl, keyOf_rewriteSystem]
    rw [rewriteSystem_other (hkey ▸ texts.serverKey.1) (hkey ▸ texts.serverKey.2.1)
      (hkey ▸ texts.serverKey.2.2), standard] at hl
    split at hl
    · exact texts.server.2.1 hl
    · next hne => exact hne hl
  rw [migrateSystem, if_pos ((hkeys _ texts.rtsp.1).trans hrtsp), appendMissing_complete hcomplete,
    if_neg hold, hv,
    hset _ _ texts.rtsp.1 hrtsp fun l => rewriteSystem_rtsp,
    hset _ _ texts.onvif.1 honvif fun l => rewriteSystem_onvif,
    hset _ _ texts.cloud.1 hcloud fun l => rewriteSystem_cloud]

end SystemConf

/-! ## 6. `camera.conf` and `mqttv4.conf` -/

section CameraConf

variable {f k : Bytes} {ks : List Bytes}

theorem cameraDefaults_table (f : Bytes) : IsTable (cameraDefaults f) := by
  have hirMode : newline ∉ irMode f := by
    rw [irMode]
    split <;> exact texts.values _ (by simp)
  have hname : cutName (nightvisionMode ++ equals :: irMode f) = nightvisionMode :=
    cutName_append texts.mode.1 _
  refine List.forall_mem_cons.mpr ⟨⟨⟨by simp, ?_⟩, ?_⟩, fun i hi => ?_⟩
  · rw [List.mem_append, List.mem_cons]
    exact not_or.mpr ⟨texts.mode.2, not_or.mpr ⟨by decide, hirMode⟩⟩
  · rw [hname]
    exact List.find?_cons_of_pos (startsWith_append _ _)
  · obtain ⟨hsetting, hfirst⟩ := parms2_table.1 i hi
    refine ⟨hsetting, ?_⟩
    rw [cameraDefaults, List.find?_cons_of_neg, hfirst]
    rw [startsWith_setting (equals_notMem_cutName i) (by simp), hname]
    exact Ne.symm (parms2_table.2 i hi).2

/-- The file with all that was missing. -/
def filledCamera (f : Bytes) : Bytes := (cameraDefaults f).foldl appendMissing f

theorem lines_delete (f k : Bytes) :
    lines (delete f k) = (lines f).filter fun l => !startsWith k l := by
  rw [delete, lines_sed]
  · induction lines f with
    | nil => rfl
    | cons l ls ih =>
      cases h : startsWith k l <;> simp [h, ih]
  · intro l hl l' hl'
    split at hl'
    · nomatch hl'
    · obtain rfl := Option.some.inj hl'
      exact ⟨lines_single f l hl, id⟩

theorem lines_deletes (ks : List Bytes) (f : Bytes) : lines (ks.foldl delete f) =
    (lines f).filter fun l => !ks.any fun k => startsWith k l := by
  induction ks generalizing f with
  | nil => simp
  | cons k ks ih =>
    rw [List.foldl_cons, ih, lines_delete, List.filter_filter]
    simp [Bool.and_comm]

/-- Keys that no line has are deleted nowhere. -/
theorem deletes_self (h : ∀ k ∈ ks, ∀ l ∈ lines f, startsWith k l = false) :
    ks.foldl delete f = f := by
  induction ks with
  | nil => exact List.foldl_nil
  | cons k ks ih =>
    obtain ⟨hk, hks⟩ := List.forall_mem_cons.mp h
    have hself : delete f k = f :=
      sed_eq_self fun l hl => if_neg (by rw [hk l hl]; decide)
    rw [List.foldl_cons, hself, ih hks]

theorem migrateCamera_eq (f : Bytes) : migrateCamera f = removed.foldl delete (filledCamera f) := by
  have hname : cutName (nightvisionMode ++ equals :: irMode f) = nightvisionMode :=
    cutName_append texts.mode.1 _
  rw [migrateCamera, filledCamera, cameraDefaults, List.foldl_cons, appendMissing, hname, grep]

theorem lines_migrateCamera (f : Bytes) :
    lines (migrateCamera f) = (lines (filledCamera f)).filter fun l => !migratedCamera l := by
  rw [migrateCamera_eq, lines_deletes]
  rfl

/-- A line of a default is not removed. -/
theorem not_migratedCamera {i l : Bytes} (hi : i ∈ cameraDefaults f)
    (hl : startsWith (cutName i) l = true) : migratedCamera l = false := by
  have hname : cutName i ∉ removed := by
    rcases List.mem_cons.mp hi with hmode | hi
    · rw [hmode, cutName_append texts.mode.1]
      exact fun hmem => (texts.removed _ hmem).2 rfl
    · exact (parms2_table.2 i hi).1
  rw [migratedCamera, List.any_eq_false]
  intro k hk hstarts
  have hkey := (startsWith_iff (equals_notMem_cutName i)).mp hl
  rw [(startsWith_iff (texts.removed k hk).1).mp hstarts] at hkey
  exact hname (Option.some.inj hkey ▸ hk)

/-- What is there for a default stays. -/
theorem filter_migrateCamera {i : Bytes} (hi : i ∈ cameraDefaults f) :
    (lines (migrateCamera f)).filter (startsWith (cutName i)) =
      (lines (filledCamera f)).filter (startsWith (cutName i)) := by
  rw [lines_migrateCamera, List.filter_filter]
  refine List.filter_congr fun l _ => ?_
  cases hl : startsWith (cutName i) l with
  | false => rfl
  | true => rw [not_migratedCamera hi hl]; rfl

theorem lines_filledCamera (h : Ready (cameraDefaults f) f) :
    lines (filledCamera f) = (cameraDefaults f).foldl addMissing (lines f) :=
  lines_appendMissing (fun i hi => ((cameraDefaults_table f).settings i hi).2) h

/-- **`camera.conf` keeps its settings.** -/
theorem preserves_camera (h : Ready (cameraDefaults f) f) :
    Preserves migratedCamera (cameraDefaults f) f (migrateCamera f) := by
  constructor
  · obtain ⟨new, hnew⟩ := addMissing_append (lines f) (cameraDefaults f)
    rw [lines_migrateCamera, lines_filledCamera h, hnew]
    exact (List.sublist_append_left _ _).filter _
  · intro i hi hmissing
    have htable := cameraDefaults_table f
    rw [filter_migrateCamera hi, lines_filledCamera h, filter_addMissing (equals_notMem_cutName i)
      fun i hi => (htable.settings i hi).1, (htable i hi).2]
    rw [grep] at hmissing
    rw [hmissing]
    rfl

/-- **A second run changes nothing.** -/
theorem again_camera (h : Ready (cameraDefaults f) f) :
    migrateCamera (migrateCamera f) = migrateCamera f := by
  have hfilled : Complete (cameraDefaults f) (filledCamera f) :=
    complete_appendMissing (cameraDefaults_table f).settings h
  have hgrep : ∀ i ∈ cameraDefaults f, grep (cutName i) (migrateCamera f) = true := by
    intro i hi
    rw [grep, any_iff_filter, filter_migrateCamera hi, ← any_iff_filter]
    exact hfilled i hi
  have hcomplete : Complete (cameraDefaults (migrateCamera f)) (migrateCamera f) := by
    refine List.forall_mem_cons.mpr ⟨?_, fun i hi => hgrep i (List.mem_cons_of_mem _ hi)⟩
    have hmode := hgrep (nightvisionMode ++ equals :: irMode f) List.mem_cons_self
    rw [cutName_append texts.mode.1] at hmode ⊢
    exact hmode
  have hkept : ∀ l ∈ lines (migrateCamera f), ∀ k ∈ removed, startsWith k l = false := by
    intro l hl k hk
    rw [lines_migrateCamera] at hl
    have hno := List.of_mem_filter hl
    rw [Bool.not_eq_true', migratedCamera, List.any_eq_false] at hno
    exact Bool.eq_false_iff.mpr (hno k hk)
  rw [migrateCamera_eq, filledCamera, appendMissing_complete hcomplete]
  exact deletes_self fun k hk l hl => hkept l hl k hk

end CameraConf

section Mqttv4Conf

variable {f : Bytes}

/-- **`mqttv4.conf` keeps its settings.** -/
theorem preserves_mqttv4 (h : Ready parms3 f) :
    Preserves (fun _ => false) parms3 f (migrateMqttv4 f) := by
  have hlines : lines (migrateMqttv4 f) = parms3.foldl addMissing (lines f) :=
    lines_appendMissing (fun i hi => (parms3_table.settings i hi).2) h
  constructor
  · obtain ⟨new, hnew⟩ := addMissing_append (lines f) parms3
    rw [hlines, hnew]
    exact List.filter_sublist.trans (List.sublist_append_left _ _)
  · intro i hi hmissing
    rw [hlines, filter_addMissing (equals_notMem_cutName i)
      fun i hi => (parms3_table.settings i hi).1, (parms3_table i hi).2]
    rw [grep] at hmissing
    rw [hmissing]
    rfl

theorem again_mqttv4 (h : Ready parms3 f) : migrateMqttv4 (migrateMqttv4 f) = migrateMqttv4 f :=
  appendMissing_complete (complete_appendMissing parms3_table.settings h)

end Mqttv4Conf

/-! ## 7. The three files -/

/-- **Settings are preserved** where every line that is added gets a line of its own; and a second
    run changes nothing, unless several backchannels were read as one. -/
theorem migration_preserves (c : Confs) (hsystem : Ready parms1 c.system)
    (hcamera : Ready (cameraDefaults c.camera) c.camera) (hmqttv4 : Ready parms3 c.mqttv4) :
    PreservesAll (systemDefaults c.system) (cameraDefaults c.camera) parms3 c (migrate c) ∧
      (¬ Repeated c.system → migrate (migrate c) = migrate c) := by
  refine ⟨⟨?_, ?_, ?_⟩, fun hone => ?_⟩
  · rw [migrate_system]
    exact preserves_system hsystem
  · rw [migrate_camera]
    exact preserves_camera hcamera
  · rw [migrate_mqttv4]
    exact preserves_mqttv4 hmqttv4
  rw [migrate, migrate_system, migrate_camera, migrate_mqttv4, again_system hsystem hone,
    again_camera hcamera, again_mqttv4 hmqttv4, migrate]

/-- The backchannel of an old ONVIF setting. -/
def oldOnvif : Confs := ⟨ascii "ONVIF_AUDIO_BC=G711\n", [], []⟩

theorem oldOnvif_preserves :
    PreservesAll (systemDefaults oldOnvif.system) (cameraDefaults oldOnvif.camera) parms3 oldOnvif
      (migrate oldOnvif) ∧ migrate (migrate oldOnvif) = migrate oldOnvif := by
  have h := migration_preserves oldOnvif (.inl (by unfold Closed; decide))
    (.inl (by unfold Closed; decide)) (.inl (by unfold Closed; decide))
  exact ⟨h.1, h.2 fun hmany => absurd hmany.1 (by decide)⟩

/-- **The backchannel that is taken over is not the default.** -/
theorem onvif_taken_over : ¬ ∀ c : Confs, PreservesAll parms1 parms2 parms3 c (migrate c) ∧
    migrate (migrate c) = migrate c := by
  intro h
  have hadded := (h oldOnvif).1.system.added _ parms1_has.1 (by decide)
  have hready : Ready parms1 oldOnvif.system := .inl (by unfold Closed; decide)
  have hmem : ascii "RTSP_BACKCHANNEL=NONE" ∈ lines (migrate oldOnvif).system :=
    List.mem_of_mem_filter (hadded ▸ List.mem_singleton_self _)
  rw [migrate_system, lines_migrateSystem hready] at hmem
  obtain ⟨l, -, hl⟩ := List.mem_map.mp hmem
  have hkey : keyOf l = some rtspBackchannel := by
    rw [← keyOf_rewriteSystem (chosen oldOnvif.system), hl]
    decide
  rw [rewriteSystem_rtsp hkey] at hl
  exact absurd hl (by decide)

end YiHack.Config
