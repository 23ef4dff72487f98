/-
  File:      YiHack/Ftp/Upload.lean
  Subject:   `ftppush.sh`: `uploadToFtp`, and the files, settings and destination it works on.

  A path is what its suffix makes it: a recording, its receipt, the receipt being written, its
  thumbnail. Files may change while an upload runs (`UploadEnv`); what `ftpput` sends is then up to
  the environment, and the file's content otherwise. Everything the queue does to the outside is
  kept in a log.
-/
import YiHack.General.Bytes
import Mathlib.Logic.Function.Basic

namespace YiHack.Ftp

open General

/-! ## 1. Paths and settings -/

/-- A file under the record folder, by what is before its suffix. -/
inductive Path
  | recording (stem : Bytes)
  | receipt (stem : Bytes)
  | receiptTmp (stem : Bytes)
  | thumbnail (stem : Bytes)
  deriving DecidableEq

/-- `stem.mp4`, the name of a recording. -/
def recordingName (stem : Bytes) : Bytes := stem ++ ascii ".mp4"

/-- The full name of a path. -/
def Path.name : Path → Bytes
  | .recording stem => recordingName stem
  | .receipt stem => recordingName stem ++ ascii ".ftp-uploaded"
  | .receiptTmp stem => recordingName stem ++ ascii ".ftp-uploaded.tmp"
  | .thumbnail stem => stem ++ ascii ".jpg"

/-- What `get_config` reads: every value that stands in the file under the key, one to a line. -/
structure Settings where
  host : Bytes
  dir : Bytes
  dirTree : Bytes
  username : Bytes
  password : Bytes
  deleteAfterUpload : Bytes
  deriving DecidableEq

/-- The settings name the same destination. -/
def SameDestination (a b : Settings) : Prop :=
  a.host = b.host ∧ a.dir = b.dir ∧ a.dirTree = b.dirTree ∧ a.username = b.username

/-- The keys that name the destination stand in the file once. -/
def Settings.OneLine (σ : Settings) : Prop :=
  ∀ v ∈ [σ.host, σ.dir, σ.dirTree, σ.username], (10 : UInt8) ∉ v

instance (σ : Settings) : Decidable σ.OneLine := inferInstanceAs (Decidable (∀ v ∈ _, _))

/-- `/`. -/
def slash : UInt8 := 47

/-- `lbasename`, and `${1##*/}`. -/
def lbasename (s : Bytes) : Bytes := (s.reverse.takeWhile (· ≠ slash)).reverse

/-- `${1%/*}`. -/
def parentDir (s : Bytes) : Bytes :=
  if slash ∈ s then ((s.reverse.dropWhile (· ≠ slash)).drop 1).reverse else s

/-- The path `ftpput` stores the file `name` under. -/
def remotePath (σ : Settings) (name : Bytes) : Bytes :=
  let ftpDirHour := lbasename (parentDir name)
  let ftpDir := if σ.dir ≠ [] then σ.dir ++ [slash] else σ.dir
  if σ.dirTree = ascii "yes" then
    let ftpDirHour := if ftpDirHour ≠ [] then ftpDirHour ++ [slash] else ftpDirHour
    ftpDir ++ ftpDirHour ++ lbasename name
  else ftpDir ++ lbasename name

/-! ## 2. The world -/

/-- What the queue does to the outside. -/
inductive Event
  /-- `uploadToFtp` is called for a recording with this content and this receipt. -/
  | attempted (σ : Settings) (stem content : Bytes) (receipt : Option Bytes)
  /-- `ftpput` has stored this content. -/
  | uploaded (σ : Settings) (stem content : Bytes)
  /-- A receipt is in place. -/
  | receipted (stem text : Bytes)
  /-- A recording with this content is deleted. -/
  | deleted (σ : Settings) (stem content : Bytes)
  deriving DecidableEq

abbrev Files := Path → Option Bytes

/-- Files on the card, files at the destinations (host, user, path), settings, and the log. -/
structure World where
  files : Files
  remote : Bytes × Bytes × Bytes → Option Bytes
  settings : Settings
  log : List Event

/-- A file created or replaced, or removed. -/
abbrev Edit := Path × Option Bytes

def applyEdits (files : Files) (edits : List Edit) : Files :=
  edits.foldl (fun f e => Function.update f e.1 e.2) files

/-- The content of `p` stays what it is over all the edits. -/
def Steady (files : Files) (p : Path) : List Edit → Prop
  | [] => True
  | e :: es => Function.update files e.1 e.2 p = files p ∧
      Steady (Function.update files e.1 e.2) p es

instance decidableSteady (files : Files) (p : Path) (edits : List Edit) :
    Decidable (Steady files p edits) :=
  match edits with
  | [] => isTrue trivial
  | e :: es =>
    have := decidableSteady (Function.update files e.1 e.2) p es
    inferInstanceAs (Decidable (_ ∧ _))

/-! ## 3. uploadToFtp -/

/-- What happens while an upload runs: edits before and during the transfer, what is sent of a
    file that changes under it, whether `ftpput` succeeds in time, and what a failing one leaves
    at the destination. -/
structure UploadEnv where
  before : List Edit
  during : List Edit
  torn : Bytes
  ok : Bool
  partial_ : Option (Option Bytes)

/-- The script's constant. -/
def SKIP_UPLOAD_TO_FTP : Bytes := ascii "0"

/-- `uploadToFtp`: whether it returns 0, and the world then. -/
def uploadToFtp (w : World) (stem : Bytes) (env : UploadEnv) : Bool × World :=
  if SKIP_UPLOAD_TO_FTP = ascii "1" then (false, w)
  else
    let σ := w.settings
    -- the directories are made at the destination in the meantime
    let w := { w with files := applyEdits w.files env.before }
    match w.files (.recording stem) with
    | none => (false, w)
    | some content =>
      let sent := if Steady w.files (.recording stem) env.during then content else env.torn
      let key := (σ.host, σ.username, remotePath σ (recordingName stem))
      let w := { w with files := applyEdits w.files env.during }
      if env.ok then
        (true, { w with
          remote := Function.update w.remote key (some sent)
          log := w.log ++ [.uploaded σ stem sent] })
      else
        match env.partial_ with
        | none => (false, w)
        | some left => (false, { w with remote := Function.update w.remote key left })

/-! ## 4. Edits and uploads -/

@[simp] theorem applyEdits_nil (files : Files) : applyEdits files [] = files := rfl

theorem applyEdits_append (files : Files) (a b : List Edit) :
    applyEdits files (a ++ b) = applyEdits (applyEdits files a) b := List.foldl_append

theorem Steady.append {files : Files} {p : Path} {a b : List Edit} (h : Steady files p (a ++ b)) :
    applyEdits files a p = files p ∧ Steady (applyEdits files a) p b := by
  induction a generalizing files with
  | nil => exact ⟨rfl, h⟩
  | cons e a ih =>
    obtain ⟨he, h⟩ := h
    obtain ⟨hp, hb⟩ := ih h
    exact ⟨hp.trans he, hb⟩

/-- What holds of a path and is not changed by any edit holds after all of them. -/
theorem applyEdits_keeps {P : Option Bytes → Prop} {p : Path} {edits : List Edit}
    (h : ∀ e ∈ edits, e.1 = p → P e.2) {files : Files} (hp : P (files p)) :
    P (applyEdits files edits p) := by
  induction edits generalizing files with
  | nil => exact hp
  | cons e es ih =>
    refine ih (fun x hx => h x (List.mem_cons_of_mem e hx)) ?_
    show P (Function.update files e.1 e.2 p)
    by_cases he : e.1 = p
    · subst he
      rw [Function.update_self]
      exact h e List.mem_cons_self rfl
    · rw [Function.update_of_ne fun hh => he hh.symm]
      exact hp

/-- What an upload leaves. -/
structure Uploaded (w : World) (stem : Bytes) (env : UploadEnv) (ok : Bool) (w' : World) :
    Prop where
  settings : w'.settings = w.settings
  /-- Files change by some of the edits alone. -/
  files : ∃ edits, (∀ e ∈ edits, e ∈ env.before ++ env.during) ∧
    w'.files = applyEdits w.files edits
  /-- Only the file's own path at the destination changes. -/
  remote : ∀ key, key ≠ (w.settings.host, w.settings.username,
    remotePath w.settings (recordingName stem)) → w'.remote key = w.remote key
  /-- At the destination something changes only for a file that was there. -/
  present : w'.remote ≠ w.remote →
    applyEdits w.files env.before (.recording stem) ≠ none
  log : ok = false → w'.log = w.log
  /-- A transfer that succeeds went through all edits and stored what it sent. -/
  sent : ok = true → w'.files = applyEdits w.files (env.before ++ env.during) ∧
    ∃ content, w'.log = w.log ++ [.uploaded w.settings stem content] ∧
      w'.remote (w.settings.host, w.settings.username,
        remotePath w.settings (recordingName stem)) = some content ∧
      (Steady w.files (.recording stem) (env.before ++ env.during) →
        w.files (.recording stem) = some content)

theorem uploadToFtp_spec (w : World) (stem : Bytes) (env : UploadEnv) :
    Uploaded w stem env (uploadToFtp w stem env).1 (uploadToFtp w stem env).2 := by
  have hskip : ¬ SKIP_UPLOAD_TO_FTP = ascii "1" := by decide
  unfold uploadToFtp
  rw [if_neg hskip]
  simp only
  split
  · exact {
      settings := rfl
      files := ⟨env.before, fun e he => List.mem_append_left _ he, rfl⟩
      remote := fun _ _ => rfl
      present := fun h => absurd rfl h
      log := fun _ => rfl
      sent := nofun }
  · rename_i content hcontent
    have hall : applyEdits (applyEdits w.files env.before) env.during =
        applyEdits w.files (env.before ++ env.during) := (applyEdits_append _ _ _).symm
    have hpresent : applyEdits w.files env.before (.recording stem) ≠ none := by
      rw [hcontent]
      nofun
    split
    · exact {
        settings := rfl
        files := ⟨env.before ++ env.during, fun e he => he, hall⟩
        remote := fun key hkey => Function.update_of_ne hkey _ _
        present := fun _ => hpresent
        log := nofun
        sent := fun _ => ⟨hall, _, rfl, Function.update_self _ _ _, fun hs => by
          obtain ⟨hb, hd⟩ := hs.append
          rw [if_pos hd, ← hb, hcontent]⟩ }
    · split
      · exact {
          settings := rfl
          files := ⟨env.before ++ env.during, fun e he => he, hall⟩
          remote := fun _ _ => rfl
          present := fun h => absurd rfl h
          log := fun _ => rfl
          sent := nofun }
      · exact {
          settings := rfl
          files := ⟨env.before ++ env.during, fun e he => he, hall⟩
          remote := fun key hkey => Function.update_of_ne hkey _ _
          present := fun _ => hpresent
          log := fun _ => rfl
          sent := nofun }

/-- Settings that only differ in the password or the deletion name the same destination. -/
theorem SameDestination.symm {a b : Settings} (h : SameDestination a b) : SameDestination b a :=
  ⟨h.1.symm, h.2.1.symm, h.2.2.1.symm, h.2.2.2.symm⟩

end YiHack.Ftp
