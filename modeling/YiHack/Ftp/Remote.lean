/-
  File:      YiHack/Ftp/Remote.lean
  Subject:   What is left at the destination.

  * `remotePath_eq_iff` -- when two recordings are stored under one path: with a directory tree
    never, without one when their base names agree;
  * `remote_kept` -- where all paths differ, what was deleted locally is still at the destination
    after any number of scans;
  * `flat_loses` -- without a tree the second of two recordings replaces the first.
-/
import YiHack.Ftp.QueueSafe
import Mathlib.Data.Set.Function

namespace YiHack.Ftp

open General

/-! ## 1. Recordings in hour directories -/

/-- The script's constant. -/
def FOLDER_TO_WATCH : Bytes := ascii "/tmp/sd/record"

/-- A recording in an hour directory under the record folder; `base` is without its suffix. -/
@[ext] structure Recording where
  hour : Bytes
  base : Bytes
  hour_ne : hour ≠ []
  hour_slash : slash ∉ hour
  base_slash : slash ∉ base

/-- The full name, without its suffix. -/
def Recording.stem (r : Recording) : Bytes :=
  FOLDER_TO_WATCH ++ [slash] ++ r.hour ++ [slash] ++ r.base

theorem lbasename_append {a b : Bytes} (hb : slash ∉ b) : lbasename (a ++ [slash] ++ b) = b := by
  unfold lbasename
  rw [List.reverse_append, List.reverse_append, List.takeWhile_append_of_pos]
  · simp
  · intro x hx
    exact decide_eq_true fun h => hb (h ▸ List.mem_reverse.mp hx)

theorem parentDir_append {a b : Bytes} (hb : slash ∉ b) : parentDir (a ++ [slash] ++ b) = a := by
  unfold parentDir
  rw [if_pos (by simp), List.reverse_append, List.reverse_append, List.dropWhile_append_of_pos]
  · simp
  · intro x hx
    exact decide_eq_true fun h => hb (h ▸ List.mem_reverse.mp hx)

/-- What a directory of its own adds to a remote path. -/
theorem remotePath_stem (σ : Settings) (r : Recording) :
    remotePath σ (recordingName r.stem) =
      (if σ.dir ≠ [] then σ.dir ++ [slash] else σ.dir) ++
        ((if σ.dirTree = ascii "yes" then r.hour ++ [slash] else []) ++ recordingName r.base) := by
  have hname : recordingName r.stem =
      FOLDER_TO_WATCH ++ [slash] ++ r.hour ++ [slash] ++ recordingName r.base := by
    simp only [recordingName, Recording.stem, List.append_assoc]
  have hslash : slash ∉ recordingName r.base := by
    intro h
    exact (List.mem_append.mp h).elim r.base_slash (by decide)
  unfold remotePath
  rw [hname, parentDir_append hslash, lbasename_append hslash, lbasename_append r.hour_slash]
  simp only
  by_cases htree : σ.dirTree = ascii "yes"
  · rw [if_pos htree, if_pos htree, if_pos r.hour_ne, List.append_assoc, List.append_assoc]
  · rw [if_neg htree, if_neg htree, List.nil_append]

/-- **Two recordings share a remote path when their base names agree and no tree tells their hours
    apart.** -/
theorem remotePath_eq_iff (σ : Settings) (r r' : Recording) :
    remotePath σ (recordingName r.stem) = remotePath σ (recordingName r'.stem) ↔
      r.base = r'.base ∧ (σ.dirTree = ascii "yes" → r.hour = r'.hour) := by
  rw [remotePath_stem, remotePath_stem, List.append_cancel_left_eq]
  by_cases htree : σ.dirTree = ascii "yes"
  · simp only [htree, if_true, forall_const]
    constructor
    · intro h
      rw [List.append_assoc, List.append_assoc] at h
      obtain ⟨hhour, hbase⟩ := sep_inj r.hour_slash r'.hour_slash h
      exact ⟨List.append_cancel_right hbase, hhour⟩
    · intro h
      obtain ⟨hbase, hhour⟩ := h
      rw [hbase, hhour]
  · simp only [htree, if_false, List.nil_append, false_implies, and_true]
    exact ⟨List.append_cancel_right, fun h => by rw [h]⟩

/-! ## 2. What is kept at the destination -/

/-- Where a recording is stored. -/
def remoteKey (σ : Settings) (stem : Bytes) : Bytes × Bytes × Bytes :=
  (σ.host, σ.username, remotePath σ (recordingName stem))

/-- A recording is written once: others create it with its one content, until it is deleted, or
    remove it, and they remove receipts at most. -/
def WriteOnce (contents : Bytes → Bytes) (log : List Event) (edits : List Edit) : Prop :=
  ∀ e ∈ edits, ∀ stem, (e.1 = .receipt stem → e.2 = none) ∧
    (e.1 = .recording stem → e.2 = none ∨
      (e.2 = some (contents stem) ∧ ∀ σ c, .deleted σ stem c ∉ log))

section Kept

variable (md5 : Bytes → Bytes) (σ : Settings) (contents : Bytes → Bytes) (R : Set Bytes)

/-- What is asked of the environment in one turn of the loop. -/
def KeptTurn (w : World) (stem : Bytes) (env : FileEnv) : Prop :=
  stem ∈ R ∧ WriteOnce contents w.log (env.upload.before ++ env.upload.during) ∧
    NoReturn w stem env.upload

/-- The same of every turn of the loop. -/
def KeptLoop : World → List (Bytes × FileEnv) → Prop
  | _, [] => True
  | w, (stem, env) :: rest =>
    KeptTurn contents R w stem env ∧ KeptLoop (checkFile md5 w stem env) rest

/-- The same of a step; the settings stay what they are. -/
def KeptOp (w : World) : Op → Prop
  | .edit edits => WriteOnce contents w.log edits
  | .settings σ' => σ' = w.settings
  | .scan env => KeptLoop md5 contents R (orphanLoop w env.receipts) env.files

/-- What was deleted is at the destination, and so is what has a matching receipt. -/
structure Kept (w : World) : Prop where
  settings : w.settings = σ
  once : ∀ stem c, w.files (.recording stem) = some c → c = contents stem
  deleted : ∀ σ' stem c, .deleted σ' stem c ∈ w.log →
    stem ∈ R ∧ w.files (.recording stem) = none ∧ w.remote (remoteKey σ stem) = some c
  receipts : ∀ stem ∈ R,
    catFile (w.files (.receipt stem)) = expectedReceipt md5 σ stem (contents stem) →
      w.remote (remoteKey σ stem) = some (contents stem)

/-- A card without receipts, nothing done yet. -/
structure Blank (w : World) : Prop where
  settings : w.settings = σ
  once : ∀ stem c, w.files (.recording stem) = some c → c = contents stem
  receipts : ∀ stem, w.files (.receipt stem) = none
  log : w.log = []

end Kept

section Keeps

variable {md5 : Bytes → Bytes} {σ : Settings} {contents : Bytes → Bytes} {R : Set Bytes}

theorem catFile_none_ne {stem c : Bytes} : catFile none ≠ expectedReceipt md5 σ stem c :=
  expectedReceipt_ne_nil.symm

theorem Blank.kept {w : World} (h : Blank σ contents w) : Kept md5 σ contents R w where
  settings := h.settings
  once := h.once
  deleted := by
    intro σ' stem c hmem
    rw [h.log] at hmem
    exact absurd hmem (List.not_mem_nil)
  receipts := by
    intro stem _ hread
    rw [h.receipts] at hread
    exact absurd hread catFile_none_ne

/-- Other edits change none of it. -/
theorem Kept.edits {w : World} (h : Kept md5 σ contents R w) {edits : List Edit}
    (hedits : WriteOnce contents w.log edits) :
    Kept md5 σ contents R { w with files := applyEdits w.files edits } where
  settings := h.settings
  once := by
    intro stem
    refine applyEdits_keeps (P := fun f => ∀ c, f = some c → c = contents stem) ?_
      (h.once stem)
    intro e he heq c hc
    rcases (hedits e he stem).2 heq with hnone | ⟨hsome, -⟩
    · exact absurd (hnone.symm.trans hc) nofun
    · exact (Option.some.inj (hsome.symm.trans hc)).symm
  deleted := by
    intro σ' stem c hmem
    obtain ⟨hR, hnone, hremote⟩ := h.deleted σ' stem c hmem
    refine ⟨hR, ?_, hremote⟩
    refine applyEdits_keeps (P := (· = none)) ?_ hnone
    intro e he heq
    exact ((hedits e he stem).2 heq).elim id fun hcreated => absurd hmem (hcreated.2 σ' c)
  receipts := by
    intro stem hR hread
    refine h.receipts stem hR ?_
    by_contra hne
    refine applyEdits_keeps (P := (catFile · ≠ expectedReceipt md5 σ stem (contents stem))) ?_ hne
      hread
    intro e he heq
    rw [(hedits e he stem).1 heq]
    exact catFile_none_ne

theorem Kept.addLog {w : World} (h : Kept md5 σ contents R w) {e : Event}
    (he : ∀ σ' stem c, e ≠ .deleted σ' stem c) : Kept md5 σ contents R (w.addLog e) where
  settings := h.settings
  once := h.once
  deleted := by
    intro σ' stem c hmem
    refine h.deleted σ' stem c ?_
    exact (List.mem_append.mp hmem).resolve_right fun hlast =>
      he σ' stem c (List.mem_singleton.mp hlast).symm
  receipts := h.receipts

/-- A file that is no recording gets another content; a receipt then speaks for the destination. -/
theorem Kept.setFile {w : World} (h : Kept md5 σ contents R w) {p : Path} {content : Option Bytes}
    (hrecording : ∀ stem, p = .recording stem → content = none)
    (hreceipt : ∀ stem, p = .receipt stem →
      catFile content = expectedReceipt md5 σ stem (contents stem) →
      w.remote (remoteKey σ stem) = some (contents stem)) :
    Kept md5 σ contents R (w.setFile p content) where
  settings := h.settings
  once := by
    intro stem c hc
    replace hc : Function.update w.files p content (.recording stem) = some c := hc
    by_cases heq : Path.recording stem = p
    · rw [← heq, Function.update_self, hrecording stem heq.symm] at hc
      exact absurd hc nofun
    · rw [Function.update_of_ne heq] at hc
      exact h.once stem c hc
  deleted := by
    intro σ' stem c hmem
    obtain ⟨hR, hnone, hremote⟩ := h.deleted σ' stem c hmem
    refine ⟨hR, ?_, hremote⟩
    show Function.update w.files p content (.recording stem) = none
    by_cases heq : Path.recording stem = p
    · rw [← heq, Function.update_self, hrecording stem heq.symm]
    · rw [Function.update_of_ne heq]
      exact hnone
  receipts := by
    intro stem hR hread
    replace hread : catFile (Function.update w.files p content (.receipt stem)) = _ := hread
    by_cases heq : Path.receipt stem = p
    · rw [← heq, Function.update_self] at hread
      exact hreceipt stem heq.symm hread
    · rw [Function.update_of_ne heq] at hread
      exact h.receipts stem hR hread

theorem Kept.rm {w : World} (h : Kept md5 σ contents R w) (p : Path) (ok : Bool) :
    Kept md5 σ contents R (w.rm p ok) := by
  unfold World.rm
  split
  · exact h.setFile (fun _ _ => rfl) fun _ _ hread => absurd hread catFile_none_ne
  · exact h

/-- Deleting a recording that is at the destination. -/
theorem rmRecording_kept {w : World} {stem : Bytes} {ok : Bool} (h : Kept md5 σ contents R w)
    (hR : stem ∈ R) (hremote : w.remote (remoteKey σ stem) = some (contents stem)) :
    Kept md5 σ contents R (rmRecording w stem ok) := by
  unfold rmRecording
  cases hcontent : w.files (.recording stem) with
  | none => exact h
  | some content =>
    have hc := h.once stem content hcontent
    simp only
    split
    · have hgone := h.rm (.recording stem) true
      refine ⟨hgone.settings, hgone.once, ?_, hgone.receipts⟩
      intro σ' s c hmem
      rcases List.mem_append.mp hmem with hmem | hmem
      · exact hgone.deleted σ' s c hmem
      · obtain ⟨-, rfl, rfl⟩ := Event.deleted.inj (List.mem_singleton.mp hmem)
        exact ⟨hR, Function.update_self _ _ _, hremote.trans (congrArg some hc.symm)⟩
    · exact h

theorem deleteRecording_kept {w : World} {stem : Bytes} {env : FileEnv}
    (h : Kept md5 σ contents R w) (hR : stem ∈ R)
    (hremote : w.remote (remoteKey σ stem) = some (contents stem)) :
    Kept md5 σ contents R (deleteRecording w stem env) := by
  have hfiles : Kept md5 σ contents R ((rmRecording w stem env.rmFileOk).rm (.thumbnail stem)
      env.rmThumbnailOk) := (rmRecording_kept h hR hremote).rm _ _
  unfold deleteRecording
  simp only
  split
  · split
    · exact (hfiles.rm _ _).rm _ _
    · exact hfiles
  · exact h

theorem saveReceipt_kept {w : World} {stem text : Bytes} {env : FileEnv}
    (h : Kept md5 σ contents R w)
    (hremote : w.remote (remoteKey σ stem) = some (contents stem)) :
    Kept md5 σ contents R (saveReceipt w stem text env).2 ∧
      (saveReceipt w stem text env).2.remote = w.remote := by
  have htmp : ∀ c, Kept md5 σ contents R (w.setFile (.receiptTmp stem) c) :=
    fun c => h.setFile nofun nofun
  rcases saveReceipt_cases w stem text env with hs | hs | hs
  · rw [hs]
    exact ⟨h, rfl⟩
  · rw [hs]
    exact ⟨htmp _, rfl⟩
  · rw [hs]
    have hreceipt : Kept md5 σ contents R ((w.setFile (.receiptTmp stem)
        (some (text ++ [10]))).setFile (.receipt stem) (some (text ++ [10]))) :=
      (htmp _).setFile nofun fun s heq _ => Path.receipt.inj heq ▸ hremote
    exact ⟨(hreceipt.rm (.receiptTmp stem) true).addLog nofun, rfl⟩

section Scan

variable (hd : IsDigest md5) (hinj : Set.InjOn (fun stem => remotePath σ (recordingName stem)) R)

include hinj

/-- **An upload replaces nothing else that counts.** -/
theorem uploadToFtp_kept {w : World} {stem : Bytes} {u : UploadEnv} (h : Kept md5 σ contents R w)
    (hR : stem ∈ R) (hthere : w.files (.recording stem) ≠ none)
    (hreceipt : catFile (w.files (.receipt stem)) ≠ expectedReceipt md5 σ stem (contents stem))
    (hedits : WriteOnce contents w.log (u.before ++ u.during)) :
    Kept md5 σ contents R (uploadToFtp w stem u).2 := by
  have hspec := uploadToFtp_spec w stem u
  obtain ⟨edits, hsub, hfiles⟩ := hspec.files
  have hedits : WriteOnce contents w.log edits := fun e he => hedits e (hsub e he)
  have hedited := h.edits hedits
  have hremote : ∀ s ∈ R, s ≠ stem →
      (uploadToFtp w stem u).2.remote (remoteKey σ s) = w.remote (remoteKey σ s) := by
    intro s hs hne
    refine hspec.remote _ fun heq => hne (hinj hs hR ?_)
    rw [h.settings] at heq
    exact (Prod.mk.inj (Prod.mk.inj heq).2).2
  have hlog : ∀ σ' s c, .deleted σ' s c ∈ (uploadToFtp w stem u).2.log →
      .deleted σ' s c ∈ w.log := by
    intro σ' s c hmem
    cases hok : (uploadToFtp w stem u).1 with
    | false => exact hspec.log hok ▸ hmem
    | true =>
      obtain ⟨-, content, hlog, -⟩ := hspec.sent hok
      rw [hlog] at hmem
      exact (List.mem_append.mp hmem).resolve_right (by simp)
  refine ⟨hspec.settings.trans h.settings, ?_, ?_, ?_⟩
  · rw [hfiles]
    exact hedited.once
  · intro σ' s c hmem
    obtain ⟨hs, hnone, hkept⟩ := hedited.deleted σ' s c (hlog σ' s c hmem)
    have hne : s ≠ stem := by
      intro heq
      exact hthere (heq ▸ (h.deleted σ' s c (hlog σ' s c hmem)).2.1)
    rw [hfiles]
    exact ⟨hs, hnone, (hremote s hs hne).trans hkept⟩
  · intro s hs hread
    rw [hfiles] at hread
    by_cases heq : s = stem
    · subst heq
      refine absurd hread (applyEdits_keeps
        (P := (catFile · ≠ expectedReceipt md5 σ s (contents s))) ?_ hreceipt)
      intro e he heq
      rw [(hedits e he s).1 heq]
      exact catFile_none_ne
    · exact (hremote s hs heq).trans (hedited.receipts s hs hread)

include hd in
theorem checkFile_kept {w : World} {stem : Bytes} {env : FileEnv}
    (hturn : KeptTurn contents R w stem env) (h : Kept md5 σ contents R w) :
    Kept md5 σ contents R (checkFile md5 w stem env) := by
  obtain ⟨hR, hedits, hreturn⟩ := hturn
  unfold checkFile
  cases hcontent : w.files (.recording stem) with
  | none => exact h
  | some content =>
    obtain rfl := h.once stem content hcontent
    simp only
    split
    · rename_i hreceipt
      let w₁ := w.addLog (.attempted w.settings stem (contents stem) (w.files (.receipt stem)))
      have h₁ : Kept md5 σ contents R w₁ := h.addLog nofun
      have hedits₁ : WriteOnce contents w₁.log (env.upload.before ++ env.upload.during) := by
        intro e he s
        obtain ⟨hr, hc⟩ := hedits e he s
        refine ⟨hr, fun heq => (hc heq).imp_right fun ⟨hsome, hnot⟩ => ⟨hsome, fun σ' c hmem => ?_⟩⟩
        exact hnot σ' c ((List.mem_append.mp hmem).resolve_right (by simp))
      rw [h.settings] at hreceipt
      have h₂ : Kept md5 σ contents R (uploadToFtp w₁ stem env.upload).2 :=
        uploadToFtp_kept hinj h₁ hR (by rw [show w₁.files = w.files from rfl, hcontent]; nofun)
          hreceipt hedits₁
      split
      · exact h₂
      · rename_i hok
        split
        · exact h₂
        · rename_i hsum
          obtain ⟨-, -, hremote⟩ := uploadToFtp_sent (w := w₁) hd hcontent hreturn
            (Bool.not_eq_false _ ▸ hok) (not_not.mp hsum)
          have hremote : (uploadToFtp w₁ stem env.upload).2.remote (remoteKey σ stem) =
              some (contents stem) := h₁.settings ▸ hremote
          split
          · exact (saveReceipt_kept h₂ hremote).1
          · obtain ⟨h₃, hkept⟩ := saveReceipt_kept h₂ hremote
            exact deleteRecording_kept h₃ hR (hkept ▸ hremote)
    · rename_i hreceipt
      rw [h.settings] at hreceipt
      exact deleteRecording_kept h hR (h.receipts stem hR (not_not.mp hreceipt))

include hd in
theorem checkLoop_kept {files : List (Bytes × FileEnv)} {w : World}
    (hloop : KeptLoop md5 contents R w files) (h : Kept md5 σ contents R w) :
    Kept md5 σ contents R (checkLoop md5 w files) := by
  induction files generalizing w with
  | nil => exact h
  | cons file rest ih =>
    obtain ⟨stem, env⟩ := file
    unfold checkLoop
    split
    · exact h
    · exact ih hloop.2 (checkFile_kept hd hinj hloop.1 h)

omit hinj in
theorem orphanLoop_kept {receipts : List (Path × Bool)} {w : World}
    (h : Kept md5 σ contents R w) : Kept md5 σ contents R (orphanLoop w receipts) := by
  refine run_inv (I := Kept md5 σ contents R) ?_ h receipts
  intro w r h
  split
  · split
    · exact h.rm _ _
    · exact h
  · exact h

include hd in
/-- **Every step keeps what is at the destination.** -/
theorem step_kept {w : World} {op : Op} (hop : KeptOp md5 contents R w op)
    (h : Kept md5 σ contents R w) : Kept md5 σ contents R (step md5 w op) := by
  cases op with
  | edit edits => exact h.edits hop
  | settings σ' =>
    obtain rfl : σ' = w.settings := hop
    exact h
  | scan env =>
    show Kept md5 σ contents R (checkFiles md5 w env)
    unfold checkFiles
    split
    · exact h
    · exact checkLoop_kept hd hinj hop (orphanLoop_kept h)

end Scan

end Keeps

/-! ## 3. Which recordings are kept -/

/-- **What was deleted locally is at the destination.** With a directory tree, or where no two
    recordings share a base name, all remote paths differ, and after any number of scans every
    recording that was deleted is stored with its content. -/
theorem remote_kept (σ : Settings) (R : Set Recording)
    (hdistinct : σ.dirTree = ascii "yes" ∨ Set.InjOn Recording.base R) :
    Set.InjOn (fun r => remotePath σ (recordingName r.stem)) R ∧
    ∀ md5 contents w ops, IsDigest md5 → Blank σ contents w →
      StepsMeet (step md5) (KeptOp md5 contents (Recording.stem '' R)) w ops →
      ∀ σ' stem c, .deleted σ' stem c ∈ (run (step md5) w ops).log →
        (run (step md5) w ops).remote (remoteKey σ stem) = some c := by
  have hinj : Set.InjOn (fun r => remotePath σ (recordingName r.stem)) R := by
    intro r hr r' hr' heq
    obtain ⟨hbase, hhour⟩ := (remotePath_eq_iff σ r r').mp heq
    rcases hdistinct with htree | hbases
    · exact Recording.ext (hhour htree) hbase
    · exact hbases hr hr' hbase
  have hstems : Set.InjOn (fun stem => remotePath σ (recordingName stem))
      (Recording.stem '' R) := by
    intro s hs s' hs' heq
    obtain ⟨r, hr, rfl⟩ := hs
    obtain ⟨r', hr', rfl⟩ := hs'
    rw [hinj hr hr' heq]
  refine ⟨hinj, fun md5 contents w ops hd hblank hmeet σ' stem c hmem => ?_⟩
  have hkept : Kept md5 σ contents (Recording.stem '' R) (run (step md5) w ops) :=
    run_inv_of (fun _ _ hC h => step_kept hd hstems hC h) hblank.kept hmeet
  exact (hkept.deleted σ' stem c hmem).2.2

/-! ## 4. Two recordings -/

/-- Two recordings of different hours with one base name. -/
def firstRecording : Recording where
  hour := ascii "2024Y01M02D03H"
  base := ascii "E1M00S60"
  hour_ne := by decide
  hour_slash := by decide
  base_slash := by decide

def secondRecording : Recording where
  hour := ascii "2024Y01M02D04H"
  base := ascii "E1M00S60"
  hour_ne := by decide
  hour_slash := by decide
  base_slash := by decide

def twoContents (stem : Bytes) : Bytes :=
  if stem = secondRecording.stem then secondClip else firstClip

/-- A card with both. -/
def twoWorld (σ : Settings) : World where
  files := fun p =>
    if p = .recording firstRecording.stem then some firstClip
    else if p = .recording secondRecording.stem then some secondClip
    else none
  remote := fun _ => none
  settings := σ
  log := []

def twoScan : ScanEnv :=
  ⟨[], [(firstRecording.stem, sampleTurn), (secondRecording.stem, sampleTurn)]⟩

theorem first_ne_second : firstRecording.stem ≠ secondRecording.stem := by decide

theorem twoWorld_blank (σ : Settings) : Blank σ twoContents (twoWorld σ) where
  settings := rfl
  once := by
    intro stem c hc
    unfold twoWorld at hc
    simp only [Path.recording.injEq] at hc
    unfold twoContents
    split at hc
    · rename_i hfirst
      rw [hfirst, if_neg first_ne_second]
      exact (Option.some.inj hc).symm
    · split at hc
      · rename_i hsecond
        rw [if_pos hsecond]
        exact (Option.some.inj hc).symm
      · exact absurd hc nofun
  receipts := fun _ => rfl
  log := rfl

/-- Nobody else touches a file while both are sent. -/
theorem twoScan_kept (σ : Settings) {R : Set Recording} (hfirst : firstRecording ∈ R)
    (hsecond : secondRecording ∈ R) :
    StepsMeet (step sampleMd5) (KeptOp sampleMd5 twoContents (Recording.stem '' R)) (twoWorld σ)
      [.scan twoScan] :=
  ⟨⟨⟨⟨_, hfirst, rfl⟩, nofun, fun _ => trivial⟩, ⟨⟨_, hsecond, rfl⟩, nofun, fun _ => trivial⟩,
    trivial⟩, trivial⟩

/-- **Without a tree the second recording replaces the first**, which is gone by then: both have
    one remote path, and after a scan that deletes both only the second is at the destination. -/
theorem flat_loses :
    firstRecording ≠ secondRecording ∧
    remotePath flatSettings (recordingName firstRecording.stem) =
      remotePath flatSettings (recordingName secondRecording.stem) ∧
    Blank flatSettings twoContents (twoWorld flatSettings) ∧
    StepsMeet (step sampleMd5) (KeptOp sampleMd5 twoContents (Recording.stem '' Set.univ))
      (twoWorld flatSettings) [.scan twoScan] ∧
    .deleted flatSettings firstRecording.stem firstClip ∈
      (run (step sampleMd5) (twoWorld flatSettings) [.scan twoScan]).log ∧
    (run (step sampleMd5) (twoWorld flatSettings) [.scan twoScan]).remote
      (remoteKey flatSettings firstRecording.stem) = some secondClip := by
  refine ⟨fun h => first_ne_second (congrArg Recording.stem h), ?_, twoWorld_blank _,
    twoScan_kept _ trivial trivial, ?_, ?_⟩
  · exact (remotePath_eq_iff _ _ _).mpr ⟨rfl, fun h => absurd h (by decide)⟩
  · decide
  · decide +kernel

/-- With a tree both are kept. -/
theorem remote_kept_tree :
    Set.InjOn (fun r : Recording => remotePath treeSettings (recordingName r.stem)) Set.univ ∧
    .deleted treeSettings firstRecording.stem firstClip ∈
      (run (step sampleMd5) (twoWorld treeSettings) [.scan twoScan]).log ∧
    (run (step sampleMd5) (twoWorld treeSettings) [.scan twoScan]).remote
      (remoteKey treeSettings firstRecording.stem) = some firstClip := by
  obtain ⟨hinj, hkept⟩ := remote_kept treeSettings Set.univ (.inl rfl)
  have hdeleted : .deleted treeSettings firstRecording.stem firstClip ∈
      (run (step sampleMd5) (twoWorld treeSettings) [.scan twoScan]).log := by decide
  exact ⟨hinj, hdeleted, hkept _ _ _ _ sampleMd5_isDigest (twoWorld_blank _)
    (twoScan_kept _ trivial trivial) _ _ _ hdeleted⟩

end YiHack.Ftp
