/-
  File:      YiHack/Ftp/QueueSafe.lean
  Subject:   The queue loses nothing locally.

  * `Inv` -- the log is in order and every receipt is of an upload; every part of a scan keeps it;
  * `queue_keeps` -- so every run of scans does;
  * `scan_attempts` -- a scan gets to every pending file, whatever became of those before it;
  * **`queue_safe`** -- both, and that a recording is deleted only where its content was sent to the
    configured destination, as long as the destination's settings are single lines;
  * `destination_confused` -- two destinations with one text.
-/
import YiHack.Ftp.Queue

namespace YiHack.Ftp

open General

/-! ## 1. The invariant -/

/-- The settings an event happened under are such that `P`. -/
def Event.Under (P : Settings → Prop) : Event → Prop
  | .attempted σ _ _ _ | .uploaded σ _ _ | .deleted σ _ _ => P σ
  | .receipted _ _ => True

variable {P : Settings → Prop}

/-- The log is in order, and every receipt is of an upload; all settings are such that `P`. -/
structure Inv (md5 : Bytes → Bytes) (P : Settings → Prop) (w : World) : Prop where
  log : LogOk md5 w.log
  receipts : ∀ stem, Vouched md5 w.log stem (w.files (.receipt stem))
  settings : P w.settings
  under : ∀ e ∈ w.log, e.Under P

theorem Vouched.mono {md5 : Bytes → Bytes} {log log' : List Event} (hsub : log ⊆ log')
    {stem : Bytes} {receipt : Option Bytes} (h : Vouched md5 log stem receipt) :
    Vouched md5 log' stem receipt := by
  intro σ content hread
  obtain ⟨σ', hsame, hmem⟩ := h σ content hread
  exact ⟨σ', hsame, hsub hmem⟩

/-- Where there is no receipt there is nothing to vouch for. -/
theorem vouched_none {md5 : Bytes → Bytes} {log : List Event} {stem : Bytes} :
    Vouched md5 log stem none := by
  intro σ content hread
  exact absurd hread.symm expectedReceipt_ne_nil

theorem Fresh.inv {md5 : Bytes → Bytes} {w : World} (h : Fresh md5 w) (hP : P w.settings) :
    Inv md5 P w where
  log := by
    intro pre e post hsplit
    rw [h.log] at hsplit
    exact absurd hsplit.symm (by simp)
  receipts := by
    rw [h.log]
    exact h.receipts
  settings := hP
  under := by
    rw [h.log]
    exact fun e he => absurd he List.not_mem_nil

/-- Edits of others keep what is known of the receipts. -/
theorem vouched_edits {md5 : Bytes → Bytes} {log : List Event} {edits : List Edit}
    (hok : EditsOk md5 log edits) {files : Files}
    (h : ∀ stem, Vouched md5 log stem (files (.receipt stem))) (stem : Bytes) :
    Vouched md5 log stem (applyEdits files edits (.receipt stem)) :=
  applyEdits_keeps (P := Vouched md5 log stem) (fun e he heq => hok e he stem heq) (h stem)

/-- Another event, if it is justified. -/
theorem Inv.addLog {md5 : Bytes → Bytes} {w : World} (h : Inv md5 P w) {e : Event}
    (he : Justified md5 w.log e) (hP : e.Under P) : Inv md5 P (w.addLog e) where
  log := h.log.snoc he
  receipts := fun stem => (h.receipts stem).mono (List.subset_append_left _ _)
  settings := h.settings
  under := fun x hx => (List.mem_append.mp hx).elim (h.under x)
    fun hx => List.mem_singleton.mp hx ▸ hP

/-- Another content of a file, which must be vouched for if the file is a receipt. -/
theorem Inv.setFile {md5 : Bytes → Bytes} {w : World} (h : Inv md5 P w) {p : Path}
    {content : Option Bytes}
    (hp : ∀ stem, p = .receipt stem → Vouched md5 w.log stem content) :
    Inv md5 P (w.setFile p content) where
  log := h.log
  receipts := by
    intro stem
    show Vouched md5 w.log stem (Function.update w.files p content (.receipt stem))
    by_cases heq : p = .receipt stem
    · rw [← heq, Function.update_self]
      exact hp stem heq
    · rw [Function.update_of_ne fun hh => heq hh.symm]
      exact h.receipts stem
  settings := h.settings
  under := h.under

theorem Inv.rm {md5 : Bytes → Bytes} {w : World} (h : Inv md5 P w) (p : Path) (ok : Bool) :
    Inv md5 P (w.rm p ok) := by
  unfold World.rm
  split
  · exact h.setFile fun _ _ => vouched_none
  · exact h

/-! ## 2. Every part of a scan keeps it -/

/-- The content of the recording, if there is one, was sent under settings of this text. -/
def Sent (w : World) (stem : Bytes) : Prop :=
  ∀ content, w.files (.recording stem) = some content →
    ∃ σ', destinationText σ' = destinationText w.settings ∧ .uploaded σ' stem content ∈ w.log

theorem rmRecording_inv {md5 : Bytes → Bytes} {w : World} {stem : Bytes} {ok : Bool}
    (h : Inv md5 P w) (hsent : Sent w stem) : Inv md5 P (rmRecording w stem ok) := by
  unfold rmRecording
  cases hcontent : w.files (.recording stem) with
  | none => exact h
  | some content =>
    have hdeleted : Justified md5 w.log (.deleted w.settings stem content) :=
      hsent content hcontent
    simp only
    split
    · exact (h.addLog hdeleted h.settings).rm (.recording stem) true
    · exact h

theorem deleteRecording_inv {md5 : Bytes → Bytes} {w : World} {stem : Bytes} {env : FileEnv}
    (h : Inv md5 P w) (hsent : Sent w stem) : Inv md5 P (deleteRecording w stem env) := by
  have hfiles : Inv md5 P ((rmRecording w stem env.rmFileOk).rm (.thumbnail stem)
      env.rmThumbnailOk) := (rmRecording_inv h hsent).rm _ _
  unfold deleteRecording
  simp only
  split
  · split
    · exact (hfiles.rm _ _).rm _ _
    · exact hfiles
  · exact h

/-- What saving a receipt leaves: the receipt in place and noted, or nothing that matters. -/
theorem saveReceipt_cases (w : World) (stem text : Bytes) (env : FileEnv) :
    let w₁ := w.setFile (.receiptTmp stem) (some (text ++ [10]))
    (saveReceipt w stem text env = (false, w)) ∨ (saveReceipt w stem text env = (false, w₁)) ∨
      saveReceipt w stem text env = (true, ((w₁.setFile (.receipt stem) (some (text ++ [10]))).setFile
        (.receiptTmp stem) none).addLog (.receipted stem text)) := by
  unfold saveReceipt
  cases env.printfOk <;> cases env.mvOk
  · exact .inl rfl
  · exact .inl rfl
  · exact .inr (.inl rfl)
  · refine .inr (.inr ?_)
    simp [World.setFile, Function.update_self]

theorem uploadToFtp_inv {md5 : Bytes → Bytes} {w : World} {stem : Bytes} {env : UploadEnv}
    (h : Inv md5 P w) (hedits : EditsOk md5 w.log (env.before ++ env.during)) :
    Inv md5 P (uploadToFtp w stem env).2 := by
  have hspec := uploadToFtp_spec w stem env
  obtain ⟨edits, hsub, hfiles⟩ := hspec.files
  have hreceipts : ∀ s, Vouched md5 w.log s ((uploadToFtp w stem env).2.files (.receipt s)) := by
    rw [hfiles]
    exact vouched_edits (fun e he => hedits e (hsub e he)) h.receipts
  have hsettings : P (uploadToFtp w stem env).2.settings := hspec.settings ▸ h.settings
  cases hok : (uploadToFtp w stem env).1 with
  | false =>
    have hlog := hspec.log hok
    exact ⟨hlog ▸ h.log, hlog ▸ hreceipts, hsettings, hlog ▸ h.under⟩
  | true =>
    obtain ⟨-, content, hlog, -⟩ := hspec.sent hok
    have hsent := h.addLog (e := .uploaded w.settings stem content) trivial h.settings
    refine ⟨hlog ▸ hsent.log, fun s => (hreceipts s).mono ?_, hsettings, hlog ▸ hsent.under⟩
    rw [hlog]
    exact List.subset_append_left _ _

section Scan

variable {md5 : Bytes → Bytes} (hd : IsDigest md5)

include hd in
/-- **A file that still has its digest after the upload is what was sent.** -/
theorem uploadToFtp_sent {w : World} {stem content : Bytes} {u : UploadEnv}
    (hcontent : w.files (.recording stem) = some content) (hreturn : NoReturn w stem u)
    (hok : (uploadToFtp w stem u).1 = true)
    (hsum : ((uploadToFtp w stem u).2.files (.recording stem)).map (fileSum md5 stem) =
      some (fileSum md5 stem content)) :
    (uploadToFtp w stem u).2.files (.recording stem) = some content ∧
      (uploadToFtp w stem u).2.log = w.log ++ [.uploaded w.settings stem content] ∧
      (uploadToFtp w stem u).2.remote (w.settings.host, w.settings.username,
        remotePath w.settings (recordingName stem)) = some content := by
  obtain ⟨hfiles, sent, hlog, hremote, hsent⟩ := (uploadToFtp_spec w stem u).sent hok
  obtain ⟨after, hafter, heq⟩ := Option.map_eq_some_iff.mp hsum
  obtain rfl := fileSum_inj hd heq
  have hsteady : Steady w.files (.recording stem) (u.before ++ u.during) :=
    hreturn (by rw [← hfiles, hafter, hcontent])
  have hfirst := hsent hsteady
  rw [hcontent, Option.some.injEq] at hfirst
  subst hfirst
  exact ⟨hafter, hlog, hremote⟩

include hd in
/-- Saving the receipt of what was uploaded. -/
theorem saveReceipt_inv {w : World} {σ : Settings} {stem content : Bytes} {env : FileEnv}
    (h : Inv md5 P w) (hmem : .uploaded σ stem content ∈ w.log) :
    Inv md5 P (saveReceipt w stem (expectedReceipt md5 σ stem content) env).2 := by
  have htmp : ∀ text, Inv md5 P (w.setFile (.receiptTmp stem) text) := fun text => h.setFile nofun
  rcases saveReceipt_cases w stem (expectedReceipt md5 σ stem content) env with hs | hs | hs
  · rw [hs]
    exact h
  · rw [hs]
    exact htmp _
  · rw [hs]
    have hvouched : Vouched md5 w.log stem (some (expectedReceipt md5 σ stem content ++ [10])) := by
      intro σ' content' hread
      rw [catFile_saved] at hread
      obtain ⟨hsame, rfl⟩ := expectedReceipt_inj hd hread
      exact ⟨σ, hsame, hmem⟩
    have hreceipt : Inv md5 P ((w.setFile (.receiptTmp stem)
        (some (expectedReceipt md5 σ stem content ++ [10]))).setFile (.receipt stem)
        (some (expectedReceipt md5 σ stem content ++ [10]))) :=
      (htmp _).setFile fun s hs => Path.receipt.inj hs ▸ hvouched
    exact (hreceipt.rm (.receiptTmp stem) true).addLog ⟨σ, content, rfl, hmem⟩ trivial

/-- Saving a receipt leaves the recording, and takes nothing from the log. -/
theorem saveReceipt_sent {w : World} {stem text : Bytes} {env : FileEnv} (h : Sent w stem) :
    Sent (saveReceipt w stem text env).2 stem := by
  rcases saveReceipt_cases w stem text env with hs | hs | hs
  · rw [hs]
    exact h
  · rw [hs]
    exact h
  · rw [hs]
    intro content hcontent
    obtain ⟨σ', hsame, hmem⟩ := h content hcontent
    exact ⟨σ', hsame, List.mem_append_left _ hmem⟩

include hd in
theorem checkFile_inv {w : World} {stem : Bytes} {env : FileEnv} (hfair : TurnFair md5 w stem env)
    (h : Inv md5 P w) : Inv md5 P (checkFile md5 w stem env) := by
  unfold checkFile
  cases hcontent : w.files (.recording stem) with
  | none => exact h
  | some content =>
    simp only
    split
    · rename_i hreceipt
      -- the receipt does not match: upload, compare, save the receipt, delete
      let w₁ := w.addLog (.attempted w.settings stem content (w.files (.receipt stem)))
      have h₁ : Inv md5 P w₁ := h.addLog hreceipt h.settings
      have hedits : EditsOk md5 w₁.log (env.upload.before ++ env.upload.during) :=
        fun e he s hs => (hfair.1 e he s hs).mono (List.subset_append_left _ _)
      have h₂ : Inv md5 P (uploadToFtp w₁ stem env.upload).2 := uploadToFtp_inv h₁ hedits
      split
      · exact h₂
      · rename_i hok
        split
        · exact h₂
        · rename_i hsum
          obtain ⟨hafter, hlog, -⟩ := uploadToFtp_sent (w := w₁) hd hcontent hfair.2
            (Bool.not_eq_false _ ▸ hok) (not_not.mp hsum)
          have hmem : .uploaded w.settings stem content ∈ (uploadToFtp w₁ stem env.upload).2.log := by
            rw [hlog]
            exact List.mem_append_right _ (List.mem_singleton_self _)
          have hsettings := (uploadToFtp_spec w₁ stem env.upload).settings
          have hsent : Sent (uploadToFtp w₁ stem env.upload).2 stem := by
            intro c hc
            obtain rfl := Option.some.inj (hafter.symm.trans hc)
            rw [hsettings]
            exact ⟨w.settings, rfl, hmem⟩
          split
          · exact saveReceipt_inv hd h₂ hmem
          · exact deleteRecording_inv (saveReceipt_inv hd h₂ hmem) (saveReceipt_sent hsent)
    · rename_i hreceipt
      -- the receipt matches, so what it is of was uploaded
      refine deleteRecording_inv h fun c hc => ?_
      obtain rfl := Option.some.inj (hcontent.symm.trans hc)
      exact h.receipts stem w.settings content (not_not.mp hreceipt)

include hd in
theorem checkLoop_inv {files : List (Bytes × FileEnv)} {w : World} (hfair : LoopFair md5 w files)
    (h : Inv md5 P w) : Inv md5 P (checkLoop md5 w files) := by
  induction files generalizing w with
  | nil => exact h
  | cons file rest ih =>
    obtain ⟨stem, env⟩ := file
    unfold checkLoop
    split
    · exact h
    · exact ih hfair.2 (checkFile_inv hd hfair.1 h)

theorem orphanLoop_inv {receipts : List (Path × Bool)} {w : World} (h : Inv md5 P w) :
    Inv md5 P (orphanLoop w receipts) := by
  refine run_inv (I := Inv md5 P) ?_ h receipts
  intro w r h
  split
  · split
    · exact h.rm _ _
    · exact h
  · exact h

/-- What a step sets the settings to is such that `P`. -/
def Op.Sets (P : Settings → Prop) : Op → Prop
  | .settings σ => P σ
  | .edit _ | .scan _ => True

include hd in
/-- **Every step keeps the invariant.** -/
theorem step_inv {w : World} {op : Op} (hfair : OpFair md5 w op) (hsets : op.Sets P)
    (h : Inv md5 P w) : Inv md5 P (step md5 w op) := by
  cases op with
  | edit edits => exact ⟨h.log, vouched_edits hfair h.receipts, h.settings, h.under⟩
  | settings σ => exact ⟨h.log, h.receipts, hsets, h.under⟩
  | scan env =>
    show Inv md5 P (checkFiles md5 w env)
    unfold checkFiles
    split
    · exact h
    · exact checkLoop_inv hd hfair (orphanLoop_inv h)

include hd in
/-- Every run of scans and changes keeps it. -/
theorem queue_keeps {w : World} (hfresh : Fresh md5 w) (hP : P w.settings) {ops : List Op}
    (hfair : StepsMeet (step md5) (OpFair md5) w ops) (hsets : ∀ op ∈ ops, op.Sets P) :
    Inv md5 P (run (step md5) w ops) :=
  run_inv_of (fun _ _ hC h => step_inv hd hC.1 hC.2 h) (hfresh.inv hP)
    (hfair.and (.of_forall hsets w))

end Scan

/-! ## 3. The log only grows -/

/-- The paths that belong to a recording. -/
def Path.of (p : Path) (stem : Bytes) : Prop :=
  p = .recording stem ∨ p = .receipt stem ∨ p = .receiptTmp stem ∨ p = .thumbnail stem

/-- What a turn of the loop does beyond its own recording: the log grows, the settings stay, and
    the files of other recordings change by the edits alone. -/
structure Turn (stem : Bytes) (edits : List Edit) (w w' : World) : Prop where
  log : w.log <+: w'.log
  settings : w'.settings = w.settings
  others : ∀ p, ¬ p.of stem → (∀ e ∈ edits, e.1 ≠ p) → w'.files p = w.files p

theorem Turn.refl {stem : Bytes} {edits : List Edit} {w : World} : Turn stem edits w w :=
  ⟨List.prefix_rfl, rfl, fun _ _ _ => rfl⟩

theorem Turn.trans {stem : Bytes} {edits : List Edit} {w₁ w₂ w₃ : World}
    (h : Turn stem edits w₁ w₂) (h' : Turn stem edits w₂ w₃) : Turn stem edits w₁ w₃ where
  log := h.log.trans h'.log
  settings := h'.settings.trans h.settings
  others := fun p hp he => (h'.others p hp he).trans (h.others p hp he)

theorem Turn.setFile {stem : Bytes} {edits : List Edit} {w : World} {p : Path} (hp : p.of stem)
    (content : Option Bytes) : Turn stem edits w (w.setFile p content) where
  log := List.prefix_rfl
  settings := rfl
  others := by
    intro q hq _
    exact Function.update_of_ne (fun h => hq (by rwa [h])) _ _

theorem Turn.rm {stem : Bytes} {edits : List Edit} {w : World} {p : Path} (hp : p.of stem)
    (ok : Bool) : Turn stem edits w (w.rm p ok) := by
  unfold World.rm
  split
  · exact Turn.setFile hp none
  · exact Turn.refl

theorem Turn.addLog {stem : Bytes} {edits : List Edit} {w : World} (e : Event) :
    Turn stem edits w (w.addLog e) :=
  ⟨List.prefix_append _ _, rfl, fun _ _ _ => rfl⟩

theorem deleteRecording_turn (w : World) (stem : Bytes) (env : FileEnv) (edits : List Edit) :
    Turn stem edits w (deleteRecording w stem env) := by
  have hrm : Turn stem edits w (rmRecording w stem env.rmFileOk) := by
    unfold rmRecording
    split
    · split
      · exact (Turn.addLog _).trans (Turn.setFile (.inl rfl) none)
      · exact Turn.refl
    · exact Turn.refl
  have hfiles := hrm.trans (Turn.rm (p := .thumbnail stem) (.inr (.inr (.inr rfl)))
    env.rmThumbnailOk)
  unfold deleteRecording
  simp only
  split
  · split
    · exact (hfiles.trans (Turn.rm (.inr (.inl rfl)) _)).trans (Turn.rm (.inr (.inr (.inl rfl))) _)
    · exact hfiles
  · exact Turn.refl

theorem saveReceipt_turn (w : World) (stem text : Bytes) (env : FileEnv) (edits : List Edit) :
    Turn stem edits w (saveReceipt w stem text env).2 := by
  have htmp : ∀ c, Turn stem edits w (w.setFile (.receiptTmp stem) c) :=
    Turn.setFile (.inr (.inr (.inl rfl)))
  rcases saveReceipt_cases w stem text env with hs | hs | hs
  · rw [hs]
    exact Turn.refl
  · rw [hs]
    exact htmp _
  · rw [hs]
    exact (((htmp _).trans (Turn.setFile (.inr (.inl rfl)) _)).trans
      (Turn.setFile (.inr (.inr (.inl rfl))) _)).trans (Turn.addLog _)

theorem uploadToFtp_turn (w : World) (stem : Bytes) (u : UploadEnv) :
    Turn stem (u.before ++ u.during) w (uploadToFtp w stem u).2 := by
  have hspec := uploadToFtp_spec w stem u
  refine ⟨?_, hspec.settings, ?_⟩
  · cases hok : (uploadToFtp w stem u).1 with
    | false => exact hspec.log hok ▸ List.prefix_rfl
    | true =>
      obtain ⟨-, content, hlog, -⟩ := hspec.sent hok
      rw [hlog]
      exact List.prefix_append _ _
  · intro p _ hnot
    obtain ⟨edits, hsub, hfiles⟩ := hspec.files
    rw [hfiles]
    exact applyEdits_keeps (P := (· = w.files p))
      (fun e he heq => absurd heq (hnot e (hsub e he))) rfl

theorem checkFile_turn (md5 : Bytes → Bytes) (w : World) (stem : Bytes) (env : FileEnv) :
    Turn stem (env.upload.before ++ env.upload.during) w (checkFile md5 w stem env) := by
  unfold checkFile
  cases w.files (.recording stem) with
  | none => exact Turn.refl
  | some content =>
    simp only
    split
    · have hupload := (Turn.addLog _).trans (uploadToFtp_turn (w.addLog
        (.attempted w.settings stem content (w.files (.receipt stem)))) stem env.upload)
      split
      · exact hupload
      · split
        · exact hupload
        · have hsaved := hupload.trans (saveReceipt_turn _ stem (ftpDestination md5 w.settings ++
            ascii " " ++ fileSum md5 stem content) env _)
          split
          · exact hsaved
          · exact hsaved.trans (deleteRecording_turn _ stem env _)
    · exact deleteRecording_turn w stem env _

/-- The loop up to a turn, when no stop is asked for. -/
theorem checkLoop_append {md5 : Bytes → Bytes} {pre : List (Bytes × FileEnv)}
    (hstop : ∀ f ∈ pre, f.2.stop = false) (w : World) (rest : List (Bytes × FileEnv)) :
    checkLoop md5 w (pre ++ rest) = checkLoop md5 (checkLoop md5 w pre) rest := by
  induction pre generalizing w with
  | nil => rfl
  | cons f pre ih =>
    obtain ⟨stem, env⟩ := f
    have hno : ¬ env.stop = true := Bool.eq_false_iff.mp (hstop (stem, env) List.mem_cons_self)
    rw [List.cons_append, checkLoop, if_neg hno, checkLoop, if_neg hno]
    exact ih (fun f hf => hstop f (List.mem_cons_of_mem _ hf)) _

theorem checkLoop_log (md5 : Bytes → Bytes) (w : World) (files : List (Bytes × FileEnv)) :
    w.log <+: (checkLoop md5 w files).log ∧ (checkLoop md5 w files).settings = w.settings := by
  induction files generalizing w with
  | nil => exact ⟨List.prefix_rfl, rfl⟩
  | cons f rest ih =>
    obtain ⟨stem, env⟩ := f
    unfold checkLoop
    split
    · exact ⟨List.prefix_rfl, rfl⟩
    · have hturn := checkFile_turn md5 w stem env
      obtain ⟨hlog, hsettings⟩ := ih (checkFile md5 w stem env)
      exact ⟨hturn.log.trans hlog, hsettings.trans hturn.settings⟩

/-- What the loop over the receipts leaves: the log, the settings, the recordings, and the receipts
    of recordings that are there. -/
structure Swept (w w' : World) : Prop where
  log : w'.log = w.log
  settings : w'.settings = w.settings
  recordings : ∀ stem, w'.files (.recording stem) = w.files (.recording stem)
  receipts : ∀ stem, w.files (.recording stem) ≠ none →
    w'.files (.receipt stem) = w.files (.receipt stem)

theorem originalOf_eq {p : Path} {stem : Bytes} (h : originalOf p = some stem) :
    p = .receipt stem ∨ p = .receiptTmp stem := by
  cases p <;> cases h
  · exact .inl rfl
  · exact .inr rfl

theorem Swept.rm {w w' : World} (h : Swept w w') {p : Path} {stem : Bytes}
    (hp : originalOf p = some stem) (hnone : w'.files (.recording stem) = none) (ok : Bool) :
    Swept w (w'.rm p ok) := by
  unfold World.rm
  split
  · refine ⟨h.log, h.settings, fun s => ?_, fun s hs => ?_⟩
    · have hne : Path.recording s ≠ p := by
        rcases originalOf_eq hp with rfl | rfl <;> nofun
      exact (Function.update_of_ne hne _ _).trans (h.recordings s)
    · have hne : Path.receipt s ≠ p := by
        rcases originalOf_eq hp with rfl | rfl
        · intro heq
          cases heq
          exact hs ((h.recordings _).symm.trans hnone)
        · nofun
      exact (Function.update_of_ne hne _ _).trans (h.receipts s hs)
  · exact h

theorem orphanLoop_swept (w : World) (receipts : List (Path × Bool)) :
    Swept w (orphanLoop w receipts) := by
  refine run_inv (I := Swept w) ?_ ⟨rfl, rfl, fun _ => rfl, fun _ _ => rfl⟩ receipts
  intro w' r h
  split
  · rename_i stem hstem
    split
    · rename_i hnone
      exact h.rm hstem hnone _
    · exact h
  · exact h

/-! ## 4. A scan gets to every pending file -/

/-- A recording with this content is there, and its receipt does not match. -/
def Pending (md5 : Bytes → Bytes) (w : World) (stem content : Bytes) : Prop :=
  w.files (.recording stem) = some content ∧
    catFile (w.files (.receipt stem)) ≠ expectedReceipt md5 w.settings stem content

/-- A turn of the loop with a pending file tries to upload it. -/
theorem checkFile_attempts {md5 : Bytes → Bytes} {w : World} {stem content : Bytes}
    (h : Pending md5 w stem content) (env : FileEnv) :
    w.log ++ [.attempted w.settings stem content (w.files (.receipt stem))] <+:
      (checkFile md5 w stem env).log := by
  obtain ⟨hcontent, hreceipt⟩ := h
  unfold checkFile
  rw [hcontent]
  simp only
  rw [expectedReceipt] at hreceipt
  rw [if_pos hreceipt]
  have hupload := (uploadToFtp_turn (w.addLog
    (.attempted w.settings stem content (w.files (.receipt stem)))) stem env.upload).log
  split
  · exact hupload
  · split
    · exact hupload
    · have hsaved := hupload.trans (saveReceipt_turn _ stem (ftpDestination md5 w.settings ++
        ascii " " ++ fileSum md5 stem content) env []).log
      split
      · exact hsaved
      · exact hsaved.trans (deleteRecording_turn _ stem env []).log

/-- The world when a scan comes to the file after `pre`. -/
def atTurn (md5 : Bytes → Bytes) (w : World) (env : ScanEnv) (pre : List (Bytes × FileEnv)) :
    World := checkLoop md5 (orphanLoop w env.receipts) pre

/-- **A file that is pending at its turn is tried**, whatever became of the files before it. -/
theorem scan_attempts {md5 : Bytes → Bytes} (hd : IsDigest md5) {w : World} {env : ScanEnv}
    {pre post : List (Bytes × FileEnv)} {stem content : Bytes} {fe : FileEnv}
    (hfiles : env.files = pre ++ (stem, fe) :: post) (hstop : ∀ f ∈ pre, f.2.stop = false)
    (hfe : fe.stop = false) (h : Pending md5 (atTurn md5 w env pre) stem content) :
    ∃ new receipt, (checkFiles md5 w env).log = w.log ++ new ∧
      .attempted w.settings stem content receipt ∈ new := by
  have hswept := orphanLoop_swept w env.receipts
  obtain ⟨hbefore, hsettings⟩ := checkLoop_log md5 (orphanLoop w env.receipts) pre
  have hattempt := checkFile_attempts h fe
  have hafter := (checkLoop_log md5 (checkFile md5 (atTurn md5 w env pre) stem fe) post).1
  have hend : checkFiles md5 w env =
      checkLoop md5 (checkFile md5 (atTurn md5 w env pre) stem fe) post := by
    have hno : ¬ fe.stop = true := Bool.eq_false_iff.mp hfe
    rw [checkFiles, if_neg (ftpDestination_ne_nil hd _), hfiles, checkLoop_append hstop, checkLoop,
      if_neg hno]
    rfl
  obtain ⟨before, hb⟩ := hbefore
  obtain ⟨after, ha⟩ := hattempt.trans hafter
  have hs : (atTurn md5 w env pre).settings = w.settings := hsettings.trans hswept.settings
  refine ⟨before ++ [.attempted w.settings stem content ((atTurn md5 w env pre).files
    (.receipt stem))] ++ after, (atTurn md5 w env pre).files (.receipt stem), ?_, ?_⟩
  · rw [hend, ← ha, hs, ← hswept.log, ← List.append_assoc, ← List.append_assoc, hb]
    rfl
  · exact List.mem_append_left _ (List.mem_append_right _ (List.mem_singleton_self _))

/-- The edits leave a recording and its receipt alone. -/
def Untouched (stem : Bytes) (edits : List Edit) : Prop :=
  ∀ e ∈ edits, e.1 ≠ .recording stem ∧ e.1 ≠ .receipt stem

theorem checkLoop_pending {md5 : Bytes → Bytes} {w : World} {pre : List (Bytes × FileEnv)}
    {stem content : Bytes} (hnot : stem ∉ pre.map Prod.fst)
    (huntouched : ∀ f ∈ pre, Untouched stem (f.2.upload.before ++ f.2.upload.during))
    (h : Pending md5 w stem content) : Pending md5 (checkLoop md5 w pre) stem content := by
  induction pre generalizing w with
  | nil => exact h
  | cons f pre ih =>
    obtain ⟨other, env⟩ := f
    rw [List.map_cons, List.mem_cons, not_or] at hnot
    obtain ⟨hother, hnot⟩ := hnot
    unfold checkLoop
    split
    · exact h
    · refine ih hnot (fun f hf => huntouched f (List.mem_cons_of_mem _ hf)) ?_
      have hturn := checkFile_turn md5 w other env
      have hedits := huntouched (other, env) List.mem_cons_self
      have hrec : (checkFile md5 w other env).files (.recording stem) = w.files (.recording stem) :=
        hturn.others _ (by simp [Path.of, hother]) fun e he => (hedits e he).1
      have hreceipt : (checkFile md5 w other env).files (.receipt stem) = w.files (.receipt stem) :=
        hturn.others _ (by simp [Path.of, hother]) fun e he => (hedits e he).2
      refine ⟨hrec.trans h.1, ?_⟩
      rw [hreceipt, hturn.settings]
      exact h.2

/-- A file nobody touches stays pending until its turn. -/
theorem pending_atTurn {md5 : Bytes → Bytes} {w : World} {env : ScanEnv}
    {pre : List (Bytes × FileEnv)} {stem content : Bytes} (hnot : stem ∉ pre.map Prod.fst)
    (huntouched : ∀ f ∈ pre, Untouched stem (f.2.upload.before ++ f.2.upload.during))
    (h : Pending md5 w stem content) : Pending md5 (atTurn md5 w env pre) stem content := by
  have hswept := orphanLoop_swept w env.receipts
  refine checkLoop_pending hnot huntouched ⟨(hswept.recordings stem).trans h.1, ?_⟩
  rw [hswept.receipts stem (by rw [h.1]; nofun), hswept.settings]
  exact h.2

/-! ## 5. The queue is safe -/

/-- A deletion in the log has before it the upload of the content to the destination it happened
    under. -/
def DeletedSent (log : List Event) : Prop :=
  ∀ pre σ stem content post, log = pre ++ .deleted σ stem content :: post →
    ∃ σ', SameDestination σ' σ ∧ .uploaded σ' stem content ∈ pre

/-- Settings of single lines are told apart by their texts. -/
theorem Inv.deletedSent {md5 : Bytes → Bytes} {w : World} (h : Inv md5 Settings.OneLine w) :
    DeletedSent w.log := by
  intro pre σ stem content post hlog
  obtain ⟨σ', htext, hmem⟩ := h.log pre _ post hlog
  have hdeleted : σ.OneLine := h.under (.deleted σ stem content) (by rw [hlog]; simp)
  have hsent : σ'.OneLine :=
    h.under (.uploaded σ' stem content) (by rw [hlog]; exact List.mem_append_left _ hmem)
  exact ⟨σ', destinationText_inj hsent hdeleted htext, hmem⟩

/-- **The queue loses nothing locally.** After any run of scans from a fresh card the log is in
    order: a recording is deleted only with a content sent under settings of the same text, a
    receipt is written only of an upload, no upload is tried against a matching receipt. Where all
    settings are single lines, the content was sent to the destination of the scan that deletes it.
    And a scan tries every file that is pending at its turn, as every file nobody touches then still
    is. -/
theorem queue_safe (md5 : Bytes → Bytes) (hd : IsDigest md5) :
    (∀ w ops, Fresh md5 w → StepsMeet (step md5) (OpFair md5) w ops →
      LogOk md5 (run (step md5) w ops).log ∧
      (w.settings.OneLine → (∀ op ∈ ops, op.Sets Settings.OneLine) →
        DeletedSent (run (step md5) w ops).log)) ∧
    (∀ w env pre stem fe post content, env.files = pre ++ (stem, fe) :: post →
      (∀ f ∈ pre ++ [(stem, fe)], f.2.stop = false) →
      (Pending md5 (atTurn md5 w env pre) stem content → ∃ new receipt,
        (checkFiles md5 w env).log = w.log ++ new ∧
        .attempted w.settings stem content receipt ∈ new) ∧
      (stem ∉ pre.map Prod.fst →
        (∀ f ∈ pre, Untouched stem (f.2.upload.before ++ f.2.upload.during)) →
        Pending md5 w stem content → Pending md5 (atTurn md5 w env pre) stem content)) := by
  constructor
  · intro w ops hfresh hfair
    have hany : ∀ op ∈ ops, op.Sets fun _ => True := fun op _ => by cases op <;> trivial
    refine ⟨(queue_keeps hd hfresh trivial hfair hany).log, fun hline hsets => ?_⟩
    exact (queue_keeps hd hfresh hline hfair hsets).deletedSent
  · intro w env pre stem fe post content hfiles hstop
    refine ⟨fun h => scan_attempts hd hfiles
      (fun f hf => hstop f (List.mem_append_left _ hf))
      (hstop _ (List.mem_append_right _ (List.mem_singleton_self _))) h, fun hnot hun h => ?_⟩
    exact pending_atTurn hnot hun h

/-! ## 6. A run -/

def sampleStem : Bytes := ascii "/tmp/sd/record/2024Y01M02D03H/E1M00S60"

/-- One recording on the card, nothing else. -/
def sampleWorld : World where
  files := Function.update (fun _ => none) (.recording sampleStem) (some firstClip)
  remote := fun _ => none
  settings := flatSettings
  log := []

/-- A turn in which everything succeeds and nobody else touches a file. -/
def sampleTurn : FileEnv where
  stop := false
  upload := ⟨[], [], [], true, none⟩
  printfOk := true
  mvOk := true
  rmFileOk := true
  rmThumbnailOk := true
  rmReceiptOk := true
  rmReceiptTmpOk := true

def sampleScan : ScanEnv := ⟨[], [(sampleStem, sampleTurn)]⟩

theorem sampleWorld_fresh : Fresh sampleMd5 sampleWorld :=
  ⟨fun _ => vouched_none, rfl⟩

/-- The recording is sent, noted, and deleted in that order. -/
theorem queue_safe_once :
    LogOk sampleMd5 (run (step sampleMd5) sampleWorld [.scan sampleScan]).log ∧
    DeletedSent (run (step sampleMd5) sampleWorld [.scan sampleScan]).log ∧
    .deleted flatSettings sampleStem firstClip ∈
      (run (step sampleMd5) sampleWorld [.scan sampleScan]).log ∧
    ∃ new receipt, (checkFiles sampleMd5 sampleWorld sampleScan).log = [] ++ new ∧
      .attempted flatSettings sampleStem firstClip receipt ∈ new := by
  obtain ⟨hrun, hscan⟩ := queue_safe sampleMd5 sampleMd5_isDigest
  obtain ⟨hlog, hsent⟩ := hrun sampleWorld [.scan sampleScan] sampleWorld_fresh
    ⟨⟨⟨nofun, fun _ => trivial⟩, trivial⟩, trivial⟩
  refine ⟨hlog, hsent (by decide) fun op hop => List.mem_singleton.mp hop ▸ trivial,
    by decide, ?_⟩
  obtain ⟨hattempt, hpending⟩ := hscan sampleWorld sampleScan [] sampleStem sampleTurn [] firstClip
    rfl (by decide)
  have hnone : sampleWorld.files (.receipt sampleStem) = none := by simp [sampleWorld]
  refine hattempt (hpending (by simp) nofun ⟨by simp [sampleWorld], ?_⟩)
  rw [hnone]
  exact expectedReceipt_ne_nil.symm

/-- `FTP_DIR` stands in the file twice, as `d` and as `no`; nothing is deleted. -/
def dirTwice : Settings where
  host := ascii "h"
  dir := ascii "d\nno"
  dirTree := ascii "no"
  username := ascii "u"
  password := []
  deleteAfterUpload := ascii "no"

/-- `FTP_DIR` is `d`, and `FTP_DIR_TREE` stands in the file twice. -/
def treeTwice : Settings where
  host := ascii "h"
  dir := ascii "d"
  dirTree := ascii "no\nno"
  username := ascii "u"
  password := []
  deleteAfterUpload := ascii "yes"

/-- A scan under the first, and one under the second. -/
def confusingOps : List Op :=
  [.settings dirTwice, .scan sampleScan, .settings treeTwice, .scan sampleScan]

/-- **Two destinations can have one text**: the receipt of the first passes for one of the second,
    and the recording is deleted though it was never sent there. -/
theorem destination_confused : ¬ ∀ (md5 : Bytes → Bytes), IsDigest md5 → ∀ w ops, Fresh md5 w →
    StepsMeet (step md5) (OpFair md5) w ops → DeletedSent (run (step md5) w ops).log := by
  intro h
  have hfair : StepsMeet (step sampleMd5) (OpFair sampleMd5) sampleWorld confusingOps :=
    ⟨trivial, ⟨⟨nofun, fun _ => trivial⟩, trivial⟩, trivial, ⟨⟨nofun, fun _ => trivial⟩, trivial⟩,
      trivial⟩
  have hlog : (run (step sampleMd5) sampleWorld confusingOps).log =
      [.attempted dirTwice sampleStem firstClip none, .uploaded dirTwice sampleStem firstClip,
        .receipted sampleStem (expectedReceipt sampleMd5 dirTwice sampleStem firstClip)] ++
      [.deleted treeTwice sampleStem firstClip] := by decide +kernel
  obtain ⟨σ', hsame, hmem⟩ := h sampleMd5 sampleMd5_isDigest sampleWorld confusingOps
    sampleWorld_fresh hfair _ _ _ _ _ hlog
  simp only [List.mem_cons, List.not_mem_nil, or_false, reduceCtorEq, false_or, Event.uploaded.injEq,
    and_true] at hmem
  rw [hmem] at hsame
  exact absurd hsame.2.1 (by decide)

end YiHack.Ftp
