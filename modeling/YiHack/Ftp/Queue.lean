/-
  File:      YiHack/Ftp/Queue.lean
  Subject:   `ftppush_queue.sh`: `checkFiles`, the scan that uploads recordings and deletes them.

  A receipt beside a recording holds the digest of the destination settings, printed one below the
  other, and the digest of the content that was uploaded to it. A key that stands in the file more
  than once has several lines, so that two destinations can have one text. Digests are a parameter
  (`IsDigest`). What others do to the files between scans and during uploads is part of the input;
  section 3 says what is asked of it.
-/
import YiHack.Ftp.Upload
import YiHack.General.Run

namespace YiHack.Ftp

open General

/-! ## 1. Receipts -/

/-- `printf '%s\n'`. -/
def lines (ls : List Bytes) : Bytes := ls.flatMap fun l => l ++ [10]

def space : UInt8 := 32

/-- What `checkFiles` takes the digest of. -/
def destinationText (σ : Settings) : Bytes :=
  lines [ascii "ftp-receipt-v1", σ.host, σ.dir, σ.dirTree, σ.username]

/-- `FTP_DESTINATION`: the first field of what `md5sum` prints. -/
def ftpDestination (md5 : Bytes → Bytes) (σ : Settings) : Bytes :=
  (md5 (destinationText σ) ++ ascii "  -").takeWhile (· ≠ space)

/-- `FILE_SUM`: what `md5sum` prints for a recording. -/
def fileSum (md5 : Bytes → Bytes) (stem content : Bytes) : Bytes :=
  md5 content ++ ascii "  " ++ recordingName stem

/-- `EXPECTED_RECEIPT`. -/
def expectedReceipt (md5 : Bytes → Bytes) (σ : Settings) (stem content : Bytes) : Bytes :=
  ftpDestination md5 σ ++ ascii " " ++ fileSum md5 stem content

/-- What `$(...)` keeps of a text: all but the newlines at its end. -/
def substituted (text : Bytes) : Bytes := (text.reverse.dropWhile (· = 10)).reverse

/-- What `$(cat ...)` reads from a file; nothing where there is none. -/
def catFile (content : Option Bytes) : Bytes := substituted (content.getD [])

/-! ## 2. checkFiles -/

/-- What one turn of the loop meets: a stop request, the upload, and how the commands that save
    the receipt and delete the files end. -/
structure FileEnv where
  stop : Bool
  upload : UploadEnv
  printfOk : Bool
  mvOk : Bool
  rmFileOk : Bool
  rmThumbnailOk : Bool
  rmReceiptOk : Bool
  rmReceiptTmpOk : Bool

def World.setFile (w : World) (p : Path) (c : Option Bytes) : World :=
  { w with files := Function.update w.files p c }

def World.addLog (w : World) (e : Event) : World := { w with log := w.log ++ [e] }

/-- `rm` of one file, when it does not fail. -/
def World.rm (w : World) (p : Path) (ok : Bool) : World := if ok then w.setFile p none else w

/-- `rm` of a recording, noted in the log with the content that goes. -/
def rmRecording (w : World) (stem : Bytes) (ok : Bool) : World :=
  match w.files (.recording stem) with
  | some content =>
    if ok then (w.addLog (.deleted w.settings stem content)).setFile (.recording stem) none else w
  | none => w

/-- The deletion at the end of a turn. -/
def deleteRecording (w : World) (stem : Bytes) (env : FileEnv) : World :=
  if w.settings.deleteAfterUpload = ascii "yes" then
    let w := (rmRecording w stem env.rmFileOk).rm (.thumbnail stem) env.rmThumbnailOk
    if env.rmFileOk ∧ env.rmThumbnailOk then
      (w.rm (.receipt stem) env.rmReceiptOk).rm (.receiptTmp stem) env.rmReceiptTmpOk
    else w
  else w

/-- Saving the receipt `text`: to the temporary name, then in place. -/
def saveReceipt (w : World) (stem text : Bytes) (env : FileEnv) : Bool × World :=
  let w := if env.printfOk then w.setFile (.receiptTmp stem) (some (text ++ [10])) else w
  if env.printfOk ∧ env.mvOk then
    (true, ((w.setFile (.receipt stem) (w.files (.receiptTmp stem))).setFile
      (.receiptTmp stem) none).addLog (.receipted stem text))
  else (false, w)

/-- One turn of the loop over the recordings. -/
def checkFile (md5 : Bytes → Bytes) (w : World) (stem : Bytes) (env : FileEnv) : World :=
  match w.files (.recording stem) with
  | none => w
  | some content =>
    let sum := fileSum md5 stem content
    let expected := ftpDestination md5 w.settings ++ ascii " " ++ sum
    if catFile (w.files (.receipt stem)) ≠ expected then
      let w := w.addLog (.attempted w.settings stem content (w.files (.receipt stem)))
      let (ok, w) := uploadToFtp w stem env.upload
      if ok = false then w
      else if (w.files (.recording stem)).map (fileSum md5 stem) ≠ some sum then w
      else
        let (saved, w) := saveReceipt w stem expected env
        if saved = false then w else deleteRecording w stem env
    else deleteRecording w stem env

/-- The loop over the recordings `find` lists. -/
def checkLoop (md5 : Bytes → Bytes) : World → List (Bytes × FileEnv) → World
  | w, [] => w
  | w, (stem, env) :: rest => if env.stop then w else checkLoop md5 (checkFile md5 w stem env) rest

/-- The recording a receipt is of. -/
def originalOf : Path → Option Bytes
  | .receipt stem => some stem
  | .receiptTmp stem => some stem
  | _ => none

/-- The loop over the receipts `find` lists, with how each `rm` ends. -/
def orphanLoop (w : World) (receipts : List (Path × Bool)) : World :=
  receipts.foldl (fun w r =>
    match originalOf r.1 with
    | some stem => if w.files (.recording stem) = none then w.rm r.1 r.2 else w
    | none => w) w

/-- What a scan meets: the receipts and the recordings `find` lists. -/
structure ScanEnv where
  receipts : List (Path × Bool)
  files : List (Bytes × FileEnv)

/-- `checkFiles`. -/
def checkFiles (md5 : Bytes → Bytes) (w : World) (env : ScanEnv) : World :=
  if ftpDestination md5 w.settings = [] then w
  else checkLoop md5 (orphanLoop w env.receipts) env.files

/-! ## 3. Runs -/

/-- Files or settings change between scans, or a scan runs. -/
inductive Op
  | edit (edits : List Edit)
  | settings (σ : Settings)
  | scan (env : ScanEnv)

def step (md5 : Bytes → Bytes) (w : World) : Op → World
  | .edit edits => { w with files := applyEdits w.files edits }
  | .settings σ => { w with settings := σ }
  | .scan env => checkFiles md5 w env

/-- A receipt is of an upload: what it names has been sent under settings of the text it names. -/
def Vouched (md5 : Bytes → Bytes) (log : List Event) (stem : Bytes) (receipt : Option Bytes) :
    Prop :=
  ∀ σ content, catFile receipt = expectedReceipt md5 σ stem content →
    ∃ σ', destinationText σ' = destinationText σ ∧ .uploaded σ' stem content ∈ log

/-- Others forge no receipts. They may remove them, or put them back. -/
def EditsOk (md5 : Bytes → Bytes) (log : List Event) (edits : List Edit) : Prop :=
  ∀ e ∈ edits, ∀ stem, e.1 = .receipt stem → Vouched md5 log stem e.2

/-- A file that changes during its upload does not return to its earlier content before the
    upload ends. -/
def NoReturn (w : World) (stem : Bytes) (u : UploadEnv) : Prop :=
  applyEdits w.files (u.before ++ u.during) (.recording stem) = w.files (.recording stem) →
    Steady w.files (.recording stem) (u.before ++ u.during)

/-- What is asked of the environment in one turn of the loop. -/
def TurnFair (md5 : Bytes → Bytes) (w : World) (stem : Bytes) (env : FileEnv) : Prop :=
  EditsOk md5 w.log (env.upload.before ++ env.upload.during) ∧ NoReturn w stem env.upload

/-- The same of every turn of the loop. -/
def LoopFair (md5 : Bytes → Bytes) : World → List (Bytes × FileEnv) → Prop
  | _, [] => True
  | w, (stem, env) :: rest =>
    TurnFair md5 w stem env ∧ LoopFair md5 (checkFile md5 w stem env) rest

/-- The same of a step. -/
def OpFair (md5 : Bytes → Bytes) (w : World) : Op → Prop
  | .edit edits => EditsOk md5 w.log edits
  | .settings _ => True
  | .scan env => LoopFair md5 (orphanLoop w env.receipts) env.files

/-- Nothing done yet, and no file that passes for a receipt. -/
structure Fresh (md5 : Bytes → Bytes) (w : World) : Prop where
  receipts : ∀ stem, Vouched md5 [] stem (w.files (.receipt stem))
  log : w.log = []

/-! ## 4. What an event needs before it -/

/-- What must have happened before an event. -/
def Justified (md5 : Bytes → Bytes) (before : List Event) : Event → Prop
  | .deleted σ stem content =>
    ∃ σ', destinationText σ' = destinationText σ ∧ .uploaded σ' stem content ∈ before
  | .receipted stem text =>
    ∃ σ content, text = expectedReceipt md5 σ stem content ∧ .uploaded σ stem content ∈ before
  | .attempted σ stem content receipt => catFile receipt ≠ expectedReceipt md5 σ stem content
  | .uploaded _ _ _ => True

/-- Every event of the log has what it needs before it. -/
def LogOk (md5 : Bytes → Bytes) (log : List Event) : Prop :=
  ∀ pre e post, log = pre ++ e :: post → Justified md5 pre e

theorem LogOk.snoc {md5 : Bytes → Bytes} {log : List Event} {e : Event} (h : LogOk md5 log)
    (he : Justified md5 log e) : LogOk md5 (log ++ [e]) := by
  intro pre x post hsplit
  rcases List.eq_nil_or_concat post with rfl | ⟨post', y, rfl⟩
  · obtain ⟨rfl, hx⟩ := List.append_inj' hsplit rfl
    cases hx
    exact he
  · refine h pre x post' ?_
    have e1 : log ++ [e] = (pre ++ x :: post') ++ [y] := by
      rw [hsplit]
      simp
    exact (List.append_inj' e1 rfl).1

/-! ## 5. Digests -/

/-- What is asked of the digest: it tells texts apart, and is a word. -/
structure IsDigest (md5 : Bytes → Bytes) : Prop where
  injective : Function.Injective md5
  noSpace : ∀ x, space ∉ md5 x
  ne_nil : ∀ x, md5 x ≠ []

/-- Settings of single lines with one text name one destination. -/
theorem destinationText_inj {σ σ' : Settings} (h1 : σ.OneLine) (h2 : σ'.OneLine)
    (h : destinationText σ = destinationText σ') : SameDestination σ σ' := by
  unfold Settings.OneLine at h1 h2
  simp only [List.mem_cons, List.not_mem_nil, or_false, forall_eq_or_imp, forall_eq] at h1 h2
  have split : ∀ {a b r r' : Bytes}, (10 : UInt8) ∉ a → (10 : UInt8) ∉ b →
      a ++ [10] ++ r = b ++ [10] ++ r' → a = b ∧ r = r' := by
    intro a b r r' ha hb hab
    rw [List.append_assoc, List.append_assoc] at hab
    exact sep_inj ha hb hab
  simp only [destinationText, lines, List.flatMap_cons, List.flatMap_nil] at h
  obtain ⟨-, h⟩ := split (by decide) (by decide) h
  obtain ⟨hhost, h⟩ := split h1.1 h2.1 h
  obtain ⟨hdir, h⟩ := split h1.2.1 h2.2.1 h
  obtain ⟨htree, h⟩ := split h1.2.2.1 h2.2.2.1 h
  obtain ⟨huser, -⟩ := split h1.2.2.2 h2.2.2.2 h
  exact ⟨hhost, hdir, htree, huser⟩

section Digests

variable {md5 : Bytes → Bytes} (hd : IsDigest md5)

include hd

theorem ftpDestination_eq (σ : Settings) : ftpDestination md5 σ = md5 (destinationText σ) := by
  unfold ftpDestination
  rw [List.takeWhile_append_of_pos]
  · have e : (ascii "  -").takeWhile (· ≠ space) = [] := rfl
    rw [e, List.append_nil]
  · intro b hb
    exact decide_eq_true fun h => hd.noSpace _ (h ▸ hb)

theorem ftpDestination_ne_nil (σ : Settings) : ftpDestination md5 σ ≠ [] := by
  rw [ftpDestination_eq hd]
  exact hd.ne_nil _

/-- **A receipt tells the text of its settings and its content.** -/
theorem expectedReceipt_inj {σ σ' : Settings} {stem c c' : Bytes}
    (h : expectedReceipt md5 σ stem c = expectedReceipt md5 σ' stem c') :
    destinationText σ = destinationText σ' ∧ c = c' := by
  have e1 : ascii " " = [space] := rfl
  have e2 : ascii "  " = [space, space] := rfl
  unfold expectedReceipt fileSum at h
  rw [ftpDestination_eq hd, ftpDestination_eq hd, e1, e2, List.append_assoc,
    List.append_assoc, List.append_assoc, List.append_assoc] at h
  obtain ⟨hdest, h⟩ := sep_inj (hd.noSpace _) (hd.noSpace _) h
  obtain ⟨hc, -⟩ := sep_inj (hd.noSpace _) (hd.noSpace _) h
  exact ⟨hd.injective hdest, hd.injective hc⟩

theorem fileSum_inj {stem c c' : Bytes} (h : fileSum md5 stem c = fileSum md5 stem c') :
    c = c' := by
  unfold fileSum at h
  rw [List.append_assoc, List.append_assoc] at h
  exact hd.injective (List.append_cancel_right h)

end Digests

/-- A receipt ends in the recording's name, so no newline of its own is lost. -/
theorem substituted_line {x : Bytes} : substituted (x ++ ascii ".mp4" ++ [10]) = x ++ ascii ".mp4" := by
  have e : (ascii ".mp4").reverse = [52, 112, 109, 46] := rfl
  unfold substituted
  rw [List.reverse_append, List.reverse_append, e]
  show (List.dropWhile _ ([10] ++ ([52, 112, 109, 46] ++ x.reverse))).reverse = _
  rw [List.singleton_append, List.dropWhile_cons_of_pos (by decide), List.cons_append,
    List.dropWhile_cons_of_neg (by decide), ← List.cons_append, ← e, ← List.reverse_append,
    List.reverse_reverse]

/-- The receipt as it is read back. -/
theorem catFile_saved {md5 : Bytes → Bytes} {σ : Settings} {stem c : Bytes} :
    catFile (some (expectedReceipt md5 σ stem c ++ [10])) = expectedReceipt md5 σ stem c := by
  have e : expectedReceipt md5 σ stem c =
      (ftpDestination md5 σ ++ ascii " " ++ (md5 c ++ ascii "  " ++ stem)) ++ ascii ".mp4" := by
    simp only [expectedReceipt, fileSum, recordingName, List.append_assoc]
  unfold catFile
  rw [Option.getD_some, e, substituted_line]

theorem expectedReceipt_ne_nil {md5 : Bytes → Bytes} {σ : Settings} {stem c : Bytes} :
    expectedReceipt md5 σ stem c ≠ [] := by
  intro h
  have hlen := congrArg List.length h
  have e : (ascii " ").length = 1 := rfl
  simp only [expectedReceipt, List.length_append, List.length_nil, e] at hlen
  omega

/-! ## 6. A digest to run it with -/

/-- A word for every text: each byte as ones up to a two. -/
def unary (x : Bytes) : Bytes := x.flatMap fun b => List.replicate b.toNat 1 ++ [2]

theorem unary_inj : Function.Injective unary := by
  intro x
  induction x with
  | nil =>
    intro y h
    cases y with
    | nil => rfl
    | cons c y => simp [unary] at h
  | cons b x ih =>
    intro y h
    cases y with
    | nil => simp [unary] at h
    | cons c y =>
      have hone : ∀ n, (2 : UInt8) ∉ List.replicate n (1 : UInt8) :=
        fun n hm => absurd (List.eq_of_mem_replicate hm) (by decide)
      simp only [unary, List.flatMap_cons, List.append_assoc] at h
      obtain ⟨hb, hx⟩ := sep_inj (hone _) (hone _) h
      have hlen := congrArg List.length hb
      rw [List.length_replicate, List.length_replicate, UInt8.toNat_inj] at hlen
      rw [hlen, ih hx]

theorem space_notMem_unary (x : Bytes) : space ∉ unary x := by
  intro h
  obtain ⟨b, -, hb⟩ := List.mem_flatMap.mp h
  rcases List.mem_append.mp hb with hm | hm
  · exact absurd (List.eq_of_mem_replicate hm) (by decide)
  · exact absurd (List.mem_singleton.mp hm) (by decide)

/-- A camera that sends to `h` as user `u`, and deletes. -/
def sampleSettings (dirTree : Bytes) : Settings where
  host := ascii "h"
  dir := []
  dirTree := dirTree
  username := ascii "u"
  password := []
  deleteAfterUpload := ascii "yes"

def flatSettings : Settings := sampleSettings (ascii "no")

def treeSettings : Settings := sampleSettings (ascii "yes")

def firstClip : Bytes := ascii "clip"

def secondClip : Bytes := ascii "other"

/-- Texts with their digests. -/
def sampleDigests : List (Bytes × Bytes) :=
  [(destinationText flatSettings, ascii "fd996dcfed11a5154ada6d429066eef0"),
    (destinationText treeSettings, ascii "35522959f20cd23639a06b0d1d541886"),
    (firstClip, ascii "f6d8b886335927d46fad323c60335d09"),
    (secondClip, ascii "795f3202b17cb6bc3d4b771d8c6c9eaf")]

/-- The digests of some texts, and words of another kind for all others. -/
def sampleMd5 (x : Bytes) : Bytes := (sampleDigests.lookup x).getD (122 :: unary x)

theorem sampleMd5_cases (x : Bytes) :
    (x, sampleMd5 x) ∈ sampleDigests ∨ sampleMd5 x = 122 :: unary x := by
  unfold sampleMd5
  cases h : sampleDigests.lookup x with
  | none => exact .inr rfl
  | some d =>
    obtain ⟨l₁, l₂, hsplit, -⟩ := List.lookup_eq_some_iff.mp h
    exact .inl (hsplit ▸ List.mem_append_right _ List.mem_cons_self)

theorem sampleMd5_isDigest : IsDigest sampleMd5 where
  injective := by
    have htable : ∀ e ∈ sampleDigests, e.2.head? ≠ some 122 := by decide
    have hfun : ∀ e ∈ sampleDigests, ∀ e' ∈ sampleDigests, e.2 = e'.2 → e.1 = e'.1 := by decide
    intro x y h
    rcases sampleMd5_cases x with hx | hx <;> rcases sampleMd5_cases y with hy | hy
    · exact hfun _ hx _ hy h
    · exact absurd (congrArg List.head? (h.trans hy)) (htable _ hx)
    · exact absurd (congrArg List.head? (h.symm.trans hx)) (htable _ hy)
    · exact unary_inj (List.cons.inj (hx.symm.trans (h.trans hy))).2
  noSpace := by
    have htable : ∀ e ∈ sampleDigests, space ∉ e.2 := by decide
    intro x
    rcases sampleMd5_cases x with hx | hx
    · exact htable _ hx
    · rw [hx]
      exact fun h => (List.mem_cons.mp h).elim (by decide) (space_notMem_unary x)
  ne_nil := by
    have htable : ∀ e ∈ sampleDigests, e.2 ≠ [] := by decide
    intro x
    rcases sampleMd5_cases x with hx | hx
    · exact htable _ hx
    · rw [hx]
      exact List.cons_ne_nil _ _

end YiHack.Ftp
