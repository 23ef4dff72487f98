/-
  File:      YiHack/Boot/EnsureKernel.lean
  Subject:   `ensure_y623_ve_kernel.sh`: the boot partition of y623, written in place.

  The script may be called again and again, in either mode; every command may fail, a `dd` may leave
  anything, whatever its status says, and the power may be lost at any command. What was written
  since the last `sync` is then anything too. A call is not killed alone.

  * `restoreStock`, `preserveStock`, `ensureKernel` -- the script;
  * `Answer` -- what a call means by its status and its last message;
  * `Inv` -- the partition is as it was found, or its stock image is on the card;
  * **`boot_guarded`** -- so it is, over any calls and losses of power.
-/
import YiHack.General.Shell
import YiHack.General.Text

namespace YiHack.Boot.EnsureKernel

open General Prog

/-! ## 1. Partition and card -/

def EXPECTED_HOMEVER : String := "12.0.51.01_202303091901"

def EXPECTED_SIZE : Nat := 1900544

def EXPECTED_STOCK_MD5 : String := "2c8abc0f8376bdb55d8464abc6bf14a8"

def EXPECTED_PATCHED_MD5 : String := "26a2e9a432fbe36efe97f0e7cee84dc9"

/-- `BOOT_DEV`, `BACKUP_IMAGE` and `TMP_BACKUP`; whether partition and backup are synced. -/
structure Flash where
  boot : Bytes
  backup : Option Bytes
  tmpBackup : Option Bytes
  bootSynced : Bool
  backupSynced : Bool
  deriving DecidableEq

/-- What a `dd` leaves: what it is asked for, or anything else. -/
inductive Fate
  | asked
  | found (b : Bytes)

/-- `said` is the last message, `fates` what becomes of the next copies. -/
structure Camera where
  flash : Flash
  said : Option String
  fates : List Fate

/-- A call: its mode, and what it is given. -/
structure Call where
  check : Bool
  modelSuffix : String
  homever : String
  image : Option Bytes

/-- `bs=65536 count=29`. -/
def blocks : Nat := 65536 * 29

/-- What is left of what is asked for. -/
def leaves (asked : Bytes) : List Fate → Bytes × List Fate
  | [] => (asked, [])
  | .asked :: fs => (asked, fs)
  | .found b :: fs => (b, fs)

/-! ## 2. Commands -/

/-- A comparison, or a question; where one of its programs fails the answer is no. -/
def verify (p : Flash → Bool) : Prog Camera Bool :=
  .cmd (fun ok s => (s, ok && p s.flash)) fun ok _ => .pure ok

/-- What only the surroundings know. -/
def external : Prog Camera Bool := verify fun _ => true

def act (f : Flash → Option Flash) : Prog Camera Bool :=
  command fun s => (f s.flash).map fun d => { s with flash := d }

/-- `dd if="$BOOT_DEV" of="$TMP_BACKUP"`. -/
def ddBackup : Prog Camera Bool :=
  .cmd (fun ok s =>
    let (b, fates) := leaves (s.flash.boot.take blocks) s.fates
    ({ s with flash := { s.flash with tmpBackup := some b }, fates }, ok))
    fun ok _ => .pure ok

/-- `dd if=... of="$BOOT_DEV"`. -/
def ddBoot (source : Flash → Option Bytes) : Prog Camera Bool :=
  .cmd (fun ok s =>
    match source s.flash with
    | none => (s, false)
    | some c =>
      let c := c.take blocks
      let (b, fates) := leaves (c ++ s.flash.boot.drop c.length) s.fates
      ({ s with flash := { s.flash with boot := b, bootSynced := false }, fates }, ok))
    fun ok _ => .pure ok

def sync : Prog Camera Unit :=
  assign fun s => { s with flash := { s.flash with bootSynced := true, backupSynced := true } }

def echo (text : String) : Prog Camera Bool :=
  command fun s => some { s with said := some ("ensure_y623_ve_kernel: " ++ text) }

def fail {α : Type} (text : String) : Prog Camera α := do
  let _ ← echo text
  .exit false

/-- `echo ...; exit 0`. -/
def done {α : Type} (text : String) : Prog Camera α := do
  let _ ← echo text
  .exit true

/-- `command || fail text`. -/
def orFail (c : Prog Camera Bool) (text : String) : Prog Camera Unit := do
  if ← c then return () else fail text

/-- `rm -f "$TMP_BACKUP"`. -/
def rmTmp : Prog Camera Bool := act fun f => some { f with tmpBackup := none }

/-- `command || { rm -f "$TMP_BACKUP"; fail text; }`. -/
def orDrop (c : Prog Camera Bool) (text : String) : Prog Camera Unit := do
  if ← c then return ()
  else
    let _ ← rmTmp
    fail text

/-! ## 3. The script -/

section

variable (md5 : Bytes → String)

/-- `file_md5`: nothing of a file that is not there. -/
def fileMd5 (b : Option Bytes) : String := (b.map md5).getD ""

/-- `X=$(file_md5 "$BOOT_DEV")`. -/
def bootMd5 : Prog Camera String :=
  .cmd (fun ok s => (s, ok)) fun ok s => .pure (if ok then md5 s.flash.boot else "")

/-- `[ -s "$BACKUP_IMAGE" ]`. -/
def hasBackup (f : Flash) : Bool := f.backup.any fun k => !k.isEmpty

def restoreStock : Prog Camera Bool := do
  if ← test fun s => hasBackup s.flash then
    if ← verify fun f => fileMd5 md5 f.backup = EXPECTED_STOCK_MD5 then
      if ← ddBoot fun f => f.backup then
        sync
        verify fun f => md5 f.boot = EXPECTED_STOCK_MD5
      else return false
    else return false
  else return false

/-- A verified copy of the stock partition is put in place. -/
def preserveStock : Prog Camera Unit := do
  let _ ← rmTmp
  orDrop ddBackup "cannot preserve stock boot partition"
  orDrop (verify fun f => f.tmpBackup.map List.length = some EXPECTED_SIZE)
    "stock boot backup size mismatch"
  orDrop (verify fun f => fileMd5 md5 f.tmpBackup = EXPECTED_STOCK_MD5)
    "stock boot backup hash mismatch"
  orDrop (act fun f => f.tmpBackup.map fun b =>
      { f with backup := some b, tmpBackup := none, backupSynced := false })
    "cannot activate stock boot backup"
  sync

/-- The backup, from this call or an earlier one. -/
def backupStock : Prog Camera Unit := do
  orFail external "cannot create boot backup directory"
  if ← test fun s => hasBackup s.flash then
    orFail (verify fun f => fileMd5 md5 f.backup = EXPECTED_STOCK_MD5)
      "existing stock boot backup has unexpected hash"
  else preserveStock md5

/-- What is written is read back; if it is not right the stock image comes back. -/
def writePatched (c : Call) : Prog Camera Unit := do
  if ← ddBoot fun _ => c.image then
    sync
    let written ← bootMd5 md5
    if written ≠ EXPECTED_PATCHED_MD5 then
      if ← restoreStock md5 then fail "patched boot verification failed; stock boot restored"
      else fail "patched boot verification failed and stock restore failed"
    else done "patched and verified"
  else
    let _ ← restoreStock md5
    fail "boot partition write failed; stock restore attempted"

/-- Behind the checks: what the partition holds decides. -/
def ensureLive (c : Call) (live : String) : Prog Camera Unit := do
  if live = EXPECTED_PATCHED_MD5 then done "already patched"
  else if live = EXPECTED_STOCK_MD5 then
    if c.check then done "stock boot is compatible"
    else
      backupStock md5
      writePatched md5 c
  else fail ("refusing unknown boot image: " ++ if live = "" then "unreadable" else live)

def ensureKernel (c : Call) : Prog Camera Unit := do
  if c.modelSuffix = "y623" then
    orFail (verify fun _ => c.homever = EXPECTED_HOMEVER) "unsupported y623 firmware"
    orFail external "boot partition is not readable and writable"
    orFail (test fun _ => c.image.any fun b => !b.isEmpty) "patched boot image is missing"
    orFail (verify fun _ => c.image.map List.length = some EXPECTED_SIZE)
      "patched boot image size mismatch"
    orFail (verify fun _ => fileMd5 md5 c.image = EXPECTED_PATCHED_MD5)
      "patched boot image hash mismatch"
    let live ← bootMd5 md5
    ensureLive md5 c live
  else .exit true

end

/-! ## 4. What holds -/

/-- What a message says of the partition. -/
def Means (md5 : Bytes → String) (text : String) (f : Flash) : Prop :=
  if text = "patched and verified" ∨ text = "already patched" then
    md5 f.boot = EXPECTED_PATCHED_MD5
  else if text = "stock boot is compatible" ∨
      text = "patched boot verification failed; stock boot restored" then
    md5 f.boot = EXPECTED_STOCK_MD5
  else True

/-- The image a call is given is the patched one. -/
def Call.Genuine (md5 : Bytes → String) (c : Call) : Prop :=
  ∃ b, c.image = some b ∧ b.length = EXPECTED_SIZE ∧ md5 b = EXPECTED_PATCHED_MD5

/-- Calls that write nothing. -/
def Call.quiet (c : Call) : Prop := c.check = true ∨ c.modelSuffix ≠ "y623"

/-- The stock image is on the card, and will stay there. -/
structure Preserved (md5 : Bytes → String) (f : Flash) : Prop where
  backup : ∃ k, f.backup = some k ∧ k ≠ [] ∧ md5 k = EXPECTED_STOCK_MD5
  synced : f.backupSynced = true

/-- What holds at every command; `f₀` is what was found at first. -/
structure Inv (md5 : Bytes → String) (f₀ f : Flash) : Prop where
  touched : f.boot ≠ f₀.boot ∨ f.bootSynced = false →
    md5 f₀.boot = EXPECTED_STOCK_MD5 ∧ Preserved md5 f
  kept : ∀ k, f₀.backup = some k → k ≠ [] → f.backup = some k
  moved : f.backupSynced = false → hasBackup f₀ = false

/-- What a call is to mean by its status and its last message; it began with `f₁`. -/
structure Answer (md5 : Bytes → String) (f₀ f₁ : Flash) (c : Call) (ok : Bool)
    (v : Flash × Option String) : Prop where
  inv : Inv md5 f₀ v.1
  synced : v.1.backupSynced = true
  quiet : c.quiet → v.1 = f₁
  done : ok = true → c.modelSuffix = "y623" → c.Genuine md5 ∧
    (md5 v.1.boot = EXPECTED_PATCHED_MD5 ∨ c.check = true ∧ md5 v.1.boot = EXPECTED_STOCK_MD5)
  told : ∀ text, v.2 = some ("ensure_y623_ve_kernel: " ++ text) → Means md5 text v.1

def Camera.seen (s : Camera) : Flash × Option String := (s.flash, s.said)

/-- Behind a command that succeeded, and one that failed. -/
def Either (T R : Flash → Prop) : Bool → Flash → Prop
  | true => T
  | false => R

/-- Nothing is said yet. -/
def Silent (R : Flash → Prop) (v : Flash × Option String) : Prop := v.2 = none ∧ R v.1

section

variable {α : Type} {md5 : Bytes → String} {f₀ f₁ f : Flash} {c : Call}

/-- Other messages say nothing of it. -/
theorem means_other {text : String} (h : text ≠ "patched and verified" ∧ text ≠ "already patched" ∧
    text ≠ "stock boot is compatible" ∧
    text ≠ "patched boot verification failed; stock boot restored") : Means md5 text f := by
  simp only [Means, h, or_self, if_false]

theorem hasBackup_eq_false : hasBackup f = false ↔ ∀ k, f.backup = some k → k = [] := by
  simp only [hasBackup, Option.any_eq_false, Bool.not_eq_false',
    List.isEmpty_iff]

theorem Preserved.hasBackup (h : Preserved md5 f) : hasBackup f = true := by
  obtain ⟨k, hk, hne, -⟩ := h.backup
  cases hb : EnsureKernel.hasBackup f with
  | true => rfl
  | false => exact absurd (hasBackup_eq_false.mp hb k hk) hne

/-- Without a backup nothing was touched. -/
theorem Inv.untouched (h : Inv md5 f₀ f) (hb : hasBackup f = false) :
    f.boot = f₀.boot ∧ f.bootSynced = true ∧ hasBackup f₀ = false := by
  have hnot : ¬ (f.boot ≠ f₀.boot ∨ f.bootSynced = false) := fun ht =>
    absurd ((h.touched ht).2.hasBackup.symm.trans hb) nofun
  obtain ⟨hboot, hsynced⟩ := not_or.mp hnot
  refine ⟨not_not.mp hboot, Bool.eq_true_of_not_eq_false hsynced, hasBackup_eq_false.mpr ?_⟩
  intro k hk
  by_contra hne
  exact hne (hasBackup_eq_false.mp hb k (h.kept k hk hne))

/-- What was stock when it was read was stock at first. -/
theorem Inv.stock (h : Inv md5 f₀ f) (hs : md5 f.boot = EXPECTED_STOCK_MD5) :
    md5 f₀.boot = EXPECTED_STOCK_MD5 := by
  by_cases hb : f.boot = f₀.boot
  · rw [← hb, hs]
  · exact (h.touched (.inl hb)).1

/-! ### Triples -/

section

variable (md5 f₀ f₁ c) in
/-- From `R`, with nothing said, to `Q`. -/
def Ensures (R : Flash → Prop) (p : Prog Camera α) (Q : α → Flash → Prop) : Prop :=
  Answers Camera.seen (fun v => Inv md5 f₀ v.1 ∧ (c.quiet → v.1 = f₁)) (Answer md5 f₀ f₁ c)
    (Silent R) p fun a => Silent (Q a)

variable {R T : Flash → Prop}

variable (md5 f₀ f₁ c R) in
/-- `R` is enough to leave the script. -/
def Rests : Prop :=
  ∀ f, R f → Inv md5 f₀ f ∧ f.backupSynced = true ∧ (c.quiet → f = f₁)

theorem Rests.now (h : Rests md5 f₀ f₁ c R) (v : Flash × Option String) (hv : Silent R v) :
    Inv md5 f₀ v.1 ∧ (c.quiet → v.1 = f₁) :=
  ⟨(h v.1 hv.2).1, (h v.1 hv.2).2.2⟩

theorem echo_answers {Q : Bool → Flash × Option String → Prop} {text : String}
    (hR : ∀ v, Silent R v → Inv md5 f₀ v.1 ∧ (c.quiet → v.1 = f₁))
    (hQ : ∀ ok f said, R f → (said = none ∨ said = some ("ensure_y623_ve_kernel: " ++ text)) →
      Q ok (f, said)) :
    Answers Camera.seen (fun v => Inv md5 f₀ v.1 ∧ (c.quiet → v.1 = f₁)) (Answer md5 f₀ f₁ c)
      (Silent R) (echo text) Q := by
  refine answers_command hR (fun s s' h hs => ?_) fun v h => hQ false v.1 v.2 h.2 (.inl h.1)
  obtain rfl := Option.some.inj hs
  exact hQ true s.flash _ h.2 (.inr rfl)

/-- A message, and the end. -/
theorem exit_ensures {ok : Bool} {text : String} {Q : α → Flash → Prop}
    (hR : Rests md5 f₀ f₁ c R) (ht : ∀ f, R f → Means md5 text f)
    (hok : ∀ f, R f → ok = true → c.modelSuffix = "y623" → c.Genuine md5 ∧
      (md5 f.boot = EXPECTED_PATCHED_MD5 ∨ c.check = true ∧ md5 f.boot = EXPECTED_STOCK_MD5)) :
    Ensures md5 f₀ f₁ c R (do
      let _ ← echo text
      .exit ok) Q := by
  refine Answers.bind (T := fun _ v => R v.1 ∧
    (v.2 = none ∨ v.2 = some ("ensure_y623_ve_kernel: " ++ text)))
    (echo_answers hR.now fun _ _ _ h hs => ⟨h, hs⟩) fun _ => ?_
  refine answers_exit (fun v h => ⟨(hR v.1 h.1).1, (hR v.1 h.1).2.2⟩) fun v h => ?_
  obtain ⟨hinv, hsynced, hquiet⟩ := hR v.1 h.1
  refine ⟨hinv, hsynced, hquiet, hok v.1 h.1, fun t he => ?_⟩
  obtain hs | hs := h.2
  · exact absurd (hs.symm.trans he) nofun
  · have htext := String.append_right_inj _ |>.mp (Option.some.inj (hs.symm.trans he))
    exact htext ▸ ht v.1 h.1

theorem fail_ensures {text : String} {Q : α → Flash → Prop} (hR : Rests md5 f₀ f₁ c R)
    (ht : ∀ f, R f → Means md5 text f) : Ensures md5 f₀ f₁ c R (fail text) Q :=
  exit_ensures hR ht fun _ _ h => absurd h nofun

theorem verify_ensures {p : Flash → Bool} (hR : ∀ f, R f → Inv md5 f₀ f ∧ (c.quiet → f = f₁)) :
    Ensures md5 f₀ f₁ c R (verify p) fun ok f => R f ∧ (ok = true → p f = true) :=
  fun _ hs => ⟨hR _ hs.2, fun _ => ⟨hs.1, hs.2, fun h => (Bool.and_eq_true_iff.mp h).2⟩⟩

theorem orFail_ensures {p : Prog Camera Bool} {text : String} (hR : Rests md5 f₀ f₁ c R)
    (hp : Ensures md5 f₀ f₁ c R p fun ok f => R f ∧ (ok = true → T f))
    (ht : ∀ f, Means md5 text f) :
    Ensures md5 f₀ f₁ c R (orFail p text) fun _ f => R f ∧ T f := by
  refine Answers.bind hp fun ok => ?_
  cases ok with
  | true => exact answers_pure fun v h => ⟨h.1, h.2.1, h.2.2 rfl⟩
  | false =>
    exact (fail_ensures (Q := fun _ f => R f ∧ T f) hR fun f _ => ht f).imp
      (fun v h => ⟨h.1, h.2.1⟩) fun _ _ h => h

theorem act_ensures {B : Flash → Prop} {g : Flash → Option Flash}
    (hR : ∀ f, R f → Inv md5 f₀ f ∧ (c.quiet → f = f₁)) (hT : ∀ f f', R f → g f = some f' → T f')
    (hB : ∀ f, R f → B f) : Ensures md5 f₀ f₁ c R (act g) (Either T B) := by
  refine answers_command (fun v hv => hR v.1 hv.2) (fun s s' h hs => ?_) fun v h => ?_
  · obtain ⟨f', hf', rfl⟩ := Option.map_eq_some_iff.mp hs
    exact ⟨h.1, hT s.flash f' h.2 hf'⟩
  · exact ⟨h.1, hB v.1 h.2⟩

theorem rmTmp_ensures (hR : ∀ f, R f → Inv md5 f₀ f ∧ (c.quiet → f = f₁))
    (hrm : ∀ f, R f → R { f with tmpBackup := none }) :
    Ensures md5 f₀ f₁ c R rmTmp fun _ => R := by
  refine (act_ensures (T := R) hR (fun f f' h hf => Option.some.inj hf ▸ hrm f h)
    fun _ h => h).imp (fun _ h => h) fun ok v h => ⟨h.1, ?_⟩
  cases ok with
  | true => exact h.2
  | false => exact h.2

theorem orDrop_ensures {B : Flash → Prop} {p : Prog Camera Bool} {text : String}
    (hp : Ensures md5 f₀ f₁ c R p (Either T B)) (hB : Rests md5 f₀ f₁ c B)
    (hrm : ∀ f, B f → B { f with tmpBackup := none }) (ht : ∀ f, Means md5 text f) :
    Ensures md5 f₀ f₁ c R (orDrop p text) fun _ => T := by
  refine Answers.bind hp fun ok => ?_
  cases ok with
  | true => exact answers_pure fun v h => h
  | false =>
    exact (rmTmp_ensures (fun f h => ⟨(hB f h).1, (hB f h).2.2⟩) hrm).bind fun _ =>
      fail_ensures hB fun f _ => ht f

/-! ## 5. The functions of the script -/

theorem Inv.sync (h : Inv md5 f₀ f) : Inv md5 f₀ { f with bootSynced := true, backupSynced := true }
    where
  touched ht := by
    obtain ht | ht := ht
    · exact ⟨(h.touched (.inl ht)).1, (h.touched (.inl ht)).2.backup, rfl⟩
    · exact absurd ht nofun
  kept := h.kept
  moved hm := absurd hm nofun

/-- The partition may be written once the backup is there. -/
theorem Inv.write (h : Inv md5 f₀ f) (hp : Preserved md5 f) (hs : md5 f₀.boot = EXPECTED_STOCK_MD5)
    (b : Bytes) : Inv md5 f₀ { f with boot := b, bootSynced := false } where
  touched _ := ⟨hs, hp.backup, hp.synced⟩
  kept := h.kept
  moved := h.moved

/-- A backup is put where there is none. -/
theorem Inv.move (h : Inv md5 f₀ f) (hb : hasBackup f = false) (k : Bytes) :
    Inv md5 f₀ { f with backup := some k, tmpBackup := none, backupSynced := false } where
  touched ht := by
    obtain ⟨hboot, hsynced, -⟩ := h.untouched hb
    obtain ht | ht := ht
    · exact absurd hboot ht
    · exact absurd (hsynced.symm.trans ht) nofun
  kept k' hk hne := absurd (hasBackup_eq_false.mp (h.untouched hb).2.2 k' hk) hne
  moved _ := (h.untouched hb).2.2

variable (md5 f₀) in
/-- The partition is stock, and nothing is on the card. -/
structure Bare (f : Flash) : Prop where
  inv : Inv md5 f₀ f
  synced : f.backupSynced = true
  stock : md5 f.boot = EXPECTED_STOCK_MD5
  bare : hasBackup f = false

variable (md5 f₀) in
/-- The partition is stock, and its image is on the card. -/
structure Backed (f : Flash) : Prop where
  inv : Inv md5 f₀ f
  stock : md5 f.boot = EXPECTED_STOCK_MD5
  preserved : Preserved md5 f

variable (md5 f₀) in
/-- The partition may hold anything. -/
structure Written (f : Flash) : Prop where
  inv : Inv md5 f₀ f
  stock : md5 f₀.boot = EXPECTED_STOCK_MD5
  preserved : Preserved md5 f

variable (md5 f₀) in
/-- The backup has just been put in place. -/
structure Moved (f : Flash) : Prop where
  inv : Inv md5 f₀ f
  stock : md5 f.boot = EXPECTED_STOCK_MD5
  backup : ∃ k, f.backup = some k ∧ k ≠ [] ∧ md5 k = EXPECTED_STOCK_MD5

theorem Bare.rests (hc : ¬ c.quiet) : Rests md5 f₀ f₁ c (Bare md5 f₀) :=
  fun _ h => ⟨h.inv, h.synced, fun hq => absurd hq hc⟩

theorem Backed.rests (hc : ¬ c.quiet) : Rests md5 f₀ f₁ c (Backed md5 f₀) :=
  fun _ h => ⟨h.inv, h.preserved.synced, fun hq => absurd hq hc⟩

theorem Written.rests (hc : ¬ c.quiet) : Rests md5 f₀ f₁ c (Written md5 f₀) :=
  fun _ h => ⟨h.inv, h.preserved.synced, fun hq => absurd hq hc⟩

theorem Bare.tmp (h : Bare md5 f₀ f) (b : Option Bytes) : Bare md5 f₀ { f with tmpBackup := b } :=
  ⟨⟨fun ht => ⟨(h.inv.touched ht).1, (h.inv.touched ht).2.backup, (h.inv.touched ht).2.synced⟩,
    h.inv.kept, h.inv.moved⟩, h.synced, h.stock, h.bare⟩

theorem sync_ensures (hR : ∀ f, R f → Inv md5 f₀ f ∧ (c.quiet → f = f₁))
    (hT : ∀ f, R f → T { f with bootSynced := true, backupSynced := true }) :
    Ensures md5 f₀ f₁ c R sync fun _ => T :=
  answers_assign (fun v hv => hR v.1 hv.2) fun s h => ⟨h.1, hT s.flash h.2⟩

theorem ddBackup_ensures (hc : ¬ c.quiet) :
    Ensures md5 f₀ f₁ c (Bare md5 f₀) ddBackup (Either (Bare md5 f₀) (Bare md5 f₀)) := by
  refine fun s hs => ⟨⟨hs.2.inv, fun hq => absurd hq hc⟩, fun ok => ⟨hs.1, ?_⟩⟩
  cases ok with
  | true => exact hs.2.tmp _
  | false => exact hs.2.tmp _

theorem ddBoot_ensures (hc : ¬ c.quiet) {source : Flash → Option Bytes} :
    Ensures md5 f₀ f₁ c (Written md5 f₀) (ddBoot source) fun _ => Written md5 f₀ := by
  refine fun s hs => ⟨⟨hs.2.inv, fun hq => absurd hq hc⟩, fun ok => ?_⟩
  simp only
  split
  · exact hs
  · exact ⟨hs.1, hs.2.inv.write hs.2.preserved hs.2.stock _, hs.2.stock,
      ⟨hs.2.preserved.backup, hs.2.preserved.synced⟩⟩

theorem bootMd5_ensures (hR : ∀ f, R f → Inv md5 f₀ f ∧ (c.quiet → f = f₁)) :
    Ensures md5 f₀ f₁ c R (bootMd5 md5) fun live f => R f ∧ (live = "" ∨ live = md5 f.boot) := by
  refine fun s hs => ⟨hR _ hs.2, fun ok => ⟨hs.1, hs.2, ?_⟩⟩
  cases ok with
  | true => exact .inr rfl
  | false => exact .inl rfl

/-- A comparison, as the condition of what follows. -/
theorem compare_ensures {B : Flash → Prop} {p : Flash → Bool}
    (hR : ∀ f, R f → Inv md5 f₀ f ∧ (c.quiet → f = f₁)) (hB : ∀ f, R f → B f) :
    Ensures md5 f₀ f₁ c R (verify p) (Either (fun f => R f ∧ p f = true) B) := by
  refine (verify_ensures hR).imp (fun _ h => h) fun ok v h => ⟨h.1, ?_⟩
  cases ok with
  | true => exact ⟨h.2.1, h.2.2 rfl⟩
  | false => exact hB v.1 h.2.1

theorem preserveStock_ensures (hc : ¬ c.quiet) :
    Ensures md5 f₀ f₁ c (Bare md5 f₀) (preserveStock md5) fun _ => Backed md5 f₀ := by
  have hnow (f : Flash) (h : Bare md5 f₀ f) : Inv md5 f₀ f ∧ (c.quiet → f = f₁) :=
    ⟨h.inv, fun hq => absurd hq hc⟩
  have hB : Rests md5 f₀ f₁ c (Bare md5 f₀) := Bare.rests hc
  have hrm (f : Flash) (h : Bare md5 f₀ f) : Bare md5 f₀ { f with tmpBackup := none } := h.tmp none
  refine (rmTmp_ensures hnow hrm).bind fun _ => ?_
  refine (orDrop_ensures (ddBackup_ensures hc) hB hrm fun _ => means_other (by decide)).bind
    fun _ => ?_
  refine (orDrop_ensures (compare_ensures hnow fun _ h => h) hB hrm fun _ =>
    means_other (by decide)).bind fun _ => ?_
  refine (orDrop_ensures (compare_ensures (fun f h => hnow f h.1) fun _ h => h.1) hB hrm fun _ =>
    means_other (by decide)).bind fun _ => ?_
  have hmoved (f f' : Flash) (h : (Bare md5 f₀ f ∧ decide (f.tmpBackup.map List.length =
      some EXPECTED_SIZE) = true) ∧ decide (fileMd5 md5 f.tmpBackup = EXPECTED_STOCK_MD5) = true)
      (hf : (f.tmpBackup.map fun b =>
        { f with backup := some b, tmpBackup := none, backupSynced := false }) = some f') :
      Moved md5 f₀ f' := by
    obtain ⟨k, hk, rfl⟩ := Option.map_eq_some_iff.mp hf
    have hsize := of_decide_eq_true h.1.2
    have hmd5 := of_decide_eq_true h.2
    rw [hk] at hsize hmd5
    refine ⟨h.1.1.inv.move h.1.1.bare k, h.1.1.stock, k, rfl, fun hnil => ?_, hmd5⟩
    rw [hnil] at hsize
    exact absurd (Option.some.inj hsize) (by decide)
  refine (orDrop_ensures (act_ensures (fun f h => hnow f h.1.1) hmoved fun _ h => h.1.1) hB hrm
    fun _ => means_other (by decide)).bind fun _ => ?_
  exact sync_ensures (fun f h => ⟨h.inv, fun hq => absurd hq hc⟩) fun f h =>
    ⟨h.inv.sync, h.stock, h.backup, rfl⟩

theorem backupStock_ensures (hc : ¬ c.quiet) :
    Ensures md5 f₀ f₁ c (fun f => Inv md5 f₀ f ∧ f.backupSynced = true ∧
      md5 f.boot = EXPECTED_STOCK_MD5) (backupStock md5) fun _ => Backed md5 f₀ := by
  have hR : Rests md5 f₀ f₁ c (fun f => Inv md5 f₀ f ∧ f.backupSynced = true ∧
      md5 f.boot = EXPECTED_STOCK_MD5) := fun f h => ⟨h.1, h.2.1, fun hq => absurd hq hc⟩
  have hnow (f : Flash) (h : Inv md5 f₀ f ∧ f.backupSynced = true ∧
      md5 f.boot = EXPECTED_STOCK_MD5) : Inv md5 f₀ f ∧ (c.quiet → f = f₁) :=
    ⟨h.1, fun hq => absurd hq hc⟩
  refine (orFail_ensures (T := fun _ => True) hR ((verify_ensures hnow).imp (fun _ h => h)
    fun _ _ h => ⟨h.1, h.2.1, fun _ => trivial⟩) fun _ => means_other (by decide)).bind fun _ => ?_
  refine Answers.bind (T := fun b v => Silent (fun f => (Inv md5 f₀ f ∧ f.backupSynced = true ∧
    md5 f.boot = EXPECTED_STOCK_MD5) ∧ hasBackup f = b) v)
    (answers_test (fun v h => hnow v.1 h.2.1) fun s h => ⟨h.1, h.2.1, rfl⟩) fun b => ?_
  cases b with
  | true =>
    refine (orFail_ensures (T := fun f => Preserved md5 f) (R := fun f => (Inv md5 f₀ f ∧
      f.backupSynced = true ∧ md5 f.boot = EXPECTED_STOCK_MD5) ∧ hasBackup f = true)
      (fun f h => hR f h.1) ((verify_ensures fun f h => hnow f h.1).imp (fun _ h => h)
        fun ok v h => ⟨h.1, h.2.1, fun hok => ?_⟩) fun _ => means_other (by decide)).imp
      (fun _ h => h) fun _ v h => ⟨h.1, h.2.1.1.1, h.2.1.1.2.2, h.2.2⟩
    have hmd5 := of_decide_eq_true (h.2.2 hok)
    obtain ⟨k, hk, hne⟩ := (Option.any_eq_true _ _).mp h.2.1.2
    rw [hk] at hmd5
    refine ⟨⟨k, hk, fun hnil => ?_, hmd5⟩, h.2.1.1.2.1⟩
    rw [hnil] at hne
    exact absurd hne (by decide)
  | false =>
    exact (preserveStock_ensures hc).imp
      (fun v h => ⟨h.1, h.2.1.1, h.2.1.2.1, h.2.1.2.2, h.2.2⟩) fun _ _ h => h

/-- The stock image comes back, or the status says no. -/
theorem restoreStock_ensures (hc : ¬ c.quiet) :
    Ensures md5 f₀ f₁ c (Written md5 f₀) (restoreStock md5)
      fun ok f => Written md5 f₀ f ∧ (ok = true → md5 f.boot = EXPECTED_STOCK_MD5) := by
  have hnow (f : Flash) (h : Written md5 f₀ f) : Inv md5 f₀ f ∧ (c.quiet → f = f₁) :=
    ⟨h.inv, fun hq => absurd hq hc⟩
  have hno : Ensures md5 f₀ f₁ c (Written md5 f₀) (Prog.pure false) fun ok f =>
      Written md5 f₀ f ∧ (ok = true → md5 f.boot = EXPECTED_STOCK_MD5) :=
    answers_pure fun v h => ⟨h.1, h.2, nofun⟩
  refine Answers.bind (T := fun _ => Silent (Written md5 f₀))
    (answers_test (fun v h => hnow v.1 h.2) fun s h => h) fun ok => ?_
  cases ok with
  | false => exact hno
  | true =>
    refine Answers.bind (T := fun _ => Silent (Written md5 f₀)) ((verify_ensures hnow).imp
      (fun _ h => h) fun _ v h => ⟨h.1, h.2.1⟩) fun ok => ?_
    cases ok with
    | false => exact hno
    | true =>
      refine (ddBoot_ensures hc).bind fun ok => ?_
      cases ok with
      | false => exact hno
      | true =>
        refine (sync_ensures (T := Written md5 f₀) hnow fun f h =>
          ⟨h.inv.sync, h.stock, h.preserved.backup, rfl⟩).bind fun _ => ?_
        exact (verify_ensures hnow).imp (fun _ h => h) fun ok v h =>
          ⟨h.1, h.2.1, fun hok => of_decide_eq_true (h.2.2 hok)⟩

theorem writePatched_ensures (hc : ¬ c.quiet) (hg : c.Genuine md5) {Q : Unit → Flash → Prop} :
    Ensures md5 f₀ f₁ c (Written md5 f₀) (writePatched md5 c) Q := by
  have hR : Rests md5 f₀ f₁ c (Written md5 f₀) := Written.rests hc
  have hnow (f : Flash) (h : Written md5 f₀ f) : Inv md5 f₀ f ∧ (c.quiet → f = f₁) :=
    ⟨h.inv, fun hq => absurd hq hc⟩
  have hsync : Ensures md5 f₀ f₁ c (Written md5 f₀) sync fun _ => Written md5 f₀ :=
    sync_ensures hnow fun f h => ⟨h.inv.sync, h.stock, h.preserved.backup, rfl⟩
  refine (ddBoot_ensures hc).bind fun ok => ?_
  cases ok with
  | false =>
    refine (restoreStock_ensures hc).bind fun _ => ?_
    exact (fail_ensures hR fun _ _ => means_other (by decide)).imp (fun v h => ⟨h.1, h.2.1⟩)
      fun _ _ h => h
  | true =>
    refine hsync.bind fun _ => (bootMd5_ensures hnow).bind fun written => ?_
    by_cases hw : written ≠ EXPECTED_PATCHED_MD5
    · rw [if_pos hw]
      refine ((restoreStock_ensures hc).imp (fun v h => ⟨h.1, h.2.1⟩) fun _ _ h => h).bind
        fun ok => ?_
      cases ok with
      | true =>
        refine fail_ensures (fun f h => hR f h.1) fun f h => ?_
        rw [Means, if_neg (by decide), if_pos (by decide)]
        exact h.2 rfl
      | false => exact fail_ensures (fun f h => hR f h.1) fun _ _ => means_other (by decide)
    · rw [if_neg hw]
      have hread (f : Flash) (h : written = "" ∨ written = md5 f.boot) :
          md5 f.boot = EXPECTED_PATCHED_MD5 := by
        rw [not_not] at hw
        obtain h | h := h
        · exact absurd (hw.symm.trans h) (by decide)
        · exact h.symm.trans hw
      refine exit_ensures (fun f h => hR f h.1) (fun f h => ?_) fun f h _ _ =>
        ⟨hg, .inl (hread f h.2)⟩
      rw [Means, if_pos (by decide)]
      exact hread f h.2

variable (md5 f₀ f₁) in
/-- A call begins where the last one has left everything synced. -/
structure Begun (f : Flash) : Prop where
  inv : Inv md5 f₀ f
  synced : f.backupSynced = true
  same : f = f₁

theorem Begun.rests : Rests md5 f₀ f₁ c (Begun md5 f₀ f₁) :=
  fun _ h => ⟨h.inv, h.synced, fun _ => h.same⟩

theorem refusing_ne {x text : String} (h : text.toList.head? ≠ some 'r') :
    "refusing unknown boot image: " ++ x ≠ text := by
  intro he
  rw [← he, String.toList_append] at h
  exact h rfl

theorem ensureLive_ensures (hy : c.modelSuffix = "y623") (hg : c.Genuine md5) {live : String}
    {Q : Unit → Flash → Prop} :
    Ensures md5 f₀ f₁ c (fun f => Begun md5 f₀ f₁ f ∧ (live = "" ∨ live = md5 f.boot))
      (ensureLive md5 c live) Q := by
  have hR : Rests md5 f₀ f₁ c (fun f => Begun md5 f₀ f₁ f ∧ (live = "" ∨ live = md5 f.boot)) :=
    fun f h => Begun.rests f h.1
  have hread {m : String} (hm : live = m) (hne : m ≠ "") (f : Flash)
      (h : live = "" ∨ live = md5 f.boot) : md5 f.boot = m := by
    obtain h | h := h
    · exact absurd (hm.symm.trans h) hne
    · exact h.symm.trans hm
  unfold ensureLive
  split
  · next hp =>
    refine exit_ensures hR (fun f h => ?_) fun f h _ _ =>
      ⟨hg, .inl (hread hp (by decide) f h.2)⟩
    rw [Means, if_pos (by decide)]
    exact hread hp (by decide) f h.2
  · split
    · next hs =>
      split
      · next hcheck =>
        refine exit_ensures hR (fun f h => ?_) fun f h _ _ =>
          ⟨hg, .inr ⟨hcheck, hread hs (by decide) f h.2⟩⟩
        rw [Means, if_neg (by decide), if_pos (by decide)]
        exact hread hs (by decide) f h.2
      · next hcheck =>
        have hc : ¬ c.quiet := not_or.mpr ⟨hcheck, not_not.mpr hy⟩
        refine Answers.bind ((backupStock_ensures hc).imp (fun v h =>
          ⟨h.1, h.2.1.inv, h.2.1.synced, hread hs (by decide) v.1 h.2.2⟩) fun _ _ h => h)
          fun _ => ?_
        exact (writePatched_ensures hc hg).imp (fun v h =>
          ⟨h.1, h.2.inv, h.2.inv.stock h.2.stock, h.2.preserved⟩) fun _ _ h => h
    · refine fail_ensures hR fun f _ => means_other ?_
      exact ⟨refusing_ne (by decide), refusing_ne (by decide), refusing_ne (by decide),
        refusing_ne (by decide)⟩

/-- **The script**, as a call that begins where the last one ended. -/
theorem ensureKernel_ensures {Q : Unit → Flash → Prop} :
    Ensures md5 f₀ f₁ c (Begun md5 f₀ f₁) (ensureKernel md5 c) Q := by
  have hR : Rests md5 f₀ f₁ c (Begun md5 f₀ f₁) := Begun.rests
  have hnow (f : Flash) (h : Begun md5 f₀ f₁ f) : Inv md5 f₀ f ∧ (c.quiet → f = f₁) :=
    ⟨h.inv, fun _ => h.same⟩
  unfold ensureKernel
  split
  · next hy =>
    have hskip {p : Flash → Bool} {text : String} (ht : ∀ f, Means md5 text f) :
        Ensures md5 f₀ f₁ c (Begun md5 f₀ f₁) (orFail (verify p) text) fun _ => Begun md5 f₀ f₁ :=
      (orFail_ensures (T := fun _ => True) hR ((verify_ensures hnow).imp (fun _ h => h)
        fun _ _ h => ⟨h.1, h.2.1, fun _ => trivial⟩) ht).imp (fun _ h => h)
        fun _ _ h => ⟨h.1, h.2.1⟩
    refine (hskip fun _ => means_other (by decide)).bind fun _ =>
      (hskip fun _ => means_other (by decide)).bind fun _ => ?_
    refine (orFail_ensures (T := fun _ => True) hR (answers_test (fun v h => hnow v.1 h.2)
      fun s h => ⟨h.1, h.2, fun _ => trivial⟩) fun _ => means_other (by decide)).bind fun _ => ?_
    refine (orFail_ensures (T := fun _ => c.image.map List.length = some EXPECTED_SIZE)
      (fun f h => hR f h.1) ((verify_ensures fun f h => hnow f h.1).imp (fun _ h => h)
        fun _ v h => ⟨h.1, h.2.1, fun hok => of_decide_eq_true (h.2.2 hok)⟩)
      fun _ => means_other (by decide)).bind fun _ => ?_
    refine (orFail_ensures (T := fun _ => fileMd5 md5 c.image = EXPECTED_PATCHED_MD5)
      (fun f h => hR f h.1.1) ((verify_ensures fun f h => hnow f h.1.1).imp (fun _ h => h)
        fun _ v h => ⟨h.1, h.2.1, fun hok => of_decide_eq_true (h.2.2 hok)⟩)
      fun _ => means_other (by decide)).bind fun _ => ?_
    intro s hs
    obtain ⟨hsilent, ⟨⟨hbegun, -⟩, hsize⟩, hmd5⟩ := hs
    have hg : c.Genuine md5 := by
      obtain ⟨b, hb, hlen⟩ := Option.map_eq_some_iff.mp hsize
      rw [hb] at hmd5
      exact ⟨b, hb, hlen, hmd5⟩
    exact ((bootMd5_ensures hnow).bind fun live => ensureLive_ensures hy hg) s ⟨hsilent, hbegun⟩
  · next hy =>
    refine answers_exit (fun v h => hnow v.1 h.2) fun v h => ?_
    exact ⟨h.2.inv, h.2.synced, fun _ => h.2.same, fun _ hy' => absurd hy' hy,
      fun text he => absurd (h.1.symm.trans he) nofun⟩

/-! ## 6. Calls and losses of power -/

/-- Another call, unless one is under way; the next command of the call; a loss of power, with what
    is then found where nothing was synced. -/
inductive Event
  | call (c : Call)
  | command (ok : Bool)
  | cut (boot : Bytes) (backup tmpBackup : Option Bytes)

/-- No trap is set. -/
def untrapped : Trap Camera where
  on _ := false
  handler _ := return ()

def Flash.cut (boot : Bytes) (backup tmpBackup : Option Bytes) (f : Flash) : Flash where
  boot := if f.bootSynced then f.boot else boot
  backup := if f.backupSynced then f.backup else backup
  tmpBackup := tmpBackup
  bootSynced := true
  backupSynced := true

/-- The script at work, and the call since the power came on last, with what it began with. -/
structure Session where
  config : Config Camera
  call : Option (Call × Flash)

def Session.flash (s : Session) : Flash := s.config.state.flash

variable (md5) in
def step (s : Session) : Event → Session
  | .call c =>
    if s.config.over then
      ⟨⟨ensureKernel md5 c, true, { s.config.state with said := none }⟩, some (c, s.flash)⟩
    else s
  | .command ok => { s with config := s.config.step untrapped (.outcome ok) }
  | .cut boot backup tmpBackup =>
    ⟨⟨.pure (), false, { s.config.state with flash := s.flash.cut boot backup tmpBackup }⟩, none⟩

/-- What is found at first. -/
def found (boot : Bytes) (backup tmpBackup : Option Bytes) : Flash :=
  ⟨boot, backup, tmpBackup, true, true⟩

def start (f : Flash) (fates : List Fate) : Session := ⟨⟨.pure (), true, ⟨f, none, fates⟩⟩, none⟩

theorem Inv.cut (h : Inv md5 f₀ f) (boot : Bytes) (backup tmpBackup : Option Bytes) :
    Inv md5 f₀ (f.cut boot backup tmpBackup) where
  touched ht := by
    have hf : f.boot ≠ f₀.boot ∨ f.bootSynced = false := by
      by_contra hnot
      obtain ⟨hboot, hsynced⟩ := not_or.mp hnot
      obtain ht | ht := ht
      · refine hboot fun he => ht ?_
        rw [Flash.cut, if_pos (Bool.eq_true_of_not_eq_false hsynced), he]
      · exact absurd ht nofun
    obtain ⟨hstock, ⟨k, hk, hne⟩, hsynced⟩ := h.touched hf
    refine ⟨hstock, ⟨k, ?_, hne⟩, rfl⟩
    rw [Flash.cut, if_pos hsynced, hk]
  kept k hk hne := by
    have hsynced : f.backupSynced = true := by
      by_contra hnot
      have hnone := h.moved (Bool.eq_false_of_not_eq_true hnot)
      exact hne (hasBackup_eq_false.mp hnone k hk)
    rw [Flash.cut, if_pos hsynced, h.kept k hk hne]
  moved hm := absurd hm nofun

variable (md5 f₀) in
/-- A call is over, or under way. -/
def Underway (f₁ : Flash) (c : Call) (s : Config Camera) : Prop :=
  s.over = true ∧ Answer md5 f₀ f₁ c s.status s.state.seen ∨
    s.prog.Returns Camera.seen (fun v => Inv md5 f₀ v.1 ∧ (c.quiet → v.1 = f₁))
      (Answer md5 f₀ f₁ c) (fun _ _ => False) s.state

variable (md5 f₀) in
def Sound (s : Session) : Prop :=
  match s.call with
  | some (c, f₁) => Underway md5 f₀ f₁ c s.config
  | none => s.config.over = true ∧ Inv md5 f₀ s.flash ∧ s.flash.backupSynced = true

theorem Underway.now {s : Config Camera} (h : Underway md5 f₀ f₁ c s) :
    Inv md5 f₀ s.state.flash ∧ (c.quiet → s.state.flash = f₁) := by
  obtain ⟨-, h⟩ | h := h
  · exact ⟨h.inv, h.quiet⟩
  · exact Prog.Returns.now (π := Camera.seen) h fun _ _ h => h.elim

theorem Underway.over {s : Config Camera} (h : Underway md5 f₀ f₁ c s) (hover : s.over = true) :
    Answer md5 f₀ f₁ c s.status s.state.seen := by
  obtain ⟨-, h⟩ | h := h
  · exact h
  · obtain ⟨prog, st, state⟩ := s
    cases prog with
    | pure _ => exact h.elim
    | exit _ => exact absurd hover nofun
    | cmd _ _ => exact absurd hover nofun

/-- Between two calls everything is synced. -/
theorem Sound.rest {s : Session} (h : Sound md5 f₀ s) (hover : s.config.over = true) :
    Inv md5 f₀ s.flash ∧ s.flash.backupSynced = true := by
  unfold Sound at h
  split at h
  · exact ⟨(h.over hover).inv, (h.over hover).synced⟩
  · exact h.2

theorem Sound.now {s : Session} (h : Sound md5 f₀ s) : Inv md5 f₀ s.flash := by
  unfold Sound at h
  split at h
  · exact h.now.1
  · exact h.2.1

/-- Nothing comes behind the end. -/
theorem step_over {s : Config Camera} (h : s.over = true) (i : Input) :
    s.step untrapped i = s := by
  obtain ⟨prog, st, state⟩ := s
  cases prog with
  | pure _ => rfl
  | exit _ => exact absurd h nofun
  | cmd _ _ => exact absurd h nofun

theorem step_sound (s : Session) (e : Event) (h : Sound md5 f₀ s) :
    Sound md5 f₀ (step md5 s e) := by
  cases e with
  | call c =>
    rw [step]
    split
    · next hover =>
      obtain ⟨hinv, hsynced⟩ := h.rest hover
      refine .inr ((ensureKernel_ensures (Q := fun _ _ => False)
        { s.config.state with said := none } ⟨rfl, hinv, hsynced, rfl⟩).mono fun _ _ h => h.2)
    · exact h
  | command ok =>
    obtain ⟨config, call⟩ := s
    cases call with
    | none =>
      rw [show step md5 ⟨config, none⟩ (.command ok) = ⟨config, none⟩ from
        congrArg (Session.mk · none) (step_over h.1 _)]
      exact h
    | some a =>
      obtain ⟨hover, ha⟩ | hr := h
      · rw [show step md5 ⟨config, some a⟩ (.command ok) = ⟨config, some a⟩ from
          congrArg (Session.mk · (some a)) (step_over hover _)]
        exact .inl ⟨hover, ha⟩
      · exact hr.step (fun _ => rfl) ok
  | cut boot backup tmpBackup => exact ⟨rfl, h.now.cut boot backup tmpBackup, rfl⟩

variable (md5 f₀) in
/-- What the script is for; `f₀` is what was found at first. -/
structure Guarded (s : Session) : Prop where
  touched : s.flash.boot ≠ f₀.boot →
    md5 f₀.boot = EXPECTED_STOCK_MD5 ∧ ∃ k, s.flash.backup = some k ∧ md5 k = EXPECTED_STOCK_MD5
  kept : ∀ k, f₀.backup = some k → k ≠ [] → s.flash.backup = some k
  quiet : ∀ c f₁, s.call = some (c, f₁) → c.quiet → s.flash = f₁
  done : ∀ c f₁, s.call = some (c, f₁) → s.config.over = true → s.config.status = true →
    c.modelSuffix = "y623" → c.Genuine md5 ∧ (md5 s.flash.boot = EXPECTED_PATCHED_MD5 ∨
      c.check = true ∧ md5 s.flash.boot = EXPECTED_STOCK_MD5)
  told : ∀ c f₁, s.call = some (c, f₁) → s.config.over = true →
    ∀ text, s.config.state.said = some ("ensure_y623_ve_kernel: " ++ text) → Means md5 text s.flash

theorem Sound.guarded {s : Session} (h : Sound md5 f₀ s) : Guarded md5 f₀ s where
  touched ht := by
    obtain ⟨hstock, ⟨k, hk, -, hmd5⟩, -⟩ := h.now.touched (.inl ht)
    exact ⟨hstock, k, hk, hmd5⟩
  kept := h.now.kept
  quiet c f₁ hcall := by
    rw [Sound, hcall] at h
    exact h.now.2
  done c f₁ hcall hover := by
    rw [Sound, hcall] at h
    exact (h.over hover).done
  told c f₁ hcall hover := by
    rw [Sound, hcall] at h
    exact (h.over hover).told

/-- **The partition is guarded**, over any calls, failures and losses of power: only a stock image
    is ever written over, and then its verified copy is on the card; a backup that is there stays;
    and a call means what it says. -/
theorem boot_guarded (md5 : Bytes → String) (boot : Bytes) (backup tmpBackup : Option Bytes)
    (fates : List Fate) (es : List Event) :
    Guarded md5 (found boot backup tmpBackup)
      (run (step md5) (start (found boot backup tmpBackup) fates) es) := by
  have hstart : Sound md5 (found boot backup tmpBackup)
      (start (found boot backup tmpBackup) fates) := by
    refine ⟨rfl, ⟨fun ht => ?_, fun k hk _ => hk, nofun⟩, rfl⟩
    obtain ht | ht := ht
    · exact absurd rfl ht
    · exact absurd ht nofun
  exact (run_inv step_sound hstart es).guarded

end

end

end YiHack.Boot.EnsureKernel
