/-
  File:      YiHack/Recovery/Boots.lean
  Subject:   The recovery goes through any number of starts, and power may be lost at any command.

  At each start the boot loader may take the image that lies on the card, leave a torn root system
  or ignore it; then the scripts run, command by command, until power is lost or they end.

  * `Inv` -- what holds at every command boundary, against the camera as the rescue found it;
  * `install_goes`, `stageRoot_goes`, `rescue_goes`, `launcher_goes` -- the parts of the scripts;
  * `Machine.step`, **`recovery_safe`** -- over every run.
-/
import YiHack.Recovery.Rescue

namespace YiHack.Recovery

open General Prog

/-! ## 1. Rules -/

section

variable {α β H : Type} {I R T : Disk H → Prop}

/-- After a command: all is well, and `T` holds where it succeeded. -/
def OrError (I T : Disk H → Prop) (ok : Bool) (d : Disk H) : Prop := I d ∧ (ok = true → T d)

theorem leaves_verify {p : Camera H → Bool} : (verify p).Leaves Camera.disk :=
  ⟨fun _ _ => rfl, fun _ _ => trivial⟩

theorem leaves_report {text : String} : (report text : Prog (Camera H) Bool).Leaves Camera.disk :=
  leaves_command fun _ _ h => Option.some.inj h ▸ rfl

theorem leaves_anyOf {cs : List (Prog (Camera H) Bool)} (hcs : ∀ c ∈ cs, c.Leaves Camera.disk) :
    (anyOf cs).Leaves Camera.disk := by
  induction cs with
  | nil => trivial
  | cons c cs ih =>
    obtain ⟨hc, hcs⟩ := List.forall_mem_cons.mp hcs
    exact hc.bind fun ok => leaves_ite trivial (ih hcs)

theorem goes_error {text : String} {Q : α → Disk H → Prop} (hR : ∀ d, R d → I d) :
    Goes Camera.disk I R (error text : Prog (Camera H) α) Q :=
  goes_then hR leaves_report fun _ => goes_exit hR

theorem goes_require {c : Prog (Camera H) Bool} {text : String}
    (hc : Goes Camera.disk I R c (OrError I T)) :
    Goes Camera.disk I R (require c text) fun _ => T := by
  refine hc.bind fun ok => ?_
  cases ok with
  | true => exact goes_pure fun d h => h.2 rfl
  | false => exact goes_error fun d h => h.1

theorem goes_orExit {c : Prog (Camera H) Bool} (hR : ∀ d, R d → I d)
    (hc : c.Leaves Camera.disk) : Goes Camera.disk I R (orExit c) fun _ => R := by
  refine goes_then hR hc fun ok => ?_
  cases ok with
  | true => exact goes_pure fun d h => h
  | false => exact goes_exit hR

theorem goes_verify {p : Camera H → Bool} (hR : ∀ d, R d → I d)
    (hp : ∀ s, R s.disk → p s = true → T s.disk) :
    Goes Camera.disk I R (verify p) (OrError I T) := by
  refine fun st s hs => ⟨hR _ hs, fun ok _ => ⟨hR _ hs, fun h => ?_⟩⟩
  exact hp s hs (Bool.and_eq_true_iff.mp h).2

/-- What only the surroundings know, or what is not asked for here. -/
theorem goes_skip {p : Camera H → Bool} {text : String} (hR : ∀ d, R d → I d) :
    Goes Camera.disk I R (require (verify p) text) fun _ => R :=
  goes_require (goes_verify hR fun _ h _ => h)

/-- A command that leaves card and flash alone. -/
theorem goes_aside {c : Prog (Camera H) Bool} {text : String} (hR : ∀ d, R d → I d)
    (hc : c.Leaves Camera.disk) : Goes Camera.disk I R (require c text) fun _ => R :=
  goes_require ((goes_leaves hc hR).imp (fun _ h => h) fun _ d h => ⟨hR d h, fun _ => h⟩)

theorem goes_act {f : Disk H → Option (Disk H)} (hR : ∀ d, R d → I d) (hT : ∀ d, T d → I d)
    (hf : ∀ d d', R d → f d = some d' → T d') :
    Goes (Camera.disk (H := H)) I R (act f) (OrError I T) := by
  refine fun st s hs => ⟨hR _ hs, fun ok _ => ?_⟩
  cases ok with
  | false => exact ⟨hR _ hs, nofun⟩
  | true =>
    simp only [if_true]
    cases h : f s.disk with
    | none => exact ⟨hR _ hs, nofun⟩
    | some d => exact ⟨hT _ (hf s.disk d hs h), fun _ => hf s.disk d hs h⟩

theorem goes_copy {source : Disk H → Option Bytes} {put : Option Bytes → Disk H → Disk H}
    (hR : ∀ d, R d → I d) (hT : ∀ d, T d → I d) (hput : ∀ d b, R d → T (put b d)) :
    Goes (Camera.disk (H := H)) I R (copy source put) (OrError I T) := by
  refine fun st s hs => ⟨hR _ hs, fun ok _ => ?_⟩
  have hb (b : Option Bytes) : OrError I T ok (put b s.disk) :=
    ⟨hT _ (hput _ b hs), fun _ => hput _ b hs⟩
  simp only
  split
  · exact ⟨hR _ hs, nofun⟩
  · split
    · exact hb _
    · exact hb _
    · exact hb _

/-- **A loop**: `S` is said of what it has done. -/
theorem goes_each {body : α → Prog (Camera H) Unit} {S : List α → Disk H → Prop} {xs : List α}
    (hbody : ∀ done x rest, done ++ x :: rest = xs →
      Goes Camera.disk I (S done) (body x) fun _ => S (done ++ [x])) :
    Goes Camera.disk I (S []) (each body xs) fun _ => S xs := by
  suffices h : ∀ rest done, done ++ rest = xs →
      Goes Camera.disk I (S done) (each body rest) fun _ => S xs from h xs [] rfl
  intro rest
  induction rest with
  | nil => exact fun done hd => goes_pure fun d h => (List.append_nil done).symm.trans hd ▸ h
  | cons x rest ih =>
    intro done hd
    refine (hbody done x rest hd).bind fun _ => ih (done ++ [x]) ?_
    rw [List.append_assoc]
    exact hd

/-- A loop that keeps what holds. -/
theorem goes_each_keeps {body : α → Prog (Camera H) Unit} {xs : List α}
    (hbody : ∀ x, Goes Camera.disk I R (body x) fun _ => R) :
    Goes Camera.disk I R (each body xs) fun _ => R :=
  goes_each (S := fun _ => R) fun _ x _ _ => hbody x

end

/-! ## 2. What holds -/

section

variable {H : Type} (P : Package H)

/-- All the vendor's files are in `/backup`. -/
def Placed (b : Path → Option Entry) : Prop := ∀ f ∈ P.files, b f = some (.file (P.source f))

/-- md5 tells the files of the package from others. -/
structure Tells : Prop where
  manifest : ∀ b, P.md5 b = P.md5 P.manifest → b = P.manifest
  content : ∀ f ∈ P.checked, ∀ b, P.md5 b = P.md5 (P.content f) → b = P.content f

variable (d₀ : Disk H)

/-- The copies on the card are of all the partitions at one time, as the rescue found the camera or as
    they were at a start; only root (2) and home (3) may differ from one to the other. -/
def Saved (starts : List (Nat → Bytes)) (copies : SavedFile → Option Bytes) : Prop :=
  ∃ mtd ∈ d₀.mtd :: starts, (∀ n, n ≠ 2 → n ≠ 3 → mtd n = d₀.mtd n) ∧
    ∀ n < 8, (copies (.mtdblock n)).map P.md5 = some (P.md5 (mtd n))

theorem Saved.mono {P : Package H} {d₀ : Disk H} {starts : List (Nat → Bytes)}
    {copies : SavedFile → Option Bytes} (h : Saved P d₀ starts copies) {mtd : Nat → Bytes} :
    Saved P d₀ (mtd :: starts) copies := by
  obtain ⟨m, hm, h⟩ := h
  exact ⟨m, (List.mem_cons.mp hm).elim (fun hm => hm ▸ List.mem_cons_self)
    fun hm => List.mem_cons_of_mem _ (List.mem_cons_of_mem _ hm), h⟩

/-- The list of sums is there, of all the copies, and each is of its copy. -/
def SumsHold (copies : SavedFile → Option Bytes) (sums : Option (List (SavedFile × H))) : Prop :=
  ∃ m, sums = some m ∧ m.map (·.1) = savedFiles ∧ ∀ e ∈ m, (copies e.1).map P.md5 = some e.2

/-- What may stand at a name of `/backup`: what stood there, the vendor's file, what is being
    staged, or a directory for the vendor's files. -/
def Named (p : Path) (e : Option Entry) : Prop :=
  e = d₀.backup p ∨ p ∈ P.files ∧ e = some (.file (P.source p)) ∨
    (∃ f ∈ P.files, p = staging f) ∧ (∃ b : Option Bytes, e = b.map .file) ∨
    (p = ["tools"] ∨ p = ["ko"]) ∧ d₀.backup p = none ∧ e = some .folder

/-- What holds at every command boundary. -/
structure Inv (d : Disk H) : Prop where
  triggers : d.trigger = none ∨ d.trigger = some P.rescue ∨ d.trigger = some P.stage
  roots : d.root = .torn ∨ d.root = .image P.rescue ∨ d.root = .image P.stage
  final : d.root = .image P.stage ∨ d.trigger = some P.stage → Placed P d.backup
  ran : ∀ b ∈ d.ran, Placed P b
  early : d.verified = false → d.backup = d₀.backup
  saved : d.verified = true → Saved P d₀ d.starts d.copies
  sums : d.verified = true → SumsHold P d.copies d.sums
  named : ∀ p, Named P d₀ p (d.backup p)
  last : d.backup initSh ≠ d₀.backup initSh → Placed P d.backup
  clear : ∀ f ∈ P.files, d.isFolder f = false
  payload : d.payload = d₀.payload
  homever : d.homever = d₀.homever
  mtd : ∀ n, n ≠ 2 → n ≠ 3 → d.mtd n = d₀.mtd n
  now : d.mtd ∈ d₀.mtd :: d.starts
  attempts : d.attempts.getD 0 ≤ 3
  staged : d.staged ≤ d.attempts.getD 0

end

section

variable {H : Type} {P : Package H} {d₀ d : Disk H}

theorem initSh_mem : initSh ∈ P.files := List.mem_append_right _ List.mem_cons_self

theorem staging_not_mem {f : Path} (hf : f ∈ P.files) : staging f ∉ P.files :=
  fun h => P.apart f hf _ h rfl

theorem staging_ne_folder {f p : Path} (hp : p = ["tools"] ∨ p = ["ko"]) : staging f ≠ p := by
  intro h
  have hlast : (f.getLastD "" ++ ".vendor-new").length = (p.getLastD "").length := by
    rw [← h, staging, List.getLastD_concat]
  rw [String.length_append] at hlast
  have hsuffix : ".vendor-new".length = 11 := by decide
  have hshort : (p.getLastD "").length ≤ 5 := by obtain rfl | rfl := hp <;> decide
  omega

theorem folder_not_mem {p : Path} (hp : p = ["tools"] ∨ p = ["ko"]) : p ∉ P.files := by
  intro h
  obtain ⟨_, htools, hko⟩ | h' := P.folders p h
  · obtain rfl | rfl := hp
    · exact htools rfl
    · exact hko rfl
  · obtain rfl | rfl := hp
    · exact absurd h' (by decide)
    · exact absurd h' (by decide)

theorem Placed.update {b : Path → Option Entry} {p : Path} {e : Option Entry} (h : Placed P b)
    (hp : p ∉ P.files) : Placed P (Function.update b p e) := by
  intro f hf
  rw [Function.update_of_ne (ne_of_mem_of_not_mem hf hp), h f hf]

theorem Placed.place {b : Path → Option Entry} (h : Placed P b) (f : Path) :
    Placed P (Function.update b f (some (.file (P.source f)))) := by
  intro g hg
  by_cases hgf : g = f
  · rw [hgf, Function.update_self]
  · rw [Function.update_of_ne hgf, h g hg]

theorem Inv.verified_of_last (h : Inv P d₀ d) (hne : d.backup ≠ d₀.backup) :
    d.verified = true := by
  cases hv : d.verified with
  | true => rfl
  | false => exact absurd (h.early hv) hne

/-- A name that is not of the vendor's files is written. -/
theorem Inv.set (h : Inv P d₀ d) (hv : d.verified = true) {p : Path} {e : Option Entry}
    (hp : p ∉ P.files) (hn : Named P d₀ p e) : Inv P d₀ (d.set p e) where
  triggers := h.triggers
  roots := h.roots
  final hf := (h.final hf).update hp
  ran := h.ran
  early he := absurd (hv.symm.trans he) nofun
  saved := h.saved
  sums := h.sums
  named q := by
    by_cases hq : q = p
    · rw [hq, Disk.set_backup_self]
      exact hn
    · rw [Disk.set_backup_of_ne _ hq]
      exact h.named q
  last hl := by
    refine (h.last fun he => hl ?_).update hp
    rw [Disk.set_backup_of_ne _ (ne_of_mem_of_not_mem initSh_mem hp), he]
  clear f hf := by
    rw [Disk.isFolder_eq_false, Disk.set_backup_of_ne _ (ne_of_mem_of_not_mem hf hp)]
    exact Disk.isFolder_eq_false.mp (h.clear f hf)
  payload := h.payload
  homever := h.homever
  mtd := h.mtd
  now := h.now
  attempts := h.attempts
  staged := h.staged

/-- One of the vendor's files is put in place, the start-up file after the others. -/
theorem Inv.place (h : Inv P d₀ d) (hv : d.verified = true) {f : Path} (hf : f ∈ P.files)
    (hlast : f = initSh → ∀ g ∈ P.support, d.backup g = some (.file (P.source g))) :
    Inv P d₀ (d.set f (some (.file (P.source f)))) where
  triggers := h.triggers
  roots := h.roots
  final hd := (h.final hd).place f
  ran := h.ran
  early he := absurd (hv.symm.trans he) nofun
  saved := h.saved
  sums := h.sums
  named q := by
    by_cases hq : q = f
    · rw [hq, Disk.set_backup_self]
      exact .inr (.inl ⟨hf, rfl⟩)
    · rw [Disk.set_backup_of_ne _ hq]
      exact h.named q
  last hl := by
    by_cases hfi : f = initSh
    · intro g hg
      by_cases hgf : g = f
      · rw [hgf, Disk.set_backup_self]
      · rw [Disk.set_backup_of_ne _ hgf]
        obtain hg | hg := List.mem_append.mp hg
        · exact hlast hfi g hg
        · exact absurd ((List.mem_singleton.mp hg).trans hfi.symm) hgf
    · refine (h.last fun he => hl ?_).place f
      rw [Disk.set_backup_of_ne _ (Ne.symm hfi), he]
  clear g hg := by
    have hg' := Disk.isFolder_eq_false.mp (h.clear g hg)
    rw [Disk.isFolder_eq_false]
    by_cases hgf : g = f
    · rw [hgf, Disk.set_backup_self]
      exact ⟨hgf ▸ hg'.1, nofun, nofun⟩
    · rw [Disk.set_backup_of_ne _ hgf]
      exact hg'
  payload := h.payload
  homever := h.homever
  mtd := h.mtd
  now := h.now
  attempts := h.attempts
  staged := h.staged

/-! ## 3. The checks and the copies -/

/-- The card holds the package's files. -/
structure Checked (P : Package H) (d₀ d : Disk H) : Prop extends Inv P d₀ d where
  genuine : ∀ f ∈ P.checked, d.onCard f = some (P.content f)

/-- The partitions of `done` are on the card. -/
structure Saving (P : Package H) (d₀ : Disk H) (done : List Nat) (d : Disk H) : Prop
    extends Checked P d₀ d where
  unverified : d.verified = false
  copied : ∀ n ∈ done, (d.copies (.mtdblock n)).map P.md5 = some (P.md5 (d.mtd n))

/-- The copies are there, and the vendor's files of `done` in place. -/
structure Placing (P : Package H) (d₀ : Disk H) (done : List Path) (d : Disk H) : Prop
    extends Checked P d₀ d where
  verified : d.verified = true
  placed : ∀ g ∈ done, d.backup g = some (.file (P.source g))

theorem source_checked {f : Path} (hf : f ∈ P.files) : "support" :: f ∈ P.checked :=
  List.mem_cons_of_mem _ (List.mem_cons_of_mem _ (List.mem_map_of_mem hf))

theorem Inv.unverified_copies (h : Inv P d₀ d) (hv : d.verified = false)
    (c : SavedFile → Option Bytes) : Inv P d₀ { d with copies := c } :=
  { h with
    saved := fun he => absurd (hv.symm.trans he) nofun
    sums := fun he => absurd (hv.symm.trans he) nofun }

/-- A copy that is not yet, or not at all, among those that were compared. -/
theorem Saving.copy {done : List Nat} {f : SavedFile} (h : Saving P d₀ done d)
    (hf : ∀ n ∈ done, f ≠ .mtdblock n) (b : Option Bytes) :
    Saving P d₀ done { d with copies := Function.update d.copies f b } where
  toInv := h.toInv.unverified_copies h.unverified _
  genuine := h.genuine
  unverified := h.unverified
  copied n hn := by
    simp only [Function.update_of_ne (hf n hn).symm]
    exact h.copied n hn

/-- The list that is written has every copy, with its sum. -/
theorem listed_holds {m : List (SavedFile × H)} (hm : listed P d = some m) :
    SumsHold P d.copies (some m) := by
  have hpairs : ∀ fs : List SavedFile, (fs.all fun f => (d.copies f).isSome) = true →
      (fs.filterMap fun f => (d.copies f).map fun c => (f, P.md5 c)).map (·.1) = fs := by
    intro fs hfs
    induction fs with
    | nil => rfl
    | cons f fs ih =>
      obtain ⟨hf, hfs⟩ := Bool.and_eq_true_iff.mp hfs
      obtain ⟨c, hc⟩ := Option.isSome_iff_exists.mp hf
      rw [List.filterMap_cons_some (b := (f, P.md5 c)) (by rw [hc, Option.map_some]), List.map_cons,
        ih hfs]
  rw [listed] at hm
  split at hm
  · next hall =>
    obtain rfl := Option.some.inj hm
    refine ⟨_, rfl, hpairs savedFiles hall, fun e he => ?_⟩
    obtain ⟨f, -, hf⟩ := List.mem_filterMap.mp he
    obtain ⟨c, hc, rfl⟩ := Option.map_eq_some_iff.mp hf
    exact congrArg (Option.map P.md5) hc
  · exact absurd hm nofun

theorem goes_assign {R I T : Disk H → Prop} {f : Camera H → Camera H} (hR : ∀ d, R d → I d)
    (hf : ∀ s, R s.disk → T (f s).disk) :
    Goes Camera.disk I R (Prog.assign f) fun _ => T :=
  fun _ s hs => ⟨hR _ hs, fun _ _ => hf s hs⟩

variable [DecidableEq H]

/-- **What the checks find**: the files of the package, and nothing else under their names. -/
theorem checks_goes (ht : Tells P) :
    Goes Camera.disk (Inv P d₀) (Inv P d₀) (checks P) fun _ => Checked P d₀ := by
  have hR (d : Disk H) (h : Inv P d₀ d) : Inv P d₀ d := h
  have hx : (external : Prog (Camera H) Bool).Leaves Camera.disk := leaves_verify
  refine (goes_orExit hR (leaves_anyOf ?_)).bind fun _ => ?_
  · simp only [List.forall_mem_cons, List.not_mem_nil, false_implies, implies_true, and_true]
    exact ⟨hx, hx⟩
  refine (goes_orExit hR (leaves_anyOf ?_)).bind fun _ => (goes_skip hR).bind fun _ => ?_
  · simp only [List.forall_mem_cons, List.not_mem_nil, false_implies, implies_true, and_true]
    exact ⟨hx, hx, hx⟩
  refine Goes.bind (T := fun _ d => Inv P d₀ d ∧ d.onCard ["payload.md5"] = some P.manifest)
    (goes_require (goes_verify hR fun s h hp => ⟨h, ?_⟩)) fun _ => ?_
  · obtain ⟨m, hm, he⟩ := Option.map_eq_some_iff.mp (of_decide_eq_true hp)
    rw [hm, ht.manifest m he]
  refine Goes.bind (T := fun _ => Checked P d₀)
    (goes_require (goes_verify (fun _ h => h.1) fun s h hp => ⟨h.1, fun f hf => ?_⟩)) fun _ => ?_
  · rw [h.2, Option.any_some, List.all_eq_true] at hp
    have he := of_decide_eq_true (hp (f, P.md5 (P.content f)) ((P.listed _).mpr ⟨f, hf, rfl⟩))
    obtain ⟨b, hb, he⟩ := Option.map_eq_some_iff.mp he
    rw [hb, ht.content f hf b he]
  have hC (d : Disk H) (h : Checked P d₀ d) : Inv P d₀ d := h.toInv
  exact (goes_each_keeps fun _ => goes_skip hC).bind fun _ => (goes_skip hC).bind fun _ =>
    goes_skip hC

theorem savePartition_goes {done : List Nat} {n : Nat} (hn : n ∉ done) :
    Goes Camera.disk (Inv P d₀) (Saving P d₀ done) (savePartition P n)
      fun _ => Saving P d₀ (done ++ [n]) := by
  have hR (d : Disk H) (h : Saving P d₀ done d) : Inv P d₀ d := h.toInv
  have hother : ∀ m ∈ done, SavedFile.mtdblock n ≠ .mtdblock m := fun m hm he =>
    hn (SavedFile.mtdblock.inj he ▸ hm)
  refine (goes_require (goes_copy hR hR fun d b h => h.copy hother b)).bind fun _ => ?_
  refine goes_require (goes_verify hR fun s h hp => { h with copied := fun m hm => ?_ })
  obtain hm | hm := List.mem_append.mp hm
  · exact h.copied m hm
  · obtain rfl := List.mem_singleton.mp hm
    exact of_decide_eq_true hp

theorem saveAll_goes :
    Goes Camera.disk (Inv P d₀) (Saving P d₀ []) (saveAll P) fun _ => Placing P d₀ [] := by
  have hR (done : List Nat) (d : Disk H) (h : Saving P d₀ done d) : Inv P d₀ d := h.toInv
  refine Goes.bind (T := fun _ => Saving P d₀ [])
    (goes_require (goes_test (hR []) fun s h => ⟨h.toInv, fun _ => h⟩)) fun _ => ?_
  refine (goes_skip (hR [])).bind fun _ => (goes_skip (hR [])).bind fun _ => ?_
  refine Goes.bind (T := fun _ => Saving P d₀ [])
    (goes_require (goes_act (hR []) (hR []) fun d d' h hd => ?_)) fun _ => ?_
  · split at hd
    · exact absurd hd nofun
    · obtain rfl := Option.some.inj hd
      exact ⟨⟨{ h.toInv with }, h.genuine⟩, h.unverified, h.copied⟩
  refine (goes_each (S := Saving P d₀) fun done n rest hd => savePartition_goes ?_).bind fun _ => ?_
  · have hnodup : (done ++ n :: rest).Nodup := hd ▸ List.nodup_range
    exact fun hm => (List.nodup_append.mp hnodup).2.2 n hm n List.mem_cons_self rfl
  have harchive : ∀ n ∈ List.range 8, SavedFile.backupFiles ≠ .mtdblock n := fun _ _ => nofun
  refine (goes_require (goes_copy (hR _) (hR _) fun d b h => h.copy harchive b)).bind fun _ => ?_
  refine Goes.bind (T := fun _ d => Saving P d₀ (List.range 8) d ∧ SumsHold P d.copies d.sums)
    (goes_require (goes_act (hR _) (fun d h => hR _ d h.1) fun d d' h hd => ?_)) fun _ => ?_
  · obtain ⟨m, hm, rfl⟩ := Option.map_eq_some_iff.mp hd
    exact ⟨⟨⟨{ h.toInv with sums := fun he => absurd (h.unverified.symm.trans he) nofun },
      h.genuine⟩, h.unverified, h.copied⟩, listed_holds hm⟩
  refine goes_require (goes_act (fun d h => hR _ d h.1) (fun d h => h.toInv) fun d d' h hd => ?_)
  obtain rfl := Option.some.inj hd
  have hsaved : Saved P d₀ d.starts d.copies :=
    ⟨d.mtd, h.1.now, h.1.mtd, fun n hn => h.1.copied n (List.mem_range.mpr hn)⟩
  exact ⟨⟨{ h.1.toInv with
    early := fun he => absurd he nofun
    saved := fun _ => hsaved
    sums := fun _ => h.2 }, h.1.genuine⟩, rfl, nofun⟩

/-! ## 4. The vendor's files -/

end

section

variable {H : Type} {P : Package H} {d₀ d : Disk H} {done : List Path} {f : Path}

/-- A name that is not of the vendor's files is written. -/
theorem Placing.set (h : Placing P d₀ done d) (hd : done ⊆ P.files) {p : Path} {e : Option Entry}
    (hp : p ∉ P.files) (hn : Named P d₀ p e) : Placing P d₀ done (d.set p e) where
  toInv := h.toInv.set h.verified hp hn
  genuine := h.genuine
  verified := h.verified
  placed g hg := by
    rw [Disk.set_backup_of_ne _ (ne_of_mem_of_not_mem (hd hg) hp)]
    exact h.placed g hg

theorem Placing.stage (h : Placing P d₀ done d) (hd : done ⊆ P.files) (hf : f ∈ P.files)
    (b : Option Bytes) : Placing P d₀ done (d.set (staging f) (b.map .file)) :=
  h.set hd (staging_not_mem hf) (.inr (.inr (.inl ⟨⟨f, hf, rfl⟩, b, rfl⟩)))

/-- A directory for the vendor's files. -/
theorem Placing.mkdir (h : Placing P d₀ done d) (hd : done ⊆ P.files) (hf : f ∈ P.files)
    {d' : Disk H} (hm : d.mkdir f.dropLast = some d') : Placing P d₀ done d' := by
  rw [Disk.mkdir] at hm
  split at hm
  · exact Option.some.inj hm ▸ h
  · next hfolder =>
    split at hm
    · next hnone =>
      obtain rfl := Option.some.inj hm
      have htop : f.dropLast = ["tools"] ∨ f.dropLast = ["ko"] := by
        obtain ⟨hnil, -⟩ | h' := P.folders f hf
        · exact absurd (by rw [hnil]; rfl) hfolder
        · exact h'
      have hp := folder_not_mem (P := P) htop
      refine h.set hd hp (.inr (.inr (.inr ⟨htop, ?_, rfl⟩)))
      -- nobody else made the directory: what is missing now was missing then
      obtain he | ⟨hmem, -⟩ | ⟨⟨g, hg, he⟩, -⟩ | ⟨-, -, he⟩ := h.named f.dropLast
      · exact he.symm.trans hnone
      · exact absurd hmem hp
      · exact absurd he.symm (staging_ne_folder htop)
      · exact absurd (hnone.symm.trans he) nofun
    · exact absurd hm nofun

/-- **The file takes its place**, the start-up file after the others. -/
theorem Placing.activate (h : Placing P d₀ done d) (hd : done ⊆ P.files) (hf : f ∈ P.files)
    (hlast : f = initSh → P.support ⊆ done)
    (hs : d.backup (staging f) = some (.file (P.source f))) {d' : Disk H}
    (ha : d.activate f = some d') : Placing P d₀ (done ++ [f]) d' := by
  have hclear := Disk.isFolder_eq_false.mp (h.clear f hf)
  have hd' : d' = (d.set (staging f) none).set f (some (.file (P.source f))) := by
    simp only [Disk.activate, hs, Option.map_some, Option.some.injEq] at ha
    rw [← ha]
    split
    · next hb => exact absurd hb hclear.2.1
    · next hb => exact absurd hb hclear.2.2
    · rfl
  subst hd'
  have h' := h.stage hd hf none
  refine ⟨⟨h'.toInv.place h'.verified hf fun hi g hg => h'.placed g (hlast hi hg), h'.genuine⟩,
    h'.verified, fun g hg => ?_⟩
  by_cases hgf : g = f
  · rw [hgf, Disk.set_backup_self]
  · rw [Disk.set_backup_of_ne _ hgf]
    obtain hg | hg := List.mem_append.mp hg
    · exact h'.placed g hg
    · exact absurd (List.mem_singleton.mp hg) hgf

/-- What has the sum of the vendor's file is the vendor's file. -/
theorem Placing.of_hash (h : Placing P d₀ done d) (ht : Tells P) (hf : f ∈ P.files) {p : Path}
    (he : (d.bytes p).map P.md5 = (d.onCard ("support" :: f)).map P.md5) :
    d.backup p = some (.file (P.source f)) := by
  have hc := source_checked hf
  rw [h.genuine _ hc, Option.map_some] at he
  obtain ⟨b, hb, he⟩ := Option.map_eq_some_iff.mp he
  rw [Disk.backup_of_bytes hb, ht.content _ hc b he]
  rfl

variable [DecidableEq H]

theorem install_goes (ht : Tells P) (hd : done ⊆ P.files) (hf : f ∈ P.files)
    (hlast : f = initSh → P.support ⊆ done) :
    Goes Camera.disk (Inv P d₀) (Placing P d₀ done) (install P f)
      fun _ => Placing P d₀ (done ++ [f]) := by
  have hR (d : Disk H) (h : Placing P d₀ done d) : Inv P d₀ d := h.toInv
  have hin (d : Disk H) (h : Placing P d₀ done d) (he : d.backup f = some (.file (P.source f))) :
      Placing P d₀ (done ++ [f]) d := by
    refine { h with placed := fun g hg => ?_ }
    obtain hg | hg := List.mem_append.mp hg
    · exact h.placed g hg
    · rw [List.mem_singleton.mp hg, he]
  refine Goes.bind (T := fun there d => Placing P d₀ done d ∧
    (there = true → d.backup f = some (.file (P.source f)))) ?_ fun there => goes_ite ?_ ?_
  · refine goes_then hR leaves_test fun linked => ?_
    refine goes_ite (goes_pure fun d h => ⟨h.1, nofun⟩) ?_
    refine fun st s hs => ⟨hR _ hs.1, fun ok _ => ⟨hs.1, fun hp => ?_⟩⟩
    exact hs.1.of_hash ht hf (of_decide_eq_true (Bool.and_eq_true_iff.mp hp).2)
  · exact goes_pure fun d h => hin d h.1.1 (h.1.2 h.2)
  refine Goes.imp (R := Placing P d₀ done) ?_ (fun _ h => h.1.1) fun _ _ h => h
  refine (goes_skip hR).bind fun _ => (goes_skip hR).bind fun _ => ?_
  refine Goes.bind (T := fun _ => Placing P d₀ done)
    (goes_require (goes_act hR hR fun d d' h hm => h.mkdir hd hf hm)) fun _ => ?_
  refine Goes.bind (T := fun _ => Placing P d₀ done)
    (goes_require (goes_act hR hR fun d d' h hm => ?_)) fun _ => ?_
  · rw [Disk.rm] at hm
    split at hm
    · exact absurd hm nofun
    · exact Option.some.inj hm ▸ h.stage hd hf none
  refine Goes.bind (T := fun _ => Placing P d₀ done)
    (goes_require (goes_copy hR hR fun d b h => h.stage hd hf _)) fun _ => ?_
  refine goes_then hR leaves_verify fun _ => ?_
  refine Goes.bind (T := fun _ d => Placing P d₀ done d ∧
      d.backup (staging f) = some (.file (P.source f)))
    (goes_require (goes_verify hR fun s h hp => ⟨h, h.of_hash ht hf (of_decide_eq_true hp)⟩))
    fun _ => ?_
  exact goes_require (goes_act (fun d h => h.1.toInv) (fun d h => h.toInv) fun d d' h ha =>
    h.1.activate hd hf hlast h.2 ha)

/-! ## 5. The root image -/

/-- The vendor's files are all there. -/
structure Whole (P : Package H) (d₀ d : Disk H) : Prop extends Checked P d₀ d where
  placed : Placed P d.backup

omit [DecidableEq H] in
theorem runInit_goes {R : Disk H → Prop} (hR : ∀ d, R d → Inv P d₀ d ∧ Placed P d.backup) :
    Goes Camera.disk (Inv P d₀) R (runInit : Prog (Camera H) Unit) fun _ => Inv P d₀ := by
  refine goes_assign (fun d h => (hR d h).1) fun s h => ?_
  refine { (hR _ h).1 with ran := fun b hb => ?_ }
  obtain hb | hb := List.mem_append.mp hb
  · exact (hR _ h).1.ran b hb
  · exact List.mem_singleton.mp hb ▸ (hR _ h).2

omit [DecidableEq H] in
theorem exhausted_goes :
    Goes Camera.disk (Inv P d₀) (Whole P d₀) (exhausted : Prog (Camera H) Unit)
      fun _ => Inv P d₀ := by
  refine goes_then (fun _ h => h.toInv) leaves_report fun _ => ?_
  exact (runInit_goes fun d h => ⟨h.toInv, h.placed⟩).bind fun _ => goes_exit fun _ h => h

omit [DecidableEq H] in
theorem readAttempts_goes :
    Goes Camera.disk (Inv P d₀) (Whole P d₀) (readAttempts : Prog (Camera H) (Option Nat))
      fun a d => Whole P d₀ d ∧ ∀ n, a = some n → d.attempts.getD 0 = n := by
  have hR (d : Disk H) (h : Whole P d₀ d) : Inv P d₀ d := h.toInv
  refine Goes.bind (T := fun none d => Whole P d₀ d ∧ (none = true → d.attempts = .none))
    (goes_test hR fun s h => ⟨h, fun hn => Option.isNone_iff_eq_none.mp hn⟩) fun _ => goes_ite ?_ ?_
  · refine goes_pure fun d h => ⟨h.1.1, fun n hn => ?_⟩
    rw [h.1.2 h.2]
    exact Option.some.inj hn
  · refine Goes.imp (R := Whole P d₀) ?_ (fun _ h => h.1.1) fun _ _ h => h
    refine goes_then hR leaves_verify fun _ => goes_ite ?_ (goes_pure fun d h => ⟨h.1, nofun⟩)
    exact fun st s hs => ⟨hR _ hs.1, fun _ _ => ⟨hs.1, fun n hn => by rw [hn]; rfl⟩⟩

/-- The attempt is in the journal, the image not yet in place. -/
structure Counted (P : Package H) (d₀ : Disk H) (n : Nat) (d : Disk H) : Prop
    extends Whole P d₀ d where
  attempts_eq : d.attempts = some (n + 1)
  before : d.staged ≤ n

/-- **At most three times**, and with the vendor's files in place. -/
theorem stageRoot_goes (ht : Tells P) :
    Goes Camera.disk (Inv P d₀) (Whole P d₀) (stageRoot P) fun _ => Inv P d₀ := by
  refine readAttempts_goes.bind fun a => ?_
  have hex : Goes Camera.disk (Inv P d₀)
      (fun d => Whole P d₀ d ∧ ∀ n, a = some n → d.attempts.getD 0 = n)
      (exhausted : Prog (Camera H) Unit) fun _ => Inv P d₀ :=
    exhausted_goes.imp (fun _ h => h.1) fun _ _ h => h
  cases a with
  | none => exact hex
  | some n =>
    simp only
    split
    case isFalse => exact hex
    next hn =>
    have hC (d : Disk H) (h : Counted P d₀ n d) : Inv P d₀ d := h.toInv
    refine Goes.bind (T := fun _ d => Whole P d₀ d ∧ d.attempts.getD 0 = n ∧
        d.attemptsNew = some (n + 1))
      (goes_require (goes_act (fun d h => h.1.toInv) (fun d h => h.1.toInv) fun d d' h hd => ?_))
      fun _ => ?_
    · obtain rfl := Option.some.inj hd
      exact ⟨⟨⟨{ h.1.toInv with }, h.1.genuine⟩, h.1.placed⟩, h.2 n rfl, rfl⟩
    refine Goes.bind (T := fun _ => Counted P d₀ n)
      (goes_require (goes_act (fun d h => h.1.toInv) hC fun d d' h hd => ?_)) fun _ => ?_
    · rw [h.2.2, Option.map_some] at hd
      obtain rfl := Option.some.inj hd
      have hle : d.staged ≤ n := h.2.1 ▸ h.1.staged
      exact ⟨⟨⟨{ h.1.toInv with attempts := Nat.succ_le_succ hn, staged := Nat.le_succ_of_le hle },
        h.1.genuine⟩, h.1.placed⟩, rfl, hle⟩
    refine Goes.bind (T := fun _ => Counted P d₀ n)
      (goes_require (goes_copy hC hC fun d b h => ?_)) fun _ => ?_
    · exact ⟨⟨⟨{ h.toInv with }, h.genuine⟩, h.placed⟩, h.attempts_eq, h.before⟩
    refine Goes.bind (T := fun _ d => Counted P d₀ n d ∧ d.triggerNew = some P.stage)
      (goes_require (goes_verify hC fun s h hp => ⟨h, ?_⟩)) fun _ => ?_
    · obtain ⟨b, hb, he⟩ := Option.map_eq_some_iff.mp (of_decide_eq_true hp)
      rw [hb, ht.content ["rootfs.stage"] (List.mem_cons_of_mem _ List.mem_cons_self) b he]
      rfl
    refine Goes.bind (T := fun _ => Inv P d₀)
      (goes_require (goes_act (fun d h => hC d h.1) (fun d h => h) fun d d' h hd => ?_)) fun _ => ?_
    · rw [h.2, Option.map_some] at hd
      obtain rfl := Option.some.inj hd
      refine { h.1.toInv with
        triggers := .inr (.inr rfl)
        final := fun _ => h.1.placed
        staged := ?_ }
      rw [show d.attempts = some (n + 1) from h.1.attempts_eq]
      exact Nat.succ_le_succ h.1.before
    exact goes_then (fun _ h => h) leaves_report fun _ => goes_exit fun _ h => h

/-! ## 6. The scripts -/

omit [DecidableEq H] in
/-- What comes before the last of a list. -/
theorem subset_of_last {α : Type} {x : α} {xs done rest : List α} (hx : x ∉ xs)
    (h : done ++ x :: rest = xs ++ [x]) : xs ⊆ done := by
  obtain ⟨as, hxs, has⟩ | ⟨bs, hdone, -⟩ := List.append_eq_append_iff.mp h
  · cases as with
    | nil => exact hxs ▸ (List.append_nil done).symm ▸ List.Subset.refl _
    | cons a as =>
      obtain rfl := (List.cons.inj has).1
      exact absurd (hxs ▸ List.mem_append_right _ List.mem_cons_self) hx
  · exact hdone ▸ List.subset_append_left _ _

theorem saveOnce_goes :
    Goes Camera.disk (Inv P d₀) (Checked P d₀) (saveOnce P) fun _ => Placing P d₀ [] := by
  refine Goes.bind (T := fun ok d => Checked P d₀ d ∧ d.verified = ok)
    (goes_test (fun d h => h.toInv) fun s h => ⟨h, rfl⟩) fun ok => goes_ite ?_ ?_
  · exact goes_pure fun d h => ⟨h.1.1, h.1.2.trans h.2, nofun⟩
  · exact saveAll_goes.imp (fun d h => ⟨h.1.1, h.1.2.trans h.2, nofun⟩) fun _ _ h => h

theorem rescue_goes (ht : Tells P) :
    Goes Camera.disk (Inv P d₀) (Inv P d₀) (rescue P) fun _ => Inv P d₀ := by
  have hR (done : List Path) (d : Disk H) (h : Placing P d₀ done d) : Inv P d₀ d := h.toInv
  refine (checks_goes ht).bind fun _ => saveOnce_goes.bind fun _ => ?_
  refine (goes_skip (hR [])).bind fun _ => (goes_skip (hR [])).bind fun _ => ?_
  refine (goes_each_keeps fun x => goes_aside (hR []) leaves_test).bind fun _ => ?_
  refine (goes_each (S := Placing P d₀) fun done f rest hd => ?_).bind fun _ => ?_
  · have hsub : done ++ f :: rest ⊆ P.files := hd ▸ List.Subset.refl _
    refine install_goes ht (fun g hg => hsub (List.mem_append_left _ hg))
      (hsub (List.mem_append_right _ List.mem_cons_self)) fun hf => ?_
    exact subset_of_last P.last (hf ▸ hd)
  · exact (stageRoot_goes ht).imp (fun d h => ⟨h.toChecked, h.placed⟩) fun _ _ h => h

theorem retire_goes {trigger : Disk H → Option Bytes} {image : Bytes} {rm : Disk H → Disk H}
    (hrm : ∀ d, Inv P d₀ d → Inv P d₀ (rm d)) :
    Goes Camera.disk (Inv P d₀) (Inv P d₀) (retire P trigger image rm) fun _ => Inv P d₀ := by
  have hR (d : Disk H) (h : Inv P d₀ d) : Inv P d₀ d := h
  refine goes_then hR leaves_verify fun _ => goes_ite ?_ (goes_pure fun _ h => h.1)
  refine Goes.bind (T := fun _ => Inv P d₀) ?_ fun _ => goes_pure fun _ h => h
  exact (goes_act hR hR fun d d' h hd => Option.some.inj hd ▸ hrm d h).imp (fun _ h => h.1)
    fun _ _ h => h.1

theorem leaves_confirmed : (confirmed P).Leaves Camera.disk :=
  leaves_test.bind fun _ => leaves_ite
    (leaves_verify.bind fun _ => leaves_ite leaves_verify trivial) trivial

/-- The launcher takes triggers away, no more. -/
theorem concluded_goes :
    Goes Camera.disk (Inv P d₀) (Inv P d₀) (concluded P) fun _ => Inv P d₀ := by
  have hR (d : Disk H) (h : Inv P d₀ d) : Inv P d₀ d := h
  refine goes_then hR leaves_confirmed fun _ => goes_ite ?_ (goes_pure fun _ h => h.1)
  refine (goes_then hR leaves_report fun _ => ?_).imp (fun _ h => h.1) fun _ _ h => h
  refine (retire_goes fun d h => ?_).bind fun _ => retire_goes fun d h => { h with }
  exact { h with
    triggers := .inl rfl
    final := fun hd => h.final (hd.imp_right nofun) }

theorem launcher_goes :
    Goes Camera.disk (Inv P d₀) (Inv P d₀) (launcher P) fun _ => Inv P d₀ := by
  have hR (d : Disk H) (h : Inv P d₀ d) : Inv P d₀ d := h
  have hx : (external : Prog (Camera H) Bool).Leaves Camera.disk := leaves_verify
  have hany : (anyOf [external, external] : Prog (Camera H) Bool).Leaves Camera.disk := by
    refine leaves_anyOf ?_
    simp only [List.forall_mem_cons, List.not_mem_nil, false_implies, implies_true, and_true]
    exact ⟨hx, hx⟩
  refine (goes_orExit hR hany).bind fun _ => (goes_orExit hR hany).bind fun _ => ?_
  exact concluded_goes.bind fun _ => goes_orExit hR leaves_verify

/-- **The launcher is all that is ever run as `/backup/init.sh`.** -/
theorem vendorStart_goes :
    Goes Camera.disk (Inv P d₀) (fun d => Inv P d₀ d ∧ Placed P d.backup) (vendorStart P)
      fun _ => Inv P d₀ := by
  refine (runInit_goes fun d h => h).bind fun _ => ?_
  refine goes_then (fun _ h => h) leaves_test fun _ => goes_ite ?_ ?_
  · exact launcher_goes.imp (fun _ h => h.1) fun _ _ h => h
  · exact goes_pure fun _ h => h.1

end

/-! ## 7. Starts and losses of power -/

/-- What the boot loader makes of the image on the card. -/
inductive Update
  | ignored
  | taken
  | torn
  deriving DecidableEq, Repr

/-- A start, after the last run ended or lost its power, with what is in the partitions of root and
    home then and whether the image stays on the card; or the next command. -/
inductive Event
  | start (update : Update) (flash : Nat → Bytes) (kept : Bool)
  | command (ok : Bool)

section

variable {H : Type} {P : Package H} {d₀ d : Disk H}

/-- The boot loader's part of a start. -/
def Disk.started (update : Update) (flash : Nat → Bytes) (kept : Bool) (d : Disk H) : Disk H :=
  let mtd := fun n => if n = 2 ∨ n = 3 then flash n else d.mtd n
  { d with
    root := match update, d.trigger with
      | .taken, some c => .image c
      | .torn, some _ => .torn
      | _, _ => d.root
    mtd
    trigger := if kept then d.trigger else none
    starts := mtd :: d.starts }

/-- What the root system starts; a torn one starts nothing, and any other is not of this package. -/
def startup [DecidableEq H] (P : Package H) (d : Disk H) : Prog (Camera H) Unit :=
  if d.root = .image P.rescue then rescue P
  else if d.root = .image P.stage then vendorStart P
  else return ()

/-- No signals. -/
def untrapped : Trap (Camera H) where
  on _ := false
  handler _ := return ()

namespace Machine

def step [DecidableEq H] (P : Package H) (c : Config (Camera H)) : Event → Config (Camera H)
  | .start update flash kept =>
    let d := c.state.disk.started update flash kept
    ⟨startup P d, true, { c.state with disk := d }⟩
  | .command ok => c.step untrapped (.outcome ok)

end Machine

/-- The camera as the rescue finds it: its system is installed, or was torn while it was, and the
    card is fresh. -/
structure Found (P : Package H) (d₀ : Disk H) : Prop where
  root : d₀.root = .image P.rescue ∨ d₀.root = .torn
  trigger : d₀.trigger = some P.rescue ∨ d₀.trigger = none
  verified : d₀.verified = false
  attempts : d₀.attempts = none
  staged : d₀.staged = 0
  ran : d₀.ran = []
  clear : ∀ f ∈ P.files, d₀.isFolder f = false

theorem Found.inv (h : Found P d₀) : Inv P d₀ d₀ where
  triggers := h.trigger.elim (fun h => .inr (.inl h)) .inl
  roots := h.root.elim (fun h => .inr (.inl h)) .inl
  final hd := by
    obtain hd | hd := hd
    · obtain hr | hr := h.root
      · exact absurd (Root.image.inj (hr.symm.trans hd)) P.images
      · exact absurd (hr.symm.trans hd) nofun
    · obtain hr | hr := h.trigger
      · exact absurd (Option.some.inj (hr.symm.trans hd)) P.images
      · exact absurd (hr.symm.trans hd) nofun
  ran b hb := absurd (h.ran ▸ hb) List.not_mem_nil
  early _ := rfl
  saved hv := absurd (h.verified.symm.trans hv) nofun
  sums hv := absurd (h.verified.symm.trans hv) nofun
  named _ := .inl rfl
  last hne := absurd rfl hne
  clear := h.clear
  payload := rfl
  homever := rfl
  mtd _ _ _ := rfl
  now := List.mem_cons_self
  attempts := by
    rw [h.attempts]
    exact Nat.zero_le 3
  staged := h.staged.trans_le (Nat.zero_le _)

/-- What a loss of power must find; `d₀` is the camera as the rescue found it. -/
structure Recoverable (P : Package H) (d₀ d : Disk H) : Prop where
  final : d.root = .image P.stage ∨ d.trigger = some P.stage → Placed P d.backup
  ran : ∀ b ∈ d.ran, Placed P b
  saved : d.backup ≠ d₀.backup →
    d.verified = true ∧ Saved P d₀ d.starts d.copies ∧ SumsHold P d.copies d.sums
  named : ∀ p, Named P d₀ p (d.backup p)
  last : d.backup initSh ≠ d₀.backup initSh → Placed P d.backup
  mtd : ∀ n, n ≠ 2 → n ≠ 3 → n ≠ 4 → d.mtd n = d₀.mtd n
  staged : d.staged ≤ 3

theorem Inv.recoverable (h : Inv P d₀ d) : Recoverable P d₀ d where
  final := h.final
  ran := h.ran
  saved hne := ⟨h.verified_of_last hne, h.saved (h.verified_of_last hne), h.sums (h.verified_of_last hne)⟩
  named := h.named
  last := h.last
  mtd n h2 h3 _ := h.mtd n h2 h3
  staged := h.staged.trans h.attempts

theorem Inv.started (h : Inv P d₀ d) (update : Update) (flash : Nat → Bytes) (kept : Bool) :
    Inv P d₀ (d.started update flash kept) := by
  have htrigger : (d.started update flash kept).trigger = d.trigger ∨
      (d.started update flash kept).trigger = none := by
    cases kept with
    | true => exact .inl rfl
    | false => exact .inr rfl
  have hroot : (d.started update flash kept).root = d.root ∨
      (d.started update flash kept).root = .torn ∨
      ∃ c, d.trigger = some c ∧ (d.started update flash kept).root = .image c := by
    cases ht : d.trigger <;> cases update <;> simp [Disk.started, ht]
  refine { h with
    triggers := ?_, roots := ?_, final := fun hd => h.final ?_, mtd := ?_
    saved := fun hv => (h.saved hv).mono, now := List.mem_cons_of_mem _ List.mem_cons_self }
  · obtain ht | ht := htrigger
    · exact ht ▸ h.triggers
    · exact .inl ht
  · obtain hr | hr | ⟨c, hc, hr⟩ := hroot
    · exact hr ▸ h.roots
    · exact .inl hr
    · rw [hr]
      obtain ht | ht | ht := h.triggers
      · exact absurd (hc.symm.trans ht) nofun
      · exact .inr (.inl (congrArg Root.image (Option.some.inj (hc.symm.trans ht))))
      · exact .inr (.inr (congrArg Root.image (Option.some.inj (hc.symm.trans ht))))
  · obtain hd | hd := hd
    · obtain hr | hr | ⟨c, hc, hr⟩ := hroot
      · exact .inl (hr ▸ hd)
      · exact absurd (hr.symm.trans hd) nofun
      · exact .inr (hc.trans (congrArg some (Root.image.inj (hr.symm.trans hd))))
    · obtain ht | ht := htrigger
      · exact .inr (ht ▸ hd)
      · exact absurd (ht.symm.trans hd) nofun
  · intro n h2 h3
    show (if n = 2 ∨ n = 3 then flash n else d.mtd n) = _
    rw [if_neg (not_or.mpr ⟨h2, h3⟩), h.mtd n h2 h3]

/-- At every command boundary, and at the end. -/
def Sound (P : Package H) (d₀ : Disk H) (c : Config (Camera H)) : Prop :=
  c.Safe (fun _ _ => True) (fun _ s => Inv P d₀ s.disk) fun s => Inv P d₀ s.disk

theorem Sound.now {c : Config (Camera H)} (h : Sound P d₀ c) : Inv P d₀ c.state.disk :=
  Config.Safe.now (I := fun s : Camera H => Inv P d₀ s.disk) h

variable [DecidableEq H]

theorem startup_sound (ht : Tells P) {s : Camera H} (h : Inv P d₀ s.disk) (st : Bool) :
    Sound P d₀ ⟨startup P s.disk, st, s⟩ := by
  show (startup P s.disk).Safe _ _ _ st s
  rw [startup]
  split
  · exact rescue_goes ht st s h
  · split
    · next hroot => exact vendorStart_goes st s ⟨h, h.final (.inl hroot)⟩
    · exact h

theorem step_sound (ht : Tells P) (c : Config (Camera H)) (e : Event) (h : Sound P d₀ c) :
    Sound P d₀ (Machine.step P c e) := by
  cases e with
  | start update flash kept =>
    exact startup_sound (s := { c.state with disk := c.state.disk.started update flash kept }) ht
      (h.now.started update flash kept) true
  | command ok =>
    refine step_safe (A := fun _ _ => True) (S := fun _ _ => True) (fun st s hN _ => hN) ?_ h
    obtain ⟨prog, st, s⟩ := c
    cases prog <;> trivial

/-- Where a run from a camera gets. -/
def reached (P : Package H) (s : Camera H) (es : List Event) : Config (Camera H) :=
  run (Machine.step P) ⟨.pure (), true, s⟩ es

theorem run_sound (ht : Tells P) {s : Camera H} (h : Found P s.disk) (es : List Event) :
    Sound P s.disk (reached P s es) :=
  run_inv (fun c e => step_sound ht c e) (show Sound P s.disk ⟨.pure (), true, s⟩ from h.inv) es

end

/-! ### A camera with a card -/

def sampleContent (f : Path) : Bytes :=
  if f = ["home.stage"] then [3] else if f = ["rootfs.stage"] then [2]
  else if f = ["support", "init.sh"] then [10] else [11]

def sampleSums : List (Path × Bytes) :=
  [["home.stage"], ["rootfs.stage"], ["support", "tools", "wifidhcp.sh"],
    ["support", "init.sh"]].map fun f => (f, sampleContent f)

def samplePackage : Package Bytes where
  md5 := id
  support := [["tools", "wifidhcp.sh"]]
  content := sampleContent
  rescue := [1]
  manifest := [5]
  sums m := if m = [5] then sampleSums else []
  archive b := if (b initSh).isSome then [4] else []
  homever := [6]
  homeBlocks := 1
  homeMd5 := [3]
  listed e := by
    rw [if_pos rfl, sampleSums, List.mem_map]
    exact exists_congr fun f => and_congr_right fun _ => eq_comm
  apart := by decide
  folders := by decide
  last := by decide
  images := by decide

/-- Startup and a link of an earlier installation are in `/backup`. -/
def sampleCamera : Camera Bytes where
  disk := {
    root := .image [1]
    mtd := fun n => [UInt8.ofNat n]
    homever := [6]
    backup := fun p => if p = initSh then some (.file [0]) else if p = ["tools"] then some .folder
      else if p = ["tools", "wifidhcp.sh"] then some (.link false) else none
    payload := some fun f => if f = ["payload.md5"] then some [5] else some (sampleContent f)
    saved := false
    copies := fun _ => none
    sums := none
    verified := false
    attempts := none
    attemptsNew := none
    triggerNew := none
    trigger := some [1]
    homeTrigger := some [3]
    staged := 0
    starts := []
    ran := [] }
  result := ""
  fates := []

theorem sampleCamera_found : Found samplePackage sampleCamera.disk where
  root := .inl rfl
  trigger := .inl rfl
  verified := rfl
  attempts := rfl
  staged := rfl
  ran := rfl
  clear := by decide

theorem samplePackage_tells : Tells samplePackage where
  manifest _ h := h
  content _ _ _ h := h

def sampleStart (update : Update) : Event := .start update (fun n => [UInt8.ofNat n]) true

/-- One attempt fails at a check; the next comes to its end, and the vendor's system starts. -/
def sampleEvents : List Event :=
  sampleStart .ignored :: List.replicate 4 (.command true) ++ .command false ::
    sampleStart .ignored :: List.replicate 90 (.command true) ++
    sampleStart .taken :: List.replicate 10 (.command true)

end YiHack.Recovery
