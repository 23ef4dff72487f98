/-
  File:      YiHack/Recovery/Resume.lean
  Subject:   A recovery that was cut short can be finished with the same card.

  Wherever power was lost, unless it was while the first copies were made, which the script refuses
  to go on from, and as long as the boot loader has not been asked three times: the next starts
  bring the vendor's system up, once commands and boot loader do what they are there for.

  * `Prepared` -- what the camera and the card must be like at first;
  * `checks_well`, `saveAll_well`, `install_well`, `stageRoot_well`, `rescue_well` -- the parts of
    the script, when every command ends well;
  * **`recovery_resumes`**.
-/
import YiHack.Recovery.Boots

namespace YiHack.Recovery

open General Prog

/-! ## 1. When every command ends well -/

section

variable {α H : Type} {E : Camera H → Prop}

theorem well_require {c : Prog (Camera H) Bool} {text : String} {T : Camera H → Prop} {s : Camera H}
    (h : c.Well E (fun ok s => ok = true ∧ T s) s) : (require c text).Well E (fun _ => T) s := by
  refine Well.bind h fun ok s hs => ?_
  rw [hs.1]
  exact hs.2

theorem well_verify {p : Camera H → Bool} {text : String} {s : Camera H} (h : p s = true) :
    (require (verify p) text).Well E (fun _ s' => s' = s) s :=
  well_require ⟨h, rfl⟩

theorem well_test {p : Camera H → Bool} {text : String} {s : Camera H} (h : p s = true) :
    (require (Prog.test p) text).Well E (fun _ s' => s' = s) s :=
  well_require ⟨h, rfl⟩

theorem well_act {f : Disk H → Option (Disk H)} {text : String} {s : Camera H} {d : Disk H}
    (h : f s.disk = some d) :
    (require (act f) text).Well E (fun _ s' => s' = { s with disk := d }) s := by
  refine well_require ?_
  simp only [act, command, Well, if_true, h, Option.map_some, and_self]

theorem well_put {g : Disk H → Disk H} {text : String} {s : Camera H} :
    (require (act fun d => some (g d)) text).Well E
      (fun _ s' => s' = { s with disk := g s.disk }) s :=
  well_act rfl

/-- A copy that is as asked for. -/
theorem well_copy {source : Disk H → Option Bytes} {put : Option Bytes → Disk H → Disk H}
    {text : String} {s : Camera H} {c : Bytes} (hs : source s.disk = some c) (hf : s.fates = []) :
    (require (copy source put) text).Well E
      (fun _ s' => s' = { s with disk := put (some c) s.disk }) s := by
  refine well_require ?_
  simp only [copy, Well, hs, hf, and_self]

theorem well_each {body : α → Prog (Camera H) Unit} {S : List α → Camera H → Prop} {xs : List α}
    (hbody : ∀ done x rest, done ++ x :: rest = xs → ∀ s, S done s →
      (body x).Well E (fun _ => S (done ++ [x])) s) :
    ∀ s, S [] s → (each body xs).Well E (fun _ => S xs) s := by
  suffices h : ∀ rest done, done ++ rest = xs → ∀ s, S done s →
      (each body rest).Well E (fun _ => S xs) s from h xs [] rfl
  intro rest
  induction rest with
  | nil => exact fun done hd s hs => ((List.append_nil done).symm.trans hd) ▸ hs
  | cons x rest ih =>
    intro done hd s hs
    refine Well.bind (hbody done x rest hd s hs) fun _ s hs => ih (done ++ [x]) ?_ s hs
    rw [List.append_assoc]
    exact hd

/-- Questions to the surroundings, one after the other. -/
theorem well_each_same {body : α → Prog (Camera H) Unit} {xs : List α} {s : Camera H}
    (hbody : ∀ x ∈ xs, (body x).Well E (fun _ s' => s' = s) s) :
    (each body xs).Well E (fun _ s' => s' = s) s :=
  well_each (S := fun _ s' => s' = s) (fun _ x _ hd _ hs =>
    hs ▸ hbody x (hd ▸ List.mem_append_right _ List.mem_cons_self)) s rfl

end

/-! ## 2. The camera and the card -/

section

variable {H : Type} {P : Package H} {d₀ d : Disk H} {E : Camera H → Prop}

/-- The card is undamaged and for this camera, and nothing stands in the way in `/backup`. -/
structure Prepared (P : Package H) (d₀ : Disk H) : Prop where
  manifest : d₀.onCard ["payload.md5"] = some P.manifest
  genuine : ∀ f ∈ P.checked, d₀.onCard f = some (P.content f)
  homever : d₀.homever = P.homever
  home : P.md5 ((d₀.mtd 3).take (4096 * P.homeBlocks)) = P.homeMd5
  clearable : ∀ f ∈ P.files, d₀.backup (staging f) ≠ some .folder
  folders : ∀ p, p = ["tools"] ∨ p = ["ko"] → d₀.backup p = none ∨ d₀.backup p = some .folder

theorem Prepared.onCard (hp : Prepared P d₀) (h : Inv P d₀ d) {f : Path} (hf : f ∈ P.checked) :
    d.onCard f = some (P.content f) := by
  rw [Disk.onCard, h.payload]
  exact hp.genuine f hf

/-- A name that is used for staging can be cleared. -/
theorem Prepared.clear (hp : Prepared P d₀) (h : Inv P d₀ d) {f : Path} (hf : f ∈ P.files) :
    d.backup (staging f) ≠ some .folder := by
  obtain he | ⟨hmem, -⟩ | ⟨-, b, he⟩ | ⟨htop, -, -⟩ := h.named (staging f)
  · exact he ▸ hp.clearable f hf
  · exact absurd hmem (staging_not_mem hf)
  · rw [he]
    cases b <;> exact nofun
  · exact absurd rfl (staging_ne_folder htop)

/-- The directories are there or can be made. -/
theorem Prepared.folder (hp : Prepared P d₀) (h : Inv P d₀ d) {p : Path}
    (htop : p = ["tools"] ∨ p = ["ko"]) : d.backup p = none ∨ d.backup p = some .folder := by
  obtain he | ⟨hmem, -⟩ | ⟨⟨g, hg, he⟩, -⟩ | ⟨-, -, he⟩ := h.named p
  · exact he ▸ hp.folders p htop
  · exact absurd hmem (folder_not_mem htop)
  · exact absurd he.symm (staging_ne_folder htop)
  · exact .inr he

theorem not_isLink {p : Path} (h : d.backup p = none ∨ d.backup p = some .folder) :
    d.isLink p = false := by
  obtain h | h := h <;> simp [Disk.isLink, h]

variable [DecidableEq H]

theorem checks_well (hp : Prepared P d₀) {s : Camera H} (h : Inv P d₀ s.disk)
    (hmtd : s.disk.mtd 3 = d₀.mtd 3) : (checks P).Well E (fun _ s' => s' = s) s := by
  have hasked (n : List (Prog (Camera H) Bool)) :
      (orExit (anyOf (external :: n))).Well E (fun _ s' => s' = s) s := rfl
  have hmanifest : s.disk.onCard ["payload.md5"] = some P.manifest := by
    rw [Disk.onCard, h.payload]
    exact hp.manifest
  refine (hasked _).bind fun _ s' hs => ?_
  subst hs
  refine (hasked _).bind fun _ s' hs => ?_
  subst hs
  refine (well_verify ?_).bind fun _ s' hs => ?_
  · cases hc : s'.disk.payload with
    | none => rw [Disk.onCard, hc] at hmanifest; exact absurd hmanifest nofun
    | some c => rfl
  subst hs
  refine (well_verify ?_).bind fun _ s' hs => ?_
  · rw [hmanifest, Option.map_some]
    exact decide_eq_true rfl
  subst hs
  refine (well_verify ?_).bind fun _ s' hs => ?_
  · rw [hmanifest, Option.any_some, List.all_eq_true]
    intro e he
    obtain ⟨f, hf, rfl⟩ := (P.listed e).mp he
    refine decide_eq_true ?_
    rw [hp.onCard h hf, Option.map_some]
  subst hs
  refine (well_each_same fun n _ => well_verify rfl).bind fun _ s' hs => ?_
  subst hs
  refine (well_verify (decide_eq_true (h.homever.trans hp.homever))).bind fun _ s' hs => ?_
  subst hs
  exact well_verify (decide_eq_true (hmtd ▸ hp.home))

/-! ## 3. The copies -/

/-- The attempts are as they were, and copies are what is asked for. -/
structure Kept (a : Option Nat) (s : Camera H) : Prop where
  fates : s.fates = []
  attempts : s.disk.attempts = a

theorem saveAll_well {s : Camera H} {a : Option Nat} (hk : Kept a s)
    (hs : s.disk.saved = false) : (saveAll P).Well E (fun _ => Kept a) s := by
  refine (well_test (by rw [hs]; rfl)).bind fun _ s' he => ?_
  subst he
  refine (well_verify rfl).bind fun _ s' he => ?_
  subst he
  refine (well_verify rfl).bind fun _ s' he => ?_
  subst he
  refine (well_act (if_neg (hs ▸ Bool.false_ne_true))).bind fun _ s₁ he => ?_
  have hk₁ : Kept a s₁ := he ▸ ⟨hk.fates, hk.attempts⟩
  clear he
  let S (done : List Nat) (s : Camera H) : Prop :=
    Kept a s ∧ ∀ n ∈ done, (s.disk.copies (.mtdblock n)).isSome
  refine Well.bind (R := fun _ => S (List.range 8)) (well_each (S := S) ?_ s₁ ⟨hk₁, nofun⟩)
    fun _ s₂ h₂ => ?_
  · intro done n rest hd s h
    refine (well_copy rfl h.1.fates).bind fun _ s' he => ?_
    subst he
    refine (well_verify (decide_eq_true ?_)).mono fun _ s' he => ?_
    · simp only [Function.update_self]
    · refine he ▸ ⟨⟨h.1.fates, h.1.attempts⟩, fun m hm => ?_⟩
      by_cases hmn : SavedFile.mtdblock m = .mtdblock n
      · simp only [hmn, Function.update_self, Option.isSome_some]
      · simp only [Function.update_of_ne hmn]
        obtain hm | hm := List.mem_append.mp hm
        · exact h.2 m hm
        · exact absurd (congrArg SavedFile.mtdblock (List.mem_singleton.mp hm)) hmn
  refine (well_copy rfl h₂.1.fates).bind fun _ s₃ he => ?_
  have hlisted : ∃ m, listed P s₃.disk = some m := by
    refine ⟨_, if_pos (List.all_eq_true.mpr fun f hf => ?_)⟩
    obtain hf | hf := List.mem_append.mp hf
    · obtain ⟨n, hn, rfl⟩ := List.mem_map.mp hf
      rw [he]
      simp only [Function.update_of_ne (show SavedFile.mtdblock n ≠ .backupFiles by nofun)]
      exact h₂.2 n hn
    · rw [List.mem_singleton.mp hf, he]
      simp only [Function.update_self, Option.isSome_some]
  have hk₃ : Kept a s₃ := he ▸ ⟨h₂.1.fates, h₂.1.attempts⟩
  obtain ⟨m, hm⟩ := hlisted
  refine (well_act (d := { s₃.disk with sums := some m }) (by rw [hm, Option.map_some])).bind
    fun _ s₄ he => ?_
  subst he
  exact well_put.mono fun _ s' he => he ▸ ⟨hk₃.fates, hk₃.attempts⟩

theorem saveOnce_well {s : Camera H} {a : Option Nat} (hk : Kept a s)
    (hs : s.disk.saved = true → s.disk.verified = true) :
    (saveOnce P).Well E (fun _ => Kept a) s := by
  refine Well.bind (R := fun ok s' => ok = s.disk.verified ∧ s' = s) ⟨rfl, rfl⟩ fun ok s' he => ?_
  obtain ⟨rfl, rfl⟩ := he
  split
  · exact hk
  · next hv =>
    refine saveAll_well hk ?_
    cases hsaved : s'.disk.saved with
    | false => rfl
    | true => exact absurd (hs hsaved) hv

/-! ## 4. The vendor's files -/

theorem upToDate_well {f : Path} {s : Camera H} :
    (upToDate P f).Well E (fun _ s' => s' = s) s := by
  refine Well.bind (R := fun _ s' => s' = s) rfl fun linked s' he => ?_
  subst he
  split
  · exact rfl
  · exact rfl

omit [DecidableEq H] in
/-- The directory of a file is there, or is made. -/
theorem Prepared.mkdir (hp : Prepared P d₀) (h : Inv P d₀ d) {f : Path} (hf : f ∈ P.files) :
    ∃ d', d.mkdir f.dropLast = some d' ∧ d'.attempts = d.attempts ∧
      d'.isFolder f.dropLast = true := by
  by_cases hfolder : d.isFolder f.dropLast = true
  · exact ⟨d, if_pos hfolder, rfl, hfolder⟩
  · obtain ⟨hnil, -⟩ | htop := P.folders f hf
    · exact absurd (by rw [hnil]; rfl) hfolder
    · obtain hnone | hthere := hp.folder h htop
      · refine ⟨d.set f.dropLast (some .folder), ?_, rfl, ?_⟩
        · rw [Disk.mkdir, if_neg hfolder, if_pos hnone]
        · simp only [Disk.isFolder, Disk.set_backup_self, decide_true, Bool.or_true, Bool.true_or]
      · exact absurd (by simp [Disk.isFolder, hthere]) hfolder

omit [DecidableEq H] in
theorem isFolder_stage {f : Path} (hf : f ∈ P.files) (e : Option Entry) :
    (d.set (staging f) e).isFolder f.dropLast = d.isFolder f.dropLast := by
  obtain ⟨hnil, -⟩ | htop := P.folders f hf
  · rw [hnil]
    rfl
  · have hne : f.dropLast ≠ staging f := fun he => staging_ne_folder htop he.symm
    simp only [Disk.isFolder, Disk.set_backup_of_ne _ hne]

omit [DecidableEq H] in
theorem activate_attempts {f : Path} {d' : Disk H} (h : d.activate f = some d') :
    d'.attempts = d.attempts := by
  obtain ⟨e, -, rfl⟩ := Option.map_eq_some_iff.mp h
  simp only
  split <;> rfl

theorem install_well (hp : Prepared P d₀) {done : List Path} {f : Path} (hd : done ⊆ P.files)
    (hf : f ∈ P.files) {s : Camera H} {a : Option Nat} (h : Placing P d₀ done s.disk)
    (hk : Kept a s) : (install P f).Well E (fun _ => Kept a) s := by
  refine upToDate_well.bind fun there s' he => ?_
  subst he
  split
  · exact hk
  refine (well_verify rfl).bind fun _ s₁ he => ?_
  subst he
  refine (well_verify rfl).bind fun _ s₁ he => ?_
  subst he
  obtain ⟨d, hm, ha, hfolder⟩ := hp.mkdir h.toInv hf
  have hd₁ := h.mkdir hd hf hm
  refine (well_act hm).bind fun _ s₂ he => ?_
  have hk₂ : Kept a s₂ := he ▸ ⟨hk.fates, ha.trans hk.attempts⟩
  have hd₂ : s₂.disk = d := he ▸ rfl
  clear he hm ha hk
  obtain rfl := hd₂
  refine (well_act (if_neg (hp.clear hd₁.toInv hf))).bind fun _ s₃ he => ?_
  have hd₃ : s₃.disk = s₂.disk.set (staging f) none := he ▸ rfl
  have hk₃ : Kept a s₃ := he ▸ ⟨hk₂.fates, hk₂.attempts⟩
  have hcard : ∀ e, (s₂.disk.set (staging f) e).onCard ("support" :: f) = some (P.source f) :=
    fun e => hd₁.genuine _ (source_checked hf)
  clear he
  refine (well_copy (c := P.source f) ?_ hk₃.fates).bind fun _ s₄ he => ?_
  · rw [hd₃, if_pos ((isFolder_stage hf none).trans hfolder), hcard]
  have hk₄ : Kept a s₄ := he ▸ ⟨hk₃.fates, hk₃.attempts⟩
  have hs₄ : s₄.disk.backup (staging f) = some (.file (P.source f)) := by
    rw [he]
    exact Disk.set_backup_self ..
  have hcard₄ : s₄.disk.onCard ("support" :: f) = some (P.source f) := by
    rw [he]
    show s₃.disk.onCard ("support" :: f) = _
    rw [hd₃, hcard]
  clear he
  refine Well.bind (R := fun _ s' => s' = s₄) rfl fun _ s' he => ?_
  subst he
  refine (well_verify (decide_eq_true ?_)).bind fun _ s' he => ?_
  · simp only [hcard₄, Disk.bytes, hs₄]
  subst he
  have hact : ∃ d', s'.disk.activate f = some d' := by
    rw [Disk.activate, hs₄]
    exact ⟨_, rfl⟩
  obtain ⟨d', hact⟩ := hact
  exact (well_act hact).mono fun _ s' he =>
    he ▸ ⟨hk₄.fates, (activate_attempts hact).trans hk₄.attempts⟩

/-! ## 5. The root image -/

omit [DecidableEq H] in
theorem readAttempts_well {s : Camera H} :
    (readAttempts : Prog (Camera H) (Option Nat)).Well E
      (fun v s' => v = some (s.disk.attempts.getD 0) ∧ s' = s) s := by
  refine Well.bind (R := fun ok s' => ok = s.disk.attempts.isNone ∧ s' = s) ⟨rfl, rfl⟩
    fun ok s' he => ?_
  obtain ⟨rfl, rfl⟩ := he
  cases ha : s'.disk.attempts with
  | none => exact ⟨rfl, rfl⟩
  | some n => exact ⟨ha, rfl⟩

/-- The vendor's root image is in place. -/
def Final (P : Package H) (s : Camera H) : Prop := s.disk.trigger = some P.stage

theorem stageRoot_well {s : Camera H} {a : Option Nat} (h : Checked P d₀ s.disk) (hk : Kept a s)
    (ha : a.getD 0 ≤ 2) : (stageRoot P).Well (Final P) (fun _ => Final P) s := by
  refine readAttempts_well.bind fun v s' he => ?_
  obtain ⟨rfl, rfl⟩ := he
  simp only
  rw [hk.attempts, if_pos ha]
  refine well_put.bind fun _ s₁ he => ?_
  have hnew : s₁.disk.attemptsNew = some (a.getD 0 + 1) := he ▸ rfl
  have hcard : s₁.disk.onCard ["rootfs.stage"] = some P.stage :=
    he ▸ h.genuine _ (List.mem_cons_of_mem _ List.mem_cons_self)
  have hf : s₁.fates = [] := he ▸ hk.fates
  clear he
  refine (well_act (by rw [hnew, Option.map_some])).bind fun _ s₂ he => ?_
  have hcard₂ : s₂.disk.onCard ["rootfs.stage"] = some P.stage := he ▸ hcard
  have hf₂ : s₂.fates = [] := he ▸ hf
  clear he
  refine (well_copy hcard₂ hf₂).bind fun _ s₃ he => ?_
  subst he
  refine (well_verify (decide_eq_true rfl)).bind fun _ s₄ he => ?_
  have htrigger : s₄.disk.triggerNew = some P.stage := he ▸ rfl
  clear he
  refine (well_act (by rw [htrigger, Option.map_some])).bind fun _ s₅ he => ?_
  subst he
  exact Well.bind (R := fun _ => Final P) rfl fun _ s h => h

/-! ## 6. The script -/

theorem rescue_well (ht : Tells P) (hp : Prepared P d₀) {s : Camera H} {a : Option Nat}
    (h : Inv P d₀ s.disk) (hmtd : s.disk.mtd 3 = d₀.mtd 3) (hk : Kept a s)
    (hs : s.disk.saved = true → s.disk.verified = true) (ha : a.getD 0 ≤ 2) :
    (rescue P).Well (Final P) (fun _ => Final P) s := by
  refine Well.bind ((checks_goes ht).well h (checks_well hp h hmtd)) fun _ s' he => ?_
  obtain ⟨hc, rfl⟩ := he
  refine Well.bind (saveOnce_goes.well hc (saveOnce_well hk hs)) fun _ s₁ h₁ => ?_
  obtain ⟨h₁, hk₁⟩ := h₁
  refine (well_verify ?_).bind fun _ s' he => ?_
  · obtain ⟨m, hm, -, hall⟩ := h₁.sums h₁.verified
    rw [hm, Option.any_some, List.all_eq_true]
    exact fun e he => decide_eq_true (hall e he)
  subst he
  refine (well_verify (decide_eq_true ?_)).bind fun _ s' he => ?_
  · obtain ⟨mtd, -, hmtd, hcopies⟩ := h₁.saved h₁.verified
    rw [hcopies 6 (by decide), Option.map_some, h₁.mtd 6 (by decide) (by decide),
      hmtd 6 (by decide) (by decide)]
  subst he
  refine (well_each_same fun p htop => well_test ?_).bind fun _ s' he => ?_
  · rw [not_isLink (hp.folder h₁.toInv ?_)]
    · rfl
    · obtain rfl | htop := List.mem_cons.mp htop
      · exact .inl rfl
      · exact .inr (congrArg (fun p => [p]) (List.mem_singleton.mp htop))
  subst he
  let S (done : List Path) (s : Camera H) : Prop := Placing P d₀ done s.disk ∧ Kept a s
  refine Well.bind (R := fun _ => S P.files) (well_each (S := S) ?_ s' ⟨h₁, hk₁⟩) fun _ s₂ h₂ => ?_
  · intro done f rest hd s h
    have hsub : done ++ f :: rest ⊆ P.files := hd ▸ List.Subset.refl _
    have hdone : done ⊆ P.files := fun g hg => hsub (List.mem_append_left _ hg)
    have hf : f ∈ P.files := hsub (List.mem_append_right _ List.mem_cons_self)
    exact (install_goes ht hdone hf fun he => subset_of_last P.last (he ▸ hd)).well h.1
      (install_well hp hdone hf h.1 h.2)
  · exact stageRoot_well h₂.1.toChecked h₂.2 ha

/-! ## 7. Starts -/

theorem reached_append {s : Camera H} (es fs : List Event) :
    reached P s (es ++ fs) = run (Machine.step P) (reached P s es) fs :=
  run_append ..

theorem run_commands {c : Config (Camera H)} {n : Nat} :
    run (Machine.step P) c (List.replicate n (.command true)) =
      run (Config.step untrapped) c (List.replicate n (.outcome true)) := by
  induction n generalizing c with
  | zero => rfl
  | succ n ih =>
    rw [List.replicate_succ, List.replicate_succ, run_cons, run_cons, ih]
    rfl

/-- The vendor's system runs, with its files in `/backup`, and has just run the start-up file. -/
structure Finished (P : Package H) (d : Disk H) : Prop where
  root : d.root = .image P.stage
  started : d.ran.getLast? = some d.backup
  placed : Placed P d.backup

/-- The vendor's root image is installed or will be: the next start runs the vendor's system. -/
theorem vendor_starts {c : Config (Camera H)} (hplaced : Placed P c.state.disk.backup)
    (h : c.state.disk.root = .image P.stage ∨ c.state.disk.trigger = some P.stage) :
    ∃ es, Finished P (run (Machine.step P) c es).state.disk := by
  have hstarts (update : Update)
      (hroot : (c.state.disk.started update c.state.disk.mtd true).root = .image P.stage) :
      ∃ es, Finished P (run (Machine.step P) c es).state.disk := by
    refine ⟨[.start update c.state.disk.mtd true, .command true], ?_⟩
    have hstart : startup P (c.state.disk.started update c.state.disk.mtd true) =
        vendorStart P := by
      rw [startup, if_neg, if_pos hroot]
      exact fun he => P.images (Root.image.inj (he.symm.trans hroot))
    rw [run_cons, run_cons, run_nil]
    simp only [Machine.step]
    rw [hstart]
    exact ⟨hroot, List.getLast?_concat, hplaced⟩
  obtain hroot | htrigger := h
  · exact hstarts .ignored hroot
  · refine hstarts .taken ?_
    simp only [Disk.started, htrigger]

/-- Where a recovery can go on from: not in the middle of the first copies, not after three
    attempts, with something to start from, and copies are what is asked for from now on. -/
structure Resumable (s : Camera H) : Prop where
  fates : s.fates = []
  saved : s.disk.saved = true → s.disk.verified = true
  attempts : s.disk.attempts.getD 0 ≤ 2
  boots : s.disk.root = .torn → s.disk.trigger ≠ none

/-- The rescue system starts, and comes to its end. -/
theorem rescue_stages (ht : Tells P) (hp : Prepared P d₀) {c : Config (Camera H)}
    (h : Inv P d₀ c.state.disk) (hc : Resumable c.state) (update : Update)
    (hroot : (c.state.disk.started update d₀.mtd true).root = .image P.rescue) :
    ∃ es, (run (Machine.step P) c es).state.disk.trigger = some P.stage := by
  let s : Camera H := { c.state with disk := c.state.disk.started update d₀.mtd true }
  have hmtd : s.disk.mtd 3 = d₀.mtd 3 := by simp only [s, Disk.started, or_true, if_true]
  have hwell := rescue_well ht hp (s := s) (h.started update d₀.mtd true) hmtd ⟨hc.fates, rfl⟩
    hc.saved hc.attempts
  obtain ⟨n, hn⟩ := hwell.reached_outcomes untrapped true
  refine ⟨.start update d₀.mtd true :: List.replicate n (.command true), ?_⟩
  rw [run_cons, run_commands]
  have hstart : startup P (c.state.disk.started update d₀.mtd true) = rescue P := if_pos hroot
  simp only [Machine.step]
  rw [hstart]
  exact hn

end

theorem sampleCamera_prepared : Prepared samplePackage sampleCamera.disk where
  manifest := rfl
  genuine := by decide
  homever := rfl
  home := by decide
  clearable := by decide
  folders p hp := by obtain rfl | rfl := hp <;> decide

/-- Power is lost between two files: the first one is in place, the start-up file is staged. -/
def cutShort : List Event := sampleStart .ignored :: List.replicate 60 (.command true)

example :
    (reached samplePackage sampleCamera cutShort).state.disk.bytes ["tools", "wifidhcp.sh"] =
        some (samplePackage.source ["tools", "wifidhcp.sh"]) ∧
      (reached samplePackage sampleCamera cutShort).state.disk.bytes (staging initSh) =
        some (samplePackage.source initSh) ∧
      (reached samplePackage sampleCamera cutShort).state.disk.backup initSh =
        sampleCamera.disk.backup initSh := by decide

theorem cutShort_resumable : Resumable (reached samplePackage sampleCamera cutShort).state where
  fates := by decide
  saved := by decide
  attempts := by decide
  boots := by decide

end YiHack.Recovery
