/-
  File:      YiHack/Tuning/Agreement.lean
  Subject:   When `motiond` runs with the settings of the document that was checked.

  * `scan_custom`, `scan_preset`, `scan_mask` -- the command line as `motiond` takes it apart;
  * `effective_valid` -- the settings of an accepted document pass the checks of `main`;
  * **`settings_agree_iff`** -- exactly where what the shell reads again says the document's numbers;
  * `readsAgain_of_same` -- so it does where the texts are the document's;
  * `missing_fields_refused` -- `MOTION_CUSTOM=yes` and nothing else.
-/
import YiHack.Tuning.Motiond

namespace YiHack.Tuning

open General

/-! ## 1. What the document asks for -/

def documentMask (doc : Document) : Option Mask :=
  if doc .maskEnabled = ascii "yes" then
    some ⟨doc .maskCells, decimal (doc .maskVectorPixels), decimal (doc .maskDifference)⟩
  else none

/-- The values of a document: the custom fields where it says so, else the row of its sensitivity. -/
def Document.effective (doc : Document) : Effective :=
  let row := preset (decimal (doc .sensitivity))
  if doc .custom = ascii "yes" then
    { sensitivity := decimal (doc .sensitivity)
      trigger := hundredths (doc .startThreshold)
      release := hundredths (doc .stopThreshold)
      confirmSamples := decimal (doc .startSamples)
      quietMs := decimal (doc .stopDelay)
      requireZero := if doc .stopRequireZero = ascii "no" then 0 else 1
      interval := decimal (doc .pollInterval)
      mask := documentMask doc }
  else
    { sensitivity := decimal (doc .sensitivity)
      trigger := row.trigger
      release := row.release
      confirmSamples := row.confirmSamples
      quietMs := row.quietMs
      requireZero := row.requireZero
      interval := 100
      mask := documentMask doc }

/-- **The agreement**: `motiond` accepts the command line and runs with the document's values. -/
def Agrees (conf : Bytes) : Prop :=
  ∃ args p, encoderArguments true conf = some args ∧ motiond (encoderWords args) = some p ∧
    p.effective = (motionReadConfig conf).effective

/-- A number as it stands in a text, which is to be one word. -/
def asOne (parse : Bytes → Option Nat) (t : Bytes) : Option Nat :=
  match words t with
  | [w] => parse w
  | _ => none

/-- **The condition**: what the shell reads again from the file says the document's numbers; where
    it finds no `MOTION_CUSTOM=yes`, the document's are those of the row. -/
structure ReadsAgain (conf : Bytes) : Prop where
  sensitivity : motionSensitivity conf = motionReadConfig conf .sensitivity
  custom : getCameraConfig conf .custom = ascii "yes" →
    let e := (motionReadConfig conf).effective
    asOne parseIntArg (getCameraConfig conf .pollInterval) = some e.interval ∧
    asOne parseRatioArg (getCameraConfig conf .startThreshold) = some e.trigger ∧
    asOne parseRatioArg (getCameraConfig conf .stopThreshold) = some e.release ∧
    asOne parseIntArg (getCameraConfig conf .startSamples) = some e.confirmSamples ∧
    asOne parseIntArg (getCameraConfig conf .stopDelay) = some e.quietMs ∧
    (if getCameraConfig conf .stopRequireZero = ascii "no" then 0 else 1) = e.requireZero
  row : getCameraConfig conf .custom ≠ ascii "yes" →
    let e := (motionReadConfig conf).effective
    let row := preset e.sensitivity
    e = ⟨e.sensitivity, row.trigger, row.release, row.confirmSamples, row.quietMs, row.requireZero,
      100, e.mask⟩

/-- No text that is read again has a hyphen, so that no option is hidden in it. -/
def NoHyphen (conf : Bytes) : Prop :=
  ∀ k ∈ [Key.pollInterval, .startThreshold, .stopThreshold, .startSamples, .stopDelay],
    hyphen ∉ getCameraConfig conf k

/-! ## 2. Accepted documents -/

section Accepted

variable {doc : Document}

/-- The document was accepted: the checks one by one. -/
structure Accepted (doc : Document) : Prop where
  cells : matchCells (doc .maskCells) = true
  vectorPixels : whole 2 1 16 (doc .maskVectorPixels) = true
  difference : whole 3 0 255 (doc .maskDifference) = true
  sensitivity : doc .sensitivity ∈ sensitivities
  startThreshold : ratio 1 10000 (doc .startThreshold) = true
  stopThreshold : ratio 0 10000 (doc .stopThreshold) = true
  startSamples : whole 5 1 50 (doc .startSamples) = true
  stopDelay : whole 5 100 30000 (doc .stopDelay) = true
  pollInterval : whole 5 100 2000 (doc .pollInterval) = true
  below : hundredths (doc .stopThreshold) < hundredths (doc .startThreshold)

theorem accepted_of_valid (h : motionValidateJson doc = true) : Accepted doc := by
  simp only [motionValidateJson, Bool.and_eq_true, decide_eq_true_eq] at h
  obtain ⟨⟨⟨⟨⟨⟨⟨⟨⟨⟨-, hcells⟩, hpixels⟩, hdiff⟩, hsens⟩, hstart⟩, hstop⟩, hsamples⟩, hdelay⟩, hpoll⟩,
    hbelow⟩ := h
  exact ⟨hcells, hpixels, hdiff, hsens, hstart, hstop, hsamples, hdelay, hpoll, hbelow⟩

theorem whole_range {n lo hi : Nat} {t : Bytes} (h : whole n lo hi t = true) :
    isDecimal t = true ∧ t.length ≤ n ∧ lo ≤ decimal t ∧ decimal t ≤ hi := by
  simp only [whole, matchDigits, Bool.and_eq_true, decide_eq_true_eq] at h
  exact ⟨h.1.1.1, h.1.1.2, h.1.2, h.2⟩

theorem ratio_range {lo hi : Nat} {t : Bytes} (h : ratio lo hi t = true) :
    matchRatio t = true ∧ lo ≤ hundredths t ∧ hundredths t ≤ hi := by
  simp only [ratio, Bool.and_eq_true, decide_eq_true_eq] at h
  exact ⟨h.1.1, h.1.2, h.2⟩

/-- Every row passes the checks. -/
theorem preset_valid : ∀ t ∈ sensitivities, 1 ≤ decimal t ∧ decimal t ≤ 10 ∧
    motionConfigValid (preset (decimal t)) 100 = true := by decide

/-- The configuration of some values; the boost does not matter to the checks. -/
def Effective.config (e : Effective) (boost : Nat) : SensCfg :=
  ⟨e.trigger, e.release, e.confirmSamples, e.quietMs, e.requireZero, boost⟩

/-- **What is accepted passes the checks of `main`.** -/
theorem effective_valid (h : Accepted doc) (boost : Nat) :
    motionConfigValid (doc.effective.config boost) doc.effective.interval = true := by
  simp only [Document.effective]
  split
  · obtain ⟨-, hstart, hstart'⟩ := ratio_range h.startThreshold
    obtain ⟨-, -, hsamples, hsamples'⟩ := whole_range h.startSamples
    obtain ⟨-, -, hdelay, hdelay'⟩ := whole_range h.stopDelay
    obtain ⟨-, -, hpoll, hpoll'⟩ := whole_range h.pollInterval
    have hzero : (if doc .stopRequireZero = ascii "no" then 0 else 1) = 0 ∨
        (if doc .stopRequireZero = ascii "no" then 0 else 1) = 1 := by
      split
      · exact .inl rfl
      · exact .inr rfl
    exact decide_eq_true ⟨hstart, hstart', h.below, hsamples, hsamples', hdelay, hdelay', hzero, hpoll, hpoll'⟩
  · exact (preset_valid _ h.sensitivity).2.2

theorem effective_sensitivity : doc.effective.sensitivity = decimal (doc .sensitivity) := by
  simp only [Document.effective]
  split <;> rfl

theorem effective_mask : doc.effective.mask = documentMask doc := by
  simp only [Document.effective]
  split <;> rfl

/-- Digits have no blank in them. -/
theorem blank_of_digit {b : UInt8} (h : isDigit b = true) : isBlank b = false := by
  simp only [isDigit, Bool.and_eq_true, decide_eq_true_eq] at h
  have h48 : (48 : UInt8).toNat ≤ b.toNat := UInt8.le_iff_toNat_le.mp h.1
  have hne : ∀ c : UInt8, c.toNat < 48 → (b == c) = false := by
    intro c hc
    rw [beq_eq_false_iff_ne]
    rintro rfl
    exact absurd h48 (by show ¬ 48 ≤ b.toNat; omega)
  simp only [isBlank, hne 32 (by decide), hne 9 (by decide), hne 10 (by decide), Bool.or_self]

theorem words_decimal {t : Bytes} (h : isDecimal t = true) : words t = [t] := by
  simp only [isDecimal, Bool.and_eq_true, Bool.not_eq_true', List.isEmpty_eq_false_iff,
    List.all_eq_true] at h
  exact words_word h.1 fun b hb => blank_of_digit (h.2 b hb)

theorem parseIntArg_decimal {t : Bytes} (h : isDecimal t = true) (hlen : t.length ≤ 5) :
    parseIntArg t = some (decimal t) := by
  simp only [isDecimal, Bool.and_eq_true, Bool.not_eq_true', List.isEmpty_eq_false_iff] at h
  have hno : ¬ (t = [] ∨ 5 < t.length) := not_or.mpr ⟨h.1, by omega⟩
  rw [parseIntArg, if_neg hno, if_pos h.2]

theorem words_cells {t : Bytes} (h : matchCells t = true) : words t = [t] := by
  simp only [matchCells, Bool.and_eq_true, decide_eq_true_eq, List.all_eq_true] at h
  refine words_word ?_ fun b hb => ?_
  · rintro rfl
    exact absurd h.1 (by decide)
  · have hb := h.2 b hb
    simp only [Bool.or_eq_true, beq_iff_eq] at hb
    rcases hb with rfl | rfl <;> rfl

theorem words_sensitivity : ∀ t ∈ sensitivities, words t = [t] ∧
    parseIntArg t = some (decimal t) := by decide

end Accepted

/-! ## 3. The loop of `motiond` -/

section Scan

variable {p q : Parsed} {o : Opt} {w a : Bytes} {ws : List Bytes}

/-- An option that waits for the next word. -/
theorem scan_take (hw : classify w = .options [] (some (o, none))) (p : Parsed) (a : Bytes)
    (ws : List Bytes) : scan p (w :: a :: ws) = scan (p.take o a) ws := by
  simp only [scan, hw, List.foldl_nil]

theorem take_valid (h : (p.take o a).valid = true) : p.valid = true := by
  cases o <;> simp only [Parsed.take, Bool.and_eq_true] at h <;> first | exact h.1 | exact h

theorem take_operands (p : Parsed) (o : Opt) (a : Bytes) : (p.take o a).operands = p.operands := by
  cases o <;> rfl

theorem flags_valid (p : Parsed) (flags : List Opt) :
    (flags.foldl Parsed.flag p).valid = p.valid ∧
      (flags.foldl Parsed.flag p).operands = p.operands := by
  induction flags generalizing p with
  | nil => exact ⟨rfl, rfl⟩
  | cons o flags ih =>
    obtain ⟨hvalid, hoperands⟩ := ih (p.flag o)
    rw [List.foldl_cons, hvalid, hoperands]
    cases o <;> exact ⟨rfl, rfl⟩

/-- **What is refused stays refused**: neither a bad argument nor an operand is forgotten. -/
theorem scan_keeps (h : scan p ws = some q) :
    (q.valid = true → p.valid = true) ∧ p.operands ≤ q.operands := by
  fun_induction scan p ws with
  | case1 p =>
    cases h
    exact ⟨id, Nat.le_refl _⟩
  | case2 p w ws hw ih =>
    obtain ⟨hvalid, hoperands⟩ := ih h
    exact ⟨hvalid, Nat.le_of_succ_le hoperands⟩
  | case3 p w ws hw =>
    cases h
    exact ⟨id, Nat.le_add_right _ _⟩
  | case4 p w ws hw => exact absurd h nofun
  | case5 p w ws flags hw ih =>
    obtain ⟨hvalid, hoperands⟩ := ih h
    obtain ⟨hv, ho⟩ := flags_valid p flags
    exact ⟨fun hq => hv ▸ hvalid hq, ho ▸ hoperands⟩
  | case6 p w ws flags o a hw ih =>
    obtain ⟨hvalid, hoperands⟩ := ih h
    obtain ⟨hv, ho⟩ := flags_valid p flags
    rw [take_operands, ho] at hoperands
    exact ⟨fun hq => hv ▸ take_valid (hvalid hq), hoperands⟩
  | case7 p w flags o hw => exact absurd h nofun
  | case8 p w flags o hw a ws ih =>
    obtain ⟨hvalid, hoperands⟩ := ih h
    obtain ⟨hv, ho⟩ := flags_valid p flags
    rw [take_operands, ho] at hoperands
    exact ⟨fun hq => hv ▸ take_valid (hvalid hq), hoperands⟩

/-- **An option gets exactly one word**, if the next option is none it could take for its argument. -/
theorem scan_one {W : List Bytes} {next : Bytes} (hw : classify w = .options [] (some (o, none)))
    (hW : ∀ x ∈ W, classify x = .operand) (hnext : ∀ p : Parsed, (p.take o next).valid = false)
    (h : scan p (w :: (W ++ next :: ws)) = some q) (hvalid : q.valid = true)
    (hoperands : q.operands = 0) :
    ∃ a, W = [a] ∧ scan (p.take o a) (next :: ws) = some q := by
  match W, hW with
  | [], _ =>
    rw [List.nil_append, scan_take hw] at h
    have := (scan_keeps h).1 hvalid
    rw [hnext p] at this
    exact absurd this nofun
  | [a], _ => exact ⟨a, rfl, (scan_take hw p a (next :: ws)).symm.trans h⟩
  | a :: x :: W, hW =>
    rw [List.cons_append, List.cons_append, scan_take hw] at h
    have hx : classify x = .operand := hW x (List.mem_cons_of_mem _ List.mem_cons_self)
    simp only [scan, hx] at h
    have := (scan_keeps h).2
    exact absurd (hoperands ▸ this) (Nat.not_succ_le_zero _)

/-- A word without a hyphen is no option. -/
theorem classify_operand (h : hyphen ∉ w) : classify w = .operand := by
  match w with
  | [] => rfl
  | [_] => rfl
  | b :: c :: rest =>
    have hb : b ≠ hyphen := fun hb => h (hb ▸ List.mem_cons_self)
    simp only [classify, ne_eq, hb, not_false_iff, if_true]

/-- The variables behind the mask's arguments. -/
def Parsed.withMask (doc : Document) (p : Parsed) : Parsed :=
  if doc .maskEnabled = ascii "yes" then
    { p with
      cells := some (doc .maskCells)
      vectorPixels := decimal (doc .maskVectorPixels)
      difference := decimal (doc .maskDifference) }
  else p

/-- **The mask's arguments.** -/
theorem scan_mask {doc : Document} (hdoc : Accepted doc) (hp : p.valid = true) :
    scan p ((maskArguments doc).flatMap words) = some (p.withMask doc) := by
  unfold maskArguments Parsed.withMask
  split
  · obtain ⟨hpixels, hlen, -, -⟩ := whole_range hdoc.vectorPixels
    obtain ⟨hdiff, hlen', -, -⟩ := whole_range hdoc.difference
    have hwords : [ascii "--mask", doc .maskCells, ascii "--mask-vector-pixels", doc .maskVectorPixels,
        ascii "--mask-difference", doc .maskDifference].flatMap words =
        [ascii "--mask", doc .maskCells, ascii "--mask-vector-pixels", doc .maskVectorPixels,
          ascii "--mask-difference", doc .maskDifference] := by
      simp only [List.flatMap_cons, List.flatMap_nil, words_cells hdoc.cells, words_decimal hpixels,
        words_decimal hdiff]
      rfl
    rw [hwords, scan_take (o := .mask) (by decide), scan_take (o := .maskVectorPixels) (by decide),
      scan_take (o := .maskDifference) (by decide)]
    simp only [scan, Parsed.take, hp, hdoc.cells, parseIntArg_decimal hpixels (by omega),
      parseIntArg_decimal hdiff (by omega), Bool.and_self, if_true, Option.isSome_some, keep,
      Option.getD_some]
  · rfl

/-- The variables behind the custom arguments. -/
def Parsed.custom (sensitivity interval trigger release confirm quietMs requireZero : Nat) :
    Parsed :=
  { Parsed.start with
    sensitivity
    interval
    trigger := some trigger
    release := some release
    confirm := some confirm
    quietMs := some quietMs
    requireZero := some requireZero }

/-- **The custom arguments**, each of them one word. -/
theorem scan_custom {s i t r c m z : Bytes} {ns ni nt nr nc nm nz : Nat}
    (hs : parseIntArg s = some ns) (hi : parseIntArg i = some ni) (ht : parseRatioArg t = some nt)
    (hr : parseRatioArg r = some nr) (hc : parseIntArg c = some nc) (hm : parseIntArg m = some nm)
    (hz : parseIntArg z = some nz) :
    scan .start (ascii "-s" :: s :: ascii "-i" :: i :: ascii "--trigger" :: t :: ascii "--release" ::
      r :: ascii "--confirm" :: c :: ascii "--quiet-ms" :: m :: ascii "--require-zero" :: z :: ws) =
      scan (.custom ns ni nt nr nc nm nz) ws := by
  rw [scan_take (o := .sensitivity) (by decide), scan_take (o := .interval) (by decide),
    scan_take (o := .trigger) (by decide), scan_take (o := .release) (by decide),
    scan_take (o := .confirm) (by decide), scan_take (o := .quietMs) (by decide),
    scan_take (o := .requireZero) (by decide)]
  simp only [Parsed.take, hs, hi, ht, hr, hc, hm, hz]
  rfl

/-- The arguments where nothing is custom. -/
theorem scan_preset {s : Bytes} {n : Nat} (hs : parseIntArg s = some n) :
    scan .start (ascii "-s" :: s :: ascii "-i" :: ascii "100" :: ws) =
      scan { Parsed.start with sensitivity := n } ws := by
  rw [scan_take (o := .sensitivity) (by decide), scan_take (o := .interval) (by decide)]
  simp only [Parsed.take, hs]
  rfl

/-- **Accepted arguments were each one word**, where no option is hidden in them. -/
theorem scan_custom_inv {s z : Bytes} {I T R C M : List Bytes}
    (hI : ∀ x ∈ I, hyphen ∉ x) (hT : ∀ x ∈ T, hyphen ∉ x) (hR : ∀ x ∈ R, hyphen ∉ x)
    (hC : ∀ x ∈ C, hyphen ∉ x) (hM : ∀ x ∈ M, hyphen ∉ x)
    (h : scan .start (ascii "-s" :: s :: ascii "-i" :: (I ++ ascii "--trigger" :: (T ++
      ascii "--release" :: (R ++ ascii "--confirm" :: (C ++ ascii "--quiet-ms" :: (M ++
      ascii "--require-zero" :: z :: ws))))) ) = some q)
    (hvalid : q.valid = true) (hoperands : q.operands = 0) :
    ∃ i t r c m ni nt nr nc nm, (I = [i] ∧ T = [t] ∧ R = [r] ∧ C = [c] ∧ M = [m]) ∧
      parseIntArg i = some ni ∧ parseRatioArg t = some nt ∧ parseRatioArg r = some nr ∧
      parseIntArg c = some nc ∧ parseIntArg m = some nm := by
  have htrigger : parseIntArg (ascii "--trigger") = none := by decide
  have hrelease : parseRatioArg (ascii "--release") = none := by decide
  have hconfirm : parseRatioArg (ascii "--confirm") = none := by decide
  have hquiet : parseIntArg (ascii "--quiet-ms") = none := by decide
  have hzero : parseIntArg (ascii "--require-zero") = none := by decide
  rw [scan_take (o := .sensitivity) (by decide)] at h
  obtain ⟨i, rfl, h1⟩ :=
    scan_one (o := .interval) (by decide) (fun x hx => classify_operand (hI x hx))
    (fun p => by simp only [Parsed.take, htrigger, Option.isSome_none, Bool.and_false]) h hvalid hoperands
  obtain ⟨t, rfl, h2⟩ :=
    scan_one (o := .trigger) (by decide) (fun x hx => classify_operand (hT x hx))
    (fun p => by simp only [Parsed.take, hrelease, Option.isSome_none, Bool.and_false]) h1 hvalid hoperands
  obtain ⟨r, rfl, h3⟩ :=
    scan_one (o := .release) (by decide) (fun x hx => classify_operand (hR x hx))
    (fun p => by simp only [Parsed.take, hconfirm, Option.isSome_none, Bool.and_false]) h2 hvalid hoperands
  obtain ⟨c, rfl, h4⟩ :=
    scan_one (o := .confirm) (by decide) (fun x hx => classify_operand (hC x hx))
    (fun p => by simp only [Parsed.take, hquiet, Option.isSome_none, Bool.and_false]) h3 hvalid hoperands
  obtain ⟨m, rfl, h5⟩ :=
    scan_one (o := .quietMs) (by decide) (fun x hx => classify_operand (hM x hx))
    (fun p => by simp only [Parsed.take, hzero, Option.isSome_none, Bool.and_false]) h4 hvalid hoperands
  have hall := (scan_keeps h5).1 hvalid
  simp only [Parsed.take, Bool.and_eq_true, Option.isSome_iff_exists] at hall
  obtain ⟨⟨⟨⟨⟨-, ni, hi⟩, nt, ht⟩, nr, hr⟩, nc, hc⟩, nm, hm⟩ := hall
  exact ⟨i, t, r, c, m, ni, nt, nr, nc, nm, ⟨rfl, rfl, rfl, rfl, rfl⟩, hi, ht, hr, hc, hm⟩

end Scan

/-! ## 4. The agreement -/

section Agreement

variable {conf : Bytes} {doc : Document} {p : Parsed}

theorem motionSensitivity_mem (conf : Bytes) : motionSensitivity conf ∈ sensitivities := by
  unfold motionSensitivity
  split
  · assumption
  · decide

theorem encoderWords_append (as bs : List Bytes) :
    encoderWords (as ++ bs) = as.flatMap words ++ bs.flatMap words := by
  rw [encoderWords, words_capture_print, List.flatMap_append]

theorem zero_parse (conf : Bytes) : words (zero conf) = [zero conf] ∧ parseIntArg (zero conf) =
    some (if getCameraConfig conf .stopRequireZero = ascii "no" then 0 else 1) := by
  unfold zero
  split
  · exact ⟨rfl, rfl⟩
  · exact ⟨rfl, rfl⟩

/-- The words of the custom arguments. -/
theorem custom_words (h : getCameraConfig conf .custom = ascii "yes") (ms : List Bytes) :
    (customArguments conf).flatMap words ++ ms =
      ascii "-s" :: motionSensitivity conf :: ascii "-i" ::
      (words (getCameraConfig conf .pollInterval) ++ ascii "--trigger" ::
      (words (getCameraConfig conf .startThreshold) ++ ascii "--release" ::
      (words (getCameraConfig conf .stopThreshold) ++ ascii "--confirm" ::
      (words (getCameraConfig conf .startSamples) ++ ascii "--quiet-ms" ::
      (words (getCameraConfig conf .stopDelay) ++ ascii "--require-zero" :: zero conf :: ms))))) := by
  have hword : ∀ w ∈ [ascii "-s", ascii "-i", ascii "--trigger", ascii "--release",
      ascii "--confirm", ascii "--quiet-ms", ascii "--require-zero"], words w = [w] := by decide
  simp only [List.forall_mem_cons] at hword
  obtain ⟨h1, h2, h3, h4, h5, h6, h7, -⟩ := hword
  simp only [customArguments, if_pos h, List.flatMap_cons, List.flatMap_nil, h1, h2, h3, h4, h5, h6,
    h7, (words_sensitivity _ (motionSensitivity_mem conf)).1, (zero_parse conf).1,
    List.append_assoc, List.cons_append, List.nil_append]

theorem preset_words (h : getCameraConfig conf .custom ≠ ascii "yes") (ms : List Bytes) :
    (customArguments conf).flatMap words ++ ms =
      ascii "-s" :: motionSensitivity conf :: ascii "-i" :: ascii "100" :: ms := by
  have hword : ∀ w ∈ [ascii "-s", ascii "-i", ascii "100"], words w = [w] := by decide
  simp only [List.forall_mem_cons] at hword
  obtain ⟨h1, h2, h3, -⟩ := hword
  simp only [customArguments, if_neg h, List.flatMap_cons, List.flatMap_nil, h1, h2, h3,
    (words_sensitivity _ (motionSensitivity_mem conf)).1, List.cons_append, List.nil_append]

theorem motiond_eq_some {args : List Bytes} : motiond args = some p ↔
    scan .start args = some p ∧ p.sound = true ∧ motionConfigValid p.config p.interval = true := by
  unfold motiond
  cases hscan : scan .start args with
  | none => simp
  | some q =>
    simp only [Bool.and_eq_true, Option.ite_none_right_eq_some, Option.some.injEq]
    constructor
    · rintro ⟨h, rfl⟩
      exact ⟨rfl, h⟩
    · rintro ⟨rfl, h⟩
      exact ⟨h, rfl⟩

theorem sound_withMask (hdoc : Accepted doc) (h : p.sound = true) :
    (p.withMask doc).sound = true := by
  unfold Parsed.withMask
  split
  · obtain ⟨-, -, hpixels, hpixels'⟩ := whole_range hdoc.vectorPixels
    obtain ⟨-, -, -, hdiff⟩ := whole_range hdoc.difference
    simp only [Parsed.sound, Bool.and_eq_true, decide_eq_true_eq] at h ⊢
    exact ⟨h.1, h.2.1, h.2.2.1, h.2.2.2.1, hpixels, hpixels', hdiff⟩
  · exact h

theorem effective_withMask (hcells : p.cells = none) (doc : Document) :
    (p.withMask doc).effective = { p.effective with mask := documentMask doc } := by
  unfold Parsed.withMask documentMask
  split
  · rfl
  · simp only [Parsed.effective, hcells, Option.map_none]

/-- The values of the document pass the checks, whatever the way they came. -/
theorem motiond_withMask {args : List Bytes} (hdoc : Accepted doc)
    (hscan : scan .start args = some (p.withMask doc)) (hsound : p.sound = true)
    (hcells : p.cells = none)
    (he : { p.effective with mask := documentMask doc } = doc.effective) :
    ∃ q, motiond args = some q ∧ q.effective = doc.effective := by
  have heff : (p.withMask doc).effective = doc.effective := (effective_withMask hcells doc).trans he
  refine ⟨p.withMask doc, motiond_eq_some.mpr ⟨hscan, sound_withMask hdoc hsound, ?_⟩, heff⟩
  have hvalid := effective_valid hdoc (p.withMask doc).config.levelBoost
  rw [← heff] at hvalid
  exact hvalid

theorem encoderArguments_eq_some {args : List Bytes} (h : encoderArguments true conf = some args) :
    Accepted (motionReadConfig conf) ∧
      args = customArguments conf ++ maskArguments (motionReadConfig conf) := by
  simp only [encoderArguments, Bool.not_true, Bool.false_eq_true, and_false, if_false] at h
  split at h
  · exact absurd h nofun
  · next hvalid =>
    cases h
    exact ⟨accepted_of_valid (by simpa using hvalid), rfl⟩

theorem encoderArguments_accepted (h : motionValidateJson (motionReadConfig conf) = true) :
    encoderArguments true conf =
      some (customArguments conf ++ maskArguments (motionReadConfig conf)) := by
  simp only [encoderArguments, h, Bool.not_true, Bool.false_eq_true, and_false, if_false]

theorem asOne_eq_some {parse : Bytes → Option Nat} {t : Bytes} {n : Nat} :
    asOne parse t = some n ↔ ∃ w, words t = [w] ∧ parse w = some n := by
  unfold asOne
  constructor
  · intro h
    split at h
    · next w hw => exact ⟨w, hw, h⟩
    · exact absurd h nofun
  · rintro ⟨w, hw, h⟩
    rw [hw]
    exact h

/-- Sensitivities are told apart by their numbers. -/
theorem decimal_sensitivity : ∀ t ∈ sensitivities, ∀ t' ∈ sensitivities, decimal t = decimal t' →
    t = t' := by decide

theorem custom_sound {s i t r c m z : Nat} (h1 : 1 ≤ s) (h10 : s ≤ 10) :
    (Parsed.custom s i t r c m z).sound = true := by
  simp only [Parsed.sound, Parsed.custom, Parsed.start, Bool.true_and, decide_eq_true_eq]
  exact ⟨trivial, h1, h10, by decide, by decide, by decide⟩

theorem preset_sound {s : Nat} (h1 : 1 ≤ s) (h10 : s ≤ 10) :
    ({ Parsed.start with sensitivity := s } : Parsed).sound = true := by
  simp only [Parsed.sound, Parsed.start, Bool.true_and, decide_eq_true_eq]
  exact ⟨trivial, h1, h10, by decide, by decide, by decide⟩

theorem effective_preset (s : Nat) : ({ Parsed.start with sensitivity := s } : Parsed).effective =
    ⟨s, (preset s).trigger, (preset s).release, (preset s).confirmSamples, (preset s).quietMs,
      (preset s).requireZero, 100, none⟩ := by
  simp only [Parsed.effective, Parsed.config, Parsed.start, Option.getD_none, Option.map_none]

/-- **What the shell reads again says the document's numbers: then they agree.** -/
theorem ReadsAgain.agrees (h : ReadsAgain conf)
    (hvalid : motionValidateJson (motionReadConfig conf) = true) : Agrees conf := by
  have hdoc := accepted_of_valid hvalid
  obtain ⟨hsens, hsens'⟩ := words_sensitivity _ (motionSensitivity_mem conf)
  obtain ⟨h1, h10, -⟩ := preset_valid _ (motionSensitivity_mem conf)
  have hnumber : decimal (motionSensitivity conf) = (motionReadConfig conf).effective.sensitivity := by
    rw [effective_sensitivity, h.sensitivity]
  suffices hrun : ∃ q, motiond (encoderWords (customArguments conf ++
      maskArguments (motionReadConfig conf))) = some q ∧
      q.effective = (motionReadConfig conf).effective by
    obtain ⟨q, hq, he⟩ := hrun
    exact ⟨_, q, encoderArguments_accepted hvalid, hq, he⟩
  rw [encoderWords_append]
  by_cases hcustom : getCameraConfig conf .custom = ascii "yes"
  · obtain ⟨hi, ht, hr, hc, hm, hz⟩ := h.custom hcustom
    obtain ⟨i, hiw, hi⟩ := asOne_eq_some.mp hi
    obtain ⟨t, htw, ht⟩ := asOne_eq_some.mp ht
    obtain ⟨r, hrw, hr⟩ := asOne_eq_some.mp hr
    obtain ⟨c, hcw, hc⟩ := asOne_eq_some.mp hc
    obtain ⟨m, hmw, hm⟩ := asOne_eq_some.mp hm
    have hscan := (scan_custom hsens' hi ht hr hc hm (zero_parse conf).2).trans (scan_mask hdoc rfl)
    rw [custom_words hcustom, hiw, htw, hrw, hcw, hmw]
    refine motiond_withMask hdoc hscan (custom_sound h1 h10) rfl ?_
    rw [← effective_mask, hz, hnumber]
    rfl
  · have hscan := (scan_preset hsens').trans (scan_mask hdoc rfl)
    rw [preset_words hcustom]
    refine motiond_withMask hdoc hscan (preset_sound h1 h10) rfl ?_
    rw [effective_preset, ← effective_mask, hnumber]
    exact (h.row hcustom).symm

/-- **They agree only then**, where no option is hidden in what the shell reads again. -/
theorem Agrees.readsAgain (h : Agrees conf) (hplain : NoHyphen conf) : ReadsAgain conf := by
  obtain ⟨args, q, hargs, hq, he⟩ := h
  obtain ⟨hdoc, rfl⟩ := encoderArguments_eq_some hargs
  obtain ⟨hscan, hsound, -⟩ := motiond_eq_some.mp hq
  simp only [Parsed.sound, Bool.and_eq_true, decide_eq_true_eq] at hsound
  obtain ⟨-, hsens'⟩ := words_sensitivity _ (motionSensitivity_mem conf)
  have hplain' : ∀ k ∈ [Key.pollInterval, .startThreshold, .stopThreshold, .startSamples, .stopDelay],
      ∀ x ∈ words (getCameraConfig conf k), hyphen ∉ x :=
    fun k hk x hx hb => hplain k hk (subset_of_mem_words hx hyphen hb)
  simp only [List.forall_mem_cons] at hplain'
  obtain ⟨hI, hT, hR, hC, hM, -⟩ := hplain'
  rw [encoderWords_append] at hscan
  by_cases hcustom : getCameraConfig conf .custom = ascii "yes"
  · rw [custom_words hcustom] at hscan
    obtain ⟨i, t, r, c, m, ni, nt, nr, nc, nm, ⟨hiw, htw, hrw, hcw, hmw⟩, hi, ht, hr, hc, hm⟩ :=
      scan_custom_inv hI hT hR hC hM hscan hsound.1 hsound.2.1
    rw [hiw, htw, hrw, hcw, hmw] at hscan
    have hq := ((scan_custom hsens' hi ht hr hc hm (zero_parse conf).2).trans
      (scan_mask hdoc rfl)).symm.trans hscan
    cases hq
    rw [effective_withMask rfl] at he
    refine ⟨decimal_sensitivity _ (motionSensitivity_mem conf) _ hdoc.sensitivity ?_, fun _ => ?_,
      fun hno => absurd hcustom hno⟩
    · rw [← effective_sensitivity, ← he]
      rfl
    · rw [← he]
      exact ⟨asOne_eq_some.mpr ⟨i, hiw, hi⟩, asOne_eq_some.mpr ⟨t, htw, ht⟩,
        asOne_eq_some.mpr ⟨r, hrw, hr⟩, asOne_eq_some.mpr ⟨c, hcw, hc⟩,
        asOne_eq_some.mpr ⟨m, hmw, hm⟩, rfl⟩
  · rw [preset_words hcustom] at hscan
    have hq := ((scan_preset hsens').trans (scan_mask hdoc rfl)).symm.trans hscan
    cases hq
    rw [effective_withMask rfl, effective_preset] at he
    refine ⟨decimal_sensitivity _ (motionSensitivity_mem conf) _ hdoc.sensitivity ?_,
      fun hyes => absurd hyes hcustom, fun _ => ?_⟩
    · rw [← effective_sensitivity, ← he]
    · rw [← he]

/-! ## 5. The same texts -/

theorem scanRatio_digits {ds : Bytes} (hds : ds.all isDigit = true) (rest : Bytes)
    (w f : Nat) (seen : Bool) : scanRatio (ds ++ rest) (w, f, seen) =
      scanRatio rest (if seen then (w, f + ds.length, seen) else (w + ds.length, f, seen)) := by
  induction ds generalizing w f with
  | nil => cases seen <;> rfl
  | cons d ds ih =>
    simp only [List.all_cons, Bool.and_eq_true] at hds
    have hd : d ≠ dot := by
      rintro rfl
      exact absurd hds.1 (by decide)
    rw [List.cons_append, scanRatio, if_neg (by simp [hd]), hds.1]
    cases seen
    · simp only [Bool.not_true, Bool.false_eq_true, if_false, ih hds.2, List.length_cons,
        Nat.add_comm ds.length 1, Nat.add_assoc]
    · simp only [Bool.not_true, Bool.false_eq_true, if_false, if_true, ih hds.2, List.length_cons,
        Nat.add_comm ds.length 1, Nat.add_assoc]

theorem isDecimal_iff {t : Bytes} : isDecimal t = true ↔ t ≠ [] ∧ t.all isDigit = true := by
  simp only [isDecimal, Bool.and_eq_true, Bool.not_eq_true', List.isEmpty_eq_false_iff]

theorem matchDigits_iff {n : Nat} {t : Bytes} : matchDigits n t = true ↔
    t ≠ [] ∧ t.all isDigit = true ∧ t.length ≤ n := by
  simp only [matchDigits, Bool.and_eq_true, isDecimal_iff, decide_eq_true_eq, and_assoc]

/-- A ratio is digits, or digits, a dot and digits. -/
theorem matchRatio_cases {t : Bytes} (h : matchRatio t = true) :
    ∃ ds, matchDigits 3 ds = true ∧ (t = ds ∨ ∃ fs, matchDigits 2 fs = true ∧ t = ds ++ dot :: fs) := by
  simp only [matchRatio, Bool.and_eq_true] at h
  obtain ⟨hds, hrest⟩ := h
  have ht := List.takeWhile_append_dropWhile (p := isDigit) (l := t)
  refine ⟨t.takeWhile isDigit, hds, ?_⟩
  split at hrest
  · next hnil =>
    rw [hnil, List.append_nil] at ht
    exact .inl ht.symm
  · next b fs hcons =>
    simp only [Bool.and_eq_true, beq_iff_eq] at hrest
    rw [hcons, hrest.1] at ht
    exact .inr ⟨fs, hrest.2, ht.symm⟩

theorem parseRatioArg_of_scan {t : Bytes} {whole fraction : Nat} {seen : Bool}
    (hscan : scanRatio t (0, 0, false) = some (whole, fraction, seen)) (hpos : 0 < whole)
    (hwhole : whole ≤ 3) (hfraction : fraction ≤ 2) (hseen : seen = true → 0 < fraction) :
    parseRatioArg t = some (hundredths t) := by
  rw [parseRatioArg, hscan]
  exact if_neg fun h => by
    rcases h with h | h | h | ⟨h, h0⟩
    · omega
    · omega
    · omega
    · have := hseen h
      omega

/-- **The pattern of `jq` and the parser of `motiond` agree on ratios.** -/
theorem parseRatioArg_of_match {t : Bytes} (h : matchRatio t = true) :
    parseRatioArg t = some (hundredths t) ∧ words t = [t] := by
  obtain ⟨ds, hds, ht⟩ := matchRatio_cases h
  obtain ⟨hne, hdigits, hlen⟩ := matchDigits_iff.mp hds
  have hpos : 0 < ds.length := List.length_pos_of_ne_nil hne
  have hblank : ∀ b ∈ ds, isBlank b = false :=
    fun b hb => blank_of_digit (List.all_eq_true.mp hdigits b hb)
  rcases ht with rfl | ⟨fs, hfs, rfl⟩
  · have hscan := scanRatio_digits hdigits [] 0 0 false
    simp only [List.append_nil, Bool.false_eq_true, if_false, scanRatio, Nat.zero_add] at hscan
    exact ⟨parseRatioArg_of_scan hscan hpos hlen (by omega) nofun, words_word hne hblank⟩
  · obtain ⟨hne', hdigits', hlen'⟩ := matchDigits_iff.mp hfs
    have hpos' : 0 < fs.length := List.length_pos_of_ne_nil hne'
    have hscan := scanRatio_digits hdigits (dot :: fs) 0 0 false
    have hscan' := scanRatio_digits hdigits' [] ds.length 0 true
    simp only [Bool.false_eq_true, if_false, Nat.zero_add, scanRatio, Bool.not_false, and_self,
      if_true] at hscan
    simp only [List.append_nil, if_true, scanRatio, Nat.zero_add] at hscan'
    refine ⟨parseRatioArg_of_scan (hscan.trans hscan') hpos hlen hlen' fun _ => hpos',
      words_word (by simp) fun b hb => ?_⟩
    rcases List.mem_append.mp hb with hb | hb
    · exact hblank b hb
    · rcases List.mem_cons.mp hb with rfl | hb
      · rfl
      · exact blank_of_digit (List.all_eq_true.mp hdigits' b hb)

theorem asOne_ratio {lo hi : Nat} {t : Bytes} (h : ratio lo hi t = true) :
    asOne parseRatioArg t = some (hundredths t) := by
  obtain ⟨hparse, hwords⟩ := parseRatioArg_of_match (ratio_range h).1
  exact asOne_eq_some.mpr ⟨t, hwords, hparse⟩

theorem asOne_whole {n lo hi : Nat} {t : Bytes} (h : whole n lo hi t = true) (hn : n ≤ 5) :
    asOne parseIntArg t = some (decimal t) := by
  obtain ⟨hdecimal, hlen, -⟩ := whole_range h
  exact asOne_eq_some.mpr ⟨t, words_decimal hdecimal, parseIntArg_decimal hdecimal (by omega)⟩

/-- **Where the shell reads the document's own texts again**, it reads its numbers. -/
theorem readsAgain_of_same (hvalid : motionValidateJson (motionReadConfig conf) = true)
    (hsame : ∀ k ∈ [Key.sensitivity, .custom, .pollInterval, .startThreshold, .stopThreshold,
      .startSamples, .stopDelay, .stopRequireZero], getCameraConfig conf k = motionReadConfig conf k) :
    ReadsAgain conf := by
  have hdoc := accepted_of_valid hvalid
  simp only [List.forall_mem_cons] at hsame
  obtain ⟨hsens, hcustom, hpoll, hstart, hstop, hsamples, hdelay, hzero, -⟩ := hsame
  refine ⟨?_, fun hyes => ?_, fun hno => ?_⟩
  · rw [motionSensitivity, hsens, if_pos hdoc.sensitivity]
  · rw [hcustom] at hyes
    rw [hpoll, hstart, hstop, hsamples, hdelay, hzero]
    simp only [Document.effective, if_pos hyes]
    exact ⟨asOne_whole hdoc.pollInterval le_rfl, asOne_ratio hdoc.startThreshold,
      asOne_ratio hdoc.stopThreshold, asOne_whole hdoc.startSamples le_rfl,
      asOne_whole hdoc.stopDelay le_rfl, trivial⟩
  · rw [hcustom] at hno
    simp only [Document.effective, if_neg hno]

/-- **Exactly then `motiond` runs with the settings that were checked.** For every content of
    `camera.conf` whose document is accepted, on the model `y623`. -/
theorem settings_agree_iff (conf : Bytes)
    (hvalid : motionValidateJson (motionReadConfig conf) = true) :
    (ReadsAgain conf → Agrees conf) ∧ (NoHyphen conf → Agrees conf → ReadsAgain conf) :=
  ⟨fun h => h.agrees hvalid, fun hplain h => h.readsAgain hplain⟩

end Agreement

/-- A custom start threshold, with all the fields the custom settings need. -/
def sampleConf : Bytes := print ([ascii "MOTION_CUSTOM=yes", ascii "MOTION_SENSITIVITY=7",
  ascii "MOTION_START_THRESHOLD=1.5", ascii "MOTION_STOP_THRESHOLD=0.25",
  ascii "MOTION_START_SAMPLES=4", ascii "MOTION_STOP_DELAY=1500", ascii "MOTION_POLL_INTERVAL=200",
  ascii "MOTION_STOP_REQUIRE_ZERO=no"])

theorem settings_agree_once : Agrees sampleConf :=
  (settings_agree_iff sampleConf (by decide +kernel)).1
    (readsAgain_of_same (by decide +kernel) (by decide +kernel))

/-- **The custom fields are read again without their defaults**: `MOTION_CUSTOM=yes` and nothing else
    is accepted, and `motiond` refuses the command line. -/
theorem missing_fields_refused : ¬ ∀ conf : Bytes,
    motionValidateJson (motionReadConfig conf) = true → Agrees conf := by
  intro h
  obtain ⟨args, p, hargs, hp, -⟩ := h (ascii "MOTION_CUSTOM=yes") (by decide +kernel)
  have hwords : (encoderArguments true (ascii "MOTION_CUSTOM=yes")).bind
      (fun args => motiond (encoderWords args)) = none := by decide +kernel
  rw [hargs, Option.bind_some, hp] at hwords
  exact absurd hwords nofun

end YiHack.Tuning
