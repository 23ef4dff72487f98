/-
  File:      YiHack/Nightvision/Recovery.lean
  Subject:   What a controller finds that runs alone, after others have died.

  * `write_alone` -- on an even generation the lock is taken at once and the pair is in place; on
    an odd one, left by a controller that died with the lock, nothing happens, now or later;
  * **`recovers_iff`** -- `--init` and then `--set` bring the control back exactly where the mapping
    is not valid yet or its generation is even;
  * `not_recoverable` -- a controller killed behind its compare-and-swap.
-/
import YiHack.Nightvision.Control

namespace YiHack.Nightvision

open General

/-! ## 1. The pairs a command line can ask for -/

/-- What `read_settings` accepts. -/
def Settings.Fit (p : Settings) : Prop := refuses p.mode p.threshold = false

theorem parseMode_le {arg : Bytes} {mode : Word} (h : parseMode arg = some mode) :
    decide (NV_OFF < mode) = false := by
  unfold parseMode at h
  split at h
  · cases h; decide
  · split at h
    · cases h; decide
    · split at h
      · cases h; decide
      · cases h

theorem parseThreshold_range {arg : Bytes} {threshold : Word}
    (h : parseThreshold arg = some threshold) :
    decide (threshold < 1#32) = false ∧ decide (100#32 < threshold) = false := by
  unfold parseThreshold at h
  split at h
  next value end_ hstrtol =>
  split at h
  · cases h
  · next hrange =>
    simp only [not_or, not_lt] at hrange
    obtain ⟨-, -, hlow, hhigh⟩ := hrange
    cases h
    obtain ⟨n, rfl⟩ := Int.eq_ofNat_of_zero_le (by omega : 0 ≤ value)
    have hn : (BitVec.ofInt 32 (n : Int)).toNat = n := by
      rw [BitVec.ofInt_natCast, BitVec.toNat_ofNat, Nat.mod_eq_of_lt (by omega)]
    constructor <;> rw [decide_eq_false_iff_not, BitVec.lt_def]
    · show ¬ (BitVec.ofInt 32 (n : Int)).toNat < 1
      omega
    · show ¬ 100 < (BitVec.ofInt 32 (n : Int)).toNat
      omega

theorem parseSettings_fit {mode threshold : Bytes} {p : Settings}
    (h : parseSettings mode threshold = some p) : p.Fit := by
  simp only [parseSettings, Option.bind_eq_bind, Option.bind_eq_some_iff] at h
  obtain ⟨m, hm, t, ht, hp⟩ := h
  cases hp
  have := parseThreshold_range ht
  simp only [Settings.Fit, refuses, parseMode_le hm, this.1, this.2, Bool.or_self]

theorem parseArgs_fit {argv : List Bytes} {cmd : Command} {p : Settings}
    (h : parseArgs argv = some cmd) (hp : cmd.writing = some p) : p.Fit := by
  unfold parseArgs at h
  split at h
  · split at h
    · obtain ⟨q, hq, rfl⟩ := Option.map_eq_some_iff.mp h
      cases hp
      exact parseSettings_fit hq
    · split at h
      · obtain ⟨q, hq, rfl⟩ := Option.map_eq_some_iff.mp h
        cases hp
        exact parseSettings_fit hq
      · cases h
  · split at h
    · cases h; cases hp
    · cases h
  · cases h

/-! ## 2. Alone -/

/-- The mapping has its size and its two marks. -/
structure Night.Valid (s : Night) : Prop where
  sized : s.sized = true
  magic : s.control.magic = NV_MAGIC
  version : s.control.version = NV_VERSION

/-- The mapping after an update. -/
def Night.updated (p : Settings) (s : Night) : Night :=
  { s with
    control := { s.control with
      mode := p.mode
      threshold := p.threshold
      generation := s.control.generation + 2#32 }
    owner := none
    count := s.count + 2
    updates := s.updates + 1 }

variable {s : Night} {me : Nat} {cmd : Command} {out : Outside} {p q : Settings}

theorem acquire_alone_even (attempts : Nat) (h : odd s.control.generation = false) :
    (acquire me (attempts + 1)).alone s =
      (s.lock me s.control.generation, some s.control.generation) := by
  simp only [acquire, Code.alone_load, h, Bool.false_eq_true, if_false, compareExchange,
    Code.alone_rmw, if_true, decide_true, Code.alone_ret]

/-- **Where nobody gives the lock back, nobody gets it.** -/
theorem acquire_alone_odd (attempts : Nat) (h : odd s.control.generation = true) :
    (acquire me attempts).alone s = (s, none) := by
  induction attempts with
  | zero => rfl
  | succ attempts ih => simp only [acquire, Code.alone_load, h, if_true, ih]

theorem write_alone_even (hp : cmd.writing = some p) (h : odd s.control.generation = false) :
    ((write me cmd out).alone s).1 = s.updated p := by
  simp only [write, hp, Code.alone_bind, acquire_alone_even 49 h, (conclude_looks cmd out).alone]
  simp only [update, Code.alone_store, put, Night.release, Night.lock, Night.updated]
  rfl

theorem write_alone_odd (hp : cmd.writing = some p) (h : odd s.control.generation = true) :
    ((write me cmd out).alone s).1 = s := by
  simp only [write, hp, Code.alone_bind, acquire_alone_odd 50 h, Code.alone_ret]

theorem valid_alone : valid.alone s =
    (s, decide (s.control.magic = NV_MAGIC ∧ s.control.version = NV_VERSION)) := by
  unfold valid
  by_cases hm : s.control.magic = NV_MAGIC <;> simp [hm]

/-- The mapping behind `memset` and the stores after it. -/
def Night.initialised (s : Night) : Night :=
  { s with control := ⟨NV_MAGIC, NV_VERSION, 0, NV_AUTO, 50, 0, 0, 0, 0, -1, -1, -1⟩, count := 0 }

theorem foldl_clear (s : Night) :
    defaults.foldl (fun s f => f s) (clear.foldl (fun s f => f s) s) = s.initialised := by
  simp only [clear, defaults, List.foldl_cons, List.foldl_nil, put]
  rfl

theorem mapped_alone_valid (h : s.Valid) : ((mapped me cmd out).alone s) =
    (write me cmd out).alone s := by
  simp only [mapped, Code.alone_bind, valid_alone, h.magic, h.version, and_self, decide_true, if_true]

theorem mapped_alone_invalid (hinit : cmd.initializing = true)
    (h : ¬ (s.control.magic = NV_MAGIC ∧ s.control.version = NV_VERSION)) :
    (mapped me cmd out).alone s = (write me cmd out).alone s.initialised := by
  simp only [mapped, Code.alone_bind, valid_alone, h, decide_false, Bool.false_eq_true, if_false,
    hinit, if_true, Code.alone_stores, foldl_clear]

/-- The note of the call, and the file there. -/
def Night.called (cmd : Command) (s : Night) : Night :=
  { s with requested := cmd.writing.toList ++ s.requested, present := true }

/-- **A controller alone**, from its call to the mapping. -/
theorem control_alone (me : Nat) (out : Outside)
    (h : cmd.initializing = true ∨ s.present = true ∧ s.sized = true) :
    (control me cmd out).alone s = (mapped me cmd out).alone (truncate (s.called cmd)) := by
  have hopen : (s.present || cmd.initializing) = true := by
    rcases h with h | h
    · rw [h, Bool.or_true]
    · rw [h.1, Bool.true_or]
  simp only [control, openFile, Code.alone_store, Code.alone_rmw, hopen, if_true, resize,
    Code.alone_load]
  cases hinit : cmd.initializing with
  | true =>
    cases hsized : s.sized <;> simp [Night.called, truncate, hsized]
  | false =>
    obtain ⟨hp, hsized⟩ := h.resolve_left (by rw [hinit]; exact nofun)
    simp only [Bool.false_eq_true, if_false, hsized, if_true, Night.called, truncate]
    rw [← hp]

theorem Night.Valid.called (h : s.Valid) (cmd : Command) : (s.called cmd).Valid :=
  ⟨h.sized, h.magic, h.version⟩

theorem truncate_sized : (truncate s).sized = true := by
  unfold truncate
  split
  · assumption
  · rfl

theorem truncate_of_sized (h : s.sized = true) : truncate s = s := if_pos h

/-- A mapping just filled up with zeros is not valid. -/
theorem sized_of_truncate (h : (truncate s).control.magic = NV_MAGIC) : s.sized = true := by
  unfold truncate at h
  split at h
  · assumption
  · have h : (0 : Word) = NV_MAGIC := h
    exact absurd h (by decide)

theorem truncate_updates : (truncate s).updates = s.updates := by
  unfold truncate
  split <;> rfl

theorem truncate_present : (truncate s).present = s.present := by
  unfold truncate
  split <;> rfl

/-- On a valid mapping. -/
theorem control_alone_valid (me : Nat) (out : Outside) (hvalid : s.Valid)
    (h : cmd.initializing = true ∨ s.present = true) :
    (control me cmd out).alone s = (write me cmd out).alone (s.called cmd) := by
  rw [control_alone me out (h.imp id fun hp => ⟨hp, hvalid.sized⟩),
    truncate_of_sized (hvalid.called cmd).sized, mapped_alone_valid (hvalid.called cmd)]

/-! ## 3. Recovery -/

/-- **An update that went through**: exactly one, and the mapping is valid and free. -/
structure Updated (p : Settings) (s s' : Night) : Prop where
  updates : s'.updates = s.updates + 1
  valid : s'.Valid
  present : s'.present = true
  free : odd s'.control.generation = false
  settings : s'.settings = p

theorem odd_add_two (w : Word) : odd (w + 2#32) = odd w := by
  have h : w = BitVec.ofNat 32 w.toNat := by rw [BitVec.ofNat_toNat, BitVec.setWidth_eq]
  rw [h, word_add_two, odd_ofNat, odd_ofNat, Nat.add_mod_right]

theorem write_updates (me : Nat) (out : Outside) (hp : cmd.writing = some p) (hvalid : s.Valid)
    (hpresent : s.present = true) (h : odd s.control.generation = false) :
    Updated p s ((write me cmd out).alone s).1 := by
  rw [write_alone_even hp h]
  exact ⟨rfl, ⟨hvalid.sized, hvalid.magic, hvalid.version⟩, hpresent, (odd_add_two _).trans h, rfl⟩

/-- A controller that finds the mapping valid and free. -/
theorem control_updates (me : Nat) (out : Outside) (hp : cmd.writing = some p) (hvalid : s.Valid)
    (hpresent : cmd.initializing = true ∨ s.present = true)
    (h : odd s.control.generation = false) : Updated p s ((control me cmd out).alone s).1 := by
  rw [control_alone_valid me out hvalid hpresent]
  have hw := write_updates me out hp (hvalid.called cmd) rfl h
  exact { hw with updates := hw.updates }

/-- `--init` on what is not valid. -/
theorem init_resets (me : Nat) (out : Outside) (h : ¬ s.Valid) :
    Updated p s ((control me (.init p) out).alone s).1 := by
  have hmarks : ¬ ((truncate (s.called (.init p))).control.magic = NV_MAGIC ∧
      (truncate (s.called (.init p))).control.version = NV_VERSION) := by
    intro hmarks
    have hsized : (s.called (.init p)).sized = true := sized_of_truncate hmarks.1
    rw [truncate_of_sized hsized] at hmarks
    exact h ⟨hsized, hmarks.1, hmarks.2⟩
  rw [control_alone me out (.inl rfl), mapped_alone_invalid rfl hmarks]
  have hw := write_updates (p := p) (s := (truncate (s.called (.init p))).initialised) me out
    (Eq.refl (Command.init p).writing) ⟨truncate_sized, rfl, rfl⟩ truncate_present
    (show odd (0 : Word) = false by decide)
  exact { hw with updates := hw.updates.trans (congrArg (· + 1) truncate_updates) }

/-- Where the lock was left behind, `--init` does nothing. -/
theorem init_stuck (me : Nat) (out : Outside) (hvalid : s.Valid)
    (h : odd s.control.generation = true) :
    ((control me (.init p) out).alone s).1.updates = s.updates := by
  rw [control_alone_valid me out hvalid (.inl rfl),
    write_alone_odd (s := s.called (.init p)) (p := p) rfl h]
  rfl

/-- The reader takes the pair it finds. -/
theorem readSettings_alone (h : odd s.control.generation = false) (hfit : s.settings.Fit) :
    ((readSettings 4).alone s).1.adopted =
      ⟨s.settings, s.control.generation, s.updates, s.updates⟩ :: s.adopted := by
  have hfit' : refuses s.control.mode s.control.threshold = false := hfit
  simp [readSettings, h, hfit', Night.settings]

/-- `first` alone, then `second` alone, both complete their update, and the reader's next look
    takes over `q`. -/
def Recovers (first second : Code Night Ending) (q : Settings) (s : Night) : Prop :=
  let s₁ := (first.alone s).1
  let s₂ := (second.alone s₁).1
  s₁.updates = s.updates + 1 ∧ s₂.updates = s₁.updates + 1 ∧
    ∃ a, ((readSettings 4).alone s₂).1.adopted = a :: s₂.adopted ∧ a.settings = q

/-- **When the control can be recovered**: whatever earlier controllers left behind, one `--init`
    alone and one `--set` alone bring it back if and only if the mapping is not valid or its
    generation is even. -/
theorem recovers_iff (s : Night) {argv₁ argv₂ : List Bytes} {p q : Settings} (me₁ me₂ : Nat)
    (out₁ out₂ : Outside) (h₁ : parseArgs argv₁ = some (.init p))
    (h₂ : parseArgs argv₂ = some (.set q)) :
    Recovers (nightvisionctl me₁ argv₁ out₁) (nightvisionctl me₂ argv₂ out₂) q s ↔
      (s.Valid → odd s.control.generation = false) := by
  simp only [nightvisionctl, h₁, h₂]
  constructor
  · intro h hvalid
    cases hodd : odd s.control.generation with
    | false => rfl
    | true =>
      have hupdates : _ = s.updates + 1 := h.1
      rw [init_stuck me₁ out₁ hvalid hodd] at hupdates
      omega
  · intro h
    have hinit : Updated p s ((control me₁ (.init p) out₁).alone s).1 := by
      by_cases hvalid : s.Valid
      · exact control_updates me₁ out₁ rfl hvalid (.inl rfl) (h hvalid)
      · exact init_resets me₁ out₁ hvalid
    have hset : Updated q _ ((control me₂ (.set q) out₂).alone _).1 :=
      control_updates me₂ out₂ rfl hinit.valid (.inr hinit.present) hinit.free
    refine ⟨hinit.updates, hset.updates, _, readSettings_alone hset.free ?_, hset.settings⟩
    rw [hset.settings]
    exact parseArgs_fit h₂ rfl

/-! ## 4. A lock left behind -/

/-- Before the first controller. -/
def nothing : Night where
  present := false
  sized := false
  control := ⟨0, 0, 0, 0, 0, 0, 0, 0, 0, 0, 0, 0⟩
  requested := []
  owner := none
  count := 0
  updates := 0
  adopted := []

/-- The first `--init`, killed behind its compare-and-swap. -/
def killedInit : List (Event (Option Nat) Call) :=
  .call (some 0) (.control [ascii "--init", ascii "auto", ascii "50"] ⟨fun _ => false, 0⟩) ::
    List.replicate 25 (.step (some 0)) ++ [.kill (some 0)]

/-- **Not every state is recovered**: no controller is running, and neither `--init` nor `--set`
    gets the lock. -/
theorem not_recoverable :
    ¬ ∀ es : List (Event (Option Nat) Call),
      (∀ i, (run system.step (Machine.idle nothing) es).code i = none) →
      ∀ (argv₁ argv₂ : List Bytes) (p q : Settings) (me₁ me₂ : Nat) (out₁ out₂ : Outside),
        parseArgs argv₁ = some (.init p) → parseArgs argv₂ = some (.set q) →
        Recovers (nightvisionctl me₁ argv₁ out₁) (nightvisionctl me₂ argv₂ out₂) q
          (run system.step (Machine.idle nothing) es).memory := by
  intro h
  have hidle : ∀ i, (run system.step (Machine.idle nothing) killedInit).code i = none := by
    intro i
    by_cases hi : i = some 0
    · subst hi
      rw [killedInit, run_concat]
      simp only [System.step, Function.update_self]
    · have hslot : ∀ e ∈ killedInit, i ≠ e.slot := by
        intro e he
        simp only [killedInit, List.cons_append, List.mem_cons, List.mem_append, List.mem_replicate,
          List.not_mem_nil, or_false] at he
        rcases he with rfl | ⟨-, rfl⟩ | rfl <;> exact hi
      rw [system.run_code_of_ne _ hslot]
      rfl
  have hupdated := (h killedInit hidle [ascii "--init", ascii "auto", ascii "50"]
    [ascii "--set", ascii "on", ascii "60"] ⟨NV_AUTO, 50#32⟩ ⟨NV_ON, 60#32⟩ 1 2 ⟨fun _ => false, 0⟩
    ⟨fun _ => false, 0⟩ (by decide) (by decide)).1
  exact absurd hupdated (by decide)

/-- A `--set` behind a whole `--init`, killed right before its compare-and-swap. -/
def killedSet : List (Event (Option Nat) Call) :=
  .call (some 0) (.control [ascii "--init", ascii "auto", ascii "50"] ⟨fun _ => false, 0⟩) ::
    List.replicate 40 (.step (some 0)) ++
    .call (some 1) (.control [ascii "--set", ascii "on", ascii "70"] ⟨fun _ => false, 0⟩) ::
    List.replicate 6 (.step (some 1)) ++ [.kill (some 1)]

/-- What it leaves is recovered: the mapping is valid, with generation 2. -/
theorem recovers_from_killed :
    (run system.step (Machine.idle nothing) killedSet).memory.control.generation = 2 ∧
    Recovers (nightvisionctl 2 [ascii "--init", ascii "auto", ascii "50"] ⟨fun _ => false, 0⟩)
      (nightvisionctl 3 [ascii "--set", ascii "on", ascii "60"] ⟨fun _ => false, 0⟩)
      ⟨NV_ON, 60#32⟩ (run system.step (Machine.idle nothing) killedSet).memory := by
  have hgeneration : (run system.step (Machine.idle nothing) killedSet).memory.control.generation =
      2 := by decide
  refine ⟨hgeneration, (recovers_iff _ (p := ⟨NV_AUTO, 50#32⟩) 2 3 _ _ (by decide) (by decide)).mpr
    fun _ => ?_⟩
  rw [hgeneration]
  decide

end YiHack.Nightvision
