/-
  File:      YiHack/Nightvision/Adoption.lean
  Subject:   Every pair the camera takes over was asked for as a whole.

  The invariant ties the word to the count behind it and says whose the pair is wherever the count
  is even (`Inv`). A controller keeps it, and leaves the pair alone unless it has the lock; the
  one with the lock may rely on word and pair staying as they are (`Rely`, `Guarantee`).

  * `update_ok` -- the stores under the lock;
  * `readSettings_ok` -- the reader;
  * **`settings_adopted_whole`** -- over every run, with fewer than 2^31 updates completed during
    the attempt, a pair taken over is the default one or one controller's.
-/
import YiHack.Nightvision.Control

namespace YiHack.Nightvision

open General

/-! ## 1. The invariant -/

/-- The default pair, or one that was asked for. -/
def Night.Asked (s : Night) (p : Settings) : Prop := p = ⟨NV_AUTO, 50#32⟩ ∨ p ∈ s.requested

/-- `base` is the generation at the start. -/
structure Inv (base : Nat) (s : Night) : Prop where
  present : s.present = true
  sized : s.sized = true
  magic : s.control.magic = NV_MAGIC
  version : s.control.version = NV_VERSION
  word : s.control.generation = BitVec.ofNat 32 s.count
  counted : s.count = base + 2 * s.updates ∨ (base % 2 = 0 ∧ s.count = base + 2 * s.updates + 1)
  locked : ∀ i, s.owner = some i → s.count % 2 = 1 ∧ base % 2 = 0
  settings : s.count % 2 = 0 → s.Asked s.settings
  adopted : ∀ a ∈ s.adopted, a.ended - a.began < 2 ^ 31 → s.Asked a.settings

theorem Initialised.inv {s : Night} (h : Initialised s) : Inv s.control.generation.toNat s where
  present := h.present
  sized := h.sized
  magic := h.magic
  version := h.version
  word := by rw [h.count, BitVec.ofNat_toNat, BitVec.setWidth_eq]
  counted := .inl (by rw [h.updates, h.count]; rfl)
  locked i hi := absurd hi (by rw [h.owner]; exact nofun)
  settings _ := .inl h.settings
  adopted a ha := absurd ha (by rw [h.adopted]; exact List.not_mem_nil)

/-- What a step leaves controller `i`: the lock, and the word and the pair under it. -/
def Spares (i : Nat) (s s' : Night) : Prop :=
  (s'.owner = some i ↔ s.owner = some i) ∧
    (s.owner = some i → s'.count = s.count ∧ s'.settings = s.settings)

/-- What everybody leaves everybody. -/
structure Moves (s s' : Night) : Prop where
  requested : ∀ p ∈ s.requested, p ∈ s'.requested
  quiet : Quiet s.count s.settings s'.count s'.settings

/-- What `me` relies on. -/
structure Rely (base : Nat) (me : Option Nat) (s s' : Night) : Prop extends Moves s s' where
  inv : Inv base s'
  mine : ∀ i, me = some i → Spares i s s'

/-- What `me` guarantees. -/
structure Guarantee (base : Nat) (me : Option Nat) (s s' : Night) : Prop extends Moves s s' where
  inv : Inv base s → Inv base s'
  others : ∀ i, me ≠ some i → Spares i s s'

/-- `me` does not have the lock. -/
def Idle (me : Option Nat) (s : Night) : Prop := ∀ i, me = some i → s.owner ≠ some i

variable {base : Nat} {me : Option Nat} {i : Nat} {s s' : Night} {p : Settings}

theorem Moves.asked (h : Moves s s') (hp : s.Asked p) : s'.Asked p :=
  hp.imp id (h.requested p)

theorem Moves.refl (s : Night) : Moves s s := ⟨fun _ => id, .refl _ _⟩

theorem Spares.refl (i : Nat) (s : Night) : Spares i s s := ⟨Iff.rfl, fun _ => ⟨rfl, rfl⟩⟩

/-- A step that leaves lock, word and pair alone. -/
theorem Spares.of_eq (howner : s'.owner = s.owner) (hcount : s'.count = s.count)
    (hsettings : s'.settings = s.settings) : Spares i s s' :=
  ⟨by rw [howner], fun _ => ⟨hcount, hsettings⟩⟩

theorem Guarantee.refl (base : Nat) (me : Option Nat) (s : Night) : Guarantee base me s s :=
  ⟨Moves.refl s, id, fun i _ => Spares.refl i s⟩

/-! ## 2. What the others keep -/

theorem stable_inv : Code.Stable (Rely base me) (Inv base) := fun _ _ _ hr => hr.inv

theorem stable_idle : Code.Stable (Rely base me) (Idle me) :=
  fun _ _ h hr i hi howner => h i hi ((hr.mine i hi).1.mp howner)

theorem stable_asked : Code.Stable (Rely base me) fun s => s.Asked p :=
  fun _ _ h hr => hr.asked h

/-- `me` is out of the lock. -/
def Unlocked (base : Nat) (me : Option Nat) (s : Night) : Prop := Inv base s ∧ Idle me s

theorem stable_unlocked : Code.Stable (Rely base me) (Unlocked base me) :=
  stable_inv.and stable_idle

/-- `i` has the lock since the generation `g`, asked for `p`, and `F` holds of the pair. -/
structure Inside (base i : Nat) (g : Word) (p : Settings) (F : Settings → Prop) (s : Night) :
    Prop where
  inv : Inv base s
  owner : s.owner = some i
  word : s.control.generation = g + 1#32
  asked : s.Asked p
  pair : F s.settings

theorem stable_inside {g : Word} {F : Settings → Prop} :
    Code.Stable (Rely base (some i)) (Inside base i g p F) := by
  intro s s' h hr
  obtain ⟨howner, hkept⟩ := hr.mine i rfl
  obtain ⟨hcount, hsettings⟩ := hkept h.owner
  refine ⟨hr.inv, howner.mpr h.owner, ?_, hr.asked h.asked, hsettings ▸ h.pair⟩
  rw [hr.inv.word, hcount, ← h.inv.word, h.word]

/-! ## 3. The actions -/

/-- A step of whom has the lock is no other's concern. -/
theorem spares_of_owner (howner : s.owner = some i) (howner' : s'.owner = some i ∨ s'.owner = none)
    {j : Nat} (hj : some i ≠ some j) : Spares j s s' := by
  have hs : s.owner ≠ some j := howner ▸ hj
  have hs' : s'.owner ≠ some j := by
    rcases howner' with h | h
    · exact h ▸ hj
    · rw [h]; exact nofun
  exact ⟨⟨fun h => absurd h hs', fun h => absurd h hs⟩, fun h => absurd h hs⟩

/-- The request is noted. -/
theorem ask_guarantees (base : Nat) (me : Option Nat) (s : Night) (ps : List Settings) :
    Guarantee base me s { s with requested := ps ++ s.requested } where
  requested _ hp := List.mem_append_right _ hp
  quiet := .refl _ _
  inv h := { h with
    settings := fun he => (h.settings he).imp id (List.mem_append_right _)
    adopted := fun a ha hlt => (h.adopted a ha hlt).imp id (List.mem_append_right _) }
  others _ _ := .of_eq rfl rfl rfl

/-- The lock is taken. -/
theorem lock_guarantees (hinv : Inv base s) (h : odd s.control.generation = false) :
    Guarantee base (some i) s (s.lock i s.control.generation) := by
  have heven : s.count % 2 = 0 := even_of_not_odd (hinv.word ▸ h)
  have hfree : ∀ j, s.owner ≠ some j := fun j hj => by have := (hinv.locked j hj).1; omega
  have hcount : base % 2 = 0 ∧ s.count + 1 = base + 2 * s.updates + 1 := by
    have := hinv.counted
    omega
  have hodd : (s.count + 1) % 2 = 1 := by omega
  refine ⟨⟨fun _ => id, .of_lt (Nat.lt_succ_self _)⟩, fun _ => ?_, fun j hj => ?_⟩
  · exact { hinv with
      word := by
        show s.control.generation + 1#32 = _
        rw [hinv.word, word_succ]
        rfl
      counted := .inr hcount
      locked := fun _ _ => ⟨hodd, hcount.1⟩
      settings := fun (h0 : (s.count + 1) % 2 = 0) => by omega }
  · exact ⟨⟨fun ho => absurd ho hj, fun ho => absurd ho (hfree j)⟩, fun ho => absurd ho (hfree j)⟩

/-- A store to the pair under the lock. -/
theorem store_guarantees (base : Nat) (howner : s.owner = some i) (hodd : s.count % 2 = 1)
    {f : NvControl → NvControl} (hf : ∀ c, (f c).magic = c.magic ∧ (f c).version = c.version ∧
      (f c).generation = c.generation) : Guarantee base (some i) s (put f s) where
  requested _ := id
  quiet := .of_odd hodd
  inv h := { h with
    magic := (hf s.control).1.trans h.magic
    version := (hf s.control).2.1.trans h.version
    word := (hf s.control).2.2.trans h.word
    settings := fun (h0 : s.count % 2 = 0) => by omega }
  others j hj := by
    have howner' : (put f s).owner = some i := howner
    exact spares_of_owner howner (.inl howner') hj

/-- The lock is given back with the pair in place. -/
theorem release_guarantees {g : Word} (h : Inside base i g p (· = p) s) :
    Guarantee base (some i) s (s.release g) := by
  obtain ⟨hodd, hbase⟩ := h.inv.locked i h.owner
  have hcount : s.count + 1 = base + 2 * (s.updates + 1) := by
    have := h.inv.counted
    omega
  have hword : g + 2#32 = BitVec.ofNat 32 (s.count + 1) := by
    rw [BitVec.ofNat_add, ← h.inv.word, h.word, BitVec.add_assoc]
    rfl
  refine ⟨⟨fun _ => id, .of_lt (Nat.lt_succ_self _)⟩, fun _ => ?_, fun j hj => ?_⟩
  · exact { h.inv with
      word := hword
      counted := .inl hcount
      locked := fun _ ho => absurd ho nofun
      settings := fun _ => (h.pair ▸ h.asked : s.Asked s.settings) }
  · exact spares_of_owner h.owner (.inr rfl) hj

/-! ## 4. The controller -/

theorem compareExchange_then {α : Type} {Q : α → Night → Prop} {g : Word}
    {k : Bool → Code Night α} (hg : odd g = false) (h : Unlocked base (some i) s) (hp : s.Asked p)
    (hlost : ∀ s, Unlocked base (some i) s → s.Asked p →
      Code.Ok (Rely base (some i)) (Guarantee base (some i)) (fun _ _ => True) Q (k false) s)
    (hwon : ∀ s, Inside base i g p (fun _ => True) s →
      Code.Ok (Rely base (some i)) (Guarantee base (some i)) (fun _ _ => True) Q (k true) s) :
    Code.Ok (Rely base (some i)) (Guarantee base (some i)) (fun _ _ => True) Q
      (compareExchange i g >>= k) s := by
  refine Code.rmw_then (stable_unlocked.and stable_asked) ⟨h, hp⟩ fun s ⟨h, hp⟩ _ => ?_
  by_cases hgen : s.control.generation = g
  · subst hgen
    have hlock := lock_guarantees (i := i) h.1 hg
    simp only [if_true, decide_true]
    exact ⟨hlock, hwon _ ⟨hlock.inv h.1, rfl, rfl, hlock.asked hp, trivial⟩⟩
  · simp only [hgen, if_false, decide_false]
    exact ⟨.refl _ _ _, hlost s h hp⟩

/-- **The loop for the lock.** -/
theorem acquire_ok (attempts : Nat) (h : Unlocked base (some i) s) (hp : s.Asked p) :
    Code.Ok (Rely base (some i)) (Guarantee base (some i)) (fun _ _ => True)
      (fun got s => match got with
        | none => Unlocked base (some i) s
        | some g => Inside base i g p (fun _ => True) s) (acquire i attempts) s := by
  have hst : Code.Stable (Rely base (some i)) (Unlocked base (some i)) := stable_unlocked
  induction attempts generalizing s with
  | zero => exact Code.ok_ret hst h fun _ => id
  | succ attempts ih =>
    refine Code.load_then (.refl _ _) (hst.and stable_asked) ⟨h, hp⟩ fun s ⟨h, hp⟩ => ?_
    cases hodd : odd s.control.generation with
    | true => exact ih h hp
    | false =>
      refine compareExchange_then hodd h hp (fun s h hp => ih h hp) fun s h => ?_
      exact Code.ok_ret stable_inside h fun _ => id

/-- **The stores under the lock.** -/
theorem update_ok {g : Word} (h : Inside base i g p (fun _ => True) s) :
    Code.Ok (Rely base (some i)) (Guarantee base (some i)) (fun _ _ => True)
      (fun _ => Unlocked base (some i)) (update p g) s := by
  refine Code.store_then stable_inside h fun s h _ => ?_
  have hg := store_guarantees base h.owner (h.inv.locked i h.owner).1
    (f := fun c => { c with mode := p.mode }) fun _ => ⟨rfl, rfl, rfl⟩
  refine ⟨hg, Code.store_then (P := Inside base i g p fun q => q.mode = p.mode) stable_inside
    ⟨hg.inv h.inv, h.owner, h.word, hg.asked h.asked, rfl⟩ fun s h _ => ?_⟩
  have hg := store_guarantees base h.owner (h.inv.locked i h.owner).1
    (f := fun c => { c with threshold := p.threshold }) fun _ => ⟨rfl, rfl, rfl⟩
  refine ⟨hg, Code.store_then (P := Inside base i g p (· = p)) stable_inside
    ⟨hg.inv h.inv, h.owner, h.word, hg.asked h.asked, ?_⟩ fun s h _ => ?_⟩
  · exact congrArg (fun mode => (⟨mode, p.threshold⟩ : Settings)) h.pair
  · have hg := release_guarantees h
    exact ⟨hg, fun s' hr => stable_unlocked.star hr ⟨hg.inv h.inv, fun _ _ => nofun⟩⟩

/-- A thread of controller `i` that ends out of the lock. -/
def Keeps {α : Type} (base i : Nat) (c : Code Night α) (s : Night) : Prop :=
  Code.Ok (Rely base (some i)) (Guarantee base (some i)) (fun _ _ => True)
    (fun _ => Unlocked base (some i)) c s

theorem keeps_of_looks {α : Type} {c : Code Night α} (hc : c.Looks)
    (h : Unlocked base (some i) s) : Keeps base i c s :=
  hc.ok (.refl _ _) stable_unlocked h

/-- Out of the lock, with the pair to write asked for. -/
def Ready (base i : Nat) (cmd : Command) (s : Night) : Prop :=
  Unlocked base (some i) s ∧ ∀ p, cmd.writing = some p → s.Asked p

theorem stable_ready {cmd : Command} :
    Code.Stable (Rely base (some i)) (Ready base i cmd) :=
  stable_unlocked.and fun _ _ h hr p hp => hr.asked (h p hp)

theorem write_ok {cmd : Command} (out : Outside) (h : Ready base i cmd s) :
    Keeps base i (write i cmd out) s := by
  unfold write
  cases hcmd : cmd.writing with
  | none => exact keeps_of_looks (conclude_looks cmd out) h.1
  | some p =>
    refine Code.Ok.bind (acquire_ok 50 h.1 (h.2 p hcmd)) fun got s hgot => ?_
    cases got with
    | none => exact Code.ok_ret stable_unlocked hgot fun _ => id
    | some g =>
      exact Code.Ok.bind (update_ok hgot) fun _ s h => keeps_of_looks (conclude_looks cmd out) h

/-- The mapping is found valid. -/
theorem valid_ok {cmd : Command} (h : Ready base i cmd s) :
    Code.Ok (Rely base (some i)) (Guarantee base (some i)) (fun _ _ => True)
      (fun ok s => ok = true ∧ Ready base i cmd s) valid s := by
  refine Code.load_then (.refl _ _) stable_ready h fun s h => ?_
  rw [h.1.1.magic, if_neg (not_not_intro rfl)]
  refine Code.load_then (.refl _ _) stable_ready h fun s h => ?_
  rw [h.1.1.version]
  exact Code.ok_ret stable_ready h fun _ h => ⟨rfl, h⟩

theorem mapped_ok {cmd : Command} (out : Outside) (h : Ready base i cmd s) :
    Keeps base i (mapped i cmd out) s := by
  refine Code.Ok.bind (valid_ok h) fun ok s ⟨hok, h⟩ => ?_
  rw [hok]
  exact write_ok out h

theorem openFile_ok {cmd : Command} (out : Outside) (h : Ready base i cmd s) :
    Keeps base i (openFile i cmd out) s := by
  refine Code.rmw_then stable_ready h fun s h _ => ?_
  have hsame : (if cmd.initializing then { s with present := true } else s) = s := by
    have := h.1.1.present
    split
    · rw [← this]
    · rfl
  rw [hsame, h.1.1.present]
  refine ⟨.refl _ _ _, Code.load_then (Guarantee.refl _ _) stable_ready h fun s h => ?_⟩
  rw [h.1.1.sized]
  exact mapped_ok out h

/-- **A controller**, on a mapping that is initialised. -/
theorem control_ok (cmd : Command) (out : Outside) (h : Unlocked base (some i) s) :
    Keeps base i (control i cmd out) s := by
  refine Code.store_then stable_unlocked h fun s h _ => ?_
  have hg := ask_guarantees base (some i) s cmd.writing.toList
  refine ⟨hg, openFile_ok out ⟨⟨hg.inv h.1, h.2⟩, fun p hp => ?_⟩⟩
  exact .inr (List.mem_append_left _ (by rw [hp]; exact List.mem_singleton_self p))

theorem nightvisionctl_ok (argv : List Bytes) (out : Outside) (h : Unlocked base (some i) s) :
    Keeps base i (nightvisionctl i argv out) s := by
  unfold nightvisionctl
  cases parseArgs argv with
  | none => exact Code.ok_ret stable_unlocked h fun _ => id
  | some cmd => exact control_ok cmd out h

/-! ## 5. The reader -/

/-- The reader began where the count was `start` and `began` updates were completed. -/
structure Began (base start began : Nat) (seen : Settings → Prop) (s : Night) : Prop where
  inv : Inv base s
  reading : Reading start seen s.count s.settings
  atLeast : base + 2 * began ≤ start

theorem stable_began {start began : Nat} {seen : Settings → Prop} (heven : start % 2 = 0) :
    Code.Stable (Rely base none) (Began base start began seen) :=
  fun _ _ h hr => ⟨hr.inv, h.reading.quiet heven hr.quiet, h.atLeast⟩

/-- **The reader finds its generation again**: then it saw one pair, and that was asked for. -/
theorem Began.asked {start began : Nat} (heven : start % 2 = 0)
    (h : Began base start began (· = p) s) (hword : BitVec.ofNat 32 start = s.control.generation)
    (hfew : s.updates - began < 2 ^ 31) : s.Asked p := by
  have hlt : s.count < start + 2 ^ 32 := by
    have := h.inv.counted
    have := h.atLeast
    omega
  obtain ⟨hcount, hpair⟩ := h.reading.found hlt (hword.trans h.inv.word)
  exact hpair ▸ h.inv.settings (hcount ▸ heven)

/-- The pair is taken over. -/
theorem adopt_guarantees (a : Adoption) (ha : a.ended - a.began < 2 ^ 31 → s.Asked a.settings) :
    Guarantee base none s { s with adopted := a :: s.adopted } where
  requested _ := id
  quiet := .refl _ _
  inv h := { h with
    adopted := fun b hb hlt => by
      rcases List.mem_cons.mp hb with rfl | hb
      · exact ha hlt
      · exact h.adopted b hb hlt }
  others _ _ := .of_eq rfl rfl rfl

/-- **`read_settings`.** -/
theorem readSettings_ok (attempts : Nat) (h : Inv base s) :
    Code.Ok (Rely base none) (Guarantee base none) (fun _ _ => True) (fun _ => Idle none)
      (readSettings attempts) s := by
  have hend : ∀ s : Night, Idle none s := fun _ _ h => absurd h nofun
  induction attempts generalizing s with
  | zero => exact fun s' _ => hend s'
  | succ attempts ih =>
    refine Code.load_then (.refl _ _) stable_inv h fun s h => ?_
    cases hodd : odd s.control.generation with
    | true => exact ih h
    | false =>
      have heven : s.count % 2 = 0 := even_of_not_odd (h.word ▸ hodd)
      have hbegan : Began base s.count s.updates (fun _ => True) s :=
        ⟨h, .begin _ _, by have := h.counted; omega⟩
      have hword := h.word
      generalize s.count = start at heven hbegan hword
      refine Code.load_then (.refl _ _) (stable_began heven) hbegan fun t ht => ?_
      refine Code.load_then (P := Began base start s.updates fun q => True ∧ q.mode = t.control.mode)
        (.refl _ _) (stable_began heven) ⟨ht.inv, ht.reading.look (·.mode), ht.atLeast⟩ fun u hu => ?_
      refine Code.load_then
        (P := Began base start s.updates (· = ⟨t.control.mode, u.control.threshold⟩))
        (.refl _ _) (stable_began heven) ⟨hu.inv, (hu.reading.look (·.threshold)).mono fun hq => ?_, hu.atLeast⟩ fun v hv => ?_
      · exact congrArg₂ Settings.mk hq.1.2 hq.2
      · generalize (⟨t.control.mode, u.control.threshold⟩ : Settings) = q at *
        split
        · exact ih hv.inv
        · next hsame =>
          obtain ⟨hfirst, -⟩ := not_or.mp hsame
          have hasked := fun hfew => hv.asked heven (hword.symm.trans (not_not.mp hfirst)) hfew
          refine Code.ok_rmw (P := fun w => Inv base w ∧ (v.updates - _ < 2 ^ 31 → w.Asked q))
            (stable_inv.and fun _ _ h hr hfew => hr.asked (h hfew)) ⟨hv.inv, hasked⟩ ?_
          exact fun w hw _ => ⟨adopt_guarantees _ hw.2, fun w' _ => hend w'⟩

/-! ## 6. Any interleaving -/

theorem system_sound (base : Nat) :
    Sound system (Rely base) (Guarantee base) (fun _ _ _ => True) (Inv base) Idle where
  other i j hij s s' hinv hg := ⟨hg.toMoves, hg.inv hinv, fun k hk => hg.others k (hk ▸ hij)⟩
  keeps i s s' hinv hg := hg.inv hinv
  idle i := stable_idle
  call i x c hc s hinv hidle := by
    match i, x with
    | none, .readSettings =>
      cases hc
      exact readSettings_ok 4 hinv
    | some me, .control argv out =>
      cases hc
      exact Code.Ok.bind (nightvisionctl_ok argv out ⟨hinv, hidle⟩)
        fun _ s h => Code.ok_ret stable_idle h.2 fun _ => id
    | none, .control _ _ => exact absurd hc nofun
    | some _, .readSettings => exact absurd hc nofun
  bury i s hinv := by
    simp only [system]
    split
    · next howner =>
      refine ⟨{ hinv with locked := fun _ h => absurd h nofun }, fun _ _ => nofun, fun j hj => ?_⟩
      refine ⟨⟨fun _ => id, .refl _ _⟩, { hinv with locked := fun _ h => absurd h nofun },
        fun k hk => ?_⟩
      have hne : s.owner ≠ some k := fun h => hj (hk.trans (h.symm.trans howner))
      exact ⟨⟨fun h => absurd h nofun, fun h => absurd h hne⟩, fun h => absurd h hne⟩
    · next howner =>
      refine ⟨hinv, fun k hk h => howner (h.trans hk.symm), fun j _ => ?_⟩
      exact ⟨Moves.refl s, hinv, fun k _ => Spares.refl k s⟩

/-- **Settings are adopted whole.** From an initialised control block, whatever controllers and the
    reader do in any order and wherever controllers are killed: a pair the reader makes active, with
    fewer than 2^31 updates completed meanwhile, is the default pair or the one a controller was
    called with. -/
theorem settings_adopted_whole (s : Night) (hs : Initialised s)
    (es : List (Event (Option Nat) Call)) (a : Adoption)
    (ha : a ∈ (run system.step (Machine.idle s) es).memory.adopted)
    (hfew : a.ended - a.began < 2 ^ 31) :
    a.settings = ⟨NV_AUTO, 50#32⟩ ∨
      a.settings ∈ (run system.step (Machine.idle s) es).memory.requested := by
  have hidle : ∀ i, Idle i s := fun i k _ => by rw [hs.owner]; exact nofun
  exact ((system_sound _).every_run hs.inv hidle es).adopted a ha hfew

/-- A block as the first `--init` leaves it. -/
def sampleNight : Night where
  present := true
  sized := true
  control := ⟨NV_MAGIC, NV_VERSION, 0, NV_AUTO, 50, 0, 0, 0, 0, -1, -1, -1⟩
  requested := []
  owner := none
  count := 0
  updates := 0
  adopted := []

/-- `--set on 60`, and the camera's next look. -/
def sampleEvents : List (Event (Option Nat) Call) :=
  .call (some 0) (.control [ascii "--set", ascii "on", ascii "60"] ⟨fun _ => true, 0⟩) ::
    List.replicate 10 (.step (some 0)) ++ .call none .readSettings :: List.replicate 5 (.step none)

/-- The pair taken over is the one asked for. -/
theorem settings_adopted_once :
    (⟨NV_ON, 60#32⟩ : Settings) = ⟨NV_AUTO, 50#32⟩ ∨ ⟨NV_ON, 60#32⟩ ∈
      (run system.step (Machine.idle sampleNight) sampleEvents).memory.requested :=
  settings_adopted_whole sampleNight ⟨rfl, rfl, rfl, rfl, rfl, rfl, rfl, rfl, rfl, rfl⟩ sampleEvents
    ⟨⟨NV_ON, 60#32⟩, 2#32, 1, 1⟩ (by decide) (by decide)

end YiHack.Nightvision
