/-
  File:      YiHack/Iva/Exclusion.lean
  Subject:   One controller at a time, and masks adopted whole, as long as no word is set back under
             a live controller.

  A controller with the lock may rely on word and mask staying as they are; the detector may rely
  on the mask being the one it began at unless it was altered, and on the word then being another
  one (`Inv.reading`).

  * `acquire_ok`, `update_ok` -- a controller's way through the lock;
  * `attempt_ok` -- the detector;
  * **`controllers_exclude`** -- over every run whose steps are heedful;
  * `recovery_breaks_in` -- two live controllers, both with the lock.
-/
import YiHack.Iva.Control

namespace YiHack.Iva

open General

/-! ## 1. The invariant -/

structure Inv (s : Shared) : Prop where
  alone : s.holders = [] ∨ ∃ i, s.holders = [i] ∧ odd s.configGeneration = true
  unsized : s.size ≠ some MOTION_IVA_SIZE → s.configGeneration = 0 ∧ s.settings = Block.blank
  settled : odd s.configGeneration = false → s.configGeneration ≠ 0 → s.settings ∈ s.written
  reading : ∀ r ∈ s.reading, odd r.1 = false ∧ r.1 ≠ 0 ∧
    (r.2 ≠ s.alterations → s.configGeneration ≠ r.1)
  adopted : ∀ b ∈ s.adopted, b ∈ s.written

theorem Fresh.inv {s : Shared} (h : Fresh s) : Inv s where
  alone := .inl h.holders
  unsized hs := ⟨h.generation, h.unsized hs⟩
  settled _ h0 := absurd h.generation h0
  reading r hr := absurd hr (by rw [h.reading]; exact nofun)
  adopted b hb := absurd hb (by rw [h.adopted]; exact List.not_mem_nil)

/-- What a step leaves controller `i`: the lock, and the word and the mask under it. -/
def Spares (i : Nat) (s s' : Shared) : Prop :=
  (i ∈ s'.holders ↔ i ∈ s.holders) ∧ (i ∈ s.holders → s'.configGeneration = s.configGeneration ∧
    s'.settings = s.settings ∧ s'.alterations = s.alterations)

/-- What everybody leaves everybody: masks that were written, and the mask that is not altered. -/
structure Moves (s s' : Shared) : Prop where
  sized : s.size = some MOTION_IVA_SIZE → s'.size = some MOTION_IVA_SIZE
  written : ∀ b ∈ s.written, b ∈ s'.written
  quiet : Quiet (2 * s.alterations) s.settings (2 * s'.alterations) s'.settings

/-- What `me` relies on. -/
structure Rely (me : Option Nat) (s s' : Shared) : Prop extends Moves s s' where
  inv : Inv s'
  reading : me = none → s'.reading = s.reading
  mine : ∀ i, me = some i → Spares i s s'

/-- What `me` guarantees. -/
structure Guarantee (me : Option Nat) (s s' : Shared) : Prop extends Moves s s' where
  inv : Inv s → Inv s'
  reading : me ≠ none → s'.reading = s.reading
  others : ∀ i, me ≠ some i → Spares i s s'

/-- `me` does not have the lock. -/
def Idle (me : Option Nat) (s : Shared) : Prop := ∀ i, me = some i → i ∉ s.holders

variable {me : Option Nat} {i : Nat} {s s' : Shared} {p : Block}

theorem Spares.refl (i : Nat) (s : Shared) : Spares i s s := ⟨Iff.rfl, fun _ => ⟨rfl, rfl, rfl⟩⟩

/-- A step that leaves lock, word and mask alone. -/
theorem Spares.of_eq (hholders : s'.holders = s.holders)
    (hword : s'.configGeneration = s.configGeneration) (hsettings : s'.settings = s.settings)
    (halt : s'.alterations = s.alterations) : Spares i s s' :=
  ⟨by rw [hholders], fun _ => ⟨hword, hsettings, halt⟩⟩

theorem Moves.refl (s : Shared) : Moves s s := ⟨id, fun _ => id, .refl _ _⟩

theorem Moves.of_eq (hsize : s'.size = s.size) (hwritten : ∀ b ∈ s.written, b ∈ s'.written)
    (hsettings : s'.settings = s.settings) (halt : s'.alterations = s.alterations) : Moves s s' :=
  ⟨fun h => hsize.trans h, hwritten, by rw [hsettings, halt]; exact .refl _ _⟩

theorem Guarantee.refl (me : Option Nat) (s : Shared) : Guarantee me s s :=
  ⟨Moves.refl s, id, fun _ => rfl, fun i _ => Spares.refl i s⟩

/-- Where nobody has the lock, no step takes it from anybody. -/
theorem Spares.of_free (h : s.holders = []) (h' : i ∉ s'.holders) : Spares i s s' := by
  have hi : i ∉ s.holders := by rw [h]; exact List.not_mem_nil
  exact ⟨⟨fun hm => absurd hm h', fun hm => absurd hm hi⟩, fun hm => absurd hm hi⟩

/-! ## 2. What the others keep -/

theorem stable_inv : Code.Stable (Rely me) Inv := fun _ _ _ hr => hr.inv

theorem stable_idle : Code.Stable (Rely me) (Idle me) :=
  fun _ _ h hr i hi hm => h i hi ((hr.mine i hi).1.mp hm)

/-- `me` is out of the lock. -/
def Unlocked (me : Option Nat) (s : Shared) : Prop := Inv s ∧ Idle me s

/-- Out of the lock, with a mapping of the whole file. -/
def Ready (me : Option Nat) (s : Shared) : Prop := Unlocked me s ∧ s.size = some MOTION_IVA_SIZE

theorem stable_unlocked : Code.Stable (Rely me) (Unlocked me) := stable_inv.and stable_idle

theorem stable_ready : Code.Stable (Rely me) (Ready me) :=
  stable_unlocked.and fun _ _ h hr => hr.sized h

/-- `i` has the lock since the generation `g`, and `F` holds of the mask and of the alterations. -/
structure Inside (i : Nat) (g : Word) (F : Block → Nat → Prop) (s : Shared) : Prop where
  inv : Inv s
  sized : s.size = some MOTION_IVA_SIZE
  holds : i ∈ s.holders
  even : odd g = false
  word : s.configGeneration = g + 1#32
  mask : F s.settings s.alterations

theorem stable_inside {g : Word} {F : Block → Nat → Prop} :
    Code.Stable (Rely (some i)) (Inside i g F) := by
  intro s s' h hr
  obtain ⟨hholds, hkept⟩ := hr.mine i rfl
  obtain ⟨hword, hsettings, halt⟩ := hkept h.holds
  exact ⟨hr.inv, hr.sized h.sized, hholds.mpr h.holds, h.even, hword.trans h.word, by rw [hsettings, halt]; exact h.mask⟩

theorem Inside.mono {g : Word} {F F' : Block → Nat → Prop} (h : Inside i g F s)
    (hF : ∀ b n, F b n → F' b n) : Inside i g F' s :=
  ⟨h.inv, h.sized, h.holds, h.even, h.word, hF _ _ h.mask⟩

/-- Who has the lock has it alone. -/
theorem Inv.holder (h : Inv s) (hi : i ∈ s.holders) :
    s.holders = [i] ∧ odd s.configGeneration = true := by
  rcases h.alone with h0 | ⟨j, hj, hodd⟩
  · rw [h0] at hi
    exact absurd hi List.not_mem_nil
  · rw [hj, List.mem_singleton] at hi
    exact ⟨by rw [hj, hi], hodd⟩

/-- An even word is free. -/
theorem Inv.free (h : Inv s) (heven : odd s.configGeneration = false) : s.holders = [] := by
  rcases h.alone with h0 | ⟨j, -, hodd⟩
  · exact h0
  · rw [heven] at hodd
    exact absurd hodd nofun

theorem notMem_of_holder {j : Nat} (hj : some i ≠ some j) : j ∉ [i] := by
  rw [List.mem_singleton]
  exact fun h => hj (congrArg some h.symm)

/-! ## 3. The actions -/

/-- The lock is taken. -/
theorem lock_guarantees (h : Ready me s) (heven : odd s.configGeneration = false) :
    Guarantee (some i) s (s.lock i s.configGeneration) := by
  have hfree := h.1.1.free heven
  have hodd : odd (s.configGeneration + 1#32) = true := by rw [odd_add_one, heven]; rfl
  refine ⟨.of_eq rfl (fun _ => id) rfl rfl, fun hinv => ?_, fun _ => rfl,
    fun j hj => .of_free hfree ?_⟩
  · exact { hinv with
      alone := .inr ⟨i, by show i :: s.holders = [i]; rw [hfree], hodd⟩
      unsized := fun hs => absurd h.2 hs
      settled := fun he _ => absurd rfl (ne_of_odd hodd he)
      reading := fun r hr => by
        obtain ⟨hr1, hr0, -⟩ := hinv.reading r hr
        exact ⟨hr1, hr0, fun _ => ne_of_odd hodd hr1⟩ }
  · show j ∉ i :: s.holders
    rw [hfree]
    exact notMem_of_holder hj

/-- The word is set back, nobody having the lock. -/
theorem setBack_guarantees (hfree : s.holders = []) : Guarantee (some i) s s.setBack := by
  refine ⟨.of_eq rfl (fun _ => id) rfl rfl, fun hinv => ?_, fun _ => rfl,
    fun j _ => .of_free hfree ?_⟩
  · exact { hinv with
      alone := .inl hfree
      unsized := fun hs => ⟨rfl, (hinv.unsized hs).2⟩
      settled := fun _ h0 => absurd rfl h0
      reading := fun r hr => by
        obtain ⟨hr1, hr0, -⟩ := hinv.reading r hr
        exact ⟨hr1, hr0, fun _ => hr0.symm⟩ }
  · show j ∉ s.holders
    rw [hfree]
    exact List.not_mem_nil

/-- A byte is stored under the lock. -/
theorem alter_guarantees {g : Word} {F : Block → Nat → Prop} (h : Inside i g F s) (k : Fin 244)
    (b : UInt8) : Guarantee (some i) s (s.alter k b) := by
  obtain ⟨hholders, hodd⟩ := h.inv.holder h.holds
  have hquiet : Quiet (2 * s.alterations) s.settings (2 * (s.alter k b).alterations)
      (s.alter k b).settings := by
    simp only [Shared.alter]
    split
    · next hb =>
      rw [← hb, Function.update_eq_self]
      exact .refl _ _
    · exact .of_lt (by omega)
  refine ⟨⟨id, fun _ => id, hquiet⟩, fun hinv => ?_, fun _ => rfl, fun j hj => ?_⟩
  · exact { hinv with
      unsized := fun hs => absurd h.sized hs
      settled := fun he _ => absurd rfl (ne_of_odd hodd he)
      reading := fun r hr => by
        obtain ⟨hr1, hr0, -⟩ := hinv.reading r hr
        exact ⟨hr1, hr0, fun _ => ne_of_odd hodd hr1⟩ }
  · have hj : j ∉ s.holders := by rw [hholders]; exact notMem_of_holder hj
    exact ⟨Iff.rfl, fun hm => absurd hm hj⟩

/-- The lock is given back with the mask in place, heedfully. -/
theorem release_guarantees {g g' : Word} (h : Inside i g (fun b _ => b = p) s)
    (hg' : odd g' = false) (hheed : Heedful s (s.release i p g')) :
    Guarantee (some i) s (s.release i p g') := by
  obtain ⟨hholders, hodd⟩ := h.inv.holder h.holds
  have hfree : s.holders.erase i = [] := by rw [hholders, List.erase_cons_head]
  refine ⟨.of_eq rfl (fun _ => List.mem_cons_of_mem p) rfl rfl, fun hinv => ?_, fun _ => rfl,
    fun j hj => ?_⟩
  · exact { hinv with
      alone := .inl hfree
      unsized := fun hs => absurd h.sized hs
      settled := fun _ _ => by
        show s.settings ∈ p :: s.written
        rw [h.mask]
        exact List.mem_cons_self
      reading := fun r hr => by
        obtain ⟨hr1, hr0, -⟩ := hinv.reading r hr
        exact ⟨hr1, hr0, fun halt => hheed.2 r hr halt (ne_of_odd hodd hg').symm⟩
      adopted := fun b hb => List.mem_cons_of_mem p (hinv.adopted b hb) }
  · have hs : j ∉ s.holders := by rw [hholders]; exact notMem_of_holder hj
    have hs' : j ∉ s.holders.erase i := by rw [hfree]; exact List.not_mem_nil
    exact ⟨⟨fun hm => absurd hm hs', fun hm => absurd hm hs⟩, fun hm => absurd hm hs⟩

/-! ## 4. The controller -/

/-- A thread in slot `me`. -/
abbrev Does {α : Type} (me : Option Nat) (Q : α → Shared → Prop) (c : Code Shared α)
    (s : Shared) : Prop :=
  Code.Ok (Rely me) (Guarantee me) Heedful Q c s

/-- A step on what neither the invariant nor anybody else looks at. -/
theorem guarantee_of_eq (hsize : s'.size = s.size) (hword : s'.configGeneration = s.configGeneration)
    (hsettings : s'.settings = s.settings) (hholders : s'.holders = s.holders)
    (hwritten : s'.written = s.written) (halt : s'.alterations = s.alterations)
    (hreading : s'.reading = s.reading) (hadopted : s'.adopted = s.adopted) :
    Guarantee me s s' where
  toMoves := .of_eq hsize (fun b hb => hwritten ▸ hb) hsettings halt
  inv h :=
    { alone := by rw [hholders, hword]; exact h.alone
      unsized := by rw [hsize, hword, hsettings]; exact h.unsized
      settled := by rw [hword, hsettings, hwritten]; exact h.settled
      reading := by rw [hreading, halt, hword]; exact h.reading
      adopted := by rw [hadopted, hwritten]; exact h.adopted }
  reading _ := hreading
  others _ _ := .of_eq hholders hword hsettings halt

theorem recover_ok (init : Bool) (alive : Word → Bool) (generation pid : Word)
    (h : Ready (some i) s) :
    Does (some i) (fun _ => Ready (some i)) (recover init alive generation pid) s := by
  unfold recover
  split
  · refine Code.ok_rmw stable_ready h fun s h hheed => ?_
    have hfree : s.holders = [] := hheed.1 (Nat.succ_ne_self _)
    have hg := setBack_guarantees (i := i) hfree
    exact ⟨hg, fun s' hr => stable_ready.star hr ⟨⟨hg.inv h.1.1, h.1.2⟩, h.2⟩⟩
  · exact Code.ok_ret stable_ready h fun _ => id

theorem compareExchange_then {α : Type} {Q : α → Shared → Prop} {g : Word}
    {k : Bool → Code Shared α} (hg : odd g = false) (h : Ready (some i) s)
    (hlost : ∀ s, Ready (some i) s → Does (some i) Q (k false) s)
    (hwon : ∀ s, Inside i g (fun _ _ => True) s → Does (some i) Q (k true) s) :
    Does (some i) Q (compareExchange i g >>= k) s := by
  refine Code.rmw_then stable_ready h fun s h _ => ?_
  by_cases hgen : s.configGeneration = g
  · subst hgen
    have hlock := lock_guarantees (i := i) h hg
    simp only [if_true, decide_true]
    exact ⟨hlock, hwon _ ⟨hlock.inv h.1.1, h.2, List.mem_cons_self, hg, rfl, trivial⟩⟩
  · simp only [hgen, if_false, decide_false]
    exact ⟨.refl _ _, hlost s h⟩

/-- **The loop for the lock.** -/
theorem acquire_ok (attempts : Nat) (h : Ready (some i) s) :
    Does (some i) (fun got s => match got with
      | none => Ready (some i) s
      | some g => Inside i g (fun _ _ => True) s) (acquire i attempts) s := by
  induction attempts generalizing s with
  | zero => exact Code.ok_ret stable_ready h fun _ => id
  | succ attempts ih =>
    refine Code.load_then (.refl _) stable_ready h fun s h => ?_
    cases hodd : odd s.configGeneration with
    | true => exact ih h
    | false =>
      refine compareExchange_then hodd h (fun s h => ih h) fun s h => ?_
      exact Code.ok_ret stable_inside h fun _ => id

/-- The mask copied byte by byte, should it not be altered meanwhile. -/
theorem copy_ok {P : Shared → Prop} {n : Nat} (hP : Code.Stable (Rely me) P)
    (hR : ∀ s s', P s → Rely me s s' →
      Quiet (2 * s.alterations) s.settings (2 * s'.alterations) s'.settings) (hs : P s)
    (hn : 2 * n ≤ 2 * s.alterations) :
    Does me (fun copy s => P s ∧ Reading (2 * n) (fun b => copy = b) (2 * s.alterations) s.settings)
      (gather (·.settings) bytes Block.blank) s :=
  ok_copy (by omega) (.refl me) hP hR hs List.mem_finRange Block.blank hn

/-- The answer of `memcmp` under the lock. -/
theorem memcmp_ok {g : Word} (h : Inside i g (fun _ _ => True) s) :
    Does (some i) (fun equal => Inside i g fun b _ => equal = true → b = p) (memcmp p) s := by
  have hn : Inside i g (fun _ n => n = s.alterations) s :=
    ⟨h.inv, h.sized, h.holds, h.even, h.word, rfl⟩
  refine Code.Ok.bind (copy_ok stable_inside (fun _ _ _ hr => hr.quiet) hn le_rfl)
    fun copy t ⟨hin, hcopy⟩ => ?_
  have hsame : copy = t.settings := hcopy.same (by rw [hin.mask])
  have hF : Inside i g (fun b _ => b = copy) t :=
    ⟨hin.inv, hin.sized, hin.holds, hin.even, hin.word, hsame.symm⟩
  refine Code.ok_ret stable_inside hF fun u hu => hu.mono fun b _ hb hequal => ?_
  refine hb.trans (funext fun k => ?_)
  exact eq_of_beq (List.all_eq_true.mp hequal k (List.mem_finRange k))

/-- The bytes behind `ks` are in place. -/
theorem stores_ok {g : Word} (ks : List (Fin 244))
    (h : Inside i g (fun b _ => ∀ k, k ∉ ks → b k = p k) s) :
    Does (some i) (fun _ => Inside i g fun b _ => b = p)
      (Code.stores (ks.map fun k => Shared.alter k (p k))) s := by
  induction ks generalizing s with
  | nil =>
    refine Code.ok_ret stable_inside h fun s h => h.mono fun b _ hb => funext fun k => ?_
    exact hb k List.not_mem_nil
  | cons k ks ih =>
    refine Code.store_then stable_inside h fun s h _ => ?_
    have hg := alter_guarantees h k (p k)
    refine ⟨hg, ih ⟨hg.inv h.inv, h.sized, h.holds, h.even, h.word, fun j hj => ?_⟩⟩
    show Function.update s.settings k (p k) j = p j
    by_cases hjk : j = k
    · subst hjk
      exact Function.update_self ..
    · rw [Function.update_of_ne hjk]
      exact h.mask j fun hm => (List.mem_cons.mp hm).elim hjk hj

/-- **The stores under the lock.** -/
theorem update_ok {g : Word} (h : Inside i g (fun _ _ => True) s) :
    Does (some i) (fun _ => Ready (some i)) (update i p g) s := by
  have hrelease : ∀ g' s, odd g' = false → Inside i g (fun b _ => b = p) s →
      Does (some i) (fun _ => Ready (some i)) (Code.store (Shared.release i p g')) s := by
    intro g' s hg' h
    refine Code.ok_rmw stable_inside h fun s h hheed => ?_
    have hg := release_guarantees h hg' hheed
    have hfree : i ∉ s.holders.erase i := by
      rw [(h.inv.holder h.holds).1, List.erase_cons_head]
      exact List.not_mem_nil
    refine ⟨hg, fun s' hr => stable_ready.star hr ⟨⟨hg.inv h.inv, fun j hj => ?_⟩, h.sized⟩⟩
    cases hj
    exact hfree
  have hcompare : Does (some i) (fun equal => Inside i g fun b _ => equal = true → b = p)
      (compare p g) s := by
    unfold compare
    split
    · exact Code.ok_ret stable_inside h fun s h => h.mono fun _ _ _ => nofun
    · exact memcmp_ok h
  refine Code.Ok.bind hcompare fun equal s h => ?_
  cases equal with
  | true => exact hrelease g s h.even (h.mono fun _ _ hb => hb rfl)
  | false =>
    have hall : Inside i g (fun b _ => ∀ k, k ∉ bytes → b k = p k) s :=
      h.mono fun _ _ _ k hk => absurd (List.mem_finRange k) hk
    refine Code.Ok.bind (stores_ok bytes hall) fun _ s h => ?_
    exact hrelease _ s (by rw [odd_add_two]; exact h.even) h

theorem write_ok (r : Request) (alive : Word → Bool) (h : Ready (some i) s) :
    Does (some i) (fun _ => Unlocked (some i)) (write i r alive) s := by
  refine Code.load_then (.refl _) stable_ready h fun s h => ?_
  refine Code.load_then (.refl _) stable_ready h fun s h => ?_
  refine Code.Ok.bind (recover_ok _ _ _ _ h) fun _ s h => ?_
  refine Code.Ok.bind (acquire_ok 50 h) fun got s hgot => ?_
  cases got with
  | none => exact Code.ok_ret stable_unlocked hgot.1 fun _ => id
  | some g =>
    exact Code.Ok.bind (update_ok hgot) fun _ s h => Code.ok_ret stable_unlocked h.1 fun _ => id

theorem checked_ok (r : Request) (alive : Word → Bool) (h : Ready (some i) s) :
    Does (some i) (fun _ => Unlocked (some i)) (checked i r alive) s := by
  refine Code.load_then (.refl _) stable_ready h fun s h => ?_
  refine Code.load_then (.refl _) stable_ready h fun t h => ?_
  split
  · exact write_ok r alive h
  · exact Code.ok_ret stable_unlocked h.1 fun _ => id

theorem mapped_ok (r : Request) (alive : Word → Bool) (h : Ready (some i) s) :
    Does (some i) (fun _ => Unlocked (some i)) (mapped i r alive) s := by
  refine Code.load_then (.refl _) stable_ready h fun s h => ?_
  split
  · refine Code.store_then stable_ready h fun s h _ => ?_
    have hg : Guarantee (some i) s { s with version := MOTION_IVA_VERSION } :=
      guarantee_of_eq rfl rfl rfl rfl rfl rfl rfl rfl
    refine ⟨hg, Code.store_then stable_ready ⟨⟨hg.inv h.1.1, h.1.2⟩, h.2⟩ fun s h _ => ?_⟩
    have hg : Guarantee (some i) s { s with magic := MOTION_IVA_MAGIC } :=
      guarantee_of_eq rfl rfl rfl rfl rfl rfl rfl rfl
    exact ⟨hg, checked_ok r alive ⟨⟨hg.inv h.1.1, h.1.2⟩, h.2⟩⟩
  · exact checked_ok r alive h

/-- The file gets its size. -/
theorem truncate_guarantees (h : Inv s) : Guarantee (some i) s (truncate s) := by
  unfold truncate
  split
  · exact .refl _ _
  · next hs =>
    obtain ⟨hword, hsettings⟩ := h.unsized hs
    have hfree : s.holders = [] := h.free (by rw [hword]; rfl)
    refine ⟨⟨fun h => absurd h hs, fun _ => id, ?_⟩, fun _ => ?_, fun _ => rfl, fun j _ => ?_⟩
    · rw [hsettings]
      exact .refl _ _
    · exact { h with
        alone := .inl hfree
        unsized := fun hs' => absurd rfl hs'
        settled := fun _ h0 => absurd rfl h0
        reading := fun r hr => ⟨(h.reading r hr).1, (h.reading r hr).2.1,
          fun _ => (h.reading r hr).2.1.symm⟩ }
    · exact .of_eq rfl hword.symm hsettings.symm rfl

theorem truncate_sized (s : Shared) : (truncate s).size = some MOTION_IVA_SIZE := by
  unfold truncate
  split
  · assumption
  · rfl

theorem truncate_holders (s : Shared) : (truncate s).holders = s.holders := by
  unfold truncate
  split <;> rfl

theorem resize_ok (r : Request) (alive : Word → Bool) (h : Unlocked (some i) s) :
    Does (some i) (fun _ => Unlocked (some i)) (resize i r alive) s := by
  refine Code.load_then (P := fun t => Unlocked (some i) t) (.refl _) stable_unlocked h
    fun s h => ?_
  split
  · next hs => exact mapped_ok r alive ⟨h, hs⟩
  · split
    · refine Code.store_then stable_unlocked h fun s h _ => ?_
      have hg := truncate_guarantees (i := i) h.1
      refine ⟨hg, mapped_ok r alive ⟨⟨hg.inv h.1, fun j hj => ?_⟩, truncate_sized s⟩⟩
      rw [truncate_holders]
      exact h.2 j hj
    · exact Code.ok_ret stable_unlocked h fun _ => id

/-- The file is created, or was there. -/
theorem create_guarantees (s : Shared) :
    Guarantee (some i) s { s with size := some (s.size.getD 0) } := by
  have hsize : ∀ n, s.size = some n → some (s.size.getD 0) = some n := fun n h => by rw [h]; rfl
  refine ⟨⟨hsize _, fun _ => id, .refl _ _⟩, fun h => ?_, fun _ => rfl, fun _ _ => .of_eq rfl rfl rfl rfl⟩
  exact { h with unsized := fun hs => h.unsized fun hn => hs (hsize _ hn) }

/-- **A controller.** -/
theorem motionIvactl_ok (argv : List Bytes) (alive : Word → Bool) (h : Unlocked (some i) s) :
    Does (some i) (fun _ => Unlocked (some i)) (motionIvactl i argv alive) s := by
  unfold motionIvactl
  cases parseArgs argv with
  | none => exact Code.ok_ret stable_unlocked h fun _ => id
  | some r =>
    refine Code.rmw_then stable_unlocked h fun s h _ => ?_
    have hg : Guarantee (some i) s
        (if r.init then { s with size := some (s.size.getD 0) } else s) := by
      split
      · exact create_guarantees s
      · exact .refl _ _
    have hholders : (if r.init then { s with size := some (s.size.getD 0) } else s).holders =
        s.holders := by split <;> rfl
    have h' : Unlocked (some i) (if r.init then { s with size := some (s.size.getD 0) } else s) :=
      ⟨hg.inv h.1, fun j hj => by rw [hholders]; exact h.2 j hj⟩
    refine ⟨hg, ?_⟩
    split
    · exact resize_ok r alive h'
    · exact Code.ok_ret stable_unlocked h' fun _ => id

/-! ## 5. The detector -/

theorem idle_none (s : Shared) : Idle none s := fun _ h => absurd h nofun

/-- The attempt began at `first`, with `n` alterations until then. -/
def Begun (first : Word) (n : Nat) (s : Shared) : Prop := Inv s ∧ s.reading = some (first, n)

theorem stable_begun {first : Word} {n : Nat} : Code.Stable (Rely none) (Begun first n) :=
  fun _ _ h hr => ⟨hr.inv, (hr.reading rfl).trans h.2⟩

theorem begin_guarantees (s : Shared) : Guarantee none s s.begin := by
  refine ⟨.of_eq rfl (fun _ => id) rfl rfl, fun h => ?_, fun h => absurd rfl h,
    fun _ _ => .of_eq rfl rfl rfl rfl⟩
  refine { h with reading := fun r hr => ?_ }
  simp only [Shared.begin] at hr
  split at hr
  · exact absurd hr nofun
  · next hnew =>
    cases hr
    simp only [Shared.nothingNew, Bool.or_eq_true, not_or, Bool.not_eq_true, beq_eq_false_iff_ne]
      at hnew
    exact ⟨hnew.1.2, hnew.1.1, fun h => absurd rfl h⟩

/-- The attempt is over. -/
theorem end_guarantees (s : Shared) : Guarantee none s { s with reading := none } :=
  ⟨.of_eq rfl (fun _ => id) rfl rfl, fun h => { h with reading := fun _ hr => absurd hr nofun },
    fun h => absurd rfl h, fun _ _ => .of_eq rfl rfl rfl rfl⟩

theorem adopt_guarantees {first : Word} (hp : p ∈ s.written) :
    Guarantee none s (s.adopt p first) := by
  refine ⟨.of_eq rfl (fun _ => id) rfl rfl, fun h => ?_, fun _ => rfl,
    fun _ _ => .of_eq rfl rfl rfl rfl⟩
  exact { h with
    adopted := fun b hb => by
      rcases List.mem_cons.mp hb with rfl | hb
      · exact hp
      · exact h.adopted b hb }

/-- **The detector finds its word again**: then its copy is a mask that was written. -/
theorem Begun.written {first : Word} {n : Nat} (h : Begun first n s)
    (hcopy : Reading (2 * n) (fun b => p = b) (2 * s.alterations) s.settings)
    (hword : first = s.configGeneration) : p ∈ s.written := by
  obtain ⟨heven, hne, halt⟩ := h.1.reading _ h.2
  have hn : n = s.alterations := not_not.mp fun hn => halt hn hword.symm
  have hp : p = s.settings := hcopy.same (by rw [hn])
  exact hp ▸ h.1.settled (hword ▸ heven) (hword ▸ hne)

/-- **The detector's loop.** -/
theorem attempt_ok (attempts : Nat) (h : Inv s) :
    Does none (fun _ => Idle none) (attempt attempts) s := by
  induction attempts generalizing s with
  | zero => exact fun s' _ => idle_none s'
  | succ attempts ih =>
    refine Code.rmw_then stable_inv h fun s h _ => ⟨begin_guarantees s, ?_⟩
    have hinv := (begin_guarantees s).inv h
    cases hnew : s.nothingNew with
    | true => exact fun s' _ => idle_none s'
    | false =>
      have hbegun : Begun s.configGeneration s.alterations s.begin :=
        ⟨hinv, by simp only [Shared.begin, hnew]; rfl⟩
      generalize s.configGeneration = first at hbegun
      refine Code.Ok.bind (copy_ok stable_begun (fun _ _ _ hr => hr.quiet) hbegun le_rfl)
        fun copy t ⟨ht, hcopy⟩ => ?_
      refine Code.rmw_then (P := fun t => Begun first s.alterations t ∧
        Reading (2 * s.alterations) (fun b => copy = b) (2 * t.alterations) t.settings)
        (stable_begun.and fun _ _ h hr => h.quiet (by omega) hr.quiet) ⟨ht, hcopy⟩
        fun t ⟨ht, hcopy⟩ _ => ⟨end_guarantees t, ?_⟩
      have hinv := (end_guarantees t).inv ht.1
      split
      · exact ih hinv
      · next hword =>
        have hwritten := ht.written hcopy (not_not.mp hword)
        split
        · refine Code.ok_rmw (P := fun u => Inv u ∧ copy ∈ u.written)
            (stable_inv.and fun _ _ h hr => hr.written _ h) ⟨hinv, hwritten⟩ fun u hu _ => ?_
          exact ⟨adopt_guarantees hu.2, fun u' _ => idle_none u'⟩
        · exact fun s' _ => idle_none s'

theorem motionIvaFilter_ok (h : Inv s) :
    Does none (fun _ => Idle none) motionIvaFilter s := by
  refine Code.load_then (.refl _) stable_inv h fun s h => ?_
  split
  · exact attempt_ok 2 h
  · exact fun s' _ => idle_none s'

/-- A store of the recorder's to a word of its own. -/
theorem store_own {k : Unit → Code Shared Unit} {f : Shared → Shared} (h : Inv s)
    (hf : ∀ s, Guarantee none s (f s))
    (hk : ∀ s, Inv s → Does none (fun _ => Idle none) (k ()) s) :
    Does none (fun _ => Idle none) (Code.store f >>= k) s :=
  Code.store_then stable_inv h fun s h _ => ⟨hf s, hk _ ((hf s).inv h)⟩

/-- **A new recorder.** -/
theorem ivaInitialize_ok (pid : Word) (suits patched : Bool) (h : Inv s) :
    Does none (fun _ => Idle none) (ivaInitialize pid suits patched) s := by
  refine store_own h (fun s => ?_) fun s h => ?_
  · exact ⟨.of_eq rfl (fun _ => id) rfl rfl,
      fun h => { h with reading := fun _ hr => absurd hr nofun }, fun h => absurd rfl h,
      fun _ _ => .of_eq rfl rfl rfl rfl⟩
  have hown : ∀ f : Shared → Shared, (∀ s, (f s).size = s.size ∧ (f s).configGeneration =
      s.configGeneration ∧ (f s).settings = s.settings ∧ (f s).holders = s.holders ∧
      (f s).written = s.written ∧ (f s).alterations = s.alterations ∧ (f s).reading = s.reading ∧
      (f s).adopted = s.adopted) → ∀ s, Guarantee none s (f s) := by
    intro f hf s
    obtain ⟨h1, h2, h3, h4, h5, h6, h7, h8⟩ := hf s
    exact guarantee_of_eq h1 h2 h3 h4 h5 h6 h7 h8
  refine Code.load_then (.refl _) stable_inv h fun t h => ?_
  refine Code.load_then (.refl _) stable_inv h fun u h => ?_
  refine Code.load_then (.refl _) stable_inv h fun v h => ?_
  split
  · refine store_own h (hown _ fun _ => ⟨rfl, rfl, rfl, rfl, rfl, rfl, rfl, rfl⟩) fun s h => ?_
    refine store_own h (hown _ fun _ => ⟨rfl, rfl, rfl, rfl, rfl, rfl, rfl, rfl⟩) fun s h => ?_
    split
    · refine store_own h (hown _ fun _ => ⟨rfl, rfl, rfl, rfl, rfl, rfl, rfl, rfl⟩) fun s h => ?_
      refine Code.ok_rmw stable_inv h fun s _ _ => ⟨?_, fun s' _ => idle_none s'⟩
      exact guarantee_of_eq rfl rfl rfl rfl rfl rfl rfl rfl
    · exact fun s' _ => idle_none s'
  · exact fun s' _ => idle_none s'

/-! ## 6. Any interleaving -/

/-- A controller dies. -/
theorem bury_guarantees (i : Nat) (s : Shared) :
    Guarantee (some i) s { s with holders := s.holders.erase i } := by
  refine ⟨.of_eq rfl (fun _ => id) rfl rfl, fun h => { h with alone := ?_ }, fun _ => rfl,
    fun j hj => ⟨?_, fun _ => ⟨rfl, rfl, rfl⟩⟩⟩
  · rcases h.alone with h0 | ⟨j, hj, hodd⟩
    · exact .inl (by rw [h0, List.erase_nil])
    · by_cases hij : i = j
      · exact .inl (by rw [hj, hij, List.erase_cons_head])
      · exact .inr ⟨j, by rw [hj]; exact List.erase_of_not_mem (by simpa using hij), hodd⟩
  · exact List.mem_erase_of_ne fun hji => hj (congrArg some hji.symm)

theorem Guarantee.rely {j : Option Nat} (hij : me ≠ j) (h : Inv s) (hg : Guarantee me s s') :
    Rely j s s' :=
  ⟨hg.toMoves, hg.inv h, fun hj => hg.reading fun hme => hij (hme.trans hj.symm),
    fun k hk => hg.others k (hk ▸ hij)⟩

theorem system_sound :
    Sound system Rely Guarantee (fun _ => Heedful) Inv Idle where
  other i j hij s s' hinv hg := hg.rely hij hinv
  keeps i s s' hinv hg := hg.inv hinv
  idle i := stable_idle
  call i x c hc s hinv hidle := by
    match i, x with
    | none, .recorder pid suits patched =>
      cases hc
      exact ivaInitialize_ok pid suits patched hinv
    | none, .filter =>
      cases hc
      exact motionIvaFilter_ok hinv
    | some me, .control argv alive =>
      cases hc
      exact Code.Ok.bind (motionIvactl_ok argv alive ⟨hinv, hidle⟩)
        fun _ s h => Code.ok_ret stable_idle h.2 fun _ => id
    | none, .control _ _ => exact absurd hc nofun
    | some _, .recorder _ _ _ => exact absurd hc nofun
    | some _, .filter => exact absurd hc nofun
  bury i s hinv := by
    cases i with
    | none =>
      have hg : Guarantee none s { s with hooked := false, reading := none } :=
        ⟨.of_eq rfl (fun _ => id) rfl rfl,
          fun h => { h with reading := fun _ hr => absurd hr nofun }, fun h => absurd rfl h,
          fun _ _ => .of_eq rfl rfl rfl rfl⟩
      exact ⟨hg.inv hinv, idle_none _, fun j hj => hg.rely hj.symm hinv⟩
    | some i =>
      have hg := bury_guarantees i s
      refine ⟨hg.inv hinv, fun j hj => ?_, fun j hj => hg.rely hj.symm hinv⟩
      cases hj
      show i ∉ s.holders.erase i
      rcases hinv.alone with h0 | ⟨j, hj, -⟩
      · rw [h0]
        exact List.not_mem_nil
      · rw [hj]
        by_cases hij : j = i
        · rw [hij, List.erase_cons_head]
          exact List.not_mem_nil
        · rw [List.erase_of_not_mem (by simpa using fun h => hij h.symm), List.mem_singleton]
          exact fun h => hij h.symm

/-- **Controllers exclude each other.** From a word that was never written, whatever controllers,
    recorders and the detector do in any order and wherever they are killed: as long as a word is
    set back only where no live controller has the lock, and is not brought back to the one the
    detector began at once the mask has been altered, at most one live controller has the lock, and
    every mask the detector adopts is one that a single controller wrote to its end. -/
theorem controllers_exclude (s : Shared) (hs : Fresh s) (es : List (Event (Option Nat) Call))
    (hheed : StepsMeet system.step
      (fun m e => Heedful m.memory (system.step m e).memory) (Machine.idle s) es) :
    (run system.step (Machine.idle s) es).memory.holders.length ≤ 1 ∧
      ∀ b ∈ (run system.step (Machine.idle s) es).memory.adopted,
        b ∈ (run system.step (Machine.idle s) es).memory.written := by
  have hmeet : StepsMeet system.step (Machine.Meets fun _ => Heedful) (Machine.idle s) es :=
    hheed.mono fun _ _ h => Machine.meets_of_step h
  have hidle : ∀ i, Idle i s := fun i k _ => by rw [hs.holders]; exact List.not_mem_nil
  have hinv := system_sound.run hs.inv hidle hmeet
  refine ⟨?_, hinv.adopted⟩
  rcases hinv.alone with h0 | ⟨i, hi, -⟩
  · rw [h0]
    exact Nat.zero_le 1
  · rw [hi]
    exact Nat.le_refl 1

/-- No file yet. -/
def atBoot : Shared where
  size := none
  magic := 0
  version := 0
  configGeneration := 0
  readyPid := 0
  settings := Block.blank
  hooked := false
  active := Block.blank
  activeGeneration := 0
  written := []
  holders := []
  recoveries := 0
  alterations := 0
  reading := none
  adopted := []

theorem fresh_atBoot : Fresh atBoot := ⟨rfl, fun _ => rfl, rfl, rfl, rfl⟩

/-- `--init no 11..1`, with no recorder alive. -/
def initCall (me : Nat) : Event (Option Nat) Call :=
  .call (some me) (.control [ascii "--init", ascii "no", List.replicate 240 49] fun _ => false)

/-- The first controller is killed with the lock, a second one sets the word back and takes it. -/
def recoveryEvents : List (Event (Option Nat) Call) :=
  initCall 0 :: List.replicate 12 (.step (some 0)) ++ .kill (some 0) ::
    initCall 1 :: List.replicate 10 (.step (some 1))

theorem controllers_exclude_once :
    (run system.step (Machine.idle atBoot) recoveryEvents).memory.holders.length ≤ 1 ∧
      ∀ b ∈ (run system.step (Machine.idle atBoot) recoveryEvents).memory.adopted,
        b ∈ (run system.step (Machine.idle atBoot) recoveryEvents).memory.written :=
  controllers_exclude atBoot fresh_atBoot recoveryEvents (by decide +kernel)

/-- The same with the first controller alive. -/
def breakInEvents : List (Event (Option Nat) Call) :=
  initCall 0 :: List.replicate 12 (.step (some 0)) ++
    initCall 1 :: List.replicate 10 (.step (some 1))

/-- **A recovery breaks in**: before the recorder has told its process number, a second `--init`
    takes the lock of a live controller for one of the dead. -/
theorem recovery_breaks_in : ¬ ∀ (s : Shared) (es : List (Event (Option Nat) Call)), Fresh s →
    (run system.step (Machine.idle s) es).memory.holders.length ≤ 1 ∧
      ∀ b ∈ (run system.step (Machine.idle s) es).memory.adopted,
        b ∈ (run system.step (Machine.idle s) es).memory.written := by
  intro h
  have htwo : (run system.step (Machine.idle atBoot) breakInEvents).memory.holders = [1, 0] := by
    decide +kernel
  have hone := (h atBoot breakInEvents fresh_atBoot).1
  rw [htwo] at hone
  exact absurd hone (by decide)

end YiHack.Iva
