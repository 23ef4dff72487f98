/-
  File:      YiHack/Spatial/Restart.lean
  Subject:   A frame that `motion_mask_read` adopts is one that a publication wrote, whatever dies
             and comes again in between.

  A restarted producer counts from 0 again, so that the generation alone does not tell. What tells
  is `reader_ms`: it is cleared behind the generation, and until the reader stores its next time
  nothing is published. So a generation that is not 0 and was not cleared since the reader stored
  its time has only counted up.

  * `Sane` -- what holds of the mapping at all times;
  * `Moves`, `Asks` -- what the reader sees of the producer, and the other way round;
  * `initializeMap_ok`, `publishAfterFlush_ok`, `attempt_ok` -- the three programs;
  * **`adopted_published`** -- if `memset` clears the generation by one store;
  * `torn_generation` -- a `memset` by bytes, and a mixture of two frames is adopted.
-/
import YiHack.Spatial.Alone

namespace YiHack.Spatial

open General

/-! ## 1. What holds at all times -/

structure Sane (s : Map) : Prop where
  version : s.version = 0#32 ∨ s.version = MOTION_MAP_VERSION
  published : s.generation ≠ 0#32 → odd s.generation = false → s.sample ∈ s.log
  adopted : ∀ f ∈ s.adopted, f ∈ s.log

theorem sane_fresh (m : Mask) : Sane (Map.fresh m) where
  version := .inl rfl
  published h _ := absurd rfl h
  adopted _ h := absurd h List.not_mem_nil

/-- **What the producer does**: the generation counts up, only ever begun after the reader stored
    its time; or it is cleared; or it is 0 and stays so. -/
structure Moves (s s' : Map) : Prop where
  log : ∀ f ∈ s.log, f ∈ s'.log
  moves :
    (s'.asked = s.asked ∧ Quiet s.generation.toNat s.sample s'.generation.toNat s'.sample ∧
      (s.asked = false → s'.generation = s.generation)) ∨
    (s'.asked = false ∧ s'.generation = 0#32) ∨
    (s'.asked = s.asked ∧ s.generation = 0#32 ∧ s'.generation = 0#32)

/-- What the reader does. -/
structure Asks (s s' : Map) : Prop where
  version : s'.version = s.version
  generation : s'.generation = s.generation
  sample : s'.sample = s.sample
  hooked : s'.hooked = s.hooked
  begun : s'.begun = s.begun
  log : s'.log = s.log
  asked : s'.asked = false → s.asked = false ∧ s'.readerMs = s.readerMs

def ProducerRely (s s' : Map) : Prop := Sane s' ∧ Asks s s'

def ReaderRely (s s' : Map) : Prop := Sane s' ∧ Moves s s'

def ProducerGuarantee (s s' : Map) : Prop := (Sane s → Sane s') ∧ Moves s s'

def ReaderGuarantee (s s' : Map) : Prop := (Sane s → Sane s') ∧ Asks s s'

variable {s s' : Map}

/-- The producer touches neither the generation nor the sample. -/
theorem Moves.of_eq (hasked : s'.asked = s.asked) (hgen : s'.generation = s.generation)
    (hsample : s'.sample = s.sample) (hlog : s'.log = s.log) : Moves s s' where
  log _ h := hlog ▸ h
  moves := by
    refine .inl ⟨hasked, ?_, fun _ => hgen⟩
    rw [hgen, hsample]
    exact .refl _ _

theorem ProducerGuarantee.refl (s : Map) : ProducerGuarantee s s := ⟨id, .of_eq rfl rfl rfl rfl⟩

theorem Asks.refl (s : Map) : Asks s s := ⟨rfl, rfl, rfl, rfl, rfl, rfl, fun h => ⟨h, rfl⟩⟩

theorem ReaderGuarantee.refl (s : Map) : ReaderGuarantee s s := ⟨id, .refl s⟩

theorem Asks.sane (h : Asks s s') (hs : Sane s) (hadopted : ∀ f ∈ s'.adopted, f ∈ s.log) :
    Sane s' where
  version := h.version ▸ hs.version
  published := by
    rw [h.generation, h.sample, h.log]
    exact hs.published
  adopted f hf := h.log ▸ hadopted f hf

/-! ## 2. The producer starts -/

/-- The stores of `memset` have come to `off`. -/
structure Swept (off : Nat) (s : Map) : Prop where
  sane : Sane s
  hooked : s.hooked = false
  begun : s.begun = 0
  generation : 16 ≤ off → s.generation = 0#32
  readerMs : s.asked = false → eraseWord 16 0 off s.readerMs = s.readerMs
  sample : ∀ k : Fin FRAME_SIZE, 24 + k.val < off → s.sample k = 0

theorem stable_swept (off : Nat) : Code.Stable ProducerRely (Swept off) := by
  rintro s s' h ⟨hsane, hr⟩
  refine ⟨hsane, hr.hooked.trans h.hooked, hr.begun.trans h.begun,
    fun hoff => hr.generation.trans (h.generation hoff), fun hasked => ?_,
    fun k hk => hr.sample ▸ h.sample k hk⟩
  obtain ⟨hasked, hread⟩ := hr.asked hasked
  rw [hread, h.readerMs hasked]

/-- What a store of `memset` leaves of the version. -/
theorem version_clear (hs : Sane s) (lo hi : Nat) :
    (s.clear lo hi).version = 0#32 ∨ (s.clear lo hi).version = MOTION_MAP_VERSION := by
  show eraseWord 4 lo hi s.version = 0#32 ∨ eraseWord 4 lo hi s.version = MOTION_MAP_VERSION
  rcases hs.version with h | h
  · rw [h, eraseWord_zero]
    exact .inl rfl
  · rw [h]
    exact (eraseWord_small (by decide)).symm

theorem sample_clear_before {lo hi : Nat} (h : hi ≤ 24) : (s.clear lo hi).sample = s.sample := by
  funext k
  have hk : ¬ (lo ≤ 24 + k.val ∧ 24 + k.val < hi) := by omega
  exact if_neg hk

/-- **A store of `memset`** that takes all of the generation or nothing. -/
theorem clear_guarantees {off width : Nat} (h : Swept off s) (hoff : off ≤ 12 ∨ 16 ≤ off)
    (hend : off + width ≤ 12 ∨ 16 ≤ off + width) :
    ProducerGuarantee s (s.clear off (off + width)) := by
  have hversion := version_clear h.sane off (off + width)
  rcases hend with hend | hend
  · -- before the generation
    have hgen : (s.clear off (off + width)).generation = s.generation :=
      eraseWord_outside (by omega)
    have hsample : (s.clear off (off + width)).sample = s.sample := sample_clear_before (by omega)
    have hasked : (s.clear off (off + width)).asked = s.asked := by
      have hout : ¬ (off ≤ 15 ∧ 15 < off + width) := by omega
      simp [Map.clear, hout]
    refine ⟨fun hs => ⟨hversion, ?_, hs.adopted⟩, .of_eq hasked hgen hsample rfl⟩
    rw [hgen, hsample]
    exact hs.published
  · have hgen : (s.clear off (off + width)).generation = 0#32 := by
      rcases hoff with hoff | hoff
      · exact eraseWord_all (by omega) (by omega)
      · show eraseWord 12 off (off + width) s.generation = 0#32
        rw [h.generation hoff, eraseWord_zero]
    refine ⟨fun hs => ⟨hversion, fun hne => absurd hgen hne, hs.adopted⟩, fun _ hf => hf, ?_⟩
    rcases hoff with hoff | hoff
    · have hasked : (s.clear off (off + width)).asked = false := by
        have hin : off ≤ 15 ∧ 15 < off + width := by omega
        simp [Map.clear, hin]
      exact .inr (.inl ⟨hasked, hgen⟩)
    · have hasked : (s.clear off (off + width)).asked = s.asked := by
        have hout : ¬ (off ≤ 15 ∧ 15 < off + width) := by omega
        simp [Map.clear, hout]
      exact .inr (.inr ⟨hasked, h.generation hoff, hgen⟩)

theorem Swept.clear {off width : Nat} (h : Swept off s) (hoff : off ≤ 12 ∨ 16 ≤ off)
    (hend : off + width ≤ 12 ∨ 16 ≤ off + width) :
    Swept (off + width) (s.clear off (off + width)) where
  sane := (clear_guarantees h hoff hend).1 h.sane
  hooked := h.hooked
  begun := h.begun
  generation hge := by
    rcases hoff with hoff | hoff
    · exact eraseWord_all (by omega) (by omega)
    · show eraseWord 12 off (off + width) s.generation = 0#32
      rw [h.generation hoff, eraseWord_zero]
  readerMs hasked := by
    have hread : (s.clear off (off + width)).readerMs = eraseWord 16 0 (off + width) s.readerMs := by
      show eraseWord 16 off (off + width) s.readerMs = _
      by_cases hs : s.asked = false
      · conv_lhs => rw [← h.readerMs hs]
        exact eraseWord_join (Nat.zero_le off) (Nat.le_add_right off width)
      · -- this store clears the generation, the time lies behind it
        have hin : off ≤ 15 ∧ 15 < off + width := by
          simpa [Map.clear, hs] using hasked
        exact eraseWord_from (by omega)
    rw [hread, eraseWord_again]
  sample k hk := by
    show (if off ≤ 24 + k.val ∧ 24 + k.val < off + width then 0 else s.sample k) = 0
    split
    · rfl
    · exact h.sample k (by omega)

/-- A list of stores of `memset`, from one that has come to `off`. -/
theorem memset_ok {widths : List Nat} {off : Nat} (h : Swept off s) (hoff : off ≤ 12 ∨ 16 ≤ off)
    (hwhole : ∀ n, off + (widths.take n).sum ≤ 12 ∨ 16 ≤ off + (widths.take n).sum) :
    Code.Ok ProducerRely ProducerGuarantee (Few .producer)
      (fun _ => Swept (off + widths.sum)) (Code.stores (clearStores off widths)) s := by
  induction widths generalizing s off with
  | nil => exact Code.ok_ret (stable_swept off) h fun _ => id
  | cons width widths ih =>
    have hend : off + width ≤ 12 ∨ 16 ≤ off + width := by
      have h1 := hwhole 1
      simpa using h1
    refine Code.store_then (stable_swept off) h fun s h _ => ⟨clear_guarantees h hoff hend, ?_⟩
    have hrest := ih (h.clear hoff hend) hend fun n => by
      have hn := hwhole (n + 1)
      simpa [Nat.add_assoc] using hn
    rw [List.sum_cons, ← Nat.add_assoc]
    exact hrest

/-- What a hooked producer may count on between two publications. -/
structure Ready (s : Map) : Prop where
  counted : s.generation.toNat = 2 * s.begun
  reserved : ∀ k, isReserved k = true → s.sample k = 0
  blocked : s.asked = false → s.readerMs = 0#32

theorem stable_ready : Code.Stable ProducerRely Ready := by
  rintro s s' h ⟨-, hr⟩
  refine ⟨?_, fun k hk => hr.sample ▸ h.reserved k hk, fun hasked => ?_⟩
  · rw [hr.generation, hr.begun]
    exact h.counted
  · obtain ⟨hasked, hread⟩ := hr.asked hasked
    rw [hread, h.blocked hasked]

theorem stable_sane : Code.Stable ProducerRely Sane := fun _ _ _ hr => hr.1

/-- The producer is at rest: a hooked one is ready. -/
def AtRest (s : Map) : Prop := s.hooked = true → Ready s

theorem stable_atRest : Code.Stable ProducerRely AtRest :=
  fun s s' h hr hhooked => stable_ready s s' (h (hr.2.hooked ▸ hhooked)) hr

theorem Swept.ready (h : Swept SHARED_SIZE s) : Ready s where
  counted := by
    rw [h.generation (by decide), h.begun]
    rfl
  reserved k _ := h.sample k (by have := k.isLt; unfold SHARED_SIZE; omega)
  blocked hasked := by
    rw [← h.readerMs hasked]
    exact eraseWord_all (by decide) (by decide)

/-- **`initialize_map`.** -/
theorem initializeMap_ok (eligible : Bool) {ms : Memset} (hms : ms.Whole) (hs : Sane s) :
    Code.Ok ProducerRely ProducerGuarantee (Few .producer) (fun _ => AtRest)
      (initializeMap eligible ms) s := by
  refine Code.store_then stable_sane hs fun s hs _ =>
    ⟨⟨fun h => ⟨h.version, h.published, h.adopted⟩, .of_eq rfl rfl rfl rfl⟩, ?_⟩
  have hs' : Sane s.spawn := ⟨hs.version, hs.published, hs.adopted⟩
  split
  · exact Code.ok_ret (stable_atRest) (fun h => absurd h nofun) fun _ => id
  · have hswept : Swept 0 s.spawn :=
      ⟨hs', rfl, rfl, fun h => absurd h (by decide), fun _ => eraseWord_outside (.inl (Nat.zero_le _)),
        fun k hk => absurd hk (Nat.not_lt_zero _)⟩
    refine Code.Ok.bind (memset_ok hswept (.inl (Nat.zero_le _)) fun n => ?_) fun _ s h => ?_
    · rw [Nat.zero_add]
      exact hms n
    · rw [Nat.zero_add, ms.total] at h
      have hP := stable_sane.and stable_ready
      refine Code.store_then hP ⟨h.sane, h.ready⟩ fun s h _ =>
        ⟨⟨fun h => ⟨h.version, h.published, h.adopted⟩, .of_eq rfl rfl rfl rfl⟩, ?_⟩
      refine Code.store_then hP ⟨⟨h.1.version, h.1.published, h.1.adopted⟩,
        ⟨h.2.counted, h.2.reserved, h.2.blocked⟩⟩ fun s h _ =>
        ⟨⟨fun h => ⟨.inr rfl, h.published, h.adopted⟩, .of_eq rfl rfl rfl rfl⟩, ?_⟩
      refine Code.ok_rmw hP ⟨⟨.inr rfl, h.1.published, h.1.adopted⟩,
        ⟨h.2.counted, h.2.reserved, h.2.blocked⟩⟩ fun s h _ =>
        ⟨⟨fun h => ⟨h.version, h.published, h.adopted⟩, .of_eq rfl rfl rfl rfl⟩, ?_⟩
      intro s' hr _
      exact stable_ready.star hr ⟨h.2.counted, h.2.reserved, h.2.blocked⟩

/-! ## 3. The producer publishes -/

variable {p : Publication}

/-- The time that the reader stored is near enough: it did store one. -/
theorem asked_of_near (h : Ready s) (hnear : ¬ 2000#32 < BitVec.ofInt 32 p.now.ms - s.readerMs) :
    s.asked = true := by
  cases hasked : s.asked with
  | true => rfl
  | false =>
    rw [h.blocked hasked, BitVec.sub_zero] at hnear
    exact absurd p.now.late hnear

/-- A publication is under way from the generation `g`; the bytes `ks` are still to be stored. -/
structure Publishing (p : Publication) (g : Word) (ks : List (Fin FRAME_SIZE)) (s : Map) :
    Prop where
  sane : Sane s
  asked : s.asked = true
  word : s.generation = g + 1#32
  counted : g.toNat + 2 = 2 * s.begun
  few : s.begun < 2 ^ 31
  written : ∀ k, k ∉ ks → s.sample k = p.sample k

namespace Publishing

variable {g : Word} {ks : List (Fin FRAME_SIZE)}

theorem stable (p : Publication) (g : Word) (ks : List (Fin FRAME_SIZE)) :
    Code.Stable ProducerRely (Publishing p g ks) := by
  rintro s s' h ⟨hsane, hr⟩
  refine ⟨hsane, ?_, hr.generation.trans h.word, hr.begun ▸ h.counted, hr.begun ▸ h.few,
    fun k hk => hr.sample ▸ h.written k hk⟩
  cases hasked : s'.asked with
  | true => rfl
  | false => exact absurd (h.asked.symm.trans (hr.asked hasked).1) nofun

theorem toNat (h : Publishing p g ks s) : s.generation.toNat + 1 = 2 * s.begun := by
  have hcounted := h.counted
  have hfew := h.few
  rw [h.word, BitVec.toNat_add, BitVec.toNat_ofNat]
  omega

theorem odd (h : Publishing p g ks s) : odd s.generation = true := by
  have := h.toNat
  rw [odd_iff]
  omega

/-- **A store to the sample.** -/
theorem put {k : Fin FRAME_SIZE} (h : Publishing p g (k :: ks) s) :
    ProducerGuarantee s (s.put (k, p.sample k)) ∧ Publishing p g ks (s.put (k, p.sample k)) := by
  have hsane : Sane (s.put (k, p.sample k)) :=
    ⟨h.sane.version, fun _ heven => absurd (h.odd.symm.trans heven) nofun, h.sane.adopted⟩
  refine ⟨⟨fun _ => hsane, fun _ hf => hf, .inl ⟨rfl, .of_odd (odd_iff.mp h.odd), fun _ => rfl⟩⟩,
    hsane, h.asked, h.word, h.counted, h.few, fun k' hk' => ?_⟩
  show Function.update s.sample k (p.sample k) k' = _
  by_cases hkk : k' = k
  · subst hkk
    exact Function.update_self ..
  · rw [Function.update_of_ne hkk]
    exact h.written k' fun hm => (List.mem_cons.mp hm).elim hkk hk'

theorem puts_ok (h : Publishing p g ks s) :
    Code.Ok ProducerRely ProducerGuarantee (Few .producer) (fun _ => Publishing p g [])
      (Code.stores (ks.map fun k => Map.put (k, p.sample k))) s := by
  induction ks generalizing s with
  | nil => exact Code.ok_ret (stable p g []) h fun _ => id
  | cons k ks ih =>
    exact Code.store_then (stable p g (k :: ks)) h fun s h _ => ⟨h.put.1, ih h.put.2⟩

/-- **The store that ends it.** -/
theorem close (h : Publishing p g [] s) :
    ProducerGuarantee s (s.closeSample (g + 2#32) p.sample) ∧
      Sane (s.closeSample (g + 2#32) p.sample) ∧ Ready (s.closeSample (g + 2#32) p.sample) := by
  have hsample : s.sample = p.sample := funext fun k => h.written k List.not_mem_nil
  have hgen : (g + 2#32).toNat = 2 * s.begun := by
    have hcounted := h.counted
    have hfew := h.few
    rw [BitVec.toNat_add, BitVec.toNat_ofNat]
    omega
  have hsane : Sane (s.closeSample (g + 2#32) p.sample) :=
    ⟨h.sane.version, fun _ _ => hsample ▸ List.mem_cons_self,
      fun f hf => List.mem_cons_of_mem _ (h.sane.adopted f hf)⟩
  have hlt : s.generation.toNat < (g + 2#32).toNat := by
    have := h.toNat
    omega
  refine ⟨⟨fun _ => hsane, fun f hf => List.mem_cons_of_mem _ hf, .inl ⟨rfl, .of_lt hlt, ?_⟩⟩, hsane,
    hgen, fun k hk => ?_, fun hasked => absurd (h.asked.symm.trans hasked) nofun⟩
  · exact fun hasked => absurd (h.asked.symm.trans hasked) nofun
  · show s.sample k = 0
    rw [hsample, sample_reserved hk]

end Publishing

/-- **The store that begins a publication.** -/
theorem open_guarantees {g : Word} (hs : Sane s) (h : Ready s) (hasked : s.asked = true)
    (hg : s.generation = g) (hfew : s.begun + 1 < 2 ^ 31) :
    ProducerGuarantee s (s.openSample (g + 1#32)) ∧
      Publishing p g (sampleBytes.filter fun k => !isReserved k) (s.openSample (g + 1#32)) := by
  subst hg
  have hcounted := h.counted
  have hgen : (s.generation + 1#32).toNat = 2 * s.begun + 1 := by
    rw [BitVec.toNat_add, BitVec.toNat_ofNat]
    omega
  have hodd : odd (s.generation + 1#32) = true := by
    rw [odd_iff]
    omega
  have hsane : Sane (s.openSample (s.generation + 1#32)) :=
    ⟨hs.version, fun _ heven => absurd (hodd.symm.trans heven) nofun, hs.adopted⟩
  have hlt : s.generation.toNat < (s.generation + 1#32).toNat := by omega
  refine ⟨⟨fun _ => hsane, fun _ hf => hf, .inl ⟨rfl, .of_lt hlt, ?_⟩⟩, hsane, hasked, rfl, ?_, hfew,
    fun k hk => ?_⟩
  · exact fun hfalse => absurd (hasked.symm.trans hfalse) nofun
  · show s.generation.toNat + 2 = 2 * (s.begun + 1)
    omega
  · have hres : isReserved k = true := by
      simpa [mem_sampleBytes] using hk
    show s.sample k = p.sample k
    rw [h.reserved k hres, sample_reserved hres]

/-- **`publish_after_flush`.** -/
theorem publishAfterFlush_ok (p : Publication) (hs : Sane s) (hrest : AtRest s) :
    Code.Ok ProducerRely ProducerGuarantee (Few .producer) (fun _ => AtRest)
      (publishAfterFlush p) s := by
  have hG := ProducerGuarantee.refl
  refine Code.load_then hG (stable_sane.and stable_atRest) ⟨hs, hrest⟩ fun s h => ?_
  split
  · exact Code.ok_ret stable_atRest h.2 fun _ => id
  · next hflushed =>
    have hhooked : s.hooked = true := by
      simpa using (not_or.mp hflushed).1
    have hP := stable_sane.and stable_ready
    have hend : ∀ s, Sane s ∧ Ready s → Code.Ok ProducerRely ProducerGuarantee (Few .producer)
        (fun _ => AtRest) (Code.ret ()) s := fun s h =>
      Code.ok_ret hP h fun _ h _ => h.2
    refine Code.load_then hG hP ⟨h.1, h.2 hhooked⟩ fun s h => ?_
    split
    · exact hend s h
    · refine Code.load_then hG hP h fun s h => ?_
      split
      · exact hend s h
      · next hnear =>
        have hasked : Code.Stable ProducerRely fun s => s.asked = true := by
          rintro s s' h ⟨-, hr⟩
          cases hfalse : s'.asked with
          | true => rfl
          | false => exact absurd (h.symm.trans (hr.asked hfalse).1) nofun
        refine Code.load_then hG (hP.and hasked) ⟨h, asked_of_near h.2 hnear⟩ fun s h => ?_
        have hgen : Code.Stable ProducerRely fun s' => s'.generation = s.generation :=
          fun _ _ h hr => hr.2.generation.trans h
        refine Code.store_then ((hP.and hasked).and hgen) ⟨h, rfl⟩ fun t ht hfew => ?_
        obtain ⟨hguarantee, hopen⟩ :=
          open_guarantees (p := p) ht.1.1.1 ht.1.1.2 ht.1.2 ht.2 hfew
        refine ⟨hguarantee, Code.Ok.bind hopen.puts_ok fun _ t ht => ?_⟩
        refine Code.ok_rmw (Publishing.stable p _ []) ht fun t ht _ => ⟨ht.close.1, ?_⟩
        have hready := ht.close.2.2
        exact fun t' hr _ => stable_ready.star hr hready

/-! ## 4. The reader -/

/-- Behind the store of the reader's time: where it was cleared since, so was the generation. -/
structure Calm (s : Map) : Prop where
  sane : Sane s
  cleared : s.asked = false → s.generation = 0#32

theorem stable_calm : Code.Stable ReaderRely Calm := by
  rintro s s' h ⟨hsane, hr⟩
  refine ⟨hsane, fun hasked => ?_⟩
  rcases hr.moves with ⟨heq, -, hgen⟩ | ⟨-, hgen⟩ | ⟨-, -, hgen⟩
  · have hs : s.asked = false := heq ▸ hasked
    rw [hgen hs, h.cleared hs]
  · exact hgen
  · exact hgen

/-- The count that the reader goes by: once the generation was cleared, it is out of reach. -/
def Map.count (s : Map) : Nat := if s.asked then s.generation.toNat else 2 ^ 32 + 1

theorem count_asked (h : s.asked = true) : s.count = s.generation.toNat := by
  rw [Map.count, h, if_pos rfl]

theorem count_cleared (h : s.asked = false) : s.count = 2 ^ 32 + 1 := by
  rw [Map.count, h, if_neg nofun]

theorem count_eq {first : Word} (h : Calm s) (hne : first ≠ 0#32) (hfirst : s.generation = first) :
    s.asked = true ∧ s.count = first.toNat := by
  have hasked : s.asked = true := by
    cases hasked : s.asked with
    | true => rfl
    | false => exact absurd (hfirst.symm.trans (h.cleared hasked)) hne
  exact ⟨hasked, hfirst ▸ count_asked hasked⟩

/-- **What the producer does is quiet**, as long as the count is not 0. -/
theorem quiet_count (hpos : 0 < s.count) (hr : Moves s s') :
    Quiet s.count s.sample s'.count s'.sample := by
  cases hs : s.asked with
  | true =>
    rw [count_asked hs] at hpos ⊢
    rcases hr.moves with ⟨heq, hq, -⟩ | ⟨hasked, -⟩ | ⟨-, hgen, -⟩
    · rw [count_asked (heq.trans hs)]
      exact hq
    · rw [count_cleared hasked]
      exact .of_lt (Nat.lt_succ_of_lt s.generation.isLt)
    · rw [hgen] at hpos
      exact absurd hpos (by decide)
  | false =>
    have hs' : s'.asked = false := by
      rcases hr.moves with ⟨heq, -⟩ | ⟨hasked, -⟩ | ⟨heq, -⟩
      · exact heq.trans hs
      · exact hasked
      · exact heq.trans hs
    rw [count_cleared hs, count_cleared hs']
    exact .of_odd (by decide)

theorem stable_counting : Code.Stable ReaderRely fun s => Calm s ∧ 0 < s.count :=
  fun s s' h hr =>
    ⟨stable_calm s s' h.1 hr, Nat.lt_of_lt_of_le h.2 (quiet_count h.2 hr.2).1⟩

theorem stable_mem_log (f : Frame) : Code.Stable ReaderRely fun s => Calm s ∧ f ∈ s.log :=
  fun s s' h hr => ⟨stable_calm s s' h.1 hr, hr.2.log f h.2⟩

/-- A store that leaves alone what the reader does not own. -/
theorem setMask_guarantees (m : Mask) : ReaderGuarantee s (s.setMask m) :=
  ⟨fun hs => ⟨hs.version, hs.published, hs.adopted⟩, rfl, rfl, rfl, rfl, rfl, rfl, fun h => ⟨h, rfl⟩⟩

section Programs

variable {A : Map → Map → Prop} {m : Mask} {now : Int}

theorem finish_ok (m : Mask) (rc : Int) {P : Map → Prop} (hP : Code.Stable ReaderRely P)
    (h : P s) : Code.Ok ReaderRely ReaderGuarantee A (fun _ _ => True) (finish m rc) s :=
  Code.store_then hP h fun _ _ _ => ⟨setMask_guarantees m, fun _ _ => trivial⟩

theorem keepLast_ok (h : Calm s) :
    Code.Ok ReaderRely ReaderGuarantee A (fun _ _ => True) (keepLast m now) s := by
  unfold keepLast
  split
  · exact finish_ok _ _ stable_calm h
  · exact finish_ok _ _ stable_calm h

/-- What is adopted is the copy, from a producer of today. -/
theorem consider_frame {version : Word} {copy : Frame} {m' : Mask} {rc : Int}
    (hversion : version ≠ MOTION_MAP_LEGACY_VERSION)
    (h : consider m now version copy = .adopted m' rc) : m'.frame = copy := by
  have hcopy : asVersioned version copy = copy := if_neg hversion
  simp only [consider, hcopy] at h
  split_ifs at h <;> cases h <;> rfl

/-- **Both looks at the generation find the same**: the copy was published. -/
theorem copy_published {first : Word} {copy : Frame} (h : Calm s) (hne : first ≠ 0#32)
    (heven : odd first = false) (hread : General.Reading first.toNat (copy = ·) s.count s.sample)
    (hagain : s.generation = first) : copy ∈ s.log := by
  have hcopy : copy = s.sample := hread.same (count_eq h hne hagain).2
  rw [hcopy]
  exact h.sane.published (hagain ▸ hne) (hagain ▸ heven)

/-- A copy that stood still while the count was `first`. -/
def Copied (first : Word) (copy : Frame) (s : Map) : Prop :=
  (Calm s ∧ 0 < s.count) ∧ General.Reading first.toNat (copy = ·) s.count s.sample

theorem stable_copied {first : Word} (heven : odd first = false) (copy : Frame) :
    Code.Stable ReaderRely (Copied first copy) := fun s s' h hr =>
  ⟨stable_counting s s' h.1 hr,
    h.2.quiet (even_of_odd_eq_false heven) (quiet_count h.1.2 hr.2)⟩

/-- **The tests behind the copy.** -/
theorem checkCopy_ok {retry : Code Map Int} {first version : Word} {copy : Frame}
    (hretry : ∀ s, Calm s → Code.Ok ReaderRely ReaderGuarantee A (fun _ _ => True) retry s)
    (hne : first ≠ 0#32) (heven : odd first = false)
    (hversion : version ≠ MOTION_MAP_LEGACY_VERSION) (h : Copied first copy s) :
    Code.Ok ReaderRely ReaderGuarantee A (fun _ _ => True)
      (checkCopy retry m now first version copy) s := by
  have hG := ReaderGuarantee.refl
  refine Code.load_then hG (stable_copied heven copy) h fun s h => ?_
  split
  · exact hretry s h.1.1
  · next hagain =>
    have hlog := copy_published h.1.1 hne heven h.2 (not_not.mp hagain).symm
    refine Code.load_then hG (stable_mem_log copy) ⟨h.1.1, hlog⟩ fun s h => ?_
    split
    · exact hretry s h.1
    · split
      · exact keepLast_ok h.1
      · exact finish_ok _ _ stable_calm h.1
      · next m' rc hadopted =>
        have hframe := consider_frame hversion hadopted
        refine Code.store_then (stable_mem_log copy) h fun s h _ =>
          ⟨⟨fun hs => ⟨hs.version, hs.published, ?_⟩, rfl, rfl, rfl, rfl, rfl, rfl,
            fun h => ⟨h, rfl⟩⟩, fun _ _ => trivial⟩
        intro f hf
        rcases List.mem_cons.mp hf with rfl | hf
        · exact hframe ▸ h.2
        · exact hs.adopted f hf

theorem version_of_valid (hs : Sane s)
    (hvalid : ¬ (s.version ≠ MOTION_MAP_VERSION ∧ s.version ≠ MOTION_MAP_LEGACY_VERSION)) :
    s.version ≠ MOTION_MAP_LEGACY_VERSION := by
  rcases hs.version with h0 | h2
  · rw [h0] at hvalid
    exact absurd (by decide) hvalid
  · rw [h2]
    decide

/-- What holds while the reader goes on from the generation `first`. -/
def Counting (first : Word) (s : Map) : Prop := (Calm s ∧ 0 < s.count) ∧ first.toNat ≤ s.count

theorem stable_began (first : Word) : Code.Stable ReaderRely (Counting first) := fun s s' h hr =>
  ⟨stable_counting s s' h.1 hr, Nat.le_trans h.2 (quiet_count h.1.2 hr.2).1⟩

theorem Counting.begin (h : Calm s) (hne : s.generation ≠ 0#32) : Counting s.generation s := by
  have hcount := (count_eq h hne rfl).2
  refine ⟨⟨h, ?_⟩, Nat.le_of_eq hcount.symm⟩
  rw [hcount]
  exact Nat.pos_of_ne_zero fun h0 => hne (BitVec.eq_of_toNat_eq h0)

/-- **The copy.** -/
theorem copy_ok {first : Word} (heven : odd first = false) (h : Counting first s) :
    Code.Ok ReaderRely ReaderGuarantee A (fun copy => Copied first copy)
      (gather (·.sample) sampleBytes fun _ => 0) s :=
  ok_copy (even_of_odd_eq_false heven) .refl stable_counting
    (fun _ _ h hr => quiet_count h.2 hr.2) h.1 mem_sampleBytes (fun _ => 0) h.2

/-- **The attempts of `motion_mask_read`.** -/
theorem attempt_ok (attempts : Nat) (h : Calm s) :
    Code.Ok ReaderRely ReaderGuarantee A (fun _ _ => True) (attempt m now attempts) s := by
  have hG := ReaderGuarantee.refl
  induction attempts generalizing s with
  | zero => exact keepLast_ok h
  | succ attempts ih =>
    refine Code.load_then hG stable_calm h fun s h => ?_
    split
    · exact ih h
    · next hfirst =>
      obtain ⟨hne, heven⟩ := not_or.mp hfirst
      rw [Bool.not_eq_true] at heven
      refine Code.load_then hG (stable_began _) (Counting.begin h hne) fun t ht => ?_
      split
      · exact keepLast_ok ht.1.1
      · next hvalid =>
        exact Code.Ok.bind (copy_ok heven ht) fun copy u hu =>
          checkCopy_ok (fun _ h => ih h) hne heven (version_of_valid ht.1.1.sane hvalid) hu

/-- Mapping the file is looking only. -/
theorem openMap_looks (opened : Bool) (now : Int) (m : Mask) : (openMap opened now m).Looks := by
  refine .ite trivial (.ite trivial (.ite trivial (Code.looks_load.bind fun magic => ?_)))
  refine .ite trivial (Code.looks_load.bind fun version => .ite trivial ?_)
  exact Code.looks_load.bind fun version => .ite trivial trivial

theorem stable_saneReader : Code.Stable ReaderRely Sane := fun _ _ _ hr => hr.1

/-- **`motion_mask_read`.** -/
theorem motionMaskRead_ok (opened : Bool) (now : Int) (hs : Sane s) :
    Code.Ok ReaderRely ReaderGuarantee A (fun _ _ => True) (motionMaskRead opened now) s := by
  have hG := ReaderGuarantee.refl
  refine Code.load_then hG stable_saneReader hs fun s hs => ?_
  refine Code.Ok.bind ((openMap_looks _ _ _).ok hG stable_saneReader hs) fun found s hs => ?_
  split
  · exact finish_ok _ _ stable_saneReader hs
  · refine Code.store_then stable_saneReader hs fun s hs _ =>
      ⟨⟨fun h => ⟨h.version, h.published, h.adopted⟩, rfl, rfl, rfl, rfl, rfl, rfl, nofun⟩, ?_⟩
    have hcalm : Calm (s.ask (BitVec.ofInt 32 now)) :=
      ⟨⟨hs.version, hs.published, hs.adopted⟩, nofun⟩
    refine Code.store_then stable_calm hcalm fun s h _ =>
      ⟨⟨fun h => ⟨h.version, h.published, h.adopted⟩, rfl, rfl, rfl, rfl, rfl, rfl,
        fun h => ⟨h, rfl⟩⟩, ?_⟩
    exact attempt_ok 2 ⟨⟨h.sane.version, h.sane.published, h.sane.adopted⟩, h.cleared⟩

theorem motionMaskClose_ok (hs : Sane s) :
    Code.Ok ReaderRely ReaderGuarantee A (fun _ _ => True) motionMaskClose s := by
  refine Code.load_then .refl stable_saneReader hs fun s hs => ?_
  split
  · refine Code.store_then stable_saneReader hs fun s hs _ =>
      ⟨⟨fun h => ⟨h.version, h.published, h.adopted⟩, rfl, rfl, rfl, rfl, rfl, rfl,
        fun h => ⟨h, rfl⟩⟩, ?_⟩
    refine Code.ok_rmw stable_saneReader ⟨hs.version, hs.published, hs.adopted⟩ fun s hs _ =>
      ⟨setMask_guarantees _, fun _ _ => trivial⟩
  · exact fun _ _ => trivial

end Programs

/-! ## 5. Any interleaving -/

def MapRely : Party → Map → Map → Prop
  | .producer => ProducerRely
  | .reader => ReaderRely

def MapGuarantee : Party → Map → Map → Prop
  | .producer => ProducerGuarantee
  | .reader => ReaderGuarantee

/-- A producer at rest is ready if it is hooked; the reader need know nothing. -/
def Resting : Party → Map → Prop
  | .producer => AtRest
  | .reader => fun _ => True

/-- **Producer and reader side by side**, where `memset` takes the generation whole. -/
theorem mapSystem_sound : Sound (mapSystem Memset.Whole) MapRely MapGuarantee Few Sane Resting where
  other i j hij s s' hs hg := by
    match i, j with
    | .producer, .producer => exact absurd rfl hij
    | .producer, .reader => exact ⟨hg.1 hs, hg.2⟩
    | .reader, .producer => exact ⟨hg.1 hs, hg.2⟩
    | .reader, .reader => exact absurd rfl hij
  keeps i s s' hs hg := by
    cases i with
    | producer => exact hg.1 hs
    | reader => exact hg.1 hs
  idle i := by
    cases i with
    | producer => exact stable_atRest
    | reader => exact fun _ _ _ _ => trivial
  call i x c hc s hs hidle := by
    match i, x with
    | .producer, .start eligible ms h => exact Option.some.inj hc ▸ initializeMap_ok eligible h hs
    | .producer, .publish p => exact Option.some.inj hc ▸ publishAfterFlush_ok p hs hidle
    | .producer, .read _ _ => exact absurd hc nofun
    | .producer, .close => exact absurd hc nofun
    | .reader, .read opened now =>
      refine Option.some.inj hc ▸ Code.Ok.bind (motionMaskRead_ok opened now.ms hs) ?_
      exact fun _ _ _ _ _ => trivial
    | .reader, .close => exact Option.some.inj hc ▸ motionMaskClose_ok hs
    | .reader, .start _ _ _ => exact absurd hc nofun
    | .reader, .publish _ => exact absurd hc nofun
  bury i s hs := by
    have hs' : ∀ hooked mask, Sane { s with hooked := hooked, mask := mask } := fun _ _ =>
      ⟨hs.version, hs.published, hs.adopted⟩
    cases i with
    | producer =>
      refine ⟨hs' _ _, fun h => absurd h nofun, fun j hj => ?_⟩
      cases j with
      | producer => exact absurd rfl hj
      | reader => exact ⟨hs' _ _, .of_eq rfl rfl rfl rfl⟩
    | reader =>
      refine ⟨hs' _ _, trivial, fun j hj => ?_⟩
      cases j with
      | producer => exact ⟨hs' _ _, rfl, rfl, rfl, rfl, rfl, rfl, fun h => ⟨h, rfl⟩⟩
      | reader => exact absurd rfl hj

/-- **What is adopted was published**, in every run from the file as it is made: producers and
    readers start, publish, read and die in any order, fewer than 2^31 publications begun by a
    producer, their `memset` in any widths that take the generation by one store. -/
theorem adopted_published (cells : Nat → UInt8) (vectorPixels differenceThreshold : Int)
    (es : List (Event Party (MapCall Memset.Whole)))
    (hes : StepsMeet (mapSystem Memset.Whole).step (Machine.Meets Few)
      (Machine.idle (Map.fresh (Mask.zero cells vectorPixels differenceThreshold))) es) :
    let s := (run (mapSystem Memset.Whole).step
      (Machine.idle (Map.fresh (Mask.zero cells vectorPixels differenceThreshold))) es).memory
    ∀ f ∈ s.adopted, f ∈ s.log := by
  have hrest : ∀ i, Resting i (Map.fresh (Mask.zero cells vectorPixels differenceThreshold)) := by
    intro i
    cases i with
    | producer => exact fun h => absurd h nofun
    | reader => exact trivial
  exact (mapSystem_sound.run (sane_fresh _) hrest hes).adopted

/-! ### A run -/

section Sample

def noon : Clock := ⟨3000, by decide⟩

/-- A frame of a picture whose vectors are `v`. -/
def samplePublication (frame : Word) (v : UInt8) : Publication where
  flushed := true
  found := true
  now := noon
  pid := 7#32
  frame := frame
  nativeType := 0#32
  address _ := v
  sad _ := 0

def sampleMask : Mask := Mask.zero (fun _ => 48) 1 0

/-- Stores by pages: the header goes with the first. -/
def pages : Memset := ⟨[4096, 4232], rfl⟩

theorem pages_whole : pages.Whole := by
  intro n
  match n with
  | 0 => exact .inl (by decide)
  | 1 => exact .inr (by decide)
  | n + 2 => exact .inr (by simp [pages])

theorem within_fresh : Within 0 (Machine.idle (Map.fresh sampleMask)) :=
  ⟨fun _ => 0, fun _ _ h => absurd h nofun, Nat.le_refl 0⟩

/-- The file is mapped and the reader asked. -/
def asking : Map :=
  (((Map.fresh sampleMask).started.ask (BitVec.ofInt 32 3000)).setEnabled 1#32).setMask
    (sampleMask.waiting 3000)

theorem asking_accepts (frame : Word) (v : UInt8) : Accepts (samplePublication frame v) asking :=
  ⟨rfl, rfl, rfl, rfl, rfl, fun _ _ => rfl⟩

/-- A producer starts and the reader asks. -/
theorem asking_run {W : Memset → Prop} (ms : Memset) (hms : W ms) :
    ∃ es, run (mapSystem W).step (Machine.idle (Map.fresh sampleMask)) es = Machine.idle asking ∧
      es.countP isPublish = 0 := by
  have hfirst := motionMaskRead_first 3000 (s := (Map.fresh sampleMask).started) rfl
    (by decide) rfl rfl rfl rfl
  obtain ⟨es₁, hrun₁, hcount₁⟩ := call_run (W := W) (m := Machine.idle (Map.fresh sampleMask))
    (i := .producer) (x := .start true ms hms) rfl rfl
    (congrArg Prod.fst (initializeMap_alone ms (Map.fresh sampleMask)))
  obtain ⟨es₂, hrun₂, hcount₂⟩ :=
    call_run (W := W) (m := Machine.idle (Map.fresh sampleMask).started)
    (i := .reader) (x := .read true noon) rfl rfl (void_alone hfirst)
  refine ⟨es₁ ++ es₂, ?_, ?_⟩
  · rw [run_append, hrun₁]
    exact hrun₂
  · rw [List.countP_append, hcount₁, hcount₂]
    rfl

/-- The reader asks, a frame is published, the reader adopts it. -/
theorem sample_run : ∃ es, StepsMeet (mapSystem Memset.Whole).step (Machine.Meets Few)
      (Machine.idle (Map.fresh sampleMask)) es ∧
    (run (mapSystem Memset.Whole).step (Machine.idle (Map.fresh sampleMask)) es).memory.adopted =
      [(samplePublication 1#32 0).sample] := by
  obtain ⟨m, rc, hadopted, hframe⟩ := consider_usable (sampleMask.waiting 3000) 3000
    (samplePublication 1#32 0).sample (by decide) (by decide) (by decide)
    (by decide)
  have hagain := motionMaskRead_again 3000
    (s := asking.published (samplePublication 1#32 0) 1) rfl (by decide) (by decide) rfl hadopted
  obtain ⟨es₁, hrun₁, hcount₁⟩ := asking_run pages pages_whole
  obtain ⟨es₂, hrun₂, hcount₂⟩ := publishes_run (W := Memset.Whole) (Machine.idle asking) rfl
    (asking_accepts 1#32 0) 1
  obtain ⟨es₃, hrun₃, hcount₃⟩ := call_run (W := Memset.Whole)
    (m := ⟨asking.published (samplePublication 1#32 0) 1, fun _ => none⟩) (i := .reader)
    (x := .read true noon) rfl rfl (void_alone hagain)
  refine ⟨es₁ ++ (es₂ ++ es₃), few_of_calls within_fresh ?_, ?_⟩
  · rw [List.countP_append, List.countP_append, hcount₁, hcount₂, hcount₃]
    decide
  · rw [run_append, hrun₁, run_append, hrun₂]
    exact (congrArg (fun m => m.memory.adopted) hrun₃).trans (congrArg ([·]) hframe)

/-- A run in which a frame is adopted. -/
theorem adopted_published_once : ∃ es : List (Event Party (MapCall Memset.Whole)),
    (run (mapSystem Memset.Whole).step (Machine.idle (Map.fresh sampleMask)) es).memory.adopted =
      [(samplePublication 1#32 0).sample] ∧
    ∀ f ∈ (run (mapSystem Memset.Whole).step
        (Machine.idle (Map.fresh sampleMask)) es).memory.adopted,
      f ∈ (run (mapSystem Memset.Whole).step (Machine.idle (Map.fresh sampleMask)) es).memory.log := by
  obtain ⟨es, hmeets, hadopted⟩ := sample_run
  exact ⟨es, hadopted, adopted_published (fun _ => 48) 1 0 es hmeets⟩

/-! ### A `memset` by bytes -/

def byBytes : Memset where
  widths := List.replicate 13 1 ++ List.replicate (SHARED_SIZE - 13) 1
  total := by
    rw [List.sum_append_nat, List.sum_replicate_nat, List.sum_replicate_nat]
    decide

/-- The threads in the two slots. -/
def duo (s : Map) (producer reader : Option (Code Map Unit)) : Machine Party Map :=
  ⟨s, fun i => match i with | .producer => producer | .reader => reader⟩

/-- One machine comes to the other, with `n` calls of the hook. -/
def Goes (n : Nat) (m m' : Machine Party Map) : Prop :=
  ∃ es : List (Event Party (MapCall fun _ => True)),
    run (mapSystem fun _ => True).step m es = m' ∧ es.countP isPublish = n

theorem Goes.trans {n k : Nat} {m m' m'' : Machine Party Map} (h : Goes n m m') (h' : Goes k m' m'') :
    Goes (n + k) m m'' := by
  obtain ⟨es, hes, hcount⟩ := h
  obtain ⟨es', hes', hcount'⟩ := h'
  refine ⟨es ++ es', ?_, ?_⟩
  · rw [run_append, hes, hes']
  · rw [List.countP_append, hcount, hcount']

section Goes

variable {p r : Option (Code Map Unit)} {c : Code Map Unit}

theorem update_producer (s : Map) (x : Option (Code Map Unit)) :
    Function.update (duo s p r).code .producer x = (duo s x r).code := by
  funext i
  cases i <;> rfl

theorem update_reader (s : Map) (x : Option (Code Map Unit)) :
    Function.update (duo s p r).code .reader x = (duo s p x).code := by
  funext i
  cases i <;> rfl

theorem goes_producer (n : Nat) (s : Map) :
    Goes 0 (duo s c.rest r) (duo (c.after n s).1 (c.after n s).2.rest r) := by
  refine ⟨_, ((mapSystem _).run_after (duo s c.rest r) .producer n rfl).trans ?_,
    countP_replicate_step _ _⟩
  rw [update_producer]
  rfl

theorem goes_reader (n : Nat) (s : Map) :
    Goes 0 (duo s p c.rest) (duo (c.after n s).1 p (c.after n s).2.rest) := by
  refine ⟨_, ((mapSystem _).run_after (duo s p c.rest) .reader n rfl).trans ?_,
    countP_replicate_step _ _⟩
  rw [update_reader]
  rfl

theorem goes_call_reader (s : Map) (opened : Bool) (now : Clock) :
    Goes 0 (duo s p none) (duo s p (motionMaskRead opened now.ms).void.rest) := by
  refine ⟨[.call .reader (.read opened now)], ?_, rfl⟩
  rw [run_cons, run_nil, (mapSystem _).step_call rfl rfl]
  exact congrArg (Machine.mk s) (update_reader s _)

/-- The producer dies and comes again. -/
theorem goes_restart (s : Map) (ms : Memset) :
    Goes 0 (duo s p r) (duo { s with hooked := false } (initializeMap true ms).rest r) := by
  refine ⟨[.kill .producer, .call .producer (.start true ms trivial)], ?_, rfl⟩
  have hkill : (mapSystem fun _ => True).step (duo s p r) (.kill .producer) =
      duo { s with hooked := false } none r := congrArg (Machine.mk _) (update_producer s none)
  rw [run_cons, hkill, run_cons, run_nil, (mapSystem _).step_call rfl rfl]
  exact congrArg (Machine.mk _) (update_producer _ _)

theorem goes_copy (s : Map) (ks ks' : List (Fin FRAME_SIZE)) (copy : Frame)
    (f : Frame → Code Map Unit) :
    Goes 0 (duo s p (gather Map.sample (ks ++ ks') copy >>= f).rest)
      (duo s p (gather Map.sample ks' (copied s.sample ks copy) >>= f).rest) := by
  refine ⟨_, (run_gather (mapSystem _) _ .reader Map.sample ks ks' copy f rfl).trans ?_,
    countP_replicate_step _ _⟩
  rw [update_reader]
  rfl

theorem goes_end_producer (s : Map) : Goes 0 (duo s c.rest r) (duo (c.alone s).1 none r) := by
  obtain ⟨n, hn⟩ := (mapSystem fun _ => True).run_steps (duo s c.rest r) .producer rfl
  refine ⟨_, hn.trans ?_, countP_replicate_step _ _⟩
  rw [update_producer]
  rfl

theorem goes_end_reader (s : Map) : Goes 0 (duo s p c.rest) (duo (c.alone s).1 p none) := by
  obtain ⟨n, hn⟩ := (mapSystem fun _ => True).run_steps (duo s p c.rest) .reader rfl
  refine ⟨_, hn.trans ?_, countP_replicate_step _ _⟩
  rw [update_reader]
  rfl

end Goes

/-- The head of one frame and the body of another. -/
def mixture (f g : Frame) : Frame := fun k => if k.val < 24 then f k else g k

theorem copied_halves (f g copy : Frame) :
    copied g (sampleBytes.drop 24) (copied f (sampleBytes.take 24) copy) = mixture f g := by
  have htake : ∀ k : Fin FRAME_SIZE, k.val < 24 → k ∈ sampleBytes.take 24 := fun k hk => by
    unfold sampleBytes
    rw [List.mem_take_iff_getElem]
    exact ⟨k.val, by rw [List.length_finRange]; exact Nat.lt_min.mpr ⟨hk, k.isLt⟩, by simp⟩
  have hdrop : ∀ k : Fin FRAME_SIZE, k ∈ sampleBytes.drop 24 ↔ 24 ≤ k.val := fun k => by
    unfold sampleBytes
    rw [List.mem_drop_iff_getElem]
    constructor
    · rintro ⟨j, hj, rfl⟩
      simp
    · intro hk
      exact ⟨k.val - 24, by simp; omega, by simp [hk]⟩
  funext k
  unfold mixture
  split
  · next hk =>
    exact (copied_of_notMem fun h => absurd ((hdrop k).mp h) (by omega)).trans
      (copied_of_mem (htake k hk))
  · next hk => exact copied_of_mem ((hdrop k).mpr (by omega))

/-- The first frame, published until the generation is 256, and the frame after it. -/
def firstFrame : Publication := samplePublication 1#32 0

def nextFrame : Publication := samplePublication 2#32 1

/-- 128 publications. -/
def counted : Map := asking.published firstFrame 128

/-- The reader stored its time. -/
def reading : Map := (counted.ask (BitVec.ofInt 32 3000)).setEnabled 1#32

/-- The next frame is published, and the producer dies. -/
def dead : Map := { reading.published nextFrame 1 with hooked := false }

theorem mixture_usable : ∃ m rc, consider (sampleMask.waiting 3000) 3000 MOTION_MAP_VERSION
    (mixture firstFrame.sample nextFrame.sample) = .adopted m rc ∧
      m.frame = mixture firstFrame.sample nextFrame.sample :=
  consider_usable _ 3000 _ (by decide) (by decide) (by decide) (by decide)

/-- The reader has the head of the first frame and the body of the next. -/
theorem goes_mixed (c : Code Map Unit) (hc : c = compare (sampleMask.waiting 3000) 3000 256#32
      (mixture firstFrame.sample nextFrame.sample)) :
    Goes 129 (Machine.idle (Map.fresh sampleMask)) (duo (reading.published nextFrame 1) none c.rest) := by
  subst hc
  obtain ⟨es₁, hrun₁, hcount₁⟩ := asking_run (W := fun _ => True) pages trivial
  obtain ⟨es₂, hrun₂, hcount₂⟩ := publishes_run (W := fun _ => True) (Machine.idle asking) rfl
    (asking_accepts 1#32 0) 128
  have h₁ : Goes (0 + 128) (Machine.idle (Map.fresh sampleMask)) (duo counted none none) := by
    refine Goes.trans ⟨es₁, hrun₁, hcount₁⟩ ⟨es₂, hrun₂.trans ?_, hcount₂⟩
    refine congrArg (Machine.mk counted) (funext fun i => ?_)
    cases i <;> rfl
  have h₂ := goes_call_reader (p := none) counted true noon
  have h₃ := goes_reader (p := none) (c := (motionMaskRead true noon.ms).void) 5 counted
  have hgen : counted.generation = 256#32 := by decide
  rw [show noon.ms = 3000 from rfl, motionMaskRead_begun 3000 rfl (by decide) (by decide) rfl, hgen] at h₃
  have h₄ := goes_copy (p := none) reading (sampleBytes.take 24) (sampleBytes.drop 24) (fun _ => 0)
    (compare (sampleMask.waiting 3000) 3000 256#32)
  rw [List.take_append_drop] at h₄
  have haccepts : Accepts nextFrame reading :=
    ⟨rfl, rfl, rfl, rfl, rfl, fun k hk => sample_reserved (p := firstFrame) hk⟩
  have h₅ : ∀ r, Goes 1 (duo reading none r) (duo (reading.published nextFrame 1) none r) :=
    fun r => publishes_run (duo reading none r) rfl haccepts 1
  have h₆ := fun copy => goes_copy (p := none) (reading.published nextFrame 1) (sampleBytes.drop 24) []
    copy (compare (sampleMask.waiting 3000) 3000 256#32)
  rw [List.append_nil] at h₆
  have hfirst : reading.sample = firstFrame.sample := published_sample firstFrame (by decide) asking
  have hnext := published_sample nextFrame (n := 1) (by decide) reading
  rw [hfirst] at h₄
  have h₇ := h₆ (copied firstFrame.sample (sampleBytes.take 24) fun _ => 0)
  rw [hnext, copied_halves] at h₇
  exact ((((h₁.trans h₂).trans h₃).trans h₄).trans (h₅ _)).trans h₇

/-- What is left of a start whose `memset` has come to the generation's second byte. -/
def restOfStart : Code Map Unit := do
  Code.stores (clearStores 13 (List.replicate (SHARED_SIZE - 13) 1))
  Code.store Map.setMagic
  Code.store Map.setVersion
  Code.store Map.hook

theorem restart_begun (s : Map) :
    (initializeMap true byBytes).after 14 s = (s.spawn.clear 0 13, restOfStart) := by
  have hbytes : clearStores 0 byBytes.widths = clearStores 0 (List.replicate 13 1) ++
      clearStores 13 (List.replicate (SHARED_SIZE - 13) 1) :=
    clearStores_append (List.replicate 13 1) (List.replicate (SHARED_SIZE - 13) 1) 0
  have hafter := Code.after_stores (clearStores 0 (List.replicate 13 1))
    (clearStores 13 (List.replicate (SHARED_SIZE - 13) 1))
    (fun _ => Code.store Map.setMagic >>= fun _ => Code.store Map.setVersion >>= fun _ =>
      Code.store Map.hook) s.spawn
  rw [clears_eq, clearStores_length] at hafter
  rw [initializeMap, Code.after_store, if_neg (by decide), hbytes]
  exact hafter

theorem restOfStart_alone (s : Map) : (restOfStart.alone (s.spawn.clear 0 13)).1 = s.started := by
  have hrest : 13 + (List.replicate (SHARED_SIZE - 13) 1).sum = SHARED_SIZE := by
    rw [List.sum_replicate_nat]
    decide
  simp only [restOfStart, Code.alone_bind, Code.alone_stores, clears_eq, hrest, Code.alone_store_last]
  rw [clear_clear (Nat.zero_le 13) (by decide), clear_all]

/-- **A torn generation lets a mixture through.** -/
theorem torn_generation : ¬ ∀ (cells : Nat → UInt8) (vectorPixels differenceThreshold : Int)
    (es : List (Event Party (MapCall fun _ => True))),
    StepsMeet (mapSystem fun _ => True).step (Machine.Meets Few)
      (Machine.idle (Map.fresh (Mask.zero cells vectorPixels differenceThreshold))) es →
    let s := (run (mapSystem fun _ => True).step
      (Machine.idle (Map.fresh (Mask.zero cells vectorPixels differenceThreshold))) es).memory
    ∀ f ∈ s.adopted, f ∈ s.log := by
  intro h
  obtain ⟨m, rc, hadopted, hframe⟩ := mixture_usable
  have hmixed := goes_mixed _ rfl
  have hdead := goes_restart (p := none) (r := (compare (sampleMask.waiting 3000) 3000 256#32
    (mixture firstFrame.sample nextFrame.sample)).rest) (reading.published nextFrame 1) byBytes
  have hclear :=
    goes_producer (c := initializeMap true byBytes) (r := (compare (sampleMask.waiting 3000)
    3000 256#32 (mixture firstFrame.sample nextFrame.sample)).rest) 14 dead
  rw [restart_begun] at hclear
  have hagain : (dead.spawn.clear 0 13).generation = 256#32 := by decide
  obtain ⟨d, hlook, hend⟩ := compare_again hagain hadopted
  have hsecond :=
    goes_reader (p := restOfStart.rest) (c := compare (sampleMask.waiting 3000) 3000 256#32
    (mixture firstFrame.sample nextFrame.sample)) 1 (dead.spawn.clear 0 13)
  rw [hlook] at hsecond
  have hready := goes_end_producer (c := restOfStart) (r := d.rest) (dead.spawn.clear 0 13)
  rw [restOfStart_alone] at hready
  have hadopt := goes_end_reader (p := none) (c := d) dead.started
  rw [hend _ rfl] at hadopt
  obtain ⟨es, hes, hcount⟩ :=
    ((((hmixed.trans hdead).trans hclear).trans hsecond).trans hready).trans
    hadopt
  have hmem := h (fun _ => 48) 1 0 es (few_of_calls within_fresh (by rw [hcount]; decide)) m.frame
  rw [show Map.fresh (Mask.zero (fun _ => 48) 1 0) = Map.fresh sampleMask from rfl, hes] at hmem
  have hlog := hmem List.mem_cons_self
  rw [hframe] at hlog
  rcases List.mem_cons.mp hlog with hnext | hfirst
  · exact absurd (congrFun hnext ⟨4, by decide⟩) (by decide)
  · have hreplicate : mixture firstFrame.sample nextFrame.sample ∈
        List.replicate 128 firstFrame.sample ++ [] := hfirst
    rw [List.append_nil] at hreplicate
    have heq := List.eq_of_mem_replicate hreplicate
    exact absurd (congrFun heq ⟨24, by decide⟩) (by decide)

end Sample

end YiHack.Spatial
