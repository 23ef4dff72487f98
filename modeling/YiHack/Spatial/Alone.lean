/-
  File:      YiHack/Spatial/Alone.lean
  Subject:   What producer and reader of the motion map do where nobody interrupts them.

  * `initializeMap_alone`, `publishAfterFlush_alone`, `attempt_alone` -- the programs;
  * `start_run`, `publishes_run` -- their calls, whatever the other party is at.
-/
import YiHack.Spatial.Mapping

namespace YiHack.Spatial

open General

variable {W : Memset → Prop} {s : Map}

/-! ## 1. Calls that nobody interrupts -/

/-- A call of the hook. -/
def isPublish : Event Party (MapCall W) → Bool
  | .call _ (.publish _) => true
  | _ => false

/-- The publications an event calls for. -/
def calls (e : Event Party (MapCall W)) : Nat := if isPublish e then 1 else 0

theorem countP_replicate_step (i : Party) (n : Nat) :
    (List.replicate n (Event.step i : Event Party (MapCall W))).countP isPublish = 0 := by
  simp [List.countP_replicate, isPublish]

/-- **A call from its beginning to its end**, whatever the other party is at. -/
theorem call_run {m : Machine Party Map} {i : Party} {x : MapCall W} {c : Code Map Unit} {s' : Map}
    (hfree : m.code i = none) (hc : (mapSystem W).program i x = some c)
    (halone : (c.alone m.memory).1 = s') :
    ∃ es, run (mapSystem W).step m es = ⟨s', m.code⟩ ∧ es.countP isPublish = calls (.call i x) := by
  subst halone
  obtain ⟨n, hn⟩ := (mapSystem W).run_call m i hfree hc
  refine ⟨_, hn, ?_⟩
  rw [List.countP_cons, countP_replicate_step, Nat.zero_add, calls]

theorem void_alone {α : Type} {c : Code Map α} {s s' : Map} {a : α} (h : c.alone s = (s', a)) :
    (c.void.alone s).1 = s' := by
  rw [Code.void, Code.alone_bind, h]
  rfl

/-! ## 2. The producer starts -/

/-- No byte is cleared. -/
theorem clear_nothing (off : Nat) (s : Map) : s.clear off off = s := by
  have hnone : ∀ a, ¬ (off ≤ a ∧ a < off) := fun a => by omega
  simp only [Map.clear, hnone, eraseWord_nothing, if_false, decide_false, Bool.not_false, Bool.and_true]

/-- **Two stores of `memset` that follow each other are one.** -/
theorem clear_clear {lo mid hi : Nat} (hlo : lo ≤ mid) (hhi : mid ≤ hi) (s : Map) :
    (s.clear lo mid).clear mid hi = s.clear lo hi := by
  have hsplit : ∀ a, (lo ≤ a ∧ a < hi) ↔ (lo ≤ a ∧ a < mid) ∨ (mid ≤ a ∧ a < hi) := fun a => by
    omega
  have hasked : (s.asked && !decide (lo ≤ 15 ∧ 15 < mid) && !decide (mid ≤ 15 ∧ 15 < hi)) =
      (s.asked && !decide (lo ≤ 15 ∧ 15 < hi)) := by
    simp only [hsplit 15, Bool.decide_or, Bool.not_or, Bool.and_assoc]
  have hsample : (fun k : Fin FRAME_SIZE => if mid ≤ 24 + k.val ∧ 24 + k.val < hi then (0 : UInt8)
        else if lo ≤ 24 + k.val ∧ 24 + k.val < mid then 0 else s.sample k) =
      fun k => if lo ≤ 24 + k.val ∧ 24 + k.val < hi then 0 else s.sample k := by
    funext k
    by_cases hmid : 24 + k.val < mid
    · have hsecond : ¬ (mid ≤ 24 + k.val ∧ 24 + k.val < hi) := by omega
      have hfirst : (lo ≤ 24 + k.val ∧ 24 + k.val < mid) ↔ (lo ≤ 24 + k.val ∧ 24 + k.val < hi) := by
        omega
      simp only [hsecond, if_false, hfirst]
    · have hfirst : ¬ (lo ≤ 24 + k.val ∧ 24 + k.val < mid) := by omega
      have hsecond : (mid ≤ 24 + k.val ∧ 24 + k.val < hi) ↔ (lo ≤ 24 + k.val ∧ 24 + k.val < hi) := by
        omega
      simp only [hfirst, if_false, hsecond]
  simp only [Map.clear, eraseWord_join hlo hhi, hasked]
  rw [← hsample]

theorem clears_eq (widths : List Nat) (off : Nat) (s : Map) :
    (clearStores off widths).foldl (fun s f => f s) s = s.clear off (off + widths.sum) := by
  induction widths generalizing off s with
  | nil => exact (clear_nothing off s).symm
  | cons width widths ih =>
    show (clearStores (off + width) widths).foldl _ (s.clear off (off + width)) = _
    rw [ih, clear_clear (Nat.le_add_right off width) (Nat.le_add_right _ _), List.sum_cons,
      Nat.add_assoc]

theorem clearStores_length (widths : List Nat) (off : Nat) :
    (clearStores off widths).length = widths.length := by
  induction widths generalizing off with
  | nil => rfl
  | cons width widths ih => exact congrArg (· + 1) (ih _)

theorem clearStores_append (widths widths' : List Nat) (off : Nat) :
    clearStores off (widths ++ widths') =
      clearStores off widths ++ clearStores (off + widths.sum) widths' := by
  induction widths generalizing off with
  | nil => rfl
  | cons width widths ih =>
    show Map.clear off (off + width) :: clearStores (off + width) (widths ++ widths') = _
    rw [ih, List.sum_cons, ← Nat.add_assoc]
    rfl

/-- Behind a start. -/
def Map.started (s : Map) : Map :=
  { s with
    magic := MOTION_MAP_MAGIC
    version := MOTION_MAP_VERSION
    enabled := 0#32
    generation := 0#32
    readerMs := 0#32
    sample := fun _ => 0
    hooked := true
    asked := false
    begun := 0 }

theorem clear_all (s : Map) :
    (s.spawn.clear 0 SHARED_SIZE).setMagic.setVersion.hook = s.started := by
  have hword : ∀ (base : Nat) (w : Word), base ≤ 16 → eraseWord base 0 SHARED_SIZE w = 0#32 :=
    fun base w h => eraseWord_all (Nat.zero_le base) (by unfold SHARED_SIZE; omega)
  have hsample : (s.spawn.clear 0 SHARED_SIZE).sample = fun _ => 0 := by
    funext k
    exact if_pos ⟨Nat.zero_le _, Nat.add_lt_add_left k.isLt 24⟩
  have hasked : (s.asked && !decide (0 ≤ 15 ∧ 15 < SHARED_SIZE)) = false := by
    have hin : 0 ≤ 15 ∧ 15 < SHARED_SIZE := by decide
    simp [hin]
  simp only [Map.hook, Map.setVersion, Map.setMagic, hsample]
  simp only [Map.clear, Map.spawn, hword 8 _ (by decide), hword 12 _ (by decide),
    hword 16 _ (by decide), hasked, Map.started]

theorem initializeMap_alone (ms : Memset) (s : Map) :
    (initializeMap true ms).alone s = (s.started, ()) := by
  simp only [initializeMap, Code.alone_bind, Code.alone_stores, clears_eq, ms.total, Nat.zero_add,
    Code.alone_store_last, if_false, Bool.true_eq_false, clear_all]

/-! ## 3. The producer publishes -/

section Publish

variable {p : Publication}

theorem puts_eq (p : Publication) (ks : List (Fin FRAME_SIZE)) (s : Map) :
    (ks.map fun k => Map.put (k, p.sample k)).foldl (fun s f => f s) s =
      { s with sample := copied p.sample ks s.sample } := by
  induction ks generalizing s with
  | nil => rfl
  | cons k ks ih => exact ih _

theorem stores_eq (hres : ∀ k, isReserved k = true → s.sample k = p.sample k) :
    p.stores.foldl (fun s f => f s) s = { s with sample := p.sample } := by
  have hcopied : copied p.sample (sampleBytes.filter fun k => !isReserved k) s.sample =
      p.sample := by
    funext k
    cases hk : isReserved k with
    | true => exact (copied_of_notMem (by simp [hk])).trans (hres k hk)
    | false => exact copied_of_mem (by simp [hk, mem_sampleBytes])
  rw [Publication.stores, puts_eq, hcopied]

theorem sample_reserved {k : Fin FRAME_SIZE} (hk : isReserved k = true) : p.sample k = 0 := by
  simp only [isReserved, Bool.and_eq_true, decide_eq_true_eq] at hk
  simp only [Publication.sample]
  rw [if_neg (by omega), if_neg (by omega), if_neg (by omega), if_pos hk.2]

/-- The hook publishes `p`. -/
structure Accepts (p : Publication) (s : Map) : Prop where
  flushed : p.flushed = true
  found : p.found = true
  hooked : s.hooked = true
  enabled : s.enabled = 1#32
  near : s.readerMs = BitVec.ofInt 32 p.now.ms
  reserved : ∀ k, isReserved k = true → s.sample k = 0

/-- Behind `n` publications. -/
def Map.published (p : Publication) (n : Nat) (s : Map) : Map :=
  { s with
    generation := s.generation + BitVec.ofNat 32 (2 * n)
    begun := s.begun + n
    sample := if n = 0 then s.sample else p.sample
    log := List.replicate n p.sample ++ s.log }

theorem published_sample (p : Publication) {n : Nat} (hn : n ≠ 0) (s : Map) :
    (s.published p n).sample = p.sample := if_neg hn

theorem Accepts.published (h : Accepts p s) (n : Nat) : Accepts p (s.published p n) where
  flushed := h.flushed
  found := h.found
  hooked := h.hooked
  enabled := h.enabled
  near := h.near
  reserved k hk := by
    show (if n = 0 then s.sample else p.sample) k = 0
    split
    · exact h.reserved k hk
    · exact sample_reserved hk

theorem publishAfterFlush_alone (h : Accepts p s) :
    (publishAfterFlush p).alone s = (s.published p 1, ()) := by
  have hres : ∀ k, isReserved k = true →
      (s.openSample (s.generation + 1#32)).sample k = p.sample k := fun k hk =>
    (h.reserved k hk).trans (sample_reserved hk).symm
  have hfar : ¬ 2000#32 < BitVec.ofInt 32 p.now.ms - s.readerMs := by
    rw [h.near, BitVec.sub_self]
    decide
  have hhooked : ¬ (s.hooked = false ∨ p.flushed = false) := by simp [h.hooked, h.flushed]
  have henabled : ¬ (s.enabled = 0#32 ∨ p.found = false) := by simp [h.enabled, h.found]
  simp only [publishAfterFlush, Code.alone_bind, Code.alone_load_last, hhooked, henabled, hfar,
    if_false, Code.alone_stores, stores_eq hres, Code.alone_store_last]
  rfl

theorem published_published (n : Nat) (s : Map) :
    (s.published p n).published p 1 = s.published p (n + 1) := by
  have hgen : s.generation + BitVec.ofNat 32 (2 * n) + BitVec.ofNat 32 (2 * 1) =
      s.generation + BitVec.ofNat 32 (2 * (n + 1)) := by
    rw [BitVec.add_assoc, ← BitVec.ofNat_add, Nat.mul_add]
  simp only [Map.published, hgen, List.replicate_succ]
  rfl

/-- **`n` publications**, whatever the reader is at. -/
theorem publishes_run (m : Machine Party Map) (hfree : m.code .producer = none)
    (h : Accepts p m.memory) (n : Nat) : ∃ es, run (mapSystem W).step m es =
      ⟨m.memory.published p n, m.code⟩ ∧ es.countP isPublish = n := by
  induction n with
  | zero =>
    refine ⟨[], congrArg (Machine.mk · m.code) ?_, rfl⟩
    simp [Map.published]
  | succ n ih =>
    obtain ⟨es, hes, hcount⟩ := ih
    have hlast := congrArg Prod.fst (publishAfterFlush_alone (h.published n))
    rw [published_published] at hlast
    obtain ⟨es', hes', hcount'⟩ := call_run (W := W) (m := ⟨m.memory.published p n, m.code⟩)
      (i := .producer) (x := .publish p) hfree rfl hlast
    refine ⟨es ++ es', ?_, ?_⟩
    · rw [run_append, hes, hes']
    · rw [List.countP_append, hcount, hcount']
      rfl

end Publish

/-! ## 4. The reader -/

section Read

variable {m : Mask} {now : Int}

/-- **A copy of a published frame that is fresh and usable is adopted.** -/
theorem attempt_alone {m' : Mask} {rc : Int} (attempts : Nat) (hne : s.generation ≠ 0#32)
    (heven : odd s.generation = false) (hversion : s.version = MOTION_MAP_VERSION)
    (h : consider m now MOTION_MAP_VERSION s.sample = .adopted m' rc) :
    (attempt m now (attempts + 1)).alone s = (s.adopt m', rc) := by
  have hfirst : ¬ (s.generation = 0#32 ∨ odd s.generation = true) := by simp [hne, heven]
  have hcopy : copied s.sample sampleBytes (fun _ => 0) = s.sample :=
    funext fun k => copied_of_mem (mem_sampleBytes k)
  simp only [attempt, Code.alone_bind, Code.alone_load_last, hfirst, if_false, hversion, ne_eq,
    not_true_eq_false, false_and, gather_alone, hcopy, checkCopy, h, Code.alone_store_last,
    Code.alone_ret]

/-- The mask of a reader that found nothing published. -/
def Mask.waiting (m : Mask) (now : Int) : Mask :=
  { m with retryAfter := now + 1000, shared := true, error := 2 }

/-- **A fresh predicted frame is adopted as it is.** -/
theorem consider_usable (m : Mask) (now : Int) (copy : Frame) (hnow : now ≠ 0) (hpid : copy.pid ≠ 0#32)
    (hms : copy.monotonicMs = now) (hpredicted : copy.pFrame ≠ 0#32) :
    ∃ m' rc, consider m now MOTION_MAP_VERSION copy = .adopted m' rc ∧ m'.frame = copy := by
  have hcopy : asVersioned MOTION_MAP_VERSION copy = copy := if_neg (by decide)
  have hfresh : ¬ (copy.pid = 0#32 ∨ now < copy.monotonicMs ∨ now - copy.monotonicMs > 500) := by
    rw [hms]
    simp [hpid]
  have hlast : (m.mark now copy).lastPredictedMs = now := if_pos hpredicted
  simp only [consider, hfresh, if_false, hcopy, hlast, ne_eq, hnow, not_false_eq_true, if_true,
    Int.sub_self, show ¬ (0 : Int) > 2000 by decide]
  split
  · exact ⟨_, _, rfl, rfl⟩
  · exact ⟨_, _, rfl, rfl⟩

theorem openMap_alone (hshared : m.shared = false) (hretry : m.retryAfter ≤ now)
    (hmagic : s.magic = MOTION_MAP_MAGIC) (hversion : s.version = MOTION_MAP_VERSION) :
    (openMap true now m).alone s = (s, ({ m with retryAfter := now + 1000, shared := true }, true)) := by
  have hlate : ¬ now < m.retryAfter := Int.not_lt.mpr hretry
  simp only [openMap, hshared, Bool.false_eq_true, if_false, hlate, Bool.true_eq_false, Code.alone_bind,
    Code.alone_load_last, hmagic, ne_eq, not_true_eq_false, hversion, if_true, Code.alone_ret]

/-- **A first reading, nothing published yet**: the file is mapped and the reader asks. -/
theorem motionMaskRead_first (now : Int) (hshared : s.mask.shared = false) (hretry : s.mask.retryAfter ≤ now)
    (hmagic : s.magic = MOTION_MAP_MAGIC) (hversion : s.version = MOTION_MAP_VERSION)
    (hgen : s.generation = 0#32) (hpid : s.mask.lastPid = 0#32) :
    (motionMaskRead true now).alone s =
      (((s.ask (BitVec.ofInt 32 now)).setEnabled 1#32).setMask (s.mask.waiting now), -1) := by
  have hfirst : ((s.ask (BitVec.ofInt 32 now)).setEnabled 1#32).generation = 0#32 := hgen
  have hlast : ∀ t : Map, (keepLast { s.mask with retryAfter := now + 1000, shared := true } now).alone t
      = (t.setMask (s.mask.waiting now), -1) := fun t => by
    rw [keepLast, if_neg fun h => h.1 hpid]
    rfl
  simp only [motionMaskRead, Code.alone_bind, Code.alone_load_last, Code.alone_store_last,
    openMap_alone hshared hretry hmagic hversion, Bool.true_eq_false, if_false, attempt, hfirst,
    true_or, if_true, hlast]

/-- **A later reading** of a fresh and usable frame. -/
theorem motionMaskRead_again (now : Int) {m' : Mask} {rc : Int} (hshared : s.mask.shared = true)
    (hne : s.generation ≠ 0#32) (heven : odd s.generation = false)
    (hversion : s.version = MOTION_MAP_VERSION)
    (h : consider s.mask now MOTION_MAP_VERSION s.sample = .adopted m' rc) :
    (motionMaskRead true now).alone s =
      (((s.ask (BitVec.ofInt 32 now)).setEnabled 1#32).adopt m', rc) := by
  have hattempt := attempt_alone (s := (s.ask (BitVec.ofInt 32 now)).setEnabled 1#32) 1 hne heven
    hversion h
  simp only [motionMaskRead, openMap, Code.alone_bind, Code.alone_load_last, Code.alone_store_last,
    hshared, if_true, Code.alone_ret, Bool.true_eq_false, if_false, hattempt]

/-- What is left to a reader that has begun to copy. -/
def compare (m : Mask) (now : Int) (first : Word) (candidate : Frame) : Code Map Unit :=
  (checkCopy (attempt m now 1) m now first MOTION_MAP_VERSION candidate).void

theorem attempt_begun {α : Type} (k : Int → Code Map α) (attempts : Nat)
    (hne : s.generation ≠ 0#32) (heven : odd s.generation = false)
    (hversion : s.version = MOTION_MAP_VERSION) :
    (attempt m now (attempts + 1) >>= k).after 2 s =
      (s, gather Map.sample sampleBytes (fun _ => 0) >>= fun candidate =>
        checkCopy (attempt m now attempts) m now s.generation MOTION_MAP_VERSION candidate >>= k) := by
  have hfirst : ¬ (s.generation = 0#32 ∨ odd s.generation = true) := by simp [hne, heven]
  rw [attempt, Code.bind_assoc, Code.after_load]
  simp only [hfirst, if_false, Code.bind_assoc, Code.after_load, hversion, ne_eq,
    not_true_eq_false, false_and, Code.after_zero]

/-- **A reader up to its copy.** -/
theorem motionMaskRead_begun (now : Int) (hshared : s.mask.shared = true)
    (hne : s.generation ≠ 0#32) (heven : odd s.generation = false)
    (hversion : s.version = MOTION_MAP_VERSION) :
    ((motionMaskRead true now).void.after 5 s) =
      ((s.ask (BitVec.ofInt 32 now)).setEnabled 1#32,
        gather Map.sample sampleBytes (fun _ => 0) >>= compare s.mask now s.generation) := by
  have hopen : openMap true now s.mask = Code.ret (s.mask, true) := by
    rw [openMap, hshared, if_pos rfl]
  rw [Code.void, motionMaskRead, Code.bind_assoc, Code.after_load, hopen, Code.ret_bind,
    if_neg nofun, Code.bind_assoc, Code.after_store, Code.bind_assoc, Code.after_store]
  exact attempt_begun _ 1 hne heven hversion

/-- **The rest of a reading** behind its second look at the generation. -/
theorem compare_again {first : Word} {copy : Frame} {m' : Mask} {rc : Int} (hagain : s.generation = first)
    (h : consider m now MOTION_MAP_VERSION copy = .adopted m' rc) :
    ∃ c, (compare m now first copy).after 1 s = (s, c) ∧
      ∀ t : Map, t.version = MOTION_MAP_VERSION → (c.alone t).1 = t.adopt m' := by
  subst hagain
  rw [compare, Code.void, checkCopy, Code.bind_assoc, Code.after_load, if_neg (not_not.mpr rfl)]
  refine ⟨_, rfl, fun t ht => ?_⟩
  simp only [Code.alone_bind, Code.alone_load_last, ht, ne_eq, not_true_eq_false, if_false, h,
    Code.alone_store_last, Code.alone_ret]

end Read

/-! ## 5. How many publications begin -/

/-- The code begins at most `k` publications. -/
def Opens {α : Type} : Code Map α → Nat → Prop
  | .ret _, _ => True
  | .act run next, k => ∀ s, ∃ j, (run s).begun + j ≤ s.begun + k ∧ Opens (next s) j

section Opens

variable {α β : Type}

/-- An action that begins none. -/
theorem opens_rmw {f : Map → Map} {g : Map → α} {k : α → Code Map β} {n : Nat}
    (hf : ∀ s, (f s).begun ≤ s.begun) (hk : ∀ a, Opens (k a) n) : Opens (Code.rmw f g >>= k) n :=
  fun s => ⟨n, Nat.add_le_add_right (hf s) n, hk (g s)⟩

theorem opens_load {g : Map → α} {k : α → Code Map β} {n : Nat} (hk : ∀ a, Opens (k a) n) :
    Opens (Code.load g >>= k) n := opens_rmw (fun _ => Nat.le_refl _) hk

theorem opens_store {f : Map → Map} {k : Unit → Code Map β} {n : Nat}
    (hf : ∀ s, (f s).begun ≤ s.begun) (hk : Opens (k ()) n) : Opens (Code.store f >>= k) n :=
  opens_rmw hf fun _ => hk

theorem opens_last {f : Map → Map} (hf : ∀ s, (f s).begun ≤ s.begun) (n : Nat) :
    Opens (Code.store f) n :=
  fun s => ⟨n, Nat.add_le_add_right (hf s) n, trivial⟩

theorem Opens.mono {c : Code Map α} {k n : Nat} (h : Opens c k) (hk : k ≤ n) : Opens c n := by
  cases c with
  | ret a => trivial
  | act run next =>
    intro s
    obtain ⟨j, hj, hnext⟩ := h s
    exact ⟨j, by omega, hnext⟩

theorem Opens.bind {c : Code Map α} {f : α → Code Map β} {n k : Nat} (hc : Opens c n)
    (hf : ∀ a, Opens (f a) k) : Opens (c >>= f) (n + k) := by
  show Opens (c.bind f) (n + k)
  induction c generalizing n with
  | ret a => exact (hf a).mono (Nat.le_add_left k n)
  | act run next ih =>
    intro s
    obtain ⟨j, hj, hnext⟩ := hc s
    exact ⟨j + k, by omega, ih s hnext⟩

theorem opens_stores {fs : List (Map → Map)} (h : ∀ f ∈ fs, ∀ s, (f s).begun ≤ s.begun) :
    Opens (Code.stores fs) 0 := by
  induction fs with
  | nil => trivial
  | cons f fs ih =>
    exact opens_store (h f List.mem_cons_self) (ih fun f hf => h f (List.mem_cons_of_mem _ hf))

theorem clearStores_begun {widths : List Nat} {off : Nat} :
    ∀ f ∈ clearStores off widths, ∀ s, (f s).begun ≤ s.begun := by
  induction widths generalizing off with
  | nil => exact fun _ hf => absurd hf List.not_mem_nil
  | cons width widths ih =>
    intro f hf s
    rcases List.mem_cons.mp hf with rfl | hf
    · exact Nat.le_refl _
    · exact ih f hf s

theorem initializeMap_opens (eligible : Bool) (ms : Memset) :
    Opens (initializeMap eligible ms) 0 := by
  refine opens_store (fun s => Nat.zero_le _) ?_
  split
  · trivial
  · refine Opens.bind (n := 0) (k := 0) (opens_stores clearStores_begun) fun _ => ?_
    refine opens_store (fun _ => Nat.le_refl _) (opens_store (fun _ => Nat.le_refl _) ?_)
    exact opens_last (fun _ => Nat.le_refl _) 0

theorem publishAfterFlush_opens (p : Publication) : Opens (publishAfterFlush p) 1 := by
  refine opens_load fun hooked => ?_
  split
  · trivial
  · refine opens_load fun enabled => ?_
    split
    · trivial
    · refine opens_load fun readerMs => ?_
      split
      · trivial
      · refine opens_load fun generation => fun s => ⟨0, Nat.le_refl _, ?_⟩
        show Opens (Code.stores p.stores >>= _) 0
        refine Opens.bind (n := 0) (k := 0) (opens_stores fun f hf s => ?_) fun _ => ?_
        · obtain ⟨k, -, rfl⟩ := List.mem_map.mp hf
          exact Nat.le_refl _
        · exact opens_last (fun _ => Nat.le_refl _) 0

theorem finish_opens (m : Mask) (rc : Int) : Opens (finish m rc) 0 :=
  opens_store (fun _ => Nat.le_refl _) trivial

theorem keepLast_opens (m : Mask) (now : Int) : Opens (keepLast m now) 0 := by
  unfold keepLast
  split
  · exact finish_opens _ _
  · exact finish_opens _ _

theorem openMap_opens (opened : Bool) (now : Int) (m : Mask) : Opens (openMap opened now m) 0 := by
  unfold openMap
  split
  · trivial
  · split
    · trivial
    · split
      · trivial
      · refine opens_load fun magic => ?_
        split
        · trivial
        · refine opens_load fun version => ?_
          split
          · trivial
          · refine opens_load fun version => ?_
            split <;> trivial

theorem gather_opens (ks : List (Fin FRAME_SIZE)) (copy : Frame) :
    Opens (gather Map.sample ks copy) 0 := by
  induction ks generalizing copy with
  | nil => trivial
  | cons k ks ih => exact opens_load fun v => ih _

theorem checkCopy_opens {retry : Code Map Int} (hretry : Opens retry 0) (m : Mask) (now : Int)
    (first version : Word) (copy : Frame) : Opens (checkCopy retry m now first version copy) 0 := by
  refine opens_load fun again => ?_
  split
  · exact hretry
  · refine opens_load fun versionAgain => ?_
    split
    · exact hretry
    · split
      · exact keepLast_opens _ _
      · exact finish_opens _ _
      · exact opens_store (fun _ => Nat.le_refl _) trivial

theorem attempt_opens (m : Mask) (now : Int) (attempts : Nat) :
    Opens (attempt m now attempts) 0 := by
  induction attempts with
  | zero => exact keepLast_opens m now
  | succ attempts ih =>
    refine opens_load fun first => ?_
    split
    · exact ih
    · refine opens_load fun version => ?_
      split
      · exact keepLast_opens m now
      · exact Opens.bind (n := 0) (k := 0) (gather_opens _ _) fun copy => checkCopy_opens ih _ _ _ _ _

theorem motionMaskRead_opens (opened : Bool) (now : Int) : Opens (motionMaskRead opened now) 0 := by
  refine opens_load fun m => Opens.bind (n := 0) (k := 0) (openMap_opens _ _ _) fun found => ?_
  split
  · exact finish_opens _ _
  · exact opens_store (fun _ => Nat.le_refl _)
      (opens_store (fun _ => Nat.le_refl _) (attempt_opens _ _ _))

theorem motionMaskClose_opens : Opens motionMaskClose 0 := by
  refine opens_load fun m => ?_
  split
  · exact opens_store (fun _ => Nat.le_refl _) (opens_last (fun _ => Nat.le_refl _) 0)
  · trivial

end Opens

theorem program_opens {i : Party} {x : MapCall W} {c : Code Map Unit}
    (hc : (mapSystem W).program i x = some c) : Opens c (if isPublish (.call i x) then 1 else 0) := by
  match i, x with
  | .producer, .start eligible ms _ => exact Option.some.inj hc ▸ initializeMap_opens eligible ms
  | .producer, .publish p => exact Option.some.inj hc ▸ publishAfterFlush_opens p
  | .producer, .read _ _ => exact absurd hc nofun
  | .producer, .close => exact absurd hc nofun
  | .reader, .read opened now =>
    exact Option.some.inj hc ▸
      Opens.bind (n := 0) (k := 0) (motionMaskRead_opens opened now.ms) fun _ => trivial
  | .reader, .close => exact Option.some.inj hc ▸ motionMaskClose_opens
  | .reader, .start _ _ _ => exact absurd hc nofun
  | .reader, .publish _ => exact absurd hc nofun

/-- At most `n` publications have begun or are about to; `b` is what is left to each. -/
def Within (n : Nat) (m : Machine Party Map) : Prop :=
  ∃ b : Party → Nat, (∀ i c, m.code i = some c → Opens c (b i)) ∧
    m.memory.begun + (b .producer + b .reader) ≤ n

theorem Opens.rest {c : Code Map Unit} {k : Nat} (h : Opens c k) {d : Code Map Unit}
    (hd : c.rest = some d) : Opens d k := by
  cases c with
  | ret a => exact absurd hd nofun
  | act run next => exact Option.some.inj hd ▸ h

/-- A slot takes up a code, or is freed. -/
theorem Within.take {m : Machine Party Map} {n n' : Nat} (h : Within n m) {i : Party} {s : Map}
    {c : Option (Code Map Unit)}
    (hc : ∀ q, (∀ d, m.code i = some d → Opens d q) →
      ∃ k, (∀ d, c = some d → Opens d k) ∧ s.begun + k + n ≤ n' + m.memory.begun + q) :
    Within n' ⟨s, Function.update m.code i c⟩ := by
  obtain ⟨b, hb, hn⟩ := h
  obtain ⟨k, hk, hle⟩ := hc (b i) (hb i)
  refine ⟨Function.update b i k, fun j d hd => ?_, ?_⟩
  · by_cases hji : j = i
    · subst hji
      simp only [Function.update_self] at hd ⊢
      exact hk d hd
    · simp only [Function.update_of_ne hji] at hd ⊢
      exact hb j d hd
  · cases i with
    | producer =>
      show s.begun + (k + b .reader) ≤ n'
      omega
    | reader =>
      show s.begun + (b .producer + k) ≤ n'
      omega

/-- **A step begins a publication only where one was called for.** -/
theorem Within.step {m : Machine Party Map} {n : Nat} (h : Within n m) (e : Event Party (MapCall W)) :
    Within (n + calls e) ((mapSystem W).step m e) := by
  have hkeep : ∀ k, Within (n + k) m := by
    obtain ⟨b, hb, hn⟩ := h
    exact fun k => ⟨b, hb, by omega⟩
  cases e with
  | call i x =>
    simp only [System.step]
    split
    · next c hfree hc =>
      refine h.take fun q _ => ⟨calls (.call i x), fun d hd => (program_opens hc).rest hd, ?_⟩
      omega
    · exact hkeep _
  | step i =>
    simp only [System.step]
    split
    · next run next hcode =>
      refine h.take fun q hq => ?_
      obtain ⟨j, hj, hnext⟩ := hq _ hcode m.memory
      exact ⟨j, fun d hd => hnext.rest hd, by omega⟩
    · exact hkeep _
  | kill i =>
    refine h.take fun q _ => ⟨0, fun _ hd => absurd hd.symm (Option.some_ne_none _), ?_⟩
    have hbegun : ((mapSystem W).bury i m.memory).begun = m.memory.begun := by
      cases i <;> rfl
    rw [hbegun]
    omega

/-- **Fewer than 2^31 calls of the hook** make fewer than 2^31 publications. -/
theorem few_of_calls {m : Machine Party Map} {n : Nat} {es : List (Event Party (MapCall W))}
    (h : Within n m) (hfew : n + es.countP isPublish < 2 ^ 31) :
    StepsMeet (mapSystem W).step (Machine.Meets Few) m es := by
  induction es generalizing m n with
  | nil => trivial
  | cons e es ih =>
    have hstep := h.step e
    have hcalls : n + calls e + es.countP isPublish < 2 ^ 31 := by
      rw [List.countP_cons] at hfew
      unfold calls
      omega
    refine ⟨Machine.meets_of_step (S := mapSystem W) ?_, ih hstep hcalls⟩
    obtain ⟨b, -, hn⟩ := hstep
    show ((mapSystem W).step m e).memory.begun < 2 ^ 31
    omega

end YiHack.Spatial
