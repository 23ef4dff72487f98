/-
  File:      YiHack/Snapshot/Laps.lean
  Subject:   `imggrabber.c`: which lap of the ring the four saved records come from.

  The outer loop takes the newest batch again and again until SPS, PPS and IDR are there. What a
  walk saved stays for the next one; a walk that meets a length that cannot be clears `fhs_addr`
  and leaves the other three.

  **`saved_consistent_iff`**: when the loop is left, the pairs are those of the last walk exactly
  where this walk itself met an SPS, a PPS and an IDR, and a VPS if any walk before it met one.

  Each turn is given the content it finds.
-/
import YiHack.Snapshot.Grabber
import YiHack.General.Run

namespace YiHack.Snapshot

open General Video
open General.Wrap (Mem)
open Relation (ReflTransGen)

/-! ## 1. The outer loop -/

/-- `gone` where the inner loop is never left, or the process ended. -/
inductive Phase
  | looping
  | left
  | gone
  deriving DecidableEq, Repr

structure Grab where
  saved : Saved
  phase : Phase

def start : Grab := ⟨nothingSaved, .looping⟩

/-- "Wait for a complete frame instead of dereferencing missing records." -/
def Complete (s : Saved) : Prop :=
  (s .sps).addr ≠ none ∧ (s .pps).addr ≠ none ∧ (s .idr).addr ≠ none

instance (s : Saved) : Decidable (Complete s) := inferInstanceAs (Decidable (_ ∧ _ ∧ _))

/-- One turn of the outer loop. -/
def turn (g : Geometry) (res : Resolution) (st : Grab) (m : Mem) : Grab :=
  match st.phase with
  | .looping =>
    if HeaderOk g m then
      -- as many turns as a walk that comes to an end can take
      match innerLoop g res m (g.size + 2) (bufIdx g m) st.saved with
      | some (.atEnd s) => ⟨s, if Complete s then .left else .looping⟩
      | some (.tooLong s) => ⟨s, if Complete s then .left else .looping⟩
      | some .outside => ⟨st.saved, .gone⟩
      | none => ⟨st.saved, .gone⟩
    else st
  | .left => st
  | .gone => st

/-! ## 2. What a walk records -/

/-- The walk from `cur` on passes a record at `a` and saves it as `k`. -/
def Records (g : Geometry) (res : Resolution) (m : Mem) (cur : Int) (k : Kind) (a : Int)
    (fh : FrameHeader) : Prop :=
  ReflTransGen (Follows g m) cur a ∧ PassedAt g m a fh ∧ kindOf res fh = some k

/-- The walk over the newest batch meets a record of the kind. -/
def Meets (g : Geometry) (res : Resolution) (m : Mem) (k : Kind) : Prop :=
  ∃ a fh, Records g res m (bufIdx g m) k a fh

/-- The pairs were all recorded by a walk over `m` that reached `buf_idx_end`, and their headers
    are in `m`. -/
structure Consistent (g : Geometry) (res : Resolution) (m : Mem) (s : Saved) : Prop where
  reached : ReflTransGen (Follows g m) (bufIdx g m) (endOf g m)
  recorded : ∀ (k : Kind) (a : Int), (s k).addr = some a →
    Records g res m (bufIdx g m) k a (s k).header
  there : ∀ (k : Kind) (a : Int), (s k).addr = some a → headerAt g m a = some (s k).header

variable {g : Geometry} {res : Resolution} {m : Mem}

theorem PassedAt.unique {a : Int} {fh fh' : FrameHeader} (h : PassedAt g m a fh)
    (h' : PassedAt g m a fh') : fh = fh' := Option.some.inj (h.2.1.symm.trans h'.2.1)

theorem not_records {cur : Int} (h : ∀ fh, ¬ PassedAt g m cur fh) (k : Kind) (a : Int)
    (fh : FrameHeader) : ¬ Records g res m cur k a fh := by
  rintro ⟨hto, hpass, -⟩
  rcases hto.cases_head with rfl | ⟨b, ⟨fh', hpass', -⟩, -⟩
  · exact h fh hpass
  · exact h fh' hpass'

theorem records_iff {cur : Int} {fh : FrameHeader} (h : PassedAt g m cur fh) (k : Kind) (a : Int)
    (fh' : FrameHeader) :
    Records g res m cur k a fh' ↔ (a = cur ∧ fh' = fh ∧ kindOf res fh = some k) ∨
      Records g res m (cbMove g cur (fh.len + g.header.size)) k a fh' := by
  constructor
  · rintro ⟨hto, hpass, hkind⟩
    rcases hto.cases_head with rfl | ⟨b, ⟨fh₁, hpass₁, rfl⟩, hrest⟩
    · obtain rfl := hpass.unique h
      exact .inl ⟨rfl, rfl, hkind⟩
    · obtain rfl := hpass₁.unique h
      exact .inr ⟨hrest, hpass, hkind⟩
  · rintro (⟨rfl, rfl, hkind⟩ | ⟨hto, hpass, hkind⟩)
    · exact ⟨.refl, h, hkind⟩
    · exact ⟨.head ⟨fh, h, rfl⟩ hto, hpass, hkind⟩

/-- From `s` to `s'`: a pair keeps its value where the walk records none of its kind, and holds a
    record of the walk otherwise. -/
def Walked (g : Geometry) (res : Resolution) (m : Mem) (cur : Int) (s s' : Saved) : Prop :=
  ∀ k, (s' k = s k ∧ ∀ a fh, ¬ Records g res m cur k a fh) ∨
    ∃ a, (s' k).addr = some a ∧ Records g res m cur k a (s' k).header

theorem save_self {fh : FrameHeader} {k : Kind} (h : kindOf res fh = some k) (cur : Int)
    (s : Saved) : save res cur fh s k = ⟨fh, some cur⟩ := by
  unfold save
  rw [h]
  exact Function.update_self _ _ _

theorem save_of_ne {fh : FrameHeader} {k : Kind} (h : kindOf res fh ≠ some k) (cur : Int)
    (s : Saved) : save res cur fh s k = s k := by
  unfold save
  cases hk : kindOf res fh with
  | none => rfl
  | some k' => exact Function.update_of_ne (fun e => h (by rw [hk, e])) _ _

theorem walked_nothing {cur : Int} (h : ∀ fh, ¬ PassedAt g m cur fh) (s : Saved) :
    Walked g res m cur s s := fun k => .inl ⟨rfl, not_records h k⟩

theorem walked_step {cur : Int} {fh : FrameHeader} (h : PassedAt g m cur fh) {s s' : Saved}
    (hrest : Walked g res m (cbMove g cur (fh.len + g.header.size)) (save res cur fh s) s') :
    Walked g res m cur s s' := by
  intro k
  rcases hrest k with ⟨hkeep, hno⟩ | ⟨a, ha, hrec⟩
  · by_cases hk : kindOf res fh = some k
    · have hsaved : s' k = ⟨fh, some cur⟩ := hkeep.trans (save_self hk cur s)
      refine .inr ⟨cur, by rw [hsaved], ?_⟩
      rw [hsaved]
      exact (records_iff h k cur fh).mpr (.inl ⟨rfl, rfl, hk⟩)
    · refine .inl ⟨hkeep.trans (save_of_ne hk cur s), fun a fh' hrec => ?_⟩
      rcases (records_iff h k a fh').mp hrec with ⟨-, -, hk'⟩ | hrec'
      · exact hk hk'
      · exact hno a fh' hrec'
  · exact .inr ⟨a, ha, (records_iff h k a _).mpr (.inr hrec)⟩

/-- **What the inner loop leaves behind.** -/
theorem innerLoop_walked {fuel : Nat} {cur : Int} {s : Saved} {r : Exit}
    (h : innerLoop g res m fuel cur s = some r) :
    (∃ s', r = .atEnd s' ∧ Walked g res m cur s s' ∧ ReflTransGen (Follows g m) cur (endOf g m)) ∨
      (∃ s', r = .tooLong (dropSps s') ∧ Walked g res m cur s s') ∨ r = .outside := by
  induction fuel generalizing cur s with
  | zero => exact absurd h (by simp [innerLoop])
  | succ fuel ih =>
    unfold innerLoop at h
    split at h
    · rename_i hend
      obtain rfl := Option.some.inj h
      exact .inl ⟨s, rfl, walked_nothing (fun _ hp => hp.1 hend) s, hend ▸ .refl⟩
    · rename_i hend
      split at h
      · exact .inr (.inr (Option.some.inj h).symm)
      · rename_i fh hfh
        split at h
        · rename_i hlen
          have hpass : PassedAt g m cur fh := ⟨hend, hfh, hlen⟩
          rcases ih h with ⟨s', hr, hw, hto⟩ | ⟨s', hr, hw⟩ | hr
          · exact .inl ⟨s', hr, walked_step hpass hw, .head ⟨fh, hpass, rfl⟩ hto⟩
          · exact .inr (.inl ⟨s', hr, walked_step hpass hw⟩)
          · exact .inr (.inr hr)
        · rename_i hlen
          have hstop : ∀ fh', ¬ PassedAt g m cur fh' := by
            rintro fh' ⟨-, hfh', hlen'⟩
            obtain rfl := Option.some.inj (hfh.symm.trans hfh')
            exact hlen hlen'
          exact .inr (.inl ⟨s, (Option.some.inj h).symm, walked_nothing hstop s⟩)

/-! ## 3. A turn -/

theorem not_complete_dropSps (s : Saved) : ¬ Complete (dropSps s) := by
  rintro ⟨h, -⟩
  exact h rfl

/-- **What one turn can do.** -/
theorem turn_cases (g : Geometry) (res : Resolution) {st : Grab} (h : st.phase = .looping) (m : Mem) :
    (¬ HeaderOk g m ∧ turn g res st m = st) ∨
      (HeaderOk g m ∧ ∃ s, Walked g res m (bufIdx g m) st.saved s ∧
        ReflTransGen (Follows g m) (bufIdx g m) (endOf g m) ∧
        turn g res st m = ⟨s, if Complete s then .left else .looping⟩) ∨
      (HeaderOk g m ∧ ∃ s, Walked g res m (bufIdx g m) st.saved s ∧
        turn g res st m = ⟨dropSps s, .looping⟩) ∨
      (turn g res st m).phase = .gone := by
  unfold turn
  simp only [h]
  split
  · rename_i hok
    split
    · rename_i s hloop
      rcases innerLoop_walked hloop with ⟨s', hr, hw, hto⟩ | ⟨s', hr, -⟩ | hr
      · obtain rfl := Exit.atEnd.inj hr
        exact .inr (.inl ⟨hok, s, hw, hto, rfl⟩)
      · cases hr
      · cases hr
    · rename_i s hloop
      rcases innerLoop_walked hloop with ⟨s', hr, -, -⟩ | ⟨s', hr, hw⟩ | hr
      · cases hr
      · obtain rfl := Exit.tooLong.inj hr
        rw [if_neg (not_complete_dropSps s')]
        exact .inr (.inr (.inl ⟨hok, s', hw, rfl⟩))
      · cases hr
    · exact .inr (.inr (.inr rfl))
    · exact .inr (.inr (.inr rfl))
  · rename_i hok
    exact .inl ⟨hok, rfl⟩

theorem turn_of_not_looping {st : Grab} (h : st.phase ≠ .looping) (m : Mem) :
    turn g res st m = st := by
  unfold turn
  split
  · exact absurd ‹_› h
  · rfl
  · rfl

/-- A walk changes whether a VPS is saved only by meeting one. -/
theorem Walked.vps {s s' : Saved} (h : Walked g res m (bufIdx g m) s s') :
    (s' .vps).addr ≠ none ↔ (s .vps).addr ≠ none ∨ Meets g res m .vps := by
  rcases h .vps with ⟨hkeep, hno⟩ | ⟨a, ha, hrec⟩
  · rw [hkeep]
    exact ⟨.inl, fun hor => hor.resolve_right fun ⟨a, fh, hrec⟩ => hno a fh hrec⟩
  · rw [ha]
    exact ⟨fun _ => .inr ⟨a, _, hrec⟩, fun _ => Option.some_ne_none a⟩

/-- **A VPS is saved exactly where one of the walks met one**: nothing clears it. -/
theorem vps_saved_iff (ms : List Mem) (h : (run (turn g res) start ms).phase = .looping) :
    ((run (turn g res) start ms).saved .vps).addr ≠ none ↔
      ∃ m ∈ ms, HeaderOk g m ∧ Meets g res m .vps := by
  induction ms using List.reverseRecOn with
  | nil => simp [start, nothingSaved]
  | append_singleton ms m ih =>
    rw [run_concat] at h ⊢
    have hbefore : (run (turn g res) start ms).phase = .looping := by
      by_contra hne
      rw [turn_of_not_looping hne] at h
      exact hne h
    have hmem : (∃ m' ∈ ms ++ [m], HeaderOk g m' ∧ Meets g res m' .vps) ↔
        (∃ m' ∈ ms, HeaderOk g m' ∧ Meets g res m' .vps) ∨ HeaderOk g m ∧ Meets g res m .vps := by
      simp only [List.mem_append, List.mem_singleton, or_and_right, exists_or, exists_eq_left]
    rw [hmem, ← ih hbefore]
    rcases turn_cases g res hbefore m with ⟨hok, heq⟩ | ⟨hok, s, hw, -, heq⟩ |
      ⟨hok, s, hw, heq⟩ | hgone
    · rw [heq]
      exact ⟨.inl, fun hor => hor.resolve_right fun hm => hok hm.1⟩
    · rw [heq, hw.vps, and_iff_right hok]
    · have hdrop : dropSps s .vps = s .vps := Function.update_of_ne (by decide) _ _
      rw [heq]
      change (dropSps s .vps).addr ≠ none ↔ _
      rw [hdrop, hw.vps, and_iff_right hok]
    · rw [hgone] at h
      cases h

/-! ## 4. The pairs when the loop is left -/

/-- **The pairs are those of the last walk exactly where it met them all itself.** -/
theorem saved_consistent_iff (g : Geometry) (res : Resolution) (ms : List Mem) (m : Mem)
    (hin : (run (turn g res) start ms).phase = .looping)
    (hout : (run (turn g res) start (ms ++ [m])).phase = .left) :
    Consistent g res m (run (turn g res) start (ms ++ [m])).saved ↔
      Meets g res m .sps ∧ Meets g res m .pps ∧ Meets g res m .idr ∧
        (Meets g res m .vps ∨ ∀ m' ∈ ms, HeaderOk g m' → ¬ Meets g res m' .vps) := by
  have hvps := vps_saved_iff ms hin
  rw [run_concat] at hout ⊢
  rcases turn_cases g res hin m with ⟨-, heq⟩ | ⟨hok, s, hw, hto, heq⟩ |
    ⟨-, s, -, heq⟩ | hgone
  · rw [heq, hin] at hout
    cases hout
  · rw [heq] at hout ⊢
    have hcomplete : Complete s := by
      by_contra hnot
      rw [if_neg hnot] at hout
      cases hout
    constructor
    · intro hc
      have hmet : ∀ k, (s k).addr ≠ none → Meets g res m k := by
        intro k hk
        obtain ⟨a, ha⟩ := Option.ne_none_iff_exists'.mp hk
        exact ⟨a, _, hc.recorded k a ha⟩
      refine ⟨hmet _ hcomplete.1, hmet _ hcomplete.2.1, hmet _ hcomplete.2.2, ?_⟩
      by_cases hv : (s .vps).addr = none
      · refine .inr fun m' hm' hok' hmeets => ?_
        exact hw.vps.mpr (.inl (hvps.mpr ⟨m', hm', hok', hmeets⟩)) hv
      · exact .inl (hmet _ hv)
    · rintro ⟨hsps, hpps, hidr, hv⟩
      have hrec : ∀ k a, (s k).addr = some a → Records g res m (bufIdx g m) k a (s k).header := by
        intro k a ha
        rcases hw k with ⟨hkeep, hno⟩ | ⟨a', ha', hrec⟩
        · have hnot : ¬ Meets g res m k := fun ⟨a, fh, hr⟩ => hno a fh hr
          cases k with
          | sps => exact absurd hsps hnot
          | pps => exact absurd hpps hnot
          | idr => exact absurd hidr hnot
          | vps =>
            have hsome := Option.ne_none_iff_exists'.mpr ⟨a, ha⟩
            rw [hkeep] at hsome
            obtain ⟨m', hm', hok', hmeets⟩ := hvps.mp hsome
            exact absurd hmeets (hv.resolve_left hnot m' hm' hok')
        · rw [ha] at ha'
          obtain rfl := Option.some.inj ha'
          exact hrec
      exact ⟨hto, hrec, fun k a ha => (hrec k a ha).2.1.2.1⟩
  · rw [heq] at hout
    cases hout
  · rw [hgone] at hout
    cases hout

/-- Records without data, three fill the ring up to the header words of a fourth. -/
def ring : Geometry := ⟨300, 388, .h22, by decide⟩

/-- A batch of `n` bytes from the start of the ring; `types` are the types of its records. -/
def batch (n : UInt8) (types : List (Int × UInt8)) (extra : Int → UInt8) : Mem := fun a =>
  if a = 4 ∨ a = 12 then n
  else
    match types.find? fun t => t.1 + 16 = a ∨ t.1 + 17 = a with
    | some t => if t.1 + 16 = a then t.2 else 0x04
    | none => extra a

/-- SPS, PPS and IDR. -/
def wholeFrame : Mem := batch 66 [(300, 0x02), (322, 0x04), (344, 0x01)] fun _ => 0

theorem consistent_wholeFrame :
    Consistent ring .high wholeFrame (run (turn ring .high) start ([] ++ [wholeFrame])).saved ↔
      Meets ring .high wholeFrame .sps ∧ Meets ring .high wholeFrame .pps ∧
        Meets ring .high wholeFrame .idr ∧ (Meets ring .high wholeFrame .vps ∨
          ∀ m' ∈ ([] : List Mem), HeaderOk ring m' → ¬ Meets ring .high m' .vps) :=
  saved_consistent_iff ring .high [] wholeFrame rfl (by decide +kernel)

/-- PPS and IDR, and a length that cannot be. -/
def tornFrame : Mem :=
  batch 66 [(300, 0x04), (322, 0x01)] fun a => if a = 344 then 255 else 0

/-- An SPS alone. -/
def loneSps : Mem := batch 22 [(300, 0x02)] fun _ => 0

/-- The walk over the torn frame drops its SPS only: the loop is left with an SPS of the second
    content beside the PPS and the IDR of the first, and the SPS is where the PPS was. -/
theorem tornFrame_mixed :
    (run (turn ring .high) start ([tornFrame] ++ [loneSps])).phase = .left ∧
      ¬ Consistent ring .high loneSps (run (turn ring .high) start ([tornFrame] ++ [loneSps])).saved := by
  refine ⟨by decide +kernel, fun h => ?_⟩
  have hpps := h.there .pps 300 (by decide +kernel)
  exact absurd hpps (by decide +kernel)

end YiHack.Snapshot
