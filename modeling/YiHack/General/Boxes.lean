/-
  File:      YiHack/General/Boxes.lean
  Subject:   Nested boxes: a 32-bit size, a four-byte type, a payload.

  Names nothing of the repository. `box` writes one, `parseBoxes` splits a byte string into the
  boxes that tile it and refuses one that boxes do not tile. Written boxes split back into their
  types and payloads (`parseBoxes_box`), and boxes behind boxes into both (`parseBoxes_append`).
-/
import YiHack.General.Bytes

namespace YiHack.General

/-- A box with its size in front. -/
def box (type payload : Bytes) : Bytes := store32 (8 + payload.length) ++ type ++ payload

/-- The boxes that tile `b`, as type and payload; none where sizes do not add up to `b`. -/
def parseBoxes (b : Bytes) : Option (List (Bytes × Bytes)) :=
  if b = [] then some []
  else if be32 b 0 < 8 ∨ b.length < be32 b 0 then none
  else (parseBoxes (b.drop (be32 b 0))).map ((slice b 4 4, slice b 8 (be32 b 0 - 8)) :: ·)
termination_by b.length
decreasing_by
  simp only [List.length_drop]
  omega

@[simp] theorem parseBoxes_nil : parseBoxes [] = some [] := by
  rw [parseBoxes, if_pos rfl]

theorem box_length {type payload : Bytes} (ht : type.length = 4) :
    (box type payload).length = 8 + payload.length := by
  simp only [box, List.length_append, store32_length, ht]

/-- **A written box splits back into its type and payload.** -/
theorem parseBoxes_box {type payload rest : Bytes} {bs : List (Bytes × Bytes)}
    (ht : type.length = 4) (hp : 8 + payload.length < 2 ^ 32) (hr : parseBoxes rest = some bs) :
    parseBoxes (box type payload ++ rest) = some ((type, payload) :: bs) := by
  have hsize : be32 (box type payload ++ rest) 0 = 8 + payload.length := by
    simp only [box, List.append_assoc]
    exact be32_store32 hp _
  have hlen : (box type payload).length = 8 + payload.length := box_length ht
  have htype : slice (box type payload ++ rest) 4 4 = type := by
    simp only [slice, box, List.append_assoc]
    rw [List.drop_left' (store32_length _), List.take_left' ht]
  have hpay : slice (box type payload ++ rest) 8 payload.length = payload := by
    simp only [slice, box]
    rw [List.append_assoc, List.drop_left' (by simp [ht]), List.take_left]
  have hne : box type payload ++ rest ≠ [] := by
    intro h
    have h := congrArg List.length h
    simp only [List.length_append, hlen, List.length_nil] at h
    omega
  rw [parseBoxes, if_neg hne, hsize, if_neg (by simp only [List.length_append, hlen]; omega)]
  rw [List.drop_left' hlen, hr, htype, Nat.add_sub_cancel_left, hpay]
  rfl

/-- **Boxes behind boxes** are split one after another. -/
theorem parseBoxes_append {a b : Bytes} {as bs : List (Bytes × Bytes)} (ha : parseBoxes a = some as)
    (hb : parseBoxes b = some bs) : parseBoxes (a ++ b) = some (as ++ bs) := by
  induction hn : a.length using Nat.strongRecOn generalizing a as with
  | ind n ih =>
    by_cases hnil : a = []
    · rw [hnil, parseBoxes_nil] at ha
      rw [hnil, ← Option.some.inj ha]
      exact hb
    · have hne : a ++ b ≠ [] := fun h => hnil (List.append_eq_nil_iff.mp h).1
      rw [parseBoxes, if_neg hnil] at ha
      split at ha
      · cases ha
      · rename_i hfit
        obtain ⟨rest, hrest, rfl⟩ := Option.map_eq_some_iff.mp ha
        have hin : be32 a 0 ≤ a.length := by omega
        have hsize : be32 (a ++ b) 0 = be32 a 0 := by
          rw [← be32_slice_self, ← be32_slice_self a, slice_append_left b (by omega)]
        have hbehind := ih _ (by rw [List.length_drop]; omega) hrest rfl
        rw [parseBoxes, if_neg hne, hsize, if_neg (by rw [List.length_append]; omega),
          List.drop_append_of_le_length hin, hbehind, slice_append_left b (by omega),
          slice_append_left b (by omega)]
        rfl

/-- One box alone. -/
theorem parseBoxes_single {type payload : Bytes} (ht : type.length = 4)
    (hp : 8 + payload.length < 2 ^ 32) : parseBoxes (box type payload) = some [(type, payload)] := by
  have h := parseBoxes_box ht hp parseBoxes_nil
  rwa [List.append_nil] at h

end YiHack.General
