/-
  File:      YiHack/General/Samples.lean
  Subject:   Samples of 16 bits as a stream of bytes, the low byte of each in front.

  Names nothing of the repository. A sample is its 16 bits, signed or not.

  * `encode` -- the stream of a list of samples;
  * `mapPairs` -- a function on samples over the pairs of a stream, a last odd byte dropped;
  * `Bytewise` -- a function on samples that does not care how bytes are paired
    (`mapPairs_bytewise`).
-/
import YiHack.General.Bytes
import Mathlib.Tactic.Common

namespace YiHack.General.Samples

def lowByte (v : UInt16) : UInt8 := UInt8.ofNat v.toNat

def highByte (v : UInt16) : UInt8 := UInt8.ofNat (v.toNat / 256)

def sampleOf (lo hi : UInt8) : UInt16 := UInt16.ofNat (lo.toNat + 256 * hi.toNat)

theorem sampleOf_toNat (lo hi : UInt8) : (sampleOf lo hi).toNat = lo.toNat + 256 * hi.toNat := by
  have hlo := lo.toNat_lt
  have hhi := hi.toNat_lt
  unfold sampleOf
  rw [UInt16.toNat_ofNat']
  omega

@[simp] theorem lowByte_sampleOf (lo hi : UInt8) : lowByte (sampleOf lo hi) = lo := by
  have hlo := lo.toNat_lt
  apply UInt8.toNat_inj.mp
  rw [lowByte, sampleOf_toNat, UInt8.toNat_ofNat']
  omega

@[simp] theorem highByte_sampleOf (lo hi : UInt8) : highByte (sampleOf lo hi) = hi := by
  have hlo := lo.toNat_lt
  have hhi := hi.toNat_lt
  apply UInt8.toNat_inj.mp
  rw [highByte, sampleOf_toNat, UInt8.toNat_ofNat']
  omega

@[simp] theorem sampleOf_bytes (v : UInt16) : sampleOf (lowByte v) (highByte v) = v := by
  have hv := v.toNat_lt
  apply UInt16.toNat_inj.mp
  rw [sampleOf_toNat, lowByte, highByte, UInt8.toNat_ofNat', UInt8.toNat_ofNat']
  omega

/-- The samples' bytes, one sample after the other. -/
def encode : List UInt16 → Bytes
  | [] => []
  | v :: vs => lowByte v :: highByte v :: encode vs

theorem encode_length (vs : List UInt16) : (encode vs).length = 2 * vs.length := by
  induction vs with
  | nil => rfl
  | cons v vs ih =>
    rw [encode, List.length_cons, List.length_cons, List.length_cons, ih]
    omega

/-- Every stream of an even length is one of samples. -/
theorem exists_encode : ∀ {bytes : Bytes}, bytes.length % 2 = 0 → ∃ vs, bytes = encode vs
  | [], _ => ⟨[], rfl⟩
  | [_], h => by simp at h
  | lo :: hi :: rest, h => by
    obtain ⟨vs, rfl⟩ := @exists_encode rest (by simp at h; omega)
    exact ⟨sampleOf lo hi :: vs, by rw [encode, lowByte_sampleOf, highByte_sampleOf]⟩

section MapPairs

variable (f : UInt16 → UInt16)

/-- `f` over the bytes two by two. -/
def mapPairs : Bytes → Bytes
  | lo :: hi :: rest =>
    lowByte (f (sampleOf lo hi)) :: highByte (f (sampleOf lo hi)) :: mapPairs rest
  | _ => []

theorem mapPairs_encode (vs : List UInt16) : mapPairs f (encode vs) = encode (vs.map f) := by
  induction vs with
  | nil => rfl
  | cons v vs ih => rw [encode, mapPairs, sampleOf_bytes, ih, List.map_cons, encode]

/-- Behind whole samples the pairing starts anew. -/
theorem mapPairs_append {a : Bytes} (ha : a.length % 2 = 0) (b : Bytes) :
    mapPairs f (a ++ b) = mapPairs f a ++ mapPairs f b := by
  obtain ⟨vs, rfl⟩ := exists_encode ha
  induction vs with
  | nil => rfl
  | cons v vs ih =>
    rw [encode, List.cons_append, List.cons_append, mapPairs,
      ih (by rw [encode_length]; omega), mapPairs]
    rfl

theorem mapPairs_length {a : Bytes} (ha : a.length % 2 = 0) : (mapPairs f a).length = a.length := by
  obtain ⟨vs, rfl⟩ := exists_encode ha
  rw [mapPairs_encode, encode_length, encode_length, List.length_map]

/-- One function for low and high bytes makes up `f`. -/
def Bytewise : Prop := ∃ φ : UInt8 → UInt8, ∀ lo hi, f (sampleOf lo hi) = sampleOf (φ lo) (φ hi)

variable {f}

theorem mapPairs_bytewise {φ : UInt8 → UInt8}
    (hφ : ∀ lo hi, f (sampleOf lo hi) = sampleOf (φ lo) (φ hi)) :
    ∀ {a : Bytes}, a.length % 2 = 0 → mapPairs f a = a.map φ
  | [], _ => rfl
  | [_], h => by simp at h
  | lo :: hi :: rest, h => by
    rw [mapPairs, hφ, lowByte_sampleOf, highByte_sampleOf,
      @mapPairs_bytewise φ hφ rest (by simp at h; omega)]
    rfl

end MapPairs

end YiHack.General.Samples
