/-
  File:      YiHack/General/Bytes.lean
  Subject:   Byte strings: big-endian numbers, slices, and writes into a file's content.

  Names nothing of the repository:

  * `ascii`, and **`of_spelled`** -- a table of texts, with its bytes in place of the texts;
  * `be32` reads what `store32` stores (`be32_store32`);
  * `slice` is what a read sees, `patch` what a write leaves (a gap reads as zeros). Two writes
    that follow each other are one (`patch_patch`), a write is undone by writing back what it
    covered (`patch_restore`), and a slice is only changed by a write that meets it
    (`slice_patch_before`, `slice_patch_after`).
-/
import Mathlib.Data.List.Basic
import Mathlib.Tactic.Ring

namespace YiHack.General

abbrev Bytes := List UInt8

/-- The bytes of an ASCII text. -/
def ascii (s : String) : Bytes := s.toList.map fun c => UInt8.ofNat c.toNat

/-- Texts and their bytes. -/
inductive Spelled : List String → List Bytes → Prop
  | nil : Spelled [] []
  | cons {ss : List String} {bss : List Bytes} (cs : List Char) (h : Spelled ss bss) :
      Spelled (String.ofList cs :: ss) (cs.map (fun c => UInt8.ofNat c.toNat) :: bss)

theorem Spelled.map_ascii {ss : List String} {bss : List Bytes} (h : Spelled ss bss) :
    ss.map ascii = bss := by
  induction h with
  | nil => rfl
  | cons cs h ih => rw [List.map_cons, ih, ascii, String.toList_ofList]

/-- **What holds of the bytes holds of the texts**: a string literal is the list of its characters
    without being taken apart, so that a table is decided at once. -/
theorem of_spelled {P : List Bytes → Prop} {ss : List String} {bss : List Bytes}
    (h : Spelled ss bss) (hP : P bss) : P (ss.map ascii) :=
  h.map_ascii ▸ hP

/-- The first separator splits two texts alike. -/
theorem sep_inj {sep : UInt8} {a a' r r' : Bytes} (ha : sep ∉ a) (ha' : sep ∉ a')
    (h : a ++ sep :: r = a' ++ sep :: r') : a = a' ∧ r = r' := by
  induction a generalizing a' with
  | nil =>
    cases a' with
    | nil => exact ⟨rfl, (List.cons.inj h).2⟩
    | cons x xs => exact absurd (List.mem_cons_self) ((List.cons.inj h).1 ▸ ha')
  | cons x xs ih =>
    cases a' with
    | nil => exact absurd (List.mem_cons_self) ((List.cons.inj h).1 ▸ ha)
    | cons y ys =>
      obtain ⟨hxy, h⟩ := List.cons.inj h
      obtain ⟨hxs, hr⟩ := ih (fun hm => ha (List.mem_cons_of_mem x hm))
        (fun hm => ha' (List.mem_cons_of_mem y hm)) h
      exact ⟨by rw [hxy, hxs], hr⟩

def isDigit (b : UInt8) : Bool := 48 ≤ b && b ≤ 57

/-- `''|*[!0-9]*` does not match. -/
def isDecimal (s : Bytes) : Bool := !s.isEmpty && s.all isDigit

/-- The number the digits stand for. -/
def decimal (s : Bytes) : Nat := s.foldl (fun n b => n * 10 + (b.toNat - 48)) 0

/-! ## 1. Big-endian numbers -/

/-- The byte at `i`, 0 past the end. -/
def byteAt (p : Bytes) (i : Nat) : Nat := (p.getD i 0).toNat

/-- The 32-bit number at `i`. -/
def be32 (p : Bytes) (i : Nat) : Nat :=
  byteAt p i * 2 ^ 24 + byteAt p (i + 1) * 2 ^ 16 + byteAt p (i + 2) * 2 ^ 8 + byteAt p (i + 3)

/-- The 64-bit number at `i`. -/
def be64 (p : Bytes) (i : Nat) : Nat := be32 p i * 2 ^ 32 + be32 p (i + 4)

/-- The low 32 bits of `v`. -/
def store32 (v : Nat) : Bytes :=
  [UInt8.ofNat (v / 2 ^ 24), UInt8.ofNat (v / 2 ^ 16), UInt8.ofNat (v / 2 ^ 8), UInt8.ofNat v]

@[simp] theorem store32_length (v : Nat) : (store32 v).length = 4 := rfl

theorem byteAt_lt (p : Bytes) (i : Nat) : byteAt p i < 256 := UInt8.toNat_lt _

theorem be32_lt (p : Bytes) (i : Nat) : be32 p i < 2 ^ 32 := by
  have := byteAt_lt p i
  have := byteAt_lt p (i + 1)
  have := byteAt_lt p (i + 2)
  have := byteAt_lt p (i + 3)
  unfold be32
  omega

/-- **A stored number reads back.** -/
theorem be32_store32 {v : Nat} (h : v < 2 ^ 32) (rest : Bytes) :
    be32 (store32 v ++ rest) 0 = v := by
  simp only [be32, byteAt, store32, List.cons_append, List.nil_append, List.getD_cons_zero,
    List.getD_cons_succ, UInt8.toNat_ofNat', Nat.zero_add]
  omega

/-! ## 2. Slices -/

/-- The `n` bytes at `off`, fewer at the end. -/
def slice (f : Bytes) (off n : Nat) : Bytes := (f.drop off).take n

theorem slice_length (f : Bytes) (off n : Nat) :
    (slice f off n).length = min n (f.length - off) := by
  simp [slice]

theorem slice_length_of_le {f : Bytes} {off n : Nat} (h : off + n ≤ f.length) :
    (slice f off n).length = n := by
  rw [slice_length]
  omega

/-- A slice in two parts. -/
theorem slice_add (f : Bytes) (off m n : Nat) :
    slice f off (m + n) = slice f off m ++ slice f (off + m) n := by
  simp only [slice]
  rw [List.take_add, List.drop_drop]

/-- A slice of a prefix. -/
theorem slice_take {f : Bytes} {off n m : Nat} (h : off + n ≤ m) :
    slice (f.take m) off n = slice f off n := by
  simp only [slice, List.drop_take, List.take_take]
  congr 1
  omega

theorem slice_append_left {a : Bytes} (b : Bytes) {off n : Nat} (h : off + n ≤ a.length) :
    slice (a ++ b) off n = slice a off n := by
  rw [← slice_take (f := a ++ b) h, List.take_left]

/-- A slice inside a slice. -/
theorem slice_slice {f : Bytes} {off n i m : Nat} (h : i + m ≤ n) :
    slice (slice f off n) i m = slice f (off + i) m := by
  simp only [slice, List.drop_take, List.drop_drop, List.take_take]
  congr 1
  omega

/-! ## 3. Writes -/

/-- The content after `d` is written at `off`; a gap before it reads as zeros. -/
def patch (f : Bytes) (off : Nat) (d : Bytes) : Bytes :=
  f.take off ++ List.replicate (off - f.length) 0 ++ d ++ f.drop (off + d.length)

theorem patch_eq {f : Bytes} {off : Nat} (h : off ≤ f.length) (d : Bytes) :
    patch f off d = f.take off ++ d ++ f.drop (off + d.length) := by
  simp [patch, Nat.sub_eq_zero_of_le h]

theorem patch_nil {f : Bytes} {off : Nat} (h : off ≤ f.length) : patch f off [] = f := by
  simp [patch_eq h]

/-- A write at the end appends. -/
theorem patch_end (f d : Bytes) : patch f f.length d = f ++ d := by
  simp [patch]

theorem patch_length {f : Bytes} {off : Nat} {d : Bytes} (h : off ≤ f.length) :
    (patch f off d).length = max f.length (off + d.length) := by
  simp only [patch_eq h, List.length_append, List.length_take, List.length_drop]
  omega

/-- **A write that follows another continues it.** -/
theorem patch_patch {f : Bytes} {off : Nat} (h : off ≤ f.length) (a b : Bytes) :
    patch (patch f off a) (off + a.length) b = patch f off (a ++ b) := by
  have hlen : (f.take off ++ a).length = off + a.length := by
    simp only [List.length_append, List.length_take]
    omega
  rw [patch_eq h, patch_eq h, patch_eq (by simp only [List.length_append] at hlen ⊢; omega)]
  rw [← hlen, List.take_left, hlen, List.drop_append]
  rw [List.drop_eq_nil_of_le (by omega : (f.take off ++ a).length ≤ off + a.length + b.length)]
  rw [List.nil_append, List.drop_drop, hlen]
  simp only [List.length_append, List.append_assoc]
  congr 4
  omega

/-- A write over an equally long one replaces it. -/
theorem patch_over {f : Bytes} {off : Nat} (h : off ≤ f.length) {a b : Bytes}
    (hab : a.length ≤ b.length) : patch (patch f off a) off b = patch f off b := by
  have h0 : (f.take off).length = off := by simp [h]
  rw [patch_eq h, patch_eq h, patch_eq (by simp only [List.length_append]; omega)]
  congr 1
  · rw [List.append_assoc, List.take_left' h0]
  · rw [List.drop_append, List.drop_eq_nil_of_le (by simp only [List.length_append]; omega),
      List.nil_append, List.drop_drop]
    congr 1
    simp only [List.length_append]
    omega

/-- Writing what is there changes nothing. -/
theorem patch_self {f : Bytes} {off n : Nat} (h : off + n ≤ f.length) :
    patch f off (slice f off n) = f := by
  rw [patch_eq (by omega), slice_length_of_le h, slice, List.append_assoc, ← List.drop_drop,
    List.take_append_drop, List.take_append_drop]

/-- **Writing back what was covered undoes a write.** -/
theorem patch_restore {f : Bytes} {off n : Nat} {a : Bytes} (h : off + n ≤ f.length)
    (ha : a.length ≤ n) : patch (patch f off a) off (slice f off n) = f := by
  rw [patch_over (by omega) (by rw [slice_length_of_le h]; exact ha), patch_self h]

theorem take_patch {f : Bytes} {off m : Nat} (h : off ≤ f.length) (hm : m ≤ off) (d : Bytes) :
    (patch f off d).take m = f.take m := by
  rw [patch_eq h, List.append_assoc, List.take_append_of_le_length (by simp; omega),
    List.take_take, Nat.min_eq_left hm]

/-- A slice before the write. -/
theorem slice_patch_before {f : Bytes} {off i n : Nat} (h : off ≤ f.length) (hi : i + n ≤ off)
    (d : Bytes) : slice (patch f off d) i n = slice f i n := by
  rw [← slice_take (f := patch f off d) hi, take_patch h (Nat.le_refl _), slice_take hi]

/-- A slice behind the write. -/
theorem slice_patch_after {f : Bytes} {off i n : Nat} {d : Bytes} (h : off ≤ f.length)
    (hi : off + d.length ≤ i) : slice (patch f off d) i n = slice f i n := by
  have hlen : (f.take off ++ d).length = off + d.length := by
    simp only [List.length_append, List.length_take]
    omega
  simp only [slice]
  rw [patch_eq h, List.drop_append, hlen, List.drop_eq_nil_of_le (by omega), List.nil_append,
    List.drop_drop]
  congr 2
  omega

/-- A slice that is the write. -/
theorem slice_patch_self {f : Bytes} {off : Nat} {d : Bytes} (h : off ≤ f.length) :
    slice (patch f off d) off d.length = d := by
  have h0 : (f.take off).length = off := by simp [h]
  rw [slice, patch_eq h, List.append_assoc, List.drop_left' h0, List.take_left]

theorem byteAt_slice {f : Bytes} {off n i : Nat} (hi : i < n) :
    byteAt (slice f off n) i = byteAt f (off + i) := by
  unfold byteAt slice
  rw [List.getD_eq_getElem?_getD, List.getElem?_take_of_lt hi, List.getElem?_drop,
    ← List.getD_eq_getElem?_getD]

/-- A number in a slice is the number in the file. -/
theorem be32_slice {f : Bytes} {off n i : Nat} (hi : i + 4 ≤ n) :
    be32 (slice f off n) i = be32 f (off + i) := by
  unfold be32
  rw [byteAt_slice (by omega), byteAt_slice (by omega), byteAt_slice (by omega),
    byteAt_slice (by omega)]
  simp only [Nat.add_assoc]

theorem be32_slice_self (f : Bytes) (off : Nat) : be32 (slice f off 4) 0 = be32 f off :=
  be32_slice (Nat.le_refl 4)

/-- A number reads back from where it was stored. -/
theorem be32_patch_self {f : Bytes} {off v : Nat} (h : off ≤ f.length) (hv : v < 2 ^ 32) :
    be32 (patch f off (store32 v)) off = v := by
  have hslice : slice (patch f off (store32 v)) off 4 = store32 v := slice_patch_self h
  rw [← be32_slice_self, hslice, ← List.append_nil (store32 v), be32_store32 hv]

/-- A byte the write does not meet. -/
theorem getElem?_patch {f : Bytes} {off i : Nat} {d : Bytes} (h : off ≤ f.length)
    (hi : i < off ∨ off + d.length ≤ i) : (patch f off d)[i]? = f[i]? := by
  have hbyte (g : Bytes) : g[i]? = (slice g i 1)[0]? := by
    rw [slice, List.getElem?_take_of_lt Nat.zero_lt_one, List.getElem?_drop, Nat.add_zero]
  rw [hbyte, hbyte f]
  rcases hi with hi | hi
  · rw [slice_patch_before h hi]
  · rw [slice_patch_after h hi]

/-- A write inside a prefix. -/
theorem patch_append {a : Bytes} (b : Bytes) {off : Nat} {d : Bytes}
    (h : off + d.length ≤ a.length) : patch (a ++ b) off d = patch a off d ++ b := by
  rw [patch_eq (by simp only [List.length_append]; omega), patch_eq (by omega),
    List.take_append_of_le_length (by omega), List.drop_append_of_le_length h]
  simp

end YiHack.General
