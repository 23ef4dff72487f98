/-
  File:      YiHack/FlashCore/CleanImage.lean
  Subject:   `clean_image.c`: a SquashFS image wrapped for the vendor's updater.

  `size_t` is 32 bits wide. What the C library answers is data of the run; a `malloc` of nothing
  gives a pointer.

  * `main` -- the program, its return code or what it writes; `crc`, `le`, `header` its functions;
  * `Sound` -- what an image that was written should be;
  * `WrapsAround` -- the length rounds up to 2^32, and nothing else is in the way;
  * **`clean_image_sound_iff`** -- an image is sound exactly where it does not.
-/
import YiHack.General.Bytes

namespace YiHack.FlashCore.CleanImage

open General

/-! ## 1. The program -/

/-- One of the eight steps of `crc` for a byte. -/
def crcBit (c : UInt32) : UInt32 := (c >>> 1) ^^^ ((0 - (c &&& 1)) &&& 0xedb88320)

def crcByte (c : UInt32) (b : UInt8) : UInt32 :=
  (List.range 8).foldl (fun c _ => crcBit c) (c ^^^ b.toUInt32)

/-- `crc`. -/
def crc (p : Bytes) : UInt32 := ~~~(p.foldl crcByte (~~~0))

/-- `le`. -/
def le (p : Bytes) (i : Nat) : UInt32 :=
  (p.getD i 0).toUInt32 ||| (p.getD (i + 1) 0).toUInt32 <<< 8 |||
    (p.getD (i + 2) 0).toUInt32 <<< 16 ||| (p.getD (i + 3) 0).toUInt32 <<< 24

/-- `be`. -/
def be (h : Bytes) (off : Nat) (n : UInt32) : Bytes := patch h off (store32 n.toNat)

/-- `argv[2]`. -/
inductive Partition
  | rootfs
  | home
  deriving DecidableEq

def Partition.name : Partition → String
  | .rootfs => "rootfs"
  | .home => "home"

/-- `limit`. -/
def Partition.limit : Partition → UInt32
  | .rootfs => 0x120000
  | .home => 0x340000

/-- `h` before its own checksum is in it. -/
def unsealed (part : Partition) (n : UInt32) (data : Bytes) : Bytes :=
  let h := be (List.replicate 64 0) 0 0x27051956
  let h := be h 12 n
  let h := be h 24 (crc data)
  let h := patch h 28 [5, 2, 7]
  patch h 32 (ascii "xiaoyi-" ++ ascii part.name ++ [0])

/-- `h`. -/
def header (part : Partition) (n : UInt32) (data : Bytes) : Bytes :=
  be (unsealed part n data) 4 (crc (unsealed part n data))

/-- The arguments, the input file if it opens, and how the calls of the C library go: how far the
    two reads of the input get, and how much of the two writes is taken. -/
structure Run where
  argv : List String
  input : Option Bytes
  firstRead : Nat
  malloc : UInt32 → Bool
  fseek : Bool
  secondRead : Nat
  fopenOut : Bool
  headerTaken : Nat
  dataTaken : Nat
  fclose : Bool
  malloc_zero : malloc 0 = true

/-- The partition the arguments name. -/
def Run.partition (r : Run) : Option Partition :=
  if r.argv.length ≠ 4 then none
  else if r.argv.getD 2 "" = "rootfs" then some .rootfs
  else if r.argv.getD 2 "" = "home" then some .home
  else none

/-- `sb`, as far as it was read. -/
def Run.superblock (r : Run) (input : Bytes) : Bytes := (input.take r.firstRead).take 96

/-- What is asked of the superblock. -/
def squashfs (sb : Bytes) : Bool :=
  sb.length == 96 && sb.take 4 == ascii "hsqs" && le sb 28 &&& 65535 == 4 && le sb 44 == 0

/-- `n`. -/
def roundUp (used : UInt32) : UInt32 := (used + 4095) &&& ~~~4095

/-- The file that is written, and what is printed. -/
structure Image where
  file : Bytes
  blocks : Nat

/-- `main`: its return code, or the image where it returns 0. -/
def main (r : Run) : Except Nat Image :=
  match r.partition, r.input with
  | none, _ => .error 1
  | some _, none => .error 2
  | some part, some input =>
    let sb := r.superblock input
    if squashfs sb = false then .error 2
    else
      let used := le sb 40
      let n := roundUp used
      if used < 96 ∨ part.limit < n + 64 then .error 3
      else
        let data := (input.take r.secondRead).take n.toNat
        if r.malloc n = false ∨ r.fseek = false ∨ data.length ≠ n.toNat then .error 4
        else if r.fopenOut = false then .error 5
        else if min 64 r.headerTaken ≠ 64 ∨ min n.toNat r.dataTaken ≠ n.toNat ∨
            r.fclose = false then .error 6
        else .ok ⟨header part n data ++ data, n.toNat / 4096⟩

/-! ## 2. What is asked of it -/

/-- `bytes_used`. -/
def bytesUsed (input : Bytes) : UInt32 := le input 40

/-- A header whose two checksums verify for `data`. -/
structure Verifies (h data : Bytes) : Prop where
  length : h.length = 64
  headerCrc : be32 h 4 = (crc (patch h 4 [0, 0, 0, 0])).toNat
  dataCrc : be32 h 24 = (crc data).toNat

/-- An image of `n` data bytes. -/
structure SoundImage (part : Partition) (input : Bytes) (i : Image) (n : Nat) : Prop where
  size : i.file.length = 64 + n
  aligned : n % 4096 = 0
  covers : (bytesUsed input).toNat ≤ n
  fits : n + 64 ≤ part.limit.toNat
  content : ∃ h, i.file = h ++ input.take n ∧ Verifies h (input.take n)

/-- Whatever is written is sound. -/
def Sound (r : Run) : Prop :=
  ∀ part input i, r.partition = some part → r.input = some input → main r = .ok i →
    ∃ n, SoundImage part input i n

/-- A superblock whose length rounds up to 2^32, and no call that fails. -/
structure WrapsAround (r : Run) (input : Bytes) : Prop where
  file : r.input = some input
  arguments : r.partition.isSome = true
  superblock : squashfs (r.superblock input) = true
  wraps : 0xfffff000 < bytesUsed input
  seek : r.fseek = true
  opened : r.fopenOut = true
  written : 64 ≤ r.headerTaken
  closed : r.fclose = true

/-! ## 3. The length -/

theorem and_not_4095 (x : UInt32) : (x &&& ~~~4095).toNat = x.toNat / 4096 * 4096 := by
  have hmask : ∀ i : Fin 32, (~~~4095#32).getLsbD i = decide (12 ≤ i.val) := by decide
  have hbits : x.toBitVec &&& ~~~4095#32 = (x.toBitVec >>> 12) <<< 12 := by
    apply BitVec.eq_of_getLsbD_eq
    intro i hi
    rw [BitVec.getLsbD_and, hmask ⟨i, hi⟩, BitVec.getLsbD_shiftLeft, BitVec.getLsbD_ushiftRight]
    by_cases h : 12 ≤ i
    · have : 12 + (i - 12) = i := by omega
      simp [h, hi, this]
    · simp [h]
  have h := congrArg BitVec.toNat hbits
  rw [BitVec.toNat_shiftLeft, BitVec.toNat_ushiftRight] at h
  have hx := x.toNat_lt
  have h' : (x &&& ~~~4095).toNat = x.toNat >>> 12 <<< 12 % 2 ^ 32 := h
  rw [h', Nat.shiftRight_eq_div_pow, Nat.shiftLeft_eq]
  omega

theorem roundUp_toNat (used : UInt32) :
    (roundUp used).toNat = (used.toNat + 4095) % 2 ^ 32 / 4096 * 4096 := by
  unfold roundUp
  rw [and_not_4095, UInt32.toNat_add]
  rfl

theorem roundUp_aligned (used : UInt32) : (roundUp used).toNat % 4096 = 0 := by
  rw [roundUp_toNat]
  omega

theorem roundUp_covers {used : UInt32} (h : ¬ 0xfffff000 < used) :
    used.toNat ≤ (roundUp used).toNat := by
  have hle : used.toNat ≤ 0xfffff000 := by
    rw [UInt32.lt_iff_toNat_lt] at h
    exact Nat.not_lt.mp h
  rw [roundUp_toNat]
  omega

theorem roundUp_wraps {used : UInt32} (h : 0xfffff000 < used) : roundUp used = 0 := by
  have hlt := used.toNat_lt
  rw [UInt32.lt_iff_toNat_lt] at h
  have hlow : 0xfffff000 < used.toNat := h
  apply UInt32.toNat_inj.mp
  rw [roundUp_toNat]
  show _ = 0
  omega

/-- Rounded, a length leaves room for the header below 2^32. -/
theorem roundUp_room (used : UInt32) : (roundUp used + 64).toNat = (roundUp used).toNat + 64 := by
  have haligned := roundUp_aligned used
  have hlt := (roundUp used).toNat_lt
  rw [UInt32.toNat_add]
  show ((roundUp used).toNat + 64) % 2 ^ 32 = _
  omega

/-! ## 4. The header -/

section Header

variable (part : Partition) (n : UInt32) (data : Bytes)

theorem be_length {h : Bytes} {off : Nat} (hlen : off + 4 ≤ h.length) (v : UInt32) :
    (be h off v).length = h.length := by
  unfold be
  rw [patch_length (by omega), store32_length, Nat.max_eq_left hlen]

/-- The name, with its end, fits the field of 32 bytes. -/
theorem name_length : (ascii "xiaoyi-" ++ ascii part.name ++ [0]).length ≤ 32 := by
  cases part <;> decide

/-- Length of the header, and what is in its two fields before it is sealed. -/
theorem unsealed_spec : (unsealed part n data).length = 64 ∧
    slice (unsealed part n data) 4 4 = [0, 0, 0, 0] ∧
    slice (unsealed part n data) 24 4 = store32 (crc data).toNat := by
  have hname := name_length part
  have h0 : (List.replicate 64 (0 : UInt8)).length = 64 := List.length_replicate
  have h1 : (be (List.replicate 64 0) 0 0x27051956).length = 64 := by rw [be_length (by omega), h0]
  have h2 : (be (be (List.replicate 64 0) 0 0x27051956) 12 n).length = 64 := by
    rw [be_length (by omega), h1]
  have h3 : (be (be (be (List.replicate 64 0) 0 0x27051956) 12 n) 24 (crc data)).length = 64 := by
    rw [be_length (by omega), h2]
  have h4 : (patch (be (be (be (List.replicate 64 0) 0 0x27051956) 12 n) 24 (crc data)) 28
      [5, 2, 7]).length = 64 := by
    rw [patch_length (by omega), h3]
    rfl
  refine ⟨?_, ?_, ?_⟩
  · unfold unsealed
    rw [patch_length (by omega), h4]
    omega
  · unfold unsealed
    rw [slice_patch_before (by omega) (by omega), slice_patch_before (by omega) (by omega)]
    unfold be at h1 h2 ⊢
    rw [slice_patch_before (by omega) (by omega), slice_patch_before (by omega) (by omega),
      slice_patch_after (by omega) (by rw [store32_length])]
    rfl
  · unfold unsealed
    rw [slice_patch_before (by omega) (by omega), slice_patch_before (by omega) (by omega)]
    unfold be at h2 ⊢
    exact slice_patch_self (by omega)

/-- **The header verifies.** -/
theorem header_verifies : Verifies (header part n data) data := by
  obtain ⟨hlen, hzero, hcrc⟩ := unsealed_spec part n data
  have hfield := (crc (unsealed part n data)).toNat_lt
  refine ⟨?_, ?_, ?_⟩
  · unfold header
    rw [be_length (by omega), hlen]
  · have hopen : patch (header part n data) 4 [0, 0, 0, 0] = unsealed part n data := by
      unfold header be
      rw [← hzero, patch_restore (by omega) (by rw [store32_length])]
    rw [hopen]
    unfold header be
    exact be32_patch_self (by omega) hfield
  · unfold header be
    rw [← be32_slice_self, slice_patch_after (by omega) (by rw [store32_length]; omega), hcrc,
      ← List.append_nil (store32 _), be32_store32 (crc data).toNat_lt]

end Header

/-! ## 5. A run -/

section Main

variable {r : Run} {part : Partition} {input : Bytes} {i : Image}

/-- `n` of a run. -/
def Run.rounded (r : Run) (input : Bytes) : UInt32 := roundUp (le (r.superblock input) 40)

/-- `data` of a run. -/
def Run.data (r : Run) (input : Bytes) : Bytes :=
  (input.take r.secondRead).take (r.rounded input).toNat

/-- What a run that returns 0 has passed, and what it has written. -/
structure Written (r : Run) (part : Partition) (input : Bytes) (i : Image) : Prop where
  superblock : squashfs (r.superblock input) = true
  room : r.rounded input + 64 ≤ part.limit
  seek : r.fseek = true
  read : (r.data input).length = (r.rounded input).toNat
  opened : r.fopenOut = true
  taken : 64 ≤ r.headerTaken
  closed : r.fclose = true
  file : i.file = header part (r.rounded input) (r.data input) ++ r.data input

theorem main_ok (hpart : r.partition = some part) (hinput : r.input = some input)
    (h : main r = .ok i) : Written r part input i := by
  unfold main at h
  rw [hpart, hinput] at h
  simp only at h
  split at h
  · cases h
  rename_i hsb
  split at h
  · cases h
  rename_i hsize
  split at h
  · cases h
  rename_i hread
  split at h
  · cases h
  rename_i hopen
  split at h
  · cases h
  rename_i hwrite
  rw [not_or] at hsize
  push Not at hread hwrite
  exact {
    superblock := by simpa using hsb
    room := UInt32.not_lt.mp hsize.2
    seek := by simpa using hread.2.1
    read := hread.2.2
    opened := by simpa using hopen
    taken := by omega
    closed := by simpa using hwrite.2.2
    file := congrArg Image.file (Except.ok.inj h).symm }

theorem superblock_length (h : squashfs (r.superblock input) = true) :
    (r.superblock input).length = 96 := by
  unfold squashfs at h
  simp only [Bool.and_eq_true, beq_iff_eq] at h
  exact h.1.1.1

/-- What was read of the superblock is what the file has there. -/
theorem le_superblock (h : squashfs (r.superblock input) = true) {k : Nat} (hk : k + 4 ≤ 96) :
    le (r.superblock input) k = le input k := by
  have hlen := superblock_length h
  have hprefix : r.superblock input <+: input :=
    (List.take_prefix _ _).trans (List.take_prefix _ _)
  obtain ⟨rest, hrest⟩ := hprefix
  have hbyte : ∀ j, j < 96 → (r.superblock input).getD j 0 = input.getD j 0 := by
    intro j hj
    have hget : (r.superblock input ++ rest)[j]? = (r.superblock input)[j]? :=
      List.getElem?_append_left (by omega)
    rw [hrest] at hget
    rw [List.getD_eq_getElem?_getD, List.getD_eq_getElem?_getD, hget]
  unfold le
  rw [hbyte k (by omega), hbyte (k + 1) (by omega), hbyte (k + 2) (by omega),
    hbyte (k + 3) (by omega)]

/-- A read that gets `n` bytes gets the first `n`. -/
theorem take_of_read {readable n : Nat} (h : ((input.take readable).take n).length = n) :
    (input.take readable).take n = input.take n := by
  rw [List.length_take, List.length_take] at h
  rw [List.take_take]
  congr 1
  omega

/-- Where the length does not wrap around, what is written is sound. -/
theorem Written.sound (h : Written r part input i) (hused : ¬ 0xfffff000 < bytesUsed input) :
    SoundImage part input i (r.rounded input).toNat := by
  have hle : le (r.superblock input) 40 = bytesUsed input :=
    le_superblock h.superblock (by decide)
  have hdata : r.data input = input.take (r.rounded input).toNat := take_of_read h.read
  have hverifies := header_verifies part (r.rounded input) (r.data input)
  refine ⟨?_, roundUp_aligned _, ?_, ?_, ?_⟩
  · rw [h.file, List.length_append, hverifies.length, h.read]
  · unfold Run.rounded
    rw [hle]
    exact roundUp_covers hused
  · have hroom := UInt32.le_iff_toNat_le.mp h.room
    have hsum := roundUp_room (le (r.superblock input) 40)
    unfold Run.rounded at hroom ⊢
    omega
  · exact ⟨_, h.file.trans (by rw [hdata]), hdata ▸ hverifies⟩

/-- Where it does, the run returns 0 with no data at all. -/
theorem main_wraps (h : WrapsAround r input) :
    ∃ part i, r.partition = some part ∧ main r = .ok i ∧ i.file.length = 64 := by
  obtain ⟨part, hpart⟩ := Option.isSome_iff_exists.mp h.arguments
  have hused : 0xfffff000 < le (r.superblock input) 40 := by
    rw [le_superblock h.superblock (by decide)]
    exact h.wraps
  have hround := roundUp_wraps hused
  have hsmall : 96 ≤ le (r.superblock input) 40 := by
    have hlow := UInt32.lt_iff_toNat_lt.mp hused
    exact UInt32.le_iff_toNat_le.mpr (Nat.le_trans (by decide) (Nat.le_of_lt hlow))
  have hlimit : 64 ≤ part.limit := by cases part <;> decide
  refine ⟨part, ⟨header part 0 [], 0⟩, hpart, ?_, (header_verifies part 0 []).length⟩
  unfold main
  rw [hpart, h.file]
  simp [h.superblock, hround, hsmall, hlimit, r.malloc_zero, h.seek, h.opened, h.closed,
    Nat.min_eq_left h.written]

end Main

/-- **clean_image is sound exactly where the length does not wrap around.** For every input,
    arguments and answers of the C library: what is written when 0 is returned is a header that
    verifies and whole blocks that cover the file system and fit, unless `bytes_used` is above
    0xfffff000 and nothing else refuses it. -/
theorem clean_image_sound_iff (r : Run) : Sound r ↔ ¬ ∃ input, WrapsAround r input := by
  constructor
  · rintro hsound ⟨input, hwraps⟩
    obtain ⟨part, i, hpart, hmain, hlen⟩ := main_wraps hwraps
    obtain ⟨n, himage⟩ := hsound part input i hpart hwraps.file hmain
    have hsize := himage.size
    have hcovers := himage.covers
    have hlow := UInt32.lt_iff_toNat_lt.mp hwraps.wraps
    have hpos : 0 < (bytesUsed input).toNat := Nat.lt_of_le_of_lt (Nat.zero_le _) hlow
    omega
  · intro hno part input i hpart hinput hmain
    have hwritten := main_ok hpart hinput hmain
    refine ⟨_, hwritten.sound fun hwraps => hno ⟨input, ?_⟩⟩
    exact ⟨hinput, by rw [hpart]; rfl, hwritten.superblock, hwraps, hwritten.seek,
      hwritten.opened, hwritten.taken, hwritten.closed⟩

/-- A superblock of version 4 that claims 2^32 - 1 bytes. -/
def hugeSuperblock : Bytes :=
  ascii "hsqs" ++ List.replicate 24 0 ++ [4, 0] ++ List.replicate 10 0 ++ [255, 255, 255, 255] ++
    List.replicate 52 0

/-- A run on it, with a C library that does all it is asked. -/
def hugeRun : Run where
  argv := ["clean-image", "rootfs.squashfs", "rootfs", "rootfs_m"]
  input := some hugeSuperblock
  firstRead := 96
  malloc := fun _ => true
  fseek := true
  secondRead := 96
  fopenOut := true
  headerTaken := 64
  dataTaken := 0
  fclose := true
  malloc_zero := rfl

/-- A header without data is written for it. -/
theorem huge_writes_nothing : ¬ ∀ r : Run, Sound r := by
  intro h
  have hwraps : WrapsAround hugeRun hugeSuperblock :=
    ⟨rfl, by decide, by decide, by decide, rfl, rfl, by decide, rfl⟩
  obtain ⟨part, i, hpart, hmain, hlen⟩ := main_wraps hwraps
  obtain ⟨n, himage⟩ := h hugeRun part hugeSuperblock i hpart rfl hmain
  have hsize := himage.size
  have hcovers := himage.covers
  have hused : bytesUsed hugeSuperblock = 0xffffffff := by decide
  rw [hused] at hcovers
  have hpos : (4294967295 : Nat) ≤ n := hcovers
  omega

end YiHack.FlashCore.CleanImage
