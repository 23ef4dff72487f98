/-
  File:      YiHack/Boot/PatchUimage.lean
  Subject:   `patch_y623_ve_debugfs.py`: the boot partition of y623, two calls of its kernel replaced.

  A partition is a header with two checksums, a payload with the kernel in a slot of its own, and a
  tail. `crc32` and the two directions of `xz` are whatever functions they are; `xz` may fail.

  * `parseUimage`, `patchImage`, `rebuildUimage`, `main` -- the functions of the source;
  * `patchImage_cases` -- all sites are patched, or none is;
  * `rebuild_outside` -- the bytes that a rebuilt partition shares with the original;
  * **`main_exact`** -- what is written, what is refused, and that patching twice is patching once.
-/
import YiHack.General.Bytes
import YiHack.General.Fallible

namespace YiHack.Boot

open General

/-! ## 1. The layout -/

def UIMAGE_MAGIC : Nat := 0x27051956

def UIMAGE_HEADER_SIZE : Nat := 64

def EXPECTED_PAYLOAD_SIZE : Nat := 1878024

def XZ_OFFSET : Nat := 15273

def XZ_SLOT_SIZE : Nat := 1862684

def EXPECTED_IMAGE_SIZE : Nat := 3742168

def VMLINUX_BASE : Nat := 0xC0008000

/-- A call site in the decompressed kernel. -/
structure Site where
  va : Nat
  old : Bytes
  new : Bytes
  label : String

def Site.off (p : Site) : Nat := p.va - VMLINUX_BASE

/-- `image[off : off + 4]`. -/
def Site.current (p : Site) (image : Bytes) : Bytes := slice image p.off 4

def kfreeSite : Site :=
  ⟨0xC018C414, [0xed, 0xf6, 0x6c, 0xff], [0xe6, 0xf6, 0x82, 0xfd], "kfree -> vfree"⟩

def kmallocSite : Site :=
  ⟨0xC018C42C, [0xd9, 0xf6, 0x58, 0xfc], [0xe6, 0xf6, 0xb4, 0xfe], "kmalloc_order -> vmalloc"⟩

def PATCHES : List Site := [kfreeSite, kmallocSite]

inductive PatchError
  | tooSmall
  | magic (found : Nat)
  | payloadSize (found : Nat)
  | shortDump
  | headerCrc (found calculated : UInt32)
  | dataCrc (found calculated : UInt32)
  | xz
  | slotBeyondPayload
  | imageSize (found : Nat)
  | signature (p : Site) (found : Bytes)
  | partiallyPatched
  | tooLarge (size : Nat)
  | padding (n : Nat)
  | changedBefore
  | changedAfter
  | sizeChanged
  | tailChanged
  | roundTrip
  | verification (p : Site)

/-- `if not c: raise e`. -/
def check (c : Bool) (e : PatchError) : Except PatchError Unit := if c then .ok () else .error e

/-! ## 2. The script -/

section

variable (crc32 : Bytes → UInt32) (xz unxz : Bytes → Option Bytes)

/-- `struct.pack_into(">I", b, off, v)`. -/
def packInto (b : Bytes) (off : Nat) (v : UInt32) : Bytes := patch b off (store32 v.toNat)

/-- `struct.unpack` of one field. -/
def unpackAt (b : Bytes) (off : Nat) : UInt32 := UInt32.ofNat (be32 b off)

structure Uimage where
  header : Bytes
  payload : Bytes
  tail : Bytes

def parseUimage (partition : Bytes) : Except PatchError Uimage := do
  check (UIMAGE_HEADER_SIZE ≤ partition.length) .tooSmall
  let header := partition.take UIMAGE_HEADER_SIZE
  check (be32 header 0 = UIMAGE_MAGIC) (.magic (be32 header 0))
  let size := be32 header 12
  check (size = EXPECTED_PAYLOAD_SIZE) (.payloadSize size)
  check (UIMAGE_HEADER_SIZE + size ≤ partition.length) .shortDump
  let headerForCrc := packInto header 4 0
  check (crc32 headerForCrc = unpackAt header 4)
    (.headerCrc (unpackAt header 4) (crc32 headerForCrc))
  let payload := slice partition UIMAGE_HEADER_SIZE size
  check (crc32 payload = unpackAt header 24) (.dataCrc (unpackAt header 24) (crc32 payload))
  return ⟨header, payload, partition.drop (UIMAGE_HEADER_SIZE + size)⟩

/-- `run_xz`. -/
def runXz (tool : Bytes → Option Bytes) (data : Bytes) : Except PatchError Bytes :=
  match tool data with
  | some out => .ok out
  | none => .error .xz

def decompressKernel (payload : Bytes) : Except PatchError Bytes := do
  check (XZ_OFFSET + XZ_SLOT_SIZE ≤ payload.length) .slotBeyondPayload
  let image ← runXz unxz (slice payload XZ_OFFSET XZ_SLOT_SIZE)
  check (image.length = EXPECTED_IMAGE_SIZE) (.imageSize image.length)
  return image

/-- Whether the site is patched. -/
def siteState (image : Bytes) (p : Site) : Except PatchError Bool :=
  if p.current image = p.old then .ok false
  else if p.current image = p.new then .ok true
  else .error (.signature p (p.current image))

/-- All sites are written. -/
def applyPatches (image : Bytes) : Bytes := PATCHES.foldl (fun out p => patch out p.off p.new) image

def patchImage (image : Bytes) : Except PatchError (Bytes × Bool) := do
  let states ← PATCHES.mapM (siteState image)
  if states.all id then return (image, false)
  else do
    check (!states.any id) .partiallyPatched
    return (applyPatches image, true)

def compressKernel (image : Bytes) : Except PatchError Bytes := do
  let compressed ← runXz xz image
  check (compressed.length ≤ XZ_SLOT_SIZE) (.tooLarge compressed.length)
  let padding := XZ_SLOT_SIZE - compressed.length
  check (padding % 4 = 0) (.padding padding)
  return compressed ++ List.replicate padding 0

/-- The header with both checksums of a payload. -/
def sealHeader (header payload : Bytes) : Bytes :=
  let header := packInto header 24 (crc32 payload)
  let header := packInto header 4 0
  packInto header 4 (crc32 header)

def rebuildUimage (original : Bytes) (u : Uimage) (image : Bytes) : Except PatchError Bytes := do
  let slot ← compressKernel xz image
  let payload := patch u.payload XZ_OFFSET slot
  check (payload.take XZ_OFFSET = u.payload.take XZ_OFFSET) .changedBefore
  check (payload.drop (XZ_OFFSET + XZ_SLOT_SIZE) = u.payload.drop (XZ_OFFSET + XZ_SLOT_SIZE))
    .changedAfter
  let output := sealHeader crc32 u.header payload ++ payload ++ u.tail
  check (output.length = original.length) .sizeChanged
  let out ← parseUimage crc32 output
  check (out.tail = u.tail) .tailChanged
  let roundtrip ← decompressKernel unxz out.payload
  check (roundtrip = image) .roundTrip
  PATCHES.forM fun p => check (p.current roundtrip = p.new) (.verification p)
  return output

/-- What `main` writes. -/
def main (original : Bytes) : Except PatchError Bytes := do
  let u ← parseUimage crc32 original
  let image ← decompressKernel unxz u.payload
  let (patched, changed) ← patchImage image
  if changed then rebuildUimage crc32 xz unxz original u patched
  else return original

/-! ## 3. What is asked of it -/

/-- The kernel of a partition that is accepted. -/
def kernelOf (partition : Bytes) : Except PatchError Bytes := do
  let u ← parseUimage crc32 partition
  decompressKernel unxz u.payload

end

def AllOld (image : Bytes) : Prop := ∀ p ∈ PATCHES, p.current image = p.old

def AllNew (image : Bytes) : Prop := ∀ p ∈ PATCHES, p.current image = p.new

/-- The second image is the first with the sites patched. -/
structure SitesPatched (image image' : Bytes) : Prop where
  length : image'.length = image.length
  before : AllOld image
  after : AllNew image'
  elsewhere : ∀ i, (∀ p ∈ PATCHES, i < p.off ∨ p.off + 4 ≤ i) → image'[i]? = image[i]?

/-- Outside of the slot and of the two checksums. -/
def Untouched (i : Nat) : Prop :=
  ¬ (4 ≤ i ∧ i < 8) ∧ ¬ (24 ≤ i ∧ i < 28) ∧
    ¬ (UIMAGE_HEADER_SIZE + XZ_OFFSET ≤ i ∧ i < UIMAGE_HEADER_SIZE + XZ_OFFSET + XZ_SLOT_SIZE)

section

variable (crc32 : Bytes → UInt32) (xz unxz : Bytes → Option Bytes)

/-- The second partition is the first with its kernel patched. -/
structure Rebuilt (original out : Bytes) : Prop where
  length : out.length = original.length
  kernel : ∃ image image', kernelOf crc32 unxz original = .ok image ∧
    kernelOf crc32 unxz out = .ok image' ∧ SitesPatched image image'
  outside : ∀ i, Untouched i → out[i]? = original[i]?

/-- **Patching is exact**: what is written is the original where all sites are patched already, else
    the original with its kernel patched, and patching it again changes nothing; what is accepted
    and written has all sites patched or none. -/
structure Exact (original : Bytes) : Prop where
  written : ∀ out, main crc32 xz unxz original = .ok out →
    (∃ image, kernelOf crc32 unxz original = .ok image ∧ AllNew image ∧ out = original) ∨
      Rebuilt crc32 unxz original out
  again : ∀ out, main crc32 xz unxz original = .ok out → main crc32 xz unxz out = .ok out
  refused : ∀ image, kernelOf crc32 unxz original = .ok image → ¬ AllOld image → ¬ AllNew image →
    ∃ e, main crc32 xz unxz original = .error e

end

/-! ## 4. The parts -/

theorem check_ok_iff {c : Bool} {e : PatchError} {u : Unit} : check c e = .ok u ↔ c = true := by
  cases c with
  | true => exact ⟨fun _ => rfl, fun _ => rfl⟩
  | false => exact ⟨nofun, nofun⟩

theorem forM_check {ps : List Site} {c : Site → Bool} {e : Site → PatchError} {u : Unit}
    (h : ps.forM (fun p => check (c p) (e p)) = .ok u) : ∀ p ∈ ps, c p = true := by
  induction ps with
  | nil => exact nofun
  | cons q ps ih =>
    obtain ⟨_, hq, hps⟩ := ok_bind_iff.mp h
    exact List.forall_mem_cons.mpr ⟨check_ok_iff.mp hq, ih hps⟩

section

variable {crc32 : Bytes → UInt32} {xz unxz : Bytes → Option Bytes}

/-- How an accepted partition is cut. -/
structure Cut (partition : Bytes) (u : Uimage) : Prop where
  length : UIMAGE_HEADER_SIZE + EXPECTED_PAYLOAD_SIZE ≤ partition.length
  header : u.header = partition.take UIMAGE_HEADER_SIZE
  payload : u.payload = slice partition UIMAGE_HEADER_SIZE EXPECTED_PAYLOAD_SIZE
  tail : u.tail = partition.drop (UIMAGE_HEADER_SIZE + EXPECTED_PAYLOAD_SIZE)

theorem parse_cut {partition : Bytes} {u : Uimage} (h : parseUimage crc32 partition = .ok u) :
    Cut partition u := by
  simp only [parseUimage, ok_bind_iff, check_ok_iff, decide_eq_true_eq] at h
  obtain ⟨-, -, -, -, -, hsize, -, hlen, -, -, -, -, hu⟩ := h
  obtain rfl := Except.ok.inj hu
  rw [hsize] at hlen ⊢
  exact ⟨hlen, rfl, rfl, rfl⟩

theorem Cut.whole {partition : Bytes} {u : Uimage} (h : Cut partition u) :
    partition = u.header ++ u.payload ++ u.tail := by
  rw [h.header, h.payload, h.tail, slice, ← List.drop_drop, List.append_assoc,
    List.take_append_drop, List.take_append_drop]

theorem Cut.header_length {partition : Bytes} {u : Uimage} (h : Cut partition u) :
    u.header.length = UIMAGE_HEADER_SIZE := by
  rw [h.header, List.length_take]
  exact Nat.min_eq_left ((Nat.le_add_right _ _).trans h.length)

theorem Cut.payload_length {partition : Bytes} {u : Uimage} (h : Cut partition u) :
    u.payload.length = EXPECTED_PAYLOAD_SIZE := by
  rw [h.payload, slice_length_of_le h.length]

theorem decompress_length {payload image : Bytes} (h : decompressKernel unxz payload = .ok image) :
    image.length = EXPECTED_IMAGE_SIZE := by
  simp only [decompressKernel, ok_bind_iff, check_ok_iff, decide_eq_true_eq] at h
  obtain ⟨-, -, a, -, -, hlen, ha⟩ := h
  exact Except.ok.inj ha ▸ hlen

theorem siteState_ok {image : Bytes} {p : Site} {b : Bool} (h : siteState image p = .ok b) :
    (b = false ∧ p.current image = p.old) ∨ (b = true ∧ p.current image = p.new) := by
  unfold siteState at h
  split at h
  · next hold => exact .inl ⟨(Except.ok.inj h).symm, hold⟩
  · split at h
    · next hnew => exact .inr ⟨(Except.ok.inj h).symm, hnew⟩
    · nomatch h

/-- **All sites are patched, or none is.** -/
theorem patchImage_cases {image image' : Bytes} {changed : Bool}
    (h : patchImage image = .ok (image', changed)) :
    (changed = false ∧ image' = image ∧ AllNew image) ∨
      (changed = true ∧ image' = applyPatches image ∧ AllOld image) := by
  simp only [patchImage, PATCHES, List.mapM_cons, List.mapM_nil, ok_bind_iff, pure_ok_iff] at h
  obtain ⟨_, ⟨a, ha, _, ⟨b, hb, _, rfl, rfl⟩, rfl⟩, h⟩ := h
  have hall {q : Site → Bytes} (hfree : kfreeSite.current image = q kfreeSite)
      (hmalloc : kmallocSite.current image = q kmallocSite) :
      ∀ p ∈ PATCHES, p.current image = q p := by
    intro p hp
    rcases List.mem_pair.mp hp with rfl | rfl
    · exact hfree
    · exact hmalloc
  rcases siteState_ok ha with ⟨rfl, hfree⟩ | ⟨rfl, hfree⟩ <;>
    rcases siteState_ok hb with ⟨rfl, hmalloc⟩ | ⟨rfl, hmalloc⟩
  · obtain ⟨rfl, rfl⟩ := Prod.mk.inj (Except.ok.inj h)
    exact .inr ⟨rfl, rfl, hall hfree hmalloc⟩
  · nomatch h
  · nomatch h
  · obtain ⟨rfl, rfl⟩ := Prod.mk.inj (Except.ok.inj h)
    exact .inl ⟨rfl, rfl, hall hfree hmalloc⟩

/-- A partition whose kernel is patched at every site. -/
theorem patchImage_allNew {image : Bytes} (h : AllNew image) :
    patchImage image = .ok (image, false) := by
  have hstate : ∀ p ∈ PATCHES, p.old ≠ p.new → siteState image p = .ok true := by
    intro p hp hne
    rw [siteState, h p hp, if_neg hne.symm, if_pos rfl]
  simp only [patchImage, PATCHES, List.mapM_cons, List.mapM_nil,
    hstate kfreeSite List.mem_cons_self (by decide),
    hstate kmallocSite (List.mem_cons_of_mem _ List.mem_cons_self) (by decide)]
  rfl

theorem applyPatches_sites {image : Bytes} (hold : AllOld image)
    (hlen : image.length = EXPECTED_IMAGE_SIZE) : SitesPatched image (applyPatches image) := by
  have hfree : kfreeSite.off + 4 ≤ image.length := hlen ▸ (by decide)
  have hmalloc : kmallocSite.off + 4 ≤ image.length := hlen ▸ (by decide)
  have hlen1 : (patch image kfreeSite.off kfreeSite.new).length = image.length := by
    rw [patch_length (by omega)]
    exact Nat.max_eq_left hfree
  have hlen2 : (applyPatches image).length = image.length := by
    show (patch (patch image kfreeSite.off kfreeSite.new) kmallocSite.off kmallocSite.new).length = _
    rw [patch_length (by omega), hlen1]
    exact Nat.max_eq_left hmalloc
  refine ⟨hlen2, hold, fun p hp => ?_, fun i hi => ?_⟩
  · rcases List.mem_pair.mp hp with rfl | rfl
    · show slice (patch (patch image kfreeSite.off kfreeSite.new) _ _) kfreeSite.off 4 = _
      rw [slice_patch_before (by omega) (by decide)]
      exact slice_patch_self (by omega)
    · refine slice_patch_self (f := patch image kfreeSite.off kfreeSite.new) ?_
      omega
  · have hi1 := hi kfreeSite List.mem_cons_self
    have hi2 := hi kmallocSite (List.mem_cons_of_mem _ List.mem_cons_self)
    show (patch (patch image kfreeSite.off kfreeSite.new) kmallocSite.off kmallocSite.new)[i]? = _
    rw [getElem?_patch (by omega) hi2, getElem?_patch (by omega) hi1]

/-! ## 5. A rebuilt partition -/

theorem compress_length {image slot : Bytes} (h : compressKernel xz image = .ok slot) :
    slot.length = XZ_SLOT_SIZE := by
  simp only [compressKernel, ok_bind_iff, check_ok_iff, decide_eq_true_eq] at h
  obtain ⟨c, -, -, hle, -, -, hslot⟩ := h
  rw [← Except.ok.inj hslot, List.length_append, List.length_replicate]
  omega

theorem getElem?_append_congr {a a' b b' : Bytes} {i : Nat} (hlen : a.length = a'.length)
    (ha : i < a'.length → a[i]? = a'[i]?)
    (hb : a'.length ≤ i → b[i - a'.length]? = b'[i - a'.length]?) :
    (a ++ b)[i]? = (a' ++ b')[i]? := by
  rcases Nat.lt_or_ge i a'.length with hlt | hge
  · rw [List.getElem?_append_left (hlen ▸ hlt), List.getElem?_append_left hlt, ha hlt]
  · rw [List.getElem?_append_right (hlen ▸ hge), List.getElem?_append_right hge, hlen, hb hge]

theorem packInto_length {b : Bytes} {off : Nat} (h : off + 4 ≤ b.length) (v : UInt32) :
    (packInto b off v).length = b.length := by
  rw [packInto, patch_length (by omega), store32_length, Nat.max_eq_left h]

theorem getElem?_packInto {b : Bytes} {off i : Nat} (h : off + 4 ≤ b.length)
    (hi : ¬ (off ≤ i ∧ i < off + 4)) (v : UInt32) : (packInto b off v)[i]? = b[i]? := by
  refine getElem?_patch (by omega) ?_
  rw [store32_length]
  omega

/-- A sealed header: its length, and its bytes besides the checksums. -/
theorem sealHeader_spec {header : Bytes} (hlen : header.length = UIMAGE_HEADER_SIZE)
    (payload : Bytes) :
    (sealHeader crc32 header payload).length = UIMAGE_HEADER_SIZE ∧
      ∀ i, ¬ (4 ≤ i ∧ i < 8) → ¬ (24 ≤ i ∧ i < 28) →
        (sealHeader crc32 header payload)[i]? = header[i]? := by
  have h0 : header.length = 64 := hlen
  have h1 : (packInto header 24 (crc32 payload)).length = 64 := by
    rw [packInto_length (by omega), h0]
  have h2 : (packInto (packInto header 24 (crc32 payload)) 4 0).length = 64 := by
    rw [packInto_length (by omega), h1]
  constructor
  · show (packInto (packInto (packInto header 24 (crc32 payload)) 4 0) 4 _).length = 64
    rw [packInto_length (by omega), h2]
  · intro i hi hi'
    show (packInto (packInto (packInto header 24 (crc32 payload)) 4 0) 4 _)[i]? = _
    rw [getElem?_packInto (by omega) hi, getElem?_packInto (by omega) hi,
      getElem?_packInto (by omega) hi']

/-- What a rebuilt partition is, and that it was looked at again. -/
theorem rebuild_ok {original out image : Bytes} {u : Uimage}
    (h : rebuildUimage crc32 xz unxz original u image = .ok out) :
    ∃ slot, compressKernel xz image = .ok slot ∧
      out = sealHeader crc32 u.header (patch u.payload XZ_OFFSET slot) ++
        patch u.payload XZ_OFFSET slot ++ u.tail ∧
      out.length = original.length ∧ kernelOf crc32 unxz out = .ok image ∧ AllNew image := by
  simp only [rebuildUimage, ok_bind_iff, pure_ok_iff, check_ok_iff, decide_eq_true_eq] at h
  obtain ⟨slot, hslot, -, -, -, -, -, hlen, v, hv, -, -, roundtrip, hround, -, rfl, _, hall, rfl⟩ :=
    h
  refine ⟨slot, hslot, rfl, hlen, ?_, fun p hp => of_decide_eq_true (forM_check hall p hp)⟩
  rw [kernelOf, hv]
  exact hround

theorem rebuild_outside {original out image : Bytes} {u : Uimage} (hu : Cut original u)
    (h : rebuildUimage crc32 xz unxz original u image = .ok out) {i : Nat} (hi : Untouched i) :
    out[i]? = original[i]? := by
  obtain ⟨slot, hslot, rfl, -, -, -⟩ := rebuild_ok h
  obtain ⟨hsum, hdata, hbody⟩ := hi
  obtain ⟨hseal, hheader⟩ :=
    sealHeader_spec hu.header_length (patch u.payload XZ_OFFSET slot)
  have hslotlen := compress_length hslot
  have hpay := hu.payload_length
  have hpatch : (patch u.payload XZ_OFFSET slot).length = u.payload.length := by
    rw [patch_length (by rw [hpay]; decide), hslotlen, hpay]
    rfl
  conv_rhs => rw [hu.whole]
  rw [List.append_assoc, List.append_assoc]
  refine getElem?_append_congr (hseal.trans hu.header_length.symm)
    (fun _ => hheader i hsum hdata) fun hge => ?_
  refine getElem?_append_congr hpatch (fun _ => ?_) fun _ => rfl
  rw [hu.header_length] at hge ⊢
  refine getElem?_patch (by rw [hpay]; decide) ?_
  rw [hslotlen]
  omega

/-! ## 6. The whole script -/

/-- What `main` does with a partition whose kernel it gets at. -/
theorem main_ok {original out : Bytes} (h : main crc32 xz unxz original = .ok out) :
    ∃ image, kernelOf crc32 unxz original = .ok image ∧
      ((AllNew image ∧ out = original) ∨
        (AllOld image ∧ ∃ u, Cut original u ∧
          rebuildUimage crc32 xz unxz original u (applyPatches image) = .ok out)) := by
  simp only [main, ok_bind_iff] at h
  obtain ⟨u, hu, image, himage, ⟨patched, changed⟩, hpatch, h⟩ := h
  have hkernel : kernelOf crc32 unxz original = .ok image := by
    rw [kernelOf, hu]
    exact himage
  refine ⟨image, hkernel, ?_⟩
  rcases patchImage_cases hpatch with ⟨rfl, rfl, hnew⟩ | ⟨rfl, rfl, hold⟩
  · exact .inl ⟨hnew, (Except.ok.inj h).symm⟩
  · exact .inr ⟨hold, u, parse_cut hu, h⟩

theorem kernelOf_length {partition image : Bytes} (h : kernelOf crc32 unxz partition = .ok image) :
    image.length = EXPECTED_IMAGE_SIZE := by
  simp only [kernelOf, ok_bind_iff] at h
  obtain ⟨u, -, h⟩ := h
  exact decompress_length h

/-- A partition that is patched already is copied. -/
theorem main_allNew {partition image : Bytes} (h : kernelOf crc32 unxz partition = .ok image)
    (hnew : AllNew image) : main crc32 xz unxz partition = .ok partition := by
  simp only [kernelOf, ok_bind_iff] at h
  obtain ⟨u, hu, himage⟩ := h
  simp only [main, hu, himage, patchImage_allNew hnew, bind, Except.bind]
  rfl

theorem main_written {original out : Bytes} (h : main crc32 xz unxz original = .ok out) :
    (∃ image, kernelOf crc32 unxz original = .ok image ∧ AllNew image ∧ out = original) ∨
      Rebuilt crc32 unxz original out := by
  obtain ⟨image, hkernel, ⟨hnew, rfl⟩ | ⟨hold, u, hu, hrebuild⟩⟩ := main_ok h
  · exact .inl ⟨image, hkernel, hnew, rfl⟩
  · obtain ⟨-, -, -, hlen, hout, -⟩ := rebuild_ok hrebuild
    refine .inr ⟨hlen, ⟨image, applyPatches image, hkernel, hout, ?_⟩,
      fun i hi => rebuild_outside hu hrebuild hi⟩
    exact applyPatches_sites hold (kernelOf_length hkernel)

theorem main_again {original out : Bytes} (h : main crc32 xz unxz original = .ok out) :
    main crc32 xz unxz out = .ok out := by
  rcases main_written h with ⟨image, hkernel, hnew, rfl⟩ | ⟨-, ⟨_, image', -, hkernel, hsites⟩, -⟩
  · exact h
  · exact main_allNew hkernel hsites.after

theorem main_refused {original image : Bytes} (h : kernelOf crc32 unxz original = .ok image)
    (hold : ¬ AllOld image) (hnew : ¬ AllNew image) :
    ∃ e, main crc32 xz unxz original = .error e := by
  cases hmain : main crc32 xz unxz original with
  | error e => exact ⟨e, rfl⟩
  | ok out =>
    obtain ⟨image', hkernel, ⟨hnew', -⟩ | ⟨hold', -⟩⟩ := main_ok hmain
    · obtain rfl := Except.ok.inj (h.symm.trans hkernel)
      exact absurd hnew' hnew
    · obtain rfl := Except.ok.inj (h.symm.trans hkernel)
      exact absurd hold' hold

/-- **Patching the boot partition is exact**, whatever `crc32` and `xz` compute. -/
theorem main_exact (crc32 : Bytes → UInt32) (xz unxz : Bytes → Option Bytes) (original : Bytes) :
    Exact crc32 xz unxz original :=
  ⟨fun _ h => main_written h, fun _ h => main_again h, fun _ h hold hnew => main_refused h hold hnew⟩

end

end YiHack.Boot
