/-
  File:      YiHack/Record/Finalize.lean
  Subject:   `record_metadata.c`: `finalize_metadata`, which adds the motion tag to a finished clip.

  The tag is one `udta` box behind the last box of the file, which is `moov`; then the size of
  `moov` is patched so that the tag is inside it. Both writes may stop anywhere. The rollback
  writes the old size back, if the size was touched, and cuts the file off where it ended.

  * `metadataBuffer_eq` -- what `begin_box` and `end_box` build is a tree of boxes;
  * `finalize_atomic` -- a clip is tagged, or it is untouched as far as the rollback gets, and
    nothing before `moov` ever changes;
  * `finalize_succeeds` -- without failing calls a clip is tagged.
-/
import YiHack.General.Boxes
import YiHack.Record.BuildJson

namespace YiHack.Record

open General

/-! ## 1. The buffer -/

/-- `begin_box`, on the `used` bytes of the buffer; the box starts at their length. -/
def beginBox (buffer : Bytes) (type : String) : Bytes := buffer ++ store32 0 ++ ascii type

/-- `end_box`. -/
def endBox (buffer : Bytes) (start : Nat) : Bytes :=
  patch buffer start (store32 (buffer.length - start))

/-- Bytes of the cleared buffer. -/
def zeros (n : Nat) : Bytes := List.replicate n 0

/-- A `begin_box`, what is done until its `end_box`, and that. -/
def withBox (type : String) (body : Bytes → Bytes) (buffer : Bytes) : Bytes :=
  endBox (body (beginBox buffer type)) buffer.length

/-- The buffer of `finalize_metadata` with the JSON text in it, up to `used`. -/
def metadataBuffer (json : Bytes) : Bytes :=
  withBox "udta" (withBox "meta" fun b =>
    let b := b ++ zeros 4
    let b := withBox "hdlr" (fun b => b ++ zeros 8 ++ ascii "mdir" ++ zeros 13) b
    withBox "ilst" (withBox "----" fun b =>
      let b := withBox "mean" (fun b => b ++ zeros 4 ++ ascii "com.yi-hack") b
      let b := withBox "name" (fun b => b ++ zeros 4 ++ ascii "yi_motion") b
      withBox "data" (fun b => b ++ store32 1 ++ zeros 4 ++ json) b) b) []

/-- The payloads of the tag, from the inside. -/
def dataPayload (json : Bytes) : Bytes := store32 1 ++ zeros 4 ++ json
def namePayload : Bytes := zeros 4 ++ ascii "yi_motion"
def meanPayload : Bytes := zeros 4 ++ ascii "com.yi-hack"
def hdlrPayload : Bytes := zeros 8 ++ ascii "mdir" ++ zeros 13

def customPayload (json : Bytes) : Bytes :=
  box (ascii "mean") meanPayload ++ (box (ascii "name") namePayload ++
    box (ascii "data") (dataPayload json))

def ilstPayload (json : Bytes) : Bytes := box (ascii "----") (customPayload json)

def metaPayload (json : Bytes) : Bytes :=
  zeros 4 ++ (box (ascii "hdlr") hdlrPayload ++ box (ascii "ilst") (ilstPayload json))

def udtaPayload (json : Bytes) : Bytes := box (ascii "meta") (metaPayload json)

/-- `end_box` completes the box that `begin_box` began. -/
theorem withBox_eq {type : String} {body : Bytes → Bytes} {payload : Bytes}
    (hbody : ∀ b, body b = b ++ payload) (ht : (ascii type).length = 4) (buffer : Bytes) :
    withBox type body buffer = buffer ++ box (ascii type) payload := by
  have hlen : (body (beginBox buffer type)).length = buffer.length + (8 + payload.length) := by
    rw [hbody]
    simp only [beginBox, List.length_append, store32_length, ht]
    omega
  unfold withBox endBox
  rw [hlen, Nat.add_sub_cancel_left, hbody, beginBox, patch_eq (by simp)]
  simp only [List.append_assoc]
  rw [List.take_left, store32_length, ← List.drop_drop, List.drop_left,
    List.drop_left' (store32_length 0), box, List.append_assoc]

/-- **The buffer is one `udta` box**, with its boxes nested in it. -/
theorem metadataBuffer_eq (json : Bytes) :
    metadataBuffer json = box (ascii "udta") (udtaPayload json) := by
  have hmean : ∀ b, withBox "mean" (fun b => b ++ zeros 4 ++ ascii "com.yi-hack") b =
      b ++ box (ascii "mean") meanPayload :=
    withBox_eq (fun b => by rw [meanPayload, List.append_assoc]) rfl
  have hname : ∀ b, withBox "name" (fun b => b ++ zeros 4 ++ ascii "yi_motion") b =
      b ++ box (ascii "name") namePayload :=
    withBox_eq (fun b => by rw [namePayload, List.append_assoc]) rfl
  have hdata : ∀ b, withBox "data" (fun b => b ++ store32 1 ++ zeros 4 ++ json) b =
      b ++ box (ascii "data") (dataPayload json) :=
    withBox_eq (fun b => by simp only [dataPayload, List.append_assoc]) rfl
  have hhdlr : ∀ b, withBox "hdlr" (fun b => b ++ zeros 8 ++ ascii "mdir" ++ zeros 13) b =
      b ++ box (ascii "hdlr") hdlrPayload :=
    withBox_eq (fun b => by simp only [hdlrPayload, List.append_assoc]) rfl
  unfold metadataBuffer
  simp only [hmean, hname, hdata, hhdlr]
  have hcustom : ∀ b, withBox "----" (fun b => b ++ box (ascii "mean") meanPayload ++
      box (ascii "name") namePayload ++ box (ascii "data") (dataPayload json)) b =
      b ++ ilstPayload json :=
    withBox_eq (fun b => by simp only [customPayload, List.append_assoc]) rfl
  have hilst : ∀ b, withBox "ilst" (fun b => withBox "----" (fun b =>
      b ++ box (ascii "mean") meanPayload ++ box (ascii "name") namePayload ++
        box (ascii "data") (dataPayload json)) b) b =
      b ++ box (ascii "ilst") (ilstPayload json) := withBox_eq hcustom rfl
  have hmeta : ∀ b, withBox "meta" (fun b => withBox "ilst" (fun b => withBox "----" (fun b =>
      b ++ box (ascii "mean") meanPayload ++ box (ascii "name") namePayload ++
        box (ascii "data") (dataPayload json)) b)
      (b ++ zeros 4 ++ box (ascii "hdlr") hdlrPayload)) b = b ++ udtaPayload json :=
    withBox_eq (fun b => by rw [hilst]; simp only [metaPayload, List.append_assoc]) rfl
  rw [withBox_eq hmeta rfl, List.nil_append]

theorem metadataBuffer_length (json : Bytes) :
    (metadataBuffer json).length = 129 + json.length := by
  have hz : ∀ n, (zeros n).length = n := fun n => List.length_replicate
  have h1 : (ascii "mdir").length = 4 := rfl
  have h2 : (ascii "com.yi-hack").length = 11 := rfl
  have h3 : (ascii "yi_motion").length = 9 := rfl
  rw [metadataBuffer_eq, box_length rfl, udtaPayload, box_length rfl, metaPayload,
    List.length_append, List.length_append, box_length rfl, box_length rfl, ilstPayload,
    box_length rfl, customPayload, List.length_append, List.length_append, box_length rfl,
    box_length rfl, box_length rfl, dataPayload, meanPayload, namePayload, hdlrPayload]
  simp only [List.length_append, store32_length, hz, h1, h2, h3]
  omega

/-! ## 2. finalize_metadata -/

/-- What `finalize_metadata` meets besides the file and the schedule. -/
structure FinalizeEnv where
  json : JsonEnv
  fstatOk : Bool
  callocOk : Bool
  ftruncateOk : Bool

/-- What it returns (`none`: not yet), the file then, and whether all it did to roll back
    succeeded. -/
structure FinalizeResult where
  ret : Option Int
  file : Bytes
  rollbackOk : Bool

/-- The cut-off a failed write ends with. -/
def rollBack (env : FinalizeEnv) (movie : Movie) (file : Bytes) (rollbackOk : Bool) :
    FinalizeResult :=
  { ret := some (-1)
    file := if env.ftruncateOk then file.take movie.end_ else file
    rollbackOk := rollbackOk && env.ftruncateOk }

/-- The writes: append the buffer, then patch the size of `moov`. -/
def writeMetadata (env : FinalizeEnv) (movie : Movie) (buffer : Bytes) (f : Bytes) (s : Sched) :
    FinalizeResult :=
  if movie.size > UINT32_MAX - buffer.length then rollBack env movie f true
  else
    match writeAt f s buffer movie.end_ with
    | (.running, f) => ⟨none, f, true⟩
    | (.failed _, f) => rollBack env movie f true
    | (.done _ s, f) =>
      match writeAt f s (store32 (movie.size + buffer.length)) movie.offset with
      | (.running, f) => ⟨none, f, true⟩
      | (.done _ _, f) => ⟨some 0, f, true⟩
      | (.failed s, f) =>
        match writeAt f s (store32 movie.size) movie.offset with
        | (.running, f) => ⟨none, f, true⟩
        | (.failed _, f) => rollBack env movie f false
        | (.done _ _, f) => rollBack env movie f true

/-- `finalize_metadata`. -/
def finalizeMetadata (env : FinalizeEnv) (f : Bytes) (s : Sched) : FinalizeResult :=
  match (findMovie env.fstatOk f.length).io f s with
  | .running => ⟨none, f, true⟩
  | .failed _ => ⟨some (-1), f, true⟩
  | .done movie s =>
    if env.callocOk then
      match buildJson env.json movie with
      | none => ⟨some (-1), f, true⟩
      | some json => writeMetadata env movie (metadataBuffer json) f s
    else ⟨some (-1), f, true⟩

/-! ## 3. Statements -/

/-- `b` is a `udta` box whose nested boxes tile their parents, with `json` as its data. -/
structure Tiled (b json : Bytes) : Prop where
  udta : parseBoxes b = some [(ascii "udta", udtaPayload json)]
  meta_ : parseBoxes (udtaPayload json) = some [(ascii "meta", metaPayload json)]
  version : (metaPayload json).take 4 = zeros 4
  children : parseBoxes ((metaPayload json).drop 4) =
    some [(ascii "hdlr", hdlrPayload), (ascii "ilst", ilstPayload json)]
  ilst : parseBoxes (ilstPayload json) = some [(ascii "----", customPayload json)]
  custom : parseBoxes (customPayload json) =
    some [(ascii "mean", zeros 4 ++ ascii "com.yi-hack"), (ascii "name", zeros 4 ++ ascii "yi_motion"),
      (ascii "data", store32 1 ++ zeros 4 ++ json)]

/-- `g` is the clip `f` with the movie `m` in it, tagged with `json`: `n` bytes appended, the size
    of `moov` increased by `n`, nothing else changed; and the movie is found again, grown by `n`. -/
structure Tagged (f : Bytes) (m : Movie) (json g : Bytes) (n : Nat) : Prop where
  found : Found f 0 m
  fits : m.size + n ≤ UINT32_MAX
  appended : ∃ tag, tag.length = n ∧ Tiled tag json ∧
    g = patch f m.offset (store32 (m.size + n)) ++ tag
  again : (findMovie true g.length).on g = some { m with size := m.size + n, end_ := m.end_ + n }
  reads : ∀ s, NoError s → (findMovie true g.length).cost g ≤ counts s →
    ∃ rest, (findMovie true g.length).io g s =
      .done { m with size := m.size + n, end_ := m.end_ + n } rest

/-! ## 4. The tag -/

theorem appendText_length {json j : Bytes} {text : String} (h : appendText json text = some j) :
    j.length < JSON_CAPACITY := by
  obtain ⟨hlt, rfl⟩ := appendText_iff.mp h
  rwa [List.length_append]

/-- The JSON text is within its capacity. -/
theorem buildJson_length {env : JsonEnv} {movie : Movie} {json : Bytes}
    (h : buildJson env movie = some json) : json.length < JSON_CAPACITY := by
  unfold buildJson at h
  split at h
  · obtain ⟨_, -, h⟩ := Option.bind_eq_some_iff.mp h
    obtain ⟨_, -, h⟩ := Option.bind_eq_some_iff.mp h
    obtain ⟨_, -, h⟩ := Option.bind_eq_some_iff.mp h
    exact appendText_length h
  · obtain ⟨_, -, h⟩ := Option.bind_eq_some_iff.mp h
    obtain ⟨_, -, h⟩ := Option.bind_eq_some_iff.mp h
    obtain ⟨_, -, h⟩ := Option.bind_eq_some_iff.mp h
    exact appendText_length h

/-- The buffer never outgrows its allocation. -/
theorem metadataBuffer_fits {env : JsonEnv} {movie : Movie} {json : Bytes}
    (h : buildJson env movie = some json) :
    (metadataBuffer json).length ≤ JSON_CAPACITY + 256 := by
  have := buildJson_length h
  rw [metadataBuffer_length]
  omega

/-- **The sizes in the tag tile it.** -/
theorem tiled_metadataBuffer {json : Bytes} (h : json.length < JSON_CAPACITY) :
    Tiled (metadataBuffer json) json := by
  have hlen := metadataBuffer_length json
  have hcap : JSON_CAPACITY = 32768 := rfl
  rw [metadataBuffer_eq, box_length rfl] at hlen
  have hu : 8 + (udtaPayload json).length < 2 ^ 32 := by omega
  have e1 : (udtaPayload json).length = 8 + (metaPayload json).length := box_length rfl
  have e2 : (metaPayload json).length = 4 + ((box (ascii "hdlr") hdlrPayload).length +
      (box (ascii "ilst") (ilstPayload json)).length) := by
    rw [metaPayload, List.length_append, List.length_append]
    rfl
  have e3 : (box (ascii "ilst") (ilstPayload json)).length = 8 + (ilstPayload json).length :=
    box_length rfl
  have e4 : (ilstPayload json).length = 8 + (customPayload json).length := box_length rfl
  have e5 : (dataPayload json).length = 8 + json.length := by
    rw [dataPayload, List.length_append]
    rfl
  refine ⟨?_, parseBoxes_single rfl (by omega), rfl, ?_, parseBoxes_single rfl (by omega), ?_⟩
  · rw [metadataBuffer_eq]
    exact parseBoxes_single rfl hu
  · show parseBoxes (box (ascii "hdlr") hdlrPayload ++ box (ascii "ilst") (ilstPayload json)) = _
    exact parseBoxes_box rfl (by decide) (parseBoxes_single rfl (by omega))
  · exact parseBoxes_box rfl (by decide)
      (parseBoxes_box rfl (by decide) (parseBoxes_single rfl (by omega)))

/-! ## 5. The writes -/

section Writes

variable {f : Bytes} {m : Movie} {b : Bytes} {o : Nat}

/-- Cutting off what was appended restores a file whose size field is as it was. -/
theorem take_restored (hF : Found f o m) (b : Bytes) {k : Nat} (hk : k ≤ 4) (v : Nat) :
    (patch (patch (f ++ b) m.offset ((store32 v).take k)) m.offset (store32 m.size)).take m.end_ =
      f := by
  have hreach := hF.reaches
  have hge := hF.size_ge
  have hslice : slice (f ++ b) m.offset 4 = store32 m.size := by
    rw [slice_append_left _ (by omega), hF.stored]
  rw [← hslice, patch_restore (by rw [List.length_append]; omega)
    (by rw [List.length_take]; exact Nat.min_le_left k 4 |>.trans hk), hF.end_eq, List.take_left]

/-- Whatever of a number is written at `moov`, the bytes before stay. -/
theorem take_before (hF : Found f o m) (b d : Bytes) :
    (patch (f ++ b) m.offset d).take m.offset = f.take m.offset := by
  have hreach := hF.reaches
  rw [take_patch (by rw [List.length_append]; omega) (Nat.le_refl _),
    List.take_append_of_le_length (by omega)]

/-- Nothing before `moov` differs from `f`. -/
def KeepsBefore (f : Bytes) (m : Movie) (g : Bytes) : Prop := g.take m.offset = f.take m.offset

theorem KeepsBefore.rollBack (hF : Found f o m) {env : FinalizeEnv} {g : Bytes} {ok : Bool}
    (h : KeepsBefore f m g) : KeepsBefore f m (rollBack env m g ok).file := by
  have hreach := hF.reaches
  have hend := hF.end_eq
  unfold Record.rollBack KeepsBefore
  split
  · show (g.take m.end_).take m.offset = f.take m.offset
    rw [List.take_take, Nat.min_eq_left (by omega), h]
  · exact h

/-- What the writes leave: the tagged clip, or after a rollback that succeeded the old one, and
    nothing before `moov` changed. -/
structure Atomic (f : Bytes) (m : Movie) (b : Bytes) (r : FinalizeResult) : Prop where
  tagged : r.ret = some 0 → m.size + b.length ≤ UINT32_MAX ∧
    r.file = patch (f ++ b) m.offset (store32 (m.size + b.length))
  restored : r.ret = some (-1) → r.rollbackOk = true → r.file = f
  before : KeepsBefore f m r.file

/-- A rollback is atomic where cutting off restores the file. -/
theorem Atomic.rollBack (hF : Found f o m) {env : FinalizeEnv} {g : Bytes} {ok : Bool}
    (hbefore : KeepsBefore f m g) (hcut : ok = true → g.take m.end_ = f) :
    Atomic f m b (rollBack env m g ok) where
  tagged := fun h => absurd h (by simp [Record.rollBack])
  restored := fun _ h => by
    simp only [Record.rollBack, Bool.and_eq_true] at h ⊢
    rw [if_pos h.2]
    exact hcut h.1
  before := hbefore.rollBack hF

/-- A call that is still running has only to leave the bytes before `moov` alone. -/
theorem Atomic.running {g : Bytes} (hbefore : KeepsBefore f m g) :
    Atomic f m b ⟨none, g, true⟩ where
  tagged := nofun
  restored := nofun
  before := hbefore

/-- **The writes are atomic**, wherever they stop. -/
theorem writeMetadata_atomic (env : FinalizeEnv) (hF : Found f o m) (s : Sched) (hb : b.length ≤ UINT32_MAX) :
    Atomic f m b (writeMetadata env m b f s) := by
  have hreach := hF.reaches
  have hend := hF.end_eq
  have hsize : m.offset ≤ (f ++ b).length := by
    rw [List.length_append]
    omega
  unfold writeMetadata
  split
  · exact .rollBack hF rfl fun _ => by rw [hend, List.take_length]
  · rename_i hfit
    have hle : m.end_ ≤ f.length := by omega
    obtain ⟨k, hk, hfile, hdone⟩ := writeAt_spec s b hle
    have happ : patch f m.end_ (b.take k) = f ++ b.take k := by
      rw [hend, patch_end]
    have hbefore : KeepsBefore f m (f ++ b.take k) := by
      unfold KeepsBefore
      rw [List.take_append_of_le_length (by omega)]
    split
    · rename_i g hg
      rw [hg, happ] at hfile
      have hfile : g = f ++ b.take k := hfile
      exact .running (hfile ▸ hbefore)
    · rename_i rest g hg
      rw [hg, happ] at hfile
      have hfile : g = f ++ b.take k := hfile
      exact .rollBack hF (hfile ▸ hbefore) fun _ => by rw [hfile, hend, List.take_left]
    · rename_i s' g hg
      have hg' : g = f ++ b := by
        have h1 := hdone s' (by rw [hg])
        rw [hg, happ, h1, List.take_length] at hfile
        exact hfile
      subst hg'
      obtain ⟨k₁, hk₁, hfile₁, hdone₁⟩ := writeAt_spec s' (store32 (m.size + b.length)) hsize
      split
      · rename_i g₁ hg₁
        rw [hg₁] at hfile₁
        have hfile₁ : g₁ = _ := hfile₁
        exact .running (hfile₁ ▸ take_before hF b _)
      · rename_i rest g₁ hg₁
        rw [hg₁] at hfile₁ hdone₁
        have hfile₁ : g₁ = _ := hfile₁
        have h4 := hdone₁ rest rfl
        exact {
          tagged := fun _ => ⟨by omega, by rw [hfile₁, h4, List.take_length]⟩
          restored := nofun
          before := hfile₁ ▸ take_before hF b _ }
      · rename_i s₁ g₁ hg₁
        rw [hg₁] at hfile₁
        have hg₁' : g₁ = patch (f ++ b) m.offset ((store32 (m.size + b.length)).take k₁) := hfile₁
        have hsize₁ : m.offset ≤ g₁.length := by
          rw [hg₁', patch_length hsize]
          omega
        obtain ⟨k₂, hk₂, hfile₂, hdone₂⟩ := writeAt_spec s₁ (store32 m.size) hsize₁
        have hbefore₂ : KeepsBefore f m (patch g₁ m.offset ((store32 m.size).take k₂)) := by
          unfold KeepsBefore
          rw [take_patch hsize₁ (Nat.le_refl _), hg₁']
          exact take_before hF b _
        split
        · rename_i g₂ hg₂
          rw [hg₂] at hfile₂
          have hfile₂ : g₂ = _ := hfile₂
          exact .running (hfile₂ ▸ hbefore₂)
        · rename_i rest g₂ hg₂
          rw [hg₂] at hfile₂
          have hfile₂ : g₂ = _ := hfile₂
          exact .rollBack hF (hfile₂ ▸ hbefore₂) nofun
        · rename_i rest g₂ hg₂
          rw [hg₂] at hfile₂ hdone₂
          have hfile₂ : g₂ = _ := hfile₂
          refine .rollBack hF (hfile₂ ▸ hbefore₂) fun _ => ?_
          rw [hfile₂, hdone₂ rest rfl, List.take_length, hg₁']
          exact take_restored hF b hk₁ _

end Writes

/-! ## 6. The clip -/

/-- A file that was appended to and patched is the tagged clip. -/
theorem tagged_patch {env : JsonEnv} {f json : Bytes} {m : Movie} {fstatOk : Bool}
    (hm : (findMovie fstatOk f.length).on f = some m) (hj : buildJson env m = some json)
    (hfit : m.size + (metadataBuffer json).length ≤ UINT32_MAX) :
    Tagged f m json
      (patch (f ++ metadataBuffer json) m.offset (store32 (m.size + (metadataBuffer json).length)))
      (metadataBuffer json).length := by
  obtain ⟨-, -, hF⟩ := findMovie_spec hm
  have hagain := findMovie_grown (grown_patch hF (metadataBuffer json)) hfit hm
  have hreach := hF.reaches
  have hge := hF.size_ge
  exact {
    found := hF
    fits := hfit
    appended := ⟨_, rfl, tiled_metadataBuffer (buildJson_length hj),
      patch_append _ (by rw [store32_length]; omega)⟩
    again := hagain
    reads := fun s hs hc =>
      let ⟨rest, h, _⟩ := Reader.io_finishes hagain hs hc
      ⟨rest, h⟩ }

/-- **A clip is tagged or left as it was.** For every file, every JSON text and every schedule of
    system calls: where `finalize_metadata` returns 0 the file is the tagged clip; where it
    returns -1 and its rollback succeeded the file is what it was; and whatever happens, also
    while it is still running, no byte before `moov` changes, nor anything in a file without. -/
theorem finalize_atomic (env : FinalizeEnv) (f : Bytes) (s : Sched) :
    ((finalizeMetadata env f s).ret = some 0 →
      ∃ m json, (findMovie true f.length).on f = some m ∧ buildJson env.json m = some json ∧
        Tagged f m json (finalizeMetadata env f s).file (metadataBuffer json).length) ∧
    ((finalizeMetadata env f s).ret = some (-1) → (finalizeMetadata env f s).rollbackOk = true →
      (finalizeMetadata env f s).file = f) ∧
    (∀ m, (findMovie true f.length).on f = some m →
      (finalizeMetadata env f s).file.take m.offset = f.take m.offset) ∧
    ((findMovie true f.length).on f = none → (finalizeMetadata env f s).file = f) := by
  unfold finalizeMetadata
  split
  · exact ⟨nofun, nofun, fun _ _ => rfl, fun _ => rfl⟩
  · exact ⟨nofun, fun _ _ => rfl, fun _ _ => rfl, fun _ => rfl⟩
  · rename_i m s' hio
    have hm := Reader.io_done hio
    obtain ⟨hok, -, hF⟩ := findMovie_spec hm
    rw [hok] at hm
    split
    · split
      · exact ⟨nofun, fun _ _ => rfl, fun _ _ => rfl, fun _ => rfl⟩
      · rename_i json hj
        have hb : (metadataBuffer json).length ≤ UINT32_MAX :=
          Nat.le_trans (metadataBuffer_fits hj) (by decide)
        obtain ⟨htag, hrest, hbefore⟩ := writeMetadata_atomic env hF s' hb
        refine ⟨fun h0 => ?_, hrest, fun m' hm' => ?_, fun hn => ?_⟩
        · obtain ⟨hfit, hfile⟩ := htag h0
          exact ⟨m, json, hm, hj, hfile ▸ tagged_patch hm hj hfit⟩
        · cases hm.symm.trans hm'
          exact hbefore
        · cases hm.symm.trans hn
    · exact ⟨nofun, fun _ _ => rfl, fun _ _ => rfl, fun _ => rfl⟩

/-- **Without failing calls a clip is tagged**, once the schedule transfers as often as there are
    bytes to read and write. -/
theorem finalize_succeeds {env : FinalizeEnv} {f json : Bytes} {m : Movie} {s : Sched}
    (hm : (findMovie env.fstatOk f.length).on f = some m) (hj : buildJson env.json m = some json)
    (halloc : env.callocOk = true) (hfit : m.size + (metadataBuffer json).length ≤ UINT32_MAX)
    (hs : NoError s)
    (hc : (findMovie env.fstatOk f.length).cost f + (metadataBuffer json).length + 4 ≤ counts s) :
    (finalizeMetadata env f s).ret = some 0 := by
  obtain ⟨s', hio, hs', hc'⟩ := Reader.io_finishes hm hs (by omega)
  obtain ⟨s₁, hw₁, hs₁, hc₁⟩ := writeAt_full f m.end_ hs'
    (p := metadataBuffer json) (by omega)
  unfold finalizeMetadata
  rw [hio]
  simp only [halloc, if_true, hj]
  unfold writeMetadata
  rw [if_neg (by omega)]
  generalize writeAt f s' (metadataBuffer json) m.end_ = w₁ at hw₁
  obtain ⟨o₁, f₁⟩ := w₁
  cases hw₁
  obtain ⟨s₂, hw₂, -⟩ := writeAt_full f₁ m.offset hs₁
    (p := store32 (m.size + (metadataBuffer json).length)) (by rw [store32_length]; omega)
  simp only
  generalize writeAt f₁ s₁ (store32 (m.size + (metadataBuffer json).length)) m.offset = w₂ at hw₂
  obtain ⟨o₂, f₂⟩ := w₂
  cases hw₂
  rfl

end YiHack.Record
