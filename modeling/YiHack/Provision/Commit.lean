/-
  File:      YiHack/Provision/Commit.lean
  Subject:   `configure_wifi.sh` behind its checks: the partition, then `system.conf`.

  The partition is a device of fixed size. The surroundings decide how each command ends; a `dd` that
  fails has written a part of its bytes (`torn` says how many), and a read that fails gives nothing.
  A signal may come between any two commands.

  * `script` -- the script, `Consistent` -- what it promises;
  * `commit_safe` -- what every run keeps;
  * `script_skips`, `script_writes` -- the runs in which every command ends well;
  * **`consistent_iff`** -- the promise is kept unless the comparison of the skip path, or of the two
    hashes, takes different texts for the same.
-/
import YiHack.General.Shell
import YiHack.Provision.Merge

namespace YiHack.Provision

open General

/-! ## 1. The state -/

/-- `$1`. -/
inductive Arg
  | none
  | check
  | force
  deriving DecidableEq, Repr

/-- Partition, `system.conf`, `CONFIG_TMP` and whether the variable is set, the backup; how far the
    next failing writes get; whether the `mv` was run, how the script left, and what `fail` said. -/
structure World where
  mtd : Bytes
  conf : Bytes
  staged : Option Bytes
  configTmp : Bool
  backup : Option Bytes
  torn : List Nat
  moved : Bool
  left : Option Bool
  said : Option String

/-- Bytes of a device, from `off` on, overwritten; the device does not grow. -/
def overwrite (dev : Bytes) (off : Nat) (data : Bytes) : Bytes :=
  dev.mapIdx fun i b => if off ≤ i then (data[i - off]?).getD b else b

/-- `$( )` of bytes: without NUL, and without the newlines at the end. -/
def fieldText (t : Bytes) : Bytes := capture (t.filter fun b => b ≠ 0)

/-! ## 2. The script -/

/-- `exit`. -/
def leave (ok : Bool) : Prog World Unit := do
  Prog.assign fun w => { w with left := some ok }
  Prog.exit ok

def cleanup : Prog World Unit := do
  let _ ← Prog.check
  if ← Prog.test World.configTmp then
    let _ ← Prog.command fun w => some { w with staged := none }

def fail (text : String) : Prog World Unit := do
  Prog.assign fun w => { w with said := some text }
  cleanup
  leave false

/-- `command || fail text`. -/
def orElseFail (p : Prog World Bool) (text : String) : Prog World Unit := do
  if ← p then pure () else fail text

/-- `dd if="$MTD_DEVICE"`, `hexdump "$MTD_DEVICE"`. -/
def readMtd (off n : Nat) : Prog World Bytes :=
  .cmd (fun ok w => (w, ok)) fun ok w => .pure (if ok then slice w.mtd off n else [])

def readText (off n : Nat) : Prog World Bytes := do
  let t ← readMtd off n
  return fieldText t

/-- `dd of="$MTD_DEVICE"`. -/
def writeMtd (off : Nat) (data : Bytes) : Prog World Bool :=
  .cmd (fun ok w =>
      if ok ∧ off + data.length ≤ w.mtd.length then ({ w with mtd := overwrite w.mtd off data }, true)
      else ({ w with
        mtd := overwrite w.mtd off (data.take (w.torn.headD 0))
        torn := w.torn.tail }, false)) fun ok _ => .pure ok

section

variable {H : Type} [DecidableEq H] (md5 : Bytes → H)

/-- `md5sum | awk '{print $1}'`; none where it prints nothing. -/
def hashOf (f : World → Option Bytes) : Prog World (Option H) :=
  .cmd (fun ok w => (w, ok)) fun ok w => .pure (if ok then (f w).map md5 else none)

/-- `CONFIG_TMP` into its place, unless it says the same. -/
def replaceConf (oldHash newHash : Option H) : Prog World Unit := do
  if oldHash = newHash then
    let _ ← Prog.command fun w => some { w with staged := none }
  else
    orElseFail (Prog.command fun w => w.staged.map fun t =>
      { w with conf := t, staged := none, moved := true }) "cannot save network boot settings"

/-- The mirror in the flash, where there is one. -/
def mirror : Prog World Unit := do
  if ← Prog.check then
    if ← Prog.check then pure ()
    else Prog.assign id

def installSettings : Prog World Unit := do
  let oldHash ← hashOf md5 fun w => some w.conf
  let newHash ← hashOf md5 World.staged
  orElseFail (Prog.test fun _ => oldHash.isSome && newHash.isSome)
    "cannot verify staged system configuration"
  replaceConf oldHash newHash
  Prog.assign fun w => { w with configTmp := false }
  mirror
  -- sync
  let _ ← Prog.check

/-- The fields are cleared and written. -/
def store (ssid key : Bytes) : Prog World Unit := do
  orElseFail (writeMtd 28 (List.replicate 64 0)) "cannot clear SSID field"
  orElseFail (writeMtd 92 (List.replicate 64 0)) "cannot clear key field"
  orElseFail (writeMtd 28 ssid) "cannot write SSID"
  orElseFail (writeMtd 92 key) "cannot write Wi-Fi key"
  orElseFail (writeMtd 24 [0, 0, 0, 0]) "cannot write Wi-Fi connected flag"

/-- Exact bytes and NUL termination. -/
def verify (ssid key : Bytes) : Prog World Unit := do
  let verifySsid ← readText 28 ssid.length
  let verifyKey ← readText 92 key.length
  let ssidTerm ← readMtd (28 + ssid.length) 1
  let keyTerm ← readMtd (92 + key.length) 1
  let verifyConnected ← readMtd 24 4
  orElseFail (Prog.test fun _ => verifySsid = ssid) "SSID readback verification failed"
  orElseFail (Prog.test fun _ => verifyKey = key) "Wi-Fi key readback verification failed"
  orElseFail (Prog.test fun _ => hexdump ssidTerm = ['0', '0']) "SSID is not NUL-terminated"
  orElseFail (Prog.test fun _ => hexdump keyTerm = ['0', '0']) "Wi-Fi key is not NUL-terminated"
  orElseFail (Prog.test fun _ => hexdump verifyConnected = "00000000".toList)
    "Wi-Fi connected flag verification failed"

/-- The write path. -/
def writeStation (ssid key : Bytes) : Prog World Unit := do
  orElseFail (Prog.command fun w => some { w with backup := some w.mtd }) "cannot back up"
  orElseFail (Prog.test fun w => w.backup.any fun f => f ≠ []) "MTD backup is empty"
  store ssid key
  -- sync
  let _ ← Prog.check
  verify ssid key
  installSettings md5
  leave true

/-- Station mode. -/
def station (arg : Arg) (ssid key : Bytes) : Prog World Unit := do
  let currentSsid ← readText 28 64
  let currentKey ← readText 92 64
  let connectedBit ← readMtd 24 4
  orElseFail (Prog.test fun _ => hexdump connectedBit ≠ []) "cannot read Wi-Fi state"
  if ssid = currentSsid ∧ key = currentKey ∧ hexdump connectedBit = "00000000".toList ∧
      arg ≠ .force then
    installSettings md5
    leave true
  else writeStation md5 ssid key

/-- Behind the checks; they have staged the settings. -/
def commit (arg : Arg) (a : Accepted) : Prog World Unit := do
  Prog.assign fun w => { w with staged := some (mergedConf a w.conf), configTmp := true }
  if arg = .check then leave true
  else
    match a with
    | .hotspot _ _ => do
      installSettings md5
      leave true
    | .station ssid key => station md5 arg ssid key

def script (h : Host) (arg : Arg) (cfg : Bytes) : Prog World Unit :=
  match configureCheck h cfg with
  | .error text => fail text
  | .ok a => commit md5 arg a

/-- `trap cleanup EXIT`; the other signals exit. -/
def trap : Trap World where
  on := fun _ => true
  handler := fun _ => cleanup

/-! ## 3. What it promises -/

/-- What a run starts from. -/
structure Start where
  host : Host
  arg : Arg
  cfg : Bytes
  mtd : Bytes
  conf : Bytes
  torn : List Nat

def Start.world (x : Start) : World where
  mtd := x.mtd
  conf := x.conf
  staged := none
  configTmp := false
  backup := none
  torn := x.torn
  moved := false
  left := none
  said := none

/-- The state after a run. -/
def after (x : Start) (is : List Input) : World :=
  (run (Config.step trap) ⟨script md5 x.host x.arg x.cfg, true, x.world⟩ is).state

/-- A field up to its first NUL. -/
def field (mtd : Bytes) (off : Nat) : Bytes := (slice mtd off 64).takeWhile fun b => b ≠ 0

/-- Partition and `system.conf` after station mode. -/
structure Committed (ssid key : Bytes) (conf : Bytes) (w : World) : Prop where
  ssidField : field w.mtd 28 = ssid
  keyField : field w.mtd 92 = key
  connected : slice w.mtd 24 4 = [0, 0, 0, 0]
  conf : w.conf = mergedConf (.station ssid key) conf

/-- The promise. -/
structure Consistent (x : Start) : Prop where
  merged : ∀ a, configureCheck x.host x.cfg = .ok a →
    Merged (settings a) (lines x.conf) (lines (mergedConf a x.conf)) ∧
      ∀ is, (after md5 x is).moved = true → (after md5 x is).conf = mergedConf a x.conf
  committed : ∀ ssid key, configureCheck x.host x.cfg = .ok (.station ssid key) → x.arg ≠ .check →
    ∀ is, (after md5 x is).left = some true → Committed ssid key x.conf (after md5 x is)
  kept : ∀ is, (after md5 x is).moved = false → (after md5 x is).conf = x.conf
  framed : ∀ is i, i < 24 ∨ 156 ≤ i → (after md5 x is).mtd[i]? = x.mtd[i]?

/-- The partition shows the credentials to the comparison of the skip path. -/
def Skips (x : Start) (ssid key : Bytes) : Prop :=
  fieldText (slice x.mtd 28 64) = ssid ∧ fieldText (slice x.mtd 92 64) = key ∧
    slice x.mtd 24 4 = [0, 0, 0, 0] ∧ x.arg ≠ .force

/-- The comparisons tell different texts apart. -/
structure Discerning (x : Start) (ssid key : Bytes) : Prop where
  fields : Skips x ssid key → field x.mtd 28 = ssid ∧ field x.mtd 92 = key
  hashes : Skips x ssid key ∨ 156 ≤ x.mtd.length →
    md5 x.conf = md5 (mergedConf (.station ssid key) x.conf) →
      x.conf = mergedConf (.station ssid key) x.conf

/-! ## 4. What every run keeps -/

variable {x : Start} {merged : Bytes} {D : Bytes → Bytes → Prop}

/-- At every command: the rest of the partition is as it was, `system.conf` too unless it was
    replaced, and what is promised of a success holds. -/
structure Inv (x : Start) (merged : Bytes) (D : Bytes → Bytes → Prop) (w : World) : Prop where
  framed : ∀ i, i < 24 ∨ 156 ≤ i → w.mtd[i]? = x.mtd[i]?
  unmoved : w.moved = false → w.conf = x.conf
  moved : w.moved = true → w.conf = merged
  done : w.left = some true → D w.mtd w.conf

/-- The script has not left. -/
structure Going (x : Start) (merged : Bytes) (w : World) : Prop where
  framed : ∀ i, i < 24 ∨ 156 ≤ i → w.mtd[i]? = x.mtd[i]?
  unmoved : w.moved = false → w.conf = x.conf
  moved : w.moved = true → w.conf = merged
  left : w.left = none
  size : w.mtd.length = x.mtd.length

/-- Nothing is moved, and the merged file is staged. -/
structure Ready (x : Start) (merged : Bytes) (w : World) : Prop extends Going x merged w where
  fresh : w.moved = false
  staged : w.staged = some merged

theorem Going.inv {w : World} (h : Going x merged w) : Inv x merged D w :=
  ⟨h.framed, h.unmoved, h.moved, fun hl => absurd (h.left.symm.trans hl) nofun⟩

/-- A script that goes well. -/
abbrev Goes (x : Start) (merged : Bytes) (D : Bytes → Bytes → Prop) {α : Type}
    (Q : α → Bool → World → Prop) (p : Prog World α) (st : Bool) (w : World) : Prop :=
  p.Safe (fun _ _ => True) (fun _ => Inv x merged D) Q st w

theorem leave_safe {ok st : Bool} {w : World} {Q : Unit → Bool → World → Prop}
    (h : Going x merged w) (hD : ok = true → D w.mtd w.conf) :
    Goes x merged D Q (leave ok) st w := by
  refine Prog.assign_then h.inv ?_
  have hleft : Inv x merged D { w with left := some ok } :=
    ⟨h.framed, h.unmoved, h.moved, fun hl => hD (Option.some.inj hl)⟩
  exact Prog.safe_exit hleft hleft

/-- `cleanup` changes nothing that matters. -/
theorem cleanup_safe {st : Bool} {w : World} (h : Inv x merged D w) :
    Goes x merged D (fun _ _ w' => ∃ staged, w' = { w with staged := staged }) cleanup st w := by
  refine Prog.check_then h fun _ _ => ?_
  refine Prog.test_then h ?_
  rcases hset : w.configTmp with - | -
  · exact ⟨w.staged, by rw [← hset]⟩
  · refine Prog.command_then h ?_ fun _ => ⟨w.staged, by rw [← hset]⟩
    rintro _ - ⟨⟩
    exact ⟨none, by rw [← hset]⟩

theorem fail_safe {text : String} {st : Bool} {w : World} {Q : Unit → Bool → World → Prop}
    (h : Going x merged w) : Goes x merged D Q (fail text) st w := by
  refine Prog.assign_then h.inv ?_
  have hsaid : Going x merged { w with said := some text } :=
    ⟨h.framed, h.unmoved, h.moved, h.left, h.size⟩
  refine Prog.Safe.bind (cleanup_safe hsaid.inv) ?_
  rintro _ _ _ ⟨staged, rfl⟩
  exact leave_safe ⟨h.framed, h.unmoved, h.moved, h.left, h.size⟩ nofun

/-- A test that has to succeed. -/
theorem test_orElseFail {p : World → Bool} {text : String} {st : Bool} {w : World}
    {β : Type} {g : Unit → Prog World β} {Q : β → Bool → World → Prop} (h : Going x merged w)
    (hg : p w = true → ∀ st, Goes x merged D Q (g ()) st w) :
    Goes x merged D Q (orElseFail (Prog.test p) text >>= g) st w := by
  refine Prog.Safe.bind (R := fun _ _ w' => w' = w ∧ p w = true) ?_ ?_
  · refine Prog.test_then h.inv ?_
    rcases hp : p w with - | -
    · exact fail_safe h
    · exact ⟨rfl, rfl⟩
  · rintro _ st' _ ⟨rfl, hp⟩
    exact hg hp st'

/-- A read gives the bytes or nothing. -/
theorem readMtd_then {off n : Nat} {st : Bool} {w : World} {β : Type} {g : Bytes → Prog World β}
    {Q : β → Bool → World → Prop} (h : Going x merged w)
    (hg : ∀ t, t = slice w.mtd off n ∨ t = [] → ∀ st, Goes x merged D Q (g t) st w) :
    Goes x merged D Q (readMtd off n >>= g) st w := by
  refine ⟨h.inv, fun ok _ => ?_⟩
  cases ok with
  | false => exact hg _ (.inr rfl) _
  | true => exact hg _ (.inl rfl) _

theorem readText_then {off n : Nat} {st : Bool} {w : World} {β : Type} {g : Bytes → Prog World β}
    {Q : β → Bool → World → Prop} (h : Going x merged w)
    (hg : ∀ t, t = slice w.mtd off n ∨ t = [] → ∀ st, Goes x merged D Q (g (fieldText t)) st w) :
    Goes x merged D Q (readText off n >>= g) st w :=
  readMtd_then h hg

/-- A write leaves what is not its own. -/
theorem overwrite_frame {dev data : Bytes} {off i : Nat} (hi : i < off ∨ off + data.length ≤ i) :
    (overwrite dev off data)[i]? = dev[i]? := by
  rw [overwrite, List.getElem?_mapIdx]
  rcases hb : dev[i]? with - | b
  · rfl
  · rw [Option.map_some]
    split
    · rename_i hoff
      have hnone : data[i - off]? = none := List.getElem?_eq_none (by omega)
      rw [hnone, Option.getD_none]
    · rfl

theorem overwrite_length (dev : Bytes) (off : Nat) (data : Bytes) :
    (overwrite dev off data).length = dev.length := List.length_mapIdx

theorem write_safe {off : Nat} {data : Bytes} {text : String} {st : Bool} {w : World}
    (h : Ready x merged w) (hlow : 24 ≤ off) (hhigh : off + data.length ≤ 156) :
    Goes x merged D (fun _ _ w' => Ready x merged w' ∧ off + data.length ≤ x.mtd.length)
      (orElseFail (writeMtd off data) text) st w := by
  have hframed : ∀ n, ∀ i, i < 24 ∨ 156 ≤ i →
      (overwrite w.mtd off (data.take n))[i]? = x.mtd[i]? := by
    intro n i hi
    rw [overwrite_frame (by rw [List.length_take]; omega)]
    exact h.framed i hi
  refine ⟨h.inv, fun ok _ => ?_⟩
  dsimp only
  split
  · rename_i hfits
    have hall := hframed data.length
    rw [List.take_length] at hall
    exact ⟨⟨⟨hall, h.unmoved, h.moved, h.left, (overwrite_length _ _ _).trans h.size⟩, h.fresh,
      h.staged⟩, h.size ▸ hfits.2⟩
  · exact fail_safe ⟨hframed _, h.unmoved, h.moved, h.left, (overwrite_length _ _ _).trans h.size⟩

theorem store_safe {ssid key : Bytes} (hssid : ssid.length ≤ 32) (hkey : key.length ≤ 63)
    {st : Bool} {w : World} (h : Ready x merged w) :
    Goes x merged D (fun _ _ w' => Ready x merged w' ∧ 156 ≤ x.mtd.length) (store ssid key) st w := by
  have hzeros : (List.replicate 64 (0 : UInt8)).length = 64 := List.length_replicate
  refine Prog.Safe.bind (write_safe h (by omega) (by omega)) fun _ _ w₁ h₁ => ?_
  refine Prog.Safe.bind (write_safe h₁.1 (by omega) (by omega)) fun _ _ w₂ h₂ => ?_
  refine Prog.Safe.bind (write_safe h₂.1 (by omega) (by omega)) fun _ _ w₃ h₃ => ?_
  refine Prog.Safe.bind (write_safe h₃.1 (by omega) (by omega)) fun _ _ w₄ h₄ => ?_
  refine (write_safe h₄.1 (by omega) (by simp)).mono fun _ _ w₅ h₅ => ⟨h₅.1, ?_⟩
  have := h₂.2
  omega

/-- A text that shows as one no longer than itself has nothing to drop. -/
theorem eq_of_fieldText {t v : Bytes} (h : fieldText t = v) (hlen : t.length ≤ v.length) :
    t = v := by
  have hsub : v.Sublist t := by
    rw [← h, fieldText, capture]
    exact (List.rdropWhile_prefix _ _).sublist.trans List.filter_sublist
  exact (hsub.eq_of_length_le hlen).symm

/-- A field that begins with a text and its NUL reads as the text. -/
theorem field_eq {mtd v : Bytes} {off : Nat} (hv : Plain v) (hlen : v.length < 64)
    (htext : slice mtd off v.length = v) (hterm : slice mtd (off + v.length) 1 = [0]) :
    field mtd off = v := by
  have hsplit : slice mtd off 64 = v ++ ([0] ++ slice mtd (off + v.length + 1) (63 - v.length)) := by
    have hsum : 64 = v.length + (1 + (63 - v.length)) := by omega
    rw [hsum, slice_add, slice_add, htext, hterm]
  have hall : ∀ b ∈ v, decide (b ≠ 0) = true := fun b hb => decide_eq_true (hv b hb).1
  rw [field, hsplit, List.takeWhile_append_of_pos hall]
  simp

/-- Partition and credentials fit. -/
structure Stored (ssid key mtd : Bytes) : Prop where
  ssidField : field mtd 28 = ssid
  keyField : field mtd 92 = key
  connected : slice mtd 24 4 = [0, 0, 0, 0]

/-- **What is verified is stored.** -/
theorem verify_safe {ssid key : Bytes} (hc : (Accepted.station ssid key).Clean) {st : Bool} {w : World}
    (h : Going x merged w) :
    Goes x merged D (fun _ _ w' => w' = w ∧ Stored ssid key w.mtd) (verify ssid key) st w := by
  obtain ⟨hssid, hkey, hssidNe, hssidLen, hkeyNe, hkeyLen⟩ := hc
  have hread : ∀ {t v : Bytes} {off : Nat}, v ≠ [] → (t = slice w.mtd off v.length ∨ t = []) →
      fieldText t = v → slice w.mtd off v.length = v := by
    rintro t v off hne (rfl | rfl) htext
    · exact eq_of_fieldText htext (by rw [slice_length]; omega)
    · exact absurd htext.symm hne
  have hbyte : ∀ {t : Bytes} {off : Nat}, (t = slice w.mtd off 1 ∨ t = []) →
      hexdump t = ['0', '0'] → slice w.mtd off 1 = [0] := by
    rintro t off (rfl | rfl) hhex
    · exact hexdump_inj (g := [0]) hhex
    · exact absurd hhex nofun
  refine readText_then h fun s hs _ => readText_then h fun k hk _ => readMtd_then h fun s' hs' _ =>
    readMtd_then h fun k' hk' _ => readMtd_then h fun c hc _ => ?_
  refine test_orElseFail h fun hstext _ => test_orElseFail h fun hktext _ =>
    test_orElseFail h fun hsterm _ => test_orElseFail h fun hkterm _ => ?_
  refine Prog.safe_last (test_orElseFail h fun hconn _ => ?_)
  refine ⟨rfl, ?_, ?_, ?_⟩
  · exact field_eq hssid (by omega) (hread hssidNe hs (of_decide_eq_true hstext))
      (hbyte hs' (of_decide_eq_true hsterm))
  · exact field_eq hkey (by omega) (hread hkeyNe hk (of_decide_eq_true hktext))
      (hbyte hk' (of_decide_eq_true hkterm))
  · have hzero : hexdump [0, 0, 0, 0] = "00000000".toList := by decide
    rcases hc with rfl | rfl
    · exact hexdump_inj ((of_decide_eq_true hconn).trans hzero.symm)
    · exact absurd (of_decide_eq_true hconn) (by decide)

/-- What a replacement leaves. -/
structure Installed (md5 : Bytes → H) (x : Start) (merged mtd : Bytes) (w : World) : Prop extends
    Going x merged w where
  mtd : w.mtd = mtd
  conf : w.conf = merged ∨ w.conf = x.conf ∧ md5 x.conf = md5 merged

theorem replaceConf_safe {oldHash newHash : Option H} {st : Bool} {w : World} (h : Ready x merged w)
    (hold : oldHash = some (md5 x.conf)) (hnew : newHash = some (md5 merged)) :
    Goes x merged D (fun _ _ w' => Installed md5 x merged w.mtd w') (replaceConf oldHash newHash) st w := by
  rw [replaceConf]
  split
  · rename_i heq
    rw [hold, hnew] at heq
    have hconf := h.unmoved h.fresh
    refine Prog.command_then h.inv ?_ fun _ => ?_
    · rintro _ - ⟨⟩
      exact ⟨⟨h.framed, h.unmoved, h.moved, h.left, h.size⟩, rfl, .inr ⟨hconf, Option.some.inj heq⟩⟩
    · exact ⟨h.toGoing, rfl, .inr ⟨hconf, Option.some.inj heq⟩⟩
  · refine Prog.command_then h.inv ?_ fun _ => fail_safe h.toGoing
    intro w' _ hw'
    rw [h.staged] at hw'
    obtain rfl := Option.some.inj hw'
    exact ⟨⟨h.framed, nofun, fun _ => rfl, h.left, h.size⟩, rfl, .inl rfl⟩

/-- **`install_settings`** leaves the merged file, or the old one where the hashes are the same. -/
theorem installSettings_safe {st : Bool} {w : World} (h : Ready x merged w) :
    Goes x merged D (fun _ _ w' => Installed md5 x merged w.mtd w') (installSettings md5) st w := by
  have hconf := h.unmoved h.fresh
  refine ⟨h.inv, fun ok _ => ?_⟩
  refine ⟨h.inv, fun ok' _ => ?_⟩
  refine test_orElseFail h.toGoing fun hsome _ => ?_
  have hok : ok = true := by
    cases ok with
    | false => exact absurd hsome nofun
    | true => rfl
  have hok' : ok' = true := by
    cases ok' with
    | false => rw [hok] at hsome; exact absurd hsome nofun
    | true => rfl
  refine Prog.Safe.bind (replaceConf_safe md5 h ?_ ?_) fun _ _ w₁ h₁ => ?_
  · rw [hok, ← hconf]; rfl
  · rw [hok', h.staged]; rfl
  have h₂ : Installed md5 x merged w.mtd { w₁ with configTmp := false } :=
    ⟨⟨h₁.framed, h₁.unmoved, h₁.moved, h₁.left, h₁.size⟩, h₁.mtd, h₁.conf⟩
  refine Prog.assign_then h₁.inv ?_
  refine Prog.Safe.bind (R := fun _ _ => Installed md5 x merged w.mtd) ?_ fun _ _ w₃ h₃ => ?_
  · refine Prog.check_then h₂.inv fun ok _ => ?_
    cases ok with
    | false => exact h₂
    | true =>
      refine Prog.check_then h₂.inv fun ok _ => ?_
      cases ok with
      | false => exact Prog.safe_assign h₂.inv h₂
      | true => exact h₂
  · exact Prog.check_then h₃.inv fun _ _ => h₃

/-- What a success of station mode shows. -/
structure Shown (md5 : Bytes → H) (x : Start) (ssid key mtd conf : Bytes) : Prop where
  partition : (Skips x ssid key ∧ mtd = x.mtd) ∨ (Stored ssid key mtd ∧ 156 ≤ x.mtd.length)
  conf : conf = mergedConf (.station ssid key) x.conf ∨
    conf = x.conf ∧ md5 x.conf = md5 (mergedConf (.station ssid key) x.conf)

theorem writeStation_safe {ssid key : Bytes} (hc : (Accepted.station ssid key).Clean) {st : Bool}
    {w : World} {Q : Unit → Bool → World → Prop}
    (hD : ∀ mtd conf, Shown md5 x ssid key mtd conf → D mtd conf)
    (h : Ready x (mergedConf (.station ssid key) x.conf) w) :
    Goes x (mergedConf (.station ssid key) x.conf) D Q
      (writeStation md5 ssid key) st w := by
  have hbackup : Ready x (mergedConf (.station ssid key) x.conf) { w with backup := some w.mtd } :=
    ⟨⟨h.framed, h.unmoved, h.moved, h.left, h.size⟩, h.fresh, h.staged⟩
  refine Prog.Safe.bind (R := fun _ _ => Ready x (mergedConf (.station ssid key) x.conf)) ?_ fun _ _ w₁ h₁ => ?_
  · refine Prog.command_then h.inv ?_ fun _ => fail_safe h.toGoing
    rintro _ - ⟨⟩
    exact hbackup
  refine test_orElseFail h₁.toGoing fun _ _ => ?_
  refine Prog.Safe.bind (store_safe hc.2.2.2.1 hc.2.2.2.2.2 h₁) fun _ _ w₂ ⟨h₂, hsize⟩ => ?_
  refine Prog.check_then h₂.inv fun _ _ => ?_
  refine Prog.Safe.bind (verify_safe hc h₂.toGoing) ?_
  rintro _ _ _ ⟨rfl, hstored⟩
  refine Prog.Safe.bind (installSettings_safe md5 h₂) fun _ _ w₃ h₃ => ?_
  exact leave_safe h₃.toGoing fun _ => hD _ _ ⟨.inr ⟨h₃.mtd ▸ hstored, hsize⟩, h₃.conf⟩

theorem station_safe {ssid key : Bytes} (hc : (Accepted.station ssid key).Clean) {st : Bool}
    {w : World} {Q : Unit → Bool → World → Prop}
    (hD : ∀ mtd conf, Shown md5 x ssid key mtd conf → D mtd conf)
    (h : Ready x (mergedConf (.station ssid key) x.conf) w) (hmtd : w.mtd = x.mtd) :
    Goes x (mergedConf (.station ssid key) x.conf) D Q
      (station md5 x.arg ssid key) st w := by
  refine readText_then h.toGoing fun s hs _ => readText_then h.toGoing fun k hk _ =>
    readMtd_then h.toGoing fun c hc' _ => test_orElseFail h.toGoing fun _ _ => ?_
  split
  · rename_i hsame
    obtain ⟨hssid, hkey, hconn, harg⟩ := hsame
    have hskips : Skips x ssid key := by
      refine ⟨?_, ?_, ?_, harg⟩
      · rcases hs with rfl | rfl
        · rw [hssid, hmtd]
        · exact absurd hssid hc.2.2.1
      · rcases hk with rfl | rfl
        · rw [hkey, hmtd]
        · exact absurd hkey hc.2.2.2.2.1
      · have hzero : hexdump [0, 0, 0, 0] = "00000000".toList := by decide
        rcases hc' with rfl | rfl
        · rw [← hmtd]
          exact hexdump_inj (hconn.trans hzero.symm)
        · exact absurd hconn (by decide)
    refine Prog.Safe.bind (installSettings_safe md5 h) fun _ _ w₁ h₁ => ?_
    exact leave_safe h₁.toGoing fun _ => hD _ _ ⟨.inl ⟨hskips, h₁.mtd.trans hmtd⟩, h₁.conf⟩
  · exact writeStation_safe md5 hc hD h

/-- What a success shows. -/
def Succeeded (md5 : Bytes → H) (x : Start) (a : Accepted) (mtd conf : Bytes) : Prop :=
  x.arg ≠ .check → ∀ ssid key, a = .station ssid key → Shown md5 x ssid key mtd conf

/-- **What every run keeps**: the frame of the partition, `system.conf` up to the `mv`, and the
    promise of a success. -/
theorem commit_safe {a : Accepted} (ha : a.Clean) {st : Bool} {Q : Unit → Bool → World → Prop} :
    Goes x (mergedConf a x.conf) (Succeeded md5 x a) Q (commit md5 x.arg a) st
      x.world := by
  have hstart : Going x (mergedConf a x.conf) x.world :=
    ⟨fun _ _ => rfl, fun _ => rfl, nofun, rfl, rfl⟩
  refine Prog.assign_then hstart.inv ?_
  have hready : Ready x (mergedConf a x.conf)
      { x.world with staged := some (mergedConf a x.conf), configTmp := true } :=
    ⟨⟨fun _ _ => rfl, fun _ => rfl, nofun, rfl, rfl⟩, rfl, rfl⟩
  split
  · rename_i harg
    exact leave_safe hready.toGoing fun _ hcheck => absurd harg hcheck
  · cases a with
    | hotspot ssid key =>
      refine Prog.Safe.bind (installSettings_safe md5 hready) fun _ _ w₁ h₁ => ?_
      exact leave_safe h₁.toGoing fun _ _ _ _ heq => absurd heq nofun
    | station ssid key =>
      refine station_safe md5 ha (fun mtd conf hshown _ ssid' key' heq => ?_) hready rfl
      obtain ⟨rfl, rfl⟩ := Accepted.station.inj heq
      exact hshown

theorem Inv.staged {w : World} (h : Inv x merged D w) (staged : Option Bytes) :
    Inv x merged D { w with staged := staged } := ⟨h.framed, h.unmoved, h.moved, h.done⟩

/-- A run of a script that goes well. -/
theorem run_keeps {p : Prog World Unit}
    (h : Goes x merged D (fun _ _ => Inv x merged D) p true x.world) (is : List Input) :
    Inv x merged D (run (Config.step trap) ⟨p, true, x.world⟩ is).state := by
  have htrap : ∀ st w, Inv x merged D w → True →
      (trap.enter st w).Safe (fun _ _ => True) (fun _ => Inv x merged D) (Inv x merged D) := by
    intro st w hw _
    refine (cleanup_safe hw).mono ?_
    rintro _ _ _ ⟨staged, rfl⟩
    exact hw.staged staged
  have hmeets : ∀ (c : Config World) i, c.Meets (fun _ _ => True) (fun _ _ => True) i := by
    intro c i
    obtain ⟨prog, st, s⟩ := c
    cases prog <;> cases i <;> trivial
  have hsafe : (run (Config.step trap) ⟨p, true, x.world⟩ is).Safe (fun _ _ => True)
      (fun _ => Inv x merged D) (Inv x merged D) :=
    run_inv (s := (⟨p, true, x.world⟩ : Config World))
      (fun c i hc => step_safe htrap (hmeets c i) hc) h is
  exact hsafe.now

theorem after_inv {a : Accepted} (hok : configureCheck x.host x.cfg = .ok a) (is : List Input) :
    Inv x (mergedConf a x.conf) (Succeeded md5 x a) (after md5 x is) := by
  have hscript : script md5 x.host x.arg x.cfg = commit md5 x.arg a := by rw [script, hok]
  rw [after, hscript]
  exact run_keeps (commit_safe md5 (accepted_clean hok)) is

theorem after_inv_error {text : String} (hfail : configureCheck x.host x.cfg = .error text)
    (is : List Input) : Inv x x.conf (fun _ _ => False) (after md5 x is) := by
  have hscript : script md5 x.host x.arg x.cfg = fail text := by rw [script, hfail]
  rw [after, hscript]
  exact run_keeps (fail_safe ⟨fun _ _ => rfl, fun _ => rfl, nofun, rfl, rfl⟩) is

/-! ## 5. The runs in which every command ends well -/

section Well

variable {E : World → Prop} {α : Type}

theorem well_readMtd {off n : Nat} {g : Bytes → Prog World α} {w : World} {Q : α → World → Prop}
    (h : (g (slice w.mtd off n)).Well E Q w) : (readMtd off n >>= g).Well E Q w := h

theorem well_readText {off n : Nat} {g : Bytes → Prog World α} {w : World} {Q : α → World → Prop}
    (h : (g (fieldText (slice w.mtd off n))).Well E Q w) : (readText off n >>= g).Well E Q w := h

theorem well_test_last {p : World → Bool} {text : String} {w : World} {Q : Unit → World → Prop}
    (hp : p w = true) (h : Q () w) : (orElseFail (Prog.test p) text).Well E Q w := by
  refine Prog.well_bind.mpr ?_
  show Prog.Well E _ (if p w then pure () else fail text) w
  rw [hp]
  exact h

theorem well_write_last {off : Nat} {data : Bytes} {text : String} {w : World}
    {Q : Unit → World → Prop} (hfits : off + data.length ≤ w.mtd.length)
    (h : Q () { w with mtd := overwrite w.mtd off data }) :
    (orElseFail (writeMtd off data) text).Well E Q w := by
  refine Prog.well_bind.mpr ?_
  simp only [writeMtd, Prog.Well, hfits, and_self, if_true]
  exact h

theorem well_test {p : World → Bool} {text : String} {g : Unit → Prog World α} {w : World}
    {Q : α → World → Prop} (hp : p w = true) (h : (g ()).Well E Q w) :
    (orElseFail (Prog.test p) text >>= g).Well E Q w :=
  Prog.well_bind.mpr (well_test_last hp h)

theorem well_write {off : Nat} {data : Bytes} {text : String} {w : World} {g : Unit → Prog World α}
    {Q : α → World → Prop} (hfits : off + data.length ≤ w.mtd.length)
    (h : (g ()).Well E Q { w with mtd := overwrite w.mtd off data }) :
    (orElseFail (writeMtd off data) text >>= g).Well E Q w :=
  Prog.well_bind.mpr (well_write_last hfits h)

/-- What `install_settings` leaves. -/
theorem installSettings_well (merged : Bytes) {w : World} (hstaged : w.staged = some merged) :
    (installSettings md5).Well E (fun _ w' => w'.mtd = w.mtd ∧ w'.left = w.left ∧
      (md5 w.conf = md5 merged → w'.conf = w.conf)) w := by
  have hnew : w.staged.map md5 = some (md5 merged) := by rw [hstaged]; rfl
  refine Prog.well_bind.mpr (Prog.well_bind.mpr ?_)
  show Prog.Well _ _ (orElseFail (Prog.test fun _ => Option.isSome (some (md5 w.conf)) &&
    (w.staged.map md5).isSome) _ >>= fun _ => replaceConf (some (md5 w.conf)) (w.staged.map md5) >>= _) w
  rw [hnew]
  refine well_test rfl ?_
  refine Prog.Well.bind (R := fun _ w' => w'.mtd = w.mtd ∧ w'.left = w.left ∧
    (md5 w.conf = md5 merged → w'.conf = w.conf)) ?_ ?_
  · rw [replaceConf]
    split
    · exact ⟨rfl, rfl, fun _ => rfl⟩
    · rename_i hne
      refine Prog.well_bind.mpr ?_
      simp only [Prog.command, Prog.Well, hstaged, if_true, Option.map_some]
      exact ⟨rfl, rfl, fun heq => absurd (congrArg some heq) hne⟩
  · intro _ w' h
    exact h

/-- A run that leaves with success, the partition like this and `system.conf` as it was. -/
theorem installed_leaves {merged conf : Bytes} {w : World} (hstaged : w.staged = some merged)
    (hconf : w.conf = conf) :
    (installSettings md5 >>= fun _ => leave true).Well (fun w' => w'.left = some true ∧ w'.mtd = w.mtd ∧
      (md5 conf = md5 merged → w'.conf = conf)) (fun _ _ => False) w := by
  refine Prog.Well.bind (installSettings_well md5 merged hstaged) fun _ w' h => ?_
  obtain ⟨hmtd, -, hkept⟩ := h
  subst hconf
  exact Prog.well_assign ⟨rfl, hmtd, hkept⟩

/-- The settings of a router are staged. -/
def Start.staged (x : Start) (ssid key : Bytes) : World :=
  { x.world with staged := some (mergedConf (.station ssid key) x.conf), configTmp := true }

theorem script_station {ssid key : Bytes}
    (hok : configureCheck x.host x.cfg = .ok (.station ssid key)) (harg : x.arg ≠ .check)
    {P : World → Prop}
    (h : (station md5 x.arg ssid key).Well P (fun _ => P) (x.staged ssid key)) :
    ∃ is, P (after md5 x is) := by
  refine Prog.Well.reached ?_ trap true
  rw [script, hok]
  refine Prog.well_assign ?_
  show Prog.Well _ _ (if x.arg = .check then leave true else station md5 x.arg ssid key) _
  rw [if_neg harg]
  exact h

/-- **The skip path** leaves with success. -/
theorem script_skips {ssid key : Bytes}
    (hok : configureCheck x.host x.cfg = .ok (.station ssid key)) (harg : x.arg ≠ .check)
    (hskips : Skips x ssid key) :
    ∃ is, (after md5 x is).left = some true ∧ (after md5 x is).mtd = x.mtd ∧
      (md5 x.conf = md5 (mergedConf (.station ssid key) x.conf) → (after md5 x is).conf = x.conf) := by
  obtain ⟨hssid, hkey, hconn, hforce⟩ := hskips
  have hzero : hexdump (slice x.mtd 24 4) = "00000000".toList := by rw [hconn]; decide
  refine script_station md5 hok harg (P := fun w => w.left = some true ∧ w.mtd = x.mtd ∧
    (md5 x.conf = md5 (mergedConf (.station ssid key) x.conf) → w.conf = x.conf)) ?_
  have hread : hexdump (slice x.mtd 24 4) ≠ [] := by rw [hconn]; decide
  refine well_readText (well_readText (well_readMtd (well_test ?_ ?_)))
  · exact decide_eq_true hread
  · show Prog.Well _ _ (if ssid = fieldText (slice x.mtd 28 64) ∧ key = fieldText (slice x.mtd 92 64) ∧
      hexdump (slice x.mtd 24 4) = "00000000".toList ∧ x.arg ≠ .force then _ else _) _
    rw [if_pos ⟨hssid.symm, hkey.symm, hzero, hforce⟩]
    exact (installed_leaves md5 (w := x.staged ssid key) rfl rfl).mono fun _ _ => False.elim

theorem getElem?_slice (f : Bytes) (off n j : Nat) :
    (slice f off n)[j]? = if j < n then f[off + j]? else none := by
  rw [slice, List.getElem?_take, List.getElem?_drop]

/-- What was written reads back. -/
theorem slice_overwrite {dev data : Bytes} {off i n : Nat} (hfits : off + data.length ≤ dev.length)
    (hin : i + n ≤ data.length) : slice (overwrite dev off data) (off + i) n = slice data i n := by
  refine List.ext_getElem? fun j => ?_
  rw [getElem?_slice, getElem?_slice]
  split
  · rename_i hj
    have hdev : off + i + j < dev.length := by omega
    have hdata : i + j < data.length := by omega
    rw [overwrite, List.getElem?_mapIdx, List.getElem?_eq_getElem hdev, Option.map_some,
      if_pos (by omega), show off + i + j - off = i + j by omega, List.getElem?_eq_getElem hdata,
      Option.getD_some]
  · rfl

theorem slice_overwrite_all {dev data : Bytes} {off : Nat} (hfits : off + data.length ≤ dev.length) :
    slice (overwrite dev off data) off data.length = data := by
  have h := slice_overwrite (i := 0) (n := data.length) hfits (by omega)
  rw [Nat.add_zero] at h
  rw [h, slice, List.drop_zero, List.take_length]

/-- What stands elsewhere stays. -/
theorem slice_overwrite_other {dev data : Bytes} {off i n : Nat}
    (hapart : i + n ≤ off ∨ off + data.length ≤ i) :
    slice (overwrite dev off data) i n = slice dev i n := by
  refine List.ext_getElem? fun j => ?_
  rw [getElem?_slice, getElem?_slice]
  split
  · rename_i hj
    exact overwrite_frame (by omega)
  · rfl

theorem fieldText_plain {v : Bytes} (hv : Plain v) : fieldText v = v := by
  have hfilter : v.filter (fun b => b ≠ 0) = v :=
    List.filter_eq_self.mpr fun b hb => decide_eq_true (hv b hb).1
  rw [fieldText, hfilter, capture]
  refine (List.rdropWhile_eq_self_iff).mpr fun hne => ?_
  simpa using (hv _ (List.getLast_mem hne)).2

/-- The partition once the credentials are written. -/
def written (mtd ssid key : Bytes) : Bytes :=
  overwrite (overwrite (overwrite (overwrite (overwrite mtd 28 (List.replicate 64 0)) 92
    (List.replicate 64 0)) 28 ssid) 92 key) 24 [0, 0, 0, 0]

section

variable {mtd ssid key : Bytes}

theorem written_ssid (hsize : 156 ≤ mtd.length) (hssid : ssid.length ≤ 32) :
    slice (written mtd ssid key) 28 ssid.length = ssid := by
  rw [written, slice_overwrite_other (by simp), slice_overwrite_other (by omega),
    slice_overwrite_all (by simp only [overwrite_length]; omega)]

theorem written_key (hsize : 156 ≤ mtd.length) (hkey : key.length ≤ 63) :
    slice (written mtd ssid key) 92 key.length = key := by
  rw [written, slice_overwrite_other (by simp),
    slice_overwrite_all (by simp only [overwrite_length]; omega)]

theorem written_ssidTerm (hsize : 156 ≤ mtd.length) (hssid : ssid.length ≤ 32) :
    slice (written mtd ssid key) (28 + ssid.length) 1 = [0] := by
  rw [written, slice_overwrite_other (by simp), slice_overwrite_other (by omega),
    slice_overwrite_other (by omega), slice_overwrite_other (by omega),
    slice_overwrite (by simp; omega) (by simp; omega), slice, List.drop_replicate,
    List.take_replicate, show min 1 (64 - ssid.length) = 1 by omega]
  rfl

theorem written_keyTerm (hsize : 156 ≤ mtd.length) (hssid : ssid.length ≤ 32) (hkey : key.length ≤ 63) :
    slice (written mtd ssid key) (92 + key.length) 1 = [0] := by
  rw [written, slice_overwrite_other (by simp; omega), slice_overwrite_other (by omega),
    slice_overwrite_other (by omega),
    slice_overwrite (by simp [overwrite_length]; omega) (by simp; omega), slice, List.drop_replicate,
    List.take_replicate, show min 1 (64 - key.length) = 1 by omega]
  rfl

theorem written_connected (hsize : 156 ≤ mtd.length) :
    slice (written mtd ssid key) 24 4 = [0, 0, 0, 0] := by
  have hfits : 24 + [(0 : UInt8), 0, 0, 0].length ≤ (overwrite (overwrite (overwrite (overwrite mtd 28
      (List.replicate 64 0)) 92 (List.replicate 64 0)) 28 ssid) 92 key).length := by
    simp only [overwrite_length, List.length_cons, List.length_nil]
    omega
  exact slice_overwrite_all hfits

end

/-- **The write path** leaves with success where the fields are on the device. -/
theorem script_writes {ssid key : Bytes}
    (hok : configureCheck x.host x.cfg = .ok (.station ssid key)) (harg : x.arg ≠ .check)
    (hskips : ¬ Skips x ssid key) (hsize : 156 ≤ x.mtd.length) :
    ∃ is, (after md5 x is).left = some true ∧
      (md5 x.conf = md5 (mergedConf (.station ssid key) x.conf) → (after md5 x is).conf = x.conf) := by
  obtain ⟨hssid, hkey, -, hssidLen, -, hkeyLen⟩ := accepted_clean hok
  have hconn : (slice x.mtd 24 4).length = 4 := slice_length_of_le (by omega)
  have hread : hexdump (slice x.mtd 24 4) ≠ [] := fun h => by
    have := congrArg List.length h
    rw [hexdump_length, hconn] at this
    exact absurd this (by decide)
  refine script_station md5 hok harg (P := fun w => w.left = some true ∧
    (md5 x.conf = md5 (mergedConf (.station ssid key) x.conf) → w.conf = x.conf)) ?_
  refine well_readText (well_readText (well_readMtd (well_test (decide_eq_true hread) ?_)))
  show Prog.Well _ _ (if ssid = fieldText (slice x.mtd 28 64) ∧ key = fieldText (slice x.mtd 92 64) ∧
    hexdump (slice x.mtd 24 4) = "00000000".toList ∧ x.arg ≠ .force then _ else _) _
  have hpath : ¬ (ssid = fieldText (slice x.mtd 28 64) ∧ key = fieldText (slice x.mtd 92 64) ∧
      hexdump (slice x.mtd 24 4) = "00000000".toList ∧ x.arg ≠ .force) := by
    rintro ⟨hs, hk, hc, hf⟩
    have hzero : hexdump [0, 0, 0, 0] = "00000000".toList := by decide
    exact hskips ⟨hs.symm, hk.symm, hexdump_inj (hc.trans hzero.symm), hf⟩
  rw [if_neg hpath]
  refine Prog.Well.bind (R := fun _ w => w = { x.staged ssid key with backup := some x.mtd }) ?_ ?_
  · exact Prog.well_command rfl rfl
  rintro _ _ rfl
  have hbackup : x.mtd ≠ [] := by
    rintro h
    rw [h] at hsize
    exact absurd hsize (by decide)
  refine well_test (decide_eq_true hbackup) ?_
  refine Prog.Well.bind (R := fun _ w => w = { x.staged ssid key with
    backup := some x.mtd, mtd := written x.mtd ssid key }) ?_ ?_
  · have hzeros : (List.replicate 64 (0 : UInt8)).length = 64 := List.length_replicate
    have hfits : ∀ off n, off + n ≤ 156 → off + n ≤ x.mtd.length := fun _ _ h => Nat.le_trans h hsize
    refine well_write (by rw [hzeros]; exact hfits 28 64 (by decide)) ?_
    refine well_write (by rw [hzeros, overwrite_length]; exact hfits 92 64 (by decide)) ?_
    refine well_write (by simp only [overwrite_length]; exact hfits 28 _ (by omega)) ?_
    refine well_write (by simp only [overwrite_length]; exact hfits 92 _ (by omega)) ?_
    refine well_write_last (by simp only [overwrite_length]; exact hfits 24 4 (by decide)) ?_
    rfl
  rintro _ _ rfl
  refine Prog.well_check ?_
  refine Prog.Well.bind (R := fun _ w => w = { x.staged ssid key with
    backup := some x.mtd, mtd := written x.mtd ssid key }) ?_ ?_
  · refine well_readText (well_readText (well_readMtd (well_readMtd (well_readMtd ?_))))
    refine well_test ?_ (well_test ?_ (well_test ?_ (well_test ?_ (well_test_last ?_ rfl))))
    · exact decide_eq_true ((congrArg fieldText (written_ssid hsize hssidLen)).trans (fieldText_plain hssid))
    · exact decide_eq_true ((congrArg fieldText (written_key hsize hkeyLen)).trans (fieldText_plain hkey))
    · exact decide_eq_true ((congrArg hexdump (written_ssidTerm hsize hssidLen)).trans (by decide))
    · exact decide_eq_true ((congrArg hexdump (written_keyTerm hsize hssidLen hkeyLen)).trans (by decide))
    · exact decide_eq_true ((congrArg hexdump (written_connected hsize)).trans (by decide))
  rintro _ _ rfl
  refine Prog.Well.bind (installSettings_well md5 (mergedConf (.station ssid key) x.conf) rfl) ?_
  rintro _ w ⟨-, -, hkept⟩
  exact Prog.well_assign ⟨rfl, hkept⟩

end Well

/-! ## 6. The promise -/

/-- Every exit is one of the two. -/
theorem check_cases (h : Host) (cfg : Bytes) :
    (∃ text, configureCheck h cfg = .error text) ∨ ∃ a, configureCheck h cfg = .ok a := by
  rcases configureCheck h cfg with text | a
  · exact .inl ⟨text, rfl⟩
  · exact .inr ⟨a, rfl⟩

theorem Consistent.of_discerning {x : Start}
    (h : ∀ ssid key, configureCheck x.host x.cfg = .ok (.station ssid key) → x.arg ≠ .check →
      Discerning md5 x ssid key) : Consistent md5 x where
  merged a hok := ⟨mergedConf_merged (accepted_clean hok) x.conf, fun is => (after_inv md5 hok is).moved⟩
  committed ssid key hok harg is hleft := by
    have hd := h ssid key hok harg
    obtain ⟨hpart, hconf⟩ := (after_inv md5 hok is).done hleft harg ssid key rfl
    have hsame : Skips x ssid key ∨ 156 ≤ x.mtd.length := hpart.imp And.left And.right
    have hfinal : (after md5 x is).conf = mergedConf (.station ssid key) x.conf := by
      rcases hconf with hconf | ⟨hconf, hhash⟩
      · exact hconf
      · exact hconf.trans (hd.hashes hsame hhash)
    rcases hpart with ⟨hskips, hmtd⟩ | ⟨hstored, -⟩
    · obtain ⟨hssid, hkey⟩ := hd.fields hskips
      rw [← hmtd] at hssid hkey
      exact ⟨hssid, hkey, by rw [hmtd]; exact hskips.2.2.1, hfinal⟩
    · exact ⟨hstored.ssidField, hstored.keyField, hstored.connected, hfinal⟩
  kept is := by
    rcases check_cases x.host x.cfg with ⟨text, hfail⟩ | ⟨a, hok⟩
    · exact (after_inv_error md5 hfail is).unmoved
    · exact (after_inv md5 hok is).unmoved
  framed is := by
    rcases check_cases x.host x.cfg with ⟨text, hfail⟩ | ⟨a, hok⟩
    · exact (after_inv_error md5 hfail is).framed
    · exact (after_inv md5 hok is).framed

theorem Consistent.discerning {x : Start} (h : Consistent md5 x) {ssid key : Bytes}
    (hok : configureCheck x.host x.cfg = .ok (.station ssid key)) (harg : x.arg ≠ .check) :
    Discerning md5 x ssid key where
  fields hskips := by
    obtain ⟨is, hleft, hmtd, -⟩ := script_skips md5 hok harg hskips
    have hcommitted := h.committed ssid key hok harg is hleft
    rw [← hmtd]
    exact ⟨hcommitted.ssidField, hcommitted.keyField⟩
  hashes hpath hhash := by
    rcases Classical.em (Skips x ssid key) with hskips | hskips
    · obtain ⟨is, hleft, -, hkept⟩ := script_skips md5 hok harg hskips
      exact (hkept hhash).symm.trans (h.committed ssid key hok harg is hleft).conf
    · obtain ⟨is, hleft, hkept⟩ := script_writes md5 hok harg hskips (hpath.resolve_left hskips)
      exact (hkept hhash).symm.trans (h.committed ssid key hok harg is hleft).conf

/-- **The commit is consistent** exactly where the comparisons of the script take no two different
    texts for the same. -/
theorem consistent_iff (x : Start) : Consistent md5 x ↔
    ∀ ssid key, configureCheck x.host x.cfg = .ok (.station ssid key) → x.arg ≠ .check →
      Discerning md5 x ssid key :=
  ⟨fun h _ _ hok harg => h.discerning md5 hok harg, fun h => Consistent.of_discerning md5 h⟩

end

/-- A name whose field in the partition is cut by a NUL. -/
def cutField : Start where
  host := Host.accessible
  arg := .none
  cfg := ascii "wifi_ssid=abcd\nwifi_psk=password1\n"
  mtd := List.replicate 28 0 ++ (ascii "ab" ++ [0] ++ ascii "cd" ++ List.replicate 59 0) ++
    (ascii "password1" ++ List.replicate 55 0) ++ List.replicate 100 0
  conf := ascii "NTPD=no\n"
  torn := []

theorem cutField_lines : textLines (dropBom cutField.cfg) =
    [Key.wifiSsid.assign ++ ascii "abcd", Key.wifiPsk.assign ++ ascii "password1", []] := by decide

theorem cutField_accepted : configureCheck Host.accessible cutField.cfg =
    .ok (.station (ascii "abcd") (ascii "password1")) := by
  refine (configureCheck_ok_iff _ _).mpr ⟨by decide, by decide, by decide, ?_, ⟨?_, ?_⟩, ?_⟩
  · have hletter : ∀ pattern ∈ invisiblePatterns, ∃ c ∈ pattern.toList, c = 'c' ∨ c = 'e' := by
      simp [invisiblePatterns]
    have hnone : ∀ c ∈ hexdump ((dropBom cutField.cfg).map crToLf), ¬ (c = 'c' ∨ c = 'e') := by
      have hall : (hexdump ((dropBom cutField.cfg).map crToLf)).all
          (fun c => c != 'c' && c != 'e') = true := by rfl
      simpa using hall
    intro pattern hpattern hin
    obtain ⟨c, hc, hce⟩ := hletter pattern hpattern
    exact hnone c (hin.subset hc) hce
  · rw [cutField_lines]
    rintro l (- | ⟨-, (- | ⟨-, (- | ⟨-, hl⟩)⟩)⟩)
    · exact .inr (.inr (.inr ⟨.wifiSsid, by decide⟩))
    · exact .inr (.inr (.inr ⟨.wifiPsk, by decide⟩))
    · exact .inl rfl
    · exact absurd hl List.not_mem_nil
  · rw [cutField_lines]
    intro k
    cases k <;> decide
  · rw [cutField_lines]
    decide

/-- The script leaves it there and reports success, whatever the hash. -/
theorem cutField_skipped : ¬ ∃ md5 : Bytes → Bytes, ∀ x, Consistent md5 x := by
  rintro ⟨md5, h⟩
  have hskips : Skips cutField (ascii "abcd") (ascii "password1") :=
    ⟨by decide, by decide, by decide, nofun⟩
  have hfields := ((h cutField).discerning md5 cutField_accepted nofun).fields hskips
  exact absurd hfields.1 (by decide)

end YiHack.Provision
