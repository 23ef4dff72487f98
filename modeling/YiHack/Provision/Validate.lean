/-
  File:      YiHack/Provision/Validate.lean
  Subject:   `configure_wifi.sh` up to `--check`: which credential files it accepts.

  Texts are bytes, as `LC_ALL=C` has them. What is asked of the surroundings (files that are there,
  readable, writable) is `Host`.

  * `configureCheck` -- the script;
  * `Documented` -- the format it documents;
  * `hex_infix_iff` -- a pattern in a hex dump stands at a byte or straddles two;
  * **`accepts_documented_iff`** -- script and format agree unless a pattern straddles bytes.
-/
import YiHack.General.Fallible
import YiHack.General.Text
import Mathlib

namespace YiHack.Provision

open General

/-! ## 1. Hex dumps -/

/-- `hexdump -v -e '1/1 "%02x"'`. -/
def hexdump (f : Bytes) : List Char :=
  f.flatMap fun b => [Nat.digitChar (b.toNat / 16), Nat.digitChar (b.toNat % 16)]

/-- The patterns of the invisible sequences, as the script has them. -/
def invisiblePatterns : List String :=
  ["efbbbf", "c2ad", "c2a0", "e28087", "e2808b", "e2808c", "e2808d", "e2808e", "e2808f", "e280aa",
    "e280ab", "e280ac", "e280ad", "e280ae", "e280af", "e281a0", "e281a6", "e281a7", "e281a8", "e281a9"]

/-- The sequences they stand for. -/
def invisible : List Bytes :=
  [[0xef, 0xbb, 0xbf], [0xc2, 0xad], [0xc2, 0xa0], [0xe2, 0x80, 0x87], [0xe2, 0x80, 0x8b],
    [0xe2, 0x80, 0x8c], [0xe2, 0x80, 0x8d], [0xe2, 0x80, 0x8e], [0xe2, 0x80, 0x8f],
    [0xe2, 0x80, 0xaa], [0xe2, 0x80, 0xab], [0xe2, 0x80, 0xac], [0xe2, 0x80, 0xad],
    [0xe2, 0x80, 0xae], [0xe2, 0x80, 0xaf], [0xe2, 0x81, 0xa0], [0xe2, 0x81, 0xa6],
    [0xe2, 0x81, 0xa7], [0xe2, 0x81, 0xa8], [0xe2, 0x81, 0xa9]]

theorem patterns_eq : invisiblePatterns.map String.toList = invisible.map hexdump := by decide

theorem hexdump_cons (b : UInt8) (f : Bytes) : hexdump (b :: f) =
    Nat.digitChar (b.toNat / 16) :: Nat.digitChar (b.toNat % 16) :: hexdump f := rfl

theorem hexdump_length (f : Bytes) : (hexdump f).length = 2 * f.length := by
  induction f with
  | nil => rfl
  | cons b f ih =>
    rw [hexdump_cons, List.length_cons, List.length_cons, ih, List.length_cons]
    omega

theorem hexdump_take (f : Bytes) (n : Nat) : (hexdump f).take (2 * n) = hexdump (f.take n) := by
  induction n generalizing f with
  | zero => rfl
  | succ n ih =>
    cases f with
    | nil => rfl
    | cons b f => rw [hexdump_cons, Nat.mul_succ, List.take_succ_cons, List.take_succ_cons, ih]; rfl

theorem hexdump_drop (f : Bytes) (n : Nat) : (hexdump f).drop (2 * n) = hexdump (f.drop n) := by
  induction n generalizing f with
  | zero => rfl
  | succ n ih =>
    cases f with
    | nil => rfl
    | cons b f => exact ih f

theorem digitChar_inj {m n : Nat} (hm : m < 16) (hn : n < 16)
    (h : Nat.digitChar m = Nat.digitChar n) : m = n := by
  have hall : ∀ m < 16, ∀ n < 16, Nat.digitChar m = Nat.digitChar n → m = n := by decide
  exact hall m hm n hn h

theorem hexdump_inj {f g : Bytes} (h : hexdump f = hexdump g) : f = g := by
  induction f generalizing g with
  | nil =>
    cases g with
    | nil => rfl
    | cons b g => exact absurd h nofun
  | cons a f ih =>
    cases g with
    | nil => exact absurd h nofun
    | cons b g =>
      rw [hexdump_cons, hexdump_cons, List.cons.injEq, List.cons.injEq] at h
      obtain ⟨hhigh, hlow, hrest⟩ := h
      have ha := a.toNat_lt
      have hb := b.toNat_lt
      have hhigh := digitChar_inj (by omega) (by omega) hhigh
      have hlow := digitChar_inj (by omega) (by omega) hlow
      have hab : a = b := UInt8.toNat_inj.mp (by omega)
      rw [ih hrest, hab]

/-- The pattern of `seq` begins at the second digit of a byte of `f`. -/
def Straddles (f seq : Bytes) : Prop :=
  ∃ before behind, hexdump f = before ++ hexdump seq ++ behind ∧ before.length % 2 = 1

/-- **A pattern in a hex dump** stands at a byte, or it straddles bytes. -/
theorem hex_infix_iff (f seq : Bytes) :
    hexdump seq <:+: hexdump f ↔ seq <:+: f ∨ Straddles f seq := by
  constructor
  · rintro ⟨before, behind, h⟩
    by_cases hodd : before.length % 2 = 1
    · exact .inr ⟨before, behind, h.symm, hodd⟩
    · refine .inl ?_
      have hn : before.length = 2 * (before.length / 2) := by omega
      have hdrop : hexdump seq ++ behind = hexdump (f.drop (before.length / 2)) := by
        rw [← hexdump_drop, ← hn, ← h, List.append_assoc, List.drop_left]
      have hseq : hexdump seq = hexdump ((f.drop (before.length / 2)).take seq.length) := by
        rw [← hexdump_take, ← hdrop, ← hexdump_length, List.take_left]
      rw [hexdump_inj hseq]
      exact (List.take_prefix _ _).isInfix.trans (List.drop_suffix _ _).isInfix
  · rintro (⟨before, behind, rfl⟩ | ⟨before, behind, h, -⟩)
    · exact ⟨hexdump before, hexdump behind, by simp [hexdump]⟩
    · exact ⟨before, behind, h.symm⟩

/-! ## 2. Lines -/

def isSpace (b : UInt8) : Bool := b == 32 || (9 ≤ b && b ≤ 13)

def hash : UInt8 := 35

/-- White space, optionally followed by a comment. -/
def isBlankLine (l : Bytes) : Bool :=
  match l.dropWhile isSpace with
  | [] => true
  | b :: _ => b == hash

/-- The four entries. -/
inductive Key
  | wifiSsid
  | wifiPsk
  | hotspotSsid
  | hotspotPsk
  deriving DecidableEq, Repr

namespace Key

def name : Key → String
  | wifiSsid => "wifi_ssid"
  | wifiPsk => "wifi_psk"
  | hotspotSsid => "hotspot_ssid"
  | hotspotPsk => "hotspot_psk"

def all : List Key := [wifiSsid, wifiPsk, hotspotSsid, hotspotPsk]

/-- The key with its `=`. -/
def assign (k : Key) : Bytes := ascii k.name ++ [equals]

/-- `case "$LINE" in key=*)`. -/
def begins (k : Key) (l : Bytes) : Bool := k.assign.isPrefixOf l

/-- The entry a line is. -/
def of (l : Bytes) : Option Key := all.find? fun k => k.begins l

end Key

/-- `SSID`, `KEY`, `HOTSPOT_SSID`, `HOTSPOT_KEY`; one that was not seen is none. -/
abbrev Entries := Key → Option Bytes

/-- One turn of the loop. -/
def parseLine (e : Entries) (l : Bytes) : Except String Entries :=
  match Key.of l with
  | some k =>
    if (e k).isSome then .error ("duplicate " ++ k.name ++ " entry")
    else .ok (Function.update e k (some (l.drop k.assign.length)))
  | none =>
    match l with
    | [] => .ok e
    | b :: _ =>
      if b = hash then .ok e
      else if isSpace b then
        if isBlankLine l then .ok e
        else .error "unrecognized entry; use exact key=value names without leading spaces"
      else .error "unrecognized entry; use only wifi_ssid/wifi_psk or hotspot_ssid/hotspot_psk"

/-- The loop. -/
def parseLines (e : Entries) : List Bytes → Except String Entries
  | [] => .ok e
  | l :: ls => (parseLine e l).bind fun e => parseLines e ls

/-! ## 3. The script -/

/-- The credentials that are accepted. -/
inductive Accepted
  | station (ssid key : Bytes)
  | hotspot (ssid key : Bytes)
  deriving DecidableEq, Repr

/-- What the script asks of its surroundings. -/
structure Host where
  cfgFound : Bool
  cfgReadable : Bool
  sdRoot : Bool
  staging : Bool
  mtdReadable : Bool
  mtdWritable : Bool
  confWritable : Bool
  merged : Bool

/-- Card, device and `system.conf` are accessible. -/
def Host.accessible : Host := ⟨true, true, true, true, true, true, true, true⟩

/-- `[ condition ] || fail text`. -/
def orFail (condition : Prop) [Decidable condition] (text : String) : Except String Unit :=
  if condition then .ok () else .error text

def dropBom (f : Bytes) : Bytes := if [0xef, 0xbb, 0xbf].isPrefixOf f then f.drop 3 else f

/-- The `case "$PREFIX"`. -/
def removeBom (h : Host) (f : Bytes) : Except String Bytes :=
  let start := hexdump (f.take 3)
  if "efbbbf".toList.isPrefixOf start then
    if h.staging then .ok (f.drop 3) else .error "cannot remove UTF-8 BOM"
  else if "fffe".toList.isPrefixOf start ∨ "feff".toList.isPrefixOf start then
    .error "UTF-16 configure_wifi.cfg is not supported; save it as UTF-8 or plain text"
  else if h.staging then .ok f else .error "cannot read configure_wifi.cfg"

/-- `tr '\r' '\n'`. -/
def crToLf (b : UInt8) : UInt8 := if b = 13 then newline else b

/-- Printable ASCII, `[ -~]`. -/
def isPrintable (b : UInt8) : Bool := 32 ≤ b && b ≤ 126

/-- The tests on a hotspot pair. -/
def checkHotspot (e : Entries) : Except String Accepted := do
  orFail (e .hotspotSsid).isSome "hotspot_ssid entry is missing"
  orFail (e .hotspotPsk).isSome "hotspot_psk entry is missing (use hotspot_psk= for an open hotspot)"
  let ssid := (e .hotspotSsid).getD []
  let key := (e .hotspotPsk).getD []
  orFail (ssid ≠ []) "hotspot SSID has not been set"
  orFail (ssid.length ≤ 32) "hotspot SSID exceeds 32 bytes"
  if key ≠ [] then
    orFail (8 ≤ key.length ∧ key.length ≤ 63)
      "hotspot password must be 8-63 printable ASCII characters"
    orFail (key.all isPrintable) "hotspot password must be printable ASCII"
  return .hotspot ssid key

/-- The tests on a router pair. -/
def checkStation (h : Host) (e : Entries) : Except String Accepted := do
  orFail (e .wifiSsid).isSome "wifi_ssid entry is missing"
  orFail (e .wifiPsk).isSome "wifi_psk entry is missing"
  let ssid := (e .wifiSsid).getD []
  let key := (e .wifiPsk).getD []
  orFail (ssid ≠ []) "SSID has not been set"
  orFail (key ≠ []) "Wi-Fi key has not been set"
  orFail (ssid.length ≤ 32) s!"SSID is too long ({ssid.length} bytes; maximum is 32)"
  orFail (key.length ≤ 63) s!"Wi-Fi key is too long ({key.length} bytes; maximum is 63)"
  orFail h.mtdReadable "Wi-Fi MTD device is not readable"
  orFail h.mtdWritable "Wi-Fi MTD device is not writable"
  return .station ssid key

/-- One of the keys was seen. -/
def Entries.wifiSeen (e : Entries) : Bool := (e .wifiSsid).isSome || (e .wifiPsk).isSome

def Entries.hotspotSeen (e : Entries) : Bool := (e .hotspotSsid).isSome || (e .hotspotPsk).isSome

/-- Behind the loop, up to the staging of `system.conf`. -/
def checkEntries (h : Host) (e : Entries) : Except String Accepted := do
  orFail (¬ (e.wifiSeen = true ∧ e.hotspotSeen = true))
    "use only wifi_ssid/wifi_psk OR hotspot_ssid/hotspot_psk, never both"
  let a ← if e.hotspotSeen then checkHotspot e else checkStation h e
  orFail h.staging "cannot stage settings"
  return a

/-- `configure_wifi.sh --check`, with the credentials it has read. -/
def configureCheck (h : Host) (cfg : Bytes) : Except String Accepted := do
  orFail h.cfgFound "configure_wifi.cfg not found"
  orFail h.cfgReadable "configure_wifi.cfg is not readable"
  orFail (hexdump ((cfg.drop 4096).take 1) = []) "configure_wifi.cfg exceeds 4096 bytes"
  orFail h.sdRoot "SD root is not available"
  let raw ← removeBom h cfg
  orFail (0 ∉ raw) "configure_wifi.cfg contains NUL bytes; save it as UTF-8 or plain text"
  orFail h.staging "cannot normalize line endings"
  let clean := raw.map crToLf
  orFail (∀ pattern ∈ invisiblePatterns, ¬ pattern.toList <:+: hexdump clean)
    "configure_wifi.cfg contains an invisible Unicode formatting character"
  let e ← parseLines (fun _ => none) (lines clean)
  let a ← checkEntries h e
  orFail h.confWritable "system configuration is not writable"
  orFail h.merged "cannot stage system configuration"
  return a

/-- The script exits with 0. -/
def accepts (h : Host) (cfg : Bytes) : Prop := ∃ a, configureCheck h cfg = .ok a

/-! ## 4. The format -/

/-- A carriage return and a line feed are one line end. -/
def joinCrLf : Bytes → Bytes
  | 13 :: 10 :: f => 10 :: joinCrLf f
  | b :: f => b :: joinCrLf f
  | [] => []

def isLineEnd (b : UInt8) : Bool := b == 10 || b == 13

/-- The lines, with LF, CR and CRLF as line ends. -/
def textLines (f : Bytes) : List Bytes := (joinCrLf f).splitOnP isLineEnd

/-- The value of an entry. -/
def value (ls : List Bytes) (k : Key) : Option Bytes :=
  (ls.find? fun l => k.begins l).map (List.drop k.assign.length)

/-- Empty, a comment, white space with or without a comment, or an entry. -/
def Recognised (l : Bytes) : Prop :=
  l = [] ∨ l.head? = some hash ∨ isBlankLine l = true ∨ ∃ k : Key, k.begins l = true

/-- A complete pair for a router, none for a hotspot. -/
def RouterPair (e : Entries) : Prop :=
  ∃ ssid key, e .wifiSsid = some ssid ∧ e .wifiPsk = some key ∧ e .hotspotSsid = none ∧
    e .hotspotPsk = none ∧ 1 ≤ ssid.length ∧ ssid.length ≤ 32 ∧ 1 ≤ key.length ∧ key.length ≤ 63

/-- A complete pair for a hotspot, none for a router. -/
def HotspotPair (e : Entries) : Prop :=
  ∃ ssid key, e .hotspotSsid = some ssid ∧ e .hotspotPsk = some key ∧ e .wifiSsid = none ∧
    e .wifiPsk = none ∧ 1 ≤ ssid.length ∧ ssid.length ≤ 32 ∧
    (key = [] ∨ 8 ≤ key.length ∧ key.length ≤ 63 ∧ ∀ b ∈ key, 32 ≤ b ∧ b ≤ 126)

/-- The documented format. -/
structure Documented (cfg : Bytes) : Prop where
  size : cfg.length ≤ 4096
  utf16 : ¬ [0xff, 0xfe] <+: cfg ∧ ¬ [0xfe, 0xff] <+: cfg
  noNul : 0 ∉ cfg
  visible : ∀ seq ∈ invisible, ¬ seq <:+: dropBom cfg
  lines : ∀ l ∈ textLines (dropBom cfg), Recognised l
  once : ∀ k : Key, ((textLines (dropBom cfg)).filter fun l => k.begins l).length ≤ 1
  pair : RouterPair (value (textLines (dropBom cfg))) ∨ HotspotPair (value (textLines (dropBom cfg)))

/-- What a hex dump of the lines shows across two bytes. -/
def Straddled (cfg : Bytes) : Prop := ∃ seq ∈ invisible, Straddles ((dropBom cfg).map crToLf) seq

/-! ## 5. What the loop reads -/

namespace Key

/-- No key with its `=` begins another. -/
theorem assign_inj {k k' : Key} (h : k.assign <+: k'.assign) : k = k' := by
  cases k <;> cases k' <;> first | rfl | exact absurd h (by decide)

theorem begins_iff {k : Key} {l : Bytes} : k.begins l = true ↔ k.assign <+: l := by
  rw [begins, List.isPrefixOf_iff_prefix]

/-- A line begins with one key. -/
theorem begins_unique {k k' : Key} {l : Bytes} (hk : k.begins l = true) (hk' : k'.begins l = true) :
    k = k' := by
  rcases List.prefix_or_prefix_of_prefix (begins_iff.mp hk) (begins_iff.mp hk') with h | h
  · exact assign_inj h
  · exact (assign_inj h).symm

theorem begins_of {l : Bytes} {k : Key} (h : of l = some k) : k.begins l = true :=
  List.find?_some (p := fun k => Key.begins k l) h

theorem of_eq_some_iff {l : Bytes} {k : Key} : of l = some k ↔ k.begins l = true := by
  constructor
  · exact begins_of
  · intro h
    rcases hof : of l with - | k'
    · have hall : k ∈ all := by cases k <;> decide
      exact absurd h (List.find?_eq_none.mp hof k hall)
    · rw [begins_unique h (begins_of hof)]

theorem of_eq_none_iff {l : Bytes} : of l = none ↔ ∀ k : Key, k.begins l = false := by
  rw [Option.eq_none_iff_forall_ne_some]
  simp only [ne_eq, of_eq_some_iff, Bool.not_eq_true]

theorem begins_nil (k : Key) : k.begins [] = false := by cases k <;> rfl

end Key

/-- What a line adds. -/
def note (e : Entries) (l : Bytes) : Entries :=
  fun k => if k.begins l then some (l.drop k.assign.length) else e k

theorem note_of_begins {e : Entries} {l : Bytes} {k : Key} (h : k.begins l = true) :
    note e l = Function.update e k (some (l.drop k.assign.length)) := by
  funext k'
  rcases Decidable.em (k' = k) with rfl | hne
  · rw [note, if_pos h, Function.update_self]
  · rw [note, if_neg fun h' => hne (Key.begins_unique h' h), Function.update_of_ne hne]

theorem note_of_none {e : Entries} {l : Bytes} (h : ∀ k : Key, k.begins l = false) : note e l = e :=
  funext fun k => if_neg (by rw [h k]; exact Bool.false_ne_true)

/-- A line without a key is recognised when it is empty, a comment or white space. -/
theorem recognised_cons_iff {b : UInt8} {bs : Bytes} (h : ∀ k : Key, k.begins (b :: bs) = false) :
    Recognised (b :: bs) ↔ b = hash ∨ isSpace b = true ∧ isBlankLine (b :: bs) = true := by
  constructor
  · rintro (hnil | hhash | hblank | ⟨k, hk⟩)
    · exact absurd hnil nofun
    · exact .inl (Option.some.inj hhash)
    · rcases hspace : isSpace b with - | -
      · refine .inl ?_
        simpa [isBlankLine, hspace] using hblank
      · exact .inr ⟨rfl, hblank⟩
    · exact absurd hk (by rw [h k]; exact Bool.false_ne_true)
  · rintro (rfl | ⟨-, hblank⟩)
    · exact .inr (.inl rfl)
    · exact .inr (.inr (.inl hblank))

/-- **One turn** goes through on a recognised line whose key is new. -/
theorem parseLine_ok_iff {e e' : Entries} {l : Bytes} : parseLine e l = .ok e' ↔
    Recognised l ∧ (∀ k : Key, k.begins l = true → e k = none) ∧ e' = note e l := by
  rcases hof : Key.of l with - | k
  · have hnone := Key.of_eq_none_iff.mp hof
    have hfree : ∀ k : Key, k.begins l = true → e k = none := fun k hk =>
      absurd hk (by rw [hnone k]; exact Bool.false_ne_true)
    rw [note_of_none hnone]
    cases l with
    | nil =>
      simp only [parseLine, hof, Except.ok.injEq]
      exact ⟨fun h => ⟨.inl rfl, hfree, h.symm⟩, fun h => h.2.2.symm⟩
    | cons b bs =>
      rw [recognised_cons_iff hnone]
      simp only [parseLine, hof]
      split
      · rename_i hb
        simp only [Except.ok.injEq]
        exact ⟨fun h => ⟨.inl hb, hfree, h.symm⟩, fun h => h.2.2.symm⟩
      · rename_i hb
        split
        · rename_i hspace
          split
          · rename_i hblank
            simp only [Except.ok.injEq]
            exact ⟨fun h => ⟨.inr ⟨hspace, hblank⟩, hfree, h.symm⟩, fun h => h.2.2.symm⟩
          · rename_i hblank
            simp only [reduceCtorEq, false_iff]
            rintro ⟨hb' | ⟨-, hblank'⟩, -⟩
            · exact hb hb'
            · exact hblank hblank'
        · rename_i hspace
          simp only [reduceCtorEq, false_iff]
          rintro ⟨hb' | ⟨hspace', -⟩, -⟩
          · exact hb hb'
          · exact hspace hspace'
  · have hk := Key.of_eq_some_iff.mp hof
    have hrec : Recognised l := .inr (.inr (.inr ⟨k, hk⟩))
    rw [note_of_begins hk]
    simp only [parseLine, hof]
    rcases hek : e k with - | v
    · simp only [Option.isSome_none, Bool.false_eq_true, if_false, Except.ok.injEq]
      refine ⟨fun h => ⟨hrec, fun k' hk' => ?_, h.symm⟩, fun h => h.2.2.symm⟩
      rw [Key.begins_unique hk' hk, hek]
    · simp only [Option.isSome_some, if_true, reduceCtorEq, false_iff]
      rintro ⟨-, hfree, -⟩
      exact absurd (hfree k hk) (by rw [hek]; nofun)

theorem value_cons (l : Bytes) (ls : List Bytes) (k : Key) : value (l :: ls) k =
    if k.begins l then some (l.drop k.assign.length) else value ls k := by
  rw [value, List.find?_cons]
  rcases hk : k.begins l with - | -
  · rfl
  · rfl

/-- How often a key is there: in `e` and in the lines. -/
def count (e : Entries) (ls : List Bytes) (k : Key) : Nat :=
  (e k).toList.length + (ls.filter fun l => k.begins l).length

theorem count_cons (e : Entries) (l : Bytes) (ls : List Bytes) (k : Key) : count e (l :: ls) k ≤ 1 ↔
    (k.begins l = true → e k = none) ∧ count (note e l) ls k ≤ 1 := by
  simp only [count, note, List.filter_cons]
  rcases hk : k.begins l with - | -
  · simp
  · rcases hek : e k with - | v
    · simp [Nat.add_comm]
    · simp

/-- **The loop** goes through when every line is recognised and no key comes twice. -/
theorem parseLines_ok_iff {e e' : Entries} {ls : List Bytes} : parseLines e ls = .ok e' ↔
    (∀ l ∈ ls, Recognised l) ∧ (∀ k, count e ls k ≤ 1) ∧ e' = fun k => (e k).or (value ls k) := by
  induction ls generalizing e with
  | nil =>
    have hcount : ∀ k, count e [] k ≤ 1 := fun k => by
      rcases hek : e k with - | v <;> simp [count, hek]
    have hvalue : (fun k => (e k).or (value [] k)) = e := funext fun k => by simp [value]
    rw [hvalue, parseLines, Except.ok.injEq]
    exact ⟨fun h => ⟨nofun, hcount, h.symm⟩, fun h => h.2.2.symm⟩
  | cons l ls ih =>
    have hbind : parseLines e (l :: ls) = .ok e' ↔
        ∃ e₁, parseLine e l = .ok e₁ ∧ parseLines e₁ ls = .ok e' := by
      rw [parseLines]
      rcases parseLine e l with t | e₁
      · exact ⟨nofun, fun ⟨_, h, _⟩ => absurd h nofun⟩
      · exact ⟨fun h => ⟨e₁, rfl, h⟩, fun ⟨_, h, h'⟩ => by cases h; exact h'⟩
    rw [hbind]
    simp only [parseLine_ok_iff, ih, List.forall_mem_cons, count_cons]
    constructor
    · rintro ⟨e₁, ⟨hl, hfree, rfl⟩, hls, hcount, rfl⟩
      refine ⟨⟨hl, hls⟩, fun k => ⟨hfree k, hcount k⟩, funext fun k => ?_⟩
      rw [note, value_cons]
      split
      · rename_i hk
        rw [hfree k hk, Option.none_or, Option.some_or]
      · rfl
    · rintro ⟨⟨hl, hls⟩, hcount, rfl⟩
      refine ⟨note e l, ⟨hl, fun k => (hcount k).1, rfl⟩, hls, fun k => (hcount k).2, ?_⟩
      funext k
      rw [note, value_cons]
      split
      · rename_i hk
        rw [(hcount k).1 hk, Option.none_or, Option.some_or]
      · rfl

/-! ## 6. Lines of two kinds -/

/-- Without the empty ones. -/
def filled (ls : List Bytes) : List Bytes := ls.filter fun l => !l.isEmpty

theorem forall_recognised_filled (ls : List Bytes) :
    (∀ l ∈ filled ls, Recognised l) ↔ ∀ l ∈ ls, Recognised l := by
  constructor
  · intro h l hl
    rcases hl' : l with - | ⟨b, bs⟩
    · exact .inl rfl
    · rw [← hl']
      exact h l (List.mem_filter.mpr ⟨hl, by rw [hl']; rfl⟩)
  · exact fun h l hl => h l (List.mem_of_mem_filter hl)

theorem filter_begins_filled (ls : List Bytes) (k : Key) :
    ((filled ls).filter fun l => k.begins l) = ls.filter fun l => k.begins l := by
  rw [filled, List.filter_filter]
  refine List.filter_congr fun l _ => ?_
  cases l with
  | nil => rw [Key.begins_nil, Bool.false_and]
  | cons b bs => simp

theorem value_eq (ls : List Bytes) (k : Key) : value ls k =
    (ls.filter fun l => k.begins l).head?.map (List.drop k.assign.length) := by
  rw [value, List.head?_filter]

/-- A text's lines are filled alike with CR, LF and CRLF, whichever way its line ends are read. -/
theorem splitOnP_joinCrLf (f : Bytes) : ∃ first rest rest',
    (f.map crToLf).splitOnP (· == newline) = first :: rest ∧
      (joinCrLf f).splitOnP isLineEnd = first :: rest' ∧ filled rest = filled rest' := by
  fun_induction joinCrLf f with
  | case1 f ih =>
    obtain ⟨first, rest, rest', hmap, hjoin, hfilled⟩ := ih
    refine ⟨[], [] :: first :: rest, first :: rest', ?_, ?_, ?_⟩
    · rw [List.map_cons, List.map_cons, List.splitOnP_cons_eq_if_modifyHead,
        List.splitOnP_cons_eq_if_modifyHead, hmap]
      rfl
    · rw [List.splitOnP_cons_eq_if_modifyHead, hjoin]
      rfl
    · simp only [filled, List.filter_cons] at hfilled ⊢
      simp [hfilled]
  | case2 b f _ ih =>
    obtain ⟨first, rest, rest', hmap, hjoin, hfilled⟩ := ih
    rw [List.map_cons, List.splitOnP_cons_eq_if_modifyHead, List.splitOnP_cons_eq_if_modifyHead,
      hmap, hjoin]
    rcases Decidable.em (b = 10 ∨ b = 13) with hend | hend
    · have hlf : (crToLf b == newline) = true := by
        rcases hend with rfl | rfl <;> decide
      have hle : isLineEnd b = true := by
        rcases hend with rfl | rfl <;> decide
      rw [if_pos hlf, if_pos hle]
      refine ⟨[], first :: rest, first :: rest', rfl, rfl, ?_⟩
      simp only [filled, List.filter_cons] at hfilled ⊢
      rw [hfilled]
    · obtain ⟨hlf, hcr⟩ := not_or.mp hend
      have hkeep : crToLf b = b := if_neg hcr
      rw [hkeep, if_neg (by simpa [newline] using hlf), if_neg (by simp [isLineEnd, hlf, hcr])]
      exact ⟨b :: first, rest, rest', rfl, rfl, hfilled⟩
  | case3 => exact ⟨[], [], [], rfl, rfl, rfl⟩

theorem filled_lines (f : Bytes) : filled (lines f) = filled (f.splitOn newline) := by
  have hdrop : ∀ pieces : List Bytes, pieces.getLast? = some [] →
      filled pieces.dropLast = filled pieces := by
    intro pieces h
    obtain ⟨front, rfl⟩ := List.getLast?_eq_some_iff.mp h
    simp [filled]
  rw [lines]
  split
  · rename_i h
    exact hdrop _ h
  · rfl

/-- **The lines `read` gets** are those of the text, up to empty ones. -/
theorem filled_lines_map (f : Bytes) : filled (lines (f.map crToLf)) = filled (textLines f) := by
  obtain ⟨first, rest, rest', hmap, hjoin, hfilled⟩ := splitOnP_joinCrLf f
  rw [filled_lines, List.splitOn, hmap, textLines, hjoin]
  simp only [filled, List.filter_cons] at hfilled ⊢
  rw [hfilled]

/-! ## 7. Script and format -/

theorem hexdump_prefix_iff {f seq : Bytes} : hexdump seq <+: hexdump f ↔ seq <+: f := by
  constructor
  · intro h
    have htake := List.prefix_iff_eq_take.mp h
    rw [hexdump_length, hexdump_take] at htake
    rw [hexdump_inj htake]
    exact List.take_prefix _ _
  · rintro ⟨behind, rfl⟩
    exact ⟨hexdump behind, by simp [hexdump]⟩

/-- `case "$PREFIX" in pattern*)` for at most three bytes. -/
theorem start_iff {f : Bytes} (seq : Bytes) (hseq : seq.length ≤ 3) :
    (hexdump seq).isPrefixOf (hexdump (f.take 3)) = true ↔ seq <+: f := by
  rw [List.isPrefixOf_iff_prefix, hexdump_prefix_iff, List.prefix_take_iff, and_iff_left hseq]

theorem removeBom_ok_iff {f raw : Bytes} : removeBom Host.accessible f = .ok raw ↔
    (¬ [0xff, 0xfe] <+: f ∧ ¬ [0xfe, 0xff] <+: f) ∧ raw = dropBom f := by
  have hbom : "efbbbf".toList.isPrefixOf (hexdump (f.take 3)) = true ↔ [0xef, 0xbb, 0xbf] <+: f :=
    start_iff [0xef, 0xbb, 0xbf] (by decide)
  have hlittle : "fffe".toList.isPrefixOf (hexdump (f.take 3)) = true ↔ [0xff, 0xfe] <+: f :=
    start_iff [0xff, 0xfe] (by decide)
  have hbig : "feff".toList.isPrefixOf (hexdump (f.take 3)) = true ↔ [0xfe, 0xff] <+: f :=
    start_iff [0xfe, 0xff] (by decide)
  simp only [removeBom, hbom, hlittle, hbig, dropBom, List.isPrefixOf_iff_prefix]
  split
  · rename_i h
    obtain ⟨rest, rfl⟩ := h
    have hlittle : ¬ [0xff, 0xfe] <+: [0xef, 0xbb, 0xbf] ++ rest := by simp
    have hbig : ¬ [0xfe, 0xff] <+: [0xef, 0xbb, 0xbf] ++ rest := by simp
    simp only [Host.accessible, if_true, Except.ok.injEq, hlittle, hbig, not_false_iff, true_and]
    exact eq_comm
  · split
    · rename_i h
      simp only [reduceCtorEq, false_iff]
      rintro ⟨⟨hlittle, hbig⟩, -⟩
      exact h.elim hlittle hbig
    · rename_i h
      simp only [Host.accessible, if_true, Except.ok.injEq, not_or.mp h, not_false_iff, true_and]
      exact eq_comm

theorem zero_mem_dropBom (f : Bytes) : 0 ∈ dropBom f ↔ 0 ∈ f := by
  rw [dropBom]
  split
  · rename_i h
    obtain ⟨rest, rfl⟩ := List.isPrefixOf_iff_prefix.mp h
    simp
  · rfl

/-- Line ends are no part of a sequence without them. -/
theorem infix_map_crToLf {f seq : Bytes} (hseq : ∀ b ∈ seq, b ≠ 10 ∧ b ≠ 13) :
    seq <:+: f.map crToLf ↔ seq <:+: f := by
  have hkeep : ∀ b : UInt8, crToLf b ≠ 10 → crToLf b = b := by
    intro b hb
    rw [crToLf]
    split
    · rename_i h
      exact absurd (by rw [crToLf, if_pos h]; rfl) hb
    · rfl
  constructor
  · rintro ⟨before, behind, h⟩
    obtain ⟨front, back, rfl, hfront, rfl⟩ := List.map_eq_append_iff.mp h.symm
    obtain ⟨before, mid, rfl, rfl, hmid⟩ := List.map_eq_append_iff.mp hfront
    have hsame : mid = seq := by
      rw [← hmid]
      refine (List.map_id mid).symm.trans (List.map_congr_left fun b hb => ?_)
      exact (hkeep b (hseq _ (hmid ▸ List.mem_map_of_mem hb)).1).symm
    rw [hsame]
    exact ⟨before, back, rfl⟩
  · rintro ⟨before, behind, rfl⟩
    have hsame : seq.map crToLf = seq := by
      refine Eq.trans (List.map_congr_left fun b hb => ?_) (List.map_id seq)
      exact if_neg (hseq b hb).2
    exact ⟨before.map crToLf, behind.map crToLf, by rw [List.map_append, List.map_append, hsame]⟩

theorem orFail_ok {c : Prop} [Decidable c] {t : String} {u : Unit} : orFail c t = .ok u ↔ c := by
  rw [orFail]
  split
  · rename_i h
    exact ⟨fun _ => h, fun _ => rfl⟩
  · rename_i h
    exact ⟨nofun, fun hc => absurd hc h⟩

theorem orFail_bind {α : Type} {c : Prop} [Decidable c] {t : String} {f : Unit → Except String α}
    {a : α} : (orFail c t >>= f) = .ok a ↔ c ∧ f () = .ok a := by
  rw [orFail]
  split
  · rename_i h
    exact ⟨fun hf => ⟨h, hf⟩, fun hf => hf.2⟩
  · rename_i h
    exact ⟨nofun, fun hf => absurd hf.1 h⟩

theorem checkStation_ok_iff (e : Entries) : (∃ a, checkStation Host.accessible e = .ok a) ↔
    ∃ ssid key, e .wifiSsid = some ssid ∧ e .wifiPsk = some key ∧ 1 ≤ ssid.length ∧
      ssid.length ≤ 32 ∧ 1 ≤ key.length ∧ key.length ≤ 63 := by
  simp only [checkStation, orFail_bind, Host.accessible, true_and]
  rcases e .wifiSsid with - | ssid
  · simp
  · rcases e .wifiPsk with - | key
    · simp
    · simp only [Option.isSome_some, Option.getD_some, true_and, Option.some.injEq]
      constructor
      · rintro ⟨_, hssid, hkey, hssidLen, hkeyLen, -⟩
        exact ⟨ssid, key, rfl, rfl, List.length_pos_iff.mpr hssid, hssidLen,
          List.length_pos_iff.mpr hkey, hkeyLen⟩
      · rintro ⟨_, _, rfl, rfl, hssid, hssidLen, hkey, hkeyLen⟩
        exact ⟨_, List.length_pos_iff.mp hssid, List.length_pos_iff.mp hkey, hssidLen, hkeyLen, rfl⟩

theorem all_isPrintable (key : Bytes) :
    key.all isPrintable = true ↔ ∀ b ∈ key, 32 ≤ b ∧ b ≤ 126 := by
  simp only [List.all_eq_true, isPrintable, Bool.and_eq_true, decide_eq_true_eq]

theorem checkHotspot_ok_iff (e : Entries) : (∃ a, checkHotspot e = .ok a) ↔
    ∃ ssid key, e .hotspotSsid = some ssid ∧ e .hotspotPsk = some key ∧ 1 ≤ ssid.length ∧
      ssid.length ≤ 32 ∧ (key = [] ∨ 8 ≤ key.length ∧ key.length ≤ 63 ∧ ∀ b ∈ key, 32 ≤ b ∧ b ≤ 126) := by
  simp only [checkHotspot, orFail_bind]
  rcases e .hotspotSsid with - | ssid
  · simp
  · rcases e .hotspotPsk with - | key
    · simp
    · simp only [Option.isSome_some, Option.getD_some, true_and, Option.some.injEq]
      rcases Decidable.em (key = []) with rfl | hkey
      · simp only [ne_eq, not_true_eq_false, if_false]
        constructor
        · rintro ⟨_, hssid, hssidLen, -⟩
          exact ⟨ssid, [], rfl, rfl, List.length_pos_iff.mpr hssid, hssidLen, .inl rfl⟩
        · rintro ⟨_, _, rfl, rfl, hssid, hssidLen, -⟩
          exact ⟨_, List.length_pos_iff.mp hssid, hssidLen, rfl⟩
      · simp only [ne_eq, hkey, not_false_iff, if_true, orFail_bind, all_isPrintable]
        constructor
        · rintro ⟨_, hssid, hssidLen, hlen, hprint, -⟩
          exact ⟨ssid, key, rfl, rfl, List.length_pos_iff.mpr hssid, hssidLen,
            .inr ⟨hlen.1, hlen.2, hprint⟩⟩
        · rintro ⟨_, _, rfl, rfl, hssid, hssidLen, hkey' | ⟨hlow, hhigh, hprint⟩⟩
          · exact absurd hkey' hkey
          · exact ⟨_, List.length_pos_iff.mp hssid, hssidLen, ⟨hlow, hhigh⟩, hprint, rfl⟩

theorem hotspotSeen_eq_false {e : Entries} :
    e.hotspotSeen = false ↔ e .hotspotSsid = none ∧ e .hotspotPsk = none := by
  rw [Entries.hotspotSeen, Bool.or_eq_false_iff, Option.isSome_eq_false_iff,
    Option.isSome_eq_false_iff, Option.isNone_iff_eq_none, Option.isNone_iff_eq_none]

theorem wifiSeen_eq_false {e : Entries} :
    e.wifiSeen = false ↔ e .wifiSsid = none ∧ e .wifiPsk = none := by
  rw [Entries.wifiSeen, Bool.or_eq_false_iff, Option.isSome_eq_false_iff,
    Option.isSome_eq_false_iff, Option.isNone_iff_eq_none, Option.isNone_iff_eq_none]

/-- **The entries** are accepted when they are one complete pair. -/
theorem checkEntries_ok_iff (e : Entries) :
    (∃ a, checkEntries Host.accessible e = .ok a) ↔ RouterPair e ∨ HotspotPair e := by
  have hplain : (∃ a, checkEntries Host.accessible e = .ok a) ↔
      ¬ (e.wifiSeen = true ∧ e.hotspotSeen = true) ∧
        ∃ a, (if e.hotspotSeen then checkHotspot e else checkStation Host.accessible e) = .ok a := by
    simp only [checkEntries, Host.accessible, orFail_bind]
    split
    · simp only [ok_bind_iff, orFail_ok, exists_const, true_and]
      exact ⟨fun ⟨_, hboth, a, h, _⟩ => ⟨hboth, a, h⟩, fun ⟨hboth, a, h⟩ => ⟨a, hboth, a, h, rfl⟩⟩
    · simp only [ok_bind_iff, orFail_ok, exists_const, true_and]
      exact ⟨fun ⟨_, hboth, a, h, _⟩ => ⟨hboth, a, h⟩, fun ⟨hboth, a, h⟩ => ⟨a, hboth, a, h, rfl⟩⟩
  rw [hplain]
  rcases hseen : e.hotspotSeen with - | -
  · obtain ⟨hssid, hpsk⟩ := hotspotSeen_eq_false.mp hseen
    simp only [Bool.false_eq_true, and_false, not_false_iff, if_false, true_and, checkStation_ok_iff]
    constructor
    · rintro ⟨ssid, key, hs, hk, hbounds⟩
      exact .inl ⟨ssid, key, hs, hk, hssid, hpsk, hbounds⟩
    · rintro (⟨ssid, key, hs, hk, -, -, hbounds⟩ | ⟨ssid, key, hs, -⟩)
      · exact ⟨ssid, key, hs, hk, hbounds⟩
      · exact absurd (hssid.symm.trans hs) nofun
  · simp only [and_true, if_true, checkHotspot_ok_iff, Bool.not_eq_true, wifiSeen_eq_false]
    constructor
    · rintro ⟨⟨hssid, hpsk⟩, ssid, key, hs, hk, hbounds⟩
      exact .inr ⟨ssid, key, hs, hk, hssid, hpsk, hbounds⟩
    · rintro (⟨ssid, key, -, -, hs, hk, -⟩ | ⟨ssid, key, hs, hk, hssid, hpsk, hbounds⟩)
      · exact absurd hseen (by rw [hotspotSeen_eq_false.mpr ⟨hs, hk⟩]; exact Bool.false_ne_true)
      · exact ⟨⟨hssid, hpsk⟩, ssid, key, hs, hk, hbounds⟩

/-- No pattern in the dump: no sequence at a byte, none across bytes. -/
theorem no_pattern_iff (f : Bytes) :
    (∀ pattern ∈ invisiblePatterns, ¬ pattern.toList <:+: hexdump (f.map crToLf)) ↔
      (∀ seq ∈ invisible, ¬ seq <:+: f) ∧ ¬ ∃ seq ∈ invisible, Straddles (f.map crToLf) seq := by
  have hplain : ∀ seq ∈ invisible, ∀ b ∈ seq, b ≠ 10 ∧ b ≠ 13 := by simp [invisible]
  have hmap : (∀ pattern ∈ invisiblePatterns, ¬ pattern.toList <:+: hexdump (f.map crToLf)) ↔
      ∀ seq ∈ invisible, ¬ hexdump seq <:+: hexdump (f.map crToLf) := by
    have hleft := List.forall_mem_map (f := String.toList) (l := invisiblePatterns)
      (P := fun d => ¬ d <:+: hexdump (f.map crToLf))
    have hright := List.forall_mem_map (f := hexdump) (l := invisible)
      (P := fun d => ¬ d <:+: hexdump (f.map crToLf))
    rw [← hleft, ← hright, patterns_eq]
  rw [hmap]
  constructor
  · intro h
    refine ⟨fun seq hseq hin => ?_, fun ⟨seq, hseq, hacross⟩ => ?_⟩
    · exact h seq hseq ((hex_infix_iff _ _).mpr (.inl ((infix_map_crToLf (hplain seq hseq)).mpr hin)))
    · exact h seq hseq ((hex_infix_iff _ _).mpr (.inr hacross))
  · rintro ⟨hno, hacross⟩ seq hseq hin
    rcases (hex_infix_iff _ _).mp hin with hin | hstraddles
    · exact hno seq hseq ((infix_map_crToLf (hplain seq hseq)).mp hin)
    · exact hacross ⟨seq, hseq, hstraddles⟩

/-- The entries of the lines that are read. -/
theorem parse_ok_iff (f : Bytes) (e : Entries) :
    parseLines (fun _ => none) (lines (f.map crToLf)) = .ok e ↔
      (∀ l ∈ textLines f, Recognised l) ∧
        (∀ k : Key, ((textLines f).filter fun l => k.begins l).length ≤ 1) ∧ e = value (textLines f) := by
  have hfilled := filled_lines_map f
  have hfilter : ∀ k : Key, ((lines (f.map crToLf)).filter fun l => k.begins l) =
      (textLines f).filter fun l => k.begins l := by
    intro k
    rw [← filter_begins_filled, hfilled, filter_begins_filled]
  have hvalue : (fun k => (none : Option Bytes).or (value (lines (f.map crToLf)) k)) =
      value (textLines f) := by
    funext k
    rw [Option.none_or, value_eq, hfilter, value_eq]
  have hcount : ∀ k, count (fun _ => none) (lines (f.map crToLf)) k =
      ((textLines f).filter fun l => k.begins l).length := by
    intro k
    rw [count, hfilter, Option.toList_none, List.length_nil, Nat.zero_add]
  rw [parseLines_ok_iff, hvalue, ← forall_recognised_filled, hfilled, forall_recognised_filled]
  simp only [hcount]

theorem size_iff (cfg : Bytes) : hexdump ((cfg.drop 4096).take 1) = [] ↔ cfg.length ≤ 4096 := by
  rw [← List.length_eq_zero_iff, hexdump_length, List.length_take, List.length_drop]
  omega

/-- **What the script accepts**, and as what. -/
theorem configureCheck_ok_iff (cfg : Bytes) (a : Accepted) :
    configureCheck Host.accessible cfg = .ok a ↔ cfg.length ≤ 4096 ∧
      (¬ [0xff, 0xfe] <+: cfg ∧ ¬ [0xfe, 0xff] <+: cfg) ∧ 0 ∉ cfg ∧
      (∀ pattern ∈ invisiblePatterns, ¬ pattern.toList <:+: hexdump ((dropBom cfg).map crToLf)) ∧
      ((∀ l ∈ textLines (dropBom cfg), Recognised l) ∧
        ∀ k : Key, ((textLines (dropBom cfg)).filter fun l => k.begins l).length ≤ 1) ∧
      checkEntries Host.accessible (value (textLines (dropBom cfg))) = .ok a := by
  simp only [configureCheck, ok_bind_iff, orFail_ok, exists_const, removeBom_ok_iff, size_iff]
  constructor
  · rintro ⟨-, -, hsize, -, _, ⟨hutf16, rfl⟩, hnul, -, hpatterns, e, hparse, b, hb, -, -, hab⟩
    obtain ⟨hlines, honce, rfl⟩ := (parse_ok_iff _ _).mp hparse
    obtain rfl := Except.ok.inj hab
    exact ⟨hsize, hutf16, fun h => hnul ((zero_mem_dropBom cfg).mpr h), hpatterns, ⟨hlines, honce⟩, hb⟩
  · rintro ⟨hsize, hutf16, hnul, hpatterns, ⟨hlines, honce⟩, ha⟩
    exact ⟨rfl, rfl, hsize, rfl, _, ⟨hutf16, rfl⟩, fun h => hnul ((zero_mem_dropBom cfg).mp h),
      rfl, hpatterns, _, (parse_ok_iff _ _).mpr ⟨hlines, honce, rfl⟩, a, ha, rfl, rfl, rfl⟩

/-- **The script accepts** what is documented and has no pattern across bytes. -/
theorem accepts_iff (cfg : Bytes) :
    accepts Host.accessible cfg ↔ Documented cfg ∧ ¬ Straddled cfg := by
  simp only [accepts, configureCheck_ok_iff, exists_and_left, checkEntries_ok_iff, no_pattern_iff]
  constructor
  · rintro ⟨hsize, hutf16, hnul, ⟨hvisible, hacross⟩, ⟨hlines, honce⟩, hpair⟩
    exact ⟨⟨hsize, hutf16, hnul, hvisible, hlines, honce, hpair⟩, hacross⟩
  · rintro ⟨⟨hsize, hutf16, hnul, hvisible, hlines, honce, hpair⟩, hacross⟩
    exact ⟨hsize, hutf16, hnul, ⟨hvisible, hacross⟩, ⟨hlines, honce⟩, hpair⟩

/-- **The script accepts the documented format** exactly where no such file shows a pattern across
    two bytes. -/
theorem accepts_documented_iff (cfg : Bytes) :
    (accepts Host.accessible cfg ↔ Documented cfg) ↔ (Documented cfg → ¬ Straddled cfg) := by
  rw [accepts_iff]
  constructor
  · intro h hdoc
    exact (h.mpr hdoc).2
  · intro h
    exact ⟨And.left, fun hdoc => ⟨hdoc, h hdoc⟩⟩

/-- A router pair whose name ends in `L*`: `4c2a` and the line end `0a`. -/
def starredCfg : Bytes := ascii "wifi_ssid=L*\nwifi_psk=password1\n"

theorem starredCfg_lines : textLines (dropBom starredCfg) =
    [Key.wifiSsid.assign ++ ascii "L*", Key.wifiPsk.assign ++ ascii "password1", []] := by decide

theorem starredCfg_documented : Documented starredCfg where
  size := by decide
  utf16 := by decide
  noNul := by decide
  visible := by
    have hhigh : ∀ seq ∈ invisible, ∃ b ∈ seq, 128 ≤ b := by decide
    have hlow : ∀ b ∈ dropBom starredCfg, ¬ 128 ≤ b := by
      have hall : (dropBom starredCfg).all (fun b => !decide (128 ≤ b)) = true := by rfl
      simpa using hall
    intro seq hseq hin
    obtain ⟨b, hb, hb'⟩ := hhigh seq hseq
    exact hlow b (hin.subset hb) hb'
  lines := by
    rw [starredCfg_lines]
    rintro l (- | ⟨-, (- | ⟨-, (- | ⟨-, hl⟩)⟩)⟩)
    · exact .inr (.inr (.inr ⟨.wifiSsid, by decide⟩))
    · exact .inr (.inr (.inr ⟨.wifiPsk, by decide⟩))
    · exact .inl rfl
    · exact absurd hl List.not_mem_nil
  once := by
    rw [starredCfg_lines]
    intro k
    cases k <;> decide
  pair := by
    rw [starredCfg_lines]
    exact .inl ⟨ascii "L*", ascii "password1", by decide⟩

/-- The script refuses it: `c2a0` stands across three bytes. -/
theorem starredCfg_refused :
    ¬ ∀ cfg : Bytes, accepts Host.accessible cfg ↔ Documented cfg := by
  intro h
  obtain ⟨-, hacross⟩ := (accepts_iff starredCfg).mp ((h starredCfg).mpr starredCfg_documented)
  exact hacross ⟨[0xc2, 0xa0], by decide, (hexdump (ascii "wifi_ssid=")) ++ ['4'],
    'a' :: hexdump (ascii "wifi_psk=password1\n"), by decide, by decide⟩

end YiHack.Provision
