/-
  File:      YiHack/Motion/VeGuard.lean
  Subject:   `motiond.c`: opening the VE node, and the look at `/proc/buddyinfo` in front of it.

  `ULONG_MAX` is a parameter, and so is the last `sscanf` of the statistics.

  * `veOrder3ReserveOk` -- the guard; `addCounts`, `scanZone` -- its two loops over a line;
  * `ReserveShown` -- the guard in the terms of the file: whole lines, exact sums;
  * `readStats` -- one call, with what it tried;
  * `saturate` -- a sum capped on the way is the capped sum;
  * **`ve_open_guarded`** -- the guard is exact, and no open goes past it or comes too early.
-/
import YiHack.General.Run
import YiHack.General.Scan
import YiHack.Motion.Hysteresis

namespace YiHack.Motion

open General

/-! ## 1. The guard -/

def VE_MIN_ORDER3_UNITS : Nat := 4

def VE_PRESSURE_RETRY_MS : Nat := 500

def VE_OPEN_RETRY_MS : Nat := 1000

/-- `char line[512]`, less the byte that ends it. -/
def LINE_SIZE : Nat := 511

/-- A file as it reads: its content, and whether reading it ended in an error. -/
structure ProcFile where
  content : Bytes
  error : Bool

/-- What C sees of a text. -/
def cString (s : Bytes) : Bytes := s.takeWhile (· != 0)

/-- `sscanf(line, "Node %*u, zone %31s %n", zone, &offset)`: the zone, and the text at `offset`. -/
def scanZone (line : Bytes) : Option (Bytes × Bytes) := do
  let s ← literal (ascii "Node") line
  let s ← scanUnsigned (skipSpace s)
  let s ← literal (ascii ",") s
  let s ← literal (ascii "zone") (skipSpace s)
  let (zone, s) ← scanString 31 (skipSpace s)
  return (zone, skipSpace s)

/-- `units`, `weight` and `order`. None of the sums comes near the end of an `unsigned int`. -/
structure Orders where
  units : Nat
  weight : Nat
  order : Nat

def Orders.start : Orders := ⟨0, 1, 0⟩

def Orders.add (o : Orders) (count : Nat) : Orders :=
  if 3 ≤ o.order then
    let capped := if VE_MIN_ORDER3_UNITS ≤ count then VE_MIN_ORDER3_UNITS else count
    let units := o.units + capped * o.weight
    { units := if VE_MIN_ORDER3_UNITS < units then VE_MIN_ORDER3_UNITS else units
      weight := if o.weight < VE_MIN_ORDER3_UNITS then o.weight * 2 else o.weight
      order := o.order + 1 }
  else { o with order := o.order + 1 }

/-- The loop over the counts of a zone, `strtoul` in it; nothing where it is invalid. -/
def addCounts (ulongMax : Nat) (p : Bytes) (o : Orders) : Option Orders :=
  match _hp : skipSpace p with
  | [] => some o
  | b :: q =>
    if isDigit b then
      let end_ := q.dropWhile isDigit
      let count := decimal (b :: q.takeWhile isDigit)
      if ulongMax < count ∨ end_.head?.any (fun c => !isSpace c) then none
      else addCounts ulongMax end_ (o.add count)
    else none
termination_by p.length
decreasing_by
  have hskip := (List.dropWhile_sublist isSpace (l := p)).length_le
  have hend := (List.dropWhile_sublist isDigit (l := q)).length_le
  rw [skipSpace] at _hp
  rw [_hp, List.length_cons] at hskip
  omega

/-- A line: nothing where it is invalid, else whether its zone has enough. -/
def checkLine (ulongMax : Nat) (line : Bytes) : Option Bool :=
  if newline ∈ line then
    match scanZone line with
    | none => none
    | some (zone, counts) =>
      if zone = ascii "Normal" then
        match addCounts ulongMax counts .start with
        | none => none
        | some o => if o.order < 4 then none else some (decide (VE_MIN_ORDER3_UNITS ≤ o.units))
      else some false
  else none

/-- The loop over the lines. -/
def checkLines (ulongMax : Nat) : List Bytes → Bool → Bool
  | [], reserveOk => reserveOk
  | line :: rest, reserveOk =>
    match checkLine ulongMax line with
    | none => false
    | some enough => checkLines ulongMax rest (reserveOk || enough)

/-- `ve_order3_reserve_ok`, for a `/proc/buddyinfo` that may not open. -/
def veOrder3ReserveOk (ulongMax : Nat) : Option ProcFile → Bool
  | none => false
  | some f => !f.error && checkLines ulongMax ((pieces LINE_SIZE f.content).map cString) false

/-! ## 2. What it stands for -/

/-- `Node N, zone Z`, with white space where `sscanf` takes it, and what follows. -/
inductive ZoneLine : Bytes → Bytes → Bytes → Prop
  | mk {a sign number b c zone counts : Bytes} (ha : Blanks a) (hsign : sign ∈ signs)
      (hnumber : isDecimal number = true) (hb : Blanks b) (hc : Blanks c) (hzone : IsWord zone)
      (hcounts : Stops (fun b => !isSpace b) counts) :
      ZoneLine (ascii "Node" ++ (a ++ (sign ++ (number ++ (ascii "," ++ (b ++ (ascii "zone" ++
        (c ++ (zone ++ counts))))))))) zone counts

/-- The free blocks of order 3 and above, counted in blocks of order 3. -/
def order3Units (counts : List Nat) : Nat :=
  ((counts.drop 3).zipIdx.map fun (c, k) => c * 2 ^ k).sum

/-- At least four numbers that fit, and nothing else. -/
structure ProperCounts (ulongMax : Nat) (counts : Bytes) : Prop where
  four : 4 ≤ (fields counts).length
  numbers : ∀ w ∈ fields counts, isDecimal w = true ∧ decimal w ≤ ulongMax

/-- A line that is one of a zone, with proper counts if the zone is `Normal`. -/
def ProperLine (ulongMax : Nat) (line : Bytes) : Prop :=
  ∃ zone counts, ZoneLine line zone counts ∧
    (zone = ascii "Normal" → ProperCounts ulongMax counts)

/-- A line of a `Normal` zone that has enough. -/
def EnoughLine (line : Bytes) : Prop :=
  ∃ counts, ZoneLine line (ascii "Normal") counts ∧
    VE_MIN_ORDER3_UNITS ≤ order3Units ((fields counts).map decimal)

/-- Whole lines of zones, and enough in one of the zones `Normal`. -/
def ReserveShown (ulongMax : Nat) (content : Bytes) : Prop :=
  ∃ ls, content = print ls ∧ (∀ l ∈ ls, newline ∉ l ∧ l.length < LINE_SIZE) ∧
    (∀ l ∈ ls, ProperLine ulongMax (l ++ [newline])) ∧ ∃ l ∈ ls, EnoughLine (l ++ [newline])

/-! ## 3. Reading the node -/

/-- What came of the open, how long it `took`, and the text that was read. -/
inductive Outcome
  | openFailed (took : Nat)
  | readFailed (took : Nat)
  | read (took : Nat) (text : Bytes)

/-- What a call finds: the time since the clock was read last, `/proc/buddyinfo`, and the node. -/
structure Call where
  waited : Nat
  buddyinfo : Option ProcFile
  outcome : Outcome

/-- What a call did: whether it opened the node, what it returned, and the retry time that a
    refused, failed or incomplete attempt set. -/
structure Attempt where
  now : Nat
  buddyinfo : Option ProcFile
  opened : Bool
  result : Except Int MotionStats
  retry : Option Nat

/-- The clock, `ve_retry_after_ms`, and the calls so far, the latest first. -/
structure Ve where
  clock : Nat
  retryAfterMs : Nat
  attempts : List Attempt

def Ve.start (clock : Nat) : Ve := ⟨clock, 0, []⟩

section

variable (ulongMax : Nat) (scanScene : Bytes → Option MotionStats) (usesVmalloc : Bool)

/-- The statistics in a text, or what `read_stats` returns in their place. -/
def parseStats (text : Bytes) : Except Int MotionStats :=
  match (strstr (ascii "Channal[0]") text).or (strstr (ascii "Channel[0]") text) with
  | none => .error (-2)
  | some p =>
    let end_ := (strstr (ascii "End Channal[0]") p).or (strstr (ascii "End Channel[0]") p)
    match strstr (ascii "Scene:") p with
    | none => .error (-3)
    | some line =>
      -- `line >= end`: of two ends of one text, the later one is not the longer one
      if line.length ≤ (end_.getD []).length then .error (-3)
      else
        match scanScene line with
        | none => .error (-4)
        | some x => .ok x

def readStats (s : Ve) (c : Call) : Ve :=
  let now := s.clock + c.waited
  let refused : Except Int MotionStats := .error (-5)
  let failed (took : Nat) (code : Int) : Ve :=
    let retry := now + took + VE_OPEN_RETRY_MS
    ⟨now + took, retry, ⟨now, c.buddyinfo, true, .error code, some retry⟩ :: s.attempts⟩
  if now < s.retryAfterMs then
    ⟨now, s.retryAfterMs, ⟨now, c.buddyinfo, false, refused, none⟩ :: s.attempts⟩
  else if !usesVmalloc && !veOrder3ReserveOk ulongMax c.buddyinfo then
    let retry := now + VE_PRESSURE_RETRY_MS
    ⟨now, retry, ⟨now, c.buddyinfo, false, refused, some retry⟩ :: s.attempts⟩
  else
    match c.outcome with
    | .openFailed took => failed took (-1)
    | .readFailed took => failed took (-1)
    | .read took text =>
      match parseStats scanScene (cString text) with
      | .error code => failed took code
      | .ok x => ⟨now + took, 0, ⟨now, c.buddyinfo, true, .ok x, none⟩ :: s.attempts⟩

/-- **Opening the node is guarded**: only where the kernel was verified or the guard let it pass, and
    at none of the retry times that earlier calls set, or before it. -/
structure Guarded (attempts : List Attempt) : Prop where
  allowed : ∀ a ∈ attempts, a.opened = true →
    usesVmalloc = true ∨ veOrder3ReserveOk ulongMax a.buddyinfo = true
  waited : attempts.Pairwise fun a earlier =>
    a.opened = true → ∀ t ∈ earlier.retry, t ≤ a.now

end

/-! ## 4. One line -/

theorem scanUnsigned_skipSpace (s : Bytes) : scanUnsigned (skipSpace s) = scanUnsigned s := by
  rw [scanUnsigned, scanUnsigned, skipSpace_skipSpace]

theorem scanString_skipSpace (n : Nat) (s : Bytes) :
    scanString n (skipSpace s) = scanString n s := by
  rw [scanString, scanString, skipSpace_skipSpace]

/-- A literal behind white space. -/
theorem literal_skipSpace {t s r : Bytes} (ht : IsWord t) :
    literal t (skipSpace s) = some r ↔ ∃ b, Blanks b ∧ s = b ++ (t ++ r) := by
  rw [literal_eq_some]
  constructor
  · intro h
    obtain ⟨b, hs, hb⟩ := skipSpace_form s
    exact ⟨b, hb, h ▸ hs⟩
  · rintro ⟨b, hb, rfl⟩
    exact skipSpace_append hb (ht.stops r)

/-- **A line is scanned exactly where it has the form.** -/
theorem scanZone_eq_some {line v r : Bytes} : scanZone line = some (v, r) ↔
    ∃ zone counts, ZoneLine line zone counts ∧ v = zone.take 31 ∧
      r = skipSpace (zone.drop 31 ++ counts) := by
  have hword : IsWord (ascii "zone") := ⟨by decide, by decide +kernel⟩
  simp only [scanZone, scanUnsigned_skipSpace, scanString_skipSpace, Option.bind_eq_bind,
    Option.bind_eq_some_iff, literal_skipSpace hword]
  simp only [literal_eq_some, scanUnsigned_eq_some, scanString_eq_some (by decide : 0 < 31)]
  constructor
  · rintro ⟨_, rfl, _, ⟨a, sign, number, rfl, ha, hsign, hnumber, -⟩, _, rfl, _, ⟨b, hb, rfl⟩,
      ⟨_, _⟩, ⟨c, zone, counts, rfl, hc, hzone, hcounts, rfl, rfl⟩, h⟩
    obtain ⟨rfl, rfl⟩ := Prod.mk.inj (Option.some.inj h)
    exact ⟨zone, counts, .mk ha hsign hnumber hb hc hzone hcounts, rfl, rfl⟩
  · rintro ⟨zone, counts, h, rfl, rfl⟩
    cases h with
    | mk ha hsign hnumber hb hc hzone hcounts =>
      exact ⟨_, rfl, _, ⟨_, _, _, rfl, ha, hsign, hnumber, fun _ h => Option.some.inj h ▸ rfl⟩,
        _, rfl, _, ⟨_, hb, rfl⟩, (_, _), ⟨_, _, _, rfl, hc, hzone, hcounts, rfl, rfl⟩, rfl⟩

/-- **A sum capped on the way is the capped sum.** -/
theorem saturate (u c k : Nat) :
    min 4 (min 4 u + min 4 c * min 4 (2 ^ k)) = min 4 (u + c * 2 ^ k) := by
  match k with
  | 0 =>
    rw [Nat.pow_zero, Nat.min_eq_right (by decide : 1 ≤ 4), Nat.mul_one, Nat.mul_one]
    omega
  | 1 =>
    rw [Nat.pow_one, Nat.min_eq_right (by decide : 2 ≤ 4)]
    omega
  | k + 2 =>
    have hpow : 2 ^ (k + 2) = 4 * 2 ^ k := by rw [Nat.pow_add, Nat.mul_comm]
    have hpos : 0 < 2 ^ k := Nat.two_pow_pos k
    rw [hpow, Nat.min_eq_left (by omega : 4 ≤ 4 * 2 ^ k)]
    cases c with
    | zero =>
      rw [Nat.zero_mul, Nat.min_zero, Nat.zero_mul]
      omega
    | succ c =>
      have hle : 1 * 4 ≤ (c + 1) * (4 * 2 ^ k) := Nat.mul_le_mul (by omega) (by omega)
      omega

/-- The weight doubles until it is at the cap. -/
theorem saturate_weight (k : Nat) :
    (if min 4 (2 ^ k) < 4 then min 4 (2 ^ k) * 2 else min 4 (2 ^ k)) = min 4 (2 ^ (k + 1)) := by
  match k with
  | 0 => rfl
  | 1 => rfl
  | k + 2 =>
    have hpos : 0 < 2 ^ k := Nat.two_pow_pos k
    have hpow : 2 ^ (k + 2) = 4 * 2 ^ k := by rw [Nat.pow_add, Nat.mul_comm]
    rw [Nat.pow_succ 2 (k + 2), hpow, if_neg (by omega)]
    omega

theorem order3Units_concat (counts : List Nat) (c : Nat) :
    order3Units (counts ++ [c]) =
      order3Units counts + if 3 ≤ counts.length then c * 2 ^ (counts.length - 3) else 0 := by
  split
  · next h =>
    rw [order3Units, List.drop_append_of_le_length h, List.zipIdx_append, List.map_append,
      List.sum_append, List.length_drop, order3Units]
    simp
  · next h =>
    rw [order3Units, List.drop_eq_nil_of_le (by simp; omega), order3Units,
      List.drop_eq_nil_of_le (by omega)]
    rfl

/-- What the loop has after some counts. -/
theorem add_foldl (counts : List Nat) : counts.foldl Orders.add .start =
    ⟨min 4 (order3Units counts), min 4 (2 ^ (counts.length - 3)), counts.length⟩ := by
  induction counts using List.reverseRecOn with
  | nil => rfl
  | append_singleton counts c ih =>
    rw [List.foldl_append, ih, List.foldl_cons, List.foldl_nil, order3Units_concat,
      List.length_append, List.length_singleton, Orders.add]
    dsimp only
    split
    · next h =>
      obtain ⟨k, hk⟩ : ∃ k, counts.length = k + 3 := ⟨counts.length - 3, by omega⟩
      have hsat := saturate (order3Units counts) c k
      have hcap : ∀ n, (if VE_MIN_ORDER3_UNITS < n then VE_MIN_ORDER3_UNITS else n) = min 4 n := by
        intro n
        rw [VE_MIN_ORDER3_UNITS]
        split <;> omega
      have hcap' : (if VE_MIN_ORDER3_UNITS ≤ c then VE_MIN_ORDER3_UNITS else c) = min 4 c := by
        rw [VE_MIN_ORDER3_UNITS]
        split <;> omega
      rw [hk, Nat.add_sub_cancel, hcap, hcap', hsat, VE_MIN_ORDER3_UNITS, saturate_weight]
      rfl
    · next h =>
      have hpow : counts.length - 3 = 0 ∧ counts.length + 1 - 3 = 0 := by omega
      rw [hpow.1, hpow.2]
      rfl

theorem stops_digits {q : Bytes} (hq : Stops (fun b => !isSpace b) q) : Stops isDigit q := by
  intro c hc
  cases hdigit : isDigit c with
  | false => rfl
  | true =>
    have hspace : (!isSpace c) = false := hq c hc
    rw [isSpace_of_isDigit hdigit] at hspace
    nomatch hspace

/-- One round of the loop over the counts: the next field. -/
theorem addCounts_word {ulongMax : Nat} {p w q : Bytes} {o : Orders} (hp : skipSpace p = w ++ q)
    (hw : IsWord w) (hq : Stops (fun b => !isSpace b) q) :
    addCounts ulongMax p o =
      if isDecimal w = true ∧ decimal w ≤ ulongMax then addCounts ulongMax q (o.add (decimal w))
      else none := by
  cases w with
  | nil => exact absurd rfl hw.nonempty
  | cons b v =>
    rw [List.cons_append] at hp
    rw [addCounts]
    split
    · next h => rw [h] at hp; nomatch hp
    · next b' q' h =>
      rw [h] at hp
      obtain ⟨rfl, rfl⟩ := List.cons.inj hp
      have hdecimal : isDecimal (b' :: v) = (isDigit b' && v.all isDigit) := rfl
      rw [hdecimal]
      by_cases hb : isDigit b' = true
      · rw [if_pos hb, hb, Bool.true_and]
        by_cases hall : v.all isDigit = true
        · obtain ⟨htake, hdrop⟩ :=
            takeWhile_append_stops (List.all_eq_true.mp hall) (stops_digits hq)
          have hend : q.head?.any (fun c => !isSpace c) = false := by
            rw [Option.any_eq_false]
            exact fun c hc => Bool.eq_false_iff.mpr (Bool.eq_false_iff.mp (hq c hc))
          dsimp only
          rw [htake, hdrop, hend]
          by_cases hmax : ulongMax < decimal (b' :: v)
          · rw [if_pos (.inl hmax), if_neg fun h => Nat.not_le.mpr hmax h.2]
          · rw [if_neg (not_or.mpr ⟨hmax, Bool.false_ne_true⟩), if_pos ⟨hall, Nat.not_lt.mp hmax⟩]
        · obtain ⟨c, e, hdrop⟩ : ∃ c e, v.dropWhile isDigit = c :: e :=
            List.exists_cons_of_ne_nil fun hnil =>
              hall (List.all_eq_true.mpr (List.dropWhile_eq_nil_iff.mp hnil))
          have hc : isSpace c = false := hw.solid c
            (List.mem_cons_of_mem b' ((List.dropWhile_sublist isDigit).subset
              (hdrop ▸ List.mem_cons_self)))
          have hend : ((v ++ q).dropWhile isDigit).head?.any (fun c => !isSpace c) = true := by
            rw [List.dropWhile_append, hdrop]
            simp [hc]
          dsimp only
          rw [hend, if_pos (.inr rfl), if_neg fun h => hall h.1]
      · rw [if_neg hb, if_neg]
        rw [Bool.and_eq_true]
        exact fun h => hb h.1.1

/-- **The loop over the counts**: all fields are numbers that fit, or it is invalid. -/
theorem addCounts_eq_some {ulongMax : Nat} {p : Bytes} {o o' : Orders} :
    addCounts ulongMax p o = some o' ↔
      (∀ w ∈ fields p, isDecimal w = true ∧ decimal w ≤ ulongMax) ∧
        o' = ((fields p).map decimal).foldl Orders.add o := by
  induction hn : p.length using Nat.strong_induction_on generalizing p o with
  | _ n ih =>
    rcases skipSpace_cases p with hp | ⟨w, q, hp, hw, hq⟩
    · have hnil : addCounts ulongMax p o = some o := by
        rw [addCounts]
        split
        · rfl
        · next h => rw [hp] at h; nomatch h
      rw [hnil, ← fields_skipSpace, hp]
      exact ⟨fun h => ⟨nofun, (Option.some.inj h).symm⟩, fun h => congrArg some h.2.symm⟩
    · have hlen : q.length < p.length := by
        have hskip := (List.dropWhile_sublist isSpace (l := p)).length_le
        have hpos := List.length_pos_iff.mpr hw.nonempty
        rw [show p.dropWhile isSpace = w ++ q from hp, List.length_append] at hskip
        omega
      rw [addCounts_word hp hw hq, ← fields_skipSpace, hp, fields_word hw hq,
        List.forall_mem_cons, List.map_cons, List.foldl_cons]
      split
      · next h => rw [ih q.length (hn ▸ hlen) rfl, and_iff_right h]
      · next h => exact ⟨nofun, fun h' => absurd h'.1.1 h⟩

/-- What the loop makes of a zone's counts. -/
theorem addCounts_start {ulongMax : Nat} {counts : Bytes} {o : Orders} :
    addCounts ulongMax (skipSpace counts) .start = some o ∧ ¬ o.order < 4 ↔
      ProperCounts ulongMax counts ∧
        o = ((fields counts).map decimal).foldl Orders.add .start := by
  rw [addCounts_eq_some, fields_skipSpace]
  constructor
  · rintro ⟨⟨hnumbers, rfl⟩, horder⟩
    rw [add_foldl, List.length_map] at horder
    exact ⟨⟨Nat.not_lt.mp horder, hnumbers⟩, rfl⟩
  · rintro ⟨h, rfl⟩
    refine ⟨⟨h.numbers, rfl⟩, ?_⟩
    rw [add_foldl, List.length_map]
    exact Nat.not_lt.mpr h.four

/-- A zone whose name was cut is none of the zones `Normal`. -/
theorem take_eq_normal {zone : Bytes} (h : zone.take 31 = ascii "Normal") :
    zone = ascii "Normal" := by
  have hlen := congrArg List.length h
  rw [List.length_take, show (ascii "Normal").length = 6 from rfl] at hlen
  rwa [List.take_of_length_le (by omega)] at h

/-- A zone is what its line says. -/
theorem ZoneLine.scan {line zone counts : Bytes} (h : ZoneLine line zone counts) :
    scanZone line = some (zone.take 31, skipSpace (zone.drop 31 ++ counts)) :=
  scanZone_eq_some.mpr ⟨zone, counts, h, rfl, rfl⟩

theorem ZoneLine.scan_normal {line counts : Bytes} (h : ZoneLine line (ascii "Normal") counts) :
    scanZone line = some (ascii "Normal", skipSpace counts) :=
  h.scan

/-- The counts of a zone `Normal` are found one way only. -/
theorem ZoneLine.normal_fields {line zone counts counts' : Bytes}
    (h : ZoneLine line (ascii "Normal") counts) (h' : ZoneLine line zone counts') :
    zone.take 31 = ascii "Normal" → zone = ascii "Normal" ∧ fields counts' = fields counts := by
  intro htake
  obtain rfl := take_eq_normal htake
  have hrest := h.scan_normal.symm.trans h'.scan_normal
  rw [← fields_skipSpace counts, (Prod.mk.inj (Option.some.inj hrest)).2, fields_skipSpace]
  exact ⟨rfl, rfl⟩

theorem properLine_normal {ulongMax : Nat} {line counts : Bytes}
    (h : ZoneLine line (ascii "Normal") counts) :
    ProperLine ulongMax line ↔ ProperCounts ulongMax counts := by
  constructor
  · rintro ⟨zone, counts', h', hproper⟩
    have htake := (Prod.mk.inj (Option.some.inj (h'.scan.symm.trans h.scan_normal))).1
    obtain ⟨hzone, hfields⟩ := h.normal_fields h' htake
    obtain ⟨hfour, hnumbers⟩ := hproper hzone
    rw [hfields] at hfour hnumbers
    exact ⟨hfour, hnumbers⟩
  · exact fun hcounts => ⟨_, counts, h, fun _ => hcounts⟩

theorem enoughLine_normal {line counts : Bytes} (h : ZoneLine line (ascii "Normal") counts) :
    EnoughLine line ↔ VE_MIN_ORDER3_UNITS ≤ order3Units ((fields counts).map decimal) := by
  constructor
  · rintro ⟨counts', h', henough⟩
    rwa [(h.normal_fields h' rfl).2] at henough
  · exact fun henough => ⟨counts, h, henough⟩

/-- **A line is accepted exactly where it is proper, and counts exactly where it has enough.** -/
theorem checkLine_eq_some {ulongMax : Nat} {line : Bytes} (hline : newline ∈ line) {enough : Bool} :
    checkLine ulongMax line = some enough ↔
      ProperLine ulongMax line ∧ (enough = true ↔ EnoughLine line) := by
  rw [checkLine, if_pos hline]
  cases hscan : scanZone line with
  | none =>
    refine ⟨nofun, fun ⟨⟨zone, counts, h, _⟩, _⟩ => ?_⟩
    rw [h.scan] at hscan
    nomatch hscan
  | some found =>
    obtain ⟨zone', r⟩ := found
    obtain ⟨zone, counts, hzone, rfl, rfl⟩ := scanZone_eq_some.mp hscan
    dsimp only
    by_cases hnormal : zone = ascii "Normal"
    · subst hnormal
      have htake : (ascii "Normal").take 31 = ascii "Normal" := rfl
      rw [properLine_normal hzone, enoughLine_normal hzone, if_pos htake]
      show (match addCounts ulongMax (skipSpace counts) .start with
        | none => none
        | some o => if o.order < 4 then none else some (decide (VE_MIN_ORDER3_UNITS ≤ o.units))) =
          some enough ↔ _
      constructor
      · intro h
        split at h
        · nomatch h
        · next o ho =>
          split at h
          · nomatch h
          · next horder =>
            obtain ⟨hproper, rfl⟩ := addCounts_start.mp ⟨ho, horder⟩
            rw [add_foldl] at h
            rw [← Option.some.inj h, decide_eq_true_eq, VE_MIN_ORDER3_UNITS]
            refine ⟨hproper, ?_⟩
            dsimp only
            omega
      · rintro ⟨hproper, henough⟩
        obtain ⟨ho, horder⟩ := addCounts_start.mpr ⟨hproper, rfl⟩
        rw [ho]
        dsimp only
        rw [if_neg horder, add_foldl]
        congr 1
        rw [Bool.eq_iff_iff, henough, decide_eq_true_eq, VE_MIN_ORDER3_UNITS]
        dsimp only
        omega
    · have hno : ¬ EnoughLine line := fun ⟨counts', h', _⟩ =>
        have htake := Prod.mk.inj (Option.some.inj (hzone.scan.symm.trans h'.scan_normal))
        hnormal (take_eq_normal htake.1)
      rw [if_neg fun h => hnormal (take_eq_normal h), Option.some.injEq]
      constructor
      · rintro rfl
        exact ⟨⟨zone, counts, hzone, fun h => absurd h hnormal⟩, nofun, fun h => absurd h hno⟩
      · rintro ⟨-, henough⟩
        rw [eq_comm, Bool.eq_false_iff]
        exact fun h => hno (henough.mp h)

/-! ## 5. The file -/

/-- The loop over lines that end. -/
theorem checkLines_iff {ulongMax : Nat} {ls : List Bytes} (hls : ∀ l ∈ ls, newline ∈ l)
    {reserveOk : Bool} : checkLines ulongMax ls reserveOk = true ↔
      (∀ l ∈ ls, ProperLine ulongMax l) ∧ (reserveOk = true ∨ ∃ l ∈ ls, EnoughLine l) := by
  induction ls generalizing reserveOk with
  | nil => simp [checkLines]
  | cons l ls ih =>
    obtain ⟨hl, hls⟩ := List.forall_mem_cons.mp hls
    rw [checkLines, List.forall_mem_cons]
    cases hcheck : checkLine ulongMax l with
    | none =>
      refine ⟨nofun, fun ⟨⟨hproper, _⟩, _⟩ => ?_⟩
      obtain ⟨enough, henough⟩ : ∃ enough : Bool, enough = true ↔ EnoughLine l := by
        by_cases h : EnoughLine l
        · exact ⟨true, iff_of_true rfl h⟩
        · exact ⟨false, iff_of_false Bool.false_ne_true h⟩
      rw [(checkLine_eq_some hl).mpr ⟨hproper, henough⟩] at hcheck
      nomatch hcheck
    | some enough =>
      obtain ⟨hproper, henough⟩ := (checkLine_eq_some hl).mp hcheck
      show checkLines ulongMax ls (reserveOk || enough) = true ↔ _
      rw [ih hls, Bool.or_eq_true, henough]
      simp only [List.mem_cons, exists_eq_or_imp, hproper, true_and, or_assoc]

/-- A piece without its newline is invalid. -/
theorem checkLines_open {ulongMax : Nat} {ls : List Bytes} {reserveOk : Bool}
    (h : checkLines ulongMax ls reserveOk = true) : ∀ l ∈ ls, newline ∈ l := by
  induction ls generalizing reserveOk with
  | nil => exact nofun
  | cons l ls ih =>
    rw [checkLines] at h
    split at h
    · nomatch h
    · next enough hcheck =>
      refine List.forall_mem_cons.mpr ⟨?_, ih h⟩
      by_cases hl : newline ∈ l
      · exact hl
      · rw [checkLine, if_neg hl] at hcheck
        nomatch hcheck

theorem cString_of_zero_notMem {s : Bytes} (h : 0 ∉ s) : cString s = s := by
  rw [cString, List.takeWhile_eq_self_iff]
  intro b hb
  rw [bne_iff_ne]
  exact fun hzero => h (hzero ▸ hb)

theorem cString_pieces {content : Bytes} (h : 0 ∉ content) :
    (pieces LINE_SIZE content).map cString = pieces LINE_SIZE content := by
  refine (List.map_congr_left fun p hp => ?_).trans (List.map_id _)
  refine cString_of_zero_notMem fun hzero => h ?_
  rw [← pieces_flatten LINE_SIZE content]
  exact List.mem_flatten_of_mem hp hzero

/-- **The guard is exact.** -/
theorem veOrder3ReserveOk_iff (ulongMax : Nat) {content : Bytes} (h : 0 ∉ content) :
    veOrder3ReserveOk ulongMax (some ⟨content, false⟩) = true ↔ ReserveShown ulongMax content := by
  have hlines {ls : List Bytes} (hls : ∀ l ∈ ls, newline ∉ l ∧ l.length < LINE_SIZE) :
      checkLines ulongMax (pieces LINE_SIZE (print ls)) false = true ↔
        (∀ l ∈ ls, ProperLine ulongMax (l ++ [newline])) ∧
          ∃ l ∈ ls, EnoughLine (l ++ [newline]) := by
    have hends : ∀ l ∈ ls.map (· ++ [newline]), newline ∈ l := by
      rw [List.forall_mem_map]
      exact fun l _ => List.mem_append_right l (List.mem_singleton_self newline)
    rw [pieces_print hls, checkLines_iff hends, List.forall_mem_map]
    simp only [Bool.false_eq_true, false_or, List.mem_map, exists_exists_and_eq_and]
  rw [veOrder3ReserveOk, cString_pieces h, Bool.not_false, Bool.true_and]
  constructor
  · intro hcheck
    obtain ⟨ls, rfl, hls⟩ := (pieces_closed_iff (by decide) content).mp (checkLines_open hcheck)
    exact ⟨ls, rfl, hls, (hlines hls).mp hcheck⟩
  · rintro ⟨ls, rfl, hls, h⟩
    exact (hlines hls).mpr h

/-! ## 6. Runs -/

section

variable {ulongMax : Nat} {scanScene : Bytes → Option MotionStats} {usesVmalloc : Bool}

/-- What calls keep: every retry time is over, or still waited for. -/
structure Waiting (ulongMax : Nat) (usesVmalloc : Bool) (s : Ve) : Prop where
  guarded : Guarded ulongMax usesVmalloc s.attempts
  times : ∀ a ∈ s.attempts, ∀ t ∈ a.retry, t ≤ s.clock ∨ t ≤ s.retryAfterMs

/-- A call that does not open the node. -/
theorem Waiting.closed {s s' : Ve} (h : Waiting ulongMax usesVmalloc s) {a : Attempt}
    (hopened : a.opened = false) (hattempts : s'.attempts = a :: s.attempts)
    (hclock : s.clock ≤ s'.clock) (hretry : s.retryAfterMs ≤ s'.retryAfterMs ∨
      s.retryAfterMs ≤ s'.clock) (ha : ∀ t ∈ a.retry, t ≤ s'.retryAfterMs) :
    Waiting ulongMax usesVmalloc s' := by
  constructor
  · rw [hattempts]
    constructor
    · exact List.forall_mem_cons.mpr
        ⟨fun h => absurd (h.symm.trans hopened) (by decide), h.guarded.allowed⟩
    · exact List.pairwise_cons.mpr
        ⟨fun _ _ h => absurd (h.symm.trans hopened) (by decide), h.guarded.waited⟩
  · rw [hattempts, List.forall_mem_cons]
    refine ⟨fun t ht => .inr (ha t ht), fun b hb t ht => ?_⟩
    have := h.times b hb t ht
    omega

/-- A call that opens the node. -/
theorem Waiting.opened {s s' : Ve} (h : Waiting ulongMax usesVmalloc s) {a : Attempt}
    (hattempts : s'.attempts = a :: s.attempts) (hnow : s.clock ≤ a.now) (hclock : a.now ≤ s'.clock)
    (hretry : s.retryAfterMs ≤ a.now)
    (hallowed : usesVmalloc = true ∨ veOrder3ReserveOk ulongMax a.buddyinfo = true)
    (ha : ∀ t ∈ a.retry, t ≤ s'.retryAfterMs) : Waiting ulongMax usesVmalloc s' := by
  have hearlier : ∀ b ∈ s.attempts, ∀ t ∈ b.retry, t ≤ a.now := fun b hb t ht => by
    have := h.times b hb t ht
    omega
  constructor
  · rw [hattempts]
    exact ⟨List.forall_mem_cons.mpr ⟨fun _ => hallowed, h.guarded.allowed⟩,
      List.pairwise_cons.mpr ⟨fun b hb _ => hearlier b hb, h.guarded.waited⟩⟩
  · rw [hattempts, List.forall_mem_cons]
    exact ⟨fun t ht => .inr (ha t ht), fun b hb t ht => .inl ((hearlier b hb t ht).trans hclock)⟩

/-- **A call keeps the guard.** -/
theorem readStats_waiting (s : Ve) (c : Call) (h : Waiting ulongMax usesVmalloc s) :
    Waiting ulongMax usesVmalloc (readStats ulongMax scanScene usesVmalloc s c) := by
  rw [readStats]
  dsimp only
  split
  · exact h.closed rfl rfl (Nat.le_add_right _ _) (.inl le_rfl) nofun
  · next hnow =>
    have hnow := Nat.not_lt.mp hnow
    split
    · refine h.closed rfl rfl (Nat.le_add_right _ _) (.inr hnow) fun t ht => ?_
      exact (Option.some.inj ht).ge
    · next hguard =>
      have hallowed : usesVmalloc = true ∨ veOrder3ReserveOk ulongMax c.buddyinfo = true := by
        simpa [or_iff_not_imp_left] using hguard
      have hfailed (took : Nat) (code : Int) : Waiting ulongMax usesVmalloc
          ⟨s.clock + c.waited + took, s.clock + c.waited + took + VE_OPEN_RETRY_MS,
            ⟨s.clock + c.waited, c.buddyinfo, true, .error code,
              some (s.clock + c.waited + took + VE_OPEN_RETRY_MS)⟩ :: s.attempts⟩ :=
        h.opened rfl (Nat.le_add_right _ _) (Nat.le_add_right _ _) hnow hallowed
          fun t ht => (Option.some.inj ht).ge
      split
      · exact hfailed _ _
      · exact hfailed _ _
      · split
        · exact hfailed _ _
        · exact h.opened rfl (Nat.le_add_right _ _) (Nat.le_add_right _ _) hnow hallowed nofun

theorem start_waiting (clock : Nat) : Waiting ulongMax usesVmalloc (Ve.start clock) :=
  ⟨⟨nofun, .nil⟩, nofun⟩

end

/-- **The VE node is opened behind its guard.** The guard is exact for every `/proc/buddyinfo` without
    zero bytes, and closed where it cannot be read; over every list of calls no open goes past it or
    comes before a retry time that was set. -/
theorem ve_open_guarded (ulongMax : Nat) (scanScene : Bytes → Option MotionStats)
    (usesVmalloc : Bool) (buddyinfo : Option ProcFile) (hzero : ∀ f ∈ buddyinfo, 0 ∉ f.content)
    (clock : Nat) (calls : List Call) :
    (veOrder3ReserveOk ulongMax buddyinfo = true ↔
      ∃ content, buddyinfo = some ⟨content, false⟩ ∧ ReserveShown ulongMax content) ∧
      Guarded ulongMax usesVmalloc
        (run (readStats ulongMax scanScene usesVmalloc) (.start clock) calls).attempts := by
  refine ⟨⟨fun h => ?_, ?_⟩, (run_inv readStats_waiting (start_waiting clock) calls).guarded⟩
  · match buddyinfo with
    | some ⟨content, false⟩ =>
      exact ⟨content, rfl, (veOrder3ReserveOk_iff ulongMax (hzero _ rfl)).mp h⟩
  · rintro ⟨content, rfl, h⟩
    exact (veOrder3ReserveOk_iff ulongMax (hzero _ rfl)).mpr h

/-- One zone with four blocks of order 3; the first call is refused, the second one opens. -/
def sampleBuddyinfo : ProcFile :=
  ⟨ascii "Node 0, zone   Normal      9      9      9      4 \n", false⟩

theorem sample_guarded :
    (veOrder3ReserveOk (2 ^ 32 - 1) (some sampleBuddyinfo) = true ↔
      ∃ content, some sampleBuddyinfo = some ⟨content, false⟩ ∧
        ReserveShown (2 ^ 32 - 1) content) ∧
      Guarded (2 ^ 32 - 1) false
        (run (readStats (2 ^ 32 - 1) (fun _ => none) false) (.start 0)
          [⟨100, none, .readFailed 0⟩, ⟨500, some sampleBuddyinfo, .readFailed 20⟩]).attempts :=
  ve_open_guarded (2 ^ 32 - 1) (fun _ => none) false (some sampleBuddyinfo)
    (fun _ hf => Option.some.inj hf ▸ (by decide)) 0
    [⟨100, none, .readFailed 0⟩, ⟨500, some sampleBuddyinfo, .readFailed 20⟩]

end YiHack.Motion
