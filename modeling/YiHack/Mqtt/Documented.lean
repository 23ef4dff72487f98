/-
  File:      YiHack/Mqtt/Documented.lean
  Subject:   Which settings `validate_param` accepts, against those that the table documents.

  * `Documented` -- a file, a key and a value that a row of the table is for;
  * `AsDocumented` -- what is asked of `validate_param` and `extract_param`;
  * `strtol_iff`, `accepts_iff_takes` -- what the checks take, a number up to what it ends with;
  * `behind_rows` -- the seven keys that nine characters lead to another row;
  * **`validateParam_asDocumented_iff`** -- exactly where they lead to the own row and a number is
    nothing but that, or the value is of none of the types in question;
  * `notAsDocumented` -- a key of no row, where the lookup runs off the table.
-/
import YiHack.Mqtt.Message
import Mathlib.Data.List.Nodup

namespace YiHack.Mqtt

open General

/-! ## 1. The documented settings -/

/-- A decimal integer, all of the text: digits behind a sign or none. -/
def IsInteger (value : Bytes) (n : Int) : Prop :=
  ∃ digits, isDecimal digits = true ∧
    (value = digits ∧ n = decimal digits ∨ value = 43 :: digits ∧ n = decimal digits ∨
      value = 45 :: digits ∧ n = -decimal digits)

/-- The whole value is of the type of the row. -/
def Param.Documents (p : Param) (value : Bytes) : Prop :=
  match p.kind with
  | .bool => value ∈ [ascii "yes", ascii "no", ascii "on", ascii "off"]
  | .int => ∃ low high n, IsInteger (p.options.getD 0 []) low ∧
      IsInteger (p.options.getD 1 []) high ∧ IsInteger value n ∧ low ≤ n ∧ n ≤ high
  | .string => value.length < PARAM_SIZE
  | .enum => value ∈ p.options

/-- The row is for this file and this key. -/
def Param.IsFor (p : Param) (file key : Bytes) : Prop :=
  strcasecmp key p.key = true ∧ strcasecmp file p.file = true

def Documented (file key value : Bytes) : Prop :=
  ∃ p ∈ configParams, p.IsFor file key ∧ p.Documents value

/-- The row that `validate_param` checks the value against. -/
def checkedRow (key : Bytes) : Option Param := configParams.find? fun p => strncasecmp key p.key 9

/-- The row that `extract_param` copies from. -/
def extractedRow (key : Bytes) : Option Param := configParams.find? fun p => strcasecmp key p.key

/-- **The settings are those of the table**: `validate_param` does not run off it, it accepts what is
    documented and nothing else, and where `extract_param` succeeds too, it was by the same row. -/
structure AsDocumented (file key value : Bytes) : Prop where
  ends : ∃ b, validateParam file key value = some b
  accepts : validateParam file key value = some true ↔ Documented file key value
  sameRow : validateParam file key value = some true →
    ∀ command, extractParam file key = some command → extractedRow key = checkedRow key

/-- The value begins, behind white space, with a decimal integer that ends where its digits do. -/
def Begins (value : Bytes) (n : Int) : Prop :=
  ∃ blanks number rest, value = blanks ++ (number ++ rest) ∧ (∀ b ∈ blanks, isSpace b = true) ∧
    IsInteger number n ∧ ∀ b ∈ rest.head?, isDigit b = false

/-- The value is of the type of the row, up to what a number ends with. -/
def Param.Takes (p : Param) (value : Bytes) : Prop :=
  match p.kind with
  | .bool => value ∈ [ascii "yes", ascii "no", ascii "on", ascii "off"]
  | .int => ∃ low high n, IsInteger (p.options.getD 0 []) low ∧
      IsInteger (p.options.getD 1 []) high ∧ Begins value n ∧ low ≤ n ∧ n ≤ high
  | .string => value.length < PARAM_SIZE
  | .enum => value ∈ p.options

/-- A decimal integer in a range. -/
def Between (low high : Int) (value : Bytes) : Prop := ∃ n, IsInteger value n ∧ low ≤ n ∧ n ≤ high

/-- The keys of `system` whose first nine characters lead to the row of another key, and the values
    that are of the type of either row. -/
def behind : List (Bytes × (Bytes → Prop)) :=
  [(ascii "RTSP_AUDIO_NR_LEVEL", fun value =>
      value ∈ [ascii "no", ascii "pcm", ascii "alaw", ascii "ulaw", ascii "aac"] ∨
        Between 0 30 value),
    (ascii "SNAPSHOT_LOW", (· ∈ [ascii "yes", ascii "no", ascii "on", ascii "off"])),
    (ascii "TIMELAPSE_FTP", (· ∈ [ascii "yes", ascii "no", ascii "on", ascii "off"])),
    (ascii "TIMELAPSE_FTP_SAME_NAME", (· ∈ [ascii "yes", ascii "no", ascii "on", ascii "off"])),
    (ascii "TIMELAPSE_DT", fun value =>
      value ∈ [ascii "yes", ascii "no", ascii "on", ascii "off"] ∨ Between 1 1440 value),
    (ascii "TIMELAPSE_VDT", fun value => value.length < PARAM_SIZE),
    (ascii "STATIC_DNS2", fun value => value.length < PARAM_SIZE)]

/-- **The condition**: the first nine characters of the key lead to a row. If that is the row for the
    file and the key, a value that begins with a number in range has no other characters in it. If
    no row is for the file and the key, it is one of another file, or the value is not of its type.
    And for the keys that are behind another one, the value is of the type of neither row. -/
structure OwnRow (file key value : Bytes) : Prop where
  found : ∃ q, checkedRow key = some q
  whole : ∀ q, checkedRow key = some q → q.IsFor file key → q.kind = .int → q.Takes value →
    ∃ n, IsInteger value n
  foreign : ∀ q, checkedRow key = some q → (∀ p ∈ configParams, ¬ p.IsFor file key) →
    strcasecmp file q.file = true → ¬ q.Takes value
  behind : ∀ e ∈ behind, strcasecmp file (ascii "system") = true → strcasecmp key e.1 = true →
    ¬ e.2 value

/-! ## 2. Numbers -/

/-- A digit is not white space and no sign. -/
theorem digit_head {b : UInt8} (hb : isDigit b = true) : isSpace b = false ∧ b ≠ 45 ∧ b ≠ 43 := by
  simp only [isDigit, Bool.and_eq_true, decide_eq_true_eq] at hb
  refine ⟨?_, ?_, ?_⟩
  · simp only [isSpace, Bool.or_eq_false_iff, Bool.and_eq_false_iff, beq_eq_false_iff_ne,
      decide_eq_false_iff_not]
    grind
  · grind
  · grind

/-- Digits are all taken. -/
theorem takeWhile_digits {digits rest : Bytes} (h : isDecimal digits = true)
    (hrest : ∀ b ∈ rest.head?, isDigit b = false) :
    (digits ++ rest).takeWhile isDigit = digits ∧ digits.isEmpty = false := by
  simp only [isDecimal, Bool.and_eq_true, Bool.not_eq_true'] at h
  have hend : rest.takeWhile isDigit = [] := by
    cases rest with
    | nil => rfl
    | cons b rest => exact List.takeWhile_cons_of_neg (by rw [hrest b rfl]; exact Bool.false_ne_true)
  rw [List.takeWhile_append_of_pos (List.all_eq_true.mp h.2), hend, List.append_nil]
  exact ⟨rfl, h.1⟩

theorem isDecimal_takeWhile {s : Bytes} (h : (s.takeWhile isDigit).isEmpty = false) :
    isDecimal (s.takeWhile isDigit) = true := by
  rw [isDecimal, h]
  exact List.all_takeWhile

theorem head_dropWhile (p : UInt8 → Bool) (s : Bytes) : ∀ b ∈ (s.dropWhile p).head?, p b = false := by
  intro b hb
  have hnot := List.head?_dropWhile_not p s
  rw [hb] at hnot
  exact hnot

/-- White space in front is skipped. -/
theorem strtol_blanks {blanks : Bytes} (h : ∀ b ∈ blanks, isSpace b = true) (s : Bytes) :
    Mqtt.strtol (blanks ++ s) = Mqtt.strtol s := by
  simp only [Mqtt.strtol, List.dropWhile_append_of_pos h]

/-- `strtol` of what begins with a decimal integer. -/
theorem IsInteger.strtol_append {number rest : Bytes} {n : Int} (h : IsInteger number n)
    (hrest : ∀ b ∈ rest.head?, isDigit b = false) : Mqtt.strtol (number ++ rest) = some n := by
  obtain ⟨digits, hdigits, hnumber⟩ := h
  obtain ⟨htake, hne⟩ := takeWhile_digits hdigits hrest
  rcases hnumber with ⟨rfl, rfl⟩ | ⟨rfl, rfl⟩ | ⟨rfl, rfl⟩
  · cases number with
    | nil => nomatch hne
    | cons b bs =>
      have hb : isDigit b = true := by
        simp only [isDecimal, List.all_cons, Bool.and_eq_true] at hdigits
        exact hdigits.2.1
      obtain ⟨hspace, hminus, hplus⟩ := digit_head hb
      have hskip : (b :: bs ++ rest).dropWhile isSpace = b :: bs ++ rest :=
        List.dropWhile_cons_of_neg (by simp [hspace])
      have hhead : (b :: bs ++ rest).head? = some b := rfl
      simp only [Mqtt.strtol, hskip, hhead, Option.some.injEq, hminus, hplus, or_self, if_false,
        htake, hne, Bool.false_eq_true]
  · have hskip : (43 :: (digits ++ rest)).dropWhile isSpace = 43 :: (digits ++ rest) :=
      List.dropWhile_cons_of_neg (by decide)
    simp [Mqtt.strtol, hskip, htake, hne]
  · have hskip : (45 :: (digits ++ rest)).dropWhile isSpace = 45 :: (digits ++ rest) :=
      List.dropWhile_cons_of_neg (by decide)
    simp [Mqtt.strtol, hskip, htake, hne]

/-- **`strtol` of a decimal integer.** -/
theorem IsInteger.strtol {value : Bytes} {n : Int} (h : IsInteger value n) :
    strtol value = some n := by
  have happend : Mqtt.strtol (value ++ []) = some n := h.strtol_append nofun
  rwa [List.append_nil] at happend

/-- **What `strtol` finds**, and where it finds nothing. -/
theorem strtol_iff {value : Bytes} {n : Int} : strtol value = some n ↔ Begins value n := by
  constructor
  · intro h
    have hsplit : value = value.takeWhile isSpace ++ value.dropWhile isSpace :=
      List.takeWhile_append_dropWhile.symm
    have hblanks : ∀ b ∈ value.takeWhile isSpace, isSpace b = true :=
      fun b hb => List.mem_takeWhile_imp hb
    simp only [Mqtt.strtol] at h
    generalize value.dropWhile isSpace = t at h hsplit
    -- the digits are behind a sign, or begin at once
    generalize hsigned : (if t.head? = some 45 ∨ t.head? = some 43 then t.tail else t) = s at h
    split at h
    · nomatch h
    · next hne =>
      have hn := Option.some.inj h
      have hs : s = s.takeWhile isDigit ++ s.dropWhile isDigit :=
        List.takeWhile_append_dropWhile.symm
      have hdecimal := isDecimal_takeWhile (Bool.eq_false_iff.mpr hne)
      have hrest := head_dropWhile isDigit s
      generalize s.takeWhile isDigit = digits at hn hs hdecimal
      generalize s.dropWhile isDigit = rest at hs hrest
      rw [hs] at hsigned
      cases t with
      | nil =>
        simp only [List.head?_nil, reduceCtorEq, or_self, if_false] at hsigned hn
        exact ⟨_, digits, rest, hsplit.trans (by rw [hsigned]), hblanks,
          ⟨digits, hdecimal, .inl ⟨rfl, hn.symm⟩⟩, hrest⟩
      | cons b t =>
        simp only [List.head?_cons, Option.some.injEq, List.tail_cons] at hsigned hn
        by_cases hminus : b = 45
        · simp only [hminus, true_or, if_true] at hsigned hn
          refine ⟨_, 45 :: digits, rest, hsplit.trans (by rw [hsigned, hminus]; rfl), hblanks, ?_,
            hrest⟩
          exact ⟨digits, hdecimal, .inr (.inr ⟨rfl, hn.symm⟩)⟩
        · by_cases hplus : b = 43
          · simp only [hplus, or_true, if_true] at hsigned hn
            refine ⟨_, 43 :: digits, rest, hsplit.trans (by rw [hsigned, hplus]; rfl), hblanks, ?_,
              hrest⟩
            exact ⟨digits, hdecimal, .inr (.inl ⟨rfl, hn.symm⟩)⟩
          · simp only [hminus, hplus, or_self, if_false] at hsigned hn
            exact ⟨_, digits, rest, hsplit.trans (by rw [hsigned]), hblanks,
              ⟨digits, hdecimal, .inl ⟨rfl, hn.symm⟩⟩, hrest⟩
  · intro h
    obtain ⟨blanks, number, rest, rfl, hblanks, hnumber, hrest⟩ := h
    rw [strtol_blanks hblanks]
    exact hnumber.strtol_append hrest

theorem IsInteger.unique {value : Bytes} {m n : Int} (hm : IsInteger value m)
    (hn : IsInteger value n) : m = n :=
  Option.some.inj (hm.strtol.symm.trans hn.strtol)

theorem isInteger_of_isDecimal {digits : Bytes} (h : isDecimal digits = true) :
    IsInteger digits (decimal digits) :=
  ⟨digits, h, .inl ⟨rfl, rfl⟩⟩

/-! ## 3. The table -/

/-- The bounds of a number are numbers. -/
theorem row_bounds : ∀ p ∈ configParams, p.kind = .int →
    isDecimal (p.options.getD 0 []) = true ∧ isDecimal (p.options.getD 1 []) = true :=
  of_spelledRows
    (P := fun ps => ∀ p ∈ ps, p.kind = .int →
      isDecimal (p.options.getD 0 []) = true ∧ isDecimal (p.options.getD 1 []) = true)
    (by repeat constructor) (by decide)

/-- No two rows have one key. -/
theorem row_unique : ∀ p ∈ configParams, ∀ q ∈ configParams,
    strcasecmp p.key q.key = true → p = q := by
  have hkeys : (configParams.map fun p => p.key.map lower).Nodup :=
    of_spelledRows (P := fun ps => (ps.map fun p => p.key.map lower).Nodup)
      (by repeat constructor) (by decide)
  exact fun p hp q hq h => List.inj_on_of_nodup_map hkeys hp hq (beq_iff_eq.mp h)

/-! ## 4. The lookups -/

variable {file key value : Bytes}

/-- **What the checks of a row accept.** -/
theorem accepts_iff_takes {p : Param} (hp : p ∈ configParams) :
    p.accepts value = true ↔ p.Takes value := by
  rw [Param.accepts, Param.Takes]
  cases hkind : p.kind with
  | bool => simp [or_assoc]
  | string => simp
  | enum => simp
  | int =>
    obtain ⟨hlow, hhigh⟩ := row_bounds p hp hkind
    have hlow := isInteger_of_isDecimal hlow
    have hhigh := isInteger_of_isDecimal hhigh
    simp only [hlow.strtol, hhigh.strtol]
    constructor
    · intro h
      split at h
      · next low high n hl hh hn =>
        obtain rfl := Option.some.inj hl
        obtain rfl := Option.some.inj hh
        exact ⟨_, _, n, hlow, hhigh, strtol_iff.mp hn, of_decide_eq_true h⟩
      · nomatch h
    · intro h
      obtain ⟨low, high, n, hlow', hhigh', hn, hle⟩ := h
      obtain rfl := hlow.unique hlow'
      obtain rfl := hhigh.unique hhigh'
      rw [strtol_iff.mpr hn]
      exact decide_eq_true hle

/-- **A value of the type of a row is documented, if a number is nothing but that.** -/
theorem takes_iff_documents {p : Param}
    (hwhole : p.kind = .int → p.Takes value → ∃ n, IsInteger value n) :
    p.Takes value ↔ p.Documents value := by
  rw [Param.Takes] at hwhole ⊢
  rw [Param.Documents]
  cases hkind : p.kind with
  | bool => exact Iff.rfl
  | string => exact Iff.rfl
  | enum => exact Iff.rfl
  | int =>
    simp only [hkind] at hwhole
    constructor
    · intro h
      obtain ⟨n, hn⟩ := hwhole trivial h
      obtain ⟨low, high, m, hlow, hhigh, hm, hle⟩ := h
      obtain rfl := Option.some.inj (hn.strtol.symm.trans (strtol_iff.mpr hm))
      exact ⟨low, high, n, hlow, hhigh, hn, hle⟩
    · intro h
      obtain ⟨low, high, n, hlow, hhigh, hn, hle⟩ := h
      exact ⟨low, high, n, hlow, hhigh, strtol_iff.mp hn.strtol, hle⟩

theorem validateParam_eq : validateParam file key value =
    (checkedRow key).map fun q => strcasecmp file q.file && q.accepts value := by
  rw [validateParam, checkedRow]
  split <;> simp_all

/-- The value is accepted by the row that is found, if that is one of this file. -/
theorem validateParam_iff_takes {q : Param} (hq : checkedRow key = some q) :
    validateParam file key value = some true ↔ strcasecmp file q.file = true ∧ q.Takes value := by
  rw [validateParam_eq, hq, ← accepts_iff_takes (List.mem_of_find?_eq_some hq)]
  simp

/-- The row for a key is the one that is copied from. -/
theorem extractedRow_of_isFor {p : Param} (hp : p ∈ configParams) (h : p.IsFor file key) :
    extractedRow key = some p := by
  cases hrow : extractedRow key with
  | none =>
    have hno := List.find?_eq_none.mp hrow p hp
    exact absurd h.1 hno
  | some q =>
    have hq := List.find?_some hrow
    rw [row_unique q (List.mem_of_find?_eq_some hrow) p hp (strcasecmp_trans hq h.1)]

/-- `extract_param` succeeds where a row is for the file and the key. -/
theorem extractParam_isSome {command : Bytes} (h : extractParam file key = some command) :
    ∃ p ∈ configParams, p.IsFor file key := by
  rw [extractParam] at h
  split at h
  · nomatch h
  · next p hp =>
    have hkey := List.find?_some hp
    split at h
    · next hfile => exact ⟨p, List.mem_of_find?_eq_some hp, hkey, hfile⟩
    · nomatch h

theorem extractParam_of_isFor {p : Param} (hp : p ∈ configParams) (h : p.IsFor file key) :
    extractParam file key = some p.command := by
  have hrow := extractedRow_of_isFor hp h
  rw [extractedRow] at hrow
  rw [extractParam, hrow]
  exact if_pos h.2

/-- One row is for a file and a key at most. -/
theorem isFor_unique {p q : Param} (hp : p ∈ configParams) (hpf : p.IsFor file key)
    (hq : q ∈ configParams) (hqf : q.IsFor file key) : p = q :=
  Option.some.inj ((extractedRow_of_isFor hp hpf).symm.trans (extractedRow_of_isFor hq hqf))

theorem checkedRow_congr {key key' : Bytes} (h : strcasecmp key key' = true) :
    checkedRow key = checkedRow key' := by
  simp only [checkedRow, strncasecmp_congr h]

/-- A key that leads to its own row, or is behind another one. -/
theorem own_or_behind : ∀ p ∈ configParams, checkedRow p.key = some p ∨
    p.file = ascii "system" ∧ p.key ∈ behind.map Prod.fst :=
  of_spelledRows
    (P := fun ps => ∀ p ∈ ps, (ps.find? fun q => strncasecmp p.key q.key 9) = some p ∨
      p.file = ascii "system" ∧ p.key ∈ behind.map Prod.fst)
    (by repeat constructor) (by decide +kernel)

/-- Integers between two bounds that are written out. -/
theorem between_iff {low high : Bytes} {m n : Int} (hlow : IsInteger low m) (hhigh : IsInteger high n) :
    (∃ l h k, IsInteger low l ∧ IsInteger high h ∧ IsInteger value k ∧ l ≤ k ∧ k ≤ h) ↔
      Between m n value := by
  constructor
  · intro h
    obtain ⟨l, h, k, hl, hh, hk, hle⟩ := h
    obtain rfl := hlow.unique hl
    obtain rfl := hhigh.unique hh
    exact ⟨k, hk, hle⟩
  · intro h
    obtain ⟨k, hk, hle⟩ := h
    exact ⟨m, n, k, hlow, hhigh, hk, hle⟩

/-- A key behind another one: its own row, the row that is found, and what either takes. -/
structure Behind (e : Bytes × (Bytes → Prop)) (p q : Param) : Prop where
  own : p ∈ configParams
  file : p.file = ascii "system"
  key : p.key = e.1
  found : checkedRow e.1 = some q
  sameFile : q.file = ascii "system"
  other : p ≠ q
  either : ∀ value, q.Takes value ∨ p.Documents value ↔ e.2 value

theorem behind_rows : ∀ e ∈ behind, ∃ p q, Behind e p q := by
  have hwords : ∀ value ∈ [ascii "yes", ascii "no", ascii "on", ascii "off"],
      value.length < PARAM_SIZE := by decide
  have hrange : ∀ {low high : Bytes}, isDecimal low = true → isDecimal high = true →
      ∀ value, (∃ l h k, IsInteger low l ∧ IsInteger high h ∧ IsInteger value k ∧ l ≤ k ∧ k ≤ h) ↔
        Between (decimal low) (decimal high) value :=
    fun hlow hhigh _ => between_iff (isInteger_of_isDecimal hlow) (isInteger_of_isDecimal hhigh)
  have hbool : ∀ key front : String, row "system" key .bool [] "" ∈ configParams →
      checkedRow (ascii key) = some (row "system" front .bool [] "") →
      row "system" key .bool [] "" ≠ row "system" front .bool [] "" → ∃ p q, Behind
        (ascii key, (· ∈ [ascii "yes", ascii "no", ascii "on", ascii "off"])) p q :=
    fun _ _ hown hfound hne =>
      ⟨_, _, hown, rfl, rfl, hfound, rfl, hne, fun _ => or_self_iff⟩
  have hrtsp : row "system" "RTSP_AUDIO_NR_LEVEL" .int ["0", "30"] "" ∈ configParams ∧
      checkedRow (ascii "RTSP_AUDIO_NR_LEVEL") =
        some (row "system" "RTSP_AUDIO" .enum ["no", "pcm", "alaw", "ulaw", "aac"] "") := by
    decide
  have htimelapse : row "system" "TIMELAPSE_DT" .int ["1", "1440"] "" ∈ configParams ∧
      checkedRow (ascii "TIMELAPSE_DT") = some (row "system" "TIMELAPSE" .bool [] "") := by
    decide
  have hvideo : row "system" "TIMELAPSE_VDT" .string ["1", "1440"] "" ∈ configParams ∧
      checkedRow (ascii "TIMELAPSE_VDT") = some (row "system" "TIMELAPSE" .bool [] "") := by
    decide
  have hdns : row "system" "STATIC_DNS2" .string [] "" ∈ configParams ∧
      checkedRow (ascii "STATIC_DNS2") = some (row "system" "STATIC_DNS1" .string [] "") := by
    decide
  simp only [behind, List.forall_mem_cons]
  refine ⟨?_, ?_, ?_, ?_, ?_, ?_, ?_, fun _ he => absurd he List.not_mem_nil⟩
  · exact ⟨_, _, hrtsp.1, rfl, rfl, hrtsp.2, rfl, by decide, fun value =>
      or_congr_right (hrange (by decide) (by decide) value)⟩
  · exact hbool "SNAPSHOT_LOW" "SNAPSHOT_VIDEO" (by decide) (by decide) (by decide)
  · exact hbool "TIMELAPSE_FTP" "TIMELAPSE" (by decide) (by decide) (by decide)
  · exact hbool "TIMELAPSE_FTP_SAME_NAME" "TIMELAPSE" (by decide) (by decide)
      (by decide)
  · exact ⟨_, _, htimelapse.1, rfl, rfl, htimelapse.2, rfl, by decide, fun value =>
      or_congr_right (hrange (by decide) (by decide) value)⟩
  · exact ⟨_, _, hvideo.1, rfl, rfl, hvideo.2, rfl, by decide, fun value =>
      or_iff_right_of_imp (hwords value)⟩
  · exact ⟨_, _, hdns.1, rfl, rfl, hdns.2, rfl, by decide, fun _ => or_self_iff⟩

/-- Where another row is found, it does not accept, and the own row does not document. -/
theorem AsDocumented.others (h : AsDocumented file key value) {q : Param}
    (hq : checkedRow key = some q) (hno : ¬ q.IsFor file key) :
    ¬ (strcasecmp file q.file = true ∧ q.Takes value) ∧
      ∀ p ∈ configParams, p.IsFor file key → ¬ p.Documents value := by
  have hmem := List.mem_of_find?_eq_some hq
  have hvalid : validateParam file key value = some true ↔
      strcasecmp file q.file = true ∧ q.Takes value := validateParam_iff_takes hq
  have hrefused : ¬ validateParam file key value = some true := fun htrue => by
    obtain ⟨p, hp, hfor, -⟩ := h.accepts.mp htrue
    have hsame := h.sameRow htrue p.command (extractParam_of_isFor hp hfor)
    rw [extractedRow_of_isFor hp hfor, hq] at hsame
    exact hno (Option.some.inj hsame ▸ hfor)
  exact ⟨fun hboth => hrefused (hvalid.mpr hboth),
    fun p hp hfor hdoc => hrefused (h.accepts.mpr ⟨p, hp, hfor, hdoc⟩)⟩

theorem AsDocumented.ownRow (h : AsDocumented file key value) : OwnRow file key value := by
  obtain ⟨b, hb⟩ := h.ends
  rw [validateParam_eq] at hb
  obtain ⟨q, hq, -⟩ := Option.map_eq_some_iff.mp hb
  refine ⟨⟨q, hq⟩, fun q' hq' hfor hkind htakes => ?_, fun q' hq' hnone hfile htakes => ?_,
    fun e he hfile hkey => ?_⟩
  · obtain ⟨p, hp, hfor', hdoc⟩ :=
      h.accepts.mp ((validateParam_iff_takes hq').mpr ⟨hfor.2, htakes⟩)
    obtain rfl := isFor_unique hp hfor' (List.mem_of_find?_eq_some hq') hfor
    rw [Param.Documents, hkind] at hdoc
    obtain ⟨-, -, n, -, -, hn, -⟩ := hdoc
    exact ⟨n, hn⟩
  · have hmem := List.mem_of_find?_eq_some hq'
    exact (h.others hq' (hnone q' hmem)).1 ⟨hfile, htakes⟩
  · obtain ⟨p, q', hrows⟩ := behind_rows e he
    have hfor : p.IsFor file key := ⟨hrows.key ▸ hkey, hrows.file ▸ hfile⟩
    have hfound : checkedRow key = some q' := (checkedRow_congr hkey).trans hrows.found
    have hno : ¬ q'.IsFor file key := fun hq'for => hrows.other
      (isFor_unique hrows.own hfor (List.mem_of_find?_eq_some hfound) hq'for)
    obtain ⟨hrefused, hundocumented⟩ := h.others hfound hno
    rw [← hrows.either]
    intro heither
    rcases heither with htakes | hdoc
    · exact hrefused ⟨hrows.sameFile ▸ hfile, htakes⟩
    · exact hundocumented p hrows.own hfor hdoc

/-- Where another row is found, it does not accept, and the own row, if there is one, does not
    document. -/
theorem OwnRow.others (h : OwnRow file key value) {q : Param} (hq : checkedRow key = some q)
    (hno : ¬ q.IsFor file key) : ¬ (strcasecmp file q.file = true ∧ q.Takes value) ∧
      ∀ p ∈ configParams, p.IsFor file key → ¬ p.Documents value := by
  by_cases hown : ∃ p ∈ configParams, p.IsFor file key
  · obtain ⟨p, hp, hfor⟩ := hown
    rcases own_or_behind p hp with hrow | ⟨hsystem, hkey⟩
    · rw [← checkedRow_congr hfor.1, hq] at hrow
      exact absurd (Option.some.inj hrow ▸ hfor) hno
    · obtain ⟨e, he, heq⟩ := List.mem_map.mp hkey
      obtain ⟨p', q', hrows⟩ := behind_rows e he
      have hkey' : strcasecmp key e.1 = true := heq ▸ hfor.1
      have hfile : strcasecmp file (ascii "system") = true := hsystem ▸ hfor.2
      have hneither := h.behind e he hfile hkey'
      rw [← hrows.either, not_or] at hneither
      have hfound := (checkedRow_congr hkey').trans hrows.found
      obtain rfl := Option.some.inj (hq.symm.trans hfound)
      have hfor' : p'.IsFor file key := ⟨hrows.key ▸ hkey', hrows.file ▸ hfile⟩
      refine ⟨fun hboth => hneither.1 hboth.2, fun r hr hrfor hdoc => hneither.2 ?_⟩
      exact isFor_unique hr hrfor hrows.own hfor' ▸ hdoc
  · have hnone : ∀ p ∈ configParams, ¬ p.IsFor file key :=
      fun p hp hfor => hown ⟨p, hp, hfor⟩
    exact ⟨fun hboth => h.foreign q hq hnone hboth.1 hboth.2, fun p hp hfor => absurd hfor (hnone p hp)⟩

theorem OwnRow.asDocumented (h : OwnRow file key value) : AsDocumented file key value := by
  obtain ⟨q, hq⟩ := h.found
  have hmem := List.mem_of_find?_eq_some hq
  have hvalid : validateParam file key value = some true ↔
      strcasecmp file q.file = true ∧ q.Takes value := validateParam_iff_takes hq
  refine ⟨by rw [validateParam_eq, hq]; exact ⟨_, rfl⟩, ?_, fun htrue command hcommand => ?_⟩
  · rw [hvalid]
    by_cases hfor : q.IsFor file key
    · rw [and_iff_right hfor.2, takes_iff_documents (h.whole q hq hfor)]
      constructor
      · exact fun hdoc => ⟨q, hmem, hfor, hdoc⟩
      · intro hdocumented
        obtain ⟨p, hp, hfor', hdoc⟩ := hdocumented
        obtain rfl := isFor_unique hp hfor' hmem hfor
        exact hdoc
    · obtain ⟨hrefused, hundocumented⟩ := h.others hq hfor
      exact iff_of_false hrefused fun ⟨p, hp, hfor', hdoc⟩ => hundocumented p hp hfor' hdoc
  · by_cases hfor : q.IsFor file key
    · rw [extractedRow_of_isFor hmem hfor, hq]
    · exact absurd (hvalid.mp htrue) (h.others hq hfor).1

/-- The rows are the same, accepted or not. -/
theorem sameRow_iff : (∀ command, extractParam file key = some command →
      extractedRow key = checkedRow key) ↔
    ∀ p ∈ configParams, p.IsFor file key → checkedRow key = some p := by
  constructor
  · intro h p hp hfor
    rw [← h p.command (extractParam_of_isFor hp hfor), extractedRow_of_isFor hp hfor]
  · intro h command hcommand
    obtain ⟨p, hp, hfor⟩ := extractParam_isSome hcommand
    rw [extractedRow_of_isFor hp hfor, h p hp hfor]

/-- **The settings that are accepted are the documented ones exactly where the lookup of nine
    characters leads to the key's own row and a number is nothing but that, or the value is not of
    the type of the row it leads to, nor of that of the own one.**
    Where `extract_param` is to use the row that was checked also for a value that was refused, it
    has to be the own row in any case. -/
theorem validateParam_asDocumented_iff (file key value : Bytes) :
    (AsDocumented file key value ↔ OwnRow file key value) ∧
      ((AsDocumented file key value ∧ ∀ command, extractParam file key = some command →
          extractedRow key = checkedRow key) ↔
        OwnRow file key value ∧ ∀ p ∈ configParams, p.IsFor file key → checkedRow key = some p) :=
  have hiff : AsDocumented file key value ↔ OwnRow file key value :=
    ⟨AsDocumented.ownRow, OwnRow.asDocumented⟩
  ⟨hiff, and_congr hiff sameRow_iff⟩

/-- **A key of no row runs off the table.** -/
theorem notAsDocumented : ¬ ∀ file key value, AsDocumented file key value := by
  intro h
  obtain ⟨b, hb⟩ := (h (ascii "system") (ascii "NONE") (ascii "yes")).ends
  have hnone : validateParam (ascii "system") (ascii "NONE") (ascii "yes") = none := by
    decide
  rw [hnone] at hb
  nomatch hb

end YiHack.Mqtt
