/-
  File:      YiHack/General/Json.lean
  Subject:   JSON: values, their compact text, and a reader of texts.

  Names nothing of the repository. A number is kept as its text, which carries the proof that it is
  one; strings are any characters, escaped where they have to be. `parse` reads texts with blanks
  and escapes, surrogate pairs excepted.

  * `Number.ofInt` -- an integer as a number, read back by `Number.toInt?`;
  * `renderString_plain` -- a text that needs no escapes;
  * **`parse_render`** -- what is rendered is read back, whatever the value.
-/
import Mathlib

namespace YiHack.General

/-! ## 1. Numbers -/

/-- The characters a number can have. -/
def isNumberChar (c : Char) : Bool :=
  c.isDigit || c == '-' || c == '+' || c == '.' || c == 'e' || c == 'E'

/-- Digits without a zero in front. -/
def isWhole (ds : List Char) : Bool := !ds.isEmpty && (ds.head? != some '0' || ds.length == 1)

/-- An exponent, or nothing. -/
def isExponent : List Char → Bool
  | [] => true
  | c :: cs =>
    let digits := if cs.head? = some '-' ∨ cs.head? = some '+' then cs.tail else cs
    (c == 'e' || c == 'E') && !digits.isEmpty && digits.all Char.isDigit

/-- A fraction and an exponent, either of which may be missing. -/
def isFraction : List Char → Bool
  | [] => true
  | c :: cs =>
    if c = '.' then
      !(cs.takeWhile Char.isDigit).isEmpty && isExponent (cs.dropWhile Char.isDigit)
    else isExponent (c :: cs)

def isUnsigned (cs : List Char) : Bool :=
  isWhole (cs.takeWhile Char.isDigit) && isFraction (cs.dropWhile Char.isDigit)

/-- The grammar of a number. -/
def isNumber (cs : List Char) : Bool := isUnsigned (if cs.head? = some '-' then cs.tail else cs)

/-- A number, as its text. -/
structure Number where
  text : List Char
  valid : isNumber text = true
  deriving DecidableEq

/-- The value of digits. -/
def digitsValue (cs : List Char) : Option Nat :=
  if cs.all Char.isDigit = true then some (Nat.ofDigitChars 10 cs 0) else none

/-- The integer a number without fraction and exponent is. -/
def Number.toInt? (n : Number) : Option Int :=
  if n.text.head? = some '-' then (digitsValue n.text.tail).map fun v : Nat => -(v : Int)
  else (digitsValue n.text).map fun v : Nat => (v : Int)

theorem isNumberChar_of_isDigit {c : Char} (h : c.isDigit = true) : isNumberChar c = true := by
  simp [isNumberChar, h]

theorem isExponent_chars {cs : List Char} (h : isExponent cs = true) :
    ∀ c ∈ cs, isNumberChar c = true := by
  cases cs with
  | nil => simp
  | cons e cs =>
    simp only [isExponent, Bool.and_eq_true, Bool.or_eq_true, beq_iff_eq, List.all_eq_true] at h
    obtain ⟨⟨he, -⟩, hdigits⟩ := h
    intro c hc
    rcases List.mem_cons.mp hc with rfl | hc
    · rcases he with rfl | rfl <;> rfl
    · split at hdigits
      · rename_i hsign
        cases cs with
        | nil => simp at hc
        | cons s cs =>
          rcases List.mem_cons.mp hc with rfl | hc
          · simp only [List.head?_cons, Option.some.injEq] at hsign
            rcases hsign with rfl | rfl <;> rfl
          · exact isNumberChar_of_isDigit (hdigits c hc)
      · exact isNumberChar_of_isDigit (hdigits c hc)

theorem isFraction_chars {cs : List Char} (h : isFraction cs = true) :
    ∀ c ∈ cs, isNumberChar c = true := by
  cases cs with
  | nil => simp
  | cons d cs =>
    simp only [isFraction] at h
    split at h
    · rename_i hd
      rw [Bool.and_eq_true] at h
      intro c hc
      rcases List.mem_cons.mp hc with rfl | hc
      · rw [hd]
        rfl
      · rw [← List.takeWhile_append_dropWhile (p := Char.isDigit) (l := cs)] at hc
        rcases List.mem_append.mp hc with hc | hc
        · exact isNumberChar_of_isDigit (List.mem_takeWhile_imp hc)
        · exact isExponent_chars h.2 c hc
    · exact isExponent_chars h

theorem isUnsigned_chars {cs : List Char} (h : isUnsigned cs = true) :
    cs ≠ [] ∧ ∀ c ∈ cs, isNumberChar c = true := by
  rw [isUnsigned, Bool.and_eq_true] at h
  refine ⟨?_, fun c hc => ?_⟩
  · rintro rfl
    exact absurd h.1 (by decide)
  · rw [← List.takeWhile_append_dropWhile (p := Char.isDigit) (l := cs)] at hc
    rcases List.mem_append.mp hc with hc | hc
    · exact isNumberChar_of_isDigit (List.mem_takeWhile_imp hc)
    · exact isFraction_chars h.2 c hc

theorem Number.chars (n : Number) : n.text ≠ [] ∧ ∀ c ∈ n.text, isNumberChar c = true := by
  obtain ⟨text, valid⟩ := n
  cases text with
  | nil => exact absurd valid (by decide)
  | cons s cs =>
    unfold isNumber at valid
    refine ⟨List.cons_ne_nil _ _, ?_⟩
    split at valid
    · rename_i hs
      simp only [List.head?_cons, Option.some.injEq] at hs
      intro c hc
      rcases List.mem_cons.mp hc with rfl | hc
      · rw [hs]
        rfl
      · exact (isUnsigned_chars valid).2 c hc
    · exact (isUnsigned_chars valid).2

/-- The digits of a number other than zero do not begin with one. -/
theorem toDigits_head {n : Nat} (hn : 0 < n) : (Nat.toDigits 10 n).head? ≠ some '0' := by
  induction n using Nat.strongRecOn with
  | ind n ih =>
    rcases Nat.lt_or_ge n 10 with h | h
    · rw [Nat.toDigits_of_lt_base h]
      simp only [List.head?_cons, ne_eq, Option.some.injEq, Nat.digitChar_eq_zero]
      omega
    · have hq := ih (n / 10) (by omega) (by omega)
      rw [Nat.toDigits_of_base_le (by decide) h]
      cases hd : Nat.toDigits 10 (n / 10) with
      | nil => exact absurd hd Nat.toDigits_ne_nil
      | cons c cs =>
        rw [hd] at hq
        exact hq

theorem toDigits_isDigit (n : Nat) : ∀ c ∈ Nat.toDigits 10 n, c.isDigit = true := fun _ hc =>
  Nat.isDigit_of_mem_toDigits (by decide) (by decide) hc

theorem toDigits_unsigned (n : Nat) : isUnsigned (Nat.toDigits 10 n) = true := by
  have hdigits := toDigits_isDigit n
  have hall : (Nat.toDigits 10 n).takeWhile Char.isDigit = Nat.toDigits 10 n :=
    List.takeWhile_eq_self_iff.mpr hdigits
  have hnone : (Nat.toDigits 10 n).dropWhile Char.isDigit = [] :=
    List.dropWhile_eq_nil_iff.mpr hdigits
  rw [isUnsigned, hall, hnone, isFraction, Bool.and_true, isWhole]
  rcases Nat.eq_zero_or_pos n with rfl | hn
  · decide
  · have hne : (Nat.toDigits 10 n).isEmpty = false := by
      rw [List.isEmpty_eq_false_iff]
      exact Nat.toDigits_ne_nil
    rw [hne, bne_iff_ne.mpr (toDigits_head hn)]
    rfl

theorem toDigits_noSign (n : Nat) : (Nat.toDigits 10 n).head? ≠ some '-' := fun h =>
  absurd (toDigits_isDigit n _ (List.mem_of_mem_head? h)) (by decide)

theorem digitsValue_toDigits (n : Nat) : digitsValue (Nat.toDigits 10 n) = some n := by
  rw [digitsValue, if_pos (List.all_eq_true.mpr (toDigits_isDigit n)),
    Nat.ofDigitChars_toDigits (by decide) (by decide)]

/-- The text of an integer: its digits, behind a sign where it is negative. -/
theorem intText_toList (i : Int) : (toString i).toList =
    if i < 0 then '-' :: Nat.toDigits 10 i.natAbs else Nat.toDigits 10 i.natAbs := by
  cases i with
  | ofNat n =>
    show (Nat.repr n).toList = _
    rw [Nat.toList_repr, if_neg (by simp)]
    rfl
  | negSucc n =>
    show ("-" ++ Nat.repr (n + 1)).toList = _
    rw [String.toList_append, Nat.toList_repr, if_pos (Int.negSucc_lt_zero n)]
    rfl

theorem intText_isNumber (i : Int) : isNumber (toString i).toList = true := by
  rw [intText_toList]
  split
  · exact toDigits_unsigned _
  · rw [isNumber, if_neg (toDigits_noSign _)]
    exact toDigits_unsigned _

/-- The text of an integer. -/
def Number.ofInt (i : Int) : Number := ⟨(toString i).toList, intText_isNumber i⟩

/-- **An integer is read back.** -/
theorem Number.toInt?_ofInt (i : Int) : (Number.ofInt i).toInt? = some i := by
  have htext : (Number.ofInt i).text = _ := intText_toList i
  rw [Number.toInt?, htext]
  split
  · rename_i hneg
    rw [if_pos List.head?_cons, List.tail_cons, digitsValue_toDigits, Option.map_some]
    congr 1
    omega
  · rename_i hpos
    rw [if_neg (toDigits_noSign _), digitsValue_toDigits, Option.map_some]
    congr 1
    omega

/-! ## 2. Values and their text -/

/-- A JSON value. -/
inductive Json
  | null
  | bool (b : Bool)
  | number (n : Number)
  | string (text : String)
  | array (items : List Json)
  | object (fields : List (String × Json))

def hexDigit (n : Nat) : Char := if n < 10 then Char.ofNat (48 + n) else Char.ofNat (87 + n)

def hexValue (c : Char) : Option Nat :=
  if c.isDigit then some (c.toNat - 48)
  else if 'a' ≤ c ∧ c ≤ 'f' then some (c.toNat - 87)
  else if 'A' ≤ c ∧ c ≤ 'F' then some (c.toNat - 55)
  else none

/-- A character in a string: quote, backslash and control characters are escaped. -/
def escape (c : Char) : List Char :=
  if c = '\x22' ∨ c = '\x5c' then ['\x5c', c]
  else if c.toNat < 32 then
    ['\x5c', 'u', '0', '0', hexDigit (c.toNat / 16), hexDigit (c.toNat % 16)]
  else [c]

def renderString (s : String) : List Char := '\x22' :: s.toList.flatMap escape ++ ['\x22']

/-- A character that stands for itself in a string. -/
def isPlain (c : Char) : Bool := c != '\x22' && c != '\x5c' && 32 ≤ c.toNat

theorem escape_plain {c : Char} (h : isPlain c = true) : escape c = [c] := by
  simp only [isPlain, Bool.and_eq_true, bne_iff_ne, decide_eq_true_eq] at h
  obtain ⟨⟨hquote, hbackslash⟩, hcontrol⟩ := h
  rw [escape, if_neg (not_or.mpr ⟨hquote, hbackslash⟩), if_neg (not_lt.mpr hcontrol)]

/-- **A plain text is rendered as it is.** -/
theorem renderString_plain {s : String} (h : s.toList.all isPlain = true) :
    renderString s = '\x22' :: (s.toList ++ ['\x22']) := by
  have hall : ∀ c ∈ s.toList, escape c = [c] :=
    fun c hc => escape_plain (List.all_eq_true.mp h c hc)
  rw [renderString, List.cons_append, List.flatMap_congr hall, List.flatMap_singleton']

mutual
/-- The compact text of a value. -/
def Json.render : Json → List Char
  | .null => ['n', 'u', 'l', 'l']
  | .bool true => ['t', 'r', 'u', 'e']
  | .bool false => ['f', 'a', 'l', 's', 'e']
  | .number n => n.text
  | .string s => renderString s
  | .array [] => ['[', ']']
  | .array (v :: vs) => '[' :: v.render ++ renderItems vs
  | .object [] => ['\x7b', '\x7d']
  | .object ((k, v) :: fs) => '\x7b' :: renderString k ++ ':' :: v.render ++ renderFields fs

/-- The items behind the first. -/
def renderItems : List Json → List Char
  | [] => [']']
  | v :: vs => ',' :: v.render ++ renderItems vs

/-- The fields behind the first. -/
def renderFields : List (String × Json) → List Char
  | [] => ['\x7d']
  | (k, v) :: fs => ',' :: renderString k ++ ':' :: v.render ++ renderFields fs
end

/-! ## 3. Reading a text -/

def isBlankChar (c : Char) : Bool := c == ' ' || c == '\t' || c == '\n' || c == '\r'

def skipBlanks (cs : List Char) : List Char := cs.dropWhile isBlankChar

/-- The escapes of one character. -/
def simpleEscapes : List (Char × Char) :=
  [('\x22', '\x22'), ('\x5c', '\x5c'), ('/', '/'), ('b', '\x08'), ('f', '\x0c'), ('n', '\n'),
    ('r', '\r'), ('t', '\t')]

/-- The character of a `\u` escape; halves of a surrogate pair are refused. -/
def charOfHex (v : Nat) : Option Char :=
  if v < 0xD800 ∨ 0xDFFF < v then some (Char.ofNat v) else none

/-- Where a string is read: between characters, behind a backslash, or in a `\u` escape with `left`
    digits to come behind the next and the value so far. -/
inductive StringMode
  | plain
  | escape
  | hex (left value : Nat)

/-- A string behind its first quote. -/
def readString : StringMode → List Char → Option (List Char × List Char)
  | _, [] => none
  | .plain, c :: cs =>
    if c = '\x22' then some ([], cs)
    else if c = '\x5c' then readString .escape cs
    else if c.toNat < 32 then none
    else (readString .plain cs).map fun r => (c :: r.1, r.2)
  | .escape, c :: cs =>
    if c = 'u' then readString (.hex 3 0) cs
    else (simpleEscapes.lookup c).bind fun e => (readString .plain cs).map fun r => (e :: r.1, r.2)
  | .hex left value, c :: cs =>
    (hexValue c).bind fun v =>
      match left with
      | 0 =>
        (charOfHex (value * 16 + v)).bind fun e =>
          (readString .plain cs).map fun r => (e :: r.1, r.2)
      | left + 1 => readString (.hex left (value * 16 + v)) cs

def keywords : List (List Char × Json) :=
  [(['n', 'u', 'l', 'l'], .null), (['t', 'r', 'u', 'e'], .bool true),
    (['f', 'a', 'l', 's', 'e'], .bool false)]

/-- A keyword or a number. -/
def readScalar (cs : List Char) : Option (Json × List Char) :=
  match keywords.find? fun k => k.1.isPrefixOf cs with
  | some k => some (k.2, cs.drop k.1.length)
  | none =>
    if h : isNumber (cs.takeWhile isNumberChar) = true then
      some (.number ⟨_, h⟩, cs.dropWhile isNumberChar)
    else none

/-- The key of a field and its colon. -/
def readKey (cs : List Char) : Option (String × List Char) :=
  match skipBlanks cs with
  | [] => none
  | c :: cs =>
    if c = '\x22' then
      (readString .plain cs).bind fun r =>
        match skipBlanks r.2 with
        | [] => none
        | c :: cs => if c = ':' then some (String.ofList r.1, cs) else none
    else none

mutual
/-- A value and what follows it. -/
def readValue : Nat → List Char → Option (Json × List Char)
  | 0, _ => none
  | fuel + 1, cs =>
    match skipBlanks cs with
    | [] => none
    | c :: cs =>
      if c = '\x22' then (readString .plain cs).map fun r => (.string (String.ofList r.1), r.2)
      else if c = '[' then
        if (skipBlanks cs).head? = some ']' then some (.array [], (skipBlanks cs).tail)
        else
          (readValue fuel cs).bind fun v =>
            (readItems fuel v.2).map fun r => (.array (v.1 :: r.1), r.2)
      else if c = '\x7b' then
        if (skipBlanks cs).head? = some '\x7d' then some (.object [], (skipBlanks cs).tail)
        else
          (readKey cs).bind fun k =>
            (readValue fuel k.2).bind fun v =>
              (readFields fuel v.2).map fun r => (.object ((k.1, v.1) :: r.1), r.2)
      else readScalar (c :: cs)

/-- The items behind the first, and the bracket. -/
def readItems : Nat → List Char → Option (List Json × List Char)
  | 0, _ => none
  | fuel + 1, cs =>
    match skipBlanks cs with
    | [] => none
    | c :: cs =>
      if c = ']' then some ([], cs)
      else if c = ',' then
        (readValue fuel cs).bind fun v => (readItems fuel v.2).map fun r => (v.1 :: r.1, r.2)
      else none

/-- The fields behind the first, and the brace. -/
def readFields : Nat → List Char → Option (List (String × Json) × List Char)
  | 0, _ => none
  | fuel + 1, cs =>
    match skipBlanks cs with
    | [] => none
    | c :: cs =>
      if c = '\x7d' then some ([], cs)
      else if c = ',' then
        (readKey cs).bind fun k =>
          (readValue fuel k.2).bind fun v =>
            (readFields fuel v.2).map fun r => ((k.1, v.1) :: r.1, r.2)
      else none
end

/-- A text that is one value. -/
def Json.parse (cs : List Char) : Option Json :=
  match readValue (cs.length + 1) cs with
  | some (v, rest) => if skipBlanks rest = [] then some v else none
  | none => none

/-! ## 4. Taking a value apart -/

namespace Json

def field (key : String) : Json → Option Json
  | .object fs => fs.lookup key
  | _ => none

def int? : Json → Option Int
  | .number n => n.toInt?
  | _ => none

def number? : Json → Option Number
  | .number n => some n
  | _ => none

def bool? : Json → Option Bool
  | .bool b => some b
  | _ => none

def string? : Json → Option String
  | .string s => some s
  | _ => none

def items? : Json → Option (List Json)
  | .array vs => some vs
  | _ => none

end Json

/-! ## 5. What is rendered is read back -/

theorem hexDigit_value : ∀ n < 16, hexValue (hexDigit n) = some n := by decide

/-- An escaped character is read as itself. -/
theorem readString_escape (c : Char) (rest : List Char) :
    readString .plain (escape c ++ rest) =
      (readString .plain rest).map fun r => (c :: r.1, r.2) := by
  unfold escape
  split
  · rename_i hc
    rcases hc with rfl | rfl <;> simp [readString, simpleEscapes, List.lookup]
  · rename_i hc
    have hquote : c ≠ '\x22' := fun h => hc (.inl h)
    have hslash : c ≠ '\x5c' := fun h => hc (.inr h)
    split
    · rename_i hlt
      have hhigh := hexDigit_value (c.toNat / 16) (by omega)
      have hlow := hexDigit_value (c.toNat % 16) (by omega)
      have hvalue : c.toNat / 16 * 16 + c.toNat % 16 = c.toNat := by omega
      have hchar : charOfHex c.toNat = some c := by
        rw [charOfHex, if_pos (.inl (by omega)), Char.ofNat_toNat]
      have h0 : hexValue '0' = some 0 := by decide
      simp [readString, h0, hhigh, hlow, hvalue, hchar]
    · rename_i hge
      simp only [List.cons_append, List.nil_append]
      rw [readString, if_neg hquote, if_neg hslash, if_neg hge]

/-- **A rendered string is read back**, behind its first quote. -/
theorem readString_render (s rest : List Char) :
    readString .plain (s.flatMap escape ++ '\x22' :: rest) = some (s, rest) := by
  induction s with
  | nil => rw [List.flatMap_nil, List.nil_append, readString, if_pos rfl]
  | cons c s ih =>
    rw [List.flatMap_cons, List.append_assoc, readString_escape, ih]
    rfl

/-- Behind a number stands nothing that would continue it. -/
def Ends (rest : List Char) : Prop := ∀ c ∈ rest.head?, isNumberChar c = false

theorem Ends.nil : Ends [] := by simp [Ends]

theorem Ends.cons {c : Char} {rest : List Char} (h : isNumberChar c = false) :
    Ends (c :: rest) := by
  simpa [Ends] using h

/-- A character of a number begins no other value. -/
theorem numberChar_ne {c : Char} (h : isNumberChar c = true) :
    isBlankChar c = false ∧ c ≠ '\x22' ∧ c ≠ '[' ∧ c ≠ '\x7b' ∧ c ≠ ']' ∧ c ≠ '\x7d' ∧
      c ≠ 'n' ∧ c ≠ 't' ∧ c ≠ 'f' := by
  have blank : isBlankChar c = false := by
    by_contra hb
    rw [Bool.not_eq_false] at hb
    simp only [isBlankChar, Bool.or_eq_true, beq_iff_eq] at hb
    rcases hb with ((rfl | rfl) | rfl) | rfl <;> exact absurd h (by decide)
  refine ⟨blank, ?_, ?_, ?_, ?_, ?_, ?_, ?_, ?_⟩
  all_goals
    intro hc
    rw [hc] at h
    exact absurd h (by decide)

theorem takeWhile_number (n : Number) {rest : List Char} (hrest : Ends rest) :
    (n.text ++ rest).takeWhile isNumberChar = n.text ∧
      (n.text ++ rest).dropWhile isNumberChar = rest := by
  have hchars := n.chars.2
  rw [List.takeWhile_append_of_pos hchars, List.dropWhile_append_of_pos hchars]
  cases rest with
  | nil => simp
  | cons c rest =>
    have hc : isNumberChar c = false := hrest c rfl
    rw [List.takeWhile_cons, List.dropWhile_cons, hc]
    simp

theorem readScalar_number (n : Number) {rest : List Char} (hrest : Ends rest) :
    readScalar (n.text ++ rest) = some (.number n, rest) := by
  obtain ⟨hne, hchars⟩ := n.chars
  obtain ⟨htake, hdrop⟩ := takeWhile_number n hrest
  have hkey : keywords.find? (fun k => k.1.isPrefixOf (n.text ++ rest)) = none := by
    cases htext : n.text with
    | nil => exact absurd htext hne
    | cons c cs =>
      obtain ⟨-, -, -, -, -, -, hn, ht, hf⟩ := numberChar_ne (hchars c (htext ▸ List.mem_cons_self))
      simp [keywords, List.isPrefixOf, Ne.symm hn, Ne.symm ht, Ne.symm hf]
  have hvalid : isNumber ((n.text ++ rest).takeWhile isNumberChar) = true := by
    rw [htake]
    exact n.valid
  rw [readScalar, hkey]
  simp only
  rw [dif_pos hvalid, hdrop]
  simp only [htake]

theorem skipBlanks_cons {c : Char} {cs : List Char} (h : isBlankChar c = false) :
    skipBlanks (c :: cs) = c :: cs := by
  rw [skipBlanks, List.dropWhile_cons, h]
  rfl

/-- The text of a value begins with no blank and no closing bracket. -/
theorem render_head (v : Json) : ∃ c cs, v.render = c :: cs ∧ isBlankChar c = false ∧ c ≠ ']' := by
  cases v with
  | null => exact ⟨_, _, by rw [Json.render], by decide, by decide⟩
  | bool b => cases b <;> exact ⟨_, _, by rw [Json.render], by decide, by decide⟩
  | number n =>
    obtain ⟨hne, hchars⟩ := n.chars
    cases htext : n.text with
    | nil => exact absurd htext hne
    | cons c cs =>
      obtain ⟨hb, -, -, -, hbr, -⟩ := numberChar_ne (hchars c (htext ▸ List.mem_cons_self))
      exact ⟨c, cs, by rw [Json.render, htext], hb, hbr⟩
  | string s => exact ⟨_, _, by rw [Json.render, renderString]; rfl, by decide, by decide⟩
  | array vs =>
    cases vs with
    | nil => exact ⟨_, _, by rw [Json.render], by decide, by decide⟩
    | cons v vs => exact ⟨_, _, by rw [Json.render]; rfl, by decide, by decide⟩
  | object fs =>
    cases fs with
    | nil => exact ⟨_, _, by rw [Json.render], by decide, by decide⟩
    | cons f fs => exact ⟨_, _, by rw [Json.render]; rfl, by decide, by decide⟩

theorem skipBlanks_render (v : Json) (rest : List Char) :
    skipBlanks (v.render ++ rest) = v.render ++ rest := by
  obtain ⟨c, cs, h, hb, -⟩ := render_head v
  rw [h]
  exact skipBlanks_cons hb

theorem readKey_render (k : String) (rest : List Char) :
    readKey (renderString k ++ ':' :: rest) = some (k, rest) := by
  have h : skipBlanks (renderString k ++ ':' :: rest) =
      '\x22' :: (k.toList.flatMap escape ++ '\x22' :: ':' :: rest) := by
    simp only [renderString, List.cons_append, List.append_assoc, List.nil_append]
    exact skipBlanks_cons (by decide)
  rw [readKey, h]
  simp only [if_true, readString_render, Option.bind_some]
  rw [skipBlanks_cons (by decide)]
  simp only [if_true, String.ofList_toList]

/-- The text behind an item or a field ends a number. -/
theorem ends_items (vs : List Json) (rest : List Char) : Ends (renderItems vs ++ rest) := by
  cases vs with
  | nil =>
    rw [renderItems]
    exact .cons (by decide)
  | cons v vs =>
    rw [renderItems]
    exact .cons (by decide)

theorem ends_fields (fs : List (String × Json)) (rest : List Char) :
    Ends (renderFields fs ++ rest) := by
  cases fs with
  | nil =>
    rw [renderFields]
    exact .cons (by decide)
  | cons f fs =>
    rw [renderFields]
    exact .cons (by decide)

/-- A value that begins with a character of its own is told by it. -/
theorem readValue_scalar {fuel : Nat} {c : Char} {cs : List Char} (hb : isBlankChar c = false)
    (hquote : c ≠ '\x22') (hbracket : c ≠ '[') (hbrace : c ≠ '\x7b') :
    readValue (fuel + 1) (c :: cs) = readScalar (c :: cs) := by
  rw [readValue, skipBlanks_cons hb]
  simp only
  rw [if_neg hquote, if_neg hbracket, if_neg hbrace]

-- the fuel is the length of what is rendered; the induction is over the value
mutual
theorem readValue_render : ∀ (v : Json) (fuel : Nat) (rest : List Char), v.render.length ≤ fuel →
    Ends rest → readValue (fuel + 1) (v.render ++ rest) = some (v, rest)
  | .null, fuel, rest, _, _ => by
    rw [Json.render]
    exact readValue_scalar (by decide) (by decide) (by decide) (by decide)
  | .bool true, fuel, rest, _, _ => by
    rw [Json.render]
    exact readValue_scalar (by decide) (by decide) (by decide) (by decide)
  | .bool false, fuel, rest, _, _ => by
    rw [Json.render]
    exact readValue_scalar (by decide) (by decide) (by decide) (by decide)
  | .number n, fuel, rest, _, hrest => by
    have hscalar := readScalar_number n hrest
    rw [Json.render]
    obtain ⟨hne, hchars⟩ := n.chars
    cases htext : n.text with
    | nil => exact absurd htext hne
    | cons c cs =>
      obtain ⟨hb, hquote, hbracket, hbrace, -⟩ :=
        numberChar_ne (hchars c (htext ▸ List.mem_cons_self))
      rw [htext] at hscalar
      rw [List.cons_append, readValue_scalar hb hquote hbracket hbrace, ← List.cons_append, hscalar]
  | .string s, fuel, rest, _, _ => by
    have h : renderString s ++ rest = '\x22' :: (s.toList.flatMap escape ++ '\x22' :: rest) := by
      simp only [renderString, List.cons_append, List.append_assoc, List.nil_append]
    rw [Json.render, h, readValue, skipBlanks_cons (by decide)]
    simp only [if_true, readString_render, Option.map_some, String.ofList_toList]
  | .array [], fuel, rest, _, _ => by
    rw [Json.render, List.cons_append, readValue, skipBlanks_cons (by decide)]
    simp only
    rw [if_neg (by decide), if_pos trivial, List.cons_append, skipBlanks_cons (by decide)]
    rfl
  | .array (v :: vs), fuel, rest, hfuel, _ => by
    obtain ⟨c, cs, hhead, hb, hne⟩ := render_head v
    simp only [Json.render, List.cons_append, List.length_cons, List.length_append] at hfuel
    obtain ⟨fuel, rfl⟩ : ∃ k, fuel = k + 1 := ⟨fuel - 1, by omega⟩
    have hv := readValue_render v fuel (renderItems vs ++ rest) (by omega) (ends_items vs rest)
    have hvs := readItems_render vs fuel rest (by omega)
    rw [Json.render, List.cons_append, List.cons_append, readValue, skipBlanks_cons (by decide)]
    simp only
    rw [if_neg (by decide), if_pos trivial, List.append_assoc, skipBlanks_render, if_neg]
    · rw [hv, Option.bind_some, hvs]
      rfl
    · rw [hhead]
      simpa using hne
  | .object [], fuel, rest, _, _ => by
    rw [Json.render, List.cons_append, readValue, skipBlanks_cons (by decide)]
    simp only
    rw [if_neg (by decide), if_neg (by decide), if_pos trivial, List.cons_append,
      skipBlanks_cons (by decide)]
    rfl
  | .object ((k, v) :: fs), fuel, rest, hfuel, _ => by
    simp only [Json.render, List.cons_append, List.length_cons, List.length_append] at hfuel
    obtain ⟨fuel, rfl⟩ : ∃ k, fuel = k + 1 := ⟨fuel - 1, by omega⟩
    have hv := readValue_render v fuel (renderFields fs ++ rest) (by omega) (ends_fields fs rest)
    have hfs := readFields_render fs fuel rest (by omega)
    have htext : (Json.object ((k, v) :: fs)).render ++ rest =
        '\x7b' :: (renderString k ++ ':' :: (v.render ++ (renderFields fs ++ rest))) := by
      simp only [Json.render, List.cons_append, List.append_assoc]
    rw [htext, readValue, skipBlanks_cons (by decide)]
    simp only
    rw [if_neg (by decide), if_neg (by decide), if_pos trivial, if_neg, readKey_render,
      Option.bind_some,
      hv, Option.bind_some, hfs]
    · rfl
    · rw [renderString, List.cons_append, List.cons_append, skipBlanks_cons (by decide)]
      simp

theorem readItems_render : ∀ (vs : List Json) (fuel : Nat) (rest : List Char),
    (renderItems vs).length ≤ fuel → readItems (fuel + 1) (renderItems vs ++ rest) = some (vs, rest)
  | [], fuel, rest, _ => by
    rw [renderItems, List.cons_append, readItems, skipBlanks_cons (by decide)]
    simp only [if_true, List.nil_append]
  | v :: vs, fuel, rest, hfuel => by
    simp only [renderItems, List.cons_append, List.length_cons, List.length_append] at hfuel
    obtain ⟨fuel, rfl⟩ : ∃ k, fuel = k + 1 := ⟨fuel - 1, by omega⟩
    have hv := readValue_render v fuel (renderItems vs ++ rest) (by omega) (ends_items vs rest)
    have hvs := readItems_render vs fuel rest (by omega)
    rw [renderItems, List.cons_append, List.cons_append, readItems, skipBlanks_cons (by decide)]
    simp only
    rw [if_neg (by decide), if_pos trivial, List.append_assoc, hv, Option.bind_some, hvs]
    rfl

theorem readFields_render : ∀ (fs : List (String × Json)) (fuel : Nat) (rest : List Char),
    (renderFields fs).length ≤ fuel →
      readFields (fuel + 1) (renderFields fs ++ rest) = some (fs, rest)
  | [], fuel, rest, _ => by
    rw [renderFields, List.cons_append, readFields, skipBlanks_cons (by decide)]
    simp only [if_true, List.nil_append]
  | (k, v) :: fs, fuel, rest, hfuel => by
    simp only [renderFields, List.cons_append, List.length_cons, List.length_append] at hfuel
    obtain ⟨fuel, rfl⟩ : ∃ k, fuel = k + 1 := ⟨fuel - 1, by omega⟩
    have hv := readValue_render v fuel (renderFields fs ++ rest) (by omega) (ends_fields fs rest)
    have hfs := readFields_render fs fuel rest (by omega)
    have htext : renderFields ((k, v) :: fs) ++ rest =
        ',' :: (renderString k ++ ':' :: (v.render ++ (renderFields fs ++ rest))) := by
      simp only [renderFields, List.cons_append, List.append_assoc]
    rw [htext, readFields, skipBlanks_cons (by decide)]
    simp only
    rw [if_neg (by decide), if_pos trivial, readKey_render, Option.bind_some, hv,
      Option.bind_some, hfs]
    rfl
end

/-- **What is rendered is read back.** -/
theorem Json.parse_render (v : Json) : Json.parse v.render = some v := by
  have h := readValue_render v v.render.length [] (Nat.le_refl _) .nil
  rw [List.append_nil] at h
  rw [Json.parse, h]
  rfl

example :
    (Json.parse " [1, \"a\\n\"]".toList).map Json.render = some "[1,\"a\\u000a\"]".toList := by
  decide

end YiHack.General
