/-
  File:      YiHack/General/Scan.lean
  Subject:   Reading a text as C does: `fgets` in pieces, `sscanf` one directive after the other.

  Names nothing of the repository.

  * `pieces` -- what `fgets` returns, call after call; `pieces_line`, `pieces_open`;
  * `LinePieces` -- a line of any length in pieces; **`pieces_lines`**, line after line;
  * `literal`, `skipSpace`, `scanUnsigned`, `scanString` -- the directives, each with its form;
  * `fields` -- the words of a text between white space.
-/
import YiHack.General.Text

namespace YiHack.General

/-! ## 1. Lines in pieces -/

/-- The pieces that `fgets` returns for a buffer of `size + 1` bytes: `room` more bytes fit behind
    the current one. -/
def piecesFrom (size : Nat) : Nat → Bytes → Bytes → List Bytes
  | _, piece, [] => if piece = [] then [] else [piece]
  | room, piece, b :: f =>
    if b = newline ∨ room ≤ 1 then (piece ++ [b]) :: piecesFrom size size [] f
    else piecesFrom size (room - 1) (piece ++ [b]) f

def pieces (size : Nat) (f : Bytes) : List Bytes := piecesFrom size size [] f

@[simp] theorem pieces_nil (size : Nat) : pieces size [] = [] := rfl

theorem piecesFrom_flatten (size room : Nat) (piece f : Bytes) :
    (piecesFrom size room piece f).flatten = piece ++ f := by
  induction f generalizing room piece with
  | nil =>
    rw [piecesFrom]
    split
    · next h => rw [h]; rfl
    · simp
  | cons b f ih =>
    rw [piecesFrom]
    split
    · rw [List.flatten_cons, ih, List.nil_append, List.append_assoc, List.singleton_append]
    · rw [ih, List.append_assoc, List.singleton_append]

/-- **Nothing is lost between the pieces.** -/
theorem pieces_flatten (size : Nat) (f : Bytes) : (pieces size f).flatten = f :=
  piecesFrom_flatten size size [] f

theorem piecesFrom_line {size room : Nat} {piece l f : Bytes} (hl : newline ∉ l)
    (hroom : l.length < room) :
    piecesFrom size room piece (l ++ newline :: f) = (piece ++ l ++ [newline]) :: pieces size f := by
  induction l generalizing room piece with
  | nil => simp [piecesFrom, pieces]
  | cons b l ih =>
    obtain ⟨hb, hl⟩ := not_or.mp (mt List.mem_cons.mpr hl)
    rw [List.length_cons] at hroom
    rw [List.cons_append, piecesFrom, if_neg (not_or.mpr ⟨Ne.symm hb, by omega⟩), ih hl (by omega),
      List.append_assoc piece, List.singleton_append]

/-- **A line that fits is a piece.** -/
theorem pieces_line {size : Nat} {l f : Bytes} (hl : newline ∉ l) (hsize : l.length < size) :
    pieces size (l ++ newline :: f) = (l ++ [newline]) :: pieces size f := by
  rw [pieces, piecesFrom_line hl hsize, List.nil_append]

theorem piecesFrom_open {size room : Nat} {piece f : Bytes} (hpiece : newline ∉ piece)
    (hne : piece ++ f ≠ []) (hroom : 0 < room) (hf : newline ∉ f.take room) :
    ∃ p ps, piecesFrom size room piece f = p :: ps ∧ newline ∉ p := by
  induction f generalizing room piece with
  | nil =>
    rw [List.append_nil] at hne
    exact ⟨piece, [], by rw [piecesFrom, if_neg hne], hpiece⟩
  | cons b f ih =>
    obtain ⟨room, rfl⟩ : ∃ n, room = n + 1 := ⟨room - 1, by omega⟩
    obtain ⟨hb, hf⟩ := not_or.mp (mt List.mem_cons.mpr hf)
    have hpiece' : newline ∉ piece ++ [b] := by
      rw [List.mem_append, List.mem_singleton]
      exact not_or.mpr ⟨hpiece, hb⟩
    by_cases hend : room + 1 ≤ 1
    · exact ⟨piece ++ [b], _, by rw [piecesFrom, if_pos (.inr hend)], hpiece'⟩
    · rw [piecesFrom, if_neg (not_or.mpr ⟨Ne.symm hb, hend⟩)]
      exact ih hpiece' (by simp) (by omega) hf

/-- **A line that does not fit, or does not end, begins with a piece that lacks its newline.** -/
theorem pieces_open {size : Nat} {f : Bytes} (hne : f ≠ []) (hsize : 0 < size)
    (hf : newline ∉ f.take size) : ∃ p ps, pieces size f = p :: ps ∧ newline ∉ p :=
  piecesFrom_open List.not_mem_nil hne hsize hf

/-- How a file begins: with a line that fits, or with one that does not. -/
theorem line_or_open (size : Nat) (f : Bytes) :
    (∃ l g, f = l ++ newline :: g ∧ newline ∉ l ∧ l.length < size) ∨ newline ∉ f.take size := by
  by_cases h : newline ∈ f.take size
  · obtain ⟨l, g, hsplit, hl⟩ := List.eq_append_cons_of_mem h
    have hlen := congrArg List.length hsplit
    rw [List.length_take, List.length_append, List.length_cons] at hlen
    refine .inl ⟨l, g ++ f.drop size, ?_, hl, by omega⟩
    rw [← List.cons_append, ← List.append_assoc, ← hsplit, List.take_append_drop]
  · exact .inr h

/-- Whole lines that fit are read one by one. -/
theorem pieces_print {size : Nat} {ls : List Bytes} (h : ∀ l ∈ ls, newline ∉ l ∧ l.length < size) :
    pieces size (print ls) = ls.map (· ++ [newline]) := by
  induction ls with
  | nil => rfl
  | cons l ls ih =>
    obtain ⟨hl, hls⟩ := List.forall_mem_cons.mp h
    rw [print_cons, pieces_line hl.1 hl.2, ih hls, List.map_cons]

/-- **All pieces end in a newline exactly where the file is made of lines that fit.** -/
theorem pieces_closed_iff {size : Nat} (hsize : 0 < size) (f : Bytes) :
    (∀ p ∈ pieces size f, newline ∈ p) ↔
      ∃ ls, f = print ls ∧ ∀ l ∈ ls, newline ∉ l ∧ l.length < size := by
  constructor
  · intro h
    induction hn : f.length using Nat.strong_induction_on generalizing f with
    | _ n ih =>
      by_cases hf : f = []
      · exact ⟨[], hf, nofun⟩
      · rcases line_or_open size f with ⟨l, g, rfl, hl, hlen⟩ | hopen
        · rw [pieces_line hl hlen] at h
          rw [List.length_append, List.length_cons] at hn
          obtain ⟨ls, rfl, hls⟩ := ih g.length (by omega) g (List.forall_mem_cons.mp h).2 rfl
          exact ⟨l :: ls, (print_cons l ls).symm, List.forall_mem_cons.mpr ⟨⟨hl, hlen⟩, hls⟩⟩
        · obtain ⟨p, ps, hp, hno⟩ := pieces_open hf hsize hopen
          exact absurd (h p (hp ▸ List.mem_cons_self)) hno
  · rintro ⟨ls, rfl, hls⟩ p hp
    rw [pieces_print hls] at hp
    obtain ⟨l, -, rfl⟩ := List.mem_map.mp hp
    exact List.mem_append_right l (List.mem_singleton_self newline)

theorem piecesFrom_append {size room : Nat} {piece l : Bytes} (hl : newline ∉ l) (f : Bytes) :
    piecesFrom size room piece (l ++ newline :: f) =
      piecesFrom size room piece (l ++ [newline]) ++ pieces size f := by
  induction l generalizing room piece with
  | nil => simp [piecesFrom, pieces]
  | cons b l ih =>
    have hl := (not_or.mp (mt List.mem_cons.mpr hl)).2
    rw [List.cons_append, List.cons_append, piecesFrom, piecesFrom]
    split
    · rw [ih hl, List.cons_append]
    · exact ih hl

/-- **Each line is read on its own**, however long it is. -/
theorem pieces_lines {size : Nat} {ls : List Bytes} (h : ∀ l ∈ ls, newline ∉ l) :
    pieces size (print ls) = ls.flatMap fun l => pieces size (l ++ [newline]) := by
  induction ls with
  | nil => rfl
  | cons l ls ih =>
    obtain ⟨hl, hls⟩ := List.forall_mem_cons.mp h
    rw [print_cons, pieces, piecesFrom_append hl, ih hls, List.flatMap_cons, pieces]

/-- The pieces of a line: full ones without a newline, and one that ends in it. -/
inductive LinePieces (size : Nat) : List Bytes → Prop
  | last {q : Bytes} (hq : newline ∉ q) : LinePieces size [q ++ [newline]]
  | more {p : Bytes} {ps : List Bytes} (hp : newline ∉ p) (hfull : p.length = size)
      (hps : LinePieces size ps) : LinePieces size (p :: ps)

theorem piecesFrom_linePieces {size room : Nat} {piece l : Bytes} (hl : newline ∉ l)
    (hpiece : newline ∉ piece) (hroom : piece.length + room = size) (hpos : 0 < room) :
    LinePieces size (piecesFrom size room piece (l ++ [newline])) := by
  induction l generalizing room piece with
  | nil =>
    rw [List.nil_append, piecesFrom, if_pos (.inl rfl)]
    exact .last hpiece
  | cons b l ih =>
    obtain ⟨hb, hl⟩ := not_or.mp (mt List.mem_cons.mpr hl)
    have hpiece' : newline ∉ piece ++ [b] := by
      rw [List.mem_append, List.mem_singleton]
      exact not_or.mpr ⟨hpiece, hb⟩
    rw [List.cons_append, piecesFrom]
    split
    · next hend =>
      have hone := hend.resolve_left (Ne.symm hb)
      refine .more hpiece' ?_ (ih hl List.not_mem_nil (Nat.zero_add size) (by omega))
      rw [List.length_append, List.length_singleton]
      omega
    · next hgo =>
      refine ih hl hpiece' ?_ (by omega)
      rw [List.length_append, List.length_singleton]
      omega

theorem linePieces {size : Nat} {l : Bytes} (hl : newline ∉ l) (hsize : 0 < size) :
    LinePieces size (pieces size (l ++ [newline])) :=
  piecesFrom_linePieces hl List.not_mem_nil (Nat.zero_add size) hsize

/-! ## 2. Directives -/

/-- `isspace`. -/
def isSpace (b : UInt8) : Bool := b == 32 || (9 ≤ b && b ≤ 13)

/-- The words of a text between white space. -/
def fields (s : Bytes) : List Bytes := wordsBy isSpace s

/-- `strstr`: the text from the first place on where `t` stands. -/
def strstr (t : Bytes) : Bytes → Option Bytes
  | [] => if t = [] then some [] else none
  | b :: s => if t.isPrefixOf (b :: s) then some (b :: s) else strstr t s

/-- A blank in the format. -/
def skipSpace (s : Bytes) : Bytes := s.dropWhile isSpace

/-- Other characters of the format. -/
def literal (t s : Bytes) : Option Bytes := if t.isPrefixOf s then some (s.drop t.length) else none

/-- A number may have a sign. -/
def skipSign (s : Bytes) : Bytes := if s.head? = some 43 ∨ s.head? = some 45 then s.tail else s

/-- `%*u`: what follows the number. -/
def scanUnsigned (s : Bytes) : Option Bytes :=
  let digits := skipSign (skipSpace s)
  if (digits.takeWhile isDigit).isEmpty then none else some (digits.dropWhile isDigit)

/-- `%<n>s`. -/
def scanString (n : Nat) (s : Bytes) : Option (Bytes × Bytes) :=
  let s := skipSpace s
  let word := (s.take n).takeWhile fun b => !isSpace b
  if word.isEmpty then none else some (word, s.drop word.length)

/-- White space only. -/
def Blanks (s : Bytes) : Prop := ∀ b ∈ s, isSpace b = true

/-- Nothing, `+` or `-`. -/
def signs : List Bytes := [[], [43], [45]]

/-- The text is over, or does not go on with such a byte. -/
def Stops (p : UInt8 → Bool) (s : Bytes) : Prop := ∀ b ∈ s.head?, p b = false

theorem stops_dropWhile (p : UInt8 → Bool) (s : Bytes) : Stops p (s.dropWhile p) := by
  intro b hb
  have h := List.head?_dropWhile_not p s
  rw [Option.mem_def.mp hb] at h
  exact h

/-- What was read and what is left, where reading goes as far as it can. -/
theorem takeWhile_append_stops {p : UInt8 → Bool} {a s : Bytes} (ha : ∀ b ∈ a, p b = true)
    (hs : Stops p s) : (a ++ s).takeWhile p = a ∧ (a ++ s).dropWhile p = s := by
  rw [List.takeWhile_append_of_pos ha, List.dropWhile_append_of_pos ha]
  cases s with
  | nil => simp
  | cons b s =>
    have hb := hs b rfl
    simp [hb]

theorem skipSpace_append {a s : Bytes} (ha : Blanks a) (hs : Stops isSpace s) :
    skipSpace (a ++ s) = s :=
  (takeWhile_append_stops ha hs).2

theorem skipSpace_form (s : Bytes) : ∃ a, s = a ++ skipSpace s ∧ Blanks a :=
  ⟨s.takeWhile isSpace, List.takeWhile_append_dropWhile.symm, fun _ hb => List.mem_takeWhile_imp hb⟩

@[simp] theorem skipSpace_skipSpace (s : Bytes) : skipSpace (skipSpace s) = skipSpace s :=
  List.dropWhile_idempotent isSpace s

theorem literal_eq_some {t s r : Bytes} : literal t s = some r ↔ s = t ++ r := by
  rw [literal]
  constructor
  · intro h
    split at h
    · next hp =>
      obtain ⟨u, rfl⟩ := List.isPrefixOf_iff_prefix.mp hp
      rw [List.drop_left] at h
      rw [Option.some.inj h]
    · nomatch h
  · rintro rfl
    rw [if_pos (List.isPrefixOf_iff_prefix.mpr (List.prefix_append t r)), List.drop_left]

theorem skipSign_form (s : Bytes) : ∃ sign ∈ signs, s = sign ++ skipSign s := by
  cases s with
  | nil => exact ⟨[], List.mem_cons_self, rfl⟩
  | cons b s =>
    by_cases hb : b = 43 ∨ b = 45
    · refine ⟨[b], by rcases hb with rfl | rfl <;> simp [signs], ?_⟩
      rw [skipSign, if_pos (by simpa using hb)]
      rfl
    · refine ⟨[], List.mem_cons_self, ?_⟩
      rw [skipSign, if_neg (by simpa using hb), List.nil_append]

theorem isSpace_of_isDigit {b : UInt8} (hb : isDigit b = true) : isSpace b = false := by
  simp only [isDigit, Bool.and_eq_true, decide_eq_true_eq] at hb
  simp only [isSpace, Bool.or_eq_false_iff, Bool.and_eq_false_iff, beq_eq_false_iff_ne,
    decide_eq_false_iff_not]
  grind

/-- Digits are neither blanks nor signs. -/
theorem skipSign_number {sign number r : Bytes} (hsign : sign ∈ signs)
    (hnumber : isDecimal number = true) :
    Stops isSpace (sign ++ (number ++ r)) ∧ skipSign (sign ++ (number ++ r)) = number ++ r := by
  cases number with
  | nil => nomatch hnumber
  | cons b number =>
    have hb : isDigit b = true := by
      simp only [isDecimal, List.all_cons, Bool.and_eq_true] at hnumber
      exact hnumber.2.1
    have hspace := isSpace_of_isDigit hb
    simp only [isDigit, Bool.and_eq_true, decide_eq_true_eq] at hb
    have hplus : ¬ (b = 43 ∨ b = 45) := by grind
    simp only [signs, List.mem_cons, List.not_mem_nil, or_false] at hsign
    rcases hsign with rfl | rfl | rfl
    · refine ⟨fun c hc => ?_, ?_⟩
      · obtain rfl := Option.some.inj hc
        exact hspace
      · rw [List.nil_append, skipSign, if_neg (by simpa using hplus)]
    · exact ⟨fun c hc => Option.some.inj hc ▸ rfl, rfl⟩
    · exact ⟨fun c hc => Option.some.inj hc ▸ rfl, rfl⟩

/-- **`%*u`**: blanks, a sign or none, digits as far as they go. -/
theorem scanUnsigned_eq_some {s r : Bytes} : scanUnsigned s = some r ↔
    ∃ a sign number, s = a ++ (sign ++ (number ++ r)) ∧ Blanks a ∧ sign ∈ signs ∧
      isDecimal number = true ∧ Stops isDigit r := by
  constructor
  · intro h
    obtain ⟨a, hs, ha⟩ := skipSpace_form s
    obtain ⟨sign, hsign, hskip⟩ := skipSign_form (skipSpace s)
    simp only [scanUnsigned] at h
    split at h
    · nomatch h
    · next hne =>
      obtain rfl := Option.some.inj h
      refine ⟨a, sign, (skipSign (skipSpace s)).takeWhile isDigit, ?_, ha, hsign, ?_,
        stops_dropWhile isDigit _⟩
      · rw [List.takeWhile_append_dropWhile, ← hskip]
        exact hs
      · rw [isDecimal, List.all_takeWhile, Bool.and_true, Bool.not_eq_true']
        exact Bool.not_eq_true _ ▸ hne
  · rintro ⟨a, sign, number, rfl, ha, hsign, hnumber, hr⟩
    obtain ⟨hstop, hskip⟩ := skipSign_number (r := r) hsign hnumber
    simp only [isDecimal, Bool.and_eq_true, Bool.not_eq_true'] at hnumber
    obtain ⟨htake, hdrop⟩ := takeWhile_append_stops (List.all_eq_true.mp hnumber.2) hr
    rw [scanUnsigned, skipSpace_append ha hstop, hskip, htake, hdrop, hnumber.1]
    rfl

/-- No white space, and at least one byte. -/
structure IsWord (w : Bytes) : Prop where
  nonempty : w ≠ []
  solid : ∀ b ∈ w, isSpace b = false

theorem IsWord.stops {w : Bytes} (h : IsWord w) (r : Bytes) : Stops isSpace (w ++ r) := by
  cases w with
  | nil => exact absurd rfl h.nonempty
  | cons b w =>
    intro c hc
    obtain rfl := Option.some.inj hc
    exact h.solid b List.mem_cons_self

/-- A word as far as it goes, of which `n` bytes are stored. -/
theorem scanString_eq (n : Nat) (s : Bytes) : scanString n s =
    let word := ((skipSpace s).takeWhile fun b => !isSpace b)
    if (word.take n).isEmpty then none
    else some (word.take n, word.drop n ++ (skipSpace s).dropWhile fun b => !isSpace b) := by
  have hsplit : skipSpace s = ((skipSpace s).takeWhile fun b => !isSpace b).take n ++
      (((skipSpace s).takeWhile fun b => !isSpace b).drop n ++
        (skipSpace s).dropWhile fun b => !isSpace b) := by
    rw [← List.append_assoc, List.take_append_drop, List.takeWhile_append_dropWhile]
  simp only [scanString, ← List.take_takeWhile]
  congr 3
  conv_lhs => rw [hsplit]
  rw [List.drop_left' (by rw [← hsplit])]

/-- **`%<n>s`**: blanks, and a word as far as it goes, of which `n` bytes are stored. -/
theorem scanString_eq_some {n : Nat} (hn : 0 < n) {s v r : Bytes} : scanString n s = some (v, r) ↔
    ∃ a w q, s = a ++ (w ++ q) ∧ Blanks a ∧ IsWord w ∧ Stops (fun b => !isSpace b) q ∧
      v = w.take n ∧ r = w.drop n ++ q := by
  rw [scanString_eq]
  dsimp only
  constructor
  · intro h
    obtain ⟨a, hs, ha⟩ := skipSpace_form s
    split at h
    · nomatch h
    · next hne =>
      obtain ⟨rfl, rfl⟩ := Prod.mk.inj (Option.some.inj h)
      refine ⟨a, (skipSpace s).takeWhile fun b => !isSpace b, _, ?_, ha, ⟨?_, ?_⟩,
        stops_dropWhile _ _, rfl, rfl⟩
      · rw [List.takeWhile_append_dropWhile]
        exact hs
      · intro hnil
        rw [hnil] at hne
        simp at hne
      · intro b hb
        simpa using List.mem_takeWhile_imp hb
  · rintro ⟨a, w, q, rfl, ha, hw, hq, rfl, rfl⟩
    have hsolid : ∀ b ∈ w, (!isSpace b) = true := fun b hb => by rw [hw.solid b hb]; rfl
    obtain ⟨htake, hdrop⟩ := takeWhile_append_stops hsolid hq
    rw [skipSpace_append ha (hw.stops q), htake, hdrop, if_neg]
    rw [List.isEmpty_iff, List.take_eq_nil_iff]
    exact not_or.mpr ⟨by omega, hw.nonempty⟩

/-! ## 3. Fields -/

theorem fields_blanks {a : Bytes} (ha : Blanks a) (s : Bytes) : fields (a ++ s) = fields s :=
  wordsBy_separators ha s

theorem fields_skipSpace (s : Bytes) : fields (skipSpace s) = fields s := by
  obtain ⟨a, hs, ha⟩ := skipSpace_form s
  conv_rhs => rw [hs, fields_blanks ha]

/-- Behind white space the text is over, or there is a word. -/
theorem skipSpace_cases (s : Bytes) : skipSpace s = [] ∨
    ∃ w q, skipSpace s = w ++ q ∧ IsWord w ∧ Stops (fun b => !isSpace b) q := by
  have hstop : Stops isSpace (skipSpace s) := stops_dropWhile isSpace s
  cases hs : skipSpace s with
  | nil => exact .inl rfl
  | cons b t =>
    have hb : isSpace b = false := hstop b (by rw [hs]; rfl)
    refine .inr ⟨_, _, List.takeWhile_append_dropWhile.symm, ⟨?_, ?_⟩, stops_dropWhile _ _⟩
    · rw [List.takeWhile_cons_of_pos (by simp [hb])]
      exact List.cons_ne_nil _ _
    · intro c hc
      simpa using List.mem_takeWhile_imp hc

/-- **The first word, and the words behind it.** -/
theorem wordsBy_cons {p : UInt8 → Bool} {w q : Bytes} (hne : w ≠ []) (hw : ∀ b ∈ w, p b = false)
    (hq : Stops (fun b => !p b) q) : wordsBy p (w ++ q) = w :: wordsBy p q := by
  have hone : wordsBy p w = [w] := wordsBy_word hne hw
  cases q with
  | nil => rw [List.append_nil, hone]; rfl
  | cons b q =>
    have hb : p b = true := by simpa using hq b rfl
    have hrest : wordsBy p (b :: q) = wordsBy p q := wordsBy_append p [] q hb
    rw [wordsBy_append p w q hb, hone, hrest, List.singleton_append]

theorem fields_word {w q : Bytes} (hw : IsWord w) (hq : Stops (fun b => !isSpace b) q) :
    fields (w ++ q) = w :: fields q :=
  wordsBy_cons hw.nonempty hw.solid hq

end YiHack.General
