/-
  File:      YiHack/General/Find.lean
  Subject:   A text as `std::string` searches it, by positions, and the lines ending in CRLF.

  Names nothing of the repository.

  * `findFrom` -- the first place where a test holds of the rest; `findFrom_append`;
  * `find`, `findFirstOf`, `findFirstNotOf` -- the searches; `find_eq_some`;
  * `Line`, `crlfText`, `crlfLines` -- lines and the text they make;
  * **`find_line`** -- a search that begins with CRLF goes from one line to the next.
-/
import YiHack.General.Scan

namespace YiHack.General

/-! ## 1. Searches -/

/-- The first place where a test holds of the rest of the text, which begins at `i`. -/
def findFrom (q : Bytes → Bool) : Nat → Bytes → Option Nat
  | _, [] => none
  | i, b :: s => if q (b :: s) then some i else findFrom q (i + 1) s

/-- `find`, for a pattern that is not empty; nothing for `npos`. -/
def find (s pattern : Bytes) (pos : Nat) : Option Nat :=
  findFrom pattern.isPrefixOf pos (s.drop pos)

/-- `find_first_of`. -/
def findFirstOf (p : UInt8 → Bool) (s : Bytes) (pos : Nat) : Option Nat :=
  findFrom (fun t => t.head?.any p) pos (s.drop pos)

/-- `find_first_not_of`. -/
def findFirstNotOf (p : UInt8 → Bool) (s : Bytes) (pos : Nat) : Option Nat :=
  findFirstOf (fun b => !p b) s pos

/-- `substr(start, stop - start)`. -/
def substr (s : Bytes) (start : Nat) (stop : Option Nat) : Bytes :=
  match stop with
  | none => s.drop start
  | some stop => (s.drop start).take (stop - start)

section Search

variable {q : Bytes → Bool} {a s t w pattern : Bytes}

/-- The search passes over what the test refuses. -/
theorem findFrom_append (h : ∀ u v, a = u ++ v → v ≠ [] → q (v ++ s) = false) (i : Nat) :
    findFrom q i (a ++ s) = findFrom q (i + a.length) s := by
  induction a generalizing i with
  | nil => rfl
  | cons b a ih =>
    have hb : q (b :: (a ++ s)) = false := h [] (b :: a) rfl (List.cons_ne_nil b a)
    rw [List.cons_append, findFrom, hb, if_neg Bool.false_ne_true,
      ih fun u v huv => h (b :: u) v (by rw [huv, List.cons_append]), List.length_cons]
    exact congrArg (findFrom q · s) (by omega)

theorem findFrom_shift (i : Nat) : findFrom q i s = (findFrom q 0 s).map (i + ·) := by
  induction s generalizing i with
  | nil => rfl
  | cons b s ih =>
    rw [findFrom, findFrom]
    split
    · rfl
    · rw [ih, ih (0 + 1), Option.map_map]
      congr 1
      funext j
      show i + 1 + j = i + (0 + 1 + j)
      omega

theorem findFrom_here (hs : q s = true) (hne : s ≠ []) (i : Nat) : findFrom q i s = some i := by
  cases s with
  | nil => exact absurd rfl hne
  | cons b s => rw [findFrom, if_pos hs]

theorem findFrom_none (h : ∀ u v, a = u ++ v → v ≠ [] → q v = false) (i : Nat) :
    findFrom q i a = none := by
  have hnil := findFrom_append (q := q) (a := a) (s := []) (fun u v huv hv => by
    rw [List.append_nil]
    exact h u v huv hv) i
  rwa [List.append_nil] at hnil

/-- A search from where a part of the text ends. -/
theorem find_append (a s pattern : Bytes) :
    find (a ++ s) pattern a.length = findFrom pattern.isPrefixOf a.length s := by
  rw [find, List.drop_left]

theorem findFrom_eq_some {i j : Nat} (h : findFrom pattern.isPrefixOf i w = some j) :
    ∃ u v, w = u ++ (pattern ++ v) ∧ j = i + u.length ∧
      ∀ x y, u = x ++ y → y ≠ [] → ¬ pattern <+: y ++ (pattern ++ v) := by
  induction w generalizing i with
  | nil => exact absurd h nofun
  | cons b w ih =>
    rw [findFrom] at h
    split at h
    · next hb =>
      obtain ⟨v, hv⟩ := List.isPrefixOf_iff_prefix.mp hb
      refine ⟨[], v, hv.symm, by rw [← Option.some.inj h]; rfl, ?_⟩
      intro x y hxy hy
      exact absurd (List.append_eq_nil_iff.mp hxy.symm).2 hy
    · next hb =>
      obtain ⟨u, v, rfl, rfl, hfirst⟩ := ih h
      refine ⟨b :: u, v, rfl, by rw [List.length_cons]; omega, ?_⟩
      intro x y hxy hy
      cases x with
      | nil =>
        obtain rfl := hxy.symm
        exact fun hp => hb (List.isPrefixOf_iff_prefix.mpr hp)
      | cons c x => exact hfirst x y (List.cons.inj hxy).2 hy

theorem findFrom_eq_none (hne : pattern ≠ []) {i : Nat} :
    findFrom pattern.isPrefixOf i w = none ↔ ¬ pattern <:+: w := by
  constructor
  · rintro h ⟨u, v, rfl⟩
    induction u generalizing i with
    | nil =>
      cases pattern with
      | nil => exact hne rfl
      | cons b pattern =>
        have hb : (b :: pattern).isPrefixOf (b :: (pattern ++ v)) = true :=
          List.isPrefixOf_iff_prefix.mpr (List.prefix_append (b :: pattern) v)
        rw [List.nil_append, List.cons_append, findFrom, if_pos hb] at h
        exact absurd h nofun
    | cons b u ih =>
      rw [List.cons_append, List.cons_append, findFrom] at h
      split at h
      · exact absurd h nofun
      · exact ih h
  · intro h
    refine findFrom_none (fun u v huv _ => ?_) i
    by_contra hp
    obtain ⟨x, hx⟩ := List.isPrefixOf_iff_prefix.mp (Bool.not_eq_false _ ▸ hp)
    exact h ⟨u, x, by rw [List.append_assoc, hx, huv]⟩

/-- A byte that is not in the pattern ends it. -/
theorem prefix_append_cons {b : UInt8} (h : b ∉ pattern) :
    pattern <+: w ++ b :: t ↔ pattern <+: w := by
  constructor
  · intro hp
    rcases List.prefix_or_prefix_of_prefix hp (List.prefix_append w (b :: t)) with hp | ⟨x, rfl⟩
    · exact hp
    · rw [List.prefix_append_right_inj] at hp
      cases x with
      | nil => simp
      | cons c x =>
        obtain rfl := (List.cons_prefix_cons.mp hp).1
        exact absurd (List.mem_append_right w List.mem_cons_self) h
  · exact fun hp => hp.trans (List.prefix_append w _)

end Search

/-! ## 2. Lines -/

section Lines

def crlf : Bytes := [13, 10]

/-- A text without a line end. -/
def Line (w : Bytes) : Prop := ¬ crlf <:+: w

instance (w : Bytes) : Decidable (Line w) :=
  decidable_of_iff (findFrom crlf.isPrefixOf 0 w = none) (findFrom_eq_none (by decide))

/-- Lines with their ends. -/
def crlfText (ls : List Bytes) : Bytes := ls.flatMap (· ++ crlf)

/-- The lines of a text that have an end. -/
def crlfLinesFrom (line : Bytes) : Bytes → List Bytes
  | [] => []
  | [_] => []
  | b :: c :: t =>
    if b = 13 ∧ c = 10 then line :: crlfLinesFrom [] t else crlfLinesFrom (line ++ [b]) (c :: t)

def crlfLines (t : Bytes) : List Bytes := crlfLinesFrom [] t

variable {q t u w pattern : Bytes} {ls : List Bytes}

theorem crlfText_cons (w : Bytes) (ls : List Bytes) :
    crlfText (w :: ls) = w ++ (crlf ++ crlfText ls) := by
  rw [crlfText, List.flatMap_cons, List.append_assoc]
  rfl

theorem crlfText_append (ls ms : List Bytes) : crlfText (ls ++ ms) = crlfText ls ++ crlfText ms :=
  List.flatMap_append

theorem Line.of_suffix (h : Line (u ++ w)) : Line w :=
  fun hw => h (hw.trans (List.suffix_append u w).isInfix)

/-- No line end begins in a line, be it before another line end. -/
theorem Line.no_end (h : Line w) (hne : w ≠ []) (ht : t.head? ≠ some 10) : ¬ crlf <+: w ++ t := by
  intro hp
  match w, hne with
  | [b], _ =>
    rw [List.singleton_append] at hp
    obtain ⟨x, hx⟩ := (List.cons_prefix_cons.mp hp).2
    exact ht (hx ▸ rfl)
  | b :: c :: w, _ =>
    obtain ⟨rfl, hc⟩ := List.cons_prefix_cons.mp hp
    obtain ⟨rfl, -⟩ := List.cons_prefix_cons.mp hc
    exact h (List.prefix_append [13, 10] w).isInfix

/-- **A search that begins with CRLF goes from one line to the next.** -/
theorem find_line (hw : Line w) (i : Nat) :
    findFrom (crlf ++ q).isPrefixOf i (w ++ (crlf ++ t)) =
      if q.isPrefixOf t then some (i + w.length)
      else findFrom (crlf ++ q).isPrefixOf (i + w.length + 2) t := by
  have hpass : ∀ u v, w = u ++ v → v ≠ [] → (crlf ++ q).isPrefixOf (v ++ (crlf ++ t)) = false := by
    intro u v huv hv
    rw [← Bool.not_eq_true, List.isPrefixOf_iff_prefix]
    intro hp
    exact (huv ▸ hw : Line (u ++ v)).of_suffix.no_end hv (by simp [crlf])
      ((List.prefix_append crlf q).trans hp)
  rw [findFrom_append hpass]
  simp [crlf, findFrom]

theorem find_rest (hw : Line w) (i : Nat) : findFrom (crlf ++ q).isPrefixOf i w = none := by
  refine findFrom_none (fun u v huv hv => ?_) i
  rw [← Bool.not_eq_true, List.isPrefixOf_iff_prefix]
  intro hp
  have hend := (huv ▸ hw : Line (u ++ v)).of_suffix.no_end (t := []) hv (by simp)
  rw [List.append_nil] at hend
  exact hend ((List.prefix_append crlf q).trans hp)

/-- A search for a part of a line. -/
theorem find_inner (hne : pattern ≠ []) (h13 : 13 ∉ pattern) (h10 : 10 ∉ pattern) (i : Nat) :
    findFrom pattern.isPrefixOf i (w ++ (crlf ++ t)) = (findFrom pattern.isPrefixOf i w).or
      (findFrom pattern.isPrefixOf (i + w.length + 2) t) := by
  have hhead : ∀ b x, b ∉ pattern → ¬ pattern <+: b :: x := by
    intro b x hb hp
    cases pattern with
    | nil => exact hne rfl
    | cons c pattern => exact hb ((List.cons_prefix_cons.mp hp).1 ▸ List.mem_cons_self)
  induction w generalizing i with
  | nil =>
    have h1 : pattern.isPrefixOf (13 :: 10 :: t) = false := by
      rw [← Bool.not_eq_true, List.isPrefixOf_iff_prefix]
      exact hhead 13 _ h13
    have h2 : pattern.isPrefixOf (10 :: t) = false := by
      rw [← Bool.not_eq_true, List.isPrefixOf_iff_prefix]
      exact hhead 10 _ h10
    simp [findFrom, crlf, h1, h2]
  | cons b w ih =>
    have hb : pattern.isPrefixOf (b :: (w ++ (crlf ++ t))) = pattern.isPrefixOf (b :: w) := by
      rw [Bool.eq_iff_iff, List.isPrefixOf_iff_prefix, List.isPrefixOf_iff_prefix]
      exact prefix_append_cons (w := b :: w) h13
    rw [List.cons_append, findFrom, hb, findFrom]
    split
    · rfl
    · rw [ih, List.length_cons]
      congr 2
      omega

/-- Lines without it are passed over. -/
theorem find_lines (hne : pattern ≠ []) (h13 : 13 ∉ pattern) (h10 : 10 ∉ pattern)
    (hls : ∀ l ∈ ls, ¬ pattern <:+: l) (i : Nat) (t : Bytes) :
    findFrom pattern.isPrefixOf i (crlfText ls ++ t) =
      findFrom pattern.isPrefixOf (i + (crlfText ls).length) t := by
  induction ls generalizing i with
  | nil => rfl
  | cons l ls ih =>
    obtain ⟨hl, hls⟩ := List.forall_mem_cons.mp hls
    rw [crlfText_cons, List.append_assoc, List.append_assoc, find_inner hne h13 h10,
      (findFrom_eq_none hne).mpr hl, Option.none_or, ih hls, List.length_append, List.length_append]
    congr 1
    simp only [crlf, List.length_cons, List.length_nil]
    omega

/-- The first line with the pattern, and what stands in it before the pattern. -/
theorem first_line (hne : pattern ≠ []) (hls : ∃ l ∈ ls, pattern <:+: l) :
    ∃ a u v c, ls = a ++ (u ++ (pattern ++ v)) :: c ∧ (∀ l ∈ a, ¬ pattern <:+: l) ∧
      findFrom pattern.isPrefixOf 0 (u ++ (pattern ++ v)) = some u.length := by
  induction ls with
  | nil =>
    obtain ⟨l, hl, -⟩ := hls
    exact absurd hl List.not_mem_nil
  | cons l ls ih =>
    by_cases hl : pattern <:+: l
    · obtain ⟨j, hj⟩ : ∃ j, findFrom pattern.isPrefixOf 0 l = some j :=
        Option.ne_none_iff_exists'.mp fun h => (findFrom_eq_none hne).mp h hl
      obtain ⟨u, v, rfl, hu, -⟩ := findFrom_eq_some hj
      obtain rfl : j = u.length := by omega
      exact ⟨[], u, v, ls, rfl, nofun, hj⟩
    · obtain ⟨l', hmem, hl'⟩ := hls
      have hls : ∃ l ∈ ls, pattern <:+: l := by
        rcases List.mem_cons.mp hmem with rfl | hmem
        · exact absurd hl' hl
        · exact ⟨l', hmem, hl'⟩
      obtain ⟨a, u, v, c, rfl, ha, hu⟩ := ih hls
      exact ⟨l :: a, u, v, c, rfl, List.forall_mem_cons.mpr ⟨hl, ha⟩, hu⟩

/-- **The search finds it there.** -/
theorem find_first {a c : List Bytes} {l : Bytes} {j : Nat} (hne : pattern ≠ [])
    (h13 : 13 ∉ pattern) (h10 : 10 ∉ pattern) (ha : ∀ l ∈ a, ¬ pattern <:+: l)
    (hl : findFrom pattern.isPrefixOf 0 l = some j) (t : Bytes) :
    findFrom pattern.isPrefixOf 0 (crlfText (a ++ l :: c) ++ t) =
      some ((crlfText a).length + j) := by
  rw [crlfText_append, crlfText_cons, List.append_assoc, find_lines hne h13 h10 ha,
    List.append_assoc, List.append_assoc, find_inner hne h13 h10, findFrom_shift, hl, Nat.zero_add]
  rfl

/-- How a text begins: with a line and its end, or it has no line end. -/
theorem line_or_rest (t : Bytes) : (∃ w r, t = w ++ (crlf ++ r) ∧ Line w) ∨ Line t := by
  cases h : findFrom crlf.isPrefixOf 0 t with
  | none => exact .inr ((findFrom_eq_none (by decide)).mp h)
  | some j =>
    obtain ⟨w, r, rfl, -, hfirst⟩ := findFrom_eq_some h
    refine .inl ⟨w, r, rfl, ?_⟩
    rintro ⟨x, y, rfl⟩
    refine hfirst x (crlf ++ y) (by rw [List.append_assoc]) (by simp [crlf]) ?_
    rw [List.append_assoc]
    exact List.prefix_append crlf _

theorem crlfLinesFrom_line {line : Bytes} (hw : Line w) :
    crlfLinesFrom line (w ++ (crlf ++ t)) = (line ++ w) :: crlfLines t := by
  induction w generalizing line with
  | nil => simp [crlf, crlfLinesFrom, crlfLines]
  | cons b w ih =>
    have hb := hw.no_end (t := crlf ++ t) (List.cons_ne_nil b w) (by simp [crlf])
    have hcons : ∃ c x, w ++ (crlf ++ t) = c :: x := by cases w <;> simp [crlf]
    obtain ⟨c, x, hx⟩ := hcons
    have hne : ¬ (b = 13 ∧ c = 10) := by
      rintro ⟨rfl, rfl⟩
      rw [List.cons_append, hx] at hb
      exact hb (List.prefix_append [13, 10] x)
    rw [List.cons_append, hx, crlfLinesFrom, if_neg hne, ← hx, ih (Line.of_suffix (u := [b]) hw),
      List.append_assoc, List.singleton_append]

theorem crlfLines_line (hw : Line w) : crlfLines (w ++ (crlf ++ t)) = w :: crlfLines t := by
  rw [crlfLines, crlfLinesFrom_line hw, List.nil_append]

theorem crlfLines_rest (hw : Line w) : crlfLines w = [] := by
  have h : ∀ line, crlfLinesFrom line w = [] := by
    induction w with
    | nil => exact fun _ => rfl
    | cons b w ih =>
      intro line
      cases w with
      | nil => rfl
      | cons c w =>
        have hb : ¬ (b = 13 ∧ c = 10) := by
          rintro ⟨rfl, rfl⟩
          exact hw (List.prefix_append [13, 10] w).isInfix
        rw [crlfLinesFrom, if_neg hb]
        exact ih (Line.of_suffix (u := [b]) hw) _
  exact h []

/-- A text is cut at its first line end in one way only. -/
theorem line_inj {w w' t t' : Bytes} (hw : Line w) (hw' : Line w')
    (h : w ++ (crlf ++ t) = w' ++ (crlf ++ t')) : w = w' ∧ t = t' := by
  have hlines := congrArg crlfLines h
  rw [crlfLines_line hw, crlfLines_line hw'] at hlines
  obtain rfl := (List.cons.inj hlines).1
  exact ⟨rfl, List.append_cancel_left (List.append_cancel_left h)⟩

end Lines

end YiHack.General
