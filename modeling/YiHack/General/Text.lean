/-
  File:      YiHack/General/Text.lean
  Subject:   Texts as a shell takes them apart: lines, words, fields, and what `$( )` keeps.

  Names nothing of the repository.

  * `words_append` -- a blank ends a word, whatever stands before and behind it;
  * **`words_capture_print`** -- the words of printed lines are the words of each, wherever `$( )`
    cut the newlines at the end;
  * `cutKey` -- a line `KEY=VALUE` at its first `=`;
  * `hasWord` -- `grep -w`.
-/
import YiHack.General.Bytes
import Mathlib.Data.List.DropRight

namespace YiHack.General

def newline : UInt8 := 10

def equals : UInt8 := 61

/-! ## 1. Lines and words -/

/-- What ends a word: blank, tab and newline. -/
def isBlank (b : UInt8) : Bool := b == 32 || b == 9 || b == 10

/-- The lines of a file; the last one may lack its newline. -/
def lines (f : Bytes) : List Bytes :=
  let pieces := f.splitOn newline
  if pieces.getLast? = some [] then pieces.dropLast else pieces

/-- `printf '%s\n'` of each. -/
def print (ls : List Bytes) : Bytes := ls.flatMap fun l => l ++ [newline]

/-- `$( )` drops the newlines at the end. -/
def capture (t : Bytes) : Bytes := t.rdropWhile (· == newline)

/-- The words between separators. -/
def wordsBy (p : UInt8 → Bool) (t : Bytes) : List Bytes := (t.splitOnP p).filter fun w => !w.isEmpty

@[simp] theorem wordsBy_nil (p : UInt8 → Bool) : wordsBy p [] = [] := rfl

/-- **A separator ends a word.** -/
theorem wordsBy_append (p : UInt8 → Bool) (s t : Bytes) {b : UInt8} (hb : p b = true) :
    wordsBy p (s ++ b :: t) = wordsBy p s ++ wordsBy p t := by
  simp only [wordsBy, List.splitOnP_append_cons s t hb, List.filter_append]

/-- A word is one word. -/
theorem wordsBy_word {p : UInt8 → Bool} {w : Bytes} (hne : w ≠ []) (hw : ∀ b ∈ w, p b = false) :
    wordsBy p w = [w] := by
  cases w with
  | nil => exact absurd rfl hne
  | cons b bs =>
    simp only [wordsBy, List.splitOnP_eq_singleton hw, List.filter, List.isEmpty, Bool.not_false]

/-- Separators in front do not count. -/
theorem wordsBy_separators {p : UInt8 → Bool} {a : Bytes} (ha : ∀ b ∈ a, p b = true) (s : Bytes) :
    wordsBy p (a ++ s) = wordsBy p s := by
  induction a with
  | nil => rfl
  | cons b a ih =>
    obtain ⟨hb, ha⟩ := List.forall_mem_cons.mp ha
    exact (wordsBy_append p [] (a ++ s) hb).trans (ih ha)

/-- The words a text falls into. -/
def words (t : Bytes) : List Bytes := (t.splitOnP isBlank).filter fun w => !w.isEmpty

@[simp] theorem words_nil : words [] = [] := rfl

/-- **A blank ends a word.** -/
theorem words_append (s t : Bytes) {b : UInt8} (hb : isBlank b = true) :
    words (s ++ b :: t) = words s ++ words t :=
  wordsBy_append isBlank s t hb

theorem words_end (s : Bytes) {b : UInt8} (hb : isBlank b = true) : words (s ++ [b]) = words s := by
  rw [words_append s [] hb, words_nil, List.append_nil]

/-- A word is one word. -/
theorem words_word {w : Bytes} (hne : w ≠ []) (hw : ∀ b ∈ w, isBlank b = false) : words w = [w] :=
  wordsBy_word hne hw

/-- A piece is made of bytes of its text, and no separator is one of them. -/
theorem mem_of_mem_splitOnP {p : UInt8 → Bool} {t w : Bytes} (h : w ∈ t.splitOnP p) :
    ∀ b ∈ w, b ∈ t ∧ p b = false := by
  induction t generalizing w with
  | nil => simp_all
  | cons c t ih =>
    rw [List.splitOnP_cons_eq_if_modifyHead] at h
    split at h
    · intro b hb
      rcases List.mem_cons.mp h with rfl | hw
      · exact absurd hb List.not_mem_nil
      · exact ⟨List.mem_cons_of_mem c (ih hw b hb).1, (ih hw b hb).2⟩
    · rename_i hc
      rcases hsplit : t.splitOnP p with - | ⟨v, vs⟩
      · exact absurd hsplit (List.splitOnP_ne_nil _ _)
      · rw [hsplit] at ih h
        intro b hb
        rcases List.mem_cons.mp h with rfl | hw
        · rcases List.mem_cons.mp hb with rfl | hb
          · exact ⟨List.mem_cons_self, Bool.not_eq_true _ ▸ hc⟩
          · have hv := ih List.mem_cons_self b hb
            exact ⟨List.mem_cons_of_mem c hv.1, hv.2⟩
        · have hv := ih (List.mem_cons_of_mem v hw) b hb
          exact ⟨List.mem_cons_of_mem c hv.1, hv.2⟩

/-- A word is made of bytes of its text. -/
theorem subset_of_mem_words {t w : Bytes} (h : w ∈ words t) : ∀ b ∈ w, b ∈ t :=
  fun b hb => (mem_of_mem_splitOnP (List.mem_of_mem_filter h) b hb).1

/-- A line is made of bytes of its file, and ends before its newline. -/
theorem mem_of_mem_lines {f l : Bytes} (h : l ∈ lines f) : ∀ b ∈ l, b ∈ f ∧ b ≠ newline := by
  have hpiece : l ∈ f.splitOnP (· == newline) := by
    rw [lines] at h
    split at h
    · exact List.dropLast_subset _ h
    · exact h
  intro b hb
  have hb := mem_of_mem_splitOnP hpiece b hb
  exact ⟨hb.1, by simpa using hb.2⟩

theorem print_cons (l : Bytes) (ls : List Bytes) : print (l :: ls) = l ++ newline :: print ls := by
  simp only [print, List.flatMap_cons, List.append_assoc, List.singleton_append]

/-- **Lines that are printed read back.** -/
theorem lines_print {ls : List Bytes} (h : ∀ l ∈ ls, newline ∉ l) : lines (print ls) = ls := by
  have hpieces : (print ls).splitOn newline = ls ++ [[]] := by
    induction ls with
    | nil => rfl
    | cons l ls ih =>
      have hl : ∀ b ∈ l, (b == newline) = false := fun b hb => by
        rw [beq_eq_false_iff_ne]
        rintro rfl
        exact h l List.mem_cons_self hb
      have ih := ih fun l' hl' => h l' (List.mem_cons_of_mem l hl')
      rw [List.splitOn] at ih ⊢
      rw [print_cons, List.splitOnP_append_cons l _ (by rfl), ih, List.splitOnP_eq_singleton hl,
        List.cons_append, List.cons_append, List.nil_append]
  rw [lines, hpieces, if_pos List.getLast?_concat, List.dropLast_concat]

theorem words_capture (t : Bytes) : words (capture t) = words t := by
  induction t using List.reverseRecOn with
  | nil => rfl
  | append_singleton t b ih =>
    by_cases hb : b = newline
    · rw [capture, List.rdropWhile_concat_pos _ _ _ (by simp [hb]), ← capture, ih,
        words_end t (by simp [hb, isBlank, newline])]
    · rw [capture, List.rdropWhile_concat_neg _ _ _ (by simpa using hb)]

theorem words_print (ls : List Bytes) : words (print ls) = ls.flatMap words := by
  induction ls with
  | nil => rfl
  | cons l ls ih =>
    rw [print_cons, words_append l _ rfl, ih, List.flatMap_cons]

/-- **The words of printed lines are the words of each.** -/
theorem words_capture_print (ls : List Bytes) : words (capture (print ls)) = ls.flatMap words := by
  rw [words_capture, words_print]

/-! ## 2. Keys and values -/

/-- A line at its first `=`. -/
def cutKey (l : Bytes) : Option (Bytes × Bytes) :=
  match l.dropWhile (· != equals) with
  | [] => none
  | _ :: value => some (l.takeWhile (· != equals), value)

/-- `cut -d "=" -f2-`: a line without `=` stays as it is. -/
def cutValue (l : Bytes) : Bytes :=
  match cutKey l with
  | none => l
  | some (_, value) => value

theorem cutKey_append {k : Bytes} (hk : equals ∉ k) (v : Bytes) :
    cutKey (k ++ equals :: v) = some (k, v) := by
  have hall : ∀ b ∈ k, (b != equals) = true := fun b hb => by
    rw [bne_iff_ne]
    rintro rfl
    exact hk hb
  have hstop : (equals :: v).takeWhile (· != equals) = [] := by simp
  rw [cutKey, List.dropWhile_append_of_pos hall, List.takeWhile_append_of_pos hall, hstop,
    List.append_nil]
  simp

/-- Letters, digits and the underscore. -/
def isWordByte (b : UInt8) : Bool :=
  (48 ≤ b && b ≤ 57) || (65 ≤ b && b ≤ 90) || (97 ≤ b && b ≤ 122) || b == 95

/-- `w` stands at the head of `l` and no longer word does. -/
def wordAt (w l : Bytes) : Bool := w.isPrefixOf l && !((l.drop w.length).head?.any isWordByte)

/-- The line has `w` as a word; `before` is the byte in front of it. -/
def hasWordFrom (w : Bytes) : Option UInt8 → Bytes → Bool
  | before, [] => !before.any isWordByte && wordAt w []
  | before, b :: l => (!before.any isWordByte && wordAt w (b :: l)) || hasWordFrom w (some b) l

/-- `grep -w`. -/
def hasWord (w l : Bytes) : Bool := hasWordFrom w none l

end YiHack.General
