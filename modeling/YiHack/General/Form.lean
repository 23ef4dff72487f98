/-
  File:      YiHack/General/Form.lean
  Subject:   A file as a browser posts it, and a shell script that cuts it out by its rows.

  Names nothing of the repository. The body of a form with one file is four rows, the contents, and
  a row that ends it; the script looks at the rows and counts bytes.

  * `rows_print`, `skip_print` -- the first rows, and where what is behind them begins;
  * `quoted`, `quoted_last` -- `sed 's/.*NAME="\([^"]*\)".*/\1/'`: the last value in quotes;
  * `Form.body` -- what the browser sends;
  * **`Form.cut_arrived`** -- what is cut out is the contents, as far as the body arrived.
-/
import YiHack.General.LineEdit
import Mathlib.Data.List.Count

namespace YiHack.General

/-! ## 1. Rows -/

/-- `$(sed -n 'np')`, rows counted from 0. -/
def row (f : Bytes) (n : Nat) : Bytes := (lines f).getD n []

/-- The rows before `n`. -/
def rows (f : Bytes) (n : Nat) : List Bytes := (List.range n).map (row f)

/-- The bytes of the rows before `n`, if each has its newline. -/
def skip (f : Bytes) (n : Nat) : Nat := ((rows f n).map fun l => l.length + 1).sum

theorem row_of_rows {n i : Nat} {ls : List Bytes} (h : rows f n = ls) (hi : i < n) :
    row f i = ls.getD i [] := by
  subst h
  rw [rows, List.getD_eq_getElem?_getD, List.getElem?_map, List.getElem?_range hi]
  rfl

theorem length_print (ls : List Bytes) :
    (print ls).length = (ls.map fun l => l.length + 1).sum := by
  induction ls with
  | nil => rfl
  | cons l ls ih =>
    rw [print_cons, List.length_append, List.length_cons, ih, List.map_cons, List.sum_cons]
    omega

/-- **Printed rows and what follows.** -/
theorem lines_print_append {ls : List Bytes} (hls : ∀ l ∈ ls, newline ∉ l) (r : Bytes) :
    lines (print ls ++ r) = ls ++ lines r := by
  induction ls with
  | nil => rfl
  | cons l ls ih =>
    obtain ⟨hl, hls⟩ := List.forall_mem_cons.mp hls
    have hsplit : (print (l :: ls) ++ r).splitOn newline =
        l :: (print ls ++ r).splitOn newline := by
      rw [print_cons, List.append_assoc, List.cons_append, List.splitOn,
        List.splitOnP_append_cons l _ (by rfl), List.splitOnP_eq_singleton, List.singleton_append]
      · rfl
      · intro b hb
        rw [beq_eq_false_iff_ne]
        intro he
        exact hl (he ▸ hb)
    have hne : (print ls ++ r).splitOn newline ≠ [] := List.splitOnP_ne_nil _ _
    rw [List.cons_append, ← ih hls, lines, lines, hsplit, List.getLast?_cons_of_ne_nil hne]
    split
    · exact List.dropLast_cons_of_ne_nil hne
    · rfl

theorem rows_print {ls : List Bytes} (hls : ∀ l ∈ ls, newline ∉ l) (r : Bytes) :
    rows (print ls ++ r) ls.length = ls := by
  apply List.ext_getElem
  · rw [rows, List.length_map, List.length_range]
  · intro i hi hi'
    have hrow : row (print ls ++ r) i = ls[i] := by
      rw [row, lines_print_append hls, List.getD_eq_getElem?_getD, List.getElem?_append_left hi',
        List.getElem?_eq_getElem hi']
      rfl
    simp only [rows, List.getElem_map, List.getElem_range, hrow]

theorem skip_print {ls : List Bytes} (hls : ∀ l ∈ ls, newline ∉ l) (r : Bytes) :
    skip (print ls ++ r) ls.length = (print ls).length := by
  rw [skip, rows_print hls, length_print]

theorem skip_succ (f : Bytes) (n : Nat) : skip f (n + 1) = skip f n + ((row f n).length + 1) := by
  simp only [skip, rows, List.range_succ, List.map_append, List.sum_append, List.map_cons,
    List.map_nil, List.sum_cons, List.sum_nil, Nat.add_zero]

theorem skip_mono (f : Bytes) {m n : Nat} (h : m ≤ n) : skip f m ≤ skip f n := by
  induction h with
  | refl => exact Nat.le_refl _
  | step _ ih => exact ih.trans (by rw [skip_succ]; exact Nat.le_add_right ..)

theorem row_whole (f : Bytes) : row f (whole f).length = rest f := by
  rw [row, lines_eq, List.getD_eq_getElem?_getD, List.getElem?_append_right (Nat.le_refl _),
    Nat.sub_self]
  split
  · rename_i hr
    rw [hr]
    rfl
  · rfl

/-- **Nothing is behind rows that are not all there.** -/
theorem whole_of_skip_lt {f : Bytes} {n : Nat} (h : skip f n < f.length) :
    ∃ ls r, ls.length = n ∧ (∀ l ∈ ls, newline ∉ l) ∧ f = print ls ++ r := by
  by_cases hn : n ≤ (whole f).length
  · refine ⟨(whole f).take n, print ((whole f).drop n) ++ rest f, ?_, ?_, ?_⟩
    · rw [List.length_take, Nat.min_eq_left hn]
    · exact fun l hl => (whole_single f).1 l (List.mem_of_mem_take hl)
    · rw [← List.append_assoc, print, print, ← List.flatMap_append, List.take_append_drop]
      exact (print_whole f).symm
  · refine absurd h (not_lt.mpr ?_)
    have hskip : skip f (whole f).length = (print (whole f)).length := by
      have := skip_print (whole_single f).1 (rest f)
      rwa [print_whole] at this
    calc f.length = (print (whole f)).length + (rest f).length := by
          rw [← List.length_append, print_whole]
      _ ≤ skip f ((whole f).length + 1) := by rw [skip_succ, row_whole, hskip]; omega
      _ ≤ skip f n := skip_mono f (by omega)

/-! ## 2. A value in quotes -/

def quote : UInt8 := 34

/-- What stands before the next quote, if there is one. -/
def closed (s : Bytes) : Option Bytes :=
  if quote ∈ s then some (s.takeWhile (· != quote)) else none

/-- `sed -n 's/.*MARK\([^"]*\)".*/\1/p'` of a line: the last match counts. -/
def quoted (mark : Bytes) : Bytes → Option Bytes
  | [] => none
  | b :: s =>
    match quoted mark s with
    | some v => some v
    | none => if mark.isPrefixOf (b :: s) then closed ((b :: s).drop mark.length) else none

section

variable {m v t u s mark : Bytes}

theorem closed_append (hv : quote ∉ v) (t : Bytes) : closed (v ++ quote :: t) = some v := by
  rw [closed, if_pos (List.mem_append_right v List.mem_cons_self), List.takeWhile_append_of_pos]
  · simp
  · intro b hb
    rw [bne_iff_ne]
    exact fun he => hv (he ▸ hb)

/-- One quote is not enough. -/
theorem quoted_none (h : s.count quote ≤ 1) : quoted (m ++ [quote]) s = none := by
  induction s with
  | nil => rfl
  | cons b s ih =>
    rw [quoted, ih ((List.count_le_count_cons ..).trans h)]
    dsimp only
    split
    · rename_i hp
      obtain ⟨r, hr⟩ := List.isPrefixOf_iff_prefix.mp hp
      rw [← hr, List.drop_left, closed, if_neg]
      rw [← hr, List.count_append, List.count_append, List.count_singleton_self] at h
      exact List.count_eq_zero.mp (by omega)
    · rfl

/-- No match begins within the mark. -/
theorem quoted_within (hm : quote ∉ m) (hu : u.length < m.length) (hus : quote ∉ u)
    (h : s.count quote ≤ 1) : quoted (m ++ [quote]) (u ++ quote :: s) = none := by
  induction u with
  | nil =>
    rw [List.nil_append, quoted, quoted_none h]
    dsimp only
    refine if_neg fun hp => ?_
    cases m with
    | nil => exact absurd hu (Nat.lt_irrefl _)
    | cons c m =>
      obtain ⟨r, hr⟩ := List.isPrefixOf_iff_prefix.mp hp
      rw [List.cons_append, List.cons_append] at hr
      exact hm ((List.cons.inj hr).1 ▸ List.mem_cons_self)
  | cons b u ih =>
    have hus' := List.not_mem_of_not_mem_cons hus
    rw [List.cons_append, quoted, ih (Nat.lt_of_succ_lt hu) hus']
    dsimp only
    refine if_neg fun hp => ?_
    -- the first quote of the mark would stand behind the first quote of the text
    obtain ⟨r, hr⟩ := List.isPrefixOf_iff_prefix.mp hp
    rw [← List.cons_append, List.append_assoc] at hr
    have hsame := (sep_inj hm hus hr).1
    rw [hsame, List.length_cons] at hu
    omega

/-- **The last value in quotes.** -/
theorem quoted_last (hm : quote ∉ m) (hne : m ≠ []) (hv : quote ∉ v) (ht : quote ∉ t) (a : Bytes) :
    quoted (m ++ [quote]) (a ++ (m ++ quote :: (v ++ quote :: t))) = some v := by
  induction a with
  | nil =>
    cases m with
    | nil => exact absurd rfl hne
    | cons c m =>
      have hm' := List.not_mem_of_not_mem_cons hm
      have hcount : (v ++ quote :: t).count quote ≤ 1 := by
        rw [List.count_append, List.count_cons_self, List.count_eq_zero.mpr hv,
          List.count_eq_zero.mpr ht]
      show quoted (c :: m ++ [quote]) (c :: (m ++ quote :: (v ++ quote :: t))) = some v
      rw [quoted, quoted_within hm (Nat.lt_succ_self _) hm' hcount]
      have htext : c :: (m ++ quote :: (v ++ quote :: t)) =
          (c :: m ++ [quote]) ++ (v ++ quote :: t) := by
        rw [List.append_assoc, List.singleton_append, List.cons_append]
      dsimp only
      rw [htext, if_pos (List.isPrefixOf_iff_prefix.mpr (List.prefix_append ..)), List.drop_left,
        closed_append hv]
  | cons b a ih =>
    rw [List.cons_append, quoted, ih]

end

/-! ## 3. What a browser sends -/

def cr : UInt8 := 13

/-- A form with one file. What a browser puts in quotes has none, and nothing has the end of a
    line. -/
structure Form where
  boundary : Bytes
  field : Bytes
  filename : Bytes
  type : Bytes
  content : Bytes
  single : ∀ b ∈ boundary ++ field ++ filename ++ type, b ≠ newline ∧ b ≠ cr
  unquoted : quote ∉ field ∧ quote ∉ filename

namespace Form

/-- What `name="` and `filename="` come to. -/
def nameMark : Bytes := ascii "Content-Disposition: form-data; name="

def filenameMark : Bytes := ascii "filename="

def disposition (F : Form) : Bytes :=
  nameMark ++ quote :: F.field ++ quote :: ascii "; " ++
    (filenameMark ++ quote :: (F.filename ++ quote :: [cr]))

/-- The rows before the contents. -/
def header (F : Form) : List Bytes :=
  [ascii "--" ++ F.boundary ++ [cr], F.disposition, ascii "Content-Type: " ++ F.type ++ [cr], [cr]]

/-- What is behind the contents. -/
def close (F : Form) : Bytes :=
  cr :: newline :: (ascii "--" ++ F.boundary ++ ascii "--") ++ [cr, newline]

def body (F : Form) : Bytes := print F.header ++ (F.content ++ F.close)

variable (F : Form)

theorem header_single : ∀ l ∈ F.header, newline ∉ l := by
  have hpart : ∀ p : Bytes, p ⊆ F.boundary ++ F.field ++ F.filename ++ F.type → newline ∉ p :=
    fun p hp hmem => (F.single newline (hp hmem)).1 rfl
  have hboundary : newline ∉ F.boundary := hpart _ fun b hb => by simp [hb]
  have hfield : newline ∉ F.field := hpart _ fun b hb => by simp [hb]
  have hfilename : newline ∉ F.filename := hpart _ fun b hb => by simp [hb]
  have htype : newline ∉ F.type := hpart _ fun b hb => by simp [hb]
  intro l hl
  simp only [header, List.mem_cons, List.not_mem_nil, or_false] at hl
  obtain rfl | rfl | rfl | rfl := hl
  · simp only [List.mem_append, not_or]
    exact ⟨⟨by decide, hboundary⟩, by decide⟩
  · simp only [disposition, List.mem_append, List.mem_cons, not_or]
    exact ⟨⟨⟨by decide, by decide, hfield⟩, by decide, by decide⟩, by decide, by decide, hfilename,
      by decide, by decide, List.not_mem_nil⟩
  · simp only [List.mem_append, not_or]
    exact ⟨⟨by decide, htype⟩, by decide⟩
  · decide

theorem close_length : F.close.length = (ascii "--" ++ F.boundary ++ [cr]).length + 5 := by
  simp only [close, ascii, List.length_append, List.length_cons, List.length_map, List.length_nil]
  rfl

theorem quoted_disposition : quoted (filenameMark ++ [quote]) F.disposition = some F.filename :=
  quoted_last (by decide) (by decide) F.unquoted.2 (by decide) _

/-- Where something arrived behind four rows, these are the rows that were sent. -/
theorem arrived {k : Nat} (h : skip (F.body.take k) 4 < (F.body.take k).length) :
    (print F.header).length < k ∧ rows (F.body.take k) 4 = F.header := by
  obtain ⟨ls, r, hlen, hls, hf⟩ := whole_of_skip_lt h
  have hbody : F.body = print ls ++ (r ++ F.body.drop k) := by
    rw [← List.append_assoc, ← hf, List.take_append_drop]
  have hrows : rows F.body 4 = ls := by
    rw [hbody, ← hlen]
    exact rows_print hls _
  have hsame : ls = F.header := hrows.symm.trans (rows_print F.header_single _)
  rw [hf, ← hlen, skip_print hls, ← hf, List.length_take] at h
  refine ⟨hsame ▸ h.trans_le (Nat.min_le_left ..), ?_⟩
  rw [hf, ← hlen, rows_print hls, hsame]

/-- **What is cut out is the contents, as far as the body arrived.** -/
theorem cut_arrived (k n : Nat)
    (hn : rows (F.body.take k) 4 = F.header → n = F.content.length) :
    slice (F.body.take k) (skip (F.body.take k) 4) n =
      F.content.take (k - (print F.header).length) := by
  by_cases h : skip (F.body.take k) 4 < (F.body.take k).length
  · obtain ⟨hk, hrows⟩ := F.arrived h
    have hskip : skip (F.body.take k) 4 = (print F.header).length := by
      rw [skip, hrows, length_print]
    rw [hskip, hn hrows, slice, List.drop_take, body, List.drop_left, List.take_take,
      List.take_append_of_le_length (Nat.min_le_left ..), ← List.take_take]
    exact List.take_of_length_le ((List.length_take_le' ..))
  · have hnone : slice (F.body.take k) (skip (F.body.take k) 4) n = [] := by
      rw [slice, List.drop_of_length_le (not_lt.mp h), List.take_nil]
    have hk : k ≤ (print F.header).length := by
      by_contra hlt
      have hbody : F.body.take k = print F.header ++
          (F.content ++ F.close).take (k - (print F.header).length) := by
        rw [body, List.take_append, List.take_of_length_le (by omega)]
      have hskip : skip (F.body.take k) 4 = (print F.header).length := by
        rw [hbody]
        exact skip_print F.header_single _
      have hclose : 0 < (F.content ++ F.close).length := by
        rw [List.length_append, F.close_length]
        omega
      rw [hskip, hbody, List.length_append, List.length_take] at h
      omega
    rw [hnone, Nat.sub_eq_zero_of_le hk, List.take_zero]

end Form

end YiHack.General
