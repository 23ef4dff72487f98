/-
  File:      YiHack/General/LineEdit.lean
  Subject:   A file as a shell edits it: `echo >>`, `grep`, `sed -i`, line by line.

  Names nothing of the repository. The last line of a file may lack its newline: `grep` and `sed`
  take it as a line, and `echo >>` writes behind it.

  * `append`, `sed` -- what they do to the bytes; **`lines_append`**, **`lines_sed`** to the lines;
  * `startsWith`, `keyOf` -- `grep '^KEY='`, and the key of a line;
  * `addMissing` -- a line is added if its key is missing; **`filter_addMissing`**, one by one.
-/
import YiHack.General.Text

namespace YiHack.General

/-! ## 1. The bytes -/

/-- The lines with a newline. -/
def whole (f : Bytes) : List Bytes := (f.splitOn newline).dropLast

/-- What stands behind the last newline. -/
def rest (f : Bytes) : Bytes := (f.splitOn newline).getLastD []

/-- Every line has its newline. -/
def Closed (f : Bytes) : Prop := rest f = []

/-- `echo LINE >> FILE` -/
def append (f l : Bytes) : Bytes := f ++ (l ++ [newline])

/-- `sed -i`: every line becomes another one, or is deleted. -/
def sed (g : Bytes → Option Bytes) (f : Bytes) : Bytes :=
  print ((whole f).filterMap g) ++ if rest f = [] then [] else (g (rest f)).getD []

section Files

variable {f l r : Bytes} {ls : List Bytes} {g : Bytes → Option Bytes}

theorem splitOn_print (hls : ∀ l ∈ ls, newline ∉ l) (hr : newline ∉ r) :
    (print ls ++ r).splitOn newline = ls ++ [r] := by
  have hsingle : ∀ l : Bytes, newline ∉ l → ∀ b ∈ l, (b == newline) = false := by
    intro l hl b hb
    rw [beq_eq_false_iff_ne]
    rintro rfl
    exact hl hb
  induction ls with
  | nil => exact List.splitOnP_eq_singleton (hsingle r hr)
  | cons l ls ih =>
    obtain ⟨hl, hls⟩ := List.forall_mem_cons.mp hls
    have ih := ih hls
    rw [List.splitOn] at ih ⊢
    rw [print_cons, List.append_assoc, List.cons_append, List.splitOnP_append_cons l _ (by rfl), ih,
      List.splitOnP_eq_singleton (hsingle l hl), List.cons_append, List.cons_append,
      List.nil_append]

/-- **A file is its lines and what stands behind them.** -/
theorem whole_print (hls : ∀ l ∈ ls, newline ∉ l) (hr : newline ∉ r) :
    whole (print ls ++ r) = ls ∧ rest (print ls ++ r) = r := by
  rw [whole, rest, splitOn_print hls hr]
  exact ⟨List.dropLast_concat, List.getLastD_concat⟩

theorem splitOn_eq (f : Bytes) : f.splitOn newline = whole f ++ [rest f] := by
  have hne : f.splitOn newline ≠ [] := List.splitOnP_ne_nil _ _
  rw [whole, rest, List.getLastD_eq_getLast?, List.getLast?_eq_some_getLast hne, Option.getD_some,
    List.dropLast_append_getLast]

theorem whole_single (f : Bytes) : (∀ l ∈ whole f, newline ∉ l) ∧ newline ∉ rest f := by
  have hpiece : ∀ l ∈ whole f ++ [rest f], newline ∉ l := by
    intro l hl hmem
    rw [← splitOn_eq] at hl
    exact absurd (mem_of_mem_splitOnP hl newline hmem).2 (by decide)
  exact ⟨fun l hl => hpiece l (List.mem_append_left _ hl),
    hpiece _ (List.mem_append_right _ (List.mem_singleton_self _))⟩

theorem print_whole (f : Bytes) : print (whole f) ++ rest f = f := by
  have hjoin : [newline].intercalate (f.splitOn newline) = f := List.intercalate_splitOn newline
  have hprint : ∀ (ls : List Bytes) (r : Bytes),
      [newline].intercalate (ls ++ [r]) = print ls ++ r := by
    intro ls r
    induction ls with
    | nil => simp [List.intercalate, print]
    | cons l ls ih =>
      have hne : ls ++ [r] ≠ [] := by simp
      rw [print_cons, List.append_assoc, List.cons_append, List.cons_append, ← ih,
        List.intercalate_cons_of_ne_nil hne, List.append_assoc, List.singleton_append]
  rw [← hprint, ← splitOn_eq, hjoin]

theorem lines_eq (f : Bytes) : lines f = whole f ++ if rest f = [] then [] else [rest f] := by
  rw [lines, splitOn_eq, List.getLast?_concat]
  by_cases hrest : rest f = []
  · rw [hrest, if_pos rfl, if_pos rfl, List.dropLast_concat, List.append_nil]
  · rw [if_neg fun h => hrest (Option.some.inj h), if_neg hrest]

theorem lines_of_closed (h : Closed f) : lines f = whole f ∧ print (lines f) = f := by
  have hlines : lines f = whole f := by
    rw [lines_eq, if_pos (show rest f = [] from h), List.append_nil]
  refine ⟨hlines, ?_⟩
  conv_rhs => rw [← print_whole f, h, List.append_nil]
  rw [hlines]

theorem closed_print (hls : ∀ l ∈ ls, newline ∉ l) : Closed (print ls) := by
  have h := (whole_print hls List.not_mem_nil).2
  rwa [List.append_nil] at h

theorem lines_single (f : Bytes) : ∀ l ∈ lines f, newline ∉ l := fun _ hl hmem =>
  (mem_of_mem_lines hl newline hmem).2 rfl

/-- **A line that is added to a closed file is its last.** -/
theorem lines_append (hf : Closed f) (hl : newline ∉ l) :
    lines (append f l) = lines f ++ [l] ∧ Closed (append f l) := by
  have hsingle : ∀ l' ∈ lines f ++ [l], newline ∉ l' := by
    intro l' hl'
    rcases List.mem_append.mp hl' with hmem | hlast
    · exact lines_single f l' hmem
    · rwa [List.mem_singleton.mp hlast]
  have happend : append f l = print (lines f ++ [l]) := by
    rw [append, print, List.flatMap_append, ← print, (lines_of_closed hf).2, List.flatMap_singleton]
  rw [happend]
  exact ⟨lines_print hsingle, closed_print hsingle⟩

theorem mem_lines_of_whole (hl : l ∈ whole f) : l ∈ lines f := by
  rw [lines_eq]
  exact List.mem_append_left _ hl

theorem rest_mem_lines (h : rest f ≠ []) : rest f ∈ lines f := by
  rw [lines_eq, if_neg h]
  exact List.mem_append_right _ (List.mem_singleton_self _)

/-- What `sed` gives is again lines and what stands behind them. -/
theorem whole_sed (hg : ∀ l ∈ lines f, ∀ l' ∈ g l, newline ∉ l') :
    whole (sed g f) = (whole f).filterMap g ∧
      rest (sed g f) = if rest f = [] then [] else (g (rest f)).getD [] := by
  refine whole_print (fun l' hl' => ?_) ?_
  · obtain ⟨l, hl, hl'⟩ := List.mem_filterMap.mp hl'
    exact hg l (mem_lines_of_whole hl) l' hl'
  · split
    · exact List.not_mem_nil
    · next hrest =>
      cases hsome : g (rest f) with
      | none => exact List.not_mem_nil
      | some l' => exact hg _ (rest_mem_lines hrest) l' hsome

/-- **`sed` goes over the lines.** -/
theorem lines_sed (hg : ∀ l ∈ lines f, ∀ l' ∈ g l, newline ∉ l' ∧ (l ≠ [] → l' ≠ [])) :
    lines (sed g f) = (lines f).filterMap g := by
  obtain ⟨hwhole, hrest⟩ := whole_sed fun l hl l' hl' => (hg l hl l' hl').1
  rw [lines_eq, hwhole, hrest, lines_eq f, List.filterMap_append]
  by_cases hend : rest f = []
  · rw [if_pos hend, if_pos hend, if_pos rfl, List.filterMap_nil]
  · rw [if_neg hend, if_neg hend]
    cases hsome : g (rest f) with
    | none => simp [hsome]
    | some l' =>
      have hne : l' ≠ [] := (hg _ (rest_mem_lines hend) l' hsome).2 hend
      simp [hsome, hne]

/-- A file all of whose lines stay is left as it is. -/
theorem sed_eq_self (h : ∀ l ∈ lines f, g l = some l) : sed g f = f := by
  have hwhole : (whole f).filterMap g = whole f := by
    rw [List.filterMap_congr fun l hl => h l (mem_lines_of_whole hl)]
    exact List.filterMap_some
  have hrest : (if rest f = [] then [] else (g (rest f)).getD []) = rest f := by
    split
    · next hend => exact hend.symm
    · next hend => rw [h _ (rest_mem_lines hend), Option.getD_some]
  rw [sed, hwhole, hrest, print_whole]

end Files

/-! ## 2. Keys -/

/-- `^KEY=` -/
def startsWith (k l : Bytes) : Bool := (k ++ [equals]).isPrefixOf l

/-- What stands before the first equals sign, if there is one. -/
def keyOf (l : Bytes) : Option Bytes := (cutKey l).map Prod.fst

section Keys

variable {k k' l v : Bytes} {ls is : List Bytes}

theorem startsWith_append (k v : Bytes) : startsWith k (k ++ equals :: v) = true := by
  rw [startsWith, List.isPrefixOf_iff_prefix]
  exact ⟨v, List.append_assoc k [equals] v⟩

theorem exists_of_startsWith (h : startsWith k l = true) : ∃ v, l = k ++ equals :: v := by
  obtain ⟨v, hv⟩ := List.isPrefixOf_iff_prefix.mp h
  exact ⟨v, hv.symm.trans (List.append_assoc k [equals] v)⟩

theorem keyOf_append (hk : equals ∉ k) (v : Bytes) : keyOf (k ++ equals :: v) = some k := by
  rw [keyOf, cutKey_append hk, Option.map_some]

theorem eq_append_of_cutKey (h : cutKey l = some (k, v)) : l = k ++ equals :: v := by
  rw [cutKey] at h
  split at h
  · cases h
  · next b value hdrop =>
    obtain ⟨rfl, rfl⟩ := Prod.mk.inj (Option.some.inj h)
    have hb : b = equals := by
      have hstop := List.head?_dropWhile_not (· != equals) l
      rw [hdrop] at hstop
      simpa using hstop
    rw [hb] at hdrop
    rw [← hdrop, List.takeWhile_append_dropWhile]

/-- **A line starts with its key and with no other.** -/
theorem startsWith_iff (hk : equals ∉ k) : startsWith k l = true ↔ keyOf l = some k := by
  constructor
  · intro h
    obtain ⟨v, rfl⟩ := exists_of_startsWith h
    exact keyOf_append hk v
  · intro h
    obtain ⟨⟨k', v⟩, hcut, hk'⟩ := Option.map_eq_some_iff.mp h
    rw [← hk', eq_append_of_cutKey hcut]
    exact startsWith_append k' v

/-- `cut -d= -f1` -/
def cutName (l : Bytes) : Bytes := l.takeWhile (· != equals)

/-- `sed 's/^KEY=.*/KEY=VALUE/'` -/
def put (k v l : Bytes) : Bytes := if startsWith k l then k ++ equals :: v else l

/-- A line for a key that no line has yet. -/
def addMissing (ls : List Bytes) (i : Bytes) : List Bytes :=
  if ls.any (startsWith (cutName i)) then ls else ls ++ [i]

/-- The same in a file. -/
def appendMissing (f i : Bytes) : Bytes :=
  if (lines f).any (startsWith (cutName i)) then f else append f i

theorem equals_notMem_cutName (l : Bytes) : equals ∉ cutName l := fun hmem =>
  absurd (List.mem_takeWhile_imp hmem) (by decide)

theorem cutName_append (hk : equals ∉ k) (v : Bytes) : cutName (k ++ equals :: v) = k := by
  have hall : ∀ b ∈ k, (b != equals) = true := fun b hb => by
    rw [bne_iff_ne]
    rintro rfl
    exact hk hb
  rw [cutName, List.takeWhile_append_of_pos hall]
  simp

theorem cutName_of_keyOf (h : keyOf l = some k) : cutName l = k := by
  obtain ⟨⟨k', v⟩, hcut, rfl⟩ := Option.map_eq_some_iff.mp h
  rw [cutKey] at hcut
  split at hcut
  · cases hcut
  · exact (Prod.mk.inj (Option.some.inj hcut)).1

theorem keyOf_setting (h : equals ∈ l) : keyOf l = some (cutName l) := by
  obtain ⟨a, v, hl, ha⟩ := List.eq_append_cons_of_mem h
  rw [hl, cutName_append ha, keyOf_append ha]

theorem startsWith_setting (hk : equals ∉ k) (h : equals ∈ l) :
    startsWith k l = true ↔ cutName l = k := by
  rw [startsWith_iff hk, keyOf_setting h, Option.some_inj]

theorem put_of_key (hk : equals ∉ k) (h : keyOf l = some k) : put k v l = k ++ equals :: v :=
  if_pos ((startsWith_iff hk).mpr h)

theorem put_of_ne (hk : equals ∉ k) (h : keyOf l ≠ some k) : put k v l = l :=
  if_neg (mt (startsWith_iff hk).mp h)

/-- A substitution keeps the key. -/
theorem keyOf_put (hk : equals ∉ k) : keyOf (put k v l) = keyOf l := by
  by_cases h : keyOf l = some k
  · rw [put_of_key hk h, keyOf_append hk, h]
  · rw [put_of_ne hk h]

theorem filter_map_of_keyOf (hk : equals ∉ k) {g : Bytes → Bytes}
    (hg : ∀ l, keyOf (g l) = keyOf l) :
    (ls.map g).filter (startsWith k) = (ls.filter (startsWith k)).map g := by
  have hsame : startsWith k ∘ g = startsWith k := by
    funext l
    rw [Bool.eq_iff_iff, Function.comp_apply, startsWith_iff hk, startsWith_iff hk, hg]
  rw [List.filter_map, hsame]

theorem any_iff_filter : ls.any (startsWith k) = true ↔ ls.filter (startsWith k) ≠ [] := by
  rw [List.any_eq_true, ne_eq, List.filter_eq_nil_iff]
  push Not
  exact Iff.rfl

/-! ## 3. What is missing -/

/-- Where a key is missing the first line for it is added, and nothing else has the key. -/
theorem filter_addMissing (hk : equals ∉ k) (his : ∀ i ∈ is, equals ∈ i) :
    (is.foldl addMissing ls).filter (startsWith k) =
      if ls.any (startsWith k) then ls.filter (startsWith k)
      else (is.find? (startsWith k)).toList := by
  induction is generalizing ls with
  | nil =>
    rw [List.foldl_nil]
    split
    · rfl
    · next h => exact not_not.mp (mt any_iff_filter.mpr h)
  | cons i is ih =>
    obtain ⟨hi, his⟩ := List.forall_mem_cons.mp his
    have hstarts := startsWith_setting hk hi
    rw [List.foldl_cons, ih his, addMissing]
    by_cases hpresent : ls.any (startsWith (cutName i)) = true
    · rw [if_pos hpresent]
      by_cases hany : ls.any (startsWith k) = true
      · rw [if_pos hany, if_pos hany]
      · have hother : startsWith k i = false := by
          rw [Bool.eq_false_iff]
          intro h
          exact hany (hstarts.mp h ▸ hpresent)
        rw [if_neg hany, if_neg hany, List.find?_cons_of_neg (by rw [hother]; decide)]
    · rw [if_neg hpresent, List.any_append, List.filter_append]
      by_cases hself : startsWith k i = true
      · have hnone : ls.any (startsWith k) = false := by
          rw [Bool.eq_false_iff]
          exact hstarts.mp hself ▸ hpresent
        have hempty : ls.filter (startsWith k) = [] := by
          rw [← not_ne_iff, ← any_iff_filter, hnone]
          decide
        simp [hnone, hself, hempty]
      · simp [hself]

/-- What is added stands behind what was there. -/
theorem addMissing_append (ls is : List Bytes) : ∃ new, is.foldl addMissing ls = ls ++ new := by
  induction is generalizing ls with
  | nil => exact ⟨[], (List.append_nil ls).symm⟩
  | cons i is ih =>
    rw [List.foldl_cons, addMissing]
    split
    · exact ih ls
    · obtain ⟨new, hnew⟩ := ih (ls ++ [i])
      exact ⟨i :: new, by rw [hnew, List.append_assoc, List.singleton_append]⟩

end Keys

section Missing

variable {f : Bytes} {is : List Bytes}

/-- No key is missing. -/
def Complete (is : List Bytes) (f : Bytes) : Prop :=
  ∀ i ∈ is, (lines f).any (startsWith (cutName i)) = true

theorem appendMissing_complete (h : Complete is f) : is.foldl appendMissing f = f := by
  induction is with
  | nil => rfl
  | cons i is ih =>
    obtain ⟨hi, his⟩ := List.forall_mem_cons.mp h
    rw [List.foldl_cons, appendMissing, if_pos hi, ih his]

theorem addMissing_complete (h : Complete is f) : is.foldl addMissing (lines f) = lines f := by
  induction is with
  | nil => rfl
  | cons i is ih =>
    obtain ⟨hi, his⟩ := List.forall_mem_cons.mp h
    rw [List.foldl_cons, addMissing, if_pos hi, ih his]

/-- **Nothing is missing, or it can be added**: then what is added are lines of their own. -/
theorem lines_appendMissing (his : ∀ i ∈ is, newline ∉ i) (hf : Closed f ∨ Complete is f) :
    lines (is.foldl appendMissing f) = is.foldl addMissing (lines f) := by
  rcases hf with hclosed | hcomplete
  · induction is generalizing f with
    | nil => rfl
    | cons i is ih =>
      obtain ⟨hi, his⟩ := List.forall_mem_cons.mp his
      rw [List.foldl_cons, List.foldl_cons, appendMissing, addMissing]
      by_cases hpresent : (lines f).any (startsWith (cutName i)) = true
      · rw [if_pos hpresent, if_pos hpresent]
        exact ih his hclosed
      · obtain ⟨hlines, hclosed⟩ := lines_append hclosed hi
        rw [if_neg hpresent, if_neg hpresent, ih his hclosed, hlines]
  · rw [appendMissing_complete hcomplete, addMissing_complete hcomplete]

/-- Behind that no key is missing. -/
theorem complete_appendMissing (his : ∀ i ∈ is, equals ∈ i ∧ newline ∉ i)
    (hf : Closed f ∨ Complete is f) : Complete is (is.foldl appendMissing f) := by
  intro i hi
  rw [lines_appendMissing (fun i hi => (his i hi).2) hf, any_iff_filter,
    filter_addMissing (equals_notMem_cutName i) fun i hi => (his i hi).1]
  split
  · next h => exact any_iff_filter.mp h
  · have hself := (startsWith_setting (equals_notMem_cutName i) (his i hi).1).mpr rfl
    intro hnone
    rw [Option.toList_eq_nil_iff, List.find?_eq_none] at hnone
    exact hnone i hi hself

end Missing

end YiHack.General
