/-
  File:      YiHack/General/Glob.lean
  Subject:   Words of a shell as paths: patterns, a tree of files, and what `rm` takes away.

  Names nothing of the repository. The tree has no symbolic links.

  * `atoms`, `matchAtoms` -- a pattern of `?`, `*` and brackets;
  * `walk` -- a path followed in a tree; `lexical` -- the path it can only lead to;
  * `Expanded` -- the words that stand for words with patterns;
  * `operands` -- the options and the operands of `rm`;
  * `Target` -- what `rm` takes away; **`target_iff`** for words that are no patterns.
-/
import YiHack.General.Text
import Mathlib.Data.List.Forall2

namespace YiHack.General

/-! ## 1. Patterns -/

inductive Atom
  | char (b : UInt8)
  | any
  | many
  | set (p : UInt8 → Bool)

/-- A bracket up to its end, and what follows it; `first` if nothing was read yet. -/
def bracketFrom (p : UInt8 → Bool) (first : Bool) : Bytes → Option ((UInt8 → Bool) × Bytes)
  | [] => none
  | c :: 45 :: d :: t =>
    if c = 93 ∧ first = false then some (p, 45 :: d :: t)
    else if d = 93 then bracketFrom (fun b => p b || b == c) false (45 :: d :: t)
    else bracketFrom (fun b => p b || (c ≤ b && b ≤ d)) false t
  | c :: t =>
    if c = 93 ∧ first = false then some (p, t) else bracketFrom (fun b => p b || b == c) false t

def bracket (t : Bytes) : Option ((UInt8 → Bool) × Bytes) :=
  if t.head? = some 33 ∨ t.head? = some 94 then
    (bracketFrom (fun _ => false) true t.tail).map fun r => (fun b => !r.1 b, r.2)
  else bracketFrom (fun _ => false) true t

/-- The atoms of a pattern of at most `n` bytes. A bracket without its end is a character. -/
def atoms : Nat → Bytes → List Atom
  | 0, _ => []
  | _ + 1, [] => []
  | n + 1, c :: t =>
    if c = 63 then .any :: atoms n t
    else if c = 42 then .many :: atoms n t
    else if c = 91 then
      match bracket t with
      | some r => .set r.1 :: atoms n r.2
      | none => .char c :: atoms n t
    else .char c :: atoms n t

def matchAtoms : List Atom → Bytes → Bool
  | [], s => s.isEmpty
  | .char b :: as, s => s.head? == some b && matchAtoms as s.tail
  | .any :: as, s => !s.isEmpty && matchAtoms as s.tail
  | .set p :: as, s => s.head?.any p && matchAtoms as s.tail
  | .many :: as, s => s.tails.any (matchAtoms as)

/-- No byte of it makes a pattern. -/
def Literal (c : Bytes) : Prop := 63 ∉ c ∧ 42 ∉ c ∧ 91 ∉ c

instance (c : Bytes) : Decidable (Literal c) := inferInstanceAs (Decidable (_ ∧ _))

theorem Literal.append {s t : Bytes} (hs : Literal s) (ht : Literal t) : Literal (s ++ t) := by
  simp only [Literal, List.mem_append, not_or]
  exact ⟨⟨hs.1, ht.1⟩, ⟨hs.2.1, ht.2.1⟩, ⟨hs.2.2, ht.2.2⟩⟩

/-- A name for a part of a path. A dot in front is matched by a dot only. -/
def PartMatches (c n : Bytes) : Prop :=
  if Literal c then n = c
  else n ≠ [] ∧ matchAtoms (atoms c.length c) n = true ∧ (n.head? = some 46 → c.head? = some 46)

/-! ## 2. Trees -/

inductive Kind
  | dir
  | file
  deriving DecidableEq

/-- The names on the way from the root. -/
abbrev Path := List Bytes

/-- What there is at a path. -/
abbrev Tree := Path → Option Kind

def dot : Bytes := [46]

def dotdot : Bytes := [46, 46]

/-- The parts of a word between its slashes. -/
def parts (w : Bytes) : List Bytes := w.splitOn 47

/-- One part of a path, followed in a tree. -/
def step (t : Tree) (cur : Path) (c : Bytes) : Option Path :=
  if t cur ≠ some .dir then none
  else if c = [] ∨ c = dot then some cur
  else if c = dotdot then some cur.dropLast
  else if (t (cur ++ [c])).isSome then some (cur ++ [c])
  else none

def walk (t : Tree) : Path → List Bytes → Option Path
  | cur, [] => some cur
  | cur, c :: cs => (step t cur c).bind fun next => walk t next cs

/-- One part of a path, by its name. -/
def enter (cur : Path) (c : Bytes) : Path :=
  if c = [] ∨ c = dot then cur else if c = dotdot then cur.dropLast else cur ++ [c]

/-- Where a path can only lead to. -/
def lexical (cur : Path) (cs : List Bytes) : Path := cs.foldl enter cur

/-- Where a word starts: at the root, or in the directory one is in. -/
def start (cwd : Path) (w : Bytes) : Path := if w.head? = some 47 then [] else cwd

/-- What a word leads to. -/
def leads (t : Tree) (cwd : Path) (w : Bytes) : Option Path := walk t (start cwd w) (parts w)

/-- What a word can only lead to. -/
def led (cwd : Path) (w : Bytes) : Path := lexical (start cwd w) (parts w)

/-! ## 3. Words for words -/

/-- A word that there is for a pattern. -/
def Stands (t : Tree) (cwd : Path) (w u : Bytes) : Prop :=
  List.Forall₂ PartMatches (parts w) (parts u) ∧ (leads t cwd u).isSome = true

/-- Pathname expansion: a word that is no pattern, or one for which there is nothing, is left as it
    is. -/
inductive Expanded (t : Tree) (cwd : Path) : List Bytes → List Bytes → Prop
  | nil : Expanded t cwd [] []
  | itself {w : Bytes} {ws us : List Bytes} (hw : Literal w ∨ ∀ u, ¬ Stands t cwd w u)
      (h : Expanded t cwd ws us) : Expanded t cwd (w :: ws) (w :: us)
  | names {w : Bytes} {vs ws us : List Bytes} (hw : ¬ Literal w)
      (hvs : vs ≠ [] ∧ ∀ u, u ∈ vs ↔ Stands t cwd w u) (h : Expanded t cwd ws us) :
      Expanded t cwd (w :: ws) (vs ++ us)

/-! ## 4. `rm` -/

/-- `rm` refuses a path that ends in `.` or `..`. -/
def refused (w : Bytes) : Prop :=
  ((parts w).filter fun c => !c.isEmpty).getLast? = some dot ∨
    ((parts w).filter fun c => !c.isEmpty).getLast? = some dotdot

instance (w : Bytes) : Decidable (refused w) := inferInstanceAs (Decidable (_ ∨ _))

/-- Whether `rm` is recursive, and its operands: options may stand anywhere up to `--`, and one that
    is not known ends it. -/
def operands (known : UInt8 → Bool) : Bool → List Bytes → Option (Bool × List Bytes)
  | r, [] => some (r, [])
  | r, w :: ws =>
    match w with
    | [45, 45] => some (r, ws)
    | 45 :: b :: bs =>
      if (b :: bs).all known then operands known (r || (b :: bs).any fun c => c == 82 || c == 114) ws
      else none
    | w => (operands known r ws).map fun (r, os) => (r, w :: os)

/-- What `rm` may take away for its words: any file, and a directory with all that is in it if it is
    recursive. -/
def Target (known : UInt8 → Bool) (t : Tree) (cwd : Path) (recursive : Bool) (ws : List Bytes)
    (p : Path) : Prop :=
  ∃ us r os, Expanded t cwd ws us ∧ operands known recursive us = some (r, os) ∧
    ∃ o ∈ os, ¬ refused o ∧ leads t cwd o = some p ∧ (r = true ∨ t p = some .file)

section Targets

variable {known : UInt8 → Bool} {t : Tree} {cur cwd p : Path} {c w o : Bytes}
  {cs ws us os : List Bytes} {r r' : Bool}

theorem step_eq_some (h : step t cur c = some p) : p = enter cur c := by
  rw [step] at h
  rw [enter]
  split at h
  · exact absurd h nofun
  · split at h
    · next hc => rw [if_pos hc, Option.some.inj h]
    · next hc =>
      rw [if_neg hc]
      split at h
      · next hc => rw [if_pos hc, Option.some.inj h]
      · next hc =>
        rw [if_neg hc]
        split at h
        · exact (Option.some.inj h).symm
        · exact absurd h nofun

/-- **A path leads where its names say**, if it leads anywhere. -/
theorem walk_eq_some (h : walk t cur cs = some p) : p = lexical cur cs := by
  induction cs generalizing cur with
  | nil => exact (Option.some.inj h).symm
  | cons c cs ih =>
    obtain ⟨next, hnext, h⟩ := Option.bind_eq_some_iff.mp h
    rw [ih h, step_eq_some hnext]
    rfl

/-- Where there are only directories every path leads somewhere. -/
theorem walk_all (h : ∀ q, t q = some .dir) (cs : List Bytes) (cur : Path) :
    walk t cur cs = some (lexical cur cs) := by
  induction cs generalizing cur with
  | nil => rfl
  | cons c cs ih =>
    have hstep : step t cur c = some (enter cur c) := by
      simp only [step, enter, h, ne_eq, not_true_eq_false, if_false, Option.isSome_some, if_true]
      split
      · rfl
      · split <;> rfl
    rw [walk, hstep, Option.bind_some, ih]
    rfl

/-- A part of a path that is a name. -/
def IsName (c : Bytes) : Prop := c ≠ [] ∧ c ≠ dot ∧ c ≠ dotdot

theorem enter_name (hc : IsName c) (cur : Path) : enter cur c = cur ++ [c] := by
  rw [enter, if_neg (not_or.mpr ⟨hc.1, hc.2.1⟩), if_neg hc.2.2]

theorem lexical_names (hcs : ∀ c ∈ cs, IsName c) (cur : Path) : lexical cur cs = cur ++ cs := by
  induction cs generalizing cur with
  | nil => exact (List.append_nil cur).symm
  | cons c cs ih =>
    obtain ⟨hc, hcs⟩ := List.forall_mem_cons.mp hcs
    rw [lexical, List.foldl_cons, enter_name hc, ← lexical, ih hcs, List.append_assoc,
      List.singleton_append]

/-- A path of names is followed where it is there, and there are directories on the way. -/
theorem walk_names (hcs : ∀ c ∈ cs, IsName c)
    (hdir : ∀ a b, cs = a ++ b → b ≠ [] → t (cur ++ a) = some .dir)
    (hlast : (t (cur ++ cs)).isSome = true) : walk t cur cs = some (cur ++ cs) := by
  induction cs generalizing cur with
  | nil => rw [walk, List.append_nil]
  | cons c cs ih =>
    obtain ⟨hc, hcs⟩ := List.forall_mem_cons.mp hcs
    have hcur : t cur = some .dir := by
      have h := hdir [] (c :: cs) rfl (List.cons_ne_nil c cs)
      rwa [List.append_nil] at h
    have hassoc : ∀ l, cur ++ [c] ++ l = cur ++ c :: l := fun l => by
      rw [List.append_assoc, List.singleton_append]
    have hnext : (t (cur ++ [c])).isSome = true := by
      cases cs with
      | nil => exact hlast
      | cons d cs =>
        rw [hdir [c] (d :: cs) rfl (List.cons_ne_nil d cs)]
        rfl
    have hstep : step t cur c = some (cur ++ [c]) := by
      rw [step, if_neg (not_not.mpr hcur), if_neg (not_or.mpr ⟨hc.1, hc.2.1⟩), if_neg hc.2.2,
        if_pos hnext]
    rw [walk, hstep, Option.bind_some, ih hcs, hassoc]
    · intro a b hab hb
      rw [hassoc]
      exact hdir (c :: a) b (by rw [hab, List.cons_append]) hb
    · rw [hassoc]
      exact hlast

/-- A word with nothing in front of its first slash starts at the root. -/
theorem start_root (h : parts w = [] :: c :: cs) : start cwd w = [] := by
  have hjoin : [47].intercalate (parts w) = w := List.intercalate_splitOn 47
  rw [h] at hjoin
  rw [start, ← hjoin, if_pos (by simp [List.intercalate])]

theorem leads_eq_some (h : leads t cwd w = some p) : p = led cwd w := walk_eq_some h

/-- A path without dots is not refused. -/
theorem not_refused (h : ∀ c ∈ parts w, c ≠ dot ∧ c ≠ dotdot) : ¬ refused w := by
  intro hlast
  rcases hlast with hlast | hlast
  · exact (h _ (List.mem_of_mem_filter (List.mem_of_getLast? hlast))).1 rfl
  · exact (h _ (List.mem_of_mem_filter (List.mem_of_getLast? hlast))).2 rfl

/-- What stands for words is one of them, or what there is for a pattern. -/
theorem Expanded.mem (h : Expanded t cwd ws us) (hw : w ∈ us) :
    w ∈ ws ∨ ∃ v ∈ ws, Stands t cwd v w := by
  induction h with
  | nil => exact .inl hw
  | itself hself _ ih =>
    rcases List.mem_cons.mp hw with rfl | hw
    · exact .inl List.mem_cons_self
    · exact (ih hw).imp (List.mem_cons_of_mem _) fun ⟨v, hv, hs⟩ => ⟨v, List.mem_cons_of_mem _ hv, hs⟩
  | names hpattern hvs _ ih =>
    rcases List.mem_append.mp hw with hw | hw
    · exact .inr ⟨_, List.mem_cons_self, (hvs.2 w).mp hw⟩
    · exact (ih hw).imp (List.mem_cons_of_mem _) fun ⟨v, hv, hs⟩ => ⟨v, List.mem_cons_of_mem _ hv, hs⟩

/-- **Words that are no patterns stand for themselves.** -/
theorem expanded_iff (hws : ∀ w ∈ ws, Literal w) : Expanded t cwd ws us ↔ us = ws := by
  constructor
  · intro h
    induction h with
    | nil => rfl
    | itself _ _ ih => rw [ih (List.forall_mem_cons.mp hws).2]
    | names hpattern => exact absurd (List.forall_mem_cons.mp hws).1 hpattern
  · intro h
    subst h
    induction us with
    | nil => exact .nil
    | cons w ws ih =>
      obtain ⟨hw, hws⟩ := List.forall_mem_cons.mp hws
      exact .itself (.inl hw) (ih hws)

/-- An operand is one of the words. -/
theorem mem_of_operands (h : operands known r ws = some (r', os)) (ho : o ∈ os) : o ∈ ws := by
  fun_induction operands known r ws generalizing r' os with
  | case1 =>
    obtain ⟨-, rfl⟩ := Prod.mk.inj (Option.some.inj h)
    exact ho
  | case2 =>
    obtain ⟨-, rfl⟩ := Prod.mk.inj (Option.some.inj h)
    exact List.mem_cons_of_mem _ ho
  | case3 r ws b bs _ _ ih => exact List.mem_cons_of_mem _ (ih h ho)
  | case4 => exact absurd h nofun
  | case5 r ws w _ _ ih =>
    obtain ⟨⟨r1, os1⟩, hrest, heq⟩ := Option.map_eq_some_iff.mp h
    obtain ⟨-, rfl⟩ := Prod.mk.inj heq
    rcases List.mem_cons.mp ho with rfl | ho
    · exact List.mem_cons_self
    · exact List.mem_cons_of_mem _ (ih hrest ho)

/-- What is recursive stays so. -/
theorem operands_recursive (h : operands known r ws = some (r', os)) (hr : r = true) : r' = true := by
  fun_induction operands known r ws generalizing r' os with
  | case1 => exact (Prod.mk.inj (Option.some.inj h)).1.symm.trans hr
  | case2 => exact (Prod.mk.inj (Option.some.inj h)).1.symm.trans hr
  | case3 r ws b bs _ _ ih => exact ih h (by rw [hr, Bool.true_or])
  | case4 => exact absurd h nofun
  | case5 r ws w _ _ ih =>
    obtain ⟨⟨r1, os1⟩, hrest, heq⟩ := Option.map_eq_some_iff.mp h
    exact (Prod.mk.inj heq).1.symm.trans (ih hrest hr)

/-- A path from the root is no option. -/
theorem operands_path (hw : w.head? = some 47) : operands known r [w] = some (r, [w]) := by
  rcases w with - | ⟨b, w⟩
  · exact absurd hw nofun
  · obtain rfl := Option.some.inj hw
    rfl

/-- **What is taken away for words that are no patterns.** -/
theorem target_iff (hws : ∀ w ∈ ws, Literal w) : Target known t cwd r ws p ↔
    ∃ r' os, operands known r ws = some (r', os) ∧
      ∃ o ∈ os, ¬ refused o ∧ leads t cwd o = some p ∧ (r' = true ∨ t p = some .file) := by
  constructor
  · intro ⟨us, r', os, hus, h⟩
    exact ⟨r', os, (expanded_iff hws).mp hus ▸ h⟩
  · intro ⟨r', os, h⟩
    exact ⟨ws, r', os, (expanded_iff hws).mpr rfl, h⟩

end Targets

end YiHack.General
