/-
  File:      YiHack/General/Ring.lean
  Subject:   A ring that keeps the newest `N` of the entries pushed into it.

  Names nothing of the repository. The cells are an array, `first` the oldest entry and `count`
  how many are in use; the bounds are fields, so a ring out of bounds cannot be built. Read as a
  list (`toList`), a push appends and drops the oldest entry where all cells are in use
  (`toList_push`), so a ring holds the newest of what was pushed (`toList_push_newest`).
-/
import Mathlib.Data.List.Range
import Mathlib.Logic.Function.Basic

namespace YiHack.General

/-- A ring of `N` cells. -/
structure Ring (α : Type*) (N : Nat) where
  first : Nat
  count : Nat
  cells : Fin N → α
  first_lt : first < N
  count_le : count ≤ N

namespace Ring

variable {α : Type*} {N : Nat}

/-- The cell of the `i`th entry, oldest first: `(first + i) % N`. -/
def index (r : Ring α N) (i : Nat) : Fin N :=
  ⟨(r.first + i) % N, Nat.mod_lt _ (Nat.zero_lt_of_lt r.first_lt)⟩

/-- The `i`th entry, oldest first. -/
def get (r : Ring α N) (i : Nat) : α := r.cells (r.index i)

/-- The entries in use, oldest first. -/
def toList (r : Ring α N) : List α := (List.range r.count).map r.get

/-- An empty ring over the cells `c`. -/
def empty (c : Fin N → α) (h : 0 < N) : Ring α N := ⟨0, 0, c, h, Nat.zero_le _⟩

/-- Add an entry; where every cell is in use the oldest entry makes room. -/
def push (r : Ring α N) (x : α) : Ring α N :=
  if h : r.count = N then
    { first := (r.first + 1) % N
      count := r.count
      cells := Function.update r.cells (r.index r.count) x
      first_lt := Nat.mod_lt _ (Nat.zero_lt_of_lt r.first_lt)
      count_le := r.count_le }
  else
    { first := r.first
      count := r.count + 1
      cells := Function.update r.cells (r.index r.count) x
      first_lt := r.first_lt
      count_le := Nat.lt_of_le_of_ne r.count_le h }

@[simp] theorem toList_length (r : Ring α N) : r.toList.length = r.count := by simp [toList]

@[simp] theorem toList_empty (c : Fin N → α) (h : 0 < N) : (empty c h).toList = [] := rfl

theorem toList_getElem? (r : Ring α N) (i : Nat) (h : i < r.count) :
    r.toList[i]? = some (r.get i) := by simp [toList, h]

/-- Two entries less than a turn apart are in different cells. -/
theorem index_ne (r : Ring α N) {i j : Nat} (hij : i < j) (hj : j < i + N) :
    r.index i ≠ r.index j := by
  intro h
  have h := congrArg Fin.val h
  simp only [index] at h
  have e := Nat.sub_mod_eq_zero_of_mod_eq h.symm
  have hsub : r.first + j - (r.first + i) = j - i := by omega
  rw [hsub] at e
  rw [Nat.mod_eq_of_lt (by omega)] at e
  omega

/-- **A push appends, and drops the oldest entry of a full ring.** -/
theorem toList_push (r : Ring α N) (x : α) :
    (r.push x).toList = (if r.count = N then r.toList.tail else r.toList) ++ [x] := by
  have hN : 0 < N := Nat.zero_lt_of_lt r.first_lt
  unfold push
  split
  · rename_i hc
    apply List.ext_getElem?
    intro i
    have hidx : ∀ k, (⟨((r.first + 1) % N + k) % N, Nat.mod_lt _ hN⟩ : Fin N) = r.index (k + 1) := by
      intro k
      apply Fin.ext
      simp only [index]
      rw [Nat.mod_add_mod]
      congr 1
      omega
    rcases Nat.lt_trichotomy i (N - 1) with hi | hi | hi
    · rw [List.getElem?_append_left (by simp; omega)]
      simp only [toList, List.getElem?_map, List.getElem?_tail]
      rw [List.getElem?_range (by omega), List.getElem?_range (by omega)]
      simp only [Option.map_some, get, Option.some.injEq]
      change Function.update r.cells (r.index r.count) x ⟨((r.first + 1) % N + i) % N, _⟩ = _
      rw [hidx i]
      exact Function.update_of_ne (r.index_ne (by omega) (by omega)) _ _
    · rw [List.getElem?_append_right (by simp; omega)]
      simp only [toList, List.getElem?_map]
      rw [List.getElem?_range (by omega)]
      have e0 : i - (List.map r.get (List.range r.count)).tail.length = 0 := by simp; omega
      rw [e0]
      simp only [Option.map_some, get, List.getElem?_cons_zero, Option.some.injEq]
      change Function.update r.cells (r.index r.count) x ⟨((r.first + 1) % N + i) % N, _⟩ = _
      rw [hidx i]
      have : i + 1 = r.count := by omega
      rw [this]
      exact Function.update_self _ _ _
    · rw [List.getElem?_eq_none (by simp [toList]; omega), List.getElem?_eq_none (by simp; omega)]
  · rename_i hc
    have hlt : r.count < N := Nat.lt_of_le_of_ne r.count_le hc
    simp only [toList, List.range_succ, List.map_append, List.map_cons, List.map_nil]
    congr 1
    · apply List.map_congr_left
      intro i hi
      have hi := List.mem_range.mp hi
      exact Function.update_of_ne (r.index_ne (by omega) (by omega)) _ _
    · exact congrArg (fun y => [y]) (Function.update_self _ _ _)

theorem push_count (r : Ring α N) (x : α) :
    (r.push x).count = if r.count = N then N else r.count + 1 := by
  unfold push
  split
  · simp_all
  · simp_all

/-- The oldest entry heads the list. -/
theorem toList_cons (r : Ring α N) (h : 0 < r.count) : r.toList = r.get 0 :: r.toList.tail := by
  have e : r.toList[0]? = some (r.get 0) := r.toList_getElem? 0 h
  cases hl : r.toList with
  | nil => simp [hl] at e
  | cons y ys => simp [hl] at e; simp [e]

end Ring

/-! ## The newest entries -/

variable {α : Type*}

/-- The last at most `N` entries. -/
def newest (N : Nat) (l : List α) : List α := l.drop (l.length - N)

@[simp] theorem newest_nil (N : Nat) : newest N ([] : List α) = [] := List.drop_nil

theorem newest_length (N : Nat) (l : List α) : (newest N l).length = min N l.length := by
  simp only [newest, List.length_drop]
  omega

/-- One more entry: the oldest of `N` goes. -/
theorem newest_concat {N : Nat} (h : 0 < N) (l : List α) (x : α) :
    newest N (l ++ [x]) =
      (if (newest N l).length = N then (newest N l).tail else newest N l) ++ [x] := by
  rw [newest_length]
  split
  · rename_i hfull
    rw [newest, newest, List.tail_drop, List.length_append, List.length_singleton,
      List.drop_append_of_le_length (by omega)]
    congr 2
    omega
  · rename_i hroom
    rw [newest, newest, List.length_append, List.length_singleton,
      List.drop_append_of_le_length (by omega)]
    congr 2
    omega

/-- **A ring that holds the newest entries holds them after a push.** -/
theorem Ring.toList_push_newest {N : Nat} {r : Ring α N} {l : List α} (h : r.toList = newest N l)
    (x : α) : (r.push x).toList = newest N (l ++ [x]) := by
  have hcount : (newest N l).length = r.count := by rw [← h, Ring.toList_length]
  rw [Ring.toList_push, newest_concat (Nat.zero_lt_of_lt r.first_lt), hcount, h]

end YiHack.General
