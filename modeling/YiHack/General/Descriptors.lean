/-
  File:      YiHack/General/Descriptors.lean
  Subject:   Descriptor tables: `open`, `close`, `fcntl(F_DUPFD)`, `dup2`, `exec`.

  Names nothing of the repository, and says nothing of what a descriptor is open on.

  * `lowest` -- the descriptor that the kernel hands out, which is free (`closed_lowest`);
  * `Once` -- a descriptor stands once in the table; the operations keep it.
-/
import Mathlib.Data.List.Nodup
import Mathlib.Data.List.Perm.Subperm
import Mathlib.Data.List.Range

namespace YiHack.General

/-- A descriptor, what it is open on, and its `FD_CLOEXEC`. -/
structure Desc (F : Type) where
  fd : Nat
  file : F
  cloexec : Bool
  deriving DecidableEq, Repr

/-- The open descriptors of a process. -/
abbrev Table (F : Type) := List (Desc F)

namespace Table

variable {F : Type} {t : Table F} {d d' : Desc F} {fd n : Nat}

def closed (t : Table F) (fd : Nat) : Bool := t.all (·.fd != fd)

def lookup (t : Table F) (fd : Nat) : Option (Desc F) := t.find? (·.fd == fd)

def close (t : Table F) (fd : Nat) : Table F := t.filter (·.fd != fd)

/-- The lowest free descriptor from `n` on. -/
def lowest (t : Table F) (n : Nat) : Nat := ((List.range' n (t.length + 1)).find? t.closed).getD n

/-- `fcntl(fd, F_SETFD, FD_CLOEXEC)`. -/
def setCloexec (t : Table F) (fd : Nat) : Table F :=
  t.map fun d => if d.fd = fd then { d with cloexec := true } else d

/-- `dup2`; nothing where `src` is not open. -/
def dup2 (t : Table F) (src dst : Nat) : Table F :=
  match t.lookup src with
  | some d => ⟨dst, d.file, false⟩ :: t.close dst
  | none => t

/-- What is left over `exec`. -/
def exec (t : Table F) : Table F := t.filter (!·.cloexec)

/-- No descriptor stands twice. -/
def Once (t : Table F) : Prop := (t.map (·.fd)).Nodup

instance (t : Table F) : Decidable t.Once := inferInstanceAs (Decidable (List.Nodup _))

/-! ## 1. What is in the table -/

theorem closed_iff : t.closed fd = true ↔ ∀ d ∈ t, d.fd ≠ fd := by simp [closed]

@[simp] theorem mem_close : d ∈ t.close fd ↔ d ∈ t ∧ d.fd ≠ fd := by simp [close]

@[simp] theorem mem_exec : d ∈ t.exec ↔ d ∈ t ∧ d.cloexec = false := by simp [exec]

theorem lookup_some (h : t.lookup fd = some d) : d ∈ t ∧ d.fd = fd :=
  ⟨List.mem_of_find?_eq_some h, by simpa using List.find?_some h⟩

theorem lookup_of_mem (ht : t.Once) (hd : d ∈ t) : t.lookup d.fd = some d := by
  rcases hl : t.lookup d.fd with - | d'
  · exact absurd hd fun hd => by simpa using List.find?_eq_none.mp hl d hd
  · obtain ⟨hd', hfd⟩ := lookup_some hl
    rw [List.inj_on_of_nodup_map ht hd' hd hfd]

/-- Closing what was just opened. -/
theorem close_cons (h : t.closed d.fd = true) : Table.close (d :: t) d.fd = t := by
  rw [close, List.filter_cons_of_neg (by simp)]
  exact List.filter_eq_self.mpr fun e he => by simpa using closed_iff.mp h e he

theorem close_cons_of_ne (h : d.fd ≠ fd) : Table.close (d :: t) fd = d :: t.close fd :=
  List.filter_cons_of_pos (by simpa using h)

theorem setCloexec_cons (h : t.closed d.fd = true) :
    Table.setCloexec (d :: t) d.fd = { d with cloexec := true } :: t := by
  rw [setCloexec, List.map_cons, if_pos rfl]
  congr 1
  exact (List.map_congr_left fun e he => if_neg (closed_iff.mp h e he)).trans (List.map_id t)

theorem closed_close : (t.close fd).closed fd = true :=
  closed_iff.mpr fun _ hd => (mem_close.mp hd).2

/-! ## 2. What the kernel hands out -/

/-- Among more numbers than there are descriptors, one is free. -/
theorem exists_closed (t : Table F) (n : Nat) :
    ∃ fd ∈ List.range' n (t.length + 1), t.closed fd = true := by
  by_contra hnone
  have hsub : List.range' n (t.length + 1) ⊆ t.map (·.fd) := by
    intro fd hfd
    by_contra hmem
    refine hnone ⟨fd, hfd, closed_iff.mpr fun d hd heq => hmem ?_⟩
    exact heq ▸ List.mem_map_of_mem hd
  have hlen := (List.Nodup.subperm List.nodup_range' hsub).length_le
  simp only [List.length_range', List.length_map] at hlen
  omega

theorem lowest_spec (t : Table F) (n : Nat) : n ≤ t.lowest n ∧ t.closed (t.lowest n) = true := by
  obtain ⟨fd, hfd, hfree⟩ := exists_closed t n
  rcases hfind : (List.range' n (t.length + 1)).find? t.closed with - | m
  · exact absurd hfree (List.find?_eq_none.mp hfind fd hfd)
  · rw [lowest, hfind]
    have hm := List.mem_of_find?_eq_some hfind
    exact ⟨(List.mem_range'_1.mp hm).1, List.find?_some hfind⟩

theorem le_lowest (t : Table F) (n : Nat) : n ≤ t.lowest n := (lowest_spec t n).1

theorem closed_lowest (t : Table F) (n : Nat) : t.closed (t.lowest n) = true := (lowest_spec t n).2

/-! ## 3. No descriptor stands twice -/

theorem Once.nil : Once ([] : Table F) := List.nodup_nil

theorem Once.eq (h : t.Once) (hd : d ∈ t) (hd' : d' ∈ t) (heq : d.fd = d'.fd) : d = d' :=
  List.inj_on_of_nodup_map h hd hd' heq

theorem Once.filter (h : t.Once) (p : Desc F → Bool) : Once (t.filter p) :=
  h.sublist (List.filter_sublist.map _)

theorem Once.close (h : t.Once) (fd : Nat) : (t.close fd).Once := h.filter _

theorem Once.cons (h : t.Once) (hfree : t.closed d.fd = true) : Once (d :: t) := by
  refine List.nodup_cons.mpr ⟨fun hmem => ?_, h⟩
  obtain ⟨e, he, heq⟩ := List.mem_map.mp hmem
  exact closed_iff.mp hfree e he heq

theorem Once.dup2 (h : t.Once) (src dst : Nat) : (t.dup2 src dst).Once := by
  rw [Table.dup2]
  split
  · exact (h.close dst).cons closed_close
  · exact h

end Table

end YiHack.General
