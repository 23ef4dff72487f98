/-
  File:      YiHack/Ash/Owners.lean
  Subject:   Who holds a lock.

  A process is in step (`Process.Ok`) where its list and its descriptors on sockets are the same
  locks, all close-on-exec, each bound by a process of its line. Whatever a process does leaves it in
  step, and no operation but `bind` puts a socket to use (`Within`); so no two sockets in use have
  one address.

  * `Process.Ok.saveFdOnRedirect`, `Process.Ok.redirect`, `Process.Ok.remove` -- what a process does;
  * `acquire_eq` -- the ends of `yi_lock`;
  * `step_inv` -- the step of the invariant;
  * **`locks_correct`** -- over every run in which no redirection is put back over a lock;
  * `plainShell` -- a shell as documented;
  * `lock_lost` -- a redirection put back over a lock.
-/
import YiHack.Ash.Lock

namespace YiHack.Ash

open General

theorem address_inj {n n' : Name} (h : address n = address n') : n = n' :=
  List.append_cancel_left h

/-! ## 1. Descriptors that are no sockets -/

/-- What the descriptor is open on is no socket. -/
def Plain (t : Table File) (fd : Nat) : Prop := ∀ d ∈ t, d.fd = fd → d.file = .other

section SameSockets

variable {t t' t'' : Table File} {fd src dst : Nat}

theorem SameSockets.refl (t : Table File) : SameSockets t t := ⟨id, fun _ _ _ => Iff.rfl⟩

theorem SameSockets.trans (h : SameSockets t t') (h' : SameSockets t' t'') : SameSockets t t'' :=
  ⟨fun ht => h'.once (h.once ht), fun d i hd => (h'.mem d i hd).trans (h.mem d i hd)⟩

theorem SameSockets.plain (h : SameSockets t t') (hp : Plain t fd) : Plain t' fd := by
  intro d hd hfd
  rcases hf : d.file with - | i
  · rfl
  · exact hf ▸ hp d ((h.mem d i hf).mp hd) hfd

theorem sameSockets_open (d : Desc File) (hfree : t.closed d.fd = true) (hd : d.file = .other) :
    SameSockets t (d :: t) where
  once ht := ht.cons hfree
  mem e i he := by
    refine ⟨fun hmem => ?_, List.mem_cons_of_mem d⟩
    rcases List.mem_cons.mp hmem with rfl | hmem
    · exact absurd (he.symm.trans hd) nofun
    · exact hmem

theorem sameSockets_close (hp : Plain t fd) : SameSockets t (t.close fd) where
  once ht := ht.close fd
  mem e i he := by
    refine Table.mem_close.trans ⟨And.left, fun hmem => ⟨hmem, fun heq => ?_⟩⟩
    exact absurd (he.symm.trans (hp e hmem heq)) nofun

theorem sameSockets_dup2 (hsrc : Plain t src) (hdst : Plain t dst) :
    SameSockets t (t.dup2 src dst) := by
  rw [Table.dup2]
  split
  · next d hd =>
    obtain ⟨hmem, hfd⟩ := Table.lookup_some hd
    exact (sameSockets_close hdst).trans
      (sameSockets_open ⟨dst, d.file, false⟩ Table.closed_close (hsrc d hmem hfd))
  · exact .refl t

/-- What the shell puts aside is no socket, and no socket comes to it. -/
theorem Saves.same {R : Type} {S S' : Shell R} {avoidFd : Nat} {push closed : Bool}
    (h : Saves S fd avoidFd push (closed, S')) (hplain : Plain S.fds fd) :
    SameSockets S.fds S'.fds := by
  have hcopy {d : Desc File} {copy : Nat} (hd : S.fds.lookup fd = some d)
      (hspare : Spare S.fds avoidFd copy) : SameSockets S.fds (⟨copy, d.file, true⟩ :: S.fds) := by
    obtain ⟨hmem, hfd⟩ := Table.lookup_some hd
    exact sameSockets_open ⟨copy, d.file, true⟩ hspare.2 (hplain d hmem hfd)
  cases h with
  | unasked => exact .refl _
  | closed => exact .refl _
  | copied d copy hd hspare => exact hcopy hd hspare
  | already => exact .refl _
  | again i old copy d hs hd hspare => exact hcopy hd hspare
  | own push rest d copy hd hspare =>
    exact (hcopy hd hspare).trans (sameSockets_close ((hcopy hd hspare).plain hplain))

end SameSockets

/-! ## 2. Processes in step -/

/-- List and descriptors are the same locks. -/
structure Process.Ok {R : Type} (sockets : List Socket) (p : Nat) (P : Process R) : Prop where
  once : P.fds.Once
  names : (P.locks.map (·.name)).Nodup
  places : (P.locks.map (·.fd)).Nodup
  listed : ∀ l ∈ P.locks, ∃ i, ⟨l.fd, .socket i, true⟩ ∈ P.fds ∧
    ∃ a ∈ P.line, sockets[i]? = some ⟨address l.name, a⟩
  counted : ∀ d ∈ P.fds, ∀ i, d.file = .socket i → ∃ l ∈ P.locks, l.fd = d.fd
  mine : p ∈ P.line
  own : P.background = true → P.dropping = false → P.line = [p]
  dead : P.alive = false → P.locks = []

/-- In step, and no other socket in use. -/
structure Within {R : Type} (sockets : List Socket) (p : Nat) (P P' : Process R) : Prop where
  ok : P'.Ok sockets p
  shares : ∀ d ∈ P'.fds, ∀ i, d.file = .socket i → ∃ e ∈ P.fds, e.file = .socket i

variable {R : Type} {ash : Unpatched R} {w : World R} {sockets : List Socket} {p : Nat}
  {P P' P'' : Process R}

theorem Within.trans (h : Within sockets p P P') (h' : Within sockets p P' P'') :
    Within sockets p P P'' where
  ok := h'.ok
  shares d hd i hi := by
    obtain ⟨e, he, hei⟩ := h'.shares d hd i hi
    exact h.shares e he i hei

namespace Process

theorem Ok.within (h : P.Ok sockets p) : Within sockets p P P := ⟨h, fun d hd _ hi => ⟨d, hd, hi⟩⟩

/-- What a descriptor on a socket is. -/
theorem Ok.held (h : P.Ok sockets p) {d : Desc File} {i : Nat} (hd : d ∈ P.fds)
    (hi : d.file = .socket i) : ∃ l ∈ P.locks, d = ⟨l.fd, .socket i, true⟩ ∧
      ∃ a ∈ P.line, sockets[i]? = some ⟨address l.name, a⟩ := by
  obtain ⟨l, hl, hfd⟩ := h.counted d hd i hi
  obtain ⟨j, hmem, hbound⟩ := h.listed l hl
  obtain rfl := h.once.eq hd hmem hfd.symm
  obtain rfl : j = i := File.socket.inj hi
  exact ⟨l, hl, rfl, hbound⟩

theorem Ok.plain (h : P.Ok sockets p) {fd : Nat} (hfd : ∀ l ∈ P.locks, l.fd ≠ fd) :
    Plain P.fds fd := by
  intro d hd heq
  rcases hf : d.file with - | i
  · rfl
  · obtain ⟨l, hl, hld⟩ := h.counted d hd i hf
    exact absurd (hld.trans heq) (hfd l hl)

/-- Other descriptors. -/
theorem Ok.other (h : P.Ok sockets p) {S : Shell R} (hs : SameSockets P.fds S.fds) :
    Within sockets p P { P with toShell := S } where
  ok :=
    { once := hs.once h.once
      names := h.names
      places := h.places
      listed := fun l hl => by
        obtain ⟨i, hmem, hbound⟩ := h.listed l hl
        exact ⟨i, (hs.mem _ i rfl).mpr hmem, hbound⟩
      counted := fun d hd i hi => h.counted d ((hs.mem d i hi).mp hd) i hi
      mine := h.mine
      own := h.own
      dead := h.dead }
  shares d hd i hi := ⟨d, (hs.mem d i hi).mp hd, hi⟩

/-- A lock is given up. -/
theorem Ok.remove (h : P.Ok sockets p) {l : LockFd} (hl : l ∈ P.locks) :
    Within sockets p P { P with fds := P.fds.close l.fd, locks := P.locks.erase l } := by
  have hsub := List.erase_sublist (a := l) (l := P.locks)
  have hne : ∀ m ∈ P.locks.erase l, m.fd ≠ l.fd := by
    intro m hm heq
    obtain rfl := List.inj_on_of_nodup_map h.places (hsub.subset hm) hl heq
    exact (h.places.of_map _).not_mem_erase hm
  refine ⟨⟨h.once.close _, h.names.sublist (hsub.map _), h.places.sublist (hsub.map _), ?_, ?_, h.mine,
    h.own, fun hd => absurd (h.dead hd ▸ hl) List.not_mem_nil⟩, fun d hd i hi => ⟨d, (Table.mem_close.mp hd).1, hi⟩⟩
  · intro m hm
    obtain ⟨i, hmem, hbound⟩ := h.listed m (hsub.subset hm)
    exact ⟨i, Table.mem_close.mpr ⟨hmem, hne m hm⟩, hbound⟩
  · intro d hd i hi
    obtain ⟨hd, hfd⟩ := Table.mem_close.mp hd
    obtain ⟨m, hm, heq⟩ := h.counted d hd i hi
    exact ⟨m, (List.mem_erase_of_ne fun e => hfd (heq.symm.trans (congrArg (·.fd) e))).mpr hm, heq⟩

/-! ## 3. What a process does -/

theorem Ok.dropLock (hash : ash.Documented) (h : P.Ok sockets p) :
    Within sockets p P (P.dropLock ash p) := by
  rw [Process.dropLock]
  split
  · next l ls hls =>
    have hr := h.remove (l := l) (hls ▸ List.mem_cons_self)
    rwa [hls, List.erase_cons_head] at hr
  · next hnil =>
    have hw := h.other (hash.forks P.toShell true)
    refine ⟨⟨hw.ok.once, h.names, h.places, fun l hl => ?_, hw.ok.counted, List.mem_singleton_self p,
      fun _ _ => rfl, h.dead⟩, hw.shares⟩
    exact absurd (hnil ▸ hl) List.not_mem_nil

theorem Ok.exec (h : P.Ok sockets p) : Within sockets p P P.exec := by
  have hnone : ∀ d ∈ P.fds.exec, ∀ i, d.file ≠ .socket i := by
    intro d hd i hi
    obtain ⟨hd, hc⟩ := Table.mem_exec.mp hd
    obtain ⟨l, -, rfl, -⟩ := h.held hd hi
    exact absurd hc nofun
  exact ⟨⟨h.once.filter _, List.nodup_nil, List.nodup_nil, fun _ hl => absurd hl List.not_mem_nil,
    fun d hd i hi => absurd hi (hnone d hd i), h.mine, h.own, fun _ => rfl⟩, fun d hd i hi => absurd hi (hnone d hd i)⟩

theorem Ok.exit (h : P.Ok sockets p) : Within sockets p P P.exit :=
  ⟨⟨.nil, List.nodup_nil, List.nodup_nil, fun _ hl => absurd hl List.not_mem_nil,
    fun _ hd => absurd hd List.not_mem_nil, h.mine, h.own, fun _ => rfl⟩, fun _ hd => absurd hd List.not_mem_nil⟩

/-- What the child of a fork has of its parent. -/
theorem Ok.forked (hash : ash.Documented) (h : P.Ok sockets p) (background : Bool) :
    Within sockets p P { P with
      toShell := if background then P.toShell else ash.forkchild P.toShell false } := by
  cases background with
  | true => exact h.within
  | false => exact h.other (hash.forks P.toShell false)

theorem Ok.fork (hash : ash.Documented) (h : P.Ok sockets p) (child : Nat) (background : Bool) :
    (P.fork ash child background).Ok sockets child :=
  have hok := (h.forked hash background).ok
  { once := hok.once
    names := h.names
    places := h.places
    listed := fun l hl => by
      obtain ⟨i, hmem, a, ha, hbound⟩ := hok.listed l hl
      exact ⟨i, hmem, a, List.mem_cons_of_mem child ha, hbound⟩
    counted := hok.counted
    mine := List.mem_cons_self
    own := fun hb hd => absurd (hb.symm.trans hd) nofun
    dead := h.dead }

/-! ## 4. Redirections -/

theorem moveLock_eq {fd copy : Nat} {ls : List LockFd} (h : (ls.map (·.fd)).Nodup) :
    moveLock fd copy ls = ls.map fun l => if l.fd = fd then { l with fd := copy } else l := by
  induction ls with
  | nil => rfl
  | cons l ls ih =>
    obtain ⟨hl, hls⟩ := List.nodup_cons.mp h
    rw [moveLock, List.map_cons]
    split
    · next heq =>
      congr 1
      refine (List.map_id ls).symm.trans (List.map_congr_left fun m hm => (if_neg fun hfd => ?_).symm)
      exact hl (List.mem_map.mpr ⟨m, hm, hfd.trans heq.symm⟩)
    · rw [ih hls]

/-- A lock gets another descriptor. -/
theorem Ok.moved (h : P.Ok sockets p) {copy : Nat} {d : Desc File} {l : LockFd} (hl : l ∈ P.locks)
    (hd : P.fds.lookup l.fd = some d) (hcopy : P.fds.closed copy = true) :
    Within sockets p P { P with
      fds := Table.close (⟨copy, d.file, true⟩ :: P.fds) l.fd
      locks := moveLock l.fd copy P.locks } := by
  obtain ⟨i, hmem, hbound⟩ := h.listed l hl
  obtain ⟨hdm, hdfd⟩ := Table.lookup_some hd
  obtain rfl := h.once.eq hdm hmem hdfd
  have hfree := Table.closed_iff.mp hcopy
  have hopen : ⟨copy, .socket i, true⟩ ∈ Table.close (⟨copy, .socket i, true⟩ :: P.fds) l.fd :=
    Table.mem_close.mpr ⟨List.mem_cons_self, (hfree _ hmem).symm⟩
  rw [moveLock_eq h.places]
  refine ⟨⟨(h.once.cons hcopy).close _, ?_, ?_, ?_, ?_, h.mine, h.own, fun ha => ?_⟩, ?_⟩
  · have hnames : (fun m : LockFd => (if m.fd = l.fd then { m with fd := copy } else m).name) =
        (·.name) := by
      funext m
      split
      · rfl
      · rfl
    rw [List.map_map]
    exact (congrArg (fun f => (P.locks.map f).Nodup) hnames).mpr h.names
  · rw [List.map_map]
    refine (h.places.of_map _).map_on fun m hm m' hm' heq => ?_
    obtain ⟨j, hj, -⟩ := h.listed m hm
    obtain ⟨j', hj', -⟩ := h.listed m' hm'
    refine List.inj_on_of_nodup_map h.places hm hm' ?_
    simp only [Function.comp_apply] at heq
    split_ifs at heq with hm1 hm2 hm2
    · exact hm1.trans hm2.symm
    · exact absurd heq.symm (hfree _ hj')
    · exact absurd heq (hfree _ hj)
    · exact heq
  · intro m' hm'
    obtain ⟨m, hm, rfl⟩ := List.mem_map.mp hm'
    by_cases hfd : m.fd = l.fd
    · obtain rfl := List.inj_on_of_nodup_map h.places hm hl hfd
      rw [if_pos rfl]
      exact ⟨i, hopen, hbound⟩
    · rw [if_neg hfd]
      obtain ⟨j, hj, hjb⟩ := h.listed m hm
      exact ⟨j, Table.mem_close.mpr ⟨List.mem_cons_of_mem _ hj, hfd⟩, hjb⟩
  · intro e he j hj
    obtain ⟨he, hefd⟩ := Table.mem_close.mp he
    rcases List.mem_cons.mp he with rfl | he
    · exact ⟨_, List.mem_map_of_mem hl, by rw [if_pos rfl]⟩
    · obtain ⟨m, hm, hmfd⟩ := h.counted e he j hj
      exact ⟨_, List.mem_map_of_mem hm, by rw [if_neg (hmfd ▸ hefd)]; exact hmfd⟩
  · exact absurd (h.dead ha ▸ hl) List.not_mem_nil
  · intro e he j hj
    rcases List.mem_cons.mp (Table.mem_close.mp he).1 with rfl | he
    · exact ⟨_, hmem, hj⟩
    · exact ⟨e, he, hj⟩

/-- What a redirection does first: no lock is left at the descriptor, and none comes below. -/
structure Saved (sockets : List Socket) (p fd avoidFd : Nat) (P P' : Process R) : Prop where
  within : Within sockets p P P'
  plain : Plain P'.fds fd
  below : ∀ n ≤ avoidFd, Plain P.fds n → Plain P'.fds n

theorem any_fd {fd : Nat} : P.locks.any (·.fd == fd) = true ↔ ∃ l ∈ P.locks, l.fd = fd := by simp

theorem Ok.saveFdOnRedirect (hash : ash.Documented) (h : P.Ok sockets p) (fd avoidFd : Nat)
    (push : Bool) : Saved sockets p fd avoidFd P (P.saveFdOnRedirect ash.toCallees fd avoidFd push).2 := by
  rw [Process.saveFdOnRedirect]
  split
  · next hlock =>
    obtain ⟨l, hl, rfl⟩ := any_fd.mp hlock
    obtain ⟨i, hmem, -⟩ := h.listed l hl
    have hlookup := Table.lookup_of_mem h.once hmem
    obtain ⟨copy, ⟨hlt, hfree⟩, heq⟩ := hash.moves _ _ (max avoidFd 9) _ hlookup
    simp only [heq]
    refine ⟨h.moved hl hlookup hfree, ?_, ?_⟩
    · exact fun d hd heq => absurd heq (Table.mem_close.mp hd).2
    · intro n hn hplain d hd heq
      rcases List.mem_cons.mp (Table.mem_close.mp hd).1 with rfl | hd
      · have hle : copy ≤ max avoidFd 9 := (Nat.le_of_eq heq).trans (hn.trans (le_max_left _ _))
        exact absurd hlt (Nat.not_lt.mpr hle)
      · exact hplain d hd heq
  · next hlock =>
    have hplain : Plain P.fds fd := h.plain fun l hl heq => hlock (any_fd.mpr ⟨l, hl, heq⟩)
    have hsame := (hash.saves P.toShell fd (max avoidFd 9) push).same hplain
    exact ⟨h.other hsame, hsame.plain hplain, fun n _ hn => hsame.plain hn⟩

theorem Ok.redirect (hash : ash.Documented) (h : P.Ok sockets p) (fd : Nat) (target : Target)
    (push : Bool) : Within sockets p P (ash.redirect P fd target push) := by
  have hr := hash.redirects P fd target push
  generalize ash.redirect P fd target push = Q at hr
  cases hr with
  | close closed P' hsave =>
    have hs := h.saveFdOnRedirect hash fd 0 push
    rw [hsave] at hs
    split
    · exact hs.within
    · exact hs.within.trans (hs.within.ok.other (S := { P'.toShell with fds := P'.fds.close fd })
        (sameSockets_close hs.plain))
  | opened hfree =>
    exact h.other (S := ⟨⟨fd, .other, false⟩ :: P.fds, _, P.rest⟩)
      (sameSockets_open ⟨fd, .other, false⟩ hfree rfl)
  | moved newfd closed P' hfree hsave =>
    have hopen := h.other (S := { P.toShell with fds := ⟨newfd, .other, false⟩ :: P.fds })
      (sameSockets_open ⟨newfd, .other, false⟩ hfree rfl)
    have hs := hopen.ok.saveFdOnRedirect hash fd newfd push
    rw [hsave] at hs
    have hnew : Plain (⟨newfd, .other, false⟩ :: P.fds : Table File) newfd := by
      intro d hd heq
      rcases List.mem_cons.mp hd with rfl | hd
      · rfl
      · exact absurd heq (Table.closed_iff.mp hfree d hd)
    have hnew' := hs.below newfd (Nat.le_refl _) hnew
    have hdup := sameSockets_dup2 hnew' hs.plain
    exact (hopen.trans hs.within).trans (hs.within.ok.other
      (S := { P'.toShell with fds := (P'.fds.dup2 newfd fd).close newfd })
      (hdup.trans (sameSockets_close (hdup.plain hnew'))))
  | same => exact h.within
  | refused src closed P' hsave =>
    have hs := h.saveFdOnRedirect hash fd src push
    rw [hsave] at hs
    exact hs.within
  | copied src closed P' hsave hown =>
    have hs := h.saveFdOnRedirect hash fd src push
    rw [hsave] at hs
    obtain ⟨hlocks, -⟩ := Bool.or_eq_false_iff.mp hown
    have hsrc : Plain P'.fds src := hs.within.ok.plain fun l hl heq =>
      Bool.false_ne_true (hlocks.symm.trans (any_fd.mpr ⟨l, hl, heq⟩))
    exact hs.within.trans (hs.within.ok.other (S := { P'.toShell with fds := P'.fds.dup2 src fd })
      (sameSockets_dup2 hsrc hs.plain))

/-- What is put back is no lock's descriptor, nor comes from one. -/
def tidy (P : Process R) (i : Nat) : Bool :=
  P.saved[i]?.all fun s => P.locks.all fun l => l.fd != s.1 && s.2 != some l.fd

theorem tidy_some {i fd : Nat} {copy : Option Nat} (ht : P.tidy i = true)
    (hs : P.saved[i]? = some (fd, copy)) : ∀ l ∈ P.locks, l.fd ≠ fd ∧ copy ≠ some l.fd := by
  rw [tidy, hs] at ht
  intro l hl
  simpa using List.all_eq_true.mp ht l hl

theorem Ok.popredir (hash : ash.Documented) (h : P.Ok sockets p) {i : Nat} (ht : P.tidy i = true) :
    Within sockets p P { P with toShell := ash.popredir P.toShell i } := by
  have hback := hash.putsBack P.toShell i
  generalize ash.popredir P.toShell i = S at hback
  cases hback with
  | nothing => exact h.within
  | closed fd hs =>
    exact h.other (sameSockets_close (h.plain fun l hl => (tidy_some ht hs l hl).1))
  | copied fd copy hs =>
    have hcopy : Plain P.fds copy :=
      h.plain fun l hl heq => (tidy_some ht hs l hl).2 (congrArg some heq.symm)
    have hdup := sameSockets_dup2 hcopy (h.plain fun l hl => (tidy_some ht hs l hl).1)
    exact h.other (hdup.trans (sameSockets_close (hdup.plain hcopy)))

end Process

/-! ## 5. `yi_lock` -/

/-- A name that is not bound is acquired where the system calls succeed; any other end leaves the
    process as it was. -/
theorem acquire_eq (sys : Syscalls) (w : World R) (p : Nat) (P : Process R) (name : Name) :
    ∃ copy, P.fds.closed copy = true ∧ acquire sys w p P name =
      if sys.socket && sys.dupfd && sys.setfd then
        if w.inUse (address name) then (75, P, w.sockets)
        else if sys.bind then
          (0, { P with
            fds := ⟨copy, .socket w.sockets.length, true⟩ :: P.fds
            locks := ⟨copy, name⟩ :: P.locks }, w.sockets ++ [⟨address name, p⟩])
        else (1, P, w.sockets)
      else (1, P, w.sockets) := by
  generalize hfd : P.fds.lowest 0 = fd
  generalize hfirst : (⟨fd, .socket w.sockets.length, false⟩ : Desc File) = first
  generalize hcopy : Table.lowest (first :: P.fds) 10 = copy
  have hclosed : P.fds.closed first.fd = true := by
    rw [← hfirst, ← hfd]
    exact Table.closed_lowest _ _
  have hboth : Table.closed (first :: P.fds) copy = true := hcopy ▸ Table.closed_lowest _ _
  have hne : first.fd ≠ copy := Table.closed_iff.mp hboth first List.mem_cons_self
  have hfree : P.fds.closed copy = true :=
    Table.closed_iff.mpr fun d hd => Table.closed_iff.mp hboth d (List.mem_cons_of_mem _ hd)
  have hone : Table.close (first :: P.fds) fd = P.fds := by
    have := Table.close_cons hclosed
    rwa [← hfirst] at this ⊢
  have htwo : Table.close (⟨copy, .socket w.sockets.length, false⟩ :: first :: P.fds) fd =
      ⟨copy, .socket w.sockets.length, false⟩ :: P.fds := by
    rw [← hfirst] at hne
    rw [Table.close_cons_of_ne hne.symm, hone]
  have hset := Table.setCloexec_cons (d := ⟨copy, .socket w.sockets.length, false⟩) hfree
  have hback (c : Bool) : Table.close (⟨copy, .socket w.sockets.length, c⟩ :: P.fds) copy = P.fds :=
    Table.close_cons (d := ⟨copy, .socket w.sockets.length, c⟩) hfree
  refine ⟨copy, hfree, ?_⟩
  simp only [acquire, hfd, hfirst, hcopy, hone, htwo, hset, hback]
  rcases sys.socket with - | - <;> rcases sys.dupfd with - | - <;> rcases sys.setfd with - | - <;> rfl

/-- The three ends of `yi_lock`. -/
inductive Ends (w : World R) (p : Nat) (P : Process R) : Nat × Process R × List Socket → Prop
  | refused (status : Nat) (h : status ≠ 0) : Ends w p P (status, P, w.sockets)
  | released (l : LockFd) (hl : l ∈ P.locks) :
      Ends w p P (0, { P with fds := P.fds.close l.fd, locks := P.locks.erase l }, w.sockets)
  | acquired (name : Name) (copy : Nat) (hname : ∀ l ∈ P.locks, l.name ≠ name)
      (hcopy : P.fds.closed copy = true) (hfree : w.inUse (address name) = false) :
      Ends w p P (0, { P with
        fds := ⟨copy, .socket w.sockets.length, true⟩ :: P.fds
        locks := ⟨copy, name⟩ :: P.locks }, w.sockets ++ [⟨address name, p⟩])

theorem acquire_ends (sys : Syscalls) (w : World R) (p : Nat) (P : Process R) {name : Name}
    (hname : ∀ l ∈ P.locks, l.name ≠ name) : Ends w p P (acquire sys w p P name) := by
  obtain ⟨copy, hcopy, heq⟩ := acquire_eq sys w p P name
  rw [heq]
  split
  · split
    · exact .refused 75 (by decide)
    · next huse =>
      split
      · exact .acquired name copy hname hcopy (Bool.not_eq_true _ ▸ huse)
      · exact .refused 1 (by decide)
  · exact .refused 1 (by decide)

theorem yiLockcmd_ends (args : List Name) (sys : Syscalls) (w : World R) (p : Nat) (P : Process R) :
    Ends w p P (yiLockcmd args sys w p P) := by
  rw [yiLockcmd]
  split
  · exact .refused 2 (by decide)
  · split
    · split
      · next l hfind =>
        split
        · exact .released l (List.mem_of_find?_eq_some hfind)
        · exact .refused 75 (by decide)
      · next hfind =>
        split
        · exact .refused 2 (by decide)
        · exact acquire_ends sys w p P fun l hl heq =>
            List.find?_eq_none.mp hfind l hl (beq_iff_eq.mpr heq)
    · exact .refused 2 (by decide)

/-- A `yi_lock` that fails leaves list and descriptors as they were. -/
theorem yiLockcmd_refused {args : List Name} {sys : Syscalls}
    (h : (yiLockcmd args sys w p P).1 ≠ 0) : (yiLockcmd args sys w p P).2 = (P, w.sockets) := by
  have hends := yiLockcmd_ends args sys w p P
  generalize yiLockcmd args sys w p P = r at h hends
  cases hends with
  | refused => rfl
  | released => exact absurd rfl h
  | acquired => exact absurd rfl h

/-! ## 6. All processes -/

/-- Some process has a descriptor on the socket. -/
def World.Used (w : World R) (i : Nat) : Prop := ∃ P ∈ w.procs, ∃ d ∈ P.fds, d.file = .socket i

/-- The processes are in step, and an address has one socket in use. -/
structure World.Inv (w : World R) : Prop where
  ok : ∀ (p : Nat) (P : Process R), w.procs[p]? = some P → P.Ok w.sockets p
  exclusive : ∀ (i j : Nat) (s s' : Socket), w.Used i → w.Used j → w.sockets[i]? = some s → w.sockets[j]? = some s' →
    s.address = s'.address → i = j

theorem inUse_iff {a : List Char} :
    w.inUse a = true ↔ ∃ i s, w.Used i ∧ w.sockets[i]? = some s ∧ s.address = a := by
  simp only [World.inUse, List.any_eq_true]
  constructor
  · intro h
    obtain ⟨P, hP, d, hd, h⟩ := h
    split at h
    · exact absurd h nofun
    · next i hi =>
      obtain ⟨s, hs, ha⟩ := (Option.any_eq_true _ _).mp h
      exact ⟨i, s, ⟨P, hP, d, hd, hi⟩, hs, beq_iff_eq.mp ha⟩
  · intro h
    obtain ⟨i, s, ⟨P, hP, d, hd, hi⟩, hs, ha⟩ := h
    refine ⟨P, hP, d, hd, ?_⟩
    rw [hi]
    exact (Option.any_eq_true _ _).mpr ⟨s, hs, beq_iff_eq.mpr ha⟩

/-- A socket in use is a lock of a process. -/
theorem World.Inv.used (h : w.Inv) {i : Nat} (hi : w.Used i) :
    ∃ (p : Nat) (P : Process R), w.procs[p]? = some P ∧ ∃ l ∈ P.locks, ∃ a ∈ P.line,
      w.sockets[i]? = some ⟨address l.name, a⟩ := by
  obtain ⟨P, hP, d, hd, hdi⟩ := hi
  obtain ⟨p, hp⟩ := List.mem_iff_getElem?.mp hP
  obtain ⟨l, hl, -, hbound⟩ := (h.ok p P hp).held hd hdi
  exact ⟨p, P, hp, l, hl, hbound⟩

theorem World.Used.of_set {sockets : List Socket} {i : Nat}
    (h : World.Used ⟨w.procs.set p P', sockets⟩ i) :
    w.Used i ∨ ∃ d ∈ P'.fds, d.file = .socket i := by
  obtain ⟨Q, hQ, d, hd, hi⟩ := h
  rcases List.mem_or_eq_of_mem_set hQ with hQ | rfl
  · exact .inl ⟨Q, hQ, d, hd, hi⟩
  · exact .inr ⟨d, hd, hi⟩

theorem World.Inv.set (h : w.Inv) (hP : w.procs[p]? = some P) (hw : Within w.sockets p P P') :
    (w.set p P').Inv where
  ok q Q hq := by
    by_cases hpq : p = q
    · subst hpq
      have hlt := (List.getElem?_eq_some_iff.mp hP).1
      obtain rfl : P' = Q := Option.some.inj ((List.getElem?_set_self hlt).symm.trans hq)
      exact hw.ok
    · exact h.ok q Q ((List.getElem?_set_ne hpq).symm.trans hq)
  exclusive i j s s' hi hj := by
    have hused : ∀ {k}, (w.set p P').Used k → w.Used k := by
      intro k hk
      rcases hk.of_set with hk | ⟨d, hd, hdk⟩
      · exact hk
      · obtain ⟨e, he, hek⟩ := hw.shares d hd k hdk
        exact ⟨P, List.mem_of_getElem? hP, e, he, hek⟩
    exact h.exclusive i j s s' (hused hi) (hused hj)

theorem getElem?_concat {α : Type} {l : List α} {a b : α} {q : Nat} (h : (l ++ [a])[q]? = some b) :
    l[q]? = some b ∨ q = l.length ∧ b = a := by
  rcases Nat.lt_trichotomy q l.length with hlt | rfl | hgt
  · exact .inl ((List.getElem?_append_left hlt).symm.trans h)
  · exact .inr ⟨rfl, by simpa using h.symm⟩
  · rw [List.getElem?_eq_none (by rw [List.length_append]; exact hgt)] at h
    exact absurd h nofun

/-- One more process. -/
theorem World.Inv.push (h : w.Inv) (hok : P.Ok w.sockets w.procs.length)
    (hshares : ∀ d ∈ P.fds, ∀ i, d.file = .socket i → w.Used i) :
    World.Inv { w with procs := w.procs ++ [P] } where
  ok q Q hq := by
    rcases getElem?_concat hq with hq | ⟨rfl, rfl⟩
    · exact h.ok q Q hq
    · exact hok
  exclusive i j s s' hi hj := by
    have hused : ∀ {k}, World.Used { w with procs := w.procs ++ [P] } k → w.Used k := by
      intro k hk
      obtain ⟨Q, hQ, d, hd, hdk⟩ := hk
      rcases List.mem_append.mp hQ with hQ | hQ
      · exact ⟨Q, hQ, d, hd, hdk⟩
      · obtain rfl := List.mem_singleton.mp hQ
        exact hshares d hd k hdk
    exact h.exclusive i j s s' (hused hi) (hused hj)

theorem World.Inv.fork (hash : ash.Documented) (h : w.Inv) (hP : w.procs[p]? = some P)
    (background : Bool) : (w.fork ash P background).Inv := by
  refine h.push ((h.ok p P hP).fork hash _ background) fun d hd i hi => ?_
  obtain ⟨e, he, hei⟩ := ((h.ok p P hP).forked hash background).shares d hd i hi
  exact ⟨P, List.mem_of_getElem? hP, e, he, hei⟩

theorem Process.Ok.append (h : P.Ok sockets p) (more : List Socket) : P.Ok (sockets ++ more) p where
  once := h.once
  names := h.names
  places := h.places
  listed l hl := by
    obtain ⟨i, hmem, a, ha, hbound⟩ := h.listed l hl
    refine ⟨i, hmem, a, ha, ?_⟩
    rw [List.getElem?_append_left (List.getElem?_eq_some_iff.mp hbound).1]
    exact hbound
  counted := h.counted
  mine := h.mine
  own := h.own
  dead := h.dead

theorem Process.Ok.acquired (h : P.Ok sockets p) (halive : P.alive = true) {name : Name} {copy : Nat}
    (hname : ∀ l ∈ P.locks, l.name ≠ name) (hcopy : P.fds.closed copy = true) :
    Process.Ok (sockets ++ [⟨address name, p⟩]) p { P with
      fds := ⟨copy, .socket sockets.length, true⟩ :: P.fds
      locks := ⟨copy, name⟩ :: P.locks } where
  once := h.once.cons hcopy
  names := List.nodup_cons.mpr ⟨fun hmem => by
    obtain ⟨l, hl, heq⟩ := List.mem_map.mp hmem
    exact hname l hl heq, h.names⟩
  places := List.nodup_cons.mpr ⟨fun hmem => by
    obtain ⟨l, hl, heq⟩ := List.mem_map.mp hmem
    obtain ⟨i, hopen, -⟩ := h.listed l hl
    exact Table.closed_iff.mp hcopy _ hopen heq, h.places⟩
  listed l hl := by
    rcases List.mem_cons.mp hl with rfl | hl
    · exact ⟨sockets.length, List.mem_cons_self, p, h.mine, by simp⟩
    · obtain ⟨i, hmem, hbound⟩ := (h.append [⟨address name, p⟩]).listed l hl
      exact ⟨i, List.mem_cons_of_mem _ hmem, hbound⟩
  counted d hd i hi := by
    rcases List.mem_cons.mp hd with rfl | hd
    · exact ⟨_, List.mem_cons_self, rfl⟩
    · obtain ⟨l, hl, hfd⟩ := h.counted d hd i hi
      exact ⟨l, List.mem_cons_of_mem _ hl, hfd⟩
  mine := h.mine
  own := h.own
  dead hd := absurd (halive.symm.trans hd) nofun

theorem World.Inv.acquired (h : w.Inv) (hP : w.procs[p]? = some P) (halive : P.alive = true) {name : Name} {copy : Nat}
    (hname : ∀ l ∈ P.locks, l.name ≠ name) (hcopy : P.fds.closed copy = true)
    (hfree : w.inUse (address name) = false) :
    World.Inv {
      procs := w.procs.set p { P with
        fds := ⟨copy, .socket w.sockets.length, true⟩ :: P.fds
        locks := ⟨copy, name⟩ :: P.locks }
      sockets := w.sockets ++ [⟨address name, p⟩] } where
  ok q Q hq := by
    by_cases hpq : p = q
    · subst hpq
      have hlt := (List.getElem?_eq_some_iff.mp hP).1
      obtain rfl := Option.some.inj ((List.getElem?_set_self hlt).symm.trans hq)
      exact (h.ok p P hP).acquired halive hname hcopy
    · exact (h.ok q Q ((List.getElem?_set_ne hpq).symm.trans hq)).append _
  exclusive i j s s' hi hj hs hs' heq := by
    -- a socket in use is one from before or the new one
    have hold : ∀ {k}, (w.Used k ∨ ∃ d ∈ (⟨copy, .socket w.sockets.length, true⟩ :: P.fds : Table File),
        d.file = .socket k) → k = w.sockets.length ∨ w.Used k := by
      intro k hk
      obtain hk | ⟨d, hd, hdk⟩ := hk
      · exact .inr hk
      · rcases List.mem_cons.mp hd with rfl | hd
        · exact .inl (File.socket.inj hdk).symm
        · exact .inr ⟨P, List.mem_of_getElem? hP, d, hd, hdk⟩
    have hbefore : ∀ {k t}, w.Used k → (w.sockets ++ [⟨address name, p⟩])[k]? = some t →
        w.sockets[k]? = some t ∧ t.address ≠ address name := by
      intro k t hk ht
      obtain ⟨q, Q, -, l, -, a, -, hbound⟩ := h.used hk
      have hlt := (List.getElem?_eq_some_iff.mp hbound).1
      have ht' := (List.getElem?_append_left hlt).symm.trans ht
      exact ⟨ht', fun ha => by rw [inUse_iff.mpr ⟨k, t, hk, ht', ha⟩] at hfree; cases hfree⟩
    have hnew : ∀ {t}, (w.sockets ++ [⟨address name, p⟩])[w.sockets.length]? = some t →
        t.address = address name := by
      intro t ht
      rw [List.getElem?_concat_length] at ht
      exact (Option.some.inj ht) ▸ rfl
    rcases hold hi.of_set with rfl | hi
    · rcases hold hj.of_set with rfl | hj
      · rfl
      · exact absurd (heq.symm.trans (hnew hs)) (hbefore hj hs').2
    · rcases hold hj.of_set with rfl | hj
      · exact absurd (heq.trans (hnew hs')) (hbefore hi hs).2
      · exact h.exclusive i j s s' hi hj (hbefore hi hs).1 (hbefore hj hs').1 heq

/-! ## 7. Every run -/

theorem live_some (h : w.live p = some P) : w.procs[p]? = some P ∧ P.alive = true :=
  Option.filter_eq_some_iff.mp h

theorem new_ok (sockets : List Socket) (p : Nat) : (Process.new ash p).Ok sockets p where
  once := show Process.standardFds.Once by decide
  names := List.nodup_nil
  places := List.nodup_nil
  listed l hl := absurd hl List.not_mem_nil
  counted d hd i hi := by
    have hother : ∀ d ∈ Process.standardFds, d.file = .other := by decide
    exact absurd (hi.symm.trans (hother d hd)) nofun
  mine := List.mem_singleton_self p
  own hb := absurd hb nofun
  dead _ := rfl

theorem boot_inv : World.Inv (World.boot (R := R)) where
  ok _ _ h := absurd h nofun
  exclusive _ _ _ _ _ _ h := absurd h nofun

/-- No redirection is put back over a lock. -/
def orderly (w : World R) : Event → Bool
  | .command p (.popredir i) => (w.live p).all (·.tidy i)
  | _ => true

theorem perform_inv (hash : ash.Documented) (h : w.Inv) (hP : w.live p = some P) {c : Command}
    (ho : orderly w (.command p c) = true) : (w.perform ash p P c).Inv := by
  obtain ⟨hP', halive⟩ := live_some hP
  have hok := h.ok p P hP'
  cases c with
  | yiLock args sys =>
    have hends := yiLockcmd_ends args sys w p P
    simp only [World.perform]
    generalize yiLockcmd args sys w p P = r at hends
    cases hends with
    | refused => exact h.set hP' hok.within
    | released l hl => exact h.set hP' (hok.remove hl)
    | acquired name copy hname hcopy hfree => exact h.acquired hP' halive hname hcopy hfree
  | fork background => exact h.fork hash hP' background
  | redirect fd target push => exact h.set hP' (hok.redirect hash fd target push)
  | popredir i =>
    rw [orderly, hP] at ho
    exact h.set hP' (hok.popredir hash ho)
  | external last traps =>
    simp only [World.perform]
    split
    · exact h.fork hash hP' false
    · exact h.set hP' hok.exec
  | exec => exact h.set hP' hok.exec

theorem step_inv (hash : ash.Documented) (h : w.Inv) {e : Event} (ho : orderly w e = true) :
    (step ash w e).Inv := by
  cases e with
  | spawn =>
    refine h.push (new_ok _ _) fun d hd i hi => ?_
    have hnew : (Process.new ash w.procs.length).Ok w.sockets w.procs.length := new_ok _ _
    obtain ⟨l, hl, -⟩ := hnew.held hd hi
    exact absurd hl List.not_mem_nil
  | command p c =>
    rw [step]
    split
    · next P hP =>
      split
      · exact h
      · exact perform_inv hash h hP ho
    · exact h
  | dropLock p =>
    rw [step]
    split
    · next P hP =>
      split
      · exact h.set (live_some hP).1 ((h.ok p P (live_some hP).1).dropLock hash)
      · exact h
    · exact h
  | exit p =>
    rw [step]
    split
    · next P hP => exact h.set (live_some hP).1 (h.ok p P (live_some hP).1).exit
    · exact h

namespace World

/-- The process has the lock: `yi_lock` has told it so, or its parent. -/
def Holds (w : World R) (p : Nat) (name : Name) : Prop :=
  ∃ P, w.live p = some P ∧ ∃ l ∈ P.locks, l.name = name

/-- The process that bound the socket in use. -/
def Acquirer (w : World R) (a : Nat) (name : Name) : Prop :=
  ∃ i, w.Used i ∧ w.sockets[i]? = some ⟨address name, a⟩

/-- The process `a`, and its foreground descendants. -/
def Foreground (w : World R) (a p : Nat) : Prop := ∃ P, w.procs[p]? = some P ∧ a ∈ P.line

end World

/-- All system calls succeed. -/
def Syscalls.well : Syscalls := ⟨true, true, true, true⟩

/-- What a process lock promises. -/
structure Correct (ash : Unpatched R) (w : World R) : Prop where
  addresses : ∀ n n', validName n = true → validName n' = true → address n = address n' → n = n'
  exclusive : ∀ p q name, w.Holds p name → w.Holds q name →
    ∃ a, w.Acquirer a name ∧ w.Foreground a p ∧ w.Foreground a q
  background : ∀ p P name, w.live p = some P → P.background = true → P.dropping = false →
    w.Holds p name → w.Acquirer p name
  inStep : ∀ p P, w.live p = some P →
    (∀ l ∈ P.locks, ∃ i a, ⟨l.fd, .socket i, true⟩ ∈ P.fds ∧
      w.sockets[i]? = some ⟨address l.name, a⟩) ∧
    ∀ d ∈ P.fds, ∀ i, d.file = .socket i → ∃ l ∈ P.locks, l.fd = d.fd
  refused : ∀ p P args sys, w.live p = some P → (yiLockcmd args sys w p P).1 ≠ 0 →
    (yiLockcmd args sys w p P).2 = (P, w.sockets)
  available : ∀ p P name, w.live p = some P → validName name = true →
    (∀ a q, w.Acquirer a name → w.Foreground a q → ¬ w.Holds q name) →
    (yiLockcmd [name] .well w p P).1 = 0 ∧ (w.perform ash p P (.yiLock [name] .well)).Holds p name

/-- What is held is bound, by a process of the line. -/
theorem World.Inv.holds (h : w.Inv) {name : Name} (hh : w.Holds p name) :
    ∃ P i a, w.live p = some P ∧ ⟨address name, a⟩ ∈ w.sockets[i]? ∧ w.Used i ∧ a ∈ P.line := by
  obtain ⟨P, hP, l, hl, rfl⟩ := hh
  obtain ⟨i, hmem, a, ha, hbound⟩ := (h.ok p P (live_some hP).1).listed l hl
  exact ⟨P, i, a, hP, hbound, ⟨P, List.mem_of_getElem? (live_some hP).1, _, hmem, rfl⟩, ha⟩

theorem World.Inv.available (h : w.Inv) (hP : w.live p = some P) {name : Name}
    (hvalid : validName name = true)
    (hgone : ∀ a q, w.Acquirer a name → w.Foreground a q → ¬ w.Holds q name) :
    (yiLockcmd [name] .well w p P).1 = 0 ∧
      (w.perform ash p P (.yiLock [name] .well)).Holds p name := by
  obtain ⟨hP', halive⟩ := live_some hP
  have hnobody : ∀ q, ¬ w.Holds q name := by
    intro q hq
    obtain ⟨Q, i, a, hQ, hbound, hused, ha⟩ := h.holds hq
    exact hgone a q ⟨i, hused, hbound⟩ ⟨Q, (live_some hQ).1, ha⟩ hq
  have hfind : P.locks.find? (·.name == name) = none :=
    List.find?_eq_none.mpr fun l hl heq => hnobody p ⟨P, hP, l, hl, beq_iff_eq.mp heq⟩
  have hfree : w.inUse (address name) = false := by
    refine Bool.eq_false_iff.mpr fun huse => ?_
    obtain ⟨i, s, hi, hs, ha⟩ := inUse_iff.mp huse
    obtain ⟨q, Q, hQ, l, hl, a, -, hbound⟩ := h.used hi
    obtain rfl := Option.some.inj (hs.symm.trans hbound)
    have hQlive : Q.alive = true := by
      by_contra hdead
      rw [(h.ok q Q hQ).dead (Bool.not_eq_true _ ▸ hdead)] at hl
      exact absurd hl List.not_mem_nil
    exact hnobody q ⟨Q, Option.filter_eq_some_iff.mpr ⟨hQ, hQlive⟩, l, hl, address_inj ha⟩
  obtain ⟨copy, -, heq⟩ := acquire_eq .well w p P name
  rw [hfree] at heq
  have hcmd : yiLockcmd [name] .well w p P = acquire .well w p P name := by
    simp [yiLockcmd, lockArgs, hvalid, hfind]
  simp only [World.perform]
  rw [hcmd, heq]
  refine ⟨rfl, _, Option.filter_eq_some_iff.mpr
    ⟨List.getElem?_set_self (List.getElem?_eq_some_iff.mp hP').1, halive⟩, ⟨copy, name⟩,
    List.mem_cons_self, rfl⟩

theorem World.Inv.correct (h : w.Inv) : Correct ash w where
  addresses _ _ _ _ := address_inj
  exclusive p q name hp hq := by
    obtain ⟨P, i, a, hP, hbound, hused, ha⟩ := h.holds hp
    obtain ⟨Q, j, b, hQ, hbound', hused', hb⟩ := h.holds hq
    obtain rfl := h.exclusive i j _ _ hused hused' hbound hbound' rfl
    obtain rfl : a = b := congrArg Socket.owner (Option.some.inj (hbound.symm.trans hbound'))
    exact ⟨a, ⟨i, hused, hbound⟩, ⟨P, (live_some hP).1, ha⟩, ⟨Q, (live_some hQ).1, hb⟩⟩
  background p P name hP hback hdrop hh := by
    obtain ⟨P', i, a, hP', hbound, hused, ha⟩ := h.holds hh
    obtain rfl := Option.some.inj (hP.symm.trans hP')
    rw [(h.ok p P (live_some hP).1).own hback hdrop] at ha
    obtain rfl := List.mem_singleton.mp ha
    exact ⟨i, hused, hbound⟩
  inStep p P hP := by
    have hok := h.ok p P (live_some hP).1
    refine ⟨fun l hl => ?_, hok.counted⟩
    obtain ⟨i, hmem, a, -, hbound⟩ := hok.listed l hl
    exact ⟨i, a, hmem, hbound⟩
  refused _ _ _ _ _ := yiLockcmd_refused
  available _ _ _ hP := h.available hP

/-- **The lock over every run.** Whatever shells are started, fork, redirect, run commands, end and
    call `yi_lock`, in any order: as long as no redirection is put back over the descriptor of a
    lock, what two processes hold has one acquirer whose foreground descendants they are, a
    background child holds what it has acquired itself, lists and descriptors are the same locks, a
    refusal changes nothing, and what all have given back can be acquired. -/
theorem locks_correct (ash : Unpatched R) (hash : ash.Documented) (es : List Event)
    (h : StepsMeet (step ash) (fun w e => orderly w e = true) .boot es) :
    Correct ash (run (step ash) .boot es) :=
  (run_inv_of (I := World.Inv) (fun _ _ ho hinv => step_inv hash hinv ho) boot_inv h).correct

/-! ## 8. A shell -/

/-- A shell with no descriptors of its own, that takes the lowest free ones. -/
def plainCallees : Callees Unit where
  xdupCloexecAndClose t fd avoidFd :=
    match t.lookup fd with
    | some d =>
      let copy := t.lowest (avoidFd + 1)
      (copy, Table.close (⟨copy, d.file, true⟩ :: t) fd)
    | none => (fd, t)
  saveFdOnRedirect S fd avoidFd push :=
    if push then
      match S.fds.lookup fd with
      | some d =>
        let copy := S.fds.lowest (avoidFd + 1)
        (false, { S with fds := ⟨copy, d.file, true⟩ :: S.fds, saved := (fd, some copy) :: S.saved })
      | none => (false, { S with saved := (fd, none) :: S.saved })
    else (false, S)
  internallyOpenedFd _ _ := false

def plainShell : Unpatched Unit where
  toCallees := plainCallees
  init := ()
  redirect P fd
    | .close, push =>
      let (closed, P') := P.saveFdOnRedirect plainCallees fd 0 push
      if closed then P' else { P' with fds := P'.fds.close fd }
    | .file, push =>
      let newfd := P.fds.lowest 0
      let P' := { P with fds := ⟨newfd, .other, false⟩ :: P.fds }
      if newfd = fd then { P' with saved := if push then (fd, none) :: P.saved else P.saved }
      else
        let (_, P') := P'.saveFdOnRedirect plainCallees fd newfd push
        { P' with fds := (P'.fds.dup2 newfd fd).close newfd }
    | .dup src, push =>
      if src = fd then P
      else
        let (_, P') := P.saveFdOnRedirect plainCallees fd src push
        if P'.internallyOpenedFd plainCallees src then P'
        else { P' with fds := P'.fds.dup2 src fd }
  popredir S i :=
    match S.saved[i]? with
    | none => S
    | some (fd, none) => { S with saved := S.saved.eraseIdx i, fds := S.fds.close fd }
    | some (fd, some copy) =>
      { S with saved := S.saved.eraseIdx i, fds := (S.fds.dup2 copy fd).close copy }
  forkchild S _ := S

theorem spare_lowest (t : Table File) (avoidFd : Nat) : Spare t avoidFd (t.lowest (avoidFd + 1)) :=
  ⟨Table.le_lowest t (avoidFd + 1), Table.closed_lowest t (avoidFd + 1)⟩

theorem closed_of_lookup {t : Table File} {fd : Nat} (h : t.lookup fd = none) : t.closed fd = true :=
  Table.closed_iff.mpr fun d hd hfd => List.find?_eq_none.mp h d hd (beq_iff_eq.mpr hfd)

theorem plainCallees_saves (S : Shell Unit) (fd avoidFd : Nat) (push : Bool) :
    Saves S fd avoidFd push (plainCallees.saveFdOnRedirect S fd avoidFd push) := by
  cases push with
  | false => exact .unasked
  | true =>
    simp only [plainCallees, if_true]
    split
    · next d hd => exact .copied d _ hd (spare_lowest S.fds avoidFd)
    · next hd => exact .closed (closed_of_lookup hd)

theorem plainShell_redirects (P : Process Unit) (fd : Nat) (target : Target) (push : Bool) :
    Redirects plainCallees P fd push target (plainShell.redirect P fd target push) := by
  cases target with
  | close => exact .close _ _ rfl
  | file =>
    have hfree := Table.closed_lowest P.fds 0
    simp only [plainShell]
    split
    · next hfd => exact hfd ▸ .opened (hfd ▸ hfree)
    · exact .moved _ _ _ hfree rfl
  | dup src =>
    simp only [plainShell]
    split
    · next hfd => exact hfd ▸ .same
    · split
      · next hown => exact .refused src _ _ rfl hown
      · next hown => exact .copied src _ _ rfl (Bool.not_eq_true _ ▸ hown)

theorem plainShell_documented : plainShell.Documented where
  moves t fd avoidFd d hd := by
    refine ⟨_, spare_lowest t avoidFd, ?_⟩
    simp only [plainShell, plainCallees, hd]
  saves := plainCallees_saves
  redirects := plainShell_redirects
  putsBack S i := by
    simp only [plainShell]
    split
    · next h => exact .nothing h
    · next h => exact .closed _ h
    · next h => exact .copied _ _ h
  forks S _ := .refl S.fds

/-- A lock, a background child, redirections of the output and over the lock, a command, the output
    put back, and the end. -/
def lockedRun : List Event :=
  [.spawn, .spawn, .command 0 (.yiLock ["ftp".toList] .well), .command 0 (.fork true), .dropLock 2,
    .dropLock 2, .command 0 (.redirect 1 .file true), .command 0 (.redirect 10 .file true),
    .command 0 (.external true false), .command 3 .exec, .command 0 (.popredir 0),
    .command 1 (.yiLock ["ftp".toList] .well), .exit 0]

theorem locks_correct_once : Correct plainShell (run (step plainShell) .boot lockedRun) :=
  locks_correct plainShell plainShell_documented lockedRun (by decide)

/-! ## 9. A redirection put back over a lock -/

/-- `{ yi_lock ftp; } 10>&-`, and `yi_lock ftp` in another shell. -/
def lostRun : List Event :=
  [.spawn, .spawn, .command 0 (.redirect 10 .close true), .command 0 (.yiLock ["ftp".toList] .well),
    .command 0 (.popredir 0), .command 1 (.yiLock ["ftp".toList] .well)]

section Lost

variable (hash : ash.Documented)
include hash

/-- Descriptor 10 is noted as one that was closed. -/
theorem save_ten : (Process.new ash 0).saveFdOnRedirect ash.toCallees 10 0 true =
    (false, { Process.new ash 0 with saved := [(10, none)] }) := by
  have hopen : Process.standardFds.lookup 10 = none := rfl
  have hsave : ash.saveFdOnRedirect (Process.new ash 0).toShell 10 9 true =
      (false, { (Process.new ash 0).toShell with saved := [(10, none)] }) := by
    have hs := hash.saves (Process.new ash 0).toShell 10 9 true
    generalize ash.saveFdOnRedirect (Process.new ash 0).toShell 10 9 true = r at hs
    cases hs with
    | closed => rfl
    | copied d copy hd => cases hopen.symm.trans hd
    | already copy h => exact absurd h List.not_mem_nil
    | again i old copy d h => cases h
    | own push rest d copy hd => cases hopen.symm.trans hd
  change ((ash.saveFdOnRedirect (Process.new ash 0).toShell 10 9 true).1,
    { Process.new ash 0 with
      toShell := (ash.saveFdOnRedirect (Process.new ash 0).toShell 10 9 true).2 }) = _
  rw [hsave]

theorem redirect_ten : ash.redirect (.new ash 0) 10 .close true =
    { Process.new ash 0 with saved := [(10, none)] } := by
  have hr := hash.redirects (.new ash 0) 10 .close true
  generalize ash.redirect (.new ash 0) 10 .close true = Q at hr
  obtain ⟨closed, P', hsave⟩ := hr
  obtain ⟨rfl, rfl⟩ := Prod.mk.inj ((save_ten hash).symm.trans hsave)
  rfl

theorem popredir_ten {S : Shell R} (h : S.saved = [(10, none)]) :
    ash.popredir S 0 = { S with saved := [], fds := S.fds.close 10 } := by
  have hback := hash.putsBack S 0
  generalize ash.popredir S 0 = T at hback
  cases hback with
  | nothing hs => exact absurd ((congrArg (·[0]?) h).symm.trans hs) nofun
  | closed fd hs =>
    obtain ⟨rfl, -⟩ := Prod.mk.inj (Option.some.inj ((congrArg (·[0]?) h).symm.trans hs))
    rw [h]
    rfl
  | copied fd copy hs =>
    exact absurd (Prod.mk.inj (Option.some.inj ((congrArg (·[0]?) h).symm.trans hs))).2 nofun

/-- The shell still lists the lock at descriptor 10, and the other one has bound its address. -/
theorem lostRun_eq : run (step ash) .boot lostRun =
    ⟨[{ Process.new ash 0 with locks := [⟨10, "ftp".toList⟩] },
      { Process.new ash 1 with
        fds := ⟨10, .socket 1, true⟩ :: Process.standardFds
        locks := [⟨10, "ftp".toList⟩] }],
      [⟨address "ftp".toList, 0⟩, ⟨address "ftp".toList, 1⟩]⟩ := by
  let held : Process R := { Process.new ash 0 with
    fds := ⟨10, .socket 0, true⟩ :: Process.standardFds
    saved := [(10, none)]
    locks := [⟨10, "ftp".toList⟩] }
  have hlocked : run (step ash) .boot (lostRun.take 4) =
      ⟨[held, .new ash 1], [⟨address "ftp".toList, 0⟩]⟩ := by
    change step ash ⟨[ash.redirect (.new ash 0) 10 .close true, .new ash 1], []⟩
      (.command 0 (.yiLock ["ftp".toList] .well)) = _
    rw [redirect_ten hash]
    rfl
  change step ash (step ash (run (step ash) .boot (lostRun.take 4)) (.command 0 (.popredir 0)))
    (.command 1 (.yiLock ["ftp".toList] .well)) = _
  rw [hlocked]
  change step ash ⟨[{ held with toShell := ash.popredir held.toShell 0 }, .new ash 1], _⟩ _ = _
  rw [popredir_ten hash rfl]
  rfl

end Lost

/-- **A redirection put back closes the lock**, in any shell, and two shells that are not related have
    it. -/
theorem lock_lost : ¬ ∃ (R : Type) (ash : Unpatched R), ash.Documented ∧
    ∀ es, Correct ash (run (step ash) .boot es) := by
  intro ⟨R, ash, hash, h⟩
  have hrun := h lostRun
  rw [lostRun_eq hash] at hrun
  obtain ⟨a, -, ⟨P, hP, ha⟩, Q, hQ, hb⟩ := hrun.exclusive 0 1 "ftp".toList
    ⟨_, rfl, _, List.mem_cons_self, rfl⟩ ⟨_, rfl, _, List.mem_cons_self, rfl⟩
  obtain rfl := Option.some.inj hP
  obtain rfl := Option.some.inj hQ
  have hzero := List.mem_singleton.mp ha
  have hone := List.mem_singleton.mp hb
  exact absurd (hzero.symm.trans hone) (by decide)

end YiHack.Ash
