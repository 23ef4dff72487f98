/-
  File:      YiHack/Rtsp/FrameClock.lean
  Subject:   `FrameClock.hh`: capture times of 32 bits on one timeline.

  The clock adds the signed difference of two capture times to its microseconds, so it follows the
  true time as long as two calls are less than 2^31 ms apart (`Clocked`). Its microseconds are 64
  bits; the seconds it returns are a `time_t`, 32 bits on the camera, and what does not fit them is
  cut off.

  * `split_usec`, `split_micros` -- seconds and microseconds, with the borrow;
  * `map_clocked` -- what a call keeps;
  * **`spacing_kept`** -- over every run of calls, as far as the seconds fit;
  * `spacing_lost` -- two times either side of the last second.
-/
import Mathlib.Data.List.Chain
import Mathlib.Algebra.Order.Group.Unbundled.Int

namespace YiHack.Rtsp

/-! ## 1. The clock -/

/-- `struct timeval`: two `long` of the camera. -/
structure Timeval where
  sec : BitVec 32
  usec : BitVec 32
  deriving DecidableEq, Repr

/-- `(int64_t)tv_sec * 1000000 + tv_usec`. -/
def Timeval.micros (t : Timeval) : Int := t.sec.toInt * 1000000 + t.usec.toInt

/-- `FrameClock`. -/
structure FrameClock where
  initialized : Bool
  frameTime : BitVec 32
  wallUsec : BitVec 64
  deriving DecidableEq, Repr

namespace FrameClock

/-- `FrameClock()`. -/
def unset : FrameClock := ⟨false, 0, 0⟩

/-- `FrameClock(frameTime, wall)`. -/
def at_ (frameTime : BitVec 32) (wall : Timeval) : FrameClock :=
  ⟨true, frameTime, BitVec.ofInt 64 wall.micros⟩

/-- `result`: C divides towards zero, and the fields take what fits them. -/
def split (wallUsec : Int) : Timeval :=
  let sec := BitVec.ofInt 32 (wallUsec.tdiv 1000000)
  let usec := BitVec.ofInt 32 (wallUsec.tmod 1000000)
  if usec.toInt < 0 then ⟨sec - 1, usec + 1000000⟩ else ⟨sec, usec⟩

/-- `map`; `wall` is what `gettimeofday` says. -/
def map (c : FrameClock) (wall : Timeval) (frameTime : BitVec 32) : FrameClock × Timeval :=
  let wallUsec :=
    if c.initialized then
      c.wallUsec + BitVec.ofInt 64 ((frameTime - c.frameTime).toInt * 1000)
    else BitVec.ofInt 64 wall.micros
  (⟨true, frameTime, wallUsec⟩, split wallUsec.toInt)

/-- A call: the true capture time in milliseconds, of which the clock sees 32 bits, and what
    `gettimeofday` would say. -/
structure Call where
  time : Int
  wall : Timeval
  deriving DecidableEq, Repr

def Call.frameTime (x : Call) : BitVec 32 := BitVec.ofInt 32 x.time

/-- What the calls return. -/
def times : FrameClock → List Call → List Timeval
  | _, [] => []
  | c, x :: xs => (c.map x.wall x.frameTime).2 :: times (c.map x.wall x.frameTime).1 xs

/-! ## 2. One call -/

theorem toInt_ofInt_of_long {n : Int} (hlo : -2 ^ 31 ≤ n) (hhi : n < 2 ^ 31) :
    (BitVec.ofInt 32 n).toInt = n := by
  rw [BitVec.toInt_ofInt]
  exact Int.bmod_eq_of_le (by omega) (by omega)

/-- The remainder and its borrow fit. -/
theorem toInt_usec (n : Int) :
    (BitVec.ofInt 32 (n.tmod 1000000)).toInt = n.tmod 1000000 ∧
      (n.tmod 1000000 < 0 →
        (BitVec.ofInt 32 (n.tmod 1000000) + 1000000).toInt = n.tmod 1000000 + 1000000) := by
  have hlt := Int.tmod_lt_of_pos n (show (0 : Int) < 1000000 by decide)
  have hgt := Int.lt_tmod_of_pos n (show (0 : Int) < 1000000 by decide)
  refine ⟨toInt_ofInt_of_long (by omega) (by omega), fun hneg => ?_⟩
  have hsum : BitVec.ofInt 32 (n.tmod 1000000) + 1000000 =
      BitVec.ofInt 32 (n.tmod 1000000 + 1000000) := by
    rw [BitVec.ofInt_add]
    rfl
  rw [hsum]
  exact toInt_ofInt_of_long (by omega) (by omega)

/-- **The microseconds are less than a second**, whatever the clock says. -/
theorem split_usec (n : Int) : 0 ≤ (split n).usec.toInt ∧ (split n).usec.toInt < 1000000 := by
  have hlt := Int.tmod_lt_of_pos n (show (0 : Int) < 1000000 by decide)
  have hgt := Int.lt_tmod_of_pos n (show (0 : Int) < 1000000 by decide)
  obtain ⟨husec, hborrow⟩ := toInt_usec n
  simp only [split, husec]
  split
  · next hneg =>
    simp only [hborrow hneg]
    omega
  · simp only [husec]
    omega

/-- The seconds fit a `time_t` of 32 bits. -/
def FitsSeconds (n : Int) : Prop := -2 ^ 31 ≤ n / 1000000 ∧ n / 1000000 < 2 ^ 31

instance (n : Int) : Decidable (FitsSeconds n) := inferInstanceAs (Decidable (_ ∧ _))

/-- **Seconds and microseconds**: nothing is lost where the seconds fit. -/
theorem split_micros {n : Int} (h : FitsSeconds n) : (split n).micros = n := by
  obtain ⟨hlo, hhi⟩ := h
  have hdiv := Int.mul_tdiv_add_tmod n 1000000
  have hlt := Int.tmod_lt_of_pos n (show (0 : Int) < 1000000 by decide)
  have hgt := Int.lt_tmod_of_pos n (show (0 : Int) < 1000000 by decide)
  obtain ⟨husec, hborrow⟩ := toInt_usec n
  simp only [split, husec]
  split
  · next hneg =>
    have hsec : (BitVec.ofInt 32 (n.tdiv 1000000) - 1).toInt = n.tdiv 1000000 - 1 := by
      have hdiff : BitVec.ofInt 32 (n.tdiv 1000000) - 1 = BitVec.ofInt 32 (n.tdiv 1000000 - 1) := by
        rw [BitVec.sub_eq_add_neg, Int.sub_eq_add_neg, BitVec.ofInt_add]
        rfl
      rw [hdiff]
      exact toInt_ofInt_of_long (by omega) (by omega)
    simp only [Timeval.micros, hsec, hborrow hneg]
    omega
  · have hsec : (BitVec.ofInt 32 (n.tdiv 1000000)).toInt = n.tdiv 1000000 :=
      toInt_ofInt_of_long (by omega) (by omega)
    simp only [Timeval.micros, hsec, husec]
    omega

/-- The signed difference of two words is that of the numbers, where these are close. -/
theorem toInt_sub_ofInt {a b : Int} (h : |b - a| < 2 ^ 31) :
    (BitVec.ofInt 32 b - BitVec.ofInt 32 a).toInt = b - a := by
  obtain ⟨hlo, hhi⟩ := abs_lt.mp h
  rw [BitVec.toInt_sub, BitVec.toInt_ofInt, BitVec.toInt_ofInt, Int.bmod_sub_bmod,
    Int.sub_bmod_bmod]
  exact Int.bmod_eq_of_le (by omega) (by omega)

/-- Fits `int64_t`. -/
def Fits (n : Int) : Prop := -2 ^ 63 ≤ n ∧ n < 2 ^ 63

theorem toInt_ofInt_of_fits {n : Int} (h : Fits n) : (BitVec.ofInt 64 n).toInt = n := by
  obtain ⟨hlo, hhi⟩ := h
  rw [BitVec.toInt_ofInt]
  exact Int.bmod_eq_of_le (by omega) (by omega)

/-- The clock stands at the true time `time`, `origin` microseconds away from it. -/
structure Clocked (origin time : Int) (c : FrameClock) : Prop where
  initialized : c.initialized = true
  frameTime : c.frameTime = BitVec.ofInt 32 time
  wallUsec : c.wallUsec.toInt = origin + time * 1000

variable {c : FrameClock} {origin time : Int} {x : Call} {xs : List Call}

/-- What a call returns is what the clock keeps. -/
theorem map_result :
    (c.map x.wall x.frameTime).2 = split (c.map x.wall x.frameTime).1.wallUsec.toInt :=
  rfl

/-- **A call less than 2^31 ms away** keeps the clock at the true time. -/
theorem map_clocked (h : Clocked origin time c) (hnear : |x.time - time| < 2 ^ 31)
    (hfits : Fits (origin + x.time * 1000)) :
    Clocked origin x.time (c.map x.wall x.frameTime).1 where
  initialized := rfl
  frameTime := rfl
  wallUsec := by
    have hdiff : (x.frameTime - c.frameTime).toInt = x.time - time := by
      rw [h.frameTime]
      exact toInt_sub_ofInt hnear
    have hsum : c.wallUsec + BitVec.ofInt 64 ((x.time - time) * 1000) =
        BitVec.ofInt 64 (origin + x.time * 1000) := by
      rw [← BitVec.ofInt_toInt (x := c.wallUsec), h.wallUsec, ← BitVec.ofInt_add]
      congr 1
      omega
    simp only [map, h.initialized, if_true, hdiff, hsum]
    exact toInt_ofInt_of_fits hfits

/-! ## 3. Every run -/

/-- What a call returns: the microseconds in their range, and the true time seen from the origin,
    where its seconds fit. -/
structure Told (origin : Int) (e : Call × Timeval) : Prop where
  usec : 0 ≤ e.2.usec.toInt ∧ e.2.usec.toInt < 1000000
  micros : FitsSeconds (origin + e.1.time * 1000) → e.2.micros = origin + e.1.time * 1000

theorem told_of_clocked (h : Clocked origin x.time (c.map x.wall x.frameTime).1) :
    Told origin (x, (c.map x.wall x.frameTime).2) := by
  rw [map_result, h.wallUsec]
  exact ⟨split_usec _, split_micros⟩

/-- From a clock at the true time on. -/
theorem times_told (h : Clocked origin time c)
    (hnear : (time :: xs.map Call.time).IsChain fun a b => |b - a| < 2 ^ 31)
    (hfits : ∀ x ∈ xs, Fits (origin + x.time * 1000)) : ∀ e ∈ xs.zip (c.times xs), Told origin e := by
  induction xs generalizing c time with
  | nil => exact fun e he => absurd he List.not_mem_nil
  | cons x xs ih =>
    obtain ⟨hx, hxs⟩ := List.isChain_cons_cons.mp hnear
    obtain ⟨hfit, hfits⟩ := List.forall_mem_cons.mp hfits
    have hnext := map_clocked h hx hfit
    intro e he
    rcases List.mem_cons.mp he with rfl | he
    · exact told_of_clocked hnext
    · exact ih hnext hxs hfits e he

/-- Two returned times are as far apart as the true ones. -/
def Apart (e f : Call × Timeval) : Prop :=
  f.2.micros - e.2.micros = (f.1.time - e.1.time) * 1000

instance (e f : Call × Timeval) : Decidable (Apart e f) := inferInstanceAs (Decidable (_ = _))

/-- The microseconds of the clock at a later call, counted from the first one's. -/
def after (c : FrameClock) (x y : Call) : Int :=
  (c.map x.wall x.frameTime).1.wallUsec.toInt + (y.time - x.time) * 1000

/-- **Audio and video keep their distance.** However the streams are interleaved and however often
    32 bits wrap: as long as each true time is less than 2^31 ms away from that of the call before,
    and the microseconds fit 64 bits, all returned microseconds are in their range, and two returned
    times whose seconds fit are as far apart as the true times. -/
theorem spacing_kept (c : FrameClock) (x : Call) (xs : List Call)
    (hnear : ((x :: xs).map Call.time).IsChain fun a b => |b - a| < 2 ^ 31)
    (hfits : ∀ y ∈ xs, Fits (c.after x y)) :
    (c.times (x :: xs)).length = (x :: xs).length ∧
    ∀ e ∈ (x :: xs).zip (c.times (x :: xs)), 0 ≤ e.2.usec.toInt ∧ e.2.usec.toInt < 1000000 ∧
      ∀ f ∈ (x :: xs).zip (c.times (x :: xs)),
        FitsSeconds (c.after x e.1) → FitsSeconds (c.after x f.1) → Apart e f := by
  have hlength : ∀ (ys : List Call) (d : FrameClock), (d.times ys).length = ys.length := by
    intro ys
    induction ys with
    | nil => exact fun _ => rfl
    | cons y ys ih => exact fun d => congrArg (· + 1) (ih _)
  let origin := (c.map x.wall x.frameTime).1.wallUsec.toInt - x.time * 1000
  have horigin : ∀ y : Call, c.after x y = origin + y.time * 1000 := by
    intro y
    simp only [after, origin]
    omega
  have hfirst : Clocked origin x.time (c.map x.wall x.frameTime).1 :=
    ⟨rfl, rfl, by simp only [origin]; omega⟩
  have htold : ∀ e ∈ (x :: xs).zip (c.times (x :: xs)), Told origin e := by
    intro e he
    rcases List.mem_cons.mp he with rfl | he
    · exact told_of_clocked hfirst
    · exact times_told hfirst hnear (fun y hy => horigin y ▸ hfits y hy) e he
  refine ⟨hlength _ c, fun e he => ⟨(htold e he).usec.1, (htold e he).usec.2, fun f hf hes hfs => ?_⟩⟩
  rw [horigin] at hes hfs
  rw [Apart, (htold e he).micros hes, (htold f hf).micros hfs]
  omega

/-- A video frame, an older audio frame, and a frame behind the wrap. -/
def wrapping : List Call :=
  [⟨2 ^ 32 - 56, ⟨100, 0⟩⟩, ⟨2 ^ 32 + 32, ⟨100, 0⟩⟩]

/-- The audio frame and the one behind the wrap are 88 ms apart. -/
theorem spacing_kept_wrap :
    (unset.times (⟨2 ^ 32 - 16, ⟨100, 200000⟩⟩ :: wrapping)).length = 3 ∧
      Apart (⟨2 ^ 32 - 56, ⟨100, 0⟩⟩, ⟨100, 160000⟩) (⟨2 ^ 32 + 32, ⟨100, 0⟩⟩, ⟨100, 248000⟩) := by
  obtain ⟨hlength, htold⟩ := spacing_kept unset ⟨2 ^ 32 - 16, ⟨100, 200000⟩⟩ wrapping (by decide)
    (by simp only [Fits]; decide)
  exact ⟨hlength, (htold _ (by decide)).2.2 _ (by decide) (by decide) (by decide)⟩

/-- **Not every spacing is kept**: a second behind the last one of 32 bits, the returned seconds start
    again at -2^31. -/
theorem spacing_lost : ¬ ∀ (c : FrameClock) (x : Call) (xs : List Call),
    ((x :: xs).map Call.time).IsChain (fun a b => |b - a| < 2 ^ 31) →
    (∀ y ∈ xs, Fits (c.after x y)) →
    ∀ e ∈ (x :: xs).zip (c.times (x :: xs)), ∀ f ∈ (x :: xs).zip (c.times (x :: xs)),
      Apart e f := by
  intro h
  have hlost := h unset ⟨0, ⟨2147483647, 500000⟩⟩ [⟨1000, ⟨0, 0⟩⟩] (by decide)
    (by simp only [Fits]; decide)
  exact absurd (hlost _ List.mem_cons_self _ (List.mem_cons_of_mem _ List.mem_cons_self)) (by decide)

end FrameClock

end YiHack.Rtsp
