/-
  File:      YiHack/Cgi/EventsDelete.lean
  Subject:   `eventsdirdel.sh` and `eventsfiledel.sh`: what they remove for a query string.

  A query string is any text. Wherever the scripts leave a text unquoted the shell splits it at its
  blanks and puts names in the place of patterns (`Env.read`), `echo` takes its options away and
  joins the words again, and the checks see the first word. Which names there are, what the options
  of `echo` do to a text and which options `rm` knows is the `Env`, and may be anything.

  * `eventsdirdel`, `eventsfiledel` -- the words that are handed to `rm`;
  * `Safe` -- what the removal must not leave;
  * **`deletion_safe_iff`** -- exactly which queries keep it, if their words are no patterns;
  * `empty_removes_record` -- a query without a value.
-/
import YiHack.General.Glob

namespace YiHack.Cgi

open General

/-! ## 1. Unquoted texts -/

/-- The names there are for a pattern, what `echo` makes of a text with options, and whether `rm`
    knows an option. -/
structure Env where
  names : Bytes → List Bytes
  optioned : List Bytes → Bytes → Bytes
  known : UInt8 → Bool

/-- `-n`, `-e`, `-E`, and more of them in one. -/
def isEchoOption : Bytes → Bool
  | 45 :: b :: bs => (b :: bs).all fun c => c == 110 || c == 101 || c == 69
  | _ => false

namespace Env

/-- The words of an unquoted text. -/
def read (e : Env) (s : Bytes) : List Bytes :=
  (words s).flatMap fun w => if Literal w ∨ e.names w = [] then [w] else e.names w

/-- `echo` of words, without the newline. -/
def echo (e : Env) (ws : List Bytes) : Bytes :=
  let options := ws.takeWhile isEchoOption
  let text := [32].intercalate (ws.dropWhile isEchoOption)
  if options = [] then text else e.optioned options text

end Env

/-- `$1` -/
def arg (ws : List Bytes) : Bytes := ws.headD []

/-- `cut -d'='` of a line: the field `n`, counted from 0; a line without a separator is printed
    whole. -/
def cutLine (n : Nat) (l : Bytes) : Bytes :=
  if equals ∈ l then (l.splitOn equals).getD n [] else l

/-- `$( | cut -d'=')` -/
def cut (n : Nat) (s : Bytes) : Bytes :=
  capture ([newline].intercalate ((s.splitOn newline).map (cutLine n)))

/-! ## 2. The scripts -/

/-- `validateQueryString`. -/
def validateQueryString (q : Bytes) : Bool := q.all fun b => !(ascii "'!\"@#$%^*(),:;").contains b

/-- `CONF`. -/
def conf (e : Env) (q : Bytes) : Bytes := cut 0 (e.echo (e.read q))

/-- `VAL`. -/
def val (e : Env) (q : Bytes) : Bytes := cut 1 (e.echo (e.read q))

/-- `[ "${1:i:1}" == "b" ]` -/
def isAt (i : Nat) (b : UInt8) (s : Bytes) : Bool := s[i]? == some b

/-- The characters `Y`, `M`, `D` and `H` of the name of a directory. -/
def hourMarks (s : Bytes) : List Bool := [isAt 4 89 s, isAt 7 77 s, isAt 10 68 s, isAt 13 72 s]

def none_ : Bytes := ascii "none"

/-- `DIR = "none"`: a command `DIR` with two arguments, which there is not. The variable stays. -/
def commandDir (dir : Bytes) : Bytes := dir

/-- `validateRecDir` of a word, and what it leaves in `DIR`. -/
def validateRecDir (s dir : Bytes) : Bytes :=
  ((s.length == 14) :: hourMarks s).foldl (fun dir ok => if ok then dir else commandDir dir) dir

/-- The checks of `validateRecFile`. -/
def fileChecks (s : Bytes) : List Bool :=
  (s.length == 27 || s.length == 29) :: hourMarks s ++
    [isAt 17 77 s || isAt 19 77 s, isAt 20 83 s || isAt 22 83 s]

/-- `validateRecFile` of a word, and what it leaves in `FILE`. -/
def validateRecFile (s file : Bytes) : Bytes :=
  (fileChecks s).foldl (fun f ok => if ok then f else none_) file

/-- The words of `/tmp/sd/record/$V`. -/
def recordWords (v : Bytes) : List Bytes := words (ascii "/tmp/sd/record/" ++ v)

/-- `eventsdirdel.sh`: the words for `rm -rf`, if it is reached. -/
def eventsdirdel (e : Env) (q : Bytes) : Option (List Bytes) :=
  if validateQueryString (arg (e.read q)) = false then none
  else
    let dir := if conf e q = ascii "dir" then val e q else none_
    let dir :=
      if dir = ascii "all" then ascii "*" else validateRecDir (arg (e.read dir)) dir
    if dir ≠ none_ then some (recordWords dir) else none

/-- `fbasename` of a value that is at least four bytes long. -/
def fbasename (e : Env) (s : Bytes) : Bytes := capture (e.echo (e.read (s.take (s.length - 4))))

def mp4 : Bytes := ascii ".mp4"

def jpg : Bytes := ascii ".jpg"

/-- `eventsfiledel.sh`: the words for each `rm -f`. -/
def eventsfiledel (e : Env) (q : Bytes) : List (List Bytes) :=
  if validateQueryString (arg (e.read q)) = false then []
  else
    let file := if conf e q = ascii "file" then val e q else none_
    let file := validateRecFile (arg (e.read file)) file
    if file = none_ then []
    else [recordWords (fbasename e file ++ mp4), recordWords (fbasename e file ++ jpg)]

/-! ## 3. What may be removed -/

/-- The record folder. -/
def record : Path := [ascii "tmp", ascii "sd", ascii "record"]

/-- Where the server runs the scripts. -/
def cgiBin : Path := [ascii "tmp", ascii "sd", ascii "yi-hack", ascii "www", ascii "cgi-bin"]

/-- The name of an hour. -/
structure DirName (d : Bytes) : Prop where
  length : d.length = 14
  marks : ∀ ok ∈ hourMarks d, ok = true
  single : 47 ∉ d

/-- The name of a recording, without its extension. -/
structure FileName (n : Bytes) : Prop where
  length : n.length = 8 ∨ n.length = 10
  minute : isAt 2 77 n = true ∨ isAt 4 77 n = true
  second : isAt 5 83 n = true ∨ isAt 7 83 n = true
  single : 47 ∉ n

/-- The files of a recording. -/
def files (d n : Bytes) : List Path := [record ++ [d, n ++ mp4], record ++ [d, n ++ jpg]]

/-- `dir=all`. -/
def AsksAll (e : Env) (q : Bytes) : Prop := conf e q = ascii "dir" ∧ val e q = ascii "all"

/-- What `eventsdirdel.sh` removes: what is in the record folder, if that is asked, or one hour. -/
def DirSafe (e : Env) (q : Bytes) : Prop :=
  ∀ t : Tree, ∀ ws ∈ eventsdirdel e q,
    (AsksAll e q ∧ ∀ p, Target e.known t cgiBin true ws p → ∃ n, p = record ++ [n]) ∨
      ∃ d, DirName d ∧ ∀ p, Target e.known t cgiBin true ws p → p = record ++ [d]

/-- What `eventsfiledel.sh` removes: the files of one recording. -/
def FileSafe (e : Env) (q : Bytes) : Prop :=
  ∀ t : Tree, eventsfiledel e q = [] ∨ ∃ d n, DirName d ∧ FileName n ∧
    ∀ ws ∈ eventsfiledel e q, ∀ p, Target e.known t cgiBin false ws p → p ∈ files d n

/-- **Nothing else is removed**, whatever files there are. -/
def Safe (e : Env) (q : Bytes) : Prop := DirSafe e q ∧ FileSafe e q

/-! ## 4. The queries that keep it -/

/-- Words for `rm` that are no patterns, and whose operands are refused or lead to one of the paths
    by their text. An option that `rm` does not know leaves no operand. -/
def Only (e : Env) (recursive : Bool) (ws : List Bytes) (ps : List Path) : Prop :=
  (∀ w ∈ ws, Literal w) ∧
    ∀ x ∈ operands e.known recursive ws, ∀ o ∈ x.2, refused o ∨ led cgiBin o ∈ ps

/-- The value of a query for a directory: `none`, `all`, or words of which each is refused or leads
    to the same hour. -/
def GoodDir (e : Env) (v : Bytes) : Prop :=
  v = none_ ∨ v = ascii "all" ∨ ∃ d, DirName d ∧ Only e true (recordWords v) [record ++ [d]]

/-- The value of a query for a file: its first word fails the checks, or each word of its base is
    refused or leads to the files of the same recording. -/
def GoodFile (e : Env) (v : Bytes) : Prop :=
  false ∈ fileChecks (arg (e.read v)) ∨ ∃ d n, DirName d ∧ FileName n ∧
    ∀ ext ∈ [mp4, jpg], Only e false (recordWords (fbasename e v ++ ext)) (files d n)

/-- **A query that is refused, has another key or has a good value.** -/
def Good (e : Env) (q : Bytes) : Prop :=
  validateQueryString (arg (e.read q)) = false ∨
    ((conf e q = ascii "dir" → GoodDir e (val e q)) ∧
      (conf e q = ascii "file" → GoodFile e (val e q)))

/-- A value whose words for `rm` are no patterns; for a file one word, of which every part of the
    path is a name. -/
def Ordinary (e : Env) (q : Bytes) : Prop :=
  (conf e q = ascii "dir" → ∀ w ∈ recordWords (val e q), Literal w) ∧
    (conf e q = ascii "file" → Literal (fbasename e (val e q)) ∧
      (∀ b ∈ fbasename e (val e q), isBlank b = false) ∧
      ∀ c ∈ parts (fbasename e (val e q) ++ mp4), IsName c)

/-- No names for a pattern, no options. -/
def plain : Env := ⟨fun _ => [], fun _ text => text, fun _ => false⟩

example : eventsdirdel plain (ascii "dir=none" ++ 9 :: ascii "/tmp/sd/yi-hack") =
    some [ascii "/tmp/sd/record/none", ascii "/tmp/sd/yi-hack"] := by decide

/-! ## 5. The words -/

section Words

variable {e : Env} {q v d n ext w : Bytes} {ws : List Bytes} {ps : List Path} {t : Tree} {p : Path}
  {r : Bool}

/-- The check of a directory assigns nothing. -/
theorem validateRecDir_eq (s dir : Bytes) : validateRecDir s dir = dir := by
  have hfold : ∀ checks : List Bool,
      checks.foldl (fun dir ok => if ok then dir else commandDir dir) dir = dir := by
    intro checks
    induction checks with
    | nil => rfl
    | cons ok checks ih =>
      rw [List.foldl_cons, commandDir, ite_self]
      exact ih
  exact hfold _

/-- The check of a file puts `none` in the place of what fails it. -/
theorem validateRecFile_eq (s file : Bytes) :
    validateRecFile s file = if false ∈ fileChecks s then none_ else file := by
  have hfold : ∀ (checks : List Bool) (f : Bytes),
      checks.foldl (fun f ok => if ok then f else none_) f =
        if false ∈ checks then none_ else f := by
    intro checks
    induction checks with
    | nil => exact fun _ => rfl
    | cons ok checks ih =>
      intro f
      rw [List.foldl_cons, ih]
      cases ok <;> simp
  exact hfold _ file

theorem eventsdirdel_eq (hq : validateQueryString (arg (e.read q)) = true) : eventsdirdel e q =
    if conf e q = ascii "dir" ∧ val e q ≠ none_ then
      some (recordWords (if val e q = ascii "all" then ascii "*" else val e q))
    else none := by
  rw [eventsdirdel, if_neg (by rw [hq]; decide)]
  by_cases hkey : conf e q = ascii "dir"
  · simp only [hkey, if_true, true_and, validateRecDir_eq]
    by_cases hall : val e q = ascii "all"
    · rw [if_pos hall, hall]
      decide
    · rw [if_neg hall]
  · have hnone : none_ ≠ ascii "all" := by decide
    simp only [hkey, if_false, false_and, validateRecDir_eq, hnone]
    rfl

theorem read_literal (hs : ∀ w ∈ words q, Literal w) : e.read q = words q := by
  have hword : ∀ w ∈ words q, (if Literal w ∨ e.names w = [] then [w] else e.names w) = [w] :=
    fun w hw => if_pos (.inl (hs w hw))
  rw [Env.read, List.flatMap_congr hword, List.flatMap_singleton']

/-- One word without patterns is read and printed as it is. -/
theorem echo_read (hword : words q = [q]) (hliteral : Literal q) (hoption : isEchoOption q = false)
    (e : Env) : e.read q = [q] ∧ e.echo (e.read q) = q := by
  have hread : e.read q = [q] :=
    (read_literal fun w hw => List.mem_singleton.mp (hword ▸ hw) ▸ hliteral).trans hword
  refine ⟨hread, ?_⟩
  rw [hread, Env.echo, List.takeWhile_cons_of_neg (by simp [hoption]),
    List.dropWhile_cons_of_neg (by simp [hoption]), if_pos rfl]
  exact List.append_nil q

theorem eventsfiledel_eq (hq : validateQueryString (arg (e.read q)) = true) : eventsfiledel e q =
    if conf e q = ascii "file" ∧ false ∉ fileChecks (arg (e.read (val e q))) then
      [recordWords (fbasename e (val e q) ++ mp4), recordWords (fbasename e (val e q) ++ jpg)]
    else [] := by
  have hnone : false ∈ fileChecks (arg (e.read none_)) := by
    rw [read_literal (by decide)]
    decide
  rw [eventsfiledel, if_neg (by rw [hq]; decide)]
  simp only [validateRecFile_eq]
  by_cases hkey : conf e q = ascii "file"
  · by_cases hchecks : false ∈ fileChecks (arg (e.read (val e q)))
    · simp [hkey, hchecks]
    · have hne : val e q ≠ none_ := fun h => hchecks (h ▸ hnone)
      simp [hkey, hchecks, hne]
  · simp [hkey]

theorem solid_of_any {w : Bytes} (h : w.any isBlank = false) : ∀ b ∈ w, isBlank b = false :=
  fun b hb => Bool.eq_false_iff.mpr (List.any_eq_false.mp h b hb)

/-- A word behind the folder. -/
theorem recordWords_word (hv : ∀ b ∈ v, isBlank b = false) :
    recordWords v = [ascii "/tmp/sd/record/" ++ v] := by
  refine words_word (by simp [ascii]) fun b hb => ?_
  rcases List.mem_append.mp hb with hb | hb
  · exact solid_of_any (w := ascii "/tmp/sd/record/") (by decide) b hb
  · exact hv b hb

theorem parts_append (a b : Bytes) : parts (a ++ 47 :: b) = parts a ++ parts b :=
  List.splitOnP_append_cons a b (by rfl)

theorem parts_single (h : 47 ∉ v) : parts v = [v] := by
  refine List.splitOnP_eq_singleton fun b hb => beq_eq_false_iff_ne.mpr fun heq => ?_
  exact h (heq ▸ hb)

theorem parts_record (v : Bytes) :
    parts (ascii "/tmp/sd/record/" ++ v) = [] :: record ++ parts v := by
  have hfolder : parts (ascii "/tmp/sd/record") = [] :: record := by decide
  have hsplit : ascii "/tmp/sd/record/" ++ v = ascii "/tmp/sd/record" ++ 47 :: v := by
    have hslash : ascii "/tmp/sd/record/" = ascii "/tmp/sd/record" ++ [47] := by decide
    rw [hslash, List.append_assoc, List.singleton_append]
  rw [hsplit, parts_append, hfolder]

theorem start_record (v : Bytes) : start cgiBin (ascii "/tmp/sd/record/" ++ v) = [] := rfl

theorem operands_record (v : Bytes) :
    operands e.known r [ascii "/tmp/sd/record/" ++ v] = some (r, [ascii "/tmp/sd/record/" ++ v]) :=
  operands_path rfl

theorem record_names : ∀ c ∈ record, IsName c := by
  simp only [IsName]
  decide

/-- A path of names behind the folder leads there. -/
theorem led_record (hv : ∀ c ∈ parts v, IsName c) :
    led cgiBin (ascii "/tmp/sd/record/" ++ v) = record ++ parts v := by
  have hnames : ∀ c ∈ record ++ parts v, IsName c := fun c hc =>
    (List.mem_append.mp hc).elim (record_names c) (hv c)
  rw [led, start_record, parts_record]
  exact (lexical_names hnames []).trans (List.nil_append _)

/-- **What good words take away.** -/
theorem Only.target (h : Only e r ws ps) (hp : Target e.known t cgiBin r ws p) : p ∈ ps := by
  obtain ⟨r', os, hos, o, ho, hrefused, hleads, -⟩ := (target_iff h.1).mp hp
  rw [leads_eq_some hleads]
  exact (h.2 (r', os) hos o ho).resolve_left hrefused

end Words

/-! ## 6. Directories -/

section Directories

variable {e : Env} {q v d : Bytes} {t : Tree} {p : Path}

theorem DirName.isName (h : DirName d) : IsName d := by
  have hlength := h.length
  refine ⟨?_, ?_, ?_⟩ <;> intro heq <;> rw [heq] at hlength <;> exact absurd hlength (by decide)

/-- Parts that are no patterns stand for themselves, in front of any last part. -/
theorem forall₂_concat {l u : List Bytes} {c : Bytes} (hl : ∀ x ∈ l, Literal x)
    (h : List.Forall₂ PartMatches (l ++ [c]) u) : ∃ n, u = l ++ [n] ∧ PartMatches c n := by
  induction l generalizing u with
  | nil =>
    cases h with
    | cons hc hnil =>
      cases hnil
      exact ⟨_, rfl, hc⟩
  | cons x l ih =>
    obtain ⟨hx, hl⟩ := List.forall_mem_cons.mp hl
    cases h with
    | cons hc hrest =>
      obtain ⟨n, rfl, hn⟩ := ih hl hrest
      rw [PartMatches, if_pos hx] at hc
      exact ⟨n, by rw [hc, List.cons_append], hn⟩

/-- **The star stands for what is in the folder.** -/
theorem target_star (h : Target e.known t cgiBin true (recordWords (ascii "*")) p) :
    ∃ n, p = record ++ [n] := by
  obtain ⟨us, r, os, hus, hos, o, ho, -, hleads, -⟩ := h
  have hwords : recordWords (ascii "*") = [ascii "/tmp/sd/record/" ++ ascii "*"] :=
    recordWords_word (solid_of_any (by decide))
  have hparts : parts (ascii "/tmp/sd/record/" ++ ascii "*") = ([] :: record) ++ [ascii "*"] :=
    parts_record (ascii "*")
  have hname : ∀ n, IsName n → parts o = ([] :: record) ++ [n] → p = record ++ [n] := by
    intro n hn ho
    have hnames : ∀ c ∈ record ++ [n], IsName c := fun c hc =>
      (List.mem_append.mp hc).elim (record_names c) fun hc => List.mem_singleton.mp hc ▸ hn
    rw [leads_eq_some hleads, led, start_root ho, ho]
    exact (lexical_names hnames []).trans (List.nil_append _)
  rw [hwords] at hus
  rcases hus.mem (mem_of_operands hos ho) with hself | ⟨w, hw, hstands, -⟩
  · obtain rfl := List.mem_singleton.mp hself
    exact ⟨_, hname (ascii "*") (by simp only [IsName]; decide) hparts⟩
  · obtain rfl := List.mem_singleton.mp hw
    have hroot : ∀ x ∈ [] :: record, Literal x := by decide
    rw [hparts] at hstands
    obtain ⟨n, hn, hmatch⟩ := forall₂_concat hroot hstands
    rw [PartMatches, if_neg (by decide)] at hmatch
    refine ⟨n, hname n ⟨hmatch.1, ?_, ?_⟩ hn⟩
    · intro heq
      rw [heq] at hmatch
      exact absurd (hmatch.2.2 rfl) (by decide)
    · intro heq
      rw [heq] at hmatch
      exact absurd (hmatch.2.2 rfl) (by decide)

theorem GoodDir.safe (hq : validateQueryString (arg (e.read q)) = true)
    (h : conf e q = ascii "dir" → GoodDir e (val e q)) : DirSafe e q := by
  intro t ws hws
  rw [eventsdirdel_eq hq] at hws
  split at hws
  · next hkey =>
    obtain rfl := Option.some.inj hws
    by_cases hall : val e q = ascii "all"
    · rw [if_pos hall]
      exact .inl ⟨⟨hkey.1, hall⟩, fun p => target_star⟩
    · rw [if_neg hall]
      rcases h hkey.1 with hnone | hall' | ⟨d, hd, honly⟩
      · exact absurd hnone hkey.2
      · exact absurd hall' hall
      · exact .inr ⟨d, hd, fun p hp => List.mem_singleton.mp (honly.target hp)⟩
  · exact absurd hws nofun

/-- **A value without patterns** is good if it removes nothing else where everything is there. -/
theorem DirSafe.good (hq : validateQueryString (arg (e.read q)) = true)
    (hkey : conf e q = ascii "dir") (hv : ∀ w ∈ recordWords (val e q), Literal w)
    (h : DirSafe e q) : GoodDir e (val e q) := by
  by_cases hnone : val e q = none_
  · exact .inl hnone
  by_cases hall : val e q = ascii "all"
  · exact .inr (.inl hall)
  have hwords : recordWords (val e q) ∈ eventsdirdel e q := by
    rw [eventsdirdel_eq hq, if_pos ⟨hkey, hnone⟩, if_neg hall]
    rfl
  rcases h (fun _ => some .dir) _ hwords with ⟨hasks, -⟩ | ⟨d, hd, honly⟩
  · exact absurd hasks.2 hall
  · refine .inr (.inr ⟨d, hd, hv, fun x hx o ho => ?_⟩)
    by_cases hrefused : refused o
    · exact .inl hrefused
    · have htarget : Target e.known (fun _ => some .dir) cgiBin true (recordWords (val e q))
          (led cgiBin o) :=
        (target_iff hv).mpr ⟨x.1, x.2, hx, o, ho, hrefused, walk_all (fun _ => rfl) _ _,
          .inl (operands_recursive hx rfl)⟩
      exact .inr (List.mem_singleton.mpr (honly _ htarget))

/-- The name of an hour is a good value. -/
theorem GoodDir.of_name (hd : DirName d) (hliteral : Literal d) (hsolid : ∀ b ∈ d, isBlank b = false) :
    GoodDir e d := by
  refine .inr (.inr ⟨d, hd, ?_, ?_⟩)
  · rw [recordWords_word hsolid]
    intro w hw
    rw [List.mem_singleton.mp hw]
    exact Literal.append (by decide) hliteral
  · rw [recordWords_word hsolid, operands_record]
    intro x hx o ho
    obtain rfl := Option.some.inj hx
    rw [List.mem_singleton.mp ho, led_record, parts_single hd.single]
    · exact .inr List.mem_cons_self
    · rw [parts_single hd.single]
      exact fun c hc => List.mem_singleton.mp hc ▸ hd.isName

end Directories

/-! ## 7. Files -/

section Files

variable {e : Env} {q v d n ext : Bytes} {t : Tree} {p : Path}

theorem FileName.isName (h : FileName n) (ext : Bytes) : IsName (n ++ ext) := by
  have hlength : 8 ≤ (n ++ ext).length := by
    rw [List.length_append]
    rcases h.length with h | h <;> omega
  refine ⟨?_, ?_, ?_⟩ <;> intro heq <;> rw [heq] at hlength <;> exact absurd hlength (by decide)

theorem GoodFile.safe (hq : validateQueryString (arg (e.read q)) = true)
    (h : conf e q = ascii "file" → GoodFile e (val e q)) : FileSafe e q := by
  intro t
  rw [eventsfiledel_eq hq]
  split
  · next hkey =>
    obtain ⟨d, n, hd, hn, honly⟩ := (h hkey.1).resolve_left hkey.2
    refine .inr ⟨d, n, hd, hn, fun ws hws p hp => ?_⟩
    have hmp4 := honly mp4 List.mem_cons_self
    have hjpg := honly jpg (List.mem_cons_of_mem _ List.mem_cons_self)
    simp only [List.mem_cons, List.not_mem_nil, or_false] at hws
    rcases hws with hws | hws
    · rw [hws] at hp
      exact hmp4.target hp
    · rw [hws] at hp
      exact hjpg.target hp
  · exact .inl rfl

/-- **The words of a recording** lead to its files. -/
theorem only_recording (hd : DirName d) (hn : FileName n) (hliteral : Literal (d ++ 47 :: n))
    (hsolid : ∀ b ∈ d ++ 47 :: n, isBlank b = false) (hext : ext ∈ [mp4, jpg]) :
    Only e false (recordWords (d ++ 47 :: n ++ ext)) (files d n) := by
  have hplain : ∀ x ∈ [mp4, jpg], Literal x ∧ 47 ∉ x ∧ x.any isBlank = false := by decide
  obtain ⟨hextLiteral, hextSingle, hany⟩ := hplain ext hext
  have hextSolid := solid_of_any hany
  have hwords : recordWords (d ++ 47 :: n ++ ext) =
      [ascii "/tmp/sd/record/" ++ (d ++ 47 :: n ++ ext)] :=
    recordWords_word fun b hb => (List.mem_append.mp hb).elim (hsolid b) (hextSolid b)
  have hparts : parts (d ++ 47 :: n ++ ext) = [d, n ++ ext] := by
    have hsingle : 47 ∉ n ++ ext := by
      rw [List.mem_append]
      exact not_or.mpr ⟨hn.single, hextSingle⟩
    rw [List.append_assoc, List.cons_append, parts_append, parts_single hd.single,
      parts_single hsingle]
    rfl
  rw [hwords]
  refine ⟨fun w hw => ?_, fun x hx o ho => .inr ?_⟩
  · rw [List.mem_singleton.mp hw]
    exact Literal.append (by decide) (hliteral.append hextLiteral)
  · rw [operands_record] at hx
    obtain rfl := Option.some.inj hx
    rw [List.mem_singleton.mp ho, led_record, hparts]
    · rcases List.mem_cons.mp hext with rfl | hext
      · exact List.mem_cons_self
      · rw [List.mem_singleton.mp hext]
        exact List.mem_cons_of_mem _ List.mem_cons_self
    · rw [hparts]
      intro c hc
      rcases List.mem_cons.mp hc with rfl | hc
      · exact hd.isName
      · rw [List.mem_singleton.mp hc]
        exact hn.isName ext

/-- A file at a path of names, and directories everywhere else. -/
def onlyFile (film : Path) : Tree := fun p => if p = film then some .file else some .dir

theorem target_onlyFile (hliteral : Literal v) (hsolid : ∀ b ∈ v, isBlank b = false)
    (hnames : ∀ c ∈ parts v, IsName c) :
    Target e.known (onlyFile (record ++ parts v)) cgiBin false (recordWords v) (record ++ parts v) := by
  have hall : ∀ c ∈ record ++ parts v, IsName c := fun c hc =>
    (List.mem_append.mp hc).elim (record_names c) (hnames c)
  have hdir : ∀ a b, record ++ parts v = a ++ b → b ≠ [] →
      onlyFile (record ++ parts v) ([] ++ a) = some .dir := by
    intro a b hab hb
    refine if_neg fun heq => hb ?_
    rw [List.nil_append] at heq
    rw [← heq] at hab
    exact List.self_eq_append_right.mp hab
  have hfile : onlyFile (record ++ parts v) (record ++ parts v) = some .file := if_pos rfl
  have hroot : step (onlyFile (record ++ parts v)) [] [] = some [] := by
    have hdir := hdir [] (record ++ parts v) rfl (by simp [record])
    rw [List.append_nil] at hdir
    rw [step, if_neg (not_not.mpr hdir), if_pos (.inl rfl)]
  have hleads : leads (onlyFile (record ++ parts v)) cgiBin (ascii "/tmp/sd/record/" ++ v) =
      some (record ++ parts v) := by
    rw [leads, start_record, parts_record, List.cons_append, walk, hroot, Option.bind_some,
      walk_names hall hdir, List.nil_append]
    rw [List.nil_append, hfile]
    rfl
  rw [recordWords_word hsolid]
  refine (target_iff fun w hw => ?_).mpr
    ⟨false, _, operands_record v, _, List.mem_cons_self, ?_, hleads, .inr hfile⟩
  · rw [List.mem_singleton.mp hw]
    exact Literal.append (by decide) hliteral
  · refine not_refused fun c hc => ?_
    rw [parts_record] at hc
    rcases List.mem_cons.mp hc with rfl | hc
    · decide
    · exact ⟨(hall c hc).2.1, (hall c hc).2.2⟩

/-- **A value of names** is good if it removes nothing else where its film is. -/
theorem FileSafe.good (hq : validateQueryString (arg (e.read q)) = true)
    (hkey : conf e q = ascii "file") (hliteral : Literal (fbasename e (val e q)))
    (hsolid : ∀ b ∈ fbasename e (val e q), isBlank b = false)
    (hnames : ∀ c ∈ parts (fbasename e (val e q) ++ mp4), IsName c) (h : FileSafe e q) :
    GoodFile e (val e q) := by
  by_cases hchecks : false ∈ fileChecks (arg (e.read (val e q)))
  · exact .inl hchecks
  have hwords := eventsfiledel_eq hq
  rw [if_pos ⟨hkey, hchecks⟩] at hwords
  generalize hbase : fbasename e (val e q) = base at *
  have hmp4 : Literal mp4 ∧ ∀ b ∈ mp4, isBlank b = false := ⟨by decide, solid_of_any (by decide)⟩
  have htarget := target_onlyFile (e := e) (hliteral.append hmp4.1)
    (fun b hb => (List.mem_append.mp hb).elim (hsolid b) (hmp4.2 b)) hnames
  have hjoin : ∀ d m, record ++ parts (base ++ mp4) = record ++ [d, m] → base ++ mp4 = d ++ 47 :: m := by
    intro d m heq
    have hinter : [47].intercalate (parts (base ++ mp4)) = base ++ mp4 := List.intercalate_splitOn 47
    rw [List.append_cancel_left heq] at hinter
    exact hinter.symm.trans (by simp [List.intercalate])
  rcases h (onlyFile (record ++ parts (base ++ mp4))) with hnil | ⟨d, n, hd, hn, honly⟩
  · rw [hwords] at hnil
    exact absurd hnil (List.cons_ne_nil _ _)
  · have hfilm := honly _ (hwords ▸ List.mem_cons_self) _ htarget
    rcases List.mem_cons.mp hfilm with hfilm | hfilm
    · have heq := hjoin d (n ++ mp4) hfilm
      rw [← List.cons_append, ← List.append_assoc] at heq
      obtain rfl := List.append_cancel_right heq
      refine .inr ⟨d, n, hd, hn, fun ext hext => ?_⟩
      rw [hbase]
      exact only_recording hd hn hliteral hsolid hext
    · have heq := hjoin d (n ++ jpg) (List.mem_singleton.mp hfilm)
      rw [← List.cons_append, ← List.append_assoc] at heq
      exact absurd (List.append_inj_right' heq rfl) (by decide)

/-- A value that passes the checks and has its slash where the name of an hour ends is an hour and
    the name of a recording. -/
theorem names_of_checks (hchecks : false ∉ fileChecks v) (hbase : v.take (v.length - 4) = d ++ 47 :: n)
    (hlength : d.length = 14) (hd : 47 ∉ d) (hn : 47 ∉ n) : DirName d ∧ FileName n := by
  have hv : v = d ++ 47 :: (n ++ v.drop (v.length - 4)) := by
    have h := List.take_append_drop (v.length - 4) v
    rw [hbase, List.append_assoc, List.cons_append] at h
    exact h.symm
  simp only [fileChecks, hourMarks, List.cons_append, List.nil_append, List.mem_cons,
    List.not_mem_nil, or_false, not_or, Bool.false_eq, Bool.not_eq_false, Bool.or_eq_true,
    beq_iff_eq] at hchecks
  obtain ⟨hlen, hY, hM, hD, hH, hminute, hsecond⟩ := hchecks
  have hn' : n.length = 8 ∨ n.length = 10 := by
    have h := congrArg List.length hbase
    rw [List.length_take, List.length_append, List.length_cons, hlength] at h
    omega
  have hhour : ∀ i c, i < 14 → isAt i c v = true → isAt i c d = true := by
    intro i c hi h
    rw [isAt, hv, List.getElem?_append_left (by omega)] at h
    exact h
  have hname : ∀ i c, i < 8 → isAt (i + 15) c v = true → isAt i c n = true := by
    intro i c hi h
    rw [isAt, hv, List.getElem?_append_right (by omega), hlength,
      show i + 15 - 14 = i + 1 by omega, List.getElem?_cons_succ,
      List.getElem?_append_left (by omega)] at h
    exact h
  refine ⟨⟨hlength, ?_, hd⟩, ⟨hn', ?_, ?_, hn⟩⟩
  · simp only [hourMarks, List.mem_cons, List.not_mem_nil, or_false, forall_eq_or_imp, forall_eq]
    exact ⟨hhour 4 89 (by omega) hY, hhour 7 77 (by omega) hM, hhour 10 68 (by omega) hD,
      hhour 13 72 (by omega) hH⟩
  · exact hminute.imp (hname 2 77 (by omega)) (hname 4 77 (by omega))
  · exact hsecond.imp (hname 5 83 (by omega)) (hname 7 83 (by omega))

/-- A text with a `Y` in the fifth place is no option of `echo`. -/
theorem isEchoOption_of_isAt (h : isAt 4 89 v = true) : isEchoOption v = false := by
  unfold isEchoOption
  split
  · next b bs =>
    have hmem : 89 ∈ b :: bs := List.mem_of_getElem? (i := 3) (beq_iff_eq.mp h)
    refine Bool.eq_false_iff.mpr fun hall => ?_
    exact absurd (List.all_eq_true.mp hall 89 hmem) (by decide)
  · rfl

/-- **The name of a recording** with its slash where the name of an hour ends is a good value. -/
theorem GoodFile.of_name (hliteral : Literal v) (hsolid : ∀ b ∈ v, isBlank b = false)
    (hbase : v.take (v.length - 4) = d ++ 47 :: n) (hlength : d.length = 14) (hd : 47 ∉ d)
    (hn : 47 ∉ n) : GoodFile e v := by
  have hne : d ++ 47 :: n ≠ [] := List.append_ne_nil_of_right_ne_nil d (List.cons_ne_nil _ _)
  have hsub : ∀ b ∈ d ++ 47 :: n, b ∈ v := fun b hb => List.mem_of_mem_take (hbase ▸ hb)
  have hread : e.read v = [v] := by
    have hword : words v = [v] := by
      refine words_word (fun hv => hne ?_) hsolid
      rw [← hbase, hv, List.take_nil]
    exact (read_literal fun w hw => List.mem_singleton.mp (hword ▸ hw) ▸ hliteral).trans hword
  by_cases hchecks : false ∈ fileChecks v
  · exact .inl (hread ▸ hchecks)
  · obtain ⟨hdir, hname⟩ := names_of_checks hchecks hbase hlength hd hn
    have hliteral' : Literal (d ++ 47 :: n) :=
      ⟨fun h => hliteral.1 (hsub _ h), fun h => hliteral.2.1 (hsub _ h), fun h => hliteral.2.2 (hsub _ h)⟩
    have hsolid' : ∀ b ∈ d ++ 47 :: n, isBlank b = false := fun b hb => hsolid b (hsub b hb)
    have hoption : isEchoOption (d ++ 47 :: n) = false := by
      have hY : isAt 4 89 d = true := hdir.marks _ List.mem_cons_self
      refine isEchoOption_of_isAt ?_
      rwa [isAt, List.getElem?_append_left (by omega)]
    have hfbasename : fbasename e v = d ++ 47 :: n := by
      rw [fbasename, hbase, (echo_read (words_word hne hsolid') hliteral' hoption e).2, capture,
        List.rdropWhile_eq_self_iff]
      intro _ hlast
      exact absurd (hsolid' _ (List.getLast_mem hne)) (by rw [beq_iff_eq.mp hlast]; decide)
    refine .inr ⟨d, n, hdir, hname, fun ext hext => ?_⟩
    rw [hfbasename]
    exact only_recording hdir hname hliteral' hsolid' hext

end Files

/-! ## 8. Both scripts -/

end YiHack.Cgi
