/-
  File:      YiHack/Mqtt/ConfigReplace.lean
  Subject:   `config_replace` of `config.c`: one setting of a configuration file gets a new value.

  The name of the file, in lower case, is left out. What is written to the old file is stored; what
  the temporary file takes may be cut short at any byte. `tmpnam` gives a name that is free.

  * `replacePiece`, `configReplace` -- the two loops, with every copy into a buffer measured;
  * `Right` -- what the replacement must do, also where the temporary file fails;
  * **`replace_right_iff`** -- exactly when it does;
  * `empty_kept` -- a setting without a value.
-/
import YiHack.General.Fallible
import YiHack.General.Scan
import YiHack.Mqtt.Message

namespace YiHack.Mqtt.Replace

open General

/-! ## 1. The code -/

/-- The buffers of `config_replace`. -/
inductive Buffer
  | buf
  | oldkey
  | oldvalue
  deriving DecidableEq

def Buffer.size : Buffer → Nat
  | .buf => MAX_LINE_LENGTH
  | .oldkey | .oldvalue => 128

/-- What runs until a copy leaves its buffer. -/
abbrev Copying := Except Buffer

/-- A text with its zero byte. -/
def store (b : Buffer) (s : Bytes) : Copying Bytes := if s.length < b.size then .ok s else .error b

/-- `ucase`. -/
def ucase (s : Bytes) : Bytes := s.map upper

/-- `sscanf(buf, "%[^=] = %s", oldkey, oldvalue)`: nothing where it does not return 2. -/
def scan (buf : Bytes) : Copying (Option (Bytes × Bytes)) :=
  let key := buf.takeWhile (· != equals)
  if key = [] then .ok none
  else do
    let oldkey ← store .oldkey key
    match literal [equals] (skipSpace (buf.drop key.length)) with
    | none => pure none
    | some rest =>
      let word := (skipSpace rest).takeWhile fun b => !General.isSpace b
      if word = [] then pure none
      else
        let oldvalue ← store .oldvalue word
        pure (some (oldkey, oldvalue))

/-- `KEY=VALUE` and a newline. -/
def setting (key value : Bytes) : Bytes := key ++ equals :: value ++ [newline]

/-- One round of the first loop: what goes to the temporary file for what `fgets` read. -/
def replacePiece (key value piece : Bytes) : Copying Bytes :=
  let buf := cstr piece
  if buf.head? = some 35 then pure buf
  else do
    match ← scan buf with
    | none => pure buf
    | some (oldkey, _) =>
      if strcasecmp key oldkey then store .buf (setting key value) else pure buf

/-- The first loop. -/
def replaceLoop (key value : Bytes) : List Bytes → Copying Bytes
  | [] => pure []
  | piece :: ps => do
    let line ← replacePiece key value piece
    let rest ← replaceLoop key value ps
    pure (line ++ rest)

/-- What `fgets` returns, call after call. -/
def pieces (f : Bytes) : List Bytes := General.pieces (MAX_LINE_LENGTH - 1) f

/-- The second loop. -/
def copyLoop (f : Bytes) : Bytes := (pieces f).flatMap cstr

/-- What can be opened and written. -/
structure Disk where
  reads : Bool
  tmpOpens : Bool
  tmpWrites : Bool
  rewrites : Bool
  tmpReopens : Bool
  deriving DecidableEq

/-- `config_replace`: the file behind it. A temporary file that is not written as a whole has the
    first `n` bytes. -/
def configReplace (d : Disk) (n : Nat) (f key value : Bytes) : Copying Bytes :=
  if d.reads = false ∨ d.tmpOpens = false then pure f
  else do
    let out ← replaceLoop (ucase key) value (pieces f)
    if d.rewrites = false then pure f
    else if d.tmpReopens = false then pure []
    else pure (copyLoop (if d.tmpWrites then out else out.take n))

/-! ## 2. What it is for -/

/-- A file of these lines, each with its newline. -/
def IsText (f : Bytes) (ls : List Bytes) : Prop := f = print ls ∧ ∀ l ∈ ls, newline ∉ l

/-- A configuration file with one line `KEY=...`, and a new value that is accepted for a string. -/
structure Setting where
  key : Bytes
  value : Bytes
  before : List Bytes
  old : Bytes
  after : List Bytes
  keyText : 0 ∉ ucase key ∧ newline ∉ ucase key ∧ equals ∉ ucase key
  valueText : 0 ∉ value
  accepted : ∀ p : Param, p.kind = .string → p.accepts value = true
  single : ∀ l ∈ before ++ (ucase key ++ equals :: old) :: after, newline ∉ l
  once : ∀ l ∈ before ++ after, ¬ (ucase key ++ [equals]) <+: l

/-- The line of the setting. -/
def Setting.line (s : Setting) (value : Bytes) : Bytes := ucase s.key ++ equals :: value

/-- The lines of the file, with this value. -/
def Setting.lines (s : Setting) (value : Bytes) : List Bytes :=
  s.before ++ s.line value :: s.after

def Setting.file (s : Setting) : Bytes := print (s.lines s.old)

/-- All can be opened and written. -/
def Disk.Works (d : Disk) : Prop := d = ⟨true, true, true, true, true⟩

/-- The temporary file cannot be opened or written. -/
def Disk.TmpFails (d : Disk) : Prop :=
  d.tmpOpens = false ∨ d.tmpWrites = false ∨ d.tmpReopens = false

/-- **One line is replaced and every other line stays; where the temporary file fails, the file
    stays as it is.** -/
def Right (d : Disk) (s : Setting) : Prop :=
  (d.Works → ∀ n, ∃ f, configReplace d n s.file s.key s.value = .ok f ∧
    IsText f (s.lines s.value)) ∧
  (d.TmpFails → ∀ n, configReplace d n s.file s.key s.value = .ok s.file)

/-! ## 3. When it does it -/

/-- What stands before the first equals sign. -/
def oldKey (piece : Bytes) : Bytes := (cstr piece).takeWhile (· != equals)

/-- The first word behind it. -/
def oldValue (piece : Bytes) : Bytes :=
  (skipSpace ((cstr piece).drop ((oldKey piece).length + 1))).takeWhile fun b =>
    !General.isSpace b

/-- A comment. -/
def Comment (piece : Bytes) : Prop := (cstr piece).head? = some 35

/-- The piece fits in the buffers. -/
def Fits (piece : Bytes) : Prop :=
  Comment piece ∨ (oldKey piece).length < 128 ∧
    (oldKey piece ≠ [] → (oldValue piece).length < 128)

/-- The piece gives a value to the key. -/
def Names (key piece : Bytes) : Prop :=
  ¬ Comment piece ∧ oldKey piece ≠ [] ∧ oldValue piece ≠ [] ∧
    strcasecmp key (oldKey piece) = true

/-- The piece is not read as the setting, or it is the new line already. -/
def Kept (key value piece : Bytes) : Prop :=
  Fits piece ∧ (Names key piece → piece = setting key value)

/-- Every piece of a line stays. -/
def LineKept (key value l : Bytes) : Prop :=
  0 ∉ l ∧ ∀ p ∈ pieces (l ++ [newline]), Kept key value p

/-- The first piece of the line is the setting, and nothing comes behind it. -/
def LineReplaced (key l : Bytes) : Prop :=
  ∃ p ps, pieces (l ++ [newline]) = p :: ps ∧ Fits p ∧ Names key p ∧ ∀ q ∈ ps, cstr q = []

/-- The text is one that is replaced as it should. -/
structure GoodText (s : Setting) : Prop where
  value : newline ∉ s.value
  others : ∀ l ∈ s.before ++ s.after, LineKept (ucase s.key) s.value l
  line : LineReplaced (ucase s.key) (s.line s.old) ∨
    s.old = s.value ∧ LineKept (ucase s.key) s.value (s.line s.old)

/-- **The text is good; and no temporary file is used, or it is not looked at any more.** -/
def Good (d : Disk) (s : Setting) : Prop :=
  (d.Works → GoodText s) ∧
  (d.TmpFails → d.reads = false ∨ d.tmpOpens = false ∨
    d.rewrites = false ∧ ∀ p ∈ pieces s.file, Fits p)

/-! ## 4. One piece -/

section Piece

variable {key value piece line : Bytes}

instance : Decidable (Names key piece) :=
  inferInstanceAs (Decidable (¬ _ = _ ∧ _ ∧ _ ∧ _))

/-- What goes to the temporary file for a piece that fits. -/
def emit (key value piece : Bytes) : Bytes :=
  if Names key piece then setting key value else cstr piece

theorem store_ok_iff {b : Buffer} {s t : Bytes} :
    store b s = .ok t ↔ s.length < b.size ∧ s = t := by
  rw [store]
  split
  · next h => exact ⟨fun heq => ⟨h, Except.ok.inj heq⟩, fun heq => congrArg _ heq.2⟩
  · next h => exact ⟨nofun, fun heq => absurd heq.1 h⟩

/-- Behind the key there is an equals sign, or nothing. -/
theorem drop_oldKey (piece : Bytes) : (cstr piece).drop (oldKey piece).length = [] ∨
    (cstr piece).drop (oldKey piece).length =
      equals :: (cstr piece).drop ((oldKey piece).length + 1) := by
  have hdrop : (cstr piece).drop (oldKey piece).length = (cstr piece).dropWhile (· != equals) := by
    conv_lhs => rw [← List.takeWhile_append_dropWhile (p := (· != equals)) (l := cstr piece)]
    exact List.drop_left
  cases hrest : (cstr piece).dropWhile (· != equals) with
  | nil => exact .inl (hdrop.trans hrest)
  | cons b rest =>
    have hb : b = equals := by
      have hstop := stops_dropWhile (· != equals) (cstr piece) b (by rw [hrest]; rfl)
      simpa using hstop
    refine .inr (hdrop.trans ?_)
    rw [hrest, ← List.drop_drop, hdrop, hrest, hb]
    rfl

/-- The text behind the key, as the pattern goes on with it. -/
theorem literal_oldKey (piece : Bytes) :
    literal [equals] (skipSpace ((cstr piece).drop (oldKey piece).length)) = none ∧
        oldValue piece = [] ∨
      literal [equals] (skipSpace ((cstr piece).drop (oldKey piece).length)) =
        some ((cstr piece).drop ((oldKey piece).length + 1)) := by
  rcases drop_oldKey piece with hnone | hsome
  · refine .inl ⟨by rw [hnone]; rfl, ?_⟩
    rw [oldValue, ← List.drop_drop, hnone]
    rfl
  · refine .inr ?_
    rw [hsome]
    exact literal_eq_some.mpr rfl

/-- What the pattern reads where it fits. -/
theorem scan_ok_iff {r : Option (Bytes × Bytes)} : scan (cstr piece) = .ok r ↔
    ((oldKey piece).length < 128 ∧ (oldKey piece ≠ [] → (oldValue piece).length < 128)) ∧
      r = if oldKey piece = [] ∨ oldValue piece = [] then none
        else some (oldKey piece, oldValue piece) := by
  rw [scan, ← oldKey]
  dsimp only
  by_cases hkey : oldKey piece = []
  · rw [if_pos hkey, if_pos (.inl hkey), hkey]
    exact ⟨fun h => ⟨⟨by decide, absurd rfl⟩, (Except.ok.inj h).symm⟩, fun h => h.2 ▸ rfl⟩
  · rw [if_neg hkey, ok_bind_iff]
    simp only [store_ok_iff, and_assoc, exists_and_left, exists_eq_left', ne_eq, hkey, false_or,
      not_false_eq_true, true_imp_iff]
    refine and_congr_right fun _ => ?_
    rcases literal_oldKey piece with ⟨hnone, hvalue⟩ | hsome
    · rw [hnone, hvalue, if_pos rfl]
      exact ⟨fun h => ⟨by decide, (Except.ok.inj h).symm⟩, fun h => h.2 ▸ rfl⟩
    · rw [hsome]
      dsimp only
      rw [← oldValue]
      by_cases hvalue : oldValue piece = []
      · rw [if_pos hvalue, if_pos hvalue, hvalue]
        exact ⟨fun h => ⟨by decide, (Except.ok.inj h).symm⟩, fun h => h.2 ▸ rfl⟩
      · rw [if_neg hvalue, if_neg hvalue, ok_bind_iff]
        simp only [store_ok_iff, and_assoc, exists_and_left, exists_eq_left', pure_ok_iff]
        exact and_congr_right fun _ => eq_comm

/-- The new line fits behind a key that fitted. -/
theorem setting_fits (hvalue : value.length < 128) {oldkey : Bytes} (hkey : oldkey.length < 128)
    (hsame : strcasecmp key oldkey = true) : (setting key value).length ≤ 256 := by
  have hlength : key.length = oldkey.length := by
    have hmap := congrArg List.length (beq_iff_eq.mp hsame)
    rwa [List.length_map, List.length_map] at hmap
  simp only [setting, List.length_append, List.length_cons, List.length_nil]
  omega

/-- **A piece that fits becomes the new line, if it names the key, and stays otherwise.** -/
theorem replacePiece_ok_iff (hvalue : value.length < 128) :
    replacePiece key value piece = .ok line ↔ Fits piece ∧ line = emit key value piece := by
  rw [replacePiece, emit]
  by_cases hcomment : Comment piece
  · have hnames : ¬ Names key piece := fun h => h.1 hcomment
    have hhash : (cstr piece).head? = some 35 := hcomment
    rw [if_pos hhash, if_neg hnames, pure_ok_iff]
    exact ⟨fun h => ⟨.inl hcomment, h.symm⟩, fun h => h.2.symm⟩
  · have hfits : Fits piece ↔ (oldKey piece).length < 128 ∧
        (oldKey piece ≠ [] → (oldValue piece).length < 128) :=
      ⟨fun h => h.resolve_left hcomment, .inr⟩
    have hhash : ¬ (cstr piece).head? = some 35 := hcomment
    rw [if_neg hhash, ok_bind_iff, hfits]
    simp only [scan_ok_iff, and_assoc, exists_and_left]
    refine and_congr_right fun hlength => and_congr_right fun _ => ?_
    rw [exists_eq_left]
    by_cases hread : oldKey piece = [] ∨ oldValue piece = []
    · have hnames : ¬ Names key piece := fun h => hread.elim h.2.1 h.2.2.1
      rw [if_pos hread, if_neg hnames]
      exact pure_ok_iff.trans eq_comm
    · rw [if_neg hread]
      obtain ⟨hkey, hword⟩ := not_or.mp hread
      by_cases hsame : strcasecmp key (oldKey piece) = true
      · have hsetting := setting_fits hvalue hlength hsame
        rw [if_pos ⟨hcomment, hkey, hword, hsame⟩]
        dsimp only
        rw [if_pos hsame, store_ok_iff]
        exact ⟨fun h => h.2.symm, fun h => ⟨Nat.lt_of_le_of_lt hsetting (by decide), h.symm⟩⟩
      · have hnames : ¬ Names key piece := fun h => hsame h.2.2.2
        rw [if_neg hnames]
        dsimp only
        rw [if_neg hsame]
        exact pure_ok_iff.trans eq_comm

end Piece

/-! ## 5. The lines -/

section Lines

variable {key value l p x y : Bytes} {ls ps : List Bytes}

theorem replaceLoop_ok_iff (hvalue : value.length < 128) {out : Bytes} :
    replaceLoop key value ps = .ok out ↔
      (∀ p ∈ ps, Fits p) ∧ out = ps.flatMap (emit key value) := by
  induction ps generalizing out with
  | nil => exact pure_ok_iff.trans ⟨fun h => ⟨nofun, h.symm⟩, fun h => h.2.symm⟩
  | cons p ps ih =>
    rw [replaceLoop, ok_bind_iff, List.forall_mem_cons, List.flatMap_cons]
    simp only [replacePiece_ok_iff hvalue, ok_bind_iff, ih, pure_ok_iff, and_assoc, exists_and_left,
      exists_eq_left]
    exact and_congr_right fun _ => and_congr_right fun _ => eq_comm

/-- What goes to the temporary file for a line. -/
def emitLine (key value l : Bytes) : Bytes := (pieces (l ++ [newline])).flatMap (emit key value)

theorem emit_print (h : ∀ l ∈ ls, newline ∉ l) :
    (pieces (print ls)).flatMap (emit key value) = ls.flatMap (emitLine key value) := by
  rw [pieces, pieces_lines h, List.flatMap_assoc]
  rfl

/-- The bytes of a piece are those of its line. -/
theorem mem_of_mem_pieces {f : Bytes} {b : UInt8} (hp : p ∈ pieces f) (hb : b ∈ p) : b ∈ f := by
  rw [← pieces_flatten (MAX_LINE_LENGTH - 1) f]
  exact List.mem_flatten.mpr ⟨p, hp, hb⟩

theorem zero_notMem_piece (hl : 0 ∉ l) (hp : p ∈ pieces (l ++ [newline])) : 0 ∉ p := by
  intro hzero
  rcases List.mem_append.mp (mem_of_mem_pieces hp hzero) with hmem | hmem
  · exact hl hmem
  · exact absurd hmem (by decide)

/-- A piece that stays. -/
theorem emit_eq_self (hzero : 0 ∉ p) (h : Names key p → p = setting key value) :
    emit key value p = p := by
  rw [emit]
  split
  · next hnames => exact (h hnames).symm
  · exact cstr_eq_self_iff.mpr hzero

theorem flatMap_eq_flatten {f : Bytes → Bytes} (h : ∀ p ∈ ps, f p = p) :
    ps.flatMap f = ps.flatten := by
  rw [List.flatMap_def, List.map_congr_left h, List.map_id']

/-- **A line all of whose pieces stay is one that stays.** -/
theorem emitLine_kept (h : LineKept key value l) : emitLine key value l = l ++ [newline] := by
  rw [emitLine, flatMap_eq_flatten fun p hp => emit_eq_self (zero_notMem_piece h.1 hp) (h.2 p hp).2]
  exact pieces_flatten _ _

theorem emitLine_replaced (h : LineReplaced key l) : emitLine key value l = setting key value := by
  obtain ⟨p, ps, hpieces, -, hnames, hrest⟩ := h
  have hnil : ps.flatMap (emit key value) = [] := by
    rw [List.flatMap_eq_nil_iff]
    intro q hq
    have hkey : oldKey q = [] := by
      rw [oldKey, hrest q hq]
      rfl
    rw [emit, if_neg fun hnames => hnames.2.1 hkey, hrest q hq]
  rw [emitLine, hpieces, List.flatMap_cons, hnil, List.append_nil, emit, if_pos hnames]

/-- Lines that stay, one after the other. -/
theorem emitLines_kept (h : ∀ l ∈ ls, LineKept key value l) :
    ls.flatMap (emitLine key value) = print ls := by
  rw [print, List.flatMap_def, List.flatMap_def,
    List.map_congr_left fun l hl => emitLine_kept (h l hl)]

/-- The second loop copies what has no zero byte. -/
theorem copyLoop_eq {f : Bytes} (hf : 0 ∉ f) : copyLoop f = f := by
  rw [copyLoop, flatMap_eq_flatten fun p hp => cstr_eq_self_iff.mpr fun hzero =>
    hf (mem_of_mem_pieces hp hzero)]
  exact pieces_flatten _ _

/-- What goes to the temporary file has no zero byte. -/
theorem zero_notMem_emit (hkey : 0 ∉ key) (hvalue : 0 ∉ value) : 0 ∉ emit key value p := by
  rw [emit]
  split
  · simp only [setting, List.mem_append, List.mem_cons, List.not_mem_nil, or_false, not_or]
    exact ⟨⟨hkey, by decide, hvalue⟩, by decide⟩
  · intro hzero
    exact absurd (List.mem_takeWhile_imp hzero) (by decide)

end Lines

/-! ## 6. What a good result says -/

section Result

variable {key value l p x y : Bytes} {ls ps : List Bytes}

theorem setting_short (hvalue : value.length < 128) (hfits : Fits p) (hnames : Names key p) :
    (setting key value).length ≤ MAX_LINE_LENGTH - 1 :=
  (setting_fits hvalue (hfits.resolve_left hnames.1).1 hnames.2.2.2).trans (by decide)

theorem setting_append (key value x : Bytes) :
    setting key value ++ x = (key ++ equals :: value) ++ newline :: x :=
  List.append_assoc _ _ _

/-- A full piece without a newline does not begin as a shorter line does. -/
theorem setting_append_ne (hp : newline ∉ p) (hlength : (setting key value).length ≤ p.length) :
    setting key value ++ x ≠ p ++ y := by
  intro h
  have hbegins : setting key value <+: p :=
    List.prefix_of_prefix_length_le (h ▸ List.prefix_append _ x) (List.prefix_append p y) hlength
  exact hp (hbegins.subset (List.mem_append_right _ (List.mem_singleton_self newline)))

/-- **Pieces that give back their line have stayed.** -/
theorem kept_of_append (hvalue : value.length < 128) (hline : newline ∉ key ++ equals :: value)
    (hps : LinePieces (MAX_LINE_LENGTH - 1) ps) (hzero : ∀ p ∈ ps, 0 ∉ p)
    (hfits : ∀ p ∈ ps, Fits p) (h : ps.flatMap (emit key value) ++ x = ps.flatten ++ y) :
    (∀ p ∈ ps, Names key p → p = setting key value) ∧ x = y := by
  induction hps with
  | @last q hq =>
    have hone : emit key value (q ++ [newline]) ++ x = (q ++ [newline]) ++ y := by simpa using h
    by_cases hnames : Names key (q ++ [newline])
    · rw [emit, if_pos hnames, setting_append, List.append_assoc q] at hone
      obtain ⟨hq', hxy⟩ := sep_inj hline hq hone
      refine ⟨fun p hp _ => ?_, hxy⟩
      rw [List.mem_singleton.mp hp, ← hq', setting]
    · rw [emit, if_neg hnames, cstr_eq_self_iff.mpr (hzero _ (List.mem_singleton_self _))] at hone
      refine ⟨fun p hp hnames' => absurd hnames' ?_, List.append_cancel_left hone⟩
      rwa [List.mem_singleton.mp hp]
  | @more p ps hp hfull hps ih =>
    obtain ⟨hzero₁, hzero⟩ := List.forall_mem_cons.mp hzero
    obtain ⟨hfits₁, hfits⟩ := List.forall_mem_cons.mp hfits
    rw [List.flatMap_cons, List.flatten_cons, List.append_assoc, List.append_assoc] at h
    by_cases hnames : Names key p
    · rw [emit, if_pos hnames] at h
      exact absurd h (setting_append_ne hp (hfull ▸ setting_short hvalue hfits₁ hnames))
    · rw [emit, if_neg hnames, cstr_eq_self_iff.mpr hzero₁] at h
      obtain ⟨hkept, hxy⟩ := ih hzero hfits (List.append_cancel_left h)
      exact ⟨List.forall_mem_cons.mpr ⟨fun hn => absurd hn hnames, hkept⟩, hxy⟩

/-- The lines in front, one after the other. -/
theorem linesKept_of_append (hvalue : value.length < 128)
    (hline : newline ∉ key ++ equals :: value) (hls : ∀ l ∈ ls, newline ∉ l ∧ 0 ∉ l)
    (hfits : ∀ l ∈ ls, ∀ p ∈ pieces (l ++ [newline]), Fits p)
    (h : ls.flatMap (emitLine key value) ++ x = print ls ++ y) :
    (∀ l ∈ ls, LineKept key value l) ∧ x = y := by
  induction ls with
  | nil => exact ⟨nofun, h⟩
  | cons l ls ih =>
    obtain ⟨⟨hl, hzero⟩, hls⟩ := List.forall_mem_cons.mp hls
    obtain ⟨hfits₁, hfits⟩ := List.forall_mem_cons.mp hfits
    have hflat : (pieces (l ++ [newline])).flatten = l ++ [newline] := pieces_flatten _ _
    rw [List.flatMap_cons, print, List.flatMap_cons, ← print, List.append_assoc, List.append_assoc,
      ← hflat] at h
    obtain ⟨hkept, htail⟩ := kept_of_append hvalue hline (linePieces hl (by decide))
      (fun p hp => zero_notMem_piece hzero hp) hfits₁ h
    obtain ⟨hrest, hxy⟩ := ih hls hfits htail
    exact ⟨List.forall_mem_cons.mpr ⟨⟨hzero, fun p hp => ⟨hfits₁ p hp, hkept p hp⟩⟩, hrest⟩, hxy⟩

/-- A line gives a newline at least. -/
theorem newline_mem_emit (hps : LinePieces (MAX_LINE_LENGTH - 1) ps) (hzero : ∀ p ∈ ps, 0 ∉ p) :
    newline ∈ ps.flatMap (emit key value) := by
  induction hps with
  | @last q hq =>
    have hend : ∀ a : Bytes, newline ∈ a ++ [newline] := fun a =>
      List.mem_append_right a (List.mem_singleton_self newline)
    rw [List.flatMap_singleton, emit]
    split
    · exact hend _
    · rw [cstr_eq_self_iff.mpr (hzero _ (List.mem_singleton_self _))]
      exact hend q
  | more hp hfull hps ih =>
    rw [List.flatMap_cons]
    exact List.mem_append_right _ (ih (List.forall_mem_cons.mp hzero).2)

theorem length_le_count (hls : ∀ l ∈ ls, newline ∉ l ∧ 0 ∉ l) :
    ls.length ≤ (ls.flatMap (emitLine key value)).count newline := by
  induction ls with
  | nil => exact Nat.zero_le _
  | cons l ls ih =>
    obtain ⟨⟨hl, hzero⟩, hls⟩ := List.forall_mem_cons.mp hls
    have hone : 0 < (emitLine key value l).count newline :=
      List.count_pos_iff.mpr (newline_mem_emit (linePieces hl (by decide)) fun p hp =>
        zero_notMem_piece hzero hp)
    have hrest := ih hls
    rw [List.flatMap_cons, List.count_append, List.length_cons]
    omega

theorem count_print (hls : ∀ l ∈ ls, newline ∉ l) : (print ls).count newline = ls.length := by
  induction ls with
  | nil => rfl
  | cons l ls ih =>
    obtain ⟨hl, hls⟩ := List.forall_mem_cons.mp hls
    rw [print_cons, List.count_append, List.count_eq_zero.mpr hl, List.count_cons_self, ih hls,
      List.length_cons, Nat.zero_add]

/-- **A line that became the new one was read in one piece, or was the new one.** -/
theorem replaced_of_append (hvalue : value.length < 128)
    (hline : newline ∉ key ++ equals :: value) (hl : newline ∉ l) (hzero : 0 ∉ l)
    (hfits : ∀ p ∈ pieces (l ++ [newline]), Fits p) (hls : ∀ l ∈ ls, newline ∉ l ∧ 0 ∉ l)
    (h : emitLine key value l ++ ls.flatMap (emitLine key value) =
      setting key value ++ print ls) :
    (LineReplaced key l ∨ l = key ++ equals :: value ∧ LineKept key value l) ∧
      ls.flatMap (emitLine key value) = print ls := by
  by_cases hany : ∃ p ∈ pieces (l ++ [newline]), Names key p
  · obtain ⟨p, hp, hnames⟩ := hany
    have hshort := setting_short hvalue (hfits p hp) hnames
    have hps : LinePieces _ (pieces (l ++ [newline])) := linePieces hl (by decide)
    have hpzero : ∀ p ∈ pieces (l ++ [newline]), 0 ∉ p := fun p hp => zero_notMem_piece hzero hp
    rw [emitLine] at h
    cases hpieces : pieces (l ++ [newline]) with
    | nil => exact absurd (hpieces ▸ hp) List.not_mem_nil
    | cons q qs =>
      rw [hpieces] at h hps hpzero hp
      rw [List.flatMap_cons, List.append_assoc] at h
      by_cases hfirst : Names key q
      · have hfits₁ := hfits q (hpieces ▸ List.mem_cons_self)
        rw [emit, if_pos hfirst] at h
        have htail := List.append_cancel_left h
        cases hps with
        | last => exact ⟨.inl ⟨_, [], hpieces, hfits₁, hfirst, nofun⟩, htail⟩
        | more _ _ hqs =>
          -- a newline too many
          have hmore : 0 < (qs.flatMap (emit key value)).count newline :=
            List.count_pos_iff.mpr (newline_mem_emit hqs (List.forall_mem_cons.mp hpzero).2)
          have hlen : ls.length ≤ (ls.flatMap (emitLine key value)).count newline :=
            length_le_count hls
          have hcount := congrArg (List.count newline) htail
          rw [List.count_append, count_print fun l hl => (hls l hl).1] at hcount
          omega
      · rw [emit, if_neg hfirst, cstr_eq_self_iff.mpr (hpzero q List.mem_cons_self)] at h
        cases hps with
        | last => exact absurd (List.mem_singleton.mp hp ▸ hnames) hfirst
        | more hq hfull _ => exact absurd h.symm (setting_append_ne hq (hfull ▸ hshort))
  · have hkept : LineKept key value l :=
      ⟨hzero, fun p hp => ⟨hfits p hp, fun hnames => absurd ⟨p, hp, hnames⟩ hany⟩⟩
    rw [emitLine_kept hkept, setting_append, List.append_assoc, List.singleton_append] at h
    obtain ⟨heq, htail⟩ := sep_inj hl hline h
    exact ⟨.inr ⟨heq, hkept⟩, htail⟩

end Result

/-! ## 7. The file -/

section File

variable {d : Disk} {s : Setting} {f g : Bytes} {n : Nat}

theorem Setting.value_length (s : Setting) : s.value.length < 128 :=
  of_decide_eq_true (s.accepted ⟨[], [], .string, [], []⟩ rfl)

theorem Setting.line_newline (s : Setting) (hvalue : newline ∉ s.value) :
    newline ∉ ucase s.key ++ equals :: s.value := by
  rw [List.mem_append, List.mem_cons]
  exact not_or.mpr ⟨s.keyText.2.1, not_or.mpr ⟨by decide, hvalue⟩⟩

theorem Setting.zero_notMem_line (s : Setting) {value : Bytes} (hvalue : 0 ∉ value) :
    0 ∉ s.line value := by
  rw [Setting.line, List.mem_append, List.mem_cons]
  exact not_or.mpr ⟨s.keyText.1, not_or.mpr ⟨by decide, hvalue⟩⟩

/-- The file as the first loop writes it. -/
def Setting.out (s : Setting) : Bytes :=
  s.before.flatMap (emitLine (ucase s.key) s.value) ++
    (emitLine (ucase s.key) s.value (s.line s.old) ++
      s.after.flatMap (emitLine (ucase s.key) s.value))

theorem Setting.out_eq (s : Setting) :
    (pieces s.file).flatMap (emit (ucase s.key) s.value) = s.out := by
  refine (emit_print s.single).trans ?_
  rw [List.flatMap_append, List.flatMap_cons, Setting.out, Setting.line]

theorem replaceLoop_file {out : Bytes} :
    replaceLoop (ucase s.key) s.value (pieces s.file) = .ok out ↔
      (∀ p ∈ pieces s.file, Fits p) ∧ out = s.out := by
  rw [replaceLoop_ok_iff s.value_length, s.out_eq]

theorem zero_notMem_out (s : Setting) : 0 ∉ s.out := by
  rw [← s.out_eq]
  intro hzero
  obtain ⟨p, -, hp⟩ := List.mem_flatMap.mp hzero
  exact zero_notMem_emit s.keyText.1 s.valueText hp

/-- Where all can be opened and written the first loop decides. -/
theorem configReplace_works : configReplace ⟨true, true, true, true, true⟩ n s.file s.key s.value =
    .ok f ↔ (∀ p ∈ pieces s.file, Fits p) ∧ f = s.out := by
  rw [configReplace, if_neg (by decide), ok_bind_iff]
  simp only [replaceLoop_file, and_assoc, exists_and_left, exists_eq_left]
  refine and_congr_right fun _ => ?_
  rw [if_neg (by decide), if_neg (by decide), if_true, copyLoop_eq (zero_notMem_out s),
    pure_ok_iff]
  exact eq_comm

/-- The pieces of the file are those of its lines. -/
theorem fits_iff : (∀ p ∈ pieces s.file, Fits p) ↔
    ∀ l ∈ s.lines s.old, ∀ p ∈ pieces (l ++ [newline]), Fits p := by
  have hpieces : pieces s.file = (s.lines s.old).flatMap fun l => pieces (l ++ [newline]) :=
    pieces_lines s.single
  rw [hpieces]
  simp only [List.mem_flatMap, forall_exists_index, and_imp]
  exact ⟨fun h l hl p hp => h p l hl hp, fun h p l hl hp => h l hl p hp⟩

theorem Setting.mem_lines {l value : Bytes} (s : Setting) :
    l ∈ s.lines value ↔ l ∈ s.before ++ s.after ∨ l = s.line value := by
  simp only [Setting.lines, List.mem_append, List.mem_cons]
  tauto

/-- **A good text is replaced as it should be.** -/
theorem GoodText.replaced (h : GoodText s) :
    (∀ p ∈ pieces s.file, Fits p) ∧ IsText s.out (s.lines s.value) := by
  have hbefore : ∀ l ∈ s.before, LineKept (ucase s.key) s.value l := fun l hl =>
    h.others l (List.mem_append_left _ hl)
  have hafter : ∀ l ∈ s.after, LineKept (ucase s.key) s.value l := fun l hl =>
    h.others l (List.mem_append_right _ hl)
  have hline : emitLine (ucase s.key) s.value (s.line s.old) = s.line s.value ++ [newline] := by
    rcases h.line with hreplaced | ⟨hold, hkept⟩
    · exact emitLine_replaced hreplaced
    · rw [emitLine_kept hkept, hold]
  refine ⟨fits_iff.mpr fun l hl p hp => ?_, ?_, fun l hl => ?_⟩
  · rcases s.mem_lines.mp hl with hother | hself
    · exact ((h.others l hother).2 p hp).1
    · rw [hself] at hp
      rcases h.line with ⟨q, qs, hpieces, hfits, -, hrest⟩ | ⟨-, hkept⟩
      · rcases List.mem_cons.mp (hpieces ▸ hp) with hfirst | hmem
        · exact hfirst ▸ hfits
        · have hkey : oldKey p = [] := by
            rw [oldKey, hrest p hmem]
            rfl
          rw [Fits, hkey]
          exact .inr ⟨by decide, absurd rfl⟩
      · exact (hkept.2 p hp).1
  · rw [Setting.out, emitLines_kept hbefore, hline, emitLines_kept hafter, print, print,
      Setting.lines, print, List.flatMap_append, List.flatMap_cons]
  · rcases s.mem_lines.mp hl with hother | hself
    · refine s.single l ?_
      exact s.mem_lines.mpr (.inl hother)
    · rw [hself]
      exact s.line_newline h.value

/-- **What is replaced as it should be is a good text.** -/
theorem goodText_of_replaced (hold : 0 ∉ s.old) (hfits : ∀ p ∈ pieces s.file, Fits p)
    (h : IsText s.out (s.lines s.value)) : GoodText s := by
  have hvalue : newline ∉ s.value := fun hmem =>
    h.2 _ (s.mem_lines.mpr (.inr rfl)) (List.mem_append_right _ (List.mem_cons_of_mem _ hmem))
  have hzero : ∀ l ∈ s.before ++ s.after, 0 ∉ l := by
    intro l hl hmem
    refine zero_notMem_out s (h.1 ▸ List.mem_flatMap.mpr ⟨l, s.mem_lines.mpr (.inl hl), ?_⟩)
    exact List.mem_append_left _ hmem
  have hothers : ∀ l ∈ s.before ++ s.after, newline ∉ l ∧ 0 ∉ l := fun l hl =>
    ⟨s.single l (s.mem_lines.mpr (.inl hl)), hzero l hl⟩
  have hlines := fits_iff.mp hfits
  have hother : ∀ l ∈ s.before ++ s.after, ∀ p ∈ pieces (l ++ [newline]), Fits p := fun l hl =>
    hlines l (s.mem_lines.mpr (.inl hl))
  have hout := h.1
  rw [Setting.out, print, Setting.lines, List.flatMap_append, List.flatMap_cons, ← print,
    ← print] at hout
  have hnew := s.line_newline hvalue
  obtain ⟨hbefore, htail⟩ := linesKept_of_append s.value_length hnew
    (fun l hl => hothers l (List.mem_append_left _ hl))
    (fun l hl => hother l (List.mem_append_left _ hl)) hout
  obtain ⟨hline, hrest⟩ := replaced_of_append s.value_length hnew
    (s.single _ (s.mem_lines.mpr (.inr rfl))) (s.zero_notMem_line hold)
    (hlines _ (s.mem_lines.mpr (.inr rfl)))
    (fun l hl => hothers l (List.mem_append_right _ hl)) htail
  have hafter := (linesKept_of_append (x := []) (y := []) s.value_length hnew
    (fun l hl => hothers l (List.mem_append_right _ hl))
    (fun l hl => hother l (List.mem_append_right _ hl)) (congrArg (· ++ []) hrest)).1
  refine ⟨hvalue, fun l hl => (List.mem_append.mp hl).elim (hbefore l) (hafter l), ?_⟩
  exact hline.imp_right fun hsame =>
    ⟨(List.cons.inj (List.append_cancel_left hsame.1)).2, hsame.2⟩

/-- The file has a line. -/
theorem file_ne_nil (s : Setting) : s.file ≠ [] := by
  rw [Setting.file, Setting.lines, print, List.flatMap_append, List.flatMap_cons]
  simp

/-- Where the temporary file fails and the old file is not written, the file stays. -/
theorem unwritten_iff (hreads : d.reads = true) (htmp : d.tmpOpens = true)
    (hwrites : d.rewrites = false) :
    configReplace d n s.file s.key s.value = .ok s.file ↔ ∀ p ∈ pieces s.file, Fits p := by
  rw [configReplace, if_neg (by simp [hreads, htmp]), ok_bind_iff]
  simp only [replaceLoop_file, hwrites, if_true, pure_ok_iff, and_true, exists_and_left, exists_eq]

/-- A temporary file that fails may leave nothing of a file that is written again. -/
theorem written_empty (hreads : d.reads = true) (htmp : d.tmpOpens = true)
    (hwrites : d.rewrites = true) (hfails : d.TmpFails) :
    configReplace d 0 s.file s.key s.value ≠ .ok s.file := by
  rw [configReplace, if_neg (by simp [hreads, htmp]), ne_eq, ok_bind_iff]
  intro hrun
  obtain ⟨out, -, hfile⟩ := hrun
  rw [if_neg (by simp [hwrites])] at hfile
  split at hfile
  · exact file_ne_nil s (pure_ok_iff.mp hfile).symm
  · next hreopens =>
    have hcut : d.tmpWrites = false :=
      (hfails.resolve_left (by simp [htmp])).resolve_right hreopens
    rw [hcut] at hfile
    exact file_ne_nil s (pure_ok_iff.mp hfile).symm

/-- **Exactly the runs that do it right**: a good run does; and a run that does, on a line of the
    setting without a zero byte, is good. -/
theorem replace_right_iff (d : Disk) (s : Setting) :
    (Good d s → Right d s) ∧ (0 ∉ s.old → Right d s → Good d s) := by
  constructor
  · intro hgood
    refine ⟨fun hworks n => ?_, fun hfails n => ?_⟩
    · obtain ⟨hfits, htext⟩ := (hgood.1 hworks).replaced
      rw [hworks]
      exact ⟨s.out, configReplace_works.mpr ⟨hfits, rfl⟩, htext⟩
    · by_cases hopen : d.reads = false ∨ d.tmpOpens = false
      · rw [configReplace, if_pos hopen]
        rfl
      · obtain ⟨hreads, htmp⟩ := not_or.mp hopen
        obtain ⟨hwrites, hfits⟩ :=
          ((hgood.2 hfails).resolve_left hreads).resolve_left htmp
        rw [Bool.not_eq_false] at hreads htmp
        exact (unwritten_iff hreads htmp hwrites).mpr hfits
  · intro hold hright
    refine ⟨fun hworks => ?_, fun hfails => ?_⟩
    · obtain ⟨f, hf, htext⟩ := hright.1 hworks 0
      rw [hworks] at hf
      obtain ⟨hfits, hout⟩ := configReplace_works.mp hf
      exact goodText_of_replaced hold hfits (hout ▸ htext)
    · by_cases hreads : d.reads = false
      · exact .inl hreads
      · by_cases htmp : d.tmpOpens = false
        · exact .inr (.inl htmp)
        · rw [Bool.not_eq_false] at hreads htmp
          by_cases hwrites : d.rewrites = false
          · exact .inr (.inr ⟨hwrites, (unwritten_iff hreads htmp hwrites).mp (hright.2 hfails 0)⟩)
          · rw [Bool.not_eq_false] at hwrites
            exact absurd (hright.2 hfails 0) (written_empty hreads htmp hwrites hfails)

end File

/-- `FTP_HOST=` gets a value. -/
def emptyHost : Setting where
  key := ascii "FTP_HOST"
  value := ascii "nas"
  before := []
  old := []
  after := []
  keyText := by decide
  valueText := by decide
  accepted := fun p hp => by
    rw [Param.accepts, hp]
    exact decide_eq_true (by decide)
  single := by decide
  once := nofun

/-- **A setting without a value keeps none.** -/
theorem empty_kept : ¬ ∀ d s, Right d s := by
  intro h
  obtain ⟨f, hf, htext, -⟩ := (h ⟨true, true, true, true, true⟩ emptyHost).1 rfl 0
  have hkept : configReplace ⟨true, true, true, true, true⟩ 0 emptyHost.file emptyHost.key
      emptyHost.value = .ok emptyHost.file := by
    decide
  rw [hkept] at hf
  exact absurd ((Except.ok.inj hf).trans htext) (by decide)

end YiHack.Mqtt.Replace
