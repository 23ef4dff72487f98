/-
  File:      YiHack/Provision/Merge.lean
  Subject:   The settings an accepted file stands for, and the awk that merges them into
             `system.conf`.

  * `mergeLines` -- the awk over the lines of `system.conf`;
  * `Merged` -- what a merge is to leave;
  * **`mergeLines_merged`** -- it does, whatever lines it meets.
-/
import YiHack.Provision.Validate

namespace YiHack.Provision

open General

/-! ## 1. The awk -/

/-- `substr($0,1,index($0,"=")-1)`: empty for a line without `=`. -/
def keyOf (l : Bytes) : Bytes := ((cutKey l).map Prod.fst).getD []

/-- `substr($0,index($0,"=")+1)`. -/
def valueOf (l : Bytes) : Bytes := ((cutKey l).map Prod.snd).getD l

/-- Names and values, in the order of the settings file. -/
abbrev Settings := List (Bytes × Bytes)

/-- The first file. -/
def readSettings (f : Bytes) : Settings := (lines f).map fun l => (keyOf l, valueOf l)

/-- `print key "=" values[key]`. -/
def assignment (key value : Bytes) : Bytes := key ++ equals :: value

/-- The second file, and what is printed at its end; `seen` are the keys that came before. -/
def mergeLines (values : Settings) (seen : List Bytes) : List Bytes → List Bytes
  | [] => (values.filter fun v => v.1 ∉ seen).map fun v => assignment v.1 v.2
  | l :: ls =>
    match values.lookup (keyOf l) with
    | some v =>
      if keyOf l ∈ seen then mergeLines values seen ls
      else assignment (keyOf l) v :: mergeLines values (keyOf l :: seen) ls
    | none => l :: mergeLines values seen ls

/-- `SETTINGS_CFG`. -/
def settingsFile : Accepted → Bytes
  | .hotspot ssid key => ascii "WIFI_HOTSPOT_BOOT=yes\nWIFI_HOTSPOT_SSID=" ++ ssid ++
      ascii "\nWIFI_HOTSPOT_PASSWORD=" ++ key ++ ascii "\n"
  | .station _ _ => ascii "WIFI_HOTSPOT_BOOT=no\n"

/-- `CONFIG_TMP`. -/
def mergedConf (a : Accepted) (conf : Bytes) : Bytes :=
  print (mergeLines (readSettings (settingsFile a)) [] (lines conf))

/-! ## 2. What a merge is -/

/-- The settings a file stands for. -/
def settings : Accepted → Settings
  | .hotspot ssid key => [(ascii "WIFI_HOTSPOT_BOOT", ascii "yes"), (ascii "WIFI_HOTSPOT_SSID", ssid),
      (ascii "WIFI_HOTSPOT_PASSWORD", key)]
  | .station _ _ => [(ascii "WIFI_HOTSPOT_BOOT", ascii "no")]

/-- The line is of one of the keys. -/
def managed (values : Settings) (l : Bytes) : Bool := (values.lookup (keyOf l)).isSome

/-- The lines of other keys, in their order. -/
def others (values : Settings) (ls : List Bytes) : List Bytes :=
  ls.filter fun l => !managed values l

/-- The settings whose key no line has. -/
def absent (values : Settings) (ls : List Bytes) : Settings :=
  values.filter fun v => ls.all fun l => keyOf l ≠ v.1

/-- The lines of other keys are as they were; each key has one line, at its first occurrence, or
    behind them all where it had none. -/
structure Merged (values : Settings) (ls out : List Bytes) : Prop where
  others : others values out = others values ls
  single : ∀ v ∈ values, (out.filter fun l => keyOf l = v.1) = [assignment v.1 v.2]
  first : ∀ before l after, ls = before ++ l :: after → managed values l = true →
    (∀ l' ∈ before, keyOf l' ≠ keyOf l) → ∃ v before' after', (keyOf l, v) ∈ values ∧
      out = before' ++ assignment (keyOf l) v :: after' ∧
      Provision.others values before' = Provision.others values before
  appended : ∃ body, out = body ++ (absent values ls).map fun v => assignment v.1 v.2

/-! ## 3. The awk merges -/

section

variable {values : Settings}

/-- The keys differ, and none has an `=`. -/
structure Distinct (values : Settings) : Prop where
  nodup : (values.map Prod.fst).Nodup
  plain : ∀ v ∈ values, equals ∉ v.1

theorem keyOf_assignment {k : Bytes} (hk : equals ∉ k) (v : Bytes) :
    keyOf (assignment k v) = k := by
  rw [keyOf, assignment, cutKey_append hk]
  rfl

theorem valueOf_assignment {k : Bytes} (hk : equals ∉ k) (v : Bytes) :
    valueOf (assignment k v) = v := by
  rw [valueOf, assignment, cutKey_append hk]
  rfl

theorem lookup_of_mem (hd : Distinct values) {k v : Bytes} (h : (k, v) ∈ values) :
    values.lookup k = some v := by
  have hnodup := hd.nodup
  clear hd
  induction values with
  | nil => exact absurd h List.not_mem_nil
  | cons w ws ih =>
    obtain ⟨hw, hws⟩ := List.nodup_cons.mp hnodup
    rcases List.mem_cons.mp h with rfl | h
    · exact List.lookup_cons_self
    · have hne : (k == w.1) = false := by
        rw [beq_eq_false_iff_ne]
        rintro rfl
        exact hw (List.mem_map.mpr ⟨(w.1, v), h, rfl⟩)
      rw [List.lookup_cons, hne]
      exact ih h hws

theorem mem_of_lookup {k v : Bytes} (h : values.lookup k = some v) : (k, v) ∈ values := by
  induction values with
  | nil => exact absurd h nofun
  | cons w ws ih =>
    rw [List.lookup_cons] at h
    rcases hk : (k == w.1) with - | -
    · rw [hk] at h
      exact List.mem_cons_of_mem w (ih h)
    · rw [hk] at h
      obtain rfl := eq_of_beq hk
      obtain rfl := Option.some.inj h
      exact List.mem_cons_self

theorem lookup_ne_none {v : Bytes × Bytes} (h : v ∈ values) : values.lookup v.1 ≠ none := by
  induction values with
  | nil => exact absurd h List.not_mem_nil
  | cons w ws ih =>
    rw [List.lookup_cons]
    rcases hk : (v.1 == w.1) with - | -
    · rcases List.mem_cons.mp h with rfl | h
      · exact absurd hk (by simp)
      · exact ih h
    · exact nofun

theorem managed_assignment (hd : Distinct values) {v : Bytes × Bytes} (h : v ∈ values) :
    managed values (assignment v.1 v.2) = true := by
  rw [managed, keyOf_assignment (hd.plain v h)]
  exact Option.isSome_iff_ne_none.mpr (lookup_ne_none h)

/-- The other lines pass unchanged. -/
theorem others_mergeLines (hd : Distinct values) (seen : List Bytes) (ls : List Bytes) :
    others values (mergeLines values seen ls) = others values ls := by
  induction ls generalizing seen with
  | nil =>
    rw [mergeLines, others, List.filter_eq_nil_iff.mpr, others, List.filter_nil]
    intro l hl
    obtain ⟨v, hv, rfl⟩ := List.mem_map.mp hl
    rw [managed_assignment hd (List.mem_of_mem_filter hv)]
    exact Bool.false_ne_true
  | cons l ls ih =>
    rw [mergeLines]
    rcases hlook : values.lookup (keyOf l) with - | v
    · have hl : managed values l = false := by rw [managed, hlook]; rfl
      simp only [others, List.filter_cons, hl] at ih ⊢
      rw [ih seen]
    · have hl : managed values l = true := by rw [managed, hlook]; rfl
      have hv := managed_assignment hd (mem_of_lookup hlook)
      simp only [others, List.filter_cons, hl] at ih ⊢
      split
      · exact ih seen
      · simp only [List.filter_cons, hv]
        exact ih _

/-- The lines at the end, seen through one key. -/
theorem filter_key_assignments (hd : Distinct values) (p : Bytes × Bytes → Bool) {v : Bytes × Bytes}
    (hv : v ∈ values) :
    ((values.filter p).map fun w => assignment w.1 w.2).filter (fun l => keyOf l = v.1) =
      if p v then [assignment v.1 v.2] else [] := by
  induction values with
  | nil => exact absurd hv List.not_mem_nil
  | cons w ws ih =>
    obtain ⟨hnot, hnodup⟩ := List.nodup_cons.mp hd.nodup
    have hd' : Distinct ws := ⟨hnodup, fun u hu => hd.plain u (List.mem_cons_of_mem w hu)⟩
    have hw := keyOf_assignment (hd.plain w List.mem_cons_self) w.2
    rcases List.mem_cons.mp hv with rfl | hv
    · have hrest : ((ws.filter p).map fun w => assignment w.1 w.2).filter
          (fun l => keyOf l = v.1) = [] := by
        refine List.filter_eq_nil_iff.mpr fun l hl => ?_
        obtain ⟨u, hu, rfl⟩ := List.mem_map.mp hl
        have hu := List.mem_of_mem_filter hu
        rw [keyOf_assignment (hd'.plain u hu)]
        intro h
        exact hnot (of_decide_eq_true h ▸ List.mem_map_of_mem hu)
      rw [List.filter_cons]
      split
      · rw [List.map_cons, List.filter_cons, if_pos (decide_eq_true hw), hrest]
      · exact hrest
    · have hne : w.1 ≠ v.1 := fun h => hnot (h ▸ List.mem_map_of_mem hv)
      rw [List.filter_cons]
      split
      · rw [List.map_cons, List.filter_cons, if_neg (by rw [hw]; simpa using hne)]
        exact ih hd' hv
      · exact ih hd' hv

/-- A key has one line, unless it was seen before. -/
theorem filter_key_mergeLines (hd : Distinct values) {v : Bytes × Bytes} (hv : v ∈ values)
    (seen : List Bytes) (ls : List Bytes) :
    (mergeLines values seen ls).filter (fun l => keyOf l = v.1) =
      if v.1 ∈ seen then [] else [assignment v.1 v.2] := by
  induction ls generalizing seen with
  | nil =>
    rw [mergeLines, filter_key_assignments hd _ hv]
    rcases Decidable.em (v.1 ∈ seen) with h | h
    · rw [if_pos h, if_neg (by simpa using h)]
    · rw [if_neg h, if_pos (by simpa using h)]
  | cons l ls ih =>
    rw [mergeLines]
    rcases hlook : values.lookup (keyOf l) with - | u
    · have hne : keyOf l ≠ v.1 := fun h => lookup_ne_none hv (h ▸ hlook)
      simp only [List.filter_cons, hne, decide_false]
      exact ih seen
    · have hu := mem_of_lookup hlook
      have hkey := keyOf_assignment (hd.plain _ hu) u
      rcases Decidable.em (keyOf l ∈ seen) with hseen | hseen
      · simp only [hseen, if_true]
        exact ih seen
      · simp only [hseen, if_false, List.filter_cons, hkey]
        rw [ih]
        rcases Decidable.em (keyOf l = v.1) with heq | hne
        · have huv : u = v.2 := by
            have hv' := lookup_of_mem hd (k := v.1) (v := v.2) hv
            rw [← heq, hlook] at hv'
            exact Option.some.inj hv'
          rw [← heq, huv]
          simp [hseen]
        · have hne' : v.1 ≠ keyOf l := fun h => hne h.symm
          simp [hne, hne']

/-- At its first occurrence a key gets its line. -/
theorem first_mergeLines (hd : Distinct values) {l : Bytes} (hl : managed values l = true)
    (before after : List Bytes) (hbefore : ∀ l' ∈ before, keyOf l' ≠ keyOf l) (seen : List Bytes)
    (hseen : keyOf l ∉ seen) : ∃ v before' after', (keyOf l, v) ∈ values ∧
      mergeLines values seen (before ++ l :: after) =
        before' ++ assignment (keyOf l) v :: after' ∧
      others values before' = others values before := by
  induction before generalizing seen with
  | nil =>
    obtain ⟨v, hv⟩ := Option.isSome_iff_exists.mp hl
    refine ⟨v, [], mergeLines values (keyOf l :: seen) after, mem_of_lookup hv, ?_, rfl⟩
    rw [List.nil_append, mergeLines, hv, List.nil_append]
    exact if_neg hseen
  | cons b before ih =>
    have hbefore' := fun l' hl' => hbefore l' (List.mem_cons_of_mem b hl')
    have hb : keyOf l ≠ keyOf b := fun h => hbefore b List.mem_cons_self h.symm
    rw [List.cons_append, mergeLines]
    rcases hlook : values.lookup (keyOf b) with - | u
    · obtain ⟨v, before', after', hv, hout, hothers⟩ := ih hbefore' seen hseen
      refine ⟨v, b :: before', after', hv, by rw [hout]; rfl, ?_⟩
      simp only [others, List.filter_cons] at hothers ⊢
      rw [hothers]
    · have hmanaged : managed values b = true := by rw [managed, hlook]; rfl
      have hassign := managed_assignment hd (mem_of_lookup hlook)
      rcases Decidable.em (keyOf b ∈ seen) with hbseen | hbseen
      · obtain ⟨v, before', after', hv, hout, hothers⟩ := ih hbefore' seen hseen
        refine ⟨v, before', after', hv, by simp only [hbseen, if_true]; exact hout, ?_⟩
        simp only [others, List.filter_cons, hmanaged] at hothers ⊢
        exact hothers
      · obtain ⟨v, before', after', hv, hout, hothers⟩ := ih hbefore' (keyOf b :: seen)
          (List.not_mem_cons_of_ne_of_not_mem hb hseen)
        refine ⟨v, assignment (keyOf b) u :: before', after', hv, ?_, ?_⟩
        · simp only [hbseen, if_false, hout]
          rfl
        · simp only [others, List.filter_cons, hmanaged, hassign] at hothers ⊢
          exact hothers

/-- Behind the lines stand the settings no line has set. -/
theorem appended_mergeLines (values : Settings) (seen : List Bytes) (ls : List Bytes) : ∃ body,
    mergeLines values seen ls = body ++
      ((absent values ls).filter fun v => v.1 ∉ seen).map fun v => assignment v.1 v.2 := by
  induction ls generalizing seen with
  | nil => exact ⟨[], by simp [mergeLines, absent]⟩
  | cons l ls ih =>
    rw [mergeLines]
    rcases hlook : values.lookup (keyOf l) with - | u
    · obtain ⟨body, hbody⟩ := ih seen
      refine ⟨l :: body, ?_⟩
      have hsame : absent values (l :: ls) = absent values ls := by
        refine List.filter_congr fun v hv => ?_
        have hne : keyOf l ≠ v.1 := fun h => lookup_ne_none hv (h ▸ hlook)
        simp [hne]
      rw [hsame, hbody]
      rfl
    · rcases Decidable.em (keyOf l ∈ seen) with hseen | hseen
      · obtain ⟨body, hbody⟩ := ih seen
        refine ⟨body, ?_⟩
        simp only [hseen, if_true, hbody, absent, List.filter_filter]
        congr 2
        refine List.filter_congr fun v _ => ?_
        rcases Decidable.em (v.1 ∈ seen) with hv | hv
        · simp [hv]
        · have hne : keyOf l ≠ v.1 := fun h => hv (h ▸ hseen)
          simp [hne]
      · obtain ⟨body, hbody⟩ := ih (keyOf l :: seen)
        refine ⟨assignment (keyOf l) u :: body, ?_⟩
        simp only [hseen, if_false, hbody, absent, List.filter_filter, List.cons_append]
        congr 3
        refine List.filter_congr fun v _ => ?_
        rcases Decidable.em (keyOf l = v.1) with heq | hne
        · simp [heq]
        · have hne' : v.1 ≠ keyOf l := fun h => hne h.symm
          simp [hne, hne']

/-- **The awk merges**, whatever lines it meets. -/
theorem mergeLines_merged (hd : Distinct values) (ls : List Bytes) :
    Merged values ls (mergeLines values [] ls) where
  others := others_mergeLines hd [] ls
  single v hv := by rw [filter_key_mergeLines hd hv, if_neg List.not_mem_nil]
  first before l after hls hl hbefore := by
    rw [hls]
    exact first_mergeLines hd hl before after hbefore [] List.not_mem_nil
  appended := by
    obtain ⟨body, hbody⟩ := appended_mergeLines values [] ls
    refine ⟨body, ?_⟩
    rw [hbody]
    simp

end

/-! ## 4. What was accepted -/

/-- A byte of a text's line. -/
def Plain (t : Bytes) : Prop := ∀ b ∈ t, b ≠ 0 ∧ b ≠ newline

/-- The credentials are of one line each, and those of a router fit their fields. -/
def Accepted.Clean : Accepted → Prop
  | .station ssid key => Plain ssid ∧ Plain key ∧ ssid ≠ [] ∧ ssid.length ≤ 32 ∧ key ≠ [] ∧
      key.length ≤ 63
  | .hotspot ssid key => Plain ssid ∧ Plain key

theorem checkEntries_clean {h : Host} {e : Entries} {a : Accepted}
    (hplain : ∀ k v, e k = some v → Plain v) (hok : checkEntries h e = .ok a) : a.Clean := by
  have hget : ∀ k, Plain ((e k).getD []) := by
    intro k
    rcases hv : e k with - | v
    · exact fun b hb => absurd hb List.not_mem_nil
    · exact hplain k v hv
  simp only [checkEntries, orFail_bind] at hok
  obtain ⟨-, hok⟩ := hok
  split at hok
  · simp only [ok_bind_iff, orFail_ok, exists_const] at hok
    obtain ⟨b, hb, -, hab⟩ := hok
    obtain rfl := Except.ok.inj hab
    simp only [checkHotspot, orFail_bind] at hb
    obtain ⟨-, -, -, -, hb⟩ := hb
    split at hb
    · simp only [orFail_bind] at hb
      obtain ⟨-, -, hb⟩ := hb
      obtain rfl := Except.ok.inj hb
      exact ⟨hget _, hget _⟩
    · obtain rfl := Except.ok.inj hb
      exact ⟨hget _, hget _⟩
  · simp only [ok_bind_iff, orFail_ok, exists_const] at hok
    obtain ⟨b, hb, -, hab⟩ := hok
    obtain rfl := Except.ok.inj hab
    simp only [checkStation, orFail_bind] at hb
    obtain ⟨-, -, hssid, hkey, hssidLen, hkeyLen, -, -, hb⟩ := hb
    obtain rfl := Except.ok.inj hb
    exact ⟨hget _, hget _, hssid, hssidLen, hkey, hkeyLen⟩

theorem accepted_clean {h : Host} {cfg : Bytes} {a : Accepted} (hok : configureCheck h cfg = .ok a) :
    a.Clean := by
  simp only [configureCheck, ok_bind_iff, orFail_ok, exists_const] at hok
  obtain ⟨-, -, -, -, raw, -, hnul, -, -, e, hparse, b, hb, -, -, hab⟩ := hok
  obtain rfl := Except.ok.inj hab
  refine checkEntries_clean (fun k v hv => ?_) hb
  obtain ⟨-, -, rfl⟩ := parseLines_ok_iff.mp hparse
  have hv : value (lines (raw.map crToLf)) k = some v := hv
  rw [value] at hv
  obtain ⟨l, hl, rfl⟩ := Option.map_eq_some_iff.mp hv
  intro b hb
  obtain ⟨hmem, hnewline⟩ :=
    mem_of_mem_lines (List.mem_of_find?_eq_some hl) b (List.mem_of_mem_drop hb)
  refine ⟨?_, hnewline⟩
  rintro rfl
  obtain ⟨c, hc, hzero⟩ := List.mem_map.mp hmem
  rw [crToLf] at hzero
  split at hzero
  · exact absurd hzero (by decide)
  · exact hnul (hzero ▸ hc)

theorem settings_distinct (a : Accepted) : Distinct (settings a) := by
  cases a with
  | station ssid key =>
    refine ⟨?_, ?_⟩
    · simp only [settings, List.map_cons, List.map_nil]
      decide
    · simp only [settings, List.forall_mem_singleton]
      decide
  | hotspot ssid key =>
    refine ⟨?_, ?_⟩
    · simp only [settings, List.map_cons, List.map_nil]
      decide
    · simp only [settings, List.forall_mem_cons, List.not_mem_nil, false_imp_iff, implies_true,
        and_true]
      decide

theorem settingsFile_eq (a : Accepted) :
    settingsFile a = print ((settings a).map fun v => assignment v.1 v.2) := by
  cases a with
  | station ssid key => rfl
  | hotspot ssid key =>
    simp only [settingsFile, settings, List.map_cons, List.map_nil, print_cons, assignment]
    have hhead : ascii "WIFI_HOTSPOT_BOOT=yes\nWIFI_HOTSPOT_SSID=" =
        ascii "WIFI_HOTSPOT_BOOT" ++ equals :: ascii "yes" ++ newline ::
          (ascii "WIFI_HOTSPOT_SSID" ++ [equals]) := by decide
    have hmid : ascii "\nWIFI_HOTSPOT_PASSWORD=" =
        newline :: (ascii "WIFI_HOTSPOT_PASSWORD" ++ [equals]) := by decide
    have hlast : ascii "\n" = [newline] := by decide
    rw [hhead, hmid, hlast]
    simp only [List.append_assoc, List.cons_append, List.nil_append, print, List.flatMap_nil]

/-- The lines of the settings are lines. -/
theorem newline_not_mem_assignment {a : Accepted} (ha : a.Clean) {v : Bytes × Bytes}
    (hv : v ∈ settings a) : newline ∉ assignment v.1 v.2 := by
  have hplain : ∀ {t : Bytes}, Plain t → newline ∉ t := fun ht h => (ht _ h).2 rfl
  cases a with
  | station ssid key =>
    obtain rfl := List.mem_singleton.mp hv
    decide
  | hotspot ssid key =>
    have hname : ∀ n t : Bytes, newline ∉ n → newline ∉ t → newline ∉ assignment n t := by
      intro n t hn ht h
      rcases List.mem_append.mp h with h | h
      · exact hn h
      · rcases List.mem_cons.mp h with h | h
        · exact absurd h (by decide)
        · exact ht h
    simp only [settings, List.mem_cons, List.not_mem_nil, or_false] at hv
    rcases hv with rfl | rfl | rfl
    · exact hname (ascii "WIFI_HOTSPOT_BOOT") (ascii "yes") (by decide) (by decide)
    · exact hname (ascii "WIFI_HOTSPOT_SSID") ssid (by decide) (hplain ha.1)
    · exact hname (ascii "WIFI_HOTSPOT_PASSWORD") key (by decide) (hplain ha.2)

/-- **awk reads the settings** from the file they were printed to. -/
theorem readSettings_settingsFile {a : Accepted} (ha : a.Clean) :
    readSettings (settingsFile a) = settings a := by
  have hlines : lines (settingsFile a) = (settings a).map fun v => assignment v.1 v.2 := by
    rw [settingsFile_eq]
    refine lines_print fun l hl => ?_
    obtain ⟨v, hv, rfl⟩ := List.mem_map.mp hl
    exact newline_not_mem_assignment ha hv
  rw [readSettings, hlines, List.map_map]
  refine (List.map_congr_left fun v hv => ?_).trans (List.map_id _)
  have hplain := (settings_distinct a).plain v hv
  simp only [Function.comp_apply, keyOf_assignment hplain, valueOf_assignment hplain, id]

theorem mergeLines_mem {values : Settings} {seen ls : List Bytes} {l : Bytes}
    (h : l ∈ mergeLines values seen ls) : l ∈ ls ∨ ∃ v ∈ values, l = assignment v.1 v.2 := by
  induction ls generalizing seen with
  | nil =>
    obtain ⟨v, hv, rfl⟩ := List.mem_map.mp h
    exact .inr ⟨v, List.mem_of_mem_filter hv, rfl⟩
  | cons b ls ih =>
    rw [mergeLines] at h
    rcases hlook : values.lookup (keyOf b) with - | u
    · rw [hlook] at h
      rcases List.mem_cons.mp h with rfl | h
      · exact .inl List.mem_cons_self
      · exact (ih h).imp_left (List.mem_cons_of_mem b)
    · rw [hlook] at h
      simp only at h
      split at h
      · exact (ih h).imp_left (List.mem_cons_of_mem b)
      · rcases List.mem_cons.mp h with rfl | h
        · exact .inr ⟨_, mem_of_lookup hlook, rfl⟩
        · exact (ih h).imp_left (List.mem_cons_of_mem b)

/-- **The merged file** is a merge of the settings into `system.conf`. -/
theorem mergedConf_merged {a : Accepted} (ha : a.Clean) (conf : Bytes) :
    Merged (settings a) (lines conf) (lines (mergedConf a conf)) := by
  have hlines : lines (mergedConf a conf) = mergeLines (settings a) [] (lines conf) := by
    rw [mergedConf, readSettings_settingsFile ha]
    refine lines_print fun l hl => ?_
    rcases mergeLines_mem hl with hl | ⟨v, hv, rfl⟩
    · exact fun h => (mem_of_mem_lines hl _ h).2 rfl
    · exact newline_not_mem_assignment ha hv
  rw [hlines]
  exact mergeLines_merged (settings_distinct a) (lines conf)

end YiHack.Provision
