/-
  File:      YiHack/General/Quoting.lean
  Subject:   How `sh` takes a command line apart: words, quotes, operators and expansions.

  Names nothing of the repository. A byte of a word is literal or active: an unquoted `$`, backquote,
  or pattern character, or a `~` at the head of a word. What a backslash at the end means is left
  open; it counts as active.

  * `tokens` -- the command line taken apart;
  * `count_tokens_le` -- no byte makes two literal bytes;
  * **`tokens_eq_word_iff`** -- a text is one literal word exactly where all its bytes are ordinary.
-/
import YiHack.General.Bytes
import Mathlib

namespace YiHack.General

/-! ## 1. Tokens -/

inductive Mark
  | literal (b : UInt8)
  | active (b : UInt8)
  deriving DecidableEq

inductive Token
  | word (w : List Mark)
  | operator (b : UInt8)
  | unterminated
  deriving DecidableEq

/-- Where the shell is in the line. -/
inductive Mode
  | plain
  | escape
  | single
  | double
  | doubleEscape
  | comment

/-- Newline, `&`, `;`, `<`, `>`, `(`, `)` and `|`. -/
def isOperator (b : UInt8) : Bool :=
  b == 10 || b == 38 || b == 59 || b == 60 || b == 62 || b == 40 || b == 41 || b == 124

/-- `$` and the backquote. -/
def isExpansion (b : UInt8) : Bool := b == 36 || b == 96

/-- `*`, `?` and `[`. -/
def isPattern (b : UInt8) : Bool := b == 42 || b == 63 || b == 91

/-- Blank and tab. -/
def isSeparator (b : UInt8) : Bool := b == 32 || b == 9

/-- `'`, `"` and the backslash. -/
def isQuote (b : UInt8) : Bool := b == 39 || b == 34 || b == 92

/-- `#` and `~`. -/
def isLeader (b : UInt8) : Bool := b == 35 || b == 126

/-- A byte that means itself inside a word. -/
def ordinary (b : UInt8) : Bool :=
  !(isSeparator b || isOperator b || isQuote b || isExpansion b || isPattern b)

/-- One more byte of the word. -/
def more (w : Option (List Mark)) (m : Mark) : Option (List Mark) := some (w.getD [] ++ [m])

/-- The word there is, if any. -/
def flush : Option (List Mark) → List Token
  | none => []
  | some w => [.word w]

/-- What a quote begins. -/
def quoteMode (b : UInt8) : Mode := if b = 39 then .single else if b = 34 then .double else .escape

/-- A backslash and its quote begin no word by themselves, two quotes do. -/
def quoteWord (b : UInt8) (w : Option (List Mark)) : Option (List Mark) :=
  if b = 92 then w else some (w.getD [])

/-- The tokens of a line; `w` is the word begun. -/
def tokensFrom : Mode → Option (List Mark) → Bytes → List Token
  | .plain, w, [] => flush w
  | .escape, w, [] => flush (more w (.active 92))
  | .single, w, [] => flush w ++ [.unterminated]
  | .double, w, [] => flush w ++ [.unterminated]
  | .doubleEscape, w, [] => flush w ++ [.unterminated]
  | .comment, w, [] => flush w
  | .plain, w, b :: bs =>
    if isSeparator b then flush w ++ tokensFrom .plain none bs
    else if isOperator b then flush w ++ .operator b :: tokensFrom .plain none bs
    else if isQuote b then tokensFrom (quoteMode b) (quoteWord b w) bs
    else if b = 35 ∧ w = none then tokensFrom .comment none bs
    else if isExpansion b || isPattern b then tokensFrom .plain (more w (.active b)) bs
    else if b = 126 ∧ w = none then tokensFrom .plain (more w (.active b)) bs
    else tokensFrom .plain (more w (.literal b)) bs
  | .escape, w, b :: bs =>
    if b = 10 then tokensFrom .plain w bs else tokensFrom .plain (more w (.literal b)) bs
  | .single, w, b :: bs =>
    if b = 39 then tokensFrom .plain w bs else tokensFrom .single (more w (.literal b)) bs
  | .double, w, b :: bs =>
    if b = 34 then tokensFrom .plain w bs
    else if b = 92 then tokensFrom .doubleEscape w bs
    else if isExpansion b then tokensFrom .double (more w (.active b)) bs
    else tokensFrom .double (more w (.literal b)) bs
  | .doubleEscape, w, b :: bs =>
    if b = 10 then tokensFrom .double w bs
    else if isExpansion b || b == 34 || b == 92 then tokensFrom .double (more w (.literal b)) bs
    else tokensFrom .double (more (more w (.literal 92)) (.literal b)) bs
  | .comment, w, b :: bs =>
    if b = 10 then flush w ++ .operator b :: tokensFrom .plain none bs else tokensFrom .comment w bs

/-- A line that the shell is given. -/
def tokens (line : Bytes) : List Token := tokensFrom .plain none line

/-- A word that is its text. -/
def literalWord (t : Bytes) : Token := .word (t.map .literal)

/-- A text that stands for itself as a word. -/
structure Plain (t : Bytes) : Prop where
  ne_nil : t ≠ []
  ordinary : ∀ b ∈ t, ordinary b = true
  leader : ∀ b ∈ t.head?, isLeader b = false

instance (t : Bytes) : Decidable (Plain t) :=
  decidable_of_iff (t ≠ [] ∧ (∀ b ∈ t, ordinary b = true) ∧ ∀ b ∈ t.head?, isLeader b = false)
    ⟨fun h => ⟨h.1, h.2.1, h.2.2⟩, fun h => ⟨h.1, h.2, h.3⟩⟩

/-! ## 2. Words -/

section Words

variable {b : UInt8} {t : Bytes} {w : List Mark}

/-- An ordinary byte goes on with the word. -/
theorem tokensFrom_ordinary (hb : ordinary b = true) (w : List Mark) (t : Bytes) :
    tokensFrom .plain (some w) (b :: t) = tokensFrom .plain (some (w ++ [.literal b])) t := by
  simp only [ordinary, Bool.not_eq_true', Bool.or_eq_false_iff] at hb
  obtain ⟨⟨⟨⟨h1, h2⟩, h3⟩, h4⟩, h5⟩ := hb
  simp [tokensFrom, h1, h2, h3, h4, h5, more]

theorem tokensFrom_ordinaries (ht : ∀ b ∈ t, ordinary b = true) (w : List Mark) (rest : Bytes) :
    tokensFrom .plain (some w) (t ++ rest) =
      tokensFrom .plain (some (w ++ t.map .literal)) rest := by
  induction t generalizing w with
  | nil => rw [List.nil_append, List.map_nil, List.append_nil]
  | cons b t ih =>
    rw [List.cons_append, tokensFrom_ordinary (ht b List.mem_cons_self),
      ih fun c hc => ht c (List.mem_cons_of_mem b hc), List.map_cons, List.append_assoc]
    rfl

/-- A byte that means itself in double quotes. -/
def quotable (b : UInt8) : Bool := !(b == 34 || b == 92 || isExpansion b)

theorem quotable_of_ordinary (hb : ordinary b = true) : quotable b = true := by
  simp only [ordinary, isQuote, Bool.not_eq_true', Bool.or_eq_false_iff] at hb
  obtain ⟨⟨⟨-, ⟨-, hquote⟩, hescape⟩, hexpansion⟩, -⟩ := hb
  simp only [quotable, hquote, hescape, hexpansion, Bool.or_self, Bool.not_false]

/-- Such bytes go on with the word in quotes. -/
theorem tokensFrom_quotables (ht : t.all quotable = true) (w : List Mark) (rest : Bytes) :
    tokensFrom .double (some w) (t ++ rest) =
      tokensFrom .double (some (w ++ t.map .literal)) rest := by
  induction t generalizing w with
  | nil => rw [List.nil_append, List.map_nil, List.append_nil]
  | cons b t ih =>
    obtain ⟨hb, ht⟩ := Bool.and_eq_true_iff.mp ht
    simp only [quotable, Bool.not_eq_true', Bool.or_eq_false_iff, beq_eq_false_iff_ne] at hb
    obtain ⟨⟨hquote, hescape⟩, hexpansion⟩ := hb
    have hstep : tokensFrom .double (some w) (b :: (t ++ rest)) =
        tokensFrom .double (some (w ++ [.literal b])) (t ++ rest) := by
      simp [tokensFrom, hquote, hescape, hexpansion, more]
    rw [List.cons_append, hstep, ih ht, List.map_cons, List.append_assoc]
    rfl

/-- Double quotes around a part of a word. -/
theorem tokensFrom_quote (w : List Mark) (t : Bytes) :
    tokensFrom .plain (some w) (34 :: t) = tokensFrom .double (some w) t := rfl

theorem tokensFrom_unquote (w : List Mark) (t : Bytes) :
    tokensFrom .double (some w) (34 :: t) = tokensFrom .plain (some w) t := rfl

/-- A blank ends the word. -/
theorem tokensFrom_blank (w : List Mark) (t : Bytes) :
    tokensFrom .plain (some w) (32 :: t) = .word w :: tokens t := rfl

/-- The first byte of a plain word begins it. -/
theorem tokensFrom_begin (hb : ordinary b = true) (hleader : isLeader b = false) (t : Bytes) :
    tokensFrom .plain none (b :: t) = tokensFrom .plain (some [.literal b]) t := by
  simp only [ordinary, Bool.not_eq_true', Bool.or_eq_false_iff] at hb
  obtain ⟨⟨⟨⟨h1, h2⟩, h3⟩, h4⟩, h5⟩ := hb
  simp only [isLeader, Bool.or_eq_false_iff, beq_eq_false_iff_ne] at hleader
  simp [tokensFrom, h1, h2, h3, h4, h5, more, hleader.1, hleader.2]

theorem Plain.tokensFrom (ht : Plain t) (rest : Bytes) :
    tokensFrom .plain none (t ++ rest) = tokensFrom .plain (some (t.map .literal)) rest := by
  obtain ⟨hne, hord, hleader⟩ := ht
  cases t with
  | nil => exact absurd rfl hne
  | cons b t =>
    rw [List.cons_append, tokensFrom_begin (hord b List.mem_cons_self) (hleader b rfl),
      tokensFrom_ordinaries fun c hc => hord c (List.mem_cons_of_mem b hc)]
    rfl

/-- **A plain text is a word.** -/
theorem Plain.tokens (ht : Plain t) : tokens t = [literalWord t] := by
  have h := ht.tokensFrom []
  rw [List.append_nil] at h
  exact h

/-- Plain words and blanks in front. -/
theorem tokens_words {ws : List Bytes} (hws : ∀ w ∈ ws, Plain w) (t : Bytes) :
    tokens (ws.flatMap (· ++ [32]) ++ t) = ws.map literalWord ++ tokens t := by
  induction ws with
  | nil => rfl
  | cons w ws ih =>
    have hline : (w :: ws).flatMap (· ++ [32]) ++ t = w ++ 32 :: (ws.flatMap (· ++ [32]) ++ t) := by
      simp only [List.flatMap_cons, List.append_assoc, List.cons_append, List.nil_append]
    rw [hline, YiHack.General.tokens, (hws w List.mem_cons_self).tokensFrom]
    show literalWord w :: YiHack.General.tokens _ = _
    rw [ih fun w' hw' => hws w' (List.mem_cons_of_mem w hw')]
    rfl

end Words

/-! ## 3. Only plain texts are words -/

def Mark.count : Mark → Nat
  | .literal _ => 1
  | .active _ => 0

def countWord (w : List Mark) : Nat := (w.map Mark.count).sum

def Token.count : Token → Nat
  | .word w => countWord w
  | _ => 0

/-- The literal bytes in some tokens. -/
def countTokens (ts : List Token) : Nat := (ts.map Token.count).sum

theorem countTokens_append (ss ts : List Token) :
    countTokens (ss ++ ts) = countTokens ss + countTokens ts := by
  simp only [countTokens, List.map_append, List.sum_append]

theorem countTokens_nil : countTokens [] = 0 := rfl

theorem countTokens_cons (t : Token) (ts : List Token) :
    countTokens (t :: ts) = t.count + countTokens ts := rfl

theorem countWord_append (v w : List Mark) : countWord (v ++ w) = countWord v + countWord w := by
  simp only [countWord, List.map_append, List.sum_append]

theorem countWord_literal (t : Bytes) : countWord (t.map .literal) = t.length := by
  induction t with
  | nil => rfl
  | cons b t ih =>
    show 1 + countWord (t.map .literal) = t.length + 1
    rw [ih, Nat.add_comm]

/-- The literal bytes of a word begun. -/
def begun (w : Option (List Mark)) : Nat := countWord (w.getD [])

theorem count_flush (w : Option (List Mark)) : countTokens (flush w) = begun w := by
  cases w with
  | none => rfl
  | some w => exact Nat.add_zero _

theorem begun_more (w : Option (List Mark)) (m : Mark) : begun (more w m) = begun w + m.count := by
  show countWord (w.getD [] ++ [m]) = _
  rw [countWord_append]
  rfl

theorem begun_none : begun none = 0 := rfl

theorem begun_quoteWord (b : UInt8) (w : Option (List Mark)) : begun (quoteWord b w) = begun w := by
  unfold quoteWord
  split <;> rfl

/-- What a mode still owes: a backslash in double quotes may yet be literal. -/
def Mode.owed : Mode → Nat
  | .doubleEscape => 1
  | _ => 0

theorem owed_modes : Mode.plain.owed = 0 ∧ Mode.escape.owed = 0 ∧ Mode.single.owed = 0 ∧
    Mode.double.owed = 0 ∧ Mode.doubleEscape.owed = 1 ∧ Mode.comment.owed = 0 :=
  ⟨rfl, rfl, rfl, rfl, rfl, rfl⟩

theorem owed_quoteMode (b : UInt8) : (quoteMode b).owed = 0 := by
  unfold quoteMode
  split
  · rfl
  · split <;> rfl

/-- **No byte makes two literal bytes.** -/
theorem count_tokens_le (mode : Mode) (w : Option (List Mark)) (t : Bytes) :
    countTokens (tokensFrom mode w t) ≤ begun w + t.length + mode.owed := by
  fun_induction tokensFrom mode w t <;>
    simp only [countTokens_append, countTokens_cons, countTokens_nil, count_flush, begun_more,
      begun_none, begun_quoteWord, owed_modes, owed_quoteMode, Mark.count, Token.count,
      List.length_cons, List.length_nil] at * <;>
    omega

/-- A byte that is not ordinary is lost. -/
theorem count_lt {b : UInt8} (hb : ordinary b = false) (w : Option (List Mark)) (t : Bytes) :
    countTokens (tokensFrom .plain w (b :: t)) < begun w + (t.length + 1) := by
  have hle := fun mode w' => count_tokens_le mode w' t
  simp only [ordinary, Bool.not_eq_false', Bool.or_eq_true] at hb
  simp only [tokensFrom]
  split
  · have := hle .plain none
    simp only [countTokens_append, count_flush, begun_none, owed_modes] at *
    omega
  · split
    · have := hle .plain none
      simp only [countTokens_append, countTokens_cons, count_flush, begun_none, owed_modes,
        Token.count] at *
      omega
    · split
      · have := hle (quoteMode b) (quoteWord b w)
        simp only [begun_quoteWord, owed_quoteMode] at *
        omega
      · split
        · have := hle .comment none
          simp only [begun_none, owed_modes] at *
          omega
        · split
          · have := hle .plain (more w (.active b))
            simp only [begun_more, Mark.count, owed_modes] at *
            omega
          · next h1 h2 h3 _ h5 =>
            simp only [Bool.or_eq_true, not_or] at h5
            simp [h1, h2, h3, h5] at hb

/-- Where every byte of `t` comes out literally, every byte is ordinary. -/
theorem ordinary_of_count {w : List Mark} {t : Bytes}
    (h : countTokens (tokensFrom .plain (some w) t) = countWord w + t.length) :
    ∀ b ∈ t, ordinary b = true := by
  induction t generalizing w with
  | nil => exact fun _ hb => absurd hb List.not_mem_nil
  | cons b t ih =>
    cases hb : ordinary b with
    | false =>
      have hlt := count_lt hb (some w) t
      rw [h] at hlt
      exact absurd hlt (Nat.lt_irrefl _)
    | true =>
      rw [tokensFrom_ordinary hb] at h
      have hrest := ih (by rw [h, countWord_append, List.length_cons]; show _ = _ + 1 + _; omega)
      intro c hc
      rcases List.mem_cons.mp hc with rfl | hc
      · exact hb
      · exact hrest c hc

/-- A leader does not begin a literal word. -/
theorem leader_of_count {b : UInt8} {t : Bytes}
    (h : countTokens (tokensFrom .plain none (b :: t)) = t.length + 1) : isLeader b = false := by
  cases hleader : isLeader b with
  | false => rfl
  | true =>
    have hcomment := count_tokens_le .comment none t
    have htilde := count_tokens_le .plain (more none (.active b)) t
    rw [begun_more] at htilde
    simp only [isLeader, Bool.or_eq_true, beq_iff_eq] at hleader
    rcases hleader with rfl | rfl
    · have hline : tokensFrom .plain none (35 :: t) = tokensFrom .comment none t := rfl
      rw [hline] at h
      simp only [begun_none, owed_modes] at hcomment
      omega
    · have hline : tokensFrom .plain none (126 :: t) = tokensFrom .plain (more none (.active 126)) t :=
        rfl
      rw [hline] at h
      simp only [begun_none, Mark.count, owed_modes] at htilde
      omega

/-- **A text is one literal word exactly where it is plain**; `t` may be cut short on its way. -/
theorem tokens_eq_word_iff {s t : Bytes} (hs : s.length ≤ t.length) :
    tokens s = [literalWord t] ↔ Plain t ∧ s = t := by
  constructor
  · intro h
    have hcount : countTokens (tokens s) = t.length := by
      rw [h]
      exact (Nat.add_zero _).trans (countWord_literal t)
    have hle := count_tokens_le .plain none s
    have hlen : s.length = t.length := by
      simp only [begun_none, owed_modes] at hle
      exact Nat.le_antisymm hs (hcount ▸ by rw [tokens]; omega)
    cases s with
    | nil => exact absurd h nofun
    | cons b s =>
      have hb : ordinary b = true := by
        cases hb : ordinary b with
        | true => rfl
        | false =>
          have hlt := count_lt hb none s
          rw [begun_none, ← tokens, hcount] at hlt
          simp only [List.length_cons] at hlen
          omega
      have hleader : isLeader b = false := leader_of_count (hcount.trans hlen.symm)
      have hline : tokens (b :: s) = tokensFrom .plain (some [.literal b]) s :=
        tokensFrom_begin hb hleader s
      have hrest : ∀ c ∈ s, ordinary c = true := by
        refine ordinary_of_count ?_ (w := [.literal b])
        rw [← hline, hcount, ← hlen, List.length_cons, Nat.add_comm]
        rfl
      have hplain : Plain (b :: s) :=
        ⟨nofun, fun c hc => (List.mem_cons.mp hc).elim (fun h => h ▸ hb) (hrest c),
          fun c hc => by cases hc; exact hleader⟩
      rw [hplain.tokens] at h
      have hmap : (b :: s).map Mark.literal = t.map Mark.literal := by
        simpa [literalWord] using h
      have heq : b :: s = t := List.map_injective_iff.mpr (fun _ _ h => Mark.literal.inj h) hmap
      exact ⟨heq ▸ hplain, heq⟩
  · rintro ⟨hplain, rfl⟩
    exact hplain.tokens

end YiHack.General
