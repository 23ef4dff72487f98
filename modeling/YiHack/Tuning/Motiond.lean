/-
  File:      YiHack/Tuning/Motiond.lean
  Subject:   The command line of `motiond`: `getopt_long`, the argument parsers and the checks of
             `main`, up to the settings it runs with.

  Words that are no options may stand anywhere (`getopt_long` moves them to the end); a long option
  may be shortened as long as one name is meant, and may have its argument behind `=`. `-h`, an
  unknown option and one that lacks its argument end in `usage`, like a failed check.
-/
import YiHack.Tuning.Settings

namespace YiHack.Tuning

open General

/-! ## 1. Options -/

inductive Opt
  | sensitivity
  | interval
  | logAll
  | recordEvents
  | checkKernel
  | trigger
  | release
  | confirm
  | quietMs
  | requireZero
  | settings
  | mask
  | maskVectorPixels
  | maskDifference
  deriving DecidableEq

/-- `required_argument`, or a colon. -/
def Opt.takesArgument : Opt → Bool
  | .logAll | .recordEvents | .checkKernel | .settings => false
  | _ => true

/-- `"s:i:arkh"`, less `-h`. -/
def shortOption (c : UInt8) : Option Opt :=
  if c = 115 then some .sensitivity
  else if c = 105 then some .interval
  else if c = 97 then some .logAll
  else if c = 114 then some .recordEvents
  else if c = 107 then some .checkKernel
  else none

def longOptions : List (Bytes × Opt) :=
  [(ascii "trigger", .trigger), (ascii "release", .release), (ascii "confirm", .confirm),
    (ascii "quiet-ms", .quietMs), (ascii "require-zero", .requireZero),
    (ascii "settings", .settings), (ascii "mask", .mask),
    (ascii "mask-vector-pixels", .maskVectorPixels), (ascii "mask-difference", .maskDifference)]

/-- The option meant by a name. -/
def longOption (name : Bytes) : Option Opt :=
  match longOptions.find? fun o => o.1 == name with
  | some o => some o.2
  | none =>
    match longOptions.filter fun o => name.isPrefixOf o.1 with
    | [o] => some o.2
    | _ => none

/-- What a word of the command line is. The last option of a word may have its argument in it, or
    wait for the next word. -/
inductive Word
  | operand
  | stop
  | refused
  | options (flags : List Opt) (last : Option (Opt × Option Bytes))
  deriving DecidableEq

def Word.prepend (o : Opt) : Word → Word
  | .options flags last => .options (o :: flags) last
  | w => w

/-- The letters behind a `-`. -/
def cluster : Bytes → Word
  | [] => .options [] none
  | c :: cs =>
    match shortOption c with
    | none => .refused
    | some o =>
      if o.takesArgument then .options [] (some (o, if cs = [] then none else some cs))
      else (cluster cs).prepend o

def hyphen : UInt8 := 45

/-- The name behind a `--`, and its argument. -/
def long (name : Bytes) (argument : Option Bytes) : Word :=
  match longOption name with
  | none => .refused
  | some o =>
    if o.takesArgument then .options [] (some (o, argument))
    else if argument.isSome then .refused
    else .options [o] none

def classify : Bytes → Word
  | b :: c :: rest =>
    if b ≠ hyphen then .operand
    else if c ≠ hyphen then cluster (c :: rest)
    else if rest = [] then .stop
    else
      match cutKey rest with
      | none => long rest none
      | some (name, argument) => long name (some argument)
  | _ => .operand

/-! ## 2. The loop -/

/-- `parse_int_arg`. -/
def parseIntArg (t : Bytes) : Option Nat :=
  if t = [] ∨ 5 < t.length then none
  else if t.all isDigit then some (decimal t)
  else none

/-- The loop of `parse_ratio_arg`: digits in front of the dot, digits behind it, the dot. -/
def scanRatio : Bytes → Nat × Nat × Bool → Option (Nat × Nat × Bool)
  | [], st => some st
  | b :: bs, (whole, fraction, seen) =>
    if b = dot ∧ !seen then scanRatio bs (whole, fraction, true)
    else if !isDigit b then none
    else if seen then scanRatio bs (whole, fraction + 1, seen)
    else scanRatio bs (whole + 1, fraction, seen)

/-- `parse_ratio_arg`. -/
def parseRatioArg (t : Bytes) : Option Nat :=
  match scanRatio t (0, 0, false) with
  | none => none
  | some (whole, fraction, seen) =>
    if whole < 1 ∨ 3 < whole ∨ 2 < fraction ∨ (seen ∧ fraction = 0) then none
    else some (hundredths t)

/-- `struct sens_cfg`, the ratios in hundredths. -/
structure SensCfg where
  trigger : Nat
  release : Nat
  confirmSamples : Nat
  quietMs : Nat
  requireZero : Nat
  levelBoost : Nat
  deriving DecidableEq

def cfgs : List SensCfg :=
  [⟨1500, 150, 5, 2000, 1, 1⟩, ⟨1000, 100, 5, 2000, 1, 1⟩, ⟨700, 70, 4, 2000, 1, 1⟩,
    ⟨500, 50, 4, 2000, 1, 1⟩, ⟨300, 30, 3, 2000, 1, 1⟩, ⟨200, 20, 3, 2000, 1, 1⟩,
    ⟨120, 15, 3, 2000, 1, 1⟩, ⟨80, 15, 2, 2000, 1, 1⟩, ⟨50, 15, 2, 2000, 1, 1⟩,
    ⟨25, 15, 2, 2000, 1, 1⟩]

/-- The row of a sensitivity. -/
def preset (sensitivity : Nat) : SensCfg := cfgs.getD (sensitivity - 1) ⟨0, 0, 0, 0, 0, 0⟩

/-- The variables of `main`; a custom field that was given is there. -/
structure Parsed where
  valid : Bool
  operands : Nat
  sensitivity : Nat
  interval : Nat
  trigger : Option Nat
  release : Option Nat
  confirm : Option Nat
  quietMs : Option Nat
  requireZero : Option Nat
  cells : Option Bytes
  vectorPixels : Nat
  difference : Nat
  logAll : Bool
  recordEvents : Bool
  checkKernel : Bool
  showSettings : Bool
  deriving DecidableEq

def Parsed.start : Parsed where
  valid := true
  operands := 0
  sensitivity := 5
  interval := 100
  trigger := none
  release := none
  confirm := none
  quietMs := none
  requireZero := none
  cells := none
  vectorPixels := 1
  difference := 12
  logAll := false
  recordEvents := false
  checkKernel := false
  showSettings := false

/-- A parsed value, or what the variable held. -/
def keep (old : Nat) (parsed : Option Nat) : Nat := parsed.getD old

/-- A custom field is given. -/
def given (old : Option Nat) (parsed : Option Nat) : Option Nat := some (keep (old.getD 0) parsed)

/-- The `switch`, for an option with an argument. -/
def Parsed.take (p : Parsed) (o : Opt) (a : Bytes) : Parsed :=
  match o with
  | .sensitivity =>
    { p with
      valid := p.valid && (parseIntArg a).isSome
      sensitivity := keep p.sensitivity (parseIntArg a) }
  | .interval =>
    { p with
      valid := p.valid && (parseIntArg a).isSome
      interval := keep p.interval (parseIntArg a) }
  | .trigger =>
    { p with
      valid := p.valid && (parseRatioArg a).isSome
      trigger := given p.trigger (parseRatioArg a) }
  | .release =>
    { p with
      valid := p.valid && (parseRatioArg a).isSome
      release := given p.release (parseRatioArg a) }
  | .confirm =>
    { p with
      valid := p.valid && (parseIntArg a).isSome
      confirm := given p.confirm (parseIntArg a) }
  | .quietMs =>
    { p with
      valid := p.valid && (parseIntArg a).isSome
      quietMs := given p.quietMs (parseIntArg a) }
  | .requireZero =>
    { p with
      valid := p.valid && (parseIntArg a).isSome
      requireZero := given p.requireZero (parseIntArg a) }
  | .mask =>
    { p with
      valid := p.valid && matchCells a
      cells := if p.valid && matchCells a then some a else p.cells }
  | .maskVectorPixels =>
    { p with
      valid := p.valid && (parseIntArg a).isSome
      vectorPixels := keep p.vectorPixels (parseIntArg a) }
  | .maskDifference =>
    { p with
      valid := p.valid && (parseIntArg a).isSome
      difference := keep p.difference (parseIntArg a) }
  | .logAll | .recordEvents | .checkKernel | .settings => p

/-- The `switch`, for an option without an argument. -/
def Parsed.flag (p : Parsed) : Opt → Parsed
  | .logAll => { p with logAll := true }
  | .recordEvents => { p with recordEvents := true }
  | .checkKernel => { p with checkKernel := true }
  | .settings => { p with showSettings := true }
  | _ => p

/-- The `while` loop: nothing where it ends in `usage`. -/
def scan : Parsed → List Bytes → Option Parsed
  | p, [] => some p
  | p, w :: ws =>
    match classify w with
    | .operand => scan { p with operands := p.operands + 1 } ws
    | .stop => some { p with operands := p.operands + ws.length }
    | .refused => none
    | .options flags none => scan (flags.foldl Parsed.flag p) ws
    | .options flags (some (o, some a)) => scan ((flags.foldl Parsed.flag p).take o a) ws
    | .options flags (some (o, none)) =>
      match ws with
      | [] => none
      | a :: ws => scan ((flags.foldl Parsed.flag p).take o a) ws

/-! ## 3. The checks -/

/-- `motion_config_valid`. -/
def motionConfigValid (c : SensCfg) (interval : Nat) : Bool :=
  decide (1 ≤ c.trigger ∧ c.trigger ≤ 10000 ∧ c.release < c.trigger ∧ 1 ≤ c.confirmSamples ∧
    c.confirmSamples ≤ 50 ∧ 100 ≤ c.quietMs ∧ c.quietMs ≤ 30000 ∧
    (c.requireZero = 0 ∨ c.requireZero = 1) ∧ 100 ≤ interval ∧ interval ≤ 2000)

/-- `config`: the row of the sensitivity, and what was given instead. -/
def Parsed.config (p : Parsed) : SensCfg :=
  let row := preset p.sensitivity
  let custom := p.trigger.isSome || p.release.isSome || p.confirm.isSome || p.quietMs.isSome ||
    p.requireZero.isSome
  { trigger := p.trigger.getD row.trigger
    release := p.release.getD row.release
    confirmSamples := p.confirm.getD row.confirmSamples
    quietMs := p.quietMs.getD row.quietMs
    requireZero := p.requireZero.getD row.requireZero
    levelBoost := if custom then 0 else row.levelBoost }

/-- The check behind the loop. -/
def Parsed.sound (p : Parsed) : Bool :=
  p.valid && decide (p.operands = 0 ∧ 1 ≤ p.sensitivity ∧ p.sensitivity ≤ 10 ∧ 1 ≤ p.vectorPixels ∧
    p.vectorPixels ≤ 16 ∧ p.difference ≤ 255)

/-- `main` up to `settings_json`: nothing where it ends in `usage`. -/
def motiond (args : List Bytes) : Option Parsed :=
  match scan .start args with
  | none => none
  | some p => if p.sound && motionConfigValid p.config p.interval then some p else none

structure Mask where
  cells : Bytes
  vectorPixels : Nat
  difference : Nat
  deriving DecidableEq

/-- The values `motiond` runs with. -/
structure Effective where
  sensitivity : Nat
  trigger : Nat
  release : Nat
  confirmSamples : Nat
  quietMs : Nat
  requireZero : Nat
  interval : Nat
  mask : Option Mask
  deriving DecidableEq

def Parsed.effective (p : Parsed) : Effective where
  sensitivity := p.sensitivity
  trigger := p.config.trigger
  release := p.config.release
  confirmSamples := p.config.confirmSamples
  quietMs := p.config.quietMs
  requireZero := p.config.requireZero
  interval := p.interval
  mask := p.cells.map fun cells => ⟨cells, p.vectorPixels, p.difference⟩

end YiHack.Tuning
