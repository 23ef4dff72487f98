/-
  File:      YiHack/Tuning/Settings.lean
  Subject:   `motion_settings.sh` and `encoder_arguments` of `motion_service.sh`: the motion settings
             as `jq` reads them from `camera.conf`, and the command line made of them.

  `motion_read_config` merges the lines into the defaults, the last line of a key winning.
  `encoder_arguments` has the merged document checked, but takes the sensitivity and the custom
  fields from the file again, by `grep -w` and without defaults.

  A ratio of at most two decimals is its number of hundredths. Lines whose key is none of the motion
  keys are in the document too; nothing here looks at them.
-/
import YiHack.General.Text
import Mathlib

namespace YiHack.Tuning

open General

/-! ## 1. The document -/

inductive Key
  | detection
  | saveVideo
  | sensitivity
  | custom
  | startThreshold
  | stopThreshold
  | startSamples
  | stopDelay
  | pollInterval
  | stopRequireZero
  | maskEnabled
  | maskCells
  | maskVectorPixels
  | maskDifference
  deriving DecidableEq

def Key.name : Key → Bytes
  | .detection => ascii "MOTION_DETECTION"
  | .saveVideo => ascii "SAVE_VIDEO_ON_MOTION"
  | .sensitivity => ascii "MOTION_SENSITIVITY"
  | .custom => ascii "MOTION_CUSTOM"
  | .startThreshold => ascii "MOTION_START_THRESHOLD"
  | .stopThreshold => ascii "MOTION_STOP_THRESHOLD"
  | .startSamples => ascii "MOTION_START_SAMPLES"
  | .stopDelay => ascii "MOTION_STOP_DELAY"
  | .pollInterval => ascii "MOTION_POLL_INTERVAL"
  | .stopRequireZero => ascii "MOTION_STOP_REQUIRE_ZERO"
  | .maskEnabled => ascii "MOTION_MASK_ENABLED"
  | .maskCells => ascii "MOTION_MASK_CELLS"
  | .maskVectorPixels => ascii "MOTION_MASK_VECTOR_PIXELS"
  | .maskDifference => ascii "MOTION_MASK_DIFFERENCE"

/-- `MOTION_MASK_CELLS`. -/
def MASK_CELLS : Nat := 240

def Key.default : Key → Bytes
  | .detection => ascii "no"
  | .saveVideo => ascii "yes"
  | .sensitivity => ascii "5"
  | .custom => ascii "no"
  | .startThreshold => ascii "3.00"
  | .stopThreshold => ascii "0.30"
  | .startSamples => ascii "3"
  | .stopDelay => ascii "2000"
  | .pollInterval => ascii "100"
  | .stopRequireZero => ascii "yes"
  | .maskEnabled => ascii "no"
  | .maskCells => List.replicate MASK_CELLS 48
  | .maskVectorPixels => ascii "1"
  | .maskDifference => ascii "12"

/-- The values of the motion keys. -/
abbrev Document := Key → Bytes

/-- `. + {($line[:$n]):$line[$n+1:]}`. -/
def Document.merge (doc : Document) (line : Bytes) : Document :=
  match cutKey line with
  | none => doc
  | some (key, value) => fun k => if k.name = key then value else doc k

/-- `motion_read_config`. -/
def motionReadConfig (conf : Bytes) : Document := (lines conf).foldl Document.merge Key.default

/-! ## 2. The check -/

def dot : UInt8 := 46

/-- The hundredths of a ratio. -/
def hundredths (t : Bytes) : Nat :=
  decimal (t.takeWhile (· != dot)) * 100 +
    decimal (((t.dropWhile (· != dot)).tail ++ [48, 48]).take 2)

/-- `^[0-9]{1,n}$`. -/
def matchDigits (n : Nat) (t : Bytes) : Bool := isDecimal t && decide (t.length ≤ n)

/-- `^[0-9]{1,3}(\.[0-9]{1,2})?$`. -/
def matchRatio (t : Bytes) : Bool :=
  matchDigits 3 (t.takeWhile isDigit) &&
    match t.dropWhile isDigit with
    | [] => true
    | b :: fraction => b == dot && matchDigits 2 fraction

/-- The texts `1` to `10`, of `^([1-9]|10)$` and of the `case` in `motion_sensitivity`. -/
def sensitivities : List Bytes :=
  [ascii "1", ascii "2", ascii "3", ascii "4", ascii "5", ascii "6", ascii "7", ascii "8", ascii "9",
    ascii "10"]

instance (t : Bytes) : Decidable (t ∈ sensitivities) :=
  decidable_of_iff (sensitivities.contains t = true) List.contains_iff_mem

def yesOrNo (t : Bytes) : Bool := t == ascii "yes" || t == ascii "no"

/-- `^[01]{240}$`, and `motion_mask_valid`. -/
def matchCells (t : Bytes) : Bool :=
  decide (t.length = MASK_CELLS) && t.all fun b => b == 48 || b == 49

/-- `number($key; $lo; $hi; $pattern)` for whole numbers. -/
def whole (n lo hi : Nat) (t : Bytes) : Bool :=
  matchDigits n t && decide (lo ≤ decimal t) && decide (decimal t ≤ hi)

/-- The same for ratios, the bounds in hundredths. -/
def ratio (lo hi : Nat) (t : Bytes) : Bool :=
  matchRatio t && decide (lo ≤ hundredths t) && decide (hundredths t ≤ hi)

/-- `motion_validate_json`. -/
def motionValidateJson (doc : Document) : Bool :=
  yesOrNo (doc .detection) && yesOrNo (doc .saveVideo) && yesOrNo (doc .custom) &&
  yesOrNo (doc .stopRequireZero) && yesOrNo (doc .maskEnabled) && matchCells (doc .maskCells) &&
  whole 2 1 16 (doc .maskVectorPixels) && whole 3 0 255 (doc .maskDifference) &&
  decide (doc .sensitivity ∈ sensitivities) && ratio 1 10000 (doc .startThreshold) &&
  ratio 0 10000 (doc .stopThreshold) && whole 5 1 50 (doc .startSamples) &&
  whole 5 100 30000 (doc .stopDelay) && whole 5 100 2000 (doc .pollInterval) &&
  decide (hundredths (doc .stopThreshold) < hundredths (doc .startThreshold))

/-! ## 3. The command line -/

/-- `$(get_camera_config KEY)`. -/
def getCameraConfig (conf : Bytes) (k : Key) : Bytes :=
  capture (print (((lines conf).filter (hasWord k.name)).map cutValue))

/-- `motion_sensitivity`. -/
def motionSensitivity (conf : Bytes) : Bytes :=
  if getCameraConfig conf .sensitivity ∈ sensitivities then getCameraConfig conf .sensitivity
  else ascii "5"

/-- `ZERO`. -/
def zero (conf : Bytes) : Bytes :=
  if getCameraConfig conf .stopRequireZero = ascii "no" then ascii "0" else ascii "1"

/-- The arguments behind the check, up to the mask's. -/
def customArguments (conf : Bytes) : List Bytes :=
  if getCameraConfig conf .custom = ascii "yes" then
    [ascii "-s", motionSensitivity conf, ascii "-i", getCameraConfig conf .pollInterval,
      ascii "--trigger", getCameraConfig conf .startThreshold,
      ascii "--release", getCameraConfig conf .stopThreshold,
      ascii "--confirm", getCameraConfig conf .startSamples,
      ascii "--quiet-ms", getCameraConfig conf .stopDelay, ascii "--require-zero", zero conf]
  else [ascii "-s", motionSensitivity conf, ascii "-i", ascii "100"]

/-- The mask's arguments, from the document. -/
def maskArguments (doc : Document) : List Bytes :=
  if doc .maskEnabled = ascii "yes" then
    [ascii "--mask", doc .maskCells, ascii "--mask-vector-pixels", doc .maskVectorPixels,
      ascii "--mask-difference", doc .maskDifference]
  else []

/-- `encoder_arguments`: nothing where it fails. `y623` tells the camera's model. -/
def encoderArguments (y623 : Bool) (conf : Bytes) : Option (List Bytes) :=
  let doc := motionReadConfig conf
  if !motionValidateJson doc then none
  else if doc .maskEnabled = ascii "yes" ∧ !y623 then none
  else some (customArguments conf ++ maskArguments doc)

/-- `$ARGS`, with `ARGS=$(encoder_arguments)`. -/
def encoderWords (args : List Bytes) : List Bytes := words (capture (print args))

end YiHack.Tuning
