import RaspikeArt.Model.Devices

/-!
# The color sensor: the getters of `raspike_color.c`

A value of a struct type is shown as its bytes.
-/

namespace RaspikeArt
open Threads

def rpCmdIdColRgb : Byte := makeCmd rpCmdTypeColor 0x1
def rpCmdIdColCol : Byte := makeCmd rpCmdTypeColor 0x2
def rpCmdIdColColSurOff : Byte := makeCmd rpCmdTypeColor 0x3
def rpCmdIdColHsv : Byte := makeCmd rpCmdTypeColor 0x4
def rpCmdIdColHsvSurOff : Byte := makeCmd rpCmdTypeColor 0x5
def rpCmdIdColRef : Byte := makeCmd rpCmdTypeColor 0x6
def rpCmdIdColAmb : Byte := makeCmd rpCmdTypeColor 0x7

/-- `sizeof(pup_color_rgb_t)`, `sizeof(pup_color_hsv_t)` -/
def pupColorRgbSize : Nat := 6
def pupColorHsvSize : Nat := 4

def pupColorSensorColor (pdev : Option Port) (surface : Bool) : P (List Byte) :=
  delayedSensorCommon pdev (if surface then rpCmdIdColCol else rpCmdIdColColSurOff) pupColorHsvSize

def pupColorSensorRgb (pdev : Option Port) : P (List Byte) :=
  delayedSensorCommon pdev rpCmdIdColRgb pupColorRgbSize

def pupColorSensorHsv (pdev : Option Port) (surface : Bool) : P (List Byte) :=
  delayedSensorCommon pdev (if surface then rpCmdIdColHsv else rpCmdIdColHsvSurOff) pupColorHsvSize

def pupColorSensorReflection (pdev : Option Port) : P (List Byte) :=
  delayedSensorCommon pdev rpCmdIdColRef 4

def pupColorSensorAmbient (pdev : Option Port) : P (List Byte) :=
  delayedSensorCommon pdev rpCmdIdColAmb 4

/-- the modes of the sensor, one for each form of a getter -/
inductive ColorMode where
  | color (surface : Bool)
  | rgb
  | hsv (surface : Bool)
  | reflection
  | ambient
  deriving DecidableEq

namespace ColorMode

def cmd : ColorMode → Byte
  | color surface => if surface then rpCmdIdColCol else rpCmdIdColColSurOff
  | rgb => rpCmdIdColRgb
  | hsv surface => if surface then rpCmdIdColHsv else rpCmdIdColHsvSurOff
  | reflection => rpCmdIdColRef
  | ambient => rpCmdIdColAmb

def size : ColorMode → Nat
  | color _ | hsv _ => pupColorHsvSize
  | rgb => pupColorRgbSize
  | reflection | ambient => 4

def get (pdev : Option Port) : ColorMode → P (List Byte)
  | color surface => pupColorSensorColor pdev surface
  | rgb => pupColorSensorRgb pdev
  | hsv surface => pupColorSensorHsv pdev surface
  | reflection => pupColorSensorReflection pdev
  | ambient => pupColorSensorAmbient pdev

theorem get_eq (pdev : Option Port) (mode : ColorMode) :
    mode.get pdev = delayedSensorCommon pdev mode.cmd mode.size := by
  cases mode <;> rfl

theorem size_le (mode : ColorMode) : mode.size ≤ 6 := by
  cases mode <;> simp [size, pupColorHsvSize, pupColorRgbSize]

end ColorMode

end RaspikeArt
