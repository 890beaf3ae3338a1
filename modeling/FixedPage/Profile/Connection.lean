import FixedPage.Profile.Stage

/-
  This file takes colors that do not depend on devices to a
  display. They are given in one of two spaces: by components
  that are linear in light, or by lightness and two differences.

  Main declarations:
    * `Connection`
    * `Connection.toLinear`
    * `Connection.black`
    * `Connection.lift`
    * `Connection.display`
-/

namespace FixedPage

/- A space in which profiles give colors. -/
inductive Connection where
  | linear
  | lightness
deriving DecidableEq, Repr

namespace Connection

------------------------------------------------------------
-- Spaces
------------------------------------------------------------

/- The components of paper white. -/
def white : List Float :=
  [0.9642, 1.0, 0.8249]

/- The component that is given by the amount one. -/
def largest : Float :=
  65535.0 / 32768.0

/- Undoes the curve of lightness. -/
def expand
    (t : Float) : Float :=
  if t ≤ 24.0 / 116.0 then 108.0 / 841.0 * (t - 16.0 / 116.0)
  else t * t * t

/- The curve of lightness. -/
def compress
    (t : Float) : Float :=
  let limit := 24.0 / 116.0
  if t ≤ limit * limit * limit then 841.0 / 108.0 * t + 16.0 / 116.0
  else t.cbrt

/- Linear components of a lightness and two differences. -/
def ofLightness
    (l a b : Float) : List Float :=
  let y := (l + 16.0) / 116.0
  let relative := [y + 0.002 * a, y, y - 0.005 * b]
  List.zipWith (fun t w => expand t * w) relative white

/- Amounts of the linear components of a color. -/
def toLinear
    (space : Connection)
    (amounts : List Float) : List Float :=
  match space, amounts with
  | .lightness, [l, a, b] =>
      (ofLightness (l * 100.0) (a * 255.0 - 128.0)
        (b * 255.0 - 128.0)).map fun x => single (x / largest)
  | _, _ => amounts

/- Takes an older scale of lightness to the newer one. -/
def olderScale : Stage :=
  let factor := 65535.0 / 65280.0
  .scale factor factor factor

------------------------------------------------------------
-- Black
------------------------------------------------------------

/- Lightness of a color. -/
def lightnessOf
    (space : Connection)
    (amounts : List Float) : Float :=
  match space, amounts with
  | .lightness, l :: _ => l * 100.0
  | .linear, [_, y, _] => 116.0 * compress (y * largest) - 16.0
  | _, _ => 0.0

/- Brings a lightness to the steps that words of it have. -/
def stepLightness
    (l : Float) : Float :=
  let steps := 652.80
  Nat.toFloat (UnitWord.ofFloat (l * steps / 65535.0)) / steps

/-
  Linear components of the gray that is as light as all inks
  together. If that is too light, black is taken to be dark.
-/
def black
    (space : Connection)
    (allInks : List Float) : List Float :=
  let l := stepLightness (space.lightnessOf allInks)
  ofLightness (if 50.0 < l then 0.0 else l) 0.0 0.0

/- The black that newer profiles aim at. -/
def newerBlack : List Float :=
  [0.00336, 0.0034731, 0.00287]

/- Takes a black to darkness and keeps white. -/
def lift
    (black : List Float) : Stage :=
  let pairs := white.zip black
  let factors := pairs.map fun (w, b) => w / (w - b)
  let offset := pairs.map fun (w, b) => -w * b / (w - b) / largest
  match factors with
  | [x, y, z] => .linear [[x, 0, 0], [0, y, 0], [0, 0, z]] offset
  | _ => .scale 1 1 1

------------------------------------------------------------
-- Display
------------------------------------------------------------

/- Light of a display that shows linear components. -/
def displayLight : Stage :=
  let row := fun (x y z : Float) =>
    [x * largest, y * largest, z * largest]
  .linear
    [row 3.1341863642368204 (-1.6172089589982754)
        (-0.49069406400638405),
      row (-0.9787485041906939) 1.9161300967735855
        0.03343339915999552,
      row 0.07196392780224677 (-0.22899387345320313)
        1.4057537328964438]
    [0, 0, 0]

/- The display value that gives some light. -/
def displayValue
    (light : Float) : Float :=
  let start := ((0.04045 + 0.055) / 1.055 : Float).pow 2.4
  if start ≤ light then 1.055 * light.pow (1.0 / 2.4) - 0.055
  else 12.92 * light

/- Display values of linear components. -/
def display
    (amounts : List Float) : List Float :=
  (displayLight.apply amounts).map displayValue

end Connection

end FixedPage
