import FixedPage.Image.Raster

/-
  This file takes the components of images in the JPEG format to
  pixels.

  Main declarations:
    * `Jpeg.ColorModel`
    * `Jpeg.ColorModel.ofNumbers?`
    * `Jpeg.ColorModel.pixel`
-/

namespace FixedPage.Jpeg

/-
  What the components of an image stand for. `lightness` is a
  light and its difference to blue and red; `inks` are what the
  inks and black leave of it, and `lightnessInks` is a mix.
-/
inductive ColorModel where
  | gray
  | rgb
  | lightness
  | inks
  | lightnessInks
deriving DecidableEq, Repr

/- Brings a number to the range of a byte. -/
def clampLevel
    (n : Int) : Nat :=
  min n.toNat 255

/-
  Red, green and blue of a lightness and two differences, with
  factors in steps of `1 / 16384`. Halves are rounded down.
-/
def lightnessLevels
    (y cb cr : Nat) : Nat × Nat × Nat :=
  let blue : Int := (cb : Int) - 128
  let red : Int := (cr : Int) - 128
  let base : Int := (y : Int) * 16384 + 8191
  (clampLevel ((base + red * 22970) / 16384),
    clampLevel ((base - red * 11700 - blue * 5638) / 16384),
    clampLevel ((base + blue * 29032) / 16384))

/- The product of two parts of 255, rounded. -/
def multiply
    (a b : Nat) : Nat :=
  let n := a * b + 128
  (n + n / 256) / 256

namespace ColorModel

/-
  The model of components with some names, given the number that
  the file states of it.
-/
def ofNumbers?
    (colors? : Option Nat)
    (names : List Nat) : Option ColorModel :=
  match names.length, colors? with
  | 1, _ => some .gray
  | 3, some 0 => some .rgb
  | 3, some 2 => none
  | 3, _ => some (if names == [0x52, 0x47, 0x42] then .rgb else .lightness)
  | 4, some 2 => some .lightnessInks
  | 4, _ => some .inks
  | _, _ => none

/- An opaque pixel. -/
def opaquePixel
    (red green blue : Nat) : Pixel :=
  ⟨UInt8.ofNat red, UInt8.ofNat green, UInt8.ofNat blue, 255⟩

/- The pixel of some components. -/
def pixel
    (model : ColorModel)
    (samples : List Nat) : Pixel :=
  match model, samples with
  | .gray, [g] => opaquePixel g g g
  | .rgb, [r, g, b] => opaquePixel r g b
  | .lightness, [y, cb, cr] =>
      let (r, g, b) := lightnessLevels y cb cr
      opaquePixel r g b
  | .inks, [c, m, y, k] =>
      opaquePixel (multiply c k) (multiply m k) (multiply y k)
  | .lightnessInks, [y, cb, cr, k] =>
      let (r, g, b) := lightnessLevels y cb cr
      opaquePixel (multiply (255 - r) k) (multiply (255 - g) k)
        (multiply (255 - b) k)
  | _, _ => ⟨0, 0, 0, 255⟩

end ColorModel

end FixedPage.Jpeg
