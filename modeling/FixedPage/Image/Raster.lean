import FixedPage.Bytes
import FixedPage.Paint.Pattern

/-
  This file defines decoded pixels before they have a resolution.

  Main declarations:
    * `Pixel`
    * `Raster`
    * `Raster.image`
-/

namespace FixedPage

/- Red, green, blue and opacity of a pixel. -/
structure Pixel where
  red : UInt8
  green : UInt8
  blue : UInt8
  alpha : UInt8
deriving DecidableEq, Repr

namespace Pixel

/- A shade of gray. -/
def gray
    (level alpha : UInt8) : Pixel :=
  ⟨level, level, level, alpha⟩

/- The bytes of a pixel. -/
def bytes
    (p : Pixel) : List UInt8 :=
  [p.red, p.green, p.blue, p.alpha]

end Pixel

/- Pixels by rows. -/
structure Raster where
  width : Nat
  height : Nat
  pixels : List Pixel
deriving DecidableEq, Repr

/- The image of a raster at the default resolution. -/
def Raster.image
    {α : Type}
    [Scalar α]
    (r : Raster) : Image α :=
  ⟨r.width, r.height, r.pixels.flatMap Pixel.bytes,
    Image.defaultResolution, Image.defaultResolution⟩

end FixedPage
