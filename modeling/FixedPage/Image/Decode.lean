import FixedPage.Error
import FixedPage.Image.Jpeg
import FixedPage.Image.Png
import FixedPage.Image.Tiff

/-
  This file loads the images of a package.

  Main declarations:
    * `Raster.decode?`
    * `Image.load`
-/

namespace FixedPage

/- Decodes an image of any known format. -/
def Raster.decode?
    (file : Bytes) : Option Raster :=
  Png.decode? file <|> Jpeg.decode? file <|> Tiff.decode? file

/- The image of a part. -/
def Image.load
    {α : Type}
    [Scalar α]
    (part? : String → Option (List UInt8))
    (name : String) : Except Error (Image α) :=
  match part? name with
  | none => .error (.notFound name)
  | some file =>
      match Raster.decode? file.toArray with
      | some raster => .ok raster.image
      | none => .error (.image (name ++ ": not an image"))

/- A loader for pages that are drawn without images. -/
def Image.refuse
    {α : Type}
    (name : String) : Except Error (Image α) :=
  .error (.image ("no image decoder for " ++ name))

end FixedPage
