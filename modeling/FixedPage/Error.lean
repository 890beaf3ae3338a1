import FixedPage.Glyph.Indices
import FixedPage.Markup.Event
import FixedPage.Markup.Fault
import FixedPage.Path.Data

/-
  This file lists why a page cannot be rendered and how each
  reason is worded.

  Main declarations:
    * `Error`
    * `Error.message`
-/

namespace FixedPage

/- Why the operating system refused to read something. -/
inductive SystemFault where
  | notFound
  | notADirectory
  | isADirectory
  | other
      (text : String)
deriving DecidableEq, Repr

/- Wording of a system fault. -/
def SystemFault.message : SystemFault → String
| .notFound => "No such file or directory (os error 2)"
| .notADirectory => "Not a directory (os error 20)"
| .isADirectory => "Is a directory (os error 21)"
| .other text => text

/- Why a page cannot be rendered. -/
inductive Error where
  | unknownElement
      (place : Location)
      (element : String)
  | unknownAttribute
      (place : Location)
      (element name : String)
  | missingAttribute
      (place : Location)
      (element name : String)
  | invalidContent
      (place : Location)
      (element name content : String)
  | markup
      (place : Location)
      (fault : Markup.Fault)
  | pathData
      (fault : PathData.Fault)
  | glyphIndices
      (fault : Indices.Fault)
  | emptyGlyphRun
  | notFound
      (name : String)
  | nestingTooDeep
      (limit : Nat)
  | font
      (text : String)
  | image
      (text : String)
  | system
      (fault : SystemFault)
deriving DecidableEq, Repr

namespace Error

/- The reason why a glyph run cannot be laid out. -/
def ofGlyphRun : GlyphRunFault → Error
| .indices fault => .glyphIndices fault
| .nothingToDraw => .emptyGlyphRun

/- Wording of an error. -/
def message : Error → String
| .unknownElement place element =>
    place.text ++ " invalid element '" ++ element ++ "'"
| .unknownAttribute place element name =>
    place.text ++ " unknown attribute '" ++ name
      ++ "' of element '" ++ element ++ "'"
| .missingAttribute place element name =>
    place.text ++ " missing attribute '" ++ name
      ++ "' of element '" ++ element ++ "'"
| .invalidContent place element name content =>
    place.text ++ " invalid content in attribute '" ++ name
      ++ "' of element '" ++ element ++ "': " ++ content
| .markup place fault =>
    place.text ++ " malformed markup: " ++ fault.message
| .pathData fault =>
    "error parsing abbreviated path: " ++ fault.cause.message
      ++ " at offset " ++ toString fault.offset
| .glyphIndices fault =>
    "error parsing glyph indices: " ++ fault.cause.message
      ++ " at offset " ++ toString fault.offset
| .emptyGlyphRun =>
    "error parsing glyphs: both UnicodeString and Indices are empty"
| .notFound name => "source " ++ name ++ " not found in archive"
| .nestingTooDeep limit =>
    "visual brushes nested deeper than " ++ toString limit
      ++ " levels"
| .font text => "font error: " ++ text
| .image text => "image error: " ++ text
| .system fault => "io error: " ++ fault.message

end Error

end FixedPage
