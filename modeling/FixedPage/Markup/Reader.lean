import FixedPage.Error
import FixedPage.Markup.Tag
import FixedPage.Text.Utf16
import FixedPage.Text.Utf8

/-
  This file reads the events of a part. Its bytes are first
  brought to UTF-8 without a byte order mark; a part in UTF-16 is
  recognised by its mark. Each event carries the place of the
  first byte that is not blank at or after the end of the token
  before it, or of that end when only blanks follow. A fault is
  the last thing that is read.

  Main declarations:
    * `Markup.Encoding.normalize?`
    * `Markup.Cursor`
    * `Markup.Item`
    * `Markup.readBytes`
    * `Markup.readText`
-/

namespace FixedPage.Markup

------------------------------------------------------------
-- Encodings
------------------------------------------------------------

namespace Encoding

/- Converts UTF-16 to UTF-8, unless a surrogate stands alone. -/
def ofUtf16?
    (order : Text.Utf16.Order)
    (bytes : List UInt8) : Option (List UInt8) :=
  (Text.Utf16.decode? (Text.Utf16.units order bytes)).map
    Text.Utf8.encode

/- Drops a leading byte order mark of UTF-8. -/
def dropMark : List UInt8 → List UInt8
| 0xEF :: 0xBB :: 0xBF :: rest => rest
| bytes => bytes

/- The bytes of a part in UTF-8. -/
def normalize? : List UInt8 → Option (List UInt8)
| 0xEF :: 0xBB :: 0xBF :: rest => some rest
| 0xFF :: 0xFE :: rest => ofUtf16? .littleEndian rest
| 0xFE :: 0xFF :: rest => ofUtf16? .bigEndian rest
| bytes => some bytes

end Encoding

------------------------------------------------------------
-- Places
------------------------------------------------------------

/- Bytes that are skipped to find where an event starts. -/
def isBlankByte
    (b : UInt8) : Bool :=
  b == 0x20 || b == 0x09 || b == 0x0A || b == 0x0C || b == 0x0D

/- Number of blank bytes before the first other byte, if any. -/
def leadingBlanks
    (bytes : List UInt8) : Nat :=
  let blanks := (bytes.takeWhile isBlankByte).length
  if blanks == bytes.length then 0 else blanks

/-
  A line and column in a part, and the bytes from there on. It
  only ever moves forward.
-/
structure Cursor where
  offset : Nat
  line : Nat
  column : Nat
  rest : List UInt8

namespace Cursor

/- The cursor at the start of a part. -/
def start
    (bytes : List UInt8) : Cursor :=
  ⟨0, 1, 1, bytes⟩

/- Moves over one byte; only the first byte of a character counts. -/
def pass
    (b : UInt8)
    (rest : List UInt8)
    (c : Cursor) : Cursor :=
  if b == 0x0A then ⟨c.offset + 1, c.line + 1, 1, rest⟩
  else if 0x80 ≤ b && b ≤ 0xBF then
    ⟨c.offset + 1, c.line, c.column, rest⟩
  else ⟨c.offset + 1, c.line, c.column + 1, rest⟩

/- Moves over at most `n` bytes. -/
def forward : Nat → Cursor → Cursor
| 0, c => c
| n + 1, c =>
    match c.rest with
    | [] => c
    | b :: rest => forward n (c.pass b rest)

/- Moves to an offset, unless it lies behind. -/
def moveTo
    (offset : Nat)
    (c : Cursor) : Cursor :=
  forward (offset - c.offset) c

/- The place of the cursor in a part. -/
def location
    (source : String)
    (c : Cursor) : Location :=
  ⟨source, c.line, c.column⟩

end Cursor

------------------------------------------------------------
-- Events
------------------------------------------------------------

/- An event with its place, or what ended the events. -/
abbrev Item : Type :=
  Except Error (Location × Event)

/-
  Turns a token into events, given the names of the elements
  still open, the innermost first. The result holds the names
  open afterwards. A tag that is closed at once gives two
  events; a skipped token gives none.
-/
def interpret
    (openNames : List (List UInt8)) :
    Token → Except Fault (List Event × List (List UInt8))
| .startTag content => do
    let event ← Tag.read content
    pure ([event], Tag.nameBytes content :: openNames)
| .emptyTag content => do
    let event ← Tag.read content
    let name ← decodeText (Tag.nameBytes content)
    pure ([event, .endTag name], openNames)
| .endTag name =>
    match openNames with
    | [] => .error (.unmatchedEnd ((decodeText name).toOption.getD ""))
    | expected :: outer =>
        if name == expected then do
          let name ← decodeText name
          pure ([.endTag name], outer)
        else
          .error
            (.mismatchedEnd
              ((decodeText expected).toOption.getD "")
              ((decodeText name).toOption.getD ""))
| .text content => do
    let content ← decodeText content
    pure ([.text content], openNames)
| .reference name => do
    let name ← decodeText name
    match unescape ('&' :: name.toList ++ [';']) with
    | .ok content => pure ([.text (String.ofList content)], openNames)
    | .error fault => .error (.reference fault)
| .skipped => .ok ([], openNames)

/-
  The events of some tokens. `view` holds the bytes from
  `offset` on, where the next token is taken to start.
-/
def items
    (source : String)
    (offset : Nat)
    (view : List UInt8)
    (cursor : Cursor)
    (openNames : List (List UInt8)) :
    List Cut → List Item
| [] => []
| cut :: rest =>
    let cursor := cursor.moveTo (offset + leadingBlanks view)
    let place := cursor.location source
    match cut.token with
    | .error fault => [.error (.markup place fault)]
    | .ok token =>
        match interpret openNames token with
        | .error fault => [.error (.markup place fault)]
        | .ok (events, openNames) =>
            events.map (fun event => .ok (place, event))
              ++ items source (offset + cut.size)
                  (view.drop cut.size) cursor openNames rest

------------------------------------------------------------
-- Parts
------------------------------------------------------------

/-
  The events of bytes in UTF-8. A byte order mark is no part of
  the first token, nor does it count for the start of the later
  ones.
-/
def readUtf8
    (source : String)
    (bytes : List UInt8) : List Item :=
  items source 0 bytes (.start bytes) []
    (cuts (Encoding.dropMark bytes))

/- The events of a text. -/
def readText
    (source : String)
    (text : String) : List Item :=
  readUtf8 source (Text.Utf8.encode text.toList)

/- The events of a part in any of the accepted encodings. -/
def readBytes
    (source : String)
    (bytes : List UInt8) : Except Error (List Item) :=
  match Encoding.normalize? bytes with
  | some bytes => .ok (readUtf8 source bytes)
  | none => .error (.markup ⟨source, 1, 1⟩ .loneSurrogate)

end FixedPage.Markup
