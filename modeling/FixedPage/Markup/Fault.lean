import FixedPage.Text.Utf8

/-
  This file lists what can be wrong with the markup of a part and
  how each fault is worded.

  Main declarations:
    * `Markup.Fault`
    * `Markup.Fault.message`
-/

namespace FixedPage.Markup

/- What can be wrong with the attributes of a tag. -/
inductive AttributeFault where
  | equalsExpected
  | valueExpected
  | unquotedValue
  | unclosedQuote
      (quote : Char)
  | duplicated
      (first : Nat)
deriving DecidableEq, Repr

/- What can be wrong with a character reference. -/
inductive CodeFault where
  | signed
  | empty
  | invalidDigit
  | tooLarge
  | notACharacter
      (code : Nat)
  | null
deriving DecidableEq, Repr

/- What can be wrong with a reference inside a value. -/
inductive ReferenceFault where
  | unknownEntity
      (first last : Nat)
      (name : String)
  | unterminated
      (first last : Nat)
  | code
      (fault : CodeFault)
deriving DecidableEq, Repr

/- What can be wrong with the markup of a part. -/
inductive Fault where
  | unknownMarkup
  | unclosedInstruction
  | unclosedComment
  | unclosedDoctype
  | unclosedCharacterData
  | unclosedTag
  | mismatchedEnd
      (expected found : String)
  | unmatchedEnd
      (name : String)
  | missingDoctypeName
  | unclosedReference
  | inTag
      (position : Nat)
      (fault : AttributeFault)
  | reference
      (fault : ReferenceFault)
  | encoding
      (fault : Text.Utf8.Fault)
  | loneSurrogate
  | truncated
  | startTagExpected
  | emptyPage
  | reported
      (text : String)
deriving DecidableEq, Repr

------------------------------------------------------------
-- Wording
------------------------------------------------------------

/- Wording of an attribute fault. -/
def AttributeFault.message : AttributeFault → String
| .equalsExpected =>
    "attribute key must be directly followed by `=` or space"
| .valueExpected => "`=` must be followed by an attribute value"
| .unquotedValue =>
    "attribute value must be enclosed in `\"` or `'`"
| .unclosedQuote quote =>
    "missing closing quote `" ++ quote.toString
      ++ "` in attribute value"
| .duplicated first =>
    "duplicated attribute, previous declaration at position "
      ++ toString first

/- Wording of a character reference fault. -/
def CodeFault.message : CodeFault → String
| .signed => "unexpected number sign"
| .empty => "cannot parse integer from empty string"
| .invalidDigit => "invalid digit found in string"
| .tooLarge => "number too large to fit in target type"
| .notACharacter code =>
    "`" ++ toString code ++ "` is not a valid codepoint"
| .null => "0x0 character is not permitted in XML"

/- Wording of a range of positions. -/
def rangeText
    (first last : Nat) : String :=
  toString first ++ ".." ++ toString last

/- Wording of a reference fault. -/
def ReferenceFault.message : ReferenceFault → String
| .unknownEntity first last name =>
    "at " ++ rangeText first last ++ ": unrecognized entity `"
      ++ name ++ "`"
| .unterminated first last =>
    "Error while escaping character at range "
      ++ rangeText first last ++ ": Cannot find ';' after '&'"
| .code fault => "invalid character reference: " ++ fault.message

/- Wording of something that the end of the input cuts off. -/
def unclosedText
    (what terminator : String) : String :=
  "syntax error: " ++ what ++ " not closed: `" ++ terminator
    ++ "` not found before end of input"

/- Wording of a fault. -/
def Fault.message : Fault → String
| .unknownMarkup =>
    "syntax error: unknown or missed symbol in markup"
| .unclosedInstruction =>
    unclosedText "processing instruction or xml declaration" "?>"
| .unclosedComment => unclosedText "comment" "-->"
| .unclosedDoctype => unclosedText "DOCTYPE" ">"
| .unclosedCharacterData => unclosedText "CDATA" "]]>"
| .unclosedTag => unclosedText "tag" ">"
| .mismatchedEnd expected found =>
    "ill-formed document: expected `</" ++ expected
      ++ ">`, but `</" ++ found ++ ">` was found"
| .unmatchedEnd name =>
    "ill-formed document: close tag `</" ++ name
      ++ ">` does not match any open tag"
| .missingDoctypeName =>
    "ill-formed document: `<!DOCTYPE>` declaration does not "
      ++ "contain a name of a document type"
| .unclosedReference =>
    "ill-formed document: entity or character reference not "
      ++ "closed: `;` not found before end of input"
| .inTag position fault =>
    "position " ++ toString position ++ ": " ++ fault.message
| .reference fault => fault.message
| .encoding fault => "cannot decode input using UTF-8: " ++ fault.message
| .loneSurrogate =>
    "invalid UTF-16 markup: invalid utf-16: lone surrogate found"
| .truncated => "unexpected end of markup"
| .startTagExpected => "expected a start tag"
| .emptyPage => "empty page"
| .reported text => text

end FixedPage.Markup
