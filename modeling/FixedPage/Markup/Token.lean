import FixedPage.Markup.Fault

/-
  This file cuts the bytes of a part into tokens. A tag ends at
  the first `>` outside quotes; text ends before the next tag or
  reference and loses the spaces around it; comments,
  instructions and document types are skipped.

  Main declarations:
    * `Token`
    * `Cut`
    * `cut?`
-/

namespace FixedPage.Markup

------------------------------------------------------------
-- Bytes
------------------------------------------------------------

/- Code of an ASCII character. -/
def byte
    (c : Char) : UInt8 :=
  UInt8.ofNat c.toNat

/- Bytes of an ASCII text. -/
def bytesOf
    (s : String) : List UInt8 :=
  s.toList.map byte

/- The spaces that are trimmed from text and between attributes. -/
def isSpace
    (b : UInt8) : Bool :=
  b == 0x20 || b == 0x09 || b == 0x0A || b == 0x0D

/- Drops spaces from the back. -/
def trimEnd
    (bytes : List UInt8) : List UInt8 :=
  (bytes.reverse.dropWhile isSpace).reverse

/- An ASCII letter in lowercase. -/
def lowercase
    (b : UInt8) : UInt8 :=
  if 0x41 ≤ b && b ≤ 0x5A then b + 0x20 else b

------------------------------------------------------------
-- Searching
------------------------------------------------------------

/-
  The bytes before the first `stop`, if it occurs.
-/
def before?
    (stop : List UInt8) :
    List UInt8 → Option (List UInt8)
| [] => none
| b :: rest =>
    if stop.isPrefixOf (b :: rest) then some []
    else (before? stop rest).map (b :: ·)

/- The byte that closes the quotes which a byte opens, if any. -/
def quoteOf?
    (b : UInt8) : Option UInt8 :=
  if b == byte '"' || b == byte '\'' then some b else none

/-
  The bytes before the first `>` outside quotes, if it occurs;
  inside quotes, `quote?` is the byte that closes them.
-/
def tagContent?
    (quote? : Option UInt8) :
    List UInt8 → Option (List UInt8)
| [] => none
| b :: rest =>
    match quote? with
    | some quote =>
        let quote? := if b == quote then none else some quote
        (tagContent? quote? rest).map (b :: ·)
    | none =>
        if b == byte '>' then some []
        else (tagContent? (quoteOf? b) rest).map (b :: ·)

/-
  The bytes before the `>` that ends a document type
  declaration. Every `<` needs a `>` of its own first, also
  inside quotes and comments; `depth` of them are still open.
-/
def doctypeContent?
    (depth : Nat) :
    List UInt8 → Option (List UInt8)
| [] => none
| b :: rest =>
    if b == byte '<' then (doctypeContent? (depth + 1) rest).map (b :: ·)
    else if b == byte '>' then
      match depth with
      | 0 => some []
      | outer + 1 => (doctypeContent? outer rest).map (b :: ·)
    else (doctypeContent? depth rest).map (b :: ·)

------------------------------------------------------------
-- Tokens
------------------------------------------------------------

/-
  A piece of a part before its bytes are decoded. Tags hold
  what stands between their angle brackets, without the
  slashes.
-/
inductive Token where
  | startTag
      (content : List UInt8)
  | emptyTag
      (content : List UInt8)
  | endTag
      (name : List UInt8)
  | text
      (content : List UInt8)
  | reference
      (name : List UInt8)
  | skipped
deriving DecidableEq, Repr

/-
  The next token and the number of bytes it takes; a fault
  takes the whole rest.
-/
structure Cut where
  token : Except Fault Token
  size : Nat

/- Ends the input with a fault. -/
def Cut.fault
    (fault : Fault) : Cut :=
  ⟨.error fault, 0⟩

/- Cuts what follows `<!`. -/
def cutDeclaration
    (rest : List UInt8) : Cut :=
  if (bytesOf "--").isPrefixOf rest then
    match before? (bytesOf "-->") (rest.drop 2) with
    | some content => ⟨.ok .skipped, content.length + 7⟩
    | none => .fault .unclosedComment
  else if (bytesOf "-").isPrefixOf rest then
    .fault .unclosedComment
  else if (bytesOf "[CDATA[").isPrefixOf rest then
    match before? (bytesOf "]]>") (rest.drop 7) with
    | some content => ⟨.ok (.text content), content.length + 12⟩
    | none => .fault .unclosedCharacterData
  else if (bytesOf "[").isPrefixOf rest then
    .fault .unclosedCharacterData
  else if (bytesOf "d").isPrefixOf (rest.map lowercase |>.take 1) then
    match doctypeContent? 0 rest with
    | none => .fault .unclosedDoctype
    | some content =>
        if (bytesOf "doctype").isPrefixOf (content.map lowercase) then
          if (content.drop 7).all isSpace then
            .fault .missingDoctypeName
          else ⟨.ok .skipped, content.length + 3⟩
        else .fault .unclosedDoctype
  else .fault .unknownMarkup

/- Cuts what follows `<`. -/
def cutMarkup
    (rest : List UInt8) : Cut :=
  match rest with
  | [] => .fault .unclosedTag
  | b :: more =>
      if b == byte '!' then cutDeclaration more
      else if b == byte '?' then
        match more with
        | [] => .fault .unclosedInstruction
        | c :: _ =>
            if c == byte '>' then .fault .unclosedInstruction
            else
              match before? (bytesOf "?>") more with
              | some content => ⟨.ok .skipped, content.length + 4⟩
              | none => .fault .unclosedInstruction
      else
        match tagContent? none rest with
        | none => .fault .unclosedTag
        | some content =>
            let size := content.length + 2
            if b == byte '/' then
              let name := content.drop 1
              let trimmed := trimEnd name
              ⟨.ok (.endTag (if trimmed.isEmpty then name else trimmed)),
                size⟩
            else if content.getLast? == some (byte '/') then
              ⟨.ok (.emptyTag content.dropLast), size⟩
            else ⟨.ok (.startTag content), size⟩

/- Cuts what follows `&`. -/
def cutReference
    (rest : List UInt8) : Cut :=
  let name := rest.takeWhile fun b =>
    b != byte ';' && b != byte '&' && b != byte '<'
  match rest.drop name.length with
  | b :: _ =>
      if b == byte ';' then
        ⟨.ok (.reference name), name.length + 2⟩
      else .fault .unclosedReference
  | [] => .fault .unclosedReference

/- The next token after any spaces, if there is one. -/
def cut?
    (bytes : List UInt8) : Option Cut :=
  let spaces := (bytes.takeWhile isSpace).length
  match bytes.drop spaces with
  | [] => none
  | b :: rest =>
      let found : Cut :=
        if b == byte '<' then cutMarkup rest
        else if b == byte '&' then cutReference rest
        else
          let content := rest.takeWhile fun c =>
            c != byte '<' && c != byte '&'
          ⟨.ok (.text (trimEnd (b :: content))), content.length + 1⟩
      some { found with size := spaces + found.size }

/-
  The tokens of a part in order, each with the number of bytes
  it takes. A fault ends them.
-/
def cutAll
    (fuel : Nat)
    (bytes : List UInt8) : List Cut :=
  match fuel with
  | 0 => []
  | fuel + 1 =>
      match cut? bytes with
      | none => []
      | some found =>
          match found.token with
          | .error _ => [found]
          | .ok _ => found :: cutAll fuel (bytes.drop found.size)

/- The tokens of a part. -/
def cuts
    (bytes : List UInt8) : List Cut :=
  cutAll bytes.length bytes

end FixedPage.Markup
