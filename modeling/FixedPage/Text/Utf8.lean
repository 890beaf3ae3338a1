/-
  This file decodes UTF-8. A sequence that is not well formed is
  reported with the index of its first byte and, when it is not
  merely cut off, with the number of bytes that cannot start or
  continue a character.

  Main declarations:
    * `Utf8.Fault`
    * `Utf8.decode`
    * `Utf8.text`
    * `Utf8.encode`
-/

namespace FixedPage.Text.Utf8

------------------------------------------------------------
-- Faults
------------------------------------------------------------

/- Where and how bytes fail to be UTF-8. -/
inductive Fault where
  | invalid
      (count index : Nat)
  | incomplete
      (index : Nat)
deriving DecidableEq, Repr

/- Wording of a fault. -/
def Fault.message : Fault → String
| .invalid count index =>
    "invalid utf-8 sequence of " ++ toString count
      ++ " bytes from index " ++ toString index
| .incomplete index =>
    "incomplete utf-8 byte sequence from index " ++ toString index

------------------------------------------------------------
-- Decoding
------------------------------------------------------------

/- A byte that continues a character. -/
def isContinuation
    (b : UInt8) : Bool :=
  0x80 ≤ b && b ≤ 0xBF

/- The second byte of a three byte character that starts with `b`. -/
def isSecondOfThree
    (b c : UInt8) : Bool :=
  if b == 0xE0 then 0xA0 ≤ c && c ≤ 0xBF
  else if b == 0xED then 0x80 ≤ c && c ≤ 0x9F
  else isContinuation c

/- The second byte of a four byte character that starts with `b`. -/
def isSecondOfFour
    (b c : UInt8) : Bool :=
  if b == 0xF0 then 0x90 ≤ c && c ≤ 0xBF
  else if b == 0xF4 then 0x80 ≤ c && c ≤ 0x8F
  else isContinuation c

/- The payload of a continuation byte. -/
def payload
    (b : UInt8) : Nat :=
  b.toNat % 64

/- Decodes bytes, the first of which has the given index. -/
def decodeFrom
    (index : Nat) :
    List UInt8 → Except Fault (List Char)
| [] => .ok []
| b :: rest =>
    if b < 0x80 then
      (decodeFrom (index + 1) rest).map (Char.ofNat b.toNat :: ·)
    else if 0xC2 ≤ b && b ≤ 0xDF then
      match rest with
      | [] => .error (.incomplete index)
      | c :: rest =>
          if isContinuation c then
            let code := (b.toNat % 32) * 64 + payload c
            (decodeFrom (index + 2) rest).map (Char.ofNat code :: ·)
          else .error (.invalid 1 index)
    else if 0xE0 ≤ b && b ≤ 0xEF then
      match rest with
      | [] => .error (.incomplete index)
      | [c] =>
          if isSecondOfThree b c then .error (.incomplete index)
          else .error (.invalid 1 index)
      | c :: d :: rest =>
          if !isSecondOfThree b c then .error (.invalid 1 index)
          else if !isContinuation d then .error (.invalid 2 index)
          else
            let code :=
              (b.toNat % 16) * 4096 + payload c * 64 + payload d
            (decodeFrom (index + 3) rest).map (Char.ofNat code :: ·)
    else if 0xF0 ≤ b && b ≤ 0xF4 then
      match rest with
      | [] => .error (.incomplete index)
      | [c] =>
          if isSecondOfFour b c then .error (.incomplete index)
          else .error (.invalid 1 index)
      | [c, d] =>
          if !isSecondOfFour b c then .error (.invalid 1 index)
          else if !isContinuation d then .error (.invalid 2 index)
          else .error (.incomplete index)
      | c :: d :: e :: rest =>
          if !isSecondOfFour b c then .error (.invalid 1 index)
          else if !isContinuation d then .error (.invalid 2 index)
          else if !isContinuation e then .error (.invalid 3 index)
          else
            let code :=
              (b.toNat % 8) * 262144 + payload c * 4096
                + payload d * 64 + payload e
            (decodeFrom (index + 4) rest).map (Char.ofNat code :: ·)
    else .error (.invalid 1 index)

/- Decodes bytes. -/
def decode
    (bytes : List UInt8) : Except Fault (List Char) :=
  decodeFrom 0 bytes

/- The bytes before a fault and those that the fault takes up. -/
def Fault.extent
    (size : Nat) : Fault → Nat × Nat
| .invalid count index => (index, count)
| .incomplete index => (index, size - index)

/-
  Decodes bytes with a replacement character for every fault, of
  which there are at most `fuel`.
-/
def decodeReplacing :
    Nat → List UInt8 → List Char
| 0, _ => []
| fuel + 1, bytes =>
    match decode bytes with
    | .ok cs => cs
    | .error fault =>
        let (index, count) := fault.extent bytes.length
        let front := (decode (bytes.take index)).toOption.getD []
        front ++ '\uFFFD' :: decodeReplacing fuel (bytes.drop (index + count))

/- The text of bytes, whatever is not well formed replaced. -/
def text
    (bytes : List UInt8) : String :=
  String.ofList (decodeReplacing (bytes.length + 1) bytes)

/- Encodes characters. -/
def encode
    (cs : List Char) : List UInt8 :=
  cs.flatMap String.utf8EncodeChar

end FixedPage.Text.Utf8
