import FixedPage.Text.Utf8

/-
  This file shows that encoded characters are decoded again, that
  decoded characters have the bytes that they were decoded from,
  and that an ASCII character is one byte which occurs in no other
  character. Characters can be counted by the bytes that continue
  none.

  Main declarations:
    * `decode_encode`
    * `encode_injective`
    * `encode_decodeFrom`
    * `decode_injective`
    * `mem_of_mem_encode`
    * `exists_lead`
    * `exists_of_encode_eq`
-/

namespace FixedPage.Text.Utf8

------------------------------------------------------------
-- Bytes
------------------------------------------------------------

/- Value of a byte that is given by its value. -/
theorem toNat_ofNat
    {n : Nat}
    (hByte : n < 256) :
    (UInt8.ofNat n).toNat = n := by
  simpa using Nat.mod_eq_of_lt hByte

/- A byte that continues a character. -/
theorem isContinuation_ofNat
    (n : Nat) :
    isContinuation (UInt8.ofNat (n % 64 + 128)) = true := by
  simp only [isContinuation, Bool.and_eq_true, decide_eq_true_eq,
    UInt8.le_iff_toNat_le]
  rw [toNat_ofNat (by omega)]
  exact ⟨Nat.le_add_left 128 _, by
    change n % 64 + 128 ≤ 191
    omega⟩

/- Its payload. -/
theorem payload_ofNat
    (n : Nat) :
    payload (UInt8.ofNat (n % 64 + 128)) = n % 64 := by
  unfold payload
  rw [toNat_ofNat (by omega)]
  omega

/- A byte lies in a range if its value does. -/
theorem within_iff
    (low high b : UInt8) :
    (decide (low ≤ b) && decide (b ≤ high)) = true ↔
      low.toNat ≤ b.toNat ∧ b.toNat ≤ high.toNat := by
  simp only [Bool.and_eq_true, decide_eq_true_eq,
    UInt8.le_iff_toNat_le]

------------------------------------------------------------
-- Characters
------------------------------------------------------------

/- A character of one byte is decoded. -/
theorem decodeFrom_one
    {b : UInt8}
    (hLead : b.toNat < 128)
    (index : Nat)
    (rest : List UInt8) :
    decodeFrom index (b :: rest) =
      (decodeFrom (index + 1) rest).map
        (Char.ofNat b.toNat :: ·) := by
  rw [decodeFrom.eq_def]
  dsimp only
  rw [if_pos (UInt8.lt_iff_toNat_lt.mpr hLead)]

/- A character of two bytes is decoded. -/
theorem decodeFrom_two
    {b c : UInt8}
    (hLow : 194 ≤ b.toNat)
    (hHigh : b.toNat ≤ 223)
    (hNext : isContinuation c = true)
    (index : Nat)
    (rest : List UInt8) :
    decodeFrom index (b :: c :: rest) =
      (decodeFrom (index + 2) rest).map
        (Char.ofNat (b.toNat % 32 * 64 + payload c) :: ·) := by
  have hMore : ¬ b < 0x80 := by
    rw [UInt8.lt_iff_toNat_lt]
    exact Nat.not_lt.mpr (Nat.le_trans (by decide) hLow)
  rw [decodeFrom, if_neg hMore,
    if_pos ((within_iff 0xC2 0xDF b).mpr ⟨hLow, hHigh⟩)]
  dsimp only
  rw [if_pos hNext]

/- A character of three bytes is decoded. -/
theorem decodeFrom_three
    {b c d : UInt8}
    (hLow : 224 ≤ b.toNat)
    (hHigh : b.toNat ≤ 239)
    (hSecond : isSecondOfThree b c = true)
    (hNext : isContinuation d = true)
    (index : Nat)
    (rest : List UInt8) :
    decodeFrom index (b :: c :: d :: rest) =
      (decodeFrom (index + 3) rest).map
        (Char.ofNat
          (b.toNat % 16 * 4096 + payload c * 64 + payload d) :: ·) := by
  have hMore : ¬ b < 0x80 := by
    rw [UInt8.lt_iff_toNat_lt]
    exact Nat.not_lt.mpr (Nat.le_trans (by decide) hLow)
  have hNotTwo :
      ¬ (decide (0xC2 ≤ b) && decide (b ≤ 0xDF)) = true := by
    rw [within_iff]
    exact fun hTwo =>
      absurd (Nat.le_trans hLow hTwo.2) (by decide)
  rw [decodeFrom, if_neg hMore, if_neg hNotTwo,
    if_pos ((within_iff 0xE0 0xEF b).mpr ⟨hLow, hHigh⟩)]
  simp only [hSecond, hNext, Bool.not_true, Bool.false_eq_true,
    if_false]

/- A character of four bytes is decoded. -/
theorem decodeFrom_four
    {b c d e : UInt8}
    (hLow : 240 ≤ b.toNat)
    (hHigh : b.toNat ≤ 244)
    (hSecond : isSecondOfFour b c = true)
    (hThird : isContinuation d = true)
    (hNext : isContinuation e = true)
    (index : Nat)
    (rest : List UInt8) :
    decodeFrom index (b :: c :: d :: e :: rest) =
      (decodeFrom (index + 4) rest).map
        (Char.ofNat
          (b.toNat % 8 * 262144 + payload c * 4096
            + payload d * 64 + payload e) :: ·) := by
  have hMore : ¬ b < 0x80 := by
    rw [UInt8.lt_iff_toNat_lt]
    exact Nat.not_lt.mpr (Nat.le_trans (by decide) hLow)
  have hNotTwo :
      ¬ (decide (0xC2 ≤ b) && decide (b ≤ 0xDF)) = true := by
    rw [within_iff]
    exact fun hTwo =>
      absurd (Nat.le_trans hLow hTwo.2) (by decide)
  have hNotThree :
      ¬ (decide (0xE0 ≤ b) && decide (b ≤ 0xEF)) = true := by
    rw [within_iff]
    exact fun hThree =>
      absurd (Nat.le_trans hLow hThree.2) (by decide)
  rw [decodeFrom, if_neg hMore, if_neg hNotTwo, if_neg hNotThree,
    if_pos ((within_iff 0xF0 0xF4 b).mpr ⟨hLow, hHigh⟩)]
  simp only [hSecond, hThird, hNext, Bool.not_true,
    Bool.false_eq_true, if_false]

/- A byte equals another if its value does. -/
theorem beq_iff
    (b c : UInt8) :
    (b == c) = true ↔ b.toNat = c.toNat := by
  rw [beq_iff_eq, UInt8.toNat_inj]

/- The second byte of a character of three bytes. -/
theorem isSecondOfThree_ofNat
    {v : Nat}
    (hLow : 2048 ≤ v)
    (hHigh : v < 65536)
    (hValid : v < 55296 ∨ 57343 < v) :
    isSecondOfThree (UInt8.ofNat (v / 4096 % 16 + 224))
      (UInt8.ofNat (v / 64 % 64 + 128)) = true := by
  have hLead := toNat_ofNat (n := v / 4096 % 16 + 224) (by omega)
  have hNext := toNat_ofNat (n := v / 64 % 64 + 128) (by omega)
  unfold isSecondOfThree
  split
  · rename_i hZero
    rw [beq_iff, hLead] at hZero
    change v / 4096 % 16 + 224 = 224 at hZero
    rw [within_iff, hNext]
    change 160 ≤ v / 64 % 64 + 128 ∧ v / 64 % 64 + 128 ≤ 191
    omega
  · split
    · rename_i hSurrogate
      rw [beq_iff, hLead] at hSurrogate
      change v / 4096 % 16 + 224 = 237 at hSurrogate
      rw [within_iff, hNext]
      change 128 ≤ v / 64 % 64 + 128 ∧ v / 64 % 64 + 128 ≤ 159
      omega
    · exact isContinuation_ofNat _

/- The second byte of a character of four bytes. -/
theorem isSecondOfFour_ofNat
    {v : Nat}
    (hLow : 65536 ≤ v)
    (hHigh : v < 1114112) :
    isSecondOfFour (UInt8.ofNat (v / 262144 % 8 + 240))
      (UInt8.ofNat (v / 4096 % 64 + 128)) = true := by
  have hLead := toNat_ofNat (n := v / 262144 % 8 + 240) (by omega)
  have hNext := toNat_ofNat (n := v / 4096 % 64 + 128) (by omega)
  unfold isSecondOfFour
  split
  · rename_i hZero
    rw [beq_iff, hLead] at hZero
    change v / 262144 % 8 + 240 = 240 at hZero
    rw [within_iff, hNext]
    change 144 ≤ v / 4096 % 64 + 128 ∧ v / 4096 % 64 + 128 ≤ 191
    omega
  · split
    · rename_i hLast
      rw [beq_iff, hLead] at hLast
      change v / 262144 % 8 + 240 = 244 at hLast
      rw [within_iff, hNext]
      change 128 ≤ v / 4096 % 64 + 128 ∧ v / 4096 % 64 + 128 ≤ 143
      omega
    · exact isContinuation_ofNat _

/- The bytes of a character code. -/
def codeBytes
    (v : Nat) : List UInt8 :=
  if v ≤ 127 then [UInt8.ofNat v]
  else if v ≤ 2047 then
    [UInt8.ofNat (v / 64 % 32 + 192), UInt8.ofNat (v % 64 + 128)]
  else if v ≤ 65535 then
    [UInt8.ofNat (v / 4096 % 16 + 224),
      UInt8.ofNat (v / 64 % 64 + 128), UInt8.ofNat (v % 64 + 128)]
  else
    [UInt8.ofNat (v / 262144 % 8 + 240),
      UInt8.ofNat (v / 4096 % 64 + 128),
      UInt8.ofNat (v / 64 % 64 + 128), UInt8.ofNat (v % 64 + 128)]

/- A character is encoded by the bytes of its code. -/
theorem encodeChar_eq
    (c : Char) :
    String.utf8EncodeChar c = codeBytes c.toNat :=
  rfl

/- An encoded character is decoded. -/
theorem decodeFrom_encodeChar
    (c : Char)
    (index : Nat)
    (rest : List UInt8) :
    decodeFrom index (String.utf8EncodeChar c ++ rest) =
      (decodeFrom (index + c.utf8Size) rest).map (c :: ·) := by
  have hValid : c.toNat < 55296 ∨ 57343 < c.toNat ∧ c.toNat < 1114112 :=
    c.valid
  have hCode : ∀ n, n = c.toNat → Char.ofNat n = c := by
    rintro n rfl
    exact Char.ofNat_toNat c
  rw [← String.length_utf8EncodeChar, encodeChar_eq]
  generalize c.toNat = v at hValid hCode ⊢
  unfold codeBytes
  split
  · have hLead := toNat_ofNat (n := v) (by omega)
    have hDecode :=
      decodeFrom_one (b := UInt8.ofNat v) (by omega) index rest
    rw [hLead, hCode v rfl] at hDecode
    exact hDecode
  · split
    · have hLead := toNat_ofNat (n := v / 64 % 32 + 192) (by omega)
      have hDecode :=
        decodeFrom_two (b := UInt8.ofNat (v / 64 % 32 + 192))
          (by omega) (by omega) (isContinuation_ofNat v) index rest
      rw [hLead, payload_ofNat, hCode _ (by omega)] at hDecode
      exact hDecode
    · split
      · have hLead := toNat_ofNat (n := v / 4096 % 16 + 224) (by omega)
        have hDecode :=
          decodeFrom_three (b := UInt8.ofNat (v / 4096 % 16 + 224))
            (by omega) (by omega)
            (isSecondOfThree_ofNat (by omega) (by omega) (by omega))
            (isContinuation_ofNat v) index rest
        rw [hLead, payload_ofNat, payload_ofNat, hCode _ (by omega)]
          at hDecode
        exact hDecode
      · have hLead := toNat_ofNat (n := v / 262144 % 8 + 240) (by omega)
        have hDecode :=
          decodeFrom_four (b := UInt8.ofNat (v / 262144 % 8 + 240))
            (by omega) (by omega)
            (isSecondOfFour_ofNat (by omega) (by omega))
            (isContinuation_ofNat (v / 64)) (isContinuation_ofNat v)
            index rest
        rw [hLead, payload_ofNat, payload_ofNat, payload_ofNat,
          hCode _ (by omega)] at hDecode
        exact hDecode

------------------------------------------------------------
-- Texts
------------------------------------------------------------

@[simp] theorem encode_nil :
    encode [] = [] :=
  rfl

@[simp] theorem encode_cons
    (c : Char)
    (cs : List Char) :
    encode (c :: cs) = String.utf8EncodeChar c ++ encode cs :=
  rfl

@[simp] theorem encode_append
    (cs ds : List Char) :
    encode (cs ++ ds) = encode cs ++ encode ds := by
  simp [encode]

/- Encoded characters are decoded. -/
theorem decode_encode
    (cs : List Char) :
    decode (encode cs) = .ok cs := by
  have hFrom : ∀ index, decodeFrom index (encode cs) = .ok cs := by
    induction cs with
    | nil =>
        intro index
        rw [encode_nil, decodeFrom.eq_def]
    | cons c cs ih =>
        intro index
        rw [encode_cons, decodeFrom_encodeChar, ih]
        rfl
  exact hFrom 0

/- Different texts have different bytes. -/
theorem encode_injective
    {cs ds : List Char}
    (hSame : encode cs = encode ds) :
    cs = ds := by
  have hDecode := congrArg decode hSame
  rw [decode_encode, decode_encode] at hDecode
  exact Except.ok.inj hDecode

------------------------------------------------------------
-- Bytes of characters
------------------------------------------------------------

/- A character that is given by its code. -/
theorem toNat_char
    {n : Nat}
    (hValid : n < 55296 ∨ 57343 < n ∧ n < 1114112) :
    (Char.ofNat n).toNat = n := by
  have hChar : n.isValidChar := hValid
  unfold Char.ofNat
  rw [dif_pos hChar]
  rfl

/- A byte is given by its value. -/
theorem ofNat_eq
    {b : UInt8}
    {n : Nat}
    (hValue : n = b.toNat) :
    UInt8.ofNat n = b := by
  rw [hValue]
  exact UInt8.ofNat_toNat

/- The value of a byte that continues a character. -/
theorem toNat_continuation
    {b : UInt8}
    (hNext : isContinuation b = true) :
    128 ≤ b.toNat ∧ b.toNat ≤ 191 :=
  (within_iff 0x80 0xBF b).mp hNext

/- The value of the second byte of three; no surrogates are left. -/
theorem toNat_secondOfThree
    {b c : UInt8}
    (hSecond : isSecondOfThree b c = true) :
    128 ≤ c.toNat ∧ c.toNat ≤ 191 ∧
      (b.toNat = 224 → 160 ≤ c.toNat) ∧
      (b.toNat = 237 → c.toNat ≤ 159) := by
  unfold isSecondOfThree at hSecond
  split at hSecond
  · rename_i hLead
    rw [beq_iff] at hLead
    rw [within_iff] at hSecond
    change b.toNat = 224 at hLead
    change 160 ≤ c.toNat ∧ c.toNat ≤ 191 at hSecond
    omega
  · rename_i hZero
    rw [beq_iff] at hZero
    change ¬ b.toNat = 224 at hZero
    split at hSecond
    · rw [within_iff] at hSecond
      change 128 ≤ c.toNat ∧ c.toNat ≤ 159 at hSecond
      omega
    · rename_i hLead
      rw [beq_iff] at hLead
      change ¬ b.toNat = 237 at hLead
      have hNext := toNat_continuation hSecond
      omega

/- The value of the second byte of four. -/
theorem toNat_secondOfFour
    {b c : UInt8}
    (hSecond : isSecondOfFour b c = true) :
    128 ≤ c.toNat ∧ c.toNat ≤ 191 ∧
      (b.toNat = 240 → 144 ≤ c.toNat) ∧
      (b.toNat = 244 → c.toNat ≤ 143) := by
  unfold isSecondOfFour at hSecond
  split at hSecond
  · rename_i hLead
    rw [beq_iff] at hLead
    rw [within_iff] at hSecond
    change b.toNat = 240 at hLead
    change 144 ≤ c.toNat ∧ c.toNat ≤ 191 at hSecond
    omega
  · rename_i hZero
    rw [beq_iff] at hZero
    change ¬ b.toNat = 240 at hZero
    split at hSecond
    · rw [within_iff] at hSecond
      change 128 ≤ c.toNat ∧ c.toNat ≤ 143 at hSecond
      omega
    · rename_i hLead
      rw [beq_iff] at hLead
      change ¬ b.toNat = 244 at hLead
      have hNext := toNat_continuation hSecond
      omega

/- A character of one byte. -/
theorem encodeChar_one
    {b : UInt8}
    (hLead : b.toNat < 128) :
    String.utf8EncodeChar (Char.ofNat b.toNat) = [b] := by
  rw [encodeChar_eq, toNat_char (by omega)]
  unfold codeBytes
  rw [if_pos (by omega), ofNat_eq rfl]

/- A character of two bytes. -/
theorem encodeChar_two
    {b c : UInt8}
    (hLow : 194 ≤ b.toNat)
    (hHigh : b.toNat ≤ 223)
    (hNext : isContinuation c = true) :
    String.utf8EncodeChar
        (Char.ofNat (b.toNat % 32 * 64 + payload c)) =
      [b, c] := by
  have hLast := toNat_continuation hNext
  unfold payload
  rw [encodeChar_eq, toNat_char (by omega)]
  unfold codeBytes
  rw [if_neg (by omega), if_pos (by omega)]
  simp only [List.cons.injEq, and_true]
  exact ⟨ofNat_eq (by omega), ofNat_eq (by omega)⟩

/- A character of three bytes. -/
theorem encodeChar_three
    {b c d : UInt8}
    (hLow : 224 ≤ b.toNat)
    (hHigh : b.toNat ≤ 239)
    (hSecond : isSecondOfThree b c = true)
    (hNext : isContinuation d = true) :
    String.utf8EncodeChar
        (Char.ofNat
          (b.toNat % 16 * 4096 + payload c * 64 + payload d)) =
      [b, c, d] := by
  have hMid := toNat_secondOfThree hSecond
  have hLast := toNat_continuation hNext
  unfold payload
  rw [encodeChar_eq, toNat_char (by omega)]
  unfold codeBytes
  rw [if_neg (by omega), if_neg (by omega), if_pos (by omega)]
  simp only [List.cons.injEq, and_true]
  exact ⟨ofNat_eq (by omega), ofNat_eq (by omega), ofNat_eq (by omega)⟩

/- A character of four bytes. -/
theorem encodeChar_four
    {b c d e : UInt8}
    (hLow : 240 ≤ b.toNat)
    (hHigh : b.toNat ≤ 244)
    (hSecond : isSecondOfFour b c = true)
    (hThird : isContinuation d = true)
    (hNext : isContinuation e = true) :
    String.utf8EncodeChar
        (Char.ofNat
          (b.toNat % 8 * 262144 + payload c * 4096 + payload d * 64
            + payload e)) =
      [b, c, d, e] := by
  have hMid := toNat_secondOfFour hSecond
  have hThird := toNat_continuation hThird
  have hLast := toNat_continuation hNext
  unfold payload
  rw [encodeChar_eq, toNat_char (by omega)]
  unfold codeBytes
  rw [if_neg (by omega), if_neg (by omega), if_neg (by omega)]
  simp only [List.cons.injEq, and_true]
  exact
    ⟨ofNat_eq (by omega), ofNat_eq (by omega), ofNat_eq (by omega),
      ofNat_eq (by omega)⟩

/- One character and what is decoded after it. -/
theorem encode_of_map
    {c : Char}
    {lead rest : List UInt8}
    {tail : Except Fault (List Char)}
    {cs : List Char}
    (hChar : String.utf8EncodeChar c = lead)
    (hTail : ∀ {cs}, tail = .ok cs → encode cs = rest)
    (hOk : tail.map (c :: ·) = .ok cs) :
    encode cs = lead ++ rest := by
  cases hDecoded : tail with
  | error fault =>
      rw [hDecoded] at hOk
      cases hOk
  | ok ds =>
      rw [hDecoded] at hOk
      cases hOk
      rw [encode_cons, hChar, hTail hDecoded]

/- Decoded characters have the bytes that they were decoded from. -/
theorem encode_decodeFrom
    {index : Nat}
    {bytes : List UInt8}
    {cs : List Char}
    (hOk : decodeFrom index bytes = .ok cs) :
    encode cs = bytes := by
  fun_induction decodeFrom index bytes generalizing cs with
  | case1 =>
      cases hOk
      rfl
  | case2 index b rest hLead ih =>
      rw [UInt8.lt_iff_toNat_lt] at hLead
      exact encode_of_map (encodeChar_one hLead) ih hOk
  | case4 index b hMore hLead c rest hNext code =>
      rename_i ih
      rw [within_iff] at hLead
      exact
        encode_of_map (encodeChar_two hLead.1 hLead.2 hNext) ih hOk
  | case11 index b hMore hNotTwo hLead c d rest hSecond hNext code =>
      rename_i ih
      rw [within_iff] at hLead
      rw [Bool.not_eq_true', Bool.not_eq_false] at hSecond hNext
      exact
        encode_of_map
          (encodeChar_three hLead.1 hLead.2 hSecond hNext) ih hOk
  | case21 index b hMore hNotTwo hNotThree hLead c d e rest hSecond
      hThird hNext code =>
      rename_i ih
      rw [within_iff] at hLead
      rw [Bool.not_eq_true', Bool.not_eq_false] at hSecond hThird hNext
      exact
        encode_of_map
          (encodeChar_four hLead.1 hLead.2 hSecond hThird hNext) ih hOk
  | _ => cases hOk

/- Different bytes are no two ways to write the same characters. -/
theorem decode_injective
    {bytes bytes' : List UInt8}
    {cs : List Char}
    (hOk : decode bytes = .ok cs)
    (hOk' : decode bytes' = .ok cs) :
    bytes = bytes' :=
  (encode_decodeFrom hOk).symm.trans (encode_decodeFrom hOk')

------------------------------------------------------------
-- ASCII
------------------------------------------------------------

/- An ASCII character is one byte. -/
theorem encodeChar_ascii
    {c : Char}
    (hAscii : c.toNat < 128) :
    String.utf8EncodeChar c = [UInt8.ofNat c.toNat] := by
  unfold String.utf8EncodeChar
  exact if_pos (Nat.le_of_lt_succ hAscii)

/- The bytes of other codes are no ASCII characters. -/
theorem le_of_mem_codeBytes
    {v : Nat}
    {b : UInt8}
    (hCode : 128 ≤ v)
    (hMem : b ∈ codeBytes v) :
    128 ≤ b.toNat := by
  have hHigh : ∀ n, n < 128 → 128 ≤ (UInt8.ofNat (n + 128)).toNat := by
    intro n hLess
    rw [toNat_ofNat (by omega)]
    omega
  have hNext : ∀ n, 128 ≤ (UInt8.ofNat (n % 64 + 128)).toNat :=
    fun n => hHigh _ (by omega)
  unfold codeBytes at hMem
  split at hMem
  · omega
  · split at hMem
    · simp only [List.mem_cons, List.not_mem_nil, or_false] at hMem
      rcases hMem with rfl | rfl
      · exact hHigh (v / 64 % 32 + 64) (by omega)
      · exact hNext v
    · split at hMem
      · simp only [List.mem_cons, List.not_mem_nil, or_false] at hMem
        rcases hMem with rfl | rfl | rfl
        · exact hHigh (v / 4096 % 16 + 96) (by omega)
        · exact hNext (v / 64)
        · exact hNext v
      · simp only [List.mem_cons, List.not_mem_nil, or_false] at hMem
        rcases hMem with rfl | rfl | rfl | rfl
        · exact hHigh (v / 262144 % 8 + 112) (by omega)
        · exact hNext (v / 4096)
        · exact hNext (v / 64)
        · exact hNext v

/- An ASCII byte of a text is one of its characters. -/
theorem mem_of_mem_encode
    {cs : List Char}
    {b : UInt8}
    (hMem : b ∈ encode cs)
    (hByte : b.toNat < 128) :
    ∃ c ∈ cs, c.toNat < 128 ∧ b = UInt8.ofNat c.toNat := by
  rcases List.mem_flatMap.mp hMem with ⟨c, hChar, hIn⟩
  rcases Nat.lt_or_ge c.toNat 128 with hAscii | hOther
  · rw [encodeChar_ascii hAscii, List.mem_singleton] at hIn
    exact ⟨c, hChar, hAscii, hIn⟩
  · have hHigh := le_of_mem_codeBytes hOther hIn
    omega

------------------------------------------------------------
-- Places Of Characters
------------------------------------------------------------

/-
  A character has one byte that does not continue another, in
  front. Only a line feed has the byte of a line feed there.
-/
theorem exists_lead
    (c : Char) :
    ∃ b tail,
      String.utf8EncodeChar c = b :: tail ∧
        isContinuation b = false ∧
          (∀ d ∈ tail, isContinuation d = true) ∧
            (b = 0x0A ↔ c = '\n') := by
  have hOutside :
      ∀ {n : Nat}, n < 256 → (n < 128 ∨ 191 < n) →
        isContinuation (UInt8.ofNat n) = false := by
    intro n hByte hRange
    rw [Bool.eq_false_iff, isContinuation, Ne, within_iff,
      toNat_ofNat hByte]
    change ¬ (128 ≤ n ∧ n ≤ 191)
    omega
  have hNoFeed :
      ∀ {n : Nat}, n < 256 → 128 ≤ n → 128 ≤ c.toNat →
        (UInt8.ofNat n = 0x0A ↔ c = '\n') := by
    intro n hByte hHigh hCode
    refine iff_of_false (fun hFeed => ?_) ?_
    · have hValue := congrArg UInt8.toNat hFeed
      rw [toNat_ofNat hByte] at hValue
      change n = 10 at hValue
      omega
    · rintro rfl
      exact absurd hCode (by decide)
  have hBound : c.toNat < 1114112 := by
    have hValid : c.toNat < 55296 ∨ 57343 < c.toNat ∧ c.toNat < 1114112 :=
      c.valid
    omega
  rw [encodeChar_eq]
  unfold codeBytes
  have hNext := isContinuation_ofNat
  split
  · refine ⟨_, [], rfl, hOutside (by omega) (by omega), nofun, ?_⟩
    rw [← UInt8.toNat_inj, toNat_ofNat (by omega), ← Char.toNat_inj]
    rfl
  · split
    · exact
        ⟨_, _, rfl, hOutside (by omega) (by omega),
          List.forall_mem_singleton.mpr (hNext _),
          hNoFeed (by omega) (by omega) (by omega)⟩
    · split
      · exact
          ⟨_, _, rfl, hOutside (by omega) (by omega),
            List.forall_mem_cons.mpr
              ⟨hNext _, List.forall_mem_singleton.mpr (hNext _)⟩,
            hNoFeed (by omega) (by omega) (by omega)⟩
      · exact
          ⟨_, _, rfl, hOutside (by omega) (by omega),
            List.forall_mem_cons.mpr
              ⟨hNext _,
                List.forall_mem_cons.mpr
                  ⟨hNext _, List.forall_mem_singleton.mpr (hNext _)⟩⟩,
            hNoFeed (by omega) (by omega) (by omega)⟩

/- An ASCII byte of a text separates its characters. -/
theorem exists_of_encode_eq
    {c : Char}
    {cs : List Char}
    {front back : List UInt8}
    (hAscii : c.toNat < 128)
    (hBytes : encode cs = front ++ UInt8.ofNat c.toNat :: back) :
    ∃ lead rest,
      cs = lead ++ c :: rest ∧
        encode lead = front ∧ encode rest = back := by
  induction cs generalizing front with
  | nil => simp at hBytes
  | cons d cs ih =>
      rw [encode_cons, List.append_eq_append_iff] at hBytes
      have hLater :
          ∀ {more : List UInt8},
            front = String.utf8EncodeChar d ++ more →
              encode cs = more ++ UInt8.ofNat c.toNat :: back →
                ∃ lead rest,
                  d :: cs = lead ++ c :: rest ∧
                    encode lead = front ∧ encode rest = back := by
        rintro more rfl hMore
        obtain ⟨lead, rest, rfl, rfl, hRest⟩ := ih hMore
        exact ⟨d :: lead, rest, rfl, rfl, hRest⟩
      rcases hBytes with ⟨more, hFront, hMore⟩ | ⟨more, hChar, hMore⟩
      · exact hLater hFront hMore
      · cases more with
        | nil =>
            have hFront : front = String.utf8EncodeChar d ++ [] := by
              rw [hChar, List.append_nil, List.append_nil]
            exact hLater hFront hMore.symm
        | cons b more =>
            obtain ⟨rfl, rfl⟩ := List.cons.inj hMore
            have hIn : UInt8.ofNat c.toNat ∈ codeBytes d.toNat := by
              rw [← encodeChar_eq, hChar]
              exact List.mem_append_right _ (.head _)
            have hLow : d.toNat < 128 := by
              refine Nat.lt_of_not_le fun hHigh => ?_
              have hByte := le_of_mem_codeBytes hHigh hIn
              rw [toNat_ofNat (by omega)] at hByte
              omega
            rw [encodeChar_ascii hLow, eq_comm,
              List.append_eq_singleton_iff] at hChar
            obtain ⟨rfl, hOne⟩ | ⟨-, hNone⟩ := hChar
            · injection hOne with hSame hNone
              have hCode := congrArg UInt8.toNat hSame
              rw [toNat_ofNat (by omega), toNat_ofNat (by omega)]
                at hCode
              rw [Char.toNat_inj.mp hCode, hNone]
              exact ⟨[], cs, rfl, rfl, rfl⟩
            · cases hNone

end FixedPage.Text.Utf8
