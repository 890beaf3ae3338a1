import FixedPage.Markup.Reader
import FixedPage.Proofs.Markup.Attribute

/-
  This file shows that written markup is read again: tags on
  lines of their own give the events they were written for, in
  order and without a fault, if the end tags fit the open
  elements.

  Main declarations:
    * `Tag.read_startContent`
    * `cut?_tag`
    * `FitsOpen`
    * `readUtf8_rows`
-/

namespace FixedPage.Markup

open Text.Utf8

------------------------------------------------------------
-- Start tags
------------------------------------------------------------

/- Attributes with names that are distinct. -/
structure Distinct
    (attributes : List Attribute) : Prop where
  named : ∀ a ∈ attributes, IsName a.name
  nodup : (attributes.map Attribute.name).Nodup

instance
    (attributes : List Attribute) : Decidable (Distinct attributes) :=
  decidable_of_iff
    ((∀ a ∈ attributes, IsName a.name) ∧
      (attributes.map Attribute.name).Nodup)
    ⟨fun hDistinct => ⟨hDistinct.1, hDistinct.2⟩,
      fun hDistinct => ⟨hDistinct.named, hDistinct.nodup⟩⟩

/- What stands between the brackets of a written start tag. -/
def startContent
    (name : String)
    (attributes : List Attribute) : List UInt8 :=
  encode name.toList
    ++ attributes.flatMap fun a =>
      encode (ResourceEntry.attributeText a).toList

/- The bytes in front of others are taken up to a space. -/
theorem nameBytes_startContent
    {name : String}
    (hName : IsName name)
    (attributes : List Attribute) :
    Tag.nameBytes (startContent name attributes) =
      encode name.toList := by
  have hFront : ∀ b ∈ encode name.toList, (!isSpace b) = true := by
    intro b hMem
    rw [hName.isSpace_eq hMem]
    rfl
  unfold Tag.nameBytes startContent
  rw [List.takeWhile_append_of_pos hFront]
  cases attributes with
  | nil => simp
  | cons a rest =>
      rw [List.flatMap_cons, encode_attributeText, List.cons_append,
        List.takeWhile_cons_of_neg (by decide), List.append_nil]

/- A written start tag is read. -/
theorem Tag.read_startContent
    {name : String}
    {attributes : List Attribute}
    (hName : IsName name)
    (hDistinct : Distinct attributes) :
    Tag.read (startContent name attributes) =
      .ok (.startTag name (attributes.map Attribute.normalized)) := by
  have hRun :
      Scanner.run ⟨.gap, [], []⟩ (encode name.toList).length
          (attributes.flatMap fun a =>
            encode (ResourceEntry.attributeText a).toList) =
        .ok ([].reverse ++ attributes.map Attribute.normalized) :=
    Scanner.run_attributes hDistinct.named hDistinct.nodup
      (fun _ _ _ hKey => (List.not_mem_nil hKey).elim) _
  have hDrop :
      (startContent name attributes).drop
          (encode name.toList).length =
        attributes.flatMap fun a =>
          encode (ResourceEntry.attributeText a).toList := by
    unfold startContent
    exact List.drop_left
  unfold Tag.read
  rw [nameBytes_startContent hName]
  dsimp only [Scanner.initial]
  rw [decodeText_encode, hDrop, hRun]
  rfl

------------------------------------------------------------
-- Contents of tags
------------------------------------------------------------

/- Bytes without quotes and brackets belong to the content. -/
theorem tagContent?_plain
    {bs : List UInt8}
    (hPlain :
      ∀ b ∈ bs, b ≠ byte '>' ∧ b ≠ byte '"' ∧ b ≠ byte '\'')
    (rest : List UInt8) :
    tagContent? none (bs ++ rest) =
      (tagContent? none rest).map (bs ++ ·) := by
  induction bs with
  | nil => simp
  | cons b bs ih =>
      have hFirst := hPlain b (.head _)
      have hQuote : quoteOf? b = none := by
        simp [quoteOf?, hFirst.2.1, hFirst.2.2]
      rw [List.cons_append, tagContent?, if_neg (by simpa using hFirst.1),
        hQuote, ih fun c hMem => hPlain c (.tail _ hMem),
        Option.map_map]
      rfl

/- Bytes inside quotes belong to the content. -/
theorem tagContent?_quoted
    {bs : List UInt8}
    {quote : UInt8}
    (hPlain : ∀ b ∈ bs, b ≠ quote)
    (rest : List UInt8) :
    tagContent? (some quote) (bs ++ quote :: rest) =
      (tagContent? none rest).map (bs ++ quote :: ·) := by
  induction bs with
  | nil => simp [tagContent?]
  | cons b bs ih =>
      rw [List.cons_append, tagContent?,
        if_neg (by simpa using hPlain b (.head _)),
        ih fun c hMem => hPlain c (.tail _ hMem), Option.map_map]
      rfl

/- A name belongs to the content. -/
theorem tagContent?_name
    {name : String}
    (hName : IsName name)
    (rest : List UInt8) :
    tagContent? none (encode name.toList ++ rest) =
      (tagContent? none rest).map (encode name.toList ++ ·) :=
  tagContent?_plain
    (fun _ hMem =>
      ⟨hName.byte_ne hMem (by decide) (by decide),
        hName.byte_ne hMem (by decide) (by decide),
        hName.byte_ne hMem (by decide) (by decide)⟩)
    rest

/- A written attribute belongs to the content. -/
theorem tagContent?_attribute
    {a : Attribute}
    (hName : IsName a.name)
    (rest : List UInt8) :
    tagContent? none
        (encode (ResourceEntry.attributeText a).toList ++ rest) =
      (tagContent? none rest).map
        (encode (ResourceEntry.attributeText a).toList ++ ·) := by
  have hValue :
      ∀ b ∈ encode (escape a.value).toList, b ≠ byte '"' := by
    rintro b hMem rfl
    exact (escape_plain (mem_of_byte_mem (by decide) hMem)).1 rfl
  have hSpace :
      ∀ bs, tagContent? none (byte ' ' :: bs) =
        (tagContent? none bs).map (byte ' ' :: ·) :=
    fun _ => rfl
  have hEquals :
      ∀ bs, tagContent? none (byte '=' :: byte '"' :: bs) =
        (tagContent? (some (byte '"')) bs).map
          (byte '=' :: byte '"' :: ·) := by
    intro bs
    have hQuote :
        tagContent? none (byte '"' :: bs) =
          (tagContent? (some (byte '"')) bs).map (byte '"' :: ·) :=
      rfl
    have hSign :
        tagContent? none (byte '=' :: byte '"' :: bs) =
          (tagContent? none (byte '"' :: bs)).map (byte '=' :: ·) :=
      rfl
    rw [hSign, hQuote, Option.map_map]
    rfl
  rw [encode_attributeText]
  simp only [List.cons_append, List.append_assoc, List.nil_append]
  rw [hSpace, tagContent?_name hName, hEquals,
    tagContent?_quoted hValue]
  cases tagContent? none rest <;> simp

/- What stands between the brackets of a start tag is its content. -/
theorem tagContent?_startContent
    {name : String}
    {attributes : List Attribute}
    (hName : IsName name)
    (hNames : ∀ a ∈ attributes, IsName a.name)
    (rest : List UInt8) :
    tagContent? none (startContent name attributes ++ byte '>' :: rest) =
      some (startContent name attributes) := by
  have hAttributes :
      tagContent? none
          (attributes.flatMap (fun a =>
            encode (ResourceEntry.attributeText a).toList)
              ++ byte '>' :: rest) =
        some
          (attributes.flatMap fun a =>
            encode (ResourceEntry.attributeText a).toList) := by
    induction attributes with
    | nil => rfl
    | cons a attributes ih =>
        rw [List.flatMap_cons, List.append_assoc,
          tagContent?_attribute (hNames a (.head _)),
          ih fun b hMem => hNames b (.tail _ hMem)]
        rfl
  unfold startContent
  rw [List.append_assoc, tagContent?_name hName, hAttributes]
  rfl

------------------------------------------------------------
-- Tags
------------------------------------------------------------

/- The bytes of a written tag. -/
def tagBytes : Event → List UInt8
| .startTag name attributes =>
    byte '<' :: (startContent name attributes ++ [byte '>'])
| .endTag name =>
    byte '<' :: byte '/' :: (encode name.toList ++ [byte '>'])
| .text _ => []

/- The token of a written tag. -/
def tagToken : Event → Token
| .startTag name attributes => .startTag (startContent name attributes)
| .endTag name => .endTag (encode name.toList)
| .text _ => .skipped

/- A tag that can be written. -/
def IsTag : Event → Prop
| .startTag name attributes => IsName name ∧ Distinct attributes
| .endTag name => IsName name
| .text _ => False

/- The content of a start tag does not end in a slash. -/
theorem getLast?_startContent
    {name : String}
    (hName : IsName name)
    (attributes : List Attribute) :
    (startContent name attributes).getLast? ≠ some (byte '/') := by
  intro hLast
  unfold startContent at hLast
  rcases attributes.eq_nil_or_concat with rfl | ⟨front, a, rfl⟩
  · rw [List.flatMap_nil, List.append_nil] at hLast
    exact
      hName.byte_ne (List.mem_of_getLast? hLast) (by decide)
        (by decide) rfl
  · rw [List.concat_eq_append, List.flatMap_append,
      List.flatMap_singleton,
      encode_attributeText] at hLast
    simp [List.getLast?_append, List.getLast?_cons] at hLast
    revert hLast
    decide

/- A written start tag is cut off. -/
theorem cutMarkup_start
    {name : String}
    {attributes : List Attribute}
    (hName : IsName name)
    (hNames : ∀ a ∈ attributes, IsName a.name)
    (rest : List UInt8) :
    cutMarkup (startContent name attributes ++ byte '>' :: rest) =
      ⟨.ok (.startTag (startContent name attributes)),
        (startContent name attributes).length + 2⟩ := by
  have hContent := tagContent?_startContent hName hNames rest
  have hLast := getLast?_startContent hName attributes
  rcases List.exists_cons_of_ne_nil hName.encode_ne_nil with
    ⟨b, bs, hFirst⟩
  have hMem : b ∈ encode name.toList := by
    rw [hFirst]
    exact .head _
  have hNot :
      b ≠ byte '!' ∧ b ≠ byte '?' ∧ b ≠ byte '/' :=
    ⟨hName.byte_ne hMem (by decide) (by decide),
      hName.byte_ne hMem (by decide) (by decide),
      hName.byte_ne hMem (by decide) (by decide)⟩
  have hCons :
      startContent name attributes =
        b :: (bs ++ attributes.flatMap fun a =>
          encode (ResourceEntry.attributeText a).toList) := by
    unfold startContent
    rw [hFirst]
    rfl
  rw [hCons] at hContent hLast ⊢
  rw [List.cons_append] at hContent ⊢
  simp only [cutMarkup, beq_iff_eq, hNot.1, hNot.2.1, hNot.2.2,
    if_false, hContent, hLast]

/- A written end tag is cut off. -/
theorem cutMarkup_end
    {name : String}
    (hName : IsName name)
    (rest : List UInt8) :
    cutMarkup (byte '/' :: (encode name.toList ++ byte '>' :: rest)) =
      ⟨.ok (.endTag (encode name.toList)),
        (encode name.toList).length + 3⟩ := by
  have hContent :
      tagContent? none
          (byte '/' :: (encode name.toList ++ byte '>' :: rest)) =
        some (byte '/' :: encode name.toList) := by
    have hSlash :
        ∀ bs, tagContent? none (byte '/' :: bs) =
          (tagContent? none bs).map (byte '/' :: ·) :=
      fun _ => rfl
    have hEnd : tagContent? none (byte '>' :: rest) = some [] := rfl
    rw [hSlash, tagContent?_name hName, hEnd]
    simp
  have hTrim : trimEnd (encode name.toList) = encode name.toList := by
    unfold trimEnd
    cases hBack : (encode name.toList).reverse with
    | nil =>
        exact
          absurd (List.reverse_eq_nil_iff.mp hBack)
            hName.encode_ne_nil
    | cons b bs =>
        have hMem : b ∈ encode name.toList := by
          rw [← List.mem_reverse, hBack]
          exact .head _
        rw [List.dropWhile_cons_of_neg (by simp [hName.isSpace_eq hMem]),
          ← hBack, List.reverse_reverse]
  have hBang : (byte '/' == byte '!') = false := by decide
  have hAsk : (byte '/' == byte '?') = false := by decide
  simp [cutMarkup, hBang, hAsk, hContent, hTrim,
    hName.encode_ne_nil]

/- A written tag is cut off, and the spaces in front of it. -/
theorem cut?_tag
    {e : Event}
    {lead : List UInt8}
    (hTag : IsTag e)
    (hLead : ∀ b ∈ lead, isSpace b = true)
    (rest : List UInt8) :
    cut? (lead ++ (tagBytes e ++ rest)) =
      some ⟨.ok (tagToken e), (lead ++ tagBytes e).length⟩ := by
  have hSpaces :
      ∀ bs, (lead ++ byte '<' :: bs).takeWhile isSpace = lead := by
    intro bs
    rw [List.takeWhile_append_of_pos hLead,
      List.takeWhile_cons_of_neg (by decide), List.append_nil]
  have hCut :
      ∀ bs, cut? (lead ++ byte '<' :: bs) =
        some { cutMarkup bs with
          size := lead.length + ((cutMarkup bs).size) } := by
    intro bs
    unfold cut?
    rw [hSpaces]
    dsimp only
    rw [List.drop_left]
    rfl
  cases e with
  | text content => cases hTag
  | startTag name attributes =>
      simp only [tagBytes, List.cons_append, List.append_assoc,
        List.nil_append]
      rw [hCut, cutMarkup_start hTag.1 hTag.2.named]
      simp [tagToken]
  | endTag name =>
      simp only [tagBytes, List.cons_append, List.append_assoc,
        List.nil_append]
      rw [hCut, cutMarkup_end hTag]
      simp [tagToken]

------------------------------------------------------------
-- Rows of tags
------------------------------------------------------------

/- A tag and the spaces in front of it. -/
structure SpacedTag where
  lead : List UInt8
  tag : Event

/- The bytes of a tag and of the spaces in front of it. -/
def SpacedTag.bytes
    (t : SpacedTag) : List UInt8 :=
  t.lead ++ tagBytes t.tag

/- A tag that can be written, with only spaces in front of it. -/
structure SpacedTag.Valid
    (t : SpacedTag) : Prop where
  spaces : ∀ b ∈ t.lead, isSpace b = true
  tag : IsTag t.tag

/- How a tag and the spaces in front of it are cut off. -/
def SpacedTag.cut
    (t : SpacedTag) : Cut :=
  ⟨.ok (tagToken t.tag), t.bytes.length⟩

/- A row of tags is cut into them. -/
theorem cutAll_rows
    {rows : List SpacedTag}
    (hValid : ∀ t ∈ rows, t.Valid)
    {fuel : Nat}
    (hFuel : rows.length ≤ fuel) :
    cutAll fuel (rows.flatMap SpacedTag.bytes) =
      rows.map SpacedTag.cut := by
  induction rows generalizing fuel with
  | nil => cases fuel <;> rfl
  | cons t rows ih =>
      cases fuel with
      | zero => cases hFuel
      | succ fuel =>
          have hFirst := hValid t (.head _)
          have hRest :=
            ih (fun u hMem => hValid u (.tail _ hMem))
              (Nat.le_of_succ_le_succ hFuel)
          have hCut :=
            cut?_tag hFirst.tag hFirst.spaces
              (rows.flatMap SpacedTag.bytes)
          rw [← List.append_assoc] at hCut
          rw [List.flatMap_cons, SpacedTag.bytes, cutAll, hCut]
          dsimp only
          rw [List.drop_left, hRest]
          rfl

/- A tag takes some bytes. -/
theorem tagBytes_ne_nil
    {e : Event}
    (hTag : IsTag e) :
    1 ≤ (tagBytes e).length := by
  cases e with
  | text content => cases hTag
  | startTag name attributes => exact Nat.le_add_left 1 _
  | endTag name => exact Nat.le_add_left 1 _

/- A row has no more tags than bytes. -/
theorem length_le_rows
    {rows : List SpacedTag}
    (hValid : ∀ t ∈ rows, t.Valid) :
    rows.length ≤ (rows.flatMap SpacedTag.bytes).length := by
  induction rows with
  | nil => exact Nat.zero_le 0
  | cons t rows ih =>
      have hRest := ih fun u hMem => hValid u (.tail _ hMem)
      have hFirst := tagBytes_ne_nil (hValid t (.head _)).tag
      rw [List.flatMap_cons, List.length_append, SpacedTag.bytes,
        List.length_append, List.length_cons]
      omega

------------------------------------------------------------
-- Events
------------------------------------------------------------

/- The end tags fit the open elements, the innermost first. -/
def FitsOpen : List String → List Event → Prop
| _, [] => True
| openNames, .startTag name _ :: rest =>
    FitsOpen (name :: openNames) rest
| openNames, .endTag name :: rest =>
    ∃ outer, openNames = name :: outer ∧ FitsOpen outer rest
| openNames, .text _ :: rest => FitsOpen openNames rest

/- An event as it is read back. -/
def Event.normalized : Event → Event
| .startTag name attributes =>
    .startTag name (attributes.map Attribute.normalized)
| e => e

/- The token of a tag that fits is read as the tag. -/
theorem interpret_tagToken
    {e : Event}
    {openNames : List String}
    {rest : List Event}
    (hTag : IsTag e)
    (hFits : FitsOpen openNames (e :: rest)) :
    ∃ inner,
      interpret (openNames.map fun name => encode name.toList)
          (tagToken e) =
        .ok ([e.normalized],
          inner.map fun name => encode name.toList) ∧
      FitsOpen inner rest := by
  cases e with
  | text content => cases hTag
  | startTag name attributes =>
      refine ⟨name :: openNames, ?_, hFits⟩
      simp only [tagToken, interpret, nameBytes_startContent hTag.1,
        Tag.read_startContent hTag.1 hTag.2]
      rfl
  | endTag name =>
      rcases hFits with ⟨outer, rfl, hRest⟩
      refine ⟨outer, ?_, hRest⟩
      simp only [tagToken, interpret, List.map_cons, BEq.rfl, if_true,
        decodeText_encode]
      rfl

/- The event of an item. -/
def Item.event
    (i : Item) : Except Error Event :=
  i.map Prod.snd

/- A row of tags that fit is read as the tags. -/
theorem items_rows
    {rows : List SpacedTag}
    {openNames : List String}
    (hValid : ∀ t ∈ rows, t.Valid)
    (hFits : FitsOpen openNames (rows.map SpacedTag.tag))
    (source : String)
    (offset : Nat)
    (view : List UInt8)
    (cursor : Cursor) :
    (items source offset view cursor
        (openNames.map fun name => encode name.toList)
        (rows.map SpacedTag.cut)).map Item.event =
      rows.map fun t => .ok t.tag.normalized := by
  induction rows generalizing openNames offset view cursor with
  | nil => rfl
  | cons t rows ih =>
      have hFirst := hValid t (.head _)
      rcases interpret_tagToken hFirst.tag hFits with
        ⟨inner, hInterpret, hInner⟩
      have hRest := ih (fun u hMem => hValid u (.tail _ hMem)) hInner
      rw [List.map_cons, items]
      dsimp only [SpacedTag.cut]
      rw [hInterpret]
      dsimp only
      rw [List.map_append, hRest]
      rfl

/- A row of tags is read as the tags from its bytes. -/
theorem readUtf8_rows
    {t : SpacedTag}
    {rows : List SpacedTag}
    (hStart : t.lead = [])
    (hValid : ∀ u ∈ t :: rows, u.Valid)
    (hFits : FitsOpen [] ((t :: rows).map SpacedTag.tag))
    (source : String) :
    (readUtf8 source ((t :: rows).flatMap SpacedTag.bytes)).map
        Item.event =
      (t :: rows).map fun u => .ok u.tag.normalized := by
  have hMark :
      Encoding.dropMark ((t :: rows).flatMap SpacedTag.bytes) =
        (t :: rows).flatMap SpacedTag.bytes := by
    have hTag := (hValid t (.head _)).tag
    rw [List.flatMap_cons, SpacedTag.bytes, hStart, List.nil_append]
    cases hEvent : t.tag with
    | startTag name attributes => rfl
    | endTag name => rfl
    | text content =>
        rw [hEvent] at hTag
        cases hTag
  unfold readUtf8 cuts
  rw [hMark, cutAll_rows hValid (length_le_rows hValid)]
  have hItems := items_rows hValid hFits source 0
  exact hItems _ _

end FixedPage.Markup
