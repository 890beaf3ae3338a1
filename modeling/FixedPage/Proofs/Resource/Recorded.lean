import FixedPage.Proofs.Markup.Written

/-
  This file shows what the stored markup of a dictionary entry
  gives when it is read: the elements that were recorded, inside
  another element of the name of the root. The key is left out,
  and line ends and tabs in values come back as spaces.

  Main declarations:
    * `WellNested`
    * `ResourceEntry.takeAll?`
    * `ResourceEntry.takeAll?_wellNested`
    * `ResourceEntry.readText_markup`
-/

namespace FixedPage

open Markup Text.Utf8

------------------------------------------------------------
-- Nested tags
------------------------------------------------------------

namespace Markup

/- Elements one after the other, with elements in them. -/
inductive WellNested : List Event → Prop
| nil :
    WellNested []
| element
    {name : String}
    {attributes : List Attribute}
    {inner rest : List Event}
    (hName : IsName name)
    (hDistinct : Distinct attributes)
    (hInner : WellNested inner)
    (hRest : WellNested rest) :
    WellNested
      (.startTag name attributes :: (inner ++ .endTag name :: rest))

namespace WellNested

variable {events : List Event}

/- Elements go after others. -/
theorem append
    {more : List Event}
    (hEvents : WellNested events)
    (hMore : WellNested more) :
    WellNested (events ++ more) := by
  induction hEvents with
  | nil => exact hMore
  | element hName hDistinct hInner _ _ ih =>
      simpa only [List.cons_append, List.append_assoc] using
        WellNested.element hName hDistinct hInner ih

/- Nested tags can be written. -/
theorem isTag
    (hEvents : WellNested events) :
    ∀ e ∈ events, IsTag e := by
  induction hEvents with
  | nil => exact nofun
  | element hName hDistinct _ _ ihInner ihRest =>
      intro e hMem
      rcases List.mem_cons.mp hMem with rfl | hMem
      · exact ⟨hName, hDistinct⟩
      · rcases List.mem_append.mp hMem with hMem | hMem
        · exact ihInner e hMem
        · rcases List.mem_cons.mp hMem with rfl | hMem
          · exact hName
          · exact ihRest e hMem

/- Nested tags leave the open elements as they are. -/
theorem fitsOpen
    {openNames : List String}
    {after : List Event}
    (hEvents : WellNested events)
    (hAfter : FitsOpen openNames after) :
    FitsOpen openNames (events ++ after) := by
  induction hEvents generalizing openNames after with
  | nil => exact hAfter
  | @element name attributes inner rest _ _ _ _ ihInner ihRest =>
      have hEnd :
          FitsOpen (name :: openNames) (.endTag name :: (rest ++ after)) :=
        ⟨openNames, rfl, ihRest hAfter⟩
      have hAll := ihInner hEnd
      simp only [List.cons_append, List.append_assoc]
      exact hAll

end WellNested

/- A tag as an entry records it, without the key. -/
def Event.keyless : Event → Event
| .startTag name attributes =>
    .startTag name (attributes.filter (·.name != keyAttribute))
| e => e

/- No attributes are distinct. -/
theorem Distinct.nil :
    Distinct [] :=
  ⟨nofun, List.nodup_nil⟩

/- Distinct attributes are distinct without some of them. -/
theorem Distinct.filter
    {attributes : List Attribute}
    (hDistinct : Distinct attributes)
    (keep : Attribute → Bool) :
    Distinct (attributes.filter keep) :=
  ⟨fun a hMem => hDistinct.named a ((List.mem_filter.mp hMem).1),
    (List.filter_sublist.map _).nodup hDistinct.nodup⟩

/- Nested tags are nested without their keys. -/
theorem WellNested.keyless
    {events : List Event}
    (hEvents : WellNested events) :
    WellNested (events.map Event.keyless) := by
  induction hEvents with
  | nil => exact .nil
  | element hName hDistinct _ _ ihInner ihRest =>
      rw [List.map_cons, List.map_append, List.map_cons]
      exact .element hName (hDistinct.filter _) ihInner ihRest

end Markup

------------------------------------------------------------
-- Lines
------------------------------------------------------------

/- The characters of joined texts. -/
theorem toList_join
    (texts : List String) :
    (String.join texts).toList = texts.flatMap String.toList := by
  have hFold :
      ∀ (front : String),
        (texts.foldl (fun r s => r ++ s) front).toList =
          front.toList ++ texts.flatMap String.toList := by
    induction texts with
    | nil => simp
    | cons text texts ih =>
        intro front
        rw [List.foldl_cons, ih, String.toList_append,
          List.flatMap_cons, List.append_assoc]
  simp [String.join, hFold]

namespace ResourceEntry

/- The line of a recorded start tag. -/
theorem encode_startTagText
    (name : String)
    (attributes : List Attribute) :
    encode (startTagText name attributes).toList =
      tagBytes (Event.startTag name attributes).keyless
        ++ [byte '\n'] := by
  unfold startTagText
  simp only [String.toList_append, encode_append, toList_join,
    Event.keyless, tagBytes, startContent]
  generalize attributes.filter (·.name != keyAttribute) = kept
  have hJoin :
      encode ((kept.map attributeText).flatMap String.toList) =
        kept.flatMap fun a => encode (attributeText a).toList := by
    induction kept with
    | nil => rfl
    | cons a kept ih =>
        rw [List.map_cons, List.flatMap_cons, List.flatMap_cons,
          encode_append, ih]
  rw [hJoin]
  simp only [List.append_assoc, List.cons_append, List.nil_append]
  rfl

/- The line of a recorded end tag. -/
theorem encode_endTagText
    (name : String) :
    encode (endTagText name).toList =
      tagBytes (Event.endTag name) := by
  unfold endTagText
  simp only [String.toList_append, encode_append, tagBytes,
    List.append_assoc]
  rfl

------------------------------------------------------------
-- Entries
------------------------------------------------------------

/- Records one event; there is no entry after the end of the root. -/
def take?
    (entry : ResourceEntry) :
    Event → Option ResourceEntry
| .startTag name attributes => some (entry.startChild name attributes)
| .endTag name => entry.endElement? name
| .text _ => some entry

/- Records several events. -/
def takeAll?
    (entry : ResourceEntry)
    (events : List Event) : Option ResourceEntry :=
  events.foldlM take? entry

@[simp] theorem takeAll?_cons
    (entry : ResourceEntry)
    (e : Event)
    (rest : List Event) :
    entry.takeAll? (e :: rest) =
      (entry.take? e).bind fun next => next.takeAll? rest :=
  rfl

@[simp] theorem takeAll?_append
    (entry : ResourceEntry)
    (events more : List Event) :
    entry.takeAll? (events ++ more) =
      (entry.takeAll? events).bind fun next => next.takeAll? more :=
  List.foldlM_append

/- The bytes of a tag on a line of its own. -/
def lineBytes
    (e : Event) : List UInt8 :=
  tagBytes e.keyless ++ [byte '\n']

/- Nested tags are recorded line by line. -/
theorem takeAll?_wellNested
    {events : List Event}
    (hEvents : WellNested events)
    (entry : ResourceEntry) :
    ∃ written,
      entry.takeAll? events = some { entry with written := written } ∧
        encode written.toList =
          encode entry.written.toList ++ events.flatMap lineBytes := by
  induction hEvents generalizing entry with
  | nil => exact ⟨entry.written, rfl, by simp⟩
  | @element name attributes inner rest _ _ _ _ ihInner ihRest =>
      rcases ihInner (entry.startChild name attributes) with
        ⟨within, hInner, hWithin⟩
      rcases ihRest
        { entry with written := within ++ endTagText name ++ "\n" } with
        ⟨written, hRest, hWritten⟩
      refine ⟨written, ?_, ?_⟩
      · have hEnd :
            take?
                { entry.startChild name attributes with
                  written := within }
                (.endTag name) =
              some
                { entry with
                  written := within ++ endTagText name ++ "\n" } :=
          rfl
        have hStart :
            entry.take? (.startTag name attributes) =
              some (entry.startChild name attributes) :=
          rfl
        rw [takeAll?_cons, hStart, Option.bind_some, takeAll?_append,
          hInner, Option.bind_some, takeAll?_cons, hEnd]
        exact hRest
      · rw [hWritten]
        simp only [String.toList_append, encode_append, hWithin,
          startChild, encode_startTagText, encode_endTagText,
          List.flatMap_cons, List.flatMap_append, lineBytes,
          List.append_assoc]
        rfl

/- Some tags, each but the first one on a line of its own. -/
def rows : List Event → List SpacedTag
| [] => []
| e :: rest => ⟨[], e⟩ :: rest.map (⟨[byte '\n'], ·⟩)

/- The tags of rows. -/
theorem map_tag_rows
    (events : List Event) :
    (rows events).map SpacedTag.tag = events := by
  cases events with
  | nil => rfl
  | cons e rest =>
      simp [rows, Function.comp_def]

/- Only line ends stand in front of the tags of rows. -/
theorem rows_valid
    {events : List Event}
    (hTags : ∀ e ∈ events, IsTag e) :
    ∀ t ∈ rows events, t.Valid := by
  cases events with
  | nil => exact nofun
  | cons e rest =>
      intro t hMem
      rcases List.mem_cons.mp hMem with rfl | hMem
      · exact ⟨nofun, hTags e (.head _)⟩
      · rcases List.mem_map.mp hMem with ⟨f, hRest, rfl⟩
        refine ⟨?_, hTags f (.tail _ hRest)⟩
        intro b hByte
        rw [List.mem_singleton.mp hByte]
        rfl

/- Nested tags on lines of their own are read. -/
theorem readUtf8_wellNested
    {events : List Event}
    (hEvents : WellNested events)
    (source : String) :
    (readUtf8 source ((rows events).flatMap SpacedTag.bytes)).map
        Item.event =
      events.map fun e => .ok e.normalized := by
  cases events with
  | nil => rfl
  | cons e rest =>
      have hFits : FitsOpen [] ((e :: rest) ++ []) :=
        hEvents.fitsOpen trivial
      rw [List.append_nil, ← map_tag_rows (e :: rest)] at hFits
      have hRead :=
        readUtf8_rows rfl (rows_valid hEvents.isTag) hFits source
      have hTags :
          (rows (e :: rest)).map (fun t => .ok t.tag.normalized) =
            ((rows (e :: rest)).map SpacedTag.tag).map
              fun e => (.ok e.normalized : Except Error Event) := by
        rw [List.map_map]
        rfl
      rw [map_tag_rows] at hTags
      exact hRead.trans hTags

/- The line ends stand between tags, or after all of them. -/
theorem bytes_rows
    (e : Event)
    (rest : List Event) :
    (rows (e :: rest)).flatMap SpacedTag.bytes ++ [byte '\n'] =
      (e :: rest).flatMap fun e => tagBytes e ++ [byte '\n'] := by
  have hRest :
      (rest.map (SpacedTag.mk [byte '\n'])).flatMap SpacedTag.bytes
          ++ [byte '\n'] =
        byte '\n' ::
          rest.flatMap fun e => tagBytes e ++ [byte '\n'] := by
    induction rest with
    | nil => rfl
    | cons e rest ih =>
        rw [List.map_cons, List.flatMap_cons, List.append_assoc, ih,
          List.flatMap_cons]
        simp [SpacedTag.bytes]
  simp only [rows, List.flatMap_cons, List.append_assoc, hRest]
  simp [SpacedTag.bytes]

/- The tags of the markup of an entry with some tags in its root. -/
def markupEvents
    (name : String)
    (attributes : List Attribute)
    (inner : List Event) : List Event :=
  .startTag name [] :: .startTag name attributes
    :: (inner ++ [.endTag name, .endTag name])

/-
  The markup of an entry gives the root without attributes, what
  was recorded without its keys, and the ends of both.
-/
theorem readText_markup
    {name : String}
    {attributes : List Attribute}
    {inner : List Event}
    (hName : IsName name)
    (hDistinct : Distinct attributes)
    (hInner : WellNested inner)
    (key source : String) :
    ∃ entry,
      (ResourceEntry.begin key name attributes).takeAll? inner =
        some entry ∧
      entry.key = key ∧
      (readText source entry.markup).map Item.event =
        (markupEvents name attributes inner).map fun e =>
          .ok e.keyless.normalized := by
  rcases takeAll?_wellNested hInner
    (ResourceEntry.begin key name attributes) with
    ⟨written, hTake, hWritten⟩
  refine ⟨_, hTake, rfl, ?_⟩
  have hNested :
      WellNested ((markupEvents name attributes inner).map
        Event.keyless) := by
    have hRoot :=
      WellNested.element hName hDistinct hInner .nil
    have hAll :=
      WellNested.element hName .nil hRoot .nil
    simpa [markupEvents] using hAll.keyless
  have hLines :
      encode (ResourceEntry.markup
          { ResourceEntry.begin key name attributes with
            written := written }).toList ++ [byte '\n'] =
        ((markupEvents name attributes inner).map
          Event.keyless).flatMap fun e => tagBytes e ++ [byte '\n'] := by
    have hWrapper :
        encode ("<" ++ name ++ ">\n").toList =
          tagBytes (.startTag name []) ++ [byte '\n'] := by
      simp only [String.toList_append, encode_append, tagBytes,
        startContent, List.flatMap_nil, List.append_nil,
        List.append_assoc, List.cons_append]
      rfl
    simp only [ResourceEntry.begin] at hWritten
    rw [String.toList_append, encode_append, hWrapper,
      encode_startTagText] at hWritten
    unfold ResourceEntry.markup
    simp only [String.toList_append, encode_append, hWritten,
      encode_endTagText, markupEvents, List.map_cons, List.map_append,
      List.flatMap_cons, List.flatMap_append, List.flatMap_map,
      ResourceEntry.begin, List.append_assoc]
    rfl
  have hBytes :
      encode (ResourceEntry.markup
          { ResourceEntry.begin key name attributes with
            written := written }).toList =
        (rows ((markupEvents name attributes inner).map
          Event.keyless)).flatMap SpacedTag.bytes :=
    List.append_cancel_right (hLines.trans (bytes_rows _ _).symm)
  have hRead := readUtf8_wellNested hNested source
  rw [← hBytes, List.map_map] at hRead
  exact hRead

end ResourceEntry

end FixedPage
