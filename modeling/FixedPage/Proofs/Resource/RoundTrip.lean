import FixedPage.Proofs.Resource.Recorded

/-
  This file says when the stored markup of a dictionary entry is
  read back as it was recorded: when no tag below the root names
  an entry and no value that is kept holds tabs or line ends.

  Main declarations:
    * `Plain`
    * `Event.Unkeyed`
    * `Event.Plain`
    * `ResourceEntry.readText_markup_iff`
-/

namespace FixedPage

open Markup

------------------------------------------------------------
-- Values
------------------------------------------------------------

namespace Markup

/- A value without tabs and line ends. -/
def Plain
    (value : String) : Prop :=
  ∀ c ∈ value.toList, c ∉ ['\t', '\n', '\r']

instance
    (value : String) : Decidable (Plain value) :=
  List.decidableBAll (· ∉ ['\t', '\n', '\r']) value.toList

/- Only tabs and line ends become other characters. -/
theorem normalizeChar_eq_self_iff
    (c : Char) :
    Tag.normalizeChar c = c ↔ c ∉ ['\t', '\n', '\r'] := by
  unfold Tag.normalizeChar
  simp only [List.mem_cons, List.not_mem_nil, or_false]
  split
  · rename_i hBlank
    simp only [Bool.or_eq_true, beq_iff_eq, or_assoc] at hBlank
    constructor
    · rintro rfl
      exact absurd hBlank (by decide)
    · exact fun hNot => absurd hBlank hNot
  · rename_i hPlain
    simpa [or_assoc] using hPlain

/- Just the plain values are read back as they are. -/
theorem normalizeValue_eq_self_iff
    (value : String) :
    normalizeValue value = value ↔ Plain value := by
  have hText :
      normalizeValue value = value ↔
        value.toList.map Tag.normalizeChar = value.toList.map id := by
    unfold normalizeValue
    rw [List.map_id]
    constructor
    · intro hSame
      rw [← String.toList_ofList (l := value.toList.map _), hSame]
    · intro hSame
      rw [hSame, String.ofList_toList]
  rw [hText, List.map_inj_left]
  exact forall₂_congr fun c _ => normalizeChar_eq_self_iff c

/- Just the attributes with plain values are. -/
theorem Attribute.normalized_eq_self_iff
    (a : Attribute) :
    a.normalized = a ↔ Plain a.value := by
  rcases a with ⟨name, value⟩
  unfold Attribute.normalized
  rw [Attribute.mk.injEq, normalizeValue_eq_self_iff]
  exact and_iff_right rfl

------------------------------------------------------------
-- Tags
------------------------------------------------------------

namespace Event

/- A tag that does not name an entry. -/
def Unkeyed : Event → Prop
| .startTag _ attributes => ∀ a ∈ attributes, a.name ≠ keyAttribute
| _ => True

/- A tag with plain values, whatever the key is. -/
def Plain : Event → Prop
| .startTag _ attributes =>
    ∀ a ∈ attributes, a.name ≠ keyAttribute → Markup.Plain a.value
| _ => True

instance : DecidablePred Unkeyed
| .startTag _ attributes =>
    List.decidableBAll
      (fun a : Attribute => a.name ≠ keyAttribute) attributes
| .endTag _ => .isTrue trivial
| .text _ => .isTrue trivial

instance : DecidablePred Plain
| .startTag _ attributes =>
    List.decidableBAll
      (fun a : Attribute =>
        a.name ≠ keyAttribute → Markup.Plain a.value)
      attributes
| .endTag _ => .isTrue trivial
| .text _ => .isTrue trivial

/- Just the tags without a key stay when it is left out. -/
theorem keyless_eq_self_iff
    (e : Event) :
    e.keyless = e ↔ e.Unkeyed := by
  cases e with
  | startTag name attributes =>
      simp [keyless, Unkeyed, List.filter_eq_self]
  | endTag name => simp [keyless, Unkeyed]
  | text content => simp [keyless, Unkeyed]

/- Just the plain tags are read back as they are without a key. -/
theorem normalized_keyless_eq_iff
    (e : Event) :
    e.keyless.normalized = e.keyless ↔ e.Plain := by
  cases e with
  | startTag name attributes =>
      simp only [keyless, normalized, startTag.injEq, true_and]
      rw [← List.map_id (attributes.filter _), List.map_map,
        List.map_inj_left]
      simp [Plain, Attribute.normalized_eq_self_iff]
  | endTag name => simp [keyless, normalized, Plain]
  | text content => simp [keyless, normalized, Plain]

/- Just the plain tags without a key are read back as they are. -/
theorem normalized_keyless_eq_self_iff
    (e : Event) :
    e.keyless.normalized = e ↔ e.Unkeyed ∧ e.Plain := by
  constructor
  · intro hSame
    have hUnkeyed : e.Unkeyed := by
      rw [← hSame]
      cases e with
      | startTag name attributes =>
          intro a hMem
          rcases List.mem_map.mp hMem with ⟨b, hKept, rfl⟩
          exact bne_iff_ne.mp (List.mem_filter.mp hKept).2
      | endTag name => trivial
      | text content => trivial
    have hKeyless := e.keyless_eq_self_iff.mpr hUnkeyed
    refine ⟨hUnkeyed, e.normalized_keyless_eq_iff.mp ?_⟩
    rw [hSame, hKeyless]
  · rintro ⟨hUnkeyed, hPlain⟩
    rw [e.normalized_keyless_eq_iff.mpr hPlain]
    exact e.keyless_eq_self_iff.mpr hUnkeyed

end Event

end Markup

------------------------------------------------------------
-- Entries
------------------------------------------------------------

namespace ResourceEntry

/-
  The tags of the markup of an entry, if only the root loses its
  key and no value changes.
-/
def recordedEvents
    (name : String)
    (attributes : List Attribute)
    (inner : List Event) : List Event :=
  .startTag name []
    :: .startTag name (attributes.filter (·.name != keyAttribute))
    :: (inner ++ [.endTag name, .endTag name])

/- When the tags of an entry come back as they were recorded. -/
theorem markupEvents_stored_iff
    (name : String)
    (attributes : List Attribute)
    (inner : List Event) :
    (markupEvents name attributes inner).map
          (fun e => e.keyless.normalized) =
        recordedEvents name attributes inner ↔
      (∀ e ∈ inner, e.Unkeyed) ∧
        ∀ e ∈ Event.startTag name attributes :: inner, e.Plain := by
  have hInner :
      inner.map (fun e => e.keyless.normalized) = inner ↔
        ∀ e ∈ inner, e.Unkeyed ∧ e.Plain := by
    have hId :
        ∀ events, events = inner ↔ events = inner.map id := by
      intro events
      rw [List.map_id]
    rw [hId, List.map_inj_left]
    exact forall₂_congr fun e _ => e.normalized_keyless_eq_self_iff
  have hRoot :=
    (Event.startTag name attributes).normalized_keyless_eq_iff
  have hEnds :
      [Event.endTag name, Event.endTag name].map
          (fun e => e.keyless.normalized) =
        [.endTag name, .endTag name] :=
    rfl
  have hWrapper :
      (Event.startTag name []).keyless.normalized =
        .startTag name [] :=
    rfl
  unfold markupEvents recordedEvents
  rw [List.map_cons, List.map_cons, List.map_append, hEnds, hWrapper,
    List.cons.injEq, List.cons.injEq, List.append_left_inj, hInner]
  simp only [true_and, List.forall_mem_cons]
  rw [← hRoot]
  constructor
  · rintro ⟨hFirst, hAll⟩
    exact
      ⟨fun e hMem => (hAll e hMem).1, hFirst,
        fun e hMem => (hAll e hMem).2⟩
  · rintro ⟨hUnkeyed, hFirst, hPlain⟩
    exact ⟨hFirst, fun e hMem => ⟨hUnkeyed e hMem, hPlain e hMem⟩⟩

/-
  An entry takes all tags below its root and ends with it. Its
  markup is read without error: the root without attributes, the
  recorded tags without keys and with the tabs and line ends in
  their values made spaces, and the ends of both roots. These are
  the recorded tags themselves just when no tag below the root
  names an entry and all values that are kept are plain.
-/
theorem readText_markup_iff
    {name : String}
    {attributes : List Attribute}
    {inner : List Event}
    (hName : IsName name)
    (hDistinct : Distinct attributes)
    (hInner : WellNested inner)
    (key source : String) :
    ∃ entry,
      (begin key name attributes).takeAll? inner = some entry ∧
        entry.key = key ∧
        entry.endElement? name = none ∧
        (readText source entry.markup).map Item.event =
          (markupEvents name attributes inner).map
            (fun e => .ok e.keyless.normalized) ∧
        ((readText source entry.markup).map Item.event =
            (recordedEvents name attributes inner).map .ok ↔
          (∀ e ∈ inner, e.Unkeyed) ∧
            ∀ e ∈ Event.startTag name attributes :: inner,
              e.Plain) := by
  rcases readText_markup hName hDistinct hInner key source with
    ⟨entry, hTake, hKey, hRead⟩
  rcases takeAll?_wellNested hInner (begin key name attributes) with
    ⟨written, hOpen, _⟩
  have hEntry :
      entry = { begin key name attributes with written := written } :=
    Option.some.inj (hTake.symm.trans hOpen)
  refine ⟨entry, hTake, hKey, by rw [hEntry]; rfl, hRead, ?_⟩
  have hMap :
      (markupEvents name attributes inner).map
          (fun e => Except.ok e.keyless.normalized) =
        ((markupEvents name attributes inner).map
          (fun e => e.keyless.normalized)).map
            (Except.ok : Event → Except Error Event) := by
    rw [List.map_map]
    rfl
  rw [hRead, ← markupEvents_stored_iff, hMap]
  exact List.map_inj_right fun _ _ hSame => Except.ok.inj hSame

end ResourceEntry

namespace Lettering

/- The tags of glyphs below the root of an entry. -/
def tags
    (attributes : List Attribute) : List Event :=
  [.startTag "Glyphs" attributes, .endTag "Glyphs"]

/- The markup of the entry gives the glyphs as they were. -/
def Kept
    (attributes : List Attribute) : Prop :=
  ∃ entry,
    (ResourceEntry.begin "T" "VisualBrush"
        [⟨keyAttribute, "T"⟩]).takeAll? (tags attributes) =
        some entry ∧
      (readText "page" entry.markup).map Item.event =
        (ResourceEntry.recordedEvents "VisualBrush"
          [⟨keyAttribute, "T"⟩] (tags attributes)).map .ok

end Lettering

/- A space is kept, but no tab and no key. -/
theorem Lettering.loses_tabs_and_keys :
    Lettering.Kept [⟨"UnicodeString", "a b"⟩] ∧
      ¬ Lettering.Kept [⟨"UnicodeString", "a\tb"⟩] ∧
        ¬ Lettering.Kept [⟨keyAttribute, "a"⟩] := by
  have hKept :
      ∀ attributes,
        Distinct attributes →
          (Lettering.Kept attributes ↔
            (∀ e ∈ Lettering.tags attributes, e.Unkeyed) ∧
              ∀ e ∈ Event.startTag "VisualBrush"
                    [⟨keyAttribute, "T"⟩]
                  :: Lettering.tags attributes,
                e.Plain) := by
    intro attributes hDistinct
    have hNested : WellNested (Lettering.tags attributes) :=
      .element (by decide) hDistinct .nil .nil
    rcases
      ResourceEntry.readText_markup_iff
        (show IsName "VisualBrush" by decide)
        (show Distinct [⟨keyAttribute, "T"⟩] by decide) hNested "T"
        "page" with
      ⟨entry, hTake, _, _, _, hIff⟩
    rw [← hIff]
    constructor
    · rintro ⟨other, hOther, hRead⟩
      rw [Option.some.inj (hTake.symm.trans hOther)]
      exact hRead
    · exact fun hRead => ⟨entry, hTake, hRead⟩
  refine ⟨?_, ?_, ?_⟩
  · exact (hKept _ (by decide)).mpr (by decide)
  · exact mt (hKept _ (by decide)).mp (by decide)
  · exact mt (hKept _ (by decide)).mp (by decide)

end FixedPage
