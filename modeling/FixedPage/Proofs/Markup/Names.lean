import FixedPage.Markup.Reader
import FixedPage.Proofs.Text.Utf8
import Mathlib.Data.List.Forall2

/-
  This file shows that no two attributes of an element that is read
  have one name. The bytes of two names that are accepted differ,
  and different bytes are different names. All that a token can do
  when it is read is listed on the way.

  Main declarations:
    * `NamesDiffer`
    * `NamesDiffer.valueOf?_perm`
    * `Tag.Scanner.Named`
    * `Tag.read_namesDiffer`
    * `Interpreted`
    * `interpreted`
    * `readBytes_namesDiffer`
-/

namespace FixedPage.Markup

/- No two attributes have one name. -/
def NamesDiffer
    (as : List Attribute) : Prop :=
  as.Pairwise fun a a' => a.name ≠ a'.name

/- The first attribute with a name is the only one. -/
theorem NamesDiffer.valueOf?_perm
    {as as' : List Attribute}
    (hDistinct : NamesDiffer as)
    (hPerm : as.Perm as')
    (name : String) :
    valueOf? as' name = valueOf? as name := by
  unfold valueOf?
  induction hPerm with
  | nil => rfl
  | cons a hPerm ih =>
      rw [List.find?_cons, List.find?_cons]
      cases a.name == name with
      | true => rfl
      | false => exact ih (List.pairwise_cons.mp hDistinct).2
  | swap a a' as =>
      have hPair :=
        (List.pairwise_cons.mp hDistinct).1 a List.mem_cons_self
      rw [List.find?_cons, List.find?_cons, List.find?_cons,
        List.find?_cons]
      cases hName : a.name == name with
      | false => rfl
      | true =>
          cases hName' : a'.name == name with
          | false => rfl
          | true =>
              rw [beq_iff_eq] at hName hName'
              exact absurd (hName'.trans hName.symm) hPair
  | trans hFirst hSecond ihFirst ihSecond =>
      have hMid := (hFirst.pairwise_iff fun h => h.symm).mp hDistinct
      rw [ihSecond hMid, ihFirst hDistinct]

/- So it is the last one as well. -/
theorem NamesDiffer.findRev?_eq
    {as : List Attribute}
    (hDistinct : NamesDiffer as)
    (name : String) :
    as.findRev? (·.name == name) = as.find? (·.name == name) := by
  induction as with
  | nil => rfl
  | cons a as ih =>
      rcases List.pairwise_cons.mp hDistinct with ⟨hFirst, hRest⟩
      rw [List.findRev?, List.find?_cons, ih hRest]
      cases hFound : as.find? (·.name == name) with
      | none => cases a.name == name <;> rfl
      | some last =>
          have hName := List.find?_some hFound
          have hOther := hFirst last (List.mem_of_find?_eq_some hFound)
          cases hSame : a.name == name with
          | false => rfl
          | true =>
              rw [beq_iff_eq] at hName hSame
              exact absurd (hSame.trans hName.symm) hOther

------------------------------------------------------------
-- Names
------------------------------------------------------------

/- What is read in two steps is read in each of them. -/
theorem exists_of_bind
    {ε β γ : Type}
    {x : Except ε β}
    {f : β → Except ε γ}
    {c : γ}
    (hOk : x >>= f = .ok c) :
    ∃ b, x = .ok b ∧ f b = .ok c := by
  cases x with
  | error fault => cases hOk
  | ok b => exact ⟨b, rfl, hOk⟩

/- A text is read from the bytes of its characters. -/
theorem decode_of_decodeText
    {bytes : List UInt8}
    {text : String}
    (hOk : decodeText bytes = .ok text) :
    Text.Utf8.decode bytes = .ok text.toList := by
  unfold decodeText at hOk
  split at hOk
  · rename_i cs hDecode
    cases hText : hOk
    rw [hDecode, String.toList_ofList]
  · cases hOk

/- Different bytes are different texts. -/
theorem decodeText_injective
    {bytes bytes' : List UInt8}
    {text : String}
    (hOk : decodeText bytes = .ok text)
    (hOk' : decodeText bytes' = .ok text) :
    bytes = bytes' :=
  Text.Utf8.decode_injective (decode_of_decodeText hOk)
    (decode_of_decodeText hOk')

/- An attribute has the name that is read from its bytes. -/
theorem Tag.readAttribute_name
    {key value : List UInt8}
    {a : Attribute}
    (hOk : Tag.readAttribute key value = .ok a) :
    decodeText key = .ok a.name := by
  rcases exists_of_bind hOk with ⟨name, hName, hRest⟩
  rcases exists_of_bind hRest with ⟨content, -, hIs⟩
  cases hIs
  exact hName

------------------------------------------------------------
-- Scanning
------------------------------------------------------------

namespace Tag

/- The name of an attribute is read from the bytes of a key. -/
def Key.Names
    (key : Key)
    (a : Attribute) : Prop :=
  decodeText key.bytes = .ok a.name

namespace Scanner

/- Whether the value of the last key is still to be read. -/
def Place.key? : Place → Option Key
| .equals key => some key
| .value key _ _ => some key
| _ => none

/-
  The keys are distinct, and each names an attribute, but for one
  whose value is still to be read.
-/
structure Named
    (s : Scanner) : Prop where
  distinct : s.keys.Pairwise fun k k' => k.bytes ≠ k'.bytes
  names :
    ∃ done,
      s.keys = (Place.key? s.place).toList ++ done ∧
        List.Forall₂ Key.Names done s.attributes

theorem initial_named :
    initial.Named :=
  ⟨.nil, [], rfl, .nil⟩

/- A key is accepted if it has not been before. -/
theorem acceptKey_named
    {s next : Scanner}
    {key : Key}
    (hNamed : s.Named)
    (hPlace : Place.key? s.place = none)
    (hOk : s.acceptKey key = .ok next) :
    next.Named := by
  unfold acceptKey at hOk
  split at hOk
  · cases hOk
  · rename_i hNew
    cases hOk
    rw [List.find?_eq_none] at hNew
    rcases hNamed with ⟨hDistinct, done, hKeys, hNames⟩
    rw [hPlace] at hKeys
    refine ⟨List.pairwise_cons.mpr ⟨?_, hDistinct⟩, done, ?_, hNames⟩
    · intro other hMem hSame
      exact hNew other hMem (beq_iff_eq.mpr hSame.symm)
    · exact congrArg (key :: ·) hKeys

/- The value of the last key is read. -/
theorem acceptValue_named
    {s next : Scanner}
    {key : Key}
    {bytes : List UInt8}
    (hNamed : s.Named)
    (hPlace : Place.key? s.place = some key)
    (hOk : s.acceptValue key bytes = .ok next) :
    next.Named := by
  rcases exists_of_bind hOk with ⟨a, hRead, hNext⟩
  cases hNext
  rcases hNamed with ⟨hDistinct, done, hKeys, hNames⟩
  rw [hPlace] at hKeys
  exact
    ⟨hDistinct, key :: done, hKeys,
      .cons (readAttribute_name hRead) hNames⟩

/- A byte is taken. -/
theorem step_named
    {s next : Scanner}
    {position : Nat}
    {b : UInt8}
    (hNamed : s.Named)
    (hOk : s.step position b = .ok next) :
    next.Named := by
  rcases s with ⟨place, keys, attributes⟩
  unfold step at hOk
  cases place with
  | gap =>
      dsimp only at hOk
      split at hOk
      · cases hOk
        exact hNamed
      · cases hOk
        exact ⟨hNamed.distinct, hNamed.names⟩
  | name start reversed =>
      dsimp only at hOk
      split at hOk
      · exact acceptKey_named hNamed rfl hOk
      · split at hOk
        · cases hOk
          exact ⟨hNamed.distinct, hNamed.names⟩
        · cases hOk
          exact ⟨hNamed.distinct, hNamed.names⟩
  | named key =>
      dsimp only at hOk
      split at hOk
      · exact acceptKey_named hNamed rfl hOk
      · split at hOk
        · cases hOk
          exact hNamed
        · cases hOk
  | equals key =>
      dsimp only at hOk
      split at hOk
      · cases hOk
        exact hNamed
      · split at hOk
        · cases hOk
          exact ⟨hNamed.distinct, hNamed.names⟩
        · cases hOk
  | value key quote reversed =>
      dsimp only at hOk
      split at hOk
      · exact acceptValue_named hNamed rfl hOk
      · cases hOk
        exact ⟨hNamed.distinct, hNamed.names⟩

end Scanner

/- Keys that are distinct name attributes that are. -/
theorem namesDiffer_of_keys
    {keys : List Key}
    {as : List Attribute}
    (hNames : List.Forall₂ Key.Names keys as)
    (hDistinct : keys.Pairwise fun k k' => k.bytes ≠ k'.bytes) :
    NamesDiffer as := by
  induction hNames with
  | nil => exact .nil
  | @cons key a keys as hName hRest ih =>
      rcases List.pairwise_cons.mp hDistinct with ⟨hFirst, hOthers⟩
      refine List.pairwise_cons.mpr ⟨?_, ih hOthers⟩
      intro a' hMem hSame
      rcases List.forall₂_iff_get.mp hRest with ⟨hLength, hEach⟩
      rcases List.get_of_mem hMem with ⟨i, rfl⟩
      have hName' := hEach i (by omega) i.isLt
      refine hFirst _ (List.get_mem keys ⟨i, by omega⟩) ?_
      refine decodeText_injective hName ?_
      rw [hSame]
      exact hName'

/- The attributes that are read have different names. -/
theorem Scanner.run_namesDiffer
    {s : Scanner}
    {position : Nat}
    {bytes : List UInt8}
    {as : List Attribute}
    (hNamed : s.Named)
    (hOk : s.run position bytes = .ok as) :
    NamesDiffer as := by
  induction bytes generalizing s position with
  | nil =>
      rcases s with ⟨place, keys, attributes⟩
      cases place with
      | gap =>
          cases hOk
          rcases hNamed with ⟨hDistinct, done, hKeys, hNames⟩
          cases hKeys
          refine List.pairwise_reverse.mpr ?_
          exact
            (namesDiffer_of_keys hNames hDistinct).imp fun h => h.symm
      | _ => cases hOk
  | cons b bytes ih =>
      unfold Scanner.run at hOk
      split at hOk
      · rename_i hStep
        exact ih (step_named hNamed hStep) hOk
      · cases hOk

/- So have those of a tag. -/
theorem read_namesDiffer
    {content : List UInt8}
    {name : String}
    {as : List Attribute}
    (hOk : Tag.read content = .ok (.startTag name as)) :
    NamesDiffer as := by
  rcases exists_of_bind hOk with ⟨text, -, hRest⟩
  rcases exists_of_bind hRest with ⟨attributes, hRun, hIs⟩
  cases hIs
  exact Scanner.run_namesDiffer Scanner.initial_named hRun

end Tag

------------------------------------------------------------
-- Tokens
------------------------------------------------------------

/- A token that is a tag. -/
def Token.IsTag : Token → Prop
| .startTag _ => True
| .emptyTag _ => True
| .endTag _ => True
| _ => False

/- The inside of a start tag gives its name and attributes. -/
theorem exists_of_read
    {content : List UInt8}
    {event : Event}
    (hRead : Tag.read content = .ok event) :
    ∃ name attributes,
      event = .startTag name attributes ∧
        decodeText (Tag.nameBytes content) = .ok name := by
  rcases exists_of_bind hRead with ⟨name, hName, hRest⟩
  rcases exists_of_bind hRest with ⟨attributes, -, hIs⟩
  cases hIs
  exact ⟨name, attributes, rfl, hName⟩

variable {openNames now : List (List UInt8)} {token : Token}
  {events : List Event}

/-
  All that a token can do when it is read: the events that it gives,
  and the names that are open behind it.
-/
inductive Interpreted
    (openNames : List (List UInt8)) :
    Token → List Event → List (List UInt8) → Prop
  | opening
      {content : List UInt8}
      {name : String}
      {attributes : List Attribute}
      (read : Tag.read content = .ok (.startTag name attributes))
      (named : decodeText (Tag.nameBytes content) = .ok name) :
      Interpreted openNames (.startTag content)
        [.startTag name attributes]
        (Tag.nameBytes content :: openNames)
  | closedAtOnce
      {content : List UInt8}
      {name : String}
      {attributes : List Attribute}
      (read : Tag.read content = .ok (.startTag name attributes)) :
      Interpreted openNames (.emptyTag content)
        [.startTag name attributes, .endTag name] openNames
  | closing
      {bytes : List UInt8}
      {outer : List (List UInt8)}
      {name : String}
      (isOpen : openNames = bytes :: outer)
      (named : decodeText bytes = .ok name) :
      Interpreted openNames (.endTag bytes) [.endTag name] outer
  | text
      {token : Token}
      (notTag : ¬ token.IsTag)
      (content : String) :
      Interpreted openNames token [.text content] openNames
  | skipped :
      Interpreted openNames .skipped [] openNames

/- A token that is read does one of these things. -/
theorem interpreted
    (hOk : interpret openNames token = .ok (events, now)) :
    Interpreted openNames token events now := by
  cases token with
  | startTag content =>
      rcases exists_of_bind hOk with ⟨event, hRead, hIs⟩
      obtain ⟨name, attributes, rfl, hName⟩ := exists_of_read hRead
      cases hIs
      exact .opening hRead hName
  | emptyTag content =>
      rcases exists_of_bind hOk with ⟨event, hRead, hRest⟩
      rcases exists_of_bind hRest with ⟨name, hName, hIs⟩
      obtain ⟨name', attributes, rfl, hName'⟩ := exists_of_read hRead
      cases hIs
      cases hName.symm.trans hName'
      exact .closedAtOnce hRead
  | endTag bytes =>
      unfold interpret at hOk
      cases openNames with
      | nil => cases hOk
      | cons expected outer =>
          dsimp only at hOk
          split at hOk
          · rename_i hSame
            rcases exists_of_bind hOk with ⟨name, hName, hIs⟩
            cases hIs
            exact .closing (by rw [eq_of_beq hSame]) hName
          · cases hOk
  | text content =>
      rcases exists_of_bind hOk with ⟨text, -, hIs⟩
      cases hIs
      exact .text (by exact not_false) text
  | reference bytes =>
      rcases exists_of_bind hOk with ⟨name, -, hRest⟩
      split at hRest
      · cases hRest
        exact .text (by exact not_false) _
      · cases hRest
  | skipped =>
      cases hOk
      exact .skipped

------------------------------------------------------------
-- Parts
------------------------------------------------------------

/- Where an element starts its attributes have different names. -/
def Event.NamesDiffer : Event → Prop
| .startTag _ as => Markup.NamesDiffer as
| _ => True

theorem Tag.read_event
    {content : List UInt8}
    {event : Event}
    (hOk : Tag.read content = .ok event) :
    event.NamesDiffer := by
  cases event with
  | startTag name as => exact read_namesDiffer hOk
  | _ => trivial

/- A token gives such events. -/
theorem Interpreted.namesDiffer
    (hRead : Interpreted openNames token events now) :
    ∀ event ∈ events, event.NamesDiffer := by
  cases hRead with
  | opening read named =>
      exact List.forall_mem_singleton.mpr (Tag.read_event read)
  | closedAtOnce read =>
      exact
        List.forall_mem_cons.mpr
          ⟨Tag.read_event read, List.forall_mem_singleton.mpr trivial⟩
  | closing isOpen named => exact List.forall_mem_singleton.mpr trivial
  | text notTag content => exact List.forall_mem_singleton.mpr trivial
  | skipped => exact List.forall_mem_nil _

/- So do the tokens of a part. -/
theorem items_namesDiffer
    (source : String)
    (offset : Nat)
    (view : List UInt8)
    (cursor : Cursor)
    (openNames : List (List UInt8))
    (cuts : List Cut) :
    ∀ place event,
      .ok (place, event) ∈
          items source offset view cursor openNames cuts →
        event.NamesDiffer := by
  induction cuts generalizing offset view cursor openNames with
  | nil => nofun
  | cons cut rest ih =>
      intro place event hMem
      unfold items at hMem
      dsimp only at hMem
      split at hMem
      · rcases List.mem_singleton.mp hMem with ⟨⟩
      · split at hMem
        · rcases List.mem_singleton.mp hMem with ⟨⟩
        · rename_i hInterpret
          rcases List.mem_append.mp hMem with hHere | hLater
          · rcases List.mem_map.mp hHere with ⟨event', hEvent, ⟨⟩⟩
            exact (interpreted hInterpret).namesDiffer event hEvent
          · exact ih _ _ _ _ place event hLater

/- No two attributes of an element of a part have one name. -/
theorem readBytes_namesDiffer
    {source : String}
    {bytes : List UInt8}
    {items : List Item}
    {place : Location}
    {event : Event}
    (hRead : readBytes source bytes = .ok items)
    (hMem : .ok (place, event) ∈ items) :
    event.NamesDiffer := by
  unfold readBytes at hRead
  split at hRead
  · cases hRead
    exact items_namesDiffer _ _ _ _ _ _ place event hMem
  · cases hRead

end FixedPage.Markup
