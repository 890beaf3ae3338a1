import FixedPage.Package.Archive
import FixedPage.Proofs.Text.Fields

/-
  This file shows how names of parts are resolved against one
  another. Resolving walks through the segments of a folder and of
  a name with a stack of ordinary segments. Such a stack is written
  out as a name that is read back as the same stack, so two steps
  of resolving are one.

  Names are compared by their keys. Names that differ in slashes in
  front or in the case of letters of ASCII have the same key, since
  a text and its small letters have the same lowercase.

  Main declarations:
    * `PartName.Ordinary`
    * `PartName.walk`
    * `PartName.written`
    * `PartName.walk_folder`
    * `PartName.walk_directory_written`
    * `PartName.resolve_composed`
    * `PartName.spelling`
    * `PartName.key_eq_of_spelling`
-/

namespace FixedPage.PartName

open Text

------------------------------------------------------------
-- Segments
------------------------------------------------------------

/- A segment that is the name of something. -/
structure Ordinary
    (segment : List Char) : Prop where
  plain : '/' ∉ segment
  filled : segment ≠ []
  notHere : segment ≠ ['.']
  notAbove : segment ≠ ['.', '.']

instance
    (segment : List Char) :
    Decidable (Ordinary segment) :=
  decidable_of_iff
    ('/' ∉ segment ∧ segment ≠ [] ∧ segment ≠ ['.'] ∧
      segment ≠ ['.', '.'])
    ⟨fun h => ⟨h.1, h.2.1, h.2.2.1, h.2.2.2⟩,
      fun h => ⟨h.plain, h.filled, h.notHere, h.notAbove⟩⟩

/- A name that begins with a slash. -/
def isRooted
    (name : List Char) : Bool :=
  name.head? == some '/'

variable {cs folder item segment : List Char}
variable {place row : List (List Char)}

/- Segments hold no slash. -/
theorem plain_of_mem_segments
    (hMem : segment ∈ segments cs) :
    '/' ∉ segment := by
  intro hSlash
  have hPlain := not_mem_of_mem_fields hMem '/' hSlash
  exact absurd hPlain (by decide)

/- A slash separates segments. -/
theorem segments_append
    (front back : List Char) :
    segments (front ++ '/' :: back) = segments front ++ segments back := by
  unfold segments
  rw [fields_eq_splitOnP, fields_eq_splitOnP, fields_eq_splitOnP]
  exact List.splitOnP_append_cons front back (beq_self_eq_true '/')

/- A text without slashes is one segment. -/
theorem segments_of_plain
    (hPlain : '/' ∉ cs) :
    segments cs = [cs] := by
  unfold segments
  rw [fields_eq_splitOnP, List.splitOnP_eq_singleton]
  intro c hMem
  rw [beq_eq_false_iff_ne]
  rintro rfl
  exact hPlain hMem

/- Segments that are joined by slashes are those of the whole. -/
theorem segments_intercalate
    (hRow : row ≠ [])
    (hPlain : ∀ segment ∈ row, '/' ∉ segment) :
    segments (['/'].intercalate row) = row := by
  unfold segments
  rw [fields_eq_splitOnP]
  exact List.splitOn_intercalate '/' hPlain hRow

------------------------------------------------------------
-- Walks
------------------------------------------------------------

/- Follows segments one after the other. -/
def walk
    (place row : List (List Char)) : List (List Char) :=
  row.foldl follow place

/- An ordinary segment leads one level down. -/
theorem follow_of_ordinary
    (hSegment : Ordinary segment) :
    follow place segment = segment :: place := by
  unfold follow
  simp only [beq_iff_eq, Bool.or_eq_true, hSegment.filled,
    hSegment.notHere, hSegment.notAbove, or_self, if_false]

/- Whatever a segment is, the place stays one of ordinary segments. -/
theorem ordinary_of_mem_follow
    (hPlace : ∀ segment ∈ place, Ordinary segment)
    (hPlain : '/' ∉ segment) :
    ∀ other ∈ follow place segment, Ordinary other := by
  unfold follow
  split
  · exact hPlace
  · rename_i hNot
    simp only [Bool.or_eq_true, beq_iff_eq, not_or] at hNot
    split
    · exact fun other hMem => hPlace other (List.mem_of_mem_drop hMem)
    · rename_i hNotAbove
      rw [List.forall_mem_cons]
      exact ⟨⟨hPlain, hNot.1, hNot.2, hNotAbove ∘ beq_iff_eq.mpr⟩, hPlace⟩

theorem ordinary_of_mem_walk
    (hPlace : ∀ segment ∈ place, Ordinary segment)
    (hPlain : ∀ segment ∈ row, '/' ∉ segment) :
    ∀ segment ∈ walk place row, Ordinary segment := by
  induction row generalizing place with
  | nil => exact hPlace
  | cons first row ih =>
      rw [List.forall_mem_cons] at hPlain
      exact ih (ordinary_of_mem_follow hPlace hPlain.1) hPlain.2

/- Ordinary segments are put upon one another. -/
theorem walk_of_ordinary
    (hRow : ∀ segment ∈ row, Ordinary segment) :
    walk place row = row.reverse ++ place := by
  induction row generalizing place with
  | nil => rfl
  | cons first row ih =>
      rw [List.forall_mem_cons] at hRow
      change walk (follow place first) row = _
      rw [follow_of_ordinary hRow.1, ih hRow.2, List.reverse_cons,
        List.append_assoc, List.singleton_append]

/- A name is followed through its folder first. -/
theorem walk_folder
    (hClosed : folder = [] ∨ folder.getLast? = some '/')
    (place : List (List Char))
    (cs : List Char) :
    walk place (segments (folder ++ cs)) =
      walk (walk place (segments folder.dropLast)) (segments cs) := by
  rcases hClosed with rfl | hLast
  · rfl
  · obtain ⟨init, rfl⟩ := List.getLast?_eq_some_iff.mp hLast
    rw [List.dropLast_concat, List.append_assoc, List.singleton_append,
      segments_append]
    exact List.foldl_append

/- The directory of a part is its folder. -/
theorem directory_eq
    (hCut : CutsLast '/' cs folder item) :
    directory cs = folder.dropLast := by
  unfold directory
  rw [hCut.cutLast_eq]
  split_ifs with hFolder
  · rw [hFolder]
    rfl
  · rfl

/- A name leads to its last segment in its directory. -/
theorem walk_name
    (hCut : CutsLast '/' cs folder item)
    (hItem : Ordinary item)
    (place : List (List Char)) :
    walk place (segments cs) =
      item :: walk place (segments folder.dropLast) := by
  rw [hCut.whole, walk_folder hCut.closed, segments_of_plain hItem.plain]
  exact follow_of_ordinary hItem

------------------------------------------------------------
-- Places as names
------------------------------------------------------------

/- The slash that a rooted name begins with. -/
def lead
    (rooted : Bool) : List Char :=
  if rooted then ['/'] else []

/- The name of a place. -/
def written
    (rooted : Bool)
    (place : List (List Char)) : List Char :=
  lead rooted ++ ['/'].intercalate place.reverse

/- A name without the slash of the root. -/
def withoutRoot
    (name : List Char) : List Char :=
  name.drop (lead (isRooted name)).length

/- A relative name is followed from the directory of the source. -/
theorem resolve_eq
    {target : String}
    (hTarget : isRooted target.toList = false)
    (source : String) :
    (resolve source target).toList =
      written (isRooted source.toList)
        (walk (walk [] (segments (directory source.toList)))
          (segments target.toList)) := by
  have hNot : ¬ (target.toList.head? == some '/') = true :=
    Bool.eq_false_iff.mp hTarget
  unfold resolve
  rw [if_neg hNot]
  dsimp only
  rw [List.foldl_append]
  unfold written lead isRooted
  split <;> exact String.toList_ofList

section

variable (hItem : Ordinary item)
variable (hPlace : ∀ segment ∈ place, Ordinary segment)

include hItem hPlace

/- The segments of a place are read back, its last one at the end. -/
theorem segments_intercalate_reverse :
    segments (['/'].intercalate (item :: place).reverse) =
      (item :: place).reverse := by
  apply segments_intercalate
  · simp
  · intro segment hMem
    rcases List.mem_cons.mp (List.mem_reverse.mp hMem) with rfl | hMem
    · exact hItem.plain
    · exact (hPlace segment hMem).plain

/- What follows the root does not begin with a slash. -/
theorem isRooted_intercalate_reverse :
    isRooted (['/'].intercalate (item :: place).reverse) = false := by
  have hSegments := segments_intercalate_reverse hItem hPlace
  cases hText : ['/'].intercalate (item :: place).reverse with
  | nil => rfl
  | cons c rest =>
      rw [isRooted, List.head?_cons, beq_eq_false_iff_ne]
      intro hSlash
      cases hSlash
      -- the segment in front of the slash would be empty
      rw [hText, show '/' :: rest = [] ++ '/' :: rest from rfl,
        segments_append] at hSegments
      have hMem : [] ∈ item :: place := by
        rw [← List.mem_reverse, ← hSegments]
        exact List.mem_append_left _ List.mem_cons_self
      rcases List.mem_cons.mp hMem with hEmpty | hMem
      · exact hItem.filled hEmpty.symm
      · exact (hPlace [] hMem).filled rfl

/- The name of a place begins with a slash if it is rooted. -/
theorem isRooted_written
    (rooted : Bool) :
    isRooted (written rooted (item :: place)) = rooted := by
  cases rooted with
  | true => rfl
  | false => exact isRooted_intercalate_reverse hItem hPlace

/- Behind the root, the name of a place has its segments. -/
theorem segments_withoutRoot
    (rooted : Bool) :
    segments (withoutRoot (written rooted (item :: place))) =
      (item :: place).reverse := by
  rw [withoutRoot, isRooted_written hItem hPlace, written,
    List.drop_left]
  exact segments_intercalate_reverse hItem hPlace

/- The name of a place leads to this place. -/
theorem walk_written
    (rooted : Bool) :
    walk [] (segments (written rooted (item :: place))) =
      item :: place := by
  have hAll : ∀ segment ∈ (item :: place).reverse, Ordinary segment := by
    intro segment hMem
    rcases List.mem_cons.mp (List.mem_reverse.mp hMem) with rfl | hMem
    · exact hItem
    · exact hPlace segment hMem
  have hClosed :
      lead rooted = [] ∨ (lead rooted).getLast? = some '/' := by
    cases rooted with
    | true => exact .inr rfl
    | false => exact .inl rfl
  have hRoot : walk [] (segments (lead rooted).dropLast) = [] := by
    cases rooted <;> rfl
  rw [written, walk_folder hClosed, hRoot,
    segments_intercalate_reverse hItem hPlace, walk_of_ordinary hAll,
    List.reverse_reverse, List.append_nil]

end

/- Text in front does not change what is behind the last slash. -/
theorem cutsLast_append
    {front : List Char}
    (hClosed : front = [] ∨ front.getLast? = some '/')
    (hCut : CutsLast '/' cs folder item) :
    CutsLast '/' (front ++ cs) (front ++ folder) item := by
  refine ⟨by rw [hCut.whole, List.append_assoc], ?_, hCut.plain⟩
  rcases hCut.closed with rfl | hLast
  · rwa [List.append_nil]
  · exact .inr (by rw [List.getLast?_append, hLast, Option.some_or])

/- The name of a place ends with the last segment. -/
theorem exists_cutsLast_written
    (hItem : '/' ∉ item)
    (rooted : Bool)
    (place : List (List Char)) :
    ∃ front, CutsLast '/' (written rooted (item :: place)) front item := by
  have hJoined (row : List (List Char)) :
      ∃ front,
        CutsLast '/' (['/'].intercalate (row ++ [item])) front item := by
    induction row with
    | nil => exact ⟨[], by simp, .inl rfl, hItem⟩
    | cons first row ih =>
        obtain ⟨front, hCut⟩ := ih
        rw [List.cons_append,
          List.intercalate_cons_of_ne_nil (by simp)]
        refine ⟨_, cutsLast_append (.inr ?_) hCut⟩
        rw [List.getLast?_append, List.getLast?_singleton,
          Option.some_or]
  obtain ⟨front, hCut⟩ := hJoined place.reverse
  rw [written, List.reverse_cons]
  refine ⟨_, cutsLast_append ?_ hCut⟩
  cases rooted with
  | true => exact .inr rfl
  | false => exact .inl rfl

/- The directory of a name of a place leads one level up. -/
theorem walk_directory_written
    (hItem : Ordinary item)
    (hPlace : ∀ segment ∈ place, Ordinary segment)
    (rooted : Bool) :
    walk [] (segments (directory (written rooted (item :: place)))) =
      place := by
  obtain ⟨front, hCut⟩ :=
    exists_cutsLast_written hItem.plain rooted place
  have hWhole := walk_name hCut hItem []
  rw [walk_written hItem hPlace] at hWhole
  rw [directory_eq hCut]
  exact (List.cons.inj hWhole).2.symm

------------------------------------------------------------
-- Resolving
------------------------------------------------------------

/- The last segment of the source makes no difference. -/
theorem resolve_eq_of_folder
    {target : String}
    (hTarget : isRooted target.toList = false)
    {source : String}
    {other : List Char}
    (hCut : CutsLast '/' source.toList folder item)
    (hOther : '/' ∉ other) :
    resolve (String.ofList (folder ++ other)) target =
      resolve source target := by
  have hCut' :
      CutsLast '/' (String.ofList (folder ++ other)).toList folder
        other :=
    ⟨String.toList_ofList, hCut.closed, hOther⟩
  have hPlain (cs : List Char) (hPlain : '/' ∉ cs) :
      isRooted cs = false := by
    rw [isRooted, beq_eq_false_iff_ne]
    intro hHead
    exact hPlain (List.mem_of_mem_head? hHead)
  have hRooted :
      isRooted (String.ofList (folder ++ other)).toList =
        isRooted source.toList := by
    rw [hCut'.whole, hCut.whole]
    cases folder with
    | nil => rw [List.nil_append, List.nil_append, hPlain _ hOther,
        hPlain _ hCut.plain]
    | cons c folder => rfl
  rw [← String.toList_inj, resolve_eq hTarget, resolve_eq hTarget,
    hRooted, directory_eq hCut, directory_eq hCut']

/-
  A relative name that ends with an ordinary segment is resolved to
  a name with ordinary segments only, which begins with a slash
  exactly if the source does; the last segment of the source makes
  no difference. To resolve a further name against the outcome is
  to resolve it behind the folder of the first one at once.
-/
theorem resolve_composed
    (source : String)
    {target further : String}
    {folder last : List Char}
    (hTarget : isRooted target.toList = false)
    (hFurther : isRooted further.toList = false)
    (hCut : CutsLast '/' target.toList folder last)
    (hLast : Ordinary last) :
    (∀ segment ∈
        segments (withoutRoot (resolve source target).toList),
      Ordinary segment) ∧
      isRooted (resolve source target).toList =
        isRooted source.toList ∧
      (∀ place item other,
        CutsLast '/' source.toList place item → '/' ∉ other →
          resolve (String.ofList (place ++ other)) target =
            resolve source target) ∧
      resolve (resolve source target) further =
        resolve source
          (String.ofList (folder ++ further.toList)) := by
  -- where the folder of the target leads to
  let start := walk [] (segments (directory source.toList))
  let place := walk start (segments folder.dropLast)
  have hStart : ∀ segment ∈ start, Ordinary segment :=
    ordinary_of_mem_walk nofun fun _ hMem => plain_of_mem_segments hMem
  have hPlace : ∀ segment ∈ place, Ordinary segment :=
    ordinary_of_mem_walk hStart fun _ hMem => plain_of_mem_segments hMem
  have hResolved :
      (resolve source target).toList =
        written (isRooted source.toList) (last :: place) := by
    rw [resolve_eq hTarget, walk_name hCut hLast]
  have hRooted :
      isRooted (resolve source target).toList =
        isRooted source.toList := by
    rw [hResolved, isRooted_written hLast hPlace]
  refine ⟨?_, hRooted, ?_, ?_⟩
  · rw [hResolved, segments_withoutRoot hLast hPlace]
    intro segment hMem
    rcases List.mem_cons.mp (List.mem_reverse.mp hMem) with rfl | hMem
    · exact hLast
    · exact hPlace segment hMem
  · intro place item other hSource hOther
    exact resolve_eq_of_folder hTarget hSource hOther
  · have hBoth :
        isRooted (String.ofList (folder ++ further.toList)).toList =
          false := by
      rw [String.toList_ofList]
      cases folder with
      | nil => exact hFurther
      | cons c folder =>
          rw [hCut.whole] at hTarget
          exact hTarget
    rw [← String.toList_inj, resolve_eq hFurther, resolve_eq hBoth,
      hRooted, hResolved, walk_directory_written hLast hPlace,
      String.toList_ofList, walk_folder hCut.closed]

namespace Climbing

/- A part that lies directly below the root. -/
def source : String :=
  "/1.fpage"

/- The folder of a name that climbs past the root. -/
def upwards : List Char :=
  "../../Fonts/".toList

/- A name that climbs past the root. -/
def target : String :=
  "../../Fonts/a.odttf"

/- Another one, to be resolved against the outcome. -/
def further : String :=
  "../.././b.dict"

end Climbing

/- Names that climb past the root stay there in one step or in two. -/
theorem Climbing.resolved_below_root :
    CutsLast '/' Climbing.target.toList Climbing.upwards
        "a.odttf".toList ∧
      Ordinary "a.odttf".toList ∧
      isRooted Climbing.target.toList = false ∧
      isRooted Climbing.further.toList = false ∧
      resolve Climbing.source Climbing.target = "/Fonts/a.odttf" ∧
      resolve Climbing.source
          (String.ofList
            (Climbing.upwards ++ Climbing.further.toList)) =
        "/b.dict" ∧
      resolve (resolve Climbing.source Climbing.target)
          Climbing.further =
        "/b.dict" := by
  have hCut :
      CutsLast '/' Climbing.target.toList Climbing.upwards
        "a.odttf".toList :=
    ⟨by decide +kernel, .inr (by decide +kernel), by decide +kernel⟩
  have hLast : Ordinary "a.odttf".toList :=
    ⟨by decide +kernel, by decide +kernel, by decide +kernel,
      by decide +kernel⟩
  have hTarget : isRooted Climbing.target.toList = false := by
    decide +kernel
  have hFurther : isRooted Climbing.further.toList = false := by
    decide +kernel
  have hBoth :
      resolve Climbing.source
          (String.ofList
            (Climbing.upwards ++ Climbing.further.toList)) =
        "/b.dict" := by
    decide +kernel
  obtain ⟨-, -, -, hComposed⟩ :=
    resolve_composed Climbing.source hTarget hFurther hCut hLast
  exact
    ⟨hCut, hLast, hTarget, hFurther, by decide +kernel, hBoth,
      hComposed.trans hBoth⟩

------------------------------------------------------------
-- Spellings
------------------------------------------------------------

/-
  A value that each letter of ASCII gives in both of its cases is
  the same for a character and its small letter.
-/
theorem eq_of_toLower
    {β : Type}
    {f : Char → β}
    (hLetters :
      ∀ n < 26, f (Char.ofNat (97 + n)) = f (Char.ofNat (65 + n)))
    (c : Char) :
    f c.toLower = f c := by
  unfold Char.toLower
  split
  · rename_i hLetter
    simp only [ge_iff_le, UInt32.le_iff_toNat_le] at hLetter
    have hFrom : 65 ≤ c.toNat := hLetter.1
    have hTo : c.toNat ≤ 90 := hLetter.2
    have hBoth := hLetters (c.toNat - 65) (by omega)
    have hSum : (c.val + ('a'.val - 'A'.val)).toNat = c.toNat + 32 := by
      rw [UInt32.toNat_add]
      exact Nat.mod_eq_of_lt
        (show c.toNat + 32 < 4294967296 by omega)
    rw [show 65 + (c.toNat - 65) = c.toNat by omega,
      show 97 + (c.toNat - 65) = c.toNat + 32 by omega,
      Char.ofNat_toNat] at hBoth
    rw [← hBoth, ← hSum]
    exact congrArg f (Char.ofNat_toNat _).symm
  · rfl

theorem isCaseIgnorable_toLower
    (c : Char) :
    isCaseIgnorable c.toLower = isCaseIgnorable c :=
  eq_of_toLower (by decide +kernel) c

theorem isCased_toLower
    (c : Char) :
    isCased c.toLower = isCased c :=
  eq_of_toLower (by decide +kernel) c

theorem lowercaseOf_toLower
    (c : Char) :
    lowercaseOf c.toLower = lowercaseOf c :=
  eq_of_toLower (by decide +kernel) c


/- What comes next in a word does not depend on its case. -/
theorem reachesCased_toLower
    (cs : List Char) :
    reachesCased (cs.map Char.toLower) = reachesCased cs := by
  have hIgnorable :
      isCaseIgnorable ∘ Char.toLower = isCaseIgnorable :=
    funext isCaseIgnorable_toLower
  unfold reachesCased
  rw [List.dropWhile_map, hIgnorable]
  cases cs.dropWhile isCaseIgnorable with
  | nil => rfl
  | cons c rest => exact isCased_toLower c

/- The small letter of a character is in lowercase what this is. -/
theorem lowercaseChar_toLower
    (before : List Char)
    (c : Char)
    (after : List Char) :
    lowercaseChar (before.map Char.toLower) c.toLower
        (after.map Char.toLower) =
      lowercaseChar before c after := by
  have hSigma : (c.toLower == 'Σ') = (c == 'Σ') :=
    eq_of_toLower (f := fun c => c == 'Σ') (by decide) c
  have hDotted : (c.toLower == 'İ') = (c == 'İ') :=
    eq_of_toLower (f := fun c => c == 'İ') (by decide) c
  unfold lowercaseChar
  rw [hSigma, hDotted, reachesCased_toLower, reachesCased_toLower,
    lowercaseOf_toLower]

/- A text in small letters is in lowercase what the text is. -/
theorem lowercase_toLower
    (cs : List Char) :
    lowercase (cs.map Char.toLower) = lowercase cs := by
  have hFrom (before : List Char) :
      lowercaseFrom (before.map Char.toLower) (cs.map Char.toLower) =
        lowercaseFrom before cs := by
    induction cs generalizing before with
    | nil => rfl
    | cons c cs ih =>
        rw [List.map_cons, lowercaseFrom, lowercaseFrom,
          lowercaseChar_toLower, ← List.map_cons, ih]
  exact hFrom []

/-
  A name as it is spelled but for the case of letters of ASCII and
  for slashes in front.
-/
def spelling
    (name : String) : List Char :=
  (name.toList.dropWhile (· == '/')).map Char.toLower

/- Names of the same spelling are the same name. -/
theorem key_eq_of_spelling
    {name other : String}
    (hSame : spelling name = spelling other) :
    key name = key other := by
  have hKey (name : String) :
      key name = String.ofList ('/' :: lowercase (spelling name)) := by
    unfold key spelling
    rw [lowercase_toLower]
  rw [hKey, hKey, hSame]

end FixedPage.PartName
