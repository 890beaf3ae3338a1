import FixedPage.Package.Directory
import FixedPage.Proofs.Package.Names
import Mathlib.Data.List.Nodup
import Mathlib.Data.List.Perm.Basic

/-
  This file shows that a package which is stored as a directory tree
  is the package in memory that has the same files. A survey keeps
  the row of places that it has entered and of those that are still
  ahead of it, so in the end every file is entered once, and the
  place of a file leads to its content.

  Main declarations:
    * `Directory.Tree.Proper`
    * `Directory.Tree.ways`
    * `Directory.Tree.Proper.locate_way`
    * `Directory.Survey.outlook`
    * `Directory.Survey.note_outlook`
    * `Directory.Survey.finish_outlook`
    * `Offers`
    * `Directory.openAt_offers`
    * `Directory.archive_agrees`
-/

namespace FixedPage

------------------------------------------------------------
-- Rows By Keys
------------------------------------------------------------

section

variable {κ β : Type} [BEq κ] [LawfulBEq κ]

/- Where keys are distinct, every value is found by its key. -/
theorem lookup_of_mem
    {row : List (κ × β)}
    (hKeys : (row.map Prod.fst).Nodup)
    {key : κ}
    {value : β}
    (hMem : (key, value) ∈ row) :
    row.lookup key = some value := by
  induction row with
  | nil => cases hMem
  | cons first row ih =>
      rw [List.map_cons, List.nodup_cons] at hKeys
      rcases List.mem_cons.mp hMem with rfl | hBehind
      · exact List.lookup_cons_self
      · have hOther : (key == first.1) = false := by
          rw [beq_eq_false_iff_ne]
          rintro rfl
          exact hKeys.1 (List.mem_map.mpr ⟨_, hBehind, rfl⟩)
        rw [List.lookup_cons, hOther]
        exact ih hKeys.2 hBehind

/- A key that no value has gives none. -/
theorem lookup_of_not_mem
    {row : List (κ × β)}
    {key : κ}
    (hNot : key ∉ row.map Prod.fst) :
    row.lookup key = none := by
  rw [List.lookup_eq_none_iff]
  intro entry hMem
  rw [bne_iff_ne]
  rintro rfl
  exact hNot (List.mem_map_of_mem hMem)

/- To drop a key that no value has drops nothing. -/
theorem filter_of_not_mem
    {row : List (κ × β)}
    {key : κ}
    (hNot : key ∉ row.map Prod.fst) :
    row.filter (fun entry => entry.1 != key) = row := by
  rw [List.filter_eq_self]
  intro entry hMem
  rw [bne_iff_ne]
  rintro rfl
  exact hNot (List.mem_map_of_mem hMem)

end

------------------------------------------------------------
-- Readers
------------------------------------------------------------

/-
  A reader that has some files as its parts: the content of each of
  them is given under every name of the same key, piece by piece and
  as a whole, and under all other names nothing is found.
-/
structure Offers
    {σ : Type}
    [PartReader σ]
    (files : List (String × List UInt8))
    (reader : σ) : Prop where
  found :
    ∀ file ∈ files, ∀ name,
      PartName.key name = PartName.key file.1 →
        PartReader.has reader name = true ∧
          PartReader.stream reader name = .ok file.2 ∧
          PartReader.read reader name = .ok file.2
  absent :
    ∀ name,
      PartName.key name ∉ files.map (PartName.key ·.1) →
        PartReader.has reader name = false ∧
          PartReader.stream reader name = .error (.notFound name) ∧
          PartReader.read reader name = .error (.notFound name)

/- Readers of the same files cannot be told apart. -/
theorem Offers.agree
    {σ τ : Type}
    [PartReader σ]
    [PartReader τ]
    {files : List (String × List UInt8)}
    {one : σ}
    {other : τ}
    (hOne : Offers files one)
    (hOther : Offers files other)
    (name : String) :
    PartReader.has one name = PartReader.has other name ∧
      PartReader.stream one name = PartReader.stream other name ∧
      PartReader.read one name = PartReader.read other name := by
  by_cases hMem : PartName.key name ∈ files.map (PartName.key ·.1)
  · obtain ⟨file, hFile, hKey⟩ := List.mem_map.mp hMem
    obtain ⟨hHas, hStream, hRead⟩ := hOne.found file hFile name hKey.symm
    obtain ⟨hHas', hStream', hRead'⟩ :=
      hOther.found file hFile name hKey.symm
    exact
      ⟨hHas.trans hHas'.symm, hStream.trans hStream'.symm,
        hRead.trans hRead'.symm⟩
  · obtain ⟨hHas, hStream, hRead⟩ := hOne.absent name hMem
    obtain ⟨hHas', hStream', hRead'⟩ := hOther.absent name hMem
    exact
      ⟨hHas.trans hHas'.symm, hStream.trans hStream'.symm,
        hRead.trans hRead'.symm⟩

/- The order of the files makes no difference. -/
theorem Offers.of_perm
    {σ : Type}
    [PartReader σ]
    {files others : List (String × List UInt8)}
    {reader : σ}
    (hOffers : Offers files reader)
    (hPerm : others.Perm files) :
    Offers others reader where
  found := fun file hMem => hOffers.found file (hPerm.mem_iff.mp hMem)
  absent := fun name hNot =>
    hOffers.absent name (hNot ∘ (hPerm.map _).mem_iff.mpr)

namespace Package

/- A file as it is kept in memory. -/
def kept
    (file : String × List UInt8) : String × List UInt8 :=
  (PartName.key file.1, file.2)

/- Files of distinct keys are kept, the last one first. -/
theorem ofList_parts
    {files : List (String × List UInt8)}
    (hKeys : (files.map (PartName.key ·.1)).Nodup) :
    (ofList files).parts = (files.map kept).reverse := by
  suffices hAll :
      ∀ p : Package,
        ((p.parts.map Prod.fst) ++ files.map (PartName.key ·.1)).Nodup →
          (files.foldl (fun p file => p.insert file.1 file.2) p).parts =
            (files.map kept).reverse ++ p.parts by
    rw [ofList, hAll .empty hKeys]
    exact List.append_nil _
  clear hKeys
  intro p hKeys
  induction files generalizing p with
  | nil => rfl
  | cons file files ih =>
      rw [List.map_cons, List.nodup_append_comm, List.cons_append,
        List.nodup_cons, List.mem_append, not_or] at hKeys
      have hInsert :
          (p.insert file.1 file.2).parts = kept file :: p.parts := by
        unfold insert
        dsimp only
        rw [filter_of_not_mem hKeys.1.2]
        rfl
      rw [List.foldl_cons, ih, hInsert, List.map_cons,
        List.reverse_cons, List.append_assoc, List.singleton_append]
      rw [hInsert, List.map_cons, List.cons_append, List.nodup_cons,
        List.mem_append, not_or, List.nodup_append_comm]
      exact ⟨⟨hKeys.1.2, hKeys.1.1⟩, hKeys.2⟩

/- A package in memory has as many parts as files of distinct keys. -/
theorem ofList_size
    {files : List (String × List UInt8)}
    (hKeys : (files.map (PartName.key ·.1)).Nodup) :
    (ofList files).size = files.length := by
  rw [size, ofList_parts hKeys, List.length_reverse, List.length_map]

/- A package in memory has the files that it is made of. -/
theorem ofList_offers
    {files : List (String × List UInt8)}
    (hKeys : (files.map (PartName.key ·.1)).Nodup) :
    Offers files (ofList files) := by
  have hNames :
      ((ofList files).parts.map Prod.fst).Perm
        (files.map (PartName.key ·.1)) := by
    rw [ofList_parts hKeys, List.map_reverse, List.map_map]
    exact List.reverse_perm _
  constructor
  · intro file hMem name hKey
    have hKept : (PartName.key file.1, file.2) ∈ (ofList files).parts := by
      rw [ofList_parts hKeys, List.mem_reverse]
      exact List.mem_map_of_mem hMem
    have hFind : (ofList files).find? name = some file.2 := by
      rw [find?, hKey]
      exact lookup_of_mem (hNames.nodup_iff.mpr hKeys) hKept
    simp only [PartReader.has, PartReader.stream, PartReader.read, has,
      hFind, Option.isSome_some, and_self]
  · intro name hNot
    have hFind : (ofList files).find? name = none :=
      lookup_of_not_mem (hNot ∘ hNames.mem_iff.mp)
    simp only [PartReader.has, PartReader.stream, PartReader.read, has,
      hFind, Option.isSome_none, and_self]

end Package

namespace Directory

------------------------------------------------------------
-- Files And Their Ways
------------------------------------------------------------

/-
  A tree as a file system has it: the entries of a folder have
  distinct names, each of which is an ordinary segment.
-/
inductive Tree.Proper : Tree → Prop
| file
    (content : List UInt8) :
    Proper (.file content)
| folder
    (entries : List (String × Tree))
    (hApart : (entries.map Prod.fst).Nodup)
    (hNames : ∀ entry ∈ entries, PartName.Ordinary entry.1.toList)
    (hInner : ∀ entry ∈ entries, entry.2.Proper) :
    Proper (.folder entries)

mutual

/- The files of a tree, each with the way that leads to it. -/
def Tree.ways : Tree → List (List String × List UInt8)
| .file content => [([], content)]
| .folder entries => entryWays entries

/- The files below some entries of a folder. -/
def entryWays :
    List (String × Tree) → List (List String × List UInt8)
| [] => []
| (name, tree) :: rest =>
    tree.ways.map (fun file => (name :: file.1, file.2))
      ++ entryWays rest

end

/- The name of the part at the end of a way. -/
def nameOf
    (way : List String) : String :=
  "/".intercalate way

variable {tree : Tree} {entries : List (String × Tree)}
variable {root place : List String}

/- A way goes through one of the entries. -/
theorem mem_entryWays_iff
    {file : List String × List UInt8} :
    file ∈ entryWays entries ↔
      ∃ name tree way,
        (name, tree) ∈ entries ∧ (way, file.2) ∈ tree.ways ∧
          file.1 = name :: way := by
  induction entries with
  | nil => simp [entryWays]
  | cons entry entries ih =>
      obtain ⟨first, inner⟩ := entry
      rw [entryWays, List.mem_append, ih]
      constructor
      · rintro (hFirst | ⟨name, tree, way, hMem, hWay⟩)
        · obtain ⟨⟨way, content⟩, hWay, rfl⟩ := List.mem_map.mp hFirst
          exact ⟨first, inner, way, List.mem_cons_self, hWay, rfl⟩
        · exact ⟨name, tree, way, List.mem_cons_of_mem _ hMem, hWay⟩
      · rintro ⟨name, tree, way, hMem, hWay, hFile⟩
        rcases List.mem_cons.mp hMem with hFirst | hBehind
        · cases hFirst
          left
          exact List.mem_map.mpr ⟨_, hWay, Prod.ext hFile.symm rfl⟩
        · exact .inr ⟨name, tree, way, hBehind, hWay, hFile⟩

/- A way that is not empty has a name that is not empty. -/
theorem nameOf_ne_empty
    (hPlace : place ≠ [])
    (hNames : ∀ name ∈ place, PartName.Ordinary name.toList) :
    nameOf place ≠ "" := by
  obtain ⟨first, rest, rfl⟩ := List.exists_cons_of_ne_nil hPlace
  have hFirst := (hNames first List.mem_cons_self).filled
  intro hEmpty
  have hText := congrArg String.toList hEmpty
  rw [nameOf, String.toList_intercalate, List.map_cons] at hText
  cases rest with
  | nil =>
      rw [List.map_nil, List.intercalate_singleton] at hText
      exact hFirst hText
  | cons second rest =>
      rw [List.intercalate_cons_of_ne_nil (by simp),
        List.append_assoc] at hText
      exact hFirst (List.append_eq_nil_iff.mp hText).1

/- An entry of a folder is named by the way through the folder. -/
theorem below_nameOf
    (hNames : ∀ name ∈ place, PartName.Ordinary name.toList)
    (name : String) :
    below (nameOf place) name = nameOf (place ++ [name]) := by
  unfold below
  by_cases hPlace : place = []
  · rw [hPlace, if_pos (by rfl)]
    exact String.intercalate_singleton.symm
  · have hFilled := nameOf_ne_empty hPlace hNames
    rw [if_neg (hFilled ∘ String.isEmpty_iff.mp), nameOf, nameOf,
      String.intercalate_append_of_ne_nil hPlace (List.cons_ne_nil _ _),
      String.intercalate_singleton]

/- The files of a tree are named by the ways that lead to them. -/
theorem Tree.Proper.files_eq
    (hProper : tree.Proper)
    (hNames : ∀ name ∈ place, PartName.Ordinary name.toList) :
    tree.files (nameOf place) =
      tree.ways.map fun file => (nameOf (place ++ file.1), file.2) := by
  induction hProper generalizing place with
  | file content =>
      rw [Tree.files, Tree.ways, List.map_singleton, List.append_nil]
  | folder entries hApart hEntries hInner ih =>
      clear hApart hInner
      rw [Tree.files, Tree.ways]
      -- a second induction, on the row of entries, inside that on trees
      induction entries with
      | nil => rfl
      | cons entry entries ihEntries =>
          obtain ⟨name, tree⟩ := entry
          rw [List.forall_mem_cons] at hEntries
          have hBelow :
              ∀ other ∈ place ++ [name],
                PartName.Ordinary other.toList := by
            intro other hMem
            rcases List.mem_append.mp hMem with hPlace | hLast
            · exact hNames other hPlace
            · rw [List.mem_singleton.mp hLast]
              exact hEntries.1
          rw [entryFiles, entryWays, below_nameOf hNames,
            ih _ List.mem_cons_self hBelow, List.map_append,
            List.map_map,
            ihEntries hEntries.2 fun entry hMem =>
              ih entry (List.mem_cons_of_mem _ hMem)]
          simp only [Function.comp_def, List.append_assoc,
            List.singleton_append]

------------------------------------------------------------
-- Places
------------------------------------------------------------

section

variable {outer : List Tree} {name : String} {rest : List String}

/- Some segments stay where they are. -/
theorem locate_here
    (hHere : (name == "" || name == ".") = true) :
    locate outer (.folder entries) (name :: rest) =
      locate outer (.folder entries) rest := by
  rw [locate.eq_def]
  dsimp only
  rw [if_pos hHere]

/- One segment leads to the folder around. -/
theorem locate_above
    {folder : Tree}
    (hHere : ¬ (name == "" || name == ".") = true)
    (hAbove : (name == "..") = true) :
    locate (folder :: outer) (.folder entries) (name :: rest) =
      locate outer folder rest := by
  rw [locate.eq_def]
  dsimp only
  rw [if_neg hHere, if_pos hAbove]

/- All other segments lead to entries. -/
theorem locate_entry
    (hHere : ¬ (name == "" || name == ".") = true)
    (hAbove : ¬ (name == "..") = true)
    (hEntry : entries.lookup name = some tree) :
    locate outer (.folder entries) (name :: rest) =
      locate (.folder entries :: outer) tree rest := by
  rw [locate.eq_def]
  dsimp only
  rw [if_neg hHere, if_neg hAbove, hEntry]

end

/- What lies on the way to a folder is followed first. -/
theorem locate_append
    {outer : List Tree}
    {found : Tree}
    (hFound : locate outer tree root = .ok found) :
    ∃ around, ∀ way,
      locate outer tree (root ++ way) = locate around found way := by
  fun_induction locate outer tree root with
  | case1 outer tree =>
      cases hFound
      exact ⟨outer, fun _ => rfl⟩
  | case2 outer content name rest => cases hFound
  | case3 outer entries name rest hHere ih =>
      obtain ⟨around, hAround⟩ := ih hFound
      refine ⟨around, fun way => ?_⟩
      rw [List.cons_append, locate_here hHere]
      exact hAround way
  | case4 entries name rest hHere hAbove folder outer ih =>
      obtain ⟨around, hAround⟩ := ih hFound
      refine ⟨around, fun way => ?_⟩
      rw [List.cons_append, locate_above hHere hAbove]
      exact hAround way
  | case5 entries name rest hHere hAbove => cases hFound
  | case6 outer entries name rest hHere hAbove tree hInner ih =>
      obtain ⟨around, hAround⟩ := ih hFound
      refine ⟨around, fun way => ?_⟩
      rw [List.cons_append, locate_entry hHere hAbove hInner]
      exact hAround way
  | case7 outer entries name rest hHere hAbove hMissing => cases hFound

/- A way leads to its file. -/
theorem Tree.Proper.locate_way
    (hProper : tree.Proper)
    {file : List String × List UInt8}
    (hFile : file ∈ tree.ways)
    (outer : List Tree) :
    locate outer tree file.1 = .ok (.file file.2) := by
  induction hProper generalizing file outer with
  | file content =>
      rw [Tree.ways, List.mem_singleton] at hFile
      rw [hFile]
      rfl
  | folder entries hApart hNames _ ih =>
      obtain ⟨name, tree, way, hMem, hWay, hFile⟩ :=
        mem_entryWays_iff.mp hFile
      have hName : PartName.Ordinary name.toList := hNames _ hMem
      have hHere : ¬ (name == "" || name == ".") = true := by
        rw [Bool.or_eq_true, beq_iff_eq, beq_iff_eq, not_or]
        exact
          ⟨fun hEmpty => hName.filled (congrArg String.toList hEmpty),
            fun hPoint => hName.notHere (congrArg String.toList hPoint)⟩
      have hAbove : ¬ (name == "..") = true := by
        rw [beq_iff_eq]
        exact fun hPoints =>
          hName.notAbove (congrArg String.toList hPoints)
      rw [hFile, locate_entry hHere hAbove (lookup_of_mem hApart hMem)]
      exact ih _ hMem hWay _

/- A file below a folder is read at its place. -/
theorem contentAt_way
    (hRoot : locate [] tree root = .ok (.folder entries))
    (hProper : (Tree.folder entries).Proper)
    {file : List String × List UInt8}
    (hFile : file ∈ entryWays entries) :
    contentAt tree (root ++ file.1) = .ok file.2 := by
  obtain ⟨around, hAround⟩ := locate_append hRoot
  unfold contentAt
  rw [hAround, hProper.locate_way hFile]
  rfl

------------------------------------------------------------
-- Surveys
------------------------------------------------------------

/- A place below the root, under the key of its name. -/
def entered
    (root place : List String) : String × List String :=
  (PartName.key (nameOf (place.drop root.length)), place)

/- The places behind an entry of a folder. -/
def behind
    (root place : List String)
    (entry : String × Tree) : List (String × List String) :=
  entry.2.ways.map fun file => entered root (place ++ entry.1 :: file.1)

/- The places below a folder that is still to be gone through. -/
def Pending.ahead
    (root : List String)
    (folder : Pending) : List (String × List String) :=
  folder.entries.flatMap (behind root folder.place)

/- They are those of its files. -/
theorem Pending.ahead_eq
    (folder : Pending) :
    folder.ahead root =
      (entryWays folder.entries).map fun file =>
        entered root (folder.place ++ file.1) := by
  obtain ⟨place, entries⟩ := folder
  unfold ahead
  dsimp only
  induction entries with
  | nil => rfl
  | cons entry entries ih =>
      rw [List.flatMap_cons, ih, entryWays, List.map_append, List.map_map]
      rfl

/- The places behind a folder are those below it. -/
theorem behind_folder
    (name : String)
    (inner : List (String × Tree)) :
    behind root place (name, .folder inner) =
      Pending.ahead root ⟨place ++ [name], inner⟩ := by
  rw [Pending.ahead_eq, behind, Tree.ways]
  simp only [List.append_assoc, List.singleton_append]

namespace Survey

variable {s : Survey}

/- The places that a survey has entered or that are ahead of it. -/
def outlook
    (root : List String)
    (s : Survey) : List (String × List String) :=
  s.index ++ s.pending.flatMap (Pending.ahead root)

/- A survey below its root that meets no key twice. -/
structure Sound
    (root : List String)
    (s : Survey) : Prop where
  inside : ∀ folder ∈ s.pending, root <+: folder.place
  apart : ((s.outlook root).map Prod.fst).Nodup

/- A file is entered with its place. -/
theorem note_file
    (hPlace : root <+: place)
    {name : String}
    (hKey :
      (entered root (place ++ [name])).1 ∉ s.index.map Prod.fst)
    (content : List UInt8) :
    s.note root place (name, .file content) =
      { s with index := entered root (place ++ [name]) :: s.index } := by
  have hWay :
      wayFrom? root (place ++ [name]) =
        some ((place ++ [name]).drop root.length) := by
    have hInside : root <+: place ++ [name] :=
      hPlace.trans (List.prefix_append _ _)
    unfold wayFrom?
    rw [if_pos (List.isPrefixOf_iff_prefix.mpr hInside)]
  unfold note
  dsimp only
  rw [hWay]
  unfold enter
  dsimp only
  exact congrArg (fun kept => Survey.mk s.pending (_ :: kept))
    (filter_of_not_mem hKey)

/-
  To take note of an entry brings the places behind it into the
  outlook and changes nothing else.
-/
theorem note_outlook
    (hPlace : root <+: place)
    {entry : String × Tree}
    (hKeys :
      ((s.outlook root ++ behind root place entry).map Prod.fst).Nodup) :
    ((s.note root place entry).outlook root).Perm
      (s.outlook root ++ behind root place entry) := by
  obtain ⟨name, tree⟩ := entry
  cases tree with
  | file content =>
      have hBehind :
          behind root place (name, .file content) =
            [entered root (place ++ [name])] :=
        rfl
      have hKey :
          (entered root (place ++ [name])).1 ∉ s.index.map Prod.fst := by
        intro hMem
        rw [hBehind, List.map_append, List.nodup_append] at hKeys
        refine hKeys.2.2 _ ?_ _ (List.mem_singleton_self _) rfl
        rw [outlook, List.map_append]
        exact List.mem_append_left _ hMem
      rw [note_file hPlace hKey, hBehind]
      exact (List.perm_append_singleton _ _).symm
  | folder inner =>
      rw [behind_folder, outlook, outlook, List.append_assoc]
      exact List.Perm.append_left _ List.perm_append_comm

/- What is put aside lies below the root. -/
theorem note_inside
    (hPlace : root <+: place)
    (hInside : ∀ folder ∈ s.pending, root <+: folder.place)
    (entry : String × Tree) :
    ∀ folder ∈ (s.note root place entry).pending,
      root <+: folder.place := by
  obtain ⟨name, tree⟩ := entry
  cases tree with
  | file content =>
      unfold note
      dsimp only
      split <;> exact hInside
  | folder inner =>
      intro folder hMem
      rcases List.mem_cons.mp hMem with rfl | hMem
      · exact hPlace.trans (List.prefix_append _ _)
      · exact hInside folder hMem

/- To visit a folder brings all that lies below it into the outlook. -/
theorem visit_outlook
    {folder : Pending}
    (hPlace : root <+: folder.place)
    (hInside : ∀ folder ∈ s.pending, root <+: folder.place)
    (hKeys :
      ((s.outlook root ++ folder.ahead root).map Prod.fst).Nodup) :
    (∀ next ∈ (s.visit root folder).pending, root <+: next.place) ∧
      ((s.visit root folder).outlook root).Perm
        (s.outlook root ++ folder.ahead root) := by
  obtain ⟨place, entries⟩ := folder
  unfold visit Pending.ahead at *
  dsimp only at *
  -- only up to order: folders are put aside in front of the others
  induction entries generalizing s with
  | nil =>
      rw [List.flatMap_nil, List.append_nil]
      exact ⟨hInside, .rfl⟩
  | cons entry entries ih =>
      rw [List.flatMap_cons, ← List.append_assoc] at hKeys ⊢
      have hFirst :
          ((s.outlook root ++ behind root place entry).map
            Prod.fst).Nodup := by
        rw [List.map_append] at hKeys
        exact hKeys.of_append_left
      have hNote := note_outlook hPlace hFirst
      have hAll :=
        hNote.append_right (entries.flatMap (behind root place))
      obtain ⟨hBelow, hRest⟩ :=
        ih (note_inside hPlace hInside entry)
          ((hAll.map Prod.fst).nodup_iff.mpr hKeys)
      exact ⟨hBelow, hRest.trans hAll⟩

/- A sound survey ends with all the places of its outlook. -/
theorem finish_outlook
    (hSound : s.Sound root) :
    (s.finish root).Perm (s.outlook root) := by
  fun_induction finish root s with
  | case1 s hPending =>
      rw [outlook, hPending, List.flatMap_nil, List.append_nil]
  | case2 s folder pending hPending ih =>
      let before : Survey := ⟨pending, s.index⟩
      have hInside := hSound.inside
      rw [hPending, List.forall_mem_cons] at hInside
      -- the folder is taken from the pending ones and gone through
      have hMoved :
          (before.outlook root ++ folder.ahead root).Perm
            (s.outlook root) := by
        rw [outlook, outlook, hPending, List.flatMap_cons,
          List.append_assoc]
        exact List.Perm.append_left _ List.perm_append_comm
      have hKeys :
          ((before.outlook root ++ folder.ahead root).map
            Prod.fst).Nodup :=
        (hMoved.map Prod.fst).nodup_iff.mpr hSound.apart
      obtain ⟨hBelow, hVisit⟩ :=
        visit_outlook hInside.1 hInside.2 hKeys
      have hNext : (before.visit root folder).Sound root :=
        ⟨hBelow, (hVisit.map Prod.fst).nodup_iff.mpr hKeys⟩
      exact (ih hNext).trans (hVisit.trans hMoved)

end Survey

------------------------------------------------------------
-- Archives
------------------------------------------------------------

/- The files of a folder are named by the ways that lead to them. -/
theorem entryFiles_eq
    (hProper : (Tree.folder entries).Proper) :
    entryFiles "" entries =
      (entryWays entries).map fun file => (nameOf file.1, file.2) :=
  @Tree.Proper.files_eq _ [] hProper nofun

/- The keys of the files of a folder, way by way. -/
theorem keys_eq
    (hProper : (Tree.folder entries).Proper) :
    (entryFiles "" entries).map (PartName.key ·.1) =
      (entryWays entries).map fun file =>
        PartName.key (nameOf file.1) := by
  rw [entryFiles_eq hProper, List.map_map]
  rfl

/- The index of an opened folder holds every file once. -/
theorem openAt_index
    (hRoot : locate [] tree root = .ok (.folder entries))
    (hProper : (Tree.folder entries).Proper)
    (hKeys : ((entryFiles "" entries).map (PartName.key ·.1)).Nodup) :
    ∃ index,
      Archive.openAt tree root = .ok ⟨tree, root, index⟩ ∧
        index.Perm
          ((entryWays entries).map fun file =>
            (PartName.key (nameOf file.1), root ++ file.1)) := by
  let start : Survey := ⟨[⟨root, entries⟩], []⟩
  have hOutlook :
      start.outlook root =
        (entryWays entries).map fun file =>
          (PartName.key (nameOf file.1), root ++ file.1) := by
    rw [Survey.outlook, List.nil_append, List.flatMap_singleton,
      Pending.ahead_eq]
    simp only [entered, List.drop_left]
  have hSound : start.Sound root := by
    constructor
    · intro folder hMem
      cases List.mem_singleton.mp hMem
      exact List.prefix_rfl
    · rw [hOutlook, List.map_map]
      rw [keys_eq hProper] at hKeys
      exact hKeys
  refine ⟨start.finish root, ?_, ?_⟩
  · unfold Archive.openAt
    rw [hRoot]
    rfl
  · rw [← hOutlook]
    exact Survey.finish_outlook hSound

/- An archive whose index holds every file once has these files. -/
theorem archive_offers
    (hRoot : locate [] tree root = .ok (.folder entries))
    (hProper : (Tree.folder entries).Proper)
    (hKeys : ((entryFiles "" entries).map (PartName.key ·.1)).Nodup)
    {index : List (String × List String)}
    (hIndex :
      index.Perm
        ((entryWays entries).map fun file =>
          (PartName.key (nameOf file.1), root ++ file.1))) :
    Offers (entryFiles "" entries) (Archive.mk tree root index) := by
  have hNames :
      (index.map Prod.fst).Perm
        ((entryFiles "" entries).map (PartName.key ·.1)) := by
    rw [keys_eq hProper]
    refine (hIndex.map Prod.fst).trans ?_
    rw [List.map_map]
    exact .rfl
  constructor
  · intro file hMem name hKey
    rw [entryFiles_eq hProper] at hMem
    obtain ⟨⟨way, content⟩, hWay, rfl⟩ := List.mem_map.mp hMem
    have hEntry : (PartName.key (nameOf way), root ++ way) ∈ index :=
      hIndex.mem_iff.mpr (List.mem_map.mpr ⟨_, hWay, rfl⟩)
    have hPlace :
        (Archive.mk tree root index).place? name = some (root ++ way) := by
      rw [Archive.place?, hKey]
      exact lookup_of_mem (hNames.nodup_iff.mpr hKeys) hEntry
    have hContent : contentAt tree (root ++ way) = .ok content :=
      contentAt_way hRoot hProper hWay
    simp only [PartReader.has, PartReader.stream, PartReader.read,
      Archive.content, hPlace, hContent, Except.mapError,
      Option.isSome_some, and_self]
  · intro name hNot
    have hPlace : (Archive.mk tree root index).place? name = none :=
      lookup_of_not_mem (hNot ∘ hNames.mem_iff.mp)
    simp only [PartReader.has, PartReader.stream, PartReader.read,
      Archive.content, hPlace, Option.isSome_none, and_self]

/- A folder that is read into memory has its files as parts. -/
theorem openAt_offers
    (hRoot : locate [] tree root = .ok (.folder entries))
    (hKeys : ((entryFiles "" entries).map (PartName.key ·.1)).Nodup) :
    ∃ memory,
      openAt tree root = .ok memory ∧
        Offers (entryFiles "" entries) memory ∧
        memory.size = (entryFiles "" entries).length := by
  refine
    ⟨.ofList (entryFiles "" entries), ?_,
      Package.ofList_offers hKeys, Package.ofList_size hKeys⟩
  unfold openAt
  rw [hRoot]
  rfl

/-
  To open a folder whose files have names of distinct keys enters
  every file once, with its place. A package in memory that is given
  the same files, in whatever order, has as many parts, and no name
  tells the two apart: the parts that they have, what is streamed,
  what is read and what is not found are the same. Names that differ
  in slashes in front or in the case of letters of ASCII stand for
  the same part in both of them.
-/
theorem archive_agrees
    (hRoot : locate [] tree root = .ok (.folder entries))
    (hProper : (Tree.folder entries).Proper)
    (hKeys : ((entryFiles "" entries).map (PartName.key ·.1)).Nodup) :
    ∃ archive,
      Archive.openAt tree root = .ok archive ∧
        archive.index.Perm
          ((entryWays entries).map fun file =>
            (PartName.key (nameOf file.1), root ++ file.1)) ∧
        ∀ files : List (String × List UInt8),
          files.Perm (entryFiles "" entries) →
            Offers files archive ∧
              Offers files (Package.ofList files) ∧
              archive.size = (Package.ofList files).size ∧
              (∀ name,
                PartReader.has archive name =
                    PartReader.has (Package.ofList files) name ∧
                  PartReader.stream archive name =
                    PartReader.stream (Package.ofList files) name ∧
                  PartReader.read archive name =
                    PartReader.read (Package.ofList files) name) ∧
              ∀ name other,
                PartName.spelling name = PartName.spelling other →
                  archive.place? name = archive.place? other ∧
                    (Package.ofList files).find? name =
                      (Package.ofList files).find? other := by
  obtain ⟨index, hOpen, hIndex⟩ := openAt_index hRoot hProper hKeys
  refine ⟨⟨tree, root, index⟩, hOpen, hIndex, fun files hFiles => ?_⟩
  have hFileKeys : (files.map (PartName.key ·.1)).Nodup :=
    (hFiles.map _).nodup_iff.mpr hKeys
  have hArchive : Offers files (Archive.mk tree root index) :=
    (archive_offers hRoot hProper hKeys hIndex).of_perm hFiles
  have hMemory : Offers files (Package.ofList files) :=
    Package.ofList_offers hFileKeys
  refine ⟨hArchive, hMemory, ?_, hArchive.agree hMemory, ?_⟩
  · rw [Package.ofList_size hFileKeys, hFiles.length_eq,
      entryFiles_eq hProper, List.length_map, Archive.size,
      hIndex.length_eq, List.length_map]
  · intro name other hSame
    have hKey : PartName.key name = PartName.key other :=
      PartName.key_eq_of_spelling hSame
    rw [Archive.place?, Archive.place?, Package.find?, Package.find?,
      hKey]
    exact ⟨rfl, rfl⟩

namespace Nested

/- A folder that lies in another one. -/
def pages : List (String × Tree) :=
  [("1.fpage", .file [1]), ("2.FPAGE", .file [2])]

/- The folder of a package. -/
def parts : List (String × Tree) :=
  [("Pages", .folder pages), ("a.dict", .file [3]), ("Old", .folder [])]

/- The tree around it. -/
def around : Tree :=
  .folder [("Package", .folder parts)]

/- The way to it. -/
def way : List String :=
  [".", "Package"]

/- Its names are apart, and so are those of the folders in it. -/
theorem proper :
    (Tree.folder parts).Proper := by
  have hPages : (Tree.folder pages).Proper := by
    refine .folder _ (by decide) (by decide +kernel) ?_
    intro entry hMem
    simp only [pages, List.mem_cons, List.not_mem_nil, or_false] at hMem
    rcases hMem with rfl | rfl
    · exact .file _
    · exact .file _
  have hOld : (Tree.folder []).Proper :=
    .folder _ List.nodup_nil nofun nofun
  refine .folder _ (by decide) (by decide +kernel) ?_
  intro entry hMem
  simp only [parts, List.mem_cons, List.not_mem_nil, or_false] at hMem
  rcases hMem with rfl | rfl | rfl
  · exact hPages
  · exact .file _
  · exact hOld

end Nested

/- A page in a folder is read under a name in other letters. -/
theorem Nested.archive_read :
    locate [] Nested.around Nested.way = .ok (.folder Nested.parts) ∧
      (Tree.folder Nested.parts).Proper ∧
      ((entryFiles "" Nested.parts).map (PartName.key ·.1)).Nodup ∧
      ∃ archive,
        Archive.openAt Nested.around Nested.way = .ok archive ∧
          archive.size = 3 ∧
          PartReader.read archive "//pages/2.fpage" = .ok [2] ∧
          PartReader.read archive "/old" =
            .error (.notFound "/old") := by
  have hRoot :
      locate [] Nested.around Nested.way = .ok (.folder Nested.parts) :=
    rfl
  have hKeys :
      ((entryFiles "" Nested.parts).map (PartName.key ·.1)).Nodup := by
    decide +kernel
  obtain ⟨archive, hOpen, -, hFiles⟩ :=
    archive_agrees hRoot Nested.proper hKeys
  obtain ⟨hArchive, -, hSize, -⟩ := hFiles _ .rfl
  refine
    ⟨hRoot, Nested.proper, hKeys, archive, hOpen, hSize, ?_, ?_⟩
  · exact
      (hArchive.found ("Pages/2.FPAGE", [2]) (by decide +kernel) _
        (by decide +kernel)).2.2
  · exact (hArchive.absent _ (by decide +kernel)).2.2

end Directory

end FixedPage
