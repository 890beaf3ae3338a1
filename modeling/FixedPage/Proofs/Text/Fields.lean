import FixedPage.Text.Blank
import Mathlib.Tactic.SplitIfs

/-
  This file tells where a text is cut: at its last separator, into
  what ends with the separator and what follows it, or at every
  separator, into fields. The fields of a text are those that the
  standard library splits a list into, so its lemmas apply.

  Main declarations:
    * `CutsLast`
    * `exists_cutsLast`
    * `CutsLast.cutLast_eq`
    * `fields_eq_splitOnP`
    * `not_mem_of_mem_fields`
-/

namespace FixedPage.Text

------------------------------------------------------------
-- The last separator
------------------------------------------------------------

/-
  A text is cut behind its last separator: `front` ends with it, or
  is empty if there is none, and `back` is free of separators.
-/
structure CutsLast
    (separator : Char)
    (cs front back : List Char) : Prop where
  whole : cs = front ++ back
  closed : front = [] ∨ front.getLast? = some separator
  plain : separator ∉ back

variable {separator : Char} {cs front back : List Char}

/- Every text can be cut behind its last separator. -/
theorem exists_cutsLast
    (separator : Char)
    (cs : List Char) :
    ∃ front back, CutsLast separator cs front back := by
  induction cs with
  | nil => exact ⟨[], [], rfl, .inl rfl, List.not_mem_nil⟩
  | cons c cs ih =>
      obtain ⟨front, back, rfl, hClosed, hPlain⟩ := ih
      rcases hClosed with rfl | hLast
      · by_cases hHere : c = separator
        · exact ⟨[c], back, rfl, .inr (by rw [hHere]; rfl), hPlain⟩
        · refine ⟨[], c :: back, rfl, .inl rfl, ?_⟩
          rw [List.mem_cons, not_or]
          exact ⟨Ne.symm hHere, hPlain⟩
      · refine ⟨c :: front, back, rfl, .inr ?_, hPlain⟩
        rw [List.getLast?_cons, hLast, Option.getD_some]

/- What is in front of the last separator and what is behind it. -/
theorem CutsLast.cutLast_eq
    (hCut : CutsLast separator cs front back) :
    cutLast separator cs =
      if front = [] then none else some (front.dropLast, back) := by
  obtain ⟨rfl, hClosed, hPlain⟩ := hCut
  have hBack : ∀ c ∈ back.reverse, (c != separator) = true := by
    intro c hMem
    rw [bne_iff_ne]
    rintro rfl
    exact hPlain (List.mem_reverse.mp hMem)
  unfold cutLast
  dsimp only
  rw [List.reverse_append, List.dropWhile_append_of_pos hBack,
    List.takeWhile_append_of_pos hBack]
  rcases hClosed with rfl | hLast
  · rfl
  · obtain ⟨init, rfl⟩ := List.getLast?_eq_some_iff.mp hLast
    simp

------------------------------------------------------------
-- Fields
------------------------------------------------------------

variable {isSeparator : Char → Bool}

/- The fields of a text are the parts of a split list. -/
theorem fields_eq_splitOnP
    (isSeparator : Char → Bool)
    (cs : List Char) :
    fields isSeparator cs = cs.splitOnP isSeparator := by
  induction cs with
  | nil => rfl
  | cons c cs ih =>
      rw [List.splitOnP_cons_eq_if_modifyHead, fields, ih]
      split
      · rfl
      · cases hParts : cs.splitOnP isSeparator with
        | nil => exact absurd hParts (List.splitOnP_ne_nil _ _)
        | cons field rest => rfl

/- No field holds a separator. -/
theorem not_mem_of_mem_fields
    {field : List Char}
    (hField : field ∈ fields isSeparator cs) :
    ∀ c ∈ field, isSeparator c = false := by
  induction cs generalizing field with
  | nil =>
      cases List.mem_singleton.mp hField
      exact nofun
  | cons c cs ih =>
      rw [fields] at hField
      split at hField
      · rcases List.mem_cons.mp hField with rfl | hField
        · exact nofun
        · exact ih hField
      · rename_i hPlain
        have hFirst := Bool.eq_false_iff.mpr hPlain
        split at hField
        · rename_i first rest hFields
          rw [hFields] at ih
          rcases List.mem_cons.mp hField with rfl | hField
          · rw [List.forall_mem_cons]
            exact ⟨hFirst, ih List.mem_cons_self⟩
          · exact ih (List.mem_cons_of_mem _ hField)
        · cases List.mem_singleton.mp hField
          exact List.forall_mem_singleton.mpr hFirst

end FixedPage.Text
