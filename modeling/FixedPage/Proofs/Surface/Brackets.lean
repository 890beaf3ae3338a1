import FixedPage.Surface.Recording

/-
  This file states when the operations on a surface are properly
  nested. A save is closed by a restore and a group by the pop
  that carries its number; what lies between is nested again.

  A surface is inside of some brackets relative to an earlier
  one when it has opened them since and closed everything else.
  Unless it may be turned, the earlier surface is drawn on only
  inside of brackets.

  The groups of a properly nested word are numbered in the order
  in which they are opened, each of them is closed once, and
  between the two there is a nested word again.

  Main declarations:
    * `Operation.Nested`
    * `Operation.Enclosed`
    * `Surface.Level`
    * `Bracket`
    * `Surface.Inside`
    * `Surface.Inside.leave`
    * `Operation.Nested.next_eq`
    * `Operation.Nested.closed_perm`
    * `Operation.Nested.of_push`
    * `Operation.Nested.of_pop`
-/

namespace FixedPage

variable {α : Type}

------------------------------------------------------------
-- Bracket words
------------------------------------------------------------

/- The operation neither opens nor closes a bracket. -/
def Operation.isPlain : Operation α → Bool
| .save => false
| .restore => false
| .pushGroup => false
| .popGroup _ => false
| _ => true

/-
  `Nested n w m` says that `w` is properly nested, where groups
  get the numbers from `n` on in the order they are opened and
  `m` is the number left for the next one.
-/
inductive Operation.Nested :
    Nat → List (Operation α) → Nat → Prop
| nil
    (n : Nat) :
    Nested n [] n
| plain
    {n m : Nat}
    {op : Operation α}
    {w : List (Operation α)}
    (hPlain : op.isPlain = true)
    (hRest : Nested n w m) :
    Nested n (op :: w) m
| saved
    {n m k : Nat}
    {inner w : List (Operation α)}
    (hInner : Nested n inner m)
    (hRest : Nested m w k) :
    Nested n (.save :: inner ++ .restore :: w) k
| grouped
    {n m k : Nat}
    {inner w : List (Operation α)}
    (hInner : Nested (n + 1) inner m)
    (hRest : Nested m w k) :
    Nested n
      (.pushGroup :: inner ++ .popGroup (.group n) :: w) k

namespace Operation.Nested

/- One nested word after another is nested. -/
theorem append
    {n m k : Nat}
    {w v : List (Operation α)}
    (hFirst : Nested n w m)
    (hSecond : Nested m v k) :
    Nested n (w ++ v) k := by
  induction hFirst with
  | nil n => exact hSecond
  | plain hPlain hRest ih =>
      exact .plain hPlain (ih hSecond)
  | saved hInner hRest ihInner ih =>
      simpa using Nested.saved hInner (ih hSecond)
  | grouped hInner hRest ihInner ih =>
      simpa using Nested.grouped hInner (ih hSecond)

/- A plain operation is a nested word. -/
theorem single
    (n : Nat)
    {op : Operation α}
    (hPlain : op.isPlain = true) :
    Nested n [op] n :=
  .plain hPlain (.nil n)

/- A save around a nested word. -/
theorem save_restore
    {n m : Nat}
    {w : List (Operation α)}
    (hInner : Nested n w m) :
    Nested n (.save :: w ++ [.restore]) m :=
  .saved hInner (.nil m)

/- A group around a nested word. -/
theorem push_pop
    {n m : Nat}
    {w : List (Operation α)}
    (hInner : Nested (n + 1) w m) :
    Nested n (.pushGroup :: w ++ [.popGroup (.group n)]) m :=
  .grouped hInner (.nil m)

end Operation.Nested

/-
  Whatever a nested word draws, it draws inside of brackets that
  it closes itself.
-/
inductive Operation.Enclosed :
    List (Operation α) → Prop
| nil :
    Enclosed []
| saved
    {n m : Nat}
    {inner w : List (Operation α)}
    (hInner : Nested n inner m)
    (hRest : Enclosed w) :
    Enclosed (.save :: inner ++ .restore :: w)
| grouped
    {n m k : Nat}
    {inner w : List (Operation α)}
    (hInner : Nested n inner m)
    (hRest : Enclosed w) :
    Enclosed (.pushGroup :: inner ++ .popGroup (.group k) :: w)

/- One enclosed word after another is enclosed. -/
theorem Operation.Enclosed.append
    {w v : List (Operation α)}
    (hFirst : Enclosed w)
    (hSecond : Enclosed v) :
    Enclosed (w ++ v) := by
  induction hFirst with
  | nil => exact hSecond
  | saved hInner hRest ih =>
      simpa using Enclosed.saved hInner ih
  | grouped hInner hRest ih =>
      simpa using Enclosed.grouped hInner ih

------------------------------------------------------------
-- Levels
------------------------------------------------------------

/-
  The surface `s'` comes from `s` by a nested word and has the
  same brackets open. Unless it may be turned, its current
  transformation is the same, too, and the word is enclosed.
-/
structure Surface.Level
    (turned : Bool)
    (s s' : Surface α) : Prop where
  nested :
    ∃ w : List (Operation α),
      s'.operations.toList = s.operations.toList ++ w ∧
        Operation.Nested s.nextGroup w s'.nextGroup
  saved : s'.saved = s.saved
  groups : s'.groups = s.groups
  ctm : turned = false → s'.ctm = s.ctm
  enclosed :
    turned = false →
      ∃ w : List (Operation α),
        s'.operations.toList = s.operations.toList ++ w ∧
          Operation.Enclosed w

namespace Surface.Level

variable {t : Bool} {s s' s'' : Surface α}

theorem refl
    (t : Bool)
    (s : Surface α) :
    Level t s s where
  nested := ⟨[], by simp, .nil _⟩
  saved := rfl
  groups := rfl
  ctm := fun _ => rfl
  enclosed := fun _ => ⟨[], by simp, .nil⟩

theorem trans
    (hFirst : Level t s s')
    (hSecond : Level t s' s'') :
    Level t s s'' where
  nested := by
    rcases hFirst.nested with ⟨w, hOps, hNested⟩
    rcases hSecond.nested with ⟨v, hOps', hNested'⟩
    exact
      ⟨w ++ v, by rw [hOps', hOps, List.append_assoc],
        hNested.append hNested'⟩
  saved := hSecond.saved.trans hFirst.saved
  groups := hSecond.groups.trans hFirst.groups
  ctm := fun hTurned =>
    (hSecond.ctm hTurned).trans (hFirst.ctm hTurned)
  enclosed := by
    intro hTurned
    rcases hFirst.enclosed hTurned with ⟨w, hOps, hEnclosed⟩
    rcases hSecond.enclosed hTurned with ⟨v, hOps', hEnclosed'⟩
    exact
      ⟨w ++ v, by rw [hOps', hOps, List.append_assoc],
        hEnclosed.append hEnclosed'⟩

/- What keeps the transformation may also be turned. -/
theorem weaken
    (hLevel : Level false s s') :
    Level t s s' where
  nested := hLevel.nested
  saved := hLevel.saved
  groups := hLevel.groups
  ctm := fun _ => hLevel.ctm rfl
  enclosed := fun _ => hLevel.enclosed rfl

/- A plain operation stays on the level. -/
theorem record
    (s : Surface α)
    {op : Operation α}
    (hPlain : op.isPlain = true) :
    Level true s (s.record op) where
  nested :=
    ⟨[op], by simp [Surface.record], .single _ hPlain⟩
  saved := rfl
  groups := rfl
  ctm := nofun
  enclosed := nofun

/- A transformation stays on the level but turns it. -/
theorem transform
    [Scalar α]
    (s : Surface α)
    (m : Matrix α) :
    Level true s (s.transform m) where
  nested :=
    ⟨[.transform m], by simp [Surface.transform, Surface.record],
      .single _ rfl⟩
  saved := rfl
  groups := rfl
  ctm := nofun
  enclosed := nofun

/- Steps of a path stay on the level. -/
theorem takeAll
    (steps : List (PathStep α))
    (s : Surface α) :
    Level true s (s.takeAll steps) := by
  induction steps generalizing s with
  | nil => exact refl true s
  | cons step rest ih =>
      have hStep : Level true s (s.take step) := by
        cases step <;> exact record s rfl
      exact hStep.trans (ih (s.take step))

theorem newPath
    (s : Surface α) :
    Level true s s.newPath :=
  record s rfl

theorem clip
    (s : Surface α) :
    Level true s s.clip :=
  record s rfl

theorem rectangle
    [Scalar α]
    (r : Rectangle α)
    (s : Surface α) :
    Level true s (s.rectangle r) :=
  takeAll _ s

end Surface.Level

------------------------------------------------------------
-- Brackets
------------------------------------------------------------

/- What can be open on a surface. -/
inductive Bracket where
  | save
  | group
deriving DecidableEq, Repr

namespace Bracket

/- Opens a bracket. -/
def enter : Bracket → Surface α → Surface α
| .save, s => s.save
| .group, s => s.pushGroup

/- Closes a bracket of a kind. -/
def leave : Bracket → Surface α → Surface α
| .save, s => s.restore
| .group, s => s.closeGroup

/-
  A bracket that is opened, drawn into and closed leaves
  everything as it was.
-/
theorem leave_level
    (b : Bracket)
    {s s' : Surface α}
    (hInner : Surface.Level true (b.enter s) s') :
    Surface.Level false s (b.leave s') := by
  rcases hInner with ⟨⟨w, hOps, hNested⟩, hSaved, hGroups, -, -⟩
  cases b with
  | save =>
      have hWord :
          (leave .save s').operations.toList =
            s.operations.toList ++ (.save :: w ++ [.restore]) := by
        simp [leave, enter, Surface.restore, Surface.save,
          Surface.record, Surface.unsave] at *
        rw [hSaved]
        simp [hOps]
      refine
        ⟨⟨_, hWord, ?_⟩, ?_, ?_, ?_,
          fun _ => ⟨_, hWord, .saved hNested .nil⟩⟩
      · simp only [enter, Surface.save, Surface.record] at hNested
        simp only [leave, Surface.restore, Surface.record,
          Surface.unsave, hSaved, enter, Surface.save]
        exact hNested.save_restore
      all_goals
        simp_all [leave, enter, Surface.restore, Surface.save,
          Surface.record, Surface.unsave]
  | group =>
      have hWord :
          (leave .group s').operations.toList =
            s.operations.toList
              ++ (.pushGroup :: w
                ++ [.popGroup (.group s.nextGroup)]) := by
        simp_all [leave, enter, Surface.closeGroup,
          Surface.pushGroup, Surface.record, Surface.unsave,
          Surface.topLayer]
      refine
        ⟨⟨_, hWord, ?_⟩, ?_, ?_, ?_,
          fun _ => ⟨_, hWord, .grouped hNested .nil⟩⟩
      · simp only [enter, Surface.pushGroup, Surface.record]
          at hNested
        simp only [leave, Surface.closeGroup, Surface.record,
          Surface.unsave, hSaved, enter, Surface.pushGroup]
        exact hNested.push_pop
      all_goals
        simp_all [leave, enter, Surface.closeGroup,
          Surface.pushGroup, Surface.record, Surface.unsave,
          Surface.topLayer]

end Bracket

------------------------------------------------------------
-- Inside of brackets
------------------------------------------------------------

/-
  The surface `s` comes from `base` by opening some brackets,
  the last one first in the list, and drawing on the way. Only
  inside of a bracket may the transformation change and may
  something be drawn, unless `base` may be turned itself.
-/
inductive Surface.Inside
    (turned : Bool)
    (base : Surface α) :
    List Bracket → Surface α → Prop
| level
    {s : Surface α}
    (hLevel : Level turned base s) :
    Inside turned base [] s
| entered
    {b : Bracket}
    {bs : List Bracket}
    {outer s : Surface α}
    (hOuter : Inside turned base bs outer)
    (hLevel : Level true (b.enter outer) s) :
    Inside turned base (b :: bs) s

namespace Surface.Inside

variable {t : Bool} {base s s' : Surface α}
variable {b : Bracket} {bs : List Bracket}

/- Drawing inside of closed brackets changes nothing. -/
theorem draw
    (hInside : Inside t base bs s)
    (hLevel : Level false s s') :
    Inside t base bs s' := by
  cases hInside with
  | level hBase => exact .level (hBase.trans hLevel.weaken)
  | entered hOuter hInner =>
      exact .entered hOuter (hInner.trans hLevel.weaken)

/- Inside of a bracket anything may be drawn. -/
theorem turn
    (hInside : Inside t base bs s)
    (hOpen : bs ≠ [] ∨ t = true)
    (hLevel : Level true s s') :
    Inside t base bs s' := by
  cases hInside with
  | level hBase =>
      have hTurned : t = true := by simpa using hOpen
      subst hTurned
      exact .level (hBase.trans hLevel)
  | entered hOuter hInner =>
      exact .entered hOuter (hInner.trans hLevel)

/- Opens one more bracket. -/
theorem enter
    (b : Bracket)
    (hInside : Inside t base bs s) :
    Inside t base (b :: bs) (b.enter s) :=
  .entered hInside (.refl true _)

/- Closes the innermost bracket. -/
theorem leave
    (hInside : Inside t base (b :: bs) s) :
    Inside t base bs (b.leave s) := by
  cases hInside with
  | entered hOuter hLevel =>
      exact hOuter.draw (b.leave_level hLevel)

/- Outside of all brackets only the level is left. -/
theorem level_of_nil
    (hInside : Inside t base [] s) :
    Level t base s := by
  cases hInside with
  | level hLevel => exact hLevel

end Surface.Inside

end FixedPage

namespace FixedPage.Operation

variable {α : Type}

------------------------------------------------------------
-- Numbers
------------------------------------------------------------

/- The operation opens a group. -/
def opensGroup : Operation α → Bool
| .pushGroup => true
| _ => false

/- The layer of the group that the operation closes. -/
def closed? : Operation α → Option Layer
| .popGroup layer => some layer
| _ => none

/- A plain operation opens no group. -/
theorem countP_opensGroup_plain
    {op : Operation α}
    (hPlain : op.isPlain = true)
    (w : List (Operation α)) :
    (op :: w).countP opensGroup = w.countP opensGroup := by
  cases op <;> first | rfl | cases hPlain

/- A save opens the groups inside of it and after it. -/
theorem countP_opensGroup_saved
    (inner w : List (Operation α)) :
    (.save :: inner ++ .restore :: w : List (Operation α)).countP
        opensGroup =
      inner.countP opensGroup + w.countP opensGroup := by
  rw [List.countP_append]
  rfl

/- A group is one more than those inside of it and after it. -/
theorem countP_opensGroup_grouped
    (layer : Layer)
    (inner w : List (Operation α)) :
    (.pushGroup :: inner ++ .popGroup layer :: w :
        List (Operation α)).countP opensGroup =
      inner.countP opensGroup + w.countP opensGroup + 1 := by
  rw [List.countP_append, List.countP_cons_of_pos rfl,
    Nat.add_right_comm]
  rfl

namespace Nested

variable {n m : Nat} {w : List (Operation α)}

/- Every group that a nested word opens takes a number. -/
theorem next_eq
    (hNested : Nested n w m) :
    m = n + w.countP opensGroup := by
  induction hNested with
  | nil n => rfl
  | plain hPlain _ ih => rw [ih, countP_opensGroup_plain hPlain]
  | saved _ _ ihInner ih =>
      rw [countP_opensGroup_saved]
      omega
  | grouped _ _ ihInner ih =>
      rw [countP_opensGroup_grouped]
      omega

/- The groups that a nested word opens are closed, once each. -/
theorem closed_perm
    (hNested : Nested n w m) :
    (w.filterMap closed?).Perm
      ((List.range' n (w.countP opensGroup)).map .group) := by
  have hJoin :
      ∀ (n k : Nat) (inner w : List (Operation α)),
        (inner.filterMap closed?).Perm
            ((List.range' n (inner.countP opensGroup)).map .group) →
          (w.filterMap closed?).Perm
              ((List.range' k (w.countP opensGroup)).map .group) →
            k = n + inner.countP opensGroup →
              (inner.filterMap closed? ++ w.filterMap closed?).Perm
                ((List.range' n
                  (inner.countP opensGroup
                    + w.countP opensGroup)).map .group) := by
    rintro n _ inner w hInner hRest rfl
    rw [← List.range'_append_1, List.map_append]
    exact hInner.append hRest
  induction hNested with
  | nil n => rfl
  | @plain n m op w hPlain _ ih =>
      have hNone : op.closed? = none := by
        cases op <;> first | rfl | cases hPlain
      rw [List.filterMap_cons_none hNone,
        countP_opensGroup_plain hPlain]
      exact ih
  | @saved n m k inner w hInner _ ihInner ih =>
      rw [countP_opensGroup_saved, List.filterMap_append]
      exact hJoin n m inner w ihInner ih hInner.next_eq
  | @grouped n m k inner w hInner _ ihInner ih =>
      rw [countP_opensGroup_grouped, List.range'_succ, List.map_cons,
        List.filterMap_append]
      have hBoth :=
        hJoin (n + 1) m inner w ihInner ih hInner.next_eq
      exact List.perm_middle.trans (hBoth.cons _)

end Nested

------------------------------------------------------------
-- Ends of groups
------------------------------------------------------------

/-
  An operation in a word that closes a bracket is inside of the
  bracket, closes it, or comes after it.
-/
theorem inside_or_after
    {op close : Operation α}
    {inner w pre post : List (Operation α)}
    (hWord : inner ++ close :: w = pre ++ op :: post) :
    (∃ mid, inner = pre ++ op :: mid ∧ post = mid ++ close :: w) ∨
      (op = close ∧ pre = inner ∧ post = w) ∨
        ∃ mid, pre = inner ++ close :: mid ∧ w = mid ++ op :: post := by
  rcases List.append_eq_append_iff.mp hWord with
    ⟨mid, hPre, hRest⟩ | ⟨mid, hInner, hRest⟩
  · cases mid with
    | nil =>
        cases hRest
        exact .inr (.inl ⟨rfl, by simpa using hPre, rfl⟩)
    | cons _ mid =>
        cases hRest
        exact .inr (.inr ⟨mid, hPre, rfl⟩)
  · cases mid with
    | nil =>
        cases hRest
        exact .inr (.inl ⟨rfl, by simpa using hInner.symm, rfl⟩)
    | cons _ mid =>
        cases hRest
        exact .inl ⟨mid, hInner, rfl⟩

namespace Nested

variable {n m : Nat} {w pre post : List (Operation α)}

/- A group that is opened is closed after a nested word. -/
theorem of_push
    (hNested : Nested n w m)
    (hWord : w = pre ++ .pushGroup :: post) :
    ∃ content rest k,
      Nested (n + pre.countP opensGroup + 1) content k ∧
        post =
          content
            ++ .popGroup (.group (n + pre.countP opensGroup))
              :: rest := by
  induction hNested generalizing pre post with
  | nil n => simp at hWord
  | @plain n m op w hPlain _ ih =>
      cases pre with
      | nil =>
          cases hWord
          cases hPlain
      | cons first pre =>
          cases hWord
          rw [countP_opensGroup_plain hPlain]
          exact ih rfl
  | @saved n m k inner w hInner _ ihInner ih =>
      cases pre with
      | nil => cases hWord
      | cons first pre =>
          simp only [List.cons_append, List.cons.injEq] at hWord
          rcases hWord with ⟨rfl, hWord⟩
          rcases inside_or_after hWord with
            ⟨mid, rfl, rfl⟩ | ⟨hOp, -⟩ | ⟨mid, rfl, rfl⟩
          · rcases ihInner rfl with ⟨content, rest, k, hContent, rfl⟩
            exact
              ⟨content, rest ++ .restore :: w, k, hContent,
                List.append_assoc ..⟩
          · cases hOp
          · have hNext :
                n + (.save :: (inner ++ .restore :: mid)).countP
                    opensGroup =
                  m + mid.countP opensGroup := by
              rw [hInner.next_eq, ← List.cons_append,
                countP_opensGroup_saved]
              exact (Nat.add_assoc ..).symm
            rw [hNext]
            exact ih rfl
  | @grouped n m k inner w hInner _ ihInner ih =>
      cases pre with
      | nil =>
          simp only [List.cons_append, List.nil_append,
            List.cons.injEq] at hWord
          exact ⟨inner, w, m, hInner, hWord.2.symm⟩
      | cons first pre =>
          simp only [List.cons_append, List.cons.injEq] at hWord
          rcases hWord with ⟨rfl, hWord⟩
          rcases inside_or_after hWord with
            ⟨mid, rfl, rfl⟩ | ⟨hOp, -⟩ | ⟨mid, rfl, rfl⟩
          · rcases ihInner rfl with ⟨content, rest, k, hContent, rfl⟩
            rw [List.countP_cons_of_pos rfl, ← Nat.add_assoc,
              Nat.add_right_comm n]
            exact
              ⟨content, rest ++ .popGroup (.group n) :: w, k, hContent,
                by simp⟩
          · cases hOp
          · have hNext :
                n + (.pushGroup :: (inner
                    ++ .popGroup (.group n) :: mid)).countP
                      opensGroup =
                  m + mid.countP opensGroup := by
              rw [hInner.next_eq, ← List.cons_append,
                countP_opensGroup_grouped]
              omega
            rw [hNext]
            exact ih rfl

/-
  What is closed is a group that was opened before a nested word,
  by its number.
-/
theorem of_pop
    {layer : Layer}
    (hNested : Nested n w m)
    (hWord : w = pre ++ .popGroup layer :: post) :
    ∃ before content k,
      pre = before ++ .pushGroup :: content ∧
        Nested (n + before.countP opensGroup + 1) content k ∧
        layer = .group (n + before.countP opensGroup) := by
  induction hNested generalizing pre post with
  | nil n => simp at hWord
  | @plain n m op w hPlain _ ih =>
      cases pre with
      | nil =>
          cases hWord
          cases hPlain
      | cons first pre =>
          cases hWord
          rcases ih rfl with ⟨before, content, k, rfl, hContent, hLayer⟩
          refine ⟨op :: before, content, k, rfl, ?_⟩
          rw [countP_opensGroup_plain hPlain]
          exact ⟨hContent, hLayer⟩
  | @saved n m k inner w hInner _ ihInner ih =>
      cases pre with
      | nil => cases hWord
      | cons first pre =>
          simp only [List.cons_append, List.cons.injEq] at hWord
          rcases hWord with ⟨rfl, hWord⟩
          rcases inside_or_after hWord with
            ⟨mid, rfl, rfl⟩ | ⟨hOp, -⟩ | ⟨mid, rfl, rfl⟩
          · rcases ihInner rfl with
              ⟨before, content, k, rfl, hContent, hLayer⟩
            exact ⟨.save :: before, content, k, rfl, hContent, hLayer⟩
          · cases hOp
          · rcases ih rfl with
              ⟨before, content, k, rfl, hContent, hLayer⟩
            refine
              ⟨.save :: inner ++ .restore :: before, content, k,
                by simp, ?_⟩
            have hNext :
                n + (.save :: inner ++ .restore :: before).countP
                    opensGroup =
                  m + before.countP opensGroup := by
              rw [hInner.next_eq, countP_opensGroup_saved]
              exact (Nat.add_assoc ..).symm
            rw [hNext]
            exact ⟨hContent, hLayer⟩
  | @grouped n m k inner w hInner _ ihInner ih =>
      cases pre with
      | nil => cases hWord
      | cons first pre =>
          simp only [List.cons_append, List.cons.injEq] at hWord
          rcases hWord with ⟨rfl, hWord⟩
          rcases inside_or_after hWord with
            ⟨mid, rfl, rfl⟩ | ⟨hOp, rfl, rfl⟩ | ⟨mid, rfl, rfl⟩
          · rcases ihInner rfl with
              ⟨before, content, k, rfl, hContent, hLayer⟩
            refine ⟨.pushGroup :: before, content, k, rfl, ?_⟩
            rw [List.countP_cons_of_pos rfl, ← Nat.add_assoc,
              Nat.add_right_comm n]
            exact ⟨hContent, hLayer⟩
          · cases hOp
            exact ⟨[], pre, m, rfl, hInner, rfl⟩
          · rcases ih rfl with
              ⟨before, content, k, rfl, hContent, hLayer⟩
            refine
              ⟨.pushGroup :: inner ++ .popGroup (.group n) :: before,
                content, k, by simp, ?_⟩
            have hNext :
                n + (.pushGroup :: inner
                    ++ .popGroup (.group n) :: before).countP
                      opensGroup =
                  m + before.countP opensGroup := by
              rw [hInner.next_eq, countP_opensGroup_grouped]
              omega
            rw [hNext]
            exact ⟨hContent, hLayer⟩

end Nested

end FixedPage.Operation
