import FixedPage.Render.Opening.Content
import Mathlib.Order.Defs.Unbundled

/-
  This file follows what an action does to the state of
  rendering. An action keeps a relation when the state before it
  and the state after it are related, whether it fails or not;
  for a preorder this is passed on from the parts of an action
  to the whole. What an action returns may have a property,
  whatever the state.

  Main declarations:
    * `Action.perform_bind`
    * `Action.Keeps`
    * `Action.Keeps.bind`
    * `Action.Keeps.foldlM`
    * `Action.Gives`
    * `Action.Gives.bind`
-/

namespace FixedPage.Action

variable {α β γ : Type}

------------------------------------------------------------
-- Performing
------------------------------------------------------------

@[simp] theorem perform_pure
    (b : β)
    (st : RenderState α) :
    perform (pure b : Action α β) st = (.ok b, st) :=
  rfl

@[simp] theorem perform_fail
    (fault : Error)
    (st : RenderState α) :
    perform (fail fault : Action α β) st = (.error fault, st) :=
  rfl

@[simp] theorem perform_ofExcept
    (x : Except Error β)
    (st : RenderState α) :
    perform (ofExcept x) st = (x, st) :=
  rfl

@[simp] theorem perform_ofEffect
    (f : RenderState α → Except Error β × RenderState α)
    (st : RenderState α) :
    perform (ofEffect f) st = f st :=
  rfl

@[simp] theorem perform_change
    (f : RenderState α → RenderState α)
    (st : RenderState α) :
    perform (change f) st = (.ok (), f st) :=
  rfl

@[simp] theorem perform_draw
    (f : Surface α → Surface α)
    (st : RenderState α) :
    perform (draw f) st = (.ok (), st.draw f) :=
  rfl

/- What follows an action is performed unless the action fails. -/
theorem perform_bind
    (x : Action α β)
    (f : β → Action α γ)
    (st : RenderState α) :
    perform (x >>= f) st =
      match perform x st with
      | (.ok b, st') => perform (f b) st'
      | (.error fault, st') => (.error fault, st') := by
  unfold perform
  rw [ExceptT.run_bind, StateT.run_bind]
  rcases (ExceptT.run x).run st with ⟨result, st'⟩
  cases result <;> rfl

/- An action that succeeds is followed by the next one. -/
theorem perform_bind_ok
    {x : Action α β}
    {f : β → Action α γ}
    {st st' : RenderState α}
    {b : β}
    (hOk : perform x st = (.ok b, st')) :
    perform (x >>= f) st = perform (f b) st' := by
  rw [perform_bind, hOk]

/- A failure is passed on. -/
theorem perform_bind_error
    {x : Action α β}
    (f : β → Action α γ)
    {st st' : RenderState α}
    {fault : Error}
    (hError : perform x st = (.error fault, st')) :
    perform (x >>= f) st = (.error fault, st') := by
  rw [perform_bind, hError]

/- The undoing step is taken only after a failure. -/
theorem perform_onError
    (x : Action α β)
    (undo : RenderState α → RenderState α)
    (st : RenderState α) :
    perform (onError x undo) st =
      match perform x st with
      | (.ok b, st') => (.ok b, st')
      | (.error fault, st') => (.error fault, undo st') :=
  rfl

------------------------------------------------------------
-- Keeping a relation
------------------------------------------------------------

/- The states before and after the action are related. -/
def Keeps
    (R : RenderState α → RenderState α → Prop)
    (x : Action α β) : Prop :=
  ∀ st, R st (perform x st).2

namespace Keeps

variable {R : RenderState α → RenderState α → Prop}

/- What leaves the state alone keeps every reflexive relation. -/
theorem of_eq
    [Std.Refl R]
    {x : Action α β}
    (hKeeps : Keeps Eq x) :
    Keeps R x := by
  intro st
  rw [← hKeeps st]
  exact Std.Refl.refl st

theorem pure
    [Std.Refl R]
    (b : β) :
    Keeps R (Pure.pure b : Action α β) :=
  fun st => Std.Refl.refl st

theorem fail
    [Std.Refl R]
    (fault : Error) :
    Keeps R (fail fault : Action α β) :=
  fun st => Std.Refl.refl st

theorem ofExcept
    [Std.Refl R]
    (x : Except Error β) :
    Keeps R (ofExcept x) :=
  fun st => Std.Refl.refl st

theorem bind
    [IsTrans (RenderState α) R]
    {x : Action α β}
    {f : β → Action α γ}
    (hFirst : Keeps R x)
    (hNext : ∀ b, Keeps R (f b)) :
    Keeps R (x >>= f) := by
  intro st
  rw [perform_bind]
  have hStep := hFirst st
  cases hResult : perform x st with
  | mk result st' =>
      rw [hResult] at hStep
      cases result with
      | error fault => exact hStep
      | ok b => exact IsTrans.trans _ _ _ hStep (hNext b st')

/- A fold keeps what each of its steps keeps. -/
theorem foldlM
    {ι : Type}
    [Std.Refl R]
    [IsTrans (RenderState α) R]
    {f : β → ι → Action α β}
    (hStep : ∀ b i, Keeps R (f b i))
    (b : β)
    (is : List ι) :
    Keeps R (is.foldlM f b) := by
  induction is generalizing b with
  | nil => exact pure b
  | cons i is ih =>
      rw [List.foldlM_cons]
      exact bind (hStep b i) ih

end Keeps

------------------------------------------------------------
-- Results
------------------------------------------------------------

variable {P : β → Prop} {Q : γ → Prop}

/- Whatever an action returns has a property. -/
def Gives
    (P : β → Prop)
    (x : Action α β) : Prop :=
  ∀ b st st', perform x st = (.ok b, st') → P b

namespace Gives

theorem pure
    {b : β}
    (hP : P b) :
    (Pure.pure b : Action α β).Gives P := by
  rintro _ st _ ⟨⟩
  exact hP

theorem fail
    (fault : Error) :
    (Action.fail fault : Action α β).Gives P := by
  rintro _ st _ ⟨⟩

theorem any
    (x : Action α β) :
    x.Gives fun _ => True :=
  fun _ _ _ _ => trivial

theorem bind
    {x : Action α β}
    {f : β → Action α γ}
    (hFirst : x.Gives P)
    (hNext : ∀ b, P b → (f b).Gives Q) :
    (x >>= f).Gives Q := by
  intro c st st' hOk
  rw [perform_bind] at hOk
  rcases hPerform : perform x st with ⟨fault | b, mid⟩
  · rw [hPerform] at hOk
    cases hOk
  · rw [hPerform] at hOk
    exact hNext b (hFirst b st mid hPerform) c mid st' hOk

theorem onError
    {x : Action α β}
    (undo : RenderState α → RenderState α)
    (hGives : x.Gives P) :
    (x.onError undo).Gives P := by
  intro b st st' hOk
  rw [perform_onError] at hOk
  rcases hPerform : perform x st with ⟨fault | c, mid⟩
  · rw [hPerform] at hOk
    cases hOk
  · rw [hPerform] at hOk
    cases hOk
    exact hGives b st st' hPerform

/- A property that every step of a fold passes on. -/
theorem foldlM
    {step : β → γ → Action α β}
    (hStep : ∀ b c, P b → (step b c).Gives P)
    {b : β}
    (hP : P b)
    (items : List γ) :
    (items.foldlM step b).Gives P := by
  induction items generalizing b with
  | nil => exact pure hP
  | cons item rest ih =>
      rw [List.foldlM_cons]
      exact bind (hStep b item hP) fun _ => ih

end Gives

end FixedPage.Action
