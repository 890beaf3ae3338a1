import FixedPage.Proofs.Surface.Brackets
import FixedPage.Proofs.Surface.Operations

/-
  This file says what is in effect on a surface after some
  operations: whatever it is, a save and a group keep it, and
  closing them brings it back. So an enclosed word changes
  nothing, whatever is drawn inside of its brackets.

  The source that is painted with and the clips that what is
  painted is narrowed to are such settings.

  Main declarations:
    * `Setting`
    * `Setting.takeAll_enclosed`
    * `Setting.goesOver_of_nested`
    * `sourceInEffect?`
    * `clipsInEffect`
    * `clipPaths`
    * `Setting.clips_since`
-/

namespace FixedPage

variable {α β : Type}

------------------------------------------------------------
-- Settings
------------------------------------------------------------

/-
  What is in effect and what closing the open brackets brings
  back, the innermost first.
-/
structure Setting (β : Type) where
  current : β
  saved : List β
deriving DecidableEq, Repr

namespace Setting

variable (change : Operation α → β → β)

/- Opens a bracket. -/
def enter
    (x : Setting β) : Setting β :=
  ⟨x.current, x.current :: x.saved⟩

/- Closes the innermost bracket, if one is open. -/
def leave
    (x : Setting β) : Setting β :=
  match x.saved with
  | [] => x
  | b :: saved => ⟨b, saved⟩

/- Takes one operation; one that is no bracket makes a change. -/
def take
    (x : Setting β)
    (op : Operation α) : Setting β :=
  match op with
  | .save => x.enter
  | .pushGroup => x.enter
  | .restore => x.leave
  | .popGroup _ => x.leave
  | op => { x with current := change op x.current }

/- Takes some operations in order. -/
def takeAll
    (x : Setting β)
    (ops : List (Operation α)) : Setting β :=
  ops.foldl (take change) x

@[simp] theorem takeAll_nil
    (x : Setting β) :
    x.takeAll change [] = x :=
  rfl

@[simp] theorem takeAll_cons
    (x : Setting β)
    (op : Operation α)
    (ops : List (Operation α)) :
    x.takeAll change (op :: ops) =
      (x.take change op).takeAll change ops :=
  rfl

@[simp] theorem takeAll_append
    (x : Setting β)
    (ops ops' : List (Operation α)) :
    x.takeAll change (ops ++ ops') =
      (x.takeAll change ops).takeAll change ops' :=
  List.foldl_append

/- An operation that is no bracket leaves what is saved. -/
theorem saved_take
    (x : Setting β)
    {op : Operation α}
    (hPlain : op.isPlain = true) :
    (x.take change op).saved = x.saved := by
  cases op <;> first | rfl | cases hPlain

/- Entering and coming back to what is saved changes nothing. -/
theorem leave_of_saved
    {x y : Setting β}
    (hSaved : y.saved = x.enter.saved) :
    y.leave = x := by
  rw [leave, hSaved]
  rfl

/- A nested word closes all that it opens. -/
theorem saved_takeAll
    {n m : Nat}
    {w : List (Operation α)}
    (hNested : Operation.Nested n w m)
    (x : Setting β) :
    (x.takeAll change w).saved = x.saved := by
  induction hNested generalizing x with
  | nil n => rfl
  | plain hPlain hRest ih =>
      rw [takeAll_cons, ih, saved_take change x hPlain]
  | saved hInner hRest ihInner ih =>
      rw [takeAll_append, takeAll_cons, ih, takeAll_cons]
      exact congrArg saved (leave_of_saved (ihInner x.enter))
  | grouped hInner hRest ihInner ih =>
      rw [takeAll_append, takeAll_cons, ih, takeAll_cons]
      exact congrArg saved (leave_of_saved (ihInner x.enter))

/- A group of plain operations changes nothing. -/
theorem takeAll_group
    {inner : List (Operation α)}
    (hPlain : ∀ op ∈ inner, op.isPlain = true)
    (layer : Layer)
    (x : Setting β) :
    x.takeAll change (.pushGroup :: inner ++ [.popGroup layer]) =
      x := by
  have hNested : Operation.Nested 0 inner 0 := by
    induction inner with
    | nil => exact .nil 0
    | cons op rest ih =>
        exact
          .plain (hPlain op (by simp))
            (ih fun op hMem => hPlain op (by simp [hMem]))
  rw [takeAll_append]
  exact leave_of_saved (saved_takeAll change hNested x.enter)

/- Operations that make no change leave the setting. -/
theorem takeAll_unchanged
    {ops : List (Operation α)}
    (hSame :
      ∀ op ∈ ops, op.isPlain = true ∧ ∀ b, change op b = b)
    (x : Setting β) :
    x.takeAll change ops = x := by
  induction ops generalizing x with
  | nil => rfl
  | cons op rest ih =>
      rcases hSame op (by simp) with ⟨hPlain, hChange⟩
      have hTake : x.take change op = x := by
        rcases x with ⟨current, saved⟩
        cases op <;>
          first
          | exact congrArg (Setting.mk · saved) (hChange current)
          | cases hPlain
      rw [takeAll_cons, hTake]
      exact ih (fun op hMem => hSame op (by simp [hMem])) x

/- An enclosed word changes nothing. -/
theorem takeAll_enclosed
    {w : List (Operation α)}
    (hEnclosed : Operation.Enclosed w)
    (x : Setting β) :
    x.takeAll change w = x := by
  have hBracket :
      ∀ {n m : Nat} {inner : List (Operation α)},
        Operation.Nested n inner m →
          (x.enter.takeAll change inner).leave = x :=
    fun hInner => leave_of_saved (saved_takeAll change hInner x.enter)
  induction hEnclosed with
  | nil => rfl
  | saved hInner hRest ih =>
      rw [takeAll_append]
      change ((x.enter.takeAll change _).leave).takeAll change _ = x
      rw [hBracket hInner, ih]
  | grouped hInner hRest ih =>
      rw [takeAll_append]
      change ((x.enter.takeAll change _).leave).takeAll change _ = x
      rw [hBracket hInner, ih]

------------------------------------------------------------
-- Settings on top of others
------------------------------------------------------------

/- A setting that starts out otherwise, with more saved below. -/
def onTop
    (f : β → β)
    (below : List β)
    (x : Setting β) : Setting β :=
  ⟨f x.current, x.saved.map f ++ below⟩

section

variable {change}
variable {f : β → β} (below : List β)

/- Closing a bracket of its own leaves what is below. -/
theorem leave_over
    {x : Setting β}
    (hSaved : x.saved ≠ []) :
    (x.onTop f below).leave = x.leave.onTop f below := by
  rcases x with ⟨current, _ | ⟨b, saved⟩⟩
  · exact absurd rfl hSaved
  · rfl

/- A change goes on top of what was there before. -/
theorem take_over
    (hChange : ∀ op b, change op (f b) = f (change op b))
    {op : Operation α}
    (hPlain : op.isPlain = true)
    (x : Setting β) :
    (x.onTop f below).take change op =
      (x.take change op).onTop f below := by
  cases op <;>
    first
    | exact
        congrArg (Setting.mk · (x.saved.map f ++ below))
          (hChange _ x.current)
    | cases hPlain

variable (change f) in
/- Up to any point, a word goes on top of what was there before. -/
def GoesOver
    (below : List β)
    (w : List (Operation α)) : Prop :=
  ∀ (since after : List (Operation α)) (x : Setting β),
    w = since ++ after →
      (x.onTop f below).takeAll change since =
        (x.takeAll change since).onTop f below

/- After its opening, a bracket goes on top of what was there. -/
theorem GoesOver.bracket
    {n m : Nat}
    {inner rest since after : List (Operation α)}
    {close : Operation α}
    (hNested : Operation.Nested n inner m)
    (hClose : ∀ x : Setting β, x.take change close = x.leave)
    (hInner : GoesOver change f below inner)
    (hRest : GoesOver change f below rest)
    (hWord : inner ++ close :: rest = since ++ after)
    (x : Setting β) :
    (x.enter.onTop f below).takeAll change since =
      (x.enter.takeAll change since).onTop f below := by
  rcases List.append_eq_append_iff.mp hWord with
    ⟨_ | ⟨_, mid⟩, hSince, hEnd⟩ | ⟨mid, hInside, -⟩
  · rw [List.append_nil] at hSince
    exact hInner since [] x.enter (by rw [hSince, List.append_nil])
  · cases hEnd
    have hSaved := saved_takeAll change hNested x.enter
    have hWhole := hInner inner [] x.enter (List.append_nil _).symm
    rw [hSince, takeAll_append, takeAll_append, takeAll_cons,
      takeAll_cons, hClose, hClose, hWhole,
      leave_over below (by rw [hSaved]; exact List.cons_ne_nil _ _)]
    exact hRest mid after _ rfl
  · exact hInner since mid x.enter hInside

/-
  A nested word never closes a bracket that it has not opened, so
  it goes on top of what was there before.
-/
theorem goesOver_of_nested
    (hChange : ∀ op b, change op (f b) = f (change op b))
    {n m : Nat}
    {w : List (Operation α)}
    (hNested : Operation.Nested n w m) :
    GoesOver change f below w := by
  intro since after x hWord
  induction hNested generalizing since after x with
  | nil n =>
      cases since with
      | nil => rfl
      | cons _ _ => cases hWord
  | plain hPlain _ ih =>
      cases since with
      | nil => rfl
      | cons op since =>
          cases hWord
          rw [takeAll_cons, takeAll_cons,
            take_over below hChange hPlain]
          exact ih since after _ rfl
  | saved hInner _ ihInner ih =>
      cases since with
      | nil => rfl
      | cons op since =>
          simp only [List.cons_append, List.cons.injEq] at hWord
          rcases hWord with ⟨rfl, hWord⟩
          exact
            GoesOver.bracket below hInner (fun _ => rfl) ihInner ih
              hWord x
  | grouped hInner _ ihInner ih =>
      cases since with
      | nil => rfl
      | cons op since =>
          simp only [List.cons_append, List.cons.injEq] at hWord
          rcases hWord with ⟨rfl, hWord⟩
          exact
            GoesOver.bracket below hInner (fun _ => rfl) ihInner ih
              hWord x

end

end Setting

------------------------------------------------------------
-- Sources
------------------------------------------------------------

/- What an operation makes of the source that is painted with. -/
def changeSource
    (op : Operation α)
    (source? : Option (Pattern α)) : Option (Pattern α) :=
  match op with
  | .setSource pattern => some pattern
  | _ => source?

/- The source in effect after some operations, if one was set. -/
def sourceInEffect?
    (ops : List (Operation α)) : Option (Pattern α) :=
  (Setting.takeAll changeSource ⟨none, []⟩ ops).current

/- An outline leaves the source. -/
theorem Setting.takeAll_outline
    {ops : List (Operation α)}
    (hOutline : ∀ op ∈ ops, op.isOutline = true)
    (x : Setting (Option (Pattern α))) :
    x.takeAll changeSource ops = x := by
  apply x.takeAll_unchanged
  intro op hMem
  have hOp := hOutline op hMem
  cases op <;>
    first
    | exact ⟨rfl, fun _ => rfl⟩
    | cases hOp

/- Narrowing the clip leaves the source. -/
theorem Setting.takeAll_anyClip
    [Scalar α]
    (data? : Option String)
    (x : Setting (Option (Pattern α))) :
    x.takeAll changeSource (data?.elim [] clipOperations) = x := by
  cases data? with
  | none => rfl
  | some data => exact x.takeAll_outline (isOutline_clipOperations data)

------------------------------------------------------------
-- Clips
------------------------------------------------------------

/-
  The path that is being drawn, and the paths that what is
  painted is narrowed to, the latest first. Every clip begins
  with a new path, so it does not matter that closing a bracket
  brings back the path as well.
-/
structure Clipping (α : Type) where
  path : List (Segment α)
  clips : List (List (Segment α))
deriving DecidableEq, Repr

/- What an operation makes of the path and of the clips. -/
def changeClipping
    (op : Operation α)
    (c : Clipping α) : Clipping α :=
  match op with
  | .newPath => { c with path := [] }
  | .segment s => { c with path := c.path ++ [s] }
  | .clip => ⟨[], c.path :: c.clips⟩
  | .fill false => { c with path := [] }
  | .stroke _ => { c with path := [] }
  | _ => c

/- The clips in effect after some operations, the latest first. -/
def clipsInEffect
    (ops : List (Operation α)) : List (List (Segment α)) :=
  (Setting.takeAll changeClipping ⟨⟨[], []⟩, []⟩ ops).current.clips

/- The segment that a step of a path draws, if it draws one. -/
def PathStep.segment? : PathStep α → Option (Segment α)
| .draw s => some s
| .rule _ => none

/- Steps that draw segments draw these segments. -/
theorem PathStep.filterMap_draw
    (segments : List (Segment α)) :
    (segments.map PathStep.draw).filterMap PathStep.segment? =
      segments := by
  rw [List.filterMap_map]
  exact List.filterMap_some

/-
  The path that path data narrows the clip to, unless the data is
  at fault.
-/
def clipPaths
    [Scalar α]
    (data : String) : List (List (Segment α)) :=
  let trace : PathData.Trace α := PathData.trace data
  if trace.fault?.isSome then []
  else [trace.steps.filterMap PathStep.segment?]

namespace Setting

/- The steps of a path add its segments. -/
theorem takeAll_steps
    (steps : List (PathStep α))
    (x : Setting (Clipping α)) :
    x.takeAll changeClipping (steps.map PathStep.operation) =
      ⟨⟨x.current.path ++ steps.filterMap PathStep.segment?,
        x.current.clips⟩, x.saved⟩ := by
  induction steps generalizing x with
  | nil => simp
  | cons step rest ih =>
      rw [List.map_cons, takeAll_cons, ih]
      cases step with
      | draw segment =>
          simp [take, changeClipping, PathStep.operation,
            PathStep.segment?]
      | rule r => rfl

/- Narrowing the clip to a box adds the box. -/
theorem takeAll_boxOperations
    [Scalar α]
    (box : Rectangle α)
    (x : Setting (Clipping α)) :
    x.takeAll changeClipping (boxOperations box) =
      ⟨⟨[], PathBuilder.rectangle box :: x.current.clips⟩,
        x.saved⟩ := by
  have hDrawn :=
    takeAll_steps ((PathBuilder.rectangle box).map .draw)
      (x.take changeClipping .newPath)
  rw [PathStep.filterMap_draw, List.map_map] at hDrawn
  rw [boxOperations, List.cons_append, takeAll_cons, takeAll_append]
  exact congrArg (takeAll changeClipping · [.clip]) hDrawn

/- Narrowing the clip to path data adds its path. -/
theorem clips_clipOperations
    [Scalar α]
    (data : String)
    (x : Setting (Clipping α)) :
    (x.takeAll changeClipping (clipOperations data)).current.clips =
      clipPaths data ++ x.current.clips := by
  unfold clipOperations clipPaths
  dsimp only
  rw [List.cons_append, takeAll_cons, takeAll_append, takeAll_steps]
  split <;> rfl

/- Without brackets, the clips change only where one is made. -/
theorem clips_takeAll
    {ops : List (Operation α)}
    (hOps : ∀ op ∈ ops, op.isPlain = true ∧ op ≠ .clip)
    (x : Setting (Clipping α)) :
    (x.takeAll changeClipping ops).current.clips = x.current.clips := by
  induction ops generalizing x with
  | nil => rfl
  | cons op rest ih =>
      rcases hOps op (by simp) with ⟨hPlain, hClip⟩
      have hTake :
          (x.take changeClipping op).current.clips =
            x.current.clips := by
        cases op with
        | clip => exact absurd rfl hClip
        | fill kept => cases kept <;> rfl
        | _ => first | rfl | cases hPlain
      rw [takeAll_cons, ih fun op hMem => hOps op (by simp [hMem])]
      exact hTake

/-
  Inside of a nested word, the clips that it has made so far are
  in effect on top of those from before.
-/
theorem clips_since
    {n m : Nat}
    {since after : List (Operation α)}
    (hNested : Operation.Nested n (since ++ after) m)
    {x : Setting (Clipping α)}
    (hPath : x.current.path = []) :
    (x.takeAll changeClipping since).current.clips =
      clipsInEffect since ++ x.current.clips := by
  let f (c : Clipping α) : Clipping α :=
    { c with clips := c.clips ++ x.current.clips }
  have hChange :
      ∀ op c, changeClipping op (f c) = f (changeClipping op c) := by
    intro op c
    cases op with
    | fill kept => cases kept <;> rfl
    | _ => rfl
  have hOver : (onTop f x.saved ⟨⟨[], []⟩, []⟩) = x := by
    rcases x with ⟨⟨path, clips⟩, saved⟩
    cases hPath
    rfl
  have hTaken :=
    goesOver_of_nested x.saved hChange hNested since after
      ⟨⟨[], []⟩, []⟩ rfl
  rw [hOver] at hTaken
  rw [hTaken]
  rfl

end Setting

end FixedPage
