import FixedPage.Proofs.Render.Growth
import FixedPage.Proofs.Render.Scope
import FixedPage.Proofs.Surface.Brackets
import FixedPage.Proofs.Surface.Setting

/-
  This file says which clips are in effect while the content of a
  visual brush is drawn. The content goes to a group inside of a
  save, and neither of them takes back a clip. So the clips around
  the brush stay in effect and what they cut off is missing from
  the layer, wherever the brush is laid afterwards.

  Main declarations:
    * `VisualBrush.tileOperations`
    * `Active.tile_group`
    * `Active.tile_clips`
-/

namespace FixedPage

open Markup

variable {α : Type} [Scalar α]

------------------------------------------------------------
-- Tiles
------------------------------------------------------------

namespace VisualBrush

/- The place that the content of a visual brush is drawn at. -/
def tile
    (v : VisualBrush α) : Rectangle α :=
  ⟨0, 0, v.width, v.height⟩

/- What is written before the content of a visual brush. -/
def tileOperations
    (v : VisualBrush α) : List (Operation α) :=
  .save :: boxOperations v.tile ++ [.pushGroup]

/- A visual brush begins by opening its group. -/
theorem begin_written
    {env : Environment α}
    {e : Element}
    {v : VisualBrush α}
    {st st' : RenderState α}
    (hBegun : (VisualBrush.begin env e).perform st = (.ok v, st')) :
    st.surface.written ++ v.tileOperations <+: st'.surface.written := by
  rcases begin_ok env hBegun with ⟨-, rfl⟩
  rcases written_openGroup v st.surface with ⟨turns, -, hWritten⟩
  refine ⟨turns, ?_⟩
  change _ = (v.openGroup st.surface).written
  rw [hWritten, tileOperations, tile]
  simp

/- The clip of the tile comes on top of those around the brush. -/
theorem takeAll_tileOperations
    (v : VisualBrush α)
    (x : Setting (Clipping α)) :
    (x.takeAll changeClipping v.tileOperations).current =
      ⟨[], PathBuilder.rectangle v.tile :: x.current.clips⟩ := by
  rw [tileOperations, List.cons_append, Setting.takeAll_cons,
    Setting.takeAll_append, Setting.takeAll_boxOperations]
  rfl

end VisualBrush

------------------------------------------------------------
-- Visual brushes that begin
------------------------------------------------------------

section

variable {env : Environment α} {items : List Item}
variable {st₀ st st' : RenderState α} {outer : List (Run α)}
variable {v : VisualBrush α} {top : Entry α} {below : List (Entry α)}
variable {depth : Nat} {place : Location}
variable {attributes : List Attribute} {rest : List Item}

/-
  Whatever becomes of a page, it keeps the group of a visual brush
  that has begun: what is drawn between its opening and the pop
  with its number is properly nested.
-/
theorem Active.tile_group
    (hActive :
      Active env (.ofPage items) st₀
        (⟨.page, ⟨top :: below, depth⟩,
          some (.ok (place, .startTag "VisualBrush" attributes)
            :: rest)⟩ :: outer) st)
    (hFrame : top.frame.kind = .brush)
    (hBegun :
      (VisualBrush.begin env ⟨place, "VisualBrush", attributes⟩).perform
        st = (.ok v, st')) :
    ∃ (id next : Nat) (content after : List (Operation α)),
      Operation.Nested (id + 1) content next ∧
        (renderItems env items st₀).2.surface.written =
          st.surface.written ++ v.tileOperations
            ++ (content ++ .popGroup (.group id) :: after) := by
  have hStart :
      (startElement env (pageBrush env) top.frame
        ⟨place, "VisualBrush", attributes⟩).Passes st st' := by
    rcases Frame.eq_brush_of_kind hFrame with ⟨pattern?, hIs⟩
    rw [hIs]
    refine .bind (.bind ?_ fun _ => .pure _) fun _ => .pure _
    unfold Action.Passes
    rw [hBegun]
    exact .refl _
  have hDone :
      Grows true st' (renderItems env items st₀).2 := by
    refine .trans ?_ (hActive.renderItems_reaches _ _ _ rfl)
    refine .trans ?_ (Run.outcome_feed ..)
    rwa [Stack.state_feed_startTag]
  rcases hActive.grows with ⟨pre, hPre⟩
  rcases (VisualBrush.begin_written hBegun).trans hDone with
    ⟨left, hLeft⟩
  rcases (renderItems_properlyNested env items st₀).1 with
    ⟨word, hWord, hNested⟩
  have hSplit :
      word =
        (pre ++ .save :: boxOperations v.tile) ++ .pushGroup :: left := by
    refine List.append_cancel_left (hWord.symm.trans ?_)
    refine hLeft.symm.trans ?_
    change _ = st₀.surface.written ++ _
    rw [← hPre, VisualBrush.tileOperations]
    simp
  rcases hNested.of_push hSplit with
    ⟨content, after, next, hContent, rfl⟩
  exact ⟨_, next, content, after, hContent, hLeft.symm⟩

/-
  While the content of a visual brush is drawn, its tile and the
  clips that the content has made are in effect, and so are all
  that were in effect around the brush. So the first ones are in
  effect alone exactly if there were no others.
-/
theorem Active.tile_clips
    (hActive :
      Active env (.ofPage items) st₀
        (⟨.page, ⟨top :: below, depth⟩,
          some (.ok (place, .startTag "VisualBrush" attributes)
            :: rest)⟩ :: outer) st)
    (hFrame : top.frame.kind = .brush)
    (hBegun :
      (VisualBrush.begin env ⟨place, "VisualBrush", attributes⟩).perform
        st = (.ok v, st')) :
    ∃ (id next : Nat) (content after : List (Operation α)),
      Operation.Nested (id + 1) content next ∧
        (renderItems env items st₀).2.surface.written =
          st.surface.written ++ v.tileOperations
            ++ (content ++ .popGroup (.group id) :: after) ∧
        ∀ since later,
          content = since ++ later →
            clipsInEffect
                (st.surface.written ++ v.tileOperations ++ since) =
              clipsInEffect since ++ PathBuilder.rectangle v.tile
                :: clipsInEffect st.surface.written ∧
            (clipsInEffect
                  (st.surface.written ++ v.tileOperations ++ since) =
                clipsInEffect since ++ [PathBuilder.rectangle v.tile] ↔
              clipsInEffect st.surface.written = []) := by
  rcases hActive.tile_group hFrame hBegun with
    ⟨id, next, content, after, hNested, hWritten⟩
  refine ⟨id, next, content, after, hNested, hWritten, ?_⟩
  rintro since later rfl
  have hClips :
      clipsInEffect (st.surface.written ++ v.tileOperations ++ since) =
        clipsInEffect since ++ PathBuilder.rectangle v.tile
          :: clipsInEffect st.surface.written := by
    unfold clipsInEffect
    rw [Setting.takeAll_append, Setting.takeAll_append]
    generalize
      Setting.takeAll changeClipping ⟨⟨[], []⟩, []⟩ st.surface.written =
        x
    have hTile := v.takeAll_tileOperations x
    rw [Setting.clips_since hNested (by rw [hTile]), hTile]
    rfl
  refine ⟨hClips, ?_⟩
  rw [hClips, List.append_cancel_left_eq, List.cons.injEq]
  simp

end

------------------------------------------------------------
-- A brush inside of a canvas with a clip
------------------------------------------------------------

namespace ClippedBrush

/- The outline of the canvas and of the path in it. -/
def outline : String :=
  "M 20,20 L 21,20 21,21 20,21 Z"

/- The layout of the brush, which covers the path. -/
def layout : List Attribute :=
  [⟨"Viewbox", "0,0,1,1"⟩, ⟨"Viewport", "20,20,1,1"⟩]

/- A canvas with a clip and a path in it, up to its brush. -/
def head : List (Location × Event) :=
  [.startTag "FixedPage" [],
    .startTag "Canvas" [⟨"Clip", outline⟩],
    .startTag "Path" [⟨"Data", outline⟩],
    .startTag "Path.Fill" []].map (Prod.mk ⟨"page", 1, 1⟩)

/- The brush and what comes after it. -/
def tail : List Item :=
  [.startTag "Path" [⟨"Fill", "#FF0000"⟩, ⟨"Data", "M 0,0 L 1,0 1,1"⟩],
    .endTag "Path",
    .endTag "VisualBrush",
    .endTag "Path.Fill",
    .endTag "Path",
    .endTag "Canvas",
    .endTag "FixedPage"].map fun tag => .ok (⟨"page", 1, 1⟩, tag)

/- A page with the canvas. -/
def page : List Item :=
  head.map .ok
    ++ .ok (⟨"page", 1, 1⟩, .startTag "VisualBrush" layout) :: tail

/- The state before the page is drawn. -/
def start : RenderState ℚ :=
  .start .empty .empty .empty

/- The page before the brush begins. -/
def opened : Fed ℚ :=
  Stack.feedAll .empty (Script.page.handler .empty)
    (.ofPart (.content ⟨none, 0⟩)) start head

/- The brush as it is read. -/
def brush : VisualBrush ℚ :=
  ⟨⟨20, 20, 1, 1⟩, ⟨0, 0, 1, 1⟩, .identity, .none, 1, 1⟩

end ClippedBrush

/-
  The clip of the canvas is the place that the brush covers. It is
  in effect while the tile is drawn elsewhere, so nothing of the
  tile is left.
-/
theorem ClippedBrush.tile_cut_off :
    ∃ (id : Nat) (content after : List (Operation ℚ)),
      (renderItems .empty ClippedBrush.page
          ClippedBrush.start).2.surface.written =
        ClippedBrush.opened.state.surface.written
          ++ ClippedBrush.brush.tileOperations
          ++ (content ++ .popGroup (.group id) :: after) ∧
        ∀ since later,
          content = since ++ later →
            clipsInEffect
                (ClippedBrush.opened.state.surface.written
                  ++ ClippedBrush.brush.tileOperations ++ since) =
              clipsInEffect since
                ++ [PathBuilder.rectangle ⟨0, 0, 1, 1⟩,
                  PathBuilder.rectangle ⟨20, 20, 1, 1⟩] := by
  have hOpened : ClippedBrush.opened.result = .ok none := by
    decide +kernel
  have hStack :
      ClippedBrush.opened.stack =
        ⟨⟨.brush none, 4⟩ :: ClippedBrush.opened.stack.entries.tail,
          4⟩ := by
    decide +kernel
  have hBegun :
      ∀ outcome : Except Error (VisualBrush ℚ) × RenderState ℚ,
        outcome.1.toOption = some ClippedBrush.brush →
          outcome = (.ok ClippedBrush.brush, outcome.2) := by
    rintro ⟨fault | v, st⟩ hResult
    · cases hResult
    · cases hResult
      rfl
  have hAround :
      clipsInEffect ClippedBrush.opened.state.surface.written =
        [PathBuilder.rectangle ⟨20, 20, 1, 1⟩] := by
    decide +kernel
  have hActive :
      Active .empty (.ofPage ClippedBrush.page) ClippedBrush.start
        [⟨.page, ClippedBrush.opened.stack,
          some (.ok (⟨"page", 1, 1⟩,
            .startTag "VisualBrush" ClippedBrush.layout)
              :: ClippedBrush.tail)⟩]
        ClippedBrush.opened.state :=
    Active.feedAll .start (Fed.eq_of_result hOpened)
  rw [hStack] at hActive
  rcases
    Active.tile_clips hActive rfl (hBegun _ (by decide +kernel)) with
    ⟨id, -, content, after, -, hWritten, hClips⟩
  refine ⟨id, content, after, hWritten, fun since later hSplit => ?_⟩
  rw [(hClips since later hSplit).1, hAround]
  rfl

end FixedPage
