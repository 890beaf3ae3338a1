import FixedPage.Proofs.Parallel.Opening
import FixedPage.Proofs.Render.Balance
import FixedPage.Proofs.Surface.Brackets

/-
  This file says which layers a page paints with. The groups of a
  page are numbered in the order in which they are opened, each
  of them is closed once, and nothing is painted with the layer of
  a group that has not been closed before.

  Main declarations:
    * `Page.render_level`
    * `Page.render_settled`
    * `Page.render_layers`
-/

namespace FixedPage

open Operation

variable {α : Type} [Scalar α]
variable (env : Environment α)

/- A page is rendered on one level. -/
theorem Page.render_level
    (st : RenderState α) :
    Surface.Level false st.surface (Page.render env st).2.surface := by
  unfold Page.render
  cases Page.items env with
  | ok items => exact renderItems_level env items st
  | error fault => exact .refl false st.surface

/-
  Whatever a page paints with, it was there before: a page that is
  rendered beside itself says so of what it has written.
-/
theorem Page.render_settled
    {st : RenderState α}
    (hSettled : Settled st.surface.written) :
    Settled (Page.render env st).2.surface.written := by
  have hAdmits : Likeness.twin.Admits env env.options :=
    ⟨.same _, .same _, .same _, .inl rfl⟩
  have hStates : Likeness.twin.Relates st st :=
    ⟨rfl, rfl, rfl, rfl, rfl, rfl, hSettled⟩
  exact
    ((Page.render_agrees hAdmits hStates).of_strict rfl).2.settled

/-
  However the rendering of a page ends, the groups that it has
  opened are numbered from zero in their order, the end of each
  being behind a nested word; no group is closed twice or left
  open; and an operation that paints with a layer paints with that
  of a group whose end stands before it.
-/
theorem Page.render_layers
    (fonts : Cache (Font α))
    (images : Cache (Image α))
    (profiles : ProfileCache α) :
    let after := Page.render env (.start fonts images profiles)
    let ops := after.2.surface.written
    (∀ pre post,
      ops = pre ++ .pushGroup :: post →
        ∃ content rest next,
          Nested (pre.countP opensGroup + 1) content next ∧
            post =
              content ++ .popGroup (.group (pre.countP opensGroup))
                :: rest) ∧
      (ops.filterMap closed?).Perm
        ((List.range (ops.countP opensGroup)).map .group) ∧
      ∀ pre op post,
        ops = pre ++ op :: post →
          ∀ p ∈ op.patterns,
            ∀ layer,
              p.kind = .layer layer →
                .popGroup layer ∈ pre ∧
                  ∃ n < pre.countP opensGroup, layer = .group n := by
  intro after ops
  have hLevel :=
    Page.render_level env (.start fonts images profiles)
  have hNested : Nested 0 ops after.2.surface.nextGroup := by
    rcases hLevel.nested with ⟨w, hWritten, hNested⟩
    rw [show ops = w from hWritten.trans (List.nil_append w)]
    exact hNested
  have hSettled : Settled ops := Page.render_settled env .nil
  refine ⟨?_, ?_, ?_⟩
  · intro pre post hOps
    rcases hNested.of_push hOps with
      ⟨content, rest, next, hContent, hPost⟩
    rw [Nat.zero_add] at hContent hPost
    exact ⟨content, rest, next, hContent, hPost⟩
  · rw [List.range_eq_range']
    exact hNested.closed_perm
  · intro pre op post hOps p hMem layer hKind
    have hClosed : .popGroup layer ∈ pre := by
      have hShown := hSettled pre op post hOps p hMem
      rwa [hKind] at hShown
    refine ⟨hClosed, ?_⟩
    rcases List.append_of_mem hClosed with ⟨front, back, rfl⟩
    rw [List.append_assoc, List.cons_append] at hOps
    rcases hNested.of_pop hOps with
      ⟨before, content, _, rfl, _, hLayer⟩
    refine ⟨before.countP opensGroup, ?_, ?_⟩
    · rw [List.append_assoc, List.countP_append, List.cons_append,
        List.countP_cons_of_pos rfl]
      omega
    · rw [hLayer, Nat.zero_add]

end FixedPage
