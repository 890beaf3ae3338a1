import FixedPage.Render.Page

/-
  This file renders several pages of one package. Fonts and color
  profiles stay in memory for the whole package, images for the
  renderings of one page.

  Main declarations:
    * `Session`
    * `Rendering`
    * `Session.renderPage`
-/

namespace FixedPage

variable {α : Type} [Scalar α]

/- What stays in memory while a package is open. -/
structure Session (α : Type) where
  fonts : Cache (Font α)
  profiles : ProfileCache α

/-
  How a rendering ended, the surface that it leaves, and which
  fonts and images it asked for, in order.
-/
structure Rendering (α : Type) where
  result : Except Error Unit
  surface : Surface α
  fontRequests : List String
  imageRequests : List String

namespace Session

omit [Scalar α] in
/- Nothing is in memory. -/
def empty : Session α :=
  ⟨.empty, .empty⟩

/- Renders a page once, given the images in memory. -/
def renderOnce
    (env : Environment α)
    (images : Cache (Image α))
    (s : Session α) :
    Rendering α × Cache (Image α) × Session α :=
  let start :=
    RenderState.start s.fonts.forgetRequests images.forgetRequests
      s.profiles
  let (result, st) := Page.render env start
  (⟨result, st.surface, st.fonts.requests.reverse,
      st.images.requests.reverse⟩,
    st.images, ⟨st.fonts, st.profiles⟩)

/- Renders a page several times, each on a surface of its own. -/
def renderTimes
    (env : Environment α) :
    Nat → Cache (Image α) → Session α →
      List (Rendering α) × Session α
| 0, _, s => ([], s)
| n + 1, images, s =>
    let (first, images, s) := s.renderOnce env images
    let (rest, s) := renderTimes env n images s
    (first :: rest, s)

/- Renders a page several times. -/
def renderPage
    (env : Environment α)
    (times : Nat)
    (s : Session α) : List (Rendering α) × Session α :=
  renderTimes env times .empty s

end Session

end FixedPage
