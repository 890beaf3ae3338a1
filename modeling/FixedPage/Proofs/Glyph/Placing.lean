import FixedPage.Proofs.Glyph.Reading

/-
  This file says where the entries of the grammar place their
  glyphs. A glyph depends on the fields of its own entry, on the
  character in front of it and on the pen position, and a
  cluster that gets all of its entries takes its characters off
  the text; nothing else is left of an entry for the next one.

  Main declarations:
    * `Entry.glyph`
    * `Entry.signedAdvance`
    * `Cluster`
    * `Cluster.layout`
    * `Machine.placeAll_clusters`
    * `Machine.takeAll?_entries_semicolon`
-/

namespace FixedPage

namespace Indices

variable {α : Type} [Scalar α]

------------------------------------------------------------
-- Glyphs of entries
------------------------------------------------------------

omit [Scalar α] in
/- The advance that metrics give. -/
def Metrics.advance? : Metrics α → Option α
| .advance advance? => advance?
| .along advance? _ => advance?
| .across advance? _ _ => advance?

/- The offset that metrics give, in the em. -/
def Metrics.offset : Metrics α → Point α
| .advance _ => .origin
| .along _ u? => ⟨(u?.map Machine.hundredths).getD 0, 0⟩
| .across _ u? v =>
    ⟨(u?.map Machine.hundredths).getD 0, Machine.hundredths v⟩

namespace Entry

/- The advance that an entry gives, in the em. -/
def advance?
    (e : Entry α) : Option α :=
  (e.metrics?.bind Metrics.advance?).map Machine.hundredths

/- The offset that an entry gives, in the em. -/
def offset
    (e : Entry α) : Point α :=
  (e.metrics?.map Metrics.offset).getD .origin

/- The glyph index of an entry in front of a character, if any. -/
def glyphIndex
    (f : ScaledFont α)
    (next? : Option Char)
    (e : Entry α) : Nat :=
  match e.index?, next? with
  | some x, _ => Scalar.truncate x
  | none, some c => f.glyph c
  | none, none => 0

/- The glyph of an entry at a pen position. -/
def glyph
    (f : ScaledFont α)
    (q : Placement α)
    (pen : Point α)
    (next? : Option Char)
    (e : Entry α) : PositionedGlyph α :=
  let index := e.glyphIndex f next?
  let u := q.direct e.offset.x
  let v := e.offset.y
  let offset := f.distance (if q.sideways then ⟨-v, u⟩ else ⟨u, v⟩)
  ⟨index,
    q.shift (f.extents index) ⟨pen.x + offset.x, pen.y - offset.y⟩⟩

/- How far the glyph of an entry moves the pen. -/
def signedAdvance
    (f : ScaledFont α)
    (q : Placement α)
    (e : Entry α)
    (index : Nat) : Point α :=
  let advance : Point α :=
    match e.advance? with
    | none => ⟨q.naturalAdvance f (f.extents index), 0⟩
    | some a => f.distance (if q.sideways then ⟨0, a⟩ else ⟨a, 0⟩)
  ⟨q.direct advance.x, advance.y⟩

/- The glyphs of entries one after the other. -/
def glyphs
    (f : ScaledFont α)
    (q : Placement α)
    (next? : Option Char) :
    Point α → List (Entry α) → List (PositionedGlyph α)
| _, [] => []
| pen, e :: es =>
    let glyph := e.glyph f q pen next?
    glyph ::
      glyphs f q next? (pen.add (e.signedAdvance f q glyph.index)) es

theorem glyphs_cons
    (e : Entry α)
    (f : ScaledFont α)
    (q : Placement α)
    (next? : Option Char)
    (pen : Point α)
    (es : List (Entry α)) :
    glyphs f q next? pen (e :: es) =
      e.glyph f q pen next? ::
        glyphs f q next?
          (pen.add (e.signedAdvance f q (e.glyph f q pen next?).index))
          es := rfl

/- Each entry gets a glyph. -/
theorem length_glyphs
    (f : ScaledFont α)
    (q : Placement α)
    (next? : Option Char)
    (pen : Point α)
    (es : List (Entry α)) :
    (glyphs f q next? pen es).length = es.length := by
  induction es generalizing pen with
  | nil => rfl
  | cons e es ih => rw [glyphs_cons, List.length_cons, ih, List.length_cons]

end Entry

/- The pen after the glyphs of some entries. -/
def penAfter
    (f : ScaledFont α)
    (q : Placement α)
    (pen : Point α)
    (es : List (Entry α))
    (glyphs : List (PositionedGlyph α)) : Point α :=
  (es.zip glyphs).foldl
    (fun pen placed =>
      pen.add (placed.1.signedAdvance f q placed.2.index))
    pen

/- The pen after some entries and some more. -/
theorem penAfter_append
    (f : ScaledFont α)
    (q : Placement α)
    (pen : Point α)
    {es : List (Entry α)}
    {glyphs : List (PositionedGlyph α)}
    (hLength : es.length = glyphs.length)
    (more : List (Entry α))
    (rest : List (PositionedGlyph α)) :
    penAfter f q pen (es ++ more) (glyphs ++ rest) =
      penAfter f q (penAfter f q pen es glyphs) more rest := by
  rw [penAfter, List.zip_append hLength, List.foldl_append]
  rfl

------------------------------------------------------------
-- Clusters
------------------------------------------------------------

/- The glyphs that an entry asks for, one if it gives no count. -/
def Entry.spread
    (e : Entry α) : Nat :=
  match e.cluster? with
  | some (_, some glyphs) => countOf glyphs
  | _ => 1

/- The characters that the cluster of an entry takes of a text. -/
def Entry.chars
    (e : Entry α)
    (text : List Char) : Nat :=
  match e.cluster? with
  | some (units, _) =>
      let chars := charsOfUnits (countOf units) text
      if chars = 0 then min 1 text.length else chars
  | none => min 1 text.length

/-
  A complete cluster: an entry and as many more as it asks for,
  none of which starts a cluster of its own.
-/
structure Cluster (α : Type) [Scalar α] where
  first : Entry α
  more : List (Entry α)
  complete : first.spread = more.length + 1
  plain : ∀ e ∈ more, e.cluster? = none

namespace Cluster

/- All entries of a cluster. -/
def entries
    (c : Cluster α) : List (Entry α) :=
  c.first :: c.more

theorem entries_ne_nil
    (c : Cluster α) : c.entries ≠ [] :=
  List.cons_ne_nil _ _

/- The entry that ends a cluster. -/
def last
    (c : Cluster α) : Entry α :=
  c.entries.getLast c.entries_ne_nil

/- The entries before it. -/
def begun
    (c : Cluster α) : List (Entry α) :=
  c.entries.dropLast

theorem begun_append_last
    (c : Cluster α) : c.begun ++ [c.last] = c.entries :=
  List.dropLast_append_getLast c.entries_ne_nil

/- The last entry of some clusters. -/
theorem flatMap_entries_concat
    (cs : List (Cluster α))
    (c : Cluster α) :
    (cs ++ [c]).flatMap entries =
      cs.flatMap entries ++ c.begun ++ [c.last] := by
  rw [List.flatMap_append, List.flatMap_singleton, List.append_assoc,
    begun_append_last]

/- The characters that a cluster takes of a text. -/
def chars
    (c : Cluster α)
    (text : List Char) : Nat :=
  c.first.chars text

/- The text that clusters leave. -/
def left :
    List (Cluster α) → List Char → List Char
| [], text => text
| c :: cs, text => left cs (text.drop (c.chars text))

/- The text that clusters take. -/
def taken :
    List (Cluster α) → List Char → List Char
| [], _ => []
| c :: cs, text =>
    text.take (c.chars text) ++ taken cs (text.drop (c.chars text))

/- The layout of clusters, each in front of the text that it takes. -/
def layout
    (f : ScaledFont α)
    (q : Placement α) :
    Point α → List (Cluster α) → List Char → GlyphLayout α
| _, [], _ => .empty
| pen, c :: cs, text =>
    let glyphs := Entry.glyphs f q text.head? pen c.entries
    let piece : TextCluster :=
      ⟨utf8Length (text.take (c.chars text)), c.entries.length⟩
    let rest :=
      layout f q (penAfter f q pen c.entries glyphs) cs
        (text.drop (c.chars text))
    ⟨glyphs ++ rest.glyphs, piece :: rest.clusters⟩

end Cluster

------------------------------------------------------------
-- Machines between entries
------------------------------------------------------------

namespace Machine

/- A machine at the start of a cluster. -/
def fresh
    (pen : Point α)
    (text : List Char)
    (glyphs : List (PositionedGlyph α))
    (clusters : List TextCluster) : Machine α where
  mode := .entry
  text := text
  pen := pen
  chars := 0
  spread := 1
  remaining := 1
  index? := none
  advance? := none
  offset := .origin
  pending := false
  glyphs := glyphs
  clusters := clusters

/- Nothing is left of the entries before. -/
structure Idle
    (m : Machine α) : Prop where
  mode : m.mode = .entry
  index? : m.index? = none
  advance? : m.advance? = none
  offset : m.offset = .origin
  pending : m.pending = false

/- Placing a glyph resets every field of its entry. -/
theorem emit_idle
    (f : ScaledFont α)
    (q : Placement α)
    (m : Machine α) : (m.emit f q).Idle := by
  unfold emit
  dsimp only
  split <;> exact ⟨rfl, rfl, rfl, rfl, rfl⟩

theorem fresh_idle
    (pen : Point α)
    (text : List Char)
    (glyphs : List (PositionedGlyph α))
    (clusters : List TextCluster) :
    (fresh pen text glyphs clusters).Idle :=
  ⟨rfl, rfl, rfl, rfl, rfl⟩

/- A machine between entries with no cluster under way is fresh. -/
theorem Idle.eq_fresh
    {m : Machine α}
    (h : m.Idle)
    (hChars : m.chars = 0)
    (hSpread : m.spread = 1)
    (hRemaining : m.remaining = 1) :
    m = fresh m.pen m.text m.glyphs m.clusters := by
  obtain ⟨hMode, hIndex, hAdvance, hOffset, hPending⟩ := h
  cases m
  simp_all [fresh]

/- What an entry of the grammar fills in. -/
def filled
    (m : Machine α)
    (e : Entry α) : Machine α :=
  e.fields.foldl Field.fill m

@[simp] theorem filled_text
    (m : Machine α)
    (e : Entry α) : (m.filled e).text = m.text := by
  obtain ⟨_ | ⟨units, _ | glyphs⟩, _ | x, _ | (_ | _ | _)⟩ := e <;> rfl

@[simp] theorem filled_pen
    (m : Machine α)
    (e : Entry α) : (m.filled e).pen = m.pen := by
  obtain ⟨_ | ⟨units, _ | glyphs⟩, _ | x, _ | (_ | _ | _)⟩ := e <;> rfl

@[simp] theorem filled_glyphs
    (m : Machine α)
    (e : Entry α) : (m.filled e).glyphs = m.glyphs := by
  obtain ⟨_ | ⟨units, _ | glyphs⟩, _ | x, _ | (_ | _ | _)⟩ := e <;> rfl

@[simp] theorem filled_clusters
    (m : Machine α)
    (e : Entry α) : (m.filled e).clusters = m.clusters := by
  obtain ⟨_ | ⟨units, _ | glyphs⟩, _ | x, _ | (_ | _ | _)⟩ := e <;> rfl

/- Any field makes the entry get a glyph. -/
theorem filled_pending
    (m : Machine α)
    {e : Entry α}
    (h : e.fields ≠ []) : (m.filled e).pending = true := by
  obtain ⟨_ | ⟨units, _ | glyphs⟩, _ | x, _ | (_ | _ | _)⟩ := e <;>
    first
    | rfl
    | exact absurd rfl h

/- An entry without a cluster leaves the cluster as it is. -/
theorem filled_plain
    (m : Machine α)
    {e : Entry α}
    (h : e.cluster? = none) :
    (m.filled e).chars = m.chars ∧
      (m.filled e).spread = m.spread ∧
        (m.filled e).remaining = m.remaining := by
  obtain ⟨_ | _, _ | x, _ | (_ | _ | _)⟩ := e <;>
    first
    | exact ⟨rfl, rfl, rfl⟩
    | cases h

/- The cluster that an entry starts on a fresh machine. -/
theorem filled_fresh
    (pen : Point α)
    (text : List Char)
    (glyphs : List (PositionedGlyph α))
    (clusters : List TextCluster)
    (e : Entry α) :
    ((fresh pen text glyphs clusters).filled e).clusterChars =
        e.chars text ∧
      ((fresh pen text glyphs clusters).filled e).spread = e.spread ∧
        ((fresh pen text glyphs clusters).filled e).remaining =
          e.spread := by
  obtain ⟨_ | ⟨units, _ | count⟩, _ | x, _ | (_ | _ | _)⟩ := e <;>
    refine ⟨?_, rfl, rfl⟩ <;>
    simp [filled, Entry.fields, Field.fill, fresh, clusterChars, Entry.chars]

/- Places the glyph of an entry of the grammar. -/
def place
    (f : ScaledFont α)
    (q : Placement α)
    (m : Machine α)
    (e : Entry α) : Machine α :=
  (m.filled e).emit f q

/- The fields that an entry fills in on a machine between entries. -/
theorem Idle.filled
    {m : Machine α}
    (h : m.Idle)
    (e : Entry α) :
    (m.filled e).index? = e.index?.map Scalar.truncate ∧
      (m.filled e).advance? = e.advance? ∧
        (m.filled e).offset = e.offset := by
  obtain ⟨-, hIndex, hAdvance, hOffset, -⟩ := h
  obtain ⟨_ | ⟨units, _ | count⟩, _ | x, _ | (_ | _ | _)⟩ := e <;>
    simp [Machine.filled, Entry.fields, Field.fill, Entry.advance?,
      Entry.offset, Metrics.advance?, Metrics.offset, Point.origin,
      hIndex, hAdvance, hOffset]

/- The glyph index of an entry does not depend on those before. -/
theorem Idle.glyphIndex
    {f : ScaledFont α}
    {m : Machine α}
    (h : m.Idle)
    (e : Entry α) :
    (m.filled e).glyphIndex f = e.glyphIndex f m.text.head? := by
  unfold Machine.glyphIndex Entry.glyphIndex
  rw [(h.filled e).1, filled_text]
  cases e.index? <;> cases m.text <;> rfl

/- The glyph that is placed for an entry. -/
theorem Idle.place_glyphs
    {f : ScaledFont α}
    {q : Placement α}
    {m : Machine α}
    (h : m.Idle)
    (e : Entry α) :
    (m.place f q e).glyphs =
      e.glyph f q m.pen m.text.head? :: m.glyphs := by
  have hEmit (n : Machine α) :
      (n.emit f q).glyphs =
        ⟨n.glyphIndex f, q.shift (f.extents (n.glyphIndex f))
          ⟨n.pen.x + (n.pageOffset f q).x,
            n.pen.y - (n.pageOffset f q).y⟩⟩ :: n.glyphs := by
    unfold emit
    dsimp only
    split <;> rfl
  rw [place, hEmit, h.glyphIndex, pageOffset, (h.filled e).2.2, filled_pen,
    filled_glyphs]
  rfl

/- Where the pen is after an entry. -/
theorem Idle.place_pen
    {f : ScaledFont α}
    {q : Placement α}
    {m : Machine α}
    (h : m.Idle)
    (e : Entry α) :
    (m.place f q e).pen =
      m.pen.add
        (e.signedAdvance f q (e.glyph f q m.pen m.text.head?).index) := by
  have hEmit (n : Machine α) :
      (n.emit f q).pen =
        n.pen.add
          (let advance := n.pageAdvance f q (f.extents (n.glyphIndex f))
          ⟨q.direct advance.x, advance.y⟩) := by
    unfold emit
    dsimp only
    split <;> rfl
  rw [place, hEmit, h.glyphIndex, pageAdvance, (h.filled e).2.1, filled_pen]
  rfl

------------------------------------------------------------
-- Clusters of entries
------------------------------------------------------------

/- Places the glyphs of entries one after the other. -/
def placeAll
    (f : ScaledFont α)
    (q : Placement α)
    (m : Machine α)
    (es : List (Entry α)) : Machine α :=
  es.foldl (place f q) m

theorem placeAll_cons
    (f : ScaledFont α)
    (q : Placement α)
    (m : Machine α)
    (e : Entry α)
    (es : List (Entry α)) :
    m.placeAll f q (e :: es) = (m.place f q e).placeAll f q es := rfl

theorem placeAll_append
    (f : ScaledFont α)
    (q : Placement α)
    (m : Machine α)
    (es more : List (Entry α)) :
    m.placeAll f q (es ++ more) =
      (m.placeAll f q es).placeAll f q more :=
  List.foldl_append

/- The cluster goes on with an entry that starts none. -/
theorem filled_next
    {m n : Machine α}
    {e : Entry α}
    (h : n.KeepsCluster m)
    (hPlain : e.cluster? = none) :
    (m.filled e).clusterChars = n.clusterChars ∧
      (m.filled e).spread = n.spread ∧
        (m.filled e).remaining = n.remaining - 1 := by
  obtain ⟨hChars, hSpread, hRemaining⟩ := m.filled_plain hPlain
  refine ⟨?_, by rw [hSpread, h.spread], by rw [hRemaining, h.remaining]⟩
  rw [← h.clusterChars, clusterChars, clusterChars, hChars, filled_text]

/- The last entry of a cluster makes the machine fresh. -/
theorem Idle.place_last
    {f : ScaledFont α}
    {q : Placement α}
    {m : Machine α}
    {e : Entry α}
    (h : m.Idle)
    (hLast : (m.filled e).remaining ≤ 1) :
    m.place f q e =
      fresh
        (m.pen.add
          (e.signedAdvance f q (e.glyph f q m.pen m.text.head?).index))
        (m.text.drop (m.filled e).clusterChars)
        (e.glyph f q m.pen m.text.head? :: m.glyphs)
        (⟨utf8Length (m.text.take (m.filled e).clusterChars),
          (m.filled e).spread⟩ :: m.clusters) := by
  have hEnds : (m.filled e).EndsCluster (m.place f q e) :=
    emit_last f q hLast
  have hFresh : (m.place f q e).Idle := emit_idle f q _
  rw [hFresh.eq_fresh hEnds.chars hEnds.spread hEnds.remaining,
    h.place_pen, hEnds.text, h.place_glyphs, hEnds.clusters, filled_text,
    filled_clusters]

/-
  Entries that complete a cluster place their glyphs, take its
  characters off the text and leave the machine fresh.
-/
theorem Idle.placeAll_cluster
    {f : ScaledFont α}
    {q : Placement α}
    {m : Machine α}
    {e : Entry α}
    {es : List (Entry α)}
    (h : m.Idle)
    (hCount : (m.filled e).remaining = es.length + 1)
    (hPlain : ∀ next ∈ es, next.cluster? = none) :
    let glyphs := Entry.glyphs f q m.text.head? m.pen (e :: es)
    m.placeAll f q (e :: es) =
      fresh (penAfter f q m.pen (e :: es) glyphs)
        (m.text.drop (m.filled e).clusterChars)
        (glyphs.reverse ++ m.glyphs)
        (⟨utf8Length (m.text.take (m.filled e).clusterChars),
          (m.filled e).spread⟩ :: m.clusters) := by
  induction es generalizing m e with
  | nil => exact h.place_last (by rw [hCount]; exact Nat.le_refl 1)
  | cons next es ih =>
      have hKeeps : (m.filled e).KeepsCluster (m.place f q e) :=
        emit_inner f q (by rw [hCount, List.length_cons]; omega)
      have hText : (m.place f q e).text = m.text :=
        hKeeps.text.trans (filled_text m e)
      have hClusters : (m.place f q e).clusters = m.clusters :=
        hKeeps.clusters.trans (filled_clusters m e)
      obtain ⟨hNext, hMore⟩ := List.forall_mem_cons.1 hPlain
      obtain ⟨hChars, hSpread, hRemaining⟩ := filled_next hKeeps hNext
      have hRest := ih (m := m.place f q e) (e := next) (emit_idle f q _)
        (by rw [hRemaining, hCount]; rfl) hMore
      dsimp only
      rw [placeAll_cons, hRest, hText, hChars, hSpread, hClusters,
        h.place_pen, h.place_glyphs, Entry.glyphs_cons e, List.reverse_cons,
        List.append_assoc]
      rfl

/- The text stays until the last entry of a cluster. -/
theorem placeAll_underway
    {f : ScaledFont α}
    {q : Placement α}
    {m : Machine α}
    {e last : Entry α}
    {es init : List (Entry α)}
    (hCount : (m.filled e).remaining = es.length + 1)
    (hPlain : ∀ next ∈ es, next.cluster? = none)
    (hLast : e :: es = init ++ [last]) :
    (m.placeAll f q init).text = m.text := by
  induction es generalizing m e init with
  | nil =>
      cases init with
      | nil => rfl
      | cons first init => simp at hLast
  | cons next es ih =>
      cases init with
      | nil => simp at hLast
      | cons first init =>
          rw [List.cons_append, List.cons.injEq] at hLast
          obtain ⟨rfl, hMore⟩ := hLast
          have hKeeps : (m.filled e).KeepsCluster (m.place f q e) :=
            emit_inner f q (by rw [hCount, List.length_cons]; omega)
          obtain ⟨hNext, hPlainMore⟩ := List.forall_mem_cons.1 hPlain
          obtain ⟨-, -, hRemaining⟩ := filled_next hKeeps hNext
          rw [placeAll_cons,
            ih (by rw [hRemaining, hCount]; rfl) hPlainMore hMore]
          exact hKeeps.text.trans (filled_text m e)

/- The glyphs of a complete cluster on a fresh machine. -/
theorem placeAll_fresh
    (f : ScaledFont α)
    (q : Placement α)
    (pen : Point α)
    (text : List Char)
    (glyphs : List (PositionedGlyph α))
    (clusters : List TextCluster)
    (c : Cluster α) :
    let own := Entry.glyphs f q text.head? pen c.entries
    (fresh pen text glyphs clusters).placeAll f q c.entries =
      fresh (penAfter f q pen c.entries own) (text.drop (c.chars text))
        (own.reverse ++ glyphs)
        (⟨utf8Length (text.take (c.chars text)), c.entries.length⟩ ::
          clusters) := by
  obtain ⟨hChars, hSpread, hRemaining⟩ :=
    filled_fresh pen text glyphs clusters c.first
  have hCluster := (fresh_idle pen text glyphs clusters).placeAll_cluster
    (f := f) (q := q) (hRemaining.trans c.complete) c.plain
  rw [hChars, hSpread, c.complete] at hCluster
  exact hCluster

/- Clusters one after the other on a fresh machine. -/
theorem placeAll_clusters
    (f : ScaledFont α)
    (q : Placement α)
    (pen : Point α)
    (text : List Char)
    (glyphs : List (PositionedGlyph α))
    (clusters : List TextCluster)
    (cs : List (Cluster α)) :
    let es := cs.flatMap Cluster.entries
    let own := Cluster.layout f q pen cs text
    own.glyphs.length = es.length ∧
      (fresh pen text glyphs clusters).placeAll f q es =
        fresh (penAfter f q pen es own.glyphs) (Cluster.left cs text)
          (own.glyphs.reverse ++ glyphs)
          (own.clusters.reverse ++ clusters) := by
  induction cs generalizing pen text glyphs clusters with
  | nil => exact ⟨rfl, rfl⟩
  | cons c cs ih =>
      have hOwn := Entry.length_glyphs f q text.head? pen c.entries
      obtain ⟨hLength, hRest⟩ := ih
        (penAfter f q pen c.entries
          (Entry.glyphs f q text.head? pen c.entries))
        (text.drop (c.chars text))
        ((Entry.glyphs f q text.head? pen c.entries).reverse ++ glyphs)
        (⟨utf8Length (text.take (c.chars text)), c.entries.length⟩ ::
          clusters)
      constructor
      · simp only [Cluster.layout, List.flatMap_cons, List.length_append,
          hOwn, hLength]
      · rw [List.flatMap_cons, placeAll_append, placeAll_fresh, hRest]
        simp only [Cluster.layout, Cluster.left, penAfter_append _ _ _ hOwn.symm,
          List.reverse_append, List.reverse_cons, List.append_assoc,
          List.singleton_append]

/- Placing entries leaves a machine between entries. -/
theorem placeAll_mode
    {f : ScaledFont α}
    {q : Placement α}
    {m : Machine α}
    (hMode : m.mode = .entry)
    (es : List (Entry α)) : (m.placeAll f q es).mode = .entry := by
  induction es generalizing m with
  | nil => exact hMode
  | cons e es ih => exact ih (emit_mode f q _)

end Machine

------------------------------------------------------------
-- Entries of a text
------------------------------------------------------------

/- A glyph index that an entry gives exists. -/
def Entry.InRange
    (e : Entry α) : Prop :=
  ∀ a ∈ e.fields, a.InRange

instance
    (e : Entry α) : Decidable e.InRange :=
  inferInstanceAs (Decidable (∀ a ∈ e.fields, a.InRange))

/- A text is made of entries of the grammar. -/
def Spells
    (indices : List Char)
    (es : List (Entry α)) : Prop :=
  ∃ ts, Cuts indices ts ∧
    entries ts = es.map Entry.tokens ∧ ∀ e ∈ es, e.InRange

theorem Entry.InRange.accepted
    {e : Entry α}
    (h : e.InRange) : Accepted e.fields :=
  ⟨e.separate, h⟩

namespace Machine

/- Entries with a semicolon after them all get their glyphs. -/
theorem takeAll?_entries_semicolon
    {f : ScaledFont α}
    {q : Placement α}
    {m : Machine α}
    {ts : List (Token α)}
    {es : List (Entry α)}
    (hMode : m.mode = .entry)
    (hEntries : entries ts = es.map Entry.tokens)
    (hRange : ∀ e ∈ es, e.InRange)
    (us : List (Token α)) :
    m.takeAll? f q (ts ++ .semicolon :: us) =
      (m.placeAll f q es).takeAll? f q us := by
  induction es generalizing m ts with
  | nil => exact absurd hEntries (List.splitOnP_ne_nil _ _)
  | cons e es ih =>
      obtain ⟨hFirst, hMore⟩ := List.forall_mem_cons.1 hRange
      rcases entries_eq_cons hEntries with ⟨hNil, rfl⟩ | ⟨rest, rfl, hRest⟩
      · rw [List.map_eq_nil_iff.1 hNil]
        exact takeAll?_row_semicolon hMode hFirst.accepted us
      · rw [List.append_assoc, List.cons_append]
        exact (takeAll?_row_semicolon hMode hFirst.accepted _).trans
          (ih (emit_mode f q _) hRest hMore)

/- Without one, the last of them is still under way. -/
theorem takeAll?_entries
    {f : ScaledFont α}
    {q : Placement α}
    {m : Machine α}
    {ts : List (Token α)}
    {init : List (Entry α)}
    {last : Entry α}
    (hMode : m.mode = .entry)
    (hEntries : entries ts = (init ++ [last]).map Entry.tokens)
    (hRange : ∀ e ∈ init ++ [last], e.InRange) :
    m.takeAll? f q ts = some ((m.placeAll f q init).filled last) := by
  induction init generalizing m ts with
  | nil =>
      obtain ⟨hLast, -⟩ := List.forall_mem_cons.1 hRange
      rcases entries_eq_cons hEntries with ⟨-, rfl⟩ | ⟨rest, -, hRest⟩
      · exact takeAll?_row (fun t _ => ready_of_entry hMode t)
          hLast.accepted.separate hLast.accepted.inRange
      · exact absurd hRest (List.splitOnP_ne_nil _ _)
  | cons e init ih =>
      obtain ⟨hFirst, hMore⟩ := List.forall_mem_cons.1 hRange
      rcases entries_eq_cons hEntries with ⟨hNil, -⟩ | ⟨rest, rfl, hRest⟩
      · simp at hNil
      · exact (takeAll?_row_semicolon hMode hFirst.accepted _).trans
          (ih (emit_mode f q _) hRest hMore)

/- An entry of the grammar can end the indices. -/
theorem required?_filled
    {m : Machine α}
    (hMode : m.mode = .entry)
    (e : Entry α) : Mode.required? (m.filled e).mode = none := by
  rw [filled, foldl_fill_mode hMode]
  exact required?_rowMode e.fields

end Machine

end Indices

end FixedPage
