import FixedPage.Proofs.Memory.Lookup
import FixedPage.Proofs.Render.Effect
import FixedPage.Render.Page

/-
  This file says what taking an attribute comes to, whatever was
  taken before: a change of what is known of the element, and of
  the surface. Changes that commute may be made in any order.

  What is in memory does not count, as long as each profile that is
  asked for is held or can be loaded: then the literals of colors
  stand for the same.

  Main declarations:
    * `Environment.color?`
    * `Change`
    * `Change.Commute`
    * `Change.all?_perm`
    * `Action.ComesTo`
    * `Action.ComesTo.foldlM`
-/

namespace FixedPage

open Markup

variable {α : Type}

------------------------------------------------------------
-- Profiles
------------------------------------------------------------

/- The profile that a memory has for a name, or can load. -/
def Environment.profile?
    (env : Environment α)
    (profiles : ProfileCache α)
    (name : String) : Option (ColorProfile α) :=
  (profiles.get? name).or (env.profileSource.load name).toOption

/- A memory has the same when another name has been looked up. -/
theorem Environment.profile?_getOrLoad
    (env : Environment α)
    (profiles : ProfileCache α)
    (name : String) :
    env.profile? (profiles.getOrLoad env.profileSource.load name).2 =
      env.profile? profiles := by
  funext other
  unfold profile?
  cases hHeld : profiles.get? name with
  | some p => rw [Cache.getOrLoad_of_held hHeld]
  | none =>
      cases hLoad : env.profileSource.load name with
      | error fault =>
          rw [Cache.getOrLoad_of_error hHeld hLoad]
          rfl
      | ok p =>
          rw [Cache.getOrLoad_of_ok hHeld hLoad,
            Cache.get?_cons p profiles.entries _ profiles.requests]
          by_cases hSame : other = name
          · rw [if_pos hSame, hSame, hHeld, hLoad]
            rfl
          · rw [if_neg hSame]

section

variable [Scalar α]

omit [Scalar α] in
/-
  What a literal stands for when it is resolved: a color, or none
  if it cannot be converted. Malformed ones stand for nothing.
-/
def meaning? :
    Except ColorFault (Color α) → Option (Option (Color α))
| .ok color => some (some color)
| .error (.malformed _) => none
| .error (.unsupported _) => some none

/- What a literal stands for, given the profiles in memory. -/
def Environment.color?
    (env : Environment α)
    (profiles : ProfileCache α)
    (literal : String) : Option (Option (Color α)) :=
  meaning?
    (ColorLiteral.resolve (some env.profileSource) literal profiles).1

/- Resolving a literal leaves all profiles as they are. -/
theorem Environment.profile?_resolve
    (env : Environment α)
    (profiles : ProfileCache α)
    (literal : String) :
    env.profile?
        (ColorLiteral.resolve (some env.profileSource) literal
          profiles).2 =
      env.profile? profiles := by
  unfold ColorLiteral.resolve
  dsimp only
  split
  · rfl
  · split
    · rfl
    · split
      · rfl
      · split
        · rename_i spec _
          unfold ColorLiteral.resolveInProfile
          cases ColorLiteral.inProfile? (α := α) spec with
          | none => rfl
          | some inks =>
              have hSame :=
                env.profile?_getOrLoad profiles
                  (PartName.resolve env.profileSource.source
                    inks.profile)
              dsimp only
              generalize
                profiles.getOrLoad env.profileSource.load
                  (PartName.resolve env.profileSource.source
                    inks.profile) = outcome at hSame ⊢
              rcases outcome with ⟨fault | p, later⟩
              · exact hSame
              · exact hSame
        · rfl

omit [Scalar α] in
/- A profile that is not there cannot be converted with. -/
theorem ProfileSource.unsupported_of_load
    {source : ProfileSource α}
    {name : String}
    {fault : ColorFault}
    (hLoad : source.load name = .error fault) :
    ∃ reason, fault = .unsupported reason := by
  unfold load at hLoad
  split at hLoad
  · cases hLoad
    exact ⟨_, rfl⟩
  · split at hLoad
    · cases hLoad
    · cases hLoad
      exact ⟨_, rfl⟩

omit [Scalar α] in
/- So it is if a memory neither has it nor can load it. -/
theorem Environment.profile?_cases
    (env : Environment α)
    (profiles : ProfileCache α)
    (name : String) :
    (∃ p,
        env.profile? profiles name = some p ∧
          (profiles.getOrLoad env.profileSource.load name).1 = .ok p) ∨
      ∃ reason,
        env.profile? profiles name = none ∧
          (profiles.getOrLoad env.profileSource.load name).1 =
            .error (.unsupported reason) := by
  unfold profile?
  cases hHeld : profiles.get? name with
  | some p =>
      rw [Cache.getOrLoad_of_held hHeld]
      exact .inl ⟨p, rfl, rfl⟩
  | none =>
      cases hLoad : env.profileSource.load name with
      | ok p =>
          rw [Cache.getOrLoad_of_ok hHeld hLoad]
          exact .inl ⟨p, rfl, rfl⟩
      | error fault =>
          rw [Cache.getOrLoad_of_error hHeld hLoad]
          rcases ProfileSource.unsupported_of_load hLoad with
            ⟨reason, rfl⟩
          exact .inr ⟨reason, rfl, rfl⟩

/- Literals stand for the same if the profiles are the same. -/
theorem Environment.color?_congr
    {env env' : Environment α}
    {profiles profiles' : ProfileCache α}
    (hSource : env'.source = env.source)
    (hSame : env'.profile? profiles' = env.profile? profiles) :
    env'.color? profiles' = env.color? profiles := by
  funext literal
  unfold color? ColorLiteral.resolve
  dsimp only
  split
  · rfl
  · split
    · rfl
    · split
      · rfl
      · split
        · rename_i spec _
          unfold ColorLiteral.resolveInProfile
          cases ColorLiteral.inProfile? (α := α) spec with
          | none => rfl
          | some inks =>
              have hName :
                  env'.profileSource.source =
                    env.profileSource.source :=
                hSource
              dsimp only
              rw [hName]
              have hBoth :=
                congrFun hSame
                  (PartName.resolve env.profileSource.source
                    inks.profile)
              have hFirst :=
                env.profile?_cases profiles
                  (PartName.resolve env.profileSource.source
                    inks.profile)
              have hSecond :=
                env'.profile?_cases profiles'
                  (PartName.resolve env.profileSource.source
                    inks.profile)
              rw [hBoth] at hSecond
              generalize
                profiles.getOrLoad env.profileSource.load
                  (PartName.resolve env.profileSource.source
                    inks.profile) = outcome at hFirst ⊢
              generalize
                profiles'.getOrLoad env'.profileSource.load
                  (PartName.resolve env.profileSource.source
                    inks.profile) = outcome' at hSecond ⊢
              rcases outcome with ⟨result, later⟩
              rcases outcome' with ⟨result', later'⟩
              rcases hFirst with ⟨p, hIs, rfl⟩ | ⟨reason, hIs, rfl⟩
              · rcases hSecond with ⟨p', hIs', rfl⟩ | ⟨_, hIs', _⟩
                · rw [hIs] at hIs'
                  cases hIs'
                  rfl
                · rw [hIs] at hIs'
                  cases hIs'
              · rcases hSecond with ⟨p', hIs', _⟩ | ⟨_, _, rfl⟩
                · rw [hIs] at hIs'
                  cases hIs'
                · rfl
        · rfl

end

------------------------------------------------------------
-- Changes
------------------------------------------------------------

/-
  What taking an attribute comes to: a change of what is known of
  the element, and one of the surface.
-/
@[ext] structure Change (α β : Type) where
  alter : β → β
  draw : Surface α → Surface α

namespace Change

variable {β : Type}

/- Nothing changes. -/
def keep : Change α β :=
  ⟨id, id⟩

/- Something is known. -/
def set
    (f : β → β) : Change α β :=
  ⟨f, id⟩

/- What is drawn is transformed. -/
def turn
    [Scalar α]
    (m : Matrix α) : Change α β :=
  ⟨id, Surface.transform m⟩

/- One change after another. -/
def andThen
    (c c' : Change α β) : Change α β :=
  ⟨fun b => c'.alter (c.alter b), fun s => c'.draw (c.draw s)⟩

/- It does not matter which of two changes comes first. -/
def Commute
    (c c' : Change α β) : Prop :=
  c.andThen c' = c'.andThen c

theorem Commute.symm
    {c c' : Change α β}
    (hCommute : c.Commute c') :
    c'.Commute c :=
  Eq.symm hCommute

/- Nothing commutes with anything. -/
theorem Commute.keep
    (c : Change α β) :
    keep.Commute c :=
  rfl

variable {κ : Type} {change? : κ → Option (Change α β)}

/- The changes of some attributes, in order, if none is a fault. -/
def all?
    (change? : κ → Option (Change α β)) :
    List κ → Option (Change α β)
| [] => some keep
| a :: as =>
    (change? a).bind fun c => (all? change? as).map c.andThen

/- What commutes with each of some changes commutes with all. -/
theorem all?_commute
    {as : List κ}
    {c : Change α β}
    (hCommute : ∀ a ∈ as, ∀ c' ∈ change? a, c'.Commute c) :
    ∀ all ∈ all? change? as, all.Commute c := by
  induction as with
  | nil =>
      rintro _ ⟨⟩
      exact .keep c
  | cons a as ih =>
      intro all hAll
      rcases Option.bind_eq_some_iff.mp hAll with ⟨first, hIs, hMap⟩
      rcases Option.map_eq_some_iff.mp hMap with ⟨rest, hIs', rfl⟩
      have hFirst := hCommute a List.mem_cons_self first hIs
      have hRest :=
        ih (fun a hMem => hCommute a (List.mem_cons_of_mem _ hMem)) rest
          hIs'
      calc
        (first.andThen rest).andThen c = first.andThen (c.andThen rest) :=
          congrArg first.andThen hRest
        _ = (first.andThen c).andThen rest := rfl
        _ = (c.andThen first).andThen rest := by rw [hFirst]

/- Attributes may be taken in any order if their changes commute. -/
theorem all?_perm
    {as as' : List κ}
    (hPerm : as.Perm as')
    (hCommute :
      as.Pairwise fun a a' =>
        ∀ c ∈ change? a, ∀ c' ∈ change? a', c.Commute c') :
    all? change? as = all? change? as' := by
  induction hPerm with
  | nil => rfl
  | cons a hPerm ih =>
      unfold all?
      rw [ih (List.pairwise_cons.mp hCommute).2]
  | swap a a' as =>
      have hPair :=
        (List.pairwise_cons.mp hCommute).1 a List.mem_cons_self
      unfold all? all?
      cases hFirst : change? a' with
      | none => cases change? a <;> rfl
      | some c =>
          cases hSecond : change? a with
          | none => rfl
          | some c' =>
              cases all? change? as with
              | none => rfl
              | some rest =>
                  have hSwap := hPair c hFirst c' hSecond
                  change
                    some ((c.andThen c').andThen rest) =
                      some ((c'.andThen c).andThen rest)
                  rw [hSwap]
  | trans hFirst hSecond ihFirst ihSecond =>
      have hMid :=
        (hFirst.pairwise_iff fun hBoth c hIs c' hIs' =>
          (hBoth c' hIs' c hIs).symm).mp hCommute
      rw [ihFirst hCommute, ihSecond hMid]

end Change

------------------------------------------------------------
-- Actions
------------------------------------------------------------

variable [Scalar α]

namespace Action

variable {β γ : Type}

omit [Scalar α] in
/- What is read in two steps. -/
theorem ofExcept_bind
    (x : Except Error β)
    (f : β → Except Error γ) :
    (ofExcept (x >>= f) : Action α γ) =
      ofExcept x >>= fun b => ofExcept (f b) := by
  cases x <;> rfl

omit [Scalar α] in
/- What is read and then completed. -/
theorem ofExcept_map
    (x : Except Error β)
    (f : β → γ) :
    (ofExcept (x.map f) : Action α γ) =
      ofExcept x >>= fun b => pure (f b) := by
  cases x <;> rfl

omit [Scalar α] in
/- What is read attribute by attribute. -/
theorem ofExcept_foldlM
    (step : β → γ → Except Error β)
    (b : β)
    (as : List γ) :
    (ofExcept (as.foldlM step b) : Action α β) =
      as.foldlM (fun b a => ofExcept (step b a)) b := by
  induction as generalizing b with
  | nil => rfl
  | cons a as ih =>
      rw [List.foldlM_cons, List.foldlM_cons, ofExcept_bind]
      exact congrArg _ (funext ih)

end Action

/-
  A change is made, of what is known of an element and of a state.
  Profiles may be loaded meanwhile. There is no change after a
  fault.
-/
inductive Change.Made
    {β : Type}
    (env : Environment α)
    (b : β)
    (st : RenderState α) :
    Option (Change α β) → Except Error β × RenderState α → Prop
| fault
    (fault : Error)
    (now : RenderState α) :
    Made env b st none (.error fault, now)
| ok
    (c : Change α β)
    {profiles : ProfileCache α}
    (hProfiles :
      env.profile? profiles = env.profile? st.profiles) :
    Made env b st (some c)
      (.ok (c.alter b),
        { st with
          surface := c.draw st.surface
          profiles := profiles })

/-
  Where the literals stand for some colors, an action on what is
  known of an element comes to a change or to a fault.
-/
def Action.ComesTo
    {β : Type}
    (env : Environment α)
    (colors : String → Option (Option (Color α)))
    (b : β)
    (x : Action α β)
    (change? : Option (Change α β)) : Prop :=
  ∀ st,
    env.color? st.profiles = colors →
      Change.Made env b st change? (x.perform st)

namespace Action.ComesTo

variable {β γ : Type} {env : Environment α}
variable {colors : String → Option (Option (Color α))} {b : β}

theorem keep :
    ComesTo env colors b (pure b) (some .keep) :=
  fun _ _ => .ok .keep rfl

theorem set
    (f : β → β) :
    ComesTo env colors b (pure (f b)) (some (.set f)) :=
  fun _ _ => .ok (.set f) rfl

theorem fail
    (fault : Error) :
    ComesTo env colors b (Action.fail fault) none :=
  fun st _ => .fault fault st

/- A value that is read without the state. -/
theorem read
    {e : Element}
    {name value : String}
    {grammar : String → Option γ}
    (f : γ → β → β) :
    ComesTo env colors b
      (do
        let c ← Action.ofExcept (e.read name grammar value)
        pure (f c b))
      ((grammar value).map fun c => .set (f c)) := by
  intro st _
  unfold Element.read
  cases grammar value with
  | none => exact .fault _ st
  | some c => exact .ok (.set (f c)) rfl

/- A matrix that is no reference. -/
theorem matrix
    {e : Element}
    {name value : String}
    (hPlain : Value.resourceKey? value = none)
    (f : Matrix α → β → β) :
    ComesTo env colors b
      (do
        let m ← transformValue env e name value
        pure (f m b))
      ((Value.matrix? value).map fun m => .set (f m)) := by
  unfold transformValue
  rw [hPlain]
  exact read f

/- A transformation that is no reference. -/
theorem turn
    {e : Element}
    {name value : String}
    (hPlain : Value.resourceKey? value = none) :
    ComesTo env colors b
      (do
        let m ← transformValue env e name value
        Action.draw (Surface.transform m)
        pure b)
      ((Value.matrix? value).map .turn) := by
  unfold transformValue
  rw [hPlain]
  intro st _
  unfold Element.read
  cases Value.matrix? (α := α) value with
  | none => exact .fault _ st
  | some m => exact .ok (.turn m) rfl

/- Path data that is no reference. -/
theorem geometry
    {value : String}
    (hPlain : Value.resourceKey? value = none)
    (f : String → β → β) :
    ComesTo env colors b
      (do
        let data ← geometryValue env value
        pure (f data b))
      (some (.set (f value))) := by
  unfold geometryValue
  rw [hPlain]
  exact set (f value)

/- A color. -/
theorem color
    {e : Element}
    {name value : String}
    (f : Option (Color α) → β → β) :
    ComesTo env colors b
      (do
        let color? ← colorValue env e name value
        pure (f color? b))
      ((colors value).map fun color? => .set (f color?)) := by
  rintro st rfl
  have hSame := env.profile?_resolve st.profiles value
  unfold colorValue Environment.color?
  rw [perform_bind, perform_ofEffect]
  dsimp only
  generalize
    ColorLiteral.resolve (some env.profileSource) value st.profiles =
      outcome at hSame ⊢
  rcases outcome with ⟨(_ | _) | color, later⟩
  · exact .fault _ _
  · exact .ok (.set (f none)) hSame
  · exact .ok (.set (f (some color))) hSame

/- A color that is all there is to know. -/
theorem colorOnly
    {e : Element}
    {name value : String}
    (b : Option (Color α)) :
    ComesTo env colors b (colorValue env e name value)
      ((colors value).map fun color? => .set fun _ => color?) := by
  rw [← bind_pure (colorValue env e name value)]
  exact color fun color? _ => color?

/- A brush that is no reference. -/
theorem brush
    {lookup : BrushLookup α}
    {e : Element}
    {name value : String}
    (hPlain : Value.resourceKey? value = none)
    (f : Option (Pattern α) → β → β) :
    ComesTo env colors b
      (do
        let pattern? ← brushValue env lookup e name value
        pure (f pattern? b))
      ((colors value).map fun color? =>
        .set (f (color?.map Pattern.solid))) := by
  unfold brushValue
  rw [hPlain]
  dsimp only
  rw [bind_assoc]
  exact color fun color? => f (color?.map Pattern.solid)

/- Attributes that are taken one after the other. -/
theorem foldlM
    {κ : Type}
    {step : β → κ → Action α β}
    {change? : κ → Option (Change α β)}
    {as : List κ}
    (hStep :
      ∀ a ∈ as, ∀ b, ComesTo env colors b (step b a) (change? a))
    (b : β) :
    ComesTo env colors b (as.foldlM step b)
      (Change.all? change? as) := by
  induction as generalizing b with
  | nil => exact keep
  | cons a as ih =>
      intro st hColors
      have hFirst := hStep a List.mem_cons_self b st hColors
      unfold Change.all?
      rw [List.foldlM_cons, perform_bind]
      generalize (step b a).perform st = outcome at hFirst ⊢
      generalize change? a = first? at hFirst ⊢
      cases hFirst with
      | fault fault now => exact .fault fault now
      | @ok c profiles hProfiles =>
          have hLater : env.color? profiles = colors := by
            rw [Environment.color?_congr rfl hProfiles, hColors]
          have hRest :=
            ih (fun a hMem => hStep a (List.mem_cons_of_mem _ hMem))
              (c.alter b)
              { st with
                surface := c.draw st.surface
                profiles := profiles }
              hLater
          dsimp only [Option.bind_some]
          generalize Change.all? change? as = rest? at hRest ⊢
          generalize
            (as.foldlM step (c.alter b)).perform
              { st with
                surface := c.draw st.surface
                profiles := profiles } = outcome at hRest ⊢
          cases hRest with
          | fault fault now => exact .fault fault now
          | ok rest hProfiles' =>
              exact .ok (c.andThen rest) (hProfiles'.trans hProfiles)

end Action.ComesTo

end FixedPage
