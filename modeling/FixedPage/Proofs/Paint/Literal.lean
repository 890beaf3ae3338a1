import FixedPage.Paint.Literal
import FixedPage.Proofs.Scalar.Ordered

/-
  This file says which literals are resolved to colors with all
  channels in the range from zero to one. Clamping moves numbers
  there, but not what is no number, so a color is out of range
  when the literal has such a channel, and only then.

  Main declarations:
    * `Color.InUnit`
    * `ColorProfile.IntoUnit`
    * `ColorLiteral.channels`
    * `ColorLiteral.resolve_inUnit`
    * `ColorLiteral.resolve_holdsUnit`
-/

namespace FixedPage

variable {α : Type} [Scalar α]

------------------------------------------------------------
-- Colors
------------------------------------------------------------

/- Every channel of a color is a number from zero to one. -/
structure Color.InUnit
    (c : Color α) : Prop where
  red : Scalar.InUnit c.red
  green : Scalar.InUnit c.green
  blue : Scalar.InUnit c.blue
  alpha : Scalar.InUnit c.alpha

/-
  A color with an opacity is in range if and only if the color is
  and its opacity is after the multiplication.
-/
theorem Color.withOpacity_inUnit
    [OrderedScalar α]
    {c : Color α}
    (hAlpha : Scalar.IsNumber c.alpha → Scalar.InUnit c.alpha)
    (opacity : α) :
    (c.withOpacity opacity).InUnit ↔
      c.InUnit ∧ Scalar.InUnit (c.alpha * opacity) := by
  constructor
  · intro hUnit
    have hProduct : Scalar.InUnit (c.alpha * opacity) := hUnit.alpha
    have hNumber :=
      OrderedScalar.number_of_mul _ _ hProduct.isNumber
    exact
      ⟨⟨hUnit.red, hUnit.green, hUnit.blue, hAlpha hNumber⟩, hProduct⟩
  · rintro ⟨hUnit, hProduct⟩
    exact ⟨hUnit.red, hUnit.green, hUnit.blue, hProduct⟩

------------------------------------------------------------
-- Profiles
------------------------------------------------------------

/- A profile converts all inks to channels from zero to one. -/
def ColorProfile.IntoUnit
    (p : ColorProfile α) : Prop :=
  ∀ convert,
    p.convert? = some convert →
      ∀ c m y k,
        Scalar.InUnit (convert c m y k).red ∧
          Scalar.InUnit (convert c m y k).green ∧
            Scalar.InUnit (convert c m y k).blue

/- So do all profiles that are held in memory. -/
def HoldsUnit
    (cache : ProfileCache α) : Prop :=
  ∀ name p, cache.get? name = some p → p.IntoUnit

/- So do all profiles that are read. -/
def ReadsUnit
    (read : List UInt8 → Except String (ColorProfile α)) : Prop :=
  ∀ content p, read content = .ok p → p.IntoUnit

/- What is loaded from a source is read. -/
theorem ProfileSource.load_intoUnit
    {source : ProfileSource α}
    (hReads : ReadsUnit source.read)
    {name : String}
    {p : ColorProfile α}
    (hOk : source.load name = .ok p) :
    p.IntoUnit := by
  unfold load at hOk
  cases hPart : source.part? name with
  | none =>
      rw [hPart] at hOk
      cases hOk
  | some content =>
      rw [hPart] at hOk
      dsimp only at hOk
      cases hRead : source.read content with
      | error reason =>
          rw [hRead] at hOk
          cases hOk
      | ok profile =>
          rw [hRead] at hOk
          cases hOk
          exact hReads content p hRead

/- A profile that is looked up is held or loaded. -/
theorem HoldsUnit.getOrLoad
    {cache : ProfileCache α}
    {source : ProfileSource α}
    (hHolds : HoldsUnit cache)
    (hReads : ReadsUnit source.read)
    (name : String) :
    (∀ p, (cache.getOrLoad source.load name).1 = .ok p → p.IntoUnit) ∧
      HoldsUnit (cache.getOrLoad source.load name).2 := by
  unfold Cache.getOrLoad
  cases hHeld : cache.get? name with
  | some p =>
      refine ⟨?_, hHolds⟩
      rintro _ ⟨⟩
      exact hHolds name p hHeld
  | none =>
      dsimp only
      cases hLoad : source.load name with
      | error fault => exact ⟨nofun, hHolds⟩
      | ok p =>
          have hUnit := ProfileSource.load_intoUnit hReads hLoad
          refine ⟨?_, ?_⟩
          · rintro _ ⟨⟩
            exact hUnit
          · intro other p' hFound
            unfold Cache.get? at hFound
            rw [List.lookup_cons] at hFound
            cases hSame : other == name with
            | true =>
                rw [hSame] at hFound
                cases hFound
                exact hUnit
            | false =>
                rw [hSame] at hFound
                exact hHolds other p' hFound

------------------------------------------------------------
-- Channels
------------------------------------------------------------

namespace ColorLiteral

open Text

/- Reads numerals between commas. -/
def numerals?
    (cs : List Char) : Option (List Numeral) :=
  (fields (· == ',') cs).mapM fun field => Numeral.read? (trim field)

/-
  The numerals of a literal that give channels of its color: none
  of those in hexadecimal digits, all of those that are listed,
  and the opacity in front of the inks of a profile.
-/
def channels
    (literal : String) : List Numeral :=
  let literal := trim literal.toList
  match afterPrefix "#".toList literal with
  | some _ => []
  | none =>
      match afterPrefix "sc#".toList literal with
      | some values => (numerals? values).getD []
      | none =>
          match afterPrefix "sc".toList literal with
          | some values => (numerals? values).getD []
          | none =>
              match afterPrefix "ContextColor ".toList literal with
              | some spec =>
                  match cutFirst ' ' (trim spec) with
                  | some (_, values) =>
                      ((numerals? values).getD []).take 1
                  | none => []
              | none => []

/- Every numeral that gives a channel gives a number. -/
def OfNumbers
    (literal : String) : Prop :=
  ∀ n ∈ channels literal, n ≠ .notANumber

/- Numbers are read from numerals. -/
theorem numbers?_eq
    (cs : List Char) :
    numbers? (α := α) cs =
      (numerals? cs).map (List.map Scalar.ofNumeral) := by
  unfold numbers? numerals?
  induction fields (· == ',') cs with
  | nil => rfl
  | cons field rest ih =>
      rw [List.mapM_cons, List.mapM_cons, ih]
      unfold Scalar.read?
      cases Numeral.read? (trim field) with
      | none => rfl
      | some n =>
          cases rest.mapM fun field => Numeral.read? (trim field) with
          | none => rfl
          | some ns => rfl

/- A hexadecimal digit is less than sixteen. -/
theorem digits_small
    {digits : List Char}
    {values : List Nat}
    (hDigits : digits.mapM (Markup.digit? 16) = some values) :
    ∀ d ∈ values, d < 16 := by
  induction digits generalizing values with
  | nil =>
      cases hDigits
      exact nofun
  | cons c cs ih =>
      rw [List.mapM_cons] at hDigits
      rcases Option.bind_eq_some_iff.mp hDigits with
        ⟨d, hFirst, hRow⟩
      rcases Option.bind_eq_some_iff.mp hRow with ⟨ds, hRest, hCons⟩
      cases hCons
      rw [List.forall_mem_cons]
      refine ⟨?_, ih hRest⟩
      unfold Markup.digit? at hFirst
      rw [Option.filter_eq_some_iff] at hFirst
      exact of_decide_eq_true hFirst.2

section

variable [OrderedScalar α] {color : Color α}

/- Two hexadecimal digits give a number from zero to one. -/
theorem hexChannel_inUnit
    {high low : Nat}
    (hHigh : high < 16)
    (hLow : low < 16) :
    Scalar.InUnit (hexChannel high low : α) :=
  OrderedScalar.inUnit_channel _ (by omega)

/- Colors in hexadecimal digits are in range. -/
theorem ofHex_inUnit
    {digits : List Char}
    (hOk : ofHex digits = .ok color) :
    color.InUnit := by
  unfold ofHex at hOk
  dsimp only at hOk
  cases hDigits : digits.mapM (Markup.digit? 16) with
  | none =>
      rw [hDigits] at hOk
      cases hOk
  | some values =>
      have hSmall := digits_small hDigits
      rw [hDigits] at hOk
      split at hOk
      · rename_i hValues
        cases hValues
        cases hOk
        simp only [List.forall_mem_cons] at hSmall
        rcases hSmall with ⟨hR, hR', hG, hG', hB, hB', -⟩
        exact
          ⟨hexChannel_inUnit hR hR', hexChannel_inUnit hG hG',
            hexChannel_inUnit hB hB', Scalar.inUnit_one⟩
      · rename_i hValues
        cases hValues
        cases hOk
        simp only [List.forall_mem_cons] at hSmall
        rcases hSmall with ⟨hA, hA', hR, hR', hG, hG', hB, hB', -⟩
        exact
          ⟨hexChannel_inUnit hR hR', hexChannel_inUnit hG hG',
            hexChannel_inUnit hB hB', hexChannel_inUnit hA hA'⟩
      · cases hOk

/- A numeral is moved into range unless it is no number. -/
theorem clampUnit_ofNumeral
    (n : Numeral) :
    Scalar.InUnit (Scalar.clampUnit (Scalar.ofNumeral n : α)) ↔
      n ≠ .notANumber :=
  Scalar.clampUnit_inUnit.trans (OrderedScalar.number_ofNumeral n)

/- Listed colors are in range if all channels are numbers. -/
theorem ofChannels_inUnit
    {values : List Char}
    (hOk : ofChannels values = .ok color) :
    color.InUnit ↔
      ∀ n ∈ (numerals? values).getD [], n ≠ .notANumber := by
  unfold ofChannels at hOk
  dsimp only at hOk
  rw [numbers?_eq] at hOk
  cases hNumerals : numerals? values with
  | none =>
      rw [hNumerals] at hOk
      cases hOk
  | some ns =>
      rw [hNumerals] at hOk
      rw [Option.getD_some]
      have hChannel (n : Numeral) := clampUnit_ofNumeral (α := α) n
      rcases ns with _ | ⟨n₁, _ | ⟨n₂, _ | ⟨n₃, _ | ⟨n₄, _ | _⟩⟩⟩⟩
      · cases hOk
      · cases hOk
      · cases hOk
      · cases hOk
        simp only [List.forall_mem_cons, ← hChannel]
        constructor
        · intro hUnit
          exact ⟨hUnit.red, hUnit.green, hUnit.blue, nofun⟩
        · rintro ⟨hRed, hGreen, hBlue, -⟩
          exact ⟨hRed, hGreen, hBlue, Scalar.inUnit_one⟩
      · cases hOk
        simp only [List.forall_mem_cons, ← hChannel]
        constructor
        · intro hUnit
          exact
            ⟨hUnit.alpha, hUnit.red, hUnit.green, hUnit.blue, nofun⟩
        · rintro ⟨hAlpha, hRed, hGreen, hBlue, -⟩
          exact ⟨hRed, hGreen, hBlue, hAlpha⟩
      · cases hOk

omit [OrderedScalar α] in
/- The opacity of a listed color is clamped unless it is left out. -/
theorem alpha_of_ofChannels
    {values : List Char}
    (hOk : ofChannels values = .ok color) :
    color.alpha = 1 ∨ ∃ x, color.alpha = Scalar.clampUnit x := by
  unfold ofChannels at hOk
  dsimp only at hOk
  split at hOk
  · cases hOk
    exact .inl rfl
  · rename_i hValues
    cases hOk
    rcases Option.map_eq_some_iff.mp hValues with ⟨xs, -, hClamped⟩
    rcases List.map_eq_cons_iff.mp hClamped with ⟨x, _, -, hFirst, -⟩
    exact .inr ⟨x, hFirst.symm⟩
  · cases hOk

------------------------------------------------------------
-- Colors in profiles
------------------------------------------------------------

omit [OrderedScalar α] in
/- The opacity of a color in a profile is the first number. -/
theorem alpha_of_inProfile?
    {spec : List Char}
    {literal : InProfile α}
    (hRead : inProfile? spec = some literal) :
    ∃ profile values n ns,
      cutFirst ' ' (trim spec) = some (profile, values) ∧
        numerals? values = some (n :: ns) ∧
          literal.alpha = Scalar.ofNumeral n := by
  unfold inProfile? at hRead
  rcases Option.bind_eq_some_iff.mp hRead with
    ⟨⟨profile, values⟩, hCut, hRead⟩
  rcases Option.bind_eq_some_iff.mp hRead with
    ⟨numbers, hNumbers, hRead⟩
  rw [numbers?_eq] at hNumbers
  rcases Option.map_eq_some_iff.mp hNumbers with ⟨ns, hNumerals, rfl⟩
  rcases ns with _ | ⟨n, _ | ⟨c, ns⟩⟩
  · cases hRead
  · cases hRead
  · cases hRead
    exact ⟨profile, values, n, c :: ns, hCut, hNumerals, rfl⟩

omit [OrderedScalar α] in
/- The opacity of a converted color is clamped. -/
theorem alpha_of_convert
    {text : String}
    {literal : InProfile α}
    {profile : ColorProfile α}
    (hOk : convert text literal profile = .ok color) :
    color.alpha = Scalar.clampUnit literal.alpha := by
  unfold convert at hOk
  split at hOk
  · cases hOk
  · dsimp only at hOk
    split at hOk
    · cases hOk
      rfl
    · cases hOk

/- A converted color is in range if its opacity is a number. -/
theorem convert_inUnit
    {text : String}
    {literal : InProfile α}
    {profile : ColorProfile α}
    (hProfile : profile.IntoUnit)
    (hOk : convert text literal profile = .ok color) :
    color.InUnit ↔ Scalar.IsNumber literal.alpha := by
  unfold convert at hOk
  cases hConvert : profile.convert? with
  | none =>
      rw [hConvert] at hOk
      cases hOk
  | some convert =>
      rw [hConvert] at hOk
      dsimp only at hOk
      split at hOk
      · cases hOk
        rename_i c m y k _
        rcases hProfile convert hConvert c m y k with
          ⟨hRed, hGreen, hBlue⟩
        rw [← Scalar.clampUnit_inUnit]
        constructor
        · exact Color.InUnit.alpha
        · intro hAlpha
          exact ⟨hRed, hGreen, hBlue, hAlpha⟩
      · cases hOk

omit [OrderedScalar α] in
/- What is resolved in a profile has been converted by one. -/
theorem convert_of_resolveInProfile
    {source? : Option (ProfileSource α)}
    {spec : List Char}
    {cache : ProfileCache α}
    (hHolds : HoldsUnit cache)
    (hReads : ∀ source ∈ source?, ReadsUnit source.read)
    (hOk : (resolveInProfile source? spec cache).1 = .ok color) :
    ∃ text literal profile,
      inProfile? spec = some literal ∧
        profile.IntoUnit ∧ convert text literal profile = .ok color := by
  unfold resolveInProfile at hOk
  dsimp only at hOk
  cases hRead : inProfile? (α := α) spec with
  | none =>
      rw [hRead] at hOk
      cases hOk
  | some literal =>
      cases source? with
      | none =>
          rw [hRead] at hOk
          cases hOk
      | some source =>
          have hLoaded :=
            hHolds.getOrLoad (hReads source rfl)
              (PartName.resolve source.source literal.profile)
          rw [hRead] at hOk
          dsimp only at hOk
          generalize
            cache.getOrLoad source.load
              (PartName.resolve source.source literal.profile) = outcome
            at hOk hLoaded
          rcases outcome with ⟨fault | profile, cache'⟩
          · cases hOk
          · exact
              ⟨_, literal, profile, rfl, hLoaded.1 profile rfl, hOk⟩

omit [OrderedScalar α] in
/-
  A literal that is resolved is one of hexadecimal digits, one of
  listed channels, or one that a profile has converted.
-/
theorem resolve_cases
    {source? : Option (ProfileSource α)}
    {literal : String}
    {cache : ProfileCache α}
    (hHolds : HoldsUnit cache)
    (hReads : ∀ source ∈ source?, ReadsUnit source.read)
    (hOk : (resolve source? literal cache).1 = .ok color) :
    (∃ digits, channels literal = [] ∧ ofHex digits = .ok color) ∨
      (∃ values,
        channels literal = (numerals? values).getD [] ∧
          ofChannels values = .ok color) ∨
      ∃ text profile n,
        ∃ inks : InProfile α,
          channels literal = [n] ∧
            inks.alpha = Scalar.ofNumeral n ∧
              profile.IntoUnit ∧
                convert text inks profile = .ok color := by
  unfold resolve at hOk
  unfold channels
  dsimp only at hOk ⊢
  generalize trim literal.toList = text at hOk ⊢
  cases hHex : afterPrefix "#".toList text with
  | some digits =>
      rw [hHex] at hOk
      exact .inl ⟨digits, rfl, hOk⟩
  | none =>
      rw [hHex] at hOk
      dsimp only at hOk ⊢
      cases hMarked : afterPrefix "sc#".toList text with
      | some values =>
          rw [hMarked] at hOk
          exact .inr (.inl ⟨values, rfl, hOk⟩)
      | none =>
          rw [hMarked] at hOk
          dsimp only at hOk ⊢
          cases hListed : afterPrefix "sc".toList text with
          | some values =>
              rw [hListed] at hOk
              exact .inr (.inl ⟨values, rfl, hOk⟩)
          | none =>
              rw [hListed] at hOk
              dsimp only at hOk ⊢
              cases hSpec : afterPrefix "ContextColor ".toList text with
              | none =>
                  rw [hSpec] at hOk
                  cases hOk
              | some spec =>
                  rw [hSpec] at hOk
                  rcases
                    convert_of_resolveInProfile hHolds hReads hOk with
                    ⟨text, inks, profile, hRead, hProfile, hConverted⟩
                  rcases alpha_of_inProfile? hRead with
                    ⟨name, values, n, ns, hCut, hNumerals, hAlpha⟩
                  dsimp only
                  rw [hCut]
                  dsimp only
                  rw [hNumerals]
                  exact
                    .inr (.inr
                      ⟨text, profile, n, inks, rfl, hAlpha, hProfile,
                        hConverted⟩)

/-
  A literal that is resolved gives a color in range if and only if
  all its channels are numbers, when the profiles convert inks to
  channels in range.
-/
theorem resolve_inUnit
    {source? : Option (ProfileSource α)}
    {literal : String}
    {cache : ProfileCache α}
    (hHolds : HoldsUnit cache)
    (hReads : ∀ source ∈ source?, ReadsUnit source.read)
    (hOk : (resolve source? literal cache).1 = .ok color) :
    color.InUnit ↔ OfNumbers literal := by
  unfold OfNumbers
  rcases resolve_cases hHolds hReads hOk with
    ⟨digits, hChannels, hHex⟩ | ⟨values, hChannels, hListed⟩ |
      ⟨text, profile, n, inks, hChannels, hAlpha, hProfile, hConverted⟩
  · rw [hChannels]
    exact iff_of_true (ofHex_inUnit hHex) nofun
  · rw [hChannels]
    exact ofChannels_inUnit hListed
  · rw [hChannels, List.forall_mem_singleton,
      convert_inUnit hProfile hConverted, hAlpha,
      OrderedScalar.number_ofNumeral]

/- The opacity of a color is in range unless it is no number. -/
theorem resolve_alpha
    {source? : Option (ProfileSource α)}
    {literal : String}
    {cache : ProfileCache α}
    (hHolds : HoldsUnit cache)
    (hReads : ∀ source ∈ source?, ReadsUnit source.read)
    (hOk : (resolve source? literal cache).1 = .ok color)
    (hNumber : Scalar.IsNumber color.alpha) :
    Scalar.InUnit color.alpha := by
  rcases resolve_cases hHolds hReads hOk with
    ⟨digits, -, hHex⟩ | ⟨values, -, hListed⟩ |
      ⟨text, profile, n, inks, -, -, -, hConverted⟩
  · exact (ofHex_inUnit hHex).alpha
  · rcases alpha_of_ofChannels hListed with hOne | ⟨x, hClamped⟩
    · rw [hOne]
      exact Scalar.inUnit_one
    · rw [hClamped] at hNumber ⊢
      exact Scalar.inUnit_of_clampUnit hNumber
  · rw [alpha_of_convert hConverted] at hNumber ⊢
    exact Scalar.inUnit_of_clampUnit hNumber

omit [OrderedScalar α] in
/- The memory after a literal has been resolved. -/
theorem resolve_holdsUnit
    {source? : Option (ProfileSource α)}
    (literal : String)
    {cache : ProfileCache α}
    (hHolds : HoldsUnit cache)
    (hReads : ∀ source ∈ source?, ReadsUnit source.read) :
    HoldsUnit (resolve source? literal cache).2 := by
  unfold resolve
  dsimp only
  split
  · exact hHolds
  · split
    · exact hHolds
    · split
      · exact hHolds
      · split
        · rename_i spec _
          unfold resolveInProfile
          dsimp only
          cases inProfile? (α := α) spec with
          | none => exact hHolds
          | some inks =>
              cases source? with
              | none => exact hHolds
              | some source =>
                  have hLoaded :=
                    hHolds.getOrLoad (hReads source rfl)
                      (PartName.resolve source.source inks.profile)
                  dsimp only
                  generalize
                    cache.getOrLoad source.load
                      (PartName.resolve source.source inks.profile) =
                        outcome
                    at hLoaded ⊢
                  rcases outcome with ⟨fault | profile, cache'⟩
                  · exact hLoaded.2
                  · exact hLoaded.2
        · exact hHolds

end

end ColorLiteral

end FixedPage
