import FactorSage.Library.JsonText

/-!
# What is written is read back

`parse_stringify`: the text of a value whose numbers are finite and whose objects list their
properties in their own order is parsed to that value.

A value is followed by a comma, a closing bracket or nothing, none of which goes on with a number
(`Ends`); a scanner that reads a whole text reads the same in front of such a continuation. The fuel
`parse` starts with is enough for whatever any fuel is enough for (`parse_of_parseValue`), so the
round trip is proved for some fuel, by induction on the value.
-/

namespace JsonText

variable {N : Type}

/-! ### Strings -/

theorem hexValue_hexDigit {n : ℕ} (h : n < 16) : hexValue (hexDigit n) = some n := by
  unfold hexDigit hexValue
  split
  · rw [if_pos (by omega), Nat.add_sub_cancel_left]
  · rw [if_neg (by omega), if_pos (by omega), Nat.add_sub_cancel_left]

theorem hexUnit_hexDigit {u : ℕ} (h : u < 65536) :
    hexUnit (hexDigit (u / 4096 % 16)) (hexDigit (u / 256 % 16)) (hexDigit (u / 16 % 16))
      (hexDigit (u % 16)) = some u := by
  unfold hexUnit
  rw [hexValue_hexDigit (Nat.mod_lt _ (by decide)), hexValue_hexDigit (Nat.mod_lt _ (by decide)),
    hexValue_hexDigit (Nat.mod_lt _ (by decide)), hexValue_hexDigit (Nat.mod_lt _ (by decide))]
  change some (4096 * (u / 4096 % 16) + 256 * (u / 256 % 16) + 16 * (u / 16 % 16) + u % 16) = some u
  congr 1
  omega

theorem parseUnits_quote (t : Text) : parseUnits (34 :: t) = some ([], t) := by
  rw [parseUnits.eq_def]
  exact if_pos rfl

/-- A unit that is neither the quote nor the backslash nor a control character stands for itself. -/
theorem parseUnits_plain {u : ℕ} (hquote : u ≠ 34) (hslash : u ≠ 92) (hcontrol : ¬ u < 32)
    (t : Text) : parseUnits (u :: t) = (parseUnits t).map (consUnit u) := by
  rw [parseUnits.eq_def]
  dsimp only
  rw [if_neg hquote, if_neg hslash, if_neg hcontrol]

theorem parseUnits_simpleEscape {e u : ℕ} (he : e ≠ 117) (h : simpleEscape e = some u) (t : Text) :
    parseUnits (92 :: e :: t) = (parseUnits t).map (consUnit u) := by
  rw [parseUnits.eq_def]
  dsimp only
  rw [if_neg (by decide), if_pos rfl, if_neg he, h, Option.bind_some]

theorem parseUnits_unicodeEscape {u : ℕ} (h : u < 65536) (t : Text) :
    parseUnits (unicodeEscape u ++ t) = (parseUnits t).map (consUnit u) := by
  unfold unicodeEscape
  simp only [List.cons_append, List.nil_append]
  rw [parseUnits.eq_def]
  dsimp only
  rw [if_neg (by decide), if_pos rfl, if_pos rfl, hexUnit_hexDigit h, Option.bind_some]

/-- However a unit is escaped, it is read back. -/
theorem parseUnits_escapeUnit (u : ℕ) (t : Text) :
    parseUnits (escapeUnit u ++ t) = (parseUnits t).map (consUnit u) := by
  unfold escapeUnit
  split
  · next h =>
    subst h
    exact parseUnits_simpleEscape (by decide) rfl t
  split
  · next h =>
    subst h
    exact parseUnits_simpleEscape (by decide) rfl t
  split
  · next h => exact h ▸ parseUnits_simpleEscape (by decide) rfl t
  split
  · next h => exact h ▸ parseUnits_simpleEscape (by decide) rfl t
  split
  · next h => exact h ▸ parseUnits_simpleEscape (by decide) rfl t
  split
  · next h => exact h ▸ parseUnits_simpleEscape (by decide) rfl t
  split
  · next h => exact h ▸ parseUnits_simpleEscape (by decide) rfl t
  split
  · next h =>
    refine parseUnits_unicodeEscape ?_ t
    unfold isLeadSurrogate isTrailSurrogate at h
    simp only [decide_eq_true_eq] at h
    omega
  · next hquote hslash _ _ _ _ _ hplain =>
    rw [not_or] at hplain
    exact parseUnits_plain hquote hslash hplain.1 t

/-- **A quoted string is read back.** -/
theorem parseUnits_quoteUnits (s t : Text) :
    parseUnits (quoteUnits s ++ 34 :: t) = some (s, t) := by
  fun_induction quoteUnits s with
  | case1 => exact parseUnits_quote t
  | case2 u =>
    rw [parseUnits_escapeUnit, parseUnits_quote]
    rfl
  | case3 u v rest hpair ih =>
    -- a pair is written as it is, and neither of its halves is special
    obtain ⟨hlead, htrail⟩ := hpair
    unfold isLeadSurrogate at hlead
    unfold isTrailSurrogate at htrail
    rw [decide_eq_true_eq] at hlead htrail
    rw [List.cons_append, List.cons_append, parseUnits_plain (by omega) (by omega) (by omega),
      parseUnits_plain (by omega) (by omega) (by omega), ih]
    rfl
  | case4 u v rest hpair ih =>
    rw [List.append_assoc, parseUnits_escapeUnit, ih]
    rfl

/-! ### Numbers -/

/-- A continuation that does not go on with a number. -/
def Ends : Text → Prop
  | [] => True
  | u :: _ => isDigit u = false ∧ u ≠ 46 ∧ u ≠ 69 ∧ u ≠ 101 ∧ u ≠ 43 ∧ u ≠ 45

/-- What a scanner reads in front of a longer text. -/
def extend (more : Text) (read : Text × Text) : Text × Text := (read.1, read.2 ++ more)

section Scan

variable {more : Text} (hends : Ends more)

include hends

theorem scanDigits_append (t : Text) :
    scanDigits (t ++ more) = ((scanDigits t).1, (scanDigits t).2 ++ more) := by
  induction t with
  | nil =>
    cases more with
    | nil => rfl
    | cons u rest =>
      obtain ⟨hdigit, -⟩ := hends
      exact if_neg (Bool.eq_false_iff.mp hdigit)
  | cons u rest ih =>
    rw [List.cons_append, scanDigits, scanDigits, ih]
    split <;> rfl

theorem scanMinus_append (t : Text) :
    scanMinus (t ++ more) = ((scanMinus t).1, (scanMinus t).2 ++ more) := by
  cases t with
  | nil =>
    cases more with
    | nil => rfl
    | cons u rest =>
      obtain ⟨-, -, -, -, -, hminus⟩ := hends
      exact if_neg hminus
  | cons u rest =>
    rw [List.cons_append, scanMinus, scanMinus]
    split <;> rfl

theorem scanSign_append (t : Text) :
    scanSign (t ++ more) = ((scanSign t).1, (scanSign t).2 ++ more) := by
  cases t with
  | nil =>
    cases more with
    | nil => rfl
    | cons u rest =>
      obtain ⟨-, -, -, -, hplus, hminus⟩ := hends
      exact if_neg (not_or.mpr ⟨hplus, hminus⟩)
  | cons u rest =>
    rw [List.cons_append, scanSign, scanSign]
    split <;> rfl

theorem scanInteger_append (t : Text) :
    scanInteger (t ++ more) = (scanInteger t).map (extend more) := by
  cases t with
  | nil =>
    cases more with
    | nil => rfl
    | cons u rest =>
      obtain ⟨hdigit, -⟩ := hends
      have hzero : u ≠ 48 := fun heq => by
        rw [heq] at hdigit
        cases hdigit
      exact (if_neg hzero).trans (if_neg (Bool.eq_false_iff.mp hdigit))
  | cons u rest =>
    rw [List.cons_append, scanInteger, scanInteger, scanDigits_append hends]
    split
    · rfl
    split <;> rfl

theorem scanFraction_append (t : Text) :
    scanFraction (t ++ more) = (scanFraction t).map (extend more) := by
  cases t with
  | nil =>
    cases more with
    | nil => rfl
    | cons u rest =>
      obtain ⟨-, hpoint, -⟩ := hends
      exact if_neg hpoint
  | cons u rest =>
    rw [List.cons_append, scanFraction, scanFraction, scanDigits_append hends]
    split
    · dsimp only
      split <;> rfl
    · rfl

theorem scanExponent_append (t : Text) :
    scanExponent (t ++ more) = (scanExponent t).map (extend more) := by
  cases t with
  | nil =>
    cases more with
    | nil => rfl
    | cons u rest =>
      obtain ⟨-, -, hupper, hlower, -, -⟩ := hends
      exact if_neg (not_or.mpr ⟨hupper, hlower⟩)
  | cons u rest =>
    rw [List.cons_append, scanExponent, scanExponent, scanSign_append hends]
    dsimp only
    rw [scanDigits_append hends]
    split
    · dsimp only
      split <;> rfl
    · rfl

/-- A number is read whole in front of anything that does not go on with it. -/
theorem scanNumber_append {t : Text} (h : IsNumber t) : scanNumber (t ++ more) = some (t, more) := by
  have happend : scanNumber (t ++ more) = (scanNumber t).map (extend more) := by
    unfold scanNumber
    rw [scanMinus_append hends]
    dsimp only
    rw [scanInteger_append hends]
    cases scanInteger (scanMinus t).2 with
    | none => rfl
    | some integer =>
      change (scanFraction (integer.2 ++ more)).bind _ = ((scanFraction integer.2).bind _).map _
      rw [scanFraction_append hends]
      cases scanFraction integer.2 with
      | none => rfl
      | some fraction =>
        change (scanExponent (fraction.2 ++ more)).bind _ = ((scanExponent fraction.2).bind _).map _
        rw [scanExponent_append hends]
        cases scanExponent fraction.2 with
        | none => rfl
        | some exponent => rfl
  rw [happend, h]
  rfl

end Scan

/-! ### What a reader leaves -/

theorem length_skipSpace_le (t : Text) : (skipSpace t).length ≤ t.length := by
  induction t with
  | nil => exact le_refl _
  | cons u rest ih =>
    rw [skipSpace]
    split
    · exact ih.trans (Nat.le_succ _)
    · exact le_refl _

theorem length_of_nextUnit {t rest : Text} {u : ℕ} (h : nextUnit t = some (u, rest)) :
    rest.length < t.length := by
  have hle := length_skipSpace_le t
  unfold nextUnit at h
  cases hskip : skipSpace t with
  | nil =>
    rw [hskip] at h
    cases h
  | cons v left =>
    rw [hskip] at h hle
    obtain ⟨-, rfl⟩ := Prod.mk.inj (Option.some.inj h)
    exact hle

theorem length_of_parseUnits {t s rest : Text} (h : parseUnits t = some (s, rest)) :
    rest.length < t.length := by
  induction hlen : t.length using Nat.strong_induction_on generalizing t s rest with
  | _ n ih =>
    have hmap : ∀ {left : Text} {unit : ℕ}, left.length < n →
        (parseUnits left).map (consUnit unit) = some (s, rest) → rest.length < left.length := by
      intro left unit hlt hread
      obtain ⟨⟨s', rest'⟩, hleft, heq⟩ := Option.map_eq_some_iff.mp hread
      obtain ⟨-, rfl⟩ := Prod.mk.inj heq
      exact ih _ hlt hleft rfl
    rw [parseUnits.eq_def] at h
    cases t with
    | nil => cases h
    | cons u left =>
      dsimp only at h
      rw [List.length_cons] at hlen
      split at h
      · obtain ⟨-, rfl⟩ := Prod.mk.inj (Option.some.inj h)
        omega
      split at h
      · cases left with
        | nil => cases h
        | cons e left =>
          rw [List.length_cons] at hlen
          dsimp only at h
          split at h
          · split at h
            · next a b c d left =>
              simp only [List.length_cons] at hlen
              obtain ⟨unit, -, hread⟩ := Option.bind_eq_some_iff.mp h
              have := hmap (by omega) hread
              omega
            · cases h
          · obtain ⟨unit, -, hread⟩ := Option.bind_eq_some_iff.mp h
            have := hmap (by omega) hread
            omega
      split at h
      · cases h
      · have := hmap (by omega) h
        omega

theorem length_scanDigits_le (t : Text) : (scanDigits t).2.length ≤ t.length := by
  induction t with
  | nil => exact le_refl _
  | cons u rest ih =>
    rw [scanDigits]
    split
    · exact ih.trans (Nat.le_succ _)
    · exact le_refl _

variable {t token rest : Text}

theorem length_of_scanInteger (h : scanInteger t = some (token, rest)) :
    rest.length < t.length := by
  cases t with
  | nil => cases h
  | cons u left =>
    rw [scanInteger] at h
    split at h
    · obtain ⟨-, rfl⟩ := Prod.mk.inj (Option.some.inj h)
      exact Nat.lt_succ_self _
    split at h
    · obtain ⟨-, rfl⟩ := Prod.mk.inj (Option.some.inj h)
      exact Nat.lt_succ_of_le (length_scanDigits_le left)
    · cases h

theorem length_of_scanFraction (h : scanFraction t = some (token, rest)) :
    rest.length ≤ t.length := by
  cases t with
  | nil =>
    obtain ⟨-, rfl⟩ := Prod.mk.inj (Option.some.inj h)
    exact le_refl _
  | cons u left =>
    rw [scanFraction] at h
    split at h
    · split at h
      · cases h
      · obtain ⟨-, rfl⟩ := Prod.mk.inj (Option.some.inj h)
        exact (length_scanDigits_le left).trans (Nat.le_succ _)
    · obtain ⟨-, rfl⟩ := Prod.mk.inj (Option.some.inj h)
      exact le_refl _

theorem length_scanSign_le (t : Text) : (scanSign t).2.length ≤ t.length := by
  cases t with
  | nil => exact le_refl _
  | cons u rest =>
    rw [scanSign]
    split
    · exact Nat.le_succ _
    · exact le_refl _

theorem length_scanMinus_le (t : Text) : (scanMinus t).2.length ≤ t.length := by
  cases t with
  | nil => exact le_refl _
  | cons u rest =>
    rw [scanMinus]
    split
    · exact Nat.le_succ _
    · exact le_refl _

theorem length_of_scanExponent (h : scanExponent t = some (token, rest)) :
    rest.length ≤ t.length := by
  cases t with
  | nil =>
    obtain ⟨-, rfl⟩ := Prod.mk.inj (Option.some.inj h)
    exact le_refl _
  | cons u left =>
    rw [scanExponent] at h
    split at h
    · dsimp only at h
      split at h
      · cases h
      · obtain ⟨-, rfl⟩ := Prod.mk.inj (Option.some.inj h)
        refine (length_scanDigits_le _).trans ?_
        exact (length_scanSign_le left).trans (Nat.le_succ _)
    · obtain ⟨-, rfl⟩ := Prod.mk.inj (Option.some.inj h)
      exact le_refl _

theorem length_of_scanNumber (h : scanNumber t = some (token, rest)) :
    rest.length < t.length := by
  unfold scanNumber at h
  obtain ⟨⟨integer, t₁⟩, hinteger, h⟩ := Option.bind_eq_some_iff.mp h
  obtain ⟨⟨fraction, t₂⟩, hfraction, h⟩ := Option.bind_eq_some_iff.mp h
  obtain ⟨⟨exponent, t₃⟩, hexponent, h⟩ := Option.bind_eq_some_iff.mp h
  obtain ⟨-, rfl⟩ := Prod.mk.inj (Option.some.inj h)
  calc t₃.length ≤ t₂.length := length_of_scanExponent hexponent
    _ ≤ t₁.length := length_of_scanFraction hfraction
    _ < (scanMinus t).2.length := length_of_scanInteger hinteger
    _ ≤ t.length := length_scanMinus_le t

theorem length_of_expect {word t rest : Text} (h : expect word t = some rest) :
    rest.length ≤ t.length := by
  induction word generalizing t with
  | nil =>
    obtain rfl := Option.some.inj h
    exact le_refl _
  | cons w word ih =>
    cases t with
    | nil => cases h
    | cons u left =>
      rw [expect] at h
      split at h
      · exact (ih h).trans (Nat.le_succ _)
      · cases h

/-! ### Fuel -/

variable [JsonNumber N]

/-- A reader takes something off the text. -/
def Shortens {α : Type} (read : Reader α) : Prop :=
  ∀ t a rest, read t = some (a, rest) → rest.length < t.length

theorem shortens_readValue {items : Reader (List (Value N))}
    {fields : Reader (List (Text × Value N))} (hitems : Shortens items) (hfields : Shortens fields) :
    Shortens (readValue items fields) := by
  intro t v rest h
  unfold readValue at h
  obtain ⟨⟨u, left⟩, hnext, h⟩ := Option.bind_eq_some_iff.mp h
  -- the first unit is consumed, and whatever reads the rest leaves no more of it
  have hleft := length_of_nextUnit hnext
  dsimp only at h
  have hentries : ∀ {α : Type} {entries : Reader α} {close : ℕ} {nothing : Value N}
      (value : α → Value N), Shortens entries →
      ((nextUnit left).bind fun next =>
        if next.1 = close then some (nothing, next.2)
        else (entries left).map fun read => (value read.1, read.2)) = some (v, rest) →
      rest.length < t.length := by
    intro α entries close nothing value hentries h
    obtain ⟨⟨w, empty⟩, hclose, h⟩ := Option.bind_eq_some_iff.mp h
    dsimp only at h
    split at h
    · obtain ⟨-, rfl⟩ := Prod.mk.inj (Option.some.inj h)
      exact (length_of_nextUnit hclose).trans hleft
    · obtain ⟨⟨read, rest'⟩, hread, heq⟩ := Option.map_eq_some_iff.mp h
      obtain ⟨-, rfl⟩ := Prod.mk.inj heq
      exact (hentries _ _ _ hread).trans hleft
  split at h
  · obtain ⟨⟨s, rest'⟩, hread, heq⟩ := Option.map_eq_some_iff.mp h
    obtain ⟨-, rfl⟩ := Prod.mk.inj heq
    exact (length_of_parseUnits hread).trans hleft
  split at h
  · exact hentries .arr hitems h
  split at h
  · exact hentries (fun fields => .obj (ownProperties fields)) hfields h
  have hword : ∀ {word : Text} {w : Value N},
      ((expect word left).map fun rest => (w, rest)) = some (v, rest) → rest.length < t.length := by
    intro word w hread
    obtain ⟨rest', hexpect, heq⟩ := Option.map_eq_some_iff.mp hread
    obtain ⟨-, rfl⟩ := Prod.mk.inj heq
    exact (length_of_expect hexpect).trans_lt hleft
  split at h
  · exact hword h
  split at h
  · exact hword h
  split at h
  · exact hword h
  · obtain ⟨⟨token, rest'⟩, hread, heq⟩ := Option.map_eq_some_iff.mp h
    obtain ⟨-, rfl⟩ := Prod.mk.inj heq
    exact (Nat.lt_succ_iff.mp (length_of_scanNumber hread)).trans_lt hleft

omit [JsonNumber N] in
theorem shortens_readEntries {α : Type} {entry : Reader α} {close : ℕ} {entries : Reader (List α)}
    (hentry : Shortens entry) (hentries : Shortens entries) :
    Shortens (readEntries entry close entries) := by
  intro t v rest h
  unfold readEntries at h
  obtain ⟨⟨a, left⟩, hread, h⟩ := Option.bind_eq_some_iff.mp h
  obtain ⟨⟨u, left'⟩, hnext, h⟩ := Option.bind_eq_some_iff.mp h
  have hleft := (length_of_nextUnit hnext).trans (hentry _ _ _ hread)
  dsimp only at h
  split at h
  · obtain ⟨⟨read, rest'⟩, hrest, heq⟩ := Option.map_eq_some_iff.mp h
    obtain ⟨-, rfl⟩ := Prod.mk.inj heq
    exact (hentries _ _ _ hrest).trans hleft
  split at h
  · obtain ⟨-, rfl⟩ := Prod.mk.inj (Option.some.inj h)
    exact hleft
  · cases h

theorem shortens_readKey : Shortens readKey := by
  intro t key rest h
  unfold readKey at h
  obtain ⟨⟨u, left⟩, hnext, h⟩ := Option.bind_eq_some_iff.mp h
  dsimp only at h
  split at h
  · obtain ⟨⟨key', left'⟩, hread, h⟩ := Option.bind_eq_some_iff.mp h
    obtain ⟨⟨colon, left''⟩, hcolon, h⟩ := Option.bind_eq_some_iff.mp h
    dsimp only at h
    split at h
    · obtain ⟨-, rfl⟩ := Prod.mk.inj (Option.some.inj h)
      calc left''.length < left'.length := length_of_nextUnit hcolon
        _ < left.length := length_of_parseUnits hread
        _ < t.length := length_of_nextUnit hnext
    · cases h
  · cases h

omit [JsonNumber N] in
theorem shortens_readField {value : Reader (Value N)} (hvalue : Shortens value) :
    Shortens (readField value) := by
  intro t field rest h
  unfold readField at h
  obtain ⟨⟨key, left⟩, hkey, h⟩ := Option.bind_eq_some_iff.mp h
  obtain ⟨⟨v, left'⟩, hread, heq⟩ := Option.map_eq_some_iff.mp h
  obtain ⟨-, rfl⟩ := Prod.mk.inj heq
  exact (hvalue _ _ _ hread).trans (shortens_readKey _ _ _ hkey)

/-- What is read is shorter than the text, whatever the fuel. -/
theorem shortens_parse (fuel : ℕ) : Shortens (parseValue (N := N) fuel)
    ∧ Shortens (parseItems (N := N) fuel) ∧ Shortens (parseFields (N := N) fuel) := by
  induction fuel with
  | zero =>
    refine ⟨fun _ _ _ h => ?_, fun _ _ _ h => ?_, fun _ _ _ h => ?_⟩ <;> cases h
  | succ fuel ih =>
    obtain ⟨hvalue, hitems, hfields⟩ := ih
    exact ⟨shortens_readValue hitems hfields, shortens_readEntries hvalue hitems,
      shortens_readEntries (shortens_readField hvalue) hfields⟩

/-- On texts up to a length, what the first reader reads the second reads too. -/
def Agrees {α : Type} (bound : ℕ) (first second : Reader α) : Prop :=
  ∀ t, t.length ≤ bound → ∀ read, first t = some read → second t = some read

section Agree

variable {bound : ℕ} {value value' : Reader (Value N)} {items items' : Reader (List (Value N))}
  {fields fields' : Reader (List (Text × Value N))}

/-- A value takes one unit before it reads items or fields. -/
theorem agrees_readValue (hitems : Agrees bound items items') (hfields : Agrees bound fields fields') :
    Agrees (bound + 1) (readValue items fields) (readValue items' fields') := by
  intro t hlen read h
  unfold readValue at h ⊢
  obtain ⟨⟨u, left⟩, hnext, h⟩ := Option.bind_eq_some_iff.mp h
  have hleft : left.length ≤ bound := Nat.lt_succ_iff.mp ((length_of_nextUnit hnext).trans_le hlen)
  rw [hnext, Option.bind_some]
  dsimp only at h ⊢
  split at h
  · next hu => rwa [if_pos hu]
  next hquote =>
  rw [if_neg hquote]
  split at h
  · next hu =>
    rw [if_pos hu]
    obtain ⟨⟨w, empty⟩, hclose, h⟩ := Option.bind_eq_some_iff.mp h
    rw [hclose, Option.bind_some]
    dsimp only at h ⊢
    split at h
    · next hw => rwa [if_pos hw]
    · next hw =>
      obtain ⟨read', hread, heq⟩ := Option.map_eq_some_iff.mp h
      rw [if_neg hw, hitems left hleft read' hread, Option.map_some, heq]
  next hbracket =>
  rw [if_neg hbracket]
  split at h
  · next hu =>
    rw [if_pos hu]
    obtain ⟨⟨w, empty⟩, hclose, h⟩ := Option.bind_eq_some_iff.mp h
    rw [hclose, Option.bind_some]
    dsimp only at h ⊢
    split at h
    · next hw => rwa [if_pos hw]
    · next hw =>
      obtain ⟨read', hread, heq⟩ := Option.map_eq_some_iff.mp h
      rw [if_neg hw, hfields left hleft read' hread, Option.map_some, heq]
  · next hbrace => rwa [if_neg hbrace]

omit [JsonNumber N] in
theorem agrees_readEntries {α : Type} {entry entry' : Reader α} {close : ℕ}
    {entries entries' : Reader (List α)} (hshortens : Shortens entry)
    (hentry : Agrees (bound + 1) entry entry') (hentries : Agrees bound entries entries') :
    Agrees (bound + 1) (readEntries entry close entries) (readEntries entry' close entries') := by
  intro t hlen read h
  unfold readEntries at h ⊢
  obtain ⟨⟨a, left⟩, hread, h⟩ := Option.bind_eq_some_iff.mp h
  obtain ⟨⟨u, left'⟩, hnext, h⟩ := Option.bind_eq_some_iff.mp h
  have hleft : left'.length ≤ bound := by
    have := length_of_nextUnit hnext
    have := hshortens _ _ _ hread
    omega
  rw [hentry t hlen _ hread, Option.bind_some]
  dsimp only
  rw [hnext, Option.bind_some]
  dsimp only at h ⊢
  split at h
  · next hu =>
    obtain ⟨read', hrest, heq⟩ := Option.map_eq_some_iff.mp h
    rw [if_pos hu, hentries left' hleft read' hrest, Option.map_some, heq]
  · next hu => rwa [if_neg hu]

omit [JsonNumber N] in
/-- The value of a field is read from less than the field. -/
theorem agrees_readField (hvalue : Agrees bound value value') :
    Agrees bound (readField value) (readField value') := by
  intro t hlen read h
  unfold readField at h ⊢
  obtain ⟨⟨key, left⟩, hkey, h⟩ := Option.bind_eq_some_iff.mp h
  obtain ⟨read', hread, heq⟩ := Option.map_eq_some_iff.mp h
  have hshorter := shortens_readKey _ _ _ hkey
  rw [hkey, Option.bind_some]
  dsimp only at hread ⊢
  rw [hvalue left (by omega) _ hread]
  exact congrArg some heq

end Agree

/-- **More fuel than twice the length reads nothing more.** A value takes one unit before it reads
what it contains; an item is a value of the same text. -/
theorem agrees_parse (fuel : ℕ) : ∀ bound enough, 2 * bound + 2 ≤ enough →
    Agrees bound (parseValue (N := N) fuel) (parseValue (enough - 1))
      ∧ Agrees bound (parseItems (N := N) fuel) (parseItems enough)
      ∧ Agrees bound (parseFields (N := N) fuel) (parseFields enough) := by
  induction fuel with
  | zero =>
    intro bound enough _
    refine ⟨fun _ _ _ h => ?_, fun _ _ _ h => ?_, fun _ _ _ h => ?_⟩ <;> cases h
  | succ fuel ih =>
    intro bound enough henough
    obtain ⟨enough, rfl⟩ : ∃ n, enough = n + 1 + 1 := ⟨enough - 2, by omega⟩
    cases bound with
    | zero =>
      -- nothing is read from an empty text
      refine ⟨fun t hlen read h => ?_, fun t hlen read h => ?_, fun t hlen read h => ?_⟩
      · have := (shortens_parse (fuel + 1)).1 t read.1 read.2 h
        omega
      · have := (shortens_parse (fuel + 1)).2.1 t read.1 read.2 h
        omega
      · have := (shortens_parse (fuel + 1)).2.2 t read.1 read.2 h
        omega
    | succ bound =>
      obtain ⟨-, hitems, hfields⟩ := ih bound enough (by omega)
      obtain ⟨-, hitems', hfields'⟩ := ih bound (enough + 1) (by omega)
      obtain ⟨hvalue', -, -⟩ := ih (bound + 1) (enough + 2) (by omega)
      have hshortens := (shortens_parse (N := N) fuel).1
      refine ⟨agrees_readValue hitems hfields, ?_, ?_⟩
      · exact agrees_readEntries hshortens hvalue' hitems'
      · exact agrees_readEntries (shortens_readField hshortens) (agrees_readField hvalue') hfields'

variable {v : Value N}

theorem parse_of_parseValue {fuel : ℕ} {t : Text}
    (h : parseValue fuel t = some (v, [])) : parse t = some v := by
  obtain ⟨hvalue, -, -⟩ := agrees_parse (N := N) fuel t.length (2 * t.length + 2) (le_refl _)
  unfold parse
  rw [show 2 * t.length + 1 = 2 * t.length + 2 - 1 from rfl, hvalue t (le_refl _) _ h]
  rfl

/-! ### Values -/

/-- Every number is finite and every object lists its properties in their own order. -/
inductive WellFormed : Value N → Prop where
  | null : WellFormed .null
  | bool (b : Bool) : WellFormed (.bool b)
  | num {x : N} (h : isFinite x = true) : WellFormed (.num x)
  | str (s : Text) : WellFormed (.str s)
  | arr {items : List (Value N)} (h : ∀ v ∈ items, WellFormed v) : WellFormed (.arr items)
  | obj {fields : List (Text × Value N)} (h : ∀ field ∈ fields, WellFormed field.2)
      (hown : ownProperties fields = fields) : WellFormed (.obj fields)

/-- Enough fuel reads the text of a value back, in front of what does not go on with a number. -/
def ReadsBack (v : Value N) : Prop :=
  ∃ enough, ∀ fuel, enough ≤ fuel → ∀ rest, Ends rest →
    parseValue fuel (stringify v ++ rest) = some (v, rest)

theorem nextUnit_cons {u : ℕ} (h : isSpace u = false) (t : Text) : nextUnit (u :: t) = some (u, t) := by
  unfold nextUnit
  rw [skipSpace, if_neg (Bool.eq_false_iff.mp h)]

theorem expect_append (word t : Text) : expect word (word ++ t) = some t := by
  induction word with
  | nil => rfl
  | cons w word ih => exact (if_pos rfl).trans ih

/-- A number starts with a digit or a minus sign. -/
theorem IsNumber.head {t : Text} (h : IsNumber t) :
    ∃ u rest, t = u :: rest ∧ (u = 45 ∨ isDigit u = true) := by
  unfold IsNumber scanNumber at h
  obtain ⟨⟨integer, t₁⟩, hinteger, -⟩ := Option.bind_eq_some_iff.mp h
  cases t with
  | nil => cases hinteger
  | cons u rest =>
    refine ⟨u, rest, rfl, or_iff_not_imp_left.mpr fun hminus => ?_⟩
    have hscan : scanMinus (u :: rest) = ([], u :: rest) := if_neg hminus
    change scanInteger (scanMinus (u :: rest)).2 = _ at hinteger
    rw [hscan, scanInteger] at hinteger
    split at hinteger
    · next hzero => rw [hzero]; rfl
    split at hinteger
    · next hdigit => exact hdigit
    · cases hinteger

variable [LawfulJsonNumber N]

/-- The text of a value starts with a unit that is neither space nor a closing bracket. -/
theorem WellFormed.head (h : WellFormed v) :
    ∃ u rest, stringify v = u :: rest ∧ isSpace u = false ∧ u ≠ 93 ∧ u ≠ 125 := by
  cases h with
  | null => exact ⟨110, lit "ull", rfl, rfl, by decide, by decide⟩
  | bool b =>
    cases b with
    | true => exact ⟨116, lit "rue", rfl, rfl, by decide, by decide⟩
    | false => exact ⟨102, lit "alse", rfl, rfl, by decide, by decide⟩
  | @num x hfinite =>
    obtain ⟨u, rest, htext, hhead⟩ := (LawfulJsonNumber.isNumber_text x hfinite).head
    refine ⟨u, rest, ?_, ?_⟩
    · rw [stringify, if_pos hfinite, htext]
    · unfold isDigit at hhead
      unfold isSpace
      simp only [decide_eq_true_eq, decide_eq_false_iff_not] at hhead ⊢
      omega
  | str s => exact ⟨34, _, rfl, rfl, by decide, by decide⟩
  | arr => exact ⟨91, _, rfl, rfl, by decide, by decide⟩
  | obj => exact ⟨123, _, rfl, rfl, by decide, by decide⟩

theorem readsBack_num {x : N} (hfinite : isFinite x = true) : ReadsBack (.num x) := by
  refine ⟨1, fun fuel hfuel rest hends => ?_⟩
  obtain ⟨fuel, rfl⟩ : ∃ n, fuel = n + 1 := ⟨fuel - 1, by omega⟩
  have hnumber := LawfulJsonNumber.isNumber_text x hfinite
  obtain ⟨u, units, htext, hhead⟩ := hnumber.head
  have hscan := scanNumber_append hends hnumber
  have hspace : isSpace u = false := by
    unfold isDigit at hhead
    unfold isSpace
    simp only [decide_eq_true_eq, decide_eq_false_iff_not] at hhead ⊢
    omega
  have hplain : u ≠ 34 ∧ u ≠ 91 ∧ u ≠ 123 ∧ u ≠ 110 ∧ u ≠ 116 ∧ u ≠ 102 := by
    unfold isDigit at hhead
    rw [decide_eq_true_eq] at hhead
    omega
  obtain ⟨h₁, h₂, h₃, h₄, h₅, h₆⟩ := hplain
  rw [stringify, if_pos hfinite]
  rw [htext, List.cons_append] at hscan ⊢
  change readValue _ _ _ = _
  unfold readValue
  rw [nextUnit_cons hspace, Option.bind_some]
  dsimp only
  rw [if_neg h₁, if_neg h₂, if_neg h₃, if_neg h₄, if_neg h₅, if_neg h₆, hscan, Option.map_some,
    ← htext, LawfulJsonNumber.ofToken_text x hfinite]

omit [LawfulJsonNumber N] in
theorem readsBack_str (s : Text) : ReadsBack (.str s : Value N) := by
  refine ⟨1, fun fuel hfuel rest _ => ?_⟩
  obtain ⟨fuel, rfl⟩ : ∃ n, fuel = n + 1 := ⟨fuel - 1, by omega⟩
  rw [stringify, quote, List.cons_append, List.append_assoc, List.cons_append, List.nil_append]
  change readValue _ _ _ = _
  unfold readValue
  rw [nextUnit_cons rfl, Option.bind_some]
  dsimp only
  rw [if_pos rfl, parseUnits_quoteUnits, Option.map_some]

omit [LawfulJsonNumber N] in
/-- A word is read back: its first unit chooses it and the others follow. -/
theorem readsBack_word {u : ℕ} {word : Text} (hstring : stringify v = u :: word)
    (hread : ∀ fuel t, parseValue (fuel + 1) (u :: t) = (expect word t).map fun rest => (v, rest)) :
    ReadsBack v := by
  refine ⟨1, fun fuel hfuel rest _ => ?_⟩
  obtain ⟨fuel, rfl⟩ : ∃ n, fuel = n + 1 := ⟨fuel - 1, by omega⟩
  rw [hstring, List.cons_append, hread, expect_append, Option.map_some]

/-- Texts with commas between them. -/
def joined : List Text → Text
  | [] => []
  | [t] => t
  | t :: u :: rest => t ++ 44 :: joined (u :: rest)

omit [LawfulJsonNumber N] in
theorem stringifyItems_eq (items : List (Value N)) :
    stringifyItems items = joined (items.map stringify) := by
  induction items with
  | nil => rfl
  | cons v items ih =>
    cases items with
    | nil => rfl
    | cons w items =>
      rw [stringifyItems, ih]
      rfl

/-- The text of a field. -/
def fieldText (field : Text × Value N) : Text := quote field.1 ++ 58 :: stringify field.2

omit [LawfulJsonNumber N] in
theorem stringifyFields_eq (fields : List (Text × Value N)) :
    stringifyFields fields = joined (fields.map fieldText) := by
  induction fields with
  | nil => rfl
  | cons field fields ih =>
    obtain ⟨key, v⟩ := field
    cases fields with
    | nil => rfl
    | cons next fields =>
      change quote key ++ 58 :: (stringify v ++ 44 :: stringifyFields (next :: fields))
        = (quote key ++ 58 :: stringify v) ++ 44 :: joined ((next :: fields).map fieldText)
      rw [ih, List.append_assoc, List.cons_append]

omit [JsonNumber N] [LawfulJsonNumber N] in
theorem readKey_quote (key t : Text) : readKey (quote key ++ 58 :: t) = some (key, t) := by
  unfold readKey
  rw [quote, List.cons_append, List.append_assoc, List.cons_append, List.nil_append,
    nextUnit_cons rfl, Option.bind_some]
  dsimp only
  rw [if_pos rfl, parseUnits_quoteUnits, Option.bind_some]
  dsimp only
  rw [nextUnit_cons rfl, Option.bind_some]
  rfl

section Entries

variable {α : Type} {text : α → Text} (entry : ℕ → Reader α) (close : ℕ)
  (entries : ℕ → Reader (List α)) {l : List α}

omit [JsonNumber N] [LawfulJsonNumber N] in
/-- **Entries are read back**, each in front of a comma or of what closes them. -/
theorem readEntries_joined (hends : ∀ rest, Ends (close :: rest)) (hspace : isSpace close = false)
    (hcomma : close ≠ 44) (hstep : ∀ fuel, entries (fuel + 1) = readEntries (entry fuel) close
      (entries fuel)) (hne : l ≠ [])
    (h : ∀ a ∈ l, ∃ enough, ∀ fuel, enough ≤ fuel → ∀ rest, Ends rest →
      entry fuel (text a ++ rest) = some (a, rest)) :
    ∃ enough, ∀ fuel, enough ≤ fuel → ∀ rest,
      entries fuel (joined (l.map text) ++ close :: rest) = some (l, rest) := by
  induction l with
  | nil => exact absurd rfl hne
  | cons a l ih =>
    obtain ⟨enough, ha⟩ := h a List.mem_cons_self
    cases l with
    | nil =>
      refine ⟨enough + 1, fun fuel hfuel rest => ?_⟩
      obtain ⟨fuel, rfl⟩ : ∃ n, fuel = n + 1 := ⟨fuel - 1, by omega⟩
      rw [hstep, readEntries, List.map_cons, List.map_nil, joined,
        ha fuel (by omega) (close :: rest) (hends rest), Option.bind_some]
      dsimp only
      rw [nextUnit_cons hspace, Option.bind_some]
      dsimp only
      rw [if_neg hcomma, if_pos rfl]
    | cons b l =>
      obtain ⟨enough', hl⟩ := ih (List.cons_ne_nil b l)
        fun a' ha' => h a' (List.mem_cons_of_mem _ ha')
      refine ⟨max enough enough' + 1, fun fuel hfuel rest => ?_⟩
      obtain ⟨fuel, rfl⟩ : ∃ n, fuel = n + 1 := ⟨fuel - 1, by omega⟩
      rw [hstep, readEntries, List.map_cons, List.map_cons, joined, List.append_assoc,
        List.cons_append, ha fuel (by omega) (44 :: _) ⟨rfl, by decide⟩, Option.bind_some]
      dsimp only
      rw [nextUnit_cons rfl, Option.bind_some]
      dsimp only
      rw [if_pos rfl, ← List.map_cons, hl fuel (by omega), Option.map_some]

omit [LawfulJsonNumber N] in
/-- **A value of entries is read back** from between what opens and what closes it. -/
theorem readsBack_entries (build : List α → Value N) (text : α → Text) (start : ℕ) {v : Value N}
    (hstring : stringify v = start :: (joined (l.map text) ++ [close])) (hbuild : build l = v)
    (hstep : ∀ fuel t, parseValue (fuel + 1) (start :: t) = (nextUnit t).bind fun read =>
      if read.1 = close then some (build [], read.2)
      else (entries fuel t).map fun read => (build read.1, read.2))
    (hspace : isSpace close = false)
    (hhead : ∀ a ∈ l, ∃ u rest, text a = u :: rest ∧ isSpace u = false ∧ u ≠ close)
    (hread : l ≠ [] → ∃ enough, ∀ fuel, enough ≤ fuel → ∀ rest,
      entries fuel (joined (l.map text) ++ close :: rest) = some (l, rest)) : ReadsBack v := by
  cases l with
  | nil =>
    refine ⟨1, fun fuel hfuel rest _ => ?_⟩
    obtain ⟨fuel, rfl⟩ : ∃ n, fuel = n + 1 := ⟨fuel - 1, by omega⟩
    rw [hstring, ← hbuild]
    change parseValue (fuel + 1) (start :: close :: rest) = _
    rw [hstep, nextUnit_cons hspace, Option.bind_some]
    exact if_pos rfl
  | cons a l =>
    obtain ⟨enough, hread⟩ := hread (List.cons_ne_nil a l)
    refine ⟨enough + 1, fun fuel hfuel rest _ => ?_⟩
    obtain ⟨fuel, rfl⟩ : ∃ n, fuel = n + 1 := ⟨fuel - 1, by omega⟩
    obtain ⟨u, units, hunits, huspace, hclose⟩ := hhead a List.mem_cons_self
    obtain ⟨more, hmore⟩ : ∃ more, joined ((a :: l).map text) ++ close :: rest = u :: more := by
      cases l with
      | nil => exact ⟨_, by rw [List.map_cons, List.map_nil, joined, hunits, List.cons_append]⟩
      | cons b l =>
        exact ⟨_, by rw [List.map_cons, List.map_cons, joined, hunits, List.cons_append,
          List.cons_append]⟩
    rw [hstring, List.cons_append, List.append_assoc, List.cons_append, List.nil_append, hstep,
      hread fuel (by omega), hmore, nextUnit_cons huspace, Option.bind_some, if_neg hclose,
      Option.map_some, hbuild]

end Entries

theorem readsBack_arr {items : List (Value N)} (hwell : ∀ v ∈ items, WellFormed v)
    (h : ∀ v ∈ items, ReadsBack v) : ReadsBack (.arr items) := by
  refine readsBack_entries 93 parseItems Value.arr stringify 91 ?_ rfl (fun fuel t => ?_) rfl
    (fun v hv => ?_) fun hne => readEntries_joined parseValue 93 parseItems
      (fun _ => ⟨rfl, by decide⟩) rfl (by decide) (fun _ => rfl) hne h
  · rw [stringify, stringifyItems_eq]
  · change readValue _ _ _ = _
    unfold readValue
    rw [nextUnit_cons rfl]
    rfl
  · obtain ⟨u, rest, htext, hspace, hclose, -⟩ := (hwell v hv).head
    exact ⟨u, rest, htext, hspace, hclose⟩

omit [LawfulJsonNumber N] in
theorem readsBack_obj {fields : List (Text × Value N)} (hown : ownProperties fields = fields)
    (h : ∀ field ∈ fields, ReadsBack field.2) : ReadsBack (.obj fields) := by
  refine readsBack_entries 125 parseFields (fun fields => .obj (ownProperties fields)) fieldText 123
    ?_ (congrArg Value.obj hown) (fun fuel t => ?_) rfl (fun field _ => ⟨34, _, rfl, rfl, by decide⟩)
    fun hne => readEntries_joined (fun fuel => readField (parseValue fuel)) 125 parseFields
      (fun _ => ⟨rfl, by decide⟩) rfl (by decide) (fun _ => rfl) hne fun field hfield => ?_
  · rw [stringify, stringifyFields_eq]
  · change readValue _ _ _ = _
    unfold readValue
    rw [nextUnit_cons rfl]
    rfl
  · obtain ⟨enough, hv⟩ := h field hfield
    refine ⟨enough, fun fuel hfuel rest hends => ?_⟩
    rw [readField, fieldText, List.append_assoc, List.cons_append, readKey_quote, Option.bind_some]
    dsimp only
    rw [hv fuel hfuel rest hends, Option.map_some]

theorem WellFormed.readsBack (h : WellFormed v) : ReadsBack v := by
  induction h with
  | null => exact readsBack_word rfl fun _ _ => rfl
  | bool b =>
    cases b with
    | true => exact readsBack_word rfl fun _ _ => rfl
    | false => exact readsBack_word rfl fun _ _ => rfl
  | num hfinite => exact readsBack_num hfinite
  | str s => exact readsBack_str s
  | arr hwell ih => exact readsBack_arr hwell ih
  | obj _ hown ih => exact readsBack_obj hown ih

/-- **What is written is read back.** -/
theorem parse_stringify (h : WellFormed v) : parse (stringify v) = some v := by
  obtain ⟨enough, hread⟩ := h.readsBack
  have hwhole := hread enough (le_refl _) [] trivial
  rw [List.append_nil] at hwhole
  exact parse_of_parseValue hwhole

/-- Values are told apart by their texts. -/
theorem stringify_inj {v w : Value N} (hv : WellFormed v) (hw : WellFormed w) :
    stringify v = stringify w ↔ v = w := by
  refine ⟨fun h => ?_, congrArg stringify⟩
  have hread := parse_stringify hv
  rw [h, parse_stringify hw] at hread
  exact (Option.some.inj hread).symm

end JsonText
