import FactorSage.Strategy.OperandColumns

/-!
# Operand keys are collision-free

Every key starts with the text of its family, and no family's text starts another's, so a key tells
its family (`after_pre`). What follows is the family's own encoding: the id of a catalog, a decimal
number, the signature of a disclosure metric, or another operand's key.

A disclosure metric is keyed by its canonical form. `StockOperand.Stored` is the form a normalized
document holds it in; two shapes of one metric share a key on purpose.
-/

namespace FactorSage

open JsonText JsonInteger
open MetricSignature (Vocabulary after after_append fieldSeparator valueOf)

/-! ### Families -/

/-- The families of keys. -/
inductive OperandFamily where
  | price | series | relativeVolume | fundamental | valuation | marginOfSafety | alternativeData | etf
  | sector
  deriving DecidableEq

/-- What every key of a family starts with. -/
def OperandFamily.pre : OperandFamily → Text
  | .price => lit priceOperand
  | .series => SERIES_PREFIX
  | .relativeVolume => RELATIVE_VOLUME_PREFIX
  | .fundamental => FUNDAMENTAL_PREFIX
  | .valuation => VALUATION_PREFIX
  | .marginOfSafety => lit "margin-of-safety:"
  | .alternativeData => ALTERNATIVE_DATA_PREFIX
  | .etf => ETF_PREFIX
  | .sector => SECTOR_PREFIX

theorem isPrefixOf_pre_iff (f g : OperandFamily) : f.pre.isPrefixOf g.pre = true ↔ f = g := by
  cases f <;> cases g <;> decide

/-- **A key tells its family.** -/
theorem after_pre (f g : OperandFamily) (x : Text) :
    after f.pre (g.pre ++ x) = if f = g then some x else none := by
  by_cases hfg : f = g
  · rw [if_pos hfg, hfg, after_append]
  · rw [if_neg hfg]
    unfold after
    refine if_neg fun hpre => ?_
    -- two prefixes of one text, the shorter a prefix of the longer
    rcases List.prefix_or_prefix_of_prefix (List.isPrefixOf_iff_prefix.mp hpre)
      (List.prefix_append g.pre x) with h | h
    · exact hfg ((isPrefixOf_pre_iff f g).mp (List.isPrefixOf_iff_prefix.mpr h))
    · exact hfg ((isPrefixOf_pre_iff g f).mp (List.isPrefixOf_iff_prefix.mpr h)).symm

def StockOperand.family : StockOperand → OperandFamily
  | .price => .price
  | .series _ => .series
  | .relativeVolume _ _ => .relativeVolume
  | .fundamental _ => .fundamental
  | .valuation _ => .valuation
  | .marginOfSafety _ => .marginOfSafety
  | .insiderActivity _ | .congressActivity _ => .alternativeData

def Operand.family : Operand → OperandFamily
  | .stock base => base.family
  | .etf _ _ => .etf
  | .sector _ => .sector

/-- What follows the family's text. -/
def StockOperand.payload : StockOperand → Text
  | .price => []
  | .series seriesId => lit seriesId.id
  | .relativeVolume period _ => naturalText period
  | .fundamental metricId => lit metricId.id
  | .valuation ratioId => lit ratioId.id
  | .marginOfSafety sourceId => lit sourceId.id
  | .insiderActivity metric => lit metric.signature
  | .congressActivity metric => lit metric.signature

/-- What follows the family's text. -/
def Operand.payload : Operand → Text
  | .stock base => base.payload
  | .etf code base => lit code.code ++ 58 :: lit base.key
  | .sector base => lit base.key

theorem StockOperand.lit_key (base : StockOperand) :
    lit base.key = base.family.pre ++ base.payload := by
  cases base with
  | price => exact (List.append_nil _).symm
  | relativeVolume period supported =>
    change lit ("relative-volume:" ++ toString period) = _
    rw [lit_append, lit_toString]
    rfl
  | series seriesId => exact lit_append _ _
  | fundamental metricId => exact lit_append _ _
  | valuation ratioId => exact lit_append _ _
  | marginOfSafety sourceId => exact lit_append _ _
  | insiderActivity metric => exact lit_append _ _
  | congressActivity metric => exact lit_append _ _

theorem lit_etfOperand (code : StrategyEtfSourceCode) (base : OperandKey) :
    lit (etfOperand code base) = ETF_PREFIX ++ (lit code.code ++ 58 :: lit base) := by
  unfold etfOperand
  rw [lit_append, lit_append, lit_append, List.append_assoc, List.append_assoc]
  rfl

theorem lit_sectorOperand (base : OperandKey) : lit (sectorOperand base) = SECTOR_PREFIX ++ lit base :=
  lit_append _ _

theorem Operand.lit_key (operand : Operand) :
    lit operand.key = operand.family.pre ++ operand.payload := by
  cases operand with
  | stock base => exact base.lit_key
  | sector base => exact lit_sectorOperand base.key
  | etf code base => exact lit_etfOperand code base.key

/-- What a family's text leaves of a key. -/
theorem Operand.after_key (f : OperandFamily) (operand : Operand) :
    after f.pre (lit operand.key) = if f = operand.family then some operand.payload else none := by
  rw [operand.lit_key, after_pre]

/-- Two keys are equal when the family and what follows it are. -/
theorem Operand.key_eq_iff_payload (a b : Operand) :
    a.key = b.key ↔ a.family = b.family ∧ a.payload = b.payload := by
  rw [← lit_injective.eq_iff]
  constructor
  · intro h
    have hafter := a.after_key b.family
    rw [h, b.after_key, if_pos rfl] at hafter
    by_cases hfamily : b.family = a.family
    · rw [if_pos hfamily] at hafter
      exact ⟨hfamily.symm, (Option.some.inj hafter).symm⟩
    · rw [if_neg hfamily] at hafter
      exact nomatch hafter
  · rintro ⟨hfamily, hpayload⟩
    rw [a.lit_key, b.lit_key, hfamily, hpayload]

/-! ### Catalogs -/

def selectableSeriesIds : List SelectableSeriesId :=
  [.sma20D, .sma50D, .sma100D, .sma200D, .ema20D, .ema50D, .ema200D, .sma20W, .sma50W, .sma100W,
    .sma200W, .ema20W, .ema50W, .ema200W, .rsi7D, .rsi14D, .rsi21D, .balanced, .conservative,
    .dividend, .dcfFcff, .residualIncome, .ddm, .graham]

theorem vocabulary_series : Vocabulary selectableSeriesIds fun seriesId => lit seriesId.id where
  complete a := by cases a <;> decide
  nodup := by decide
  injective := by decide
  plain := by decide
  notAbsent := by decide

theorem vocabulary_fundamentals : Vocabulary FUNDAMENTAL_METRICS fun metricId => lit metricId.id where
  complete a := by cases a <;> decide
  nodup := by decide
  injective := by decide
  plain := by decide
  notAbsent := by decide

theorem vocabulary_ratios : Vocabulary valuationRatioIds fun ratioId => lit ratioId.id where
  complete a := by cases a <;> decide
  nodup := by decide
  injective := by decide
  plain := by decide
  notAbsent := by decide

theorem vocabulary_etfCodes : Vocabulary etfSourceCodes fun code => lit code.code where
  complete a := by cases a <;> decide
  nodup := by decide
  injective := by decide
  plain := by decide
  notAbsent := by decide

/-! ### Distinct operands -/

/-- The disclosure metric of an operand, by its code units. -/
def StockOperand.alternativeData? : StockOperand → Option MetricSignature.AlternativeDataMetric
  | .insiderActivity metric => some metric.units
  | .congressActivity metric => some metric.units
  | _ => none

/-- A disclosure metric is held as normalization builds it. -/
def StockOperand.Stored (base : StockOperand) : Prop :=
  ∀ metric ∈ base.alternativeData?, ∃ read, MetricSignature.AdmittedMetric read
    ∧ MetricSignature.buildAlternativeDataMetric read = metric

/-- The operand of one instrument under an operand. -/
def Operand.base : Operand → StockOperand
  | .stock base | .etf _ base | .sector base => base

/-- An operand as a normalized definition holds it. -/
def Operand.Stored (operand : Operand) : Prop := operand.base.Stored

/-- A metric's signature is that of its code units. -/
theorem StockOperand.signature_of_alternativeData? {base : StockOperand}
    {metric : MetricSignature.AlternativeDataMetric} (h : base.alternativeData? = some metric) :
    MetricSignature.alternativeDataMetricSignature metric = .ok base.payload := by
  cases base with
  | insiderActivity activity =>
    rw [← Option.some.inj h]
    exact activity.signature_units
  | congressActivity activity =>
    rw [← Option.some.inj h]
    exact activity.signature_units
  | _ => exact nomatch h

/-- Stored metrics with one signature are one metric. -/
theorem StockOperand.alternativeData_of_payload {a b : StockOperand} (ha : a.Stored) (hb : b.Stored)
    {m n : MetricSignature.AlternativeDataMetric} (hm : a.alternativeData? = some m)
    (hn : b.alternativeData? = some n) (h : a.payload = b.payload) : m = n := by
  obtain ⟨m', hadmitted, rfl⟩ := ha m hm
  obtain ⟨n', hadmitted', rfl⟩ := hb n hn
  refine MetricSignature.build_eq_of_signature_eq hadmitted hadmitted' ?_
  rw [← MetricSignature.signature_build hadmitted, ← MetricSignature.signature_build hadmitted',
    signature_of_alternativeData? hm, signature_of_alternativeData? hn, h]

/-- Stored columns of one instrument are told apart by their keys. -/
theorem StockOperand.eq_of_payload {a b : StockOperand} (ha : a.Stored) (hb : b.Stored)
    (hfamily : a.family = b.family) (h : a.payload = b.payload) : a = b := by
  cases a with
  | price => cases b with
    | price => rfl
    | _ => exact nomatch hfamily
  | series seriesId => cases b with
    | series other => rw [vocabulary_series.text_inj.mp h]
    | _ => exact nomatch hfamily
  | relativeVolume period supported => cases b with
    | relativeVolume other supported' =>
      obtain rfl := MetricSignature.naturalText_injective h
      rfl
    | _ => exact nomatch hfamily
  | fundamental metricId => cases b with
    | fundamental other => rw [vocabulary_fundamentals.text_inj.mp h]
    | _ => exact nomatch hfamily
  | valuation ratioId => cases b with
    | valuation other => rw [vocabulary_ratios.text_inj.mp h]
    | _ => exact nomatch hfamily
  | marginOfSafety sourceId => cases b with
    | marginOfSafety other => rw [vocabulary_series.text_inj.mp h]
    | _ => exact nomatch hfamily
  | insiderActivity metric =>
    cases b with
    | insiderActivity other =>
      rw [InsiderActivityMetric.units_injective (alternativeData_of_payload ha hb rfl rfl h)]
    | congressActivity other => exact nomatch alternativeData_of_payload ha hb rfl rfl h
    | _ => exact nomatch hfamily
  | congressActivity metric =>
    cases b with
    | congressActivity other =>
      rw [CongressActivityMetric.units_injective (alternativeData_of_payload ha hb rfl rfl h)]
    | insiderActivity other => exact nomatch alternativeData_of_payload ha hb rfl rfl h
    | _ => exact nomatch hfamily

/-- No code of the catalog holds the separator, so a code ends at the first one. -/
theorem separator_notMem_code (code : StrategyEtfSourceCode) : 58 ∉ lit code.code := by
  cases code <;> decide

/-- A key of an ETF is its code and the key behind it. -/
theorem eq_of_etf_payload {a b : StrategyEtfSourceCode} {x y : Text}
    (h : lit a.code ++ 58 :: x = lit b.code ++ 58 :: y) : a = b ∧ x = y := by
  have hcodes := congrArg (List.takeWhile (· ≠ 58)) h
  have hfree : ∀ (code : StrategyEtfSourceCode) (rest : Text),
      (lit code.code ++ 58 :: rest).takeWhile (· ≠ 58) = lit code.code := by
    intro code rest
    rw [List.takeWhile_append_of_pos]
    · simp
    · intro unit hunit
      have hne : unit ≠ 58 := fun heq => separator_notMem_code code (heq ▸ hunit)
      simpa using hne
  rw [hfree, hfree] at hcodes
  obtain rfl := vocabulary_etfCodes.text_inj.mp hcodes
  exact ⟨rfl, (List.cons.inj (List.append_cancel_left h)).2⟩

theorem StockOperand.eq_of_key {a b : StockOperand} (ha : a.Stored) (hb : b.Stored)
    (h : a.key = b.key) : a = b := by
  have hparts := (Operand.key_eq_iff_payload (.stock a) (.stock b)).mp h
  exact eq_of_payload ha hb hparts.1 hparts.2

/-- **Stored operands have one key exactly when they are one operand.** -/
theorem Operand.key_eq_iff {a b : Operand} (ha : a.Stored) (hb : b.Stored) :
    a.key = b.key ↔ a = b := by
  refine ⟨fun h => ?_, congrArg Operand.key⟩
  obtain ⟨hfamily, hpayload⟩ := (key_eq_iff_payload a b).mp h
  have hstock : ∀ base : StockOperand, base.family ≠ .etf ∧ base.family ≠ .sector := by
    intro base
    cases base <;> exact ⟨nofun, nofun⟩
  cases a with
  | stock base => cases b with
    | stock other => exact congrArg Operand.stock (StockOperand.eq_of_payload ha hb hfamily hpayload)
    | etf code other => exact absurd hfamily (hstock base).1
    | sector other => exact absurd hfamily (hstock base).2
  | etf code base => cases b with
    | stock other => exact absurd hfamily.symm (hstock other).1
    | etf code' other =>
      obtain ⟨rfl, hkey⟩ := eq_of_etf_payload hpayload
      exact congrArg (Operand.etf code) (StockOperand.eq_of_key ha hb (lit_injective hkey))
    | sector other => exact nomatch hfamily
  | sector base => cases b with
    | stock other => exact absurd hfamily.symm (hstock other).2
    | etf code other => exact nomatch hfamily
    | sector other =>
      exact congrArg Operand.sector (StockOperand.eq_of_key ha hb (lit_injective hpayload))

/-! ### Decoding -/

/-- The ids a scope names. -/
def ActorScope.ids : ActorScope → List String
  | .any => []
  | .actors actorIds _ => actorIds
  | .actor actorId => [actorId]
  | .group groupId => [groupId]

/-- The ids a column of one instrument names. -/
def StockOperand.scopeIds : StockOperand → List String
  | .congressActivity metric => metric.scope.ids
  | _ => []

def Operand.seriesId? : Operand → Option SelectableSeriesId
  | .stock (.series seriesId) => some seriesId
  | _ => none

def Operand.relativeVolume? : Operand → Option ℕ
  | .stock (.relativeVolume period _) => some period
  | _ => none

def Operand.fundamental? : Operand → Option FundamentalMetricId
  | .stock (.fundamental metricId) => some metricId
  | _ => none

def Operand.valuation? : Operand → Option ValuationRatioId
  | .stock (.valuation ratioId) => some ratioId
  | _ => none

def Operand.etf? : Operand → Option (StrategyEtfSourceCode × StockOperand)
  | .etf code base => some (code, base)
  | _ => none

def Operand.sector? : Operand → Option StockOperand
  | .sector base => some base
  | _ => none

def Operand.alternativeData? : Operand → Option MetricSignature.AlternativeDataMetric
  | .stock base => base.alternativeData?
  | _ => none

/-- What each family's decoder gives for the key of an operand: what the operand is in that family,
and nothing when it is of another one. -/
structure Operand.Decodes (operand : Operand) : Prop where
  series : operandSeriesId (lit operand.key) = operand.seriesId?.map fun seriesId => lit seriesId.id
  relativeVolume : operandRelativeVolumePeriod (lit operand.key) = operand.relativeVolume?
  fundamental : operandFundamentalMetricId (lit operand.key) = operand.fundamental?
  valuation : operandValuationRatioId (lit operand.key) = operand.valuation?
  etf : decodeEtfOperand (lit operand.key)
    = operand.etf?.map fun decoded => (decoded.1, lit decoded.2.key)
  sector : decodeSectorOperand (lit operand.key) = operand.sector?.map fun base => lit base.key
  alternativeData : operandAlternativeDataMetric (lit operand.key) = operand.alternativeData?

theorem OperandFamily.pre_ne_nil (f : OperandFamily) : f.pre ≠ [] := by
  cases f <;> decide

theorem StockOperand.key_ne_nil (base : StockOperand) : lit base.key ≠ [] := by
  rw [base.lit_key]
  exact fun h => base.family.pre_ne_nil (List.append_eq_nil_iff.mp h).1

/-- A decoder of a family gives nothing for the keys of the others. -/
theorem Operand.bind_after_key {α : Type} (operand : Operand) (f : OperandFamily)
    (read : Text → Option α) :
    (after f.pre (lit operand.key)).bind read
      = if f = operand.family then read operand.payload else none := by
  rw [operand.after_key]
  split <;> rfl

theorem find?_relativeVolume {period : ℕ} (h : period ∈ RELATIVE_VOLUME_PERIODS) :
    (RELATIVE_VOLUME_PERIODS.find? fun (p : ℕ) =>
      NumericLiteral.numberOf (naturalText period) = some (p : ℚ)) = some period := by
  have hsmall : ∀ p ∈ RELATIVE_VOLUME_PERIODS, p < 2 ^ 53 := by decide
  rw [NumericLiteral.numberOf_naturalText (hsmall period h)]
  cases hfind : RELATIVE_VOLUME_PERIODS.find? fun (p : ℕ) => some (period : ℚ) = some (p : ℚ) with
  | none => exact absurd (List.find?_eq_none.mp hfind period h) (by simp)
  | some p =>
    have hp := List.find?_some hfind
    rw [decide_eq_true_eq, Option.some.injEq, Nat.cast_inj] at hp
    rw [hp]

/-- What is read after `etf:`. -/
theorem readEtf_payload (code : StrategyEtfSourceCode) {x : Text} (hx : x ≠ []) :
    decodeEtfOperand (ETF_PREFIX ++ (lit code.code ++ 58 :: x)) = some (code, x) := by
  have hne : lit code.code ≠ [] := by cases code <;> decide
  have hpos : 0 < (lit code.code).length := List.length_pos_iff.mpr hne
  have hindex : (lit code.code ++ 58 :: x).idxOf 58 = (lit code.code).length := by
    rw [List.idxOf_append_of_notMem (separator_notMem_code code), List.idxOf_cons_self, Nat.add_zero]
  have hinside : ¬((lit code.code).length = 0
      ∨ (lit code.code).length = (lit code.code ++ 58 :: x).length) := by
    rw [List.length_append, List.length_cons]
    omega
  have hdrop : (lit code.code ++ 58 :: x).drop ((lit code.code).length + 1) = x := by
    rw [← List.drop_drop, List.drop_left]
    rfl
  unfold decodeEtfOperand
  rw [after_append, Option.bind_some]
  dsimp only
  rw [hindex, if_neg hinside, List.take_left, vocabulary_etfCodes.valueOf_text, Option.bind_some, hdrop,
    if_neg hx]

/-- The stored metric is read back from its key when no id it names holds a `|`. -/
theorem StockOperand.parse_payload {base : StockOperand} (hstored : base.Stored)
    (hids : ∀ id ∈ base.scopeIds, fieldSeparator ∉ lit id)
    {metric : MetricSignature.AlternativeDataMetric} (h : base.alternativeData? = some metric) :
    MetricSignature.parseAlternativeDataMetricSignature base.payload = some metric := by
  obtain ⟨read, hadmitted, hbuild⟩ := hstored metric h
  have hsignature : MetricSignature.alternativeDataMetricSignature read = .ok base.payload := by
    rw [← MetricSignature.signature_build hadmitted, hbuild]
    exact signature_of_alternativeData? h
  -- the ids of what was normalized are those of the stored metric, or free of separators
  have hlegacy : ∀ id ∈ MetricSignature.legacyIds read, fieldSeparator ∉ id := by
    cases base with
    | congressActivity activity =>
      cases read with
      | insiderActivity => exact nofun
      | congressActivity measure lookback scope chamber owners =>
        rw [← Option.some.inj h] at hbuild
        have hscope : MetricSignature.buildScope scope = activity.scope.units :=
          (MetricSignature.AlternativeDataMetric.congressActivity.inj hbuild).2.2.1
        cases scope with
        | any => exact nofun
        | actors actorIds => exact nofun
        | actor actorId =>
          intro id hid
          rw [List.mem_singleton.mp hid]
          cases hunits : activity.scope with
          | actors ids selects =>
            rw [hunits] at hscope
            have hmap : [actorId] = ids.map lit := MetricSignature.ActorScope.actors.inj hscope
            obtain ⟨stored, hmem, heq⟩ := List.mem_map.mp (hmap ▸ List.mem_singleton_self actorId)
            rw [← heq]
            refine hids stored ?_
            change stored ∈ activity.scope.ids
            rwa [hunits]
          | _ =>
            rw [hunits] at hscope
            exact nomatch hscope
        | group groupId =>
          intro id hid
          rw [List.mem_singleton.mp hid]
          cases hunits : activity.scope with
          | group stored =>
            rw [hunits] at hscope
            rw [MetricSignature.ActorScope.group.inj hscope]
            refine hids stored ?_
            change stored ∈ activity.scope.ids
            rw [hunits]
            exact List.mem_singleton_self stored
          | _ =>
            rw [hunits] at hscope
            exact nomatch hscope
    | insiderActivity activity =>
      cases read with
      | insiderActivity => exact nofun
      | congressActivity => exact absurd (hbuild.trans (Option.some.inj h).symm) nofun
    | _ => exact nomatch h
  obtain ⟨s, hs, hparse⟩ := (MetricSignature.parse_signature_iff hadmitted).mpr hlegacy
  rw [hsignature] at hs
  rw [Except.ok.inj hs, hparse, hbuild]

/-- **Decoding a key gives the operand it encodes.** -/
theorem Operand.decodes {operand : Operand} (hstored : operand.Stored)
    (hids : ∀ id ∈ operand.base.scopeIds, fieldSeparator ∉ lit id) : operand.Decodes where
  -- each decoder reads one family: on the key of any other operand it computes to nothing
  series := by
    refine (operand.after_key .series).trans ?_
    rcases operand with base | ⟨code, base⟩ | base
    · cases base <;> rfl
    · rfl
    · rfl
  relativeVolume := by
    refine (operand.bind_after_key .relativeVolume _).trans ?_
    rcases operand with base | ⟨code, base⟩ | base
    · cases base with
      | relativeVolume period supported => exact find?_relativeVolume supported
      | _ => rfl
    · rfl
    · rfl
  fundamental := by
    refine (operand.bind_after_key .fundamental _).trans ?_
    rcases operand with base | ⟨code, base⟩ | base
    · cases base with
      | fundamental metricId => exact vocabulary_fundamentals.valueOf_text metricId
      | _ => rfl
    · rfl
    · rfl
  valuation := by
    refine (operand.bind_after_key .valuation _).trans ?_
    rcases operand with base | ⟨code, base⟩ | base
    · cases base with
      | valuation ratioId => exact vocabulary_ratios.valueOf_text ratioId
      | _ => rfl
    · rfl
    · rfl
  etf := by
    rcases operand with base | ⟨code, base⟩ | base
    · refine ((Operand.stock base).bind_after_key .etf _).trans ?_
      cases base <;> rfl
    · rw [Operand.lit_key]
      exact readEtf_payload code base.key_ne_nil
    · exact (Operand.sector base).bind_after_key .etf _
  sector := by
    refine (operand.bind_after_key .sector _).trans ?_
    rcases operand with base | ⟨code, base⟩ | base
    · cases base <;> rfl
    · rfl
    · exact (if_pos rfl).trans (if_neg base.key_ne_nil)
  alternativeData := by
    refine (operand.bind_after_key .alternativeData _).trans ?_
    rcases operand with base | ⟨code, base⟩ | base
    · cases base with
      | insiderActivity metric =>
        have hparse := StockOperand.parse_payload hstored hids
          (show (StockOperand.insiderActivity metric).alternativeData? = some metric.units from rfl)
        exact (if_pos rfl).trans hparse
      | congressActivity metric =>
        have hparse := StockOperand.parse_payload hstored hids
          (show (StockOperand.congressActivity metric).alternativeData? = some metric.units from rfl)
        exact (if_pos rfl).trans hparse
      | _ => rfl
    · rfl
    · rfl

end FactorSage
