import FactorSage.Intrinsic.Inputs
import FactorSage.Library.CodeUnits

/-!
# Intrinsic values of one trading day

Every model and blend from the statements of one day: a model is calculated, or was not assembled, or
its formula does not apply. A blend needs all its components, in one currency, and is dated by the
latest of them. The day's models are consistent when those calculated share one currency.
-/

namespace FactorSage.Intrinsic

open Statements

variable {F H : Type}

inductive EvaluatedIntrinsicModel (F : Type) where
  | calculated (valuePerShare : F) (sourceDataAsOf : Instant) (currency : String)
  | notAssembled (reason : IntrinsicValueAssemblyReason)
  | notValued (reason : ValuationNotApplicableReason)

inductive EvaluatedIntrinsicBlendReason where
  | valuation (reason : ValuationNotApplicableReason)
  | currencyMismatch
  deriving DecidableEq

inductive EvaluatedIntrinsicBlend (F : Type) where
  | calculated (valuePerShare : F) (sourceDataAsOf : Instant) (currency : String)
  | notApplicable (reason : EvaluatedIntrinsicBlendReason)

inductive IntrinsicCurrencyConsistency where
  | consistent (currency : String)
  | noValues
  | conflict (currencies : List String)
  deriving DecidableEq

def INTRINSIC_VALUE_MODELS : List IntrinsicValueModel := [.dcfFcff, .residualIncome, .ddm, .graham]

def INTRINSIC_VALUE_BLEND_IDS : List IntrinsicValueBlendId := [.balanced, .conservative, .dividend]

structure EvaluatedIntrinsicValues (F : Type) where
  models : IntrinsicValueModel → EvaluatedIntrinsicModel F
  blends : IntrinsicValueBlendId → EvaluatedIntrinsicBlend F
  currencyConsistency : IntrinsicCurrencyConsistency

/-- Assembly first, then the formula. -/
def evaluateModel {Input : Type} (assembled : Assembly (ReadyInput Input))
    (calculate : Input → ValuationResult F) : EvaluatedIntrinsicModel F :=
  match assembled with
  | .error reason => .notAssembled reason
  | .ok ready =>
    match calculate ready.input with
    | .error reason => .notValued reason
    | .ok valuePerShare => .calculated valuePerShare ready.sourceDataAsOf ready.currency

/-- The date and currency of the components calculated, or a mismatch of their currencies. -/
def componentProvenance (models : IntrinsicValueModel → EvaluatedIntrinsicModel F)
    (definition : BlendDefinition) :
    Except EvaluatedIntrinsicBlendReason (Option (Instant × String)) :=
  definition.components.foldlM (fun provenance component =>
    match models component.1, provenance with
    | .calculated _ sourceDataAsOf currency, none => .ok (some (sourceDataAsOf, currency))
    | .calculated _ sourceDataAsOf currency, some (latest, common) =>
      if common = currency then .ok (some (max latest sourceDataAsOf, common))
      else .error .currencyMismatch
    | _, provenance => .ok provenance) none

variable [JsNumber F]

def combineBlendComponents (definition : BlendDefinition)
    (models : IntrinsicValueModel → EvaluatedIntrinsicModel F) : EvaluatedIntrinsicBlend F :=
  let values := fun model =>
    match models model with
    | .calculated valuePerShare _ _ => some valuePerShare
    | _ => none
  match calculateBlend definition values with
  | .error reason => .notApplicable (.valuation reason)
  | .ok valuePerShare =>
    match componentProvenance models definition with
    | .error reason => .notApplicable reason
    | .ok none => .notApplicable (.valuation .missingComponent)
    | .ok (some (sourceDataAsOf, currency)) => .calculated valuePerShare sourceDataAsOf currency

omit [JsNumber F] in
/-- The distinct currencies of the models calculated, in model order. -/
def currenciesOf (models : IntrinsicValueModel → EvaluatedIntrinsicModel F) : List String :=
  INTRINSIC_VALUE_MODELS.foldl (fun currencies model =>
    match models model with
    | .calculated _ _ currency =>
      if currency ∈ currencies then currencies else currencies ++ [currency]
    | _ => currencies) []

omit [JsNumber F] in
def assessCurrencyConsistency (models : IntrinsicValueModel → EvaluatedIntrinsicModel F) :
    IntrinsicCurrencyConsistency :=
  match currenciesOf models with
  | [] => .noValues
  | [only] => .consistent only
  | currencies => .conflict (currencies.insertionSort fun left right =>
      !CodeUnits.codeUnitLt right left)

/-- The values of some assembled inputs. -/
def valuesOf (assembled : IntrinsicValueInputs F) : EvaluatedIntrinsicValues F :=
  let models : IntrinsicValueModel → EvaluatedIntrinsicModel F
    | .dcfFcff => evaluateModel assembled.dcfFcff calculateDcfFcff
    | .residualIncome => evaluateModel assembled.residualIncome calculateResidualIncome
    | .ddm => evaluateModel assembled.ddm calculateDdm
    | .graham => evaluateModel assembled.graham calculateGraham
  { models
    blends := fun blendId => combineBlendComponents (INTRINSIC_VALUE_BLENDS blendId) models
    currencyConsistency := assessCurrencyConsistency models }

/-- Every model and blend on one trading day. -/
def evaluateIntrinsicValues [LinearOrder H] (request : IntrinsicValueEvaluationRequest F H) :
    EvaluatedIntrinsicValues F :=
  valuesOf (assembleIntrinsicValueInputs request)

/-! ### The snapshot of a day -/

/-- The intrinsic fields of a day's row. -/
structure IntrinsicSnapshot (F : Type) where
  intrinsicValues : Option (OrderedMap IntrinsicValueModel F)
  intrinsicValueBlends : Option (OrderedMap IntrinsicValueBlendId F)
  dcfFcffSourceAsOf : Option Instant
  residualIncomeSourceAsOf : Option Instant
  ddmSourceAsOf : Option Instant
  grahamSourceAsOf : Option Instant
  intrinsicCurrency : Option String

def EMPTY_SNAPSHOT : IntrinsicSnapshot F := ⟨none, none, none, none, none, none, none⟩

/-- The entries a record is built of, in their order; absent when there are none. -/
def recordOf {K A : Type} [DecidableEq K] (keys : List K) (value : K → Option A) :
    Option (OrderedMap K A) :=
  let entries := OrderedMap.ofList (keys.filterMap fun key => (value key).map fun a => (key, a))
  if entries.keys.isEmpty then none else some entries

omit [JsNumber F] in
/-- What is stored of an evaluation: nothing, unless its models share one currency. -/
def toSnapshot (evaluation : EvaluatedIntrinsicValues F) : IntrinsicSnapshot F :=
  match evaluation.currencyConsistency with
  | .consistent currency =>
    let valuePerShare := fun model =>
      match evaluation.models model with
      | .calculated valuePerShare _ _ => some valuePerShare
      | _ => none
    -- each model's provenance goes to its own column
    let sourceAsOf := fun model =>
      match evaluation.models model with
      | .calculated _ sourceDataAsOf _ => some sourceDataAsOf
      | _ => none
    { intrinsicValues := recordOf INTRINSIC_VALUE_MODELS valuePerShare
      intrinsicValueBlends := recordOf INTRINSIC_VALUE_BLEND_IDS fun blendId =>
        match evaluation.blends blendId with
        | .calculated valuePerShare _ _ => some valuePerShare
        | _ => none
      dcfFcffSourceAsOf := sourceAsOf .dcfFcff
      residualIncomeSourceAsOf := sourceAsOf .residualIncome
      ddmSourceAsOf := sourceAsOf .ddm
      grahamSourceAsOf := sourceAsOf .graham
      intrinsicCurrency := some currency }
  | _ => EMPTY_SNAPSHOT

end FactorSage.Intrinsic
