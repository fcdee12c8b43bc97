import ApproxQuery.Number.Scalar

/-!
# Settings

How tables are prepared and how samples are drawn. Settings are valid when every share and every
limit lies where the computations need it; `validate` names the first one that does not.
-/

namespace ApproxQuery

structure PreparationConfig (N : Type) where
  /-- A column with texts and more different values than this is left out. -/
  maxUnique : Nat
  /-- A table with more rows than this is stored as a uniform subset. -/
  maxData : Nat
  /-- The distance of a null marker from the mean of its column. -/
  nullEpsilon : N
  seed : UInt64

structure SamplingConfig (N : Type) where
  /-- No more rows than this are drawn from the start table. -/
  maxTableData : Nat
  postSamplingFactor : N
  /-- The share of every sample that is set aside as a disjoint second sample. -/
  incrementalRate : N
  seed : UInt64
  disableCache : Bool

structure EngineConfig (N : Type) where
  preparation : PreparationConfig N
  sampling : SamplingConfig N

inductive ConfigError where
  | unreadable
  | malformed
  | maxDataZero
  | nullEpsilonNotPositive
  | postSamplingFactorNotPositive
  | incrementalRateOutside (rate : String)
deriving DecidableEq, Repr

def ConfigError.message : ConfigError → String
  | unreadable => "Failed to read configuration"
  | malformed => "Failed to parse configuration"
  | maxDataZero => "Invalid configuration: preparation.max_data must be positive"
  | nullEpsilonNotPositive =>
    "Invalid configuration: preparation.null_epsilon must be positive"
  | postSamplingFactorNotPositive =>
    "Invalid configuration: sampling.post_sampling_factor must be positive"
  | incrementalRateOutside rate =>
    "Invalid configuration: sampling.incremental_rate " ++ rate ++ " outside [0, 1)"

variable {N : Type} [Scalar N]

def PreparationConfig.standard : PreparationConfig N where
  maxUnique := 10000
  maxData := 20000000
  nullEpsilon := 1 / 10000
  seed := 1

def SamplingConfig.standard : SamplingConfig N where
  maxTableData := 20000000
  postSamplingFactor := 30
  incrementalRate := 0
  seed := 1
  disableCache := false

def EngineConfig.standard : EngineConfig N := ⟨.standard, .standard⟩

def EngineConfig.validate (c : EngineConfig N) : Except ConfigError Unit :=
  let rate := c.sampling.incrementalRate
  if c.preparation.maxData = 0 then .error .maxDataZero
  else if Scalar.le c.preparation.nullEpsilon 0 then .error .nullEpsilonNotPositive
  else if Scalar.le c.sampling.postSamplingFactor 0 then .error .postSamplingFactorNotPositive
  else if !(Scalar.le 0 rate && Scalar.lt rate 1) then
    .error (.incrementalRateOutside (Scalar.text rate))
  else .ok ()

end ApproxQuery
