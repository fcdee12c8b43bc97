import ApproxQuery.Config.Basic
import ApproxQuery.Document.Reader

/-!
# Reading settings

Settings are read from a document. A field that is missing takes its standard value, and an unknown
field is passed over.
-/

namespace ApproxQuery

/-- The value of a field, or the standard value where the field is missing. -/
def Document.field? {α : Type} (read : Document → Option α) (standard : α) :
    Option Document → Option α
  | none => some standard
  | some d => read d

open Document (field?)

def PreparationConfig.ofDocument? (d : Document) : Option (PreparationConfig Float) := do
  let c : PreparationConfig Float := .standard
  match ← d.members? ["max_unique", "max_data", "null_epsilon", "seed"] with
  | [maxUnique, maxData, nullEpsilon, seed] =>
    return {
      maxUnique := (← field? Document.toWord? c.maxUnique.toUInt64 maxUnique).toNat
      maxData := (← field? Document.toWord? c.maxData.toUInt64 maxData).toNat
      nullEpsilon := ← field? Document.toFloat? c.nullEpsilon nullEpsilon
      seed := ← field? Document.toWord? c.seed seed }
  | _ => none

def SamplingConfig.ofDocument? (d : Document) : Option (SamplingConfig Float) := do
  let c : SamplingConfig Float := .standard
  match ← d.members?
      ["max_table_data", "post_sampling_factor", "incremental_rate", "seed", "disable_cache"] with
  | [maxTableData, postSamplingFactor, incrementalRate, seed, disableCache] =>
    return {
      maxTableData := (← field? Document.toWord? c.maxTableData.toUInt64 maxTableData).toNat
      postSamplingFactor := ← field? Document.toFloat? c.postSamplingFactor postSamplingFactor
      incrementalRate := ← field? Document.toFloat? c.incrementalRate incrementalRate
      seed := ← field? Document.toWord? c.seed seed
      disableCache := ← field? Document.toBool? c.disableCache disableCache }
  | _ => none

def EngineConfig.ofDocument? (d : Document) : Option (EngineConfig Float) := do
  match ← d.members? ["preparation", "sampling"] with
  | [preparation, sampling] =>
    return {
      preparation := ← field? PreparationConfig.ofDocument? .standard preparation
      sampling := ← field? SamplingConfig.ofDocument? .standard sampling }
  | _ => none

/-- The valid settings that a text holds. -/
def EngineConfig.parse (s : String) : Except ConfigError (EngineConfig Float) :=
  match (Document.parse? s).bind ofDocument? with
  | none => .error .malformed
  | some c => (c.validate).map fun _ => c

/-- The valid settings of a file, given its text if there is such a file. -/
def EngineConfig.ofFile : Option String → Except ConfigError (EngineConfig Float)
  | none => .error .unreadable
  | some s => parse s

end ApproxQuery
