import ApproxQuery.Prepare.Compression
import ApproxQuery.Prepare.Encoding
import ApproxQuery.Prepare.Multipliers
import ApproxQuery.Random.ChaCha
import ApproxQuery.Random.Draw

/-!
# Preparation of a table

The raw rows of a table become a table of numbers and its metadata: dependent columns are
compressed, multipliers added, all columns encoded, and a table that is too long is cut down to a
uniform subset of its rows.
-/

namespace ApproxQuery

variable {N : Type} [Scalar N]

/-- Keeps a random set of `max` rows of a longer table, in their order. -/
def EncodedTable.truncate (t : EncodedTable N) (max : Nat) (seed : UInt64) : EncodedTable N :=
  if max < t.size then
    t.select ((Draw.sortedIndices t.size max : StateM ChaCha (List Nat)) (.ofSeed seed)).1
  else t

/-- The table and metadata of a name. -/
def Schema.prepare (g : Schema N) (source : RawSource N) (config : PreparationConfig N)
    (name : String) : Except PreparationError (PreparedTable N) := do
  let t ← (g.table name).mapError .schema
  let raw ← source t.name
  let whole ← Frame.ofRaw t raw
  let compression ← Compression.run t whole config.maxUnique
  let (frame, multipliers) ← Multiplier.addAll g source t (compression.remaining whole)
  let blank : TableMetadata N := .blank t.name t.sampleRate
  let metadata :=
    { blank with
      length := raw.size
      dependencies := compression.maps
      incomingMeans := .ofList (multipliers.map fun m => (m.relationship.identifier, m.mean)) }
  let encoded ← EncodedColumn.addAll config ⟨⟨t.name, [], []⟩, metadata⟩ frame
  let table := encoded.table.truncate config.maxData config.seed
  return ⟨table,
    { encoded.metadata with storedLength := table.size, columns := table.columns }⟩

end ApproxQuery
