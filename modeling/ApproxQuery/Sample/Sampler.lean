import ApproxQuery.Config.Basic
import ApproxQuery.Sample.Cache
import ApproxQuery.Sample.Expansion
import ApproxQuery.Sample.Request
import ApproxQuery.Sample.Rounding
import ApproxQuery.Random.ChaCha

/-!
# The join sampler

A sample of a table or of a join starts from a random set of rows of one table, is expanded along
the join path and thinned to the requested size. The tables come from a store through a cache, which
a sampler hands on from one request to the next.
-/

namespace ApproxQuery

structure JoinSizeEstimate (N : Type) where
  startTable : String
  /-- The number of rows that the join of the prepared rows should have. -/
  sampleRows : N
  /-- The number of rows of the start table before any sampling. -/
  fullJoinSize : N

structure JoinSample (N : Type) where
  tables : List String
  relationships : List String
  columns : List String
  /-- The null marker of each column, if it has one. -/
  nullValues : List (Option N)
  rows : List (List N)
  /-- The row of each table behind each row of the sample. -/
  rowKeys : List JoinTuple
  fullJoinSize : N

namespace JoinSample

variable {N : Type}

def size (s : JoinSample N) : Nat := s.rows.length

def columnIndex? (s : JoinSample N) (name : String) : Option Nat :=
  s.columns.findIdx? (· == name)

def column? (s : JoinSample N) (name : String) : Option (List N) :=
  (s.columnIndex? name).bind fun place => s.rows.mapM (·[place]?)

end JoinSample

structure Sampler (N : Type) where
  schema : Schema N
  load : String → Except StoreError (EncodedTable N)
  metadata : SortedMap String (TableMetadata N)
  config : SamplingConfig N

/-- What is settled about a sample before anything is drawn. -/
structure SamplePlan (N : Type) where
  path : JoinPath
  estimate : JoinSizeEstimate N
  /-- The number of stored rows of the start table. -/
  storedRows : Nat

namespace Sampler

variable {N : Type} [Scalar N]

def tableMetadata (s : Sampler N) (table : String) : Except SampleError (TableMetadata N) :=
  match s.metadata.get? table with
  | some m => .ok m
  | none => .error (.missingMetadata table)

/-- The number of rows that can be drawn from a table. -/
def availableRows (s : Sampler N) (m : TableMetadata N) : N :=
  Scalar.min (Scalar.ofNat m.storedLength) (Scalar.ofNat s.config.maxTableData)

/-- The table that a join starts from: the first that is itself a sample, and else the first of
those that most of the relationships reference. -/
def startTable (s : Sampler N) (identifiers : List String) : Except SampleError String := do
  let names ← (s.schema.tablesOf identifiers).mapError .schema
  match names with
  | [] => .error .emptyRequest
  | first :: _ =>
    let tables ← (names.mapM s.schema.table).mapError .schema
    match tables.find? fun t => Scalar.lt t.sampleRate 1 with
    | some t => return t.name
    | none =>
      let rs ← (identifiers.mapM s.schema.relationship).mapError .schema
      let fanIn (name : String) := rs.countP (·.target == name)
      return names.foldl (fun best name => if fanIn best < fanIn name then name else best) first

/-- The factor by which a step multiplies the expected rows; no step is expected to lose any. -/
def growth (s : Sampler N) : JoinStep → Except SampleError N
  | .fanOut identifier _ => do
    let r ← (s.schema.relationship identifier).mapError .schema
    let source ← (s.schema.table r.source).mapError .schema
    let sourceMetadata ← s.tableMetadata r.source
    let mean := ((← s.tableMetadata r.target).incomingMeans.get? identifier).getD 1
    return Scalar.max (mean * source.sampleRate * sourceMetadata.storedFraction) 1
  | _ => .ok 1

def plan (s : Sampler N) : SampleTarget → Except SampleError (SamplePlan N)
  | .table name => do
    let _ ← (s.schema.table name).mapError .schema
    let m ← s.tableMetadata name
    return ⟨⟨name, []⟩, ⟨name, s.availableRows m, m.fullSize⟩, m.storedLength⟩
  | .relationships identifiers => do
    let start ← s.startTable identifiers
    let path ← (JoinPath.assemble s.schema start identifiers).mapError .schema
    let m ← s.tableMetadata start
    let fanOuts := path.steps.filter (· matches .fanOut _ _)
    let rows ← fanOuts.foldlM (fun rows step => return rows * (← s.growth step)) (s.availableRows m)
    return ⟨path, ⟨start, rows, m.fullSize⟩, m.storedLength⟩

def estimate (s : Sampler N) (target : SampleTarget) : Except SampleError (JoinSizeEstimate N) :=
  (s.plan target).map (·.estimate)

def block (s : Sampler N) (joined : Bool) (name : String) (cache : TableCache N) :
    Except SampleError (TableBlock N) × TableCache N :=
  match s.schema.table name with
  | .error e => (.error (.schema e), cache)
  | .ok t =>
    match cache.getOrLoad name s.load with
    | (.error e, cache) => (.error (.store e), cache)
    | (.ok data, cache) =>
      (do (TableBlock.ofTable s.schema t data (← s.tableMetadata name) joined).mapError .schema,
        cache)

/-- The blocks of the tables, up to the first that fails. -/
def blocks (s : Sampler N) (joined : Bool) :
    List String → TableCache N → Except SampleError (List (TableBlock N)) × TableCache N
  | [], cache => (.ok [], cache)
  | name :: names, cache =>
    match s.block joined name cache with
    | (.error e, cache) => (.error e, cache)
    | (.ok b, cache) =>
      let (bs, cache) := s.blocks joined names cache
      (bs.map (b :: ·), cache)

variable {G : Type} [Generator G]

/-- The rows that a sample starts from, in increasing order. -/
def drawStart (s : Sampler N) (rows : Nat) (rate : N) : StateM G (List Nat) := do
  if rows = 0 then return []
  let rate := Scalar.min rate (Scalar.ofNat s.config.maxTableData / Scalar.ofNat rows)
  let quota ← probabilityRound (Scalar.ofNat rows * rate)
  if rows ≤ quota then return List.range rows else Draw.sortedIndices rows quota

/-- The sample with the given tuples. -/
def collect (p : SamplePlan N) (bs : List (TableBlock N)) (tuples : List JoinTuple) :
    Except SampleError (JoinSample N) := do
  let rows ← tuples.mapM fun t => do
    return (← (bs.zip t).mapM fun (b, row) => b.cells row).flatten
  return {
    tables := bs.map (·.name)
    relationships := p.path.steps.map (·.relationship)
    columns := bs.flatMap (·.columns)
    nullValues := bs.flatMap (·.nullValues)
    rows := rows
    rowKeys := tuples
    fullJoinSize := p.estimate.fullJoinSize }

/-- The sample of at most `size` rows that the start rows expand to, and the generator after it. -/
def expand (s : Sampler N) (p : SamplePlan N) (bs : List (TableBlock N)) (start : List Nat)
    (size : Nat) (g : G) : Except SampleError (JoinSample N × G) := do
  let tuples ← Expansion.run s.schema bs p.path.steps start
  let (kept, g) := Expansion.thin size tuples g
  return (← collect p bs kept, g)

def rateOf (s : Sampler N) (p : SamplePlan N) (request : SampleRequest N) : N :=
  effectiveRate request.size p.estimate.sampleRows
    (request.factor?.getD s.config.postSamplingFactor)

/-- A sample of at most the requested number of rows. -/
def sample (s : Sampler N) (request : SampleRequest N) (g : G) (cache : TableCache N) :
    Except SampleError (JoinSample N) × TableCache N :=
  match s.plan request.target with
  | .error e => (.error e, cache)
  | .ok p =>
    let (start, g) := s.drawStart p.storedRows (s.rateOf p request) g
    let (bs, cache) := s.blocks (!p.path.steps.isEmpty) p.path.tables cache
    (do return (← s.expand p (← bs) start request.size g).1, cache)

/-- Shares the start rows out at random and sorts both parts. -/
def split (rate : N) (start : List Nat) : StateM G (List Nat × List Nat) := do
  let shuffled := (← Draw.shuffle start.toArray).toList
  let count := min (← probabilityRound (Scalar.ofNat start.length * rate)) start.length
  let (primary, incremental) := shuffled.splitAt (start.length - count)
  return (primary.mergeSort, incremental.mergeSort)

/-- Two samples without a common start row, the second of about `rate` of the requested rows. -/
def sampleWithIncremental (s : Sampler N) (request : SampleRequest N) (rate : N) (g : G)
    (cache : TableCache N) : Except SampleError (JoinSample N × JoinSample N) × TableCache N :=
  if !(Scalar.lt 0 rate && Scalar.lt rate 1) then
    (.error (.incrementalRateOutside (Scalar.text rate)), cache)
  else match s.plan request.target with
  | .error e => (.error e, cache)
  | .ok p =>
    let (start, g) := s.drawStart p.storedRows (s.rateOf p request) g
    let ((primaryRows, incrementalRows), g) := split rate start g
    let (wanted, g) := probabilityRound (Scalar.ofNat request.size * rate) g
    let incrementalSize := min wanted request.size
    let (bs, cache) := s.blocks (!p.path.steps.isEmpty) p.path.tables cache
    (do
      let bs ← bs
      let (primary, g) ← s.expand p bs primaryRows (request.size - incrementalSize) g
      let (incremental, _) ← s.expand p bs incrementalRows incrementalSize g
      return (primary, incremental), cache)

/-- A sample drawn with the configured seed. -/
def generate (s : Sampler N) (request : SampleRequest N) (cache : TableCache N) :
    Except SampleError (JoinSample N) × TableCache N :=
  s.sample request (ChaCha.ofSeed s.config.seed) cache

structure SampleJob (N : Type) where
  request : SampleRequest N
  primary : JoinSample N
  incremental? : Option (JoinSample N)

/-- The job of one request, with a second sample if the configured rate asks for one. -/
def job (s : Sampler N) (request : SampleRequest N) (seed : UInt64) (cache : TableCache N) :
    Except SampleError (SampleJob N) × TableCache N :=
  let g := ChaCha.ofSeed seed
  if Scalar.lt 0 s.config.incrementalRate then
    let (r, cache) := s.sampleWithIncremental request s.config.incrementalRate g cache
    (r.map fun (primary, incremental) => ⟨request, primary, some incremental⟩, cache)
  else
    let (r, cache) := s.sample request g cache
    (r.map fun primary => ⟨request, primary, none⟩, cache)

/-- Runs the jobs one after another, each with the seed after the one before it. -/
def runFrom (s : Sampler N) (seed : UInt64) : List (SampleRequest N) → TableCache N →
    List (Except SampleError (SampleJob N)) × TableCache N
  | [], cache => ([], cache)
  | request :: requests, cache =>
    let (r, cache) := s.job request seed cache
    let (rs, cache) := s.runFrom (seed + 1) requests cache
    (r :: rs, cache)

def run (s : Sampler N) (requests : List (SampleRequest N)) (cache : TableCache N) :
    List (Except SampleError (SampleJob N)) × TableCache N :=
  s.runFrom s.config.seed requests cache

/-- The cache that a sampler starts with. -/
def freshCache (s : Sampler N) : TableCache N :=
  .empty s.config.disableCache

end Sampler

end ApproxQuery
