import ApproxQuery.Sample.Sampler

/-!
# Jobs that share a cache

Jobs run side by side and meet in the cache only. A job first looks for a table under the read lock.
If the table is not there, the job comes back under the write lock, where it looks again, and reads
the store if no other job has done so in between.
-/

namespace ApproxQuery

/-- What a job has left to do. -/
inductive Task (N α : Type) where
  | done (result : α)
  /-- Looks for a table under the read lock. -/
  | ask (table : String) (next : Except StoreError (EncodedTable N) → Task N α)
  /-- Fetches a table under the write lock. -/
  | fill (table : String) (next : Except StoreError (EncodedTable N) → Task N α)

namespace Task

variable {N α β : Type}

def result? : Task N α → Option α
  | done a => some a
  | ask _ _ => none
  | fill _ _ => none

/-- Goes on with the result. -/
def bind (f : α → Task N β) : Task N α → Task N β
  | done a => f a
  | ask table next => ask table fun r => (next r).bind f
  | fill table next => fill table fun r => (next r).bind f

def map (f : α → β) (t : Task N α) : Task N β :=
  t.bind fun a => done (f a)

variable (load : String → Except StoreError (EncodedTable N))

/-- What is done without giving up a lock. -/
def step : Task N α → TableCache N → Task N α × TableCache N
  | done a, cache => (done a, cache)
  | ask table next, cache =>
    match cache.get? table with
    | some data => (next (.ok data), cache)
    | none => (fill table next, cache)
  | fill table next, cache =>
    let (r, cache) := cache.getOrLoad table load
    (next r, cache)

/-- Runs a task to its end with no other in between. -/
def run : Task N α → TableCache N → α × TableCache N
  | done a, cache => (a, cache)
  | ask table next, cache =>
    let (r, cache) := cache.getOrLoad table load
    (next r).run cache
  | fill table next, cache =>
    let (r, cache) := cache.getOrLoad table load
    (next r).run cache

end Task

/-- Tasks that share a cache. -/
structure Pool (N α : Type) where
  tasks : List (Task N α)
  cache : TableCache N

namespace Pool

variable {N α : Type} (load : String → Except StoreError (EncodedTable N))

/-- One step of the task at a place. -/
def step (p : Pool N α) (place : Nat) : Pool N α :=
  match p.tasks[place]? with
  | none => p
  | some t =>
    let (t, cache) := t.step load p.cache
    ⟨p.tasks.set place t, cache⟩

/-- Steps of the tasks in the order of a schedule. -/
def run (p : Pool N α) (schedule : List Nat) : Pool N α :=
  schedule.foldl (step load) p

def results (p : Pool N α) : List (Option α) :=
  p.tasks.map (·.result?)

end Pool

namespace Sampler

variable {N : Type} [Scalar N]

def blockTask (s : Sampler N) (joined : Bool) (name : String) :
    Task N (Except SampleError (TableBlock N)) :=
  match s.schema.table name with
  | .error e => .done (.error (.schema e))
  | .ok t => .ask name fun
    | .error e => .done (.error (.store e))
    | .ok data => .done do
      (TableBlock.ofTable s.schema t data (← s.tableMetadata name) joined).mapError .schema

def blocksTask (s : Sampler N) (joined : Bool) :
    List String → Task N (Except SampleError (List (TableBlock N)))
  | [] => .done (.ok [])
  | name :: names => (s.blockTask joined name).bind fun
    | .error e => .done (.error e)
    | .ok b => (s.blocksTask joined names).map (·.map (b :: ·))

variable {G : Type} [Generator G]

def sampleTask (s : Sampler N) (request : SampleRequest N) (g : G) :
    Task N (Except SampleError (JoinSample N)) :=
  match s.plan request.target with
  | .error e => .done (.error e)
  | .ok p =>
    let (start, g) := s.drawStart p.storedRows (s.rateOf p request) g
    (s.blocksTask (!p.path.steps.isEmpty) p.path.tables).map fun bs => do
      return (← s.expand p (← bs) start request.size g).1

def partsTask (s : Sampler N) (request : SampleRequest N) (rate : N) (g : G) :
    Task N (Except SampleError (JoinSample N × JoinSample N)) :=
  if !(Scalar.lt 0 rate && Scalar.lt rate 1) then
    .done (.error (.incrementalRateOutside (Scalar.text rate)))
  else match s.plan request.target with
  | .error e => .done (.error e)
  | .ok p =>
    let (start, g) := s.drawStart p.storedRows (s.rateOf p request) g
    let ((primaryRows, incrementalRows), g) := split rate start g
    let (wanted, g) := probabilityRound (Scalar.ofNat request.size * rate) g
    let incrementalSize := min wanted request.size
    (s.blocksTask (!p.path.steps.isEmpty) p.path.tables).map fun bs => do
      let bs ← bs
      let (primary, g) ← s.expand p bs primaryRows (request.size - incrementalSize) g
      let (incremental, _) ← s.expand p bs incrementalRows incrementalSize g
      return (primary, incremental)

def jobTask (s : Sampler N) (request : SampleRequest N) (seed : UInt64) :
    Task N (Except SampleError (SampleJob N)) :=
  let g := ChaCha.ofSeed seed
  if Scalar.lt 0 s.config.incrementalRate then
    (s.partsTask request s.config.incrementalRate g).map
      (·.map fun (primary, incremental) => ⟨request, primary, some incremental⟩)
  else
    (s.sampleTask request g).map (·.map fun primary => ⟨request, primary, none⟩)

/-- The jobs of some requests as they start side by side. -/
def pool (s : Sampler N) (requests : List (SampleRequest N)) (cache : TableCache N) :
    Pool N (Except SampleError (SampleJob N)) :=
  ⟨requests.mapIdx fun i request => s.jobTask request (s.config.seed + UInt64.ofNat i), cache⟩

end Sampler

end ApproxQuery
