import ApproxQuery.Proofs.Sample.Complete
import ApproxQuery.Sample.Task

/-!
# Jobs and the cache they share

Whatever was asked of a sampler before, a table in its cache is the table in the store. A job therefore
comes to the result that it has on a fresh sampler, in whatever order the steps of the jobs are taken.
-/

namespace ApproxQuery

variable {N : Type} {load : String → Except StoreError (EncodedTable N)}

/-- The cache holds the tables that were read, and an enabled one has read none of them twice. -/
structure TableCache.Tracks (load : String → Except StoreError (EncodedTable N)) (disabled : Bool)
    (cache : TableCache N) : Prop where
  mode : cache.disabled = disabled
  holds : ∀ name data, cache.get? name = some data → name ∈ cache.reads ∧ load name = .ok data
  keeps : disabled = false → ∀ name ∈ cache.reads, ∀ data, load name = .ok data →
    cache.get? name = some data
  once : disabled = false → (cache.reads.filter fun name => (load name).isOk).Nodup

namespace TableCache.Tracks

variable {disabled : Bool} {cache : TableCache N}

theorem empty (load : String → Except StoreError (EncodedTable N)) (disabled : Bool) :
    (TableCache.empty disabled).Tracks load disabled where
  mode := rfl
  holds name data h := by cases h
  keeps _ name hname := by cases hname
  once _ := List.nodup_nil

variable (h : cache.Tracks load disabled)
include h

/-- A read that fails, or one that is not kept, leaves the entries as they are. -/
theorem read {name : String} (hread : disabled = true ∨ ∃ e, load name = .error e) :
    { cache with reads := cache.reads ++ [name] }.Tracks load disabled where
  mode := h.mode
  holds name' data hget := by
    obtain ⟨hin, hload⟩ := h.holds name' data hget
    exact ⟨List.mem_append_left _ hin, hload⟩
  keeps henabled name' hin data hload := by
    rcases hread with hdisabled | ⟨e, he⟩
    · cases henabled.symm.trans hdisabled
    · rcases List.mem_append.mp hin with hin | hin
      · exact h.keeps henabled name' hin data hload
      · cases List.mem_singleton.mp hin
        cases hload.symm.trans he
  once henabled := by
    rcases hread with hdisabled | ⟨e, he⟩
    · cases henabled.symm.trans hdisabled
    · rw [List.filter_append]
      simpa [he, Except.isOk, Except.toBool] using h.once henabled

/-- A table that is missing has not been read before. -/
theorem insert {name : String} {data : EncodedTable N} (hmissing : cache.get? name = none)
    (hload : load name = .ok data) :
    { cache with reads := cache.reads ++ [name], entries := cache.entries.insert name data }.Tracks
      load disabled where
  mode := h.mode
  holds name' data' hget := by
    by_cases hname : name' = name
    · subst hname
      rw [TableCache.get?, SortedMap.get?_insert_self] at hget
      cases hget
      exact ⟨List.mem_append_right _ (List.mem_singleton_self _), hload⟩
    · rw [TableCache.get?, SortedMap.get?_insert_of_ne hname] at hget
      obtain ⟨hin, hload'⟩ := h.holds name' data' hget
      exact ⟨List.mem_append_left _ hin, hload'⟩
  keeps henabled name' hin data' hload' := by
    by_cases hname : name' = name
    · subst hname
      cases hload.symm.trans hload'
      exact SortedMap.get?_insert_self
    · have hin' := (List.mem_append.mp hin).resolve_right fun hsame =>
        hname (List.mem_singleton.mp hsame)
      rw [TableCache.get?, SortedMap.get?_insert_of_ne hname]
      exact h.keeps henabled name' hin' data' hload'
  once henabled := by
    have hnew : name ∉ cache.reads := by
      intro hin
      cases hmissing.symm.trans (h.keeps henabled name hin data hload)
    rw [List.filter_append]
    refine List.nodup_append'.mpr ⟨h.once henabled, (List.nodup_singleton name).filter _, ?_⟩
    intro name' hin hin'
    cases List.mem_singleton.mp (List.mem_filter.mp hin').1
    exact hnew (List.mem_filter.mp hin).1

/-- What a cache hands out is what the store has. -/
theorem getOrLoad (name : String) : (cache.getOrLoad name load).1 = load name ∧
    (cache.getOrLoad name load).2.Tracks load disabled := by
  unfold TableCache.getOrLoad
  cases hget : cache.get? name with
  | some data => exact ⟨(h.holds name data hget).2.symm, h⟩
  | none =>
    cases hload : load name with
    | error e => exact ⟨rfl, h.read (.inr ⟨e, hload⟩)⟩
    | ok data =>
      refine ⟨rfl, ?_⟩
      dsimp only
      split
      · rename_i hdisabled
        exact h.read (.inl (h.mode.symm.trans hdisabled))
      · exact h.insert hget hload

theorem missing_of_error {name : String} {e : StoreError} (he : load name = .error e) :
    cache.get? name = none := by
  cases hget : cache.get? name with
  | none => rfl
  | some data => cases he.symm.trans (h.holds name data hget).2

theorem get?_eq_some_iff (henabled : disabled = false) (name : String) (data : EncodedTable N) :
    cache.get? name = some data ↔ name ∈ cache.reads ∧ load name = .ok data :=
  ⟨h.holds name data, fun hread => h.keeps henabled name hread.1 data hread.2⟩

end TableCache.Tracks

namespace Task

variable {α β : Type} {disabled : Bool} {cache : TableCache N}

/-- The result if every table comes straight from the store. -/
def eval (load : String → Except StoreError (EncodedTable N)) : Task N α → α
  | done a => a
  | ask table next => (next (load table)).eval load
  | fill table next => (next (load table)).eval load

/-- The most steps that are left to do. -/
def work (load : String → Except StoreError (EncodedTable N)) : Task N α → Nat
  | done _ => 0
  | ask table next => (next (load table)).work load + 2
  | fill table next => (next (load table)).work load + 1

theorem eval_of_result? {t : Task N α} {a : α} (h : t.result? = some a) : t.eval load = a := by
  cases t with
  | done b =>
    cases h
    rfl
  | ask table next => cases h
  | fill table next => cases h

theorem result?_of_work {t : Task N α} (h : t.work load = 0) : t.result? = some (t.eval load) := by
  cases t with
  | done a => rfl
  | ask table next => cases h
  | fill table next => cases h

theorem step_of_cached {table : String} {data : EncodedTable N}
    (next : Except StoreError (EncodedTable N) → Task N α) (h : cache.get? table = some data) :
    (ask table next).step load cache = (next (.ok data), cache) := by
  simp only [step, h]

theorem step_of_missing {table : String} (next : Except StoreError (EncodedTable N) → Task N α)
    (h : cache.get? table = none) : (ask table next).step load cache = (fill table next, cache) := by
  simp only [step, h]

/-- A step comes closer to the result. -/
theorem step_spec (h : cache.Tracks load disabled) (t : Task N α) :
    (t.step load cache).1.eval load = t.eval load ∧
      (t.step load cache).1.work load ≤ t.work load - 1 ∧
      (t.step load cache).2.Tracks load disabled := by
  cases t with
  | done a => exact ⟨rfl, le_rfl, h⟩
  | ask table next =>
    cases hget : cache.get? table with
    | none =>
      rw [step_of_missing next hget]
      exact ⟨rfl, le_rfl, h⟩
    | some data =>
      have hload := (h.holds table data hget).2
      rw [step_of_cached next hget, eval, work, hload]
      exact ⟨rfl, Nat.le_succ _, h⟩
  | fill table next =>
    obtain ⟨hload, hcache⟩ := h.getOrLoad table
    have hnext : ((fill table next).step load cache).1 = next (load table) := congrArg next hload
    rw [hnext]
    exact ⟨rfl, le_rfl, hcache⟩

theorem run_spec (h : cache.Tracks load disabled) (t : Task N α) :
    (t.run load cache).1 = t.eval load ∧ (t.run load cache).2.Tracks load disabled := by
  induction t generalizing cache with
  | done a => exact ⟨rfl, h⟩
  | ask table next ih =>
    obtain ⟨hload, hcache⟩ := h.getOrLoad table
    simp only [run, eval, ← hload]
    exact ih _ hcache
  | fill table next ih =>
    obtain ⟨hload, hcache⟩ := h.getOrLoad table
    simp only [run, eval, ← hload]
    exact ih _ hcache

theorem run_bind (f : α → Task N β) (t : Task N α) :
    (t.bind f).run load cache = (f (t.run load cache).1).run load (t.run load cache).2 := by
  induction t generalizing cache with
  | done a => rfl
  | ask table next ih => exact ih _
  | fill table next ih => exact ih _

theorem run_map (f : α → β) (t : Task N α) :
    (t.map f).run load cache = (f (t.run load cache).1, (t.run load cache).2) :=
  run_bind _ t

end Task

namespace Pool

variable {α : Type} {disabled : Bool} {p : Pool N α}

theorem step_spec (h : p.cache.Tracks load disabled) (place : Nat) :
    (p.step load place).cache.Tracks load disabled ∧
      (p.step load place).tasks.length = p.tasks.length ∧
      ∀ i t', (p.step load place).tasks[i]? = some t' → ∃ t, p.tasks[i]? = some t ∧
        t'.eval load = t.eval load ∧ t'.work load ≤ t.work load - [place].count i := by
  unfold step
  cases hplace : p.tasks[place]? with
  | none =>
    refine ⟨h, rfl, fun i t' hi => ⟨t', hi, rfl, ?_⟩⟩
    have hne : place ≠ i := by
      rintro rfl
      cases hplace.symm.trans hi
    rw [List.count_singleton, if_neg (by simpa using hne)]
    exact le_rfl
  | some t =>
    obtain ⟨heval, hwork, hcache⟩ := t.step_spec h
    refine ⟨hcache, List.length_set, fun i t' hi => ?_⟩
    by_cases hi' : place = i
    · subst hi'
      have hlt : place < p.tasks.length := (List.getElem?_eq_some_iff.mp hplace).1
      rw [List.getElem?_set_self hlt] at hi
      cases hi
      refine ⟨t, hplace, heval, ?_⟩
      rw [List.count_singleton_self]
      exact hwork
    · rw [List.getElem?_set_ne hi'] at hi
      refine ⟨t', hi, rfl, ?_⟩
      rw [List.count_singleton, if_neg (by simpa using hi')]
      exact le_rfl

/-- Steps in any order keep the results to come, and each brings one of them closer. -/
theorem run_spec (h : p.cache.Tracks load disabled) (schedule : List Nat) :
    (p.run load schedule).cache.Tracks load disabled ∧
      (p.run load schedule).tasks.length = p.tasks.length ∧
      ∀ i t', (p.run load schedule).tasks[i]? = some t' → ∃ t, p.tasks[i]? = some t ∧
        t'.eval load = t.eval load ∧ t'.work load ≤ t.work load - schedule.count i := by
  induction schedule generalizing p with
  | nil => exact ⟨h, rfl, fun i t' hi => ⟨t', hi, rfl, le_rfl⟩⟩
  | cons place schedule ih =>
    obtain ⟨hcache, hlength, hstep⟩ := step_spec h place
    obtain ⟨hcache', hlength', hrest⟩ := ih hcache
    refine ⟨hcache', hlength'.trans hlength, fun i t' hi => ?_⟩
    obtain ⟨next, hnext, heval', hwork'⟩ := hrest i t' hi
    obtain ⟨t, ht, heval, hwork⟩ := hstep i next hnext
    have hcount : (place :: schedule).count i = [place].count i + schedule.count i := by
      rw [← List.count_append]
      rfl
    refine ⟨t, ht, heval'.trans heval, ?_⟩
    omega

/-- A task that is done has the result that it has on its own. -/
theorem result_eq (h : p.cache.Tracks load disabled) {schedule : List Nat} {i : Nat} {a : α}
    (hi : (p.run load schedule).results[i]? = some (some a)) :
    (p.tasks.map (·.eval load))[i]? = some a := by
  obtain ⟨-, -, hrun⟩ := run_spec h schedule
  rw [results, List.getElem?_map] at hi
  obtain ⟨t', ht', hresult⟩ := Option.map_eq_some_iff.mp hi
  obtain ⟨t, ht, heval, -⟩ := hrun i t' ht'
  rw [List.getElem?_map, ht, Option.map_some, ← heval, Task.eval_of_result? hresult]

/-- Every task is done after enough steps of each. -/
theorem exists_enough (h : p.cache.Tracks load disabled) : ∃ n, ∀ schedule : List Nat,
    (∀ i < p.tasks.length, n ≤ schedule.count i) →
      (p.run load schedule).results = (p.tasks.map (·.eval load)).map some := by
  refine ⟨(p.tasks.map (·.work load)).sum, fun schedule henough => ?_⟩
  obtain ⟨-, hlength, hrun⟩ := run_spec h schedule
  refine List.ext_getElem (by simp [results, hlength]) fun i hi _ => ?_
  have hi' : i < p.tasks.length := by simpa [results, hlength] using hi
  have hi'' : i < (p.run load schedule).tasks.length := hlength.symm ▸ hi'
  obtain ⟨t, ht, heval, hwork⟩ := hrun i _ (List.getElem?_eq_getElem hi'')
  have hle : t.work load ≤ (p.tasks.map (·.work load)).sum :=
    List.single_le_sum (fun _ _ => Nat.zero_le _) _
      (List.mem_map_of_mem (List.mem_of_getElem? ht))
  have hdone : (p.run load schedule).tasks[i].work load = 0 := by
    have := henough i hi'
    omega
  obtain ⟨_, hget⟩ := List.getElem?_eq_some_iff.mp ht
  simp only [results, List.getElem_map, hget]
  rw [Task.result?_of_work hdone, heval]

end Pool

namespace Sampler

variable [Scalar N] {s : Sampler N} {cache : TableCache N} {disabled : Bool}

/-! A task with no other in between does what the sampler does. -/

omit [Scalar N] in
theorem run_blockTask (joined : Bool) (name : String) :
    (s.blockTask joined name).run s.load cache = s.block joined name cache := by
  unfold blockTask block
  cases s.schema.table name with
  | error e => rfl
  | ok t =>
    rw [Task.run]
    cases hload : cache.getOrLoad name s.load with
    | mk r next =>
      cases r with
      | error e => rfl
      | ok data => rfl

omit [Scalar N] in
theorem run_blocksTask (joined : Bool) (names : List String) :
    (s.blocksTask joined names).run s.load cache = s.blocks joined names cache := by
  induction names generalizing cache with
  | nil => rfl
  | cons name names ih =>
    rw [blocksTask, Task.run_bind, run_blockTask, blocks]
    cases hblock : s.block joined name cache with
    | mk r next =>
      cases r with
      | error e => rfl
      | ok b => exact (Task.run_map _ _).trans (by rw [ih])

variable {G : Type} [Generator G]

theorem run_sampleTask (request : SampleRequest N) (g : G) :
    (s.sampleTask request g).run s.load cache = s.sample request g cache := by
  unfold sampleTask sample
  cases s.plan request.target with
  | error e => rfl
  | ok p =>
    dsimp only
    obtain ⟨start, g⟩ := s.drawStart p.storedRows (s.rateOf p request) g
    rw [Task.run_map, run_blocksTask]

theorem run_partsTask (request : SampleRequest N) (rate : N) (g : G) :
    (s.partsTask request rate g).run s.load cache =
      s.sampleWithIncremental request rate g cache := by
  unfold partsTask sampleWithIncremental
  split
  · rfl
  · cases s.plan request.target with
    | error e => rfl
    | ok p =>
      dsimp only
      obtain ⟨start, g⟩ := s.drawStart p.storedRows (s.rateOf p request) g
      dsimp only
      obtain ⟨⟨primaryRows, incrementalRows⟩, g⟩ := split rate start g
      dsimp only
      obtain ⟨wanted, g⟩ := probabilityRound (Scalar.ofNat request.size * rate) g
      rw [Task.run_map, run_blocksTask]

theorem run_jobTask (request : SampleRequest N) (seed : UInt64) :
    (s.jobTask request seed).run s.load cache = s.job request seed cache := by
  unfold jobTask job
  dsimp only
  split
  · rw [Task.run_map, run_partsTask]
  · rw [Task.run_map, run_sampleTask]

/-! A job on its own, and among others. -/

/-- The same sampler with its cache switched on or off. -/
def withCache (s : Sampler N) (disabled : Bool) : Sampler N :=
  { s with config := { s.config with disableCache := disabled } }

omit [Scalar N] in
theorem blocksTask_withCache (disabled joined : Bool) (names : List String) :
    (s.withCache disabled).blocksTask joined names = s.blocksTask joined names := by
  induction names with
  | nil => rfl
  | cons name names ih =>
    rw [blocksTask, blocksTask, ih]
    rfl

theorem jobTask_withCache (disabled : Bool) (request : SampleRequest N) (seed : UInt64) :
    (s.withCache disabled).jobTask request seed = s.jobTask request seed := by
  unfold jobTask partsTask sampleTask
  simp only [blocksTask_withCache]
  rfl

/-- The result of a request on a fresh sampler. -/
def alone (s : Sampler N) (disabled : Bool) (request : SampleRequest N) (seed : UInt64) :
    Except SampleError (SampleJob N) :=
  ((s.withCache disabled).job request seed (s.withCache disabled).freshCache).1

/-- The result of each request on a fresh sampler of its own, with the seed that it has in the list. -/
def eachAlone (s : Sampler N) (disabled : Bool) (requests : List (SampleRequest N)) :
    List (Except SampleError (SampleJob N)) :=
  requests.mapIdx fun i request => s.alone disabled request (s.config.seed + UInt64.ofNat i)

theorem alone_eq (disabled : Bool) (request : SampleRequest N) (seed : UInt64) :
    s.alone disabled request seed = (s.jobTask request seed).eval s.load := by
  have hfresh : (s.withCache disabled).freshCache.Tracks s.load disabled := .empty s.load disabled
  have hrun := ((s.jobTask request seed).run_spec hfresh).1
  rw [← hrun, alone, ← run_jobTask, jobTask_withCache]
  rfl

theorem tasks_eval (requests : List (SampleRequest N)) (cache : TableCache N) (disabled : Bool) :
    (s.pool requests cache).tasks.map (·.eval s.load) = s.eachAlone disabled requests := by
  refine List.ext_getElem (by simp [pool, eachAlone]) fun i _ _ => ?_
  simp only [pool, eachAlone, List.getElem_map, List.getElem_mapIdx, alone_eq]

theorem job_spec {mode : Bool} (h : cache.Tracks s.load mode) (disabled : Bool)
    (request : SampleRequest N) (seed : UInt64) :
    (s.job request seed cache).1 = s.alone disabled request seed ∧
      (s.job request seed cache).2.Tracks s.load mode := by
  rw [← run_jobTask, alone_eq]
  exact Task.run_spec h _

theorem runFrom_spec {mode : Bool} (h : cache.Tracks s.load mode) (disabled : Bool) (seed : UInt64)
    (requests : List (SampleRequest N)) :
    (s.runFrom seed requests cache).1 =
        requests.mapIdx (fun i request => s.alone disabled request (seed + UInt64.ofNat i)) ∧
      (s.runFrom seed requests cache).2.Tracks s.load mode := by
  induction requests generalizing seed cache with
  | nil => exact ⟨rfl, h⟩
  | cons request requests ih =>
    obtain ⟨hjob, hnext⟩ := job_spec h disabled request seed
    obtain ⟨hrest, hlast⟩ := ih hnext (seed + 1)
    refine ⟨?_, hlast⟩
    have hseed (i : Nat) : seed + 1 + UInt64.ofNat i = seed + UInt64.ofNat (i + 1) := by
      rw [UInt64.ofNat_add, UInt64.add_assoc, UInt64.add_comm 1]
      rfl
    simp only [List.mapIdx_cons, ← hseed]
    exact congrArg₂ List.cons (hjob.trans (by simp)) hrest

/-- The caches that a sampler can come to, whatever is asked of it and in whatever order the steps of
a list of jobs are taken. -/
inductive Reaches (s : Sampler N) : TableCache N → Prop
  | fresh : s.Reaches s.freshCache
  | generate {cache : TableCache N} (request : SampleRequest N) (h : s.Reaches cache) :
    s.Reaches (s.generate request cache).2
  | sample {G : Type} [Generator G] {cache : TableCache N} (request : SampleRequest N) (g : G)
    (h : s.Reaches cache) : s.Reaches (s.sample request g cache).2
  | parts {G : Type} [Generator G] {cache : TableCache N} (request : SampleRequest N) (rate : N)
    (g : G) (h : s.Reaches cache) : s.Reaches (s.sampleWithIncremental request rate g cache).2
  | run {cache : TableCache N} (requests : List (SampleRequest N)) (h : s.Reaches cache) :
    s.Reaches (s.run requests cache).2
  | pool {cache : TableCache N} (requests : List (SampleRequest N)) (schedule : List Nat)
    (h : s.Reaches cache) : s.Reaches ((s.pool requests cache).run s.load schedule).cache

theorem Reaches.tracks (h : s.Reaches cache) : cache.Tracks s.load s.config.disableCache := by
  induction h with
  | fresh => exact .empty _ _
  | generate request _ ih =>
    rw [Sampler.generate, ← run_sampleTask]
    exact (Task.run_spec ih _).2
  | sample request g _ ih =>
    rw [← run_sampleTask]
    exact (Task.run_spec ih _).2
  | parts request rate g _ ih =>
    rw [← run_partsTask]
    exact (Task.run_spec ih _).2
  | run requests _ ih => exact (runFrom_spec ih false _ requests).2
  | pool requests schedule _ ih => exact (Pool.run_spec (p := s.pool requests _) ih schedule).1

/-- Whatever came before, each job has the result that it has on a fresh sampler, also if the jobs
take their steps in turns, and they all come to an end. An enabled cache has read no table twice with
success and holds just the tables it has read; a read that fails leaves nothing behind. -/
theorem jobs_are_independent (h : s.Reaches cache) (requests : List (SampleRequest N)) :
    (∀ disabled, (s.run requests cache).1 = s.eachAlone disabled requests) ∧
    (∀ disabled (schedule : List Nat) (i : Nat) a,
      ((s.pool requests cache).run s.load schedule).results[i]? = some (some a) →
        (s.eachAlone disabled requests)[i]? = some a) ∧
    (∃ n, ∀ disabled (schedule : List Nat), (∀ i < requests.length, n ≤ schedule.count i) →
      ((s.pool requests cache).run s.load schedule).results =
        (s.eachAlone disabled requests).map some) ∧
    (s.config.disableCache = false →
      (cache.reads.filter fun name => (s.load name).isOk).Nodup ∧
      ∀ name data, cache.get? name = some data ↔ name ∈ cache.reads ∧ s.load name = .ok data) ∧
    ∀ name e, s.load name = .error e → cache.get? name = none := by
  have htracks := h.tracks
  have hpool : (s.pool requests cache).cache.Tracks s.load s.config.disableCache := htracks
  refine ⟨fun disabled => (runFrom_spec htracks disabled _ requests).1, ?_, ?_, ?_, ?_⟩
  · intro disabled schedule i a hi
    rw [← tasks_eval requests cache]
    exact Pool.result_eq hpool hi
  · obtain ⟨n, hn⟩ := Pool.exists_enough hpool
    refine ⟨n, fun disabled schedule henough => ?_⟩
    rw [← tasks_eval requests cache]
    refine hn schedule fun i hi => henough i ?_
    simpa [pool] using hi
  · exact fun henabled => ⟨htracks.once henabled, htracks.get?_eq_some_iff henabled⟩
  · exact fun name e he => htracks.missing_of_error he

end Sampler

namespace Shop

/-- Orders come from the cache after a sample of a table that is not there. -/
theorem jobs_are_independent_after_failure : ∃ cache, sampler.Reaches cache ∧
    (sampler.generate ⟨.table "suppliers", 5, none⟩ sampler.freshCache).1.isOk = false ∧
    cache.reads = ["orders"] ∧
    (sampler.run [⟨.table "suppliers", 5, none⟩, ⟨.table "orders", 5, none⟩] cache).1 =
      sampler.eachAlone true [⟨.table "suppliers", 5, none⟩, ⟨.table "orders", 5, none⟩] := by
  have hreaches : sampler.Reaches (sampler.generate ⟨.table "orders", 5, none⟩
      (sampler.generate ⟨.table "suppliers", 5, none⟩ sampler.freshCache).2).2 :=
    .generate _ (.generate _ .fresh)
  exact ⟨_, hreaches, by decide +kernel, by decide +kernel,
    (Sampler.jobs_are_independent hreaches _).1 true⟩

end Shop

end ApproxQuery
