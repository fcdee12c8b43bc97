import ApproxQuery.Proofs.Number.Counts
import ApproxQuery.Proofs.Sample.Cells
import ApproxQuery.Proofs.Sample.Complete

/-!
# Whole populations

A sample with room for everything that all stored start rows expand to is all of it if all start rows
are drawn, and that depends on an estimate. Where a path only looks up rows, the estimate is the
number of stored start rows, and each of them expands to one row at least. Where tables fan out, the
estimate is a product of mean fan-outs, which can be larger than the population.
-/

namespace ApproxQuery

/-- Every step looks up the rows that the joined ones reference, so no row is multiplied or lost. -/
def JoinPath.OnlyLooksUp (p : JoinPath) : Prop :=
  ∀ step ∈ p.steps, ∃ id table, step = .lookup id table

namespace Expansion

theorem length_le_flatMap {α β : Type} {f : α → List β} (h : ∀ x, f x ≠ []) (xs : List α) :
    xs.length ≤ (xs.flatMap f).length := by
  induction xs with
  | nil => exact Nat.zero_le _
  | cons x xs ih =>
    have hx := List.length_pos_iff.mpr (h x)
    rw [List.flatMap_cons, List.length_append, List.length_cons]
    omega

variable {N : Type} [Scalar N] {g : Schema N} (bs : List (TableBlock N)) {joined : List String}
  {steps : List JoinStep}

theorem extended_ne_nil (a b : AttributeRef) (t : JoinTuple) :
    extended bs a b t ≠ [] := by
  unfold extended options
  cases (rowIn bs t a.table).elim [] (partnersOf bs a b) with
  | nil => simp [orMissing]
  | cons j js => simp [orMissing]

/-- Looking up rows loses no tuple. -/
theorem length_le_expanded (h : JoinPath.Chain g joined steps)
    (hlookups : ∀ step ∈ steps, ∃ id table, step = .lookup id table) (ts : List JoinTuple) :
    ts.length ≤ (expanded g bs steps ts).length := by
  induction steps generalizing joined ts with
  | nil => exact le_rfl
  | cons step steps ih =>
    obtain ⟨r, known, -, -⟩ := h.ends
    obtain ⟨id, table, rfl⟩ := hlookups _ List.mem_cons_self
    rw [expanded_cons known]
    refine le_trans ?_ (ih h.tail (fun s hs => hlookups s (List.mem_cons_of_mem _ hs)) _)
    exact length_le_flatMap (extended_ne_nil bs r.sourceKey r.targetKey) ts

end Expansion

namespace Sampler

open Expansion

section

variable {N G : Type} [Scalar N] [Generator G] {s : Sampler N} {p : SamplePlan N}
  {bs : List (TableBlock N)} {request : SampleRequest N} {all : List JoinTuple}

/-- A plan is for an assembled path from a table with metadata; without a fan-out as many rows are
expected as can be drawn. -/
theorem path_of_plan {target : SampleTarget} (h : s.plan target = .ok p) :
    (∃ table ids, JoinPath.assemble s.schema table ids = .ok p.path) ∧
      ∃ m, s.metadata.get? p.path.start = some m ∧ p.storedRows = m.storedLength ∧
        ((∀ step ∈ p.path.steps, ∀ id table, step ≠ .fanOut id table) →
          p.estimate.sampleRows = s.availableRows m) := by
  cases target with
  | table name =>
    unfold plan at h
    obtain ⟨t, ht, h⟩ := bind_eq_ok.mp h
    obtain ⟨m, hm, h⟩ := bind_eq_ok.mp h
    cases pure_eq_ok.mp h
    have ht := mapError_eq_ok.mp ht
    exact ⟨⟨name, [], bind_eq_ok.mpr ⟨t, ht, rfl⟩⟩, m, tableMetadata_eq_ok hm, rfl, fun _ => rfl⟩
  | relationships ids =>
    obtain ⟨-, hpath, hplan⟩ := plan_eq_ok h
    exact ⟨⟨_, ids, hpath⟩, hplan⟩

/-- A path that only looks up rows keeps all stored start rows. -/
theorem storedRows_le {target : SampleTarget} (h : s.plan target = .ok p)
    (hlookups : p.path.OnlyLooksUp) (bs : List (TableBlock N)) :
    p.storedRows ≤ (complete s.schema p.path bs (List.range p.storedRows)).length := by
  obtain ⟨⟨table, ids, hpath⟩, -⟩ := path_of_plan h
  have hle := length_le_expanded bs (JoinPath.assemble_isChain hpath).2 hlookups
    ((List.range p.storedRows).map fun row => [some row])
  rwa [List.length_map, List.length_range] at hle

variable {source : RawSource N} {config : PreparationConfig N}

/-- What all stored start rows expand to are the admissible tuples, each once. -/
theorem population_eq [NumericScalar N] (hs : s.Serves source config) {cache : TableCache N}
    (hcache : s.Caches cache) (hplan : s.plan request.target = .ok p)
    (hblocks : (s.blocks (!p.path.steps.isEmpty) p.path.tables cache).1 = .ok bs)
    (hrun : Expansion.run s.schema bs p.path.steps (List.range p.storedRows) = .ok all) :
    all = complete s.schema p.path bs (List.range p.storedRows) ∧ all.Nodup ∧
      (∀ t, t ∈ all ↔ Admissible s.schema p.path bs (List.range p.storedRows) t) ∧
      ∃ w, collect p bs all = .ok w ∧ w.rowKeys = all ∧ w.rows = all.map (cellsOf bs) := by
  obtain ⟨⟨table, ids, hpath⟩, m, hm, hrows, -⟩ := path_of_plan hplan
  have hof := blocks_spec hs hcache hblocks
  obtain ⟨hnames, hsound⟩ := TableBlock.names_of_prepared (hof.imp fun _ _ hb => hb.isPrepared)
  obtain ⟨q, hq, rfl⟩ := hs.metadata _ m hm
  obtain ⟨first, hhead, hsize⟩ := first_block hof hq hrows
  have hvalid : ∀ row ∈ List.range p.storedRows, ∀ b ∈ bs.head?, row < b.table.size := by
    intro row hrow b hb
    cases hhead.symm.trans hb
    exact hsize ▸ List.mem_range.mp hrow
  have hkeys := keysStored_of_run hpath hnames hsound hvalid hrun
  obtain ⟨hall, hholds, hnodup, hmem⟩ :=
    run_of_path hpath hnames hsound List.nodup_range hvalid hkeys
  cases hrun.symm.trans hall
  obtain ⟨w, hcollect, hrowKeys, -, hcells⟩ := collect_eq_ok (p := p) hsound fun t ht =>
    (hholds t ht).fits
  exact ⟨rfl, hnodup, hmem, w, hcollect, hrowKeys, hcells⟩

/-- A sample that starts from all stored rows and has room for what they expand to is just that. -/
theorem sample_of_drawn {cache : TableCache N} (hplan : s.plan request.target = .ok p)
    (hblocks : (s.blocks (!p.path.steps.isEmpty) p.path.tables cache).1 = .ok bs)
    (hrun : Expansion.run s.schema bs p.path.steps (List.range p.storedRows) = .ok all)
    (hroom : all.length ≤ request.size) {w : JoinSample N} (hcollect : collect p bs all = .ok w)
    {gen : G}
    (hdrawn : (s.drawStart p.storedRows (s.rateOf p request) gen).1 = List.range p.storedRows) :
    (s.sample request gen cache).1 = .ok w := by
  have hexpand (gen : G) : ∃ gen', s.expand p bs (List.range p.storedRows) request.size gen =
      .ok (w, gen') := by
    have hthin := congrArg (collect p bs) ((thin_spec request.size all gen).1 hroom)
    exact ⟨_, bind_eq_ok.mpr ⟨_, hrun, bind_eq_ok.mpr ⟨w, hthin.trans hcollect, rfl⟩⟩⟩
  obtain ⟨gen', hgen⟩ := hexpand (s.drawStart p.storedRows (s.rateOf p request) gen).2
  rw [← hdrawn] at hgen
  unfold sample
  rw [hplan]
  dsimp only
  rw [hblocks]
  exact bind_eq_ok.mpr ⟨_, rfl, bind_eq_ok.mpr ⟨_, hgen, rfl⟩⟩

end

variable {G : Type} [Generator G] {s : Sampler Float} {p : SamplePlan Float}
  {bs : List (TableBlock Float)} {request : SampleRequest Float} {all : List JoinTuple}

open Binary64

/-- At the rate one all stored rows are drawn, however the generator goes on. -/
theorem drawStart_one {rows : Nat} (hrows : rows < 2 ^ 53) (hmax : rows ≤ s.config.maxTableData)
    (hword : s.config.maxTableData < 2 ^ 64) (gen : G) :
    (s.drawStart rows 1 gen).1 = List.range rows := by
  rcases Nat.eq_zero_or_pos rows with rfl | hpos
  · rfl
  · have hquota := probabilityRound_ofNat hpos hrows gen
    unfold drawStart
    simp only [if_neg hpos.ne', min_one_div hpos hrows hword hmax, ofNat_mul_one hpos hrows]
    change ((if rows ≤ (probabilityRound (Scalar.ofNat rows : Float) gen).1 then
      (pure (List.range rows) : StateM G (List Nat)) else _) _).1 = _
    rw [hquota, if_pos le_rfl]
    rfl

/-- The rows that can be drawn are no more than the rows that are wanted, if those stored are not. -/
theorem not_lt_availableRows {m : TableMetadata Float} {size : Nat} (hm : m.storedLength < 2 ^ 53)
    (hword : s.config.maxTableData < 2 ^ 64) (hsize : m.storedLength ≤ size) (hsize' : size < 2 ^ 64) :
    Scalar.lt (Scalar.ofNat size) (s.availableRows m) = false := by
  have hstored := not_lt_ofNat hm hsize' hsize
  unfold availableRows Scalar.min
  split
  · rename_i hle
    have hfinite := isFinite_ofNat hword
    obtain ⟨hfinite', hvalue⟩ := toRat_ofNat hm
    rw [NumericScalar.isNaN_of_isFinite _ hfinite', Bool.false_or, le_iff hfinite hfinite'] at hle
    rw [Bool.eq_false_iff, ne_eq, lt_iff (isFinite_ofNat hsize') hfinite'] at hstored
    rw [Bool.eq_false_iff, ne_eq, lt_iff (isFinite_ofNat hsize') hfinite]
    exact fun hlt => hstored (hlt.trans_le hle)
  · exact hstored

theorem rateOf_eq_one_of_onlyLooksUp (hplan : s.plan request.target = .ok p)
    (hlookups : p.path.OnlyLooksUp) (hstored : p.storedRows < 2 ^ 53)
    (hword : s.config.maxTableData < 2 ^ 64) (hroom : p.storedRows ≤ request.size)
    (hsize : request.size < 2 ^ 64) : s.rateOf p request = 1 := by
  obtain ⟨-, m, -, hrows, hestimate⟩ := path_of_plan hplan
  have hrowsOf : p.estimate.sampleRows = s.availableRows m := by
    apply hestimate
    rintro step hstep id table rfl
    obtain ⟨_, _, hne⟩ := hlookups _ hstep
    cases hne
  unfold rateOf effectiveRate
  rw [hrowsOf, not_lt_availableRows (hrows ▸ hstored) hword (hrows ▸ hroom) hsize]
  rfl

/-- A population that the request has room for is returned whole if the path only looks up rows, as
for a single table, and else if the estimate leaves the rate at one. -/
theorem sample_returns_population (request : SampleRequest Float) {source : RawSource Float}
    {config : PreparationConfig Float} (hs : s.Serves source config)
    {cache : TableCache Float} (hcache : s.Caches cache) (hplan : s.plan request.target = .ok p)
    (hblocks : (s.blocks (!p.path.steps.isEmpty) p.path.tables cache).1 = .ok bs)
    (hrun : Expansion.run s.schema bs p.path.steps (List.range p.storedRows) = .ok all)
    (hroom : all.length ≤ request.size) (hsize : request.size < 2 ^ 64)
    (hstored : p.storedRows < 2 ^ 53) (hmax : p.storedRows ≤ s.config.maxTableData)
    (hword : s.config.maxTableData < 2 ^ 64)
    (hrate : p.path.OnlyLooksUp ∨ s.rateOf p request = 1) (gen : G) :
    ∃ w, (s.sample request gen cache).1 = .ok w ∧ w.rowKeys = all ∧ all.Nodup ∧
      (∀ t, t ∈ all ↔ Admissible s.schema p.path bs (List.range p.storedRows) t) ∧
      w.rows = all.map (cellsOf bs) := by
  obtain ⟨hall, hnodup, hmem, w, hcollect, hkeys, hcells⟩ :=
    population_eq hs hcache hplan hblocks hrun
  have hone : s.rateOf p request = 1 := by
    rcases hrate with hlookups | hone
    · have hle : p.storedRows ≤ all.length := by
        rw [hall]
        exact storedRows_le hplan hlookups bs
      exact rateOf_eq_one_of_onlyLooksUp hplan hlookups hstored hword (hle.trans hroom) hsize
    · exact hone
  refine ⟨w, sample_of_drawn hplan hblocks hrun hroom hcollect ?_, hkeys, hnodup, hmem, hcells⟩
  rw [hone]
  exact drawStart_one hstored hmax hword gen

end Sampler

/-! One customer with an order and a visit. All items are of an order that no customer has placed. -/

namespace Returns

def orders : Relationship := .between "orders" "customer" "customers" "id" none

def items : Relationship := .between "items" "order" "orders" "id" none

def visits : Relationship := .between "visits" "customer" "customers" "id" none

def schema : Schema Float where
  tables := [
    { Table.named "customers" with incoming := [orders.identifier, visits.identifier] },
    { Table.named "orders" with outgoing := [orders.identifier], incoming := [items.identifier] },
    { Table.named "items" with outgoing := [items.identifier] },
    { Table.named "visits" with outgoing := [visits.identifier] }]
  relationships := [orders, items, visits]

def source : RawSource Float := .ofTables [
  ("customers", ⟨["id"], [[.int 1]]⟩),
  ("orders", ⟨["id", "customer"], [[.int 10, .int 1], [.int 11, .null]]⟩),
  ("items", ⟨["id", "order"], [[.int 20, .int 11], [.int 21, .int 11], [.int 22, .int 11],
    [.int 23, .int 11]]⟩),
  ("visits", ⟨["id", "customer"], [[.int 7, .int 1]]⟩)]

def sampler : Sampler Float := .ofPrepared schema source .standard .standard

def target : SampleTarget :=
  .relationships [orders.identifier, items.identifier, visits.identifier]

def request (factor : Float) : SampleRequest Float := ⟨target, 1, some factor⟩

/-- The customer's order has no item. -/
def population : List JoinTuple := [[some 0, some 0, none, some 0]]

/-- Two items an order are expected, so one of one customers is wanted of two rows. -/
theorem exists_plan : ∃ p bs, sampler.plan target = .ok p ∧
    (sampler.blocks (!p.path.steps.isEmpty) p.path.tables sampler.freshCache).1 = .ok bs ∧
    Expansion.run schema bs p.path.steps (List.range p.storedRows) = .ok population ∧
    p.storedRows = 1 ∧ p.estimate.sampleRows = 2 ∧ sampler.rateOf p (request 2) = 1 := by
  have hplan : (match sampler.plan target with
      | .error _ => false
      | .ok p => match (sampler.blocks (!p.path.steps.isEmpty) p.path.tables sampler.freshCache).1 with
        | .error _ => false
        | .ok bs => decide (
          (Expansion.run schema bs p.path.steps (List.range p.storedRows)).toOption =
            some population ∧ p.storedRows = 1 ∧ p.estimate.sampleRows = 2 ∧
            sampler.rateOf p (request 2) = 1)) = true := by decide +kernel
  split at hplan
  · cases hplan
  · rename_i p hp
    split at hplan
    · cases hplan
    · rename_i bs hbs
      obtain ⟨hrun, hrest⟩ := of_decide_eq_true hplan
      refine ⟨p, bs, hp, hbs, ?_, hrest⟩
      cases hall : Expansion.run schema bs p.path.steps (List.range p.storedRows) with
      | error e => simp [hall, Except.toOption] at hrun
      | ok all => simpa [hall, Except.toOption] using hrun

theorem one_le_maxTableData : 1 ≤ sampler.config.maxTableData := by
  decide +kernel

/-- A factor of two makes up for it. -/
theorem sample_returns_population_doubled : ∃ p bs w, sampler.plan target = .ok p ∧
    (sampler.blocks (!p.path.steps.isEmpty) p.path.tables sampler.freshCache).1 = .ok bs ∧
    sampler.rateOf p (request 2) = 1 ∧
    (sampler.sample (request 2) (ChaCha.ofSeed 0) sampler.freshCache).1 = .ok w ∧
    w.rowKeys = population := by
  obtain ⟨p, bs, hplan, hblocks, hrun, hrows, -, hrate⟩ := exists_plan
  obtain ⟨w, hsample, hkeys, -⟩ := Sampler.sample_returns_population (request 2)
    (Sampler.ofPrepared_serves schema source .standard .standard)
    (Sampler.caches_freshCache sampler) hplan hblocks hrun (by decide) (by decide)
    (by rw [hrows]; norm_num) (hrows.le.trans one_le_maxTableData) (by decide +kernel) (.inr hrate)
    (ChaCha.ofSeed 0)
  exact ⟨p, bs, w, hplan, hblocks, hrate, hsample, hkeys⟩

/-- Without it the only customer can be left out, and the sample is empty. -/
theorem sample_misses_population : ∃ p bs w, sampler.plan target = .ok p ∧
    (sampler.blocks (!p.path.steps.isEmpty) p.path.tables sampler.freshCache).1 = .ok bs ∧
    Expansion.run schema bs p.path.steps (List.range p.storedRows) = .ok population ∧
    population.length ≤ (request 1).size ∧ p.storedRows ≤ sampler.config.maxTableData ∧
    (sampler.sample (request 1) (ChaCha.ofSeed 0) sampler.freshCache).1 = .ok w ∧
    w.rowKeys = [] := by
  obtain ⟨p, bs, hplan, hblocks, hrun, hrows, -, -⟩ := exists_plan
  have hsample : (match (sampler.sample (request 1) (ChaCha.ofSeed 0) sampler.freshCache).1 with
      | .error _ => false
      | .ok w => decide (w.rowKeys = [])) = true := by decide +kernel
  split at hsample
  · cases hsample
  · rename_i w hw
    exact ⟨p, bs, w, hplan, hblocks, hrun, le_rfl, hrows.le.trans one_le_maxTableData, hw,
      of_decide_eq_true hsample⟩

end Returns

end ApproxQuery
