import ApproxQuery.Proofs.Sample.Population

/-!
# Samples and their parts

Whether a request is answered depends on the plan, the stored tables and their key columns, and not
on what is drawn. The answer has at most as many rows as were asked for and no row twice. The parts
of an incremental sample share out the start rows and the number of rows that were asked for.
-/

namespace ApproxQuery

/-- The start rows behind the rows of a sample. -/
def JoinSample.startRows {N : Type} (w : JoinSample N) : List Nat :=
  w.rowKeys.filterMap (·.head?.join)

/-- The sample has at most so many rows, all different, that come from the given start rows. -/
structure JoinSample.StartsFrom {N : Type} (w : JoinSample N) (start : List Nat) (size : Nat) :
    Prop where
  keyed : w.rowKeys.length = w.size
  bounded : w.size ≤ size
  nodup : w.rowKeys.Nodup
  starts : ∀ t ∈ w.rowKeys, ∃ row ∈ start, t.head? = some (some row)

namespace JoinSample.StartsFrom

variable {N : Type} {w v : JoinSample N} {start start' : List Nat} {size size' : Nat}

theorem length_startRows (h : w.StartsFrom start size) : w.startRows.length = w.size := by
  rw [startRows, ← h.keyed, List.length_filterMap_eq_countP, List.countP_eq_length]
  intro t ht
  obtain ⟨row, -, hhead⟩ := h.starts t ht
  rw [hhead]
  rfl

theorem startRows_subset (h : w.StartsFrom start size) : w.startRows ⊆ start := by
  intro row hrow
  obtain ⟨t, ht, hhead⟩ := List.mem_filterMap.mp hrow
  obtain ⟨row', hrow', hhead'⟩ := h.starts t ht
  rw [hhead'] at hhead
  cases hhead
  exact hrow'

/-- Samples of different start rows have no row in common. -/
theorem disjoint (h : w.StartsFrom start size) (h' : v.StartsFrom start' size')
    (hstart : start.Disjoint start') :
    w.startRows.Disjoint v.startRows ∧ w.rowKeys.Disjoint v.rowKeys := by
  refine ⟨fun row hw hv => hstart (h.startRows_subset hw) (h'.startRows_subset hv), fun t hw hv => ?_⟩
  obtain ⟨row, hrow, hhead⟩ := h.starts t hw
  obtain ⟨row', hrow', hhead'⟩ := h'.starts t hv
  cases hhead.symm.trans hhead'
  exact hstart hrow hrow'

end JoinSample.StartsFrom

namespace Sampler

open Expansion Draw

variable {N G : Type} [Scalar N] [Generator G] {s : Sampler N} {p : SamplePlan N}
  {bs : List (TableBlock N)}

/-! Start rows are different rows of the start table, and a split shares them out. -/

theorem drawStart_valid (s : Sampler N) (rows : Nat) (rate : N) :
    Always (s.drawStart rows rate : StateM G (List Nat)) fun start =>
      start.Nodup ∧ ∀ row ∈ start, row < rows := by
  unfold drawStart
  split
  · exact .pure ⟨List.nodup_nil, by simp⟩
  · refine .bind (P := fun _ => True) (fun _ => trivial) fun quota _ => ?_
    split
    · exact .pure ⟨List.nodup_range, fun row hrow => List.mem_range.mp hrow⟩
    · rename_i hless
      have hle : quota ≤ rows := (Nat.lt_of_not_le hless).le
      exact (sortedIndices_isChoice hle).mono fun is his => ⟨his.1.nodup, his.1.lt⟩

theorem split_perm (rate : N) (start : List Nat) :
    Always (split rate start : StateM G (List Nat × List Nat)) fun parts =>
      (parts.1 ++ parts.2).Perm start := by
  refine .bind (shuffle_perm start.toArray) fun shuffled hshuffled => ?_
  refine .bind (P := fun _ => True) (fun _ => trivial) fun count _ => .pure ?_
  have hperm : shuffled.toList.Perm start := by simpa using hshuffled.toList
  have hparts (xs : List Nat) (n : Nat) :
      ((xs.splitAt n).1.mergeSort ++ (xs.splitAt n).2.mergeSort).Perm xs := by
    refine ((List.mergeSort_perm _ _).append (List.mergeSort_perm _ _)).trans ?_
    rw [List.splitAt_eq, List.take_append_drop]
  exact (hparts _ _).trans hperm

/-! An expansion keeps to its start rows and to its size. -/

theorem startsFrom_of_expand [NumericScalar N] {table : String} {ids : List String}
    {start : List Nat} (hpath : JoinPath.assemble s.schema table ids = .ok p.path)
    (hbs : List.Forall₂ (TableBlock.IsPrepared s.schema) p.path.tables bs) (hstart : start.Nodup)
    (hvalid : ∀ row ∈ start, ∀ b ∈ bs.head?, row < b.table.size)
    (hstored : KeysStored s.schema bs p.path.steps) (size : Nat) (gen : G) :
    ∃ w gen', s.expand p bs start size gen = .ok (w, gen') ∧ w.StartsFrom start size := by
  obtain ⟨hnames, hsound⟩ := TableBlock.names_of_prepared hbs
  obtain ⟨hrun, hholds, hnodup, hmem⟩ := run_of_path hpath hnames hsound hstart hvalid hstored
  have hthin := thin_sublist size (complete s.schema p.path bs start) gen
  obtain ⟨w, hcollect, hkeys, -, hrows⟩ := collect_eq_ok (p := p) hsound fun t ht =>
    (hholds t (hthin.1.subset ht)).fits
  have hsize : w.size = w.rowKeys.length := by rw [JoinSample.size, hrows, List.length_map, hkeys]
  refine ⟨w, _, bind_eq_ok.mpr ⟨_, hrun, bind_eq_ok.mpr ⟨w, hcollect, rfl⟩⟩, hsize.symm, ?_, ?_, ?_⟩
  · rw [hsize, hkeys]
    exact hthin.2
  · rw [hkeys]
    exact hnodup.sublist hthin.1
  · intro t ht
    rw [hkeys] at ht
    obtain ⟨hlength, ⟨row, hrow, hin⟩, -⟩ := (hmem t).mp (hthin.1.subset ht)
    have hlength' : t.length = bs.length := by
      rw [hlength, ← hnames, List.length_map]
    obtain ⟨row', hrow', htake⟩ :=
      List.mem_map.mp ((take_one_mem_start hnames hlength').mpr ⟨row, hrow, hin⟩)
    have hhead : (t.take 1).head? = some (some row') := by
      rw [← htake]
      rfl
    refine ⟨row', hrow', ?_⟩
    rwa [List.head?_take, if_neg Nat.one_ne_zero] at hhead

/-- There is a plan for the target, and the tables of its path are there with their key columns. -/
def CanSample (s : Sampler N) (target : SampleTarget) (cache : TableCache N) : Prop :=
  ∃ p bs, s.plan target = .ok p ∧
    (s.blocks (!p.path.steps.isEmpty) p.path.tables cache).1 = .ok bs ∧
    KeysStored s.schema bs p.path.steps

/-- What a plan and its blocks settle about any start rows. -/
structure Prepared (s : Sampler N) (p : SamplePlan N) (bs : List (TableBlock N)) : Prop where
  path : ∃ table ids, JoinPath.assemble s.schema table ids = .ok p.path
  blocks : List.Forall₂ (TableBlock.IsPrepared s.schema) p.path.tables bs
  first : ∃ b, bs.head? = some b ∧ b.table.size = p.storedRows

section

variable {source : RawSource N} {config : PreparationConfig N} {cache : TableCache N}
  {request : SampleRequest N} {rate : N}

theorem prepared_of_plan (hs : s.Serves source config) (hcache : s.Caches cache)
    (hplan : s.plan request.target = .ok p)
    (hblocks : (s.blocks (!p.path.steps.isEmpty) p.path.tables cache).1 = .ok bs) :
    s.Prepared p bs := by
  obtain ⟨hpath, m, hm, hrows, -⟩ := path_of_plan hplan
  have hof := blocks_spec hs hcache hblocks
  obtain ⟨q, hq, rfl⟩ := hs.metadata _ m hm
  exact ⟨hpath, hof.imp fun _ _ hb => hb.isPrepared, first_block hof hq hrows⟩

namespace Prepared

variable (h : s.Prepared p bs) {start : List Nat}
include h

theorem valid (hlt : ∀ row ∈ start, row < p.storedRows) :
    ∀ row ∈ start, ∀ b ∈ bs.head?, row < b.table.size := by
  obtain ⟨first, hhead, hsize⟩ := h.first
  intro row hrow b hb
  cases hhead.symm.trans hb
  exact hsize ▸ hlt row hrow

variable [NumericScalar N]

theorem expand (hstart : start.Nodup) (hlt : ∀ row ∈ start, row < p.storedRows)
    (hstored : KeysStored s.schema bs p.path.steps) (size : Nat) (gen : G) :
    ∃ w gen', s.expand p bs start size gen = .ok (w, gen') ∧ w.StartsFrom start size := by
  obtain ⟨table, ids, hpath⟩ := h.path
  exact startsFrom_of_expand hpath h.blocks hstart (h.valid hlt) hstored size gen

theorem keysStored (hlt : ∀ row ∈ start, row < p.storedRows) {size : Nat} {gen : G}
    {r : JoinSample N × G} (hexpand : s.expand p bs start size gen = .ok r) :
    KeysStored s.schema bs p.path.steps := by
  obtain ⟨table, ids, hpath⟩ := h.path
  obtain ⟨hnames, hsound⟩ := TableBlock.names_of_prepared h.blocks
  obtain ⟨tuples, hrun, -⟩ := bind_eq_ok.mp hexpand
  exact keysStored_of_run hpath hnames hsound (h.valid hlt) hrun

/-- What an expansion lists is admissible. -/
theorem admissible_of_expand (hstart : start.Nodup) (hlt : ∀ row ∈ start, row < p.storedRows)
    {size : Nat} {gen gen' : G} {w : JoinSample N}
    (hexpand : s.expand p bs start size gen = .ok (w, gen')) :
    ∀ t ∈ w.rowKeys, Admissible s.schema p.path bs start t := by
  obtain ⟨table, ids, hpath⟩ := h.path
  obtain ⟨hnames, hsound⟩ := TableBlock.names_of_prepared h.blocks
  obtain ⟨hrun, -, -, hmem⟩ := run_of_path hpath hnames hsound hstart (h.valid hlt)
    (h.keysStored hlt hexpand)
  obtain ⟨all, hall, hexpand⟩ := bind_eq_ok.mp hexpand
  cases hrun.symm.trans hall
  obtain ⟨w', hcollect, heq⟩ := bind_eq_ok.mp hexpand
  cases congrArg Prod.fst (pure_eq_ok.mp heq)
  intro t ht
  rw [rowKeys_of_collect hcollect] at ht
  exact (hmem t).mp ((thin_sublist size _ gen).1.subset ht)

/-- An expansion fails only for a key column that is not stored. -/
theorem expand_of_not_stored (hlt : ∀ row ∈ start, row < p.storedRows)
    (hnot : ¬ KeysStored s.schema bs p.path.steps) (size : Nat) (gen : G) :
    ∃ a, s.schema.KeyOf (p.path.steps.map (·.relationship)) a ∧ ¬ Stored bs a ∧
      s.expand p bs start size gen = .error (.missingKeyColumn a.table a.qualified) := by
  obtain ⟨table, ids, hpath⟩ := h.path
  obtain ⟨hnames, hsound⟩ := TableBlock.names_of_prepared h.blocks
  obtain ⟨a, hkey, hmissing, hrun⟩ := run_of_path_eq_error hpath hnames hsound (h.valid hlt) hnot
  refine ⟨a, hkey, hmissing, ?_⟩
  rw [Sampler.expand, hrun]
  rfl

end Prepared

/-! An answer is an expansion of what is drawn. -/

theorem sample_eq_ok {gen : G} {w : JoinSample N} :
    (s.sample request gen cache).1 = .ok w ↔ ∃ p bs gen', s.plan request.target = .ok p ∧
      (s.blocks (!p.path.steps.isEmpty) p.path.tables cache).1 = .ok bs ∧
      s.expand p bs (s.drawStart p.storedRows (s.rateOf p request) gen).1 request.size
        (s.drawStart p.storedRows (s.rateOf p request) gen).2 = .ok (w, gen') := by
  unfold sample
  cases hplan : s.plan request.target with
  | error e => simp
  | ok p =>
    constructor
    · intro h
      obtain ⟨bs, hbs, h⟩ := bind_eq_ok.mp h
      obtain ⟨⟨v, gen'⟩, hexpand, h⟩ := bind_eq_ok.mp h
      cases pure_eq_ok.mp h
      exact ⟨p, bs, gen', rfl, hbs, hexpand⟩
    · rintro ⟨p', bs, gen', hp, hbs, hexpand⟩
      cases hp
      exact bind_eq_ok.mpr ⟨bs, hbs, bind_eq_ok.mpr ⟨_, hexpand, rfl⟩⟩

/-- The start rows of both parts, and the size of the second. -/
def shares (s : Sampler N) (p : SamplePlan N) (request : SampleRequest N) (rate : N) :
    StateM G ((List Nat × List Nat) × Nat) := do
  let start ← s.drawStart p.storedRows (s.rateOf p request)
  let parts ← split rate start
  let wanted ← probabilityRound (Scalar.ofNat request.size * rate)
  return (parts, min wanted request.size)

theorem shares_valid (p : SamplePlan N) (request : SampleRequest N) (rate : N) :
    Always (s.shares p request rate : StateM G ((List Nat × List Nat) × Nat)) fun d =>
      (d.1.1 ++ d.1.2).Nodup ∧ (∀ row ∈ d.1.1 ++ d.1.2, row < p.storedRows) ∧
        d.2 ≤ request.size := by
  refine .bind (drawStart_valid s _ _) fun start hstart => ?_
  refine .bind (split_perm rate start) fun parts hparts => ?_
  refine .bind (P := fun _ => True) (fun _ => trivial) fun wanted _ => .pure ?_
  refine ⟨hparts.nodup_iff.mpr hstart.1, fun row hrow => hstart.2 row (hparts.subset hrow), ?_⟩
  exact Nat.min_le_right _ _

theorem sampleWithIncremental_eq_ok (hpos : Scalar.lt 0 rate = true) (hone : Scalar.lt rate 1 = true)
    {gen : G} {a b : JoinSample N} :
    (s.sampleWithIncremental request rate gen cache).1 = .ok (a, b) ↔
      ∃ p bs gen' gen'', s.plan request.target = .ok p ∧
        (s.blocks (!p.path.steps.isEmpty) p.path.tables cache).1 = .ok bs ∧
        s.expand p bs (s.shares p request rate gen).1.1.1
          (request.size - (s.shares p request rate gen).1.2) (s.shares p request rate gen).2 =
            .ok (a, gen') ∧
        s.expand p bs (s.shares p request rate gen).1.1.2 (s.shares p request rate gen).1.2 gen' =
          .ok (b, gen'') := by
  unfold sampleWithIncremental
  rw [hpos, hone]
  cases hplan : s.plan request.target with
  | error e => simp
  | ok p =>
    constructor
    · intro h
      obtain ⟨bs, hbs, h⟩ := bind_eq_ok.mp h
      obtain ⟨⟨v, gen'⟩, hfirst, h⟩ := bind_eq_ok.mp h
      obtain ⟨⟨v', gen''⟩, hsecond, h⟩ := bind_eq_ok.mp h
      cases pure_eq_ok.mp h
      exact ⟨p, bs, gen', gen'', rfl, hbs, hfirst, hsecond⟩
    · rintro ⟨p', bs, gen', gen'', hp, hbs, hfirst, hsecond⟩
      cases hp
      exact bind_eq_ok.mpr ⟨bs, hbs, bind_eq_ok.mpr ⟨_, hfirst, bind_eq_ok.mpr ⟨_, hsecond, rfl⟩⟩⟩

section

variable [NumericScalar N] (hs : s.Serves source config) (hcache : s.Caches cache)
include hs hcache

theorem exists_sample_iff (request : SampleRequest N) (gen : G) :
    (∃ w, (s.sample request gen cache).1 = .ok w) ↔ s.CanSample request.target cache := by
  constructor
  · rintro ⟨w, h⟩
    obtain ⟨p, bs, gen', hplan, hblocks, hexpand⟩ := sample_eq_ok.mp h
    have hprepared := prepared_of_plan hs hcache hplan hblocks
    exact ⟨p, bs, hplan, hblocks, hprepared.keysStored (drawStart_valid s _ _ gen).2 hexpand⟩
  · rintro ⟨p, bs, hplan, hblocks, hstored⟩
    obtain ⟨hnodup, hlt⟩ := drawStart_valid s p.storedRows (s.rateOf p request) gen
    obtain ⟨w, gen', hexpand, -⟩ := (prepared_of_plan hs hcache hplan hblocks).expand hnodup hlt
      hstored request.size (s.drawStart p.storedRows (s.rateOf p request) gen).2
    exact ⟨w, sample_eq_ok.mpr ⟨p, bs, gen', hplan, hblocks, hexpand⟩⟩

theorem startsFrom_of_sample {gen : G} {w : JoinSample N}
    (h : (s.sample request gen cache).1 = .ok w) : ∃ start, w.StartsFrom start request.size := by
  obtain ⟨p, bs, gen', hplan, hblocks, hexpand⟩ := sample_eq_ok.mp h
  have hprepared := prepared_of_plan hs hcache hplan hblocks
  obtain ⟨hnodup, hlt⟩ := drawStart_valid s p.storedRows (s.rateOf p request) gen
  obtain ⟨v, gen'', hexpand', hv⟩ := hprepared.expand hnodup hlt (hprepared.keysStored hlt hexpand)
    request.size (s.drawStart p.storedRows (s.rateOf p request) gen).2
  cases hexpand.symm.trans hexpand'
  exact ⟨_, hv⟩

variable (hpos : Scalar.lt 0 rate = true) (hone : Scalar.lt rate 1 = true)
include hpos hone

theorem exists_parts_iff (request : SampleRequest N) (gen : G) :
    (∃ parts, (s.sampleWithIncremental request rate gen cache).1 = .ok parts) ↔
      s.CanSample request.target cache := by
  constructor
  · rintro ⟨⟨a, b⟩, h⟩
    obtain ⟨p, bs, gen', gen'', hplan, hblocks, hfirst, -⟩ :=
      (sampleWithIncremental_eq_ok hpos hone).mp h
    obtain ⟨-, hlt, -⟩ := shares_valid (s := s) p request rate gen
    have hprepared := prepared_of_plan hs hcache hplan hblocks
    exact ⟨p, bs, hplan, hblocks,
      hprepared.keysStored (fun row hrow => hlt row (List.mem_append_left _ hrow)) hfirst⟩
  · rintro ⟨p, bs, hplan, hblocks, hstored⟩
    obtain ⟨hnodup, hlt, -⟩ := shares_valid (s := s) p request rate gen
    obtain ⟨hnodup, hnodup', -⟩ := List.nodup_append'.mp hnodup
    have hprepared := prepared_of_plan hs hcache hplan hblocks
    obtain ⟨a, gen', hfirst, -⟩ := hprepared.expand hnodup
      (fun row hrow => hlt row (List.mem_append_left _ hrow)) hstored
      (request.size - (s.shares p request rate gen).1.2) (s.shares p request rate gen).2
    obtain ⟨b, gen'', hsecond, -⟩ := hprepared.expand hnodup'
      (fun row hrow => hlt row (List.mem_append_right _ hrow)) hstored
      (s.shares p request rate gen).1.2 gen'
    exact ⟨(a, b), (sampleWithIncremental_eq_ok hpos hone).mpr
      ⟨p, bs, gen', gen'', hplan, hblocks, hfirst, hsecond⟩⟩

theorem startsFrom_of_parts {gen : G} {a b : JoinSample N}
    (h : (s.sampleWithIncremental request rate gen cache).1 = .ok (a, b)) :
    ∃ start start' size, start.Disjoint start' ∧ size ≤ request.size ∧
      a.StartsFrom start (request.size - size) ∧ b.StartsFrom start' size := by
  obtain ⟨p, bs, gen', gen'', hplan, hblocks, hfirst, hsecond⟩ :=
    (sampleWithIncremental_eq_ok hpos hone).mp h
  obtain ⟨hnodup, hlt, hsize⟩ := shares_valid (s := s) p request rate gen
  obtain ⟨hnodup, hnodup', hdisjoint⟩ := List.nodup_append'.mp hnodup
  have hlt' := fun row hrow => hlt row (List.mem_append_left _ hrow)
  have hlt'' := fun row hrow => hlt row (List.mem_append_right _ hrow)
  have hprepared := prepared_of_plan hs hcache hplan hblocks
  have hstored := hprepared.keysStored hlt' hfirst
  obtain ⟨v, _, hfirst', hv⟩ := hprepared.expand hnodup hlt' hstored
    (request.size - (s.shares p request rate gen).1.2) (s.shares p request rate gen).2
  obtain ⟨v', _, hsecond', hv'⟩ := hprepared.expand hnodup' hlt'' hstored
    (s.shares p request rate gen).1.2 gen'
  cases hfirst.symm.trans hfirst'
  cases hsecond.symm.trans hsecond'
  exact ⟨_, _, _, hdisjoint, hsize, hv, hv'⟩

end

/-- A sample has no more rows than were asked for, all different. The parts of an incremental sample
have no more together and no start row in common. Whether there is an answer is not left to chance. -/
theorem samples_are_disjoint_choices [NumericScalar N] (hs : s.Serves source config)
    (hcache : s.Caches cache) (request : SampleRequest N) (gen : G) :
    ((∃ w, (s.sample request gen cache).1 = .ok w) ↔ s.CanSample request.target cache) ∧
    (∀ w, (s.sample request gen cache).1 = .ok w →
      w.rowKeys.length = w.size ∧ w.size ≤ request.size ∧ w.rowKeys.Nodup) ∧
    ∀ rate : N, Scalar.lt 0 rate = true → Scalar.lt rate 1 = true →
      ((∃ parts, (s.sampleWithIncremental request rate gen cache).1 = .ok parts) ↔
        s.CanSample request.target cache) ∧
      ∀ a b, (s.sampleWithIncremental request rate gen cache).1 = .ok (a, b) →
        a.size + b.size ≤ request.size ∧
        (a.rowKeys.length = a.size ∧ a.rowKeys.Nodup ∧ a.startRows.length = a.size) ∧
        (b.rowKeys.length = b.size ∧ b.rowKeys.Nodup ∧ b.startRows.length = b.size) ∧
        a.startRows.Disjoint b.startRows ∧ a.rowKeys.Disjoint b.rowKeys := by
  refine ⟨exists_sample_iff hs hcache request gen, fun w h => ?_, fun rate hpos hone => ?_⟩
  · obtain ⟨start, hw⟩ := startsFrom_of_sample hs hcache h
    exact ⟨hw.keyed, hw.bounded, hw.nodup⟩
  · refine ⟨exists_parts_iff hs hcache hpos hone request gen, fun a b h => ?_⟩
    obtain ⟨start, start', size, hdisjoint, hsize, ha, hb⟩ :=
      startsFrom_of_parts hs hcache hpos hone h
    have htotal : a.size + b.size ≤ request.size := by
      have hfirst := ha.bounded
      have hsecond := hb.bounded
      omega
    exact ⟨htotal, ⟨ha.keyed, ha.nodup, ha.length_startRows⟩,
      ⟨hb.keyed, hb.nodup, hb.length_startRows⟩, ha.disjoint hb hdisjoint⟩

end

end Sampler

namespace Shop

theorem plan_path :
    ∃ p, sampler.plan (.relationships relationships) = .ok p ∧ p.path = path :=
  exists_eq_ok_of_any (by decide +kernel)

theorem canSample : sampler.CanSample (.relationships relationships) sampler.freshCache := by
  obtain ⟨p, hp, hpath⟩ := plan_path
  obtain ⟨bs, hblocks, hstored, -, -⟩ := exists_blocks
  refine ⟨p, bs, hp, ?_, ?_⟩
  · rw [hpath]
    exact hblocks
  · rw [hpath]
    exact hstored

/-- Two customers shared out between two samples of two rows together. -/
theorem samples_are_disjoint_choices_halves : ∃ a b,
    (sampler.sampleWithIncremental ⟨.relationships relationships, 2, none⟩ (1 / 2) (ChaCha.ofSeed 0)
      sampler.freshCache).1 = .ok (a, b) ∧
    a.size + b.size ≤ 2 ∧ a.rowKeys.Nodup ∧ b.rowKeys.Nodup ∧ a.startRows.Disjoint b.startRows := by
  obtain ⟨-, -, hparts⟩ := Sampler.samples_are_disjoint_choices
    (Sampler.ofPrepared_serves schema source .standard .standard)
    (Sampler.caches_freshCache sampler) ⟨.relationships relationships, 2, none⟩ (ChaCha.ofSeed 0)
  obtain ⟨hexists, hshared⟩ := hparts (1 / 2) (by decide +kernel) (by decide +kernel)
  obtain ⟨⟨a, b⟩, h⟩ := hexists.mpr canSample
  obtain ⟨hsize, ⟨-, ha, -⟩, ⟨-, hb, -⟩, hdisjoint, -⟩ := hshared a b h
  exact ⟨a, b, h, hsize, ha, hb, hdisjoint⟩

end Shop

end ApproxQuery
