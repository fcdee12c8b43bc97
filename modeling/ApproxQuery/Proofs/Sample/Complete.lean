import ApproxQuery.Proofs.Prepare.Columns
import ApproxQuery.Proofs.Random.Indices
import ApproxQuery.Proofs.Sample.OuterJoin
import ApproxQuery.Proofs.Schema.Built
import ApproxQuery.Sample.Sampler

/-!
# The rows of an expanded sample

A sample lists every admissible tuple of its path once, or as many of them as it may hold. The only
way for the expansion to fail is that a key column is not stored.
-/

namespace ApproxQuery

namespace Expansion

theorem filterMap_range_getElem? {α : Type} (xs : List α) :
    (List.range xs.length).filterMap (xs[·]?) = xs := by
  induction xs using List.reverseRecOn with
  | nil => rfl
  | append_singleton xs x ih =>
    have hcongr : (List.range xs.length).filterMap ((xs ++ [x])[·]?) =
        (List.range xs.length).filterMap (xs[·]?) :=
      List.filterMap_congr fun i hi => List.getElem?_append_left (List.mem_range.mp hi)
    rw [List.length_append, List.length_singleton, List.range_succ, List.filterMap_append, hcongr, ih]
    simp

theorem sublist_of_places {α : Type} {xs : List α} {is : List Nat} (hlt : ∀ i ∈ is, i < xs.length)
    (hsorted : is.Pairwise (· < ·)) :
    (is.filterMap (xs[·]?)).Sublist xs ∧ (is.filterMap (xs[·]?)).length = is.length := by
  have hsub : is.Sublist (List.range xs.length) := by
    refine List.sublist_of_subperm_of_pairwise (r := (· < ·)) ?_ hsorted ?_
    · have hnodup : is.Nodup := hsorted.imp Nat.ne_of_lt
      exact hnodup.subperm fun i hi => List.mem_range.mpr (hlt i hi)
    · exact List.pairwise_lt_range
  constructor
  · have hall := hsub.filterMap (xs[·]?)
    rwa [filterMap_range_getElem?] at hall
  · rw [List.length_filterMap_eq_countP, List.countP_eq_length]
    intro i hi
    simp [hlt i hi]

variable {G : Type} [Generator G]

/-- Thinning keeps a list that is not too long, and as many members of a longer one. -/
theorem thin_spec (size : Nat) (ts : List JoinTuple) (gen : G) :
    (ts.length ≤ size → (thin size ts gen).1 = ts) ∧
      (size < ts.length → (thin size ts gen).1.Sublist ts ∧ (thin size ts gen).1.length = size) := by
  constructor
  · intro h
    simp [thin, Nat.not_lt.mpr h, pure, StateT.pure]
  · intro h
    have his := Draw.sortedIndices_isChoice (G := G) h.le gen
    obtain ⟨hchoice, hsorted⟩ := his
    have hthin : (thin size ts gen).1 =
        (Draw.sortedIndices ts.length size gen).1.filterMap (ts[·]?) := by
      unfold thin
      rw [if_pos h]
      change ((Draw.sortedIndices ts.length size gen).1.filterMap (ts.toArray[·]?)) = _
      simp
    obtain ⟨hsub, hlen⟩ := sublist_of_places hchoice.lt hsorted
    rw [hthin]
    exact ⟨hsub, hlen.trans hchoice.size⟩

theorem thin_sublist (size : Nat) (ts : List JoinTuple) (gen : G) :
    (thin size ts gen).1.Sublist ts ∧ (thin size ts gen).1.length ≤ size := by
  obtain ⟨hfew, hmany⟩ := thin_spec size ts gen
  rcases Nat.lt_or_ge size ts.length with hlt | hle
  · exact ⟨(hmany hlt).1, (hmany hlt).2.le⟩
  · rw [hfew hle]
    exact ⟨.refl _, hle⟩

/-! A step fails if a key column is not stored, and only then. -/

variable {N : Type} [Scalar N] {g : Schema N} {bs : List (TableBlock N)} {joined rest : List String}
  {steps : List JoinStep} {ts : List JoinTuple}

theorem side_of_not_stored {a : AttributeRef} (hbs : bs.map TableBlock.name = joined ++ rest)
    (hnodup : (bs.map TableBlock.name).Nodup) (h : a.table ∈ joined) (hnot : ¬ Stored bs a) :
    side bs a.table a.name = .error (.missingKeyColumn a.table a.qualified) := by
  obtain ⟨place, c, hplace, -, hc, hname⟩ := placeOf?_of_mem hbs h
  have hplace' : bs.findIdx? (·.name == a.table) = some place := hplace
  have hstores : ¬ c.Stores a.name := by
    intro hstores
    apply hnot
    intro d hd hdname
    have hsame : d = c := List.inj_on_of_nodup_map hnodup hd (List.mem_of_getElem? hc)
      (hdname.trans hname.symm)
    exact hsame ▸ hstores
  simp [side, hplace', hc, TableBlock.keys_of_not_stores hstores, hname, AttributeRef.qualified, bind,
    Except.bind]

theorem step_of_not_stored {s : JoinStep} {r : Relationship} (hsound : ∀ c ∈ bs, c.Sound)
    (known : g.relationship s.relationship = .ok r) (hbs : bs.map TableBlock.name = joined ++ rest)
    (hnodup : (bs.map TableBlock.name).Nodup) (source : r.source ∈ joined)
    (target : r.target ∈ joined) (hnot : ¬ (Stored bs r.sourceKey ∧ Stored bs r.targetKey)) :
    ∃ a, (a = r.sourceKey ∨ a = r.targetKey) ∧ ¬ Stored bs a ∧
      step g bs ts s = .error (.missingKeyColumn a.table a.qualified) := by
  have hknown : (g.relationship s.relationship).mapError SampleError.schema = .ok r := by
    rw [known]
    rfl
  unfold step
  rw [hknown]
  by_cases hss : Stored bs r.sourceKey
  · have hst : ¬ Stored bs r.targetKey := fun hst => hnot ⟨hss, hst⟩
    obtain ⟨place, c, hside, -⟩ := isSide_of_mem (a := r.sourceKey) hbs hsound source hss
    have herror := side_of_not_stored (a := r.targetKey) hbs hnodup target hst
    refine ⟨r.targetKey, .inr rfl, hst, ?_⟩
    have hok := hside.side_eq
    simp only [Relationship.sourceKey, Relationship.targetKey] at hok herror
    simp [hok, herror, bind, Except.bind, Relationship.targetKey]
  · have herror := side_of_not_stored (a := r.sourceKey) hbs hnodup source hss
    refine ⟨r.sourceKey, .inl rfl, hss, ?_⟩
    simp only [Relationship.sourceKey] at herror
    simp [herror, bind, Except.bind, Relationship.sourceKey]

/-- The error names a key column that is not stored. -/
theorem missingKeyColumn_of_not_stored (hsound : ∀ c ∈ bs, c.Sound) (h : JoinPath.Chain g joined steps)
    (hbs : bs.map TableBlock.name = joined ++ JoinPath.added steps)
    (hnodup : (bs.map TableBlock.name).Nodup) (hts : ∀ t ∈ ts, Holds bs joined t)
    (hnot : ¬ KeysStored g bs steps) :
    ∃ a, g.KeyOf (steps.map (·.relationship)) a ∧ ¬ Stored bs a ∧
      steps.foldlM (step g bs) ts = .error (.missingKeyColumn a.table a.qualified) := by
  induction steps generalizing joined ts with
  | nil => exact absurd (fun s hs => absurd hs List.not_mem_nil) hnot
  | cons s steps ih =>
    obtain ⟨r, known, source, target⟩ := h.ends
    have hbs' : bs.map TableBlock.name =
        (joined ++ s.newTable?.toList) ++ JoinPath.added steps := by
      rw [hbs, List.append_assoc, JoinPath.added_cons]
    by_cases hstored : Stored bs r.sourceKey ∧ Stored bs r.targetKey
    · have hsame (r' : Relationship) (known' : g.relationship s.relationship = .ok r') :
          Stored bs r'.sourceKey ∧ Stored bs r'.targetKey := by
        cases known.symm.trans known'
        exact hstored
      obtain ⟨r', known', hstep⟩ := stepResult_of_chain hsound h hbs hsame hts
      have hrest : ¬ KeysStored g bs steps := by
        intro hkeys
        apply hnot
        intro x hx
        rcases List.mem_cons.mp hx with rfl | hx
        · exact hsame
        · exact hkeys x hx
      obtain ⟨a, ⟨id, hid, hkey⟩, hmissing, herror⟩ := ih h.tail hbs' hstep.holds hrest
      refine ⟨a, ⟨id, List.mem_cons_of_mem _ hid, hkey⟩, hmissing, ?_⟩
      rw [List.foldlM_cons, hstep.run]
      exact herror
    · obtain ⟨a, hkey, hmissing, herror⟩ :
          ∃ a, (a = r.sourceKey ∨ a = r.targetKey) ∧ ¬ Stored bs a ∧
            step g bs ts s = .error (.missingKeyColumn a.table a.qualified) :=
        step_of_not_stored hsound known hbs' hnodup source target hstored
      refine ⟨a, ⟨s.relationship, List.mem_cons_self, r, known, hkey⟩, hmissing, ?_⟩
      rw [List.foldlM_cons, herror]
      rfl

theorem run_of_not_stored (hsound : ∀ c ∈ bs, c.Sound) (h : JoinPath.Chain g joined steps)
    (hbs : bs.map TableBlock.name = joined ++ JoinPath.added steps)
    (hnodup : (bs.map TableBlock.name).Nodup) (hts : ∀ t ∈ ts, Holds bs joined t)
    (hnot : ¬ KeysStored g bs steps) :
    ∃ table column, steps.foldlM (step g bs) ts = .error (.missingKeyColumn table column) := by
  obtain ⟨a, -, -, herror⟩ := missingKeyColumn_of_not_stored hsound h hbs hnodup hts hnot
  exact ⟨a.table, a.qualified, herror⟩

/-- The tuple holds a start row, and what every step of the path allows. -/
structure Admissible (g : Schema N) (p : JoinPath) (bs : List (TableBlock N)) (start : List Nat)
    (t : JoinTuple) : Prop where
  length : t.length = p.tables.length
  start : ∃ row ∈ start, rowIn bs t p.start = some row
  obeys : ∀ s ∈ p.steps, Obeys g bs t s

omit [Scalar N] in
theorem take_one_mem_start {p : JoinPath} {start : List Nat} {t : JoinTuple}
    (hbs : bs.map TableBlock.name = p.tables) (hlen : t.length = bs.length) :
    t.take 1 ∈ start.map (fun row => [some row]) ↔ ∃ row ∈ start, rowIn bs t p.start = some row := by
  have hnames : bs.map TableBlock.name = [] ++ p.start :: JoinPath.added p.steps := hbs
  have hrow : rowIn bs t p.start = (t[0]?).join := rowIn_new hnames List.not_mem_nil
  have hlength := congrArg List.length hbs
  rw [List.length_map] at hlength
  cases t with
  | nil => simp [JoinPath.tables, ← hlen] at hlength
  | cons x t =>
    rw [hrow]
    simp [eq_comm]

omit [Scalar N] in
theorem holds_start {start : List Nat} {table : String} {b : TableBlock N} (hb : bs.head? = some b)
    (hvalid : ∀ row ∈ start, row < b.table.size) :
    ∀ t ∈ start.map (fun row => [some row]), Holds bs [table] t := by
  intro t ht
  obtain ⟨row, hrow, rfl⟩ := List.mem_map.mp ht
  refine ⟨rfl, fun place row' hget => ?_⟩
  cases place with
  | zero =>
    cases hget
    exact ⟨b, by rwa [← List.head?_eq_getElem?], hvalid row hrow⟩
  | succ place => cases hget

/-- The tuples that the start rows expand to along a path. -/
def complete (g : Schema N) (p : JoinPath) (bs : List (TableBlock N)) (start : List Nat) :
    List JoinTuple :=
  expanded g bs p.steps (start.map fun row => [some row])

/-- The expansion along an assembled path gives every admissible tuple once. -/
theorem run_of_path {p : JoinPath} {table : String} {ids : List String} {start : List Nat}
    (hpath : JoinPath.assemble g table ids = .ok p) (hbs : bs.map TableBlock.name = p.tables)
    (hsound : ∀ c ∈ bs, c.Sound) (hstart : start.Nodup)
    (hvalid : ∀ row ∈ start, ∀ b ∈ bs.head?, row < b.table.size)
    (hstored : KeysStored g bs p.steps) :
    run g bs p.steps start = .ok (complete g p bs start) ∧
      (∀ t ∈ complete g p bs start, Holds bs p.tables t) ∧ (complete g p bs start).Nodup ∧
      ∀ t, t ∈ complete g p bs start ↔ Admissible g p bs start t := by
  obtain ⟨hstarts, hchain⟩ := JoinPath.assemble_isChain hpath
  rw [← hstarts] at hchain
  obtain ⟨b, hb⟩ : ∃ b, bs.head? = some b := by
    cases bs with
    | nil => cases hbs
    | cons b bs => exact ⟨b, rfl⟩
  have hholds : ∀ t ∈ start.map (fun row => [some row]), Holds bs [p.start] t :=
    holds_start hb fun row hrow => hvalid row hrow b hb
  have hnodup : (start.map fun row => [some row]).Nodup :=
    hstart.map fun i j hij => by simpa using hij
  obtain ⟨hrun, hall, hnext, hmem⟩ := run_of_chain hsound hchain hbs hstored hholds hnodup
  refine ⟨hrun, hall, hnext, fun t => (hmem t).trans ?_⟩
  have hlength := congrArg List.length hbs
  rw [List.length_map] at hlength
  constructor
  · rintro ⟨hlen, htake, hobeys⟩
    exact ⟨hlen.trans hlength, (take_one_mem_start hbs hlen).mp htake, hobeys⟩
  · rintro ⟨hlen, hrow, hobeys⟩
    have hlen' := hlen.trans hlength.symm
    exact ⟨hlen', (take_one_mem_start hbs hlen').mpr hrow, hobeys⟩

/-- Along an assembled path the expansion fails for a key column that is not stored. -/
theorem run_of_path_eq_error {p : JoinPath} {table : String} {ids : List String} {start : List Nat}
    (hpath : JoinPath.assemble g table ids = .ok p) (hbs : bs.map TableBlock.name = p.tables)
    (hsound : ∀ c ∈ bs, c.Sound) (hvalid : ∀ row ∈ start, ∀ b ∈ bs.head?, row < b.table.size)
    (hnot : ¬ KeysStored g bs p.steps) :
    ∃ a, g.KeyOf (p.steps.map (·.relationship)) a ∧ ¬ Stored bs a ∧
      run g bs p.steps start = .error (.missingKeyColumn a.table a.qualified) := by
  obtain ⟨hstarts, hchain⟩ := JoinPath.assemble_isChain hpath
  rw [← hstarts] at hchain
  obtain ⟨b, hb⟩ : ∃ b, bs.head? = some b := by
    cases bs with
    | nil => cases hbs
    | cons b bs => exact ⟨b, rfl⟩
  have hdistinct : (bs.map TableBlock.name).Nodup := by
    rw [hbs]
    exact hchain.nodup (List.nodup_singleton _)
  exact missingKeyColumn_of_not_stored hsound hchain hbs hdistinct
    (holds_start hb fun row hrow => hvalid row hrow b hb) hnot

/-- The start rows expand along an assembled path only if its key columns are stored. -/
theorem keysStored_of_run {p : JoinPath} {table : String} {ids : List String} {start : List Nat}
    (hpath : JoinPath.assemble g table ids = .ok p) (hbs : bs.map TableBlock.name = p.tables)
    (hsound : ∀ c ∈ bs, c.Sound) (hvalid : ∀ row ∈ start, ∀ b ∈ bs.head?, row < b.table.size)
    (hrun : run g bs p.steps start = .ok ts) : KeysStored g bs p.steps := by
  by_contra hnot
  obtain ⟨a, -, -, herror⟩ := run_of_path_eq_error hpath hbs hsound hvalid hnot
  cases hrun.symm.trans herror

end Expansion

namespace TableBlock

variable {N : Type} {g : Schema N} {names : List String} {bs : List (TableBlock N)}

/-- A stored multiplier is kept with its defined multiplier, unless it is irrelevant. -/
theorem mem_multipliers {t : Table N} {data : EncodedTable N} {metadata : TableMetadata N}
    {joined : Bool} {b : TableBlock N} (h : ofTable g t data metadata joined = .ok b) (hg : g.Linked)
    {r : Relationship} (hr : r ∈ g.relationships) (ht : g.table r.target = .ok t)
    (hrelevant : r.multiplierName ∉ t.irrelevant) {place : Nat}
    (hplace : data.columnIndex? r.multiplier.qualified = some place) :
    (place, r.definedMultiplier.qualified) ∈ b.multipliers := by
  obtain ⟨-, -, -, -, hkept, ⟨rs, hrs, hmultipliers⟩, -⟩ := ofTable_eq_ok h
  have hname : t.name = r.target := Schema.name_of_table ht
  rw [hname, hg.incoming_eq ht] at hrs
  cases hrs
  have hmem : place ∈ b.kept := by
    obtain ⟨hlt, hfound, -⟩ := List.findIdx?_eq_some_iff_getElem.mp hplace
    refine (hkept place).mpr ⟨_, List.getElem?_eq_getElem hlt, ?_⟩
    rw [beq_iff_eq.mp hfound, hname]
    intro hirrelevant
    obtain ⟨a, ha, heq⟩ := List.mem_map.mp hirrelevant
    have hsame : a = r.multiplierName := qualify_inj.mp heq
    exact hrelevant (hsame ▸ ha)
  rw [hmultipliers]
  refine List.mem_filterMap.mpr ⟨r, List.mem_filter.mpr ⟨hr, beq_self_eq_true r.target⟩, ?_⟩
  rw [hplace, Option.bind_some, if_pos (List.contains_iff_mem.mpr hmem)]

variable [Scalar N] [NumericScalar N]

theorem names_of_prepared (h : List.Forall₂ (IsPrepared g) names bs) :
    bs.map TableBlock.name = names ∧ ∀ b ∈ bs, b.Sound := by
  induction h with
  | nil => exact ⟨rfl, by simp⟩
  | @cons name b names bs hb _ ih =>
    obtain ⟨hname, hsound⟩ := hb.sound
    refine ⟨congrArg₂ List.cons hname ih.1, fun c hc => ?_⟩
    rcases List.mem_cons.mp hc with rfl | hc
    · exact hsound
    · exact ih.2 c hc

end TableBlock

namespace Sampler

open Expansion

variable {N G : Type} [Scalar N] [Generator G] {s : Sampler N}
  {p : SamplePlan N} {bs : List (TableBlock N)}

theorem collect_eq_ok {ts : List JoinTuple} (hsound : ∀ c ∈ bs, c.Sound)
    (hfits : ∀ t ∈ ts, Fits bs t) :
    ∃ sample, collect p bs ts = .ok sample ∧ sample.rowKeys = ts ∧
      sample.columns = bs.flatMap (·.columns) ∧
      sample.rows = ts.map fun t => ((bs.zip t).map fun (b, row) => b.cellList row).flatten := by
  have hrows : (ts.mapM fun t => do
      return (← (bs.zip t).mapM fun (b, row) => b.cells row).flatten : Except SampleError (List (List N))) =
        .ok (ts.map fun t => ((bs.zip t).map fun (b, row) => b.cellList row).flatten) := by
    apply mapM_eq_ok_map
    intro t ht
    have hcells : (bs.zip t).mapM (fun (b, row) => b.cells row) =
        .ok ((bs.zip t).map fun (b, row) => b.cellList row) := by
      apply mapM_eq_ok_map
      intro x hx
      obtain ⟨place, hplace⟩ := List.getElem?_of_mem hx
      obtain ⟨hb, hrow⟩ := List.getElem?_zip_eq_some.mp hplace
      apply (hsound x.1 (List.mem_of_getElem? hb)).cells_eq
      intro row hrow'
      obtain ⟨c, hc, hlt⟩ := hfits t ht place row (by rw [hrow]; exact congrArg some hrow')
      cases hb.symm.trans hc
      exact hlt
    rw [hcells]
    rfl
  exact ⟨_, bind_eq_ok.mpr ⟨_, hrows, rfl⟩, rfl, rfl, rfl⟩

omit [Generator G] in
theorem rowKeys_of_collect {ts : List JoinTuple} {w : JoinSample N} (h : collect p bs ts = .ok w) :
    w.rowKeys = ts := by
  obtain ⟨rows, -, hrows⟩ := bind_eq_ok.mp h
  exact congrArg JoinSample.rowKeys (pure_eq_ok.mp hrows).symm

/-- The sampler hands out the tables that preparation makes of the source. -/
structure Serves (s : Sampler N) (source : RawSource N) (config : PreparationConfig N) : Prop where
  load : ∀ name data, s.load name = .ok data →
    ∃ p, s.schema.prepare source config name = .ok p ∧ p.table = data
  metadata : ∀ name m, s.metadata.get? name = some m →
    ∃ p, s.schema.prepare source config name = .ok p ∧ p.metadata = m

/-- The sampler over the prepared tables of a schema. -/
def ofPrepared (g : Schema N) (source : RawSource N) (config : PreparationConfig N)
    (sampling : SamplingConfig N) : Sampler N where
  schema := g
  load name :=
    ((g.prepare source config name).map PreparedTable.table).mapError fun _ => .missingTable name
  metadata := .ofList (g.tables.filterMap fun t =>
    (g.prepare source config t.name).toOption.map fun p => (t.name, p.metadata))
  config := sampling

theorem ofPrepared_serves (g : Schema N) (source : RawSource N) (config : PreparationConfig N)
    (sampling : SamplingConfig N) : (ofPrepared g source config sampling).Serves source config := by
  constructor
  · intro name data h
    obtain ⟨p, hp, hdata⟩ := map_eq_ok.mp (mapError_eq_ok.mp h)
    exact ⟨p, hp, hdata⟩
  · intro name m h
    obtain ⟨t, _, ht⟩ := List.mem_filterMap.mp (SortedMap.mem_of_get?_ofList h)
    obtain ⟨p, hp, hpair⟩ := Option.map_eq_some_iff.mp ht
    cases hpair
    cases hprepare : g.prepare source config t.name with
    | error e => simp [hprepare, Except.toOption] at hp
    | ok q =>
      simp only [hprepare, Except.toOption, Option.some.injEq] at hp
      exact ⟨q, hprepare, congrArg PreparedTable.metadata hp⟩

/-- The cache holds tables as they are read. -/
def Caches (s : Sampler N) (cache : TableCache N) : Prop :=
  ∀ name data, cache.get? name = some data → s.load name = .ok data

omit [Scalar N] in
theorem caches_freshCache (s : Sampler N) : s.Caches s.freshCache := by
  intro name data h
  cases h

omit [Scalar N] in
theorem getOrLoad_spec {cache : TableCache N} (h : s.Caches cache) (name : String) :
    (cache.getOrLoad name s.load).1 = s.load name ∧ s.Caches (cache.getOrLoad name s.load).2 := by
  unfold TableCache.getOrLoad
  cases hget : cache.get? name with
  | some data => exact ⟨(h name data hget).symm, h⟩
  | none =>
    dsimp only
    cases hload : s.load name with
    | error e => exact ⟨rfl, h⟩
    | ok data =>
      refine ⟨rfl, ?_⟩
      dsimp only
      split
      · exact h
      · intro name' data' hdata
        by_cases hname : name' = name
        · subst hname
          rw [TableCache.get?, SortedMap.get?_insert_self] at hdata
          cases hdata
          exact hload
        · rw [TableCache.get?, SortedMap.get?_insert_of_ne hname] at hdata
          exact h name' data' hdata

/-- The blocks of a sampler that serves a source, with the preparation of their tables. -/
structure BlockOf (g : Schema N) (source : RawSource N) (config : PreparationConfig N)
    (joined : Bool) (name : String) (b : TableBlock N) : Prop where
  prepared : ∃ p t, g.prepare source config name = .ok p ∧ g.table name = .ok t ∧
    TableBlock.ofTable g t p.table p.metadata joined = .ok b

omit [Scalar N] in
theorem tableMetadata_eq_ok {table : String} {m : TableMetadata N}
    (h : s.tableMetadata table = .ok m) : s.metadata.get? table = some m := by
  unfold tableMetadata at h
  split at h
  · rename_i m' hm'
    cases h
    exact hm'
  · cases h

/-- The block is made of what is stored of its table. -/
def Loads (s : Sampler N) (joined : Bool) (name : String) (b : TableBlock N) : Prop :=
  ∃ t data m, s.schema.table name = .ok t ∧ s.load name = .ok data ∧
    s.metadata.get? name = some m ∧ TableBlock.ofTable s.schema t data m joined = .ok b

omit [Scalar N] in
theorem block_loads {cache : TableCache N} (h : s.Caches cache) (joined : Bool) (name : String) :
    s.Caches (s.block joined name cache).2 ∧ ∀ b, (s.block joined name cache).1 = .ok b →
      s.Loads joined name b := by
  obtain ⟨hval, hcache⟩ := getOrLoad_spec h name
  unfold block
  cases ht : s.schema.table name with
  | error e => exact ⟨h, fun b hb => by cases hb⟩
  | ok t =>
    dsimp only
    cases hload : cache.getOrLoad name s.load with
    | mk r next =>
      rw [hload] at hval hcache
      cases r with
      | error e => exact ⟨hcache, fun b hb => by cases hb⟩
      | ok data =>
        refine ⟨hcache, fun b hb => ?_⟩
        obtain ⟨m, hm, hb⟩ := bind_eq_ok.mp hb
        exact ⟨t, data, m, ht, hval.symm, tableMetadata_eq_ok hm, mapError_eq_ok.mp hb⟩

omit [Scalar N] in
theorem blocks_load {cache : TableCache N} (h : s.Caches cache) {joined : Bool} {names : List String}
    (hbs : (s.blocks joined names cache).1 = .ok bs) : List.Forall₂ (s.Loads joined) names bs := by
  induction names generalizing cache bs with
  | nil =>
    cases hbs
    exact .nil
  | cons name names ih =>
    obtain ⟨hcache, hb⟩ := block_loads h joined name
    unfold blocks at hbs
    cases hblock : s.block joined name cache with
    | mk r next =>
      rw [hblock] at hbs hcache hb
      cases r with
      | error e => cases hbs
      | ok b =>
        obtain ⟨rest, hrest, rfl⟩ := map_eq_ok.mp hbs
        exact .cons (hb b rfl) (ih hcache hrest)

theorem Loads.blockOf {source : RawSource N} {config : PreparationConfig N}
    (hs : s.Serves source config) {joined : Bool} {name : String} {b : TableBlock N}
    (h : s.Loads joined name b) : BlockOf s.schema source config joined name b := by
  obtain ⟨t, data, m, ht, hload, hm, hb⟩ := h
  obtain ⟨p, hp, rfl⟩ := hs.load name data hload
  obtain ⟨p', hp', rfl⟩ := hs.metadata name m hm
  cases hp.symm.trans hp'
  exact ⟨⟨p, t, hp, ht, hb⟩⟩

theorem blocks_spec {source : RawSource N} {config : PreparationConfig N} (hs : s.Serves source config)
    {cache : TableCache N} (h : s.Caches cache) {joined : Bool} {names : List String}
    (hbs : (s.blocks joined names cache).1 = .ok bs) :
    List.Forall₂ (BlockOf s.schema source config joined) names bs :=
  (blocks_load h hbs).imp fun _ _ hb => hb.blockOf hs

theorem BlockOf.isPrepared {source : RawSource N} {config : PreparationConfig N} {joined : Bool}
    {g : Schema N} {name : String} {b : TableBlock N} (h : BlockOf g source config joined name b) :
    b.IsPrepared g name := by
  obtain ⟨p, t, hp, ht, hb⟩ := h.prepared
  exact ⟨source, config, p, t, joined, hp, ht, hb⟩

theorem BlockOf.name_eq {source : RawSource N} {config : PreparationConfig N} {joined : Bool}
    {g : Schema N} {name : String} {b : TableBlock N} (h : BlockOf g source config joined name b) :
    b.name = name := by
  obtain ⟨p, t, -, ht, hb⟩ := h.prepared
  exact (TableBlock.ofTable_eq_ok hb).1.trans (Schema.name_of_table ht)

theorem BlockOf.of_mem {source : RawSource N} {config : PreparationConfig N} {joined : Bool}
    {g : Schema N} {names : List String} {b : TableBlock N}
    (hbs : List.Forall₂ (BlockOf g source config joined) names bs) (hb : b ∈ bs) :
    BlockOf g source config joined b.name b := by
  induction hbs with
  | nil => cases hb
  | cons hblock _ ih =>
    rcases List.mem_cons.mp hb with rfl | hb
    · exact hblock.name_eq.symm ▸ hblock
    · exact ih hb

theorem BlockOf.indicator?_eq {source : RawSource N} {config : PreparationConfig N} {joined : Bool}
    {g : Schema N} {name : String} {b : TableBlock N} (h : BlockOf g source config joined name b)
    {t : Table N} (ht : g.table name = .ok t) :
    b.indicator? = if joined then some (qualify name t.nullIndicator) else none := by
  obtain ⟨p, t', hp, ht', hb⟩ := h.prepared
  cases ht.symm.trans ht'
  obtain ⟨-, -, -, -, -, -, hindicator⟩ := TableBlock.ofTable_eq_ok hb
  rw [hindicator, Table.qualifiedNullIndicator, Schema.name_of_table ht]

/-- The first block holds the stored rows of the start table. -/
theorem first_block {source : RawSource N} {config : PreparationConfig N} {joined : Bool}
    (hbs : List.Forall₂ (BlockOf s.schema source config joined) p.path.tables bs)
    {q : PreparedTable N} (hq : s.schema.prepare source config p.path.start = .ok q)
    (hrows : p.storedRows = q.metadata.storedLength) :
    ∃ b, bs.head? = some b ∧ b.table.size = p.storedRows := by
  cases hbs with
  | cons hb _ =>
    refine ⟨_, rfl, ?_⟩
    obtain ⟨q', t, hq', -, hof⟩ := hb.prepared
    cases hq.symm.trans hq'
    obtain ⟨-, htable, -⟩ := TableBlock.ofTable_eq_ok hof
    obtain ⟨prep⟩ := Schema.prepare_eq_ok hq
    rw [htable, hrows, prep.metadata_eq]

theorem plan_eq_ok {ids : List String} (h : s.plan (.relationships ids) = .ok p) :
    s.startTable ids = .ok p.path.start ∧
      JoinPath.assemble s.schema p.path.start ids = .ok p.path ∧
      ∃ m, s.metadata.get? p.path.start = some m ∧ p.storedRows = m.storedLength ∧
        ((∀ step ∈ p.path.steps, ∀ id table, step ≠ .fanOut id table) →
          p.estimate.sampleRows = s.availableRows m) := by
  unfold plan at h
  obtain ⟨start, hstart, h⟩ := bind_eq_ok.mp h
  obtain ⟨path, hpath, h⟩ := bind_eq_ok.mp h
  obtain ⟨m, hm, h⟩ := bind_eq_ok.mp h
  obtain ⟨rows, hrows, h⟩ := bind_eq_ok.mp h
  cases pure_eq_ok.mp h
  have hpath := mapError_eq_ok.mp hpath
  obtain ⟨rfl, -⟩ := JoinPath.assemble_isChain hpath
  refine ⟨hstart, hpath, m, tableMetadata_eq_ok hm, rfl, fun hnone => ?_⟩
  rw [List.filter_eq_nil_iff.mpr] at hrows
  · exact (pure_eq_ok.mp hrows).symm
  · intro step hstep
    cases step with
    | fanOut id table => exact absurd rfl (hnone _ hstep id table)
    | lookup id table => simp
    | cycle id => simp

/-- A sample lists the admissible tuples once each, or so many of them as it may hold. The expansion
fails only for want of a key column. -/
theorem expand_lists_admissible [NumericScalar N] {table : String} {ids : List String}
    {start : List Nat} (hpath : JoinPath.assemble s.schema table ids = .ok p.path)
    (hbs : List.Forall₂ (TableBlock.IsPrepared s.schema) p.path.tables bs) (hstart : start.Nodup)
    (hvalid : ∀ row ∈ start, ∀ b ∈ bs.head?, row < b.table.size) (size : Nat) (gen : G) :
    (KeysStored s.schema bs p.path.steps →
      ∃ sample gen' all, s.expand p bs start size gen = .ok (sample, gen') ∧ all.Nodup ∧
        (∀ t, t ∈ all ↔ Admissible s.schema p.path bs start t) ∧
        (all.length ≤ size → sample.rowKeys = all) ∧
        (size < all.length → sample.rowKeys.Sublist all ∧ sample.rowKeys.length = size)) ∧
    (¬ KeysStored s.schema bs p.path.steps →
      ∃ table column, s.expand p bs start size gen = .error (.missingKeyColumn table column)) := by
  obtain ⟨hnames, hsound⟩ := TableBlock.names_of_prepared hbs
  constructor
  · intro hstored
    obtain ⟨hrun, hall, hnodup, hmem⟩ := run_of_path hpath hnames hsound hstart hvalid hstored
    obtain ⟨hfew, hmany⟩ := thin_spec size (complete s.schema p.path bs start) gen
    obtain ⟨hsub, -⟩ := thin_sublist size (complete s.schema p.path bs start) gen
    obtain ⟨sample, hcollect, hkeys, -⟩ := collect_eq_ok (p := p) hsound fun t ht =>
      (hall t (hsub.subset ht)).fits
    refine ⟨sample, _, _, bind_eq_ok.mpr ⟨_, hrun, bind_eq_ok.mpr ⟨_, hcollect, rfl⟩⟩, hnodup, hmem, ?_⟩
    rw [hkeys]
    exact ⟨hfew, hmany⟩
  · intro hnot
    obtain ⟨hstarts, hchain⟩ := JoinPath.assemble_isChain hpath
    rw [← hstarts] at hchain
    obtain ⟨b, hb⟩ : ∃ b, bs.head? = some b := by
      cases bs with
      | nil => cases hnames
      | cons b bs => exact ⟨b, rfl⟩
    have hholds : ∀ t ∈ start.map (fun row => [some row]), Holds bs [p.path.start] t :=
      holds_start hb fun row hrow => hvalid row hrow b hb
    have hdistinct : (bs.map TableBlock.name).Nodup := by
      rw [hnames]
      exact hchain.nodup (List.nodup_singleton _)
    obtain ⟨t, column, herror⟩ := run_of_not_stored hsound hchain hnames hdistinct hholds hnot
    refine ⟨t, column, ?_⟩
    have hrun : Expansion.run s.schema bs p.path.steps start = .error (.missingKeyColumn t column) := herror
    rw [expand, hrun]
    rfl

end Sampler

/-! Customers with their orders, the items of these, and their visits. -/

namespace Shop

def orders : Relationship := .between "orders" "customer" "customers" "id" none

def items : Relationship := .between "items" "order" "orders" "id" none

def visits : Relationship := .between "visits" "customer" "customers" "id" none

def schema : Schema ℚ where
  tables := [
    { Table.named "customers" with incoming := [orders.identifier, visits.identifier] },
    { Table.named "orders" with outgoing := [orders.identifier], incoming := [items.identifier] },
    { Table.named "items" with outgoing := [items.identifier] },
    { Table.named "visits" with outgoing := [visits.identifier] }]
  relationships := [orders, items, visits]

theorem built : schema.Built := by
  have h₀ : Schema.Built (.empty : Schema ℚ) := .empty
  have h₁ := h₀.addTable (t := .named "customers") rfl rfl rfl
  have h₂ := h₁.addTable (t := .named "orders") rfl rfl rfl
  have h₃ := h₂.addTable (t := .named "items") rfl rfl rfl
  have h₄ := h₃.addTable (t := .named "visits") rfl rfl rfl
  have h₅ := h₄.addRelationship (r := orders) rfl
  have h₆ := h₅.addRelationship (r := items) rfl
  exact h₆.addRelationship (r := visits) rfl

/-- The second customer has no order. -/
def source : RawSource ℚ := .ofTables [
  ("customers", ⟨["id"], [[.int 1], [.int 2]]⟩),
  ("orders", ⟨["id", "customer"], [[.int 10, .int 1]]⟩),
  ("items", ⟨["id", "order"], [[.int 5, .int 10], [.int 6, .int 10]]⟩),
  ("visits", ⟨["id", "customer"], [[.int 7, .int 1]]⟩)]

def relationships : List String := [orders.identifier, items.identifier, visits.identifier]

def path : JoinPath where
  start := "customers"
  steps := [.fanOut orders.identifier "orders", .fanOut items.identifier "items",
    .fanOut visits.identifier "visits"]

theorem path_eq : JoinPath.assemble schema "customers" relationships = .ok path := by rfl

def sampler : Sampler ℚ := .ofPrepared schema source .standard .standard

/-- The order of the first customer has two items; the second customer has nothing. -/
def tuples : List JoinTuple :=
  [[some 0, some 0, some 0, some 0], [some 0, some 0, some 1, some 0], [some 1, none, none, none]]

theorem exists_blocks : ∃ bs, (sampler.blocks true path.tables sampler.freshCache).1 = .ok bs ∧
    Expansion.KeysStored schema bs path.steps ∧ bs.head?.map (·.table.size) = some 2 ∧
    (Expansion.run schema bs path.steps [0, 1]).toOption = some tuples :=
  exists_eq_ok_of_any (by decide +kernel)

/-- The second customer is listed once, without an order or a visit. -/
theorem expand_lists_admissible_rows : ∃ bs sample gen,
    (sampler.blocks true path.tables sampler.freshCache).1 = .ok bs ∧
      sampler.expand ⟨path, ⟨"customers", 2, 2⟩, 2⟩ bs [0, 1] 10 (ChaCha.ofSeed 1) =
        .ok (sample, gen) ∧
      sample.rowKeys.Nodup ∧
      ∀ t, t ∈ sample.rowKeys ↔ Expansion.Admissible schema path bs [0, 1] t := by
  obtain ⟨bs, hblocks, hstored, hsize, hrun⟩ := exists_blocks
  have hprepared := (Sampler.blocks_spec
    (Sampler.ofPrepared_serves schema source .standard .standard)
    (Sampler.caches_freshCache sampler) hblocks).imp fun _ _ h => h.isPrepared
  have hvalid : ∀ row ∈ [0, 1], ∀ b ∈ bs.head?, row < b.table.size := by
    intro row hrow b hb
    rw [hb, Option.map_some, Option.some.injEq] at hsize
    rw [hsize]
    fin_cases hrow <;> decide
  obtain ⟨sample, gen, all, hexpand, hnodup, hmem, hfew, -⟩ :=
    (Sampler.expand_lists_admissible (s := sampler) (p := ⟨path, ⟨"customers", 2, 2⟩, 2⟩)
      path_eq hprepared (by decide) hvalid 10 (ChaCha.ofSeed 1)).1 hstored
  obtain ⟨hnames, hsound⟩ := TableBlock.names_of_prepared hprepared
  obtain ⟨hrun', -, hnodup', hmem'⟩ :=
    Expansion.run_of_path path_eq hnames hsound (by decide) hvalid hstored
  have hlen : all.length = tuples.length := by
    rw [hrun', Except.toOption, Option.some.injEq] at hrun
    rw [← hrun]
    refine ((List.perm_ext_iff_of_nodup hnodup hnodup').mpr fun t => ?_).length_eq
    exact (hmem t).trans (hmem' t).symm
  have hkeys := hfew (hlen.trans_le (by decide))
  exact ⟨bs, sample, gen, hblocks, hexpand, hkeys ▸ hnodup, hkeys ▸ hmem⟩

end Shop

end ApproxQuery
