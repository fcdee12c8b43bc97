import ApproxQuery.Proofs.Sample.Cells
import ApproxQuery.Proofs.Sample.Weights

/-!
# Complete samples

A sample of a join is complete if it starts from every stored row of its start table and keeps every
row that these expand to.
-/

namespace ApproxQuery

/-- The rows of a sample with the tuples behind them. -/
def JoinSample.entries {N : Type} (w : JoinSample N) : List (JoinTuple × List N) :=
  w.rowKeys.zip w.rows

/-- Those of them that come from a row of the start table. -/
def JoinSample.entriesOf {N : Type} (w : JoinSample N) (row : Nat) : List (JoinTuple × List N) :=
  w.entries.filter fun e => e.1.head? == some (some row)

theorem flatMap_ite_of_nodup {α β : Type} [DecidableEq α] {xs : List α} {x : α} {ys : List β}
    (h : xs.Nodup) (hx : x ∈ xs) : (xs.flatMap fun y => if y = x then ys else []) = ys := by
  induction xs with
  | nil => cases hx
  | cons y xs ih =>
    obtain ⟨hy, hxs⟩ := List.nodup_cons.mp h
    rw [List.flatMap_cons]
    rcases List.mem_cons.mp hx with rfl | hx
    · have hrest : (xs.flatMap fun y => if y = x then ys else []) = [] := by
        refine List.flatMap_eq_nil_iff.mpr fun z hz => if_neg ?_
        rintro rfl
        exact hy hz
      rw [if_pos rfl, hrest, List.append_nil]
    · rw [ih hxs hx, if_neg, List.nil_append]
      rintro rfl
      exact hy hx

namespace Sampler

open Expansion

variable {s : Sampler ℚ} {source : RawSource ℚ} {config : PreparationConfig ℚ}
  {ids : List String} {p : SamplePlan ℚ} {bs : List (TableBlock ℚ)} {w : JoinSample ℚ}

/-- The sample holds everything that the plan of a join expands all stored start rows to. -/
structure IsComplete (s : Sampler ℚ) (ids : List String) (p : SamplePlan ℚ)
    (bs : List (TableBlock ℚ)) (w : JoinSample ℚ) : Prop where
  plan : s.plan (.relationships ids) = .ok p
  blocks : ∃ cache, s.Caches cache ∧
    (s.blocks (!p.path.steps.isEmpty) p.path.tables cache).1 = .ok bs
  rows : ∃ tuples, Expansion.run s.schema bs p.path.steps (List.range p.storedRows) = .ok tuples ∧
    collect p bs tuples = .ok w

/-- The complete sample of a join, with its plan and its blocks. -/
def completeSample (s : Sampler ℚ) (ids : List String) :
    Except SampleError (SamplePlan ℚ × List (TableBlock ℚ) × JoinSample ℚ) := do
  let p ← s.plan (.relationships ids)
  let bs ← (s.blocks (!p.path.steps.isEmpty) p.path.tables s.freshCache).1
  let tuples ← Expansion.run s.schema bs p.path.steps (List.range p.storedRows)
  return (p, bs, ← collect p bs tuples)

theorem isComplete_of_completeSample (h : s.completeSample ids = .ok (p, bs, w)) :
    s.IsComplete ids p bs w := by
  obtain ⟨p, hplan, h⟩ := bind_eq_ok.mp h
  obtain ⟨bs, hblocks, h⟩ := bind_eq_ok.mp h
  obtain ⟨tuples, hrun, h⟩ := bind_eq_ok.mp h
  obtain ⟨w, hcollect, h⟩ := bind_eq_ok.mp h
  cases pure_eq_ok.mp h
  exact ⟨hplan, ⟨_, s.caches_freshCache, hblocks⟩, tuples, hrun, hcollect⟩

/-- What can be decided of a complete sample holds of one. -/
theorem exists_isComplete {P : SamplePlan ℚ → List (TableBlock ℚ) → JoinSample ℚ → Prop}
    [∀ p bs w, Decidable (P p bs w)]
    (h : (match s.completeSample ids with
      | .ok (p, bs, w) => decide (P p bs w)
      | .error _ => false) = true) :
    ∃ p bs w, s.IsComplete ids p bs w ∧ P p bs w := by
  split at h
  · rename_i p bs w hw
    exact ⟨p, bs, w, isComplete_of_completeSample hw, of_decide_eq_true h⟩
  · cases h

/-- A sample that starts from all rows and holds less rows than it may is complete. -/
theorem isComplete_of_expand {G : Type} [Generator G] {size : Nat} {gen gen' : G}
    (hplan : s.plan (.relationships ids) = .ok p) {cache : TableCache ℚ} (hcache : s.Caches cache)
    (hblocks : (s.blocks (!p.path.steps.isEmpty) p.path.tables cache).1 = .ok bs)
    (hexpand : s.expand p bs (List.range p.storedRows) size gen = .ok (w, gen'))
    (hsize : w.rowKeys.length < size) : s.IsComplete ids p bs w := by
  obtain ⟨tuples, hrun, hexpand⟩ := bind_eq_ok.mp hexpand
  obtain ⟨sample, hcollect, hpure⟩ := bind_eq_ok.mp hexpand
  have hsample : sample = w := congrArg Prod.fst (pure_eq_ok.mp hpure)
  have hcollect : collect p bs (thin size tuples gen).1 = .ok w := hsample ▸ hcollect
  obtain ⟨hfew, hmany⟩ := thin_spec size tuples gen
  have hkeys : w.rowKeys = (thin size tuples gen).1 := rowKeys_of_collect hcollect
  rcases Nat.lt_or_ge size tuples.length with hlt | hle
  · have hlength := (hmany hlt).2
    rw [← hkeys] at hlength
    omega
  · rw [hfew hle] at hcollect
    exact ⟨hplan, ⟨cache, hcache, hblocks⟩, tuples, hrun, hcollect⟩

/-- The parts of a complete sample of prepared tables. -/
structure Layout (s : Sampler ℚ) (source : RawSource ℚ) (config : PreparationConfig ℚ)
    (ids : List String) (p : SamplePlan ℚ) (bs : List (TableBlock ℚ)) (w : JoinSample ℚ) :
    Prop where
  start : s.startTable ids = .ok p.path.start
  path : JoinPath.assemble s.schema p.path.start ids = .ok p.path
  blocks : ∀ b ∈ bs, BlockOf s.schema source config (!p.path.steps.isEmpty) b.name b
  names : bs.map TableBlock.name = p.path.tables
  stored : KeysStored s.schema bs p.path.steps
  first : ∃ b, bs.head? = some b ∧ b.table.size = p.storedRows
  tables : w.tables = p.path.tables
  relationships : w.relationships = p.path.steps.map (·.relationship)
  columns : w.columns = bs.flatMap (·.columns)
  rowKeys : w.rowKeys = complete s.schema p.path bs (List.range p.storedRows)
  rows : w.rows = w.rowKeys.map (cellsOf bs)

theorem IsComplete.layout (h : s.IsComplete ids p bs w) (hs : s.Serves source config) :
    s.Layout source config ids p bs w := by
  obtain ⟨hstart, hpath, m, hm, hrows, -⟩ := plan_eq_ok h.plan
  obtain ⟨cache, hcache, hbs⟩ := h.blocks
  obtain ⟨tuples, hrun, hcollect⟩ := h.rows
  have hblocks := blocks_spec hs hcache hbs
  obtain ⟨hnames, hsound⟩ := TableBlock.names_of_prepared (hblocks.imp fun _ _ hb => hb.isPrepared)
  obtain ⟨q, hq, rfl⟩ := hs.metadata _ m hm
  obtain ⟨first, hhead, hsize⟩ := first_block hblocks hq hrows
  have hvalid : ∀ row ∈ List.range p.storedRows, ∀ b ∈ bs.head?, row < b.table.size := by
    intro row hrow b hb
    cases hhead.symm.trans hb
    exact hsize ▸ List.mem_range.mp hrow
  have hstored := keysStored_of_run hpath hnames hsound hvalid hrun
  obtain ⟨hall, hholds, -⟩ := run_of_path hpath hnames hsound List.nodup_range hvalid hstored
  cases hrun.symm.trans hall
  obtain ⟨sample, hsample, hkeys, hcolumns, hcells⟩ := collect_eq_ok (p := p) hsound fun t ht =>
    (hholds t ht).fits
  cases hcollect.symm.trans hsample
  have hsame : w.tables = bs.map TableBlock.name ∧
      w.relationships = p.path.steps.map (·.relationship) := by
    obtain ⟨rows, -, hw⟩ := bind_eq_ok.mp hcollect
    cases pure_eq_ok.mp hw
    exact ⟨rfl, rfl⟩
  refine ⟨hstart, hpath, fun b hb => .of_mem hblocks hb, hnames, hstored, ⟨first, hhead, hsize⟩,
    hsame.1.trans hnames, hsame.2, hcolumns, hkeys, ?_⟩
  rw [hcells, hkeys]
  rfl

namespace Layout

variable (h : s.Layout source config ids p bs w)
include h

theorem chain : JoinPath.Chain s.schema [p.path.start] p.path.steps :=
  (JoinPath.assemble_isChain h.path).2

theorem sound : ∀ b ∈ bs, b.Sound := fun b hb => (h.blocks b hb).isPrepared.sound.2

theorem sides {step : JoinStep} (hstep : step ∈ p.path.steps) {r : Relationship}
    (known : s.schema.relationship step.relationship = .ok r) :
    ∃ place place' c c', IsSide bs r.targetKey place c ∧ IsSide bs r.sourceKey place' c' ∧
      place < p.path.tables.length ∧ place' < p.path.tables.length := by
  obtain ⟨r', known', source', target'⟩ := h.chain.ends_of_mem hstep
  cases known.symm.trans known'
  obtain ⟨hss, hst⟩ := h.stored _ hstep r known
  have hnames : bs.map TableBlock.name = p.path.tables ++ [] := by rw [List.append_nil, h.names]
  obtain ⟨place, c, htarget, hlt⟩ := isSide_of_mem (a := r.targetKey) hnames h.sound target' hst
  obtain ⟨place', c', hsource, hlt'⟩ := isSide_of_mem (a := r.sourceKey) hnames h.sound source' hss
  exact ⟨place, place', c, c', htarget, hsource, hlt, hlt'⟩

theorem entries_eq : w.entries = w.rowKeys.map fun t => (t, cellsOf bs t) := by
  rw [JoinSample.entries, h.rows]
  induction w.rowKeys with
  | nil => rfl
  | cons t ts ih => exact congrArg (_ :: ·) ih

theorem holds_start {row : Nat} (hrow : row < p.storedRows) : Holds bs [p.path.start] [some row] := by
  obtain ⟨b, hb, hsize⟩ := h.first
  have hall : ∀ t ∈ [row].map (fun row => [some row]), Holds bs [p.path.start] t :=
    Expansion.holds_start hb (by simpa [hsize] using hrow)
  exact hall _ List.mem_cons_self

theorem holds_expanded {row : Nat} (hrow : row < p.storedRows) {t : JoinTuple}
    (ht : t ∈ expanded s.schema bs p.path.steps [[some row]]) :
    Holds bs p.path.tables t ∧ t.head? = some (some row) ∧
      ∀ step ∈ p.path.steps, Obeys s.schema bs t step := by
  have hholds : ∀ t ∈ [[some row]], Holds bs [p.path.start] t := by
    simpa using h.holds_start hrow
  obtain ⟨-, hall, -, hmem⟩ :=
    run_of_chain h.sound h.chain h.names h.stored hholds (List.nodup_singleton _)
  obtain ⟨-, htake, hobeys⟩ := (hmem t).mp ht
  have htake := List.mem_singleton.mp htake
  refine ⟨hall t ht, ?_, hobeys⟩
  cases t with
  | nil => cases htake
  | cons x t =>
    cases htake
    rfl

theorem rowKeys_eq : w.rowKeys = (List.range p.storedRows).flatMap fun row =>
    expanded s.schema bs p.path.steps [[some row]] := by
  rw [h.rowKeys, complete, expanded_flatMap h.chain, List.flatMap_map]

theorem holds_of_mem {t : JoinTuple} (ht : t ∈ w.rowKeys) : Holds bs p.path.tables t ∧
    (∃ row < p.storedRows, t.head? = some (some row)) ∧
      ∀ step ∈ p.path.steps, Obeys s.schema bs t step := by
  rw [h.rowKeys_eq] at ht
  obtain ⟨row, hrow, ht⟩ := List.mem_flatMap.mp ht
  have hlt := List.mem_range.mp hrow
  obtain ⟨hholds, hhead, hobeys⟩ := h.holds_expanded hlt ht
  exact ⟨hholds, ⟨row, hlt, hhead⟩, hobeys⟩

theorem entriesOf_eq {row : Nat} (hrow : row < p.storedRows) :
    w.entriesOf row =
      (expanded s.schema bs p.path.steps [[some row]]).map fun t => (t, cellsOf bs t) := by
  have hown : w.rowKeys.filter (fun t => t.head? == some (some row)) =
      expanded s.schema bs p.path.steps [[some row]] := by
    rw [h.rowKeys_eq, List.filter_flatMap]
    refine (List.flatMap_congr fun k hk => ?_).trans
      (flatMap_ite_of_nodup List.nodup_range (List.mem_range.mpr hrow))
    have hlt := List.mem_range.mp hk
    split
    · rename_i hsame
      subst hsame
      exact List.filter_eq_self.mpr fun t ht => beq_iff_eq.mpr (h.holds_expanded hlt ht).2.1
    · rename_i hne
      refine List.filter_eq_nil_iff.mpr fun t ht heq => hne ?_
      have hhead := (h.holds_expanded hlt ht).2.1.symm.trans (beq_iff_eq.mp heq)
      simpa using hhead
  rw [JoinSample.entriesOf, h.entries_eq, List.filter_map, ← hown]
  rfl

end Layout

end Sampler

end ApproxQuery
