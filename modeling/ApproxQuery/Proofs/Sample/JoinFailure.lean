import ApproxQuery.Proofs.Schema.Connected
import ApproxQuery.Sample.Sampler

/-!
# Samples that cannot be joined

A request fails for want of a join path only while its plan is made, and that is decided by the
relationships of the request. Drawing, reading tables and expanding rows can fail for other reasons.
-/

namespace ApproxQuery

/-- There is no join path, as the kind of error at hand puts it. -/
def FailsToJoin {ε α : Type} (inject : SchemaError → ε) (x : Except ε α) : Prop :=
  ∃ joined left, x = .error (inject (.noJoinPath joined left))

namespace FailsToJoin

variable {ε α β σ : Type} {inject : SchemaError → ε} {x : Except ε α}

theorem not_ok (a : α) : ¬ FailsToJoin inject (.ok a : Except ε α) := by
  rintro ⟨joined, left, h⟩
  cases h

theorem not_error {e : ε} (h : ∀ joined left, e ≠ inject (.noJoinPath joined left)) :
    ¬ FailsToJoin inject (.error e : Except ε α) := by
  rintro ⟨joined, left, he⟩
  exact h joined left (Except.error.inj he)

theorem error_iff {e : ε} :
    FailsToJoin inject (.error e : Except ε α) ↔ FailsToJoin inject (.error e : Except ε β) := by
  constructor
  · rintro ⟨joined, left, h⟩
    exact ⟨joined, left, congrArg Except.error (Except.error.inj h)⟩
  · rintro ⟨joined, left, h⟩
    exact ⟨joined, left, congrArg Except.error (Except.error.inj h)⟩

theorem bind_iff {f : α → Except ε β} :
    FailsToJoin inject (x >>= f) ↔ FailsToJoin inject x ∨ ∃ a, x = .ok a ∧ FailsToJoin inject (f a) := by
  cases x with
  | error e =>
    have herror : FailsToJoin inject (.error e : Except ε β) ↔
        FailsToJoin inject (.error e : Except ε α) := error_iff
    refine herror.trans (or_iff_left ?_).symm
    rintro ⟨a, h, -⟩
    cases h
  | ok a =>
    constructor
    · exact fun h => .inr ⟨a, rfl, h⟩
    · rintro (h | ⟨b, hb, h⟩)
      · exact absurd h (not_ok a)
      · cases hb
        exact h

theorem not_bind {f : α → Except ε β} (hx : ¬ FailsToJoin inject x)
    (hf : ∀ a, ¬ FailsToJoin inject (f a)) : ¬ FailsToJoin inject (x >>= f) := by
  rw [bind_iff]
  rintro (h | ⟨a, -, h⟩)
  · exact hx h
  · exact hf a h

theorem map_iff {f : α → β} : FailsToJoin inject (x.map f) ↔ FailsToJoin inject x := by
  cases x with
  | error e => exact error_iff
  | ok a => exact iff_of_false (not_ok (f a)) (not_ok a)

theorem mapError_iff (hinject : Function.Injective inject) {x : Except SchemaError α} :
    FailsToJoin inject (x.mapError inject) ↔ FailsToJoin id x := by
  cases x with
  | error e =>
    constructor
    · rintro ⟨joined, left, h⟩
      have he := hinject (Except.error.inj h)
      exact ⟨joined, left, congrArg Except.error he⟩
    · rintro ⟨joined, left, h⟩
      cases h
      exact ⟨joined, left, rfl⟩
  | ok a => exact iff_of_false (not_ok a) (not_ok a)

theorem not_mapM {f : β → Except ε α} {bs : List β} (hf : ∀ b, ¬ FailsToJoin inject (f b)) :
    ¬ FailsToJoin inject (bs.mapM f) := by
  induction bs with
  | nil => exact not_ok []
  | cons b bs ih =>
    rw [List.mapM_cons]
    exact not_bind (hf b) fun a => not_bind ih fun as => not_ok (a :: as)

theorem not_foldlM {f : σ → β → Except ε σ} {bs : List β} (hf : ∀ s b, ¬ FailsToJoin inject (f s b))
    (s : σ) : ¬ FailsToJoin inject (bs.foldlM f s) := by
  induction bs generalizing s with
  | nil => exact not_ok s
  | cons b bs ih =>
    rw [List.foldlM_cons]
    exact not_bind (hf s b) ih

theorem not_filterM {f : β → Except ε Bool} {bs : List β} (hf : ∀ b, ¬ FailsToJoin inject (f b)) :
    ¬ FailsToJoin inject (bs.filterM f) := by
  have hacc (acc : List β) : ¬ FailsToJoin inject (bs.filterAuxM f acc) := by
    induction bs generalizing acc with
    | nil => exact not_ok acc
    | cons b bs ih => exact not_bind (hf b) fun keep => ih _
  exact not_bind (hacc []) fun kept => not_ok kept.reverse

end FailsToJoin

open FailsToJoin

theorem SampleError.failsToJoin_mapError {α : Type} {x : Except SchemaError α} :
    FailsToJoin SampleError.schema (x.mapError .schema) ↔ FailsToJoin id x :=
  mapError_iff fun _ _ => SampleError.schema.inj

section

variable {N : Type} (g : Schema N)

/-! Tables and relationships are looked up. -/

theorem Schema.table_not_failsToJoin (name : String) : ¬ FailsToJoin id (g.table name) := by
  unfold Schema.table
  cases g.table? name with
  | none => exact not_error (by simp)
  | some t => exact not_ok t

theorem Schema.relationship_not_failsToJoin (identifier : String) :
    ¬ FailsToJoin id (g.relationship identifier) := by
  unfold Schema.relationship
  cases g.relationship? identifier with
  | none => exact not_error (by simp)
  | some r => exact not_ok r

theorem TableBlock.ofTable_not_failsToJoin (t : Table N) (data : EncodedTable N)
    (metadata : TableMetadata N) (joined : Bool) :
    ¬ FailsToJoin id (TableBlock.ofTable g t data metadata joined) := by
  refine not_bind (not_bind (g.table_not_failsToJoin t.name) fun u => ?_) fun rs => not_ok _
  exact not_mapM g.relationship_not_failsToJoin

end

/-! Rows are expanded along the steps. -/

section

variable {N : Type} [Scalar N] {bs : List (TableBlock N)}

theorem TableBlock.keys_not_failsToJoin (b : TableBlock N) (key : String) :
    ¬ FailsToJoin SampleError.schema (b.keys key) := by
  unfold keys
  dsimp only
  split
  · exact not_error (by simp)
  · rename_i numbers _
    cases numbers.mapM (b.metadata.decode (qualify b.name key)) with
    | error e => exact not_error (by simp)
    | ok values => exact not_ok values

theorem TableBlock.cells_not_failsToJoin (b : TableBlock N) (row? : Option Nat) :
    ¬ FailsToJoin SampleError.schema (b.cells row?) := by
  have hcell (row place : Nat) : ¬ FailsToJoin SampleError.schema (b.cell row place) := by
    unfold cell
    cases (b.table.data[place]?).bind (·[row]?) with
    | none => exact not_error (by simp)
    | some x => exact not_ok x
  cases row? with
  | none => exact not_ok _
  | some row =>
    refine not_bind (not_mapM (hcell row)) fun kept => not_bind (not_mapM fun m => ?_) fun _ => not_ok _
    exact not_bind (hcell row m.1) fun x => not_ok _

namespace Expansion

theorem side_not_failsToJoin (bs : List (TableBlock N)) (table key : String) :
    ¬ FailsToJoin SampleError.schema (side bs table key) := by
  unfold side
  cases bs.findIdx? (·.name == table) with
  | none => exact not_error (by simp)
  | some place =>
    dsimp only
    cases bs[place]? with
    | none => exact not_error (by simp)
    | some b => exact not_bind (b.keys_not_failsToJoin key) fun keys => not_ok _

omit [Scalar N] in
theorem rowOf_not_failsToJoin (side : Nat × List (Value N)) (t : JoinTuple) :
    ¬ FailsToJoin SampleError.schema (rowOf side t) := by
  unfold rowOf
  cases t[side.1]? with
  | none => exact not_error (by simp)
  | some row => exact not_ok row

omit [Scalar N] in
theorem keyOf_not_failsToJoin (side : Nat × List (Value N)) (row : Nat) :
    ¬ FailsToJoin SampleError.schema (keyOf side row) := by
  unfold keyOf
  cases side.2[row]? with
  | none => exact not_error (by simp)
  | some v => exact not_ok v

theorem extend_not_failsToJoin (joined : Nat × List (Value N)) (keys : List (Value N))
    (t : JoinTuple) : ¬ FailsToJoin SampleError.schema (extend joined keys t) := by
  refine not_bind (rowOf_not_failsToJoin joined t) fun row? => ?_
  cases row? with
  | none => exact not_ok _
  | some row =>
    refine not_bind (keyOf_not_failsToJoin joined row) fun v => ?_
    cases partners keys v with
    | nil => exact not_ok _
    | cons i is => exact not_ok _

theorem agrees_not_failsToJoin (source target : Nat × List (Value N)) (t : JoinTuple) :
    ¬ FailsToJoin SampleError.schema (agrees source target t) := by
  refine not_bind (rowOf_not_failsToJoin source t) fun i? => ?_
  refine not_bind (rowOf_not_failsToJoin target t) fun j? => ?_
  cases i? with
  | none => exact not_ok true
  | some i =>
    cases j? with
    | none => exact not_ok true
    | some j =>
      refine not_bind (keyOf_not_failsToJoin source i) fun v => ?_
      cases v.isNull with
      | true => exact not_ok false
      | false => exact not_bind (keyOf_not_failsToJoin target j) fun w => not_ok _

theorem step_not_failsToJoin (g : Schema N) (bs : List (TableBlock N)) (ts : List JoinTuple)
    (s : JoinStep) : ¬ FailsToJoin SampleError.schema (step g bs ts s) := by
  have hknown := SampleError.failsToJoin_mapError.not.mpr
    (g.relationship_not_failsToJoin s.relationship)
  refine not_bind hknown fun r => ?_
  refine not_bind (side_not_failsToJoin bs r.source r.sourceAttribute) fun source => ?_
  refine not_bind (side_not_failsToJoin bs r.target r.targetAttribute) fun target => ?_
  cases s with
  | cycle id => exact not_filterM (agrees_not_failsToJoin source target)
  | fanOut id table =>
    exact not_bind (not_mapM (extend_not_failsToJoin target source.2)) fun _ => not_ok _
  | lookup id table =>
    exact not_bind (not_mapM (extend_not_failsToJoin source target.2)) fun _ => not_ok _

end Expansion

end

namespace Sampler

variable {N : Type} [Scalar N] {s : Sampler N} {ids : List String}

omit [Scalar N] in
theorem tableMetadata_not_failsToJoin (s : Sampler N) (name : String) :
    ¬ FailsToJoin SampleError.schema (s.tableMetadata name) := by
  unfold tableMetadata
  cases s.metadata.get? name with
  | none => exact not_error (by simp)
  | some m => exact not_ok m

theorem growth_not_failsToJoin (s : Sampler N) (step : JoinStep) :
    ¬ FailsToJoin SampleError.schema (s.growth step) := by
  cases step with
  | fanOut id table =>
    refine not_bind (SampleError.failsToJoin_mapError.not.mpr
      (s.schema.relationship_not_failsToJoin id)) fun r => ?_
    refine not_bind (SampleError.failsToJoin_mapError.not.mpr
      (s.schema.table_not_failsToJoin r.source)) fun t => ?_
    refine not_bind (s.tableMetadata_not_failsToJoin r.source) fun m => ?_
    exact not_bind (s.tableMetadata_not_failsToJoin r.target) fun m' => not_ok _
  | lookup id table => exact not_ok _
  | cycle id => exact not_ok _

omit [Scalar N] in
theorem block_not_failsToJoin (s : Sampler N) (joined : Bool) (name : String) (cache : TableCache N) :
    ¬ FailsToJoin SampleError.schema (s.block joined name cache).1 := by
  have hknown := s.schema.table_not_failsToJoin name
  unfold block
  cases ht : s.schema.table name with
  | error e =>
    rw [ht] at hknown
    rintro ⟨joined', left, h⟩
    exact hknown ⟨joined', left, congrArg Except.error (SampleError.schema.inj (Except.error.inj h))⟩
  | ok t =>
    dsimp only
    obtain ⟨r, next⟩ := cache.getOrLoad name s.load
    cases r with
    | error e => exact not_error (by simp)
    | ok data =>
      refine not_bind (s.tableMetadata_not_failsToJoin name) fun m => ?_
      exact SampleError.failsToJoin_mapError.not.mpr
        (TableBlock.ofTable_not_failsToJoin s.schema t data m joined)

omit [Scalar N] in
theorem blocks_not_failsToJoin (s : Sampler N) (joined : Bool) (names : List String)
    (cache : TableCache N) : ¬ FailsToJoin SampleError.schema (s.blocks joined names cache).1 := by
  induction names generalizing cache with
  | nil => exact not_ok []
  | cons name names ih =>
    have hblock := s.block_not_failsToJoin joined name cache
    unfold blocks
    generalize s.block joined name cache = out at hblock ⊢
    obtain ⟨r, next⟩ := out
    cases r with
    | error e => exact error_iff.not.mp hblock
    | ok b => exact map_iff.not.mpr (ih next)

variable {G : Type} [Generator G]

theorem expand_not_failsToJoin (s : Sampler N) (p : SamplePlan N) (bs : List (TableBlock N))
    (start : List Nat) (size : Nat) (g : G) :
    ¬ FailsToJoin SampleError.schema (s.expand p bs start size g) := by
  refine not_bind (not_foldlM (Expansion.step_not_failsToJoin s.schema bs) _) fun tuples => ?_
  refine not_bind (not_bind (not_mapM fun t => ?_) fun rows => not_ok _) fun w => not_ok _
  exact not_bind (not_mapM fun x => x.1.cells_not_failsToJoin x.2) fun cells => not_ok _

/-! So a sample fails to join just as its plan does. -/

theorem estimate_failsToJoin_iff (s : Sampler N) (target : SampleTarget) :
    FailsToJoin SampleError.schema (s.estimate target) ↔
      FailsToJoin SampleError.schema (s.plan target) :=
  map_iff

theorem sample_failsToJoin_iff (s : Sampler N) (request : SampleRequest N) (g : G)
    (cache : TableCache N) : FailsToJoin SampleError.schema (s.sample request g cache).1 ↔
      FailsToJoin SampleError.schema (s.plan request.target) := by
  unfold sample
  cases s.plan request.target with
  | error e => exact error_iff
  | ok p =>
    refine iff_of_false ?_ (not_ok p)
    have hblocks := s.blocks_not_failsToJoin (!p.path.steps.isEmpty) p.path.tables cache
    refine not_bind hblocks fun bs => ?_
    exact not_bind (s.expand_not_failsToJoin p bs _ _ _) fun _ => not_ok _

theorem parts_failsToJoin_iff (s : Sampler N) (request : SampleRequest N) {rate : N}
    (hpos : Scalar.lt 0 rate = true) (hone : Scalar.lt rate 1 = true) (g : G) (cache : TableCache N) :
    FailsToJoin SampleError.schema (s.sampleWithIncremental request rate g cache).1 ↔
      FailsToJoin SampleError.schema (s.plan request.target) := by
  unfold sampleWithIncremental
  rw [hpos, hone]
  cases s.plan request.target with
  | error e => exact error_iff
  | ok p =>
    refine iff_of_false ?_ (not_ok p)
    have hblocks := s.blocks_not_failsToJoin (!p.path.steps.isEmpty) p.path.tables cache
    refine not_bind hblocks fun bs => ?_
    refine not_bind (s.expand_not_failsToJoin p bs _ _ _) fun primary => ?_
    exact not_bind (s.expand_not_failsToJoin p bs _ _ _) fun _ => not_ok _

end Sampler

end ApproxQuery
