import ApproxQuery.Proofs.Sample.Cells
import ApproxQuery.Proofs.Sample.Weights

/-!
# Fan-outs in complete data

The defined multiplier of a relationship is, in a row that has the referenced table, the number of
tuples among which the step along the relationship shares out one unit. In a row without that table
the cell is the null marker of the multiplier.
-/

namespace ApproxQuery

namespace TableBlock

theorem getElem?_cellList_multiplier {b : TableBlock ℚ} {j place : Nat} {name : String}
    (hj : b.multipliers[j]? = some (place, name)) :
    b.columns[b.kept.length + j]? = some name ∧
      ∀ row? : Option Nat, (b.cellList row?)[b.kept.length + j]? =
        some (row?.elim ((b.metadata.nullValues.get? (b.columnName place)).getD 0)
          fun row => if Scalar.eq (b.number row place) 0 then 1 else b.number row place) := by
  have hlt := (List.getElem?_eq_some_iff.mp hj).1
  constructor
  · rw [columns, List.append_assoc, List.getElem?_append_right (by simp), List.length_map,
      Nat.add_sub_cancel_left, List.getElem?_append_left (by simpa using hlt), List.getElem?_map, hj]
    rfl
  · intro row?
    cases row? with
    | none =>
      have hplace : b.places[b.kept.length + j]? = some place := by
        rw [places, List.getElem?_append_right (Nat.le_add_right _ _), Nat.add_sub_cancel_left,
          List.getElem?_map, hj]
        rfl
      rw [cellList, List.getElem?_append_left (by simpa [places] using hlt), List.getElem?_map, hplace]
      rfl
    | some row =>
      rw [cellList, List.append_assoc, List.getElem?_append_right (by simp), List.length_map,
        Nat.add_sub_cancel_left, List.getElem?_append_left (by simpa using hlt), List.getElem?_map, hj]
      rfl

theorem one_for_zero_natCast (n : Nat) :
    (if Scalar.eq (n : ℚ) 0 then 1 else (n : ℚ)) = (max 1 n : ℕ) := by
  by_cases hzero : (n : ℚ) = 0
  · have hn : n = 0 := by exact_mod_cast hzero
    subst hn
    exact if_pos (Exact.eq_iff.mpr hzero)
  · have hn : 1 ≤ n := Nat.one_le_iff_ne_zero.mpr (by exact_mod_cast hzero)
    rw [if_neg fun heq => hzero (Exact.eq_iff.mp heq), max_eq_right hn]

end TableBlock

namespace Expansion

open JoinPath

variable {g : Schema ℚ} {source : RawSource ℚ} {config : PreparationConfig ℚ} {flag : Bool}
  {bs : List (TableBlock ℚ)} {joined : List String} {s : JoinStep} {rest : List JoinStep}
  {a b : AttributeRef} {r : Relationship} {t : JoinTuple}

theorem length_orMissing (js : List Nat) : (orMissing js).length = max 1 js.length := by
  cases js with
  | nil => rfl
  | cons j js => simp [orMissing]

theorem options_of_row {i : Nat} (h : rowIn bs t a.table = some i) :
    (options bs a b t).length = max 1 (partnersOf bs a b i).length := by
  rw [options, length_orMissing, h, Option.elim_some]

theorem options_of_missing (h : rowIn bs t a.table = none) : (options bs a b t).length = 1 := by
  rw [options, length_orMissing, h]
  rfl

theorem length_options_pos : 0 < (options bs a b t).length := by
  rw [options, length_orMissing]
  exact Nat.lt_of_lt_of_le Nat.one_pos (Nat.le_max_left _ _)

theorem options_take (hbs : bs.map TableBlock.name = joined ++ added rest) (h : a.table ∈ joined)
    {n : Nat} (hn : joined.length ≤ n) : options bs a b (t.take n) = options bs a b t := by
  unfold options
  rw [rowIn_take hbs h hn]

/-- The marker that stands for the multiplier of a relationship in rows without the referenced
table. -/
def nullMarker (bs : List (TableBlock ℚ)) (r : Relationship) : ℚ :=
  ((placeOf? bs r.target).bind (bs[·]?)).elim 0 fun b =>
    (b.metadata.nullValues.get? r.multiplier.qualified).getD 0

section

variable (hdata : CompleteData g source config)
  (hblocks : ∀ c ∈ bs, Sampler.BlockOf g source config flag c.name c) (hr : r ∈ g.relationships)
  {place place' : Nat} {target referencing : TableBlock ℚ}
  (htarget : IsSide bs r.targetKey place target)
  (hsource : IsSide bs r.sourceKey place' referencing)
include hdata hblocks hr htarget

theorem length_options_lookup : (options bs r.sourceKey r.targetKey t).length = 1 := by
  have href : r ∈ g.references target.name :=
    Schema.mem_references.mpr ⟨hr, htarget.name_eq.symm⟩
  have hpartners (v : Value ℚ) : (partners (keysOf bs r.targetKey) v).length ≤ 1 := by
    rw [htarget.keysOf_eq]
    exact (hblocks target (List.mem_of_getElem? htarget.block)).length_partners_le_one hdata href
      htarget.stores v
  cases hrow : rowIn bs t r.sourceKey.table with
  | none => exact options_of_missing hrow
  | some i =>
    rw [options_of_row hrow, max_eq_left]
    unfold partnersOf
    cases (keysOf bs r.sourceKey)[i]? with
    | none => exact Nat.zero_le 1
    | some v => exact hpartners v

include hsource

theorem cellOf_multiplier (hfits : Fits bs t) (hlen : place < t.length) :
    cellOf bs (cellsOf bs t) r.definedMultiplier =
      (rowIn bs t r.target).elim (nullMarker bs r)
        fun _ => ((options bs r.targetKey r.sourceKey t).length : ℚ) := by
  have hblock := hblocks target (List.mem_of_getElem? htarget.block)
  have href : r ∈ g.references target.name :=
    Schema.mem_references.mpr ⟨hr, htarget.name_eq.symm⟩
  obtain ⟨place₁, hmul, hcolumn, hnumber⟩ := hblock.exists_multiplier hdata href
    (hblocks referencing (List.mem_of_getElem? hsource.block)) hsource.name_eq.symm htarget.stores
    hsource.stores
  obtain ⟨j, hj⟩ := List.getElem?_of_mem hmul
  obtain ⟨hname, hcell⟩ := TableBlock.getElem?_cellList_multiplier hj
  have hindex := findIdx?_of_nodup (hblock.nodup_columns hdata) hname
  have hget := List.getElem?_eq_getElem hlen
  have hrowIn : rowIn bs t r.target = t[place] := (htarget.rowIn_eq hlen).1
  have hplace : placeOf? bs r.target = some place := htarget.place_eq
  have hcellOf := cellOf_cellsOf (a := r.definedMultiplier) hplace htarget.block hget hindex
  rw [hcellOf, hcell, Option.getD_some, hrowIn]
  cases hrow : t[place] with
  | none => simp [nullMarker, hplace, htarget.block, hcolumn]
  | some i =>
    rw [hrow] at hget hrowIn
    obtain ⟨v, hv, -⟩ := htarget.keyOf_eq hfits hget
    have hpartners : partnersOf bs r.targetKey r.sourceKey i =
        partners (keysOf bs r.sourceKey) v := by simp [partnersOf, hv]
    have hv' := hv
    rw [htarget.keysOf_eq] at hv'
    rw [Option.elim_some, Option.elim_some, options_of_row hrowIn, hpartners, hnumber i v hv',
      TableBlock.one_for_zero_natCast, hsource.keysOf_eq]
    rfl

end

/-- The relationships along which the steps fan out. -/
def fanOuts (g : Schema ℚ) (steps : List JoinStep) : List Relationship :=
  steps.filterMap fun
    | .fanOut id _ => g.relationship? id
    | _ => none

/-- The share of a tuple among those that a step leads to. -/
def share (g : Schema ℚ) (bs : List (TableBlock ℚ)) : JoinStep → JoinTuple → ℚ
  | .fanOut id _, t => (g.relationship? id).elim 1 fun r =>
    1 / ((options bs r.targetKey r.sourceKey t).length : ℚ)
  | _, _ => 1

theorem sum_eq_one_of_options {weight : JoinTuple → ℚ} (h : ∀ u ∈ extended bs a b t, weight u =
    1 / ((options bs a b t).length : ℚ)) : ((extended bs a b t).map weight).sum = 1 := by
  have hne : ((options bs a b t).length : ℚ) ≠ 0 := by
    exact_mod_cast length_options_pos.ne'
  rw [List.map_congr_left h, List.map_const', List.sum_replicate, extended, List.length_map,
    nsmul_eq_mul, mul_one_div_cancel hne]

theorem share_take (h : At g bs joined s rest r) (u : JoinTuple) {n : Nat} (hn : joined.length ≤ n) :
    share g bs s (u.take n) = share g bs s u := by
  rcases h.cases with ⟨rfl, -⟩ | ⟨rfl, -, htarget⟩ | ⟨rfl, -⟩
  · rfl
  · have known := Schema.relationship_eq_ok.mp h.known
    rw [JoinStep.relationship] at known
    rw [share, share, known, Option.elim_some, Option.elim_some, options_take h.names htarget hn]
  · rfl

/-- A step that adds a table shares out one unit. -/
theorem sum_share (hdata : CompleteData g source config)
    (hblocks : ∀ c ∈ bs, Sampler.BlockOf g source config flag c.name c)
    (h : At g bs joined s rest r) (hstored : Stored bs r.sourceKey ∧ Stored bs r.targetKey)
    (hadds : s.newTable? ≠ none) (ht : Holds bs joined t) :
    ((stepped bs r [t] s).map (share g bs s)).sum = 1 := by
  have hsound : ∀ c ∈ bs, c.Sound := fun c hc => (hblocks c hc).isPrepared.sound.2
  obtain ⟨place, place', c, c', htarget, hsource, -⟩ := h.sides hsound hstored
  have hr := Schema.Linked.mem_of_relationship_eq_ok h.known
  have htake {x : Option Nat} : (t ++ [x]).take joined.length = t := by
    rw [← ht.length, List.take_left]
  rcases h.cases with ⟨rfl, -⟩ | ⟨rfl, -, hjoined⟩ | ⟨rfl, -⟩
  · exact absurd rfl hadds
  · have hnext : stepped bs r [t] (.fanOut r.identifier r.source) =
        extended bs r.targetKey r.sourceKey t := List.append_nil _
    rw [hnext]
    apply sum_eq_one_of_options
    intro u hu
    obtain ⟨x, -, rfl⟩ := List.mem_map.mp hu
    have known := Schema.relationship_eq_ok.mp h.known
    rw [JoinStep.relationship] at known
    rw [← share_take h (t ++ [x]) le_rfl, htake, share, known, Option.elim_some]
  · have hnext : stepped bs r [t] (.lookup r.identifier r.target) =
        extended bs r.sourceKey r.targetKey t := List.append_nil _
    rw [hnext]
    apply sum_eq_one_of_options
    intro u _
    rw [length_options_lookup hdata hblocks hr htarget]
    exact (div_self one_ne_zero).symm

end Expansion

end ApproxQuery
