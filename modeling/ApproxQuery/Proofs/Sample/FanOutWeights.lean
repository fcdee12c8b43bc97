import ApproxQuery.Proofs.Sample.CompleteSample
import ApproxQuery.Proofs.Sample.FanOut

/-!
# Correction of fan-outs

A fan-out repeats a row, which the reciprocal of its multiplier makes up for. In a complete sample
the rows of each start row have the weight one in all if a fan-out counts only in the rows that have
the referenced table. The sampler lists the null marker of the multiplier in the other rows, and its
reciprocal makes the weight differ from one.
-/

namespace ApproxQuery

namespace Expansion

variable {g : Schema ℚ} {bs : List (TableBlock ℚ)} {steps : List JoinStep} {r : Relationship}
  {rs : List Relationship} {t : JoinTuple} {cells : List ℚ}

/-- The tuple holds a row of the table that the relationship references. -/
def HasTarget (bs : List (TableBlock ℚ)) (t : JoinTuple) (r : Relationship) : Prop :=
  rowIn bs t r.target ≠ none

instance : DecidablePred (HasTarget bs t) := fun r =>
  inferInstanceAs (Decidable (rowIn bs t r.target ≠ none))

/-- The product of the reciprocal multipliers of relationships in a row of a sample. -/
def correction (bs : List (TableBlock ℚ)) (rs : List Relationship) (cells : List ℚ) : ℚ :=
  (rs.map fun r => 1 / cellOf bs cells r.definedMultiplier).prod

/-- The product of the reciprocal null markers of the relationships without a referenced row. -/
def bias (bs : List (TableBlock ℚ)) (rs : List Relationship) (t : JoinTuple) : ℚ :=
  ((rs.filter (¬ HasTarget bs t ·)).map fun r => 1 / nullMarker bs r).prod

theorem mem_fanOuts : r ∈ fanOuts g steps ↔
    ∃ id table, .fanOut id table ∈ steps ∧ g.relationship id = .ok r := by
  simp only [fanOuts, List.mem_filterMap, Schema.relationship_eq_ok]
  constructor
  · rintro ⟨s, hs, hr⟩
    cases s with
    | fanOut id table => exact ⟨id, table, hs, hr⟩
    | lookup id table => cases hr
    | cycle id => cases hr
  · rintro ⟨id, table, hs, hr⟩
    exact ⟨_, hs, hr⟩

theorem weightOf_share (steps : List JoinStep) (t : JoinTuple) : weightOf (share g bs) steps t =
    ((fanOuts g steps).map fun r =>
      1 / ((options bs r.targetKey r.sourceKey t).length : ℚ)).prod := by
  unfold weightOf fanOuts
  induction steps with
  | nil => rfl
  | cons s steps ih =>
    rw [List.map_cons, List.prod_cons, ih]
    cases s with
    | fanOut id table =>
      cases hr : g.relationship? id with
      | none => simp [share, hr]
      | some r => simp [share, hr]
    | lookup id table => simp [share]
    | cycle id => simp [share]

theorem weightOf_share_pos (steps : List JoinStep) (t : JoinTuple) :
    0 < weightOf (share g bs) steps t := by
  rw [weightOf_share]
  apply List.prod_pos
  intro x hx
  obtain ⟨r, -, rfl⟩ := List.mem_map.mp hx
  have hpos : 0 < ((options bs r.targetKey r.sourceKey t).length : ℚ) := by
    exact_mod_cast length_options_pos
  positivity

/-- Only the relationships with a referenced row weigh. -/
theorem weightOf_share_eq (steps : List JoinStep) (t : JoinTuple)
    (h : ∀ r ∈ fanOuts g steps, cellOf bs cells r.definedMultiplier =
      (rowIn bs t r.target).elim (nullMarker bs r)
        fun _ => ((options bs r.targetKey r.sourceKey t).length : ℚ)) :
    correction bs ((fanOuts g steps).filter (HasTarget bs t ·)) cells =
      weightOf (share g bs) steps t := by
  rw [weightOf_share, ← List.prod_map_filter_mul_prod_map_filter_not (HasTarget bs t)]
  have hmissing : ((fanOuts g steps).filter (¬ HasTarget bs t ·)).map
      (fun r => 1 / ((options bs r.targetKey r.sourceKey t).length : ℚ)) =
        ((fanOuts g steps).filter (¬ HasTarget bs t ·)).map fun _ => 1 := by
    apply List.map_congr_left
    intro r hr
    have hrow : rowIn bs t r.target = none := by
      simpa [HasTarget] using (List.mem_filter.mp hr).2
    rw [options_of_missing (a := r.targetKey) hrow, Nat.cast_one, div_one]
  rw [hmissing, List.map_const', List.prod_replicate, one_pow, mul_one, correction]
  refine congrArg List.prod (List.map_congr_left fun r hr => ?_)
  obtain ⟨hr, hrow⟩ := List.mem_filter.mp hr
  obtain ⟨i, hi⟩ := Option.ne_none_iff_exists'.mp (of_decide_eq_true hrow)
  rw [h r hr, hi, Option.elim_some]

/-- The null markers stand in for the multipliers of the relationships without a referenced row. -/
theorem correction_eq (h : ∀ r ∈ rs, rowIn bs t r.target = none →
      cellOf bs cells r.definedMultiplier = nullMarker bs r) :
    correction bs rs cells = correction bs (rs.filter (HasTarget bs t ·)) cells * bias bs rs t := by
  unfold correction bias
  rw [← List.prod_map_filter_mul_prod_map_filter_not (HasTarget bs t)]
  refine congrArg _ (congrArg List.prod (List.map_congr_left fun r hr => ?_))
  obtain ⟨hr, hrow⟩ := List.mem_filter.mp hr
  rw [h r hr (by simpa [HasTarget] using hrow)]

theorem bias_of_hasTarget (h : ∀ r ∈ rs, HasTarget bs t r) : bias bs rs t = 1 := by
  have hnone : rs.filter (¬ HasTarget bs t ·) = [] := by
    apply List.filter_eq_nil_iff.mpr
    intro r hr
    simpa using h r hr
  rw [bias, hnone, List.map_nil, List.prod_nil]

theorem prod_lt_one {xs : List ℚ} (hne : xs ≠ []) (h : ∀ x ∈ xs, 0 < x ∧ x < 1) : xs.prod < 1 := by
  induction xs with
  | nil => exact absurd rfl hne
  | cons x xs ih =>
    obtain ⟨hpos, hlt⟩ := h x List.mem_cons_self
    have hle : xs.prod ≤ 1 := by
      cases xs with
      | nil => exact le_rfl
      | cons y ys =>
        exact (ih (List.cons_ne_nil y ys) fun z hz => h z (List.mem_cons_of_mem x hz)).le
    rw [List.prod_cons]
    calc x * xs.prod ≤ x * 1 := mul_le_mul_of_nonneg_left hle hpos.le
      _ < 1 := by rwa [mul_one]

theorem bias_lt_one (hr : r ∈ rs) (hmissing : ¬ HasTarget bs t r)
    (h : ∀ r ∈ rs, ¬ HasTarget bs t r → 1 < nullMarker bs r) : bias bs rs t < 1 := by
  refine prod_lt_one ?_ fun x hx => ?_
  · refine List.ne_nil_of_mem (a := 1 / nullMarker bs r) (List.mem_map.mpr ⟨r, ?_, rfl⟩)
    exact List.mem_filter.mpr ⟨hr, decide_eq_true hmissing⟩
  · obtain ⟨r, hr, rfl⟩ := List.mem_map.mp hx
    obtain ⟨hr, hrow⟩ := List.mem_filter.mp hr
    have hmarker := h r hr (of_decide_eq_true hrow)
    have hpos : 0 < nullMarker bs r := zero_lt_one.trans hmarker
    exact ⟨one_div_pos.mpr hpos, (div_lt_one hpos).mpr hmarker⟩

theorem one_lt_bias (hr : r ∈ rs) (hmissing : ¬ HasTarget bs t r)
    (h : ∀ r ∈ rs, ¬ HasTarget bs t r → 0 < nullMarker bs r ∧ nullMarker bs r < 1) :
    1 < bias bs rs t := by
  have hmem {r : Relationship} (hr : r ∈ rs.filter (¬ HasTarget bs t ·)) :
      0 < nullMarker bs r ∧ nullMarker bs r < 1 := by
    obtain ⟨hr, hrow⟩ := List.mem_filter.mp hr
    exact h r hr (of_decide_eq_true hrow)
  have hbias : bias bs rs t = (((rs.filter (¬ HasTarget bs t ·)).map (nullMarker bs)).prod)⁻¹ := by
    rw [List.prod_inv, List.map_map, bias]
    exact congrArg List.prod (List.map_congr_left fun r _ => one_div _)
  have hpos : 0 < ((rs.filter (¬ HasTarget bs t ·)).map (nullMarker bs)).prod := by
    apply List.prod_pos
    intro x hx
    obtain ⟨r, hr, rfl⟩ := List.mem_map.mp hx
    exact (hmem hr).1
  rw [hbias]
  refine (one_lt_inv₀ hpos).mpr (prod_lt_one ?_ fun x hx => ?_)
  · refine List.ne_nil_of_mem (a := nullMarker bs r) (List.mem_map_of_mem ?_)
    exact List.mem_filter.mpr ⟨hr, decide_eq_true hmissing⟩
  · obtain ⟨r, hr, rfl⟩ := List.mem_map.mp hx
    exact hmem hr

theorem bias_le_one (h : ∀ r ∈ rs, ¬ HasTarget bs t r → 1 < nullMarker bs r) : bias bs rs t ≤ 1 := by
  by_cases hall : ∀ r ∈ rs, HasTarget bs t r
  · exact (bias_of_hasTarget hall).le
  · push Not at hall
    obtain ⟨r, hr, hmissing⟩ := hall
    exact (bias_lt_one hr hmissing h).le

theorem one_le_bias (h : ∀ r ∈ rs, ¬ HasTarget bs t r → 0 < nullMarker bs r ∧ nullMarker bs r < 1) :
    1 ≤ bias bs rs t := by
  by_cases hall : ∀ r ∈ rs, HasTarget bs t r
  · exact (bias_of_hasTarget hall).ge
  · push Not at hall
    obtain ⟨r, hr, hmissing⟩ := hall
    exact (one_lt_bias hr hmissing h).le

theorem bias_eq_one_iff (h : (∀ r ∈ rs, ¬ HasTarget bs t r → 1 < nullMarker bs r) ∨
      ∀ r ∈ rs, ¬ HasTarget bs t r → 0 < nullMarker bs r ∧ nullMarker bs r < 1) :
    bias bs rs t = 1 ↔ ∀ r ∈ rs, HasTarget bs t r := by
  refine ⟨fun hone r hr => ?_, bias_of_hasTarget⟩
  by_contra hmissing
  rcases h with hlarge | hsmall
  · exact (bias_lt_one hr hmissing hlarge).ne hone
  · exact (one_lt_bias hr hmissing hsmall).ne' hone

/-- Factors on one side of one keep the sum of positive weights just if all of them are one. -/
theorem sum_mul_eq_iff {α : Type} {xs : List α} {weight factor : α → ℚ}
    (hpos : ∀ x ∈ xs, 0 < weight x) (h : (∀ x ∈ xs, factor x ≤ 1) ∨ ∀ x ∈ xs, 1 ≤ factor x) :
    (xs.map fun x => weight x * factor x).sum = (xs.map weight).sum ↔ ∀ x ∈ xs, factor x = 1 := by
  constructor
  · intro hsum x hx
    by_contra hne
    rcases h with hle | hge
    · have hlt : weight x * factor x < weight x :=
        mul_lt_of_lt_one_right (hpos x hx) ((hle x hx).lt_of_ne hne)
      refine (List.sum_lt_sum _ _ (fun y hy => ?_) ⟨x, hx, hlt⟩).ne hsum
      exact mul_le_of_le_one_right (hpos y hy).le (hle y hy)
    · have hlt : weight x < weight x * factor x :=
        lt_mul_of_one_lt_right (hpos x hx) ((hge x hx).lt_of_ne' hne)
      refine (List.sum_lt_sum _ _ (fun y hy => ?_) ⟨x, hx, hlt⟩).ne' hsum
      exact le_mul_of_one_le_right (hpos y hy).le (hge y hy)
  · intro hall
    refine congrArg List.sum (List.map_congr_left fun x hx => ?_)
    rw [hall x hx, mul_one]

end Expansion

namespace Sampler

open Expansion

variable {s : Sampler ℚ} {source : RawSource ℚ} {config : PreparationConfig ℚ}
  {ids : List String} {p : SamplePlan ℚ} {bs : List (TableBlock ℚ)} {w : JoinSample ℚ}

theorem Layout.cellOf_fanOut (h : s.Layout source config ids p bs w)
    (hdata : CompleteData s.schema source config) {t : JoinTuple} (ht : Holds bs p.path.tables t)
    {r : Relationship} (hr : r ∈ fanOuts s.schema p.path.steps) :
    cellOf bs (cellsOf bs t) r.definedMultiplier = (rowIn bs t r.target).elim (nullMarker bs r)
      fun _ => ((options bs r.targetKey r.sourceKey t).length : ℚ) := by
  obtain ⟨id, table, hstep, known⟩ := mem_fanOuts.mp hr
  obtain ⟨place, place', c, c', htarget, hsource, hlt, -⟩ := h.sides hstep known
  exact cellOf_multiplier hdata h.blocks (Schema.Linked.mem_of_relationship_eq_ok known) htarget
    hsource ht.fits (ht.length ▸ hlt)

theorem Layout.sum_shares (h : s.Layout source config ids p bs w)
    (hdata : CompleteData s.schema source config)
    (hacyclic : ∀ step ∈ p.path.steps, step.newTable? ≠ none) {row : Nat}
    (hrow : row < p.storedRows) :
    ((expanded s.schema bs p.path.steps [[some row]]).map
      (weightOf (share s.schema bs) p.path.steps)).sum = 1 := by
  have hshares : ∀ step ∈ p.path.steps,
      Shares s.schema bs (fun _ _ => True) (share s.schema bs) step := by
    intro step hstep
    refine ⟨fun hat u => share_take hat u ?_, fun hat t ht _ => ?_, fun _ _ _ _ _ _ _ => trivial⟩
    · rw [List.length_append]
      exact Nat.le_add_right _ _
    · exact sum_share hdata h.blocks hat (h.stored step hstep _ hat.known) (hacyclic step hstep) ht
  exact sum_weights h.sound h.chain h.names h.stored hshares (h.holds_start hrow) trivial

/-- The rows of a start row in a complete sample weigh one in all where each fan-out counts in the
rows with the referenced table only. The null markers in the other rows are factors besides; if all
of them are on one side of one, the weight with them is one exactly if there are no such rows. -/
theorem sum_corrections (hdata : CompleteData s.schema source config) (hs : s.Serves source config)
    (hw : s.IsComplete ids p bs w) (hacyclic : ∀ step ∈ p.path.steps, step.newTable? ≠ none)
    {row : Nat} (hrow : row < p.storedRows) :
    ((w.entriesOf row).map fun e =>
      correction bs ((fanOuts s.schema p.path.steps).filter (HasTarget bs e.1 ·)) e.2).sum = 1 ∧
    (∀ e ∈ w.entriesOf row, correction bs (fanOuts s.schema p.path.steps) e.2 =
      correction bs ((fanOuts s.schema p.path.steps).filter (HasTarget bs e.1 ·)) e.2 *
        bias bs (fanOuts s.schema p.path.steps) e.1) ∧
    ((∀ e ∈ w.entriesOf row, ∀ r ∈ fanOuts s.schema p.path.steps, ¬ HasTarget bs e.1 r →
        1 < nullMarker bs r) ∨
      (∀ e ∈ w.entriesOf row, ∀ r ∈ fanOuts s.schema p.path.steps, ¬ HasTarget bs e.1 r →
        0 < nullMarker bs r ∧ nullMarker bs r < 1) →
      (((w.entriesOf row).map fun e =>
          correction bs (fanOuts s.schema p.path.steps) e.2).sum = 1 ↔
        ∀ e ∈ w.entriesOf row, ∀ r ∈ fanOuts s.schema p.path.steps, HasTarget bs e.1 r)) := by
  have h := hw.layout hs
  have hcell : ∀ e ∈ w.entriesOf row, ∀ r ∈ fanOuts s.schema p.path.steps,
      cellOf bs e.2 r.definedMultiplier = (rowIn bs e.1 r.target).elim (nullMarker bs r)
        fun _ => ((options bs r.targetKey r.sourceKey e.1).length : ℚ) := by
    rw [h.entriesOf_eq hrow]
    intro e he r hr
    obtain ⟨t, ht, rfl⟩ := List.mem_map.mp he
    exact h.cellOf_fanOut hdata (h.holds_expanded hrow ht).1 hr
  have hweight : ∀ e ∈ w.entriesOf row,
      correction bs ((fanOuts s.schema p.path.steps).filter (HasTarget bs e.1 ·)) e.2 =
        weightOf (share s.schema bs) p.path.steps e.1 :=
    fun e he => weightOf_share_eq p.path.steps e.1 (hcell e he)
  have hsum : ((w.entriesOf row).map fun e =>
      weightOf (share s.schema bs) p.path.steps e.1).sum = 1 := by
    rw [h.entriesOf_eq hrow, List.map_map]
    exact h.sum_shares hdata hacyclic hrow
  have hbias : ∀ e ∈ w.entriesOf row, correction bs (fanOuts s.schema p.path.steps) e.2 =
      correction bs ((fanOuts s.schema p.path.steps).filter (HasTarget bs e.1 ·)) e.2 *
        bias bs (fanOuts s.schema p.path.steps) e.1 := by
    intro e he
    apply correction_eq
    intro r hr hmissing
    rw [hcell e he r hr, hmissing, Option.elim_none]
  have hall : ∀ e ∈ w.entriesOf row, correction bs (fanOuts s.schema p.path.steps) e.2 =
      weightOf (share s.schema bs) p.path.steps e.1 *
        bias bs (fanOuts s.schema p.path.steps) e.1 :=
    fun e he => (hbias e he).trans (congrArg (· * _) (hweight e he))
  refine ⟨(congrArg List.sum (List.map_congr_left hweight)).trans hsum, hbias, fun hmarkers => ?_⟩
  have hside := hmarkers.imp (fun h e he => bias_le_one (h e he)) fun h e he => one_le_bias (h e he)
  have hpos : ∀ e ∈ w.entriesOf row, 0 < weightOf (share s.schema bs) p.path.steps e.1 :=
    fun e _ => weightOf_share_pos p.path.steps e.1
  have hiff := sum_mul_eq_iff hpos hside
  rw [hsum] at hiff
  rw [List.map_congr_left hall, hiff]
  exact forall₂_congr fun e he => bias_eq_one_iff (hmarkers.imp (· e he) (· e he))

end Sampler

/-! In the shop the second customer has no order, and the fan-out to items hangs below the orders. -/

namespace Shop

open Expansion

theorem completeData : CompleteData schema source .standard where
  built := built
  rate := by decide +kernel
  size := by
    intro t ht raw hraw
    fin_cases ht <;> cases hraw <;> decide
  keys := by
    intro t ht raw hraw key hkey
    fin_cases ht <;> cases hraw <;> cases hkey <;> exact ⟨_, rfl, by decide, by decide⟩
  names := by
    intro t ht raw hraw
    fin_cases ht <;> cases hraw <;> decide +kernel
  relevant := by decide +kernel

theorem exists_completeSample : ∃ p bs w, sampler.IsComplete relationships p bs w ∧
    p.storedRows = 2 ∧ (∀ step ∈ p.path.steps, step.newTable? ≠ none) ∧
    (∀ e ∈ w.entriesOf 1, ∀ r ∈ fanOuts schema p.path.steps, ¬ HasTarget bs e.1 r →
      nullMarker bs r = 20001 / 10000) ∧
    (∃ e ∈ w.entriesOf 1, ∃ r ∈ fanOuts schema p.path.steps, ¬ HasTarget bs e.1 r) ∧
    ((w.entriesOf 1).map fun e => correction bs (fanOuts schema p.path.steps) e.2).sum =
      10000 / 20001 := by
  apply Sampler.exists_isComplete
  decide +kernel

/-- The row of the second customer weighs one without the null marker, and not with it. -/
theorem sum_corrections_second : ∃ p bs w, sampler.IsComplete relationships p bs w ∧
    ((w.entriesOf 1).map fun e =>
      correction bs ((fanOuts schema p.path.steps).filter (HasTarget bs e.1 ·)) e.2).sum = 1 ∧
    ((w.entriesOf 1).map fun e => correction bs (fanOuts schema p.path.steps) e.2).sum ≠ 1 := by
  obtain ⟨p, bs, w, hw, hrows, hacyclic, hmarkers, ⟨e, he, r, hr, hmissing⟩, -⟩ :=
    exists_completeSample
  have hserves := Sampler.ofPrepared_serves schema source .standard .standard
  obtain ⟨hpresent, -, hiff⟩ :=
    Sampler.sum_corrections completeData hserves hw hacyclic (show 1 < p.storedRows by omega)
  refine ⟨p, bs, w, hw, hpresent, fun hone => ?_⟩
  refine hmissing ((hiff (.inl fun e he r hr hmissing => ?_)).mp hone e he r hr)
  rw [hmarkers e he r hr hmissing]
  norm_num

/-- The reciprocal multipliers of the rows of a start row need not add up to one. -/
theorem fan_out_bias : CompleteData schema source .standard ∧ sampler.Serves source .standard ∧
    ∃ p bs w, sampler.IsComplete relationships p bs w ∧
      (∀ step ∈ p.path.steps, step.newTable? ≠ none) ∧ 1 < p.storedRows ∧
      ((w.entriesOf 1).map fun e => correction bs (fanOuts schema p.path.steps) e.2).sum ≠ 1 := by
  obtain ⟨p, bs, w, hw, hrows, hacyclic, -, -, hsum⟩ := exists_completeSample
  refine ⟨completeData, Sampler.ofPrepared_serves schema source .standard .standard, p, bs, w, hw,
    hacyclic, by omega, ?_⟩
  rw [hsum]
  norm_num

end Shop

end ApproxQuery
