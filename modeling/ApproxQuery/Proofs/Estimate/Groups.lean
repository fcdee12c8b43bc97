import ApproxQuery.Estimate.Ensemble
import ApproxQuery.Proofs.Query.Built
import ApproxQuery.Proofs.Query.Membership
import ApproxQuery.Proofs.Value.Hashing

/-!
# Rows of a query by group

The conditions of a group hold of the rows whose values are equal to those of the group, if all of
these values are ordered; a row with a null among them is in no group at all. Beyond that they hold of
rows that rounding makes one with the group. Where neither occurs, the groups share out the rows of the
query.
-/

namespace ApproxQuery

section

variable {α β : Type}

theorem countP_eq_one_of_contains [BEq α] [EquivBEq α] {a : α} {as : List α}
    (hdistinct : as.Pairwise fun b c => (b == c) = false) (hmem : as.contains a = true) :
    as.countP (a == ·) = 1 := by
  induction as with
  | nil => cases hmem
  | cons b as ih =>
    obtain ⟨hb, hdistinct⟩ := List.pairwise_cons.mp hdistinct
    rw [List.countP_cons]
    cases hab : a == b with
    | true =>
      have hnone : as.countP (a == ·) = 0 := by
        refine List.countP_eq_zero.mpr fun c hc hac => ?_
        have hbc := hb c hc
        rw [BEq.trans (BEq.symm hab) hac] at hbc
        cases hbc
      rw [hnone]
      rfl
    | false =>
      rw [List.contains_cons, hab, Bool.false_or] at hmem
      rw [ih hdistinct hmem]
      rfl

theorem eq_of_countP_eq_one {p : α → Bool} {as : List α} {a b : α} (h : as.countP p = 1) (ha : a ∈ as)
    (hb : b ∈ as) (hpa : p a = true) (hpb : p b = true) : a = b := by
  rw [List.countP_eq_length_filter] at h
  obtain ⟨c, hc⟩ := List.length_eq_one_iff.mp h
  have honly {d : α} (hd : d ∈ as) (hpd : p d = true) : d = c := by
    have hmem := List.mem_filter.mpr ⟨hd, hpd⟩
    rw [hc] at hmem
    exact List.mem_singleton.mp hmem
  rw [honly ha hpa, honly hb hpb]

/-- Predicates one of which each counted member satisfies, and the others none, count together what is
counted. -/
theorem sum_countP {p : β → α → Bool} {r : α → Bool} {as : List α} {bs : List β}
    (h : ∀ a ∈ as, bs.countP (p · a) = if r a then 1 else 0) :
    (bs.map fun b => as.countP (p b)).sum = as.countP r := by
  have hswap : (bs.map fun b => as.countP (p b)).sum = (as.map fun a => bs.countP (p · a)).sum := by
    clear h
    induction bs with
    | nil => simp
    | cons b bs ih =>
      rw [List.map_cons, List.sum_cons, ih]
      clear ih
      induction as with
      | nil => simp
      | cons a as ih =>
        simp only [List.map_cons, List.sum_cons, List.countP_cons] at ih ⊢
        omega
  rw [hswap]
  clear hswap
  induction as with
  | nil => rfl
  | cons a as ih =>
    rw [List.map_cons, List.sum_cons, h a List.mem_cons_self, ih fun b hb => h b (List.mem_cons_of_mem a hb),
      List.countP_cons, Nat.add_comm]

end

open Value

/-- Two lists of values differ, but only where rounding makes their members one. -/
def Merged (vs ws : List (Value Float)) : Prop :=
  (vs == ws) = false ∧ List.Forall₂ Alike vs ws

theorem ordered_of_forall₂ {vs ws : List (Value Float)} (h : List.Forall₂ Alike vs ws) :
    ∀ v ∈ vs, v.Ordered := by
  induction h with
  | nil => exact fun v hv => absurd hv List.not_mem_nil
  | cons hpair _ ih => exact List.forall_mem_cons.mpr ⟨hpair.ordered, ih⟩

/-- All conditions hold of a row, which gives each attribute a value. -/
def Condition.allHold (cs : List (Condition Float)) (row : AttributeRef → Value Float) : Bool :=
  cs.all fun c => c.holds (row c.column)

section

variable {row : AttributeRef → Value Float} {groupBy : List AttributeRef} {group : List (Value Float)}

theorem column_mem_of_mem_groupConditions {c : Condition Float}
    (h : c ∈ groupConditions groupBy group) : c.column ∈ groupBy := by
  rw [groupConditions, ← List.map_uncurry_zip_eq_zipWith] at h
  obtain ⟨⟨a, v⟩, hmem, rfl⟩ := List.mem_map.mp h
  exact (List.of_mem_zip hmem).1

theorem allHold_groupConditions_iff_alike (hlength : group.length = groupBy.length) :
    Condition.allHold (groupConditions groupBy group) row = true ↔
      List.Forall₂ Alike (groupBy.map row) group := by
  induction groupBy generalizing group with
  | nil =>
    cases List.eq_nil_of_length_eq_zero hlength
    exact iff_of_true rfl .nil
  | cons a groupBy ih =>
    obtain ⟨w, group, rfl⟩ := List.exists_cons_of_length_eq_add_one hlength
    rw [List.map_cons, List.forall₂_cons, ← ih (Nat.succ.inj hlength),
      ← Condition.equals_holds_iff (a := a)]
    exact Bool.and_eq_true_iff

theorem allHold_groupConditions_iff (hlength : group.length = groupBy.length) :
    Condition.allHold (groupConditions groupBy group) row = true ↔
      (groupBy.map row == group) = true ∧ (∀ v ∈ groupBy.map row, v.Ordered) ∨
        Merged (groupBy.map row) group := by
  rw [allHold_groupConditions_iff_alike hlength]
  constructor
  · intro h
    cases heq : (groupBy.map row == group) with
    | true => exact .inl ⟨rfl, ordered_of_forall₂ h⟩
    | false => exact .inr ⟨heq, h⟩
  · rintro (⟨heq, hordered⟩ | h)
    · have hpairs := (List.forall₂_and_left _ _).mpr ⟨hordered, beq_iff_forall₂.mp heq⟩
      exact hpairs.imp fun v w h => .inl h.symm
    · exact h.2

end

namespace Query

variable {g : Schema Float} {q q' : Query Float} {row : AttributeRef → Value Float}
  {group : List (Value Float)} {groups : List (List (Value Float))} {a : AttributeRef}

theorem checkColumn_congr (h : q'.schema = q.schema) (a : AttributeRef) :
    q'.checkColumn a = q.checkColumn a := by
  unfold checkColumn
  rw [h]

theorem foldlM_addCondition {cs : List (Condition Float)}
    (h : ∀ c ∈ cs, q.checkColumn c.column = .ok ()) :
    ∃ q', cs.foldlM addCondition q = .ok q' ∧ q'.conditions = q.conditions ++ cs := by
  induction cs generalizing q with
  | nil => exact ⟨q, rfl, (List.append_nil _).symm⟩
  | cons c cs ih =>
    obtain ⟨hc, hcs⟩ := List.forall_mem_cons.mp h
    obtain ⟨next, hnext, hschema, hconditions⟩ : ∃ next, q.addCondition c = .ok next ∧
        next.schema = q.schema ∧ next.conditions = q.conditions ++ [c] :=
      ⟨_, bind_eq_ok.mpr ⟨(), hc, rfl⟩, rfl, rfl⟩
    obtain ⟨q', hq', heq⟩ := ih (q := next) fun d hd => checkColumn_congr hschema d.column ▸ hcs d hd
    refine ⟨q', ?_, ?_⟩
    · rw [List.foldlM_cons]
      exact bind_eq_ok.mpr ⟨next, hnext, hq'⟩
    · rw [heq, hconditions, List.append_assoc]
      rfl

/-- The schema declares the attributes that the query groups by. -/
def GroupsByColumns (q : Query Float) : Prop :=
  ∀ a ∈ q.groupBy, q.checkColumn a = .ok ()

theorem Built.groupsByColumns (h : Built g q) : q.GroupsByColumns := by
  induction h with
  | empty kind => exact fun a ha => absurd ha List.not_mem_nil
  | addTable built added ih =>
    obtain ⟨_, _, added⟩ := bind_eq_ok.mp added
    cases pure_eq_ok.mp added
    exact ih
  | addRelationship built added ih =>
    obtain ⟨_, _, added⟩ := bind_eq_ok.mp added
    cases pure_eq_ok.mp added
    exact ih
  | addCondition built added ih =>
    obtain ⟨_, _, added⟩ := bind_eq_ok.mp added
    cases pure_eq_ok.mp added
    exact ih
  | addGroupBy built added ih =>
    obtain ⟨_, hcheck, added⟩ := bind_eq_ok.mp added
    cases pure_eq_ok.mp added
    exact List.forall_mem_append.mpr ⟨ih, List.forall_mem_singleton.mpr hcheck⟩
  | addAggregation built added ih =>
    cases eq_of_addAggregation added
    exact ih

theorem exists_forGroup (h : q.GroupsByColumns) (hlength : group.length = q.groupBy.length) :
    ∃ q', q.forGroup group = .ok q' ∧ q'.conditions = q.conditions ++ groupConditions q.groupBy group := by
  have hcheck : ∀ c ∈ groupConditions q.groupBy group,
      ({ q with groupBy := [] } : Query Float).checkColumn c.column = .ok () := by
    intro c hc
    exact h c.column (column_mem_of_mem_groupConditions hc)
  obtain ⟨q', hq', hconditions⟩ := foldlM_addCondition hcheck
  refine ⟨q', ?_, hconditions⟩
  unfold forGroup
  rw [if_neg (not_not_intro hlength)]
  exact mapError_eq_ok.mpr hq'

/-- The row satisfies the conditions of the query. -/
def selects (q : Query Float) (row : AttributeRef → Value Float) : Bool :=
  Condition.allHold q.conditions row

/-- The values of the row that the query groups by. -/
def groupOf (q : Query Float) (row : AttributeRef → Value Float) : List (Value Float) :=
  q.groupBy.map row

/-- The groups are those of the rows, each listed once. -/
structure ListsGroups (q : Query Float) (rows : List (AttributeRef → Value Float))
    (groups : List (List (Value Float))) : Prop where
  distinct : groups.Pairwise fun vs ws => (vs == ws) = false
  complete : ∀ row ∈ rows, groups.contains (q.groupOf row) = true
  occurring : ∀ group ∈ groups, ∃ row ∈ rows, (q.groupOf row == group) = true

/-- The values of the row are ordered, and rounding makes none of the groups one with that of the row. -/
structure IsApart (q : Query Float) (row : AttributeRef → Value Float)
    (groups : List (List (Value Float))) : Prop where
  ordered : ∀ v ∈ q.groupOf row, v.Ordered
  unmerged : ∀ group ∈ groups, ¬ Merged (q.groupOf row) group

theorem ListsGroups.length_eq {rows : List (AttributeRef → Value Float)}
    (h : q.ListsGroups rows groups) : ∀ group ∈ groups, group.length = q.groupBy.length := by
  intro group hgroup
  obtain ⟨row, -, heq⟩ := h.occurring group hgroup
  rw [← (beq_iff_forall₂.mp heq).length_eq, groupOf, List.length_map]

theorem selects_of_conditions {cs : List (Condition Float)} (h : q'.conditions = q.conditions ++ cs)
    (row : AttributeRef → Value Float) :
    q'.selects row = (q.selects row && Condition.allHold cs row) := by
  rw [selects, h, Condition.allHold, List.all_append]
  rfl

theorem countP_selects {qs : List (Query Float)} (row : AttributeRef → Value Float)
    (h : List.Forall₂ (fun group q' => q'.conditions = q.conditions ++ groupConditions q.groupBy group)
      groups qs) :
    qs.countP (·.selects row) = groups.countP fun group =>
      q.selects row && Condition.allHold (groupConditions q.groupBy group) row := by
  induction h with
  | nil => rfl
  | cons hq _ ih => rw [List.countP_cons, List.countP_cons, ih, selects_of_conditions hq]

/-- A row is in one group exactly if its values are ordered and not blurred by rounding. -/
theorem countP_allHold_eq_one_iff {rows : List (AttributeRef → Value Float)}
    (h : q.ListsGroups rows groups) (hrow : row ∈ rows) :
    (groups.countP fun group => Condition.allHold (groupConditions q.groupBy group) row) = 1 ↔
      q.IsApart row groups := by
  constructor
  · intro hone
    obtain ⟨group, hgroup, hholds⟩ := List.countP_pos_iff.mp (hone ▸ Nat.one_pos)
    have hordered : ∀ v ∈ q.groupOf row, v.Ordered :=
      ordered_of_forall₂ ((allHold_groupConditions_iff_alike (h.length_eq group hgroup)).mp hholds)
    refine ⟨hordered, fun other hother hmerged => ?_⟩
    obtain ⟨own, hown, heq⟩ := List.contains_iff_exists_mem_beq.mp (h.complete row hrow)
    have hsame : own = other := eq_of_countP_eq_one hone hown hother
      ((allHold_groupConditions_iff (h.length_eq own hown)).mpr (.inl ⟨heq, hordered⟩))
      ((allHold_groupConditions_iff (h.length_eq other hother)).mpr (.inr hmerged))
    rw [hsame, hmerged.1] at heq
    cases heq
  · intro hapart
    rw [← countP_eq_one_of_contains h.distinct (h.complete row hrow)]
    refine List.countP_congr fun group hgroup => ?_
    rw [allHold_groupConditions_iff (h.length_eq group hgroup)]
    exact ⟨fun hholds => (hholds.resolve_right (hapart.unmerged group hgroup)).1,
      fun heq => .inl ⟨heq, hapart.ordered⟩⟩

/-- The conditions of a group hold of a row exactly if its values are equal to those of the group and
ordered, or rounding makes them one. So a row that satisfies the conditions of the query is in one group
exactly if its values are ordered and rounding makes them one with no other group; and if this is so for
all of these rows, the groups count as many rows as the query. -/
theorem groups_partition_rows (q : Query Float) :
    (∀ (row : AttributeRef → Value Float) (group : List (Value Float)),
      group.length = q.groupBy.length →
        (Condition.allHold (groupConditions q.groupBy group) row = true ↔
          (q.groupOf row == group) = true ∧ (∀ v ∈ q.groupOf row, v.Ordered) ∨
            Merged (q.groupOf row) group)) ∧
    (q.GroupsByColumns → ∀ (rows : List (AttributeRef → Value Float)) (groups : List (List (Value Float))),
      q.ListsGroups rows groups → ∃ qs, groups.mapM q.forGroup = .ok qs ∧
        List.Forall₂ (fun group q' => q'.conditions = q.conditions ++ groupConditions q.groupBy group)
          groups qs ∧
        (∀ row ∈ rows, q.selects row = true →
          (qs.countP (·.selects row) = 1 ↔ q.IsApart row groups)) ∧
        ((∀ row ∈ rows, q.selects row = true → q.IsApart row groups) →
          (qs.map fun q' => rows.countP q'.selects).sum = rows.countP q.selects)) := by
  refine ⟨fun row group hlength => allHold_groupConditions_iff hlength, fun hcolumns rows groups h => ?_⟩
  have hgroups : ∀ group ∈ groups, ∃ q', q.forGroup group = .ok q' ∧
      q'.conditions = q.conditions ++ groupConditions q.groupBy group :=
    fun group hgroup => exists_forGroup hcolumns (h.length_eq group hgroup)
  obtain ⟨qs, hqs⟩ := exists_mapM_eq_ok fun group hgroup => (hgroups group hgroup).imp fun _ => And.left
  have hconditions : List.Forall₂ (fun group q' =>
      q'.conditions = q.conditions ++ groupConditions q.groupBy group) groups qs := by
    refine ((List.forall₂_and_left _ _).mpr ⟨hgroups, mapM_eq_ok.mp hqs⟩).imp fun group q' hgroup => ?_
    obtain ⟨⟨made, hmade, hconditions⟩, hq'⟩ := hgroup
    cases hmade.symm.trans hq'
    exact hconditions
  have hone : ∀ row ∈ rows, q.selects row = true →
      (qs.countP (·.selects row) = 1 ↔ q.IsApart row groups) := by
    intro row hrow hselects
    rw [countP_selects row hconditions, hselects]
    exact countP_allHold_eq_one_iff h hrow
  refine ⟨qs, hqs, hconditions, hone, fun hapart => sum_countP fun row hrow => ?_⟩
  cases hselects : q.selects row with
  | true => exact (hone row hrow hselects).mpr (hapart row hrow hselects)
  | false =>
    rw [countP_selects row hconditions, hselects]
    exact List.countP_eq_zero.mpr fun _ _ => nofun

end Query

namespace Regions

def schema : Schema Float :=
  ⟨[{ Table.named "customers" with attributes := ["id", "region"] }], []⟩

def region : AttributeRef := ⟨"customers", "region"⟩

def byRegion : Query Float := { Query.empty schema .cardinality with groupBy := [region] }

theorem built : Query.Built schema byRegion :=
  .addGroupBy (.empty .cardinality) (a := region) rfl

/-- A row with this region. -/
def customer (region : Value Float) : AttributeRef → Value Float := fun _ => region

/-- How many of the rows are in each of the groups. -/
def counts (rows : List (AttributeRef → Value Float)) (groups : List (List (Value Float))) :
    Except EstimateError (List Nat) :=
  (groups.mapM byRegion.forGroup).map fun qs => qs.map fun q => rows.countP q.selects

/-- Texts are ordered, and no rounding makes them one. -/
theorem isApart_of_text (s : String) (groups : List (List (Value Float))) :
    byRegion.IsApart (customer (.text s)) groups := by
  refine ⟨List.forall_mem_singleton.mpr ⟨rfl, rfl⟩, fun group _ hmerged => ?_⟩
  obtain ⟨hne, hpairs⟩ := hmerged
  obtain ⟨w, ws, hw, hws, rfl⟩ := List.forall₂_cons_left_iff.mp hpairs
  cases List.forall₂_nil_left_iff.mp hws
  rcases hw with ⟨heq, -⟩ | hblurred
  · have hequal : (byRegion.groupOf (customer (.text s)) == [w]) = true :=
      beq_iff_forall₂.mpr (.cons heq .nil)
    rw [hequal] at hne
    cases hne
  · cases hblurred

theorem counts_by_region :
    Condition.allHold (groupConditions byRegion.groupBy [.text "EU"]) (customer (.text "EU")) = true ∧
    byRegion.ListsGroups [customer (.text "EU"), customer (.text "US"), customer (.text "EU")]
      [[.text "EU"], [.text "US"]] ∧
    ∃ qs, [[.text "EU"], [.text "US"]].mapM byRegion.forGroup = .ok qs ∧
      (qs.map fun q =>
        [customer (.text "EU"), customer (.text "US"), customer (.text "EU")].countP q.selects).sum = 3 := by
  have hgroups : byRegion.ListsGroups
      [customer (.text "EU"), customer (.text "US"), customer (.text "EU")]
      [[.text "EU"], [.text "US"]] := by
    refine ⟨?_, ?_, ?_⟩ <;> decide +kernel
  have hheld := (byRegion.groups_partition_rows.1 (customer (.text "EU")) [.text "EU"] rfl).mpr
    (.inl ⟨by decide +kernel, (isApart_of_text "EU" []).ordered⟩)
  obtain ⟨qs, hqs, -, -, hsum⟩ := byRegion.groups_partition_rows.2 built.groupsByColumns _ _ hgroups
  refine ⟨hheld, hgroups, qs, hqs, hsum ?_⟩
  simp [isApart_of_text]

/-- A row without a region is not counted in its group, and two regions that rounding makes one are
counted in each other's group. -/
theorem counts_off :
    byRegion.ListsGroups [customer (.text "EU"), customer .null] [[.text "EU"], [.null]] ∧
    counts [customer (.text "EU"), customer .null] [[.text "EU"], [.null]] = .ok [1, 0] ∧
    byRegion.ListsGroups [customer (.int 9007199254740993), customer (.num 9007199254740992.0)]
      [[.int 9007199254740993], [.num 9007199254740992.0]] ∧
    counts [customer (.int 9007199254740993), customer (.num 9007199254740992.0)]
      [[.int 9007199254740993], [.num 9007199254740992.0]] = .ok [2, 2] := by
  refine ⟨⟨?_, ?_, ?_⟩, ?_, ⟨?_, ?_, ?_⟩, ?_⟩ <;> decide +kernel

end Regions

end ApproxQuery
