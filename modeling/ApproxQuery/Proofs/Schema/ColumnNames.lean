import ApproxQuery.Proofs.Prepare.Columns
import ApproxQuery.Proofs.Sample.Complete
import ApproxQuery.Proofs.Schema.Indexed

/-!
# Names of columns

A table has columns for its attributes, for the multipliers of the relationships that reference it
and for its null indicator, and columns are found by their names. An addition does not look at the
names of columns, so they are distinct exactly if every addition happens to bring names that its
table does not have. Usual names of multipliers collide exactly if one column references the table
twice or if the column of one relationship is that of another with the ending of defined multipliers.
-/

namespace ApproxQuery

namespace Relationship

variable {r s : Relationship}

/-- The columns that the relationship adds to the table that it references. -/
def multiplierColumns (r : Relationship) : List String :=
  [r.multiplier.qualified, r.definedMultiplier.qualified]

/-- The multiplier has the name that it gets if none is given. -/
def UsuallyNamed (r : Relationship) : Prop :=
  r.multiplierName = "mul_" ++ r.sourceColumn

instance (r : Relationship) : Decidable r.UsuallyNamed :=
  inferInstanceAs (Decidable (_ = _))

/-- The columns that reference the two tables are told apart by the names of the multipliers. -/
def Apart (r s : Relationship) : Prop :=
  r.sourceColumn ≠ s.sourceColumn ∧ r.sourceColumn ≠ s.sourceColumn ++ "_nn" ∧
    r.sourceColumn ++ "_nn" ≠ s.sourceColumn

instance (r s : Relationship) : Decidable (r.Apart s) :=
  inferInstanceAs (Decidable (_ ∧ _))

theorem mem_multiplierColumns {column : String} : column ∈ r.multiplierColumns ↔
    column = qualify r.target r.multiplierName ∨
      column = qualify r.target (r.multiplierName ++ "_nn") := by
  simp [multiplierColumns, multiplier, definedMultiplier, AttributeRef.qualified]

theorem nodup_multiplierColumns (r : Relationship) : r.multiplierColumns.Nodup := by
  refine List.nodup_cons.mpr ⟨fun hmem => ?_, List.nodup_singleton _⟩
  have hname := qualify_inj.mp (List.mem_singleton.mp hmem)
  exact absurd (String.append_eq_left_iff.mp hname.symm) (by decide)

theorem disjoint_multiplierColumns (hr : r.UsuallyNamed) (hs : s.UsuallyNamed)
    (htarget : r.target = s.target) :
    r.multiplierColumns.Disjoint s.multiplierColumns ↔ r.Apart s := by
  unfold UsuallyNamed at hr hs
  simp only [List.Disjoint, mem_multiplierColumns, hr, hs, htarget, Apart]
  constructor
  · intro h
    refine ⟨fun heq => h (.inl rfl) (.inl (by rw [heq])), fun heq => h (.inl rfl) (.inr ?_),
      fun heq => h (.inr rfl) (.inl ?_)⟩
    · rw [heq, String.append_assoc]
    · rw [← heq, String.append_assoc]
  · rintro ⟨hsame, hending, hending'⟩ column (rfl | rfl) (heq | heq)
    · exact hsame (by simpa using qualify_inj.mp heq)
    · exact hending (by simpa [String.append_assoc] using qualify_inj.mp heq)
    · exact hending' (by simpa [String.append_assoc] using qualify_inj.mp heq)
    · exact hsame (by simpa [String.append_assoc] using qualify_inj.mp heq)

end Relationship

namespace Table

variable {N : Type} {t : Table N} {rs : List Relationship} {r : Relationship}

/-- The names of all columns that the table has if these relationships reference it. -/
def columnNames (t : Table N) (incoming : List Relationship) : List String :=
  t.qualifiedAttributes ++ incoming.flatMap Relationship.multiplierColumns ++
    [t.qualifiedNullIndicator]

/-- The names of the attributes and the null indicator are distinct and unlike usual names of
multipliers. -/
def Plain (t : Table N) : Prop :=
  (t.nullIndicator :: t.attributes).Nodup ∧
    ∀ name ∈ t.nullIndicator :: t.attributes, "mul_".toList.isPrefixOf name.toList = false

instance (t : Table N) : Decidable t.Plain :=
  inferInstanceAs (Decidable (_ ∧ _))

theorem nodup_columnNames_concat : (t.columnNames (rs ++ [r])).Nodup ↔
    (t.columnNames rs).Nodup ∧ ∀ column ∈ r.multiplierColumns, column ∉ t.columnNames rs := by
  have hperm : (t.columnNames (rs ++ [r])).Perm (t.columnNames rs ++ r.multiplierColumns) := by
    simp only [columnNames, List.flatMap_append, List.flatMap_singleton, List.append_assoc]
    exact ((List.perm_append_comm.append_left _).append_left _)
  rw [hperm.nodup_iff, List.nodup_append]
  constructor
  · rintro ⟨hold, -, hnew⟩
    exact ⟨hold, fun column hcolumn hmem => hnew column hmem column hcolumn rfl⟩
  · rintro ⟨hold, hnew⟩
    refine ⟨hold, r.nodup_multiplierColumns, fun old hmem column hcolumn heq => ?_⟩
    exact hnew column hcolumn (heq ▸ hmem)

theorem Plain.nodup_columnNames (h : t.Plain)
    (hrs : ∀ r ∈ rs, r.UsuallyNamed ∧ r.target = t.name) :
    (t.columnNames rs).Nodup ↔ rs.Pairwise Relationship.Apart := by
  have hperm : (t.columnNames rs).Perm ((t.nullIndicator :: t.attributes).map (qualify t.name) ++
      rs.flatMap Relationship.multiplierColumns) := by
    unfold columnNames
    exact List.perm_append_comm
  have hown : ((t.nullIndicator :: t.attributes).map (qualify t.name)).Nodup :=
    h.1.map fun a b hab => qualify_inj.mp hab
  -- A usual name starts in a way in which no other name does.
  have hother : ∀ a ∈ (t.nullIndicator :: t.attributes).map (qualify t.name),
      ∀ b ∈ rs.flatMap Relationship.multiplierColumns, a ≠ b := by
    intro a ha b hb heq
    obtain ⟨name, hname, rfl⟩ := List.mem_map.mp ha
    obtain ⟨r, hr, hcolumn⟩ := List.mem_flatMap.mp hb
    obtain ⟨husual, htarget⟩ := hrs r hr
    have hstart : ∃ rest, name = "mul_" ++ rest := by
      rw [← heq, Relationship.mem_multiplierColumns, htarget, qualify_inj, qualify_inj, husual,
        String.append_assoc] at hcolumn
      exact hcolumn.elim (fun h => ⟨_, h⟩) fun h => ⟨_, h⟩
    obtain ⟨rest, rfl⟩ := hstart
    have hprefix := h.2 _ hname
    rw [String.toList_append, List.isPrefixOf_iff_prefix.mpr (List.prefix_append _ _)] at hprefix
    cases hprefix
  have hpairwise : rs.Pairwise (Function.onFun List.Disjoint Relationship.multiplierColumns) ↔
      rs.Pairwise Relationship.Apart :=
    List.Pairwise.iff_of_mem fun {r s} hr hs => Relationship.disjoint_multiplierColumns
      (hrs r hr).1 (hrs s hs).1 ((hrs r hr).2.trans (hrs s hs).2.symm)
  rw [hperm.nodup_iff, List.nodup_append, List.nodup_flatMap, hpairwise]
  exact ⟨fun h => h.2.1.2, fun h => ⟨hown, ⟨fun r _ => r.nodup_multiplierColumns, h⟩, hother⟩⟩

end Table

namespace Schema

variable {N : Type} {g g' : Schema N} {t : Table N} {r : Relationship}

/-- The names of all columns of a known table. -/
def columnsOf (g : Schema N) (name : String) : Except SchemaError (List String) := do
  return (← g.table name).columnNames (← g.incoming name)

/-- No table has two columns of one name. -/
def DistinctColumns (g : Schema N) : Prop :=
  ∀ t ∈ g.tables, ∃ names, g.columnsOf t.name = .ok names ∧ names.Nodup

theorem columnsOf_eq (h : g.Linked) (ht : t ∈ g.tables) : g.columnsOf t.name =
    .ok (t.columnNames (g.relationships.filter (·.target == t.name))) := by
  have htable : g.table t.name = .ok t := by
    simp [table, table?, find?_eq_some_of_nodup h.names ht]
  exact bind_eq_ok.mpr ⟨t, htable, bind_eq_ok.mpr ⟨_, h.incoming_eq htable, rfl⟩⟩

theorem distinctColumns_iff (h : g.Linked) : g.DistinctColumns ↔
    ∀ t ∈ g.tables, (t.columnNames (g.relationships.filter (·.target == t.name))).Nodup := by
  refine forall₂_congr fun t ht => ?_
  simp [columnsOf_eq h ht]

theorem distinctColumns_addTable [Scalar N] (h : g.Linked) (hincoming : t.incoming = [])
    (hadd : g.addTable t = .ok g') :
    g'.DistinctColumns ↔ g.DistinctColumns ∧ (t.columnNames []).Nodup := by
  have h' := h.addTable hincoming hadd
  obtain ⟨hnew, -, rfl⟩ := addTable_eq_ok hadd
  have hnone : g.relationships.filter (·.target == t.name) = [] := by
    refine List.filter_eq_nil_iff.mpr fun r hr heq => hnew ?_
    exact beq_iff_eq.mp heq ▸ h.target r hr
  rw [distinctColumns_iff h', distinctColumns_iff h, List.forall_mem_append,
    List.forall_mem_singleton, hnone]

theorem columnNames_link (r : Relationship) (t : Table N) (rs : List Relationship) :
    (link r t).columnNames rs = t.columnNames rs := rfl

/-- A relationship matters to the table that it references only. -/
theorem nodup_columnNames_filter_concat (rs : List Relationship) (r : Relationship) (t : Table N) :
    (t.columnNames ((rs ++ [r]).filter (·.target == t.name))).Nodup ↔
      (t.columnNames (rs.filter (·.target == t.name))).Nodup ∧ (r.target = t.name →
        ∀ column ∈ r.multiplierColumns, column ∉ t.columnNames (rs.filter (·.target == t.name))) := by
  rw [List.filter_append]
  by_cases htarget : r.target = t.name
  · have hone : [r].filter (·.target == t.name) = [r] := by simp [htarget]
    rw [hone, Table.nodup_columnNames_concat, forall_prop_of_true htarget]
  · have hnone : [r].filter (·.target == t.name) = [] := by simp [htarget]
    rw [hnone, List.append_nil]
    exact (and_iff_left fun h => absurd h htarget).symm

theorem distinctColumns_addRelationship (h : g.Linked) (hadd : g.addRelationship r = .ok g') :
    g'.DistinctColumns ↔ g.DistinctColumns ∧ ∃ names, g.columnsOf r.target = .ok names ∧
      ∀ column ∈ r.multiplierColumns, column ∉ names := by
  have h' := h.addRelationship hadd
  obtain ⟨-, -, htarget, rfl⟩ := addRelationship_eq_ok hadd
  obtain ⟨t, ht, hname⟩ := List.mem_map.mp htarget
  have honly : ∀ u ∈ g.tables, r.target = u.name → u = t := fun u hu hu' =>
    List.inj_on_of_nodup_map h.names hu ht (hu'.symm.trans hname.symm)
  rw [distinctColumns_iff h', distinctColumns_iff h, ← hname, columnsOf_eq h ht,
    List.forall_mem_map]
  simp only [columnNames_link, Except.ok.injEq, exists_eq_left']
  constructor
  · intro hall
    have hboth (u : Table N) (hu : u ∈ g.tables) :=
      (nodup_columnNames_filter_concat g.relationships r u).mp (hall u hu)
    exact ⟨fun u hu => (hboth u hu).1, (hboth t ht).2 hname.symm⟩
  · rintro ⟨hold, hnew⟩ u hu
    refine (nodup_columnNames_filter_concat g.relationships r u).mpr ⟨hold u hu, fun hu' => ?_⟩
    exact honly u hu hu' ▸ hnew

/-- All multipliers have their usual names, and no other column has such a name. -/
structure UsualNames (g : Schema N) : Prop where
  multipliers : ∀ r ∈ g.relationships, r.UsuallyNamed
  others : ∀ t ∈ g.tables, t.Plain

/-- With usual names the columns are distinct exactly if the columns that reference one table are told
apart by them. -/
theorem UsualNames.distinctColumns_iff (h : g.UsualNames) (hg : g.Linked) : g.DistinctColumns ↔
    g.relationships.Pairwise fun r s => r.target = s.target → r.Apart s := by
  have htable (t : Table N) (ht : t ∈ g.tables) :
      (t.columnNames (g.relationships.filter (·.target == t.name))).Nodup ↔
        g.relationships.Pairwise fun r s => r.target = t.name → s.target = t.name → r.Apart s := by
    have hrs : ∀ r ∈ g.relationships.filter (·.target == t.name),
        r.UsuallyNamed ∧ r.target = t.name := fun r hr =>
      ⟨h.multipliers r (List.mem_of_mem_filter hr), beq_iff_eq.mp (List.mem_filter.mp hr).2⟩
    rw [(h.others t ht).nodup_columnNames hrs, List.pairwise_filter]
    simp only [beq_iff_eq]
  rw [Schema.distinctColumns_iff hg, forall₂_congr htable]
  simp only [List.pairwise_iff_getElem]
  constructor
  · intro hall i j hi hj hij htarget
    obtain ⟨t, ht, hname⟩ := List.mem_map.mp (hg.target _ (List.getElem_mem hi))
    exact hall t ht i j hi hj hij hname.symm (htarget.symm.trans hname.symm)
  · intro hall t _ i j hi hj hij hi' hj'
    exact hall i j hi hj hij (hi'.trans hj'.symm)

end Schema

namespace SchemaCall

variable {N : Type} [Scalar N]

/-- The call gives a table only names of columns that the table does not have. -/
def BringsNew (g : Schema N) : SchemaCall N → Prop
  | addTable name settings => ((Table.configured name settings).columnNames []).Nodup
  | addRelationship source sourceAttribute target targetAttribute multiplier? =>
    ∃ names, g.columnsOf target = .ok names ∧ ∀ column ∈ (Relationship.between source
      sourceAttribute target targetAttribute multiplier?).multiplierColumns, column ∉ names

/-- Every call that is not refused brings new names to the schema before it. -/
def EachNew : IndexedSchema N → List (SchemaCall N) → Prop
  | _, [] => True
  | g, call :: calls => (∀ reply, (call.run g).1 = .ok reply → call.BringsNew g.plain) ∧
    EachNew (call.run g).2 calls

theorem distinctColumns_of_onPlain {p p' : Schema N} {call : SchemaCall N} (h : p.Linked)
    (hcall : call.onPlain p = .ok p') :
    p'.DistinctColumns ↔ p.DistinctColumns ∧ call.BringsNew p := by
  cases call with
  | addTable name settings =>
    exact Schema.distinctColumns_addTable h (Table.configured_spec name settings).2.1 hcall
  | addRelationship source sourceAttribute target targetAttribute multiplier? =>
    exact Schema.distinctColumns_addRelationship h hcall

theorem distinctColumns_run {g : IndexedSchema N} (h : g.Indexed) (hbuilt : g.plain.Built)
    (calls : List (SchemaCall N)) :
    (calls.foldl (fun g call => (call.run g).2) g).plain.DistinctColumns ↔
      g.plain.DistinctColumns ∧ EachNew g calls := by
  induction calls generalizing g with
  | nil => simp [EachNew]
  | cons call calls ih =>
    rw [List.foldl_cons]
    rcases run_cases h call with ⟨e, -, hcall⟩ | ⟨g', reply, hplain, hcall, h'⟩
    · rw [hcall, ih h hbuilt]
      simp [EachNew, hcall]
    · rw [hcall, ih h' (built_of_onPlain hbuilt hplain),
        distinctColumns_of_onPlain hbuilt.linked hplain]
      simp [EachNew, hcall, and_assoc]

/-- After any calls the columns of each table have different names exactly if every call that was not
refused brought new ones. If no call chose the name of a multiplier and the other names are plain,
they are different exactly if the columns that reference one table are told apart by usual names. -/
theorem columns_distinct_iff (calls : List (SchemaCall N)) :
    ((after calls).plain.DistinctColumns ↔ EachNew .empty calls) ∧
    ((after calls).plain.UsualNames → ((after calls).plain.DistinctColumns ↔
      (after calls).relationships.Pairwise fun r s => r.target = s.target → r.Apart s)) := by
  refine ⟨?_, fun husual => husual.distinctColumns_iff (after_indexed calls).2.linked⟩
  have hrun := distinctColumns_run (N := N) (g := .empty) ⟨.empty, .empty⟩ .empty calls
  have hempty : (IndexedSchema.empty : IndexedSchema N).plain.DistinctColumns := nofun
  exact hrun.trans (and_iff_right hempty)

end SchemaCall

/-! A case has a judge, and a clerk or another judge whose column ends like a defined multiplier. -/

namespace Courts

def judged : Relationship := .between "cases" "judge" "people" "id" none

def calls (other : String) : List (SchemaCall ℚ) := [
  .addTable "people" [.attributes ["id"]],
  .addTable "cases" [.attributes ["id", "judge", other]],
  .addRelationship "cases" "judge" "people" "id" none,
  .addRelationship "cases" other "people" "id" none]

def schema (other : String) : Schema ℚ := (SchemaCall.after (calls other)).plain

def source : RawSource ℚ := .ofTables [
  ("people", ⟨["id"], [[.int 1]]⟩),
  ("cases", ⟨["id", "judge", "judge_nn"], [[.int 10, .int 1, .null]]⟩)]

def sampler : Sampler ℚ := .ofPrepared (schema "judge_nn") source .standard .standard

theorem columns_distinct_clerk : (schema "clerk").UsualNames ∧
    (schema "clerk").relationships.length = 2 ∧ (schema "clerk").DistinctColumns ∧
    SchemaCall.EachNew .empty (calls "clerk") := by
  have husual : (schema "clerk").UsualNames := ⟨by decide +kernel, by decide +kernel⟩
  obtain ⟨hnew, hapart⟩ := SchemaCall.columns_distinct_iff (calls "clerk")
  have hdistinct : (schema "clerk").DistinctColumns := (hapart husual).mpr (by decide +kernel)
  exact ⟨husual, by decide +kernel, hdistinct, hnew.mp hdistinct⟩

/-- The defined multiplier of the first relationship has the name of the multiplier of the second. It
is one for the only person, and is found in a sample as the zero of the second. -/
theorem usual_names_collide : ∃ w, (schema "judge_nn").relationships.length = 2 ∧
    (schema "judge_nn").UsualNames ∧ ¬ (schema "judge_nn").DistinctColumns ∧
    (sampler.sample ⟨.table "people", 1, none⟩ (ChaCha.ofSeed 0) sampler.freshCache).1 = .ok w ∧
    w.columns = ["people.id", "people.mul_cases.judge", "people.mul_cases.judge_nn",
      "people.mul_cases.judge_nn", "people.mul_cases.judge_nn_nn"] ∧
    w.rows = [[1, 1, 0, 1, 1]] ∧ w.column? judged.definedMultiplier.qualified = some [0] := by
  have husual : (schema "judge_nn").UsualNames := ⟨by decide +kernel, by decide +kernel⟩
  have hsame : ¬ (schema "judge_nn").DistinctColumns := by
    rw [husual.distinctColumns_iff (SchemaCall.after_indexed _).2.linked]
    decide +kernel
  have hsample : ((sampler.sample ⟨.table "people", 1, none⟩ (ChaCha.ofSeed 0)
      sampler.freshCache).1.toOption.any fun w => decide (
        w.columns = ["people.id", "people.mul_cases.judge", "people.mul_cases.judge_nn",
          "people.mul_cases.judge_nn", "people.mul_cases.judge_nn_nn"] ∧
        w.rows = [[1, 1, 0, 1, 1]] ∧
        w.column? judged.definedMultiplier.qualified = some [0])) = true := by decide +kernel
  obtain ⟨w, hw, hfound⟩ := (Option.any_eq_true _ _).mp hsample
  exact ⟨w, by decide +kernel, husual, hsame, mem_toOption.mp (Option.mem_def.mpr hw),
    of_decide_eq_true hfound⟩

end Courts

end ApproxQuery
