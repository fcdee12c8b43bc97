import ApproxQuery.Proofs.Prepare.Compression
import ApproxQuery.Proofs.Prepare.StoredRows
import ApproxQuery.Proofs.Schema.Built

/-!
# Reconstruction of compressed columns

A compressed column is rebuilt from its determinant, which is stored or was rebuilt before. Each
value comes out equal to the raw one, because a map is asked with a value that is equal to the raw
value of the determinant.
-/

namespace ApproxQuery

variable {N : Type} [Scalar N]

/-- The values are equal to those of the column in these rows. -/
def Column.Matches (c : Column N) (rows : List Nat) (vs : List (Value N)) : Prop :=
  List.Forall₂ (fun i w => ∃ v, c.values[i]? = some v ∧ (w == v) = true) rows vs

/-- The integers of columns that determine others are equal to their scalars. -/
def RawTable.ExactDeterminants (raw : RawTable N) (t : Table N) : Prop :=
  ∀ a ∈ raw.columns, t.dependentsOf (qualify t.name a) ≠ [] → ∀ values, raw.column? a = some values →
    ∀ i, Value.int i ∈ values → (Value.num (Scalar.ofInt i.toInt) == (.int i : Value N)) = true

theorem PreparedTable.decodeColumn_eq {p : PreparedTable N} {column : String} {numbers : List N}
    (h : p.table.column? column = some numbers) :
    p.decodeColumn column = numbers.mapM (p.metadata.decode column) := by
  obtain ⟨place, hplace, hnumbers⟩ := Option.bind_eq_some_iff.mp h
  simp only [decodeColumn, hplace, hnumbers]

/-- Values that match the determinant are mapped to values that match the dependent. -/
theorem DependencyMap.matches_map [LawfulScalar N] {table : String} {determinant dependent : Column N}
    {map : DependencyMap N} {rows : List Nat} {vs : List (Value N)}
    (hbuild : build table determinant dependent = .ok map)
    (hlen : determinant.values.length = dependent.values.length) (h : determinant.Matches rows vs) :
    dependent.Matches rows (vs.map map.value) := by
  obtain ⟨hdistinct, hgives⟩ := build_eq_ok hbuild
  refine List.forall₂_map_right_iff.mpr (h.imp fun i w ⟨k, hk, hw⟩ => ?_)
  obtain ⟨hlt, rfl⟩ := List.getElem?_eq_some_iff.mp hk
  have hlt' : i < dependent.values.length := hlen ▸ hlt
  refine ⟨dependent.values[i], List.getElem?_eq_getElem hlt', value_beq hdistinct ?_ hw⟩
  refine hgives (determinant.values[i], dependent.values[i]) ?_
  rw [← List.getElem_zip (h := by rw [List.length_zip]; omega)]
  exact List.getElem_mem _

namespace Preparation

variable {g : Schema N} {source : RawSource N} {config : PreparationConfig N} {name : String}
  {p : PreparedTable N} (h : Preparation g source config name p)

theorem mem_dependents {dependent : String} :
    dependent ∈ p.metadata.dependents ↔
      ∃ determinant map, h.compression.map? determinant dependent = some map := by
  unfold TableMetadata.dependents Compression.map?
  rw [h.dependencies_eq, List.mem_flatMap]
  constructor
  · rintro ⟨⟨determinant, maps⟩, hmaps, hkey⟩
    obtain ⟨⟨c, map⟩, hmap, rfl⟩ := List.mem_map.mp hkey
    refine ⟨determinant, map, ?_⟩
    rw [SortedMap.get?_eq_some.mpr hmaps]
    exact SortedMap.get?_eq_some.mpr hmap
  · rintro ⟨determinant, map, hmap⟩
    obtain ⟨maps, hmaps, hmap⟩ := Option.bind_eq_some_iff.mp hmap
    exact ⟨(determinant, maps), SortedMap.get?_eq_some.mp hmaps,
      List.mem_map.mpr ⟨(dependent, map), SortedMap.get?_eq_some.mp hmap, rfl⟩⟩

theorem determinant?_eq {determinant dependent : String} {map : DependencyMap N}
    (hmap : h.compression.map? determinant dependent = some map) :
    p.metadata.determinant? dependent = some (determinant, map) := by
  have hvia := h.recorded.mem_via _ _ _ hmap
  unfold TableMetadata.determinant?
  rw [h.dependencies_eq]
  cases hfind : h.compression.maps.toList.findSome? fun x =>
      (x.2.get? dependent).map fun map => (x.1, map) with
  | none =>
    obtain ⟨maps, hmaps, hmap⟩ := Option.bind_eq_some_iff.mp hmap
    have hnone := List.findSome?_eq_none_iff.mp hfind _ (SortedMap.get?_eq_some.mp hmaps)
    rw [hmap] at hnone
    cases hnone
  | some found =>
    obtain ⟨⟨d, maps⟩, hmem, hd⟩ := List.exists_of_findSome?_eq_some hfind
    obtain ⟨m, hm, rfl⟩ := Option.map_eq_some_iff.mp hd
    have hm : h.compression.map? d dependent = some m := by
      rw [Compression.map?, SortedMap.get?_eq_some.mpr hmem]
      exact hm
    have hsame := List.inj_on_of_nodup_map h.recorded.keys (h.recorded.mem_via _ _ _ hm) hvia rfl
    cases hsame
    rw [hm] at hmap
    cases hmap
    rfl

/-- A column is rebuilt when its determinant is stored or can be rebuilt. -/
theorem rebuild_succ {determinant dependent : String} {map : DependencyMap N} {depth : Nat}
    {vs : List (Value N)} (hmap : h.compression.map? determinant dependent = some map)
    (hvalues : (match p.table.columnIndex? determinant with
      | some _ => p.decodeColumn determinant
      | none => p.rebuild depth determinant) = .ok vs) :
    p.rebuild (depth + 1) dependent = .ok (vs.map map.value) := by
  simp only [PreparedTable.rebuild, h.determinant?_eq hmap]
  cases hplace : p.table.columnIndex? determinant with
  | none =>
    rw [hplace] at hvalues
    exact bind_eq_ok.mpr ⟨vs, hvalues, rfl⟩
  | some place =>
    rw [hplace] at hvalues
    exact bind_eq_ok.mpr ⟨vs, hvalues, rfl⟩

/-- A column of the frame is a raw one that is not ignored. -/
theorem exists_kept {c : Column N} (hc : c ∈ h.whole) :
    ∃ a ∈ h.raw.columns, a ∉ h.table.ignored ∧ c.name = qualify name a := by
  obtain ⟨place, a, ha, hkept, rfl⟩ := Frame.exists_place_of_mem_ofRaw h.whole_eq hc
  refine ⟨a, List.mem_of_getElem? ha, by simpa using hkept, ?_⟩
  rw [Schema.name_of_table h.known]

include h in
theorem exists_column? [LawfulScalar N] {column : String} {place : Nat}
    (hplace : p.table.columnIndex? column = some place) :
    ∃ numbers, p.table.column? column = some numbers := by
  obtain ⟨hlt, -⟩ := List.findIdx?_eq_some_iff_getElem.mp hplace
  rw [← h.rectangular.width] at hlt
  refine ⟨p.table.data[place], ?_⟩
  rw [EncodedTable.column?, hplace, Option.bind_some, List.getElem?_eq_getElem hlt]

include h in
/-- All numbers of a stored column are decoded. -/
theorem decodeColumn_eq [LawfulScalar N] {column : String} {numbers : List N}
    (hnumbers : p.table.column? column = some numbers) :
    p.decodeColumn column = .ok (numbers.map (p.metadata.decoded column)) := by
  have hmem : numbers ∈ p.table.data := by
    obtain ⟨_, -, hget⟩ := Option.bind_eq_some_iff.mp hnumbers
    exact List.mem_of_getElem? hget
  rw [PreparedTable.decodeColumn_eq hnumbers]
  exact mapM_eq_ok_map fun x hx => TableMetadata.decode_eq (h.rectangular.numeric _ hmem x hx)

/-- A compressed column is not stored. -/
theorem columnIndex?_eq_none [LawfulScalar N] (hnames : g.DistinctNames name h.raw) {c : Column N}
    (hc : c ∈ h.whole) (hvia : c.name ∈ h.compression.via.map Prod.fst) :
    p.table.columnIndex? c.name = none := by
  cases hplace : p.table.columnIndex? c.name with
  | none => rfl
  | some place =>
    obtain ⟨numbers, hnumbers⟩ := h.exists_column? hplace
    obtain ⟨e, he, hename, -⟩ := h.exists_of_column? hnumbers
    obtain ⟨a, ha, -, hname⟩ := h.exists_kept hc
    have hmem := h.mem_remaining hnames (h.mem_frame he) ha (hename.trans hname)
    rw [← hename] at hvia
    exact absurd hvia (Frame.not_mem_of_mem_erase (h.nodup_whole hnames) hmem)

section

variable [LawfulScalar N] (hnames : g.DistinctNames name h.raw)
  (hcount : Scalar.CountsTo N (min config.maxUnique h.raw.size))
  (hexact : h.raw.ExactDeterminants h.table)
include hnames hcount hexact

/-- A determinant that stays is stored, and its numbers are decoded to the raw values. -/
theorem exists_decodeColumn {d : Column N} (hd : d ∈ h.whole) (hfit : d.isUnfit config.maxUnique = false)
    (hrule : h.table.dependentsOf d.name ≠ []) (hfree : d.name ∉ h.compression.via.map Prod.fst) :
    ∃ place, p.table.columnIndex? d.name = some place ∧
      ∃ vs, p.decodeColumn d.name = .ok vs ∧ d.Matches h.rows vs := by
  have hframe : d ∈ h.frame := List.mem_append_left _ (Frame.mem_erase_of_not_mem hd hfree)
  obtain ⟨e, he, rfl⟩ := h.mem_frame_iff.mp hframe
  obtain ⟨place, hplace⟩ : ∃ place, p.table.columnIndex? e.1.name = some place :=
    exists_findIdx?_of_mem (h.mem_columns_iff.mpr ⟨e.1, hframe, hfit, rfl⟩)
  obtain ⟨numbers, hnumbers⟩ := h.exists_column? hplace
  obtain ⟨a, ha, -, hname⟩ := h.exists_kept hd
  rw [hname] at hnumbers
  obtain ⟨values, hvalues, hrows⟩ := h.holdsRows hnames hcount a ha numbers hnumbers
  have hcolumn := h.column?_eq hnames hd hname
  cases hvalues.symm.trans hcolumn
  have hdecoded : List.Forall₂ (fun i w => ∃ v, e.1.values[i]? = some v ∧ (w == v) = true) h.rows
      (numbers.map (p.metadata.decoded (qualify name a))) := by
    refine List.forall₂_map_right_iff.mpr (hrows.imp fun i x ⟨v, hv, hrep⟩ => ⟨v, hv, ?_⟩)
    have hmem : v ∈ e.1.values := List.mem_of_getElem? hv
    refine hrep.decoded_beq (.inr fun y hy => ?_) (e.1.hasText_or_isText_eq_false hmem)
    cases v with
    | null => cases hy
    | text s => cases hy
    | num x =>
      cases hy
      exact Value.beq_refl _
    | int i =>
      cases hy
      have hknown := Schema.name_of_table h.known
      exact hexact a ha (by rwa [hknown, ← hname]) _ hvalues i hmem
  exact ⟨place, hplace, _, by rw [hname, h.decodeColumn_eq hnumbers], hdecoded⟩

end

theorem length_values {c : Column N} (hc : c ∈ h.whole) : c.values.length = h.raw.size :=
  Frame.hasLength_of_ofRaw h.whole_eq c hc

section

variable [LawfulScalar N] (hnames : g.DistinctNames name h.raw)
  (hcount : Scalar.CountsTo N (min config.maxUnique h.raw.size))
  (hexact : h.raw.ExactDeterminants h.table)

theorem exists_rebuild_succ {dependent determinant : Column N} {depth : Nat}
    (hcompresses : h.compression.Compresses h.table h.whole config.maxUnique dependent determinant)
    (hvalues : ∃ vs, (match p.table.columnIndex? determinant.name with
      | some _ => p.decodeColumn determinant.name
      | none => p.rebuild depth determinant.name) = .ok vs ∧ determinant.Matches h.rows vs) :
    ∃ vs, p.rebuild (depth + 1) dependent.name = .ok vs ∧ dependent.Matches h.rows vs := by
  obtain ⟨vs, hvs, hmatches⟩ := hvalues
  obtain ⟨map, hmap, hbuild⟩ := hcompresses.exists_map
  have hlen := (h.length_values hcompresses.determinant_mem).trans
    (h.length_values hcompresses.dependent_mem).symm
  exact ⟨vs.map map.value, h.rebuild_succ hmap hvs, DependencyMap.matches_map hbuild hlen hmatches⟩

include hnames hcount hexact

/-- A compressed column is rebuilt along the chain of its determinants. -/
theorem exists_rebuild {n : Nat} {dependent determinant : Column N}
    (hcompresses : h.compression.Compresses h.table h.whole config.maxUnique dependent determinant)
    (hanchored : Compression.Anchored h.compression.via n determinant.name) :
    ∀ depth, n < depth →
      ∃ vs, p.rebuild depth dependent.name = .ok vs ∧ dependent.Matches h.rows vs := by
  induction n generalizing dependent determinant with
  | zero =>
    intro depth hdepth
    obtain ⟨depth, rfl⟩ := Nat.exists_eq_succ_of_ne_zero (Nat.pos_iff_ne_zero.mp hdepth)
    refine h.exists_rebuild_succ hcompresses ?_
    cases hanchored with
    | root stored =>
      have hfree := Compression.lookup_eq_none.mp stored
      obtain ⟨place, hplace, vs, hvs, hmatches⟩ := h.exists_decodeColumn hnames hcount hexact
        hcompresses.determinant_mem hcompresses.fit (List.ne_nil_of_mem hcompresses.rule) hfree
      exact ⟨vs, by rw [hplace]; exact hvs, hmatches⟩
  | succ n ih =>
    intro depth hdepth
    obtain ⟨depth, rfl⟩ := Nat.exists_eq_succ_of_ne_zero (Nat.ne_zero_of_lt hdepth)
    refine h.exists_rebuild_succ hcompresses ?_
    cases hanchored with
    | @step _ next _ via_eq rest =>
      have hmem : (determinant.name, next) ∈ h.compression.via := Compression.mem_of_lookup via_eq
      obtain ⟨c, d, hpair, hcompresses'⟩ := h.recorded.compresses _ hmem
      injection hpair with hname hd
      subst hd
      have hsame : c = determinant := List.inj_on_of_nodup_map (h.nodup_whole hnames)
        hcompresses'.dependent_mem hcompresses.determinant_mem hname.symm
      subst hsame
      rw [h.columnIndex?_eq_none hnames hcompresses'.dependent_mem
        (List.mem_map_of_mem (f := Prod.fst) hmem)]
      exact ih hcompresses' rest depth (by omega)

omit hnames hcount hexact in
omit [LawfulScalar N] in
/-- Chains are not longer than the depth to which columns are rebuilt. -/
theorem lt_depth {n : Nat} {column : String}
    (hanchored : Compression.Anchored h.compression.via n column) :
    n < p.metadata.dependents.length + 1 := by
  refine Nat.lt_succ_of_le (hanchored.length_le fun e he => h.mem_dependents.mpr ?_)
  obtain ⟨c, d, rfl, hcompresses⟩ := h.recorded.compresses e he
  obtain ⟨map, hmap, -⟩ := hcompresses.exists_map
  exact ⟨_, map, hmap⟩

/-- Every compressed column is a raw one, and is rebuilt with its values. -/
theorem exists_reconstruct (hsound : h.compression.Sound h.table h.whole config.maxUnique)
    {dependent : String} (hdependent : dependent ∈ p.metadata.dependents) :
    ∃ a ∈ h.raw.columns, dependent = qualify name a ∧ ∃ values vs, h.raw.column? a = some values ∧
      p.reconstruct dependent = .ok vs ∧
      List.Forall₂ (fun i w => ∃ v, values[i]? = some v ∧ (w == v) = true) h.rows vs := by
  obtain ⟨determinant, map, hmap⟩ := h.mem_dependents.mp hdependent
  obtain ⟨c, d, hpair, hcompresses⟩ := h.recorded.compresses _ (h.recorded.mem_via _ _ _ hmap)
  injection hpair with hname hd
  subst hname hd
  obtain ⟨a, ha, -, hname⟩ := h.exists_kept hcompresses.dependent_mem
  obtain ⟨n, hanchored⟩ := hsound.anchored d.name
  obtain ⟨vs, hvs, hmatches⟩ :=
    h.exists_rebuild hnames hcount hexact hcompresses hanchored _ (h.lt_depth hanchored)
  exact ⟨a, ha, hname, c.values, vs, h.column?_eq hnames hcompresses.dependent_mem hname, hvs, hmatches⟩

end

end Preparation

/-- Compression loses nothing: whatever the rules are, every compressed column is rebuilt, with
values equal to the raw ones in the rows that the stored columns hold. -/
theorem Schema.prepare_reconstructs {g : Schema Float} {source : RawSource Float}
    {config : PreparationConfig Float} {name : String} {t : Table Float} {p : PreparedTable Float}
    {raw : RawTable Float} (h : g.prepare source config name = .ok p) (ht : g.table name = .ok t)
    (hraw : source name = .ok raw) (hrules : ∀ d ∈ t.dependencies, d.determinant ≠ d.dependent)
    (hnames : g.DistinctNames name raw) (hexact : raw.ExactDeterminants t)
    (hcount : min config.maxUnique raw.size < 2 ^ 53) :
    ∃ rows, ChosenRows raw.size config.maxData rows ∧ p.HoldsRows name raw rows ∧
      ∀ dependent ∈ p.metadata.dependents, ∃ a ∈ raw.columns, dependent = qualify name a ∧
        ∃ values vs, raw.column? a = some values ∧ p.reconstruct dependent = .ok vs ∧
          List.Forall₂ (fun i w => ∃ v, values[i]? = some v ∧ (w == v) = true) rows vs := by
  obtain ⟨prep⟩ := Schema.prepare_eq_ok h
  cases Except.ok.inj (prep.source_eq.symm.trans hraw)
  cases Except.ok.inj (prep.known.symm.trans ht)
  have hcount : Scalar.CountsTo Float (min config.maxUnique prep.raw.size) :=
    fun n hpos hle => Binary64.countsTo n hpos (by omega)
  refine ⟨prep.rows, prep.chosenRows, prep.holdsRows hnames hcount, fun dependent hdependent => ?_⟩
  exact prep.exists_reconstruct hnames hcount hexact
    (Compression.run_sound hrules prep.compression_eq) hdependent

namespace Places

/-- The zip code determines the city, and city and state determine each other. -/
def table : Table Float :=
  (((Table.named "place").withDependency "zip" "city").withDependency "city" "state").withDependency
    "state" "city"

def schema : Schema Float := ⟨[table], []⟩

def raw : RawTable Float where
  columns := ["zip", "city", "state"]
  rows := [[.int 60, .text "Rye", .text "NY"], [.int 61, .null, .null], [.int 62, .text "Ely", .text "NV"]]

def source : RawSource Float := .ofTables [("place", raw)]

def config : PreparationConfig Float := { PreparationConfig.standard with maxData := 2 }

theorem distinctNames : schema.DistinctNames "place" raw := by
  refine ⟨by decide, fun rs hrs => ?_⟩
  have hnone : schema.incoming "place" = .ok [] := rfl
  cases Except.ok.inj (hnone.symm.trans hrs)
  nofun

theorem exactDeterminants : raw.ExactDeterminants table := by
  intro a ha _ values hvalues i hi
  have hvalues : raw.column? a = some values := hvalues
  have hcolumns : a = "zip" ∨ a = "city" ∨ a = "state" := by simpa [raw] using ha
  rcases hcolumns with rfl | rfl | rfl
  · have hi : i = 60 ∨ i = 61 ∨ i = 62 := by
      cases hvalues
      simpa [raw, RawTable.valuesAt] using hi
    rcases hi with rfl | rfl | rfl <;> decide +kernel
  · cases hvalues
    simp [raw, RawTable.valuesAt] at hi
  · cases hvalues
    simp [raw, RawTable.valuesAt] at hi

theorem prepare_reconstructs_cities :
    ∃ p, schema.prepare source config "place" = .ok p ∧ schema.table "place" = .ok table ∧
      source "place" = .ok raw ∧ (∀ d ∈ table.dependencies, d.determinant ≠ d.dependent) ∧
      schema.DistinctNames "place" raw ∧ raw.ExactDeterminants table ∧
      min config.maxUnique raw.size < 2 ^ 53 ∧
      ∃ rows, ChosenRows 3 2 rows ∧ p.HoldsRows "place" raw rows ∧
        ∀ dependent ∈ p.metadata.dependents, ∃ a ∈ raw.columns, dependent = qualify "place" a ∧
          ∃ values vs, raw.column? a = some values ∧ p.reconstruct dependent = .ok vs ∧
            List.Forall₂ (fun i w => ∃ v, values[i]? = some v ∧ (w == v) = true) rows vs := by
  obtain ⟨p, hp⟩ := exists_eq_ok (x := schema.prepare source config "place") (by decide +kernel)
  have hrules : ∀ d ∈ table.dependencies, d.determinant ≠ d.dependent := by decide +kernel
  have hcount : min config.maxUnique raw.size < 2 ^ 53 := by decide
  exact ⟨p, hp, rfl, rfl, hrules, distinctNames, exactDeterminants, hcount,
    Schema.prepare_reconstructs hp rfl rfl hrules distinctNames exactDeterminants hcount⟩

end Places

/-! Columns have to be told apart: the null marker of a multiplier replaces that of a raw column of
the same name. -/

namespace NameClash

def city : Table Float :=
  { (Table.named "city").withDependency "code" "label" with attributes := ["id", "code", "label"] }

def visit : Table Float := { Table.named "visit" with attributes := ["id", "city"] }

/-- The multiplier has the name of a column of the city. -/
def visits : Relationship := .between "visit" "city" "city" "id" (some "code")

def schema : Schema Float := ⟨[Schema.link visits city, Schema.link visits visit], [visits]⟩

theorem built : schema.Built := by
  have hcity : Schema.empty.addTable city = .ok ⟨[city], []⟩ := by decide +kernel
  have hvisit : (⟨[city], []⟩ : Schema Float).addTable visit = .ok ⟨[city, visit], []⟩ := by
    decide +kernel
  have hvisits : (⟨[city, visit], []⟩ : Schema Float).addRelationship visits = .ok schema := by
    decide +kernel
  have hbare := (Schema.Built.empty.addTable rfl rfl hcity).addTable rfl rfl hvisit
  exact hbare.addRelationship hvisits

def raw : RawTable Float where
  columns := ["id", "code", "label"]
  rows := [[.int 1, .int 10, .text "a"], [.int 2, .null, .text "b"], [.int 3, .int 30, .text "c"]]

def source : RawSource Float :=
  .ofTables [("city", raw), ("visit", ⟨["id", "city"], [[.int 7, .int 1]]⟩)]

theorem exactDeterminants : raw.ExactDeterminants (Schema.link visits city) := by
  intro a ha hrule values hvalues i hi
  have hcolumns : a = "id" ∨ a = "code" ∨ a = "label" := by simpa [raw] using ha
  rcases hcolumns with rfl | rfl | rfl
  · exact absurd rfl hrule
  · have hi : i = 10 ∨ i = 30 := by
      cases hvalues
      simpa [raw, RawTable.valuesAt] using hi
    rcases hi with rfl | rfl <;> decide +kernel
  · exact absurd rfl hrule

/-- The label of the city without a code is lost. -/
theorem reconstruct_loses_label :
    schema.Built ∧ (∀ d ∈ (Schema.link visits city).dependencies, d.determinant ≠ d.dependent) ∧
      raw.columns.Nodup ∧ raw.ExactDeterminants (Schema.link visits city) ∧
      ∃ p, schema.prepare source .standard "city" = .ok p ∧
        "city.label" ∈ p.metadata.dependents ∧
        ¬ ∃ (rows : List Nat) (values vs : List (Value Float)), raw.column? "label" = some values ∧
          p.reconstruct "city.label" = .ok vs ∧
          List.Forall₂ (fun i w => ∃ v, values[i]? = some v ∧ (w == v) = true) rows vs := by
  obtain ⟨p, hp⟩ := exists_eq_ok (x := schema.prepare source .standard "city") (by decide +kernel)
  have hlost : (schema.prepare source .standard "city").toOption.any fun p =>
      p.metadata.dependents.contains "city.label" &&
        (p.reconstruct "city.label").toOption.any fun vs => vs.any Value.isNull := by
    decide +kernel
  have hpresent : ∀ values, raw.column? "label" = some values → ∀ v ∈ values, v.isNull = false := by
    intro values hvalues
    cases hvalues
    simp [raw, RawTable.valuesAt, Value.isNull]
  rw [hp] at hlost
  obtain ⟨hdependent, hnull⟩ := Bool.and_eq_true_iff.mp hlost
  refine ⟨built, by decide +kernel, by decide, exactDeterminants, p, hp,
    List.contains_iff_mem.mp hdependent, ?_⟩
  rintro ⟨rows, values, vs, hvalues, hvs, hrows⟩
  rw [hvs] at hnull
  obtain ⟨w, hw, hnull⟩ := List.any_eq_true.mp hnull
  obtain ⟨k, hk, rfl⟩ := List.getElem_of_mem hw
  obtain ⟨v, hv, heq⟩ := hrows.get (hrows.length_eq ▸ hk) hk
  have hsame := Value.isNull_eq_of_beq heq
  rw [hpresent values hvalues v (List.mem_of_getElem? hv)] at hsame
  exact absurd (hnull.symm.trans hsame) (by decide)

end NameClash

end ApproxQuery
