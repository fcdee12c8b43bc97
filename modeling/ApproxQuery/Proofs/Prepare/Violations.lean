import ApproxQuery.Proofs.Number.Machine
import ApproxQuery.Proofs.Prepare.Columns
import ApproxQuery.Proofs.Prepare.Compression

/-!
# Violated dependencies

The map of two columns is made by one scan of the rows. The scan fails at the first row that agrees
with an earlier one on the determinant and differs from it on the dependent; if there is none, the
map has an entry for each value of the determinant, in the order of first appearance.
-/

namespace ApproxQuery

variable {N : Type} [Scalar N]

/-- Row `j` is the second of two rows that agree on the determinant and differ on the dependent; row
`i` is the first that agrees with it. -/
structure RowClash (determinants dependents : List (Value N)) (i j : Nat)
    (value existing conflicting : Value N) : Prop where
  before : i < j
  value_eq : determinants[j]? = some value
  agrees : ∃ v, determinants[i]? = some v ∧ (v == value) = true
  first : ∀ k < i, ∀ v, determinants[k]? = some v → (v == value) = false
  existing_eq : dependents[i]? = some existing
  conflicting_eq : dependents[j]? = some conflicting
  differs : (existing == conflicting) = false

/-- No two rows agree on the determinant and differ on the dependent. -/
def Determines (determinants dependents : List (Value N)) : Prop :=
  ∀ (i j : Nat) (v w x y : Value N), determinants[i]? = some v → determinants[j]? = some w →
    dependents[i]? = some x → dependents[j]? = some y → (v == w) = true → (x == y) = true

theorem Value.distinct_concat (vs : List (Value N)) (v : Value N) :
    distinct (vs ++ [v]) = if (distinct vs).contains v then distinct vs else distinct vs ++ [v] := by
  rw [distinct, List.foldl_append]
  rfl

namespace DependencyMap

variable [LawfulScalar N]

/-- The map has the first entry for each key, in the order of the entries. -/
structure Records (m : DependencyMap N) (entries : List (Value N × Value N)) : Prop where
  keys : m.map Prod.fst = Value.distinct (entries.map Prod.fst)
  first : ∀ e ∈ m, entries.find? (·.1 == e.1) = some e

theorem Records.find?_eq_none {m : DependencyMap N} {entries : List (Value N × Value N)}
    (h : m.Records entries) {key : Value N} (hnew : ∀ e ∈ m, (e.1 == key) = false) :
    entries.find? (·.1 == key) = none := by
  refine List.find?_eq_none.mpr fun e he heq => ?_
  obtain ⟨w, hw, hsame⟩ := Value.exists_mem_distinct (List.mem_map_of_mem (f := Prod.fst) he)
  rw [← h.keys] at hw
  obtain ⟨known, hknown, rfl⟩ := List.mem_map.mp hw
  have hbeq := Value.beq_trans hsame heq
  rw [hnew known hknown] at hbeq
  cases hbeq

theorem Records.add {table determinant dependent : String} {m m' : DependencyMap N}
    {entries : List (Value N × Value N)} {entry : Value N × Value N} (h : m.Records entries)
    (hadd : add table determinant dependent m entry = .ok m') : m'.Records (entries ++ [entry]) := by
  have hold (e : Value N × Value N) (he : e ∈ m) :
      (entries ++ [entry]).find? (·.1 == e.1) = some e := by
    rw [List.find?_append, h.first e he, Option.some_or]
  unfold DependencyMap.add at hadd
  split at hadd
  · rename_i hnone
    cases hadd
    have hnew : ∀ e ∈ m, (e.1 == entry.1) = false := fun e he =>
      Bool.eq_false_iff.mpr (List.find?_eq_none.mp hnone e he)
    constructor
    · rw [List.map_append, List.map_append, List.map_singleton, Value.distinct_concat, ← h.keys,
        if_neg]
      rw [List.contains_iff_exists_mem_beq]
      rintro ⟨w, hw, heq⟩
      obtain ⟨e, he, rfl⟩ := List.mem_map.mp hw
      rw [Value.beq_comm, hnew e he] at heq
      cases heq
    · intro e he
      rcases List.mem_append.mp he with he | he
      · exact hold e he
      · cases List.mem_singleton.mp he
        rw [List.find?_append, h.find?_eq_none hnew, Option.none_or, List.find?_singleton,
          if_pos (Value.beq_refl _)]
  · rename_i known hknown
    split at hadd
    · cases hadd
      refine ⟨?_, hold⟩
      rw [List.map_append, List.map_singleton, Value.distinct_concat, ← h.keys, if_pos]
      rw [List.contains_iff_exists_mem_beq]
      have hkey := List.find?_some hknown
      exact ⟨known.1, List.mem_map_of_mem (List.mem_of_find?_eq_some hknown),
        Value.beq_comm entry.1 known.1 ▸ hkey⟩
    · cases hadd

theorem records_foldlM {table determinant dependent : String} {m : DependencyMap N}
    {entries : List (Value N × Value N)}
    (h : entries.foldlM (add table determinant dependent) [] = .ok m) : m.Records entries := by
  -- along the rows, from the first to the last
  induction entries using List.reverseRecOn generalizing m with
  | nil =>
    cases h
    exact ⟨rfl, nofun⟩
  | append_singleton entries entry ih =>
    rw [List.foldlM_append] at h
    obtain ⟨known, hknown, hadd⟩ := bind_eq_ok.mp h
    rw [List.foldlM_cons] at hadd
    obtain ⟨m', hadd, hpure⟩ := bind_eq_ok.mp hadd
    cases hpure
    exact (ih hknown).add hadd

/-- The map of two columns lists the values of the determinant as they first appear. -/
theorem keys_of_build {table : String} {determinant dependent : Column N} {m : DependencyMap N}
    (h : build table determinant dependent = .ok m)
    (hlen : determinant.values.length = dependent.values.length) :
    m.map Prod.fst = Value.distinct determinant.values := by
  rw [(records_foldlM h).keys, List.map_fst_zip hlen.le]

theorem determines_of_build {table : String} {determinant dependent : Column N} {m : DependencyMap N}
    (h : build table determinant dependent = .ok m) :
    Determines determinant.values dependent.values := by
  obtain ⟨hdistinct, hgives⟩ := build_eq_ok h
  have hvalue {i : Nat} {v x : Value N} (hv : determinant.values[i]? = some v)
      (hx : dependent.values[i]? = some x) {w : Value N} (hw : (w == v) = true) :
      (m.value w == x) = true := by
    have hzip : (determinant.values.zip dependent.values)[i]? = some (v, x) :=
      List.getElem?_zip_eq_some.mpr ⟨hv, hx⟩
    exact value_beq hdistinct (hgives (v, x) (List.mem_of_getElem? hzip)) hw
  intro i j v w x y hv hw hx hy hvw
  have hback : (x == m.value v) = true := by
    rw [Value.beq_comm]
    exact hvalue hv hx (Value.beq_refl v)
  exact Value.beq_trans hback (hvalue hw hy hvw)

/-- The scan of two columns fails only at a row that contradicts an earlier one. -/
theorem build_eq_error {table : String} {determinant dependent : Column N} {e : PreparationError}
    (h : build table determinant dependent = .error e) :
    ∃ i j value existing conflicting,
      RowClash determinant.values dependent.values i j value existing conflicting ∧
        e = .dependencyViolated table determinant.name dependent.name value.display existing.display
          conflicting.display := by
  obtain ⟨entries, entry, rest, m, hzip, hentries, hadd⟩ := foldlM_eq_error h
  have hat {k : Nat} {a : Value N × Value N}
      (ha : (determinant.values.zip dependent.values)[k]? = some a) :
      determinant.values[k]? = some a.1 ∧ dependent.values[k]? = some a.2 :=
    List.getElem?_zip_eq_some.mp ha
  unfold DependencyMap.add at hadd
  split at hadd
  · cases hadd
  · rename_i known hknown
    have hkey := List.find?_some hknown
    split at hadd
    · cases hadd
    · rename_i hvalue
      cases hadd
      have hfirst := (records_foldlM hentries).first known (List.mem_of_find?_eq_some hknown)
      obtain ⟨i, hi, hget, hbefore⟩ := List.find?_eq_some_iff_getElem.mp hfirst |>.2
      obtain ⟨hdi, hri⟩ := hat (k := i) (a := known) (by
        rw [hzip, List.getElem?_append_left hi, List.getElem?_eq_getElem hi, hget])
      obtain ⟨hdj, hrj⟩ := hat (k := entries.length) (a := entry) (by
        rw [hzip, List.getElem?_append_right le_rfl, Nat.sub_self]
        rfl)
      refine ⟨i, entries.length, entry.1, known.2, entry.2,
        ⟨hi, hdj, ⟨known.1, hdi, hkey⟩, fun k hk v hv => ?_, hri, hrj,
          Bool.not_eq_true _ ▸ hvalue⟩, rfl⟩
      have hklt : k < entries.length := hk.trans hi
      obtain ⟨hdk, -⟩ := hat (k := k) (a := entries[k]) (by
        rw [hzip, List.getElem?_append_left hklt, List.getElem?_eq_getElem hklt])
      cases Option.some.inj (hdk.symm.trans hv)
      have hne := hbefore k hk
      rw [Bool.not_eq_true'] at hne
      rwa [Value.beq_congr (Value.beq_refl _) (Value.beq_comm entry.1 known.1 ▸ hkey)]

end DependencyMap

/-! ## Where a violation comes from -/

/-- Two rows contradict a dependency. -/
def PreparationError.isViolation : PreparationError → Bool
  | dependencyViolated .. => true
  | _ => false

theorem DependencyMap.isViolation_of_build {table : String} {determinant dependent : Column N}
    {e : PreparationError} (h : build table determinant dependent = .error e) :
    e.isViolation = true := by
  obtain ⟨_, entry, _, m, -, -, hadd⟩ := foldlM_eq_error h
  unfold add at hadd
  split at hadd
  · cases hadd
  · split at hadd
    · cases hadd
    · cases hadd
      rfl

omit [Scalar N] in
theorem Frame.isViolation_of_ofRaw {t : Table N} {raw : RawTable N} {e : PreparationError}
    (h : ofRaw t raw = .error e) : e.isViolation = false := by
  unfold ofRaw at h
  split at h
  · cases h
    rfl
  · cases h

namespace Multiplier

variable {g : Schema N} {source : RawSource N} {t : Table N} {f : Frame N} {e : PreparationError}

omit [Scalar N] in
theorem isViolation_of_key {r : Relationship} (h : key t f r = .error e) : e.isViolation = false := by
  unfold key at h
  split at h
  · cases h
    rfl
  · split at h
    · cases h
      rfl
    · split at h
      · cases h
        rfl
      · cases h

/-- A violation that is met while multipliers are computed is one that a source of raw tables
reports. -/
theorem isViolation_of_compute {r : Relationship} (h : compute g source t f r = .error e)
    (hsource : ∀ name, source name ≠ .error e) : e.isViolation = false := by
  unfold compute at h
  rcases bind_eq_error.mp h with h | ⟨c, -, h⟩
  · exact isViolation_of_key h
  · rcases bind_eq_error.mp h with h | ⟨referencing, -, h⟩
    · obtain ⟨cause, -, rfl⟩ := mapError_eq_error.mp h
      rfl
    · rcases bind_eq_error.mp h with h | ⟨raw, -, h⟩
      · exact absurd h (hsource _)
      · split at h
        · cases h
          rfl
        · cases h

theorem isViolation_of_addAll (h : addAll g source t f = .error e)
    (hsource : ∀ name, source name ≠ .error e) : e.isViolation = false := by
  unfold addAll at h
  rcases bind_eq_error.mp h with h | ⟨rs, -, h⟩
  · obtain ⟨cause, -, rfl⟩ := mapError_eq_error.mp h
    rfl
  · obtain ⟨_, r, _, ⟨f', ms⟩, -, -, hstep⟩ := foldlM_eq_error h
    rcases bind_eq_error.mp hstep with hcompute | ⟨m, -, hpure⟩
    · exact isViolation_of_compute hcompute hsource
    · cases hpure

end Multiplier

theorem Sentinel.isViolation_of_choose {table column : String} {present : List N} {hasNull : Bool}
    {epsilon : N} {e : PreparationError} (h : choose table column present hasNull epsilon = .error e) :
    e.isViolation = false := by
  unfold choose at h
  dsimp only at h
  split at h
  · cases h
    rfl
  · split at h
    · split at h
      · cases h
        rfl
      · cases h
    · split at h
      · cases h
        rfl
      · split at h
        · cases h
        · cases h
          rfl

namespace EncodedColumn

theorem isViolation_of_ofColumn {table : String} {config : PreparationConfig N} {c : Column N}
    {e : PreparationError} (h : ofColumn table config c = .error e) : e.isViolation = false := by
  unfold ofColumn at h
  split at h
  · cases h
  · split at h
    · cases h
    · dsimp only at h
      split at h
      · cases h
        rfl
      · rcases bind_eq_error.mp h with hchoose | ⟨sentinel, -, hpure⟩
        · exact Sentinel.isViolation_of_choose hchoose
        · cases hpure

theorem isViolation_of_addAll {config : PreparationConfig N} {p : PreparedTable N} {f : Frame N}
    {e : PreparationError} (h : addAll config p f = .error e) : e.isViolation = false := by
  obtain ⟨_, c, _, q, -, -, hstep⟩ := foldlM_eq_error h
  rcases bind_eq_error.mp hstep with hcolumn | ⟨encoded, -, hpure⟩
  · exact isViolation_of_ofColumn hcolumn
  · cases hpure

end EncodedColumn

theorem Compression.build_eq_error_of_run {t : Table N} {f : Frame N} {maxUnique : Nat}
    {e : PreparationError} (h : run t f maxUnique = .error e) (hviolation : e.isViolation = true) :
    ∃ determinant ∈ f, ∃ dependent ∈ f, dependent.name ∈ t.dependentsOf determinant.name ∧
      DependencyMap.build t.name determinant dependent = .error e := by
  obtain ⟨before, rule, after, s, hrules, -, hstep⟩ := foldlM_eq_error h
  have hrule : rule ∈ rules t f maxUnique := hrules ▸ List.mem_append_right _ List.mem_cons_self
  obtain ⟨hdeterminant, -, hdependent⟩ := mem_rules hrule
  rcases step_eq_error hstep with ⟨-, -, rfl⟩ | ⟨column, hcolumn, hbuild⟩
  · cases hviolation
  · have hname := List.find?_some hcolumn
    exact ⟨rule.1, hdeterminant, column, List.mem_of_find?_eq_some hcolumn,
      beq_iff_eq.mp hname ▸ hdependent, hbuild⟩

/-- Preparation passes on a violation of its source or has met one in the rows of the table. -/
theorem Schema.build_eq_error_of_prepare {g : Schema N} {source : RawSource N}
    {config : PreparationConfig N} {name : String} {t : Table N} {raw : RawTable N}
    {e : PreparationError} (h : g.prepare source config name = .error e) (ht : g.table name = .ok t)
    (hviolation : e.isViolation = true) (hraw : source name = .ok raw)
    (hsource : ∀ other, source other ≠ .error e) :
    ∃ f, Frame.ofRaw t raw = .ok f ∧ ∃ determinant ∈ f, ∃ dependent ∈ f,
      dependent.name ∈ t.dependentsOf determinant.name ∧
        DependencyMap.build t.name determinant dependent = .error e := by
  have hnot {e' : PreparationError} (hfalse : e'.isViolation = false) : e' ≠ e := by
    rintro rfl
    rw [hfalse] at hviolation
    cases hviolation
  have hname := Schema.name_of_table ht
  unfold prepare at h
  rw [ht, Except.mapError] at h
  rcases bind_eq_error.mp h with h | ⟨_, htable, h⟩
  · cases h
  cases htable
  rw [hname, hraw] at h
  rcases bind_eq_error.mp h with h | ⟨_, hloaded, h⟩
  · cases h
  cases hloaded
  rcases bind_eq_error.mp h with h | ⟨whole, hwhole, h⟩
  · exact absurd rfl (hnot (Frame.isViolation_of_ofRaw h))
  rcases bind_eq_error.mp h with h | ⟨compression, hcompression, h⟩
  · exact ⟨whole, hwhole, hname ▸ Compression.build_eq_error_of_run h hviolation⟩
  rcases bind_eq_error.mp h with h | ⟨⟨frame, multipliers⟩, hadd, h⟩
  · exact absurd rfl (hnot (Multiplier.isViolation_of_addAll h hsource))
  rcases bind_eq_error.mp h with h | ⟨encoded, hencoded, h⟩
  · exact absurd rfl (hnot (EncodedColumn.isViolation_of_addAll h))
  · cases h

/-- The map that rebuilds a column from its determinant. -/
def TableMetadata.map? (m : TableMetadata N) (determinant dependent : String) :
    Option (DependencyMap N) :=
  (m.dependencies.get? determinant).bind (·.get? dependent)

theorem Preparation.map?_eq {g : Schema N} {source : RawSource N} {config : PreparationConfig N}
    {name : String} {p : PreparedTable N} (h : Preparation g source config name p)
    (determinant dependent : String) :
    p.metadata.map? determinant dependent = h.compression.map? determinant dependent := by
  rw [TableMetadata.map?, h.dependencies_eq]
  rfl

theorem Preparation.exists_compresses {g : Schema N} {source : RawSource N}
    {config : PreparationConfig N} {name : String} {p : PreparedTable N}
    (h : Preparation g source config name p) {determinant dependent : String} {map : DependencyMap N}
    (hmap : p.metadata.map? determinant dependent = some map) :
    ∃ d ∈ h.whole, ∃ c ∈ h.whole, d.name = determinant ∧ c.name = dependent ∧
      d.isUnfit config.maxUnique = false ∧ c.name ∈ h.table.dependentsOf d.name ∧
      DependencyMap.build h.table.name d c = .ok map := by
  rw [h.map?_eq] at hmap
  obtain ⟨c, d, heq, hcompresses⟩ := h.recorded.compresses _ (h.recorded.mem_via _ _ _ hmap)
  injection heq with hc hd
  obtain ⟨found, hfound, hbuild⟩ := hcompresses.exists_map
  rw [← hc, ← hd, hmap] at hfound
  cases hfound
  exact ⟨d, hcompresses.determinant_mem, c, hcompresses.dependent_mem, hd.symm, hc.symm,
    hcompresses.fit, hcompresses.rule, hbuild⟩

/-- Violations of dependencies are reported exactly: what is reported is a rule with two rows that
contradict it, and where a map is recorded no two rows contradict its rule, so that it has one entry
for each value of the determinant, in the order of first appearance. -/
theorem Schema.prepare_reports_violations {g : Schema Float} {source : RawSource Float}
    {config : PreparationConfig Float} {name : String} {t : Table Float} {raw : RawTable Float}
    (ht : g.table name = .ok t) (hraw : source name = .ok raw) (hnodup : raw.columns.Nodup) :
    (∀ table determinant dependent value existing conflicting, g.prepare source config name =
        .error (.dependencyViolated table determinant dependent value existing conflicting) →
      (∀ other, source other ≠
        .error (.dependencyViolated table determinant dependent value existing conflicting)) →
      table = name ∧ ⟨determinant, dependent⟩ ∈ t.dependencies ∧
        ∃ a b xs ys, determinant = qualify name a ∧ dependent = qualify name b ∧
          raw.column? a = some xs ∧ raw.column? b = some ys ∧
          ∃ i j v x y, RowClash xs ys i j v x y ∧ value = v.display ∧ existing = x.display ∧
            conflicting = y.display) ∧
    ∀ p, g.prepare source config name = .ok p → ∀ determinant dependent map,
      p.metadata.map? determinant dependent = some map →
        ∃ a b xs ys, determinant = qualify name a ∧ dependent = qualify name b ∧
          raw.column? a = some xs ∧ raw.column? b = some ys ∧ Determines xs ys ∧
          map.map Prod.fst = Value.distinct xs := by
  have hname := Schema.name_of_table ht
  refine ⟨fun table determinant dependent value existing conflicting h hsource => ?_,
    fun p h determinant dependent map hmap => ?_⟩
  · obtain ⟨f, hf, d, hd, c, hc, hrule, hbuild⟩ :=
      Schema.build_eq_error_of_prepare h ht rfl hraw hsource
    obtain ⟨i, j, v, x, y, hclash, heq⟩ := DependencyMap.build_eq_error hbuild
    cases heq
    obtain ⟨rule, hrule, heq⟩ := List.mem_map.mp hrule
    obtain ⟨hrule, hdeterminant⟩ := List.mem_filter.mp hrule
    obtain ⟨a, -, ha, hxs⟩ := Frame.column?_of_mem_ofRaw hf hnodup hd
    obtain ⟨b, -, hb, hys⟩ := Frame.column?_of_mem_ofRaw hf hnodup hc
    rw [hname] at ha hb
    refine ⟨hname, ?_, a, b, _, _, ha, hb, hxs, hys, i, j, v, x, y, hclash, rfl, rfl, rfl⟩
    rw [← beq_iff_eq.mp hdeterminant, ← heq]
    exact hrule
  · obtain ⟨prep⟩ := Schema.prepare_eq_ok h
    cases Except.ok.inj (prep.known.symm.trans ht)
    cases Except.ok.inj (prep.source_eq.symm.trans hraw)
    obtain ⟨d, hd, c, hc, rfl, rfl, -, -, hbuild⟩ := prep.exists_compresses hmap
    obtain ⟨a, -, ha, hxs⟩ := Frame.column?_of_mem_ofRaw prep.whole_eq hnodup hd
    obtain ⟨b, -, hb, hys⟩ := Frame.column?_of_mem_ofRaw prep.whole_eq hnodup hc
    rw [hname] at ha hb
    have hlen : d.values.length = c.values.length :=
      (Frame.hasLength_of_ofRaw prep.whole_eq d hd).trans
        (Frame.hasLength_of_ofRaw prep.whole_eq c hc).symm
    exact ⟨a, b, _, _, ha, hb, hxs, hys, DependencyMap.determines_of_build hbuild,
      DependencyMap.keys_of_build hbuild hlen⟩

namespace Postcodes

/-- The postcode determines the city. -/
def table : Table Float := (Table.named "person").withDependency "code" "city"

def schema : Schema Float := ⟨[table], []⟩

/-- The postcode of the last row is the number that the integer of the first row stands for. -/
def raw : RawTable Float where
  columns := ["id", "code", "city"]
  rows := [[.int 1, .int 10, .text "Berlin"], [.int 2, .null, .null], [.int 3, .num 10, .text "Bonn"]]

def source : RawSource Float := .ofTables [("person", raw)]

def violation : PreparationError :=
  .dependencyViolated "person" "person.code" "person.city" "10" "Berlin" "Bonn"

theorem source_ne_violation (other : String) : source other ≠ .error violation := by
  unfold source RawSource.ofTables
  split <;> nofun

theorem prepare_reports_berlin_and_bonn :
    schema.table "person" = .ok table ∧ source "person" = .ok raw ∧ raw.columns.Nodup ∧
      schema.prepare source .standard "person" = .error violation ∧
      ⟨"person.code", "person.city"⟩ ∈ table.dependencies ∧
        ∃ a b xs ys, "person.code" = qualify "person" a ∧ "person.city" = qualify "person" b ∧
          raw.column? a = some xs ∧ raw.column? b = some ys ∧
          ∃ i j v x y, RowClash xs ys i j v x y ∧ "10" = v.display ∧ "Berlin" = x.display ∧
            "Bonn" = y.display := by
  have hnodup : raw.columns.Nodup := by decide
  have herror : schema.prepare source .standard "person" = .error violation := by rfl
  obtain ⟨-, hrule, hclash⟩ := (Schema.prepare_reports_violations rfl rfl hnodup).1 _ _ _ _ _ _
    herror source_ne_violation
  exact ⟨rfl, rfl, hnodup, herror, hrule, hclash⟩

end Postcodes

end ApproxQuery
