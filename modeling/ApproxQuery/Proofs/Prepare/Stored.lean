import ApproxQuery.Prepare.Basic
import ApproxQuery.Proofs.Prepare.Sentinel
import ApproxQuery.Proofs.Schema.Chain
import ApproxQuery.Proofs.Value.Equality

/-!
# What preparation stores

All columns on the way from raw rows to numbers have one length. A prepared table is rectangular,
and all its numbers can be decoded.
-/

namespace ApproxQuery

variable {N : Type}

/-- Every column has so many values. -/
def Frame.HasLength (f : Frame N) (n : Nat) : Prop :=
  ∀ c ∈ f, c.values.length = n

theorem Frame.HasLength.append {f f' : Frame N} {n : Nat} (h : f.HasLength n) (h' : f'.HasLength n) :
    (f ++ f').HasLength n := by
  intro c hc
  rcases List.mem_append.mp hc with hc | hc
  · exact h c hc
  · exact h' c hc

theorem Frame.hasLength_of_ofRaw {t : Table N} {raw : RawTable N} {f : Frame N}
    (h : ofRaw t raw = .ok f) : f.HasLength raw.size := by
  unfold ofRaw at h
  split at h
  · cases h
  · cases h
    intro c hc
    obtain ⟨⟨a, place⟩, _, rfl⟩ := List.mem_map.mp hc
    simp [RawTable.valuesAt, RawTable.size]

theorem Frame.sublist_erase (f : Frame N) (names : List String) : (f.erase names).Sublist f := by
  unfold erase
  induction names generalizing f with
  | nil => exact .refl f
  | cons name names ih => exact (ih _).trans List.eraseP_sublist

variable [Scalar N]

namespace Multiplier

variable {g : Schema N} {source : RawSource N} {t : Table N}

omit [Scalar N] in
theorem key_eq_ok {f : Frame N} {r : Relationship} {c : Column N} (h : key t f r = .ok c) :
    c ∈ f ∧ c.name = qualify t.name r.targetAttribute ∧
      t.singlePrimaryKey? = some r.targetAttribute := by
  unfold key at h
  split at h
  · cases h
  · rename_i pk hpk
    split at h
    · cases h
    · rename_i hne
      have htarget : r.targetAttribute = pk := by simpa using hne
      split at h
      · cases h
      · rename_i d hd
        cases h
        have hname := List.find?_some hd
        exact ⟨List.mem_of_find?_eq_some hd, htarget ▸ beq_iff_eq.mp hname, htarget ▸ hpk⟩

theorem compute_eq_ok {f : Frame N} {r : Relationship} {m : Multiplier N}
    (h : compute g source t f r = .ok m) :
    m.relationship = r ∧ ∃ c referencing raw references, key t f r = .ok c ∧
      g.table r.source = .ok referencing ∧ source r.source = .ok raw ∧
      raw.column? r.sourceAttribute = some references ∧
      m.counts = c.values.map fun v =>
        Scalar.ofNat ((Tally.ofValues references).get v) / referencing.sampleRate := by
  unfold compute at h
  obtain ⟨c, hc, h⟩ := bind_eq_ok.mp h
  obtain ⟨referencing, hreferencing, h⟩ := bind_eq_ok.mp h
  obtain ⟨raw, hraw, h⟩ := bind_eq_ok.mp h
  have hreferencing := mapError_eq_ok.mp hreferencing
  rw [Schema.name_of_table hreferencing] at hraw
  split at h
  · cases h
  · rename_i references hreferences
    cases pure_eq_ok.mp h
    exact ⟨rfl, c, referencing, raw, references, hc, hreferencing, hraw, hreferences, rfl⟩

theorem length_counts {f : Frame N} {n : Nat} {r : Relationship} {m : Multiplier N}
    (hf : f.HasLength n) (h : compute g source t f r = .ok m) : m.counts.length = n := by
  obtain ⟨_, c, _, _, _, hc, _, _, _, hcounts⟩ := compute_eq_ok h
  rw [hcounts, List.length_map]
  exact hf c (key_eq_ok hc).1

/-- The multipliers that are added to a frame, computed one after another. -/
inductive Adds (g : Schema N) (source : RawSource N) (t : Table N) :
    Frame N → List Relationship → List (Multiplier N) → Prop where
  | nil {f : Frame N} : Adds g source t f [] []
  | cons {f : Frame N} {r : Relationship} {rs : List Relationship} {m : Multiplier N}
      {ms : List (Multiplier N)} (computed : compute g source t f r = .ok m)
      (rest : Adds g source t (f ++ [m.column]) rs ms) : Adds g source t f (r :: rs) (m :: ms)

theorem foldlM_adds {f f' : Frame N} {rs : List Relationship} {ms ms' : List (Multiplier N)}
    (h : rs.foldlM (fun (f, ms) r => do
      let m ← compute g source t f r
      return (f ++ [m.column], ms ++ [m])) (f, ms) = .ok (f', ms')) :
    ∃ added, ms' = ms ++ added ∧ f' = f ++ added.map column ∧ Adds g source t f rs added := by
  induction rs generalizing f ms with
  | nil =>
    cases h
    exact ⟨[], by simp, by simp, .nil⟩
  | cons r rs ih =>
    rw [List.foldlM_cons] at h
    obtain ⟨_, hstep, h⟩ := bind_eq_ok.mp h
    obtain ⟨m, hm, hstep⟩ := bind_eq_ok.mp hstep
    cases pure_eq_ok.mp hstep
    obtain ⟨added, rfl, rfl, hadds⟩ := ih h
    exact ⟨m :: added, by simp, by simp, .cons hm hadds⟩

theorem addAll_eq_ok {f f' : Frame N} {ms : List (Multiplier N)}
    (h : addAll g source t f = .ok (f', ms)) :
    ∃ rs, g.incoming t.name = .ok rs ∧ f' = f ++ ms.map column ∧ Adds g source t f rs ms := by
  unfold addAll at h
  obtain ⟨rs, hrs, h⟩ := bind_eq_ok.mp h
  obtain ⟨added, rfl, rfl, hadds⟩ := foldlM_adds h
  exact ⟨rs, mapError_eq_ok.mp hrs, rfl, hadds⟩

theorem Adds.hasLength {f : Frame N} {rs : List Relationship} {ms : List (Multiplier N)} {n : Nat}
    (h : Adds g source t f rs ms) (hf : f.HasLength n) :
    Frame.HasLength (f ++ ms.map column) n := by
  induction h with
  | nil => simpa using hf
  | @cons f r rs m ms computed rest ih =>
    have hm : Frame.HasLength [m.column] n := by
      intro c hc
      cases List.mem_singleton.mp hc
      simpa [column] using length_counts hf computed
    simpa using ih (hf.append hm)

theorem Adds.relationships {f : Frame N} {rs : List Relationship}
    {ms : List (Multiplier N)} (h : Adds g source t f rs ms) : ms.map Multiplier.relationship = rs := by
  induction h with
  | nil => rfl
  | cons computed rest ih => exact congrArg₂ List.cons (compute_eq_ok computed).1 ih

theorem Adds.exists_compute {f : Frame N} {rs : List Relationship}
    {ms : List (Multiplier N)} (h : Adds g source t f rs ms) {r : Relationship} (hr : r ∈ rs) :
    ∃ m ∈ ms, ∃ f', f' ⊆ f ++ ms.map column ∧ compute g source t f' r = .ok m := by
  induction h with
  | nil => cases hr
  | @cons f s rs m ms computed rest ih =>
    rcases List.mem_cons.mp hr with rfl | hr
    · exact ⟨m, List.mem_cons_self, f, List.subset_append_left _ _, computed⟩
    · obtain ⟨m', hm', f', hsub, hm⟩ := ih hr
      exact ⟨m', List.mem_cons_of_mem _ hm', f', by simpa using hsub, hm⟩

omit [Scalar N] in
theorem hasText_column (m : Multiplier N) : m.column.hasText = false := by
  simp [column, Column.hasText, Value.isText]

/-- A multiplier is left out only if it has no numbers. -/
theorem isUnfit_column (m : Multiplier N) (maxUnique : Nat) :
    m.column.isUnfit maxUnique = m.counts.isEmpty := by
  have hpresent : m.column.present = m.counts.map .num := by
    simp [column, Column.present, List.filter_eq_self, Value.isNull]
  rw [Column.isUnfit, m.hasText_column, hpresent, Bool.false_and, Bool.or_false, List.isEmpty_map]

end Multiplier

omit [Scalar N] in
theorem Column.isNull_of_mem_present (c : Column N) : ∀ v ∈ c.present, v.isNull = false := by
  intro v hv
  simpa using (List.mem_filter.mp hv).2

namespace Dictionary

theorem assign_eq (vs : List (Value N)) :
    assign vs = (Value.distinct vs).zipIdx.map fun e => (e.1, Scalar.ofNat (e.2 + 1)) := by
  unfold assign Value.distinct
  have hfold (seen : List (Value N)) :
      vs.foldl (fun codes v => if codes.any (·.1 == v) then codes
          else codes ++ [(v, (Scalar.ofNat (codes.length + 1) : N))])
        (seen.zipIdx.map fun e => (e.1, Scalar.ofNat (e.2 + 1))) =
      (vs.foldl (fun seen v => if seen.contains v then seen else seen ++ [v]) seen).zipIdx.map
        fun e => (e.1, Scalar.ofNat (e.2 + 1)) := by
    induction vs generalizing seen with
    | nil => rfl
    | cons v vs ih =>
      have hknown : (seen.zipIdx.map fun e => (e.1, (Scalar.ofNat (e.2 + 1) : N))).any (·.1 == v) =
          seen.contains v := by
        conv_rhs => rw [← List.zipIdx_map_fst 0 seen]
        rw [List.any_map, List.contains_eq_any_beq, List.any_map]
        simp only [Function.comp_def, Value.beq_comm v]
      rw [List.foldl_cons, List.foldl_cons, hknown]
      split
      · exact ih seen
      · rw [← ih (seen ++ [v]), List.zipIdx_append]
        simp
  exact hfold []

theorem map_fst_assign (vs : List (Value N)) : (assign vs).map Prod.fst = Value.distinct vs := by
  rw [assign_eq, List.map_map]
  exact List.zipIdx_map_fst 0 _

/-- The codes that a column is stored with are those of its dictionary. -/
theorem lookup_assign {vs : List (Value N)} (hvs : ∀ w ∈ vs, w.isNull = false) (v : Value N) :
    (((assign vs).find? (·.1 == v)).map Prod.snd).getD 0 =
      (code? (Value.distinct vs) v).getD 0 := by
  have hfind (d : List (Value N)) (k : Nat) :
      (((d.zipIdx k).map fun e => (e.1, (Scalar.ofNat (e.2 + 1) : N))).find? (·.1 == v)).map Prod.snd =
        (d.findIdx? (· == v)).map fun i => Scalar.ofNat (i + k + 1) := by
    induction d generalizing k with
    | nil => rfl
    | cons w d ih =>
      rw [List.zipIdx_cons, List.map_cons, List.find?_cons, List.findIdx?_cons]
      cases w == v with
      | true => simp
      | false =>
        simp only [Bool.false_eq_true, if_false, Option.map_map, ih (k + 1)]
        congr 1
        funext i
        simp only [Function.comp_apply]
        congr 1
        omega
  rw [assign_eq, hfind _ 0]
  unfold code?
  cases hnull : v.isNull with
  | false => rfl
  | true =>
    have hnone : (Value.distinct vs).findIdx? (· == v) = none := by
      refine List.findIdx?_eq_none_iff.mpr fun w hw => Bool.eq_false_iff.mpr fun heq => ?_
      have hsame := Value.isNull_eq_of_beq heq
      rw [hvs w ((Value.distinct_sublist vs).subset hw), hnull] at hsame
      cases hsame
    rw [hnone]
    rfl

end Dictionary

namespace EncodedColumn

/-- The numbers that are stored for the column. -/
def numbers? : EncodedColumn N → Option (List N)
  | dropped => none
  | categorical _ codes => some codes
  | numeric _ numbers => some numbers

theorem columns_addTo (p : PreparedTable N) (name : String) (c : EncodedColumn N) :
    (c.addTo p name).table.columns = p.table.columns ++ (c.numbers?.map fun _ => name).toList := by
  cases c <;> simp [addTo, numbers?]

theorem data_addTo (p : PreparedTable N) (name : String) (c : EncodedColumn N) :
    (c.addTo p name).table.data = p.table.data ++ c.numbers?.toList := by
  cases c <;> simp [addTo, numbers?]

theorem name_addTo (p : PreparedTable N) (name : String) (c : EncodedColumn N) :
    (c.addTo p name).table.name = p.table.name := by
  cases c <;> rfl

/-- The columns of a frame with what becomes of them. -/
def Encodes (table : String) (config : PreparationConfig N) (f : Frame N)
    (es : List (Column N × EncodedColumn N)) : Prop :=
  es.map Prod.fst = f ∧ ∀ e ∈ es, ofColumn table config e.1 = .ok e.2

/-- The table and metadata after adding encoded columns. -/
def addEach (p : PreparedTable N) (es : List (Column N × EncodedColumn N)) : PreparedTable N :=
  es.foldl (fun p e => e.2.addTo p e.1.name) p

theorem addAll_eq_ok {config : PreparationConfig N} {p q : PreparedTable N} {f : Frame N}
    (h : addAll config p f = .ok q) :
    ∃ es, Encodes p.table.name config f es ∧ q = addEach p es := by
  unfold addAll at h
  induction f generalizing p with
  | nil =>
    cases h
    exact ⟨[], ⟨rfl, by simp⟩, rfl⟩
  | cons c f ih =>
    rw [List.foldlM_cons] at h
    obtain ⟨_, hstep, h⟩ := bind_eq_ok.mp h
    obtain ⟨e, he, hstep⟩ := bind_eq_ok.mp hstep
    cases pure_eq_ok.mp hstep
    obtain ⟨es, ⟨hfst, hes⟩, rfl⟩ := ih h
    refine ⟨(c, e) :: es, ⟨congrArg (c :: ·) hfst, ?_⟩, rfl⟩
    intro x hx
    rcases List.mem_cons.mp hx with rfl | hx
    · exact he
    · rw [name_addTo] at hes
      exact hes x hx

theorem columns_addEach (p : PreparedTable N) (es : List (Column N × EncodedColumn N)) :
    (addEach p es).table.columns =
      p.table.columns ++ es.filterMap fun e => e.2.numbers?.map fun _ => e.1.name := by
  induction es generalizing p with
  | nil => simp [addEach]
  | cons e es ih =>
    have hcons := ih (e.2.addTo p e.1.name)
    rw [columns_addTo] at hcons
    cases hn : e.2.numbers? <;> simpa [addEach, hn] using hcons

theorem data_addEach (p : PreparedTable N) (es : List (Column N × EncodedColumn N)) :
    (addEach p es).table.data = p.table.data ++ es.filterMap fun e => e.2.numbers? := by
  induction es generalizing p with
  | nil => simp [addEach]
  | cons e es ih =>
    have hcons := ih (e.2.addTo p e.1.name)
    rw [data_addTo] at hcons
    cases hn : e.2.numbers? <;> simpa [addEach, hn] using hcons

theorem name_addEach (p : PreparedTable N) (es : List (Column N × EncodedColumn N)) :
    (addEach p es).table.name = p.table.name := by
  induction es generalizing p with
  | nil => rfl
  | cons e es ih => exact (ih _).trans (name_addTo _ _ _)

/-- Encoding columns changes nothing that is known about the table as a whole. -/
theorem metadata_addEach (p : PreparedTable N) (es : List (Column N × EncodedColumn N)) :
    (addEach p es).metadata.table = p.metadata.table ∧
      (addEach p es).metadata.length = p.metadata.length ∧
      (addEach p es).metadata.sampleRate = p.metadata.sampleRate ∧
      (addEach p es).metadata.dependencies = p.metadata.dependencies ∧
      (addEach p es).metadata.incomingMeans = p.metadata.incomingMeans := by
  induction es generalizing p with
  | nil => exact ⟨rfl, rfl, rfl, rfl, rfl⟩
  | cons e es ih =>
    obtain ⟨c, e⟩ := e
    have hadd := ih (e.addTo p c.name)
    cases e with
    | dropped => exact hadd
    | categorical d codes => exact hadd
    | numeric s numbers => exact hadd

/-- What becomes of a column, and what holds of the column then. -/
inductive EncodedBy (table : String) (config : PreparationConfig N) (c : Column N) :
    EncodedColumn N → Prop where
  | dropped (unfit : c.isUnfit config.maxUnique = true) : EncodedBy table config c .dropped
  | categorical (fit : c.isUnfit config.maxUnique = false) (text : c.hasText = true) :
      EncodedBy table config c (.categorical (Value.distinct c.present)
        (c.values.map fun v => (Dictionary.code? (Value.distinct c.present) v).getD 0))
  | numeric {sentinel : N} (fit : c.isUnfit config.maxUnique = false) (text : c.hasText = false)
      (finite : ∀ x ∈ c.values.filterMap Value.toScalar?, Scalar.isFinite x = true)
      (chosen : Sentinel.choose table c.name (c.values.filterMap Value.toScalar?) c.hasNull
        config.nullEpsilon = .ok sentinel) :
      EncodedBy table config c (.numeric sentinel (c.values.map fun v => v.toScalar?.getD sentinel))

theorem encodedBy_of_ofColumn {table : String} {config : PreparationConfig N} {c : Column N}
    {e : EncodedColumn N} (h : ofColumn table config c = .ok e) : EncodedBy table config c e := by
  unfold ofColumn at h
  split at h
  · rename_i hunfit
    cases h
    exact .dropped hunfit
  · rename_i hfit
    split at h
    · rename_i htext
      cases h
      rw [Dictionary.map_fst_assign, List.map_congr_left fun v _ =>
        Dictionary.lookup_assign c.isNull_of_mem_present v]
      exact .categorical (Bool.not_eq_true _ ▸ hfit) htext
    · rename_i htext
      dsimp only at h
      split at h
      · cases h
      · rename_i hfinite
        obtain ⟨sentinel, hsentinel, h⟩ := bind_eq_ok.mp h
        cases pure_eq_ok.mp h
        refine .numeric (Bool.not_eq_true _ ▸ hfit) (Bool.not_eq_true _ ▸ htext) ?_ hsentinel
        simpa only [List.any_eq_true, not_exists, not_and, Bool.not_eq_true,
          Bool.not_eq_false'] using hfinite

theorem numbers_of_ofColumn [NumericScalar N] {table : String} {config : PreparationConfig N}
    {c : Column N} {e : EncodedColumn N} {numbers : List N} (h : ofColumn table config c = .ok e)
    (hn : e.numbers? = some numbers) :
    numbers.length = c.values.length ∧ ∀ x ∈ numbers, Scalar.isNaN x = false := by
  cases encodedBy_of_ofColumn h with
  | dropped unfit => cases hn
  | categorical fit text =>
    cases hn
    refine ⟨List.length_map _, fun x hx => ?_⟩
    obtain ⟨v, _, rfl⟩ := List.mem_map.mp hx
    unfold Dictionary.code?
    split
    · exact NumericScalar.isNaN_ofInt 0
    · cases (Value.distinct c.present).findIdx? (· == v) with
      | none => exact NumericScalar.isNaN_ofInt 0
      | some i => exact NumericScalar.isNaN_ofInt _
  | numeric fit text finite chosen =>
    cases hn
    refine ⟨List.length_map _, fun x hx => ?_⟩
    obtain ⟨v, hv, rfl⟩ := List.mem_map.mp hx
    cases hs : v.toScalar? with
    | none => exact NumericScalar.isNaN_of_isFinite _ (Sentinel.isFinite_of_choose chosen)
    | some x => exact NumericScalar.isNaN_of_isFinite _ (finite x (List.mem_filterMap.mpr ⟨v, hv, hs⟩))

/-- A multiplier is stored as it is. -/
theorem ofColumn_multiplier {table : String} {config : PreparationConfig N} {m : Multiplier N}
    {e : EncodedColumn N} (hcounts : m.counts ≠ []) (h : ofColumn table config m.column = .ok e) :
    ∃ sentinel hasNull, Sentinel.choose table m.column.name m.counts hasNull config.nullEpsilon =
      .ok sentinel ∧ e = numeric sentinel m.counts := by
  have hnumbers : m.column.values.filterMap Value.toScalar? = m.counts := by
    rw [Multiplier.column, List.filterMap_map]
    exact List.filterMap_some
  cases encodedBy_of_ofColumn h with
  | dropped unfit =>
    rw [m.isUnfit_column, List.isEmpty_iff] at unfit
    exact absurd unfit hcounts
  | categorical fit text =>
    rw [m.hasText_column] at text
    cases text
  | @numeric sentinel fit text finite chosen =>
    have hid : (fun v : Value N => v.toScalar?.getD sentinel) ∘ Value.num = id := rfl
    rw [hnumbers] at chosen
    refine ⟨sentinel, _, chosen, ?_⟩
    rw [Multiplier.column, List.map_map, hid, List.map_id]

end EncodedColumn

/-- There is a name for every column, all columns have one length, and only numbers are stored. -/
structure EncodedTable.Rectangular (t : EncodedTable N) : Prop where
  width : t.data.length = t.columns.length
  length : ∀ column ∈ t.data, column.length = t.size
  numeric : ∀ column ∈ t.data, ∀ x ∈ column, Scalar.isNaN x = false

namespace EncodedTable

theorem rectangular_of_length {t : EncodedTable N} {n : Nat} (hw : t.data.length = t.columns.length)
    (hlen : ∀ column ∈ t.data, column.length = n)
    (hnum : ∀ column ∈ t.data, ∀ x ∈ column, Scalar.isNaN x = false) : t.Rectangular := by
  refine ⟨hw, fun column hc => ?_, hnum⟩
  cases hd : t.data with
  | nil =>
    rw [hd] at hc
    cases hc
  | cons first rest =>
    have hfirst : first.length = n := hlen first (hd ▸ List.mem_cons_self)
    rw [hlen column hc, size, hd]
    exact hfirst.symm

omit [Scalar N] in
theorem length_select {t : EncodedTable N} (places : List Nat)
    {n m : Nat} (hlen : ∀ column ∈ t.data, column.length = n)
    (hplaces : (places.filter (· < n)).length = m) :
    ∀ column ∈ (t.select places).data, column.length = m := by
  intro column hc
  obtain ⟨c, hmem, rfl⟩ := List.mem_map.mp hc
  rw [← hplaces, List.length_filterMap_eq_countP, ← List.countP_eq_length_filter]
  apply List.countP_congr
  intro i _
  simp [hlen c hmem]

theorem Rectangular.truncate {t : EncodedTable N} (h : t.Rectangular) (max : Nat) (seed : UInt64) :
    (t.truncate max seed).Rectangular := by
  unfold EncodedTable.truncate
  split
  · refine rectangular_of_length ?_ (length_select _ h.length rfl) ?_
    · exact (List.length_map _).trans h.width
    · intro column hc x hx
      obtain ⟨c, hmem, rfl⟩ := List.mem_map.mp hc
      obtain ⟨i, _, hi⟩ := List.mem_filterMap.mp hx
      exact h.numeric c hmem x (List.mem_of_getElem? hi)
  · exact h

end EncodedTable

/-- The intermediate results of a preparation that succeeds. -/
structure Preparation (g : Schema N) (source : RawSource N) (config : PreparationConfig N)
    (name : String) (p : PreparedTable N) where
  table : Table N
  raw : RawTable N
  whole : Frame N
  compression : Compression N
  rs : List Relationship
  multipliers : List (Multiplier N)
  blank : TableMetadata N
  encoded : List (Column N × EncodedColumn N)
  known : g.table name = .ok table
  source_eq : source name = .ok raw
  whole_eq : Frame.ofRaw table raw = .ok whole
  compression_eq : Compression.run table whole config.maxUnique = .ok compression
  incoming : g.incoming name = .ok rs
  adds : Multiplier.Adds g source table (compression.remaining whole) rs multipliers
  blank_eq : blank = { TableMetadata.blank table.name table.sampleRate with
    length := raw.size
    dependencies := compression.maps
    incomingMeans := .ofList (multipliers.map fun m => (m.relationship.identifier, m.mean)) }
  encodes : EncodedColumn.Encodes name config
    (compression.remaining whole ++ multipliers.map Multiplier.column) encoded
  table_eq : p.table =
    (EncodedColumn.addEach ⟨⟨name, [], []⟩, blank⟩ encoded).table.truncate config.maxData config.seed
  metadata_eq : p.metadata =
    { (EncodedColumn.addEach ⟨⟨name, [], []⟩, blank⟩ encoded).metadata with
      storedLength := p.table.size
      columns := p.table.columns }

theorem Schema.prepare_eq_ok {g : Schema N} {source : RawSource N} {config : PreparationConfig N}
    {name : String} {p : PreparedTable N} (h : g.prepare source config name = .ok p) :
    Nonempty (Preparation g source config name p) := by
  unfold prepare at h
  obtain ⟨t, ht, h⟩ := bind_eq_ok.mp h
  obtain ⟨raw, hraw, h⟩ := bind_eq_ok.mp h
  obtain ⟨whole, hwhole, h⟩ := bind_eq_ok.mp h
  obtain ⟨compression, hcompression, h⟩ := bind_eq_ok.mp h
  obtain ⟨⟨frame, multipliers⟩, hadd, h⟩ := bind_eq_ok.mp h
  obtain ⟨encoded, hencoded, h⟩ := bind_eq_ok.mp h
  cases pure_eq_ok.mp h
  have ht := mapError_eq_ok.mp ht
  have hname := Schema.name_of_table ht
  obtain ⟨rs, hrs, rfl, hadds⟩ := Multiplier.addAll_eq_ok hadd
  obtain ⟨es, hes, rfl⟩ := EncodedColumn.addAll_eq_ok hencoded
  rw [hname] at hraw hrs
  exact ⟨⟨t, raw, whole, compression, rs, multipliers, _, es, ht, hraw, hwhole, hcompression, hrs,
    hadds, rfl, hname ▸ hes, by rw [hname], by rw [hname]⟩⟩

namespace Preparation

variable {g : Schema N} {source : RawSource N} {config : PreparationConfig N} {name : String}
  {p : PreparedTable N}

/-- The frame that is encoded. -/
def frame (h : Preparation g source config name p) : Frame N :=
  h.compression.remaining h.whole ++ h.multipliers.map Multiplier.column

theorem hasLength_frame (h : Preparation g source config name p) : h.frame.HasLength h.raw.size := by
  apply h.adds.hasLength
  intro c hc
  exact Frame.hasLength_of_ofRaw h.whole_eq c ((Frame.sublist_erase _ _).subset hc)

/-- Just the columns of the frame are encoded. -/
theorem mem_frame_iff (h : Preparation g source config name p) {c : Column N} :
    c ∈ h.frame ↔ ∃ e ∈ h.encoded, e.1 = c := by
  rw [frame, ← h.encodes.1]
  exact List.mem_map

theorem mem_frame (h : Preparation g source config name p) {e : Column N × EncodedColumn N}
    (he : e ∈ h.encoded) : e.1 ∈ h.frame :=
  h.mem_frame_iff.mpr ⟨e, he, rfl⟩

theorem column_mem_frame (h : Preparation g source config name p) {m : Multiplier N}
    (hm : m ∈ h.multipliers) : m.column ∈ h.frame :=
  List.mem_append_right _ (List.mem_map_of_mem hm)

theorem counts_eq_nil_iff (h : Preparation g source config name p) {m : Multiplier N}
    (hm : m ∈ h.multipliers) : m.counts = [] ↔ h.raw.size = 0 := by
  rw [← h.hasLength_frame m.column (h.column_mem_frame hm), ← List.length_eq_zero_iff, Multiplier.column,
    List.length_map]

theorem counts_ne_nil (h : Preparation g source config name p) {m : Multiplier N}
    (hm : m ∈ h.multipliers) (hrows : h.raw.size ≠ 0) : m.counts ≠ [] :=
  mt (h.counts_eq_nil_iff hm).mp hrows

/-- A multiplier is stored as it is, if it has a number. -/
theorem exists_numeric (h : Preparation g source config name p) {m : Multiplier N}
    (hm : m ∈ h.multipliers) (hcounts : m.counts ≠ []) : ∃ e ∈ h.encoded, e.1 = m.column ∧
      ∃ sentinel hasNull, Sentinel.choose name m.column.name m.counts hasNull config.nullEpsilon =
        .ok sentinel ∧ e.2 = .numeric sentinel m.counts := by
  obtain ⟨e, he, hcolumn⟩ := h.mem_frame_iff.mp (h.column_mem_frame hm)
  have hof := h.encodes.2 e he
  rw [hcolumn] at hof
  exact ⟨e, he, hcolumn, EncodedColumn.ofColumn_multiplier hcounts hof⟩

theorem exists_stored (h : Preparation g source config name p) {m : Multiplier N}
    (hm : m ∈ h.multipliers) (hrows : h.raw.size ≠ 0) :
    ∃ e ∈ h.encoded, e.1 = m.column ∧ e.2.numbers? = some m.counts := by
  obtain ⟨e, he, hcolumn, _, _, -, hnumeric⟩ := h.exists_numeric hm (h.counts_ne_nil hm hrows)
  exact ⟨e, he, hcolumn, by rw [hnumeric]; rfl⟩

/-- The table before it is cut down. -/
def untruncated (h : Preparation g source config name p) : PreparedTable N :=
  EncodedColumn.addEach ⟨⟨name, [], []⟩, h.blank⟩ h.encoded

theorem metadata_known (h : Preparation g source config name p) :
    p.metadata.table = name ∧ p.metadata.length = h.raw.size ∧
      p.metadata.sampleRate = h.table.sampleRate ∧ p.metadata.dependencies = h.compression.maps ∧
      p.metadata.incomingMeans =
        .ofList (h.multipliers.map fun m => (m.relationship.identifier, m.mean)) := by
  have hknown := EncodedColumn.metadata_addEach ⟨⟨name, [], []⟩, h.blank⟩ h.encoded
  simp only [h.blank_eq, TableMetadata.blank, Schema.name_of_table h.known] at hknown
  rw [h.metadata_eq]
  simp only [h.blank_eq, TableMetadata.blank, Schema.name_of_table h.known]
  exact hknown

theorem dependencies_eq (h : Preparation g source config name p) :
    p.metadata.dependencies = h.compression.maps := by
  obtain ⟨-, -, -, hmaps, -⟩ := h.metadata_known
  exact hmaps

theorem name_eq (h : Preparation g source config name p) : p.table.name = name := by
  rw [h.table_eq]
  have hname := EncodedColumn.name_addEach ⟨⟨name, [], []⟩, h.blank⟩ h.encoded
  unfold EncodedTable.truncate
  split
  · exact hname
  · exact hname

theorem numbers_of_mem [NumericScalar N] (h : Preparation g source config name p) {column : List N}
    (hc : column ∈ h.untruncated.table.data) :
    column.length = h.raw.size ∧ ∀ x ∈ column, Scalar.isNaN x = false := by
  rw [untruncated, EncodedColumn.data_addEach, List.nil_append] at hc
  obtain ⟨e, he, hn⟩ := List.mem_filterMap.mp hc
  obtain ⟨hlen, hnum⟩ := EncodedColumn.numbers_of_ofColumn (h.encodes.2 e he) hn
  exact ⟨hlen.trans (h.hasLength_frame _ (h.mem_frame he)), hnum⟩

theorem rectangular [NumericScalar N] (h : Preparation g source config name p) :
    p.table.Rectangular := by
  rw [h.table_eq]
  refine (EncodedTable.rectangular_of_length ?_ (fun c hc => (h.numbers_of_mem hc).1)
    fun c hc => (h.numbers_of_mem hc).2).truncate _ _
  rw [untruncated, EncodedColumn.data_addEach, EncodedColumn.columns_addEach, List.nil_append,
    List.nil_append, List.length_filterMap_eq_countP, List.length_filterMap_eq_countP]
  exact List.countP_congr fun e _ => by simp

/-- A table of few enough rows is stored as a whole. -/
theorem table_of_size_le [NumericScalar N] (h : Preparation g source config name p)
    (hsize : h.raw.size ≤ config.maxData) : p.table = h.untruncated.table := by
  have hle : h.untruncated.table.size ≤ h.raw.size := by
    unfold EncodedTable.size
    cases hd : h.untruncated.table.data with
    | nil => exact Nat.zero_le _
    | cons first rest => exact (h.numbers_of_mem (hd ▸ List.mem_cons_self)).1.le
  rw [h.table_eq]
  exact if_neg (Nat.not_lt.mpr (hle.trans hsize))

end Preparation

end ApproxQuery
