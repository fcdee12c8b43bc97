import ApproxQuery.Proofs.Prepare.FiniteNumbers
import ApproxQuery.Proofs.Prepare.Reconstruction
import ApproxQuery.Proofs.Prepare.References

/-!
# Multipliers count references

The key of a table is one column, whichever relationship asks for it, as the multipliers before it
stand after it. So every multiplier is computed from the raw keys of all rows; it is stored as it is
and decoded to its numbers in the rows that are kept, whereas its mean is taken over all of them.
-/

namespace ApproxQuery

namespace Binary64

open Float.Model Float.Model.UnpackedFloat

theorem zero_div (s : Sign) (v : UnpackedFloat) :
    UnpackedFloat.div Format.binary64 (.zero s) v = .notANumber ∨
      ∃ t, UnpackedFloat.div Format.binary64 (.zero s) v = .zero t := by
  cases v with
  | notANumber => exact .inl rfl
  | zero t => exact .inl rfl
  | infinity t => exact .inr ⟨_, rfl⟩
  | finite t m e k => exact .inr ⟨_, rfl⟩

/-- Zero divided by anything is zero, if it is a number. -/
theorem exists_zero_of_div {x y : Float} {s : Sign} (hx : x.toModel.unpack = .zero s)
    (h : Scalar.isNaN (x / y) = false) : ∃ t, (x / y).toModel.unpack = .zero t := by
  have hdiv : (x / y).toModel.unpack =
      (Float.Model.pack (UnpackedFloat.div Format.binary64 x.toModel.unpack y.toModel.unpack)).unpack :=
    rfl
  have hnumber := isNaN_eq_false.mp h
  rw [hdiv, hx] at hnumber ⊢
  rcases zero_div s y.toModel.unpack with hnone | ⟨t, hzero⟩
  · rw [hnone] at hnumber
    exact absurd rfl hnumber
  · rw [hzero]
    cases t with
    | positive => exact ⟨.positive, rfl⟩
    | negative => exact ⟨.negative, rfl⟩

end Binary64

namespace Multiplier

section

variable {N : Type} [Scalar N]

/-- The number of rows of the full referencing table that are expected to reference a key. -/
def expected (references : List (Value N)) (rate : N) (key : Value N) : N :=
  Scalar.ofNat (count references key) / rate

variable {g : Schema N} {source : RawSource N} {t : Table N} {f : Frame N} {r : Relationship}

omit [Scalar N] in
theorem column?_of_key {c : Column N} (h : key t f r = .ok c) :
    f.column? (qualify t.name r.targetAttribute) = some c := by
  obtain ⟨-, -, hprimary⟩ := key_eq_ok h
  simp only [key, hprimary, bne_self_eq_false, Bool.false_eq_true, if_false] at h
  split at h
  · cases h
  · rename_i hfound
    cases h
    exact hfound

omit [Scalar N] in
/-- Columns after the key column do not matter. -/
theorem key_append {c : Column N} (h : key t f r = .ok c) (f' : Frame N) (r' : Relationship) :
    key t (f ++ f') r' = key t f r' := by
  obtain ⟨-, -, hprimary⟩ := key_eq_ok h
  have hfound := column?_of_key h
  have happend : (f ++ f').column? (qualify t.name r.targetAttribute) = some c := by
    unfold Frame.column? at hfound ⊢
    rw [List.find?_append, hfound, Option.some_or]
  simp only [key, hprimary, hfound, happend]

/-- All multipliers can be computed from the frame before the first is added. -/
theorem Adds.compute_eq {rs : List Relationship} {ms : List (Multiplier N)}
    (h : Adds g source t f rs ms) : ∀ m ∈ ms, compute g source t f m.relationship = .ok m := by
  induction h with
  | nil => nofun
  | @cons f r rs m ms computed rest ih =>
    intro m' hm'
    obtain ⟨hr, c, _, _, _, hkey, -⟩ := compute_eq_ok computed
    rcases List.mem_cons.mp hm' with rfl | hm'
    · rwa [hr]
    · have hlater := ih m' hm'
      unfold compute at hlater ⊢
      rwa [key_append hkey] at hlater

end

end Multiplier

section

variable {N : Type} [Scalar N]

omit [Scalar N] in
/-- Every relationship of an incoming list is found under its identifier. -/
theorem Schema.relationship_of_incoming {g : Schema N} {name : String} {rs : List Relationship}
    (h : g.incoming name = .ok rs) {r : Relationship} (hr : r ∈ rs) :
    g.relationship r.identifier = .ok r := by
  obtain ⟨t, -, hmap⟩ := bind_eq_ok.mp h
  obtain ⟨id, -, hid⟩ := exists_origin_of_mapM hmap hr
  rwa [Schema.identifier_of_relationship hid]

namespace Preparation

variable {g : Schema N} {source : RawSource N} {config : PreparationConfig N} {name : String}
  {p : PreparedTable N} (h : Preparation g source config name p)

/-- There is one key column for all multipliers. -/
theorem exists_key : ∃ place, ∀ r ∈ h.rs, h.table.singlePrimaryKey? = some r.targetAttribute ∧
    h.raw.columns[place]? = some r.targetAttribute ∧
    Multiplier.key h.table (h.compression.remaining h.whole) r =
      .ok ⟨qualify h.table.name r.targetAttribute, h.raw.valuesAt place⟩ := by
  have hkey {r : Relationship} (hr : r ∈ h.rs) :
      ∃ c, Multiplier.key h.table (h.compression.remaining h.whole) r = .ok c := by
    rw [← h.adds.relationships] at hr
    obtain ⟨m, hm, rfl⟩ := List.mem_map.mp hr
    obtain ⟨-, c, -, -, -, hc, -⟩ := Multiplier.compute_eq_ok (h.adds.compute_eq m hm)
    exact ⟨c, hc⟩
  cases hrs : h.rs with
  | nil => exact ⟨0, nofun⟩
  | cons r rs =>
    obtain ⟨c, hc⟩ := hkey (hrs ▸ List.mem_cons_self)
    obtain ⟨hmem, hname, hprimary⟩ := Multiplier.key_eq_ok hc
    obtain ⟨place, a, ha, -, rfl⟩ :=
      Frame.exists_place_of_mem_ofRaw h.whole_eq ((Frame.sublist_erase _ _).subset hmem)
    cases qualify_inj.mp hname
    refine ⟨place, fun r' hr' => ?_⟩
    obtain ⟨c', hc'⟩ := hkey (hrs ▸ hr')
    obtain ⟨-, -, hprimary'⟩ := Multiplier.key_eq_ok hc'
    have hsame : r.targetAttribute = r'.targetAttribute :=
      Option.some.inj (hprimary.symm.trans hprimary')
    have hcolumn := Multiplier.column?_of_key hc
    rw [hsame, Multiplier.column?_of_key hc'] at hcolumn
    rw [hc', Option.some.inj hcolumn]
    exact ⟨hprimary', by rw [ha, hsame], rfl⟩

section

variable (hnodup : p.table.columns.Nodup)
include hnodup

theorem column?_of_mem [LawfulScalar N] {e : Column N × EncodedColumn N} {all : List N}
    (he : e ∈ h.encoded) (hn : e.2.numbers? = some all) :
    p.table.column? e.1.name = some ((config.keptRows h.raw.size).filterMap (all[·]?)) := by
  obtain ⟨place, hplace, hall⟩ := h.exists_place hnodup he hn
  rw [EncodedTable.column?, hplace, Option.bind_some, h.data_eq, List.getElem?_map, hall,
    h.rows_eq (List.ne_nil_of_mem (List.mem_of_getElem? hall))]
  rfl

/-- The relationships of multipliers have different identifiers. -/
theorem nodup_identifiers (hrows : h.raw.size ≠ 0) : (h.rs.map Relationship.identifier).Nodup := by
  have hstored : ((h.multipliers.map Multiplier.column).map Column.name).Sublist p.table.columns := by
    rw [h.columns_eq, frame, List.filter_append, h.filter_multipliers hrows]
    exact (List.sublist_append_right _ _).map _
  have hnames : (h.rs.map (·.multiplier.qualified)).Nodup := by
    rw [← h.adds.relationships, List.map_map]
    rw [List.map_map] at hstored
    exact hnodup.sublist hstored
  refine hnames.of_map.map_on fun r hr r' hr' heq => ?_
  have hfound := Schema.relationship_of_incoming h.incoming hr
  rw [heq, Schema.relationship_of_incoming h.incoming hr'] at hfound
  exact (Except.ok.inj hfound).symm

theorem mean_eq (hrows : h.raw.size ≠ 0) {m : Multiplier N} (hm : m ∈ h.multipliers) :
    p.metadata.incomingMeans.get? m.relationship.identifier =
      some (Scalar.sum m.counts / Scalar.ofNat m.counts.length) := by
  obtain ⟨-, -, -, -, hmeans⟩ := h.metadata_known
  have hmean : m.mean = Scalar.mean m.counts := by
    rw [h.adds.mean_eq m hm, if_neg (by simpa using h.counts_ne_nil hm hrows)]
  rw [hmeans]
  refine SortedMap.get?_ofList_of_nodup ?_ (List.mem_map.mpr ⟨m, hm, by rw [hmean]; rfl⟩)
  have hids := h.nodup_identifiers hnodup hrows
  rw [← h.adds.relationships, List.map_map] at hids
  rwa [List.map_map]

/-- Every multiplier is decoded to its numbers in the rows that are kept. -/
theorem decodeColumn_multiplier [LawfulScalar N] (hrows : h.raw.size ≠ 0) {m : Multiplier N}
    (hm : m ∈ h.multipliers) :
    ∃ ws, p.decodeColumn m.relationship.multiplier.qualified = .ok ws ∧
      List.Forall₂ (fun i w => ∃ x, m.counts[i]? = some x ∧ w = .num x)
        (config.keptRows h.raw.size) ws := by
  obtain ⟨e, he, hcolumn, hn⟩ := h.exists_stored hm hrows
  have htext : e.1.hasText = false := by rw [hcolumn, m.hasText_column]
  have hrepresents := EncodedColumn.represents_of_ofColumn (fun h => absurd h (by simp [htext]))
    (h.encodes.2 e he) hn (h.describedBy hnodup he)
  have hstored := h.column?_of_mem hnodup he hn
  have hname : e.1.name = m.relationship.multiplier.qualified := by
    rw [hcolumn]
    rfl
  rw [htext, hname] at hrepresents
  rw [hname] at hstored
  have hkept := forall₂_filterMap_getElem? hrepresents fun i hi =>
    (h.hasLength_frame e.1 (h.mem_frame he)).symm ▸ (config.chosenRows_keptRows _).lt i hi
  refine ⟨_, h.decodeColumn_eq hstored, ?_⟩
  refine List.forall₂_map_right_iff.mpr (hkept.imp fun i x hrow => ?_)
  obtain ⟨v, hv, hrep⟩ := hrow
  rw [hcolumn, Multiplier.column, List.getElem?_map] at hv
  obtain ⟨y, hy, rfl⟩ := Option.map_eq_some_iff.mp hv
  exact ⟨y, hy, hrep.decoded_eq_num⟩

end

end Preparation

/-- Every stored column is a multiplier or holds numbers for the values of a raw column in these
rows. -/
def PreparedTable.HoldsColumns (p : PreparedTable N) (name : String) (raw : RawTable N)
    (rs : List Relationship) (rows : List Nat) : Prop :=
  ∀ column ∈ p.table.columns, column ∈ rs.map (·.multiplier.qualified) ∨
    ∃ place a numbers, raw.columns[place]? = some a ∧ column = qualify name a ∧
      p.table.column? column = some numbers ∧
      List.Forall₂ (fun i x => ∃ v, (raw.valuesAt place)[i]? = some v ∧
        p.metadata.Represents column ((raw.valuesAt place).any Value.isText) v x) rows numbers

theorem Preparation.holdsColumns [LawfulScalar N] {g : Schema N} {source : RawSource N}
    {config : PreparationConfig N} {name : String} {p : PreparedTable N}
    (h : Preparation g source config name p) (hnodup : p.table.columns.Nodup)
    (hcount : Scalar.CountsTo N (min config.maxUnique h.raw.size)) :
    p.HoldsColumns name h.raw h.rs (config.keptRows h.raw.size) := by
  intro column hcolumn
  obtain ⟨e, he, rfl, all, hall⟩ := h.exists_of_mem_columns hcolumn
  rcases List.mem_append.mp (h.mem_frame he) with hraw | hmultiplier
  · have hwhole := (Frame.sublist_erase _ _).subset hraw
    obtain ⟨place, a, ha, -, hc⟩ := Frame.exists_place_of_mem_ofRaw h.whole_eq hwhole
    have hvalues : e.1.values = h.raw.valuesAt place := by rw [hc]
    have hlength := h.length_values hwhole
    have hrepresents := EncodedColumn.represents_of_ofColumn (fun _ => hlength ▸ hcount)
      (h.encodes.2 e he) hall (h.describedBy hnodup he)
    have hkept := forall₂_filterMap_getElem? hrepresents fun i hi =>
      hlength.symm ▸ (config.chosenRows_keptRows _).lt i hi
    rw [Column.hasText, hvalues] at hkept
    refine .inr ⟨place, a, _, ha, ?_, h.column?_of_mem hnodup he hall, hkept⟩
    rw [hc, Schema.name_of_table h.known]
  · obtain ⟨m, hm, heq⟩ := List.mem_map.mp hmultiplier
    rw [← h.adds.relationships, List.map_map, ← heq]
    exact .inl (List.mem_map_of_mem hm)

/-- The multiplier of the relationship tells, for each of these rows and on average for all rows, how
many rows of the full referencing table are expected to reference its key. -/
structure PreparedTable.ProjectsFanOut (p : PreparedTable N) (r : Relationship) (rows : List Nat)
    (keys references : List (Value N)) (rate : N) : Prop where
  decoded : ∃ ws, p.decodeColumn r.multiplier.qualified = .ok ws ∧
    List.Forall₂ (fun i w => ∃ key, keys[i]? = some key ∧
      w = .num (Multiplier.expected references rate key)) rows ws
  mean : p.metadata.incomingMeans.get? r.identifier =
    some (Scalar.sum (keys.map (Multiplier.expected references rate)) / Scalar.ofNat keys.length)
  unreferenced : ∀ key ∈ keys,
    (key.isNull = true ∨ ∀ v ∈ references, v.isNull = false → (v == key) = false) →
      (.num (Multiplier.expected references rate key) == (.num 0 : Value N)) = true

end

theorem Multiplier.expected_beq_zero {references : List (Value Float)} {rate : Float}
    {key : Value Float}
    (h : key.isNull = true ∨ ∀ v ∈ references, v.isNull = false → (v == key) = false)
    (hnumber : Scalar.isNaN (expected references rate key) = false) :
    (.num (expected references rate key) == (.num 0 : Value Float)) = true := by
  have hbits : (Float.ofInt 0).toModel.toBits = 0 := by decide +kernel
  have hzero : (Float.ofInt 0).toModel.unpack = .zero .positive := by
    rw [Float.Model.unpack, hbits]
    rfl
  unfold expected at hnumber ⊢
  rw [count_eq_zero h] at hnumber ⊢
  obtain ⟨s, hs⟩ := Binary64.exists_zero_of_div hzero hnumber
  refine Value.beq_iff_key.mpr (Value.key_num_eq_num.mpr ?_)
  exact (Binary64.canonical_of_zero hs).trans (Binary64.canonical_of_zero hzero).symm

theorem Preparation.projectsFanOut {g : Schema Float} {source : RawSource Float}
    {config : PreparationConfig Float} {name : String} {p : PreparedTable Float}
    (h : Preparation g source config name p) (hnodup : p.table.columns.Nodup)
    (hrows : h.raw.size ≠ 0) {m : Multiplier Float} (hm : m ∈ h.multipliers)
    {keys references : List (Value Float)} {rate : Float}
    (hcounts : m.counts = keys.map (Multiplier.expected references rate)) :
    p.ProjectsFanOut m.relationship (config.keptRows h.raw.size) keys references rate := by
  refine ⟨?_, ?_, fun key hkey hnone => Multiplier.expected_beq_zero hnone ?_⟩
  · obtain ⟨ws, hws, hdecoded⟩ := h.decodeColumn_multiplier hnodup hrows hm
    refine ⟨ws, hws, hdecoded.imp fun i w ⟨x, hx, hw⟩ => ?_⟩
    rw [hcounts, List.getElem?_map] at hx
    obtain ⟨key, hkey, rfl⟩ := Option.map_eq_some_iff.mp hx
    exact ⟨key, hkey, hw⟩
  · rw [h.mean_eq hnodup hrows hm, hcounts, List.length_map]
  · obtain ⟨e, he, -, hn⟩ := h.exists_stored hm hrows
    refine (EncodedColumn.numbers_of_ofColumn (h.encodes.2 e he) hn).2 _ ?_
    rw [hcounts]
    exact List.mem_map_of_mem hkey

/-- Multipliers project the fan-out of every row: for each relationship that references the table, its
multiplier is decoded to the number of references to the raw primary key of the row, divided by the
share of sampled rows of the referencing table, and its mean is that of all raw rows. -/
theorem Schema.prepare_projects_fan_out {g : Schema Float} {source : RawSource Float}
    {config : PreparationConfig Float} {name : String} {t : Table Float} {p : PreparedTable Float}
    {raw : RawTable Float} {rs : List Relationship} (h : g.prepare source config name = .ok p)
    (ht : g.table name = .ok t) (hraw : source name = .ok raw) (hrs : g.incoming name = .ok rs)
    (hrows : raw.size ≠ 0) (hnodup : p.table.columns.Nodup) :
    ChosenRows raw.size config.maxData (config.keptRows raw.size) ∧
      (min config.maxUnique raw.size < 2 ^ 53 →
        p.HoldsColumns name raw rs (config.keptRows raw.size)) ∧
      ∃ place, ∀ r ∈ rs, t.singlePrimaryKey? = some r.targetAttribute ∧
        raw.columns[place]? = some r.targetAttribute ∧
        ∃ referencing other references, g.table r.source = .ok referencing ∧
          source r.source = .ok other ∧ other.column? r.sourceAttribute = some references ∧
          p.ProjectsFanOut r (config.keptRows raw.size) (raw.valuesAt place) references
            referencing.sampleRate := by
  obtain ⟨prep⟩ := Schema.prepare_eq_ok h
  cases Except.ok.inj (prep.known.symm.trans ht)
  cases Except.ok.inj (prep.source_eq.symm.trans hraw)
  cases Except.ok.inj (prep.incoming.symm.trans hrs)
  obtain ⟨place, hplace⟩ := prep.exists_key
  refine ⟨config.chosenRows_keptRows _, fun hlt => ?_, place, fun r hr => ?_⟩
  · exact prep.holdsColumns hnodup fun n hpos hle => Binary64.countsTo n hpos (by omega)
  · obtain ⟨hprimary, hcolumn, hkey⟩ := hplace r hr
    rw [← prep.adds.relationships] at hr
    obtain ⟨m, hm, rfl⟩ := List.mem_map.mp hr
    obtain ⟨-, c, referencing, other, references, hc, href, hother, hreferences, hcounts⟩ :=
      Multiplier.compute_eq_ok (prep.adds.compute_eq m hm)
    cases Except.ok.inj (hc.symm.trans hkey)
    simp only [Tally.get_ofValues] at hcounts
    exact ⟨hprimary, hcolumn, referencing, other, references, href, hother, hreferences,
      prep.projectsFanOut hnodup hrows hm hcounts⟩

namespace Orders

def customer : Table Float := .named "customer"

/-- Every second order was sampled. -/
def order : Table Float := { (Table.named "order" : Table Float) with sampleRate := 0.5 }

def ordered : Relationship := .between "order" "customer" "customer" "id" none

def schema : Schema Float := ⟨[Schema.link ordered customer, Schema.link ordered order], [ordered]⟩

/-- The last customer has no key. -/
def raw : RawTable Float where
  columns := ["id"]
  rows := [[.int 1], [.int 2], [.null]]

/-- A key may be written as an integer or as a number, and an order may have no customer. -/
def orders : RawTable Float where
  columns := ["id", "customer"]
  rows := [[.int 10, .num 1], [.int 11, .int 1], [.int 12, .int 2], [.int 13, .null]]

def source : RawSource Float := .ofTables [("customer", raw), ("order", orders)]

def config : PreparationConfig Float := { PreparationConfig.standard with maxData := 2 }

theorem exists_prepared : ∃ p, schema.prepare source config "customer" = .ok p ∧
    p.table.columns = ["customer.id", "customer.mul_order.customer"] :=
  exists_eq_ok_of_any (by decide +kernel)

def keys : List (Value Float) := [.int 1, .int 2, .null]

def references : List (Value Float) := [.num 1, .int 1, .int 2, .null]

/-- Two orders reference the first customer and one the second, and each stands for two. The customer
without a key is not stored, but counts in the mean. -/
theorem prepare_projects_orders :
    ∃ p, schema.prepare source config "customer" = .ok p ∧
      schema.table "customer" = .ok (Schema.link ordered customer) ∧ source "customer" = .ok raw ∧
      schema.incoming "customer" = .ok [ordered] ∧ raw.size ≠ 0 ∧ p.table.columns.Nodup ∧
      config.keptRows 3 = [0, 1] ∧ ChosenRows 3 2 [0, 1] ∧
      p.table.columns = ["customer.id", "customer.mul_order.customer"] ∧
      p.HoldsColumns "customer" raw [ordered] [0, 1] ∧
      p.ProjectsFanOut ordered [0, 1] keys references 0.5 ∧
      keys.map (Multiplier.count references) = [2, 1, 0] ∧
      keys.map (Multiplier.expected references 0.5) = [4, 2, 0] ∧
      p.decodeColumn "customer.mul_order.customer" = .ok [.num 4, .num 2] ∧
      p.metadata.incomingMeans.get? "order.customer = customer.id" = some 2 := by
  obtain ⟨p, hp, hcolumns⟩ := exists_prepared
  have hnodup : p.table.columns.Nodup := by
    rw [hcolumns]
    decide
  have hrows : raw.size ≠ 0 := by decide
  have hkept : config.keptRows 3 = [0, 1] := Stock.keptRows_eq
  have hexpected : keys.map (Multiplier.expected references 0.5) = [4, 2, 0] := by decide +kernel
  obtain ⟨hchosen, hholds, place, hprojects⟩ :=
    Schema.prepare_projects_fan_out hp rfl rfl rfl hrows hnodup
  obtain ⟨-, hplace, referencing, other, references', href, hother, hreferences, hproject⟩ :=
    hprojects ordered List.mem_cons_self
  obtain rfl : place = 0 := by
    have hlt := (List.getElem?_eq_some_iff.mp hplace).1
    exact Nat.lt_one_iff.mp hlt
  cases href
  cases hother
  cases hreferences
  have hproject : p.ProjectsFanOut ordered [0, 1] keys references 0.5 := hkept ▸ hproject
  refine ⟨p, hp, rfl, rfl, rfl, hrows, hnodup, hkept, hkept ▸ hchosen,
    hcolumns, hkept ▸ hholds (by decide), hproject, by decide +kernel, hexpected, ?_, ?_⟩
  · obtain ⟨ws, hws, hdecoded⟩ := hproject.decoded
    obtain ⟨_, _, ⟨_, hkey, rfl⟩, hrest, rfl⟩ := List.forall₂_cons_left_iff.mp hdecoded
    obtain ⟨_, _, ⟨_, hkey', rfl⟩, hnone, rfl⟩ := List.forall₂_cons_left_iff.mp hrest
    cases hnone
    cases hkey
    cases hkey'
    obtain ⟨hfirst, hsecond⟩ := List.cons_eq_cons.mp hexpected
    rw [hfirst, (List.cons_eq_cons.mp hsecond).1] at hws
    exact hws
  · have hmean := hproject.mean
    rw [hexpected] at hmean
    exact hmean.trans (congrArg some (by decide +kernel))

end Orders

end ApproxQuery
