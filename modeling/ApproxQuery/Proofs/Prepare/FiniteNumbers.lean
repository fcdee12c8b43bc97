import ApproxQuery.Proofs.Number.Machine
import ApproxQuery.Proofs.Prepare.Stored
import ApproxQuery.Proofs.Schema.Built
import ApproxQuery.Proofs.Store.MetadataFile

/-!
# The numbers of metadata are finite

The share of sampled rows is checked when a table joins a schema, and a column that is stored as
numbers has a finite null marker, which lies a step above its mean. So the only numbers of metadata
that may not be finite are values of the table, in dictionaries and in dependency maps.
-/

namespace ApproxQuery

namespace Binary64

open Float.Model Float.Model.UnpackedFloat

theorem isFinite_pack {u : UnpackedFloat} (h : u.isFinite = false) :
    (Float.Model.pack u).unpack.isFinite = false := by
  cases u with
  | notANumber => rfl
  | infinity s => cases s <;> rfl
  | zero s => cases h
  | finite s m e k => cases h

theorem isFinite_add {u v : UnpackedFloat} (h : u.isFinite = false) :
    (UnpackedFloat.add Format.binary64 u v).isFinite = false := by
  cases u with
  | notANumber => cases v <;> rfl
  | infinity s =>
    cases v with
    | infinity t => cases s <;> cases t <;> rfl
    | _ => rfl
  | zero s => cases h
  | finite s m e k => cases h

/-- A sum is finite only if its terms are. -/
theorem isFinite_of_add {x y : Float} (h : (x + y).isFinite = true) : x.isFinite = true := by
  change x.toModel.unpack.isFinite = true
  rw [← Bool.not_eq_false]
  intro hx
  exact absurd h (Bool.not_eq_true _ ▸ isFinite_pack (isFinite_add hx))

theorem isFinite_zero : (0 : Float).isFinite = true := by
  decide +kernel

/-- A number between zero and one is finite. -/
theorem isFinite_of_isRate {x : Float} (h : Schema.isRate x = true) : x.isFinite = true := by
  obtain ⟨hlt, hle⟩ := Bool.and_eq_true_iff.mp h
  have hlt : compare? (Float.ofInt 0) x = some .lt := beq_iff_eq.mp hlt
  have hle : (compare? x (Float.ofInt 1)).any Ordering.isLE = true := hle
  rw [compare?_eq] at hlt hle
  change x.toModel.unpack.isFinite = true
  obtain ⟨M, E, hc, hone, -⟩ := standsFor_ofNat one_pos (by norm_num : 1 < 2 ^ 53)
  have hone : (Float.ofInt 1).toModel.unpack = .finite .positive M E hc.pos := hone
  rw [hone] at hle
  cases hx : x.toModel.unpack with
  | finite s m e k => rfl
  | zero s => rfl
  | notANumber =>
    rw [hx] at hle
    cases hle
  | infinity s =>
    rw [hx] at hle hlt
    cases s with
    | positive => cases hle
    | negative =>
      have hbits : (Float.ofInt 0).toModel.toBits = 0 := by decide +kernel
      rw [Float.Model.unpack, hbits] at hlt
      cases hlt

end Binary64

/-- A column whose mean is not finite has no null marker. -/
theorem Sentinel.isFinite_mean {table column : String} {present : List Float} {hasNull : Bool}
    {epsilon sentinel : Float} (h : choose table column present hasNull epsilon = .ok sentinel) :
    (Scalar.mean present).isFinite = true :=
  Binary64.isFinite_of_add (foundAfter_of_choose h).1

namespace EncodedColumn

theorem isFinite_insert {m : SortedMap String Float} {name : String} {x : Float}
    (hx : x.isFinite = true) (h : ∀ e ∈ m.toList, e.2.isFinite = true) :
    ∀ e ∈ (m.insert name x).toList, e.2.isFinite = true := by
  rintro ⟨k, y⟩ he
  rcases SortedMap.insertInto_subset he with heq | hmem
  · cases heq
    exact hx
  · exact h (k, y) hmem

/-- The null markers of encoded columns are finite. -/
theorem isFinite_nullValues {table : String} {config : PreparationConfig Float}
    {p : PreparedTable Float} {es : List (Column Float × EncodedColumn Float)}
    (hes : ∀ e ∈ es, ofColumn table config e.1 = .ok e.2)
    (h : ∀ e ∈ p.metadata.nullValues.toList, e.2.isFinite = true) :
    ∀ e ∈ (addEach p es).metadata.nullValues.toList, e.2.isFinite = true := by
  induction es generalizing p with
  | nil => exact h
  | cons e es ih =>
    obtain ⟨c, e⟩ := e
    have hencoded : ofColumn table config c = .ok e := hes (c, e) List.mem_cons_self
    refine ih (p := e.addTo p c.name) (fun e' he' => hes e' (List.mem_cons_of_mem _ he')) ?_
    cases encodedBy_of_ofColumn hencoded with
    | dropped unfit => exact h
    | categorical fit text => exact isFinite_insert Binary64.isFinite_zero h
    | numeric fit text finite chosen => exact isFinite_insert (Sentinel.isFinite_of_choose chosen) h

end EncodedColumn

namespace Multiplier

variable {N : Type} [Scalar N] {g : Schema N} {source : RawSource N} {t : Table N}

theorem mean_of_compute {f : Frame N} {r : Relationship} {m : Multiplier N}
    (h : compute g source t f r = .ok m) :
    m.mean = if m.counts.isEmpty then 0 else Scalar.mean m.counts := by
  unfold compute at h
  obtain ⟨key, -, h⟩ := bind_eq_ok.mp h
  obtain ⟨referencing, -, h⟩ := bind_eq_ok.mp h
  obtain ⟨raw, -, h⟩ := bind_eq_ok.mp h
  split at h
  · cases h
  · cases pure_eq_ok.mp h
    rfl

theorem Adds.mean_eq {f : Frame N} {rs : List Relationship} {ms : List (Multiplier N)}
    (h : Adds g source t f rs ms) :
    ∀ m ∈ ms, m.mean = if m.counts.isEmpty then 0 else Scalar.mean m.counts := by
  induction h with
  | nil => nofun
  | cons computed rest ih =>
    intro m hm
    rcases List.mem_cons.mp hm with rfl | hm
    · exact mean_of_compute computed
    · exact ih m hm

end Multiplier

namespace Preparation

variable {g : Schema Float} {source : RawSource Float} {config : PreparationConfig Float}
  {name : String} {p : PreparedTable Float}

theorem isFinite_mean (h : Preparation g source config name p) {m : Multiplier Float}
    (hm : m ∈ h.multipliers) : m.mean.isFinite = true := by
  rw [h.adds.mean_eq m hm]
  split
  · exact Binary64.isFinite_zero
  · rename_i hcounts
    have hne : m.counts ≠ [] := fun hnil => hcounts (List.isEmpty_iff.mpr hnil)
    obtain ⟨-, -, -, sentinel, hasNull, hchosen, -⟩ := h.exists_numeric hm hne
    exact Sentinel.isFinite_mean hchosen

theorem finiteNumbers (h : Preparation g source config name p) (hg : g.Built)
    (hlength : p.metadata.length < 2 ^ 64) (hstored : p.table.size < 2 ^ 64) :
    p.metadata.FiniteNumbers := by
  obtain ⟨-, -, hrate, -, hmeans⟩ := h.metadata_known
  have hsize : p.metadata.storedLength = p.table.size := by rw [h.metadata_eq]
  refine ⟨?_, ?_, ?_, hlength, hsize ▸ hstored⟩
  · rw [hrate]
    exact Binary64.isFinite_of_isRate (hg.isRate _ (Schema.mem_of_table_eq_ok h.known))
  · rw [h.metadata_eq]
    refine EncodedColumn.isFinite_nullValues h.encodes.2 ?_
    rw [h.blank_eq]
    nofun
  · rintro ⟨id, mean⟩ he
    rw [hmeans, ← SortedMap.get?_eq_some] at he
    obtain ⟨m, hm, heq⟩ := List.mem_map.mp (SortedMap.mem_of_get?_ofList he)
    cases heq
    exact h.isFinite_mean hm

end Preparation

end ApproxQuery
