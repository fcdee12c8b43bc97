import ApproxQuery.Proofs.Prepare.CompleteData
import ApproxQuery.Proofs.Sample.Complete

/-!
# Partners in complete data

In complete data the rows that a row fans out to are those that its multiplier counts, and a row
looks up at most one row.
-/

namespace ApproxQuery

namespace Expansion

theorem length_partners (keys : List (Value ℚ)) (v : Value ℚ) :
    (partners keys v).length = Multiplier.count keys v := by
  unfold partners Multiplier.count
  rw [List.length_map, ← List.countP_eq_length_filter]
  conv_rhs => rw [← List.zipIdx_map_fst 0 keys, List.countP_map]
  rfl

end Expansion

namespace Sampler.BlockOf

variable {g : Schema ℚ} {source : RawSource ℚ} {config : PreparationConfig ℚ} {joined : Bool}
  {name : String} {b : TableBlock ℚ}

theorem decodedKeys_eq (h : BlockOf g source config joined name b)
    (hdata : CompleteData g source config) {raw : RawTable ℚ} (hraw : source name = .ok raw)
    {key : String} {values : List (Value ℚ)} (hvalues : raw.column? key = some values)
    (hstored : b.Stores key) :
    List.Forall₂ (fun k v => (k == v) = true) (b.decodedKeys key) values := by
  have hname := h.name_eq
  obtain ⟨p, t, hp, ht, hb⟩ := h.prepared
  obtain ⟨prep⟩ := Schema.prepare_eq_ok hp
  obtain ⟨-, htable, hmetadata, -⟩ := TableBlock.ofTable_eq_ok hb
  cases hraw.symm.trans prep.source_eq
  obtain ⟨place, hplace, -⟩ := (RawTable.column?_eq_some (prep.nodup_columns hdata)).mp hvalues
  have hmem : qualify name key ∈ p.table.columns := by
    rw [TableBlock.Stores, hname, htable] at hstored
    exact hstored
  obtain ⟨numbers, values', hcolumn, hvalues', hdecoded⟩ :=
    prep.decoded_column hdata (List.mem_of_getElem? hplace) hmem
  cases hvalues.symm.trans hvalues'
  rw [TableBlock.decodedKeys, hname, htable, hmetadata, hcolumn, Option.getD_some,
    List.forall₂_map_left_iff]
  exact hdecoded

section

variable (h : BlockOf g source config joined name b) (hdata : CompleteData g source config)
  {r : Relationship} (hr : r ∈ g.references name)
include h hdata hr

theorem length_partners_le_one (hstored : b.Stores r.targetAttribute) (v : Value ℚ) :
    (Expansion.partners (b.decodedKeys r.targetAttribute) v).length ≤ 1 := by
  obtain ⟨p, t, hp, ht, hb⟩ := h.prepared
  obtain ⟨prep⟩ := Schema.prepare_eq_ok hp
  obtain ⟨m, _, _, _, _, keys, _, _, hkeys, hunique, _⟩ := prep.exists_multiplier hdata hr
  have hdecoded := h.decodedKeys_eq hdata prep.source_eq hkeys hstored
  rw [Expansion.length_partners, Multiplier.count_congr hdecoded (Value.beq_refl v)]
  exact Multiplier.count_le_one hunique.distinct v

/-- The multiplier of each row is the number of rows of the source that its key meets. -/
theorem exists_multiplier {s : String} {c : TableBlock ℚ} (hc : BlockOf g source config joined s c)
    (hs : r.source = s) (hstored : b.Stores r.targetAttribute)
    (hstored' : c.Stores r.sourceAttribute) :
    ∃ place, (place, r.definedMultiplier.qualified) ∈ b.multipliers ∧
      b.columnName place = r.multiplier.qualified ∧
      ∀ (row : Nat) v, (b.decodedKeys r.targetAttribute)[row]? = some v →
        b.number row place = (Expansion.partners (c.decodedKeys r.sourceAttribute) v).length := by
  obtain ⟨p, t, hp, ht, hb⟩ := h.prepared
  obtain ⟨prep⟩ := Schema.prepare_eq_ok hp
  obtain ⟨-, htable, -⟩ := TableBlock.ofTable_eq_ok hb
  obtain ⟨m, hm, hmr, raw, references, keys, hraw, hreferences, hkeys, -, hcounts⟩ :=
    prep.exists_multiplier hdata hr
  have hdecoded := h.decodedKeys_eq hdata prep.source_eq hkeys hstored
  have hdecoded' := hc.decodedKeys_eq hdata (hs ▸ hraw) hreferences hstored'
  have hrows : prep.raw.size ≠ 0 := by
    rw [TableBlock.Stores, htable] at hstored
    exact prep.size_ne_zero_of_mem_columns hstored
  obtain ⟨place, hplace, hcolumn⟩ := prep.columnIndex?_multiplier hdata hm hrows
  rw [hmr] at hplace
  have hname := Schema.name_of_table ht
  obtain ⟨hindex, hfound, _⟩ := List.findIdx?_eq_some_iff_getElem.mp hplace
  have hget : p.table.columns[place]? = some r.multiplier.qualified := by
    rw [List.getElem?_eq_getElem hindex, beq_iff_eq.mp hfound]
  refine ⟨place, ?_, ?_, fun row v hv => ?_⟩
  · obtain ⟨hlisted, htarget⟩ := Schema.mem_references.mp hr
    refine TableBlock.mem_multipliers hb hdata.built.linked hlisted (htarget ▸ ht) ?_ hplace
    exact hdata.relevant t (Schema.mem_of_table_eq_ok ht) r (hname.symm ▸ hr)
  · rw [TableBlock.columnName, htable, List.getD_eq_getElem?_getD, hget, Option.getD_some]
  · obtain ⟨hlt, rfl⟩ := List.getElem?_eq_some_iff.mp hv
    have hlt' : row < keys.length := hdecoded.length_eq ▸ hlt
    have heq : ((b.decodedKeys r.targetAttribute)[row] == keys[row]) = true := hdecoded.get hlt hlt'
    rw [Expansion.length_partners, Multiplier.count_congr hdecoded' heq]
    simp [TableBlock.number, htable, hcolumn, hcounts, List.getElem?_eq_getElem hlt']

end

end Sampler.BlockOf

end ApproxQuery
