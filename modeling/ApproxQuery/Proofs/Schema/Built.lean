import ApproxQuery.Proofs.Schema.Chain

/-!
# Schemas made by additions

In a schema that is built by adding tables and relationships, names tell tables and relationships
apart, and each table lists the relationships that reference it.
-/

namespace ApproxQuery.Schema

variable {N : Type} {g : Schema N}

/-- The schema results from additions to the empty one. -/
inductive Built [Scalar N] : Schema N → Prop where
  | empty : Built .empty
  | addTable {g g' : Schema N} {t : Table N} (built : Built g) (incoming : t.incoming = [])
      (outgoing : t.outgoing = []) (added : g.addTable t = .ok g') : Built g'
  | addRelationship {g g' : Schema N} {r : Relationship} (built : Built g)
      (added : g.addRelationship r = .ok g') : Built g'

/-- Names tell tables and relationships apart, and the tables list their relationships. -/
structure Linked (g : Schema N) : Prop where
  names : (g.tables.map Table.name).Nodup
  identifiers : (g.relationships.map Relationship.identifier).Nodup
  incoming : ∀ t ∈ g.tables,
    t.incoming = (g.relationships.filter (·.target == t.name)).map Relationship.identifier
  source : ∀ r ∈ g.relationships, r.source ∈ g.tables.map Table.name
  target : ∀ r ∈ g.relationships, r.target ∈ g.tables.map Table.name

theorem linked_empty : Linked (.empty : Schema N) :=
  ⟨List.nodup_nil, List.nodup_nil, by simp [Schema.empty], by simp [Schema.empty], by simp [Schema.empty]⟩

theorem containsTable_eq_false {name : String} (h : g.containsTable name = false) :
    name ∉ g.tables.map Table.name := by
  intro hmem
  obtain ⟨t, ht, rfl⟩ := List.mem_map.mp hmem
  have hnone : g.tables.find? (·.name == t.name) = none := by
    simpa [containsTable, table?] using h
  exact absurd (List.find?_eq_none.mp hnone t ht) (by simp)

theorem mem_of_table_eq_ok {name : String} {t : Table N} (h : g.table name = .ok t) : t ∈ g.tables := by
  unfold table at h
  split at h
  · rename_i u hu
    cases h
    exact List.mem_of_find?_eq_some hu
  · cases h

theorem addTable_eq_ok [Scalar N] {g' : Schema N} {t : Table N} (h : g.addTable t = .ok g') :
    t.name ∉ g.tables.map Table.name ∧ isRate t.sampleRate = true ∧
      g' = { g with tables := g.tables ++ [t] } := by
  unfold Schema.addTable at h
  split at h
  · cases h
  · rename_i hnew
    split at h
    · cases h
    · rename_i hrate
      split at h
      · cases h
      · cases h
        exact ⟨containsTable_eq_false (Bool.not_eq_true _ ▸ hnew), by simpa using hrate, rfl⟩

theorem addRelationship_eq_ok {g' : Schema N} {r : Relationship} (h : g.addRelationship r = .ok g') :
    r.identifier ∉ g.relationships.map Relationship.identifier ∧
      r.source ∈ g.tables.map Table.name ∧ r.target ∈ g.tables.map Table.name ∧
      g' = ⟨g.tables.map (link r), g.relationships ++ [r]⟩ := by
  unfold Schema.addRelationship at h
  obtain ⟨source, hsource, h⟩ := bind_eq_ok.mp h
  obtain ⟨target, htarget, h⟩ := bind_eq_ok.mp h
  split at h
  · cases h
  · split at h
    · cases h
    · split at h
      · cases h
      · rename_i hnew
        cases h
        refine ⟨?_, name_of_table hsource ▸ List.mem_map_of_mem (mem_of_table_eq_ok hsource),
          name_of_table htarget ▸ List.mem_map_of_mem (mem_of_table_eq_ok htarget), rfl⟩
        intro hmem
        obtain ⟨s, hs, heq⟩ := List.mem_map.mp hmem
        refine hnew (List.find?_isSome.mpr ⟨s, hs, ?_⟩)
        exact beq_iff_eq.mpr heq

theorem Linked.addTable [Scalar N] {g' : Schema N} {t : Table N} (h : g.Linked) (hin : t.incoming = [])
    (hadd : g.addTable t = .ok g') : g'.Linked := by
  obtain ⟨hnot, -, rfl⟩ := addTable_eq_ok hadd
  refine ⟨?_, h.identifiers, ?_, ?_, ?_⟩
  · rw [List.map_append, List.map_singleton, List.nodup_append_comm]
    exact List.nodup_cons.mpr ⟨hnot, h.names⟩
  · intro u hu
    rcases List.mem_append.mp hu with hu | hu
    · exact h.incoming u hu
    · cases List.mem_singleton.mp hu
      have hnone : g.relationships.filter (·.target == t.name) = [] := by
        refine List.filter_eq_nil_iff.mpr fun r hr heq => hnot ?_
        exact beq_iff_eq.mp heq ▸ h.target r hr
      rw [hin, hnone, List.map_nil]
  · intro r hr
    rw [List.map_append]
    exact List.mem_append_left _ (h.source r hr)
  · intro r hr
    rw [List.map_append]
    exact List.mem_append_left _ (h.target r hr)

theorem map_name_link (r : Relationship) (ts : List (Table N)) :
    (ts.map (link r)).map Table.name = ts.map Table.name := by
  rw [List.map_map]
  rfl

theorem Linked.addRelationship {g' : Schema N} {r : Relationship} (h : g.Linked)
    (hadd : g.addRelationship r = .ok g') : g'.Linked := by
  obtain ⟨hnot, hsource, htarget, rfl⟩ := addRelationship_eq_ok hadd
  refine ⟨?_, ?_, ?_, ?_, ?_⟩
  · rw [map_name_link]
    exact h.names
  · rw [List.map_append, List.map_singleton, List.nodup_append_comm]
    exact List.nodup_cons.mpr ⟨hnot, h.identifiers⟩
  · intro u hu
    obtain ⟨t, ht, rfl⟩ := List.mem_map.mp hu
    have hold := h.incoming t ht
    simp only [link, List.filter_append, List.map_append, hold]
    by_cases hname : t.name = r.target
    · simp [hname]
    · simp [hname, Ne.symm hname]
  · intro s hs
    rw [map_name_link]
    rcases List.mem_append.mp hs with hs | hs
    · exact h.source s hs
    · cases List.mem_singleton.mp hs
      exact hsource
  · intro s hs
    rw [map_name_link]
    rcases List.mem_append.mp hs with hs | hs
    · exact h.target s hs
    · cases List.mem_singleton.mp hs
      exact htarget

theorem Built.linked [Scalar N] (h : g.Built) : g.Linked := by
  induction h with
  | empty => exact linked_empty
  | addTable built incoming outgoing added ih => exact ih.addTable incoming added
  | addRelationship built added ih => exact ih.addRelationship added

theorem Built.outgoing [Scalar N] (h : g.Built) : ∀ t ∈ g.tables,
    t.outgoing = (g.relationships.filter (·.source == t.name)).map Relationship.identifier := by
  induction h with
  | empty => nofun
  | @addTable g g' t built incoming outgoing added ih =>
    obtain ⟨hnot, -, rfl⟩ := addTable_eq_ok added
    intro u hu
    rcases List.mem_append.mp hu with hu | hu
    · exact ih u hu
    · cases List.mem_singleton.mp hu
      have hnone : g.relationships.filter (·.source == t.name) = [] := by
        refine List.filter_eq_nil_iff.mpr fun r hr heq => hnot ?_
        exact beq_iff_eq.mp heq ▸ built.linked.source r hr
      rw [outgoing, hnone, List.map_nil]
  | @addRelationship g g' r built added ih =>
    obtain ⟨-, -, -, rfl⟩ := addRelationship_eq_ok added
    intro u hu
    obtain ⟨t, ht, rfl⟩ := List.mem_map.mp hu
    simp only [link, List.filter_append, List.map_append, ih t ht]
    by_cases hname : t.name = r.source
    · simp [hname]
    · simp [hname, Ne.symm hname]

theorem Built.isRate [Scalar N] (h : g.Built) : ∀ t ∈ g.tables, isRate t.sampleRate = true := by
  induction h with
  | empty => nofun
  | addTable built incoming outgoing added ih =>
    obtain ⟨-, hrate, rfl⟩ := addTable_eq_ok added
    intro u hu
    rcases List.mem_append.mp hu with hu | hu
    · exact ih u hu
    · exact List.mem_singleton.mp hu ▸ hrate
  | addRelationship built added ih =>
    obtain ⟨-, -, -, rfl⟩ := addRelationship_eq_ok added
    intro u hu
    obtain ⟨t, ht, rfl⟩ := List.mem_map.mp hu
    exact ih t ht

namespace Linked

theorem relationship_eq (h : g.Linked) {r : Relationship} (hr : r ∈ g.relationships) :
    g.relationship r.identifier = .ok r := by
  rw [relationship_eq_ok]
  cases hfind : g.relationship? r.identifier with
  | none => exact absurd (List.find?_eq_none.mp hfind r hr) (by simp)
  | some s =>
    have hid := List.find?_some hfind
    exact congrArg some (List.inj_on_of_nodup_map h.identifiers (List.mem_of_find?_eq_some hfind) hr
      (beq_iff_eq.mp hid))

theorem mem_of_relationship_eq_ok {id : String} {r : Relationship} (h : g.relationship id = .ok r) :
    r ∈ g.relationships :=
  List.mem_of_find?_eq_some (relationship_eq_ok.mp h)

theorem incoming_eq (h : g.Linked) {name : String} {t : Table N} (ht : g.table name = .ok t) :
    g.incoming name = .ok (g.relationships.filter (·.target == name)) := by
  have hname := name_of_table ht
  have hin := h.incoming t (mem_of_table_eq_ok ht)
  rw [hname] at hin
  refine bind_eq_ok.mpr ⟨t, ht, ?_⟩
  rw [hin, mapM_eq_ok, List.forall₂_map_left_iff]
  exact List.forall₂_same.mpr fun r hr => h.relationship_eq (List.mem_of_mem_filter hr)

end Linked

theorem Built.outgoing_eq [Scalar N] (h : g.Built) {name : String} {t : Table N}
    (ht : g.table name = .ok t) :
    g.outgoing name = .ok (g.relationships.filter (·.source == name)) := by
  have hout := h.outgoing t (mem_of_table_eq_ok ht)
  rw [name_of_table ht] at hout
  refine bind_eq_ok.mpr ⟨t, ht, ?_⟩
  rw [hout, mapM_eq_ok, List.forall₂_map_left_iff]
  exact List.forall₂_same.mpr fun r hr => h.linked.relationship_eq (List.mem_of_mem_filter hr)

end ApproxQuery.Schema
