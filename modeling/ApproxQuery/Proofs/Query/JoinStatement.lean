import ApproxQuery.Proofs.Query.Joinability

/-!
# Select statements of queries

A query has a statement just if its relationships connect its tables, or if it has a single table and
no relationship. The statement joins the tables of the query along a tree, each to one before it, and
filters by the equations of the other relationships and by the conditions.
-/

namespace ApproxQuery

open JoinPath

variable {N : Type} {g : Schema N}

namespace JoinPath

variable {ids : List String} {p : JoinPath} {start : String}

/-- A path joins along some of the relationships and filters by the others. -/
theorem IsPlan.joins_cycles_perm (h : IsPlan g start ids p) :
    (p.joins.map Prod.snd ++ p.cycles).Perm ids := by
  refine List.Perm.trans ?_ h.relationships
  have hsplit := List.filter_append_perm (fun s : JoinStep => s.newTable?.isSome) p.steps
  simp only [Option.not_isSome] at hsplit
  rw [joins, map_snd_joined, cycles, ← List.map_append]
  exact hsplit.map _

end JoinPath

namespace Query

variable {q : Query N} {selected : String} {s : SelectStatement} {p : JoinPath}

/-- Without relationships only a single table is joined. -/
theorem joinPath_eq_ok_of_nil (hnone : q.relationships.toList = []) :
    q.joinPath = .ok p ↔ ∃ t, q.tables.toList = [t] ∧ p = ⟨t, []⟩ := by
  unfold joinPath
  rw [hnone]
  rcases q.tables.toList with _ | ⟨t, _ | ⟨u, tables⟩⟩
  · simp
  · simp [eq_comm]
  · simp

/-- With relationships there is a path just if they are connected, and it is a plan for them. -/
theorem joinPath_eq_ok (hg : q.schema.Linked) (hsome : q.relationships.toList ≠ [])
    (known : ∀ id ∈ q.relationships.toList, ∃ r, q.schema.relationship id = .ok r) :
    ((∃ p, q.joinPath = .ok p) ↔ Connected q.schema q.relationships.toList) ∧
      ∀ p, q.joinPath = .ok p → Chain q.schema [p.start] p.steps ∧
        IsPlan q.schema p.start q.relationships.toList p ∧
        ∀ t, t ∈ p.tables ↔ IsEnd q.schema q.relationships.toList t := by
  obtain ⟨start, hend, hjoin⟩ := joinPath_eq hsome known
  have hpath (p : JoinPath) : q.joinPath = .ok p ↔
      assemble q.schema start q.relationships.toList = .ok p := by
    rw [hjoin, mapError_eq_ok]
  refine ⟨(exists_congr hpath).trans (exists_assemble_iff hg known hend), fun p hp => ?_⟩
  have hp := (hpath p).mp hp
  obtain ⟨rfl, hchain⟩ := assemble_isChain hp
  exact ⟨hchain, isPlan_of_assemble known hp, mem_tables_of_assemble hg known hend hp⟩

variable [Scalar N]

/-- The text selects from the tables of the query, which are joined along the edges of a tree, each on
the equation of its relationship. It filters by the equations of the other relationships, and then by
the conditions in their order. -/
structure ReadsAs (q : Query N) (selected text start : String) (es : List Edge)
    (cycles : List Relationship) : Prop where
  tree : Tree [start] es
  tables : (start :: es.map Edge.child).Perm q.tables.toList
  known : ∀ r ∈ es.map (·.relationship) ++ cycles, q.schema.relationship r.identifier = .ok r
  relationships : ((es.map (·.relationship) ++ cycles).map Relationship.identifier).Perm
    q.relationships.toList
  text_eq : text = "SELECT " ++ selected ++ " FROM " ++ start ++
    String.join (es.map fun e => " JOIN " ++ e.child ++ " ON " ++ e.relationship.identifier) ++
    (let clauses := cycles.map Relationship.identifier ++ q.conditions.map Condition.text
     if clauses = [] then "" else " WHERE " ++ String.intercalate " AND " clauses)

/-- There is a statement just for a single table or for tables that the relationships connect. -/
theorem exists_statement_iff (hg : q.schema.Linked) (hq : q.Linked q.schema) :
    (∃ s, q.statement selected = .ok s) ↔
      (q.relationships.toList = [] ∧ ∃ t, q.tables.toList = [t]) ∨
      (q.relationships.toList ≠ [] ∧ Connected q.schema q.relationships.toList ∧
        ∀ t ∈ q.tables, IsEnd q.schema q.relationships.toList t) := by
  have hexists : (∃ s, q.statement selected = .ok s) ↔
      ∃ p, q.joinPath = .ok p ∧ ∀ t ∈ q.tables, t ∈ p.tables := by
    simp only [statement_eq_ok]
    constructor
    · rintro ⟨s, p, hp, htables, rfl⟩
      exact ⟨p, hp, htables⟩
    · rintro ⟨p, hp, htables⟩
      exact ⟨_, p, hp, htables, rfl⟩
  rw [hexists]
  by_cases hids : q.relationships.toList = []
  · simp only [hids, ne_eq, not_true_eq_false, true_and, false_and, or_false]
    simp only [joinPath_eq_ok_of_nil hids]
    constructor
    · rintro ⟨p, ⟨t, ht, -⟩, -⟩
      exact ⟨t, ht⟩
    · rintro ⟨t, ht⟩
      refine ⟨⟨t, []⟩, ⟨t, ht, rfl⟩, fun t' ht' => ?_⟩
      have ht' : t' ∈ [t] := ht ▸ ht'
      exact ht'
  · obtain ⟨hconnected, hplan⟩ := joinPath_eq_ok hg hids hq.known
    simp only [hids, ne_eq, not_false_eq_true, true_and, false_and, false_or]
    rw [← hconnected]
    constructor
    · rintro ⟨p, hp, htables⟩
      exact ⟨⟨p, hp⟩, fun t ht => ((hplan p hp).2.2 t).mp (htables t ht)⟩
    · rintro ⟨⟨p, hp⟩, htables⟩
      exact ⟨p, hp, fun t ht => ((hplan p hp).2.2 t).mpr (htables t ht)⟩

/-- The statement reads off the path of the query. -/
theorem readsAs_of_joinPath (hchain : Chain q.schema [p.start] p.steps)
    (htables : p.tables.Perm q.tables.toList)
    (hplan : (p.joins.map Prod.snd ++ p.cycles).Perm q.relationships.toList)
    (known : ∀ id ∈ q.relationships.toList, ∃ r, q.schema.relationship id = .ok r) :
    ∃ es cycles, q.ReadsAs selected (SelectStatement.text
      ⟨selected, p.start, p.joins, p.cycles ++ q.conditions.map Condition.text⟩) p.start es
        cycles := by
  obtain ⟨htree, hjoins⟩ := hchain.tree_edges
  obtain ⟨cycles, hcycles⟩ := exists_mapM_eq_ok fun id (hid : id ∈ p.cycles) =>
    known id (hplan.subset (List.mem_append_right _ hid))
  have hnames := Schema.map_identifier_of_mapM hcycles
  refine ⟨edges q.schema p.steps, cycles, htree, ?_, ?_, ?_, ?_⟩
  · rw [hchain.map_child_edges]
    exact htables
  · intro r hr
    rcases List.mem_append.mp hr with hr | hr
    · obtain ⟨e, he, rfl⟩ := List.mem_map.mp hr
      exact relationship_of_mem_edges he
    · obtain ⟨id, -, hid⟩ := exists_origin_of_mapM hcycles hr
      rw [Schema.identifier_of_relationship hid, hid]
  · have hids : (edges q.schema p.steps).map (·.relationship.identifier) = p.joins.map Prod.snd := by
      rw [joins, ← hjoins, List.map_map]
      rfl
    rw [List.map_append, hnames, List.map_map]
    exact hids ▸ hplan
  · rw [hnames, SelectStatement.text, joins, ← hjoins, List.map_map]
    rfl

/-- A query has a statement just if it has a single table and no relationship, or if it has
relationships that are connected and all its tables are at their ends. The statement has each of its
tables once, each of its relationships once, to join or to filter, and all of its conditions. -/
theorem statement_joins_query (hg : g.Built) (hq : Built g q) (selected : String) :
    ((∃ s, q.statement selected = .ok s) ↔
      (q.relationships.toList = [] ∧ ∃ t, q.tables.toList = [t]) ∨
      (q.relationships.toList ≠ [] ∧ Connected g q.relationships.toList ∧
        ∀ t ∈ q.tables, IsEnd g q.relationships.toList t)) ∧
    ∀ s, q.statement selected = .ok s →
      ∃ start es cycles, q.ReadsAs selected s.text start es cycles := by
  have hlinked := hq.linked
  obtain rfl : q.schema = g := hlinked.schema
  refine ⟨exists_statement_iff hg.linked hlinked, fun s hs => ?_⟩
  obtain ⟨p, hp, hreached, rfl⟩ := statement_eq_ok.mp hs
  refine ⟨p.start, ?_⟩
  by_cases hids : q.relationships.toList = []
  · obtain ⟨t, ht, rfl⟩ := (joinPath_eq_ok_of_nil hids).mp hp
    exact readsAs_of_joinPath .nil (ht ▸ .refl [t]) (hids ▸ .refl []) hlinked.known
  · obtain ⟨hchain, hplan, hends⟩ := (joinPath_eq_ok hg.linked hids hlinked.known).2 p hp
    refine readsAs_of_joinPath hchain ?_ hplan.joins_cycles_perm hlinked.known
    refine (List.perm_ext_iff_of_nodup hplan.nodup q.tables.nodup).mpr fun t =>
      ⟨fun ht => ?_, hreached t⟩
    obtain ⟨id, hid, r, hr, hend⟩ := (hends t).mp ht
    obtain ⟨r', hr', source, target⟩ := hlinked.ends id hid
    cases hr.symm.trans hr'
    exact hend.elim (fun h => h ▸ source) fun h => h ▸ target

end Query

/-! Of the two relationships between drivers and trucks one joins them and the other filters. -/

namespace Fleet

def counted : Except QueryError (Query ℚ) := do
  let q ← (Query.empty schema .cardinality).addRelationship driven.identifier
  let q ← q.addRelationship owned.identifier
  q.addCondition (.equals ⟨"drivers", "id"⟩ (.int 1))

theorem statement_joins_query_drivers : ∃ q s, counted = .ok q ∧
    Connected schema q.relationships.toList ∧ q.statement "COUNT(*)" = .ok s ∧
    s.text = "SELECT COUNT(*) FROM drivers JOIN trucks ON drivers.truck = trucks.id" ++
      " WHERE trucks.owner = drivers.id AND drivers.id = 1" ∧
    ∃ start es cycles, q.ReadsAs "COUNT(*)" s.text start es cycles := by
  have hrun : (counted.toOption.bind fun q => (q.statement "COUNT(*)").toOption).map
      SelectStatement.text = some ("SELECT COUNT(*) FROM drivers JOIN trucks ON drivers.truck = " ++
        "trucks.id WHERE trucks.owner = drivers.id AND drivers.id = 1") := by decide +kernel
  have hids : (counted.toOption.any fun q => decide (q.relationships.toList ≠ [])) = true := by
    decide +kernel
  obtain ⟨s, hs, htext⟩ := Option.map_eq_some_iff.mp hrun
  obtain ⟨q, hq, hs⟩ := Option.bind_eq_some_iff.mp hs
  have hcounted : counted = .ok q := mem_toOption.mp hq
  have hs : q.statement "COUNT(*)" = .ok s := mem_toOption.mp hs
  have hbuilt : Query.Built schema q := by
    obtain ⟨q₁, h₁, hrest⟩ := bind_eq_ok.mp hcounted
    obtain ⟨q₂, h₂, h₃⟩ := bind_eq_ok.mp hrest
    exact (((Query.Built.empty .cardinality).addRelationship h₁).addRelationship h₂).addCondition h₃
  obtain ⟨hexists, hreads⟩ := Query.statement_joins_query built hbuilt "COUNT(*)"
  have hconnected : Connected schema q.relationships.toList := by
    rcases hexists.mp ⟨s, hs⟩ with ⟨hnone, -⟩ | ⟨-, hconnected, -⟩
    · rw [hq, Option.any_some, decide_eq_true_eq] at hids
      exact absurd hnone hids
    · exact hconnected
  exact ⟨q, s, hcounted, hconnected, hs, htext, hreads s hs⟩

end Fleet

end ApproxQuery
