import ApproxQuery.Proofs.Schema.Built
import ApproxQuery.Schema.Indexed

/-!
# The indexes of a schema

Whatever calls are made on the empty schema, refused ones included, its indexes hold the positions of
its tables and relationships, its tables list the relationships at their ends, and no call fails but
by refusing, which changes nothing. An indexed schema works as the plain one without its indexes.
-/

namespace ApproxQuery

theorem find?_eq_some_of_nodup {α : Type} {f : α → String} {as : List α} {a : α}
    (h : (as.map f).Nodup) (ha : a ∈ as) : as.find? (f · == f a) = some a := by
  cases hfind : as.find? (f · == f a) with
  | none => exact absurd (List.find?_eq_none.mp hfind a ha) (by simp)
  | some b =>
    have hb := List.find?_some hfind
    exact congrArg some
      (List.inj_on_of_nodup_map h (List.mem_of_find?_eq_some hfind) ha (beq_iff_eq.mp hb))

theorem mapM_mapError {α β ε δ : Type} {f : α → Except ε β} (k : ε → δ) (as : List α) :
    as.mapM (fun a => (f a).mapError k) = (as.mapM f).mapError k := by
  induction as with
  | nil => rfl
  | cons a as ih =>
    rw [List.mapM_cons, List.mapM_cons, ih]
    cases f a with
    | error e => rfl
    | ok b => cases as.mapM f <;> rfl

namespace Table

variable {N : Type}

@[simp] theorem Setting.apply_name (t : Table N) (s : Setting N) : (s.apply t).name = t.name := by
  cases s <;> rfl

@[simp] theorem Setting.apply_incoming (t : Table N) (s : Setting N) :
    (s.apply t).incoming = t.incoming := by
  cases s <;> rfl

@[simp] theorem Setting.apply_outgoing (t : Table N) (s : Setting N) :
    (s.apply t).outgoing = t.outgoing := by
  cases s <;> rfl

variable [Scalar N] (name : String) (settings : List (Setting N))

/-- Settings leave the name as it is and note no relationship. -/
theorem configured_spec : (configured name settings).name = name ∧
    (configured name settings).incoming = [] ∧ (configured name settings).outgoing = [] := by
  have hfold (t : Table N) : (settings.foldl Setting.apply t).name = t.name ∧
      (settings.foldl Setting.apply t).incoming = t.incoming ∧
      (settings.foldl Setting.apply t).outgoing = t.outgoing := by
    induction settings generalizing t with
    | nil => exact ⟨rfl, rfl, rfl⟩
    | cons s settings ih => simpa using ih (s.apply t)
  exact hfold (named name)

end Table

/-- The index holds the position of each name of the list, and nothing else. -/
def Indexes (index : SortedMap String Nat) (names : List String) : Prop :=
  ∀ name i, index.get? name = some i ↔ names[i]? = some name

namespace Indexes

variable {index : SortedMap String Nat} {names : List String} {name : String} {i : Nat}

theorem empty : Indexes ∅ [] := fun _ _ => by simp

theorem nodup (h : Indexes index names) : names.Nodup := by
  refine List.nodup_iff_getElem?_ne_getElem?.mpr fun i j hij hj heq => ?_
  have hi := (h _ i).mpr (List.getElem?_eq_getElem (hij.trans hj))
  have hj := (h _ j).mpr (heq ▸ List.getElem?_eq_getElem (hij.trans hj))
  exact hij.ne (Option.some.inj (hi.symm.trans hj))

theorem get?_eq_none (h : Indexes index names) : index.get? name = none ↔ name ∉ names := by
  rw [Option.eq_none_iff_forall_ne_some, List.mem_iff_getElem?, not_exists]
  exact forall_congr' fun i => not_congr (h name i)

theorem insert (h : Indexes index names) (hname : name ∉ names) :
    Indexes (index.insert name names.length) (names ++ [name]) := by
  intro other i
  have hlast : (names ++ [name])[i]? = some other ↔
      names[i]? = some other ∨ i = names.length ∧ name = other := by
    rcases lt_trichotomy i names.length with hi | rfl | hi
    · simp [List.getElem?_append_left hi, hi.ne]
    · simp
    · rw [List.getElem?_eq_none (by simpa using hi), List.getElem?_eq_none hi.le]
      simp [hi.ne']
  rw [hlast]
  rcases eq_or_ne other name with rfl | hother
  · have hmissing : names[i]? ≠ some other := fun hi => hname (List.mem_of_getElem? hi)
    simp [hmissing, eq_comm]
  · rw [SortedMap.get?_insert_of_ne hother, h other i]
    simp [hother.symm]

/-- The index finds what a search by name finds. -/
theorem find?_cases {α : Type} {f : α → String} {as : List α} (h : Indexes index (as.map f))
    (name : String) : (index.get? name = none ∧ as.find? (f · == name) = none) ∨
      ∃ i a, index.get? name = some i ∧ as[i]? = some a ∧ f a = name ∧
        as.find? (f · == name) = some a := by
  cases hi : index.get? name with
  | none =>
    refine .inl ⟨rfl, List.find?_eq_none.mpr fun a ha hname => h.get?_eq_none.mp hi ?_⟩
    exact beq_iff_eq.mp hname ▸ List.mem_map_of_mem ha
  | some i =>
    have hat := (h name i).mp hi
    rw [List.getElem?_map] at hat
    obtain ⟨a, ha, rfl⟩ := Option.map_eq_some_iff.mp hat
    exact .inr ⟨i, a, rfl, ha, rfl, find?_eq_some_of_nodup h.nodup (List.mem_of_getElem? ha)⟩

theorem contains_eq {α : Type} {f : α → String} {as : List α} (h : Indexes index (as.map f))
    (name : String) : index.contains name = (as.find? (f · == name)).isSome := by
  unfold SortedMap.contains
  rcases h.find?_cases name with ⟨hi, hfind⟩ | ⟨i, a, hi, -, -, hfind⟩
  · rw [hi, hfind]
    rfl
  · rw [hi, hfind]
    rfl

end Indexes

namespace IndexedSchema

variable {N : Type} {g : IndexedSchema N} {name : String} {i : Nat} {t : Table N}

/-- Both indexes hold the positions of their lists. -/
structure Indexed (g : IndexedSchema N) : Prop where
  tables : Indexes g.tableIndex (g.tables.map Table.name)
  relationships : Indexes g.relationshipIndex (g.relationships.map Relationship.identifier)

/-- Changes the tables of a name. -/
def change (name : String) (f : Table N → Table N) (ts : List (Table N)) : List (Table N) :=
  ts.map fun t => if t.name == name then f t else t

theorem map_name_change (name : String) {f : Table N → Table N} (hf : ∀ t, (f t).name = t.name)
    (ts : List (Table N)) : (change name f ts).map Table.name = ts.map Table.name := by
  unfold change
  rw [List.map_map]
  refine List.map_congr_left fun t _ => ?_
  by_cases hname : t.name = name
  · simp [hname, hf]
  · simp [hname]

theorem set_eq_change {ts : List (Table N)} (hnodup : (ts.map Table.name).Nodup)
    (hi : ts[i]? = some t) (f : Table N → Table N) : ts.set i (f t) = change t.name f ts := by
  refine List.ext_getElem? fun j => ?_
  unfold change
  rw [List.getElem?_map]
  rcases eq_or_ne i j with rfl | hij
  · rw [List.getElem?_set_self (List.getElem?_eq_some_iff.mp hi).1, hi]
    simp
  · rw [List.getElem?_set_ne hij]
    cases hj : ts[j]? with
    | none => rfl
    | some u =>
      have hne : u.name ≠ t.name := fun heq => by
        have hlength : i < (ts.map Table.name).length := by
          simpa using (List.getElem?_eq_some_iff.mp hi).1
        exact hij ((List.getElem?_inj hlength hnodup).mp (by simp [hi, hj, heq]))
      simp [hne]

theorem run_checkAttribute (hi : g.tables[i]? = some t) (name : String) :
    (checkAttribute i name).run.run g =
      (if t.accepts name then .ok () else .error (.refused (.unknownAttribute t.name name)), g) := by
  have htable : g.tableAt i = .ok t := by simp [tableAt, hi]
  rw [checkAttribute, Update.run_get_bind, htable, Update.run_bind_ok Update.run_lift]
  cases t.accepts name <;> rfl

theorem run_modifyTable (hnodup : (g.tables.map Table.name).Nodup)
    (hi : (g.tables.map Table.name)[i]? = some name) (f : Table N → Table N) :
    (modifyTable i f).run.run g = (.ok (), { g with tables := change name f g.tables }) := by
  rw [List.getElem?_map] at hi
  obtain ⟨t, ht, rfl⟩ := Option.map_eq_some_iff.mp hi
  have htable : g.tableAt i = .ok t := by simp [tableAt, ht]
  rw [← set_eq_change hnodup ht]
  rw [modifyTable, Update.run_get_bind, htable, Update.run_bind_ok Update.run_lift]
  rfl

theorem change_change_eq_link (r : Relationship) (ts : List (Table N)) :
    change r.target (fun t => { t with incoming := t.incoming ++ [r.identifier] })
      (change r.source (fun t => { t with outgoing := t.outgoing ++ [r.identifier] }) ts) =
      ts.map (Schema.link r) := by
  unfold change
  rw [List.map_map]
  refine List.map_congr_left fun t _ => ?_
  unfold Schema.link
  cases hsource : t.name == r.source <;> cases htarget : t.name == r.target <;>
    simp only [Function.comp_apply, hsource, htarget, Bool.false_eq_true, if_true, if_false]

theorem run_register {j : Nat} {r : Relationship} (hnodup : (g.tables.map Table.name).Nodup)
    (hi : (g.tables.map Table.name)[i]? = some r.source)
    (hj : (g.tables.map Table.name)[j]? = some r.target) :
    (register i j r).run.run g = (.ok (), { g with
      tables := g.tables.map (Schema.link r), relationships := g.relationships ++ [r]
      relationshipIndex := g.relationshipIndex.insert r.identifier g.relationships.length }) := by
  have hsource := run_modifyTable hnodup hi fun t => { t with outgoing := t.outgoing ++ [r.identifier] }
  have hkept := map_name_change r.source (f := fun t : Table N =>
    { t with outgoing := t.outgoing ++ [r.identifier] }) (fun _ => rfl) g.tables
  have htarget := run_modifyTable (g := { g with tables := change r.source _ g.tables })
    (hkept ▸ hnodup) (hkept ▸ hj) fun t => { t with incoming := t.incoming ++ [r.identifier] }
  rw [register, Update.run_bind_ok hsource, Update.run_bind_ok htarget,
    change_change_eq_link]
  rfl

namespace Indexed

variable (h : g.Indexed)
include h

theorem containsTable_eq (name : String) : g.containsTable name = g.plain.containsTable name :=
  h.tables.contains_eq name

/-- A table has a position exactly if the plain schema has the table, which then stands there. -/
theorem position_cases (name : String) :
    (g.position name = .error (.refused (.unknownTable name)) ∧
      g.plain.table name = .error (.unknownTable name)) ∨
    ∃ i t, g.position name = .ok i ∧ g.tables[i]? = some t ∧ t.name = name ∧
      g.plain.table name = .ok t := by
  unfold position Schema.table Schema.table? plain
  rcases h.tables.find?_cases name with ⟨hi, hfind⟩ | ⟨i, t, hi, ht, hname, hfind⟩
  · rw [hi, hfind]
    exact .inl ⟨rfl, rfl⟩
  · rw [hi, hfind]
    exact .inr ⟨i, t, rfl, ht, hname, rfl⟩

theorem table_eq (name : String) : g.table name = (g.plain.table name).mapError .refused := by
  unfold table
  rcases h.position_cases name with ⟨hi, hplain⟩ | ⟨i, t, hi, ht, -, hplain⟩
  · rw [hi, hplain]
    rfl
  · simp only [hi, hplain, bind, Except.bind, tableAt, ht]
    rfl

theorem relationship_eq (id : String) :
    g.relationship id = (g.plain.relationship id).mapError .refused := by
  unfold relationship Schema.relationship Schema.relationship?
  rcases h.relationships.find?_cases id with ⟨hi, hfind⟩ | ⟨i, r, hi, hr, -, hfind⟩
  · simp only [hi, plain, hfind]
    rfl
  · simp only [hi, plain, hfind, relationshipAt, hr]
    rfl

theorem run_addTable [Scalar N] (t : Table N) : (addTable t).run.run g =
    match g.plain.addTable t with
    | .ok p => (.ok (), { g with
        tables := p.tables, tableIndex := g.tableIndex.insert t.name g.tables.length })
    | .error e => (.error (.refused e), g) := by
  unfold addTable Schema.addTable
  rw [Update.run_get_bind, ← h.containsTable_eq]
  cases g.containsTable t.name with
  | true => rfl
  | false =>
    cases Schema.isRate t.sampleRate with
    | false => rfl
    | true =>
      cases t.undeclaredInRules? with
      | some name => rfl
      | none => rfl

/-- What a schema without indexes makes of a relationship between known tables. -/
theorem addRelationship_plain {r : Relationship} {source target : Table N}
    (hsource : g.plain.table r.source = .ok source) (htarget : g.plain.table r.target = .ok target) :
    g.plain.addRelationship r =
      if !source.accepts r.sourceAttribute then
        .error (.unknownAttribute r.source r.sourceAttribute)
      else if !target.accepts r.targetAttribute then
        .error (.unknownAttribute r.target r.targetAttribute)
      else if g.relationshipIndex.contains r.identifier then
        .error (.duplicateRelationship r.identifier)
      else .ok ⟨g.tables.map (Schema.link r), g.relationships ++ [r]⟩ := by
  rw [h.relationships.contains_eq]
  simp only [Schema.addRelationship, hsource, htarget]
  rfl

theorem run_addRelationship (r : Relationship) : (addRelationship r).run.run g =
    match g.plain.addRelationship r with
    | .ok p => (.ok r.identifier, { g with
        tables := p.tables, relationships := p.relationships
        relationshipIndex := g.relationshipIndex.insert r.identifier g.relationships.length })
    | .error e => (.error (.refused e), g) := by
  unfold addRelationship
  rw [Update.run_get_bind]
  rcases h.position_cases r.source with ⟨hi, hplain⟩ | ⟨i, s, hi, hs, hsource, hsourcePlain⟩
  · simp only [hi, Schema.addRelationship, hplain]
    rfl
  rw [hi, Update.run_bind_ok Update.run_lift, Update.run_get_bind]
  rcases h.position_cases r.target with ⟨hj, hplain⟩ | ⟨j, t, hj, ht, htarget, htargetPlain⟩
  · simp only [hj, Schema.addRelationship, hsourcePlain, hplain]
    rfl
  rw [hj, Update.run_bind_ok Update.run_lift]
  have hsourceCheck := run_checkAttribute hs r.sourceAttribute
  have htargetCheck := run_checkAttribute ht r.targetAttribute
  have hregister := run_register (r := r) h.tables.nodup
    (i := i) (by simp [hs, hsource]) (j := j) (by simp [ht, htarget])
  rw [h.addRelationship_plain hsourcePlain htargetPlain]
  rw [hsource] at hsourceCheck
  rw [htarget] at htargetCheck
  cases hsourceAccepts : s.accepts r.sourceAttribute with
  | false =>
    rw [hsourceAccepts] at hsourceCheck
    rw [Update.run_bind_error hsourceCheck]
    rfl
  | true =>
    rw [hsourceAccepts] at hsourceCheck
    rw [Update.run_bind_ok hsourceCheck]
    cases htargetAccepts : t.accepts r.targetAttribute with
    | false =>
      rw [htargetAccepts] at htargetCheck
      rw [Update.run_bind_error htargetCheck]
      rfl
    | true =>
      rw [htargetAccepts] at htargetCheck
      rw [Update.run_bind_ok htargetCheck, Update.run_get_bind]
      cases g.relationshipIndex.contains r.identifier with
      | true => rfl
      | false => exact Update.run_bind_ok hregister

theorem incoming_eq (name : String) :
    g.incoming name = (g.plain.incoming name).mapError .refused := by
  unfold incoming Schema.incoming
  rw [h.table_eq, funext h.relationship_eq]
  cases g.plain.table name with
  | error e => rfl
  | ok t => exact mapM_mapError _ _

theorem outgoing_eq (name : String) :
    g.outgoing name = (g.plain.outgoing name).mapError .refused := by
  unfold outgoing Schema.outgoing
  rw [h.table_eq, funext h.relationship_eq]
  cases g.plain.table name with
  | error e => rfl
  | ok t => exact mapM_mapError _ _

end Indexed

/-- The lists, the indexes and the notes in the tables fit each other. -/
structure Consistent [Scalar N] (g : IndexedSchema N) : Prop where
  names : (g.tables.map Table.name).Nodup
  identifiers : (g.relationships.map Relationship.identifier).Nodup
  tableIndex : ∀ name i, g.tableIndex.get? name = some i ↔
    ∃ t, g.tables[i]? = some t ∧ t.name = name
  relationshipIndex : ∀ id i, g.relationshipIndex.get? id = some i ↔
    ∃ r, g.relationships[i]? = some r ∧ r.identifier = id
  ends : ∀ r ∈ g.relationships,
    (∃ t ∈ g.tables, t.name = r.source) ∧ ∃ t ∈ g.tables, t.name = r.target
  incoming : ∀ t ∈ g.tables,
    t.incoming = (g.relationships.filter (·.target == t.name)).map Relationship.identifier
  outgoing : ∀ t ∈ g.tables,
    t.outgoing = (g.relationships.filter (·.source == t.name)).map Relationship.identifier
  rates : ∀ t ∈ g.tables,
    Scalar.lt 0 t.sampleRate = true ∧ Scalar.le t.sampleRate 1 = true

theorem Indexed.consistent [Scalar N] (h : g.Indexed) (hbuilt : g.plain.Built) : g.Consistent where
  names := h.tables.nodup
  identifiers := h.relationships.nodup
  tableIndex name i := by simpa [Option.map_eq_some_iff] using h.tables name i
  relationshipIndex id i := by simpa [Option.map_eq_some_iff] using h.relationships id i
  ends r hr :=
    ⟨List.mem_map.mp (hbuilt.linked.source r hr), List.mem_map.mp (hbuilt.linked.target r hr)⟩
  incoming := hbuilt.linked.incoming
  outgoing := hbuilt.outgoing
  rates t ht := by simpa [Schema.isRate] using hbuilt.isRate t ht

end IndexedSchema

namespace SchemaCall

variable {N : Type} [Scalar N] {g : IndexedSchema N} {p p' : Schema N} {call : SchemaCall N}

/-- The call on a schema without indexes. -/
def onPlain (p : Schema N) : SchemaCall N → Except SchemaError (Schema N)
  | addTable name settings => p.addTable (Table.configured name settings)
  | addRelationship source sourceAttribute target targetAttribute multiplier? =>
    p.addRelationship (.between source sourceAttribute target targetAttribute multiplier?)

/-- The names of the tables that the call adds, unless it is refused. -/
def newTables : SchemaCall N → List String
  | addTable name _ => [name]
  | addRelationship .. => []

/-- The relationships that the call adds, unless it is refused. -/
def newRelationships : SchemaCall N → List Relationship
  | addTable .. => []
  | addRelationship source sourceAttribute target targetAttribute multiplier? =>
    [.between source sourceAttribute target targetAttribute multiplier?]

theorem built_of_onPlain (h : p.Built) (hcall : call.onPlain p = .ok p') : p'.Built := by
  cases call with
  | addTable name settings =>
    obtain ⟨-, hincoming, houtgoing⟩ := Table.configured_spec name settings
    exact .addTable h hincoming houtgoing hcall
  | addRelationship source sourceAttribute target targetAttribute multiplier? =>
    exact .addRelationship h hcall

theorem appended_of_onPlain (hcall : call.onPlain p = .ok p') :
    p'.tables.map Table.name = p.tables.map Table.name ++ call.newTables ∧
      p'.relationships = p.relationships ++ call.newRelationships := by
  cases call with
  | addTable name settings =>
    obtain ⟨-, -, rfl⟩ := Schema.addTable_eq_ok hcall
    simp [newTables, newRelationships, (Table.configured_spec name settings).1]
  | addRelationship source sourceAttribute target targetAttribute multiplier? =>
    obtain ⟨-, -, -, rfl⟩ := Schema.addRelationship_eq_ok hcall
    exact ⟨by rw [Schema.map_name_link, newTables, List.append_nil], rfl⟩

/-- A call is refused and changes nothing, or it does what it does on the schema without indexes. -/
theorem run_cases (h : g.Indexed) (call : SchemaCall N) :
    (∃ e, call.onPlain g.plain = .error e ∧ call.run g = (.error (.refused e), g)) ∨
    ∃ g' reply, call.onPlain g.plain = .ok g'.plain ∧ call.run g = (.ok reply, g') ∧ g'.Indexed := by
  unfold run
  cases call with
  | addTable name settings =>
    have hrun := h.run_addTable (Table.configured name settings)
    cases hplain : g.plain.addTable (Table.configured name settings) with
    | error e =>
      rw [hplain] at hrun
      exact .inl ⟨e, hplain, Update.run_bind_error hrun⟩
    | ok p =>
      rw [hplain] at hrun
      obtain ⟨hnew, -, rfl⟩ := Schema.addTable_eq_ok hplain
      refine .inr ⟨_, none, ?_, Update.run_bind_ok hrun, ?_, h.relationships⟩
      · exact hplain
      · have htables := h.tables.insert hnew
        simpa [IndexedSchema.plain] using htables
  | addRelationship source sourceAttribute target targetAttribute multiplier? =>
    have hrun := h.run_addRelationship
      (.between source sourceAttribute target targetAttribute multiplier?)
    cases hplain : g.plain.addRelationship
        (.between source sourceAttribute target targetAttribute multiplier?) with
    | error e =>
      rw [hplain] at hrun
      exact .inl ⟨e, hplain, Update.run_bind_error hrun⟩
    | ok p =>
      rw [hplain] at hrun
      obtain ⟨hnew, -, -, rfl⟩ := Schema.addRelationship_eq_ok hplain
      refine .inr ⟨_, _, ?_, Update.run_bind_ok hrun, ?_, ?_⟩
      · exact hplain
      · exact (Schema.map_name_link _ g.tables).symm ▸ h.tables
      · have hrelationships := h.relationships.insert hnew
        simpa [IndexedSchema.plain] using hrelationships

theorem after_indexed (calls : List (SchemaCall N)) :
    (after calls).Indexed ∧ (after calls).plain.Built := by
  have hrun (g : IndexedSchema N) (h : g.Indexed) (hbuilt : g.plain.Built) :
      (calls.foldl (fun g call => (call.run g).2) g).Indexed ∧
        (calls.foldl (fun g call => (call.run g).2) g).plain.Built := by
    induction calls generalizing g with
    | nil => exact ⟨h, hbuilt⟩
    | cons call calls ih =>
      rw [List.foldl_cons]
      rcases run_cases h call with ⟨e, -, hcall⟩ | ⟨g', reply, hplain, hcall, h'⟩
      · rw [hcall]
        exact ih g h hbuilt
      · rw [hcall]
        exact ih g' h' (built_of_onPlain hbuilt hplain)
  exact hrun .empty ⟨.empty, .empty⟩ .empty

/-- After any calls the schema is consistent; a further call fails only by being refused, and then
changes nothing, or it adds at the end; and the relationships at the ends of known tables are found. -/
theorem after_consistent (calls : List (SchemaCall N)) :
    (after calls).Consistent ∧
    (∀ (call : SchemaCall N) fault, (call.run (after calls)).1 = .error fault →
      (call.run (after calls)).2 = after calls ∧ ∃ e, fault = .refused e) ∧
    (∀ (call : SchemaCall N) reply, (call.run (after calls)).1 = .ok reply →
      (call.run (after calls)).2.tables.map Table.name =
        (after calls).tables.map Table.name ++ call.newTables ∧
      (call.run (after calls)).2.relationships =
        (after calls).relationships ++ call.newRelationships) ∧
    ∀ name, (after calls).containsTable name = true →
      (after calls).incoming name =
        .ok ((after calls).relationships.filter (·.target == name)) ∧
      (after calls).outgoing name =
        .ok ((after calls).relationships.filter (·.source == name)) := by
  obtain ⟨h, hbuilt⟩ := after_indexed calls
  refine ⟨h.consistent hbuilt, fun call fault hfault => ?_, fun call reply hreply => ?_,
    fun name hname => ?_⟩
  · rcases run_cases h call with ⟨e, -, hcall⟩ | ⟨g', reply, -, hcall, -⟩
    · rw [hcall] at hfault ⊢
      cases hfault
      exact ⟨rfl, e, rfl⟩
    · rw [hcall] at hfault
      cases hfault
  · rcases run_cases h call with ⟨e, -, hcall⟩ | ⟨g', reply, hplain, hcall, -⟩
    · rw [hcall] at hreply
      cases hreply
    · rw [hcall]
      exact appended_of_onPlain hplain
  · rw [h.containsTable_eq] at hname
    obtain ⟨t, ht⟩ := Option.isSome_iff_exists.mp hname
    have hknown : (after calls).plain.table name = .ok t := by simp [Schema.table, ht]
    rw [h.incoming_eq, h.outgoing_eq, hbuilt.linked.incoming_eq hknown, hbuilt.outgoing_eq hknown]
    exact ⟨rfl, rfl⟩

end SchemaCall

end ApproxQuery
