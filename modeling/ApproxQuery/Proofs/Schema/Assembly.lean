import ApproxQuery.Proofs.Schema.Tree

/-!
# Which relationships can be joined

A path is assembled exactly if each listed relationship has an end that can be reached from the start
along listed relationships. Taking the first relationship that can be joined loses nothing: what is
left when none can be joined has no end among the tables that can be reached.
-/

namespace ApproxQuery

theorem JoinStep.ofJoined?_eq_none {joined : List String} {r : Relationship} :
    ofJoined? joined r = none ↔ r.source ∉ joined ∧ r.target ∉ joined := by
  unfold ofJoined?
  simp only [← List.contains_iff_mem]
  cases joined.contains r.source <;> cases joined.contains r.target <;> simp

theorem JoinStep.relationship_of_ofJoined? {joined : List String} {r : Relationship} {s : JoinStep}
    (h : ofJoined? joined r = some s) : s.relationship = r.identifier := by
  unfold ofJoined? at h
  split at h <;> cases h <;> rfl

namespace JoinPath

variable {N : Type} {g : Schema N} {joined remaining left ids : List String}
  {steps : List JoinStep} {start table : String}

/-- Listed relationships lead from the start to the table, whichever way they point. -/
def Reachable (g : Schema N) (ids : List String) (start table : String) : Prop :=
  Relation.ReflTransGen (Adjacent g ids) start table

/-- The relationship has an end that can be reached. -/
def Reaches (g : Schema N) (ids : List String) (start id : String) : Prop :=
  ∃ r, g.relationship id = .ok r ∧
    (Reachable g ids start r.source ∨ Reachable g ids start r.target)

/-- The relationship is known, and none of its ends is joined. -/
def Apart (g : Schema N) (joined : List String) (id : String) : Prop :=
  ∃ r, g.relationship id = .ok r ∧ r.source ∉ joined ∧ r.target ∉ joined

/-- The step joins the end that its relationship lacks of the joined tables, or none if it has both. -/
def Extends (g : Schema N) (joined : List String) (s : JoinStep) : Prop :=
  ∃ r, g.relationship s.relationship = .ok r ∧
    match s with
    | .fanOut _ new => new = r.source ∧ r.source ∉ joined ∧ r.target ∈ joined
    | .lookup _ new => new = r.target ∧ r.source ∈ joined ∧ r.target ∉ joined
    | .cycle _ => r.source ∈ joined ∧ r.target ∈ joined

/-- The path makes one step for each listed relationship and joins all tables that can be reached. -/
structure IsPlan (g : Schema N) (start : String) (ids : List String) (p : JoinPath) : Prop where
  start_eq : p.start = start
  relationships : (p.steps.map (·.relationship)).Perm ids
  nodup : p.tables.Nodup
  tables : ∀ table, table ∈ p.tables ↔ Reachable g ids start table
  steps : ∀ before s after, p.steps = before ++ s :: after → Extends g (start :: added before) s

/-- What one look through the remaining relationships comes to. -/
inductive Look (g : Schema N) (joined ids : List String) :
    Except SchemaError (Option (JoinStep × List String)) → Prop where
  | step {before after : List String} {id : String} {r : Relationship} {s : JoinStep}
      (split : ids = before ++ id :: after) (apart : ∀ i ∈ before, Apart g joined i)
      (known : g.relationship id = .ok r) (joins : JoinStep.ofJoined? joined r = some s) :
      Look g joined ids (.ok (some (s, before ++ after)))
  | unknown {before after : List String} {id : String} (split : ids = before ++ id :: after)
      (apart : ∀ i ∈ before, Apart g joined i) (missing : g.relationship? id = none) :
      Look g joined ids (.error (.unknownRelationship id))
  | apart (apart : ∀ i ∈ ids, Apart g joined i) : Look g joined ids (.ok none)

theorem takeStep_look (g : Schema N) (joined ids : List String) :
    Look g joined ids (takeStep g joined ids) := by
  induction ids with
  | nil => exact .apart nofun
  | cons id ids ih =>
    cases hr : g.relationship? id with
    | none =>
      have htake : takeStep g joined (id :: ids) = .error (.unknownRelationship id) := by
        simp [takeStep, Schema.relationship, hr, bind, Except.bind]
      exact htake ▸ .unknown (List.nil_append _).symm nofun hr
    | some r =>
      have known : g.relationship id = .ok r := Schema.relationship_eq_ok.mpr hr
      cases hs : JoinStep.ofJoined? joined r with
      | some s =>
        have htake : takeStep g joined (id :: ids) = .ok (some (s, ids)) := by
          simp [takeStep, known, hs, bind, Except.bind]
        have hlook : Look g joined (id :: ids) (.ok (some (s, [] ++ ids))) :=
          .step rfl nofun known hs
        exact htake ▸ hlook
      | none =>
        have htake : takeStep g joined (id :: ids) =
            (takeStep g joined ids).map (·.map fun next => (next.1, id :: next.2)) := by
          simp only [takeStep, known, hs, bind, Except.bind, pure, Except.pure, Except.map]
        have hapart {before : List String} (h : ∀ i ∈ before, Apart g joined i) :
            ∀ i ∈ id :: before, Apart g joined i :=
          List.forall_mem_cons.mpr ⟨⟨r, known, JoinStep.ofJoined?_eq_none.mp hs⟩, h⟩
        rw [htake]
        generalize takeStep g joined ids = next at ih
        cases ih with
        | step split apart known joins =>
          exact .step (congrArg (id :: ·) split) (hapart apart) known joins
        | unknown split apart missing =>
          exact .unknown (congrArg (id :: ·) split) (hapart apart) missing
        | apart apart => exact .apart (hapart apart)

/-- How far the joined tables can be extended: by these steps, with these relationships left over. -/
structure Exhausted (g : Schema N) (joined remaining : List String) (steps : List JoinStep)
    (left : List String) : Prop where
  chain : Chain g joined steps
  apart : ∀ id ∈ left, Apart g (joined ++ added steps) id
  perm : (steps.map (·.relationship) ++ left).Perm remaining
  /-- What is left over stands in the order of the request. -/
  kept : ∀ p : String → Bool, (∀ s ∈ steps, p s.relationship = false) →
    remaining.filter p = left.filter p

theorem joined_step (joined : List String) (s : JoinStep) (steps : List JoinStep) :
    joined ++ added (s :: steps) = joined ++ s.newTable?.toList ++ added steps := by
  rw [added_cons, List.append_assoc]

/-- The first step takes its relationship from where it stands in the request. -/
theorem Exhausted.step {before after : List String} {id : String} {r : Relationship} {s : JoinStep}
    (known : g.relationship id = .ok r) (joins : JoinStep.ofJoined? joined r = some s)
    (h : Exhausted g (joined ++ s.newTable?.toList) (before ++ after) steps left) :
    Exhausted g joined (before ++ id :: after) (s :: steps) left := by
  have hidentifier := Schema.identifier_of_relationship known
  have hrelationship := (JoinStep.relationship_of_ofJoined? joins).trans hidentifier
  refine ⟨.cons (hidentifier ▸ known) joins h.chain, ?_, ?_, ?_⟩
  · rw [joined_step]
    exact h.apart
  · rw [List.map_cons, hrelationship]
    exact (h.perm.cons id).trans List.perm_middle.symm
  · intro p hp
    obtain ⟨hs, hp⟩ := List.forall_mem_cons.mp hp
    rw [hrelationship] at hs
    rw [← h.kept p hp]
    simp [List.filter_append, hs]

theorem length_of_middle {before after : List String} {id : String} {rounds : Nat}
    (h : (before ++ id :: after).length = rounds + 1) : (before ++ after).length = rounds := by
  simp only [List.length_append, List.length_cons] at h ⊢
  omega

theorem exists_exhausted (joined : List String)
    (known : ∀ id ∈ remaining, ∃ r, g.relationship id = .ok r) :
    ∃ steps left, Exhausted g joined remaining steps left ∧
      JoinPath.chain g remaining.length joined remaining =
        if left = [] then .ok steps
        else .error (.noJoinPath (SortedSet.ofList (joined ++ added steps)).toList left) := by
  generalize hrounds : remaining.length = rounds
  induction rounds generalizing joined remaining with
  | zero =>
    cases List.eq_nil_of_length_eq_zero hrounds
    exact ⟨[], [], ⟨.nil, nofun, .nil, fun _ _ => rfl⟩, rfl⟩
  | succ rounds ih =>
    have hlook := takeStep_look g joined remaining
    generalize htake : takeStep g joined remaining = next at hlook
    cases hlook with
    | @step before after id r s split apart hid joins =>
      subst split
      have hknown : ∀ i ∈ before ++ after, ∃ r, g.relationship i = .ok r := fun i hi => by
        refine known i ?_
        rcases List.mem_append.mp hi with hi | hi
        · exact List.mem_append_left _ hi
        · exact List.mem_append_right _ (List.mem_cons_of_mem id hi)
      obtain ⟨steps, left, hmore, hchain⟩ :=
        ih (joined ++ s.newTable?.toList) hknown (length_of_middle hrounds)
      refine ⟨s :: steps, left, hmore.step hid joins, ?_⟩
      rw [JoinPath.chain, htake, joined_step]
      simp only [bind, Except.bind, hchain]
      by_cases hleft : left = []
      · rw [if_pos hleft, if_pos hleft]
        rfl
      · rw [if_neg hleft, if_neg hleft]
    | @unknown before after id split apart missing =>
      obtain ⟨r, hr⟩ := known id (split ▸ List.mem_append_right _ List.mem_cons_self)
      rw [Schema.relationship_eq_ok, missing] at hr
      cases hr
    | apart apart =>
      have hne : remaining ≠ [] := fun hnil => by simp [hnil] at hrounds
      refine ⟨[], remaining, ⟨.nil, ?_, .refl _, fun _ _ => rfl⟩, ?_⟩
      · simpa using apart
      · rw [JoinPath.chain, htake, if_neg hne]
        simp [bind, Except.bind]

/-- The first relationship that is not known stops the assembly, wherever it got to. -/
theorem chain_of_unknown {id : String} (joined : List String)
    (h : remaining.find? (fun i => (g.relationship? i).isNone) = some id) :
    JoinPath.chain g remaining.length joined remaining = .error (.unknownRelationship id) := by
  generalize hrounds : remaining.length = rounds
  induction rounds generalizing joined remaining with
  | zero =>
    cases List.eq_nil_of_length_eq_zero hrounds
    cases h
  | succ rounds ih =>
    have hlook := takeStep_look g joined remaining
    generalize htake : takeStep g joined remaining = next at hlook
    have hskip {before : List String} (apart : ∀ i ∈ before, Apart g joined i) :
        before.find? (fun i => (g.relationship? i).isNone) = none := by
      refine List.find?_eq_none.mpr fun i hi => ?_
      obtain ⟨r, hr, -⟩ := apart i hi
      simp [Schema.relationship_eq_ok.mp hr]
    cases hlook with
    | @step before after i r s split apart hid joins =>
      subst split
      rw [List.find?_append, hskip apart, Option.none_or, List.find?_cons_of_neg
        (by simp [Schema.relationship_eq_ok.mp hid])] at h
      have hfind : (before ++ after).find? (fun i => (g.relationship? i).isNone) = some id := by
        rw [List.find?_append, hskip apart, Option.none_or, h]
      have hnext := ih (joined ++ s.newTable?.toList) hfind (length_of_middle hrounds)
      rw [JoinPath.chain, htake]
      simp only [bind, Except.bind, hnext]
    | @unknown before after i split apart missing =>
      subst split
      rw [List.find?_append, hskip apart, Option.none_or, List.find?_cons_of_pos (by simp [missing])] at h
      cases h
      rw [JoinPath.chain, htake]
      rfl
    | apart apart =>
      rw [hskip apart] at h
      cases h

theorem Chain.reachable (h : Chain g joined steps) (hids : ∀ s ∈ steps, s.relationship ∈ ids)
    (hjoined : ∀ table ∈ joined, Reachable g ids start table) :
    ∀ table ∈ joined ++ added steps, Reachable g ids start table := by
  have hnext {joined : List String} {new : String} {steps : List JoinStep} {s : JoinStep}
      (hjoined : ∀ table ∈ joined, Reachable g ids start table) (hnew : Reachable g ids start new)
      (hs : s.newTable? = some new)
      (ih : (∀ table ∈ joined ++ [new], Reachable g ids start table) →
        ∀ table ∈ joined ++ [new] ++ added steps, Reachable g ids start table) :
      ∀ table ∈ joined ++ added (s :: steps), Reachable g ids start table := by
    rw [added_cons, hs, Option.toList_some, ← List.append_assoc]
    exact ih (List.forall_mem_append.mpr ⟨hjoined, List.forall_mem_singleton.mpr hnew⟩)
  induction h with
  | nil => simpa using hjoined
  | cycle known source target rest ih => exact ih (List.forall_mem_cons.mp hids).2 hjoined
  | @fanOut joined r steps known source target rest ih =>
    obtain ⟨hlisted, hids⟩ := List.forall_mem_cons.mp hids
    have hnew := (hjoined _ target).tail ⟨r.identifier, hlisted, r, known, .inr ⟨rfl, rfl⟩⟩
    exact hnext hjoined hnew rfl (ih hids)
  | @lookup joined r steps known source target rest ih =>
    obtain ⟨hlisted, hids⟩ := List.forall_mem_cons.mp hids
    have hnew := (hjoined _ source).tail ⟨r.identifier, hlisted, r, known, .inl ⟨rfl, rfl⟩⟩
    exact hnext hjoined hnew rfl (ih hids)

theorem Chain.extends_of_eq {before after : List JoinStep} {s : JoinStep} (h : Chain g joined steps)
    (hsteps : steps = before ++ s :: after) : Extends g (joined ++ added before) s := by
  induction before generalizing joined steps with
  | nil =>
    subst hsteps
    rw [added_nil, List.append_nil]
    cases h with
    | @cycle _ r _ known source target rest => exact ⟨r, known, source, target⟩
    | @fanOut _ r _ known source target rest => exact ⟨r, known, rfl, source, target⟩
    | @lookup _ r _ known source target rest => exact ⟨r, known, rfl, source, target⟩
  | cons x before ih =>
    subst hsteps
    rw [added_cons, ← List.append_assoc]
    exact ih h.tail rfl

namespace Exhausted

variable (h : Exhausted g [start] ids steps left)
include h

theorem listed : ∀ s ∈ steps, s.relationship ∈ ids := fun _ hs =>
  h.perm.subset (List.mem_append_left _ (List.mem_map_of_mem hs))

/-- The joined tables are those that can be reached, since no relationship leads out of them. -/
theorem mem_iff : table ∈ start :: added steps ↔ Reachable g ids start table := by
  constructor
  · refine h.chain.reachable h.listed ?_ table
    exact List.forall_mem_singleton.mpr .refl
  · intro hreach
    induction hreach with
    | refl => exact List.mem_cons_self
    | @tail a b _ hadjacent ha =>
      obtain ⟨id, hid, r, known, hends⟩ := hadjacent
      rcases List.mem_append.mp (h.perm.mem_iff.mpr hid) with hmade | hleft
      · obtain ⟨s, hs, rfl⟩ := List.mem_map.mp hmade
        obtain ⟨r', known', source, target⟩ := h.chain.ends_of_mem hs
        cases Except.ok.inj (known.symm.trans known')
        rcases hends with ⟨-, rfl⟩ | ⟨rfl, -⟩
        · exact target
        · exact source
      · obtain ⟨r', known', source, target⟩ := h.apart id hleft
        cases Except.ok.inj (known.symm.trans known')
        rcases hends with ⟨rfl, -⟩ | ⟨-, rfl⟩
        · exact absurd ha source
        · exact absurd ha target

theorem not_reaches {id : String} (hid : id ∈ left) : ¬ Reaches g ids start id := by
  rintro ⟨r, known, hreach⟩
  obtain ⟨r', known', source, target⟩ := h.apart id hid
  cases Except.ok.inj (known.symm.trans known')
  rcases hreach with hreach | hreach
  · exact source (h.mem_iff.mpr hreach)
  · exact target (h.mem_iff.mpr hreach)

theorem reaches {s : JoinStep} (hs : s ∈ steps) : Reaches g ids start s.relationship := by
  obtain ⟨r, known, source, -⟩ := h.chain.ends_of_mem hs
  exact ⟨r, known, .inl (h.mem_iff.mp source)⟩

theorem left_eq_nil : left = [] ↔ ∀ id ∈ ids, Reaches g ids start id := by
  constructor
  · intro hleft id hid
    have hmade := h.perm.mem_iff.mpr hid
    rw [hleft, List.append_nil] at hmade
    obtain ⟨s, hs, rfl⟩ := List.mem_map.mp hmade
    exact h.reaches hs
  · intro hall
    refine List.eq_nil_iff_forall_not_mem.mpr fun id hid => h.not_reaches hid ?_
    exact hall id (h.perm.subset (List.mem_append_right _ hid))

open Classical in
theorem left_eq : left = ids.filter fun id => ¬ Reaches g ids start id := by
  rw [h.kept (fun id => ¬ Reaches g ids start id) fun s hs => by simpa using h.reaches hs]
  exact (List.filter_eq_self.mpr fun id hid => by simpa using h.not_reaches hid).symm

theorem isPlan (hleft : left = []) : IsPlan g start ids ⟨start, steps⟩ where
  start_eq := rfl
  relationships := by simpa [hleft] using h.perm
  nodup := h.chain.nodup (List.nodup_singleton start)
  tables _ := h.mem_iff
  steps _ _ _ hsteps := h.chain.extends_of_eq hsteps

end Exhausted

theorem assemble_eq (hstart : g.containsTable start = true) :
    assemble g start ids =
      (JoinPath.chain g ids.length [start] ids).map fun steps => ⟨start, steps⟩ := by
  obtain ⟨t, ht⟩ := Option.isSome_iff_exists.mp hstart
  have hok : g.table start = .ok t := by simp [Schema.table, ht]
  unfold assemble
  simp only [hok, bind, Except.bind]
  cases JoinPath.chain g ids.length [start] ids <;> rfl

theorem isPlan_of_assemble (known : ∀ id ∈ ids, ∃ r, g.relationship id = .ok r) {p : JoinPath}
    (h : assemble g start ids = .ok p) : IsPlan g start ids p := by
  obtain ⟨steps, left, hex, hchain⟩ := exists_exhausted [start] known
  unfold assemble at h
  obtain ⟨_, _, h⟩ := bind_eq_ok.mp h
  obtain ⟨steps', hsteps, h⟩ := bind_eq_ok.mp h
  cases pure_eq_ok.mp h
  rw [hchain] at hsteps
  by_cases hleft : left = []
  · rw [if_pos hleft] at hsteps
    cases hsteps
    exact hex.isPlan hleft
  · rw [if_neg hleft] at hsteps
    cases hsteps

open Classical in
/-- From a known table, the first unknown relationship is an error; else there is a path exactly if
every relationship has an end that can be reached, and it is a plan; and else the error tells the
tables that can be reached and the relationships that cannot. -/
theorem assemble_decides_joinability (hstart : g.containsTable start = true) (ids : List String) :
    (∀ id, ids.find? (fun i => (g.relationship? i).isNone) = some id →
      assemble g start ids = .error (.unknownRelationship id)) ∧
    ((∀ id ∈ ids, (g.relationship? id).isSome = true) →
      ((∃ p, assemble g start ids = .ok p) ↔ ∀ id ∈ ids, Reaches g ids start id) ∧
      (∀ p, assemble g start ids = .ok p → IsPlan g start ids p) ∧
      ((¬ ∀ id ∈ ids, Reaches g ids start id) → ∃ tables,
        assemble g start ids =
          .error (.noJoinPath tables (ids.filter fun id => ¬ Reaches g ids start id)) ∧
        tables.Pairwise (· < ·) ∧ ∀ table, table ∈ tables ↔ Reachable g ids start table)) := by
  refine ⟨fun id hid => ?_, fun hknown => ?_⟩
  · rw [assemble_eq hstart, chain_of_unknown _ hid]
    rfl
  · have hknown : ∀ id ∈ ids, ∃ r, g.relationship id = .ok r := fun id hid => by
      obtain ⟨r, hr⟩ := Option.isSome_iff_exists.mp (hknown id hid)
      exact ⟨r, Schema.relationship_eq_ok.mpr hr⟩
    obtain ⟨steps, left, hex, hchain⟩ := exists_exhausted [start] hknown
    rw [assemble_eq hstart, hchain, ← hex.left_eq_nil]
    by_cases hleft : left = []
    · rw [if_pos hleft]
      refine ⟨iff_of_true ⟨_, rfl⟩ hleft, fun p hp => ?_, fun hne => absurd hleft hne⟩
      cases hp
      exact hex.isPlan hleft
    · rw [if_neg hleft]
      refine ⟨iff_of_false nofun hleft, nofun, fun _ =>
        ⟨(SortedSet.ofList ([start] ++ added steps)).toList, ?_, ?_, fun table => ?_⟩⟩
      · rw [← hex.left_eq]
        rfl
      · exact (SortedSet.ofList ([start] ++ added steps)).sorted.imp compareOfLessAndEq_eq_lt.mp
      · rw [← hex.mem_iff]
        exact SortedSet.mem_ofList

end JoinPath

/-! Drivers and trucks reference each other; no relationship leads from them to the depots. -/

namespace Fleet

def driven : Relationship := .between "drivers" "truck" "trucks" "id" none

def owned : Relationship := .between "trucks" "owner" "drivers" "id" none

def located : Relationship := .between "depots" "region" "regions" "id" none

def schema : Schema ℚ where
  tables := [
    { Table.named "drivers" with
      attributes := ["id", "truck"], incoming := [owned.identifier], outgoing := [driven.identifier] },
    { Table.named "trucks" with
      attributes := ["id", "owner"], incoming := [driven.identifier], outgoing := [owned.identifier] },
    { Table.named "depots" with attributes := ["id", "region"], outgoing := [located.identifier] },
    { Table.named "regions" with attributes := ["id"], incoming := [located.identifier] }]
  relationships := [driven, owned, located]

def assemble (ids : List String) : Except SchemaError JoinPath :=
  JoinPath.assemble schema "drivers" ids

def Reachable (ids : List String) (table : String) : Prop :=
  JoinPath.Reachable schema ids "drivers" table

def Reaches (ids : List String) (id : String) : Prop :=
  JoinPath.Reaches schema ids "drivers" id

theorem assemble_cycle : assemble [driven.identifier, owned.identifier] =
    .ok ⟨"drivers", [.lookup driven.identifier "trucks", .cycle owned.identifier]⟩ := by
  decide +kernel

theorem assemble_depots : assemble [located.identifier, driven.identifier] =
    .error (.noJoinPath ["drivers", "trucks"] [located.identifier]) := by
  decide +kernel

open Classical in
theorem assemble_decides_joinability_drivers :
    schema.containsTable "drivers" = true ∧
    assemble ["ghost", driven.identifier] = .error (.unknownRelationship "ghost") ∧
    (∀ id ∈ [driven.identifier, owned.identifier],
      Reaches [driven.identifier, owned.identifier] id) ∧
    JoinPath.IsPlan schema "drivers" [driven.identifier, owned.identifier]
      ⟨"drivers", [.lookup driven.identifier "trucks", .cycle owned.identifier]⟩ ∧
    [located.identifier, driven.identifier].filter
      (fun id => ¬ Reaches [located.identifier, driven.identifier] id) = [located.identifier] ∧
    ∀ table, table ∈ ["drivers", "trucks"] ↔
      Reachable [located.identifier, driven.identifier] table := by
  have hstart : schema.containsTable "drivers" = true := by decide +kernel
  have hcycle := (JoinPath.assemble_decides_joinability hstart
    [driven.identifier, owned.identifier]).2 (by decide +kernel)
  have hdepots := (JoinPath.assemble_decides_joinability hstart
    [located.identifier, driven.identifier]).2 (by decide +kernel)
  refine ⟨hstart, ?_, hcycle.1.mp ⟨_, assemble_cycle⟩, hcycle.2.1 _ assemble_cycle, ?_⟩
  · exact (JoinPath.assemble_decides_joinability hstart ["ghost", driven.identifier]).1 "ghost"
      (by decide +kernel)
  · have hapart : ¬ ∀ id ∈ [located.identifier, driven.identifier],
        Reaches [located.identifier, driven.identifier] id := fun hall => by
      obtain ⟨p, hp⟩ := hdepots.1.mpr hall
      cases hp.symm.trans assemble_depots
    obtain ⟨tables, herror, -, hmem⟩ := hdepots.2.2 hapart
    obtain ⟨htables, hleft⟩ := SchemaError.noJoinPath.inj (Except.error.inj
      (herror.symm.trans assemble_depots))
    exact ⟨hleft, fun table => htables ▸ hmem table⟩

end Fleet

end ApproxQuery
