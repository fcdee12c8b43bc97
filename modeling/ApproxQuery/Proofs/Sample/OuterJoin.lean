import ApproxQuery.Proofs.Sample.Blocks
import ApproxQuery.Proofs.Value.Equality

/-!
# Tuples of an outer join

A tuple holds a row or none of each table of a list of blocks. A step of a path gives each tuple the
options for the table that it adds: the rows whose key meets the key of the joined row, or none if
there is no such row.
-/

namespace ApproxQuery

def Relationship.sourceKey (r : Relationship) : AttributeRef := ⟨r.source, r.sourceAttribute⟩

def Relationship.targetKey (r : Relationship) : AttributeRef := ⟨r.target, r.targetAttribute⟩

/-- The attribute is a key of a listed relationship. -/
def Schema.KeyOf {N : Type} (g : Schema N) (ids : List String) (a : AttributeRef) : Prop :=
  ∃ id ∈ ids, ∃ r, g.relationship id = .ok r ∧ (a = r.sourceKey ∨ a = r.targetKey)

namespace Expansion

variable {N : Type} [Scalar N] {bs : List (TableBlock N)} {joined rest : List String}
  {a b : AttributeRef} {t : JoinTuple} {table : String}

def placeOf? (bs : List (TableBlock N)) (table : String) : Option Nat :=
  bs.findIdx? (·.name == table)

/-- The row that a tuple holds of a table. -/
def rowIn (bs : List (TableBlock N)) (t : JoinTuple) (table : String) : Option Nat :=
  (placeOf? bs table).bind fun place => (t[place]?).join

/-- The decoded values of a key attribute, in the order of the rows of its table. -/
def keysOf (bs : List (TableBlock N)) (a : AttributeRef) : List (Value N) :=
  ((placeOf? bs a.table).bind (bs[·]?)).elim [] fun b => b.decodedKeys a.name

/-- The keys of the two rows are equal and not null. -/
def Meets (bs : List (TableBlock N)) (a b : AttributeRef) (i j : Nat) : Prop :=
  ∃ v w, (keysOf bs a)[i]? = some v ∧ (keysOf bs b)[j]? = some w ∧ v.isNull = false ∧
    (v == w) = true

theorem Meets.symm {i j : Nat} (h : Meets bs a b i j) : Meets bs b a j i := by
  obtain ⟨v, w, hv, hw, hnull, heq⟩ := h
  exact ⟨w, v, hw, hv, Value.isNull_eq_of_beq heq ▸ hnull, Value.beq_comm v w ▸ heq⟩

/-- What an outer join from the one key to the other may hold of the table that it adds. -/
def Partner (bs : List (TableBlock N)) (joined new : AttributeRef) (t : JoinTuple) :
    Option Nat → Prop
  | some j => ∃ i, rowIn bs t joined.table = some i ∧ Meets bs joined new i j
  | none => ∀ i, rowIn bs t joined.table = some i → ∀ j, ¬ Meets bs joined new i j

/-- The rows whose key meets that of the given row. -/
def partnersOf (bs : List (TableBlock N)) (joined new : AttributeRef) (i : Nat) : List Nat :=
  ((keysOf bs joined)[i]?).elim [] (partners (keysOf bs new))

/-- The rows, or none if there is no row. -/
def orMissing : List Nat → List (Option Nat)
  | [] => [none]
  | js => js.map some

/-- What a step puts in the place of the table that it adds. -/
def options (bs : List (TableBlock N)) (joined new : AttributeRef) (t : JoinTuple) :
    List (Option Nat) :=
  orMissing ((rowIn bs t joined.table).elim [] (partnersOf bs joined new))

theorem mem_partners {keys : List (Value N)} {v : Value N} {j : Nat} :
    j ∈ partners keys v ↔ ∃ k, keys[j]? = some k ∧ k.isNull = false ∧ (k == v) = true := by
  simp [partners, List.mem_zipIdx_iff_getElem?]

theorem nodup_partners (keys : List (Value N)) (v : Value N) : (partners keys v).Nodup := by
  have hsub : (partners keys v).Sublist (List.range' 0 keys.length) := by
    rw [← List.zipIdx_map_snd 0 keys]
    exact List.filter_sublist.map Prod.snd
  exact (List.nodup_range' (s := 0) 1).sublist hsub

theorem mem_partnersOf {i j : Nat} : j ∈ partnersOf bs a b i ↔ Meets bs a b i j := by
  unfold partnersOf
  cases hv : (keysOf bs a)[i]? with
  | none => simp [Meets, hv]
  | some v =>
    rw [Option.elim_some, mem_partners]
    constructor
    · rintro ⟨w, hw, hnull, heq⟩
      exact ⟨v, w, hv, hw, Value.isNull_eq_of_beq heq ▸ hnull, Value.beq_comm w v ▸ heq⟩
    · rintro ⟨v', w, hv', hw, hnull, heq⟩
      cases hv.symm.trans hv'
      exact ⟨w, hw, Value.isNull_eq_of_beq heq ▸ hnull, Value.beq_comm v w ▸ heq⟩

theorem nodup_partnersOf (i : Nat) : (partnersOf bs a b i).Nodup := by
  unfold partnersOf
  cases (keysOf bs a)[i]? with
  | none => exact List.nodup_nil
  | some v => exact nodup_partners _ v

theorem some_mem_orMissing {js : List Nat} {j : Nat} : some j ∈ orMissing js ↔ j ∈ js := by
  cases js with
  | nil => simp [orMissing]
  | cons k ks => exact List.mem_map_of_injective (Option.some_injective _)

theorem none_mem_orMissing {js : List Nat} : none ∈ orMissing js ↔ ∀ j, j ∉ js := by
  cases js with
  | nil => simp [orMissing]
  | cons k ks =>
    constructor
    · intro h
      obtain ⟨_, _, hne⟩ := List.mem_map.mp h
      cases hne
    · intro h
      exact absurd List.mem_cons_self (h k)

theorem nodup_orMissing {js : List Nat} (h : js.Nodup) : (orMissing js).Nodup := by
  cases js with
  | nil => exact List.nodup_singleton _
  | cons k ks => exact h.map (Option.some_injective _)

theorem mem_options {x : Option Nat} : x ∈ options bs a b t ↔ Partner bs a b t x := by
  unfold options
  cases x with
  | none =>
    rw [none_mem_orMissing]
    cases hrow : rowIn bs t a.table with
    | none => simp [Partner, hrow]
    | some i => simp [Partner, hrow, mem_partnersOf]
  | some j =>
    rw [some_mem_orMissing]
    cases hrow : rowIn bs t a.table with
    | none => simp [Partner, hrow]
    | some i => simp [Partner, hrow, mem_partnersOf]

theorem nodup_options : (options bs a b t).Nodup := by
  apply nodup_orMissing
  cases rowIn bs t a.table with
  | none => exact List.nodup_nil
  | some i => exact nodup_partnersOf i

/-! Tables have their places in the order in which they are joined. -/

omit [Scalar N] in
theorem placeOf?_eq (hbs : bs.map TableBlock.name = joined ++ rest) :
    placeOf? bs table = (joined.findIdx? (· == table)).or
      ((rest.findIdx? (· == table)).map (· + joined.length)) := by
  rw [← List.findIdx?_append, ← hbs, List.findIdx?_map]
  rfl

omit [Scalar N] in
theorem placeOf?_of_mem (hbs : bs.map TableBlock.name = joined ++ rest) (h : table ∈ joined) :
    ∃ place b, placeOf? bs table = some place ∧ place < joined.length ∧ bs[place]? = some b ∧
      b.name = table := by
  obtain ⟨place, hplace⟩ := exists_findIdx?_of_mem h
  obtain ⟨hlt, hname, _⟩ := List.findIdx?_eq_some_iff_getElem.mp hplace
  have hget : (bs.map TableBlock.name)[place]? = some table := by
    rw [hbs, List.getElem?_append_left hlt, List.getElem?_eq_getElem hlt, beq_iff_eq.mp hname]
  rw [List.getElem?_map] at hget
  obtain ⟨b, hb, hbname⟩ := Option.map_eq_some_iff.mp hget
  refine ⟨place, b, ?_, hlt, hb, hbname⟩
  rw [placeOf?_eq hbs, hplace, Option.some_or]

omit [Scalar N] in
theorem placeOf?_of_not_mem (hbs : bs.map TableBlock.name = joined ++ table :: rest)
    (h : table ∉ joined) : placeOf? bs table = some joined.length := by
  have hnone : joined.findIdx? (· == table) = none := by
    refine List.findIdx?_eq_none_iff.mpr fun name hname => ?_
    exact beq_eq_false_iff_ne.mpr fun heq => h (heq ▸ hname)
  rw [placeOf?_eq hbs, hnone, List.findIdx?_cons]
  simp

omit [Scalar N] in
theorem rowIn_take (hbs : bs.map TableBlock.name = joined ++ rest) (h : table ∈ joined) {n : Nat}
    (hn : joined.length ≤ n) : rowIn bs (t.take n) table = rowIn bs t table := by
  obtain ⟨place, _, hplace, hlt, _⟩ := placeOf?_of_mem hbs h
  simp [rowIn, hplace, List.getElem?_take, hlt.trans_le hn]

omit [Scalar N] in
theorem rowIn_new (hbs : bs.map TableBlock.name = joined ++ table :: rest) (h : table ∉ joined) :
    rowIn bs t table = (t[joined.length]?).join := by
  simp [rowIn, placeOf?_of_not_mem hbs h]

theorem partner_take (hbs : bs.map TableBlock.name = joined ++ rest) (h : a.table ∈ joined) {n : Nat}
    (hn : joined.length ≤ n) {x : Option Nat} :
    Partner bs a b (t.take n) x ↔ Partner bs a b t x := by
  cases x <;> simp only [Partner, rowIn_take hbs h hn]

/-! The steps of the expansion, as functions. -/

/-- The tuples after a step that adds a table. -/
def extended (bs : List (TableBlock N)) (joined new : AttributeRef) (t : JoinTuple) :
    List JoinTuple :=
  (options bs joined new t).map fun x => t ++ [x]

/-- Every row of the tuple is a row of the table in its place. -/
def Fits (bs : List (TableBlock N)) (t : JoinTuple) : Prop :=
  ∀ (place row : Nat), t[place]? = some (some row) →
    ∃ c : TableBlock N, bs[place]? = some c ∧ row < c.table.size

/-- The block in the place of the table stores the key attribute. -/
structure IsSide (bs : List (TableBlock N)) (a : AttributeRef) (place : Nat) (c : TableBlock N) :
    Prop where
  place_eq : placeOf? bs a.table = some place
  block : bs[place]? = some c
  sound : c.Sound
  stores : c.Stores a.name

namespace IsSide

variable {place place' : Nat} {c c' : TableBlock N}

theorem name_eq (h : IsSide bs a place c) : c.name = a.table := by
  obtain ⟨hlt, hname, _⟩ := List.findIdx?_eq_some_iff_getElem.mp h.place_eq
  have hblock := h.block
  rw [List.getElem?_eq_getElem hlt] at hblock
  exact Option.some.inj hblock ▸ beq_iff_eq.mp hname

theorem keysOf_eq (h : IsSide bs a place c) : keysOf bs a = c.decodedKeys a.name := by
  simp [keysOf, h.place_eq, h.block]

theorem keys_eq (h : IsSide bs a place c) :
    c.keys a.name = .ok (keysOf bs a) ∧ (keysOf bs a).length = c.table.size := by
  rw [h.keysOf_eq]
  exact h.sound.keys_eq h.stores

theorem side_eq (h : IsSide bs a place c) : side bs a.table a.name = .ok (place, keysOf bs a) := by
  have hplace : bs.findIdx? (·.name == a.table) = some place := h.place_eq
  simp [side, hplace, h.block, h.keys_eq.1, bind, Except.bind, pure, Except.pure]

theorem rowIn_eq (h : IsSide bs a place c) (hlen : place < t.length) :
    rowIn bs t a.table = t[place] ∧ rowOf (place, keysOf bs a) t = .ok t[place] := by
  have hget := List.getElem?_eq_getElem hlen
  exact ⟨by simp [rowIn, h.place_eq, hget], by simp [rowOf, hget]⟩

theorem keyOf_eq (h : IsSide bs a place c) {row : Nat} (hfits : Fits bs t)
    (hrow : t[place]? = some (some row)) :
    ∃ v, (keysOf bs a)[row]? = some v ∧ keyOf (place, keysOf bs a) row = .ok v := by
  obtain ⟨d, hd, hlt⟩ := hfits place row hrow
  cases h.block.symm.trans hd
  rw [← h.keys_eq.2] at hlt
  have hget := List.getElem?_eq_getElem hlt
  exact ⟨_, hget, by simp [keyOf, hget]⟩

theorem extend_eq (h : IsSide bs a place c) (hfits : Fits bs t) (hlen : place < t.length) :
    extend (place, keysOf bs a) (keysOf bs b) t = .ok (extended bs a b t) := by
  obtain ⟨hrowIn, hrowOf⟩ := h.rowIn_eq hlen
  unfold extend extended options
  rw [hrowIn]
  refine bind_eq_ok.mpr ⟨t[place], hrowOf, ?_⟩
  cases hrow : t[place] with
  | none => rfl
  | some row =>
    have hget := List.getElem?_eq_getElem hlen
    rw [hrow] at hget
    obtain ⟨v, hv, hkey⟩ := h.keyOf_eq hfits hget
    refine bind_eq_ok.mpr ⟨v, hkey, ?_⟩
    have hpartners : partnersOf bs a b row = partners (keysOf bs b) v := by simp [partnersOf, hv]
    rw [Option.elim_some, hpartners]
    cases partners (keysOf bs b) v with
    | nil => rfl
    | cons j js => simp [orMissing, pure, Except.pure]

end IsSide

/-- The rows that the tuple holds of the two tables meet, if it holds both. -/
def agreed (bs : List (TableBlock N)) (a b : AttributeRef) (t : JoinTuple) : Bool :=
  match rowIn bs t a.table, rowIn bs t b.table with
  | some i, some j => (partnersOf bs a b i).contains j
  | _, _ => true

theorem agreed_eq_true : agreed bs a b t = true ↔
    ∀ i j, rowIn bs t a.table = some i → rowIn bs t b.table = some j → Meets bs a b i j := by
  unfold agreed
  cases ha : rowIn bs t a.table with
  | none => simp
  | some i =>
    cases hb : rowIn bs t b.table with
    | none => simp
    | some j => simp [mem_partnersOf]

theorem contains_partnersOf {i j : Nat} {v w : Value N} (hv : (keysOf bs a)[i]? = some v)
    (hw : (keysOf bs b)[j]? = some w) :
    (partnersOf bs a b i).contains j = (!v.isNull && v == w) := by
  rw [Bool.eq_iff_iff, List.contains_iff_mem, mem_partnersOf, Bool.and_eq_true, Bool.not_eq_true']
  constructor
  · rintro ⟨v', w', hv', hw', hnull, heq⟩
    cases hv.symm.trans hv'
    cases hw.symm.trans hw'
    exact ⟨hnull, heq⟩
  · rintro ⟨hnull, heq⟩
    exact ⟨v, w, hv, hw, hnull, heq⟩

theorem IsSide.agrees_eq {place place' : Nat} {c c' : TableBlock N} (ha : IsSide bs a place c)
    (hb : IsSide bs b place' c') (hfits : Fits bs t) (hlen : place < t.length)
    (hlen' : place' < t.length) :
    agrees (place, keysOf bs a) (place', keysOf bs b) t = .ok (agreed bs a b t) := by
  obtain ⟨hrowIn, hrowOf⟩ := ha.rowIn_eq hlen
  obtain ⟨hrowIn', hrowOf'⟩ := hb.rowIn_eq hlen'
  unfold agrees agreed
  rw [hrowIn, hrowIn']
  refine bind_eq_ok.mpr ⟨t[place], hrowOf, bind_eq_ok.mpr ⟨t[place'], hrowOf', ?_⟩⟩
  cases hrow : t[place] with
  | none => rfl
  | some i =>
    cases hrow' : t[place'] with
    | none => rfl
    | some j =>
      have hget := List.getElem?_eq_getElem hlen
      have hget' := List.getElem?_eq_getElem hlen'
      rw [hrow] at hget
      rw [hrow'] at hget'
      obtain ⟨v, hv, hkey⟩ := ha.keyOf_eq hfits hget
      obtain ⟨w, hw, hkey'⟩ := hb.keyOf_eq hfits hget'
      refine bind_eq_ok.mpr ⟨v, hkey, ?_⟩
      dsimp only
      rw [contains_partnersOf hv hw]
      cases v.isNull with
      | true => rfl
      | false => exact bind_eq_ok.mpr ⟨w, hkey', rfl⟩

/-! A run of the expansion along a chain of steps. -/

/-- The column of the key attribute is stored in the block of its table. -/
def Stored (bs : List (TableBlock N)) (a : AttributeRef) : Prop :=
  ∀ c ∈ bs, c.name = a.table → c.Stores a.name

/-- The key columns of the steps are stored. -/
def KeysStored (g : Schema N) (bs : List (TableBlock N)) (steps : List JoinStep) : Prop :=
  ∀ s ∈ steps, ∀ r, g.relationship s.relationship = .ok r →
    Stored bs r.sourceKey ∧ Stored bs r.targetKey

omit [Scalar N] in
theorem keysStored_iff_keyOf {g : Schema N} {steps : List JoinStep} : KeysStored g bs steps ↔
    ∀ a, g.KeyOf (steps.map (·.relationship)) a → Stored bs a := by
  constructor
  · rintro h a ⟨id, hid, r, known, hkey⟩
    obtain ⟨s, hs, rfl⟩ := List.mem_map.mp hid
    obtain ⟨hsource, htarget⟩ := h s hs r known
    rcases hkey with rfl | rfl
    · exact hsource
    · exact htarget
  · intro h s hs r known
    have hid := List.mem_map_of_mem (f := JoinStep.relationship) hs
    exact ⟨h r.sourceKey ⟨_, hid, r, known, .inl rfl⟩, h r.targetKey ⟨_, hid, r, known, .inr rfl⟩⟩

omit [Scalar N] in
theorem keysStored_iff {g : Schema N} {steps : List JoinStep} : KeysStored g bs steps ↔
    ∀ s ∈ steps, ∀ r ∈ g.relationship? s.relationship,
      Stored bs r.sourceKey ∧ Stored bs r.targetKey := by
  simp only [KeysStored, Schema.relationship_eq_ok, Option.mem_def]

instance (c : TableBlock N) (key : String) : Decidable (c.Stores key) :=
  inferInstanceAs (Decidable (qualify c.name key ∈ c.table.columns))

instance (a : AttributeRef) : Decidable (Stored bs a) :=
  inferInstanceAs (Decidable (∀ c ∈ bs, c.name = a.table → c.Stores a.name))

instance (g : Schema N) (steps : List JoinStep) : Decidable (KeysStored g bs steps) :=
  decidable_of_iff _ keysStored_iff.symm

/-- The tuples after a step along a relationship. -/
def stepped (bs : List (TableBlock N)) (r : Relationship) (ts : List JoinTuple) :
    JoinStep → List JoinTuple
  | .fanOut _ _ => ts.flatMap (extended bs r.targetKey r.sourceKey)
  | .lookup _ _ => ts.flatMap (extended bs r.sourceKey r.targetKey)
  | .cycle _ => ts.filter (agreed bs r.sourceKey r.targetKey)

/-- The tuples after all steps. -/
def expanded (g : Schema N) (bs : List (TableBlock N)) :
    List JoinStep → List JoinTuple → List JoinTuple
  | [], ts => ts
  | s :: steps, ts =>
    expanded g bs steps ((g.relationship? s.relationship).elim [] fun r => stepped bs r ts s)

theorem expanded_cons {g : Schema N} {s : JoinStep} {steps : List JoinStep} {ts : List JoinTuple}
    {r : Relationship} (known : g.relationship s.relationship = .ok r) :
    expanded g bs (s :: steps) ts = expanded g bs steps (stepped bs r ts s) := by
  rw [expanded, Schema.relationship_eq_ok.mp known, Option.elim_some]

/-- The tuple holds a row or none of each joined table. -/
structure Holds (bs : List (TableBlock N)) (joined : List String) (t : JoinTuple) : Prop where
  length : t.length = joined.length
  fits : Fits bs t

theorem isSide_of_mem (hbs : bs.map TableBlock.name = joined ++ rest) (hsound : ∀ c ∈ bs, c.Sound)
    (h : a.table ∈ joined) (hstored : Stored bs a) :
    ∃ place c, IsSide bs a place c ∧ place < joined.length := by
  obtain ⟨place, c, hplace, hlt, hc, hname⟩ := placeOf?_of_mem hbs h
  have hmem := List.mem_of_getElem? hc
  exact ⟨place, c, ⟨hplace, hc, hsound c hmem, hstored c hmem hname⟩, hlt⟩

theorem Holds.extended {c : TableBlock N} {u : JoinTuple} (h : Holds bs joined t)
    (hnew : IsSide bs b joined.length c) (hu : u ∈ extended bs a b t) :
    Holds bs (joined ++ [b.table]) u := by
  obtain ⟨x, hx, rfl⟩ := List.mem_map.mp hu
  refine ⟨by simp [h.length], fun place row hrow => ?_⟩
  rcases Nat.lt_or_ge place t.length with hlt | hge
  · rw [List.getElem?_append_left hlt] at hrow
    exact h.fits place row hrow
  · rw [List.getElem?_append_right hge] at hrow
    have hplace : place = t.length := by
      have := (List.getElem?_eq_some_iff.mp hrow).1
      simp at this
      omega
    subst hplace
    have hx' : x = some row := by simpa using hrow
    subst hx'
    obtain ⟨i, _, v, w, _, hw, _⟩ := mem_options.mp hx
    refine ⟨c, h.length ▸ hnew.block, ?_⟩
    rw [← hnew.keys_eq.2]
    exact (List.getElem?_eq_some_iff.mp hw).1

theorem extendAll_eq {place : Nat} {c : TableBlock N} (h : IsSide bs a place c)
    (hlt : place < joined.length) {ts : List JoinTuple} (hts : ∀ t ∈ ts, Holds bs joined t) :
    (return (← ts.mapM (extend (place, keysOf bs a) (keysOf bs b))).flatten :
      Except SampleError (List JoinTuple)) = .ok (ts.flatMap (extended bs a b)) := by
  have hmap : ts.mapM (extend (place, keysOf bs a) (keysOf bs b)) = .ok (ts.map (extended bs a b)) :=
    mapM_eq_ok_map fun t ht => h.extend_eq (hts t ht).fits ((hts t ht).length ▸ hlt)
  rw [hmap, List.flatMap_def]
  rfl

theorem take_mem_extendAll (hbs : bs.map TableBlock.name = joined ++ b.table :: rest)
    (ha : a.table ∈ joined) (hb : b.table ∉ joined) {ts : List JoinTuple}
    (hts : ∀ t ∈ ts, Holds bs joined t) {u : JoinTuple} (hu : joined.length < u.length) :
    u.take (joined.length + 1) ∈ ts.flatMap (extended bs a b) ↔
      u.take joined.length ∈ ts ∧ Partner bs a b u (rowIn bs u b.table) := by
  have hget := List.getElem?_eq_getElem hu
  have hnew : rowIn bs u b.table = u[joined.length] := by
    rw [rowIn_new hbs hb, hget, Option.join_some]
  have htake : u.take (joined.length + 1) = u.take joined.length ++ [u[joined.length]] :=
    List.take_succ_eq_append_getElem hu
  rw [hnew, htake]
  constructor
  · intro h
    obtain ⟨t, ht, hmem⟩ := List.mem_flatMap.mp h
    obtain ⟨x, hx, heq⟩ := List.mem_map.mp hmem
    have hlen : t.length = (u.take joined.length).length := by
      rw [(hts t ht).length, List.length_take, min_eq_left hu.le]
    obtain ⟨rfl, hsingle⟩ := List.append_inj heq hlen
    cases hsingle
    exact ⟨ht, (partner_take hbs ha le_rfl).mp (mem_options.mp hx)⟩
  · rintro ⟨ht, hpartner⟩
    refine List.mem_flatMap.mpr ⟨_, ht, List.mem_map_of_mem (mem_options.mpr ?_)⟩
    exact (partner_take hbs ha le_rfl).mpr hpartner

theorem nodup_extendAll {ts : List JoinTuple} (h : ts.Nodup) :
    (ts.flatMap (extended bs a b)).Nodup := by
  refine List.nodup_flatMap.mpr ⟨fun t _ => ?_, h.imp ?_⟩
  · exact nodup_options.map fun x y hxy => by simpa using hxy
  · intro t t' hne u hu hu'
    obtain ⟨x, _, rfl⟩ := List.mem_map.mp hu
    obtain ⟨y, _, heq⟩ := List.mem_map.mp hu'
    exact hne (List.append_inj' heq rfl).1.symm

/-- The step allows the rows that the tuple holds. -/
def Obeys (g : Schema N) (bs : List (TableBlock N)) (t : JoinTuple) : JoinStep → Prop
  | .fanOut id _ => ∃ r, g.relationship id = .ok r ∧
      Partner bs r.targetKey r.sourceKey t (rowIn bs t r.source)
  | .lookup id _ => ∃ r, g.relationship id = .ok r ∧
      Partner bs r.sourceKey r.targetKey t (rowIn bs t r.target)
  | .cycle id => ∃ r, g.relationship id = .ok r ∧ ∀ i j, rowIn bs t r.source = some i →
      rowIn bs t r.target = some j → Meets bs r.sourceKey r.targetKey i j

omit [Scalar N] in
theorem KeysStored.tail {g : Schema N} {s : JoinStep} {steps : List JoinStep}
    (h : KeysStored g bs (s :: steps)) : KeysStored g bs steps :=
  fun s hs => h s (List.mem_cons_of_mem _ hs)

/-- What a step makes of the tuples. -/
structure StepResult (g : Schema N) (bs : List (TableBlock N)) (joined : List String)
    (s : JoinStep) (ts next : List JoinTuple) : Prop where
  run : step g bs ts s = .ok next
  holds : ∀ u ∈ next, Holds bs (joined ++ s.newTable?.toList) u
  nodup : ts.Nodup → next.Nodup
  take_mem : ∀ u : JoinTuple, u.length = bs.length →
    (u.take (joined ++ s.newTable?.toList).length ∈ next ↔
      u.take joined.length ∈ ts ∧ Obeys g bs u s)

section

open JoinPath

variable {g : Schema N} {steps : List JoinStep} {ts : List JoinTuple}
  (hsound : ∀ c ∈ bs, c.Sound)
include hsound

theorem StepResult.ofCycle {r : Relationship} (known : g.relationship r.identifier = .ok r)
    (hbs : bs.map TableBlock.name = joined ++ rest) (source : r.source ∈ joined)
    (target : r.target ∈ joined) (hss : Stored bs r.sourceKey) (hst : Stored bs r.targetKey)
    (hts : ∀ t ∈ ts, Holds bs joined t) :
    StepResult g bs joined (.cycle r.identifier) ts (stepped bs r ts (.cycle r.identifier)) := by
  obtain ⟨place, c, hside, hlt⟩ := isSide_of_mem (a := r.sourceKey) hbs hsound source hss
  obtain ⟨place', c', hside', hlt'⟩ := isSide_of_mem (a := r.targetKey) hbs hsound target hst
  refine ⟨?_, ?_, List.Nodup.filter _, fun u hu => ?_⟩
  · refine bind_eq_ok.mpr ⟨r, mapError_eq_ok.mpr known, bind_eq_ok.mpr ⟨_, hside.side_eq, ?_⟩⟩
    refine bind_eq_ok.mpr ⟨_, hside'.side_eq, filterM_eq_ok fun t ht => ?_⟩
    exact hside.agrees_eq hside' (hts t ht).fits ((hts t ht).length ▸ hlt) ((hts t ht).length ▸ hlt')
  · intro u hu
    simpa [JoinStep.newTable?] using hts u (List.mem_of_mem_filter hu)
  · simp only [stepped, JoinStep.newTable?, Option.toList_none, List.append_nil, List.mem_filter,
      agreed_eq_true, Obeys, known, Except.ok.injEq, exists_eq_left', Relationship.sourceKey,
      Relationship.targetKey, rowIn_take hbs source le_rfl, rowIn_take hbs target le_rfl]

theorem adding_spec (hbs : bs.map TableBlock.name = joined ++ b.table :: rest)
    (ha : a.table ∈ joined) (hb : b.table ∉ joined) (hsa : Stored bs a) (hsb : Stored bs b)
    (hts : ∀ t ∈ ts, Holds bs joined t) :
    (∃ place place', side bs a.table a.name = .ok (place, keysOf bs a) ∧
      side bs b.table b.name = .ok (place', keysOf bs b) ∧
      (return (← ts.mapM (extend (place, keysOf bs a) (keysOf bs b))).flatten :
        Except SampleError (List JoinTuple)) = .ok (ts.flatMap (extended bs a b))) ∧
    (∀ u ∈ ts.flatMap (extended bs a b), Holds bs (joined ++ [b.table]) u) ∧
    ∀ u : JoinTuple, u.length = bs.length →
      (u.take (joined ++ [b.table]).length ∈ ts.flatMap (extended bs a b) ↔
        u.take joined.length ∈ ts ∧ Partner bs a b u (rowIn bs u b.table)) := by
  have hbs' : bs.map TableBlock.name = (joined ++ [b.table]) ++ rest := by simpa using hbs
  have hmem : b.table ∈ joined ++ [b.table] := List.mem_append_right _ List.mem_cons_self
  obtain ⟨place, c, hside, hlt⟩ := isSide_of_mem hbs hsound ha hsa
  obtain ⟨place', c', hside', -⟩ := isSide_of_mem hbs' hsound hmem hsb
  refine ⟨⟨place, place', hside.side_eq, hside'.side_eq, extendAll_eq hside hlt hts⟩, ?_, ?_⟩
  · intro u hu
    obtain ⟨t, ht, hu⟩ := List.mem_flatMap.mp hu
    have hplace : place' = joined.length := by
      have hsome := hside'.place_eq
      rw [placeOf?_of_not_mem hbs hb] at hsome
      exact (Option.some.inj hsome).symm
    exact (hts t ht).extended (hplace ▸ hside') hu
  · intro u hu
    have hlength := congrArg List.length hbs
    rw [List.length_map, List.length_append, List.length_cons] at hlength
    rw [List.length_append, List.length_singleton]
    exact take_mem_extendAll hbs ha hb hts (by omega)

theorem StepResult.ofFanOut {r : Relationship} (known : g.relationship r.identifier = .ok r)
    (hbs : bs.map TableBlock.name = joined ++ r.source :: rest) (source : r.source ∉ joined)
    (target : r.target ∈ joined) (hss : Stored bs r.sourceKey) (hst : Stored bs r.targetKey)
    (hts : ∀ t ∈ ts, Holds bs joined t) :
    StepResult g bs joined (.fanOut r.identifier r.source) ts
      (stepped bs r ts (.fanOut r.identifier r.source)) := by
  obtain ⟨⟨place, place', hside, hside', hextend⟩, hholds, hmem⟩ :=
    adding_spec (a := r.targetKey) (b := r.sourceKey) hsound hbs target source hst hss hts
  refine ⟨?_, hholds, nodup_extendAll, fun u hu => ?_⟩
  · refine bind_eq_ok.mpr ⟨r, mapError_eq_ok.mpr known, bind_eq_ok.mpr ⟨_, hside', ?_⟩⟩
    exact bind_eq_ok.mpr ⟨_, hside, hextend⟩
  · simp only [Obeys, known, Except.ok.injEq, exists_eq_left']
    exact hmem u hu

theorem StepResult.ofLookup {r : Relationship} (known : g.relationship r.identifier = .ok r)
    (hbs : bs.map TableBlock.name = joined ++ r.target :: rest) (source : r.source ∈ joined)
    (target : r.target ∉ joined) (hss : Stored bs r.sourceKey) (hst : Stored bs r.targetKey)
    (hts : ∀ t ∈ ts, Holds bs joined t) :
    StepResult g bs joined (.lookup r.identifier r.target) ts
      (stepped bs r ts (.lookup r.identifier r.target)) := by
  obtain ⟨⟨place, place', hside, hside', hextend⟩, hholds, hmem⟩ :=
    adding_spec (a := r.sourceKey) (b := r.targetKey) hsound hbs source target hss hst hts
  refine ⟨?_, hholds, nodup_extendAll, fun u hu => ?_⟩
  · refine bind_eq_ok.mpr ⟨r, mapError_eq_ok.mpr known, bind_eq_ok.mpr ⟨_, hside, ?_⟩⟩
    exact bind_eq_ok.mpr ⟨_, hside', hextend⟩
  · simp only [Obeys, known, Except.ok.injEq, exists_eq_left']
    exact hmem u hu

/-- A step of a chain succeeds if its key columns are stored, and the chain goes on from there. -/
theorem stepResult_of_chain {s : JoinStep} (h : Chain g joined (s :: steps))
    (hbs : bs.map TableBlock.name = joined ++ added (s :: steps))
    (hstored : ∀ r, g.relationship s.relationship = .ok r →
      Stored bs r.sourceKey ∧ Stored bs r.targetKey) (hts : ∀ t ∈ ts, Holds bs joined t) :
    ∃ r, g.relationship s.relationship = .ok r ∧ StepResult g bs joined s ts (stepped bs r ts s) := by
  cases h with
  | @cycle _ r _ known source target rest =>
    obtain ⟨hss, hst⟩ := hstored r known
    exact ⟨r, known, .ofCycle hsound known hbs source target hss hst hts⟩
  | @fanOut _ r _ known source target rest =>
    obtain ⟨hss, hst⟩ := hstored r known
    exact ⟨r, known, .ofFanOut hsound known hbs source target hss hst hts⟩
  | @lookup _ r _ known source target rest =>
    obtain ⟨hss, hst⟩ := hstored r known
    exact ⟨r, known, .ofLookup hsound known hbs source target hss hst hts⟩

/-- A run along a chain gives every tuple that holds what each step allows, once. -/
theorem run_of_chain (h : Chain g joined steps)
    (hbs : bs.map TableBlock.name = joined ++ added steps) (hstored : KeysStored g bs steps)
    (hts : ∀ t ∈ ts, Holds bs joined t) (hnodup : ts.Nodup) :
    steps.foldlM (step g bs) ts = .ok (expanded g bs steps ts) ∧
      (∀ u ∈ expanded g bs steps ts, Holds bs (joined ++ added steps) u) ∧
      (expanded g bs steps ts).Nodup ∧
      ∀ u : JoinTuple, u ∈ expanded g bs steps ts ↔
        u.length = bs.length ∧ u.take joined.length ∈ ts ∧ ∀ s ∈ steps, Obeys g bs u s := by
  induction steps generalizing joined ts with
  | nil =>
    have hlen : bs.length = joined.length := by simpa using congrArg List.length hbs
    refine ⟨rfl, by simpa [expanded] using hts, hnodup, fun u => ⟨fun hu => ?_, ?_⟩⟩
    · have hulen := (hts u hu).length
      exact ⟨hulen.trans hlen.symm, by rwa [List.take_of_length_le hulen.le], by simp⟩
    · rintro ⟨hulen, hu, -⟩
      rwa [List.take_of_length_le (hulen.trans hlen).le] at hu
  | cons s steps ih =>
    obtain ⟨r, known, hstep⟩ :=
      stepResult_of_chain hsound h hbs (hstored s List.mem_cons_self) hts
    have hbs' : bs.map TableBlock.name = (joined ++ s.newTable?.toList) ++ added steps := by
      rw [hbs, List.append_assoc, added_cons]
    obtain ⟨hrun, hholds, hnext, hmem⟩ :=
      ih h.tail hbs' hstored.tail hstep.holds (hstep.nodup hnodup)
    rw [expanded_cons known]
    refine ⟨bind_eq_ok.mpr ⟨_, hstep.run, hrun⟩, ?_, hnext, fun u => ?_⟩
    · rwa [added_cons, ← List.append_assoc]
    · rw [hmem u, List.forall_mem_cons, ← and_assoc (a := _ ∈ ts)]
      exact and_congr_right fun hu => and_congr_left' (hstep.take_mem u hu)

end

end Expansion
end ApproxQuery
