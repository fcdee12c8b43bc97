import ApproxQuery.Proofs.Prepare.StoredRows
import ApproxQuery.Proofs.Schema.Built

/-!
# Join keys

The keys of a block are what the raw keys read after they were stored: themselves in a column that
holds texts, and their machine numbers in any other column. Rows meet in a join exactly if these
readings are equal, which are the raw keys where nothing was rounded.
-/

namespace ApproxQuery

variable {N : Type}

theorem RawTable.mem_of_column? {raw : RawTable N} {a : String} {values : List (Value N)}
    (h : raw.column? a = some values) : a ∈ raw.columns := by
  obtain ⟨place, hplace, -⟩ := Option.map_eq_some_iff.mp h
  obtain ⟨hlt, hname, -⟩ := List.findIdx?_eq_some_iff_getElem.mp hplace
  exact beq_iff_eq.mp hname ▸ List.getElem_mem hlt

variable [Scalar N]

namespace Value

/-- What a value reads after it was stored in a column, which holds texts or does not. -/
def stored (hasText : Bool) (v : Value N) : Value N :=
  if hasText then v else v.toScalar?.elim .null .num

/-- Rows with these keys meet; null meets nothing. -/
def Joins (v w : Value N) : Prop :=
  v.isNull = false ∧ (v == w) = true

theorem joins_congr [LawfulScalar N] {v v' w w' : Value N} (hv : (v == v') = true)
    (hw : (w == w') = true) : v.Joins w ↔ v'.Joins w' := by
  unfold Joins
  rw [isNull_eq_of_beq hv, beq_congr hv hw]

end Value

variable [LawfulScalar N]

theorem TableMetadata.Represents.decoded_beq_stored {m : TableMetadata N} {column : String}
    {hasText : Bool} {v : Value N} {x : N} (h : m.Represents column hasText v x)
    (htext : hasText = true ∨ v.isText = false) :
    (m.decoded column x == v.stored hasText) = true := by
  cases hasText with
  | true => exact h.decoded_beq (.inl rfl) htext
  | false =>
    have htext := htext.resolve_left nofun
    obtain ⟨w, hw, hnull, -, hnumber⟩ := h.decode
    have hdecoded : m.decoded column x = w := by simp [decoded, hw, Except.toOption]
    have hreading : w = v.stored false := by
      cases v with
      | null =>
        cases w with
        | null => rfl
        | _ => cases hnull
      | int i => exact hnumber rfl _ rfl
      | num y => exact hnumber rfl _ rfl
      | text s => cases htext
    rw [hdecoded, hreading]
    exact Value.beq_refl _

namespace TableBlock

/-- The block is that of a prepared table, which stores the column of the key. -/
structure HoldsKey (g : Schema N) (source : RawSource N) (config : PreparationConfig N)
    (name key : String) (b : TableBlock N) (raw : RawTable N) (values : List (Value N)) : Prop where
  prepared : ∃ p t joined, g.prepare source config name = .ok p ∧ g.table name = .ok t ∧
    ofTable g t p.table p.metadata joined = .ok b
  stores : b.Stores key
  source_eq : source name = .ok raw
  values_eq : raw.column? key = some values
  names : g.DistinctNames name raw

/-- The keys are the readings of the raw values in the stored rows. -/
theorem HoldsKey.exists_keys {g : Schema N} {source : RawSource N} {config : PreparationConfig N}
    {name key : String} {b : TableBlock N} {raw : RawTable N} {values : List (Value N)}
    (h : b.HoldsKey g source config name key raw values)
    (hcount : Scalar.CountsTo N (min config.maxUnique raw.size)) :
    ∃ rows keys, ChosenRows raw.size config.maxData rows ∧ b.keys key = .ok keys ∧
      List.Forall₂ (fun i k => ∃ v, values[i]? = some v ∧
        (k == v.stored (values.any Value.isText)) = true) rows keys := by
  obtain ⟨p, t, joined, hp, ht, hb⟩ := h.prepared
  obtain ⟨hname, hsound⟩ := IsPrepared.sound ⟨source, config, p, t, joined, hp, ht, hb⟩
  obtain ⟨-, htable, hmetadata, -⟩ := ofTable_eq_ok hb
  obtain ⟨prep⟩ := Schema.prepare_eq_ok hp
  cases Except.ok.inj (prep.source_eq.symm.trans h.source_eq)
  obtain ⟨numbers, -, hcolumn⟩ := hsound.exists_column? h.stores
  have hkeys : b.decodedKeys key = numbers.map (p.metadata.decoded (qualify name key)) := by
    rw [decodedKeys, hcolumn, hmetadata, hname]
    rfl
  rw [htable, hname] at hcolumn
  obtain ⟨values', hvalues', hrows⟩ := prep.holdsRows h.names hcount key
    (RawTable.mem_of_column? h.values_eq) numbers hcolumn
  cases Option.some.inj (hvalues'.symm.trans h.values_eq)
  refine ⟨prep.rows, _, prep.chosenRows, hkeys ▸ (hsound.keys_eq h.stores).1, ?_⟩
  refine List.forall₂_map_right_iff.mpr (hrows.imp fun i x hstored => ?_)
  obtain ⟨v, hv, hrep⟩ := hstored
  refine ⟨v, hv, hrep.decoded_beq_stored ?_⟩
  exact Column.hasText_or_isText_eq_false ⟨key, values⟩ (List.mem_of_getElem? hv)

/-- Rows meet in a join exactly if the readings of their raw keys do. These are the raw keys
themselves, unless a column without texts holds integers that are no machine numbers. -/
theorem keys_join {g : Schema Float} {source source' : RawSource Float}
    {config config' : PreparationConfig Float} {r : Relationship} {b b' : TableBlock Float}
    {raw raw' : RawTable Float} {values values' : List (Value Float)}
    (h : b.HoldsKey g source config r.source r.sourceAttribute raw values)
    (h' : b'.HoldsKey g source' config' r.target r.targetAttribute raw' values')
    (hcount : min config.maxUnique raw.size < 2 ^ 53)
    (hcount' : min config'.maxUnique raw'.size < 2 ^ 53) :
    ∃ rows rows' keys keys', ChosenRows raw.size config.maxData rows ∧
      ChosenRows raw'.size config'.maxData rows' ∧ b.keys r.sourceAttribute = .ok keys ∧
      b'.keys r.targetAttribute = .ok keys' ∧ keys.length = rows.length ∧
      keys'.length = rows'.length ∧
      ∀ i (hi : i < rows.length) j (hj : j < rows'.length), ∃ k k' v v',
        keys[i]? = some k ∧ keys'[j]? = some k' ∧ values[rows[i]]? = some v ∧
        values'[rows'[j]]? = some v' ∧
        (k.Joins k' ↔
          (v.stored (values.any Value.isText)).Joins (v'.stored (values'.any Value.isText))) ∧
        ((v.stored (values.any Value.isText) == v) = true →
          (v'.stored (values'.any Value.isText) == v') = true → (k.Joins k' ↔ v.Joins v')) := by
  obtain ⟨rows, keys, hrows, hkeys, hread⟩ :=
    h.exists_keys fun n hpos hle => Binary64.countsTo n hpos (by omega)
  obtain ⟨rows', keys', hrows', hkeys', hread'⟩ :=
    h'.exists_keys fun n hpos hle => Binary64.countsTo n hpos (by omega)
  have hlen := hread.length_eq
  have hlen' := hread'.length_eq
  refine ⟨rows, rows', keys, keys', hrows, hrows', hkeys, hkeys', hlen.symm, hlen'.symm, ?_⟩
  intro i hi j hj
  obtain ⟨v, hv, hkv⟩ := hread.get hi (hlen ▸ hi)
  obtain ⟨v', hv', hkv'⟩ := hread'.get hj (hlen' ▸ hj)
  refine ⟨keys[i], keys'[j], v, v', List.getElem?_eq_getElem _, List.getElem?_eq_getElem _, hv, hv',
    Value.joins_congr hkv hkv', fun hsame hsame' => ?_⟩
  exact Value.joins_congr (Value.beq_trans hkv hsame) (Value.beq_trans hkv' hsame')

end TableBlock

namespace Ledger

def account : Table Float := { Table.named "account" with attributes := ["id"] }

def entry : Table Float := { Table.named "entry" with attributes := ["id", "account"] }

def posting : Relationship := .between "entry" "account" "account" "id" none

def schema : Schema Float := ⟨[Schema.link posting account, Schema.link posting entry], [posting]⟩

theorem built : schema.Built := by
  have haccount : Schema.empty.addTable account = .ok ⟨[account], []⟩ := by decide +kernel
  have hentry : (⟨[account], []⟩ : Schema Float).addTable entry = .ok ⟨[account, entry], []⟩ := by
    decide +kernel
  have hposting : (⟨[account, entry], []⟩ : Schema Float).addRelationship posting = .ok schema := by
    decide +kernel
  have hbare := (Schema.Built.empty.addTable rfl rfl haccount).addTable rfl rfl hentry
  exact hbare.addRelationship hposting

theorem incoming_account : schema.incoming "account" = .ok [posting] := by
  decide +kernel

theorem incoming_entry : schema.incoming "entry" = .ok [] := by
  decide +kernel

def accounts (id : Value Float) : RawTable Float := ⟨["id"], [[id]]⟩

/-- One entry for an account. -/
def entries (account : Value Float) : RawTable Float := ⟨["id", "account"], [[.int 1, account]]⟩

def source (id account : Value Float) : RawSource Float :=
  .ofTables [("account", accounts id), ("entry", entries account)]

theorem distinctNames_accounts (id : Value Float) :
    schema.DistinctNames posting.target (accounts id) := by
  refine ⟨List.nodup_singleton _, fun rs hrs => ?_⟩
  cases Except.ok.inj (incoming_account.symm.trans hrs)
  change ∀ r ∈ [posting], ∀ a ∈ ["id"], r.multiplier.qualified ≠ qualify "account" a
  decide +kernel

theorem distinctNames_entries (account : Value Float) :
    schema.DistinctNames posting.source (entries account) := by
  refine ⟨(by decide : ["id", "account"].Nodup), fun rs hrs => ?_⟩
  cases Except.ok.inj (incoming_entry.symm.trans hrs)
  nofun

/-- The block of a table after its preparation, if it stores the key. -/
def block? (source : RawSource Float) (name key : String) : Option (TableBlock Float) := do
  let p ← (schema.prepare source .standard name).toOption
  let t ← (schema.table name).toOption
  let b ← (TableBlock.ofTable schema t p.table p.metadata true).toOption
  if b.table.columns.contains (qualify b.name key) then some b else none

theorem holdsKey_of_block? {s : RawSource Float} {name key : String} {b : TableBlock Float}
    {raw : RawTable Float} {values : List (Value Float)} (h : block? s name key = some b)
    (hs : s name = .ok raw) (hvalues : raw.column? key = some values)
    (hnames : schema.DistinctNames name raw) :
    b.HoldsKey schema s .standard name key raw values := by
  obtain ⟨p, hp, h⟩ := Option.bind_eq_some_iff.mp h
  obtain ⟨t, ht, h⟩ := Option.bind_eq_some_iff.mp h
  obtain ⟨b', hb, h⟩ := Option.bind_eq_some_iff.mp h
  split at h
  · rename_i hstores
    cases h
    exact ⟨⟨p, t, true, mem_toOption.mp hp, mem_toOption.mp ht, mem_toOption.mp hb⟩,
      List.contains_iff_mem.mp hstores, hs, hvalues, hnames⟩
  · cases h

/-- Both tables store their keys. -/
theorem exists_holdsKey (id account : Value Float)
    (h : (block? (source id account) "entry" "account").isSome = true)
    (h' : (block? (source id account) "account" "id").isSome = true) :
    ∃ b b' : TableBlock Float,
      b.HoldsKey schema (source id account) .standard posting.source posting.sourceAttribute
        (entries account) [account] ∧
      b'.HoldsKey schema (source id account) .standard posting.target posting.targetAttribute
        (accounts id) [id] := by
  obtain ⟨b, hb⟩ := Option.isSome_iff_exists.mp h
  obtain ⟨b', hb'⟩ := Option.isSome_iff_exists.mp h'
  exact ⟨b, b', holdsKey_of_block? hb rfl rfl (distinctNames_entries account),
    holdsKey_of_block? hb' rfl rfl (distinctNames_accounts id)⟩

theorem chosenRows_one {max : Nat} {rows : List Nat} (h : ChosenRows 1 max rows) (hmax : 0 < max) :
    rows = [0] := by
  obtain ⟨i, rfl⟩ := List.length_eq_one_iff.mp (h.size.trans (min_eq_left hmax))
  rw [Nat.lt_one_iff.mp (h.lt i List.mem_cons_self)]

/-- The integer 7 meets the number 7. -/
theorem keys_join_seven :
    ∃ b b' : TableBlock Float,
      b.HoldsKey schema (source (.int 7) (.num 7)) .standard posting.source posting.sourceAttribute
        (entries (.num 7)) [.num 7] ∧
      b'.HoldsKey schema (source (.int 7) (.num 7)) .standard posting.target posting.targetAttribute
        (accounts (.int 7)) [.int 7] ∧
      ∃ k k', b.keys posting.sourceAttribute = .ok [k] ∧ b'.keys posting.targetAttribute = .ok [k'] ∧
        k.Joins k' := by
  obtain ⟨b, b', h, h'⟩ := exists_holdsKey (.int 7) (.num 7) (by decide +kernel) (by decide +kernel)
  obtain ⟨rows, rows', keys, keys', hrows, hrows', hkeys, hkeys', hlen, hlen', hjoin⟩ :=
    TableBlock.keys_join h h' (by decide) (by decide)
  cases chosenRows_one hrows (by decide)
  cases chosenRows_one hrows' (by decide)
  obtain ⟨l, rfl⟩ := List.length_eq_one_iff.mp hlen
  obtain ⟨l', rfl⟩ := List.length_eq_one_iff.mp hlen'
  obtain ⟨k, k', v, v', hk, hk', hv, hv', -, hsame⟩ := hjoin 0 Nat.one_pos 0 Nat.one_pos
  cases hk
  cases hk'
  cases hv
  cases hv'
  refine ⟨b, b', h, h', l, l', hkeys, hkeys', (hsame ?_ ?_).mpr ⟨rfl, ?_⟩⟩ <;> decide +kernel

theorem exists_key {s : RawSource Float} {name key : String} {b : TableBlock Float}
    {raw : RawTable Float} {v : Value Float} (h : b.HoldsKey schema s .standard name key raw [v])
    (hsize : raw.size = 1) :
    ∃ k, b.keys key = .ok [k] ∧ (k == v.stored v.isText) = true := by
  obtain ⟨rows, keys, hrows, hkeys, hread⟩ :=
    h.exists_keys fun n hpos hle => Binary64.countsTo n hpos (by omega)
  rw [hsize] at hrows
  cases chosenRows_one hrows (by decide)
  obtain ⟨k, _, ⟨w, hw, hk⟩, hnil, rfl⟩ := List.forall₂_cons_left_iff.mp hread
  cases List.forall₂_nil_left_iff.mp hnil
  cases hw
  exact ⟨k, hkeys, by simpa using hk⟩

/-- Two integers meet that have the same machine number. -/
theorem keys_join_merged :
    schema.Built ∧ posting ∈ schema.relationships ∧ ∃ b b' : TableBlock Float,
      b.HoldsKey schema (source (.int 9007199254740992) (.int 9007199254740993)) .standard
        posting.source posting.sourceAttribute (entries (.int 9007199254740993))
        [.int 9007199254740993] ∧
      b'.HoldsKey schema (source (.int 9007199254740992) (.int 9007199254740993)) .standard
        posting.target posting.targetAttribute (accounts (.int 9007199254740992))
        [.int 9007199254740992] ∧
      (∃ k k', b.keys posting.sourceAttribute = .ok [k] ∧
        b'.keys posting.targetAttribute = .ok [k'] ∧ k.Joins k') ∧
      ¬ (Value.int 9007199254740993 : Value Float).Joins (.int 9007199254740992) := by
  obtain ⟨b, b', h, h'⟩ := exists_holdsKey (.int 9007199254740992)
    (.int 9007199254740993) (by decide +kernel) (by decide +kernel)
  obtain ⟨k, hkeys, hk⟩ := exists_key h rfl
  obtain ⟨k', hkeys', hk'⟩ := exists_key h' rfl
  have hjoins : ((Value.int 9007199254740993 : Value Float).stored false).Joins
      ((Value.int 9007199254740992).stored false) := ⟨rfl, by decide +kernel⟩
  refine ⟨built, List.mem_singleton_self _, b, b', h, h', ⟨k, k', hkeys, hkeys', ?_⟩, ?_⟩
  · exact (Value.joins_congr hk hk').mpr hjoins
  · rintro ⟨-, heq⟩
    exact absurd heq (by decide +kernel)

end Ledger

end ApproxQuery
