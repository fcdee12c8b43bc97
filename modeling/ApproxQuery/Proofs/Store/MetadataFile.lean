import ApproxQuery.Proofs.Document.Parts
import ApproxQuery.Store.MetadataFile

/-!
# The metadata file is read as it was written

A metadata map comes back from its file exactly if its values are no infinities and no results of
undefined operations: a document writes such a number as null, which is no number to its reader.
-/

namespace ApproxQuery

/-- The value is no number that is not finite. -/
def Value.Finite : Value Float → Prop
  | .num x => x.isFinite = true
  | _ => True

instance : DecidablePred Value.Finite
  | .num x => inferInstanceAs (Decidable (x.isFinite = true))
  | .null | .int _ | .text _ => .isTrue trivial

/-- The values in the dictionaries and in the dependency maps are finite. -/
structure TableMetadata.FiniteValues (m : TableMetadata Float) : Prop where
  dictionary : ∀ e ∈ m.categoricals.toList, ∀ v ∈ e.2, v.Finite
  map : ∀ e ∈ m.dependencies.toList, ∀ f ∈ e.2.toList, ∀ p ∈ f.2, p.1.Finite ∧ p.2.Finite

/-- The numbers that are no values of the table are finite, and its lengths fit a word. -/
structure TableMetadata.FiniteNumbers (m : TableMetadata Float) : Prop where
  rate : m.sampleRate.isFinite = true
  nullValue : ∀ e ∈ m.nullValues.toList, e.2.isFinite = true
  mean : ∀ e ∈ m.incomingMeans.toList, e.2.isFinite = true
  length : m.length < 2 ^ 64
  storedLength : m.storedLength < 2 ^ 64

namespace MetadataFile

open Document

variable {α : Type}

/-! ## Writing -/

theorem written_writeValue (v : Value Float) : Written (writeValue v) := by
  cases v with
  | null => exact .text "Null"
  | int i => exact .record (by simpa using written_ofInt i.toInt)
  | num x => exact .record (by simpa using written_ofFloat x)
  | text s => exact .record (by simpa using Written.text s)

theorem written_writeMap {write : α → Document} (h : ∀ x, Written (write x)) (m : SortedMap String α) :
    Written (writeMap write m) := by
  refine .record fun f hf => ?_
  obtain ⟨e, -, rfl⟩ := List.mem_map.mp hf
  exact h e.2

theorem written_list {write : α → Document} (h : ∀ x, Written (write x)) (xs : List α) :
    Written (.list (xs.map write)) := by
  refine .list fun d hd => ?_
  obtain ⟨x, -, rfl⟩ := List.mem_map.mp hd
  exact h x

theorem written_writeDictionary (d : Dictionary Float) : Written (writeDictionary d) :=
  .record (by simpa using written_list written_writeValue d)

theorem written_writeDependencyMap (m : DependencyMap Float) : Written (writeDependencyMap m) := by
  have hpair (p : Value Float × Value Float) : Written (.list [writeValue p.1, writeValue p.2]) := by
    refine .list fun d hd => ?_
    rcases List.mem_pair.mp hd with rfl | rfl
    · exact written_writeValue p.1
    · exact written_writeValue p.2
  exact .record (by simpa using written_list hpair m)

theorem written_writeTable (m : TableMetadata Float) : Written (writeTable m) := by
  refine .record ?_
  simp only [List.forall_mem_cons, List.not_mem_nil, false_implies, implies_true, and_true]
  exact ⟨.text _, written_ofNat _, written_ofNat _, written_ofFloat _, written_list .text _,
    written_writeMap written_writeDictionary _, written_writeMap written_ofFloat _,
    written_writeMap (written_writeMap written_writeDependencyMap) _,
    written_writeMap written_ofFloat _, written_list .text _⟩

/-! ## Reading what was written -/

theorem readValue_writeValue {v : Value Float} (h : v.Finite) : readValue (writeValue v) = some v := by
  cases v with
  | null => rfl
  | int i =>
    change (do return Value.int (← (Document.ofInt i.toInt).toInt64?)) = _
    rw [toInt64?_ofInt]
    rfl
  | num x =>
    change (do return Value.num (← (Document.ofFloat x).toFloat?)) = _
    rw [toFloat?_ofFloat h]
    rfl
  | text s => rfl

theorem readList_map {read : Document → Option α} {write : α → Document} {xs : List α}
    (h : ∀ x ∈ xs, read (write x) = some x) : readList read (.list (xs.map write)) = some xs := by
  have hread := mapM_map_eq_some (h := id) h
  rwa [List.map_id] at hread

theorem readMap_writeMap {read : Document → Option α} {write : α → Document} {m : SortedMap String α}
    (h : ∀ e ∈ m.toList, read (write e.2) = some e.2) : readMap read (writeMap write m) = some m := by
  have hread : (m.toList.map fun e => (e.1, write e.2)).mapM
      (fun e => return (e.1, ← read e.2)) = some (m.toList.map id) := by
    refine mapM_map_eq_some fun e he => ?_
    simp [h e he]
  unfold readMap writeMap
  rw [toFields?_ofFields, Option.bind_eq_bind, Option.bind_some]
  refine (congrArg (Option.bind · _) hread).trans ?_
  rw [List.map_id, Option.bind_some, SortedMap.ofList_toList]
  rfl

theorem readOnly_ofFields (name : String) (read : Document → Option α) (d : Document) :
    readOnly name read (.ofFields [(name, d)]) = read d := by
  unfold readOnly
  rw [members?_ofFields]
  · rfl
  · rfl
  · exact List.nodup_singleton name

theorem readDictionary_writeDictionary {d : Dictionary Float} (h : ∀ v ∈ d, v.Finite) :
    readDictionary (writeDictionary d) = some d :=
  (readOnly_ofFields _ _ _).trans (readList_map fun v hv => readValue_writeValue (h v hv))

theorem readDependencyMap_writeDependencyMap {m : DependencyMap Float}
    (h : ∀ p ∈ m, p.1.Finite ∧ p.2.Finite) : readDependencyMap (writeDependencyMap m) = some m := by
  refine (readOnly_ofFields _ _ _).trans (readList_map fun p hp => ?_)
  change (do return (← readValue (writeValue p.1), ← readValue (writeValue p.2))) = some p
  rw [readValue_writeValue (h p hp).1, readValue_writeValue (h p hp).2]
  rfl

theorem readTable_writeTable {m : TableMetadata Float} (hvalues : m.FiniteValues)
    (hnumbers : m.FiniteNumbers) : readTable (writeTable m) = some m := by
  obtain ⟨length, hlength, hlength'⟩ := toWord?_ofNat hnumbers.length
  obtain ⟨stored, hstored, hstored'⟩ := toWord?_ofNat hnumbers.storedLength
  have hstrings (ss : List String) : readList Document.toString? (writeStrings ss) = some ss :=
    readList_map fun s _ => rfl
  have hcategoricals : readMap readDictionary (writeMap writeDictionary m.categoricals) =
      some m.categoricals :=
    readMap_writeMap fun e he => readDictionary_writeDictionary (hvalues.dictionary e he)
  have hfloats {numbers : SortedMap String Float} (h : ∀ e ∈ numbers.toList, e.2.isFinite = true) :
      readMap toFloat? (writeMap .ofFloat numbers) = some numbers :=
    readMap_writeMap fun e he => toFloat?_ofFloat (h e he)
  have hdependencies : readMap (readMap readDependencyMap)
      (writeMap (writeMap writeDependencyMap) m.dependencies) = some m.dependencies :=
    readMap_writeMap fun e he => readMap_writeMap fun f hf =>
      readDependencyMap_writeDependencyMap (hvalues.map e he f hf)
  unfold readTable writeTable
  rw [members?_ofFields]
  · simp only [List.map_cons, List.map_nil, Option.bind_eq_bind, Option.bind_some, hlength, hlength',
      hstored, hstored', hstrings, hcategoricals, hdependencies, hfloats hnumbers.nullValue,
      hfloats hnumbers.mean, toFloat?_ofFloat hnumbers.rate]
    rfl
  · rfl
  · decide

theorem read_write {ms : SortedMap String (TableMetadata Float)}
    (h : ∀ e ∈ ms.toList, e.2.FiniteValues ∧ e.2.FiniteNumbers) : read (write ms) = .ok ms := by
  have hread : readMap readTable (writeMap writeTable ms) = some ms :=
    readMap_writeMap fun e he => readTable_writeTable (h e he).1 (h e he).2
  unfold read write
  rw [parse?_render (written_writeMap written_writeTable ms), Option.bind_some, hread]

/-! ## What cannot be read -/

theorem mem_of_mapM_eq_some {β γ : Type} {f : β → Option γ} {g : α → β} {xs : List α} {ys : List γ}
    (h : (xs.map g).mapM f = some ys) {x : α} (hx : x ∈ xs) : ∃ y, f (g x) = some y := by
  have hforall := List.forall₂_map_left_iff.mp (mapM_eq_some.mp h)
  obtain ⟨i, hi, rfl⟩ := List.getElem_of_mem hx
  exact ⟨_, hforall.get hi (hforall.length_eq ▸ hi)⟩

theorem exists_of_readList {read : Document → Option α} {write : α → Document} {xs ys : List α}
    (h : readList read (.list (xs.map write)) = some ys) {x : α} (hx : x ∈ xs) :
    ∃ y, read (write x) = some y :=
  mem_of_mapM_eq_some h hx

theorem exists_of_readMap {read : Document → Option α} {write : α → Document} {m m' : SortedMap String α}
    (h : readMap read (writeMap write m) = some m') {e : String × α} (he : e ∈ m.toList) :
    ∃ x, read (write e.2) = some x := by
  unfold readMap writeMap at h
  rw [toFields?_ofFields, Option.bind_eq_bind, Option.bind_some] at h
  obtain ⟨es, hes, -⟩ := Option.bind_eq_some_iff.mp h
  obtain ⟨f, hf⟩ := mem_of_mapM_eq_some hes he
  obtain ⟨x, hx, -⟩ := Option.bind_eq_some_iff.mp hf
  exact ⟨x, hx⟩

theorem finite_of_readValue {v w : Value Float} (h : readValue (writeValue v) = some w) :
    v.Finite := by
  cases v with
  | num x =>
    obtain ⟨y, hy, -⟩ : ∃ y, (Document.ofFloat x).toFloat? = some y ∧ Value.num y = w := by
      obtain ⟨y, hy, h⟩ := Option.bind_eq_some_iff.mp
        (h : (Document.ofFloat x).toFloat?.bind (fun y => some (Value.num y)) = some w)
      exact ⟨y, hy, Option.some.inj h⟩
    change x.isFinite = true
    by_contra hx
    rw [Document.ofFloat, if_neg hx] at hy
    cases hy
  | null => trivial
  | int i => trivial
  | text s => trivial

theorem finiteValues_of_readTable {m m' : TableMetadata Float} (h : readTable (writeTable m) = some m') :
    m.FiniteValues := by
  unfold readTable writeTable at h
  rw [members?_ofFields] at h
  · simp only [List.map_cons, List.map_nil, Option.bind_eq_bind, Option.bind_some,
      Option.bind_eq_some_iff] at h
    obtain ⟨-, -, -, -, -, -, -, -, -, -, categoricals, hcategoricals, -, -, dependencies, hdependencies, -⟩ := h
    refine ⟨fun e he v hv => ?_, fun e he f hf p hp => ?_⟩
    · obtain ⟨d, hd⟩ := exists_of_readMap hcategoricals he
      obtain ⟨w, hw⟩ := exists_of_readList ((readOnly_ofFields _ _ _).symm.trans hd) hv
      exact finite_of_readValue hw
    · obtain ⟨maps, hmaps⟩ := exists_of_readMap hdependencies he
      obtain ⟨map, hmap⟩ := exists_of_readMap hmaps hf
      obtain ⟨q, hq⟩ := exists_of_readList ((readOnly_ofFields _ _ _).symm.trans hmap) hp
      obtain ⟨a, ha, hq⟩ := Option.bind_eq_some_iff.mp hq
      obtain ⟨b, hb, -⟩ := Option.bind_eq_some_iff.mp hq
      exact ⟨finite_of_readValue ha, finite_of_readValue hb⟩
  · rfl
  · decide

/-- A value that is not finite makes the whole file unreadable. -/
theorem read_write_eq_error {ms : SortedMap String (TableMetadata Float)}
    (h : ¬ ∀ e ∈ ms.toList, e.2.FiniteValues) : read (write ms) = .error .malformedMetadata := by
  unfold read write
  rw [parse?_render (written_writeMap written_writeTable ms), Option.bind_some]
  split
  · rename_i hread
    refine absurd (fun e he => ?_) h
    obtain ⟨m, hm⟩ := exists_of_readMap hread he
    exact finiteValues_of_readTable hm
  · rfl

end MetadataFile

end ApproxQuery
