/-!
# Sorted maps

A map is kept as the list of its entries in strictly increasing order of their keys, so equal maps
are equal lists. The main statement is `get?_insert`.
-/

namespace ApproxQuery

/-- A finite map, listed in increasing order of its keys. -/
structure SortedMap (κ α : Type) [Ord κ] where
  toList : List (κ × α)
  sorted : toList.Pairwise fun a b => compare a.1 b.1 = .lt

namespace SortedMap

variable {κ α β : Type} [Ord κ]

def insertInto (k : κ) (v : α) : List (κ × α) → List (κ × α)
  | [] => [(k, v)]
  | e :: es =>
    match compare k e.1 with
    | .lt => (k, v) :: e :: es
    | .eq => (k, v) :: es
    | .gt => e :: insertInto k v es

theorem insertInto_subset {k : κ} {v : α} {z : κ × α} {l : List (κ × α)}
    (h : z ∈ insertInto k v l) : z = (k, v) ∨ z ∈ l := by
  induction l with
  | nil => simpa [insertInto] using h
  | cons e es ih =>
    simp only [insertInto] at h
    split at h
    · simpa using h
    · exact (List.mem_cons.1 h).imp_right (List.mem_cons_of_mem _)
    · rcases List.mem_cons.1 h with rfl | h
      · simp
      · exact (ih h).imp_right (List.mem_cons_of_mem _)

theorem pairwise_insertInto [Std.TransOrd κ] {k : κ} {v : α} {l : List (κ × α)}
    (h : l.Pairwise fun a b => compare a.1 b.1 = .lt) :
    (insertInto k v l).Pairwise fun a b => compare a.1 b.1 = .lt := by
  induction l with
  | nil => simp [insertInto]
  | cons e es ih =>
    have he := List.pairwise_cons.1 h
    simp only [insertInto]
    split
    · rename_i hlt
      refine List.pairwise_cons.2 ⟨?_, h⟩
      intro z hz
      rcases List.mem_cons.1 hz with rfl | hz
      · exact hlt
      · exact Std.TransCmp.lt_trans hlt (he.1 z hz)
    · rename_i heq
      refine List.pairwise_cons.2 ⟨?_, he.2⟩
      intro z hz
      exact Std.TransCmp.lt_of_eq_of_lt heq (he.1 z hz)
    · rename_i hgt
      refine List.pairwise_cons.2 ⟨?_, ih he.2⟩
      intro z hz
      rcases insertInto_subset hz with rfl | hz
      · exact Std.OrientedCmp.lt_of_gt hgt
      · exact he.1 z hz

def empty : SortedMap κ α := ⟨[], .nil⟩

instance : EmptyCollection (SortedMap κ α) := ⟨empty⟩

/-- Sets the value of a key; an earlier value of the key is lost. -/
def insert [Std.TransOrd κ] (m : SortedMap κ α) (k : κ) (v : α) : SortedMap κ α :=
  ⟨insertInto k v m.toList, pairwise_insertInto m.sorted⟩

/-- The map with these entries; of two with one key the later one stays. -/
def ofList [Std.TransOrd κ] (es : List (κ × α)) : SortedMap κ α :=
  es.foldl (fun m e => m.insert e.1 e.2) empty

def find (k : κ) (l : List (κ × α)) : Option α :=
  (l.find? fun e => compare k e.1 == .eq).map Prod.snd

def get? (m : SortedMap κ α) (k : κ) : Option α :=
  find k m.toList

theorem find_insertInto [Std.TransOrd κ] [Std.LawfulEqOrd κ] {k j : κ} {v : α} {l : List (κ × α)} :
    find j (insertInto k v l) = if compare j k = .eq then some v else find j l := by
  induction l with
  | nil =>
    by_cases h : compare j k = .eq <;> simp [insertInto, find, h]
  | cons e es ih =>
    simp only [insertInto]
    split
    · by_cases h : compare j k = .eq <;> simp [find, h]
    · rename_i heq
      have hk := Std.LawfulEqOrd.eq_of_compare heq
      by_cases h : compare j k = .eq
      · simp [find, h]
      · have : ¬ compare j e.1 = .eq := hk ▸ h
        simp [find, h, this]
    · rename_i hgt
      by_cases hj : compare j e.1 = .eq
      · have hje := Std.LawfulEqOrd.eq_of_compare hj
        have hjk : ¬ compare j k = .eq := by
          intro h
          have := Std.LawfulEqOrd.eq_of_compare h
          subst this; subst hje
          simp at hgt
        simp [find, hj, hjk]
      · have : find j (e :: insertInto k v es) = find j (insertInto k v es) := by
          simp [find, hj]
        rw [this, ih]
        simp [find, hj]

theorem get?_insert [Std.TransOrd κ] [Std.LawfulEqOrd κ] {m : SortedMap κ α} {k j : κ} {v : α} :
    (m.insert k v).get? j = if compare j k = .eq then some v else m.get? j :=
  find_insertInto

@[simp] theorem get?_empty {k : κ} : (∅ : SortedMap κ α).get? k = none := rfl

@[simp] theorem get?_insert_self [Std.TransOrd κ] [Std.LawfulEqOrd κ] {m : SortedMap κ α} {k : κ}
    {v : α} : (m.insert k v).get? k = some v := by
  simp [get?_insert]

theorem get?_insert_of_ne [Std.TransOrd κ] [Std.LawfulEqOrd κ] {m : SortedMap κ α} {k j : κ} {v : α}
    (h : j ≠ k) : (m.insert k v).get? j = m.get? j := by
  rw [get?_insert, if_neg]
  exact fun hc => h (Std.LawfulEqOrd.eq_of_compare hc)

theorem get?_eq_some [Std.TransOrd κ] [Std.LawfulEqOrd κ] {m : SortedMap κ α} {k : κ} {v : α} :
    m.get? k = some v ↔ (k, v) ∈ m.toList := by
  unfold get? find
  rw [Option.map_eq_some_iff]
  constructor
  · rintro ⟨⟨j, w⟩, hfind, rfl⟩
    have heq := List.find?_some hfind
    rw [Std.LawfulEqOrd.eq_of_compare (beq_iff_eq.mp heq)]
    exact List.mem_of_find?_eq_some hfind
  · intro hmem
    obtain ⟨l, h⟩ : ∃ l, l = m.toList := ⟨_, rfl⟩
    have hsorted := m.sorted
    rw [← h] at hmem hsorted ⊢
    clear h
    induction l with
    | nil => cases hmem
    | cons e l ih =>
      obtain ⟨hlt, hsorted⟩ := List.pairwise_cons.mp hsorted
      rcases List.mem_cons.mp hmem with rfl | hmem
      · exact ⟨(k, v), by simp [Std.ReflCmp.compare_self], rfl⟩
      · obtain ⟨e', he', hv⟩ := ih hmem hsorted
        have hne : ¬ compare k e.1 = .eq := by
          intro heq
          have hlt := hlt (k, v) hmem
          have hself : compare k k = .eq := Std.ReflCmp.compare_self
          rw [← Std.LawfulEqOrd.eq_of_compare heq, hself] at hlt
          cases hlt
        refine ⟨e', ?_, hv⟩
        rw [List.find?_cons_of_neg (by simpa using hne)]
        exact he'

theorem mem_of_get?_foldl_insert [Std.TransOrd κ] [Std.LawfulEqOrd κ] {m : SortedMap κ α}
    {es : List (κ × α)} {k : κ} {v : α}
    (h : (es.foldl (fun m e => m.insert e.1 e.2) m).get? k = some v) :
    (k, v) ∈ es ∨ m.get? k = some v := by
  induction es generalizing m with
  | nil => exact .inr h
  | cons e es ih =>
    rcases ih h with hmem | hget
    · exact .inl (List.mem_cons_of_mem _ hmem)
    · rw [get?_insert] at hget
      split at hget
      · rename_i heq
        cases hget
        cases Std.LawfulEqOrd.eq_of_compare heq
        exact .inl List.mem_cons_self
      · exact .inr hget

theorem mem_of_get?_ofList [Std.TransOrd κ] [Std.LawfulEqOrd κ] {es : List (κ × α)} {k : κ} {v : α}
    (h : (ofList es).get? k = some v) : (k, v) ∈ es := by
  rcases mem_of_get?_foldl_insert h with hmem | hget
  · exact hmem
  · cases hget

theorem insertInto_of_lt [Std.TransOrd κ] {k : κ} {v : α} {l : List (κ × α)}
    (h : ∀ e ∈ l, compare e.1 k = .lt) : insertInto k v l = l ++ [(k, v)] := by
  induction l with
  | nil => rfl
  | cons e es ih =>
    have hgt : compare k e.1 = .gt := Std.OrientedCmp.gt_of_lt (h e List.mem_cons_self)
    rw [insertInto, hgt]
    exact congrArg (e :: ·) (ih fun e' he' => h e' (List.mem_cons_of_mem e he'))

theorem toList_foldl_insert [Std.TransOrd κ] {m : SortedMap κ α} {es : List (κ × α)}
    (h : (m.toList ++ es).Pairwise fun a b => compare a.1 b.1 = .lt) :
    (es.foldl (fun m e => m.insert e.1 e.2) m).toList = m.toList ++ es := by
  induction es generalizing m with
  | nil => simp
  | cons e es ih =>
    have hinsert : (m.insert e.1 e.2).toList = m.toList ++ [e] :=
      insertInto_of_lt fun a ha => (List.pairwise_append.1 h).2.2 a ha e List.mem_cons_self
    rw [List.foldl_cons, ih (by rw [hinsert, List.append_assoc]; exact h), hinsert, List.append_assoc]
    rfl

theorem ext_toList {s t : SortedMap κ α} (h : s.toList = t.toList) : s = t := by
  cases s; cases t; cases h; rfl

/-- A map is made of its entries. -/
theorem ofList_toList [Std.TransOrd κ] (m : SortedMap κ α) : ofList m.toList = m :=
  ext_toList (toList_foldl_insert m.sorted)

theorem get?_foldl_insert_of_not_mem [Std.TransOrd κ] [Std.LawfulEqOrd κ] {m : SortedMap κ α}
    {es : List (κ × α)} {k : κ} (h : k ∉ es.map Prod.fst) :
    (es.foldl (fun m e => m.insert e.1 e.2) m).get? k = m.get? k := by
  induction es generalizing m with
  | nil => rfl
  | cons e es ih =>
    have hne : k ≠ e.1 := fun heq => h (heq ▸ List.mem_cons_self)
    rw [List.foldl_cons, ih fun hmem => h (List.mem_cons_of_mem _ hmem), get?_insert_of_ne hne]

theorem get?_foldl_insert_of_nodup [Std.TransOrd κ] [Std.LawfulEqOrd κ] {m : SortedMap κ α}
    {es : List (κ × α)} {k : κ} {v : α} (hes : (es.map Prod.fst).Nodup) (h : (k, v) ∈ es) :
    (es.foldl (fun m e => m.insert e.1 e.2) m).get? k = some v := by
  induction es generalizing m with
  | nil => cases h
  | cons e es ih =>
    obtain ⟨hnot, hes⟩ := List.nodup_cons.1 hes
    rw [List.foldl_cons]
    rcases List.mem_cons.1 h with rfl | h
    · rw [get?_foldl_insert_of_not_mem hnot, get?_insert_self]
    · exact ih hes h

/-- Every entry is found when no two have one key. -/
theorem get?_ofList_of_nodup [Std.TransOrd κ] [Std.LawfulEqOrd κ] {es : List (κ × α)} {k : κ} {v : α}
    (hes : (es.map Prod.fst).Nodup) (h : (k, v) ∈ es) : (ofList es).get? k = some v :=
  get?_foldl_insert_of_nodup hes h

instance [DecidableEq κ] [DecidableEq α] : DecidableEq (SortedMap κ α) := fun s t =>
  if h : s.toList = t.toList then isTrue (ext_toList h) else isFalse fun e => h (e ▸ rfl)

def keys (m : SortedMap κ α) : List κ := m.toList.map Prod.fst

def contains (m : SortedMap κ α) (k : κ) : Bool := (m.get? k).isSome

def erase (m : SortedMap κ α) (k : κ) : SortedMap κ α :=
  ⟨m.toList.filter fun e => compare k e.1 != .eq, m.sorted.filter _⟩

def size (m : SortedMap κ α) : Nat := m.toList.length

end SortedMap

end ApproxQuery
