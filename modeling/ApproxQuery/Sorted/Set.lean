/-!
# Sorted sets

A set is kept as the strictly increasing list of its members, so equal sets are equal lists and
`toList` is the order in which a set is read. The main statements are `mem_insert` and `ext_mem`.
-/

namespace ApproxQuery

/-- A finite set, listed in increasing order. -/
structure SortedSet (α : Type) [Ord α] where
  toList : List α
  sorted : toList.Pairwise fun a b => compare a b = .lt

namespace SortedSet

variable {α : Type} [Ord α]

def insertInto (x : α) : List α → List α
  | [] => [x]
  | y :: ys =>
    match compare x y with
    | .lt => x :: y :: ys
    | .eq => y :: ys
    | .gt => y :: insertInto x ys

theorem mem_insertInto [Std.LawfulEqOrd α] {x z : α} {l : List α} :
    z ∈ insertInto x l ↔ z = x ∨ z ∈ l := by
  induction l with
  | nil => simp [insertInto]
  | cons y ys ih =>
    simp only [insertInto]
    split
    · simp
    · rename_i h
      have := Std.LawfulEqOrd.eq_of_compare h
      simp [this]
    · simp [ih, or_left_comm]

theorem insertInto_subset {x z : α} {l : List α} (h : z ∈ insertInto x l) : z = x ∨ z ∈ l := by
  induction l with
  | nil => simpa [insertInto] using h
  | cons y ys ih =>
    simp only [insertInto] at h
    split at h
    · simpa using h
    · exact .inr h
    · rcases List.mem_cons.1 h with rfl | h
      · simp
      · exact (ih h).imp_right (List.mem_cons_of_mem _)

theorem pairwise_insertInto [Std.TransOrd α] {x : α} {l : List α}
    (h : l.Pairwise fun a b => compare a b = .lt) :
    (insertInto x l).Pairwise fun a b => compare a b = .lt := by
  induction l with
  | nil => simp [insertInto]
  | cons y ys ih =>
    have hy := List.pairwise_cons.1 h
    simp only [insertInto]
    split
    · rename_i hlt
      refine List.pairwise_cons.2 ⟨?_, h⟩
      intro z hz
      rcases List.mem_cons.1 hz with rfl | hz
      · exact hlt
      · exact Std.TransCmp.lt_trans hlt (hy.1 z hz)
    · exact h
    · rename_i hgt
      refine List.pairwise_cons.2 ⟨?_, ih hy.2⟩
      intro z hz
      rcases insertInto_subset hz with rfl | hz
      · exact Std.OrientedCmp.lt_of_gt hgt
      · exact hy.1 z hz

def empty : SortedSet α := ⟨[], .nil⟩

instance : EmptyCollection (SortedSet α) := ⟨empty⟩

def insert [Std.TransOrd α] (s : SortedSet α) (x : α) : SortedSet α :=
  ⟨insertInto x s.toList, pairwise_insertInto s.sorted⟩

def ofList [Std.TransOrd α] (xs : List α) : SortedSet α :=
  xs.foldl insert empty

instance : Membership α (SortedSet α) := ⟨fun s x => x ∈ s.toList⟩

instance [DecidableEq α] (x : α) (s : SortedSet α) : Decidable (x ∈ s) :=
  inferInstanceAs (Decidable (x ∈ s.toList))

theorem ext_toList {s t : SortedSet α} (h : s.toList = t.toList) : s = t := by
  cases s; cases t; cases h; rfl

instance [DecidableEq α] : DecidableEq (SortedSet α) := fun s t =>
  if h : s.toList = t.toList then isTrue (ext_toList h) else isFalse fun e => h (e ▸ rfl)

theorem mem_insert [Std.TransOrd α] [Std.LawfulEqOrd α] {x z : α} {s : SortedSet α} :
    z ∈ s.insert x ↔ z = x ∨ z ∈ s :=
  mem_insertInto

theorem mem_ofList [Std.TransOrd α] [Std.LawfulEqOrd α] {z : α} {xs : List α} :
    z ∈ ofList xs ↔ z ∈ xs := by
  have go : ∀ (ys : List α) (s : SortedSet α), z ∈ ys.foldl insert s ↔ z ∈ ys ∨ z ∈ s := by
    intro ys
    induction ys with
    | nil => intro s; simp
    | cons y ys ih =>
      intro s
      rw [List.foldl_cons, ih, mem_insert, List.mem_cons]
      constructor
      · rintro (h | h | h)
        · exact .inl (.inr h)
        · exact .inl (.inl h)
        · exact .inr h
      · rintro ((h | h) | h)
        · exact .inr (.inl h)
        · exact .inl h
        · exact .inr (.inr h)
  have hempty : ¬ z ∈ (empty : SortedSet α) := List.not_mem_nil
  rw [ofList, go]
  exact or_iff_left hempty

theorem nodup [Std.TransOrd α] [Std.LawfulEqOrd α] (s : SortedSet α) : s.toList.Nodup := by
  refine s.sorted.imp ?_
  intro a b hab heq
  have hself : compare b b = .eq := Std.ReflCmp.compare_self
  rw [heq, hself] at hab
  exact absurd hab (by decide)

/-- A set is determined by its members. -/
theorem ext_mem [Std.TransOrd α] [Std.LawfulEqOrd α] {s t : SortedSet α}
    (h : ∀ z, z ∈ s ↔ z ∈ t) : s = t := by
  have hperm : s.toList.Perm t.toList := (List.perm_ext_iff_of_nodup s.nodup t.nodup).2 (h ·)
  have hanti : ∀ a b, a ∈ s.toList → b ∈ t.toList →
      compare a b = .lt → compare b a = .lt → a = b := by
    intro a b _ _ hab hba
    have hgt := Std.OrientedCmp.gt_of_lt hba
    rw [hab] at hgt
    exact absurd hgt (by decide)
  exact ext_toList (hperm.eq_of_pairwise hanti s.sorted t.sorted)

def size (s : SortedSet α) : Nat := s.toList.length

theorem one_lt_size {x y : α} {s : SortedSet α} (hx : x ∈ s) (hy : y ∈ s) (hne : x ≠ y) :
    1 < s.size := by
  have hx : x ∈ s.toList := hx
  have hy : y ∈ s.toList := hy
  unfold size
  cases hlist : s.toList with
  | nil => simp [hlist] at hx
  | cons a rest =>
    cases rest with
    | nil =>
      rw [hlist, List.mem_singleton] at hx hy
      exact absurd (hx.trans hy.symm) hne
    | cons b rest => simp

def isEmpty (s : SortedSet α) : Bool := s.toList.isEmpty

/-- Every member of the first set is in the second. -/
def subset [DecidableEq α] (s t : SortedSet α) : Bool :=
  s.toList.all (· ∈ t)

/-- The members that satisfy the predicate. -/
def filter (p : α → Bool) (s : SortedSet α) : SortedSet α :=
  ⟨s.toList.filter p, s.sorted.filter p⟩

theorem mem_filter {p : α → Bool} {z : α} {s : SortedSet α} :
    z ∈ s.filter p ↔ z ∈ s ∧ p z = true :=
  List.mem_filter

theorem subset_eq_true [DecidableEq α] {s t : SortedSet α} :
    s.subset t = true ↔ ∀ z, z ∈ s → z ∈ t := by
  rw [subset, List.all_eq_true]
  constructor
  · intro h z hz
    exact of_decide_eq_true (h z hz)
  · intro h z hz
    exact decide_eq_true (h z hz)

end SortedSet

end ApproxQuery
