import ApproxQuery.Estimate.TermHash
import ApproxQuery.Proofs.Estimate.TermMatching

/-!
# Restated terms

Two lists have the same members exactly if one becomes the other when entries are put in another
order, repeated, dropped as repetitions, or replaced by equal ones; and exactly if the hash sets of
their entries are equal. Matching does not tell restated terms apart, and neither does the hash of a
term, whatever its items are hashed with.
-/

namespace ApproxQuery

section

variable {α : Type} [BEq α]

/-- Entries are put in another order, repeated or replaced by equal ones, or this is undone. -/
inductive Restated : List α → List α → Prop
  | perm {xs ys : List α} (h : xs.Perm ys) : Restated xs ys
  | repeated {x : α} {xs : List α} (h : x ∈ xs) : Restated xs (x :: xs)
  | replaced {x y : α} (xs : List α) (h : (x == y) = true) : Restated (x :: xs) (y :: xs)
  | symm {xs ys : List α} (h : Restated xs ys) : Restated ys xs
  | trans {xs ys zs : List α} (h : Restated xs ys) (h' : Restated ys zs) : Restated xs zs

variable [EquivBEq α] {xs ys : List α}

theorem sameMembers_of_mem_iff (h : ∀ z, z ∈ xs ↔ z ∈ ys) : sameMembers xs ys = true :=
  sameMembers_iff.mpr
    ⟨fun z hz => ⟨z, (h z).mp hz, BEq.rfl⟩, fun z hz => ⟨z, (h z).mpr hz, BEq.rfl⟩⟩

theorem Restated.sameMembers (h : Restated xs ys) : sameMembers xs ys = true := by
  induction h with
  | perm hperm => exact sameMembers_of_mem_iff fun z => hperm.mem_iff
  | repeated hmem =>
    refine sameMembers_of_mem_iff fun z => ⟨List.mem_cons_of_mem _, fun hz => ?_⟩
    rcases List.mem_cons.mp hz with rfl | hz
    · exact hmem
    · exact hz
  | @replaced x y xs hbeq =>
    refine sameMembers_iff.mpr ⟨fun z hz => ?_, fun z hz => ?_⟩
    · rcases List.mem_cons.mp hz with rfl | hz
      · exact ⟨y, List.mem_cons_self, hbeq⟩
      · exact ⟨z, List.mem_cons_of_mem _ hz, BEq.rfl⟩
    · rcases List.mem_cons.mp hz with rfl | hz
      · exact ⟨x, List.mem_cons_self, BEq.symm hbeq⟩
      · exact ⟨z, List.mem_cons_of_mem _ hz, BEq.rfl⟩
  | symm _ ih => exact sameMembers_symm ih
  | trans _ _ ih ih' => exact sameMembers_trans ih ih'

/-- A list can be extended by what is equal to its entries. -/
theorem restated_append (h : ∀ y ∈ ys, ∃ x ∈ xs, (y == x) = true) : Restated xs (ys ++ xs) := by
  induction ys with
  | nil => exact .perm (.refl xs)
  | cons y ys ih =>
    obtain ⟨x, hx, hbeq⟩ := h y List.mem_cons_self
    have hrest : Restated xs (ys ++ xs) := ih fun z hz => h z (List.mem_cons_of_mem y hz)
    have hadded : Restated xs (x :: (ys ++ xs)) :=
      hrest.trans (.repeated (List.mem_append_right ys hx))
    exact hadded.trans (.replaced _ (BEq.symm hbeq))

theorem sameMembers_iff_restated : sameMembers xs ys = true ↔ Restated xs ys := by
  refine ⟨fun h => ?_, Restated.sameMembers⟩
  obtain ⟨hxs, hys⟩ := sameMembers_iff.mp h
  have hboth : Restated xs (xs ++ ys) := (restated_append hys).trans (.perm List.perm_append_comm)
  exact hboth.trans (restated_append hxs).symm

open Std in
/-- The hash sets of the entries are equal: they have one size, and one contains the other. -/
theorem sameMembers_iff_hashSet [Hashable α] [LawfulHashable α] : sameMembers xs ys = true ↔
    (HashSet.ofList xs).size = (HashSet.ofList ys).size ∧
      ∀ x ∈ HashSet.ofList xs, x ∈ HashSet.ofList ys := by
  have hmem (zs : List α) (z : α) : z ∈ HashSet.ofList zs ↔ ∃ x ∈ zs, (z == x) = true := by
    rw [HashSet.mem_ofList, List.contains_iff_exists_mem_beq]
  have hsubset (xs ys : List α) : (∀ x ∈ xs, ∃ y ∈ ys, (x == y) = true) ↔
      ∀ x ∈ HashSet.ofList xs, x ∈ HashSet.ofList ys := by
    constructor
    · intro h z hz
      obtain ⟨x, hx, hbeq⟩ := (hmem xs z).mp hz
      obtain ⟨y, hy, hbeq'⟩ := h x hx
      exact (hmem ys z).mpr ⟨y, hy, BEq.trans hbeq hbeq'⟩
    · exact fun h x hx => (hmem ys x).mp (h x ((hmem xs x).mpr ⟨x, hx, BEq.rfl⟩))
  rw [sameMembers_iff, hsubset, hsubset, and_comm]
  refine and_congr_left fun hxs => ?_
  have hcommon := HashSet.size_inter_eq_size_right hxs
  constructor
  · intro hys
    exact hcommon.symm.trans (HashSet.size_inter_eq_size_left hys)
  · intro hsize y hy
    have hrest : (HashSet.ofList ys \ HashSet.ofList xs).size +
        (HashSet.ofList ys ∩ HashSet.ofList xs).size = (HashSet.ofList ys).size :=
      HashSet.size_diff_add_size_inter_eq_size_left
    have hempty : (HashSet.ofList ys \ HashSet.ofList xs).isEmpty = true := by
      rw [HashSet.isEmpty_eq_size_eq_zero, beq_iff_eq]
      omega
    by_contra hne
    exact HashSet.isEmpty_iff_forall_not_mem.mp hempty y (HashSet.mem_diff_iff.mpr ⟨hy, hne⟩)

end

section

variable {N α : Type} [BEq α] {h : ItemHash N} {item : α → UInt64} {xs ys : List α}

/-- Lists with the same members have the same hashes of members. -/
theorem ItemHash.set_congr (hitem : ∀ x y, (x == y) = true → item x = item y)
    (hsame : sameMembers xs ys = true) : h.set item xs = h.set item ys := by
  obtain ⟨hxs, hys⟩ := sameMembers_iff.mp hsame
  have hhashes : SortedSet.ofList (xs.map item) = SortedSet.ofList (ys.map item) := by
    refine SortedSet.ext_mem fun z => ?_
    rw [SortedSet.mem_ofList, SortedSet.mem_ofList, List.mem_map, List.mem_map]
    constructor
    · rintro ⟨x, hx, rfl⟩
      obtain ⟨y, hy, hbeq⟩ := hxs x hx
      exact ⟨y, hy, (hitem x y hbeq).symm⟩
    · rintro ⟨y, hy, rfl⟩
      obtain ⟨x, hx, hbeq⟩ := hys y hy
      exact ⟨x, hx, (hitem y x hbeq).symm⟩
  rw [set, set, hhashes]

end

namespace IndicatorTerm

variable {N : Type} [Scalar N] {s s' t t' : IndicatorTerm N} {ignoreInverse ignoreModel : Bool}

/-- The lists of one term are those of the other restated, and the terms are of one kind and for one
model. -/
structure Restates (s t : IndicatorTerm N) : Prop where
  numerator : Restated s.numerator t.numerator
  denominator : Restated s.denominator t.denominator
  conditions : Restated s.conditions t.conditions
  inverse : s.inverse = t.inverse
  tables : s.tables = t.tables

theorem hash_congr {h : ItemHash N}
    (hitem : ∀ c d : Condition N, (c == d) = true → h.condition c = h.condition d)
    (hsame : s.same t false false = true) : s.hash h = t.hash h := by
  obtain ⟨hinverse, hnumerator, hdenominator, hconditions, htables⟩ := same_iff.mp hsame
  have hcolumn : ∀ a b : AttributeRef, (a == b) = true → h.column a = h.column b :=
    fun a b hab => congrArg h.column (beq_iff_eq.mp hab)
  rw [hash, hash, hinverse.resolve_left Bool.false_ne_true, ItemHash.set_congr hcolumn hnumerator,
    ItemHash.set_congr hcolumn hdenominator, ItemHash.set_congr hitem hconditions,
    htables.resolve_left Bool.false_ne_true]

theorem isInverse_comm (s t : IndicatorTerm N) : s.isInverse t = t.isInverse s := by
  rw [Bool.eq_iff_iff]
  simp only [isInverse, Bool.and_eq_true, bne_comm (a := s.inverse)]
  exact and_congr_right fun _ => ⟨same_symm, same_symm⟩

theorem isInverse_self (t : IndicatorTerm N) : t.isInverse t = false := by
  simp [isInverse]

variable [LawfulScalar N]

/-- Terms that are of one kind and for one model match exactly if one restates the other. -/
theorem same_iff_restates : s.same t false false = true ↔ s.Restates t := by
  simp only [same_iff, sameMembers_iff_restated, Bool.false_eq_true, false_or]
  constructor
  · rintro ⟨hinverse, hnumerator, hdenominator, hconditions, htables⟩
    exact ⟨hnumerator, hdenominator, hconditions, hinverse, htables⟩
  · rintro ⟨hnumerator, hdenominator, hconditions, hinverse, htables⟩
    exact ⟨hinverse, hnumerator, hdenominator, hconditions, htables⟩

theorem Restates.same (h : s.Restates t) (ignoreInverse ignoreModel : Bool) :
    s.same t ignoreInverse ignoreModel = true := by
  obtain ⟨hinverse, hnumerator, hdenominator, hconditions, htables⟩ :=
    same_iff.mp (same_iff_restates.mpr h)
  exact same_iff.mpr ⟨.inr h.inverse, hnumerator, hdenominator, hconditions, .inr h.tables⟩

theorem same_congr (hs : s.Restates s') (ht : t.Restates t') :
    s'.same t' ignoreInverse ignoreModel = s.same t ignoreInverse ignoreModel := by
  have hs := hs.same ignoreInverse ignoreModel
  have ht := ht.same ignoreInverse ignoreModel
  rw [Bool.eq_iff_iff]
  exact ⟨fun h => same_trans hs (same_trans h (same_symm ht)),
    fun h => same_trans (same_symm hs) (same_trans h ht)⟩

/-- Matching, of terms of any kind or one kind and for any model or one model, is an equivalence that
restating the terms does not change. Terms that match exactly have one hash if equal conditions have,
and one term is the inverse of another exactly if it matches the inverted one. -/
theorem same_hashed_equivalence :
    (∀ ignoreInverse ignoreModel : Bool,
      Equivalence (fun s t : IndicatorTerm N => s.same t ignoreInverse ignoreModel = true) ∧
      ∀ s s' t t' : IndicatorTerm N, s.Restates s' → t.Restates t' →
        s'.same t' ignoreInverse ignoreModel = s.same t ignoreInverse ignoreModel) ∧
    (∀ h : ItemHash N, (∀ c d : Condition N, (c == d) = true → h.condition c = h.condition d) →
      ∀ s t : IndicatorTerm N, s.same t false false = true → s.hash h = t.hash h) ∧
    ∀ s t : IndicatorTerm N, s.isInverse t = t.isInverse s ∧ s.isInverse s = false ∧
      s.isInverse t = s.same t.inverted false false := by
  refine ⟨fun ignoreInverse ignoreModel => ⟨⟨?_, same_symm, same_trans⟩, ?_⟩, ?_, ?_⟩
  · exact fun t => same_refl t ignoreInverse ignoreModel
  · exact fun s s' t t' => same_congr
  · exact fun h hitem s t => hash_congr hitem
  · exact fun s t => ⟨isInverse_comm s t, isInverse_self s, isInverse_eq⟩

end IndicatorTerm

/-! A price of five as an integer, and as a number beside the integer. -/

namespace Prices

def column (name : String) : AttributeRef := ⟨"orders", name⟩

def integer : IndicatorTerm ℚ where
  numerator := []
  denominator := [column "mul_items", column "mul_notes"]
  conditions := [.equals (column "price") (.int 5), ⟨column "region", .isNull, .absent⟩]
  inverse := false
  tables := .ofList ["items", "notes", "orders"]
  floor := 1 / 100

def number : IndicatorTerm ℚ :=
  { integer with
    denominator := [column "mul_notes", column "mul_items", column "mul_notes"]
    conditions := [⟨column "region", .isNull, .absent⟩, .equals (column "price") (.num 5),
      .equals (column "price") (.int 5)] }

theorem restates : integer.Restates number where
  numerator := .perm (.refl _)
  denominator := by
    have hnotes : Restated integer.denominator (column "mul_notes" :: integer.denominator) :=
      .repeated (by decide)
    exact hnotes.trans (.perm (by decide))
  conditions := by
    have hrepeated : Restated integer.conditions
        (.equals (column "price") (.int 5) :: integer.conditions) := .repeated List.mem_cons_self
    have hreplaced := hrepeated.trans
      (.replaced (y := .equals (column "price") (.num 5)) _ (by decide +kernel))
    exact hreplaced.trans (.perm (List.perm_append_comm : ([_, _] ++ [_]).Perm _))
  inverse := rfl
  tables := rfl

theorem same_hashed_equivalence_number :
    (∀ ignoreInverse ignoreModel, integer.same number ignoreInverse ignoreModel = true) ∧
      integer.hash .standard = number.hash .standard ∧
      integer.isInverse number.inverted = true ∧ number.isInverse integer = false := by
  obtain ⟨hmatching, hhash, hinverse⟩ := IndicatorTerm.same_hashed_equivalence (N := ℚ)
  have hsame (ignoreInverse ignoreModel : Bool) :
      integer.same number ignoreInverse ignoreModel = true := by
    obtain ⟨hequiv, hrestating⟩ := hmatching ignoreInverse ignoreModel
    have hself : integer.Restates integer := IndicatorTerm.same_iff_restates.mp (by decide +kernel)
    rw [hrestating integer integer integer number hself restates]
    exact hequiv.refl integer
  have hitem : ∀ c d : Condition ℚ, (c == d) = true →
      ItemHash.standard.condition c = ItemHash.standard.condition d :=
    fun c d h => congrArg Condition.Key.hash (Condition.beq_iff_key.mp h)
  refine ⟨hsame, hhash .standard hitem integer number (hsame false false), ?_, ?_⟩
  · rw [(hinverse integer number.inverted).2.2]
    exact hsame false false
  · rw [(hinverse number integer).1, (hinverse integer number).2.2]
    decide +kernel

end Prices

end ApproxQuery
