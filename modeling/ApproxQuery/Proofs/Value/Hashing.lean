import ApproxQuery.Proofs.Number.Integers
import ApproxQuery.Proofs.Value.Equality

/-!
# Values as keys of hash tables

Equality of values is an equivalence, and equal values have one key, so in a hash table an entry is
found under every value that is equal to the one it was put under, whatever hash is made of the
key. On machine numbers an integer is equal to exactly those that stand for it.
-/

namespace ApproxQuery.Value

section

variable {N : Type} [Scalar N]

/-- The hash of a value, made of its key. -/
abbrev hashedBy (hash : Key N → UInt64) : Hashable (Value N) :=
  ⟨fun v => hash v.key⟩

variable [LawfulScalar N]

instance : EquivBEq (Value N) where
  rfl := beq_refl _
  symm {v w} h := by rwa [beq_comm]
  trans := beq_trans

theorem beq_iff_forall₂ {α : Type} [BEq α] {as bs : List α} :
    (as == bs) = true ↔ List.Forall₂ (fun a b => (a == b) = true) as bs := by
  induction as generalizing bs with
  | nil => cases bs <;> simp
  | cons a as ih => cases bs <;> simp [ih]

theorem list_beq_iff_key {vs ws : List (Value N)} : (vs == ws) = true ↔ vs.map key = ws.map key := by
  rw [beq_iff_forall₂, ← List.forall₂_eq_eq_eq, List.forall₂_map_left_iff, List.forall₂_map_right_iff]
  simp only [beq_iff_key]

instance : EquivBEq (List (Value N)) where
  rfl := list_beq_iff_key.mpr rfl
  symm h := list_beq_iff_key.mpr (list_beq_iff_key.mp h).symm
  trans h h' := list_beq_iff_key.mpr ((list_beq_iff_key.mp h).trans (list_beq_iff_key.mp h'))

theorem lawfulHashable_hashedBy (hash : Key N → UInt64) :
    letI := hashedBy hash
    LawfulHashable (Value N) :=
  letI := hashedBy hash
  ⟨fun _ _ h => congrArg hash (beq_iff_key.mp h)⟩

/-- A hash table does not tell equal values apart. -/
theorem getElem?_congr_of_hashedBy {α : Type} {v w : Value N} (hash : Key N → UInt64)
    (h : (v == w) = true) (a : α) :
    letI := hashedBy hash
    ∀ m : Std.HashMap (Value N) α, m[v]? = m[w]? ∧ (m.insert v a)[w]? = some a := by
  let := hashedBy hash
  have := lawfulHashable_hashedBy hash
  intro m
  refine ⟨Std.HashMap.getElem?_congr h, ?_⟩
  rw [Std.HashMap.getElem?_insert, if_pos h]

end

/-- An integer is equal to exactly those machine numbers that stand for it. -/
theorem int_beq_num {i : Int64} {x : Float} : (int i == num x) = true ↔
    Scalar.isFinite x = true ∧ (Binary64.ofFloat x).toRat = i.toInt := by
  rw [beq_iff_key, key_int_eq_num, word?, Option.bind_eq_some_iff]
  constructor
  · rintro ⟨n, hn, hi⟩
    rw [← toInt_of_int64? hi]
    rcases Binary64.unpack_of_integer? hn with ⟨⟨s, hs⟩, rfl⟩ | ⟨⟨s, m, e, k, hs⟩, hvalue, -⟩
    · exact ⟨Binary64.isFinite_iff.mpr (.inl ⟨s, hs⟩), by rw [Binary64.toRat_zero hs, Int.cast_zero]⟩
    · exact ⟨Binary64.isFinite_iff.mpr (.inr ⟨s, m, e, k, hs⟩), hvalue⟩
  · rintro ⟨hfinite, hvalue⟩
    exact ⟨i.toInt, Binary64.integer?_of_toRat hfinite hvalue, int64?_toInt i⟩

/-- Equality is an equivalence by exact numeric value, and exactly the values with one key are equal;
so a hash table answers equal values alike. -/
theorem equality_lawful_and_hashed (a b c : Value Float) :
    (a == a) = true ∧ ((a == b) = true → (b == a) = true) ∧
    ((a == b) = true → (b == c) = true → (a == c) = true) ∧
    (∀ (i : Int64) (x : Float), (int i == num x) = true ↔
      Scalar.isFinite x = true ∧ (Binary64.ofFloat x).toRat = i.toInt) ∧
    ((a == b) = true ↔ a.key = b.key) ∧
    ((a == b) = true → ∀ (hash : Key Float → UInt64) (α : Type) (entry : α),
      letI := hashedBy hash
      ∀ m : Std.HashMap (Value Float) α, m[a]? = m[b]? ∧ (m.insert a entry)[b]? = some entry) :=
  ⟨beq_refl a, fun h => by rwa [beq_comm], beq_trans, fun _ _ => int_beq_num, beq_iff_key,
    fun h hash _ entry => getElem?_congr_of_hashedBy hash h entry⟩

/-- Zero as an integer is equal to both zeros among machine numbers, and finds what is put under one
of them. -/
theorem zeros_share_an_entry :
    letI := hashedBy fun _ : Key Float => 0
    ((num (-0.0) : Value Float) == int 0) = true ∧ ((int 0 : Value Float) == num 0.0) = true ∧
    ((num (-0.0) : Value Float) == num 0.0) = true ∧
    ((∅ : Std.HashMap (Value Float) Nat).insert (num (-0.0)) 7)[(int 0 : Value Float)]? = some 7 := by
  have hleft : ((num (-0.0) : Value Float) == int 0) = true := by decide +kernel
  have hright : ((int 0 : Value Float) == num 0.0) = true := by decide +kernel
  obtain ⟨-, -, htrans, -, -, hfound⟩ := equality_lawful_and_hashed (num (-0.0)) (int 0) (num 0.0)
  exact ⟨hleft, hright, htrans hleft hright, (hfound hleft (fun _ => 0) Nat 7 ∅).2⟩

end ApproxQuery.Value
