import ApproxQuery.Store.TableFile
import Mathlib

/-!
# Table files are read as they were written

A reader that is the inverse of a writer gives back what was written, and leaves what stands behind
it. The inverse of a part is the inverse of the whole, as long as every length fits eight bytes.
-/

namespace ApproxQuery.TableFile

variable {α β : Type}

/-- The reader takes these bytes from the front and gives the value. -/
def Reads (read : Reader α) (written : List UInt8) (x : α) : Prop :=
  ∀ rest, read (written ++ rest) = .ok (x, rest)

theorem Reads.pure (x : α) : Reads (Pure.pure x) [] x := fun _ => rfl

theorem Reads.bind {read : Reader α} {f : α → Reader β} {bs cs : List UInt8} {x : α} {y : β}
    (h : Reads read bs x) (h' : Reads (f x) cs y) : Reads (read >>= f) (bs ++ cs) y := by
  intro rest
  rw [List.append_assoc]
  change (read (bs ++ (cs ++ rest))).bind (fun p => f p.1 p.2) = _
  rw [h]
  exact h' rest

/-- What comes last reads nothing more. -/
theorem Reads.bind_nil {read : Reader α} {f : α → Reader β} {bs : List UInt8} {x : α} {y : β}
    (h : Reads read bs x) (h' : Reads (f x) [] y) : Reads (read >>= f) bs y :=
  List.append_nil bs ▸ h.bind h'

theorem reads_take (bs : List UInt8) : Reads (take bs.length) bs bs := by
  intro rest
  simp [take]

theorem length_bytes (count n : Nat) : (bytes count n).length = count := by
  induction count generalizing n with
  | zero => rfl
  | succ count ih => rw [bytes, List.length_cons, ih]

theorem ofBytes_bytes (count n : Nat) : ofBytes (bytes count n) = n % 256 ^ count := by
  induction count generalizing n with
  | zero => rw [bytes, ofBytes, pow_zero, Nat.mod_one]
  | succ count ih =>
    have hbyte : n.toUInt8.toNat = n % 256 := UInt8.toNat_ofNat'
    rw [bytes, ofBytes, ih, hbyte, pow_succ' 256, Nat.mod_mul]

theorem reads_bytes (count n : Nat) : Reads (take count) (bytes count n) (bytes count n) := by
  have hread := reads_take (bytes count n)
  rwa [length_bytes] at hread

theorem reads_ofBytes {count n : Nat} (hn : n < 256 ^ count) :
    Reads (do return ofBytes (← take count)) (bytes count n) n := by
  have hread := (reads_bytes count n).bind_nil (f := fun bs => return ofBytes bs) (Reads.pure _)
  rwa [ofBytes_bytes, Nat.mod_eq_of_lt hn] at hread

theorem reads_length {n : Nat} (hn : n < 2 ^ 64) : Reads readLength (writeLength n) n := by
  unfold readLength writeLength
  split_ifs with h₁ h₂ h₃
  · have hbyte : n.toUInt8.toNat = n := by
      change n % 256 = n
      omega
    have hmark {mark : UInt8} (hmark : 251 ≤ mark.toNat) : [n.toUInt8] ≠ [mark] := by
      intro heq
      have heq := congrArg UInt8.toNat (List.cons.inj heq).1
      omega
    refine (reads_take [n.toUInt8]).bind_nil ?_
    split
    · rename_i heq
      exact absurd heq (hmark (by decide))
    · rename_i heq
      exact absurd heq (hmark (by decide))
    · rename_i heq
      exact absurd heq (hmark (by decide))
    · rename_i heq
      cases heq
      have hsmall : n.toUInt8 < 251 := UInt8.lt_iff_toNat_lt.mpr (by rw [hbyte]; exact h₁)
      rw [if_pos hsmall, hbyte]
      exact Reads.pure n
    · rename_i hno
      exact absurd rfl (hno _)
  · exact (reads_take [251]).bind (reads_ofBytes h₂)
  · exact (reads_take [252]).bind (reads_ofBytes h₃)
  · exact (reads_take [253]).bind (reads_ofBytes hn)

theorem toList_loop (bs : ByteArray) (i : Nat) (r : List UInt8) :
    ByteArray.toList.loop bs i r = r.reverse ++ bs.data.toList.drop i := by
  induction i, r using ByteArray.toList.loop.induct bs with
  | case1 i r h ih =>
    have hi : i < bs.data.toList.length := h
    have hget : bs.get! i = bs.data.toList[i] := getElem!_pos bs.data i h
    rw [ByteArray.toList.loop, if_pos h, ih, List.drop_eq_getElem_cons hi, List.reverse_cons,
      List.append_assoc, List.singleton_append, hget]
  | case2 i r h =>
    rw [ByteArray.toList.loop, if_neg h, List.drop_eq_nil_of_le (not_lt.mp h), List.append_nil]

theorem toList_eq (bs : ByteArray) : bs.toList = bs.data.toList := by
  rw [ByteArray.toList, toList_loop]
  rfl

theorem fromUTF8?_toUTF8 (s : String) : String.fromUTF8? ⟨s.toUTF8.toList.toArray⟩ = some s := by
  have harray : (⟨s.toUTF8.toList.toArray⟩ : ByteArray) = s.toByteArray := by
    rw [toList_eq, Array.toArray_toList, String.toUTF8_eq_toByteArray]
  rw [harray, String.fromUTF8?, dif_pos s.isValidUTF8]
  rfl

theorem reads_text {s : String} (hs : s.utf8ByteSize < unboundedLength) :
    Reads readText (writeText s) s := by
  have hlen : s.toUTF8.toList.length = s.utf8ByteSize := by
    rw [toList_eq]
    rfl
  have hn : s.utf8ByteSize < 2 ^ 64 := lt_trans hs (by decide)
  refine (reads_length hn).bind ?_
  rw [if_neg (not_le.mpr hs), ← hlen]
  refine (reads_take s.toUTF8.toList).bind_nil ?_
  rw [fromUTF8?_toUTF8]
  exact Reads.pure s

theorem reads_number (x : UInt64) : Reads readNumber (writeNumber x) x := by
  have hx : x.toNat < 256 ^ 8 := x.toNat_lt
  have hread := (reads_bytes 8 x.toNat).bind_nil (f := fun bs => return (ofBytes bs).toUInt64)
    (Reads.pure _)
  have hsame : x.toNat.toUInt64 = x := UInt64.ofNat_toNat
  rwa [ofBytes_bytes, Nat.mod_eq_of_lt hx, hsame] at hread

theorem reads_times {read : Reader α} {write : α → List UInt8} {xs : List α}
    (h : ∀ x ∈ xs, Reads read (write x) x) :
    Reads (readTimes read xs.length) (xs.flatMap write) xs := by
  induction xs with
  | nil => exact Reads.pure []
  | cons x xs ih =>
    rw [List.flatMap_cons]
    refine (h x List.mem_cons_self).bind ?_
    exact (ih fun y hy => h y (List.mem_cons_of_mem x hy)).bind_nil (Reads.pure (x :: xs))

theorem reads_list {read : Reader α} {write : α → List UInt8} {xs : List α}
    (hlen : xs.length < 2 ^ 64) (h : ∀ x ∈ xs, Reads read (write x) x) :
    Reads (readList read) (writeList write xs) xs :=
  (reads_length hlen).bind (reads_times h)

/-- The lengths of a table are those of a table in memory. -/
@[mk_iff]
structure Fits {N : Type} (t : EncodedTable N) : Prop where
  name : t.name.utf8ByteSize < unboundedLength
  columns : t.columns.length < 2 ^ 64
  column : ∀ c ∈ t.columns, c.utf8ByteSize < unboundedLength
  width : t.data.length < 2 ^ 64
  length : ∀ numbers ∈ t.data, numbers.length < 2 ^ 64

instance {N : Type} (t : EncodedTable N) : Decidable (Fits t) :=
  decidable_of_iff' _ (fits_iff t)

theorem read_write {t : EncodedTable UInt64} (h : Fits t) : read (write t) = .ok t := by
  have hcolumns : Reads (readList readText) (writeList writeText t.columns) t.columns :=
    reads_list h.columns fun c hc => reads_text (h.column c hc)
  have hdata : Reads (readList (readList readNumber)) (writeList (writeList writeNumber) t.data) t.data :=
    reads_list h.width fun numbers hnumbers =>
      reads_list (h.length numbers hnumbers) fun x _ => reads_number x
  have hread : Reads (do
      let name ← readText
      let columns ← readList readText
      let data ← readList (readList readNumber)
      return ⟨name, columns, data⟩ : Reader (EncodedTable UInt64)) (write t) t := by
    unfold write
    rw [List.append_assoc]
    exact (reads_text h.name).bind (hcolumns.bind (hdata.bind_nil (Reads.pure t)))
  have hall := hread []
  rw [List.append_nil] at hall
  unfold read
  rw [hall]
  rfl

end ApproxQuery.TableFile
