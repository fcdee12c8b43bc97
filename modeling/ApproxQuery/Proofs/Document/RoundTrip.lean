import ApproxQuery.Document.Printer
import ApproxQuery.Document.Reader
import ApproxQuery.Proofs.Number.Numeral

/-!
# Documents are read as they were printed

A printed document is read back, whatever stands behind it. What follows a printed value is a comma
or a new line, so a number ends where it was printed to end.
-/

namespace ApproxQuery.Document

/-! ## Numbers -/

/-- What stands behind a printed value. -/
def Ended (rest : List Char) : Prop :=
  ∀ c ∈ rest.head?, c = ',' ∨ c = '\n'

theorem Ended.noDigit {rest : List Char} (h : Ended rest) : NoDigit rest := by
  intro c hc
  rcases h c hc with rfl | rfl <;> decide

theorem readDigits_append {ds rest : List Char} (hne : ds ≠ [])
    (hds : ∀ c ∈ ds, c.isDigit = true) (hrest : NoDigit rest) :
    readDigits (ds ++ rest) = some (ds, rest) := by
  unfold readDigits
  rw [takeWhile_digits hds hrest, dropWhile_digits hds hrest]
  cases ds with
  | nil => exact absurd rfl hne
  | cons c ds => rfl

section

variable (n : Numeral) {rest : List Char}

theorem readWhole_append (hrest : NoDigit rest) :
    readWhole (n.whole ++ rest) = some (n.whole, rest) := by
  rcases n.leading with h | ⟨c, hc, hne⟩
  · rw [h]
    rfl
  · rw [← readDigits_append n.whole_ne_nil n.isDigit_whole hrest]
    obtain ⟨r, hr⟩ := List.head?_eq_some_iff.mp hc
    rw [hr]
    unfold readWhole
    split
    · rename_i heq
      cases heq
      exact absurd rfl hne
    · rfl

theorem readFraction_append (hrest : NoDigit rest) (hpoint : ∀ c ∈ rest.head?, c ≠ '.') :
    readFraction (n.point ++ rest) = some (n.point, rest) := by
  unfold Numeral.point
  split
  · cases rest with
    | nil => rfl
    | cons c rest =>
      unfold readFraction
      split
      · rename_i heq
        cases heq
        exact absurd rfl (hpoint '.' rfl)
      · rfl
  · rename_i hne
    rw [List.cons_append]
    simp only [readFraction, readDigits_append hne n.isDigit_fraction hrest, Option.map_some]

theorem readExponent_append (e? : Option (Bool × Nat)) (hrest : Ended rest) :
    readExponent (Numeral.power e? ++ rest) = some (Numeral.power e?, rest) := by
  rcases e? with _ | ⟨negative, e⟩
  · cases rest with
    | nil => rfl
    | cons c rest => rcases hrest c rfl with rfl | rfl <;> rfl
  · have hdigits := readDigits_append Nat.toDigits_ne_nil
      (fun c hc => isDigit_of_mem_toDigits (n := e) hc) hrest.noDigit
    cases negative <;> simp [Numeral.power, readExponent, hdigits]

theorem readNumber_append (negative : Bool) (hrest : Ended rest) :
    readNumber (Layout.sign negative ++ n.text ++ rest) =
      some (String.ofList (Layout.sign negative ++ n.text), rest) := by
  have hpower : NoDigit (Numeral.power n.exponent? ++ rest) := by
    rcases n.exponent? with _ | ⟨negative, e⟩
    · exact hrest.noDigit
    · rintro c hc
      cases hc
      decide
  have hpoint : ∀ c ∈ (Numeral.power n.exponent? ++ rest).head?, c ≠ '.' := by
    rcases n.exponent? with _ | ⟨negative, e⟩
    · intro c hc
      rcases hrest c hc with rfl | rfl <;> decide
    · rintro c hc
      cases hc
      decide
  have hwhole := readWhole_append n (n.noDigit_point_append hpower)
  have hfraction := readFraction_append n hpower hpoint
  have hexponent := readExponent_append n.exponent? hrest
  have htext : n.text ++ rest = n.whole ++ (n.point ++ (Numeral.power n.exponent? ++ rest)) := by
    simp [Numeral.text]
  cases negative with
  | true =>
    simp only [readNumber, Layout.sign, if_true, List.cons_append, List.nil_append, htext, hwhole,
      hfraction, hexponent, Option.bind_eq_bind, Option.bind_some]
    simp [Numeral.text]
  | false =>
    obtain ⟨c, r, hr, hc⟩ := n.exists_text
    have hne : ∀ r, n.text ++ rest = '-' :: r → False := by
      intro r' h
      rw [hr] at h
      cases h
      cases hc
    unfold readNumber
    split
    rename_i sign cs heq
    split at heq
    · rename_i h
      exact (hne _ h).elim
    · cases heq
      simp only [Layout.sign, Bool.false_eq_true, if_false, List.nil_append, htext, hwhole,
        hfraction, hexponent, Option.bind_eq_bind, Option.bind_some]
      simp [Numeral.text]

end

/-! ## Texts -/

theorem hex4?_hexDigit : ∀ n < 32,
    hex4? '0' '0' (hexDigit (n / 16)) (hexDigit (n % 16)) = some n := by
  decide +kernel

theorem joinUnits?_code {n : Nat} (hn : n < 32) (us : List Unit16) :
    joinUnits? (.code n :: us) = (joinUnits? us).map (Char.ofNat n :: ·) := by
  have hhigh : isHigh n = false := by
    unfold isHigh
    simp
    omega
  have hlow : isLow n = false := by
    unfold isLow
    simp
    omega
  conv_lhs => unfold joinUnits?
  rw [hhigh, hlow]
  rfl

theorem scanText_escape {c e : Char} (h : escape? c = some e) (hc : c ≠ 'u') (cs : List Char) :
    scanText ('\\' :: c :: cs) = (scanText cs).map fun (us, rest) => (.char e :: us, rest) := by
  conv_lhs => unfold scanText
  split
  · rename_i heq
    cases heq
  · rename_i heq
    cases heq
  · rename_i heq
    cases heq
    exact absurd rfl hc
  · rename_i heq
    cases heq
    rw [h]
  · rename_i hno heq
    cases heq
    exact (hno c cs rfl rfl).elim

theorem scanText_char {c : Char} (hquote : c ≠ '"') (hescape : c ≠ '\\') (hprintable : ¬ c.toNat < 32)
    (cs : List Char) :
    scanText (c :: cs) = (scanText cs).map fun (us, rest) => (.char c :: us, rest) := by
  conv_lhs => unfold scanText
  split
  · rename_i heq
    cases heq
  · rename_i heq
    cases heq
    exact absurd rfl hquote
  · rename_i heq
    cases heq
    exact absurd rfl hescape
  · rename_i heq
    cases heq
    exact absurd rfl hescape
  · rename_i heq
    cases heq
    rw [if_neg hprintable]

/-- A printed character is scanned as one item, which stands for that character. -/
theorem exists_unit (c : Char) : ∃ u,
    (∀ cs, scanText (escaped c ++ cs) = (scanText cs).map fun (us, rest) => (u :: us, rest)) ∧
      ∀ us, joinUnits? (u :: us) = (joinUnits? us).map (c :: ·) := by
  unfold escaped
  split_ifs with h₁ h₂ h₃ h₄ h₅ h₆ h₇ h₈
  · subst h₁
    exact ⟨.char '"', scanText_escape rfl (by decide), fun us => rfl⟩
  · subst h₂
    exact ⟨.char '\\', scanText_escape rfl (by decide), fun us => rfl⟩
  · subst h₃
    exact ⟨.char '\n', scanText_escape rfl (by decide), fun us => rfl⟩
  · subst h₄
    exact ⟨.char '\r', scanText_escape rfl (by decide), fun us => rfl⟩
  · subst h₅
    exact ⟨.char '\t', scanText_escape rfl (by decide), fun us => rfl⟩
  · subst h₆
    exact ⟨.char '\x08', scanText_escape rfl (by decide), fun us => rfl⟩
  · subst h₇
    exact ⟨.char '\x0c', scanText_escape rfl (by decide), fun us => rfl⟩
  · refine ⟨.code c.toNat, fun cs => ?_, fun us => ?_⟩
    · simp only [List.cons_append, List.nil_append, scanText, hex4?_hexDigit _ h₈]
    · rw [joinUnits?_code h₈, Char.ofNat_toNat]
  · exact ⟨.char c, scanText_char h₁ h₂ h₈, fun us => rfl⟩

theorem exists_units (cs rest : List Char) :
    ∃ us, scanText (cs.flatMap escaped ++ '"' :: rest) = some (us, rest) ∧ joinUnits? us = some cs := by
  induction cs with
  | nil => exact ⟨[], by simp [scanText], rfl⟩
  | cons c cs ih =>
    obtain ⟨us, hus, hcs⟩ := ih
    obtain ⟨u, hscan, hjoin⟩ := exists_unit c
    refine ⟨u :: us, ?_, ?_⟩
    · rw [List.flatMap_cons, List.append_assoc, hscan, hus]
      rfl
    · rw [hjoin, hcs]
      rfl

theorem readText_quoted (s : String) (rest : List Char) :
    readText (s.toList.flatMap escaped ++ '"' :: rest) = some (some s, rest) := by
  obtain ⟨us, hus, hs⟩ := exists_units s.toList rest
  unfold readText
  rw [hus, Option.map_some]
  dsimp only
  rw [hs, Option.map_some, String.ofList_toList]

/-! ## Values -/

/-- Numbers are signed numerals, and texts and names have values. -/
inductive Written : Document → Prop
  | null : Written null
  | bool (b : Bool) : Written (bool b)
  | number (negative : Bool) (n : Numeral) :
    Written (number (String.ofList (Layout.sign negative ++ n.text)))
  | text (s : String) : Written (ofString s)
  | list {ds : List Document} (items : ∀ d ∈ ds, Written d) : Written (list ds)
  | record {fs : List (String × Document)} (fields : ∀ f ∈ fs, Written f.2) : Written (ofFields fs)

theorem skip_cons {c : Char} {cs : List Char} (h : isBlank c = false) : skip (c :: cs) = c :: cs := by
  simp [skip, h]

theorem skip_append {blanks cs : List Char} (h : ∀ c ∈ blanks, isBlank c = true) :
    skip (blanks ++ cs) = skip cs :=
  List.dropWhile_append_of_pos h

theorem isBlank_newline (level : Nat) : ∀ c ∈ newline level, isBlank c = true := by
  intro c hc
  rcases List.mem_cons.mp hc with rfl | hc
  · rfl
  · rw [List.eq_of_mem_replicate hc]
    rfl

theorem skip_skip (cs : List Char) : skip (skip cs) = skip cs :=
  List.dropWhile_idempotent isBlank cs

theorem readValue_skip (fuel : Nat) (cs : List Char) : readValue fuel (skip cs) = readValue fuel cs := by
  cases fuel with
  | zero => simp [readValue]
  | succ fuel => rw [readValue, readValue, skip_skip]

theorem exists_number (negative : Bool) (n : Numeral) :
    ∃ c r, Layout.sign negative ++ n.text = c :: r ∧ (c = '-' ∨ c.isDigit = true) := by
  obtain ⟨c, r, hr, hc⟩ := n.exists_text
  cases negative with
  | true => exact ⟨'-', n.text, rfl, .inl rfl⟩
  | false => exact ⟨c, r, hr, .inr hc⟩

/-- A printed value starts with a character of its own. -/
theorem Written.exists_print {d : Document} (h : Written d) (level : Nat) :
    ∃ c r, print level d = c :: r ∧ isBlank c = false ∧ c ≠ ']' := by
  cases h with
  | null => exact ⟨'n', _, by rw [print]; rfl, by decide, by decide⟩
  | bool b =>
    cases b with
    | false => exact ⟨'f', _, by rw [print]; rfl, by decide, by decide⟩
    | true => exact ⟨'t', _, by rw [print]; rfl, by decide, by decide⟩
  | number negative n =>
    obtain ⟨c, r, hr, hc⟩ := exists_number negative n
    refine ⟨c, r, by rw [print, String.toList_ofList, hr], ?_, ?_⟩
    · rcases hc with rfl | hc
      · decide
      · rw [← Bool.not_eq_true]
        intro hblank
        simp only [isBlank, Bool.or_eq_true, beq_iff_eq] at hblank
        rcases hblank with ((rfl | rfl) | rfl) | rfl <;> cases hc
    · rintro rfl
      rcases hc with hc | hc <;> cases hc
  | text s => exact ⟨'"', _, by rw [ofString, print]; rfl, by decide, by decide⟩
  | @list ds items =>
    cases ds with
    | nil => exact ⟨'[', _, by rw [print]; rfl, by decide, by decide⟩
    | cons d ds => exact ⟨'[', _, by rw [print]; rfl, by decide, by decide⟩
  | @record fs fields =>
    cases fs with
    | nil => exact ⟨'{', _, by rw [ofFields, List.map_nil, print]; rfl, by decide, by decide⟩
    | cons f fs => exact ⟨'{', _, by rw [ofFields, List.map_cons, print]; rfl, by decide, by decide⟩

/-- The value is read back from its print, with fuel for each of its characters. -/
def Reads (d : Document) : Prop :=
  ∀ (level fuel : Nat) (rest : List Char), Ended rest → (print level d).length ≤ fuel →
    readValue fuel (print level d ++ rest) = some (d, rest)

theorem ended_printItems (level : Nat) (ds : List Document) (rest : List Char) :
    Ended (printItems level ds ++ rest) := by
  cases ds with
  | nil =>
    rintro c hc
    rw [printItems] at hc
    cases hc
    exact .inr rfl
  | cons d ds =>
    rintro c hc
    rw [printItems] at hc
    cases hc
    exact .inl rfl

theorem ended_printFields (level : Nat) (fs : List (Option String × Document)) (rest : List Char) :
    Ended (printFields level fs ++ rest) := by
  rcases fs with _ | ⟨⟨k, d⟩, fs⟩
  · rintro c hc
    rw [printFields] at hc
    cases hc
    exact .inr rfl
  · rintro c hc
    rw [printFields] at hc
    cases hc
    exact .inl rfl

theorem Reads.readValue_eq {d : Document} (h : Reads d) {level fuel : Nat} {blanks rest : List Char}
    (hblanks : ∀ c ∈ blanks, isBlank c = true) (hrest : Ended rest)
    (hfuel : (print level d).length ≤ fuel) :
    readValue fuel (blanks ++ (print level d ++ rest)) = some (d, rest) := by
  rw [← readValue_skip, skip_append hblanks, readValue_skip]
  exact h level fuel rest hrest hfuel

theorem readItems_print {ds : List Document} {d : Document} (hd : Reads d) (hds : ∀ d ∈ ds, Reads d)
    {level fuel : Nat} {blanks : List Char} (rest : List Char)
    (hblanks : ∀ c ∈ blanks, isBlank c = true)
    (hfuel : (print (level + 1) d).length + (printItems level ds).length ≤ fuel) :
    readItems fuel (blanks ++ (print (level + 1) d ++ (printItems level ds ++ rest))) =
      some (d :: ds, rest) := by
  induction ds generalizing d fuel blanks with
  | nil =>
    have hlen : 0 < (printItems level []).length := by simp [printItems]
    obtain ⟨fuel, rfl⟩ := Nat.exists_eq_succ_of_ne_zero (by omega : fuel ≠ 0)
    have hfit : (print (level + 1) d).length ≤ fuel := by omega
    have hread := hd.readValue_eq hblanks (ended_printItems level [] rest) hfit
    have hskip : skip (printItems level [] ++ rest) = ']' :: rest := by
      rw [printItems, List.append_assoc, skip_append (isBlank_newline level)]
      rfl
    simp only [readItems, hread, Option.bind_eq_bind, Option.bind_some, hskip]
    rfl
  | cons d' ds ih =>
    have hprint : printItems level (d' :: ds) ++ rest = ',' :: (newline (level + 1) ++
        (print (level + 1) d' ++ (printItems level ds ++ rest))) := by
      simp [printItems]
    have hlen : (printItems level (d' :: ds)).length = 1 + (newline (level + 1)).length +
        (print (level + 1) d').length + (printItems level ds).length := by
      simp [printItems]
      omega
    obtain ⟨fuel, rfl⟩ := Nat.exists_eq_succ_of_ne_zero (by omega : fuel ≠ 0)
    have hfit : (print (level + 1) d).length ≤ fuel := by omega
    have hread := hd.readValue_eq hblanks (ended_printItems level (d' :: ds) rest) hfit
    rw [hprint] at hread ⊢
    have hrest := ih (hds d' List.mem_cons_self) (fun d hd => hds d (List.mem_cons_of_mem _ hd))
      (isBlank_newline (level + 1)) (by omega : _ ≤ fuel)
    simp only [readItems, hread, Option.bind_eq_bind, Option.bind_some,
      skip_cons (rfl : isBlank ',' = false), hrest]
    rfl

theorem skip_quoted {blanks : List Char} (hblanks : ∀ c ∈ blanks, isBlank c = true) (k : String)
    (cs : List Char) :
    skip (blanks ++ (quoted k ++ cs)) = '"' :: (k.toList.flatMap escaped ++ '"' :: cs) := by
  rw [skip_append hblanks, quoted, List.cons_append, List.cons_append, skip_cons rfl,
    List.append_assoc, List.singleton_append]

/-- The fields of a record with names. -/
def named (fs : List (String × Document)) : List (Option String × Document) :=
  fs.map fun (k, v) => (some k, v)

theorem readFields_print {fs : List (String × Document)} {k : String} {d : Document} (hd : Reads d)
    (hfs : ∀ f ∈ fs, Reads f.2) {level fuel : Nat} {blanks : List Char} (rest : List Char)
    (hblanks : ∀ c ∈ blanks, isBlank c = true)
    (hfuel : (print (level + 1) d).length + (printFields level (named fs)).length ≤ fuel) :
    readFields fuel (blanks ++ (quoted k ++ (": ".toList ++ (print (level + 1) d ++
        (printFields level (named fs) ++ rest))))) = some ((some k, d) :: named fs, rest) := by
  have hcolon (cs : List Char) : skip (": ".toList ++ cs) = ':' :: ([' '] ++ cs) := rfl
  have hspace : ∀ c ∈ [' '], isBlank c = true := by simp [isBlank]
  induction fs generalizing k d fuel blanks with
  | nil =>
    have hlen : 0 < (printFields level (named [])).length := by simp [named, printFields]
    obtain ⟨fuel, rfl⟩ := Nat.exists_eq_succ_of_ne_zero (by omega : fuel ≠ 0)
    have hfit : (print (level + 1) d).length ≤ fuel := by omega
    have hread := hd.readValue_eq hspace (ended_printFields level (named []) rest) hfit
    have hskip : skip (printFields level (named []) ++ rest) = '}' :: rest := by
      rw [named, List.map_nil, printFields, List.append_assoc, skip_append (isBlank_newline level)]
      rfl
    simp only [readFields, skip_quoted hblanks, readText_quoted, hcolon, hread, Option.bind_eq_bind,
      Option.bind_some, hskip]
    rfl
  | cons f fs ih =>
    obtain ⟨k', d'⟩ := f
    have hprint : printFields level (named ((k', d') :: fs)) ++ rest = ',' :: (newline (level + 1) ++
        (quoted k' ++ (": ".toList ++ (print (level + 1) d' ++
          (printFields level (named fs) ++ rest))))) := by
      simp [named, printFields]
    have hlen : (print (level + 1) d').length + (printFields level (named fs)).length <
        (printFields level (named ((k', d') :: fs))).length := by
      simp [named, printFields]
      omega
    obtain ⟨fuel, rfl⟩ := Nat.exists_eq_succ_of_ne_zero (by omega : fuel ≠ 0)
    have hfit : (print (level + 1) d).length ≤ fuel := by omega
    have hread := hd.readValue_eq hspace (ended_printFields level (named ((k', d') :: fs)) rest) hfit
    have hrest := ih (k := k') (d := d') (hfs (k', d') List.mem_cons_self) (fun f hf => hfs f (List.mem_cons_of_mem _ hf))
      (isBlank_newline (level + 1)) (by omega : _ ≤ fuel)
    rw [hprint] at hread ⊢
    simp only [readFields, skip_quoted hblanks, readText_quoted, hcolon, hread, Option.bind_eq_bind,
      Option.bind_some, skip_cons (rfl : isBlank ',' = false), hrest]
    rfl

theorem exists_fuel {d : Document} (h : Written d) {level fuel : Nat}
    (hfuel : (print level d).length ≤ fuel) : ∃ n, fuel = n + 1 := by
  obtain ⟨c, r, hr, -⟩ := h.exists_print level
  rw [hr, List.length_cons] at hfuel
  exact Nat.exists_eq_succ_of_ne_zero (by omega)

theorem reads_number (negative : Bool) (n : Numeral) :
    Reads (number (String.ofList (Layout.sign negative ++ n.text))) := by
  intro level fuel rest hrest hfuel
  obtain ⟨fuel, rfl⟩ := exists_fuel (.number negative n) hfuel
  obtain ⟨c, r, hr, hc⟩ := exists_number negative n
  have hread := readNumber_append n negative hrest
  have hblank : isBlank c = false := by
    obtain ⟨c', r', hr', hblank, -⟩ := (Written.number negative n).exists_print level
    rw [print, String.toList_ofList, hr] at hr'
    cases hr'
    exact hblank
  rw [print, String.toList_ofList]
  rw [hr] at hread ⊢
  rw [List.cons_append] at hread ⊢
  unfold readValue
  rw [skip_cons hblank]
  -- no other value starts with a minus or a digit
  split
  any_goals
    rename_i heq
    obtain rfl := (List.cons.inj heq).1
    rcases hc with hc | hc <;> cases hc
  rw [hread]
  rfl

theorem readValue_bracket (fuel : Nat) (cs : List Char) : readValue (fuel + 1) ('[' :: cs) =
    match skip cs with
    | ']' :: rest => some (list [], rest)
    | r => (readItems fuel r).map fun (ds, rest) => (list ds, rest) :=
  rfl

theorem readValue_brace (fuel : Nat) (cs : List Char) : readValue (fuel + 1) ('{' :: cs) =
    match skip cs with
    | '}' :: rest => some (record [], rest)
    | r => (readFields fuel r).map fun (fs, rest) => (record fs, rest) :=
  rfl

theorem readValue_list {cs : List Char} (fuel : Nat) (h : ∀ r, skip cs ≠ ']' :: r) :
    readValue (fuel + 1) ('[' :: cs) =
      (readItems fuel (skip cs)).map fun (ds, rest) => (list ds, rest) := by
  rw [readValue_bracket]
  split
  · rename_i heq
    exact absurd heq (h _)
  · rfl

theorem readValue_record {cs : List Char} (fuel : Nat) (h : ∀ r, skip cs ≠ '}' :: r) :
    readValue (fuel + 1) ('{' :: cs) =
      (readFields fuel (skip cs)).map fun (fs, rest) => (record fs, rest) := by
  rw [readValue_brace]
  split
  · rename_i heq
    exact absurd heq (h _)
  · rfl

theorem reads_text (s : String) : Reads (ofString s) := by
  intro level fuel rest hrest hfuel
  obtain ⟨fuel, rfl⟩ := exists_fuel (.text s) hfuel
  have hprint : print level (ofString s) ++ rest =
      '"' :: (s.toList.flatMap escaped ++ '"' :: rest) := by
    simp [ofString, print, quoted]
  rw [hprint]
  change (readText (s.toList.flatMap escaped ++ '"' :: rest)).map
    (fun read => (Document.text read.1, read.2)) = _
  rw [readText_quoted]
  rfl

theorem reads_list {d : Document} {ds : List Document} (items : ∀ x ∈ d :: ds, Written x)
    (h : ∀ x ∈ d :: ds, Reads x) : Reads (list (d :: ds)) := by
  intro level fuel rest hrest hfuel
  obtain ⟨fuel, rfl⟩ := exists_fuel (.list items) hfuel
  obtain ⟨c, r, hr, hblank, hne⟩ := (items d List.mem_cons_self).exists_print (level + 1)
  have hprint : print level (list (d :: ds)) ++ rest = '[' :: (newline (level + 1) ++
      (print (level + 1) d ++ (printItems level ds ++ rest))) := by
    simp [print]
  have hlen : (print (level + 1) d).length + (printItems level ds).length <
      (print level (list (d :: ds))).length := by
    simp [print]
  have hread : readItems fuel ([] ++ (print (level + 1) d ++ (printItems level ds ++ rest))) =
      some (d :: ds, rest) :=
    readItems_print (h d List.mem_cons_self) (fun x hx => h x (List.mem_cons_of_mem _ hx)) rest
      (List.forall_mem_nil _) (by omega)
  have hskip : skip (newline (level + 1) ++ (print (level + 1) d ++ (printItems level ds ++ rest))) =
      print (level + 1) d ++ (printItems level ds ++ rest) := by
    rw [skip_append (isBlank_newline _), hr, List.cons_append, skip_cons hblank]
  have hopen : ∀ r', skip (newline (level + 1) ++ (print (level + 1) d ++
      (printItems level ds ++ rest))) ≠ ']' :: r' := by
    intro r' heq
    rw [hskip, hr] at heq
    exact hne (List.cons.inj heq).1
  rw [hprint, readValue_list fuel hopen, hskip]
  exact congrArg (Option.map _) hread

theorem reads_record {k : String} {d : Document} {fs : List (String × Document)}
    (fields : ∀ f ∈ (k, d) :: fs, Written f.2) (h : ∀ f ∈ (k, d) :: fs, Reads f.2) :
    Reads (ofFields ((k, d) :: fs)) := by
  intro level fuel rest hrest hfuel
  obtain ⟨fuel, rfl⟩ := exists_fuel (.record fields) hfuel
  have hprint : print level (ofFields ((k, d) :: fs)) ++ rest = '{' :: (newline (level + 1) ++
      (quoted k ++ (": ".toList ++ (print (level + 1) d ++
        (printFields level (named fs) ++ rest))))) := by
    simp [ofFields, print, named]
  have hlen : (print (level + 1) d).length + (printFields level (named fs)).length <
      (print level (ofFields ((k, d) :: fs))).length := by
    simp [ofFields, print, named]
    omega
  have hread : readFields fuel ([] ++ (quoted k ++ (": ".toList ++ (print (level + 1) d ++
      (printFields level (named fs) ++ rest))))) = some ((some k, d) :: named fs, rest) :=
    readFields_print (h (k, d) List.mem_cons_self) (fun f hf => h f (List.mem_cons_of_mem _ hf))
      rest (List.forall_mem_nil _) (by dsimp only; omega)
  have hskip (cs : List Char) : skip (newline (level + 1) ++ (quoted k ++ cs)) = quoted k ++ cs := by
    rw [skip_append (isBlank_newline _)]
    rfl
  have hopen (r : List Char) : skip (newline (level + 1) ++ (quoted k ++ (": ".toList ++
      (print (level + 1) d ++ (printFields level (named fs) ++ rest))))) ≠ '}' :: r := by
    rw [hskip]
    intro heq
    cases heq
  rw [hprint, readValue_record fuel hopen, hskip]
  exact congrArg (Option.map _) hread

/-- Every written document is read back. -/
theorem Written.reads {d : Document} (h : Written d) : Reads d := by
  induction h with
  | null =>
    intro level fuel rest hrest hfuel
    obtain ⟨fuel, rfl⟩ := exists_fuel .null hfuel
    rw [print]
    rfl
  | bool b =>
    intro level fuel rest hrest hfuel
    obtain ⟨fuel, rfl⟩ := exists_fuel (.bool b) hfuel
    rw [print]
    cases b <;> rfl
  | number negative n => exact reads_number negative n
  | text s => exact reads_text s
  | @list ds items ih =>
    cases ds with
    | nil =>
      intro level fuel rest hrest hfuel
      obtain ⟨fuel, rfl⟩ := exists_fuel (.list items) hfuel
      rw [print]
      rfl
    | cons d ds => exact reads_list items ih
  | @record fs fields ih =>
    cases fs with
    | nil =>
      intro level fuel rest hrest hfuel
      obtain ⟨fuel, rfl⟩ := exists_fuel (.record fields) hfuel
      rw [ofFields, List.map_nil, print]
      rfl
    | cons f fs => exact reads_record fields ih

/-- A written document is what its text holds. -/
theorem parse?_render {d : Document} (h : Written d) : parse? (render d) = some d := by
  have hread := h.reads 0 (2 * (print 0 d).length + 2) [] nofun (by omega)
  unfold parse? render
  rw [List.append_nil] at hread
  simp only [String.toList_ofList, hread, Option.bind_eq_bind, Option.bind_some]
  rfl

end ApproxQuery.Document
