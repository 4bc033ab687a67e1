import Mathlib.Data.List.Forall2
import EntityGraph.Proofs.ReadBack.Digits
import EntityGraph.Proofs.Writing

/-!
# Texts without spaces

The compact text of a value is its text on one line without the spaces that stand outside of
strings. So values that have one text on one line have one compact text.
-/

namespace EntityGraph.Json

open EntityGraph.Text EntityGraph.Number

/-! ### Leaving out spaces -/

/-- Where a character of a text stands. -/
inductive Region
  | outside
  | inside
  /-- Inside a string, behind a backslash. -/
  | escaped

/-- Where the character behind one stands. -/
def Region.after : Region → Char → Region
  | outside, c => if c = quotationMark then inside else outside
  | inside, c => if c = backslash then escaped else if c = quotationMark then outside else inside
  | escaped, _ => inside

/-- Characters without the spaces among them that stand outside of strings. -/
def unspaced : Region → List Char → List Char
  | _, [] => []
  | .outside, c :: cs =>
    if c = ' ' then unspaced .outside cs else c :: unspaced (Region.outside.after c) cs
  | r, c :: cs => c :: unspaced (r.after c) cs

/-- Without their spaces, characters that begin in one region and end in another are other
characters, whatever follows them. -/
def Condenses (r s : Region) (cs ds : List Char) : Prop :=
  ∀ rest, unspaced r (cs ++ rest) = ds ++ unspaced s rest

/-- Outside of strings, a text without its spaces is another text. -/
abbrev CondensesTo (t u : String) : Prop := Condenses .outside .outside t.toList u.toList

/-- No characters have no spaces. -/
theorem condenses_nil (r : Region) : Condenses r r [] [] := fun _ ↦ rfl

/-- Characters are condensed one part after the other. -/
theorem Condenses.append {q r s : Region} {cs ds cs' ds' : List Char} (h : Condenses q r cs ds)
    (h' : Condenses r s cs' ds') : Condenses q s (cs ++ cs') (ds ++ ds') := by
  intro rest
  rw [List.append_assoc, h, h', List.append_assoc]

/-- A character that is neither a space nor a mark. -/
def IsBare (c : Char) : Prop := c ≠ ' ' ∧ c ≠ quotationMark

instance (c : Char) : Decidable (IsBare c) := inferInstanceAs (Decidable (_ ∧ _))

/-- The characters of a word are bare if each of them proves to be. -/
theorem IsBare.of_all {word : List Char} (h : word.all (fun c ↦ decide (IsBare c)) = true) :
    ∀ c ∈ word, IsBare c := by
  simpa using h

private theorem condenses_bare {cs : List Char} (h : ∀ c ∈ cs, IsBare c) :
    Condenses .outside .outside cs cs := by
  intro rest
  induction cs with
  | nil => rfl
  | cons c cs ih =>
    obtain ⟨⟨noSpace, noMark⟩, hcs⟩ := List.forall_mem_cons.mp h
    rw [List.cons_append, unspaced, if_neg noSpace, Region.after, if_neg noMark, ih hcs,
      List.cons_append]

/-- Characters inside of strings that neither end them nor escape anything stay as they are. -/
theorem condenses_inside {cs : List Char} (h : ∀ c ∈ cs, c ≠ backslash ∧ c ≠ quotationMark) :
    Condenses .inside .inside cs cs := by
  intro rest
  induction cs with
  | nil => rfl
  | cons c cs ih =>
    obtain ⟨⟨noSlash, noMark⟩, hcs⟩ := List.forall_mem_cons.mp h
    have step : unspaced .inside (c :: (cs ++ rest)) =
        c :: unspaced (Region.inside.after c) (cs ++ rest) := by
      rw [unspaced]
      nofun
    rw [List.cons_append, step, Region.after, if_neg noSlash, if_neg noMark, ih hcs,
      List.cons_append]

/-- A backslash and what it escapes stay as they are. -/
theorem condenses_escape (c : Char) : Condenses .inside .inside [backslash, c] [backslash, c] :=
  fun _ ↦ rfl

/-! ### Strings and atoms -/

private theorem condenses_escapeUnit (n : Nat) :
    Condenses .inside .inside (escapeUnit n) (escapeUnit n) := by
  have digits : ∀ c ∈ hex 4 n, c ≠ backslash ∧ c ≠ quotationMark := fun c hc ↦
    (isDigitOf_of_mem (by decide) hc).of_forall
      (P := fun c ↦ c ≠ backslash ∧ c ≠ quotationMark) (by decide)
  exact (condenses_escape 'u').append (condenses_inside digits)

/-- The form of a character in a string stays as it is. -/
private theorem condenses_quoteChar (c : Char) :
    Condenses .inside .inside (quoteChar c) (quoteChar c) := by
  rw [quoteChar]
  split
  · exact condenses_escape c
  split
  · next noMark _ =>
    rw [not_or] at noMark
    exact condenses_inside (List.forall_mem_singleton.mpr noMark.symm)
  split
  · exact condenses_escape 'n'
  split
  · exact condenses_escape 'r'
  split
  · exact condenses_escape 't'
  split
  · exact condenses_escape 'f'
  split
  · exact condenses_escape 'b'
  split
  · exact condenses_escapeUnit _
  · exact (condenses_escapeUnit _).append (condenses_escapeUnit _)

/-- A string keeps its spaces. -/
theorem condensesTo_quoted (s : String) : CondensesTo (quoted s) (quoted s) := by
  have opening : Condenses .outside .inside [quotationMark] [quotationMark] := fun _ ↦ rfl
  have closing : Condenses .inside .outside [quotationMark] [quotationMark] := fun _ ↦ rfl
  have chars (cs : List Char) :
      Condenses .inside .inside (cs.flatMap quoteChar) (cs.flatMap quoteChar) := by
    induction cs with
    | nil => exact condenses_nil _
    | cons c cs ih => exact (condenses_quoteChar c).append ih
  rw [CondensesTo, quoted, String.toList_ofList]
  exact (opening.append (chars s.toList)).append closing

/-- Decimal digits are neither spaces nor marks. -/
theorem isBare_of_isDigitOf {c : Char} (h : IsDigitOf 10 c) : IsBare c :=
  h.of_forall (P := IsBare) (by decide)

/-- The digits of a number are neither spaces nor marks. -/
theorem isBare_of_mem_decimal {n : Nat} {c : Char} (hc : c ∈ decimal n) : IsBare c :=
  isBare_of_isDigitOf (isDigitOf_of_mem_decimal hc)

private theorem isBare_of_mem_decimalInt {i : Int} {c : Char} (hc : c ∈ decimalInt i) :
    IsBare c := by
  cases i with
  | ofNat n => exact isBare_of_mem_decimal hc
  | negSucc n =>
    rcases List.mem_cons.mp hc with rfl | hc
    · exact ⟨by decide, by decide⟩
    · exact isBare_of_mem_decimal hc

private theorem isBare_positional {ds : List Char} (h : ∀ c ∈ ds, IsBare c) (position : Int) :
    ∀ c ∈ positional ds position, IsBare c := by
  have zero : IsBare '0' := ⟨by decide, by decide⟩
  have point : IsBare '.' := ⟨by decide, by decide⟩
  have zeros (n : Nat) : ∀ c ∈ List.replicate n '0', IsBare c := fun c hc ↦
    List.eq_of_mem_replicate hc ▸ zero
  rw [positional]
  split
  · exact List.forall_mem_cons.mpr ⟨zero, List.forall_mem_cons.mpr
      ⟨point, List.forall_mem_append.mpr ⟨zeros _, h⟩⟩⟩
  split
  · refine List.forall_mem_append.mpr ⟨List.forall_mem_append.mpr ⟨h, zeros _⟩, ?_⟩
    exact List.forall_mem_cons.mpr ⟨point, List.forall_mem_singleton.mpr zero⟩
  · refine List.forall_mem_append.mpr ⟨fun c hc ↦ h c (List.mem_of_mem_take hc), ?_⟩
    exact List.forall_mem_cons.mpr ⟨point, fun c hc ↦ h c (List.mem_of_mem_drop hc)⟩

private theorem isBare_exponential {ds : List Char} (h : ∀ c ∈ ds, IsBare c) (position : Int) :
    ∀ c ∈ exponential .json ds position, IsBare c := by
  have exponent (i : Int) : ∀ c ∈ exponentPart i, IsBare c := by
    refine List.forall_mem_cons.mpr ⟨⟨by decide, by decide⟩, List.forall_mem_cons.mpr ⟨?_, ?_⟩⟩
    · split <;> exact ⟨by decide, by decide⟩
    · exact fun c hc ↦ isBare_of_isDigitOf (isDigitOf_of_mem (by decide) hc)
  refine List.forall_mem_append.mpr ⟨List.forall_mem_append.mpr ⟨?_, ?_⟩, exponent _⟩
  · exact fun c hc ↦ h c (List.mem_of_mem_take hc)
  · split
    · exact List.forall_mem_nil _
    · exact List.forall_mem_cons.mpr
        ⟨⟨by decide, by decide⟩, fun c hc ↦ h c (List.mem_of_mem_drop hc)⟩

/-- The text of a binary number has neither spaces nor marks. -/
private theorem isBare_of_mem_floatText (x : Binary64) : ∀ c ∈ (x.text .json).toList, IsBare c := by
  cases x with
  | finite negative m e =>
    have digits : ∀ c ∈ decimal (shortest m e).digits, IsBare c := fun c ↦ isBare_of_mem_decimal
    rw [Binary64.text, String.toList_ofList]
    refine List.forall_mem_append.mpr ⟨?_, ?_⟩
    · cases negative
      · exact List.forall_mem_nil _
      · exact List.forall_mem_singleton.mpr ⟨by decide, by decide⟩
    · simp only [decimalText]
      generalize (if (shortest m e).digits = 0 then (1 : Int) else _) = position
      split
      · exact isBare_positional digits _
      · exact isBare_exponential digits _
  | infinite negative => cases negative <;> exact .of_all (by decide)
  | nan => exact .of_all (by decide)

/-- The form of an atom has no spaces but those in strings. -/
private theorem condensesTo_atomText {a : Atom} {t : String} (h : atomText? a = some (.ok t)) :
    CondensesTo t t := by
  cases a with
  | null =>
    obtain rfl := Except.ok.inj (Option.some.inj h)
    exact condenses_bare (.of_all (by decide))
  | bool b =>
    obtain rfl := Except.ok.inj (Option.some.inj h)
    cases b <;> exact condenses_bare (.of_all (by decide))
  | int i =>
    have written := Option.some.inj h
    rw [intText] at written
    split at written
    · cases written
    · obtain rfl := Except.ok.inj written
      rw [CondensesTo, String.toList_ofList]
      exact condenses_bare fun c hc ↦ isBare_of_mem_decimalInt hc
  | float x =>
    obtain rfl := Except.ok.inj (Option.some.inj h)
    exact condenses_bare (isBare_of_mem_floatText x)
  | text s =>
    obtain rfl := Except.ok.inj (Option.some.inj h)
    exact condensesTo_quoted s
  | _ => cases h

/-! ### Brackets -/

private theorem condenses_intercalate {cs ds : List (List Char)}
    (h : List.Forall₂ (Condenses .outside .outside) cs ds) :
    Condenses .outside .outside ([',', ' '].intercalate cs) ([','].intercalate ds) := by
  have comma : Condenses .outside .outside [',', ' '] [','] := fun _ ↦ rfl
  induction h with
  | nil => exact condenses_nil _
  | @cons c d cs ds hcd rest ih =>
    cases rest with
    | nil =>
      rw [List.intercalate_singleton, List.intercalate_singleton]
      exact hcd
    | cons =>
      rw [List.intercalate_cons_cons, List.intercalate_cons_cons]
      exact (hcd.append comma).append ih

private theorem condensesTo_enclose {ts us : List String} (h : List.Forall₂ CondensesTo ts us)
    {left right : String} (opening : CondensesTo left left) (closing : CondensesTo right right)
    (level : Nat) : CondensesTo (Style.sortedLine.enclose level left right ts)
      (Style.compact.enclose level left right us) := by
  have chars : List.Forall₂ (Condenses .outside .outside) (ts.map String.toList)
      (us.map String.toList) := by
    rw [List.forall₂_map_left_iff, List.forall₂_map_right_iff]
    exact h
  have inside := condenses_intercalate chars
  have brackets := (opening.append inside).append closing
  rw [CondensesTo, Style.enclose, Style.enclose]
  cases h with
  | nil => simpa using opening.append closing
  | cons => simpa [Style.lineBreak, Style.sortedLine, Style.line, Style.compact] using brackets

/-! ### Values -/

/-- Wherever a value is written on one line, it is written compactly, without the spaces. -/
def IsCondensed (v : Value) : Prop :=
  ∀ level t, write .sortedLine level v = .ok t →
    ∃ u, write .compact level v = .ok u ∧ CondensesTo t u

private theorem orderEntries_writeEntries {style : Style} (sorted : style.sorted = true)
    (level : Nat) (es : List (Value × Value)) :
    orderEntries style (writeEntries style level es) = (checkOrders (es.map (·.1))).map fun _ ↦
      writeEntries style level (es.mergeSort fun e f ↦ !keyLess f.1 e.1) := by
  have sort : (es.map fun e ↦ (e.1, write style level e.2)).mergeSort
      (fun e f ↦ !keyLess f.1 e.1) =
      (es.mergeSort fun e f ↦ !keyLess f.1 e.1).map fun e ↦ (e.1, write style level e.2) :=
    (List.map_mergeSort (f := fun e : Value × Value ↦ (e.1, write style level e.2))
      fun _ _ _ _ ↦ rfl).symm
  rw [orderEntries, if_pos sorted, writeEntries_eq_map, writeEntries_eq_map, sort, List.map_map]
  rfl

/-- The members of an object are condensed if its values are. -/
private theorem exists_objectMembers_condensed {es : List (Value × Value)}
    (h : ∀ e ∈ es, IsCondensed e.2) {level : Nat} {ts : List String}
    (hts : objectMembers .sortedLine (writeEntries .sortedLine level es) = .ok ts) :
    ∃ us, objectMembers .compact (writeEntries .compact level es) = .ok us ∧
      List.Forall₂ CondensesTo ts us := by
  have colon : CondensesTo ": " ":" := fun _ ↦ rfl
  induction es generalizing ts with
  | nil =>
    obtain rfl := Except.ok.inj hts
    exact ⟨[], rfl, .nil⟩
  | cons e es ih =>
    obtain ⟨k, v⟩ := e
    obtain ⟨hv, hes⟩ := List.forall_mem_cons.mp h
    rw [writeEntries] at hts
    obtain ⟨name, hname, hts⟩ := (Success.bind_eq_ok _ _ _).mp hts
    obtain ⟨t, ht, hts⟩ := (Success.bind_eq_ok _ _ _).mp hts
    obtain ⟨ts, hts', hts⟩ := (Success.bind_eq_ok _ _ _).mp hts
    obtain rfl := Except.ok.inj hts
    obtain ⟨u, hu, htu⟩ := hv level t ht
    obtain ⟨us, hus, htus⟩ := ih hes hts'
    have key : keyText .compact k = .ok name := hname
    refine ⟨(quoted name ++ ":" ++ u) :: us, ?_, .cons ?_ htus⟩
    · rw [writeEntries, objectMembers, key, hu, hus]
      rfl
    · simp only [CondensesTo, String.toList_append]
      exact ((condensesTo_quoted name).append colon).append htu

mutual

/-- A value that is written on one line is written compactly, without the spaces. -/
theorem isCondensed (v : Value) : IsCondensed v := by
  intro level t ht
  cases v with
  | atom id a =>
    rw [write] at ht ⊢
    cases h : atomText? a with
    | none =>
      rw [h] at ht
      cases ht
    | some x =>
      rw [h] at ht
      obtain rfl : x = .ok t := ht
      exact ⟨t, rfl, condensesTo_atomText h⟩
  | seq id kind items =>
    have opening : CondensesTo "[" "[" := fun _ ↦ rfl
    have closing : CondensesTo "]" "]" := fun _ ↦ rfl
    cases kind with
    | list | tuple =>
      obtain ⟨ts, hts, rfl⟩ := (Success.map_eq_ok _ _ _).mp ht
      obtain ⟨us, hus, htus⟩ := exists_writeItems_condensed items hts
      exact ⟨Style.compact.array level us, by rw [write, hus]; rfl,
        condensesTo_enclose htus opening closing level⟩
    | set | frozenset => cases ht
  | dict id entries =>
    have opening : CondensesTo "\x7b" "\x7b" := fun _ ↦ rfl
    have closing : CondensesTo "\x7d" "\x7d" := fun _ ↦ rfl
    have values := isCondensed_values entries
    obtain ⟨fs, hfs, ht⟩ := (Success.bind_eq_ok _ _ _).mp ht
    obtain ⟨ts, hts, ht⟩ := (Success.bind_eq_ok _ _ _).mp ht
    obtain rfl := Except.ok.inj ht
    rw [orderEntries_writeEntries rfl] at hfs
    obtain ⟨_, ordered, rfl⟩ := (Success.map_eq_ok _ _ _).mp hfs
    obtain ⟨us, hus, htus⟩ :=
      exists_objectMembers_condensed (fun e he ↦ values e (List.mem_mergeSort.mp he)) hts
    refine ⟨Style.compact.object level us, ?_, condensesTo_enclose htus opening closing level⟩
    rw [write, orderEntries_writeEntries rfl, ordered]
    simp only [Except.map, bind, Except.bind, hus]
    rfl
  | loop id kind => cases ht
termination_by structural v

/-- Members that are written on one line are written compactly, without the spaces. -/
theorem exists_writeItems_condensed (vs : List Value) {level : Nat} {ts : List String}
    (hts : writeItems .sortedLine level vs = .ok ts) :
    ∃ us, writeItems .compact level vs = .ok us ∧ List.Forall₂ CondensesTo ts us := by
  cases vs with
  | nil =>
    obtain rfl := Except.ok.inj hts
    exact ⟨[], rfl, .nil⟩
  | cons v vs =>
    obtain ⟨t, ht, hts⟩ := (Success.bind_eq_ok _ _ _).mp hts
    obtain ⟨ts, hts', hts⟩ := (Success.bind_eq_ok _ _ _).mp hts
    obtain rfl := Except.ok.inj hts
    obtain ⟨u, hu, htu⟩ := isCondensed v level t ht
    obtain ⟨us, hus, htus⟩ := exists_writeItems_condensed vs hts'
    exact ⟨u :: us, by rw [writeItems, hu, hus]; rfl, .cons htu htus⟩
termination_by structural vs

/-- The values of entries are written compactly as they are on one line, without the spaces. -/
theorem isCondensed_values (es : List (Value × Value)) : ∀ e ∈ es, IsCondensed e.2 := by
  cases es with
  | nil => exact List.forall_mem_nil _
  | cons e es =>
    obtain ⟨k, v⟩ := e
    exact List.forall_mem_cons.mpr ⟨isCondensed v, isCondensed_values es⟩
termination_by structural es

end

/-- The compact text of a value is its text on one line without the spaces. -/
theorem text_compact_eq {v : Value} {t : String} (ht : text .sortedLine v = .ok t) :
    text .compact v = .ok (String.ofList (unspaced .outside t.toList)) := by
  obtain ⟨u, hu, condensed⟩ := isCondensed v 0 t ht
  have chars : unspaced .outside t.toList = u.toList := by
    simpa [unspaced] using condensed []
  rw [chars, String.ofList_toList]
  exact hu

example : unspaced .outside "[1, \", \"]".toList = "[1,\", \"]".toList := by decide

end EntityGraph.Json
