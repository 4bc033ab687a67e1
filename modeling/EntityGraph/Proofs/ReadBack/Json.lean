import EntityGraph.Proofs.Anonymity
import EntityGraph.Proofs.Parts
import EntityGraph.Proofs.ReadBack.JsonTokens
import EntityGraph.Proofs.Success

/-!
# JSON read back

A value that is built from plain atoms, lists, and mappings of distinct texts has a JSON text in
every style that puts nothing but blanks behind commas and colons and in front of lines. The text is
read as the anonymous value of the same content.
-/

namespace EntityGraph.Json

open EntityGraph.Number EntityGraph.Text

/-! ### Blanks -/

/-- Characters between tokens. -/
def AreBlanks (cs : List Char) : Prop := ∀ c ∈ cs, Ahead.isBlank c = true

/-- Blanks are passed over up to what is none. -/
theorem skipBlanks_append {bs cs : List Char} (blanks : AreBlanks bs)
    (ends : ∀ c ∈ cs.head?, Ahead.isBlank c = false) (position : Nat) :
    Ahead.skipBlanks ⟨bs ++ cs, position⟩ = ⟨cs, position + bs.length⟩ := by
  have run : (bs ++ cs).takeWhile Ahead.isBlank = bs := by
    rw [List.takeWhile_append_of_pos blanks]
    cases cs with
    | nil => simp
    | cons c cs => simp [ends c rfl]
  rw [Ahead.skipBlanks]
  simp only [run]
  rw [Ahead.drop, List.drop_left]

/-- Nothing is passed over in front of what is no blank. -/
theorem skipBlanks_cons {c : Char} (h : Ahead.isBlank c = false) (cs : List Char)
    (position : Nat) : Ahead.skipBlanks ⟨c :: cs, position⟩ = ⟨c :: cs, position⟩ :=
  skipBlanks_append (List.forall_mem_nil _) (by rintro d ⟨⟩; exact h) position

/-- A character that is due is passed. -/
theorem expect_cons (c : Char) (cs : List Char) (position : Nat) (due : Due) :
    Ahead.expect ⟨c :: cs, position⟩ c due = .ok ⟨cs, position + 1⟩ := if_pos rfl

/-- What may stand behind a value: nothing, a blank, a comma, or what closes a list or a mapping. -/
def EndsValue (rest : List Char) : Prop :=
  ∀ c ∈ rest.head?, Ahead.isBlank c = true ∨ c = ',' ∨ c = ']' ∨ c.toNat = 0x7D

/-- Blanks may stand behind a value. -/
theorem EndsValue.blanks_append {bs cs : List Char} (blanks : AreBlanks bs) (h : EndsValue cs) :
    EndsValue (bs ++ cs) := by
  cases bs with
  | nil => exact h
  | cons b bs =>
    rintro c ⟨⟩
    exact .inl (blanks b List.mem_cons_self)

private theorem EndsValue.endsNumber {rest : List Char} (h : EndsValue rest) : EndsNumber rest := by
  intro c hc
  rcases h c hc with blank | rfl | rfl | brace
  · simp only [Ahead.isBlank, Bool.or_eq_true, decide_eq_true_eq] at blank
    rcases blank with ((rfl | rfl) | rfl) | rfl <;> decide
  · decide
  · decide
  · have char : c = Char.ofNat 0x7D := by rw [← brace, Char.ofNat_toNat]
    rw [char]
    decide

/-! ### Values -/

/-- A character that a value may begin with: no blank, nothing that closes a list, and no byte order
mark. -/
def BeginsValue (c : Char) : Prop :=
  Ahead.isBlank c = false ∧ c ≠ ']' ∧ c ≠ Char.ofNat 0xFEFF

instance (c : Char) : Decidable (BeginsValue c) := inferInstanceAs (Decidable (_ ∧ _ ∧ _))

/-- A text that is read as a value wherever it stands. -/
structure Spells (cs : List Char) (v : Value) : Prop where
  first : ∃ c ds, cs = c :: ds ∧ BeginsValue c
  takes : ∀ fuel, cs.length ≤ fuel → Takes (value fuel) EndsValue cs v

/-- What is read as a scalar is read as a value, unless it begins as another one does. -/
theorem spells_of_scalar {c : Char} {cs : List Char} {v : Value}
    (h : Takes scalar EndsNumber (c :: cs) v) (begins : BeginsValue c)
    (other : c ≠ quotationMark ∧ c.toNat ≠ 0x7B ∧ c ≠ '[') : Spells (c :: cs) v := by
  refine ⟨⟨c, cs, rfl, begins⟩, ?_⟩
  intro fuel enough rest position ends
  cases fuel with
  | zero => exact absurd enough (Nat.not_succ_le_zero _)
  | succ fuel =>
    rw [value]
    simp only [List.cons_append, other.1, other.2.1, other.2.2, if_false]
    exact h rest position ends.endsNumber

private theorem spells_null : Spells "null".toList .null :=
  spells_of_scalar (fun rest position _ ↦ takes_null rest position trivial) (by decide) (by decide)

private theorem spells_bool (b : Bool) : Spells (if b then "true" else "false").toList
    (.bool b) := by
  have word : Takes scalar EndsNumber (if b then "true" else "false").toList (.bool b) :=
    fun rest position _ ↦ takes_bool b rest position trivial
  cases b
  · exact spells_of_scalar word (by decide) (by decide)
  · exact spells_of_scalar word (by decide) (by decide)

/-- An integer that is short enough is read back. -/
private theorem spells_int {i : Int} (short : Integer.isTooLong i = false) :
    Spells (decimalInt i) (.int i) := by
  have digits : ∀ d : Fin 10, BeginsValue (Nat.digitChar d) ∧ Nat.digitChar d ≠ quotationMark ∧
      (Nat.digitChar d).toNat ≠ 0x7B ∧ Nat.digitChar d ≠ '[' := by decide
  have number := takes_decimalInt short
  cases i with
  | negSucc n => exact spells_of_scalar number (by decide) (by decide)
  | ofNat n =>
    rw [decimalInt] at number ⊢
    cases first : decimal n with
    | nil => exact absurd first Nat.toDigits_ne_nil
    | cons c cs =>
      have digit : IsDigitOf 10 c := isDigitOf_of_mem_decimal (first ▸ List.mem_cons_self)
      have plain := digit.of_forall
        (P := fun c ↦ BeginsValue c ∧ c ≠ quotationMark ∧ c.toNat ≠ 0x7B ∧ c ≠ '[') digits
      rw [first] at number
      exact spells_of_scalar number plain.1 plain.2

private theorem spells_text (s : String) : Spells (quotedChars s.toList) (.text s) := by
  refine ⟨⟨quotationMark, _, rfl, by decide⟩, ?_⟩
  intro fuel enough rest position _
  cases fuel with
  | zero => exact absurd enough (Nat.not_succ_le_zero _)
  | succ fuel =>
    obtain ⟨next, hnext⟩ := takes_string s rest (position + 1) trivial
    refine ⟨next, ?_⟩
    rw [value]
    show (string ⟨s.toList.flatMap quoteChar ++ [quotationMark] ++ rest, position + 1⟩).map _ = _
    rw [hnext]
    rfl

/-! ### Items within brackets -/

private theorem exists_intercalate_cons_eq (sep t : List Char) (texts : List (List Char)) :
    ∃ more, sep.intercalate (t :: texts) = t ++ more := by
  cases texts with
  | nil => exact ⟨[], by rw [List.intercalate_singleton, List.append_nil]⟩
  | cons u texts =>
    exact ⟨_, by rw [List.intercalate_cons_cons, List.append_assoc]⟩

/-- What a reader of items with commas between them does at an item: it goes on behind a comma, and
it ends behind what closes the items, which no item begins with. -/
structure ReadsItems {α : Type} (item : List Char → α → Prop) (closing : Char)
    (reader : Nat → Ahead → Except ReadError (List α × Ahead)) : Prop where
  first {t : List Char} {a : α} (h : item t a) :
    ∃ c cs, t = c :: cs ∧ Ahead.isBlank c = false ∧ c ≠ closing
  last {t : List Char} {a : α} (h : item t a) {bs : List Char} (blanks : AreBlanks bs)
    {fuel : Nat} (enough : t.length ≤ fuel) (rest : List Char) (position : Nat) :
    ∃ next, reader (fuel + 1) ⟨t ++ (bs ++ closing :: rest), position⟩ = .ok ([a], ⟨rest, next⟩)
  more {t : List Char} {a : α} (h : item t a) {bs cs : List Char} (blanks : AreBlanks bs)
    (ends : ∀ c ∈ cs.head?, Ahead.isBlank c = false) {fuel : Nat} (enough : t.length ≤ fuel)
    (position : Nat) :
    ∃ next, reader (fuel + 1) ⟨t ++ ',' :: (bs ++ cs), position⟩ =
      (reader fuel ⟨cs, next⟩).map fun (as, rest) ↦ (a :: as, rest)

namespace ReadsItems

variable {α : Type} {item : List Char → α → Prop} {closing : Char}
  {reader : Nat → Ahead → Except ReadError (List α × Ahead)} (h : ReadsItems item closing reader)
  {os bs ds : List Char} {texts : List (List Char)} {as : List α}

include h

/-- Items begin with what is no blank and does not close them. -/
theorem exists_intercalate_eq (sep : List Char) (items : List.Forall₂ item texts as)
    (some : texts ≠ []) :
    ∃ c cs, sep.intercalate texts = c :: cs ∧ Ahead.isBlank c = false ∧ c ≠ closing := by
  cases items with
  | nil => exact absurd rfl some
  | @cons t a texts as ht _ =>
    obtain ⟨c, cs, rfl, plain⟩ := h.first ht
    obtain ⟨more, hmore⟩ := exists_intercalate_cons_eq sep (c :: cs) texts
    exact ⟨c, cs ++ more, hmore, plain⟩

/-- Written items are read up to what closes them. -/
private theorem takes (separating : AreBlanks bs) (behind : AreBlanks ds)
    (items : List.Forall₂ item texts as) (some : texts ≠ []) {fuel : Nat}
    (enough : ((',' :: bs).intercalate texts).length < fuel) :
    Takes (reader fuel) (fun _ ↦ True) ((',' :: bs).intercalate texts ++ (ds ++ [closing])) as := by
  intro rest position _
  induction items generalizing fuel position with
  | nil => exact absurd rfl some
  | @cons t a texts as ht hts ih =>
    cases fuel with
    | zero => exact absurd enough (Nat.not_lt_zero _)
    | succ fuel =>
      have end_eq : ∀ cs, cs ++ (ds ++ [closing]) ++ rest = cs ++ (ds ++ closing :: rest) := by simp
      rw [end_eq]
      cases hts with
      | nil =>
        rw [List.intercalate_singleton] at enough ⊢
        exact h.last ht behind (Nat.le_of_lt_succ enough) rest position
      | @cons u b texts as hu hts =>
        obtain ⟨c, cs, first, noBlank, -⟩ :=
          h.exists_intercalate_eq (',' :: bs) (.cons hu hts) (List.cons_ne_nil u texts)
        rw [List.intercalate_cons_cons] at enough ⊢
        generalize (',' :: bs).intercalate (u :: texts) = tail at *
        rw [List.length_append, List.length_append, List.length_cons] at enough
        have ends : ∀ c ∈ (tail ++ (ds ++ closing :: rest)).head?, Ahead.isBlank c = false := by
          rw [first]
          rintro d ⟨⟩
          exact noBlank
        have small : t.length ≤ fuel := by omega
        have enough : tail.length < fuel := by omega
        obtain ⟨next, hnext⟩ := h.more ht separating ends small position
        obtain ⟨last, hlast⟩ := ih (List.cons_ne_nil u texts) enough next
        rw [end_eq] at hlast
        refine ⟨last, ?_⟩
        rw [List.append_assoc, List.append_assoc, List.cons_append, hnext, hlast]
        rfl

/-- Behind what opens written items and the blanks there, they are read up to what closes them. -/
theorem exists_skipBlanks (opening : AreBlanks os) (separating : AreBlanks bs)
    (behind : AreBlanks ds) (items : List.Forall₂ item texts as) (some : texts ≠ []) {fuel : Nat}
    (enough : (os ++ ((',' :: bs).intercalate texts ++ (ds ++ [closing]))).length ≤ fuel)
    (rest : List Char) (position : Nat) :
    ∃ a c next, Ahead.skipBlanks
        ⟨os ++ ((',' :: bs).intercalate texts ++ (ds ++ [closing])) ++ rest, position⟩ = a ∧
      a.chars.head? = Option.some c ∧ c ≠ closing ∧ reader fuel a = .ok (as, ⟨rest, next⟩) := by
  have enough : ((',' :: bs).intercalate texts).length < fuel := by
    simp only [List.length_append, List.length_cons] at enough
    omega
  obtain ⟨next, hnext⟩ :=
    h.takes separating behind items some enough rest (position + os.length) trivial
  obtain ⟨c, cs, first, noBlank, noEnd⟩ := h.exists_intercalate_eq (',' :: bs) items some
  refine ⟨_, c, next, ?_, ?_, noEnd, hnext⟩
  · rw [List.append_assoc]
    apply skipBlanks_append opening
    rw [first]
    rintro d ⟨⟩
    exact noBlank
  · rw [first]
    rfl

end ReadsItems

/-! ### Lists -/

/-- The members of a list are read one by one. -/
private theorem readsItems_members : ReadsItems Spells ']' members where
  first h := by
    obtain ⟨c, cs, first, noBlank, noBracket, -⟩ := h.first
    exact ⟨c, cs, first, noBlank, noBracket⟩
  last {t v} h {bs} blanks {fuel} enough rest position := by
    have ends : EndsValue (bs ++ ']' :: rest) :=
      .blanks_append blanks (by rintro c ⟨⟩; exact .inr (.inr (.inl rfl)))
    obtain ⟨next, hnext⟩ := h.takes fuel enough _ position ends
    have passed : Ahead.skipBlanks ⟨bs ++ ']' :: rest, next⟩ = ⟨']' :: rest, next + bs.length⟩ :=
      skipBlanks_append blanks (by rintro c ⟨⟩; decide) next
    refine ⟨next + bs.length + 1, ?_⟩
    rw [members, hnext]
    simp only [bind, Except.bind, passed]
    exact if_pos rfl
  more {t v} h {bs cs} blanks ends {fuel} enough position := by
    have ends' : EndsValue (',' :: (bs ++ cs)) := by
      rintro c ⟨⟩
      exact .inr (.inl rfl)
    obtain ⟨next, hnext⟩ := h.takes fuel enough _ position ends'
    have more : ¬ (',' :: (bs ++ cs)).head? = some ']' := by simp
    refine ⟨next + 1 + bs.length, ?_⟩
    rw [members, hnext]
    simp only [bind, Except.bind, skipBlanks_cons (c := ',') (by decide), more, if_false,
      expect_cons, skipBlanks_append blanks ends]
    cases members fuel _ <;> rfl

private theorem spells_nil : Spells ['[', ']'] (.list []) := by
  refine ⟨⟨'[', [']'], rfl, by decide⟩, ?_⟩
  intro fuel enough rest position _
  cases fuel with
  | zero => exact absurd enough (Nat.not_succ_le_zero _)
  | succ fuel => exact ⟨position + 2, rfl⟩

/-- Members within brackets are read as a list. -/
private theorem spells_list {os bs ds : List Char} {texts : List (List Char)} {vs : List Value}
    (opening : AreBlanks os) (separating : AreBlanks bs) (closing : AreBlanks ds)
    (h : List.Forall₂ Spells texts vs) (some : texts ≠ []) :
    Spells ('[' :: (os ++ ((',' :: bs).intercalate texts ++ (ds ++ [']'])))) (.list vs) := by
  refine ⟨⟨'[', _, rfl, by decide⟩, ?_⟩
  intro fuel enough rest position _
  cases fuel with
  | zero => exact absurd enough (Nat.not_succ_le_zero _)
  | succ fuel =>
    obtain ⟨a, c, next, passed, first, noEnd, hnext⟩ := readsItems_members.exists_skipBlanks
      opening separating closing h some (Nat.le_of_succ_le_succ enough) rest (position + 1)
    have more : ¬ a.chars.head? = Option.some ']' := by
      rw [first]
      exact fun h ↦ noEnd (Option.some.inj h)
    have inside : Ahead.skipBlanks (Ahead.drop 1 ⟨'[' :: (_ ++ rest), position⟩) = a := passed
    refine ⟨next, ?_⟩
    rw [value, List.cons_append]
    show (if (Ahead.skipBlanks (Ahead.drop 1 _)).chars.head? = Option.some ']' then _ else _) = _
    rw [inside, if_neg more, hnext]
    rfl

/-! ### Mappings -/

/-- What closes a mapping. -/
def closingBrace : Char := Char.ofNat 0x7D

/-- What is read behind an entry of a mapping: its end, or the other entries. -/
def behindEntry (fuel : Nat) (e : Value × Value) (a : Ahead) :
    Except ReadError (List (Value × Value) × Ahead) := do
  let rest := a.skipBlanks
  if (rest.chars.head?.map Char.toNat) = some 0x7D then return ([e], rest.drop 1)
  let rest ← rest.expect ',' .comma
  let (es, rest) ← entries fuel rest.skipBlanks
  return (e :: es, rest)

/-- A text that is read as an entry of a mapping: the text of a key, a colon with blanks behind it,
and the text of a value. -/
def SpellsEntry (bs cs : List Char) (e : Value × Value) : Prop :=
  ∃ s t, e.1 = .text s ∧ Spells t e.2 ∧ cs = quotedChars s.toList ++ (':' :: bs ++ t)

/-- An entry is read, and then what is behind it. -/
private theorem SpellsEntry.exists_entries_eq {bs cs rest : List Char} {e : Value × Value}
    (h : SpellsEntry bs cs e) (blanks : AreBlanks bs) (ends : EndsValue rest) {fuel : Nat}
    (enough : cs.length ≤ fuel) (position : Nat) :
    ∃ next, entries (fuel + 1) ⟨cs ++ rest, position⟩ = behindEntry fuel e ⟨rest, next⟩ := by
  obtain ⟨k, v⟩ := e
  obtain ⟨s, t, rfl, ht, rfl⟩ := h
  obtain ⟨c, ds, first, begins⟩ := ht.first
  have small : t.length ≤ fuel := by
    rw [List.length_append, List.length_append] at enough
    omega
  obtain ⟨colon, hcolon⟩ := takes_string s (':' :: (bs ++ (t ++ rest))) (position + 1) trivial
  obtain ⟨next, hnext⟩ := ht.takes fuel small rest (colon + 1 + bs.length) ends
  have noBlank : ∀ c ∈ (t ++ rest).head?, Ahead.isBlank c = false := by
    rw [first]
    rintro c ⟨⟩
    exact begins.1
  have whole : quotedChars s.toList ++ (':' :: bs ++ t) ++ rest = quotationMark ::
      (s.toList.flatMap quoteChar ++ [quotationMark] ++ ':' :: (bs ++ (t ++ rest))) := by
    simp [quotedChars]
  refine ⟨next, ?_⟩
  rw [whole, entries]
  simp only [bind, Except.bind, expect_cons, hcolon, skipBlanks_cons (c := ':') (by decide),
    skipBlanks_append blanks noBlank, hnext]
  rfl

/-- The entries of a mapping are read one by one. -/
private theorem readsItems_entries {gs : List Char} (behindColon : AreBlanks gs) :
    ReadsItems (SpellsEntry gs) closingBrace entries where
  first h := by
    obtain ⟨s, t, -, -, rfl⟩ := h
    exact ⟨quotationMark, _, rfl, by decide, by decide⟩
  last {t e} h {bs} blanks {fuel} enough rest position := by
    have ends : EndsValue (bs ++ closingBrace :: rest) :=
      .blanks_append blanks (by rintro c ⟨⟩; exact .inr (.inr (.inr rfl)))
    obtain ⟨next, hnext⟩ := h.exists_entries_eq behindColon ends enough position
    have passed : Ahead.skipBlanks ⟨bs ++ closingBrace :: rest, next⟩ =
        ⟨closingBrace :: rest, next + bs.length⟩ :=
      skipBlanks_append blanks (by rintro c ⟨⟩; decide) next
    refine ⟨next + bs.length + 1, ?_⟩
    rw [hnext, behindEntry]
    simp only [passed]
    exact if_pos rfl
  more {t e} h {bs cs} blanks ends {fuel} enough position := by
    have ends' : EndsValue (',' :: (bs ++ cs)) := by
      rintro c ⟨⟩
      exact .inr (.inl rfl)
    obtain ⟨next, hnext⟩ := h.exists_entries_eq behindColon ends' enough position
    have more : ¬ (',' :: (bs ++ cs)).head?.map Char.toNat = some 0x7D := by simp
    refine ⟨next + 1 + bs.length, ?_⟩
    rw [hnext, behindEntry]
    simp only [bind, Except.bind, skipBlanks_cons (c := ',') (by decide), more, if_false,
      expect_cons, skipBlanks_append blanks ends]
    cases entries fuel _ <;> rfl

private theorem spells_noEntries : Spells [Char.ofNat 0x7B, closingBrace] (.dict .fresh []) := by
  refine ⟨⟨Char.ofNat 0x7B, [closingBrace], rfl, by decide⟩, ?_⟩
  intro fuel enough rest position _
  cases fuel with
  | zero => exact absurd enough (Nat.not_succ_le_zero _)
  | succ fuel => exact ⟨position + 2, rfl⟩

/-- Entries within braces are read as a mapping, if their keys are distinct. -/
private theorem spells_dict {os bs gs ds : List Char} {texts : List (List Char)}
    {es : List (Value × Value)} (opening : AreBlanks os) (separating : AreBlanks bs)
    (behindColon : AreBlanks gs) (closing : AreBlanks ds)
    (h : List.Forall₂ (SpellsEntry gs) texts es) (some : texts ≠ [])
    (distinct : (es.map (·.1)).Nodup) :
    Spells (Char.ofNat 0x7B :: (os ++ ((',' :: bs).intercalate texts ++ (ds ++ [closingBrace]))))
      (.dict .fresh es) := by
  refine ⟨⟨Char.ofNat 0x7B, _, rfl, by decide⟩, ?_⟩
  intro fuel enough rest position _
  cases fuel with
  | zero => exact absurd enough (Nat.not_succ_le_zero _)
  | succ fuel =>
    obtain ⟨a, c, next, passed, first, noEnd, hnext⟩ :=
      (readsItems_entries behindColon).exists_skipBlanks opening separating closing h some
        (Nat.le_of_succ_le_succ enough) rest (position + 1)
    have more : ¬ a.chars.head?.map Char.toNat = Option.some 0x7D := by
      rw [first]
      intro brace
      apply noEnd
      rw [closingBrace, ← Option.some.inj brace, Char.ofNat_toNat]
    have ordered : Value.ofEntries .fresh es = .dict .fresh es := by
      have texts : ∀ e ∈ es, e.1.IsText := by
        intro e he
        obtain ⟨t, -, s, _, hs, -⟩ := Success.exists_of_forall₂ h.flip he
        exact ⟨s, hs⟩
      rw [Value.ofEntries, Value.foldl_insert_eq es texts distinct]
    have inside : Ahead.skipBlanks (Ahead.drop 1 ⟨Char.ofNat 0x7B :: (_ ++ rest), position⟩) = a :=
      passed
    refine ⟨next, ?_⟩
    rw [value, List.cons_append]
    show (if (Ahead.skipBlanks (Ahead.drop 1 _)).chars.head?.map Char.toNat = Option.some 0x7D
      then _ else _) = _
    rw [inside, if_neg more, hnext, ← ordered]
    rfl

/-! ### Styles -/

/-- A style that puts nothing but blanks behind commas and colons and in front of lines, and that
leaves entries in their order. -/
structure Style.IsSpaced (s : Style) : Prop where
  comma : ∃ bs, s.comma.toList = ',' :: bs ∧ AreBlanks bs
  colon : ∃ bs, s.colon.toList = ':' :: bs ∧ AreBlanks bs
  indent : ∀ unit ∈ s.indent, AreBlanks unit.toList
  unsorted : s.sorted = false

/-- A space is blank. -/
theorem areBlanks_space : AreBlanks [' '] := List.forall_mem_singleton.mpr rfl

/-- The style of one line is such a style. -/
theorem isSpaced_line : Style.line.IsSpaced where
  comma := ⟨[' '], rfl, areBlanks_space⟩
  colon := ⟨[' '], rfl, areBlanks_space⟩
  indent := nofun
  unsorted := rfl

/-- A style of indented lines is such a style if they are indented by blanks. -/
theorem isSpaced_indented {unit : String} (blanks : AreBlanks unit.toList) :
    (Style.indented unit).IsSpaced :=
  have comma : (Style.indented unit).comma = "," := rfl
  have colon : (Style.indented unit).colon = ": " := rfl
  { comma := ⟨[], by rw [comma]; rfl, List.forall_mem_nil _⟩
    colon := ⟨[' '], by rw [colon]; rfl, areBlanks_space⟩
    indent := by
      rintro _ ⟨⟩
      exact blanks
    unsorted := rfl }

/-- The style of documents is such a style. -/
theorem isSpaced_document : Style.document.IsSpaced :=
  have blanks : AreBlanks "  ".toList := List.forall_mem_cons.mpr ⟨rfl, areBlanks_space⟩
  have lines := isSpaced_indented blanks
  ⟨lines.comma, lines.colon, lines.indent, lines.unsorted⟩

namespace Style.IsSpaced

variable {style : Style} (h : style.IsSpaced)

include h

private theorem areBlanks_lineBreak (level : Nat) : AreBlanks (style.lineBreak level).toList := by
  rw [lineBreak]
  cases hi : style.indent with
  | none => exact List.forall_mem_nil _
  | some unit =>
    intro c hc
    rw [String.toList_append, List.mem_append, String.toList_join, List.mem_flatMap] at hc
    rcases hc with hc | ⟨s, hs, hc⟩
    · rw [List.mem_singleton.mp hc]
      rfl
    · rw [List.eq_of_mem_replicate hs] at hc
      exact h.indent unit hi c hc

/-- Members within brackets are laid out with blanks. -/
theorem exists_enclose_eq (level : Nat) (left right : String) {members : List String}
    (some : members ≠ []) : ∃ os bs ds, AreBlanks os ∧ AreBlanks bs ∧ AreBlanks ds ∧
      (style.enclose level left right members).toList = left.toList ++
        (os ++ ((',' :: bs).intercalate (members.map String.toList) ++ (ds ++ right.toList))) := by
  obtain ⟨bs, comma, blanks⟩ := h.comma
  have separating : AreBlanks (bs ++ (style.lineBreak (level + 1)).toList) := by
    intro c hc
    rcases List.mem_append.mp hc with hc | hc
    · exact blanks c hc
    · exact h.areBlanks_lineBreak (level + 1) c hc
  refine ⟨_, _, _, h.areBlanks_lineBreak (level + 1), separating, h.areBlanks_lineBreak level, ?_⟩
  rw [enclose, if_neg (by simpa using some)]
  simp [String.toList_append, String.toList_intercalate, comma]

private theorem spells_array (level : Nat) {ts : List String} {vs : List Value}
    (members : List.Forall₂ Spells (ts.map String.toList) vs) :
    Spells (style.array level ts).toList (.list vs) := by
  cases ts with
  | nil =>
    cases members
    have empty : style.array level [] = "[" ++ "]" := rfl
    rw [empty, String.toList_append]
    exact spells_nil
  | cons t ts =>
    obtain ⟨os, bs, ds, opening, separating, closing, text⟩ :=
      h.exists_enclose_eq level "[" "]" (List.cons_ne_nil t ts)
    rw [array, text]
    exact spells_list opening separating closing members (List.cons_ne_nil _ _)

/-- An object is read as the mapping of what its entries are read as, if their keys are distinct. -/
private theorem spells_object (level : Nat) {gs : List Char} (behindColon : AreBlanks gs)
    {ts : List String} {es : List (Value × Value)}
    (members : List.Forall₂ (SpellsEntry gs) (ts.map String.toList) es)
    (distinct : (es.map (·.1)).Nodup) :
    Spells (style.object level ts).toList (.dict .fresh es) := by
  cases ts with
  | nil =>
    cases members
    have empty : style.object level [] = "\x7b" ++ "\x7d" := rfl
    rw [empty, String.toList_append]
    exact spells_noEntries
  | cons t ts =>
    obtain ⟨os, bs, ds, opening, separating, closing, text⟩ :=
      h.exists_enclose_eq level "\x7b" "\x7d" (List.cons_ne_nil t ts)
    rw [object, text]
    exact spells_dict opening separating behindColon closing members (List.cons_ne_nil _ _)
      distinct

end Style.IsSpaced

/-! ### Values with a form -/

/-- Of a value that JSON has a form for: an atom is plain, and short if it is an integer, a sequence
is a list, and the keys of a mapping are distinct texts. -/
def IsPart : Value → Prop
  | .atom _ a => a.isPlain = true ∧ ∀ i, a = .int i → Integer.isTooLong i = false
  | .seq _ kind _ => kind = .list
  | .dict _ entries => ∃ keys : List String, entries.map (·.1.text?) = keys.map some ∧ keys.Nodup
  | .loop .. => False

/-- A text has a form. -/
theorem every_text (s : String) : (Value.text s).Every IsPart :=
  ⟨rfl, by rintro i ⟨⟩⟩

/-- A truth value has a form. -/
theorem every_bool (b : Bool) : (Value.bool b).Every IsPart :=
  ⟨rfl, by rintro i ⟨⟩⟩

/-- The absent value has a form. -/
theorem every_null : Value.null.Every IsPart :=
  ⟨rfl, by rintro i ⟨⟩⟩

/-- An integer that is short enough has a form. -/
theorem every_int (id : Identity) {i : Int} (short : Integer.isTooLong i = false) :
    (Value.atom id (.int i)).Every IsPart :=
  ⟨rfl, by rintro j ⟨⟩; exact short⟩

/-- What is a text has a form. -/
theorem every_of_isText {v : Value} (h : v.IsText) : v.Every IsPart := by
  obtain ⟨s, rfl⟩ := h
  exact every_text s

/-- A list has a form if its members have. -/
theorem every_list {vs : List Value} (h : ∀ v ∈ vs, v.Every IsPart) :
    (Value.list vs).Every IsPart :=
  ⟨rfl, (Value.everyMember_iff vs).mpr h⟩

/-- A mapping of distinct texts has a form if its values have. -/
theorem every_record {es : List (String × Value)} (distinct : (es.map (·.1)).Nodup)
    (h : ∀ e ∈ es, e.2.Every IsPart) : (Value.record es).Every IsPart := by
  refine ⟨⟨es.map (·.1), ?_, distinct⟩, ?_⟩
  · rw [List.map_map, List.map_map]
    rfl
  · rw [Value.everyEntry_iff, List.forall_mem_map]
    exact fun e he ↦ ⟨every_text e.1, h e he⟩

/-- Anonymous entries have the texts of their keys as keys. -/
theorem map_anonymousEntries {es : List (Value × Value)} {keys : List String}
    (h : es.map (·.1.text?) = keys.map some) :
    (Value.anonymousEntries es).map (·.1) = keys.map .text := by
  induction es generalizing keys with
  | nil =>
    obtain rfl : keys = [] := List.map_eq_nil_iff.mp h.symm
    rfl
  | cons e es ih =>
    cases keys with
    | nil => cases h
    | cons key keys =>
      rw [List.map_cons, List.map_cons, List.cons.injEq] at h
      rw [Value.anonymousEntries, List.map_cons, List.map_cons, ih h.2,
        Value.anonymous_of_text? h.1]

/-- A part with a form does not hinder that a value is told from its content. -/
private theorem IsPart.isTelling {v : Value} (h : IsPart v) : v.IsTelling := by
  cases v with
  | atom id a =>
    have plain : a.isPlain = true := h.1
    cases a with
    | null | bool | int | text => rfl
    | _ => cases plain
  | seq id kind items => trivial
  | dict id entries =>
    obtain ⟨keys, hkeys, distinct⟩ := h
    have texts : ∀ v ∈ keys.map Value.text, v.IsText :=
      List.forall_mem_map.mpr fun key _ ↦ ⟨key, rfl⟩
    have contents : entries.map (·.1.anonymous) = keys.map Value.text := by
      rw [← map_anonymousEntries hkeys, Value.anonymousEntries_eq_map, List.map_map]
      rfl
    show (entries.map (·.1.anonymous)).Pairwise _
    rw [contents]
    exact (Value.pairwise_same_iff texts).mpr (Value.nodup_texts distinct)
  | loop id kind => exact h.elim

/-- A value that is built from parts with a form can be told from its content. -/
theorem isKnown_anonymous {v : Value} (h : v.Every IsPart) : v.anonymous.IsKnown :=
  (h.mono fun _ ↦ IsPart.isTelling).isKnown_anonymous

/-! ### Reading what is written -/

/-- A plain atom is written as a text that is read as the atom. -/
private theorem exists_atomText {a : Atom} (plain : a.isPlain = true)
    (short : ∀ i, a = .int i → Integer.isTooLong i = false) :
    ∃ t, atomText? a = some (.ok t) ∧ Spells t.toList (.atom .fresh a) := by
  cases a with
  | null => exact ⟨_, rfl, spells_null⟩
  | bool b => exact ⟨_, rfl, spells_bool b⟩
  | int i =>
    have written : intText i = .ok (String.ofList (decimalInt i)) := by
      rw [intText, short i rfl]
      rfl
    refine ⟨String.ofList (decimalInt i), congrArg some written, ?_⟩
    rw [String.toList_ofList]
    exact spells_int (short i rfl)
  | text s =>
    refine ⟨quoted s, rfl, ?_⟩
    rw [quoted, String.toList_ofList]
    exact spells_text s
  | _ => cases plain

private theorem keyText_of_text? (style : Style) {key : Value} {s : String}
    (h : key.text? = some s) :
    keyText style key = .ok s := by
  obtain ⟨id, rfl⟩ := Value.exists_eq_of_text? h
  rfl

mutual

/-- A value that is built from parts with a form has a text, which is read as the anonymous
value. -/
theorem exists_write {style : Style} (spaced : style.IsSpaced) (level : Nat) {v : Value}
    (h : v.Every IsPart) : ∃ t, write style level v = .ok t ∧ Spells t.toList v.anonymous := by
  cases v with
  | atom id a =>
    obtain ⟨t, ht, hread⟩ := exists_atomText h.1 h.2
    exact ⟨t, by rw [write, ht], hread⟩
  | seq id kind items =>
    obtain ⟨rfl, hitems⟩ := h
    obtain ⟨ts, hts, hread⟩ := exists_writeItems spaced (level + 1) hitems
    exact ⟨style.array level ts, by rw [write, hts]; rfl, spaced.spells_array level hread⟩
  | dict id entries =>
    obtain ⟨⟨keys, hkeys, distinct⟩, hentries⟩ := h
    obtain ⟨gs, colon, blanks⟩ := spaced.colon
    obtain ⟨ts, hts, hread⟩ := exists_writeEntries spaced colon (level + 1) hkeys hentries
    have unsorted : orderEntries style (writeEntries style (level + 1) entries) =
        .ok (writeEntries style (level + 1) entries) := by
      rw [orderEntries, spaced.unsorted]
      rfl
    have distinct : ((Value.anonymousEntries entries).map (·.1)).Nodup := by
      rw [map_anonymousEntries hkeys]
      exact Value.nodup_texts distinct
    refine ⟨style.object level ts, ?_, spaced.spells_object level blanks hread distinct⟩
    rw [write, unsorted]
    show (objectMembers style _ >>= _) = _
    rw [hts]
    rfl
  | loop id kind => cases h

/-- Values that are built from parts with a form have texts, which are read as the anonymous
values. -/
theorem exists_writeItems {style : Style} (spaced : style.IsSpaced) (level : Nat)
    {vs : List Value} (h : Value.EveryMember IsPart vs) :
    ∃ ts, writeItems style level vs = .ok ts ∧
      List.Forall₂ Spells (ts.map String.toList) (Value.anonymousItems vs) := by
  cases vs with
  | nil => exact ⟨[], rfl, .nil⟩
  | cons v vs =>
    obtain ⟨t, ht, hv⟩ := exists_write spaced level h.1
    obtain ⟨ts, hts, hvs⟩ := exists_writeItems spaced level h.2
    exact ⟨t :: ts, by rw [writeItems, ht, hts]; rfl, .cons hv hvs⟩

/-- Entries under texts that are built from parts with a form have texts, which are read as the
anonymous entries. -/
theorem exists_writeEntries {style : Style} (spaced : style.IsSpaced) {gs : List Char}
    (colon : style.colon.toList = ':' :: gs) (level : Nat) {es : List (Value × Value)}
    {keys : List String} (hkeys : es.map (·.1.text?) = keys.map some)
    (h : Value.EveryEntry IsPart es) :
    ∃ ts, objectMembers style (writeEntries style level es) = .ok ts ∧
      List.Forall₂ (SpellsEntry gs) (ts.map String.toList) (Value.anonymousEntries es) := by
  cases es with
  | nil => exact ⟨[], rfl, .nil⟩
  | cons e es =>
    obtain ⟨k, v⟩ := e
    cases keys with
    | nil => cases hkeys
    | cons key keys =>
      rw [List.map_cons, List.map_cons, List.cons.injEq] at hkeys
      obtain ⟨t, ht, hv⟩ := exists_write spaced level h.1.2
      obtain ⟨ts, hts, hes⟩ := exists_writeEntries spaced colon level hkeys.2 h.2
      refine ⟨(quoted key ++ style.colon ++ t) :: ts, ?_, .cons ⟨key, t.toList, ?_, hv, ?_⟩ hes⟩
      · rw [writeEntries, objectMembers, keyText_of_text? style hkeys.1, ht, hts]
        rfl
      · exact Value.anonymous_of_text? hkeys.1
      · simp [quoted, colon]

end

/-- The text of a value that is built from parts with a form is read as the anonymous value. -/
theorem exists_read_text {style : Style} (spaced : style.IsSpaced) {v : Value}
    (h : v.Every IsPart) : ∃ t, text style v = .ok t ∧ read t.toList = .ok v.anonymous := by
  obtain ⟨t, ht, hread⟩ := exists_write spaced 0 h
  obtain ⟨c, cs, first, noBlank, -, noMark⟩ := hread.first
  obtain ⟨next, hnext⟩ :=
    hread.takes (2 * t.toList.length + 2) (by omega) [] 0 (by simp [EndsValue])
  have unmarked : ¬ t.toList.head? = some (Char.ofNat 0xFEFF) := by
    rw [first]
    exact fun h ↦ noMark (Option.some.inj h)
  refine ⟨t, ht, ?_⟩
  have start : Ahead.skipBlanks ⟨t.toList, 0⟩ = ⟨t.toList, 0⟩ := by
    rw [first]
    exact skipBlanks_cons noBlank cs 0
  rw [List.append_nil] at hnext
  rw [read, if_neg unmarked]
  simp only [bind, Except.bind, pure, start, hnext]
  rfl

end EntityGraph.Json
