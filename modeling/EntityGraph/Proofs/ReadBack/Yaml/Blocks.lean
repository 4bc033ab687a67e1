import EntityGraph.Proofs.ReadBack.Yaml.Lexemes

/-!
# Blocks

What the lines of a block are cut into. Every line ends in front of the next one, which may stand in
any column up to that of the block: so a plain scalar ends there, and all starts of keys are
forgotten. The marks of entries and the keys open the block if it is not open yet.
-/

namespace EntityGraph.Yaml.Token.Cut

open EntityGraph.Text EntityGraph.Yaml.Cursor EntityGraph.Yaml.Plain

variable {w out out' ahead : List Char} {t : Token} {tokens new new' : List Token} {indent : Int}
  {outer : List Int} {mayStartKey : Bool} {starts left : List (Nat × KeyStart)}

/-! ### Ends of lines -/

/-- Starts of keys outside of flow collections, on lines up to this one, none of them required. -/
def AreIdle (w : List Char) (starts : List (Nat × KeyStart)) : Prop :=
  ∀ x ∈ starts, x.1 = 0 ∧ x.2.isRequired = false ∧ x.2.line ≤ w.count '\n'

/-- A start inside of a block is not required. -/
theorem AreIdle.saved (h : AreIdle w starts) (inside : indent < columnOf w) (tokens : List Token)
    (mayStartKey : Bool) :
    AreIdle w (saved w tokens indent mayStartKey starts) := by
  cases mayStartKey with
  | false => exact h
  | true =>
    exact List.forall_mem_singleton.mpr ⟨rfl, decide_eq_false (Int.ne_of_lt inside), Nat.le_refl _⟩

/-- Starts that are not required are safe. -/
theorem AreIdle.areSafe (h : AreIdle w starts) (out : List Char) : AreSafe w out starts :=
  fun x hx ↦ ⟨(h x hx).1, (h x hx).2.2, fun required ↦ by
    rw [(h x hx).2.1] at required
    cases required⟩

/-- What is left of starts that are not required. -/
theorem AreIdle.of_areLeft (h : AreIdle w starts) {w' : List Char} (hleft : AreLeft w' starts left)
    (out : List Char) : AreIdle (out ++ w) left := fun x hx ↦ by
  obtain ⟨outside, idle, line⟩ := h x (hleft.1.subset hx)
  refine ⟨outside, idle, ?_⟩
  rw [List.count_append]
  exact Nat.le_add_left_of_le line

/-- On the next line they are forgotten. -/
theorem AreIdle.areStale (h : AreIdle w starts) (k : Nat) :
    AreStale (List.replicate k ' ' ++ '\n' :: w) starts := fun x hx ↦ by
  obtain ⟨-, idle, line⟩ := h x hx
  refine ⟨idle, ?_⟩
  rw [List.count_append, List.count_cons_self]
  omega

/-- A line ends behind lexemes. -/
theorem Lexes.reads_lineFeed (h : Lexes Blank w out new) (goesOn : GoesOn ahead) (k : Nat)
    (inside : indent < columnOf w) (single : mayStartKey = true → starts = [])
    (idle : AreIdle w starts) :
    Reads (place w (out ++ '\n' :: (List.replicate k ' ' ++ ahead)) tokens indent outer mayStartKey
        starts)
      (place (List.replicate k ' ' ++ '\n' :: (out.reverse ++ w)) ahead (new.reverse ++ tokens)
        indent outer true []) := by
  have idle' := idle.saved inside tokens mayStartKey
  obtain ⟨left, hleft, reads⟩ := h ('\n' :: (List.replicate k ' ' ++ ahead)) tokens indent outer
    mayStartKey starts ⟨'\n', _, rfl, .inr rfl⟩ (Int.le_of_lt inside) single (idle'.areSafe out)
  exact reads.trans (Cut.reads_lineFeed k goesOn ((idle'.of_areLeft hleft _).areStale k))

/-- The characters at the end of a line, inside of a block at a column, are cut into new tokens in
front of a line that does not belong to the inside. -/
def Closes (column : Nat) (w out : List Char) (new : List Token) : Prop :=
  ∀ ahead tokens outer mayStartKey starts (k : Nat), GoesOn ahead → k ≤ column →
    column < columnOf w → (mayStartKey = true → starts = []) → AreIdle w starts →
    Reads (place w (out ++ '\n' :: (List.replicate k ' ' ++ ahead)) tokens column outer mayStartKey
        starts)
      (place (List.replicate k ' ' ++ '\n' :: (out.reverse ++ w)) ahead (new.reverse ++ tokens)
        column outer true [])

variable {column : Nat}

/-- A line may end behind lexemes. -/
theorem Lexes.closes (h : Lexes Blank w out new) : Closes column w out new :=
  fun _ _ _ _ _ k goesOn _ inside single idle ↦
    h.reads_lineFeed goesOn k (Int.ofNat_lt.mpr inside) single idle

/-- Lexemes stand before the end of a line. -/
theorem Lexes.append_closes (h : Lexes Blank w out new)
    (h' : Closes column (' ' :: (out.reverse ++ w)) out' new') (line : '\n' ∉ out)
    (goesOn : ∀ more, GoesOn (out' ++ '\n' :: more)) :
    Closes column w (out ++ ' ' :: out') (new ++ new') := by
  intro ahead tokens outer mayStartKey starts k hahead hk inside single idle
  have idle' := idle.saved (Int.ofNat_lt.mpr inside) tokens mayStartKey
  obtain ⟨left, hleft, reads⟩ := h (' ' :: (out' ++ '\n' :: (List.replicate k ' ' ++ ahead))) tokens
    column outer mayStartKey starts ⟨' ', _, rfl, .inl rfl⟩ (Int.ofNat_le.mpr (Nat.le_of_lt inside))
    single (idle'.areSafe out)
  have spaces := @reads_spaces (out.reverse ++ w) _ (new.reverse ++ tokens) column outer false left
    1 (goesOn (List.replicate k ' ' ++ ahead))
  have line' : '\n' ∉ out ++ [' '] := by simp [line]
  have further := columnOf_append (w := w) line'
  rw [List.reverse_append] at further
  have rest := h' ahead (new.reverse ++ tokens) outer false left k hahead hk
    (by
      show column < columnOf ([' '].reverse ++ out.reverse ++ w)
      rw [further]
      omega)
    nofun (idle'.of_areLeft hleft (' ' :: out.reverse))
  have whole := (reads.trans spaces).trans rest
  simpa using whole

/-- A line may end behind a plain scalar. -/
theorem closes_plain {cs : List Char} (h : IsRead column w out cs) :
    Closes column w out [.scalar true (String.ofList cs)] := by
  intro ahead tokens outer mayStartKey starts k goesOn hk inside single idle
  have inside' : (column : Int) < columnOf w := Int.ofNat_lt.mpr inside
  have idle' := idle.saved inside' tokens mayStartKey
  have goesOn' : GoesOn (out ++ '\n' :: (List.replicate k ' ' ++ ahead)) := h.goesOn nofun nofun
  obtain ⟨near, hnear, hleft, next⟩ := exists_next goesOn' (Int.le_of_lt inside') single
    (idle'.areSafe out) outer
  obtain ⟨hyphen, point⟩ := @IsRead.seesMark_eq_false _ out
    ('\n' :: (List.replicate k ' ' ++ ahead)) _ _ h nofun nofun w
  rw [take_plain h.plain h.first rfl rfl hyphen point, takePlain_place
    (h.scan_eq (stops_lineFeed (by omega) goesOn)) hnear] at next
  refine Reads.trans (.of_next ?_ next ?_) (reads_stale goesOn
    ((idle'.of_areLeft hleft out.reverse).areStale k))
  · rw [here_place goesOn']
    exact List.append_ne_nil_of_right_ne_nil _ (List.cons_ne_nil _ _)
  · show ahead.length < (out ++ '\n' :: (List.replicate k ' ' ++ ahead)).length
    simp only [List.length_append, List.length_cons]
    omega

/-! ### Levels -/

/-- The tokens so far, and the columns of the blocks around a place, innermost first. -/
structure Level where
  tokens : List Token
  indent : Int
  outer : List Int

namespace Level

/-- The level with more tokens. -/
def push (new : List Token) (l : Level) : Level := { l with tokens := new.reverse ++ l.tokens }

/-- The level in which a block is open at a column, if it is not. -/
def enter (t : Token) (column : Nat) (l : Level) : Level :=
  if l.indent < column then ⟨t :: l.tokens, column, l.indent :: l.outer⟩ else l

/-- The level behind the end of a block. -/
def leave (l : Level) : Level := ⟨.blockEnd :: l.tokens, l.outer.headD (-1), l.outer.tail⟩

variable {l : Level}

@[simp] theorem push_nil : l.push [] = l := rfl

@[simp] theorem push_push : (l.push new).push new' = l.push (new ++ new') := by
  simp [push]

@[simp] theorem indent_push : (l.push new).indent = l.indent := rfl

/-- In the column of a block it is open. -/
theorem enter_of_eq (h : l.indent = column) : l.enter t column = l := by
  rw [enter, if_neg (by omega)]

/-- In a column further on a block is opened. -/
theorem enter_of_lt (h : l.indent < column) :
    l.enter t column = ⟨t :: l.tokens, column, l.indent :: l.outer⟩ :=
  if_pos h

/-- The block is open in its column. -/
theorem indent_enter (h : l.indent ≤ column) : (l.enter t column).indent = column := by
  rw [enter]
  split
  · rfl
  · omega

end Level

/-- The state at a place in a block, without starts of keys. -/
def on (l : Level) (w ahead : List Char) (mayStartKey : Bool) : Cut :=
  place w ahead l.tokens l.indent l.outer mayStartKey []

variable {l : Level}

/-- The marks of block collections, with their tokens and those of their collections. -/
def blockMarks : List (Char × Token × Token) :=
  [('-', .blockEntry, .blockSeqStart), ('?', .key, .blockMapStart), (':', .value, .blockMapStart)]

/-- A text goes on with the mark of an entry. -/
theorem goesOn_mark {mark : Char} {start : Token} (h : (mark, t, start) ∈ blockMarks)
    (blank : Blank ahead) : GoesOn (mark :: ahead) := by
  obtain ⟨c, more, rfl, hc⟩ := blank
  simp only [blockMarks, List.mem_cons, Prod.mk.injEq, List.not_mem_nil, or_false] at h
  rcases h with ⟨rfl, -⟩ | ⟨rfl, -⟩ | ⟨rfl, -⟩
  · refine ⟨.cons (by decide) _, nofun, fun w ↦ ?_⟩
    rcases hc with rfl | rfl <;> simp [seesSeparator, seesMark]
  · exact .cons (by decide) (by decide) (by decide) (by decide) _
  · exact .cons (by decide) (by decide) (by decide) (by decide) _

private theorem enterBlock_on (l : Level) (w ahead : List Char) (t : Token) :
    (on l w ahead true).enterBlock t = .ok (on (l.enter t (columnOf w)) w ahead true) := by
  have same : (on l w ahead true).openHere t = on (l.enter t (columnOf w)) w ahead true := by
    rw [openHere, openBlock, insertAt, Nat.sub_self, Level.enter]
    show (if l.indent < columnOf w then _ else _) = _
    split <;> rfl
  show Except.ok ((on l w ahead true).openHere t) = _
  rw [same]

/-- The mark of an entry is taken as its token, in its block. -/
private theorem take_mark {mark : Char} {start : Token} (h : (mark, t, start) ∈ blockMarks)
    (blank : Blank ahead) (l : Level) (w : List Char) :
    (on l w (mark :: ahead) true).take =
      .ok (on ((l.enter start (columnOf w)).push [t]) (mark :: w) ahead true) := by
  have moved : (on (l.enter start (columnOf w)) w (mark :: ahead) true).step.push t =
      on ((l.enter start (columnOf w)).push [t]) (mark :: w) ahead true := by
    have step := @step_behind w ahead _
      ((goesOn_mark h blank).opens mark rfl).isOrdinary
    rw [Cut.step]
    show Cut.push t (Cut.moveTo (behind w (mark :: ahead)).step _) = _
    rw [step]
    rfl
  have taken : (on l w (mark :: ahead) true).take =
      ((on l w (mark :: ahead) true).enterBlock start).map (·.step.push t) := by
    obtain ⟨c, more, rfl, hc⟩ := blank
    have ends : endsWord (some c) = true := by rcases hc with rfl | rfl <;> rfl
    have noMark (x : Char) (hx : x = '-' ∨ x = '.') :
        (behind w (mark :: c :: more)).seesMark x = false := by
      rcases hc with rfl | rfl <;> rcases hx with rfl | rfl <;> simp [seesMark]
    rw [enterBlock_on]
    simp only [blockMarks, List.mem_cons, Prod.mk.injEq, List.not_mem_nil, or_false] at h
    rcases h with ⟨rfl, rfl, rfl⟩ | ⟨rfl, rfl, rfl⟩ | ⟨rfl, rfl, rfl⟩
    · have branch : (on l w ('-' :: c :: more) true).take =
          (on l w ('-' :: c :: more) true).takeEntry := by
        simp [take, on, place, next?, takeFrom, noMark, at?, ends, openBrace, closeBrace]
      rw [branch, takeEntry, enterBlock_on]
      rfl
    · have branch : (on l w ('?' :: c :: more) true).take =
          (on l w ('?' :: c :: more) true).takeKey := by
        simp [take, on, place, next?, takeFrom, noMark, at?, ends, openBrace, closeBrace]
      rw [branch, takeKey, enterBlock_on]
      rfl
    · have branch : (on l w (':' :: c :: more) true).take =
          (on l w (':' :: c :: more) true).takeValue := by
        simp [take, on, place, next?, takeFrom, noMark, at?, ends, openBrace, closeBrace]
      rw [branch, takeValue]
      show ((on l w (':' :: c :: more) true).enterBlock blockMapStart >>= _) >>= _ = _
      rw [enterBlock_on]
      rfl
  rw [taken, enterBlock_on, ← moved]
  rfl

/-- The mark of an entry opens its block. -/
theorem reads_mark {mark : Char} {start : Token} (h : (mark, t, start) ∈ blockMarks)
    (blank : Blank ahead) (inside : l.indent ≤ columnOf w) :
    Reads (on l w (mark :: ahead) true)
      (on ((l.enter start (columnOf w)).push [t]) (mark :: w) ahead true) := by
  have goesOn := goesOn_mark h blank
  have next := @next_place w (mark :: ahead) l.tokens l.indent l.outer true [] goesOn
    (List.forall_mem_nil _)
  have stays : (on l w (mark :: ahead) true).unindent (behind w (mark :: ahead)).column =
    on l w (mark :: ahead) true := closeBlocks_of_le inside _
  refine .of_next ?_ (next.trans ?_) (Nat.lt_succ_self _)
  · rw [on, here_place goesOn]
    exact List.cons_ne_nil _ _
  · rw [List.filter_nil]
    exact (congrArg take stays).trans (take_mark h blank l w)

/-- A block ends in front of a line that is indented less. -/
theorem reads_leave (h : GoesOn ahead) (outside : columnOf w < l.indent) (mayStartKey : Bool) :
    Reads (on l w ahead mayStartKey) (on l.leave w ahead mayStartKey) :=
  reads_blockEnd h outside

private theorem insertIdx_reverse (t : Token) (new : List Token) :
    (new.reverse ++ tokens).insertIdx ((new.reverse ++ tokens).length - tokens.length) t =
      (t :: new).reverse ++ tokens := by
  have behind (front : List Token) :
      (front ++ tokens).insertIdx front.length t = front ++ t :: tokens := by
    induction front with
    | nil => rfl
    | cons x front ih => rw [List.cons_append, List.length_cons, List.insertIdx_succ_cons, ih]; rfl
  rw [List.length_append, Nat.add_sub_cancel, behind]
  simp

/-- The colon behind a key that is near enough puts the token of the key in, and that of its
block. -/
private theorem takeValue_place (l : Level) (w w' ahead : List Char) (new : List Token) :
    (place w' (':' :: ahead) (new.reverse ++ l.tokens) l.indent l.outer false
      [(0, startAt w l.tokens l.indent)]).takeValue =
      .ok (on ((l.enter .blockMapStart (columnOf w)).push (.key :: new ++ [.value])) (':' :: w')
        ahead false) := by
  let s := place w' (':' :: ahead) (new.reverse ++ l.tokens) l.indent l.outer false []
  have keyed : s.insertAt l.tokens.length .key =
      place w' (':' :: ahead) ((.key :: new).reverse ++ l.tokens) l.indent l.outer false [] :=
    congrArg (fun tokens ↦ place w' (':' :: ahead) tokens l.indent l.outer false [])
      (insertIdx_reverse .key new)
  have opened : (place w' (':' :: ahead) ((.key :: new).reverse ++ l.tokens) l.indent l.outer
      false []).openBlock (columnOf w) .blockMapStart l.tokens.length =
        on ((l.enter .blockMapStart (columnOf w)).push (.key :: new)) w' (':' :: ahead) false := by
    have inserted := (@insertIdx_reverse l.tokens .blockMapStart (.key :: new)).trans
      (show _ = (Token.key :: new).reverse ++ .blockMapStart :: l.tokens by simp)
    rw [openBlock, Level.enter]
    show (if l.indent < columnOf w then _ else _) = _
    split
    · exact congrArg (fun tokens ↦ place w' (':' :: ahead) tokens (columnOf w)
        (l.indent :: l.outer) false []) inserted
    · rfl
  have whole : (place w' (':' :: ahead) (new.reverse ++ l.tokens) l.indent l.outer false
      [(0, startAt w l.tokens l.indent)]).takeValue =
      .ok ((((s.insertAt l.tokens.length .key).openBlock (columnOf w) .blockMapStart
        l.tokens.length).allowKey false).step.push .value) := rfl
  have step := @step_behind w' ahead ':' (by decide)
  rw [whole, keyed, opened, Cut.step]
  show Except.ok (Cut.push .value (Cut.moveTo (behind w' (':' :: ahead)).step _)) = _
  rw [step, ← Level.push_push]
  rfl

/-- A key on the line of its value opens its block. -/
theorem reads_key (h : Lexes AtColon w out new) (line : '\n' ∉ out) (short : out.length ≤ keyLength)
    (blank : Blank ahead) (inside : l.indent ≤ columnOf w) :
    Reads (on l w (out ++ ':' :: ahead) true)
      (on ((l.enter .blockMapStart (columnOf w)).push (.key :: new ++ [.value]))
        (':' :: (out.reverse ++ w)) ahead false) := by
  have live : isLive (out.reverse ++ w) (startAt w l.tokens l.indent) = true := by
    have none : out.count '\n' = 0 := List.count_eq_zero.mpr line
    simp [isLive, startAt, none, short]
  have safe : AreSafe w out (saved w l.tokens l.indent true []) :=
    List.forall_mem_singleton.mpr ⟨rfl, Nat.le_refl _, fun _ ↦ live⟩
  obtain ⟨left, hleft, reads⟩ := h (':' :: ahead) l.tokens l.indent l.outer true []
    ⟨ahead, rfl, blank⟩ inside (fun _ ↦ rfl) safe
  -- Of the one start that is saved nothing is lost.
  have mem := hleft.2 _ (List.mem_singleton_self _) live
  obtain rfl : left = [(0, startAt w l.tokens l.indent)] :=
    hleft.1.eq_of_length_le (List.length_pos_of_mem mem)
  have goesOn : GoesOn (':' :: ahead) :=
    .cons (by decide) (by decide) (by decide) (by decide) _
  have next := @next_place (out.reverse ++ w) (':' :: ahead) (new.reverse ++ l.tokens) l.indent
    l.outer false [(0, startAt w l.tokens l.indent)] goesOn
    (List.forall_mem_singleton.mpr fun _ ↦ live)
  have near : [(0, startAt w l.tokens l.indent)].filter (isLive (out.reverse ++ w) ·.2) =
      [(0, startAt w l.tokens l.indent)] :=
    List.filter_eq_self.mpr (List.forall_mem_singleton.mpr live)
  have column := columnOf_append (w := w) line
  have stays := @closeBlocks_of_le (place (out.reverse ++ w) (':' :: ahead)
    (new.reverse ++ l.tokens) l.indent l.outer false [(0, startAt w l.tokens l.indent)])
    (columnOf (out.reverse ++ w)) (by
      show l.indent ≤ _
      omega) (l.outer.length + 1)
  obtain ⟨c, more, rfl, hc⟩ := blank
  have ends : endsWord (some c) = true := by rcases hc with rfl | rfl <;> rfl
  have branch (s : Cut) (h : s.cursor.chars = ':' :: c :: more) : s.take = s.takeValue := by
    simp [take, next?, takeFrom, h, seesMark, at?, ends, openBrace, closeBrace]
  refine reads.trans (.of_next ?_ (next.trans ?_) (Nat.lt_succ_self _))
  · rw [here_place goesOn]
    exact List.cons_ne_nil _ _
  · rw [near]
    exact (congrArg take stays).trans ((branch _ rfl).trans (takeValue_place l w _ _ new))

end EntityGraph.Yaml.Token.Cut
