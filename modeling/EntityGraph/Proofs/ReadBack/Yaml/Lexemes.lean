import EntityGraph.Proofs.ReadBack.Yaml.Cutting

/-!
# Lexemes

What the characters of a lexeme are cut into, wherever in a block they stand. A lexeme may be the
start of a key: the start is kept as long as it is near enough, and the colon behind the key puts
the token of the key in before its lexemes. A lexeme of a value leaves nothing behind the end of its
line.
-/

namespace EntityGraph.Yaml.Token.Cut

open EntityGraph.Text EntityGraph.Yaml.Cursor EntityGraph.Yaml.Plain

/-! ### Starts of keys -/

/-- The column behind characters, latest first. -/
def columnOf (w : List Char) : Nat := (w.takeWhile (· ≠ '\n')).length

/-- The start of a key at a place. -/
def startAt (w : List Char) (tokens : List Token) (indent : Int) : KeyStart :=
  ⟨tokens.length, indent = columnOf w, w.length, w.count '\n', columnOf w⟩

/-- The starts of keys at a place, where a key may start or where there are some already. -/
def saved (w : List Char) (tokens : List Token) (indent : Int) (mayStartKey : Bool)
    (starts : List (Nat × KeyStart)) : List (Nat × KeyStart) :=
  if mayStartKey then [(0, startAt w tokens indent)] else starts

/-- Starts of keys outside of flow collections, on lines up to this one; those that are required
stay near enough. -/
def AreSafe (w out : List Char) (starts : List (Nat × KeyStart)) : Prop :=
  ∀ x ∈ starts, x.1 = 0 ∧ x.2.line ≤ w.count '\n' ∧
    (x.2.isRequired = true → isLive (out.reverse ++ w) x.2 = true)

/-- Some starts are left of others, and all of those that are near enough. -/
def AreLeft (w : List Char) (starts left : List (Nat × KeyStart)) : Prop :=
  left.Sublist starts ∧ ∀ x ∈ starts, isLive w x.2 = true → x ∈ left

variable {w out out' ahead : List Char} {t : Token} {tokens new new' : List Token} {indent : Int}
  {outer : List Int} {mayStartKey : Bool} {starts left : List (Nat × KeyStart)}
  {follow : List Char → Prop}

/-- The column behind characters of one line. -/
theorem columnOf_append (line : '\n' ∉ out) : columnOf (out.reverse ++ w) =
    out.length + columnOf w := by
  rw [columnOf, List.takeWhile_append_of_pos, List.length_append, List.length_reverse, columnOf]
  intro c hc
  rw [decide_eq_true_eq]
  rintro rfl
  exact line (List.mem_reverse.mp hc)

/-- A start that is near enough somewhere behind a place is so at the place. -/
theorem isLive_of_append {k : KeyStart} (line : k.line ≤ w.count '\n')
    (h : isLive (out ++ w) k = true) : isLive w k = true := by
  simp only [isLive, List.count_append, List.length_append, Bool.and_eq_true,
    decide_eq_true_eq] at h ⊢
  omega

private theorem AreSafe.of_append (h : AreSafe w (out ++ out') starts) : AreSafe w out starts := by
  intro x hx
  obtain ⟨outside, line, live⟩ := h x hx
  rw [List.reverse_append, List.append_assoc] at live
  refine ⟨outside, line, fun required ↦ isLive_of_append ?_ (live required)⟩
  rw [List.count_append]
  omega

private theorem AreSafe.isLive (h : AreSafe w out starts) :
    ∀ x ∈ starts, x.2.isRequired = true → isLive w x.2 = true := fun x hx required ↦
  isLive_of_append (h x hx).2.1 ((h x hx).2.2 required)

private theorem areLeft_filter (lines : ∀ x ∈ starts, x.2.line ≤ w.count '\n') (out : List Char) :
    AreLeft (out ++ w) starts (starts.filter (isLive w ·.2)) :=
  ⟨List.filter_sublist, fun x hx live ↦
    List.mem_filter.mpr ⟨hx, isLive_of_append (lines x hx) live⟩⟩

private theorem AreSafe.of_areLeft (h : AreSafe w (out ++ out') starts)
    (hleft : AreLeft (out.reverse ++ w) starts left) : AreSafe (out.reverse ++ w) out' left := by
  intro x hx
  obtain ⟨outside, line, live⟩ := h x (hleft.1.subset hx)
  rw [List.reverse_append, List.append_assoc] at live
  refine ⟨outside, ?_, live⟩
  rw [List.count_append]
  omega

private theorem AreLeft.trans {left' : List (Nat × KeyStart)}
    (safe : AreSafe w (out ++ out') starts) (h : AreLeft (out.reverse ++ w) starts left)
    (h' : AreLeft (out'.reverse ++ (out.reverse ++ w)) left left') :
    AreLeft ((out ++ out').reverse ++ w) starts left' := by
  refine ⟨h'.1.trans h.1, fun x hx live ↦ ?_⟩
  rw [List.reverse_append, List.append_assoc] at live
  refine h'.2 x (h.2 x hx (isLive_of_append ?_ live)) live
  rw [List.count_append]
  exact Nat.le_add_left_of_le (safe x hx).2.1

/-! ### Lexemes on a line -/

/-- A blank or a line feed is ahead. -/
def Blank (ahead : List Char) : Prop := ∃ c more, ahead = c :: more ∧ (c = ' ' ∨ c = '\n')

/-- A blank is ahead in front of anything. -/
theorem Blank.append (h : Blank out) (ahead : List Char) : Blank (out ++ ahead) := by
  obtain ⟨c, more, rfl, hc⟩ := h
  exact ⟨c, more ++ ahead, rfl, hc⟩

/-- The colon behind a key is ahead. -/
def AtColon (ahead : List Char) : Prop := ∃ more, ahead = ':' :: more ∧ Blank more

/-- Characters at a place are cut into new tokens, in front of what may follow. -/
def Lexes (follow : List Char → Prop) (w out : List Char) (new : List Token) : Prop :=
  ∀ ahead tokens (indent : Int) outer mayStartKey starts, follow ahead → indent ≤ columnOf w →
    (mayStartKey = true → starts = []) →
    AreSafe w out (saved w tokens indent mayStartKey starts) →
    ∃ left, AreLeft (out.reverse ++ w) (saved w tokens indent mayStartKey starts) left ∧
      Reads (place w (out ++ ahead) tokens indent outer mayStartKey starts)
        (place (out.reverse ++ w) ahead (new.reverse ++ tokens) indent outer false left)

/-- What is a lexeme in front of some characters is one in front of fewer. -/
theorem Lexes.mono {follow' : List Char → Prop} (h : Lexes follow w out new)
    (fewer : ∀ ahead, follow' ahead → follow ahead) : Lexes follow' w out new :=
  fun ahead tokens indent outer mayStartKey starts hfollow ↦
    h ahead tokens indent outer mayStartKey starts (fewer ahead hfollow)

/-- One lexeme after another on a line, with a space between them. -/
theorem Lexes.append (h : Lexes Blank w out new)
    (h' : Lexes follow (' ' :: (out.reverse ++ w)) out' new') (line : '\n' ∉ out)
    (goesOn : ∀ ahead, follow ahead → GoesOn (out' ++ ahead)) :
    Lexes follow w (out ++ ' ' :: out') (new ++ new') := by
  intro ahead tokens indent outer mayStartKey starts hfollow inside single safe
  have same : out ++ ' ' :: out' = (out ++ [' ']) ++ out' := by simp
  have same' : ((out ++ [' ']) ++ out').reverse ++ w =
      out'.reverse ++ (' ' :: (out.reverse ++ w)) := by simp
  have column : columnOf (' ' :: (out.reverse ++ w)) = out.length + 1 + columnOf w := by
    have line' : '\n' ∉ out ++ [' '] := by simp [line]
    have column := columnOf_append (w := w) line'
    rwa [List.reverse_append, List.length_append] at column
  rw [same] at safe
  obtain ⟨left, hleft, reads⟩ := h (' ' :: (out' ++ ahead)) tokens indent outer mayStartKey starts
    ⟨' ', _, rfl, .inl rfl⟩ inside single safe.of_append.of_append
  -- The space changes neither what is left nor whether it is safe.
  have moved : AreLeft ((out ++ [' ']).reverse ++ w) (saved w tokens indent mayStartKey starts)
      left := AreLeft.trans safe.of_append hleft
    ⟨List.Sublist.refl _, fun _ hx _ ↦ hx⟩
  have safe' := safe.of_areLeft moved
  rw [List.reverse_append] at safe'
  obtain ⟨left', hleft', reads'⟩ := h' ahead (new.reverse ++ tokens) indent outer false left hfollow
    (by rw [column]; omega) nofun safe'
  refine ⟨left', ?_, ?_⟩
  · rw [same]
    refine AreLeft.trans safe moved ?_
    rw [List.reverse_append]
    exact hleft'
  · have spaces := @reads_spaces (out.reverse ++ w) _ (new.reverse ++ tokens) indent outer
      false left 1 (goesOn ahead hfollow)
    have whole := (reads.trans spaces).trans reads'
    rw [same, same']
    simpa using whole

/-- The state after a token that may be the start of a key. -/
theorem takeNode_place {read : Cursor → Result (Token × Cursor)} {w' ahead' : List Char}
    (h : read (behind w ahead) = .ok (t, behind w' ahead'))
    (single : mayStartKey = true → starts = []) :
    (place w ahead tokens indent outer mayStartKey starts).takeNode read =
      .ok (place w' ahead' (t :: tokens) indent outer false
        (saved w tokens indent mayStartKey starts)) := by
  cases mayStartKey with
  | false =>
    show (read (behind w ahead) >>= _) = _
    rw [h]
    rfl
  | true =>
    rw [single rfl]
    show (read (behind w ahead) >>= _) = _
    rw [h]
    rfl

/-- The next token is taken with the starts that are near enough. -/
theorem exists_next (goesOn : GoesOn (out ++ ahead)) (inside : indent ≤ columnOf w)
    (single : mayStartKey = true → starts = [])
    (safe : AreSafe w out (saved w tokens indent mayStartKey starts)) (outer : List Int) :
    ∃ near, (mayStartKey = true → near = []) ∧
      AreLeft (out.reverse ++ w) (saved w tokens indent mayStartKey starts)
        (saved w tokens indent mayStartKey near) ∧
      (place w (out ++ ahead) tokens indent outer mayStartKey starts).next =
        (place w (out ++ ahead) tokens indent outer mayStartKey near).take := by
  have live : ∀ x ∈ starts, x.2.isRequired = true → isLive w x.2 = true := by
    cases mayStartKey with
    | true => rw [single rfl]; exact List.forall_mem_nil _
    | false => exact safe.isLive
  have next := @next_place _ _ tokens indent outer mayStartKey _ goesOn live
  have stays : ∀ starts, (place w (out ++ ahead) tokens indent outer mayStartKey starts).unindent
      (behind w (out ++ ahead)).column =
        place w (out ++ ahead) tokens indent outer mayStartKey starts := fun _ ↦
    closeBlocks_of_le inside _
  rw [stays] at next
  refine ⟨_, fun may ↦ by rw [single may, List.filter_nil], ?_, next⟩
  cases mayStartKey with
  | true => exact ⟨List.Sublist.refl _, fun _ hx _ ↦ hx⟩
  | false => exact areLeft_filter (fun x hx ↦ (safe x hx).2.1) _

/-- Characters that are one token wherever they stand are a lexeme. -/
theorem lexes_of_take (nonempty : out ≠ []) (goesOn : ∀ ahead, follow ahead → GoesOn (out ++ ahead))
    (h : ∀ {ahead tokens} {indent : Int} {outer mayStartKey starts}, follow ahead →
      indent ≤ columnOf w → (mayStartKey = true → starts = []) →
      (place w (out ++ ahead) tokens indent outer mayStartKey starts).take =
        .ok (place (out.reverse ++ w) ahead (t :: tokens) indent outer false
          (saved w tokens indent mayStartKey starts))) : Lexes follow w out [t] := by
  intro ahead tokens indent outer mayStartKey starts hfollow inside single safe
  obtain ⟨near, hnear, hleft, next⟩ := exists_next (goesOn ahead hfollow) inside single safe outer
  rw [h hfollow inside hnear] at next
  refine ⟨_, hleft, .of_next ?_ next ?_⟩
  · rw [here_place (goesOn ahead hfollow)]
    exact List.append_ne_nil_of_left_ne_nil nonempty _
  · have positive := List.length_pos_iff.mpr nonempty
    show ahead.length < (out ++ ahead).length
    rw [List.length_append]
    omega

/-! ### Kinds of lexemes -/

/-- What follows on the line of a lexeme. -/
def Delimits (ahead : List Char) : Prop := Blank ahead ∨ AtColon ahead

/-- The name of an anchor is made of visible characters of names. -/
def IsName (name : List Char) : Prop := name ≠ [] ∧ ∀ c ∈ name, isNameChar c = true ∧ IsVisible c

private theorem anchorName_behind {cs : List Char} (h : IsName cs) {mark : Char}
    (hmark : IsVisible mark)
    (hfollow : Delimits ahead) : anchorName (behind w (mark :: cs ++ ahead)) =
      .ok (String.ofList cs, behind ((mark :: cs).reverse ++ w) ahead) := by
  have ends : (∀ c, ahead.head? = some c → isNameChar c = false) ∧
      endsAnchor ahead.head? = true := by
    rcases hfollow with ⟨c, more, rfl, rfl | rfl⟩ | ⟨more, rfl, -⟩
    all_goals exact ⟨by rintro _ ⟨⟩; decide, rfl⟩
  have read := @span_behind (mark :: w) ahead _ isNameChar
    (fun c hc ↦ (h.2 c hc).2.isOrdinary) (fun c hc ↦ (h.2 c hc).1) ends.1
  rw [anchorName, name, List.cons_append, step_behind hmark.isOrdinary, read]
  simp only [List.isEmpty_eq_false_iff.mpr h.1, Bool.false_eq_true, if_false]
  show (if endsAnchor ahead.head? = true then _ else _) = _
  rw [ends.2, List.reverse_cons, List.append_assoc]
  rfl

/-- A token of a name behind a mark is a lexeme, if it is what the mark stands for. -/
theorem lexes_name {cs : List Char} (h : IsName cs) {mark : Char} (hmark : mark = '&' ∨ mark = '*')
    (ofName : String → Token)
    (take : ∀ {s : Cut} {rest}, s.cursor.chars = mark :: rest → s.take = s.takeNode fun c ↦
      (anchorName c).map fun (n, c) ↦ (ofName n, c)) :
    Lexes Delimits w (mark :: cs) [ofName (String.ofList cs)] := by
  have visible : IsVisible mark := by rcases hmark with rfl | rfl <;> decide
  refine lexes_of_take (List.cons_ne_nil _ _) (fun ahead _ ↦ ?_)
    fun {ahead} _ _ _ _ _ hfollow _ single ↦ ?_
  · rcases hmark with rfl | rfl <;>
      exact GoesOn.cons (by decide) (by decide) (by decide) (by decide) _
  · rw [take rfl]
    refine takeNode_place ?_ single
    rw [anchorName_behind h visible hfollow]
    rfl

/-- An anchor is a lexeme. -/
theorem lexes_anchor {cs : List Char} (h : IsName cs) :
    Lexes Delimits w ('&' :: cs) [.anchor (String.ofList cs)] :=
  lexes_name h (.inl rfl) .anchor fun chars ↦ by
    simp [take, next?, takeFrom, chars, seesMark, openBrace, closeBrace]

/-- An alias is a lexeme. -/
theorem lexes_alias {cs : List Char} (h : IsName cs) :
    Lexes Delimits w ('*' :: cs) [.alias (String.ofList cs)] :=
  lexes_name h (.inr rfl) .alias fun chars ↦ by
    simp [take, next?, takeFrom, chars, seesMark, openBrace, closeBrace]

/-- The names of kinds are made of letters. -/
def IsKind (cs : List Char) : Prop :=
  cs ≠ [] ∧ ∀ c ∈ cs, isUriChar c = true ∧ c ≠ '%' ∧ IsVisible c

instance (cs : List Char) : Decidable (IsKind cs) :=
  have := List.decidableBAll (fun c ↦ isUriChar c = true ∧ c ≠ '%' ∧ IsVisible c) cs
  inferInstanceAs (Decidable (_ ∧ _))

/-- The name of a kind is read up to a blank. -/
private theorem uri_behind {cs : List Char} (h : IsKind cs) (hfollow : Blank ahead) :
    uri (behind w (cs ++ ahead)) = .ok (String.ofList cs, behind (cs.reverse ++ w) ahead) := by
  obtain ⟨x, more, rfl, hx⟩ := hfollow
  have stop : isUriChar x = false ∧ x ≠ '%' := by rcases hx with rfl | rfl <;> decide
  have read := @span_behind w (x :: more) _ (fun x ↦ isUriChar x && x ≠ '%')
    (fun c hc ↦ (h.2 c hc).2.2.isOrdinary) (fun c hc ↦ by simp [h.2 c hc])
    (by rintro _ ⟨⟩; simp [stop])
  obtain ⟨c, cs, rfl⟩ := List.exists_cons_of_ne_nil h.1
  obtain ⟨some, percent, -⟩ := h.2 c List.mem_cons_self
  have ends (fuel : Nat) (w : List Char) :
      uriParts fuel (behind w (x :: more)) = .ok ([], behind w (x :: more)) := by
    cases fuel with
    | zero => rfl
    | succ fuel =>
      simp [uriParts, sees, seesAny, next?, stop]
      rfl
  have parts (fuel : Nat) : uriParts (fuel + 1) (behind w (c :: cs ++ x :: more)) =
      .ok (c :: cs, behind ((c :: cs).reverse ++ w) (x :: more)) := by
    have noPercent : (behind w (c :: cs ++ x :: more)).sees '%' = false := by
      simpa [sees, next?] using percent
    have sees : (behind w (c :: cs ++ x :: more)).seesAny isUriChar = true := by
      simpa [seesAny, next?] using some
    rw [uriParts, noPercent, sees, read]
    simp [ends]
  have sees : (behind w (c :: cs ++ x :: more)).seesAny isUriChar = true := by
    simpa [seesAny, next?] using some
  rw [uri, sees, parts]
  rfl

/-- The tag of a kind is read. -/
private theorem writtenTag_behind {cs : List Char} (h : IsKind cs) (hfollow : Blank ahead) :
    writtenTag (behind w ('!' :: '!' :: (cs ++ ahead))) =
      .ok (⟨some "!!", String.ofList cs⟩, behind (('!' :: '!' :: cs).reverse ++ w) ahead) := by
  have step (w more : List Char) : (behind w ('!' :: more)).step = behind ('!' :: w) more :=
    step_behind (by decide)
  have second : hasSecondMark (behind w ('!' :: '!' :: (cs ++ ahead))) = true := by
    simp [hasSecondMark, step, isBreak]
  have double : handle (behind w ('!' :: '!' :: (cs ++ ahead))) =
      .ok ("!!", behind ('!' :: '!' :: w) (cs ++ ahead)) := by
    have empty : (behind ('!' :: w) ('!' :: (cs ++ ahead))).span isNameChar =
        ([], behind ('!' :: w) ('!' :: (cs ++ ahead))) := span_of_head (by rintro _ ⟨⟩; rfl)
    simp [handle, step, empty, sees, next?, at?]
  have ends : endsField ahead.head? = true := by
    obtain ⟨x, more, rfl, rfl | rfl⟩ := hfollow <;> rfl
  have mark : endsWord (some '!') = false := by decide
  have other : (behind w ('!' :: '!' :: (cs ++ ahead))).at? 1 = some '!' := rfl
  have named := uri_behind (w := '!' :: '!' :: w) h hfollow
  rw [writtenTag, other, mark, second]
  simp only [double, Option.some.injEq, Char.reduceEq, if_false, Bool.false_eq_true, if_true]
  show (uri (behind ('!' :: '!' :: w) (cs ++ ahead)) >>= _) = _
  rw [named]
  show (if endsField ahead.head? = true then _ else _) = _
  rw [if_pos ends, List.reverse_cons, List.reverse_cons, List.append_assoc, List.append_assoc]
  rfl

private theorem take_tag {s : Cut} {rest : List Char} (h : s.cursor.chars = '!' :: rest) :
    s.take = s.takeNode fun c ↦ (writtenTag c).map fun (t, c) ↦ (.tag t, c) := by
  simp [take, next?, takeFrom, h, seesMark, openBrace, closeBrace]

/-- The tag of a kind is a lexeme. -/
theorem lexes_tag {cs : List Char} (h : IsKind cs) :
    Lexes Blank w ('!' :: '!' :: cs) [.tag ⟨some "!!", String.ofList cs⟩] := by
  refine lexes_of_take (List.cons_ne_nil _ _) (fun ahead _ ↦ ?_)
    fun {ahead} _ _ _ _ _ hfollow _ single ↦ ?_
  · exact GoesOn.cons (by decide) (by decide) (by decide) (by decide) _
  · rw [take_tag rfl]
    refine takeNode_place ?_ single
    rw [List.cons_append, List.cons_append, writtenTag_behind h hfollow]
    rfl

private theorem Delimits.ne_apostrophe (h : Delimits ahead) : ahead.head? ≠ some apostrophe := by
  rcases h with ⟨c, more, rfl, rfl | rfl⟩ | ⟨more, rfl, -⟩ <;>
    exact fun head ↦ absurd (Option.some.inj head) (by decide)

/-- A scalar in marks is a lexeme. -/
theorem lexes_quoted {mark : Char} (hmark : mark = apostrophe ∨ mark = quotationMark)
    {cs : List Char} (reads : ∀ tail, tail.head? ≠ some apostrophe →
      Quoted.scan mark (behind w (mark :: (out ++ tail))) =
        .ok (cs, behind (out.reverse ++ (mark :: w)) tail)) :
    Lexes Delimits w (mark :: out) [.scalar false (String.ofList cs)] := by
  refine lexes_of_take (List.cons_ne_nil _ _) (fun ahead _ ↦ ?_)
    fun {ahead} _ _ _ _ _ hfollow _ single ↦ ?_
  · rcases hmark with rfl | rfl <;>
      exact GoesOn.cons (by decide) (by decide) (by decide) (by decide) _
  · have take (s : Cut) (rest : List Char) (h : s.cursor.chars = mark :: rest) :
        s.take = s.takeNode (quoted mark) := by
      rcases hmark with rfl | rfl <;>
        simp [take, next?, takeFrom, h, seesMark, openBrace, closeBrace, apostrophe, quotationMark]
    rw [take _ _ rfl]
    refine takeNode_place ?_ single
    rw [List.cons_append, quoted, reads _ hfollow.ne_apostrophe, List.reverse_cons,
      List.append_assoc]
    rfl

/-! ### Plain scalars -/

/-- A text that starts with a mark three times has it so in its first word. -/
private theorem take_firstWord {cs : List Char} {mark : Char} (hmark : IsVisible mark) :
    (firstWord cs).take 3 = [mark, mark, mark] ↔ cs.take 3 = [mark, mark, mark] := by
  constructor
  · intro h
    have starts : firstWord cs <+: cs := List.takeWhile_prefix _
    obtain ⟨more, heq⟩ := starts
    have long : 3 ≤ (firstWord cs).length := by
      have length := congrArg List.length h
      rw [List.length_take] at length
      simp only [List.length_cons, List.length_nil] at length
      omega
    rw [← heq, List.take_append_of_le_length long, h]
  · intro h
    obtain ⟨more, rfl⟩ : ∃ more, cs = [mark, mark, mark] ++ more :=
      ⟨cs.drop 3, by rw [← h, List.take_append_drop]⟩
    simp [firstWord, hmark]

private theorem seesMark_eq_false {cs : List Char} {mark : Char} (hmark : IsVisible mark)
    (first : firstWord out = firstWord cs) (separator : cs.take 3 ≠ [mark, mark, mark])
    (htail : ahead.head? ≠ some mark) : (behind w (out ++ ahead)).seesMark mark = false := by
  have other : (out ++ ahead).take 3 ≠ [mark, mark, mark] := by
    have separator : out.take 3 ≠ [mark, mark, mark] := fun h ↦
      separator ((take_firstWord hmark).mp (first ▸ (take_firstWord hmark).mpr h))
    intro h
    match out with
    | [] | [_] | [_, _] =>
      cases ahead with
      | nil => simp at h
      | cons c ahead => simp_all
    | _ :: _ :: _ :: _ => exact separator h
  rw [seesMark, chars_behind, decide_eq_false other, Bool.false_and]

/-- The characters that start something else than a plain scalar, whatever is behind them. -/
def leadingMarks : List Char :=
  "#,[]&*!|>%@".toList ++ [openBrace, closeBrace, apostrophe, quotationMark, Char.ofNat 0x60]

section

variable {cs : List Char} {x : Char} (h : Analysis.IsPlain (x :: cs))

include h

/-- A plain scalar starts with none of them. -/
theorem ne_of_mem_leadingMarks : ∀ d ∈ leadingMarks, x ≠ d := by
  have leading := h.leading x rfl
  rw [Analysis.isLeadingMark, Bool.or_eq_false_iff] at leading
  rintro d hd rfl
  have contained : leadingMarks.contains x = false := leading.1
  rw [List.contains_iff_mem.mpr hd] at contained
  cases contained

/-- A mark of structure at the start of a plain scalar has a character of its word behind it. -/
private theorem endsWord_at_one {c : Cursor} (first : firstWord out = firstWord (x :: cs))
    (chars : c.chars = out ++ ahead) (mark : x = '-' ∨ x = '?' ∨ x = ':') :
    endsWord (c.at? 1) = false := by
  have visible : IsVisible x := by rcases mark with rfl | rfl | rfl <;> decide
  obtain ⟨out, rfl⟩ := exists_of_firstWord visible first
  have leading := h.leading x rfl
  rw [Analysis.isLeadingMark, Bool.or_eq_false_iff] at leading
  have second : (Option.all Analysis.isSpace (x :: cs)[1]?) = false := by
    rcases mark with rfl | rfl | rfl <;> simpa using leading.2
  cases cs with
  | nil => cases second
  | cons y cs =>
    have hy : IsVisible y := by
      obtain ⟨ordinary, feed⟩ := h.printable y (by simp)
      refine isVisible_of_isOrdinary ordinary ?_ feed
      rintro rfl
      cases second
    have rest : firstWord out = firstWord (y :: cs) := by
      simpa [firstWord, visible] using first
    obtain ⟨out, rfl⟩ := exists_of_firstWord hy rest
    rw [at?, chars]
    exact hy.endsWord_eq_false

/-- A plain scalar may start in a block. -/
private theorem startsPlain_of_isPlain {s : Cut} {after : Option Char} (block : s.inBlock = true)
    (word : x = '-' ∨ x = '?' ∨ x = ':' → endsWord after = false) :
    s.startsPlain x after = true := by
  obtain ⟨_, _, ⟨⟩, visible, -⟩ := h.isWords.exists_cons
  rw [startsPlain]
  by_cases mark : x = '-' ∨ x = '?' ∨ x = ':'
  · simp [word mark, block, mark]
  · have contained : ("-?:,[]#&*!|>%@".toList ++ [openBrace, closeBrace, apostrophe,
        quotationMark, Char.ofNat 0x60]).contains x = false := by
      rw [← Bool.not_eq_true, List.contains_iff_mem]
      have cases : ∀ d ∈ "-?:,[]#&*!|>%@".toList ++ [openBrace, closeBrace, apostrophe,
          quotationMark, Char.ofNat 0x60], (d = '-' ∨ d = '?' ∨ d = ':') ∨ d ∈ leadingMarks :=
        List.all_iff_forall_prop.mp (by decide)
      exact fun hx ↦ (cases x hx).elim mark fun hx ↦ ne_of_mem_leadingMarks h x hx rfl
    rw [contained, visible.endsWord_eq_false]
    rfl

end

/-- A plain scalar is read where one stands. -/
theorem take_plain {cs : List Char} (h : Analysis.IsPlain cs) (first : firstWord out = firstWord cs)
    {s : Cut} (chars : s.cursor.chars = out ++ ahead) (block : s.depth = 0)
    (hyphen : s.cursor.seesMark '-' = false) (point : s.cursor.seesMark '.' = false) :
    s.take = s.takePlain := by
  obtain ⟨x, cs, rfl, visible, -⟩ := h.isWords.exists_cons
  have other := ne_of_mem_leadingMarks h
  have word := endsWord_at_one h first chars
  obtain ⟨out, rfl⟩ := exists_of_firstWord visible first
  have noMark (d : Char) (hd : d = '-' ∨ d = '?' ∨ d = ':') :
      (x = d && endsWord (s.cursor.at? 1)) = false := by
    rw [Bool.and_eq_false_iff, decide_eq_false_iff_not, or_iff_not_imp_left, not_not]
    rintro rfl
    exact word hd
  have block' : s.inBlock = true := by simp [inBlock, block]
  have plain := startsPlain_of_isPlain h block' word
  rw [take, next?, chars]
  simp only [List.cons_append, List.head?_cons, takeFrom, hyphen, point, block', plain,
    noMark '-' (.inl rfl), noMark '?' (.inr (.inl rfl)), noMark ':' (.inr (.inr rfl)),
    other '%' (by decide), other '[' (by decide), other openBrace (by decide),
    other ']' (by decide), other closeBrace (by decide), other ',' (by decide),
    other '*' (by decide), other '&' (by decide), other '!' (by decide), other '|' (by decide),
    other '>' (by decide), other apostrophe (by decide), other quotationMark (by decide),
    Bool.not_true, Bool.false_or, Bool.and_false, Bool.false_and, Bool.false_eq_true, if_false,
    if_true, decide_false]

/-- The state after a plain scalar. -/
theorem takePlain_place {cs w' ahead' : List Char} {ended : Bool}
    (h : scan false indent (behind w ahead) = (cs, behind w' ahead', ended))
    (single : mayStartKey = true → starts = []) :
    (place w ahead tokens indent outer mayStartKey starts).takePlain =
      .ok (place w' ahead' (.scalar true (String.ofList cs) :: tokens) indent outer ended
        (saved w tokens indent mayStartKey starts)) := by
  have saves : (place w ahead tokens indent outer mayStartKey starts).saveStart =
      .ok (place w ahead tokens indent outer mayStartKey
        (saved w tokens indent mayStartKey starts)) := by
    cases mayStartKey with
    | false => rfl
    | true => rw [single rfl]; rfl
  have scanned (starts : List (Nat × KeyStart)) :
      scan (!(place w ahead tokens indent outer mayStartKey starts).inBlock)
        (place w ahead tokens indent outer mayStartKey starts).indent
        (place w ahead tokens indent outer mayStartKey starts).cursor =
          (cs, behind w' ahead', ended) := h
  simp only [takePlain, saves, bind, Except.bind, scanned]
  rfl

/-- A plain scalar at a place in a block: its text starts with its first word and is read up to
where it ends. -/
structure IsRead (indent : Int) (w out cs : List Char) : Prop where
  plain : Analysis.IsPlain cs
  first : firstWord out = firstWord cs
  scan_eq : ∀ {tail c ended}, Stops (indent + 1) (out.reverse ++ w) tail c ended →
    scan false indent (behind w (out ++ tail)) = (cs, c, ended)

namespace IsRead

variable {cs : List Char} (h : IsRead indent w out cs)

include h

/-- A plain scalar starts with a visible character that starts no comment. -/
theorem exists_cons : ∃ x more, out = x :: more ∧ IsVisible x ∧ x ≠ '#' := by
  obtain ⟨x, cs, rfl, visible, comment⟩ := h.plain.isWords.exists_cons
  obtain ⟨out, rfl⟩ := exists_of_firstWord visible h.first
  exact ⟨x, out, rfl, visible, comment⟩

/-- No mark that separates documents stands at the start of a plain scalar. -/
theorem seesMark_eq_false (hyphen : ahead.head? ≠ some '-') (point : ahead.head? ≠ some '.')
    (w : List Char) : (behind w (out ++ ahead)).seesMark '-' = false ∧
      (behind w (out ++ ahead)).seesMark '.' = false :=
  ⟨Cut.seesMark_eq_false (by decide) h.first h.plain.separator.1 hyphen,
    Cut.seesMark_eq_false (by decide) h.first h.plain.separator.2 point⟩

/-- A text goes on with a plain scalar. -/
theorem goesOn (hyphen : ahead.head? ≠ some '-') (point : ahead.head? ≠ some '.') :
    GoesOn (out ++ ahead) := by
  have separators := h.seesMark_eq_false hyphen point
  obtain ⟨x, more, rfl, visible, comment⟩ := h.exists_cons
  exact ⟨.cons visible _, fun head ↦ comment (Option.some.inj head), fun w ↦ by
    rw [seesSeparator, (separators w).1, (separators w).2]; rfl⟩

end IsRead

/-- A colon behind a key has no mark at its place. -/
theorem AtColon.head_ne (h : AtColon ahead) {c : Char} (hc : c ≠ ':') : ahead.head? ≠ some c := by
  obtain ⟨more, rfl, -⟩ := h
  exact fun head ↦ hc (Option.some.inj head).symm

/-- A plain scalar is a lexeme of a key. -/
theorem lexes_plain {cs : List Char}
    (h : ∀ indent : Int, indent ≤ columnOf w → IsRead indent w out cs) :
    Lexes AtColon w out [.scalar true (String.ofList cs)] := by
  have here := h (columnOf w) (Int.le_refl _)
  refine lexes_of_take ?_ (fun ahead hfollow ↦ ?_) fun {ahead} _ _ _ _ _ hfollow inside single ↦ ?_
  · obtain ⟨x, more, rfl, -⟩ := here.exists_cons
    exact List.cons_ne_nil _ _
  · exact here.goesOn (hfollow.head_ne (by decide)) (hfollow.head_ne (by decide))
  · obtain ⟨hyphen, point⟩ := here.seesMark_eq_false (hfollow.head_ne (by decide))
      (hfollow.head_ne (by decide)) w
    rw [take_plain here.plain here.first rfl rfl hyphen point]
    obtain ⟨more, rfl, c, more, rfl, hc⟩ := hfollow
    exact takePlain_place ((h _ inside).scan_eq
      (stops_colon (by rcases hc with rfl | rfl <;> rfl))) single

/-! ### Empty collections -/

/-- The state at a place in a flow collection. -/
def flow (w ahead : List Char) (tokens : List Token) (indent : Int) (outer : List Int)
    (starts : List (Nat × KeyStart)) : Cut :=
  ⟨behind w ahead, tokens, 1, indent, outer, true, starts⟩

/-- The end of a flow collection is taken with the starts that are near enough. -/
private theorem next_flow {stop : Char} (visible : IsVisible stop) (goesOn : GoesOn (stop :: ahead))
    (takes : ∀ (s : Cut) rest, s.cursor.chars = stop :: rest → s.take = s.closeFlow t)
    (outside : ∀ x ∈ starts, x.1 = 0)
    (live : ∀ x ∈ starts, x.2.isRequired = true → isLive w x.2 = true) :
    (flow w (stop :: ahead) tokens indent outer starts).next =
      .ok (place (stop :: w) ahead (t :: tokens) indent outer false
        (starts.filter (isLive w ·.2))) := by
  have stays : (flow w (stop :: ahead) tokens indent outer starts).here =
      flow w (stop :: ahead) tokens indent outer starts :=
    skipBlanks_of_spaces (k := 0) rfl goesOn _
  have dropped := dropStale_of_behind (s := flow w (stop :: ahead) tokens indent outer starts) rfl
    live
  have unlisted : (starts.filter (isLive w ·.2)).lookup 1 = none := by
    rw [List.lookup_eq_none_iff]
    intro x hx
    rw [outside x (List.mem_filter.mp hx).1]
    rfl
  rw [next, stays, dropped]
  show take (flow w (stop :: ahead) tokens indent outer (starts.filter (isLive w ·.2))) = _
  have kept : (flow w (stop :: ahead) tokens indent outer
      (starts.filter (isLive w ·.2))).dropStart =
      .ok (flow w (stop :: ahead) tokens indent outer (starts.filter (isLive w ·.2))) := by
    simp only [dropStart, flow, unlisted]
  rw [takes _ _ rfl, closeFlow, kept, place, ← step_behind visible.isOrdinary]
  rfl

/-- An empty flow collection is a lexeme. -/
theorem lexes_flow {start stop : Char} {tstart tstop : Token}
    (h : (start, stop, tstart, tstop) = ('[', ']', flowSeqStart, flowSeqEnd) ∨
      (start, stop, tstart, tstop) = (openBrace, closeBrace, flowMapStart, flowMapEnd)) :
    Lexes Blank w [start, stop] [tstart, tstop] := by
  have visible : IsVisible start ∧ IsVisible stop := by
    rcases h with h | h <;> cases h <;> decide
  have goesOn : ∀ more, GoesOn (start :: more) ∧ GoesOn (stop :: more) := fun more ↦ by
    rcases h with h | h <;> cases h <;>
      exact ⟨.cons (by decide) (by decide) (by decide) (by decide) _,
        .cons (by decide) (by decide) (by decide) (by decide) _⟩
  have takes : (∀ (s : Cut) rest, s.cursor.chars = start :: rest → s.take = s.openFlow tstart) ∧
      ∀ (s : Cut) rest, s.cursor.chars = stop :: rest → s.take = s.closeFlow tstop := by
    rcases h with h | h <;> cases h <;> constructor <;> intro s rest h <;>
      simp [take, next?, takeFrom, h, seesMark, openBrace, closeBrace]
  intro ahead tokens indent outer mayStartKey starts hfollow inside single safe
  obtain ⟨near, hnear, hleft, next⟩ := @exists_next _ _ ahead _ _ _ _ (goesOn _).1 inside
    single safe outer
  have opened : (place w (start :: stop :: ahead) tokens indent outer mayStartKey near).take =
      .ok (flow (start :: w) (stop :: ahead) (tstart :: tokens) indent outer
        (saved w tokens indent mayStartKey near)) := by
    rw [takes.1 _ _ rfl, flow, ← step_behind visible.1.isOrdinary]
    cases mayStartKey with
    | false => rfl
    | true => rw [hnear rfl]; rfl
  have near : ∀ x ∈ saved w tokens indent mayStartKey near, isLive (stop :: start :: w) x.2 = true →
      isLive (start :: w) x.2 = true := fun x hx ↦
    @isLive_of_append _ [stop] _ ((safe x (hleft.1.subset hx)).2.1.trans
      (List.count_le_count_cons))
  have closed := @next_flow (start :: w) _ _ (tstart :: tokens) indent outer _ _ visible.2
    (goesOn ahead).2 takes.2
    (fun x hx ↦ (safe x (hleft.1.subset hx)).1)
    fun x hx required ↦ near x hx ((safe x (hleft.1.subset hx)).2.2 required)
  refine ⟨_, ⟨List.filter_sublist.trans hleft.1, fun x hx live ↦ ?_⟩,
    .trans (.of_next ?_ (next.trans opened) ?_) (.of_next ?_ closed ?_)⟩
  · have hx' := hleft.2 x hx live
    exact List.mem_filter.mpr ⟨hx', near x hx' live⟩
  · show (here (place w (start :: stop :: ahead) tokens indent outer mayStartKey
      starts)).cursor.chars ≠ []
    rw [here_place (goesOn _).1]
    exact List.cons_ne_nil _ _
  · exact Nat.lt_succ_self _
  · rw [here, skipBlanks_of_spaces (k := 0) rfl (goesOn _).2]
    exact List.cons_ne_nil _ _
  · exact Nat.lt_succ_self _

end EntityGraph.Yaml.Token.Cut
