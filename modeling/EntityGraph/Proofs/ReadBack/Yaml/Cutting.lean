import EntityGraph.Proofs.ReadBack.Yaml.Words
import EntityGraph.Yaml.Token

/-!
# Texts cut into tokens

How cutting a text goes on from a state, said without a number of steps. Blanks, starts of keys that
are too far back, and blocks that the next line does not belong to do not wait for the next token:
a state goes on as the one in which they are dealt with.
-/

namespace EntityGraph.Yaml.Token.Cut

open EntityGraph.Text EntityGraph.Yaml.Cursor EntityGraph.Yaml.Plain

/-! ### Steps -/

/-- The state at the next token. -/
def here (s : Cut) : Cut := s.skipBlanks (s.cursor.chars.length + 1)

/-- The state after the next token. -/
def next (s : Cut) : Result Cut := do
  let s ← s.here.dropStale
  let s := s.unindent s.cursor.column
  match s.cursor.next? with
  | some x => s.takeFrom x
  | none => s.finish

/-- The tokens that a text is cut into from a state on, if nothing is wrong with it. -/
inductive Ends : Cut → List Token → Prop
  | last {s t : Cut} (empty : s.here.cursor.chars = []) (h : s.next = .ok t) :
      Ends s t.tokens.reverse
  | step {s t : Cut} {ts : List Token} (more : s.here.cursor.chars ≠ []) (h : s.next = .ok t)
      (shorter : t.cursor.chars.length < s.cursor.chars.length) (rest : Ends t ts) : Ends s ts

private theorem run_succ (s : Cut) (fuel : Nat) : s.run (fuel + 1) = match s.next with
    | .ok after => if s.here.cursor.chars.isEmpty then after.tokens.reverse else after.run fuel
    | .error e => s.breakOff e := rfl

/-- They are found in a number of steps that is large enough. -/
theorem Ends.run_eq {s : Cut} {ts : List Token} (h : Ends s ts) {fuel : Nat}
    (enough : s.cursor.chars.length < fuel) : s.run fuel = ts := by
  induction h generalizing fuel with
  | @last s t empty h =>
    obtain ⟨fuel, rfl⟩ : ∃ n, fuel = n + 1 := ⟨fuel - 1, by omega⟩
    rw [run_succ, h, empty]
    rfl
  | @step s t ts more h shorter _ ih =>
    obtain ⟨fuel, rfl⟩ : ∃ n, fuel = n + 1 := ⟨fuel - 1, by omega⟩
    rw [run_succ, h]
    simp only [List.isEmpty_eq_false_iff.mpr more, Bool.false_eq_true, if_false]
    exact ih (by omega)

/-- Cutting goes on from one state as from another. -/
def Reads (s t : Cut) : Prop := ∀ ts, Ends t ts → Ends s ts

namespace Reads

variable {s t u : Cut}

/-- A state that goes on as another goes on as what the other goes on as. -/
theorem trans (h : Reads s t) (h' : Reads t u) : Reads s u := fun ts ends ↦ h ts (h' ts ends)

/-- A state goes on as the one after the next token. -/
theorem of_next (more : s.here.cursor.chars ≠ []) (h : s.next = .ok t)
    (shorter : t.cursor.chars.length < s.cursor.chars.length) : Reads s t :=
  fun _ ↦ .step more h shorter

/-- A state goes on as one with the same next token. -/
theorem of_next_eq (same : s.next = t.next) (chars : s.here.cursor.chars = t.here.cursor.chars)
    (shorter : t.cursor.chars.length ≤ s.cursor.chars.length) : Reads s t := by
  intro ts ends
  cases ends with
  | last empty h => exact .last (chars.trans empty) (same.trans h)
  | step more h less rest => exact .step (by rwa [chars]) (same.trans h) (by omega) rest

end Reads

/-! ### States outside of flow collections -/

/-- The state at a place outside of flow collections. -/
def place (w ahead : List Char) (tokens : List Token) (indent : Int) (outer : List Int)
    (mayStartKey : Bool) (starts : List (Nat × KeyStart)) : Cut :=
  ⟨behind w ahead, tokens, 0, indent, outer, mayStartKey, starts⟩

variable {w ahead : List Char} {tokens : List Token} {indent : Int} {outer : List Int}
  {mayStartKey : Bool} {starts : List (Nat × KeyStart)}

/-- Spaces in front of what goes on are left out. -/
theorem skipBlanks_of_spaces {s : Cut} {k : Nat}
    (hs : s.cursor = behind w (List.replicate k ' ' ++ ahead)) (h : GoesOn ahead) (fuel : Nat) :
    s.skipBlanks (fuel + 1) = s.moveTo (behind (List.replicate k ' ' ++ w) ahead) := by
  have spaces : ∀ x ∈ List.replicate k ' ', x = ' ' := fun x ↦ List.eq_of_mem_replicate
  have read := @span_behind w ahead _ ((· = ' '))
    (fun x hx ↦ by rw [spaces x hx]; rfl) (fun x hx ↦ by rw [spaces x hx]; rfl)
    fun c hc ↦ decide_eq_false ((h.opens c hc).ne (by decide))
  rw [List.reverse_replicate] at read
  have noComment : (behind (List.replicate k ' ' ++ w) ahead).sees '#' = false :=
    decide_eq_false h.comment
  have noBreak : (behind (List.replicate k ' ' ++ w) ahead).lineBreak? = none := by
    cases ahead with
    | nil => rfl
    | cons c ahead =>
      have visible := h.opens c rfl
      exact lineBreak?_of_printable visible.isOrdinary (visible.ne (by decide))
  rw [skipBlanks, hs]
  simp only [skipSpaces, skip, read, skipComment, noComment, Bool.false_eq_true, if_false, noBreak]

/-- Spaces are left out outside of flow collections. -/
theorem skipBlanks_spaces (k : Nat) (h : GoesOn ahead) (fuel : Nat) :
    (place w (List.replicate k ' ' ++ ahead) tokens indent outer mayStartKey starts).skipBlanks
        (fuel + 1) =
      place (List.replicate k ' ' ++ w) ahead tokens indent outer mayStartKey starts :=
  skipBlanks_of_spaces rfl h fuel

private theorem skipBlanks_lineFeed (k : Nat) (h : GoesOn ahead) (fuel : Nat) :
    (place w ('\n' :: (List.replicate k ' ' ++ ahead)) tokens indent outer mayStartKey
        starts).skipBlanks (fuel + 2) =
      place (List.replicate k ' ' ++ '\n' :: w) ahead tokens indent outer true starts := by
  have stays : (behind w ('\n' :: (List.replicate k ' ' ++ ahead))).span (· = ' ') =
      ([], behind w ('\n' :: (List.replicate k ' ' ++ ahead))) :=
    span_of_head (by rintro _ ⟨⟩; rfl)
  have noComment : (behind w ('\n' :: (List.replicate k ' ' ++ ahead))).sees '#' = false :=
    decide_eq_false nofun
  have moved := @skipBlanks_spaces ('\n' :: w) _ tokens indent outer true starts k h fuel
  rw [skipBlanks, ← moved]
  simp only [place, skipSpaces, skip, stays, skipComment, noComment, Bool.false_eq_true, if_false,
    lineBreak?_lineFeed]
  cases mayStartKey <;> rfl

/-- A state at what goes on is at the next token. -/
theorem here_place (h : GoesOn ahead) :
    (place w ahead tokens indent outer mayStartKey starts).here =
      place w ahead tokens indent outer mayStartKey starts :=
  skipBlanks_spaces 0 h _

/-- Spaces do not wait for the next token. -/
theorem reads_spaces (k : Nat) (h : GoesOn ahead) :
    Reads (place w (List.replicate k ' ' ++ ahead) tokens indent outer mayStartKey starts)
      (place (List.replicate k ' ' ++ w) ahead tokens indent outer mayStartKey starts) := by
  have same : (place w (List.replicate k ' ' ++ ahead) tokens indent outer mayStartKey
    starts).here =
      (place (List.replicate k ' ' ++ w) ahead tokens indent outer mayStartKey starts).here := by
    rw [here_place h]
    exact skipBlanks_spaces k h _
  refine .of_next_eq (by rw [next, next, same]) (by rw [same]) ?_
  show ahead.length ≤ (List.replicate k ' ' ++ ahead).length
  rw [List.length_append]
  exact Nat.le_add_left _ _

/-- Whether a start is near enough for a key: on the line, and not too many characters back. -/
def isLive (w : List Char) (k : KeyStart) : Bool :=
  k.line = w.count '\n' && w.length - k.index ≤ keyLength

private theorem isStale_of_behind {s : Cut} (hs : s.cursor = behind w ahead) (k : KeyStart) :
    s.isStale k = !isLive w k := by
  rw [isLive, Bool.not_and, ← decide_not, ← decide_not, isStale, hs]
  simp only [Nat.not_le]
  rfl

/-- The starts that are too far back are left out, if none of them is required. -/
theorem dropStale_of_behind {s : Cut} (hs : s.cursor = behind w ahead)
    (h : ∀ x ∈ s.starts, x.2.isRequired = true → isLive w x.2 = true) :
    s.dropStale = .ok { s with starts := s.starts.filter (isLive w ·.2) } := by
  have none : (s.starts.any fun x ↦ s.isStale x.2 && x.2.isRequired) = false := by
    rw [List.any_eq_false]
    intro x hx
    rw [isStale_of_behind hs, Bool.and_eq_true, Bool.not_eq_true']
    rintro ⟨stale, required⟩
    rw [h x hx required] at stale
    cases stale
  have same : (s.starts.filter fun x ↦ !s.isStale x.2) = s.starts.filter (isLive w ·.2) :=
    List.filter_congr fun x _ ↦ by rw [isStale_of_behind hs, Bool.not_not]
  show (if (s.starts.any _) = true then malformed else .ok _) = _
  rw [none]
  exact congrArg (fun starts ↦ Except.ok { s with starts }) same

/-- Starts are left out outside of flow collections. -/
theorem dropStale_place (h : ∀ x ∈ starts, x.2.isRequired = true → isLive w x.2 = true) :
    (place w ahead tokens indent outer mayStartKey starts).dropStale =
      .ok (place w ahead tokens indent outer mayStartKey (starts.filter (isLive w ·.2))) :=
  dropStale_of_behind rfl h

/-- The token that starts with the character ahead, or the end of the text. -/
def take (s : Cut) : Result Cut :=
  match s.cursor.next? with
  | some x => s.takeFrom x
  | none => s.finish

/-- The next token, where the state is at what goes on. -/
theorem next_place (h : GoesOn ahead)
    (live : ∀ x ∈ starts, x.2.isRequired = true → isLive w x.2 = true) :
    (place w ahead tokens indent outer mayStartKey starts).next =
      ((place w ahead tokens indent outer mayStartKey (starts.filter (isLive w ·.2))).unindent
        (behind w ahead).column).take := by
  rw [next, here_place h, dropStale_place live]
  rfl

/-- Starts of keys on lines before this one, none of them required. -/
def AreStale (w : List Char) (starts : List (Nat × KeyStart)) : Prop :=
  ∀ x ∈ starts, x.2.isRequired = false ∧ x.2.line < w.count '\n'

/-- Starts of keys on lines before this one do not wait for the next token. -/
theorem reads_stale (h : GoesOn ahead) (stale : AreStale w starts) :
    Reads (place w ahead tokens indent outer mayStartKey starts)
      (place w ahead tokens indent outer mayStartKey []) := by
  have none : starts.filter (isLive w ·.2) = [] := by
    rw [List.filter_eq_nil_iff]
    intro x hx
    rw [isLive, decide_eq_false (stale x hx).2.ne]
    exact Bool.false_ne_true
  have dropped := @dropStale_place w ahead tokens indent outer mayStartKey starts
    fun x hx required ↦ by
      rw [(stale x hx).1] at required
      cases required
  rw [none] at dropped
  refine .of_next_eq ?_ (by rw [here_place h, here_place h]; rfl) (Nat.le_refl _)
  rw [next, next, here_place h, here_place h, dropped]
  rfl

/-- The end of a line does not wait for the next token. A key may start behind it. -/
theorem reads_lineFeed (k : Nat) (h : GoesOn ahead)
    (stale : AreStale (List.replicate k ' ' ++ '\n' :: w) starts) :
    Reads (place w ('\n' :: (List.replicate k ' ' ++ ahead)) tokens indent outer mayStartKey starts)
      (place (List.replicate k ' ' ++ '\n' :: w) ahead tokens indent outer true []) := by
  have moved : (place w ('\n' :: (List.replicate k ' ' ++ ahead)) tokens indent outer mayStartKey
      starts).here = place (List.replicate k ' ' ++ '\n' :: w) ahead tokens indent outer true
      starts := skipBlanks_lineFeed k h _
  refine Reads.trans (.of_next_eq ?_ ?_ ?_) (reads_stale h stale)
  · rw [next, next, moved, here_place h]
  · rw [moved, here_place h]
  · show ahead.length ≤ ('\n' :: (List.replicate k ' ' ++ ahead)).length
    rw [List.length_cons, List.length_append]
    omega

private theorem closeBlocks_of_lt {s : Cut} {column : Int} (h : column < s.indent) (fuel : Nat) :
    s.closeBlocks column (fuel + 1) =
      closeBlocks column fuel
        { s.push .blockEnd with indent := s.outer.headD (-1), outer := s.outer.tail } := by
  rw [closeBlocks, if_pos h]

/-- No block is closed that a column belongs to. -/
theorem closeBlocks_of_le {s : Cut} {column : Int} (h : s.indent ≤ column) (fuel : Nat) :
    s.closeBlocks column fuel = s := by
  cases fuel with
  | zero => rfl
  | succ fuel => rw [closeBlocks, if_neg (Int.not_lt.mpr h)]

/-- The end of a block does not wait for the next token. -/
theorem reads_blockEnd (h : GoesOn ahead) (outside : ((behind w ahead).column : Int) < indent) :
    Reads (place w ahead tokens indent outer mayStartKey [])
      (place w ahead (.blockEnd :: tokens) (outer.headD (-1)) outer.tail mayStartKey []) := by
  have step := closeBlocks_of_lt (s := place w ahead tokens indent outer mayStartKey []) outside
    outer.length
  have closes : (place w ahead tokens indent outer mayStartKey []).unindent
      (behind w ahead).column = (place w ahead (.blockEnd :: tokens) (outer.headD (-1)) outer.tail
        mayStartKey []).unindent (behind w ahead).column := by
    cases outer with
    | nil => exact step.trans (closeBlocks_of_le (s := place w ahead (.blockEnd :: tokens) (-1) []
        mayStartKey []) (by
          show (-1 : Int) ≤ _
          omega) _).symm
    | cons i outer => exact step
  refine .of_next_eq ?_ (by rw [here_place h, here_place h]; rfl) (Nat.le_refl _)
  rw [next_place h (List.forall_mem_nil _), next_place h (List.forall_mem_nil _)]
  exact congrArg take closes

end EntityGraph.Yaml.Token.Cut
