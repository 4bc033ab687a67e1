import EntityGraph.Proofs.ReadBack.Yaml.Texts
import EntityGraph.Yaml.Node

/-!
# Nodes of trees

The nodes that the tokens of a tree are read as. They are numbered in the order of the tree: a node
comes before its parts, and a reference has the number of the node that has its name. Reading the
tokens puts just these nodes in behind those that are there.
-/

namespace EntityGraph.Yaml

/-! ### Steps -/

section Steps

variable {σ α β : Type} {s s' : σ} {x : StateT σ Result α} {a : α}

/-- A step goes on from the state that the one before it ends in. -/
theorem bind_eq {f : α → StateT σ Result β} (h : x s = .ok (a, s')) : (x >>= f) s = f a s' := by
  show (x s >>= _) = _
  rw [h]
  rfl

/-- The result of a step is changed. -/
theorem map_eq (f : α → β) (h : x s = .ok (a, s')) : x.map f s = .ok (f a, s') := by
  show (x s >>= _) = _
  rw [h]
  rfl

end Steps

namespace Build

/-- The numbers of the nodes that have names, by their names. -/
abbrev Names := List (String × Nat)

/-- The state in front of tokens, with nodes and their names. -/
def before (tokens : List Token) (nodes : List Node) (names : Names) : Builder :=
  ⟨tokens, nodes.toArray, names, defaultHandles⟩

/-- The anchor and the tag of a node, if it has them. -/
def marks (name kind : Option String) : List Token :=
  (name.map .anchor).toList ++ (kind.map fun k ↦ .tag ⟨some "!!", k⟩).toList

/-- The names with that of a node, if it has one. -/
def entitle (name : Option String) (n : Nat) (names : Names) : Names :=
  (name.map fun a ↦ (a, n)).toList ++ names

/-- The node behind its anchor and its tag, by its first token. -/
def content (fuel : Nat) (name kind : Option String) (t : Token) : Build Nat :=
  let tag (default : Tag) : Tag := (kind.map fun k ↦ Tag.ofName (Tag.root ++ k)).getD default
  match t with
  | .scalar isPlain text => do
    advance
    add name ⟨tag (if isPlain && kind.isNone then Tag.ofPlain text else .text), .scalar text⟩
  | .flowSeqStart => do
    advance
    collection name (tag .seq) ((flowSeq fuel true).map .seq)
  | .flowMapStart => do
    advance
    collection name (tag .map) ((flowMap fuel true).map .map)
  | .blockEntry => collection name (tag .seq) ((unindentedSeq fuel).map .seq)
  | .blockSeqStart => do
    advance
    collection name (tag .seq) ((blockSeq fuel).map .seq)
  | .blockMapStart => do
    advance
    collection name (tag .map) ((blockMap fuel).map .map)
  | _ => throw .malformed

/-- Whether a node without marks starts with a token. -/
def startsContent : Token → Bool
  | .scalar .. | .flowSeqStart | .flowMapStart | .blockEntry | .blockSeqStart | .blockMapStart =>
    true
  | _ => false

variable {rest : List Token} {nodes : List Node} {names : Names} {t : Token} {fuel : Nat}
  {place : Place}

/-- The next token is found. -/
theorem peek_before (h : ∀ e, t ≠ .broken e) :
    peek (before (t :: rest) nodes names) = .ok (t, before (t :: rest) nodes names) := by
  cases t with
  | broken e => exact absurd rfl (h e)
  | _ => rfl

/-- A token is passed. -/
theorem advance_before :
    advance (before (t :: rest) nodes names) = .ok ((), before rest nodes names) :=
  rfl

private theorem ne_broken_of_startsContent (h : startsContent t = true) (e : Error) :
    t ≠ .broken e := by
  rintro rfl
  cases h

private theorem properties_before (name kind : Option String) (starts : startsContent t = true) :
    properties (before (marks name kind ++ t :: rest) nodes names) =
      .ok ((name, kind.map fun k ↦ ⟨some "!!", k⟩), before (t :: rest) nodes names) := by
  cases name <;> cases kind <;> cases t <;> first | rfl | cases starts

private theorem tagName?_before {kind : Option String}
    (h : ∀ k, kind = some k → Tag.root ++ k ≠ "!") (tokens : List Token) :
    tagName? (kind.map fun k ↦ ⟨some "!!", k⟩) (before tokens nodes names) =
      .ok (kind.map (Tag.root ++ ·), before tokens nodes names) := by
  cases kind with
  | none => rfl
  | some k =>
    show Except.ok (if Tag.root ++ k = "!" then none else some (Tag.root ++ k), _) = _
    rw [if_neg (h k rfl)]
    rfl

private theorem checkNew_before {name : Option String}
    (new : ∀ a, name = some a → names.lookup a = none) (tokens : List Token) :
    checkNew name (before tokens nodes names) = .ok ((), before tokens nodes names) := by
  cases name with
  | none => rfl
  | some a =>
    show (if (names.lookup a).isSome then _ else _ : Build Unit) _ = _
    rw [new a rfl]
    rfl

/-- The marks of a node are passed, if its name is new. -/
theorem node_marks {name kind : Option String} (new : ∀ a, name = some a → names.lookup a = none)
    (hkind : ∀ k, kind = some k → Tag.root ++ k ≠ "!") (starts : startsContent t = true)
    (block : place.allowsBlock = true)
    (unindented : t = .blockEntry → place.allowsUnindented = true) :
    node (fuel + 1) place (before (marks name kind ++ t :: rest) nodes names) =
      content fuel name kind t (before (t :: rest) nodes names) := by
  obtain ⟨u, more, heq, unbroken, noAlias⟩ : ∃ u more, marks name kind ++ t :: rest = u :: more ∧
      (∀ e, u ≠ .broken e) ∧ ∀ a, u ≠ .alias a := by
    cases name with
    | some a => exact ⟨_, _, rfl, nofun, nofun⟩
    | none =>
      cases kind with
      | some k => exact ⟨_, _, rfl, nofun, nofun⟩
      | none =>
        refine ⟨t, rest, rfl, ne_broken_of_startsContent starts, ?_⟩
        rintro a rfl
        cases starts
  rw [node, heq, bind_eq (peek_before unbroken)]
  split
  · exact absurd rfl (noAlias _)
  · rw [← heq, bind_eq (properties_before name kind starts)]
    dsimp only
    rw [bind_eq (tagName?_before hkind _),
      bind_eq (peek_before (ne_broken_of_startsContent starts)),
      bind_eq (checkNew_before new _)]
    cases t with
    | scalar isPlain text => cases kind <;> simp [content]
    | blockEntry => simp only [content, unindented rfl, if_true, Option.map_map]; rfl
    | blockSeqStart => simp only [content, block, if_true, Option.map_map]; rfl
    | blockMapStart => simp only [content, block, if_true, Option.map_map]; rfl
    | flowSeqStart => simp only [content, Option.map_map]; rfl
    | flowMapStart => simp only [content, Option.map_map]; rfl
    | _ => cases starts

/-- A token that is next is taken. -/
theorem take_before (h : ∀ e, t ≠ .broken e) :
    take t (before (t :: rest) nodes names) = .ok (true, before rest nodes names) := by
  rw [take, bind_eq (peek_before h), if_pos rfl]
  rfl

/-- A token that is not next is not taken. -/
theorem take_before_of_ne {u : Token} (h : ∀ e, u ≠ .broken e) (ne : u ≠ t) :
    take t (before (u :: rest) nodes names) = .ok (false, before (u :: rest) nodes names) := by
  rw [take, bind_eq (peek_before h), if_neg ne]
  rfl

/-- A token that is next is passed. -/
theorem expect_before (h : ∀ e, t ≠ .broken e) :
    expect t (before (t :: rest) nodes names) = .ok ((), before rest nodes names) := by
  rw [expect, bind_eq (take_before h)]
  rfl

/-- A node is put in behind the others. -/
theorem add_before (name : Option String) (n : Node) (tokens : List Token) :
    add name n (before tokens nodes names) =
      .ok (nodes.length, before tokens (nodes ++ [n]) (entitle name nodes.length names)) := by
  show Except.ok (_, _) = _
  simp [before, entitle]

private theorem collection_before {name : Option String} {tag : Tag} {parts : Build Parts}
    {ps : Parts} {tokens rest : List Token} {new : List Node} {names' : Names}
    (h : parts (before tokens (nodes ++ [⟨tag, .seq []⟩]) (entitle name nodes.length names)) =
      .ok (ps, before rest (nodes ++ ⟨tag, .seq []⟩ :: new) names')) :
    collection name tag parts (before tokens nodes names) =
      .ok (nodes.length, before rest (nodes ++ ⟨tag, ps⟩ :: new) names') := by
  rw [collection, bind_eq (add_before name _ tokens), bind_eq h]
  show Except.ok (_, _) = _
  simp [before]

/-- A node is read where none of some tokens is next. -/
theorem nodeUnless_before {ends : List Token} (h : ∀ e, t ≠ .broken e) (other : t ∉ ends) :
    nodeUnless (fuel + 1) place ends (before (t :: rest) nodes names) =
      node fuel place (before (t :: rest) nodes names) := by
  rw [nodeUnless, bind_eq (peek_before h), if_neg]
  rwa [List.contains_iff_mem]

end Build

open Build

namespace Form

/-! ### Numbers of nodes -/

/-- The name of an object, if it has one. -/
def title (anchors : List ObjectKey) (key : Option ObjectKey) : Option String :=
  (nameOf? anchors key).map String.ofList

/-- The kind of the nodes with a tag. -/
def kindOf (tag : String) : Tag := Tag.ofName (Tag.root ++ tag)

/-- The names with that of an object which has none so far. -/
def entitle? (anchors : List ObjectKey) (key : Option ObjectKey) (start : Nat) (names : Names) :
    Option Names :=
  if (title anchors key).all fun a ↦ (names.lookup a).isNone then
    some (entitle (title anchors key) start names)
  else none

mutual

/-- The number of a node that is put in behind a number of others, the nodes that are put in, and
the names after that. A node comes before its parts. -/
def lay (anchors : List ObjectKey) (names : Names) (start : Nat) :
    Form → Option (Nat × List Node × Names)
  | .scalar key tag _ text => do
    let names ← entitle? anchors key start names
    return (start, [⟨kindOf tag, .scalar text⟩], names)
  | .seq key tag items => do
    let names ← entitle? anchors key start names
    let (ns, new, names) ← layItems anchors names (start + 1) items
    return (start, ⟨kindOf tag, .seq ns⟩ :: new, names)
  | .map key tag entries => do
    let names ← entitle? anchors key start names
    let (es, new, names) ← layEntries anchors names (start + 1) entries
    return (start, ⟨kindOf tag, .map es⟩ :: new, names)
  | .again key => do
    let n ← names.lookup ((title anchors (some key)).getD "")
    return (n, [], names)

/-- The numbers of the members of a sequence, the nodes that are put in, and the names after
that. -/
def layItems (anchors : List ObjectKey) (names : Names) (start : Nat) :
    List Form → Option (List Nat × List Node × Names)
  | [] => some ([], [], names)
  | f :: fs => do
    let (n, new, names) ← f.lay anchors names start
    let (ns, more, names) ← layItems anchors names (start + new.length) fs
    return (n :: ns, new ++ more, names)

/-- The numbers of the keys and values of a mapping, the nodes that are put in, and the names after
that. -/
def layEntries (anchors : List ObjectKey) (names : Names) (start : Nat) :
    List (Form × Form) → Option (List (Nat × Nat) × List Node × Names)
  | [] => some ([], [], names)
  | (k, v) :: es => do
    let (n, new, names) ← k.lay anchors names start
    let (m, more, names) ← v.lay anchors names (start + new.length)
    let (ns, rest, names) ← layEntries anchors names (start + new.length + more.length) es
    return ((n, m) :: ns, new ++ (more ++ rest), names)

end

/-- The place that a node is read in. -/
def Place.toBuild : Place → Build.Place
  | .entry => .entry
  | .pair | .key => .pair

/-- Whether a node starts with a token. -/
def startsNode : Token → Bool
  | .anchor _ | .tag _ | .alias _ => true
  | t => startsContent t

variable {anchors : List ObjectKey} {place : Place}

/-- The marks of a collection. -/
theorem collectionMarks_eq (key : Option ObjectKey) (tag default : String) :
    (collectionMarks anchors key tag default).map (·.2) =
      marks (title anchors key) (if tag = default then none else some tag) := by
  rw [collectionMarks, nameMarks, marks, title]
  cases nameOf? anchors key <;> split <;> rfl

/-- The marks of a scalar. -/
theorem scalarMarks_eq (key : Option ObjectKey) (isKey : Bool) (tag : String) (isLiteral : Bool)
    (text : String) : (nameMarks anchors key).map (·.2) ++
        (scalarMarks isKey tag isLiteral text).map (·.2) =
      marks (title anchors key)
        (if isImplied isKey tag isLiteral text then none else some tag) := by
  rw [nameMarks, scalarMarks, marks, title]
  cases nameOf? anchors key <;> split <;> rfl

private theorem exists_marks {t : Token} (starts : startsContent t = true)
    (name kind : Option String)
    (rest : List Token) : ∃ u more, marks name kind ++ t :: rest = u :: more ∧
      startsNode u = true ∧ (u = .blockEntry → t = .blockEntry) := by
  cases name with
  | some a => exact ⟨_, _, rfl, rfl, nofun⟩
  | none =>
    cases kind with
    | some k => exact ⟨_, _, rfl, rfl, nofun⟩
    | none =>
      refine ⟨t, rest, rfl, ?_, id⟩
      cases t <;> first | rfl | cases starts

/-- The tokens of a node that is no reference: its marks, and those of its content. -/
private theorem exists_content {f : Form} (h : ∀ key, f ≠ .again key) (place : Place)
    (isIndenting : Bool) :
    ∃ name kind t rest, f.tokens anchors place isIndenting = marks name kind ++ t :: rest ∧
      startsContent t = true ∧ (place = .entry → t ≠ .blockEntry) := by
  cases f with
  | scalar key tag isLiteral text =>
    rw [tokens, leafTokens, scalarTokens, ← List.append_assoc, scalarMarks_eq]
    exact ⟨_, _, _, _, rfl, rfl, fun _ ↦ by simp⟩
  | seq key tag items =>
    rw [tokens, collectionMarks_eq]
    cases items with
    | nil => exact ⟨_, _, .flowSeqStart, _, rfl, rfl, fun _ ↦ by simp⟩
    | cons f fs =>
      by_cases level : (decide (place ≠ .entry) &&
          !(isIndenting && (collectionMarks anchors key tag "seq").isEmpty)) = true
      · simp only [List.isEmpty_cons, Bool.false_eq_true, if_false, level, if_true, itemTokens]
        refine ⟨_, _, .blockEntry, _, rfl, rfl, fun entry ↦ ?_⟩
        simp [entry] at level
      · simp only [List.isEmpty_cons, Bool.false_eq_true, if_false, level]
        exact ⟨_, _, .blockSeqStart, _, rfl, rfl, fun _ ↦ by simp⟩
  | map key tag entries =>
    rw [tokens, collectionMarks_eq]
    cases entries with
    | nil => exact ⟨_, _, .flowMapStart, _, rfl, rfl, fun _ ↦ by simp⟩
    | cons e es => exact ⟨_, _, .blockMapStart, _, rfl, rfl, fun _ ↦ by simp⟩
  | again key => exact absurd rfl (h key)

/-- The first token of a node. -/
theorem exists_tokens (anchors : List ObjectKey) (f : Form) (place : Place) (isIndenting : Bool) :
    ∃ t more, f.tokens anchors place isIndenting = t :: more ∧ startsNode t = true ∧
      (place = .entry → t ≠ .blockEntry) := by
  by_cases h : ∃ key, f = .again key
  · obtain ⟨key, rfl⟩ := h
    rw [tokens, leafTokens]
    exact ⟨_, _, rfl, rfl, fun _ ↦ by simp⟩
  · have noReference : ∀ key, f ≠ .again key := fun key heq ↦ h ⟨key, heq⟩
    obtain ⟨name, kind, t, rest, heq, starts, other⟩ :=
      exists_content noReference place isIndenting
    obtain ⟨u, more, heq', starts', same⟩ := exists_marks starts name kind rest
    exact ⟨u, more, heq.trans heq', starts', fun entry h ↦ other entry (same h)⟩

/-- A text goes on behind a node in a place: it is not broken off, and a sequence that is not
indented ends there. -/
def Follows (place : Place) (rest : List Token) : Prop :=
  ∃ t more, rest = t :: more ∧ (∀ e, t ≠ .broken e) ∧ (place ≠ .entry → t ≠ .blockEntry)

/-- Where a node starts, no text is broken off. -/
theorem ne_broken_of_startsNode {t : Token} (h : startsNode t = true) (e : Error) :
    t ≠ .broken e := by
  rintro rfl
  cases h

/-- Behind the members of a sequence no text is broken off. -/
theorem follows_items (anchors : List ObjectKey) (items : List Form) {t : Token}
    (unbroken : ∀ e, t ≠ .broken e) (rest : List Token) :
    Follows .entry (itemTokens anchors items ++ t :: rest) := by
  cases items with
  | nil => exact ⟨t, rest, rfl, unbroken, fun other ↦ absurd rfl other⟩
  | cons f fs =>
    rw [itemTokens]
    exact ⟨_, _, rfl, fun _ ↦ by simp, fun other ↦ absurd rfl other⟩

private theorem follows_entries (anchors : List ObjectKey) (entries : List (Form × Form))
    (rest : List Token) :
    Follows .pair (entryTokens anchors entries ++ .blockEnd :: rest) := by
  cases entries with
  | nil => exact ⟨_, _, rfl, fun _ ↦ by simp, fun _ ↦ by simp⟩
  | cons e es =>
    rw [entryTokens]
    exact ⟨_, _, rfl, fun _ ↦ by simp, fun _ ↦ by simp⟩

/-- The name of a node is new where the names with it are defined. -/
theorem new_of_entitle? {key : Option ObjectKey} {start : Nat} {names names' : Names}
    (h : entitle? anchors key start names = some names') :
    names' = entitle (title anchors key) start names ∧
      ∀ a, title anchors key = some a → names.lookup a = none := by
  rw [entitle?] at h
  split at h
  · next new =>
    refine ⟨(Option.some.inj h).symm, fun a ha ↦ ?_⟩
    rw [ha] at new
    exact Option.isNone_iff_eq_none.mp new
  · cases h

/-- A tag has a name. -/
theorem root_append_ne (tag : String) : Tag.root ++ tag ≠ "!" := by
  intro h
  have length := congrArg String.length h
  rw [String.length_append] at length
  have root : Tag.root.length = 18 := by decide
  have mark : "!".length = 1 := by decide
  omega

/-- A collection is put in before its parts, with the kind of its tag. -/
private theorem collection_tagged {default : String} {kind : Tag} (hkind : kindOf default = kind)
    {tag : String} {key : Option ObjectKey} {parts : Build Parts} {ps : Parts}
    {tokens rest : List Token} {nodes new : List Node} {names names' : Names}
    (h : ∀ n : Node, parts (before tokens (nodes ++ [n])
      (entitle (title anchors key) nodes.length names)) =
        .ok (ps, before rest (nodes ++ n :: new) names')) :
    collection (title anchors key) (((if tag = default then none else some tag).map fun k ↦
        Tag.ofName (Tag.root ++ k)).getD kind) parts (before tokens nodes names) =
      .ok (nodes.length, before rest (nodes ++ ⟨kindOf tag, ps⟩ :: new) names') := by
  have same : ((if tag = default then none else some tag).map fun k ↦
      Tag.ofName (Tag.root ++ k)).getD kind = kindOf tag := by
    split
    · next unmarked => rw [unmarked, hkind]; rfl
    · rfl
  rw [same]
  exact collection_before (h _)

/-- A place allows collections that are indented. -/
theorem allowsBlock_toBuild (place : Place) : place.toBuild.allowsBlock = true := by
  cases place <;> rfl

/-- A collection behind its marks is read as a node in front of the nodes of its parts, if its first
token starts the collection and the parts are read behind it. -/
theorem node_collection {key : Option ObjectKey} {nodes new : List Node} {names names' : Names}
    (fresh : ∀ a, title anchors key = some a → names.lookup a = none) {default : String}
    {kind : Tag} (hkind : kindOf default = kind) {tag : String} {t : Token}
    {tokens tokens' rest : List Token} {fuel : Nat} {α : Type} {f : α → Parts} {parts : Build α}
    {ps : α} (starts : startsContent t = true)
    (unindented : t = .blockEntry → place.toBuild.allowsUnindented = true)
    (opens : ∀ name marked, content fuel name marked t (before (t :: tokens) nodes names) =
      collection name ((marked.map fun k ↦ Tag.ofName (Tag.root ++ k)).getD kind) (parts.map f)
        (before tokens' nodes names))
    (read : ∀ n : Node, parts (before tokens' (nodes ++ [n])
      (entitle (title anchors key) nodes.length names)) =
        .ok (ps, before rest (nodes ++ [n] ++ new) names')) :
    node (fuel + 1) place.toBuild (before (marks (title anchors key)
        (if tag = default then none else some tag) ++ t :: tokens) nodes names) =
      .ok (nodes.length, before rest (nodes ++ ⟨kindOf tag, f ps⟩ :: new) names') := by
  rw [node_marks fresh (fun k _ ↦ root_append_ne k) starts (allowsBlock_toBuild place) unindented,
    opens]
  refine collection_tagged hkind fun n ↦ ?_
  have whole := map_eq f (read n)
  rwa [List.append_assoc] at whole

private theorem flowSeq_end {fuel : Nat} {rest : List Token} {nodes : List Node} {names : Names} :
    flowSeq (fuel + 1) true (before (.flowSeqEnd :: rest) nodes names) =
      .ok ([], before rest nodes names) := by
  rw [flowSeq, bind_eq (take_before (t := .flowSeqEnd) nofun)]
  rfl

private theorem flowMap_end {fuel : Nat} {rest : List Token} {nodes : List Node} {names : Names} :
    flowMap (fuel + 1) true (before (.flowMapEnd :: rest) nodes names) =
      .ok ([], before rest nodes names) := by
  rw [flowMap, bind_eq (take_before (t := .flowMapEnd) nofun)]
  rfl

private theorem node_alias {a : String} {n fuel : Nat} {place : Build.Place} {rest : List Token}
    {nodes : List Node} {names : Names} (h : names.lookup a = some n) :
    node (fuel + 1) place (before (.alias a :: rest) nodes names) =
      .ok (n, before rest nodes names) := by
  have named : (before rest nodes names).anchors.lookup a = some n := h
  have got : (get : Build Builder) (before rest nodes names) = .ok (_, _) := rfl
  rw [node, bind_eq (peek_before (t := .alias a) fun _ ↦ by simp)]
  dsimp only
  rw [bind_eq advance_before, bind_eq got, named]
  rfl

/-- The kind of a scalar is known from its marks, its style and its text. -/
private theorem scalarKind_eq (isKey : Bool) (tag : String) (isLiteral : Bool) (text : String) :
    ((if isImplied isKey tag isLiteral text then none else some tag).map fun k ↦
        Tag.ofName (Tag.root ++ k)).getD
      (if decide (style isKey tag isLiteral text = .plain) &&
          (if isImplied isKey tag isLiteral text then none else some tag).isNone
        then Tag.ofPlain text else .text) = kindOf tag := by
  cases implied : isImplied isKey tag isLiteral text with
  | false => rfl
  | true =>
    rw [isImplied] at implied
    by_cases plain : style isKey tag isLiteral text = .plain
    · rw [if_pos plain, isRecognised, Bool.and_eq_true, decide_eq_true_iff] at implied
      simpa [plain, kindOf] using implied.2
    · rw [if_neg plain, decide_eq_true_iff] at implied
      subst implied
      have text : kindOf "str" = .text := by decide
      simp [plain, text]

/-- A member of a sequence is read as a node. -/
theorem nodeUnless_item {f : Form} {ends : List Token}
    (h : ∀ t ∈ ends, t = .blockEntry ∨ startsNode t = false) {fuel : Nat} {rest : List Token}
    {nodes : List Node} {names : Names} :
    nodeUnless (fuel + 1) .entry ends
        (before (f.tokens anchors .entry true ++ rest) nodes names) =
      node fuel .entry (before (f.tokens anchors .entry true ++ rest) nodes names) := by
  obtain ⟨t, more, heq, starts, other⟩ := exists_tokens anchors f .entry true
  rw [heq]
  refine nodeUnless_before (ne_broken_of_startsNode starts) fun mem ↦ ?_
  rcases h t mem with rfl | ends
  · exact other rfl rfl
  · rw [starts] at ends
    cases ends

private theorem nodeUnless_pair {f : Form} (place : Place) (isIndenting : Bool) {fuel : Nat}
    {rest : List Token} {nodes : List Node} {names : Names} :
    nodeUnless (fuel + 1) .pair [.key, .value, .blockEnd]
        (before (f.tokens anchors place isIndenting ++ rest) nodes names) =
      node fuel .pair (before (f.tokens anchors place isIndenting ++ rest) nodes names) := by
  obtain ⟨t, more, heq, starts, -⟩ := exists_tokens anchors f place isIndenting
  rw [heq]
  refine nodeUnless_before (ne_broken_of_startsNode starts) fun mem ↦ ?_
  have ends : ∀ t ∈ [Token.key, .value, .blockEnd], startsNode t = false := by decide
  rw [ends t mem] at starts
  cases starts

section Collections

variable {key : Option ObjectKey} {tag : String} {nodes new : List Node}
  {names names₁ names' : Names} {isIndenting : Bool} {fuel : Nat} {rest : List Token}
  (titled : entitle? anchors key nodes.length names = some names₁)

include titled

/-- A sequence is read, if its members are: in a block of their own, or one that is not indented. -/
private theorem node_seq {items : List Form} {ns : List Nat}
    (laid : layItems anchors names₁ (nodes.length + 1) items = some (ns, new, names'))
    (enough : 3 * ((Form.seq key tag items).tokens anchors place isIndenting).length + 2 ≤ fuel + 1)
    (follows : Follows place rest)
    (block : 3 * (itemTokens anchors items).length + 1 ≤ fuel → ∀ n : Node,
      blockSeq fuel (before (itemTokens anchors items ++ .blockEnd :: rest) (nodes ++ [n]) names₁) =
        .ok (ns, before rest (nodes ++ [n] ++ new) names'))
    (unindented : 3 * (itemTokens anchors items).length + 1 ≤ fuel → Follows .pair rest →
      ∀ n : Node,
      unindentedSeq fuel (before (itemTokens anchors items ++ rest) (nodes ++ [n]) names₁) =
        .ok (ns, before rest (nodes ++ [n] ++ new) names')) :
    node (fuel + 1) place.toBuild
        (before ((Form.seq key tag items).tokens anchors place isIndenting ++ rest) nodes names) =
      .ok (nodes.length, before rest (nodes ++ ⟨kindOf tag, .seq ns⟩ :: new) names') := by
  obtain ⟨rfl, fresh⟩ := new_of_entitle? titled
  have kind : kindOf "seq" = .seq := by decide
  rw [tokens, List.length_append] at enough
  rw [tokens, collectionMarks_eq, List.append_assoc]
  by_cases empty : items = []
  · subst empty
    obtain ⟨rfl, rfl, rfl⟩ : [] = ns ∧ [] = new ∧ _ = names' := by simpa [layItems] using laid
    simp only [List.isEmpty_nil, if_true, List.length_cons] at enough
    obtain ⟨fuel, rfl⟩ : ∃ k, fuel = k + 1 := ⟨fuel - 1, by omega⟩
    refine node_collection fresh kind rfl (fun h ↦ by cases h)
      (fun _ _ ↦ bind_eq advance_before) fun n ↦ ?_
    rw [List.append_nil]
    exact flowSeq_end
  have some : items.isEmpty = false := List.isEmpty_eq_false_iff.mpr empty
  by_cases level : (decide (place ≠ .entry) &&
      !(isIndenting && (collectionMarks anchors key tag "seq").isEmpty)) = true
  · simp only [some, Bool.false_eq_true, if_false, level, if_true] at enough ⊢
    have indented : place ≠ .entry := fun entry ↦ by simp [entry] at level
    have follows : Follows .pair rest := by
      obtain ⟨t, ts, heq, unbroken, other⟩ := follows
      exact ⟨t, ts, heq, unbroken, fun _ ↦ other indented⟩
    have parts := unindented (by omega) follows
    obtain ⟨f, fs, rfl⟩ := List.exists_cons_of_ne_nil empty
    rw [itemTokens, List.cons_append] at parts ⊢
    exact node_collection fresh kind rfl (fun _ ↦ by
      cases place <;> first | rfl | exact absurd rfl indented) (fun _ _ ↦ rfl) parts
  · simp only [some, Bool.false_eq_true, if_false, level] at enough ⊢
    simp only [List.length_cons, List.length_append] at enough
    rw [List.cons_append, List.append_assoc]
    exact node_collection fresh kind rfl (fun h ↦ by cases h) (fun _ _ ↦ bind_eq advance_before)
      (block (by omega))

/-- A mapping is read, if its entries are. -/
private theorem node_map {entries : List (Form × Form)} {ns : List (Nat × Nat)}
    (laid : layEntries anchors names₁ (nodes.length + 1) entries = some (ns, new, names')) (enough :
      3 * ((Form.map key tag entries).tokens anchors place isIndenting).length + 2 ≤ fuel + 1)
    (block : 3 * (entryTokens anchors entries).length + 1 ≤ fuel → ∀ n : Node,
      blockMap fuel (before (entryTokens anchors entries ++ .blockEnd :: rest)
        (nodes ++ [n]) names₁) =
        .ok (ns, before rest (nodes ++ [n] ++ new) names')) :
    node (fuel + 1) place.toBuild
        (before ((Form.map key tag entries).tokens anchors place isIndenting ++ rest) nodes names) =
      .ok (nodes.length, before rest (nodes ++ ⟨kindOf tag, .map ns⟩ :: new) names') := by
  obtain ⟨rfl, fresh⟩ := new_of_entitle? titled
  have kind : kindOf "map" = .map := by decide
  rw [tokens, List.length_append] at enough
  rw [tokens, collectionMarks_eq, List.append_assoc]
  by_cases empty : entries = []
  · subst empty
    obtain ⟨rfl, rfl, rfl⟩ : [] = ns ∧ [] = new ∧ _ = names' := by simpa [layEntries] using laid
    simp only [List.isEmpty_nil, if_true, List.length_cons] at enough
    obtain ⟨fuel, rfl⟩ : ∃ k, fuel = k + 1 := ⟨fuel - 1, by omega⟩
    refine node_collection fresh kind rfl (fun h ↦ by cases h)
      (fun _ _ ↦ bind_eq advance_before) fun n ↦ ?_
    rw [List.append_nil]
    exact flowMap_end
  · have some : entries.isEmpty = false := List.isEmpty_eq_false_iff.mpr empty
    simp only [some, Bool.false_eq_true, if_false] at enough ⊢
    simp only [List.length_cons, List.length_append] at enough
    rw [List.cons_append, List.append_assoc]
    exact node_collection fresh kind rfl (fun h ↦ by cases h) (fun _ _ ↦ bind_eq advance_before)
      (block (by omega))

end Collections

mutual

/-- The tokens of a node are read as the node. -/
theorem node_tokens (f : Form) {n : Nat} {new nodes : List Node} {names names' : Names}
    (h : f.lay anchors names nodes.length = some (n, new, names')) (place : Place)
    (isIndenting : Bool) {fuel : Nat}
    (enough : 3 * (f.tokens anchors place isIndenting).length + 2 ≤ fuel) {rest : List Token}
    (follows : Follows place rest) :
    node fuel place.toBuild (before (f.tokens anchors place isIndenting ++ rest) nodes names) =
      .ok (n, before rest (nodes ++ new) names') := by
  obtain ⟨fuel, rfl⟩ : ∃ k, fuel = k + 1 := ⟨fuel - 1, by omega⟩
  cases f with
  | again key =>
    simp only [lay, Option.bind_eq_bind, Option.bind_eq_some_iff, Option.pure_def,
      Option.some.injEq, Prod.mk.injEq] at h
    obtain ⟨_, hn, rfl, rfl, rfl⟩ := h
    rw [tokens, leafTokens, List.append_nil]
    refine node_alias ?_
    rw [← hn, title]
    cases nameOf? anchors (some key) <;> rfl
  | scalar key tag isLiteral text =>
    simp only [lay, Option.bind_eq_bind, Option.bind_eq_some_iff, Option.pure_def,
      Option.some.injEq, Prod.mk.injEq] at h
    obtain ⟨_, hnames, rfl, rfl, rfl⟩ := h
    obtain ⟨rfl, fresh⟩ := new_of_entitle? hnames
    rw [tokens, leafTokens, scalarTokens, ← List.append_assoc, scalarMarks_eq, List.append_assoc,
      List.singleton_append, node_marks fresh (fun k _ ↦ root_append_ne k) rfl
        (allowsBlock_toBuild place) (fun h ↦ by cases h), content, bind_eq advance_before,
      add_before]
    dsimp only
    rw [scalarKind_eq]
  | seq key tag items =>
    simp only [lay, Option.bind_eq_bind, Option.bind_eq_some_iff, Option.pure_def,
      Option.some.injEq, Prod.mk.injEq, Prod.exists] at h
    obtain ⟨names₁, titled, ns, more, names', laid, rfl, rfl, rfl⟩ := h
    have laid' (n : Node) :
        layItems anchors names₁ (nodes ++ [n]).length items = some (ns, more, names') := by
      rwa [List.length_append, List.length_singleton]
    exact node_seq titled laid enough follows
      (fun enough n ↦ blockSeq_tokens items (laid' n) enough rest)
      (fun enough follows n ↦ unindentedSeq_tokens items (laid' n) enough follows)
  | map key tag entries =>
    simp only [lay, Option.bind_eq_bind, Option.bind_eq_some_iff, Option.pure_def,
      Option.some.injEq, Prod.mk.injEq, Prod.exists] at h
    obtain ⟨names₁, titled, ns, more, names', laid, rfl, rfl, rfl⟩ := h
    have laid' (n : Node) :
        layEntries anchors names₁ (nodes ++ [n]).length entries = some (ns, more, names') := by
      rwa [List.length_append, List.length_singleton]
    exact node_map titled laid enough fun enough n ↦ blockMap_tokens entries (laid' n) enough rest
termination_by structural f

/-- The tokens of the members of a sequence are read as the members. -/
theorem blockSeq_tokens (items : List Form) {ns : List Nat} {new nodes : List Node}
    {names names' : Names} (h : layItems anchors names nodes.length items = some (ns, new, names'))
    {fuel : Nat} (enough : 3 * (itemTokens anchors items).length + 1 ≤ fuel) (rest : List Token) :
    blockSeq fuel (before (itemTokens anchors items ++ .blockEnd :: rest) nodes names) =
      .ok (ns, before rest (nodes ++ new) names') := by
  obtain ⟨fuel, rfl⟩ : ∃ k, fuel = k + 1 := ⟨fuel - 1, by omega⟩
  cases items with
  | nil =>
    obtain ⟨rfl, rfl, rfl⟩ : [] = ns ∧ [] = new ∧ names = names' := by simpa [layItems] using h
    rw [itemTokens, List.nil_append, blockSeq,
      bind_eq (take_before_of_ne (t := .blockEntry) (u := .blockEnd) nofun nofun)]
    simp only [Bool.false_eq_true, if_false]
    rw [bind_eq (expect_before (t := .blockEnd) nofun), List.append_nil]
    rfl
  | cons f fs =>
    simp only [layItems, Option.bind_eq_bind, Option.bind_eq_some_iff, Option.pure_def,
      Option.some.injEq, Prod.mk.injEq, Prod.exists] at h
    obtain ⟨n, more, names₁, hf, ns, others, names₂, hfs, rfl, rfl, rfl⟩ := h
    rw [itemTokens, List.length_cons, List.length_append] at enough
    obtain ⟨fuel, rfl⟩ : ∃ k, fuel = k + 1 := ⟨fuel - 1, by omega⟩
    have follows := follows_items anchors fs (t := .blockEnd) nofun rest
    have first := node_tokens f hf .entry true
      (show 3 * (f.tokens anchors .entry true).length + 2 ≤ fuel by omega) follows
    rw [← List.length_append] at hfs
    have further := blockSeq_tokens fs hfs
      (show 3 * (itemTokens anchors fs).length + 1 ≤ fuel + 1 by omega) rest
    have ends : ∀ t ∈ [Token.blockEntry, .blockEnd], t = .blockEntry ∨ startsNode t = false := by
      decide
    rw [itemTokens, List.cons_append, blockSeq, bind_eq (take_before (t := .blockEntry) nofun)]
    simp only [if_true, List.append_assoc]
    rw [bind_eq ((nodeUnless_item ends).trans first), bind_eq further, List.append_assoc]
    rfl
termination_by structural items

/-- The tokens of the members of a sequence that is not indented are read as the members. -/
theorem unindentedSeq_tokens (items : List Form) {ns : List Nat} {new nodes : List Node}
    {names names' : Names} (h : layItems anchors names nodes.length items = some (ns, new, names'))
    {fuel : Nat} (enough : 3 * (itemTokens anchors items).length + 1 ≤ fuel) {rest : List Token}
    (follows : Follows .pair rest) :
    unindentedSeq fuel (before (itemTokens anchors items ++ rest) nodes names) =
      .ok (ns, before rest (nodes ++ new) names') := by
  obtain ⟨fuel, rfl⟩ : ∃ k, fuel = k + 1 := ⟨fuel - 1, by omega⟩
  obtain ⟨t, ts, rfl, unbroken, other⟩ := follows
  cases items with
  | nil =>
    obtain ⟨rfl, rfl, rfl⟩ : [] = ns ∧ [] = new ∧ names = names' := by simpa [layItems] using h
    rw [itemTokens, List.nil_append, unindentedSeq,
      bind_eq (take_before_of_ne unbroken (other nofun)), List.append_nil]
    rfl
  | cons f fs =>
    simp only [layItems, Option.bind_eq_bind, Option.bind_eq_some_iff, Option.pure_def,
      Option.some.injEq, Prod.mk.injEq, Prod.exists] at h
    obtain ⟨n, more, names₁, hf, ns, others, names₂, hfs, rfl, rfl, rfl⟩ := h
    rw [itemTokens, List.length_cons, List.length_append] at enough
    obtain ⟨fuel, rfl⟩ : ∃ k, fuel = k + 1 := ⟨fuel - 1, by omega⟩
    have follows := follows_items anchors fs unbroken ts
    have first := node_tokens f hf .entry true
      (show 3 * (f.tokens anchors .entry true).length + 2 ≤ fuel by omega) follows
    rw [← List.length_append] at hfs
    have further := unindentedSeq_tokens fs hfs
      (show 3 * (itemTokens anchors fs).length + 1 ≤ fuel + 1 by omega)
        ⟨t, ts, rfl, unbroken, other⟩
    have ends : ∀ t ∈ [Token.blockEntry, .key, .value, .blockEnd],
        t = .blockEntry ∨ startsNode t = false := by
      decide
    rw [itemTokens, List.cons_append, unindentedSeq,
      bind_eq (take_before (t := .blockEntry) nofun)]
    simp only [if_true, List.append_assoc]
    rw [bind_eq ((nodeUnless_item ends).trans first), bind_eq further, List.append_assoc]
    rfl
termination_by structural items

/-- The tokens of the entries of a mapping are read as the entries. -/
theorem blockMap_tokens (entries : List (Form × Form)) {ns : List (Nat × Nat)}
    {new nodes : List Node} {names names' : Names}
    (h : layEntries anchors names nodes.length entries = some (ns, new, names'))
    {fuel : Nat} (enough : 3 * (entryTokens anchors entries).length + 1 ≤ fuel)
    (rest : List Token) :
    blockMap fuel (before (entryTokens anchors entries ++ .blockEnd :: rest) nodes names) =
      .ok (ns, before rest (nodes ++ new) names') := by
  obtain ⟨fuel, rfl⟩ : ∃ k, fuel = k + 1 := ⟨fuel - 1, by omega⟩
  cases entries with
  | nil =>
    obtain ⟨rfl, rfl, rfl⟩ : [] = ns ∧ [] = new ∧ names = names' := by simpa [layEntries] using h
    rw [entryTokens, List.nil_append, blockMap,
      bind_eq (take_before_of_ne (t := .key) (u := .blockEnd) nofun nofun)]
    simp only [Bool.false_eq_true, if_false]
    rw [bind_eq (expect_before (t := .blockEnd) nofun), List.append_nil]
    rfl
  | cons e es =>
    obtain ⟨k, v⟩ := e
    simp only [layEntries, Option.bind_eq_bind, Option.bind_eq_some_iff, Option.pure_def,
      Option.some.injEq, Prod.mk.injEq, Prod.exists] at h
    obtain ⟨n, newk, names₁, hk, m, newv, names₂, hv, ns, others, names₃, hes, rfl, rfl, rfl⟩ := h
    have unfolded : entryTokens anchors ((k, v) :: es) =
        .key :: (k.tokens anchors (keyPlace anchors k) true ++
          .value :: (v.tokens anchors .pair (!k.isSimple anchors) ++ entryTokens anchors es)) := by
      rw [entryTokens]
      rfl
    have pair : (keyPlace anchors k).toBuild = .pair := by
      rw [keyPlace]
      split <;> rfl
    rw [unfolded] at enough ⊢
    simp only [List.length_cons, List.length_append] at enough
    obtain ⟨fuel, rfl⟩ : ∃ k, fuel = k + 1 := ⟨fuel - 1, by omega⟩
    have follows : Follows (keyPlace anchors k) (.value :: (v.tokens anchors .pair
        (!k.isSimple anchors) ++ (entryTokens anchors es ++ .blockEnd :: rest))) :=
      ⟨_, _, rfl, nofun, fun _ ↦ nofun⟩
    have first := node_tokens k hk (keyPlace anchors k) true
      (show 3 * (k.tokens anchors (keyPlace anchors k) true).length + 2 ≤ fuel by omega) follows
    rw [← List.length_append] at hv
    have second := node_tokens v hv .pair (!k.isSimple anchors)
      (show 3 * (v.tokens anchors .pair (!k.isSimple anchors)).length + 2 ≤ fuel by omega)
      (follows_entries anchors es rest)
    rw [← List.length_append, ← List.length_append] at hes
    have further := blockMap_tokens es hes
      (show 3 * (entryTokens anchors es).length + 1 ≤ fuel + 1 by omega) rest
    rw [pair] at first
    rw [List.cons_append, blockMap, bind_eq (take_before (t := .key) nofun)]
    simp only [if_true, List.append_assoc, List.cons_append]
    rw [bind_eq ((nodeUnless_pair _ _).trans first), bind_eq (take_before (t := .value) nofun)]
    simp only [if_true]
    rw [bind_eq ((nodeUnless_pair _ _).trans second), bind_eq further]
    simp only [List.append_assoc]
    rfl
termination_by structural entries

end

private theorem endsContent_eq_false {t : Token} (h : startsNode t = true) :
    endsContent t = false := by
  cases t <;> first | rfl | cases h

private theorem ending_before (fuel : Nat) (nodes : List Node) (names : Names) :
    ending (fuel + 1) (before [.streamEnd] nodes names) = .ok ((), before [] nodes names) := by
  have noMark : skipEnds (fuel + 1) (before [.streamEnd] nodes names) =
      .ok ((), before [.streamEnd] nodes names) := by
    rw [skipEnds, bind_eq (take_before_of_ne (t := .documentEnd) (u := .streamEnd) nofun nofun)]
    rfl
  rw [ending, bind_eq noMark, bind_eq (take_before (t := .streamEnd) nofun)]
  rfl

/-- The tokens of a node and the end of the text make a document. -/
theorem ofTokens_tokens {f : Form} {n : Nat} {new : List Node} {names : Names}
    (h : f.lay anchors [] 0 = some (n, new, names)) :
    Document.ofTokens (f.tokens anchors .entry true ++ [.streamEnd]) =
      .ok (some ⟨new.toArray, n⟩) := by
  let ts := f.tokens anchors .entry true ++ [Token.streamEnd]
  obtain ⟨t, more, heq, starts, -⟩ := exists_tokens anchors f .entry true
  have first : ts = t :: (more ++ [.streamEnd]) := by rw [← List.cons_append, ← heq]
  have follows : Follows .entry [Token.streamEnd] := ⟨_, _, rfl, nofun, fun _ ↦ nofun⟩
  have enough : 3 * (f.tokens anchors .entry true).length + 2 ≤ 4 * ts.length + 8 := by
    rw [List.length_append]
    omega
  have read : node (4 * ts.length + 8) .entry (before ts [] []) =
      .ok (n, before [.streamEnd] ([] ++ new) names) :=
    node_tokens f h .entry true enough follows
  have document : Build.document (4 * ts.length + 8) (before ts [] []) =
      .ok (some n, before [] new names) := by
    rw [Build.document, first, bind_eq (peek_before (ne_broken_of_startsNode starts)),
      endsContent_eq_false starts, ← first]
    simp only [Bool.not_false, Bool.true_or, if_true]
    have read' : (some <$> node (4 * ts.length + 8) .entry : Build (Option Nat)) (before ts [] []) =
        .ok (some n, before [.streamEnd] new names) := map_eq some read
    rw [bind_eq read', bind_eq (ending_before _ _ _)]
    rfl
  show (Build.document (4 * ts.length + 8) (before ts [] []) >>= _) = _
  rw [document]
  rfl

end Form

end EntityGraph.Yaml
