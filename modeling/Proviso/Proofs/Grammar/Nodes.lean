/-
What the nodes of a tree owe to the lexemes it was read from.

`WellFormed ls n` says what the lexemes `ls` have in them when `n` is a node that was read from them: every text, key,
number, parameter and name is that of a lexeme, no field starts at the word of a literal, and a call has as many
arguments as its builtin takes. A phrase gives this to all nodes of its tree, however deep (`Derives.wellFormed`), and has
a lexeme at least for every node (`Derives.length_nodes_le`): the operators of a chain are one fewer than its operands,
and so are the separators of a list.
-/
import Proviso.Proofs.Expr.Chain
import Proviso.Proofs.Grammar.Complete

namespace Proviso

open Reading

/-! ## Nodes and lexemes -/

/-- one of the lexemes denotes the literal -/
def Literal.WrittenIn (ls : List Lexeme) : Literal → Prop
  | .string s => ⟨.string, s⟩ ∈ ls
  | l => ∃ text, ⟨.number, text⟩ ∈ ls ∧ number? text = some l ∨ ⟨.identifier, text⟩ ∈ ls ∧ word? text = some l

/-- one of the lexemes denotes the segment -/
def Segment.WrittenIn (ls : List Lexeme) : Segment → Prop
  | .key name => ⟨.identifier, name⟩ ∈ ls ∨ ⟨.string, name⟩ ∈ ls
  | .index i => ∃ text, ⟨.number, text⟩ ∈ ls ∧ Decimal.index? text.toList = some i

/-- the lexemes denote the path: it starts at an identifier among them that is no literal -/
structure Path.WrittenIn (ls : List Lexeme) (p : Path) : Prop where
  root : ⟨.identifier, p.root⟩ ∈ ls
  free : p.root ∉ literalWords
  rest : ∀ s ∈ p.rest, s.WrittenIn ls

/-- what a node is that was read from the lexemes -/
def Expr.WellFormed (ls : List Lexeme) : Expr → Prop
  | .literal l => l.WrittenIn ls
  | .field p => p.WrittenIn ls
  | .call f args =>
    (∃ name, ⟨.identifier, name⟩ ∈ ls ∧ Builtin.ofName? name = some f) ∧
      f.leastArgs ≤ args.length ∧ args.length ≤ f.mostArgs
  | .every p param _ => p.WrittenIn ls ∧ ⟨.identifier, param⟩ ∈ ls
  | .array _ | .not _ | .binary _ _ _ | .length _ => True

variable {ls ls' : List Lexeme}

theorem Literal.WrittenIn.mono {l : Literal} (h : l.WrittenIn ls) (hsub : ls ⊆ ls') : l.WrittenIn ls' := by
  cases l with
  | string s => exact hsub h
  | int | float | bool | null | undefined =>
    obtain ⟨text, ⟨hmem, htext⟩ | ⟨hmem, htext⟩⟩ := h
    · exact ⟨text, .inl ⟨hsub hmem, htext⟩⟩
    · exact ⟨text, .inr ⟨hsub hmem, htext⟩⟩

/-- a number or a word denotes no string -/
theorem Literal.writtenIn_of_denotes {l : Literal} {text : String}
    (h : ⟨.number, text⟩ ∈ ls ∧ number? text = some l ∨ ⟨.identifier, text⟩ ∈ ls ∧ word? text = some l) :
    l.WrittenIn ls := by
  cases l with
  | string s =>
    rcases h with ⟨-, hnumber⟩ | ⟨-, hword⟩
    · unfold number? at hnumber
      split at hnumber <;> simp at hnumber
    · unfold word? at hword
      repeat' split at hword
      all_goals simp at hword
  | int | float | bool | null | undefined => exact ⟨text, h⟩

theorem Segment.WrittenIn.mono {s : Segment} (h : s.WrittenIn ls) (hsub : ls ⊆ ls') : s.WrittenIn ls' := by
  cases s with
  | key name => exact h.imp (hsub ·) (hsub ·)
  | index i =>
    obtain ⟨text, hmem, htext⟩ := h
    exact ⟨text, hsub hmem, htext⟩

theorem Path.WrittenIn.mono {p : Path} (h : p.WrittenIn ls) (hsub : ls ⊆ ls') : p.WrittenIn ls' :=
  ⟨hsub h.root, h.free, fun s hs => (h.rest s hs).mono hsub⟩

/-- a path that the lexemes denote goes on with a segment that they denote -/
theorem Path.WrittenIn.push {p : Path} {s : Segment} (h : p.WrittenIn ls) (hs : s.WrittenIn ls) :
    (p.push s).WrittenIn ls := by
  refine ⟨h.root, h.free, ?_⟩
  intro s' hs'
  rcases List.mem_append.1 hs' with hold | hnew
  · exact h.rest s' hold
  · obtain rfl := List.mem_singleton.1 hnew
    exact hs

theorem Expr.WellFormed.mono {n : Expr} (h : n.WellFormed ls) (hsub : ls ⊆ ls') : n.WellFormed ls' := by
  cases n with
  | literal l => exact Literal.WrittenIn.mono h hsub
  | field p => exact Path.WrittenIn.mono h hsub
  | call f args =>
    obtain ⟨⟨name, hmem, hname⟩, harity⟩ := h
    exact ⟨⟨name, hsub hmem, hname⟩, harity⟩
  | every p param body => exact ⟨h.1.mono hsub, hsub h.2⟩
  | array | not | binary | length => trivial

namespace Grammar

/-- all nodes of the tree are well formed -/
def AllWellFormed (ls : List Lexeme) (e : Expr) : Prop := ∀ n ∈ e.nodes, n.WellFormed ls

variable {e a b : Expr} {parts : List Part}

theorem AllWellFormed.mono (h : AllWellFormed ls e) (hsub : ls ⊆ ls') : AllWellFormed ls' e :=
  fun n hn => (h n hn).mono hsub

/-- a tree is well formed when its root is and everything below is -/
theorem allWellFormed_node {below : List Expr} (hnodes : e.nodes = e :: below) (h : e.WellFormed ls)
    (hbelow : ∀ n ∈ below, n.WellFormed ls) : AllWellFormed ls e := by
  intro n hn
  rw [hnodes] at hn
  rcases List.mem_cons.1 hn with rfl | hn
  · exact h
  · exact hbelow n hn

theorem allWellFormed_leaf (hnodes : e.nodes = [e]) (h : e.WellFormed ls) : AllWellFormed ls e :=
  allWellFormed_node hnodes h (List.forall_mem_nil _)

theorem AllWellFormed.binary (ha : AllWellFormed ls a) (hb : AllWellFormed ls b) (op : BinaryOp) :
    AllWellFormed ls (.binary op a b) := by
  have hbelow : ∀ n ∈ a.nodes ++ b.nodes, n.WellFormed ls := List.forall_mem_append.2 ⟨ha, hb⟩
  exact allWellFormed_node rfl trivial hbelow

/-- a tree over well-formed operands is well formed -/
theorem AllWellFormed.folds {op : BinaryOp} {ts : List Expr} {ds : List Nat} (h : Expr.Folds op e ts ds)
    (hts : ∀ t ∈ ts, AllWellFormed ls t) : AllWellFormed ls e := by
  induction h with
  | operand e => exact hts e List.mem_cons_self
  | join _ _ ihl ihr =>
    rw [List.forall_mem_append] at hts
    exact (ihl hts.1).binary (ihr hts.2) op

/-- the path of a well-formed field -/
theorem AllWellFormed.path {p : Path} (h : AllWellFormed ls (.field p)) : p.WrittenIn ls :=
  h (.field p) List.mem_cons_self

/-! ## Phrases in a row -/

/-- the trees of some phrases in a row are well formed when each is -/
theorem wellFormed_nodesOf_trees (separator : Lexeme) (h : ∀ p ∈ parts, AllWellFormed p.1 p.2) :
    ∀ n ∈ Expr.nodesOf (trees parts), n.WellFormed (joined separator parts) := by
  intro n hn
  obtain ⟨t, ht, hnode⟩ := Expr.mem_nodesOf.1 hn
  obtain ⟨p, hp, rfl⟩ := List.mem_map.1 ht
  exact (h p hp).mono (sublist_joined separator hp).subset n hnode

theorem trees_ne_nil (some_part : parts ≠ []) : trees parts ≠ [] := by simpa [trees] using some_part

/-- a chain of well-formed phrases is well formed -/
theorem allWellFormed_chain (op : BinaryOp) (separator : Lexeme) (some_part : parts ≠ [])
    (h : ∀ p ∈ parts, AllWellFormed p.1 p.2) :
    AllWellFormed (joined separator parts) (.balanced op (trees parts)) := by
  obtain ⟨ds, hfolds, -⟩ := Expr.folds_balanced op (trees_ne_nil some_part)
  refine AllWellFormed.folds hfolds fun t ht n hn => ?_
  exact wellFormed_nodesOf_trees separator h n (Expr.mem_nodesOf.2 ⟨t, ht, hn⟩)

/-- phrases that have a lexeme for every node have one for every tree besides, when the separators are counted -/
theorem length_nodesOf_trees_le (separator : Lexeme) (h : ∀ p ∈ parts, p.2.nodes.length ≤ p.1.length) :
    (Expr.nodesOf (trees parts)).length + parts.length ≤ (joined separator parts).length + 1 := by
  induction parts with
  | nil => exact Nat.zero_le _
  | cons p parts ih =>
    have hp := h p List.mem_cons_self
    cases parts with
    | nil => simpa [trees, Expr.nodesOf] using hp
    | cons q parts =>
      have hrest := ih fun q hq => h q (List.mem_cons_of_mem p hq)
      rw [joined_cons_cons, trees_cons, Expr.nodesOf, List.length_append, List.length_append]
      simp only [List.length_cons] at hrest ⊢
      omega

/-- a chain has a lexeme for every node when its operands do -/
theorem length_nodes_chain_le (op : BinaryOp) (separator : Lexeme) (some_part : parts ≠ [])
    (h : ∀ p ∈ parts, p.2.nodes.length ≤ p.1.length) :
    (Expr.balanced op (trees parts)).nodes.length ≤ (joined separator parts).length := by
  obtain ⟨ds, hfolds, -⟩ := Expr.folds_balanced op (trees_ne_nil some_part)
  have hnodes := hfolds.length_nodes
  have hparts := length_nodesOf_trees_le separator h
  rw [length_trees] at hnodes
  omega

/-! ## Derivations -/

/-- **Every node of a phrase is well formed.** -/
theorem Derives.wellFormed {c : Category} {d : Nat} (h : Derives c d ls e) : AllWellFormed ls e := by
  induction h with
  | expression _ _ ih | consequence _ ih | equality _ ih | firstEquality _ ih | relation _ ih | firstRelation _ ih
  | positive _ ih | term _ ih | bare _ ih => exact ih
  | implies _ _ iha ihb | nextEquality _ _ _ _ iha ihb | nextRelation _ _ _ _ iha ihb =>
    exact (iha.mono (by simp)).binary (ihb.mono (by simp)) _
  | disjunction parts some_part _ ih | conjunction parts some_part _ ih => exact allWellFormed_chain _ _ some_part ih
  | not _ _ ih | length _ _ ih => exact allWellFormed_node rfl trivial (ih.mono (by simp))
  | @key d j ls p name _ _ ih =>
    have hname : (Segment.key name).WrittenIn (ls ++ [dot, ⟨.identifier, name⟩]) := .inl (by simp)
    exact allWellFormed_leaf rfl ((ih.path.mono (by simp)).push hname)
  | @position d j ls p text i _ index ih =>
    have hindex : (Segment.index i).WrittenIn (ls ++ [openBracket, ⟨.number, text⟩, closeBracket]) :=
      ⟨text, by simp, index⟩
    exact allWellFormed_leaf rfl ((ih.path.mono (by simp)).push hindex)
  | @quotedKey d j ls p name _ ih =>
    have hname : (Segment.key name).WrittenIn (ls ++ [openBracket, ⟨.string, name⟩, closeBracket]) := .inr (by simp)
    exact allWellFormed_leaf rfl ((ih.path.mono (by simp)).push hname)
  | every _ _ ihp ihb =>
    apply allWellFormed_node rfl
    · exact ⟨ihp.path.mono (by simp), by simp⟩
    · apply ihb.mono
      intro l hl
      simp [hl]
  | number denotes =>
    exact allWellFormed_leaf rfl (Literal.writtenIn_of_denotes (.inl ⟨List.mem_singleton.2 rfl, denotes⟩))
  | string => exact allWellFormed_leaf rfl (List.mem_singleton.2 rfl)
  | word denotes =>
    exact allWellFormed_leaf rfl (Literal.writtenIn_of_denotes (.inr ⟨List.mem_singleton.2 rfl, denotes⟩))
  | @field d name free => exact allWellFormed_leaf rfl ⟨List.mem_singleton.2 rfl, word?_eq_none.1 free, nofun⟩
  | @call d f parts arity _ ih =>
    apply allWellFormed_node rfl
    · simp only [Builtin.accepts, Bool.and_eq_true, decide_eq_true_eq] at arity
      rw [Expr.WellFormed, length_trees]
      exact ⟨⟨f.name, List.mem_cons_self, f.ofName?_name⟩, arity⟩
    · intro n harg
      exact (wellFormed_nodesOf_trees comma ih n harg).mono (by intro l hl; simp [hl])
  | array parts _ ih =>
    apply allWellFormed_node rfl
    · trivial
    · intro n hitem
      exact (wellFormed_nodesOf_trees comma ih n hitem).mono (by intro l hl; simp [hl])
  | parenthesised _ ih => exact ih.mono (by simp)

/-- **A phrase has a lexeme for every node of its tree.** -/
theorem Derives.length_nodes_le {c : Category} {d : Nat} (h : Derives c d ls e) : e.nodes.length ≤ ls.length := by
  induction h with
  | expression _ _ ih | consequence _ ih | equality _ ih | firstEquality _ ih | relation _ ih | firstRelation _ ih
  | positive _ ih | term _ ih | bare _ ih => exact ih
  | implies _ _ iha ihb | nextEquality _ _ _ _ iha ihb | nextRelation _ _ _ _ iha ihb =>
    simp only [Expr.nodes, List.length_cons, List.length_append]
    omega
  | disjunction parts some_part _ ih | conjunction parts some_part _ ih => exact length_nodes_chain_le _ _ some_part ih
  | not _ _ ih => exact Nat.succ_le_succ ih
  | length _ _ ih =>
    simp only [Expr.nodes, List.length_cons, List.length_append]
    omega
  | key _ _ ih | position _ _ ih | quotedKey _ ih =>
    rw [List.length_append]
    exact Nat.le_trans ih (Nat.le_add_right _ _)
  | every _ _ _ ihb =>
    simp only [Expr.nodes, List.length_cons, List.length_append]
    omega
  | number | string | word | field => exact Nat.le_refl 1
  | call _ _ _ _ ih | array _ _ ih =>
    have hparts := length_nodesOf_trees_le comma ih
    simp only [Expr.nodes, List.length_cons, List.length_append]
    omega
  | parenthesised _ ih =>
    simp only [List.length_cons, List.length_append]
    omega

/-! ## Accepted trees -/

/-- **Accepted trees are well formed.** In a tree that tokens were read into, and at any depth of it, every call is of a
builtin that an identifier names and has as many arguments as that builtin takes, every field and every array of a
lambda starts at an identifier that is no literal, and every text, key, number and parameter is that of a token. There
are no more nodes than tokens. -/
theorem accepted_trees_well_formed {tokens : List Token} (h : Expr.ofTokens? tokens = .ok e) :
    (∀ n ∈ e.nodes, n.WellFormed (tokens.map (·.toLexeme))) ∧ e.nodes.length ≤ tokens.length := by
  have hderives := derives_of_ofTokens? h
  refine ⟨hderives.wellFormed, ?_⟩
  have hlength := hderives.length_nodes_le
  rw [List.length_map] at hlength
  exact hlength

/-- `eq(my field['a.b'], -5)`, tokens that no text is split into: a name with a blank in it and a number with a sign -/
theorem nodes_of_made_up_tokens :
    let tokens : List Token := [⟨⟨.identifier, "eq"⟩, 0, 2⟩, ⟨⟨.paren, "("⟩, 2, 3⟩, ⟨⟨.identifier, "my field"⟩, 3, 11⟩,
      ⟨⟨.bracket, "["⟩, 11, 12⟩, ⟨⟨.string, "a.b"⟩, 12, 17⟩, ⟨⟨.bracket, "]"⟩, 17, 18⟩, ⟨⟨.comma, ","⟩, 18, 19⟩,
      ⟨⟨.number, "-5"⟩, 20, 22⟩, ⟨⟨.paren, ")"⟩, 22, 23⟩]
    let field : Expr := .field ⟨"my field", [.key "a.b"]⟩
    let e : Expr := .call .eq [field, .literal (.int (-5))]
    Expr.ofTokens? tokens = .ok e ∧ e.nodes = [e, field, .literal (.int (-5))] ∧
      (∀ n ∈ e.nodes, n.WellFormed (tokens.map (·.toLexeme))) ∧ e.nodes.length ≤ 9 := by
  intro tokens field e
  have hread : Expr.ofTokens? tokens = .ok e := by decide +kernel
  exact ⟨hread, rfl, accepted_trees_well_formed hread⟩

end Grammar

end Proviso
