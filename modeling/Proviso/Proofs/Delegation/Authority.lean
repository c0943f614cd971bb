/-
Authority narrows all the way down a tree.

The check compares each node with its children alone. As enclosing carries over from one level to the next
(`Encloses.trans`), a tree that passes has no authority anywhere that is missing further up: the scope of every node
encloses the scopes of all nodes below it, at any distance (`authority_narrows_iff`). Scopes are compared without regard
to case, by the lower-case forms of their entries.
-/
import Proviso.Proofs.Delegation.Tree

namespace Proviso

open Verdict (scope? covers)

/-! ## Scopes -/

namespace Json

/-- the node has this scope: a list of texts -/
def HasScope (v : Json) (scope : List String) : Prop := v.HasList "authority_scope" (scope.map .string)

theorem HasScope.unique {v : Json} {scope scope' : List String} (h : v.HasScope scope) (h' : v.HasScope scope') :
    scope = scope' :=
  (List.map_inj_right fun _ _ heq => Json.string.inj heq).1 (HasList.unique h h')

end Json

namespace Verdict

variable {fold : String → String} {v : Json} {items : List Json} {folded outer inner : List String}

theorem mapM_string?_eq_some : items.mapM (fun item => item.string?.map fold) = some folded ↔
    ∃ scope : List String, items = scope.map .string ∧ folded = scope.map fold := by
  constructor
  · intro h
    induction items generalizing folded with
    | nil =>
      obtain rfl : [] = folded := Option.some.inj h
      exact ⟨[], rfl, rfl⟩
    | cons item items ih =>
      obtain ⟨s, rest, hs, hrest, rfl⟩ := mapM_cons_eq_some.1 h
      obtain ⟨scope, rfl, rfl⟩ := ih hrest
      cases item with
      | string t =>
        obtain rfl : fold t = s := Option.some.inj hs
        exact ⟨t :: scope, rfl, rfl⟩
      | null | bool | number | array | object => cases hs
  · rintro ⟨scope, rfl, rfl⟩
    induction scope with
    | nil => rfl
    | cons s scope ih => exact mapM_cons_eq_some.2 ⟨fold s, scope.map fold, rfl, ih, rfl⟩

/-- reading a scope gives its entries, each folded -/
theorem scope?_eq_some : scope? fold v = some folded ↔ ∃ scope, v.HasScope scope ∧ folded = scope.map fold := by
  constructor
  · intro h
    unfold scope? at h
    split at h
    · next hfield =>
      obtain rfl := Option.some.inj h
      exact ⟨[], .missing hfield, rfl⟩
    · next hfield =>
      obtain rfl := Option.some.inj h
      exact ⟨[], .null hfield, rfl⟩
    · next hfield =>
      obtain ⟨scope, rfl, rfl⟩ := mapM_string?_eq_some.1 h
      exact ⟨scope, .array hfield, rfl⟩
    · cases h
  · rintro ⟨scope, hscope, rfl⟩
    rw [Json.HasScope] at hscope
    generalize hitems : scope.map Json.string = items at hscope
    cases hscope with
    | missing h | null h =>
      obtain rfl := List.map_eq_nil_iff.1 hitems
      rw [scope?, h]
      rfl
    | array h =>
      rw [scope?, h]
      exact mapM_string?_eq_some.2 ⟨scope, hitems.symm, rfl⟩

theorem covers_iff : covers outer inner = true ↔ ∀ s ∈ inner, s ∈ outer := by
  simp only [covers, List.all_eq_true, List.contains_iff_mem]

end Verdict

/-! ## One scope inside another -/

namespace Json

/-- whatever stands in the scope of the lower node stands in that of the upper one, without regard to case -/
def Encloses (upper lower : Json) : Prop :=
  ∀ outer inner, upper.HasScope outer → lower.HasScope inner →
    ∀ s ∈ inner, Text.lowercase s ∈ outer.map Text.lowercase

theorem Encloses.refl (node : Json) : node.Encloses node := by
  intro outer inner houter hinner s hs
  obtain rfl := houter.unique hinner
  exact List.mem_map_of_mem hs

theorem Encloses.trans {upper middle lower : Json} (h : upper.Encloses middle) (h' : middle.Encloses lower)
    (hscope : ∃ scope, middle.HasScope scope) : upper.Encloses lower := by
  obtain ⟨between, hbetween⟩ := hscope
  intro outer inner houter hinner s hs
  obtain ⟨t, ht, heq⟩ := List.mem_map.1 (h' between inner hbetween hinner s hs)
  rw [← heq]
  exact h outer between houter hbetween t ht

/-! ## Nodes -/

/-- a node as it should be: an object whose children are a list and whose scope is a list of texts -/
structure WellScoped (node : Json) : Prop where
  object : node.IsObject
  children : ∃ children, node.HasList "children" children
  scope : ∃ scope, node.HasScope scope

/-- What is asked of each node by itself: it is as it should be, and its scope encloses those of its children. -/
structure NarrowsAuthority (node : Json) : Prop extends node.WellScoped where
  child : ∀ child, node.Child child → (∃ scope, child.HasScope scope) ∧ node.Encloses child

variable {node child below : Json} {distance : Nat}

/-- **Enclosing carries over to any distance.** -/
theorem Descends.encloses (h : node.Descends distance below)
    (hall : ∀ depth other, node.Descends depth other → other.NarrowsAuthority) : node.Encloses below := by
  induction h with
  | here => exact .refl _
  | @down node child below distance hchild hbelow ih =>
    -- the scope between the two has to be there, or enclosing it would say nothing
    obtain ⟨hscope, hencloses⟩ := (hall 0 node (.here node)).child child hchild
    have hrest := ih fun depth other hother => hall (depth + 1) other (.down hchild hother)
    exact hencloses.trans hrest hscope

end Json

/-! ## The check -/

namespace Verdict

open Json

variable {node : Json} {levels : Nat}

theorem any_covers_iff {outer : List String} {child : Json} (houter : node.HasScope outer) :
    (scope? Text.lowercase child).any (covers (outer.map Text.lowercase)) = true ↔
      (∃ scope, child.HasScope scope) ∧ node.Encloses child := by
  rw [Option.any_eq_true]
  constructor
  · rintro ⟨folded, hfolded, hcovers⟩
    obtain ⟨inner, hinner, rfl⟩ := scope?_eq_some.1 hfolded
    refine ⟨⟨inner, hinner⟩, fun outer' inner' houter' hinner' s hs => ?_⟩
    obtain rfl := houter.unique houter'
    obtain rfl := hinner.unique hinner'
    exact covers_iff.1 hcovers _ (List.mem_map_of_mem hs)
  · rintro ⟨⟨inner, hinner⟩, hencloses⟩
    refine ⟨inner.map Text.lowercase, scope?_eq_some.2 ⟨inner, hinner, rfl⟩, covers_iff.2 fun s hs => ?_⟩
    obtain ⟨t, ht, rfl⟩ := List.mem_map.1 hs
    exact hencloses outer inner houter hinner t ht

theorem authorityNarrows_succ : authorityNarrows (levels + 1) node = true ↔
    node.NarrowsAuthority ∧ ∀ child, node.Child child → authorityNarrows levels child = true := by
  rw [authorityNarrows, Bool.and_eq_true, isSome_object?]
  constructor
  · rintro ⟨hobject, hcheck⟩
    split at hcheck
    · next folded children hfolded hlist =>
      obtain ⟨outer, houter, rfl⟩ := scope?_eq_some.1 hfolded
      have hchildren := listAt?_eq_some.1 hlist
      have hall : ∀ child, node.Child child →
          ((∃ scope, child.HasScope scope) ∧ node.Encloses child) ∧ authorityNarrows levels child = true := by
        intro child hchild
        have h := List.all_eq_true.1 hcheck child (hchildren.child_iff.1 hchild)
        rwa [Bool.and_eq_true, any_covers_iff houter] at h
      exact ⟨{
        object := hobject
        children := ⟨children, hchildren⟩
        scope := ⟨outer, houter⟩
        child := fun child hchild => (hall child hchild).1 }, fun child hchild => (hall child hchild).2⟩
    · cases hcheck
  · rintro ⟨hnode, hbelow⟩
    obtain ⟨children, hchildren⟩ := hnode.children
    obtain ⟨outer, houter⟩ := hnode.scope
    refine ⟨hnode.object, ?_⟩
    simp only [scope?_eq_some.2 ⟨outer, houter, rfl⟩, listAt?_eq_some.2 hchildren, List.all_eq_true, Bool.and_eq_true]
    intro child hmem
    have hchild := hchildren.child_iff.2 hmem
    exact ⟨(any_covers_iff houter).2 (hnode.child child hchild), hbelow child hchild⟩

theorem authorityNarrows_iff : authorityNarrows levels node = true ↔
    ∀ depth below, node.Descends depth below → depth < levels ∧ below.NarrowsAuthority :=
  level_check_iff (fun _ => rfl) (fun _ _ => authorityNarrows_succ) levels node

/-- what is asked of each node and its children says the same as what is asked of each node and all nodes below it -/
theorem narrowsAuthority_iff {tree : Json} {bound : Nat} :
    (∀ depth node, tree.Descends depth node → depth ≤ bound ∧ node.NarrowsAuthority) ↔
      (∀ depth node, tree.Descends depth node → depth ≤ bound ∧ node.WellScoped) ∧
        ∀ depth node distance below, tree.Descends depth node → node.Descends distance below → node.Encloses below := by
  constructor
  · intro h
    refine ⟨fun depth node hnode => ?_, fun depth node distance below hnode hbelow => ?_⟩
    · obtain ⟨hdepth, hnarrows⟩ := h depth node hnode
      exact ⟨hdepth, hnarrows.toWellScoped⟩
    · exact hbelow.encloses fun deeper other hother => (h (deeper + depth) other (hnode.trans hother)).2
  · rintro ⟨hshape, hencloses⟩ depth node hnode
    obtain ⟨hdepth, hscoped⟩ := hshape depth node hnode
    refine ⟨hdepth, hscoped, fun child hchild => ?_⟩
    have hstep : node.Descends 1 child := .down hchild (.here child)
    exact ⟨(hshape (1 + depth) child (hnode.trans hstep)).2.scope, hencloses depth node 1 child hnode hstep⟩

/-- **Authority narrows along a tree exactly when every node encloses all that lies below it.** A tree passes if each
node, at most ten levels below the root, is an object with a list of children and a list of texts as its scope, and the
scope of each node holds, up to case, every entry of every node below it at any distance. Without a root there is
nothing to check, and nothing else passes. -/
theorem authority_narrows_iff (root : Operand) :
    treeAuthorityNarrowing root = .bool true ↔
      root = .absent ∨ root = .json .null ∨ ∃ tree, root = .json tree ∧
        (∀ depth node, tree.Descends depth node → depth ≤ 10 ∧ node.WellScoped) ∧
        ∀ depth node distance below, tree.Descends depth node → node.Descends distance below → node.Encloses below := by
  rw [treeAuthorityNarrowing, onTree_eq_true]
  simp only [authorityNarrows_iff, narrowsAuthority_iff, maxTreeDepth, Nat.lt_succ_iff]

end Verdict

end Proviso
