/-
Dotted names, such as `usage.cost`.

A dotted name is read off as the keys between its dots, and keys without dots in them are read back from the name that
joins them (`splitDots_dotted`). So looking up a dotted name in a record is walking into it by these keys
(`lookupDotted_dotted`). Every text is such a name, the empty one and one with dots side by side too, where keys are empty
(`exists_dottedKeys`); and as a path it has the first key for its root and the others for its steps (`ofDotted_dotted`). So the
look-up and the path lead to the same place in every value (`dotted_lookup_is_resolution`).
-/
import Proviso.Path

namespace Proviso

/-- the keys as one name, with dots between them -/
def dotted (keys : List String) : String := ".".intercalate keys

/-- keys that a dotted name can be made of: at least one, and none with a dot in it -/
structure DottedKeys (keys : List String) : Prop where
  nonempty : keys ≠ []
  dotless : ∀ key ∈ keys, '.' ∉ key.toList

theorem splitDots_eq_splitOn (cs : List Char) : splitDots cs = cs.splitOn '.' := by
  induction cs with
  | nil => rfl
  | cons c cs ih =>
    obtain ⟨part, parts, hparts⟩ := List.exists_cons_of_ne_nil (List.splitOn_ne_nil '.' cs)
    rw [splitDots, List.splitOn_cons_eq_if_modifyHead, ih, hparts, List.modifyHead_cons]
    simp only [beq_iff_eq]

/-- the keys are read back from the name that joins them -/
theorem splitDots_dotted {keys : List String} (h : DottedKeys keys) :
    splitDots (dotted keys).toList = keys.map String.toList := by
  rw [splitDots_eq_splitOn, dotted, String.toList_intercalate]
  refine List.splitOn_intercalate '.' ?_ (by simpa using h.nonempty)
  intro part hpart
  obtain ⟨key, hkey, rfl⟩ := List.mem_map.1 hpart
  exact h.dotless key hkey

/-- no dot is left between the dots -/
theorem dot_notMem_of_mem_splitDots {cs part : List Char} (h : part ∈ splitDots cs) : '.' ∉ part := by
  fun_induction splitDots cs generalizing part with
  | case1 => simp_all
  | case2 cs ih =>
    rcases List.mem_cons.1 h with rfl | hpart
    · exact List.not_mem_nil
    · exact ih hpart
  | case3 c cs hc hnil => exact absurd hnil (splitDots_ne_nil cs)
  | case4 c cs hc part' parts hparts ih =>
    rw [hparts] at ih
    rcases List.mem_cons.1 h with rfl | hpart
    · exact List.not_mem_cons_of_ne_of_not_mem (Ne.symm hc) (ih List.mem_cons_self)
    · exact ih (List.mem_cons_of_mem _ hpart)

/-- every text is the dotted name of some keys -/
theorem exists_dottedKeys (name : String) : ∃ root keys, DottedKeys (root :: keys) ∧ name = dotted (root :: keys) := by
  have hjoined : dotted ((splitDots name.toList).map String.ofList) = name := by
    apply String.toList_injective
    rw [dotted, String.toList_intercalate, List.map_map, splitDots_eq_splitOn]
    simp [Function.comp_def]
  have hdotless : ∀ key ∈ (splitDots name.toList).map String.ofList, '.' ∉ key.toList := by
    intro key hkey
    obtain ⟨part, hpart, rfl⟩ := List.mem_map.1 hkey
    rw [String.toList_ofList]
    exact dot_notMem_of_mem_splitDots hpart
  obtain ⟨part, parts, hparts⟩ := List.exists_cons_of_ne_nil (splitDots_ne_nil name.toList)
  rw [hparts, List.map_cons] at hjoined hdotless
  exact ⟨_, _, ⟨List.cons_ne_nil _ _, hdotless⟩, hjoined.symm⟩

/-- the steps of some keys, each into an object -/
def keySteps (keys : List String) : List Segment := keys.map .key

namespace Json

theorem walk_keys (v : Json) (keys : List String) : v.walk (keySteps keys) = keys.foldlM get? v := by
  induction keys generalizing v with
  | nil => rfl
  | cons key keys ih =>
    rw [keySteps, List.map_cons, walk, step, List.foldlM_cons]
    exact Option.bind_congr fun w _ => ih w

/-- a dotted name leads where its keys lead -/
theorem lookupDotted_dotted {keys : List String} (h : DottedKeys keys) (v : Json) :
    v.lookupDotted (dotted keys) = v.walk (keySteps keys) := by
  rw [lookupDotted, splitDots_dotted h, List.foldlM_map, walk_keys]
  simp only [String.ofList_toList]

end Json

/-- as a path, a dotted name starts at its first key and goes on by the others -/
theorem Path.ofDotted_dotted {root : String} {keys : List String} (h : DottedKeys (root :: keys)) :
    Path.ofDotted (dotted (root :: keys)) = ⟨root, keySteps keys⟩ := by
  rw [ofDotted, splitDots_dotted h, List.map_cons, keySteps]
  simp only [List.map_map, Function.comp_def, String.ofList_toList]

/-- **A dotted name is looked up as the path that it denotes is resolved,** in every value and for every text: the text is cut
at its dots, the first key is the root of the path and the others are its steps. And to follow two paths one after the other
is to follow the second from where the first leads, if it leads anywhere. -/
theorem dotted_lookup_is_resolution (v : Json) (name : String) (p q : List Segment) :
    v.lookupDotted name = v.resolve (.ofDotted name) ∧
    (∃ root keys, DottedKeys (root :: keys) ∧ name = dotted (root :: keys) ∧
      Path.ofDotted name = ⟨root, keySteps keys⟩) ∧
    v.walk (p ++ q) = (v.walk p).bind (·.walk q) := by
  obtain ⟨root, keys, hkeys, rfl⟩ := exists_dottedKeys name
  refine ⟨?_, ⟨root, keys, hkeys, rfl, Path.ofDotted_dotted hkeys⟩, v.walk_append p q⟩
  -- the step into the root is a step by a key like the others
  calc v.lookupDotted (dotted (root :: keys))
    _ = v.walk (.key root :: keySteps keys) := Json.lookupDotted_dotted hkeys v
    _ = v.resolve ⟨root, keySteps keys⟩ := rfl
    _ = v.resolve (.ofDotted (dotted (root :: keys))) := by rw [Path.ofDotted_dotted hkeys]

example : Path.ofDotted "a..b." = ⟨"a", [.key "", .key "b", .key ""]⟩ := by decide

end Proviso
