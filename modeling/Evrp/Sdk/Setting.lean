import Mathlib.Data.List.Nodup
import Mathlib.Logic.Function.Basic

/-!
# Settings and their overlays

A setting is a map in memory, or an overlay of a top setting over a list of lower
ones, which may be overlays themselves. The code answers each query by walking
the layers anew: `contains` and `get` stop at the first layer that has the key,
`keys` collects what it has not seen, `snapshot` asks for every key again. All of
them are compared with one denotation: the maps at the leaves, from the top to
the last lower, of which the first that has a key decides.
-/

namespace Evrp

/-- The ordered map that a setting stores. -/
abbrev SettingMap (α : Type) := Std.ExtTreeMap String α

theorem SettingMap.getElem?_insert_eq {α : Type} (values : SettingMap α) (key k : String)
    (value : α) : (values.insert key value)[k]? = if key = k then some value else values[k]? := by
  simp only [Std.ExtTreeMap.getElem?_insert, Std.LawfulEqCmp.compare_eq_iff_eq]

theorem SettingMap.nodup_keys {α : Type} (values : SettingMap α) : values.keys.Nodup := by
  refine values.distinct_keys.imp fun {a b} hne heq => hne ?_
  rw [heq]
  exact Std.ReflCmp.compare_self

theorem SettingMap.nodup_toList_keys {α : Type} (values : SettingMap α) :
    (values.toList.map Prod.fst).Nodup := by
  rw [Std.ExtTreeMap.map_fst_toList_eq_keys]
  exact values.nodup_keys

/-- A setting with the layers it refers to. -/
inductive Setting (α : Type) where
  | memory (values : SettingMap α)
  | overlay (top : Setting α) (below : List (Setting α))

namespace Setting

variable {α : Type}

/-- The constructor of an overlay: without a top it owns an empty map, and lowers that are null
are left out. -/
def makeOverlay (top : Option (Setting α)) (lowers : List (Option (Setting α))) : Setting α :=
  .overlay (top.getD (.memory ∅)) (lowers.filterMap id)

/-- Put one more layer below an overlay; a null layer is ignored. -/
def addLower (layer : Option (Setting α)) : Setting α → Setting α
  | .memory values => .memory values
  | .overlay top below => .overlay top (below ++ layer.toList)

mutual

/-- Whether some layer has the key. -/
def contains : Setting α → String → Bool
  | .memory values, key => values.contains key
  | .overlay top below, key => contains top key || containsBelow below key

def containsBelow : List (Setting α) → String → Bool
  | [], _ => false
  | layer :: below, key => contains layer key || containsBelow below key

end

mutual

/-- The value of a key in the first layer that has it; the default is the empty value. -/
def get [Inhabited α] : Setting α → String → α
  | .memory values, key => values[key]?.getD default
  | .overlay top below, key => if contains top key then get top key else getBelow below key

def getBelow [Inhabited α] : List (Setting α) → String → α
  | [], _ => default
  | layer :: below, key => if contains layer key then get layer key else getBelow below key

end

/-- The value of a key if it has the asked type, and a fallback otherwise. -/
def getAs {τ : Type} [Inhabited α] (cast : α → Option τ) (s : Setting α) (key : String)
    (fallback : τ) : τ := (cast (s.get key)).getD fallback

/-- Store a value: an overlay hands it to its top. -/
def insert (key : String) (value : α) : Setting α → Setting α
  | .memory values => .memory (values.insert key value)
  | .overlay top below => .overlay (insert key value top) below

/-- Collect one key: the result so far and the keys seen so far. -/
def addKey (r : List String × List String) (key : String) : List String × List String :=
  if key ∈ r.2 then r else (r.1 ++ [key], key :: r.2)

mutual

/-- The keys of a map in its order; the keys of an overlay layer by layer, each once. -/
def keys : Setting α → List String
  | .memory values => values.keys
  | .overlay top below => (keysBelow (keys top, keys top) below).1

def keysBelow : List String × List String → List (Setting α) → List String × List String
  | r, [] => r
  | r, layer :: below => keysBelow ((keys layer).foldl addKey r) below

end

/-- All keys with their values. -/
def snapshot [Inhabited α] (s : Setting α) : SettingMap α :=
  match s with
  | .memory values => values
  | .overlay top below =>
    (keys (.overlay top below)).foldl
      (fun out key => out.insertIfNew key (get (.overlay top below) key)) ∅

mutual

/-- The maps at the leaves, the top first and then the lowers in their order. -/
def layers : Setting α → List (SettingMap α)
  | .memory values => [values]
  | .overlay top below => layers top ++ layersBelow below

def layersBelow : List (Setting α) → List (SettingMap α)
  | [] => []
  | layer :: below => layers layer ++ layersBelow below

end

/-- The first of a list of maps that has the key decides. -/
def firstMatch (maps : List (SettingMap α)) (key : String) : Option α :=
  maps.findSome? fun values => values[key]?

/-- The map a setting stands for. -/
def denote (s : Setting α) : String → Option α := firstMatch s.layers

theorem firstMatch_append (xs ys : List (SettingMap α)) (key : String) :
    firstMatch (xs ++ ys) key = (firstMatch xs key).or (firstMatch ys key) :=
  List.findSome?_append

theorem denote_memory (values : SettingMap α) (key : String) :
    (Setting.memory values).denote key = values[key]? := by
  rw [denote, layers, firstMatch, List.findSome?_cons]
  cases values[key]? <;> rfl

theorem denote_overlay (top : Setting α) (below : List (Setting α)) (key : String) :
    (Setting.overlay top below).denote key =
      (top.denote key).or (firstMatch (layersBelow below) key) := by
  rw [denote, layers, firstMatch_append]
  rfl

theorem firstMatch_layersBelow_cons (layer : Setting α) (below : List (Setting α))
    (key : String) : firstMatch (layersBelow (layer :: below)) key =
      (layer.denote key).or (firstMatch (layersBelow below) key) := by
  rw [layersBelow, firstMatch_append]
  rfl

mutual

/-- `contains` asks for the domain of the denotation. -/
theorem contains_eq (key : String) : ∀ s : Setting α, s.contains key = (s.denote key).isSome
  | .memory values => by
    rw [contains, denote_memory, Std.ExtTreeMap.contains_eq_isSome_getElem?]
  | .overlay top below => by
    rw [contains, contains_eq key top, containsBelow_eq key below, denote_overlay,
      Option.isSome_or]

theorem containsBelow_eq (key : String) : ∀ below : List (Setting α),
    containsBelow below key = (firstMatch (layersBelow below) key).isSome
  | [] => rfl
  | layer :: below => by
    rw [containsBelow, contains_eq key layer, containsBelow_eq key below,
      firstMatch_layersBelow_cons, Option.isSome_or]

end

/-- Asking a layer whether it has the key and then for its value reads the denotation. -/
private theorem layer_getD [Inhabited α] (layer : Setting α) (key : String) (rest : Option α) :
    (if layer.contains key then (layer.denote key).getD default else rest.getD default) =
      ((layer.denote key).or rest).getD default := by
  rw [contains_eq]
  cases layer.denote key <;> rfl

mutual

/-- `get` is the denotation, empty where the key is absent. -/
theorem get_eq [Inhabited α] (key : String) : ∀ s : Setting α,
    s.get key = (s.denote key).getD default
  | .memory values => by
    rw [get, denote_memory]
  | .overlay top below => by
    rw [get, get_eq key top, getBelow_eq key below, denote_overlay, layer_getD]

theorem getBelow_eq [Inhabited α] (key : String) : ∀ below : List (Setting α),
    getBelow below key = (firstMatch (layersBelow below) key).getD default
  | [] => rfl
  | layer :: below => by
    rw [getBelow, get_eq key layer, getBelow_eq key below, firstMatch_layersBelow_cons,
      layer_getD]

end

/-- The collection lists the keys of a set, each once, and has seen just these. -/
structure Collects (r : List String × List String) (domain : String → Prop) : Prop where
  nodup : r.1.Nodup
  mem_result : ∀ key, key ∈ r.1 ↔ domain key
  mem_seen : ∀ key, key ∈ r.2 ↔ domain key

theorem Collects.addKey {r : List String × List String} {domain : String → Prop}
    (h : Collects r domain) (key : String) :
    Collects (Setting.addKey r key) fun k => domain k ∨ k = key := by
  unfold Setting.addKey
  split
  · rename_i hseen
    have hdomain := (h.mem_seen key).mp hseen
    have hsame (k : String) : domain k ↔ domain k ∨ k = key :=
      ⟨Or.inl, fun hk => hk.elim id fun heq => heq ▸ hdomain⟩
    exact ⟨h.nodup, fun k => (h.mem_result k).trans (hsame k),
      fun k => (h.mem_seen k).trans (hsame k)⟩
  · rename_i hunseen
    have hnew : key ∉ r.1 := by
      rw [h.mem_result, ← h.mem_seen]
      exact hunseen
    refine ⟨?_, fun k => ?_, fun k => ?_⟩
    · rw [List.nodup_append_comm]
      exact List.nodup_cons.mpr ⟨hnew, h.nodup⟩
    · rw [List.mem_append, h.mem_result, List.mem_singleton]
    · rw [List.mem_cons, h.mem_seen]
      exact Or.comm

theorem Collects.foldl {r : List String × List String} {domain : String → Prop}
    (h : Collects r domain) (ks : List String) :
    Collects (ks.foldl Setting.addKey r) fun k => domain k ∨ k ∈ ks := by
  induction ks generalizing r domain with
  | nil => simpa only [List.foldl_nil, List.not_mem_nil, or_false] using h
  | cons key ks ih =>
    have hrest := ih (h.addKey key)
    simpa only [List.foldl_cons, List.mem_cons, or_assoc] using hrest

mutual

/-- `keys` lists the domain of the denotation without duplicates. -/
theorem keys_spec : ∀ s : Setting α,
    s.keys.Nodup ∧ ∀ key, key ∈ s.keys ↔ (s.denote key).isSome = true
  | .memory values => by
    refine ⟨?_, fun key => ?_⟩
    · rw [keys]
      exact values.nodup_keys
    · rw [keys, Std.ExtTreeMap.mem_keys, denote_memory, Std.ExtTreeMap.mem_iff_isSome_getElem?]
  | .overlay top below => by
    obtain ⟨hnodup, hmem⟩ := keys_spec top
    have htop : Collects (top.keys, top.keys) fun key => (top.denote key).isSome = true :=
      ⟨hnodup, hmem, hmem⟩
    have hbelow := collects_keysBelow below htop
    refine ⟨hbelow.nodup, fun key => ?_⟩
    rw [keys, hbelow.mem_result, denote_overlay, Option.isSome_or, Bool.or_eq_true]

theorem collects_keysBelow : ∀ (below : List (Setting α)) {r : List String × List String}
    {domain : String → Prop}, Collects r domain → Collects (keysBelow r below)
      fun key => domain key ∨ (firstMatch (layersBelow below) key).isSome = true
  | [], _, _, h => by
    simpa only [keysBelow, layersBelow, firstMatch, List.findSome?_nil, Option.isSome_none,
      Bool.false_eq_true, or_false] using h
  | layer :: below, _, _, h => by
    obtain ⟨-, hmem⟩ := keys_spec layer
    have hrest := collects_keysBelow below (h.foldl layer.keys)
    simpa only [keysBelow, firstMatch_layersBelow_cons, Option.isSome_or, Bool.or_eq_true,
      or_assoc, hmem] using hrest

end

/-- Emplacing every key of a list with its value. -/
private theorem getElem?_foldl_insertIfNew (f : String → α) (ks : List String)
    (out : SettingMap α) (key : String) :
    (ks.foldl (fun out k => out.insertIfNew k (f k)) out)[key]? =
      out[key]?.or (if key ∈ ks then some (f key) else none) := by
  induction ks generalizing out with
  | nil => simp
  | cons k ks ih =>
    rw [List.foldl_cons, ih]
    simp only [Std.ExtTreeMap.getElem?_insertIfNew, Std.LawfulEqCmp.compare_eq_iff_eq]
    by_cases hk : k = key
    · subst hk
      by_cases hmem : k ∈ out
      · obtain ⟨v, hv⟩ := Option.isSome_iff_exists.mp
          (Std.ExtTreeMap.mem_iff_isSome_getElem?.mp hmem)
        rw [if_neg fun h => h.2 hmem, hv]
        rfl
      · rw [if_pos ⟨rfl, hmem⟩, Std.ExtTreeMap.getElem?_eq_none hmem,
          if_pos (List.mem_cons_self ..)]
        rfl
    · rw [if_neg fun h => hk h.1]
      simp only [List.mem_cons, Ne.symm hk, false_or]

/-- `snapshot` is the denotation. -/
theorem getElem?_snapshot [Inhabited α] (s : Setting α) (key : String) :
    s.snapshot[key]? = s.denote key := by
  cases s with
  | memory values => exact (denote_memory values key).symm
  | overlay top below =>
    have hmem := (keys_spec (.overlay top below)).2 key
    rw [snapshot, getElem?_foldl_insertIfNew, get_eq, Std.ExtTreeMap.getElem?_empty, Option.none_or]
    cases hdenote : (Setting.overlay top below).denote key with
    | none =>
      rw [hdenote] at hmem
      exact if_neg fun h => Bool.false_ne_true (hmem.mp h)
    | some value =>
      rw [hdenote] at hmem
      exact if_pos (hmem.mpr rfl)

/-- An insertion changes the denotation at its key only. -/
theorem denote_insert (key : String) (value : α) : ∀ s : Setting α,
    (s.insert key value).denote = Function.update s.denote key (some value)
  | .memory values => by
    funext k
    rw [insert, denote_memory, SettingMap.getElem?_insert_eq, Function.update_apply, denote_memory]
    simp only [eq_comm]
  | .overlay top below => by
    funext k
    rw [insert, denote_overlay, denote_insert key value top, Function.update_apply,
      Function.update_apply, denote_overlay]
    split <;> rfl

/-- A layer put below an overlay only adds keys that no layer has; a null layer adds none. -/
theorem denote_addLower (layer : Option (Setting α)) (top : Setting α) (below : List (Setting α))
    (key : String) : ((Setting.overlay top below).addLower layer).denote key =
      ((Setting.overlay top below).denote key).or (layer.bind fun layer => layer.denote key) := by
  have hlast : firstMatch (layersBelow (below ++ layer.toList)) key =
      (firstMatch (layersBelow below) key).or (layer.bind fun layer => layer.denote key) := by
    induction below with
    | nil =>
      cases layer with
      | none => rfl
      | some layer =>
        rw [List.nil_append, Option.toList_some, firstMatch_layersBelow_cons]
        exact Option.or_none
    | cons first below ih =>
      rw [List.cons_append, firstMatch_layersBelow_cons, ih, firstMatch_layersBelow_cons,
        Option.or_assoc]
  rw [addLower, denote_overlay, hlast, denote_overlay, Option.or_assoc]

/-- The setting one step down: 0 leads to the top and `i + 1` to the lower at `i`. -/
def child? : Setting α → ℕ → Option (Setting α)
  | .memory _, _ => none
  | .overlay top _, 0 => some top
  | .overlay _ below, i + 1 => below[i]?

/-- The setting at an address. -/
def node? : List ℕ → Setting α → Option (Setting α)
  | [], s => some s
  | i :: path, s => (s.child? i).bind (node? path)

def setChild : Setting α → ℕ → Setting α → Setting α
  | .memory values, _, _ => .memory values
  | .overlay _ below, 0, child => .overlay child below
  | .overlay top below, i + 1, child => .overlay top (below.set i child)

/-- A call on the setting at an address. -/
def modify (f : Setting α → Setting α) : List ℕ → Setting α → Setting α
  | [], s => f s
  | i :: path, s =>
    match s.child? i with
    | none => s
    | some child => s.setChild i (modify f path child)

/-- The calls that change a tree of settings. -/
inductive Update (α : Type) where
  | insert (path : List ℕ) (key : String) (value : α)
  | addLower (path : List ℕ) (layer : Option (Setting α))

def update (s : Setting α) : Update α → Setting α
  | .insert path key value => s.modify (insert key value) path
  | .addLower path layer => s.modify (addLower layer) path

/-- The tree after a sequence of calls. -/
def updates (s : Setting α) (calls : List (Update α)) : Setting α := calls.foldl update s

theorem updates_concat (s : Setting α) (calls : List (Update α)) (call : Update α) :
    s.updates (calls ++ [call]) = (s.updates calls).update call := List.foldl_append

theorem child?_setChild_self {s child c : Setting α} {i : ℕ} (h : s.child? i = some c) :
    (s.setChild i child).child? i = some child := by
  cases s with
  | memory values => cases h
  | overlay top below =>
    cases i with
    | zero => rfl
    | succ i =>
      obtain ⟨hlt, -⟩ := List.getElem?_eq_some_iff.mp h
      exact List.getElem?_set_self hlt

/-- A call acts on the setting at its address. -/
theorem node?_modify_self (f : Setting α → Setting α) {path : List ℕ} {s node : Setting α}
    (h : s.node? path = some node) : (s.modify f path).node? path = some (f node) := by
  induction path generalizing s with
  | nil =>
    obtain rfl := Option.some.inj h
    rfl
  | cons i path ih =>
    obtain ⟨c, hc, hnode⟩ := Option.bind_eq_some_iff.mp h
    simp only [modify, hc, node?, child?_setChild_self hc, Option.bind_some]
    exact ih hnode

theorem node?_append (p q : List ℕ) (s : Setting α) :
    s.node? (p ++ q) = (s.node? p).bind (node? q) := by
  induction p generalizing s with
  | nil => rfl
  | cons i p ih =>
    rw [List.cons_append, node?, node?, Option.bind_assoc]
    exact congrArg _ (funext ih)

/-- Below the setting that is inserted into, whatever is reached through a lower is kept. -/
theorem node?_insert_of_lower (key : String) (value : α) {q : List ℕ} (hq : ∃ j ∈ q, j ≠ 0)
    (s : Setting α) : (s.insert key value).node? q = s.node? q := by
  induction q generalizing s with
  | nil => exact absurd hq (by simp)
  | cons i q ih =>
    cases s with
    | memory values => rfl
    | overlay top below =>
      cases i with
      | zero =>
        obtain ⟨j, hj, hne⟩ := hq
        exact ih ⟨j, (List.mem_cons.mp hj).resolve_left hne, hne⟩ top
      | succ i => rfl

/-- Whatever the calls that built the tree, each query of each setting in it answers from the
denotation of that setting; an insertion changes the denotation at its key only, and nothing
that is reached through a lower of the setting; a layer added to an overlay gives it the keys it
has not. -/
theorem queries_denote [Inhabited α] (s : Setting α) (calls : List (Update α)) {path : List ℕ}
    {node : Setting α} (hnode : (s.updates calls).node? path = some node) :
    (∀ key, node.contains key = true ↔ (node.denote key).isSome = true) ∧
      (∀ key, node.get key = (node.denote key).getD default) ∧
      (node.keys.Nodup ∧ ∀ key, key ∈ node.keys ↔ (node.denote key).isSome = true) ∧
      (∀ key, node.snapshot[key]? = node.denote key) ∧
      (∀ key value, ∃ node',
        (s.updates (calls ++ [.insert path key value])).node? path = some node' ∧
          node'.denote = Function.update node.denote key (some value) ∧
          ∀ q, (∃ j ∈ q, j ≠ 0) →
            (s.updates (calls ++ [.insert path key value])).node? (path ++ q) =
              (s.updates calls).node? (path ++ q)) ∧
      ∀ top below layer, node = .overlay top below → ∃ node',
        (s.updates (calls ++ [.addLower path layer])).node? path = some node' ∧
          ∀ key, node'.denote key =
            (node.denote key).or (layer.bind fun layer => layer.denote key) := by
  refine ⟨fun key => by rw [contains_eq], fun key => get_eq key node, keys_spec node,
    getElem?_snapshot node, fun key value => ?_, ?_⟩
  · have hinsert : (s.updates (calls ++ [.insert path key value])).node? path =
        some (node.insert key value) := by
      rw [updates_concat]
      exact node?_modify_self _ hnode
    refine ⟨node.insert key value, hinsert, denote_insert key value node, fun q hq => ?_⟩
    rw [node?_append, hinsert, node?_append, hnode]
    exact node?_insert_of_lower key value hq node
  · rintro top below layer rfl
    refine ⟨_, ?_, denote_addLower layer top below⟩
    rw [updates_concat]
    exact node?_modify_self _ hnode

/-- A map below an empty top, and the same key inserted into the overlay. -/
theorem queries_denote_shadowed : ∃ node : Setting ℕ,
    ((makeOverlay none [some (.memory (Std.ExtTreeMap.empty.insert "k" 1))]).updates
      [.insert [] "k" 99]).node? [] = some node ∧ node.get "k" = 99 ∧
        node.keys = ["k"] ∧ (node.denote "k").getD default = 99 := by
  have hnode : ((makeOverlay none [some (.memory (Std.ExtTreeMap.empty.insert "k" 1))]).updates
      [.insert [] "k" 99]).node? [] =
        some (Setting.overlay (.memory (Std.ExtTreeMap.empty.insert "k" 99))
          [.memory (Std.ExtTreeMap.empty.insert "k" 1)]) := rfl
  refine ⟨_, hnode, by decide, by decide, ?_⟩
  rw [← (queries_denote _ _ hnode).2.1]
  decide

end Setting

end Evrp
