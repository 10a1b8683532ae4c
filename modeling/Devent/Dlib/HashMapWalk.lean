import Devent.Dlib.HashMapProofs

/-! The walk of a map by `c_hash_map_get_first` and `c_hash_map_get_next`. A pointer to a node is
the chain from it on, NULL is the empty one; an access outside the buckets is undefined. -/
namespace Devent.CHashMap

variable {V : Type}

/-- The bucket loops of `c_hash_map_get_first` and `c_hash_map_get_next`, from `i` on. -/
def headFrom (map : CHashMap V) : Nat → Nat → Option (List (CNode V))
  | 0, i => if i < map.cap then none else some []
  | rounds + 1, i =>
    if i < map.cap then do
      let node ← map.nodes[i]?
      if node.isEmpty then headFrom map rounds (i + 1) else return node
    else some []

def getFirst (map : CHashMap V) : Option (List (CNode V)) :=
  if map.count = 0 then some [] else map.headFrom map.cap 0

def getNext (map : CHashMap V) : List (CNode V) → Option (List (CNode V))
  | [] => some []
  | node :: next =>
    if map.count = 0 then some []
    else if next ≠ [] then some next
    else map.headFrom map.cap (bucketIndex node.key map.cap + 1)

/-- `c_node_get`: a copy of the key, and the value. NULL is -1. -/
def nodeGet (node : List (CNode V)) : Option (CNode V) := node.head?

/-- `while (node)` of `C_HASH_MAP_FOR`, with what the task sees in each round. -/
def forLoop (map : CHashMap V) : Nat → List (CNode V) → Option (List (CNode V))
  | 0, _ => none
  | rounds + 1, node =>
    if node = [] then some []
    else match nodeGet node with
      | none => forLoop map rounds node
      | some seen => do
        let next ← map.getNext node
        let rest ← forLoop map rounds next
        return seen :: rest

def forEach (map : CHashMap V) (rounds : Nat) : Option (List (CNode V)) := do
  let node ← map.getFirst
  map.forLoop rounds node

/-- What the walk has still to visit from a pointer on: the rest of a chain, and the buckets behind. -/
structure Ahead (map : CHashMap V) (node rest : List (CNode V)) : Prop where
  null : node = [] → rest = []
  stands : node ≠ [] → ∃ j chain, map.nodes[j]? = some chain ∧ node <:+ chain ∧
    rest = node ++ (map.nodes.drop (j + 1)).flatten

variable {map : CHashMap V} {node rest : List (CNode V)}

theorem headFrom_spec (width : map.nodes.length = map.cap) {rounds i : Nat} (enough : map.cap ≤ i + rounds) :
    ∃ node, map.headFrom rounds i = some node ∧ Ahead map node (map.nodes.drop i).flatten := by
  induction rounds generalizing i with
  | zero =>
    rw [headFrom, if_neg (by omega), List.drop_eq_nil_of_le (by omega)]
    exact ⟨[], rfl, fun _ => rfl, fun there => absurd rfl there⟩
  | succ rounds ih =>
    rw [headFrom]
    by_cases inside : i < map.cap
    · have bound : i < map.nodes.length := by omega
      rw [if_pos inside, List.getElem?_eq_getElem bound, List.drop_eq_getElem_cons bound, List.flatten_cons]
      simp only [Option.bind_eq_bind, Option.bind_some, List.isEmpty_iff]
      by_cases empty : map.nodes[i] = []
      · rw [if_pos empty, empty, List.nil_append]
        exact ih (by omega)
      · rw [if_neg empty]
        exact ⟨_, rfl, fun null => absurd null empty,
          fun _ => ⟨i, _, List.getElem?_eq_getElem bound, List.suffix_refl _, rfl⟩⟩
    · rw [if_neg inside, List.drop_eq_nil_of_le (by omega)]
      exact ⟨[], rfl, fun _ => rfl, fun there => absurd rfl there⟩

/-- The bucket of the key is where the node is, so nothing between it and the next head is passed. -/
theorem getNext_spec (width : map.nodes.length = map.cap)
    (placed : Buckets.AtHome CNode.key (bucketIndex · map.cap) map.nodes) (positive : 0 < map.count) {first : CNode V}
    {next : List (CNode V)} (ahead : Ahead map (first :: next) rest) :
    ∃ following behind, map.getNext (first :: next) = some following ∧ rest = first :: behind ∧
      Ahead map following behind := by
  obtain ⟨j, chain, at_j, suffix, rfl⟩ := ahead.stands (List.cons_ne_nil _ _)
  rw [getNext, if_neg (by omega)]
  by_cases last : next = []
  · subst last
    have home : bucketIndex first.key map.cap = j := placed j chain at_j first (suffix.subset List.mem_cons_self)
    obtain ⟨following, found, ahead'⟩ := headFrom_spec width (i := j + 1) (Nat.le_add_left map.cap _)
    rw [if_neg (not_not.mpr rfl), home]
    exact ⟨following, _, found, rfl, ahead'⟩
  · rw [if_pos last]
    have suffix' : next <:+ chain := (List.suffix_cons first next).trans suffix
    exact ⟨next, _, rfl, rfl, fun null => absurd null last, fun _ => ⟨j, chain, at_j, suffix', rfl⟩⟩

theorem forLoop_spec (width : map.nodes.length = map.cap)
    (placed : Buckets.AtHome CNode.key (bucketIndex · map.cap) map.nodes) (positive : 0 < map.count) {rounds : Nat}
    (ahead : Ahead map node rest) (enough : rest.length < rounds) : map.forLoop rounds node = some rest := by
  induction rounds generalizing node rest with
  | zero => cases enough
  | succ rounds ih =>
    cases node with
    | nil =>
      rw [ahead.null rfl]
      rfl
    | cons first next =>
      obtain ⟨following, behind, stepped, rfl, ahead'⟩ := getNext_spec width placed positive ahead
      have visited := ih ahead' (Nat.lt_of_succ_lt_succ enough)
      rw [forLoop, if_neg (List.cons_ne_nil _ _)]
      simp only [nodeGet, List.head?_cons, stepped, Option.bind_eq_bind, Option.bind_some, visited]
      rfl

theorem forEach_spec (width : map.nodes.length = map.cap)
    (placed : Buckets.AtHome CNode.key (bucketIndex · map.cap) map.nodes) (positive : 0 < map.count) {rounds : Nat}
    (enough : map.nodes.flatten.length < rounds) : map.forEach rounds = some map.nodes.flatten := by
  obtain ⟨node, found, ahead⟩ := headFrom_spec width (i := 0) (Nat.le_add_left map.cap 0)
  have visited := forLoop_spec width placed positive ahead enough
  rw [forEach, getFirst, if_neg (by omega), found]
  exact visited

/-- What clean resizes keep is all that the walk needs. -/
theorem WellFormed.forEach_spec (wf : WellFormed map) (positive : 0 < map.count) {rounds : Nat}
    (enough : map.nodes.flatten.length < rounds) : map.forEach rounds = some map.nodes.flatten :=
  CHashMap.forEach_spec wf.buckets wf.placed positive enough

/-- A walk of a map with its nodes at home ends, and visits the nodes bucket by bucket, each once. -/
theorem walk_complete (width : map.nodes.length = map.cap)
    (placed : Buckets.AtHome CNode.key (bucketIndex · map.cap) map.nodes)
    (distinct : (map.nodes.flatten.map CNode.key).Nodup) (positive : 0 < map.count) :
    ∃ visited, (∀ rounds, visited.length < rounds → map.forEach rounds = some visited) ∧ visited = map.nodes.flatten ∧
      visited.Nodup ∧ ∀ node, node ∈ visited ↔ ∃ chain ∈ map.nodes, node ∈ chain :=
  ⟨map.nodes.flatten, fun _ enough => forEach_spec width placed positive enough, rfl, distinct.of_map _,
    fun _ => List.mem_flatten⟩

/-- Chains of lengths one, one and two, with empty buckets between and behind them. -/
def gaps : CHashMap Nat where
  cap := 8
  count := 4
  nodes := [[⟨.ofBytes [97], 1⟩], [⟨.ofBytes [113, 97], 2⟩], [], [], [],
    [⟨.ofBytes [97, 97], 3⟩, ⟨.ofBytes [98, 97], 4⟩], [], []]

theorem gaps_walked : ∃ visited, (∀ rounds, visited.length < rounds → gaps.forEach rounds = some visited) ∧
    visited = gaps.nodes.flatten ∧ visited.Nodup ∧ ∀ node, node ∈ visited ↔ ∃ chain ∈ gaps.nodes, node ∈ chain := by
  have homes : ∀ j, (bound : j < gaps.nodes.length) → ∀ node ∈ gaps.nodes[j], bucketIndex node.key gaps.cap = j := by
    decide +kernel
  have placed : Buckets.AtHome CNode.key (bucketIndex · gaps.cap) gaps.nodes := by
    intro j chain at_j node member
    obtain ⟨bound, rfl⟩ := List.getElem?_eq_some_iff.mp at_j
    exact homes j bound node member
  have distinct : (gaps.nodes.flatten.map CNode.key).Nodup := by decide +kernel
  exact walk_complete rfl placed distinct (by decide)

end Devent.CHashMap
