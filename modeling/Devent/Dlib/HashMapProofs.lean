import Devent.Dlib.HashMap
import Devent.Library.Run
import Mathlib.Data.Nat.Bitwise

/-! `CHashMap` against finite maps. Every operation keeps each node in the
bucket of its hash, except a resize that meets a stranded key: the bit tested is
that of the new capacity, one above the bit that separates the two halves. -/
namespace Devent.CHashMap
open Keyed Buckets

variable {V : Type}

/-- A key that the doubled table must move by `cap` but that `resizeIndex`
leaves in its old bucket. -/
def Stranded (cap : Nat) (key : CString) : Prop :=
  uint32T (cHash key) &&& cap ≠ 0 ∧ uint32T (cHash key) &&& (2 * cap) = 0

instance (cap : Nat) (key : CString) : Decidable (Stranded cap key) :=
  inferInstanceAs (Decidable (_ ∧ _))

/-- The table may be doubled, if this call doubles it at all, without stranding
any stored key. -/
def ResizeClean (map : CHashMap V) : Op V → Prop
  | .put _ _ => underLoad map.cap (map.count + 1) = false → map.count ≠ 0 →
      ∀ node ∈ map.nodes.flatten, ¬ Stranded map.cap node.key
  | .remove _ | .clear => True

instance (map : CHashMap V) (op : Op V) : Decidable (ResizeClean map op) :=
  match op with
  | .put _ _ => inferInstanceAs (Decidable (_ → _ → _))
  | .remove _ => .isTrue trivial
  | .clear => .isTrue trivial

structure WellFormed (map : CHashMap V) : Prop where
  capacity : ∃ k, 3 ≤ k ∧ k ≤ 30 ∧ map.cap = 2 ^ k
  buckets : map.nodes.length = map.cap
  placed : AtHome CNode.key (bucketIndex · map.cap) map.nodes
  distinct : DistinctChains CNode.key map.nodes
  counted : map.nodes.flatten.length ≤ map.count
  fits : map.count ≤ map.cap

theorem WellFormed.bucket_lt {map : CHashMap V} (wf : WellFormed map) (key : CString) :
    bucketIndex key map.cap < map.nodes.length := by
  obtain ⟨k, _, upper, cap⟩ := wf.capacity
  rw [wf.buckets, cap]
  exact bucketIndex_lt key (by omega)

theorem WellFormed.keys_nodup {map : CHashMap V} (wf : WellFormed map) :
    (map.nodes.flatten.map CNode.key).Nodup := Buckets.keys_nodup wf.placed wf.distinct

/-- Every query reads the whole table through one bucket. -/
theorem WellFormed.getNode_eq {map : CHashMap V} (wf : WellFormed map) (key : CString) :
    map.getNode key = lookup CNode.key key map.nodes.flatten := (lookup_flatten wf.placed key).symm

theorem new_wellFormed : WellFormed (new : CHashMap V) where
  capacity := ⟨3, by decide, by decide, rfl⟩
  buckets := rfl
  placed := by
    intro j chain at_j a member
    obtain ⟨_, rfl⟩ := List.mem_replicate.mp (List.mem_of_getElem? at_j)
    cases member
  distinct := by
    intro chain member
    obtain ⟨_, rfl⟩ := List.mem_replicate.mp member
    exact List.nodup_nil
  counted := Nat.le_refl 0
  fits := Nat.zero_le _

theorem new_get (key : CString) : (new : CHashMap V).get key = none := by
  have empty : (new : CHashMap V).nodes.flatten = [] := rfl
  rw [get, new_wellFormed.getNode_eq, empty]
  rfl

/-- A table of power-of-two capacity that passes the load test has room. -/
theorem underLoad_room {k target : Nat} (under : underLoad (2 ^ k) target = true) : target ≤ 2 ^ k := by
  by_contra full
  have low := floatOfSize_ge (n := target) (k := k) (by omega)
  have high : floatOfSize (3 * 2 ^ k) ≤ 2 ^ (k + 2) := by
    apply floatOfSize_le
    rw [Nat.pow_add]
    omega
  simp only [underLoad, floatOfSize_pow, decide_eq_true_eq, Nat.pow_add] at under high
  omega

theorem putNodeToEnd_append (pastHead : Bool) (node : CNode V) {chain : List (CNode V)}
    (nonempty : chain ≠ []) : putNodeToEnd false pastHead node chain = chain ++ [node] := by
  induction chain generalizing pastHead with
  | nil => contradiction
  | cons first rest ih =>
    cases rest with
    | nil => rfl
    | cons second rest =>
      rw [putNodeToEnd, ih true (by simp)]
      rfl

theorem moveNode_eq (newCap i : Nat) (newNodes : List (List (CNode V))) (node : CNode V) :
    moveNode newCap i newNodes node = place newNodes (resizeIndex newCap i node, node) := by
  have appended : (fun chain : List (CNode V) =>
      if chain.isEmpty then [node] else putNodeToEnd false false node chain) = (· ++ [node]) := by
    funext chain
    cases chain with
    | nil => rfl
    | cons first rest => exact putNodeToEnd_append false node (by simp)
  rw [moveNode, place, appended]

/-- The nodes of the old table in scan order, each with the bucket it goes to. -/
def scan (newCap : Nat) (nodes : List (List (CNode V))) : List (Nat × CNode V) :=
  nodes.zipIdx.flatMap fun row => row.1.map fun node => (resizeIndex newCap row.2 node, node)

theorem relocate_eq (newCap : Nat) (nodes : List (List (CNode V))) :
    relocate newCap nodes = (scan newCap nodes).foldl place (List.replicate newCap []) := by
  rw [relocate, scan, List.foldl_flatMap]
  congr 1
  funext newNodes row
  rw [List.foldl_map]
  congr 1
  funext table node
  exact moveNode_eq newCap row.2 table node

theorem length_relocate (newCap : Nat) (nodes : List (List (CNode V))) :
    (relocate newCap nodes).length = newCap := by
  rw [relocate_eq, length_distribute, List.length_replicate]

theorem resizeIndex_lt {newCap i : Nat} (positive : 0 < newCap) (old : i < newCap) (node : CNode V) :
    resizeIndex newCap i node < newCap := by
  rw [resizeIndex]
  split
  · exact Nat.lt_of_le_of_lt Nat.and_le_right (Nat.sub_lt positive Nat.one_pos)
  · exact old

theorem map_snd_scan (newCap : Nat) (nodes : List (List (CNode V))) :
    (scan newCap nodes).map Prod.snd = nodes.flatten := by
  have forget := List.flatMap_map Prod.fst (id : List (CNode V) → List (CNode V)) nodes.zipIdx
  rw [List.zipIdx_map_fst, List.flatMap_id] at forget
  rw [forget, scan, List.map_flatMap]
  simp only [List.map_map, Function.comp_def, List.map_id', id]

/-- A resize moves nodes, stranded or not, and loses none. -/
theorem relocate_perm {newCap : Nat} {nodes : List (List (CNode V))} (wider : nodes.length ≤ newCap) :
    (relocate newCap nodes).flatten.Perm nodes.flatten := by
  have inTable : ∀ item ∈ scan newCap nodes,
      item.1 < (List.replicate newCap ([] : List (CNode V))).length := by
    intro item member
    obtain ⟨⟨chain, i⟩, row, inChain⟩ := List.mem_flatMap.mp member
    obtain ⟨node, -, rfl⟩ := List.mem_map.mp inChain
    have old : i < nodes.length := (List.getElem?_eq_some_iff.mp (List.mk_mem_zipIdx_iff_getElem?.mp row)).1
    rw [List.length_replicate]
    exact resizeIndex_lt (by omega) (by omega) node
  have sent := distribute_perm inTable
  rw [← relocate_eq, map_snd_scan] at sent
  simpa using sent

/-- From its old bucket, `resizeIndex` finds the new one exactly for the keys
that are not stranded. -/
theorem resizeIndex_home_iff {k : Nat} (narrow : k + 1 ≤ 32) (node : CNode V) :
    resizeIndex (2 ^ (k + 1)) (bucketIndex node.key (2 ^ k)) node =
      bucketIndex node.key (2 ^ (k + 1)) ↔ ¬ Stranded (2 ^ k) node.key := by
  have double : 2 * 2 ^ k = 2 ^ (k + 1) := by rw [Nat.pow_succ, Nat.mul_comm]
  rw [bucketIndex_pow node.key (by omega), bucketIndex_pow node.key narrow]
  simp only [resizeIndex, Stranded, double, Nat.and_two_pow_sub_one_eq_mod]
  by_cases high : uint32T (cHash node.key) &&& 2 ^ (k + 1) = 0
  · rw [if_neg (by simpa using high), Nat.mod_pow_succ, ← Nat.toNat_testBit, Nat.and_two_pow]
    have := Nat.two_pow_pos k
    cases (uint32T (cHash node.key)).testBit k <;> simp [high]
  · rw [if_pos high]
    simp [high]

theorem scan_eq {k : Nat} (narrow : k + 1 ≤ 32) {nodes : List (List (CNode V))}
    (placed : AtHome CNode.key (bucketIndex · (2 ^ k)) nodes)
    (clean : ∀ node ∈ nodes.flatten, ¬ Stranded (2 ^ k) node.key) :
    scan (2 ^ (k + 1)) nodes =
      nodes.flatten.map fun node => (bucketIndex node.key (2 ^ (k + 1)), node) := by
  have rows : scan (2 ^ (k + 1)) nodes = nodes.zipIdx.flatMap fun row =>
      row.1.map fun node => (bucketIndex node.key (2 ^ (k + 1)), node) := by
    apply List.flatMap_congr
    rintro ⟨chain, i⟩ member
    apply List.map_congr_left
    intro node inChain
    have at_i : nodes[i]? = some chain := List.mk_mem_zipIdx_iff_getElem?.mp member
    have old : bucketIndex node.key (2 ^ k) = i := placed i chain at_i node inChain
    have inTable := List.mem_flatten.mpr ⟨chain, List.mem_of_getElem? at_i, inChain⟩
    have moved := (resizeIndex_home_iff narrow node).mpr (clean node inTable)
    rw [old] at moved
    rw [moved]
  have forget := List.flatMap_map Prod.fst
    (List.map fun node => (bucketIndex node.key (2 ^ (k + 1)), node)) nodes.zipIdx
  rw [rows, ← forget, List.zipIdx_map_fst, List.map_flatten, List.flatMap_def]

/-- A clean doubling sends every node to the bucket of its hash. -/
theorem relocate_get {k : Nat} (narrow : k + 1 ≤ 32) {nodes : List (List (CNode V))}
    (placed : AtHome CNode.key (bucketIndex · (2 ^ k)) nodes)
    (clean : ∀ node ∈ nodes.flatten, ¬ Stranded (2 ^ k) node.key) (j : Nat) :
    (relocate (2 ^ (k + 1)) nodes)[j]? =
      if j < 2 ^ (k + 1) then
        some (nodes.flatten.filter fun node => bucketIndex node.key (2 ^ (k + 1)) = j)
      else none := by
  rw [relocate_eq, distribute_get, scan_eq narrow placed clean, List.getElem?_replicate]
  split
  · simp [List.filter_map, Function.comp_def]
  · rfl

/-- What `resize` can do: keep the table, or double it within the range of `int`. -/
theorem resize_cases {map next : CHashMap V} {target k : Nat} (cap : map.cap = 2 ^ k)
    (range : k ≤ 30) (resized : map.resize target = some next) :
    (next = map ∧ (underLoad map.cap target = true ∨ map.count = 0)) ∨
      (k + 1 ≤ 30 ∧ underLoad map.cap target = false ∧ map.count ≠ 0 ∧
        next = { map with cap := 2 ^ (k + 1), nodes := relocate (2 ^ (k + 1)) map.nodes }) := by
  have shifted : map.cap <<< 1 = 2 ^ (k + 1) := by rw [cap, Nat.shiftLeft_eq, ← Nat.pow_add]
  unfold resize at resized
  split at resized
  · next under =>
    cases resized
    exact .inl ⟨rfl, .inl under⟩
  split at resized
  · next empty =>
    cases resized
    exact .inl ⟨rfl, .inr empty⟩
  next heavy nonempty =>
  rw [shifted] at resized
  by_cases small : k + 1 ≤ 30
  · have bound : 2 ^ (k + 1) < 2 ^ 31 := Nat.pow_lt_pow_right (by decide) (by omega)
    have positive := Nat.two_pow_pos (k + 1)
    rw [intT_small bound, if_neg (by omega)] at resized
    cases resized
    exact .inr ⟨small, by simpa using heavy, nonempty, rfl⟩
  · have last : k = 30 := by omega
    subst last
    rw [if_pos (by decide)] at resized
    cases resized

theorem kept_room {k count : Nat} (room : underLoad (2 ^ k) (count + 1) = true ∨ count = 0) :
    count + 1 ≤ 2 ^ k := by
  obtain under | rfl := room
  · exact underLoad_room under
  · exact Nat.two_pow_pos k

theorem doubled_room {k count : Nat} (fits : count ≤ 2 ^ k) : count + 1 ≤ 2 ^ (k + 1) := by
  have positive := Nat.two_pow_pos k
  rw [Nat.pow_succ]
  omega

/-- A clean doubling puts every node into its bucket and keeps the bindings. -/
theorem relocate_clean {k : Nat} (narrow : k + 1 ≤ 32) {nodes : List (List (CNode V))}
    (placed : AtHome CNode.key (bucketIndex · (2 ^ k)) nodes) (distinct : (nodes.flatten.map CNode.key).Nodup)
    (clean : ∀ node ∈ nodes.flatten, ¬ Stranded (2 ^ k) node.key) :
    AtHome CNode.key (bucketIndex · (2 ^ (k + 1))) (relocate (2 ^ (k + 1)) nodes) ∧
      DistinctChains CNode.key (relocate (2 ^ (k + 1)) nodes) ∧
      ∀ key, lookup CNode.key key (relocate (2 ^ (k + 1)) nodes).flatten =
        lookup CNode.key key nodes.flatten := by
  have chains := relocate_get narrow placed clean
  have newPlaced : AtHome CNode.key (bucketIndex · (2 ^ (k + 1))) (relocate (2 ^ (k + 1)) nodes) := by
    intro j chain at_j node member
    rw [chains j] at at_j
    split at at_j
    · cases at_j
      simpa using (List.mem_filter.mp member).2
    · cases at_j
  refine ⟨newPlaced, ?_, fun key => ?_⟩
  · intro chain member
    obtain ⟨j, bound, rfl⟩ := List.getElem_of_mem member
    have at_j := chains j
    rw [List.getElem?_eq_getElem bound, if_pos (bound.trans_eq (length_relocate ..))] at at_j
    rw [Option.some.inj at_j]
    exact distinct.sublist (List.filter_sublist.map _)
  · rw [lookup_flatten newPlaced, chains, if_pos (bucketIndex_lt key narrow)]
    apply lookup_filter
    rintro node _ rfl
    simp

/-- A clean resize loses no binding and duplicates none. -/
theorem resize_wellFormed {map next : CHashMap V} (wf : WellFormed map)
    (clean : underLoad map.cap (map.count + 1) = false → map.count ≠ 0 →
      ∀ node ∈ map.nodes.flatten, ¬ Stranded map.cap node.key)
    (resized : map.resize (map.count + 1) = some next) :
    WellFormed next ∧ next.count + 1 ≤ next.cap ∧ ∀ key, next.getNode key = map.getNode key := by
  obtain ⟨k, lower, upper, cap⟩ := wf.capacity
  rcases resize_cases cap upper resized with ⟨rfl, room⟩ | ⟨small, heavy, nonempty, rfl⟩
  · rw [cap] at room
    exact ⟨wf, cap ▸ kept_room room, fun _ => rfl⟩
  have clean := clean heavy nonempty
  have placed := wf.placed
  have fits := wf.fits
  have buckets := wf.buckets
  rw [cap] at clean placed fits buckets
  obtain ⟨newPlaced, newDistinct, lookups⟩ := relocate_clean (by omega) placed wf.keys_nodup clean
  have room := doubled_room fits
  have wider : map.nodes.length ≤ 2 ^ (k + 1) := by
    rw [buckets]
    exact Nat.pow_le_pow_right (by decide) (Nat.le_succ k)
  refine ⟨⟨⟨k + 1, by omega, small, rfl⟩, length_relocate .., newPlaced, newDistinct, ?_, ?_⟩, room, ?_⟩
  · exact (relocate_perm wider).length_eq ▸ wf.counted
  · exact (Nat.le_succ _).trans room
  · intro key
    rw [wf.getNode_eq, ← lookups]
    exact (lookup_flatten newPlaced key).symm

theorem putNodeToEnd_upsert {pastHead : Bool} {node : CNode V} {chain : List (CNode V)}
    (nonempty : chain ≠ [])
    (headed : pastHead = true ∨ ∀ header ∈ chain.head?, header.key ≠ node.key) :
    putNodeToEnd true pastHead node chain = upsert CNode.key node chain := by
  induction chain generalizing pastHead with
  | nil => contradiction
  | cons first rest ih =>
    by_cases same : first.key = node.key
    · have past : pastHead = true := by
        rcases headed with past | other
        · exact past
        · exact absurd same (other first rfl)
      simp [putNodeToEnd, upsert, same, past]
    · cases rest with
      | nil => simp [putNodeToEnd, upsert, same]
      | cons second rest =>
        have tail := ih (List.cons_ne_nil second rest) (.inl rfl)
        rw [putNodeToEnd, upsert, if_neg same, ← tail]
        simp [same]

theorem putNode_eq (node : CNode V) (chain : List (CNode V)) :
    putNode node chain = upsert CNode.key node chain := by
  cases chain with
  | nil => rfl
  | cons header next =>
    rw [putNode]
    split
    · next same => rw [upsert, if_pos same]
    · next other =>
      apply putNodeToEnd_upsert (by simp)
      right
      intro first isFirst
      cases Option.some.inj isFirst
      exact other

theorem getNode_modify {map : CHashMap V} {nodes : List (List (CNode V))} {count : Nat} (i : Nat)
    (f : List (CNode V) → List (CNode V)) (changed : nodes = map.nodes.modify i f) (key : CString) :
    getNode ⟨map.cap, count, nodes⟩ key =
      (map.nodes[bucketIndex key map.cap]?).bind fun chain =>
        lookup CNode.key key (if i = bucketIndex key map.cap then f chain else chain) := by
  simp only [getNode, changed, List.getElem?_modify, Option.map_eq_map, Option.bind_map]
  rfl

theorem put_wellFormed {map next : CHashMap V} {key : CString} {value : V} (wf : WellFormed map)
    (clean : ResizeClean map (.put key value)) (done : map.put key value = some next) :
    WellFormed next ∧ ∀ other, next.getNode other =
      if key = other then some ⟨key, value⟩ else map.getNode other := by
  simp only [put, Option.bind_eq_bind, Option.bind_eq_some_iff, Option.pure_def,
    Option.some.injEq] at done
  obtain ⟨grown, resized, rfl⟩ := done
  obtain ⟨wf', room, same⟩ := resize_wellFormed wf clean resized
  have bound := wf'.bucket_lt key
  have here := List.getElem?_eq_getElem bound
  have updated : putNode (⟨key, value⟩ : CNode V) = upsert CNode.key ⟨key, value⟩ := by
    funext chain
    exact putNode_eq _ chain
  rw [updated]
  refine ⟨⟨wf'.capacity, ?_, ?_, ?_, ?_, room⟩, ?_⟩
  · rw [List.length_modify, wf'.buckets]
  · apply wf'.placed.modify
    intro chain at_key node member
    rcases mem_upsert member with rfl | old
    · rfl
    · exact wf'.placed _ chain at_key node old
  · exact wf'.distinct.modify fun chain nodup => nodup_upsert nodup
  · have sizes := length_flatten_modify (upsert CNode.key ⟨key, value⟩) here
    have grows : (upsert CNode.key ⟨key, value⟩ grown.nodes[bucketIndex key grown.cap]).length = _ :=
      length_upsert ..
    have counted := wf'.counted
    simp only at sizes ⊢
    split at grows <;> omega
  · intro other
    rw [getNode_modify _ _ rfl, ← same other, getNode]
    by_cases equal : key = other
    · subst equal
      simp [here, lookup_upsert]
    · simp only [if_neg equal]
      congr 1
      funext chain
      split
      · rw [lookup_upsert, if_neg equal]
      · rfl

/-- The condition is exact: a doubling that meets a stranded key leaves that
key outside the bucket of its hash. -/
theorem put_stranded {map next : CHashMap V} {key : CString} {value : V} {node : CNode V}
    (wf : WellFormed map) (heavy : underLoad map.cap (map.count + 1) = false)
    (member : node ∈ map.nodes.flatten) (stranded : Stranded map.cap node.key)
    (done : map.put key value = some next) :
    ¬ AtHome CNode.key (bucketIndex · next.cap) next.nodes := by
  simp only [put, Option.bind_eq_bind, Option.bind_eq_some_iff, Option.pure_def,
    Option.some.injEq] at done
  obtain ⟨grown, resized, rfl⟩ := done
  obtain ⟨k, _, upper, cap⟩ := wf.capacity
  have stored := List.length_pos_of_mem member
  have counted := wf.counted
  rcases resize_cases cap upper resized with ⟨_, under | empty⟩ | ⟨small, _, _, rfl⟩
  · rw [heavy] at under
    cases under
  · omega
  obtain ⟨chain, inTable, inChain⟩ := List.mem_flatten.mp member
  obtain ⟨i, bound, rfl⟩ := List.getElem_of_mem inTable
  have old : bucketIndex node.key map.cap = i := wf.placed i _ (List.getElem?_eq_getElem bound) node inChain
  have narrow : i < 2 ^ (k + 1) := by
    have length := wf.buckets
    rw [length, cap] at bound
    rw [Nat.pow_succ]
    omega
  have stays : resizeIndex (2 ^ (k + 1)) i node = i := by
    have clear := stranded.2
    rw [cap, Nat.mul_comm, ← Nat.pow_succ] at clear
    simp only [resizeIndex, clear, ne_eq, not_true, if_false]
  have wrong : bucketIndex node.key (2 ^ (k + 1)) ≠ i := by
    have exact := resizeIndex_home_iff (k := k) (by omega) node
    rw [cap] at old stranded
    rw [old, stays] at exact
    exact fun home => exact.mp home.symm stranded
  have sent : (i, node) ∈ scan (2 ^ (k + 1)) map.nodes := by
    refine List.mem_flatMap.mpr ⟨(map.nodes[i], i), ?_, List.mem_map.mpr ⟨node, inChain, ?_⟩⟩
    · exact List.mk_mem_zipIdx_iff_getElem?.mpr (List.getElem?_eq_getElem bound)
    · rw [stays]
  have row := distribute_get (scan (2 ^ (k + 1)) map.nodes) (List.replicate (2 ^ (k + 1)) []) i
  rw [← relocate_eq, List.getElem?_replicate, if_pos narrow] at row
  have there : node ∈ ((scan (2 ^ (k + 1)) map.nodes).filter fun item => item.1 = i).map Prod.snd :=
    List.mem_map.mpr ⟨(i, node), List.mem_filter.mpr ⟨sent, by simp⟩, rfl⟩
  intro placed
  by_cases here : bucketIndex key (2 ^ (k + 1)) = i
  · have other : node.key ≠ key := fun same => wrong (same ▸ here)
    have kept : node ∈ upsert CNode.key ⟨key, value⟩ _ := mem_upsert_of_ne there other
    refine wrong (placed i _ ?_ node kept)
    simp only [List.getElem?_modify, row, here, if_true, putNode_eq]
    rfl
  · refine wrong (placed i _ ?_ node there)
    simp only [List.getElem?_modify, row, here, if_false]
    rfl

theorem remove_wellFormed {map : CHashMap V} (wf : WellFormed map) (key : CString) :
    WellFormed (map.remove key).1 ∧ (map.remove key).2 = map.get key ∧
      ∀ other, (map.remove key).1.getNode other = if key = other then none else map.getNode other := by
  have bound := wf.bucket_lt key
  have here := List.getElem?_eq_getElem bound
  cases found : map.getNode key with
  | none =>
    simp only [remove, found, get]
    refine ⟨wf, rfl, fun other => ?_⟩
    split
    · next equal => rw [← equal, found]
    · rfl
  | some node =>
    have inChain : lookup CNode.key key map.nodes[bucketIndex key map.cap] = some node := by
      simpa [getNode, here] using found
    have sizes := length_flatten_modify (Keyed.remove CNode.key key) here
    have shrinks := length_remove (lookup_mem inChain) (lookup_key inChain)
    have counted := wf.counted
    have fits := wf.fits
    simp only [remove, found, get]
    refine ⟨⟨wf.capacity, ?_, ?_, ?_, ?_, ?_⟩, rfl, ?_⟩
    · rw [List.length_modify, wf.buckets]
    · apply wf.placed.modify
      intro chain at_key other member
      exact wf.placed _ chain at_key other ((remove_sublist key chain).subset member)
    · exact wf.distinct.modify fun chain nodup => nodup.sublist ((remove_sublist key chain).map _)
    · simp only at sizes ⊢
      omega
    · simp only
      omega
    · intro other
      rw [getNode_modify _ _ rfl, getNode]
      cases row : map.nodes[bucketIndex other map.cap]? with
      | none => simp
      | some chain =>
        have nodup := wf.distinct chain (List.mem_of_getElem? row)
        rw [Option.bind_some, Option.bind_some]
        by_cases equal : key = other
        · subst equal
          rw [if_pos rfl, if_pos rfl, lookup_remove key nodup, if_pos rfl]
        · rw [if_neg equal]
          split
          · rw [lookup_remove other nodup, if_neg equal]
          · rfl

/-- A table within its capacity, its keys anywhere. -/
structure Sized (map : CHashMap V) : Prop where
  capacity : ∃ k, 3 ≤ k ∧ k ≤ 30 ∧ map.cap = 2 ^ k
  buckets : map.nodes.length = map.cap
  fits : map.count ≤ map.cap

theorem new_sized : Sized (new : CHashMap V) :=
  ⟨new_wellFormed.capacity, new_wellFormed.buckets, new_wellFormed.fits⟩

theorem Sized.getCount_eq {map : CHashMap V} (sized : Sized map) : getCount (some map) = map.count := by
  obtain ⟨k, -, upper, cap⟩ := sized.capacity
  have fits := sized.fits
  have small : 2 ^ k ≤ 2 ^ 30 := Nat.pow_le_pow_right (by decide) upper
  rw [getCount]
  exact intT_small (by omega)

/-- The capacity that `c_hash_map_put` needs, from the count and the capacity before. -/
def grownCap (cap count : Nat) : Option Nat :=
  if underLoad cap (count + 1) = true ∨ count = 0 then some cap
  else if intT (cap <<< 1) ≤ 0 then none
  else some (intT (cap <<< 1)).toNat

/-- The capacity after so many calls of put, until `int` cannot hold it. -/
def tableCap : Nat → Option Nat
  | 0 => some defaultCap
  | count + 1 => (tableCap count).bind (grownCap · count)

theorem resize_cap (map : CHashMap V) : (map.resize (map.count + 1)).map cap = grownCap map.cap map.count := by
  simp only [resize, grownCap]
  by_cases under : underLoad map.cap (map.count + 1) = true
  · simp only [under, if_true, Option.map_some, true_or]
  · by_cases empty : map.count = 0
    · simp only [empty, if_true, ite_self, Option.map_some, or_true]
    · simp only [under, empty, if_false, or_self, Bool.false_eq_true]
      split <;> rfl

theorem resize_count {map next : CHashMap V} {target : Nat} (resized : map.resize target = some next) :
    next.count = map.count := by
  simp only [resize] at resized
  split at resized
  · cases resized
    rfl
  · split at resized
    · cases resized
      rfl
    · split at resized
      · cases resized
      · cases resized
        rfl

theorem put_isSome_iff {map : CHashMap V} {key : CString} {value : V} :
    (map.put key value).isSome ↔ (grownCap map.cap map.count).isSome := by
  rw [← resize_cap, Option.isSome_map, put]
  cases map.resize (map.count + 1) <;> rfl

theorem put_cap {map next : CHashMap V} {key : CString} {value : V} (done : map.put key value = some next) :
    grownCap map.cap map.count = some next.cap ∧ next.count = map.count + 1 := by
  simp only [put, Option.bind_eq_bind, Option.bind_eq_some_iff, Option.pure_def, Option.some.injEq] at done
  obtain ⟨grown, resized, rfl⟩ := done
  rw [← resize_cap, resized]
  exact ⟨rfl, congrArg (· + 1) (resize_count resized)⟩

theorem put_sized {map next : CHashMap V} {key : CString} {value : V} (sized : Sized map)
    (done : map.put key value = some next) : Sized next ∧ next.get key = some value := by
  simp only [put, Option.bind_eq_bind, Option.bind_eq_some_iff, Option.pure_def, Option.some.injEq] at done
  obtain ⟨grown, resized, rfl⟩ := done
  obtain ⟨k, lower, upper, cap⟩ := sized.capacity
  have fits := sized.fits
  have table : (∃ k, 3 ≤ k ∧ k ≤ 30 ∧ grown.cap = 2 ^ k) ∧ grown.nodes.length = grown.cap ∧
      grown.count + 1 ≤ grown.cap := by
    rw [resize_count resized]
    obtain ⟨rfl, room⟩ | ⟨small, -, -, rfl⟩ := resize_cases cap upper resized
    · rw [cap] at room
      exact ⟨sized.capacity, sized.buckets, cap ▸ kept_room room⟩
    · rw [cap] at fits
      exact ⟨⟨k + 1, by omega, small, rfl⟩, length_relocate .., doubled_room fits⟩
  obtain ⟨⟨j, lower', upper', cap'⟩, length, room⟩ := table
  have bound : bucketIndex key grown.cap < grown.nodes.length := by
    rw [length, cap']
    exact bucketIndex_lt key (by omega)
  have updated : putNode (⟨key, value⟩ : CNode V) = upsert CNode.key ⟨key, value⟩ := by
    funext chain
    exact putNode_eq _ chain
  refine ⟨⟨⟨j, lower', upper', cap'⟩, ?_, room⟩, ?_⟩
  · rw [List.length_modify, length]
  · rw [get, getNode_modify _ _ rfl, List.getElem?_eq_getElem bound, Option.bind_some, if_pos rfl, updated,
      lookup_upsert, if_pos rfl]
    rfl

/-- The value of the last put of the key that no later remove or clear undid. -/
def lastPut (key : CString) : List (Op V) → Option V
  | [] => none
  | .put key' value :: earlier => if key' = key then some value else lastPut key earlier
  | .remove key' :: earlier => if key' = key then none else lastPut key earlier
  | .clear :: _ => none

/-- The pointer a call returns, from the history before it. -/
def returned (history : List (Op V)) : Op V → Option V
  | .put _ _ | .clear => none
  | .remove key => lastPut key history

/-- No binding is lost, duplicated or out of reach. -/
structure Represents (map : CHashMap V) (history : List (Op V)) : Prop where
  placed : AtHome CNode.key (bucketIndex · map.cap) map.nodes
  distinct : (map.nodes.flatten.map CNode.key).Nodup
  get : ∀ key, map.get key = lastPut key history
  getNode : ∀ key, (map.getNode key).map CNode.value = lastPut key history
  has : ∀ key, map.has key = (lastPut key history).isSome

def record (history : List (Op V)) (op : Op V) : List (Op V) × Option V :=
  (op :: history, returned history op)

theorem track_record (history ops : List (Op V)) :
    (Run.track record history ops).1 = ops.reverse ++ history := by
  induction ops generalizing history with
  | nil => rfl
  | cons op rest ih => simp [Run.track, record, ih]

theorem get_eq {map : CHashMap V} {node : Option (CNode V)} {key : CString}
    (found : map.getNode key = node) : map.get key = node.map CNode.value := by rw [get, found]

def Tracks (map : CHashMap V) (history : List (Op V)) : Prop :=
  WellFormed map ∧ ∀ key, map.get key = lastPut key history

/-- One clean call keeps the table well formed and acts as the history says. -/
theorem step_simulates {map next : CHashMap V} {history : List (Op V)} {op : Op V} {out : Option V}
    (related : Tracks map history) (clean : ResizeClean map op)
    (taken : map.step op = some (next, out)) :
    Tracks next (record history op).1 ∧ out = (record history op).2 := by
  obtain ⟨wf, agrees⟩ := related
  cases op with
  | put key value =>
    obtain ⟨grown, done, pair⟩ := Option.map_eq_some_iff.mp taken
    cases pair
    obtain ⟨wf', nodes⟩ := put_wellFormed wf clean done
    refine ⟨⟨wf', fun other => ?_⟩, rfl⟩
    rw [get_eq (nodes other), record, lastPut, ← agrees other]
    split <;> rfl
  | remove key =>
    obtain ⟨rfl, rfl⟩ : (map.remove key).1 = next ∧ (map.remove key).2 = out := by
      simpa [step, Prod.ext_iff] using taken
    obtain ⟨wf', result, nodes⟩ := remove_wellFormed wf key
    refine ⟨⟨wf', fun other => ?_⟩, ?_⟩
    · rw [get_eq (nodes other), record, lastPut, ← agrees other]
      split <;> rfl
    · rw [result, agrees]
      rfl
  | clear =>
    cases taken
    exact ⟨⟨new_wellFormed, new_get⟩, rfl⟩

/-- After any calls that never double the table over a stranded key, the map
is the finite map of the calls made. -/
theorem run_is_finite_map {map : CHashMap V} {ops : List (Op V)} {outs : List (Option V)}
    (clean : Run.Along step ResizeClean new ops) (path : Run.run step new ops = some (map, outs)) :
    Represents map ops.reverse ∧ outs = (Run.track record [] ops).2 := by
  have initial : Tracks (new : CHashMap V) [] := ⟨new_wellFormed, new_get⟩
  have simulated := Run.run_simulates Tracks record step_simulates initial clean path
  obtain ⟨⟨wf, agrees⟩, results⟩ := simulated
  rw [track_record, List.append_nil] at agrees
  refine ⟨⟨wf.placed, wf.keys_nodup, agrees, agrees, fun key => ?_⟩, results⟩
  rw [has, agrees]

/-- The keys "ca", "a", .., "e"; the hash of the first has bit 8 and not bit 16. -/
def strandedPuts : List (Op Nat) :=
  [.put (.ofBytes [99, 97]) 0, .put (.ofBytes [97]) 1, .put (.ofBytes [98]) 2,
    .put (.ofBytes [99]) 3, .put (.ofBytes [100]) 4, .put (.ofBytes [101]) 5]

theorem doubling_loses_key : ∃ map outs, Run.run step new strandedPuts = some (map, outs) ∧
    lastPut (.ofBytes [99, 97]) strandedPuts.reverse = some 0 ∧ map.get (.ofBytes [99, 97]) = none ∧
      ¬ Represents map strandedPuts.reverse := by
  have lost : ((Run.run step new strandedPuts).map fun pair => pair.1.get (.ofBytes [99, 97])) =
      some none := by decide +kernel
  obtain ⟨⟨map, outs⟩, path, missing⟩ := Option.map_eq_some_iff.mp lost
  have expected : lastPut (.ofBytes [99, 97]) strandedPuts.reverse = some 0 := by decide +kernel
  refine ⟨map, outs, path, expected, missing, fun represents => ?_⟩
  have found := represents.get (.ofBytes [99, 97])
  rw [missing, expected] at found
  cases found

/-- Single letters keep clear of bit 8, so this doubling is clean. -/
def cleanPuts : List (Op Nat) :=
  strandedPuts.tail ++ [.remove (.ofBytes [98]), .put (.ofBytes [102]) 6, .put (.ofBytes [103]) 7]

theorem clean_doubling_is_finite_map : ∃ map outs, Run.run step new cleanPuts = some (map, outs) ∧
    map.cap = 16 ∧ Represents map cleanPuts.reverse := by
  have doubled : ((Run.run step new cleanPuts).map fun pair => pair.1.cap) = some 16 := by
    decide +kernel
  obtain ⟨⟨map, outs⟩, path, cap⟩ := Option.map_eq_some_iff.mp doubled
  exact ⟨map, outs, path, cap, (run_is_finite_map (by decide +kernel) path).1⟩

end Devent.CHashMap
