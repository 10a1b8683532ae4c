import Devent.Dlib.ArrayMapProofs

/-! `CArrayMap` over whole runs. It is a finite map as long as every put of a new key moves at
most one node, and every removal leaves equal hashes behind. -/
namespace Devent.CArrayMap
open Slots

variable {V : Type}

/-- A finite map from keys to pointers. -/
abbrev Dict (V : Type) := CString → Option (Option V)

def Dict.step (dict : Dict V) : Op V → Dict V × Option V
  | .put key value => (Function.update dict key (some value), (dict key).join)
  | .remove key => (Function.update dict key none, (dict key).join)
  | .clear => (fun _ => none, none)

/-- The entries are the bindings. -/
def Lists (entries : List (ArrayNode V)) (dict : Dict V) : Prop :=
  ∀ key value, dict key = some value ↔ ⟨key, value⟩ ∈ entries

/-- A map in the order of its hashes whose queries answer for the bindings. -/
def Meets (map : CArrayMap V) (dict : Dict V) : Prop :=
  ∃ entries, Ordered map entries ∧ Lists entries dict ∧ (∀ key, map.get key = some (dict key).join) ∧
    (∀ key, map.contains key = some (dict key).isSome) ∧ ∀ index, map.getByIndex index = some entries[index]?

/-- The nodes below `len`. -/
def entries (map : CArrayMap V) : List (ArrayNode V) := (map.nodes.take map.len).filterMap id

/-- A new key has at most one greater hash above it, and above a removed key no hash is greater. -/
def MovesOne (map : CArrayMap V) : Op V → Prop
  | .put key _ => key ∈ map.entries.map ArrayNode.key ∨
      (map.entries.filter fun node => map.hashOf key < map.hashOf node.key).length ≤ 1
  | .remove key => key ∈ map.entries.map ArrayNode.key →
      ∀ node ∈ map.entries, map.hashOf node.key ≤ map.hashOf key
  | .clear => True

instance (map : CArrayMap V) (op : Op V) : Decidable (MovesOne map op) :=
  match op with
  | .put _ _ => inferInstanceAs (Decidable (_ ∨ _))
  | .remove _ => inferInstanceAs (Decidable (_ → _))
  | .clear => .isTrue trivial

/-- Both blocks have the size `cap` says, which leaves room and can grow. -/
structure Represents (map : CArrayMap V) (entries : List (ArrayNode V)) : Prop extends Ordered map entries where
  nodesAllocated : map.nodes.length = map.cap
  hashesAllocated : map.hashArray.length = map.cap
  room : map.len < map.cap
  growable : 2 ≤ map.cap

variable {map next : CArrayMap V} {entries : List (ArrayNode V)} {key : CString} {value : Option V}

theorem new_represents : Represents (new : CArrayMap V) [] where
  len := rfl
  nodes := holds_nil _
  hashArray := holds_nil _
  sorted := List.Pairwise.nil
  distinct := List.nodup_nil
  nodesAllocated := List.length_replicate
  hashesAllocated := List.length_replicate
  room := show 0 < defaultCap by decide
  growable := show 2 ≤ defaultCap by decide

theorem entries_eq (ordered : Ordered map entries) : map.entries = entries := by
  have front : map.nodes.take map.len = entries.map some := by
    apply List.ext_getElem? fun i => ?_
    rw [List.getElem?_take, List.getElem?_map, ordered.len]
    split
    · next inside => rw [ordered.nodes.slot i inside, List.getElem?_eq_getElem inside]; rfl
    · next outside => rw [List.getElem?_eq_none (Nat.not_lt.mp outside)]; rfl
  rw [CArrayMap.entries, front, List.filterMap_map]
  exact List.filterMap_some

theorem Lists.absent {dict : Dict V} (lists : Lists entries dict) (absent : key ∉ entries.map ArrayNode.key) :
    dict key = none := by
  cases bound : dict key with
  | none => rfl
  | some value => exact absurd (List.mem_map.mpr ⟨_, (lists key value).mp bound, rfl⟩) absent

theorem Lists.present {dict : Dict V} (lists : Lists entries dict) {i : Nat} {node : ArrayNode V}
    (here : entries[i]? = some node) : dict node.key = some node.value :=
  (lists node.key node.value).mpr (List.mem_of_getElem? here)

/-- What the search answers, with what is bound. -/
theorem keyIndex_lists {dict : Dict V} (ordered : Ordered map entries) (lists : Lists entries dict) (key : CString) :
    (∃ (i : Nat) (node : ArrayNode V), map.keyIndex key (map.hashOf key) = some (i : Int) ∧
        entries[i]? = some node ∧ node.key = key ∧ dict key = some node.value) ∨
      ∃ p : Nat, map.keyIndex key (map.hashOf key) = some (-(p : Int) - 1) ∧ dict key = none := by
  obtain ⟨i, node, found, here, rfl⟩ | ⟨p, missed, -, absent, -⟩ := keyIndex_cases ordered key
  · exact .inl ⟨i, node, found, here, rfl, lists.present here⟩
  · exact .inr ⟨p, missed, lists.absent absent⟩

theorem meets_of_ordered {dict : Dict V} (ordered : Ordered map entries) (lists : Lists entries dict) :
    Meets map dict := by
  refine ⟨entries, ordered, lists, fun key => ?_, fun key => ?_, fun index => ?_⟩
  · obtain ⟨i, node, found, here, -, bound⟩ | ⟨p, missed, free⟩ := keyIndex_lists ordered lists key
    · rw [get, found, bound]
      simp only [Option.bind_eq_bind, Option.bind_some, ge_iff_le, Int.natCast_nonneg, if_true, Int.toNat_natCast,
        ordered.load_node here]
      rfl
    · rw [get, missed, free]
      simp only [Option.bind_eq_bind, Option.bind_some, if_neg (show ¬-(p : Int) - 1 ≥ 0 by omega)]
      rfl
  · obtain ⟨i, node, found, here, -, bound⟩ | ⟨p, missed, free⟩ := keyIndex_lists ordered lists key
    · rw [contains, found, bound, Option.map_some, decide_eq_true (Int.natCast_nonneg i)]
      rfl
    · rw [contains, missed, free, Option.map_some, decide_eq_false (show ¬-(p : Int) - 1 ≥ 0 by omega)]
      rfl
  · have len := ordered.len
    rw [getByIndex]
    split
    · rw [List.getElem?_eq_none (by omega)]
    · split
      · rw [List.getElem?_eq_none (by omega)]
      · have here := List.getElem?_eq_getElem (show index < entries.length by omega)
        rw [ordered.load_node here, here]
        rfl

theorem Lists.set {dict : Dict V} (lists : Lists entries dict) (distinct : (entries.map ArrayNode.key).Nodup)
    {i : Nat} {node : ArrayNode V} (here : entries[i]? = some node) (value : Option V) :
    Lists (entries.set i { node with value }) (Function.update dict node.key (some value)) := by
  obtain ⟨bound, -⟩ := List.getElem?_eq_some_iff.mp here
  intro key' value'
  rw [List.mem_iff_getElem?]
  by_cases same : key' = node.key
  · subst same
    rw [Function.update_self]
    constructor
    · rintro ⟨⟩
      exact ⟨i, List.getElem?_set_self bound⟩
    · rintro ⟨j, at_j⟩
      rw [List.getElem?_set] at at_j
      split at at_j
      · cases at_j
        rfl
      · next other => exact absurd (nodup_key distinct here at_j rfl) other
  · rw [Function.update_of_ne same, lists key' value', List.mem_iff_getElem?]
    constructor
    · rintro ⟨j, at_j⟩
      refine ⟨j, ?_⟩
      rw [List.getElem?_set_ne, at_j]
      rintro rfl
      cases here.symm.trans at_j
      exact same rfl
    · rintro ⟨j, at_j⟩
      rw [List.getElem?_set] at at_j
      split at at_j
      · cases at_j
        exact absurd rfl same
      · exact ⟨j, at_j⟩

theorem Lists.insert {dict : Dict V} (lists : Lists entries dict) (absent : key ∉ entries.map ArrayNode.key)
    {p : Nat} (bound : p ≤ entries.length) (value : Option V) :
    Lists (entries.insertIdx p ⟨key, value⟩) (Function.update dict key (some value)) := by
  intro key' value'
  rw [List.mem_insertIdx bound]
  by_cases same : key' = key
  · subst same
    rw [Function.update_self]
    constructor
    · rintro ⟨⟩
      exact .inl rfl
    · rintro (equal | member)
      · cases equal
        rfl
      · exact absurd (List.mem_map.mpr ⟨_, member, rfl⟩) absent
  · rw [Function.update_of_ne same, lists key' value']
    constructor
    · exact .inr
    · rintro (equal | member)
      · exact absurd (congrArg ArrayNode.key equal) same
      · exact member

theorem Lists.erase {dict : Dict V} (lists : Lists entries dict) (distinct : (entries.map ArrayNode.key).Nodup)
    {i : Nat} {node : ArrayNode V} (here : entries[i]? = some node) :
    Lists (entries.eraseIdx i) (Function.update dict node.key none) := by
  intro key' value'
  rw [List.mem_eraseIdx_iff_getElem?]
  by_cases same : key' = node.key
  · subst same
    rw [Function.update_self]
    constructor
    · rintro ⟨⟩
    · rintro ⟨j, other, at_j⟩
      exact absurd (nodup_key distinct at_j here rfl) other
  · rw [Function.update_of_ne same, lists key' value', List.mem_iff_getElem?]
    constructor
    · rintro ⟨j, at_j⟩
      refine ⟨j, ?_, at_j⟩
      rintro rfl
      cases here.symm.trans at_j
      exact same rfl
    · rintro ⟨j, -, at_j⟩
      exact ⟨j, at_j⟩

/-- `resize` keeps the entries and makes room for one more. -/
theorem resize_spec (rep : Represents map entries) : ∃ grown, map.resize (map.len + 1) = some grown ∧
    Represents grown entries ∧ grown.hash = map.hash ∧ map.len + 1 < grown.cap := by
  rw [resize]
  split
  · next roomy => exact ⟨map, rfl, rep, rfl, roomy⟩
  · next tight =>
    have growable := rep.growable
    have room := rep.room
    have first : ¬map.cap + map.cap / 2 < map.len + 1 := by omega
    have grows : map.cap ≤ map.cap + map.cap / 2 := Nat.le_add_right _ _
    have nodesGrow : map.nodes.length ≤ map.cap + map.cap / 2 := rep.nodesAllocated.symm ▸ grows
    have hashesGrow : map.hashArray.length ≤ map.cap + map.cap / 2 := rep.hashesAllocated.symm ▸ grows
    rw [growCap, if_neg first]
    refine ⟨_, rfl, ⟨⟨rep.len, rep.nodes.realloc nodesGrow, rep.hashArray.realloc hashesGrow, rep.sorted,
      rep.distinct⟩, length_realloc nodesGrow, length_realloc hashesGrow, ?_, ?_⟩, rfl, ?_⟩
    · exact Nat.lt_of_lt_of_le room grows
    · exact Nat.le_trans growable grows
    · simp only
      omega

/-- An image does not see an update that agrees on it. -/
theorem map_set_same {A B : Type} (f : A → B) {items : List A} {i : Nat} {old new : A} (here : items[i]? = some old)
    (same : f new = f old) : (items.set i new).map f = items.map f := by
  obtain ⟨bound, rfl⟩ := List.getElem?_eq_some_iff.mp here
  have image : i < (items.map f).length := by rw [List.length_map]; exact bound
  have equal : f items[i] = (items.map f)[i] := (List.getElem_map f).symm
  rw [List.map_set, same, equal, List.set_getElem_self]

theorem put_found {dict : Dict V} (rep : Represents map entries) (lists : Lists entries dict) {i : Nat}
    {node : ArrayNode V} (found : map.keyIndex key (map.hashOf key) = some (i : Int))
    (here : entries[i]? = some node) (same : node.key = key) (value : Option V) : ∃ next,
    map.put key value = some (next, node.value) ∧ Represents next (entries.set i { node with value }) ∧
      Lists (entries.set i { node with value }) (Function.update dict key (some value)) := by
  obtain ⟨bound, -⟩ := List.getElem?_eq_some_iff.mp here
  obtain ⟨nodes, stored, length, holds⟩ := rep.nodes.set { node with value } bound
  have hashed : map.hashes (entries.set i { node with value }) = map.hashes entries := map_set_same _ here rfl
  have keys : (entries.set i { node with value }).map ArrayNode.key = entries.map ArrayNode.key :=
    map_set_same _ here rfl
  refine ⟨{ map with nodes }, ?_, ⟨⟨?_, holds, ?_, ?_, keys ▸ rep.distinct⟩, length.trans rep.nodesAllocated,
    rep.hashesAllocated, rep.room, rep.growable⟩, same ▸ lists.set rep.distinct here value⟩
  · rw [put, found]
    simp only [Option.bind_eq_bind, Option.bind_some, ge_iff_le, Int.natCast_nonneg, if_true, Int.toNat_natCast,
      rep.load_node here, stored]
    rfl
  · rw [List.length_set]
    exact rep.len
  · exact hashed ▸ rep.hashArray
  · exact hashed ▸ rep.sorted

/-- What a put of a new key at `p` computes, in a map with room for one more. -/
theorem put_new (rep : Represents map entries) {p : Nat}
    (missed : map.keyIndex key (map.hashOf key) = some (-(p : Int) - 1)) (value : Option V) : ∃ grown,
    Represents grown entries ∧ grown.hashOf = map.hashOf ∧ entries.length + 1 < grown.cap ∧
      ∀ {spread nodes spreadHashes hashArray},
        spreadUp entries.length entries.length p grown.nodes = some spread →
        store spread p ⟨key, value⟩ = some nodes →
        spreadUp entries.length entries.length p grown.hashArray = some spreadHashes →
        store spreadHashes p (map.hashOf key) = some hashArray →
        map.put key value = some ({ grown with len := grown.len + 1, nodes, hashArray }, none) := by
  obtain ⟨grown, resized, rep', hash, room⟩ := resize_spec rep
  have same : grown.hashOf = map.hashOf := by
    funext key
    rw [hashOf, hash, hashOf]
  refine ⟨grown, rep', same, rep.len ▸ room, fun {spread nodes spreadHashes hashArray} moved stored hashed kept => ?_⟩
  have place : (-(-(p : Int) - 1) - 1).toNat = p := by omega
  rw [put, missed]
  simp only [Option.bind_eq_bind, Option.bind_some, if_neg (show ¬-(p : Int) - 1 ≥ 0 by omega), resized, place,
    rep'.len, moved, hashed, stored, kept]
  rfl

theorem put_missing (rep : Represents map entries) {p : Nat}
    (missed : map.keyIndex key (map.hashOf key) = some (-(p : Int) - 1)) (bound : p ≤ entries.length)
    (last : entries.length ≤ p + 1) (absent : key ∉ entries.map ArrayNode.key)
    (sorted : ((map.hashes entries).insertIdx p (map.hashOf key)).Pairwise (· ≤ ·)) (value : Option V) :
    ∃ next, map.put key value = some (next, none) ∧ Represents next (entries.insertIdx p ⟨key, value⟩) := by
  obtain ⟨grown, rep', same, room, computes⟩ := put_new rep missed value
  have width := length_hashes grown entries
  have unchanged : grown.hashes entries = map.hashes entries := by rw [hashes, hashes, same]
  obtain ⟨spread, nodes, moved, stored, length, holds⟩ := rep'.nodes.insert_spread ⟨key, value⟩ bound last
    (by rw [rep'.nodesAllocated]; omega)
  obtain ⟨spreadHashes, hashArray, movedHashes, storedHashes, lengthHashes, holdsHashes⟩ :=
    rep'.hashArray.insert_spread (map.hashOf key) (show p ≤ (grown.hashes entries).length by omega) (by omega)
      (by rw [rep'.hashesAllocated]; omega)
  rw [width] at movedHashes
  have hashed : grown.hashes (entries.insertIdx p ⟨key, value⟩) =
      (map.hashes entries).insertIdx p (map.hashOf key) := by
    rw [hashes, List.map_insertIdx, ← hashes, unchanged, same]
  have keys : (entries.insertIdx p ⟨key, value⟩).map ArrayNode.key = (entries.map ArrayNode.key).insertIdx p key :=
    List.map_insertIdx _ _ _ _
  have perm : ((entries.map ArrayNode.key).insertIdx p key).Perm (key :: entries.map ArrayNode.key) :=
    List.perm_insertIdx _ _ (by rw [List.length_map]; exact bound)
  rw [unchanged, ← hashed] at holdsHashes
  rw [← hashed] at sorted
  refine ⟨_, computes moved stored movedHashes storedHashes, ⟨⟨?_, holds, holdsHashes, sorted, ?_⟩,
    length.trans rep'.nodesAllocated, lengthHashes.trans rep'.hashesAllocated, ?_, rep'.growable⟩⟩
  · rw [List.length_insertIdx, if_pos bound, ← rep'.len]
  · rw [keys]
    exact perm.nodup_iff.mpr (List.nodup_cons.mpr ⟨absent, rep.distinct⟩)
  · show grown.len + 1 < grown.cap
    rw [rep'.len]
    exact room

/-- A put that moves two nodes or more repeats one of them. -/
theorem put_repeats (rep : Represents map entries) {p : Nat}
    (missed : map.keyIndex key (map.hashOf key) = some (-(p : Int) - 1)) (more : p + 1 < entries.length)
    (value : Option V) : ∃ next, map.put key value = some (next, none) ∧ ∀ entries', ¬Ordered next entries' := by
  obtain ⟨grown, rep', same, room, computes⟩ := put_new rep missed value
  have width := length_hashes grown entries
  have len := rep'.len
  obtain ⟨spread, nodes, moved, stored, -, one, two⟩ := rep'.nodes.spread_repeats ⟨key, value⟩ more
    (by rw [rep'.nodesAllocated]; omega)
  obtain ⟨spreadHashes, hashArray, movedHashes, storedHashes, -, -, -⟩ :=
    rep'.hashArray.spread_repeats (map.hashOf key) (show p + 1 < (grown.hashes entries).length by omega)
      (by rw [rep'.hashesAllocated]; omega)
  rw [width] at movedHashes
  refine ⟨_, computes moved stored movedHashes storedHashes, fun entries' ordered => ?_⟩
  have length : grown.len + 1 = entries'.length := ordered.len
  have here := List.getElem?_eq_getElem (show p < entries.length by omega)
  have first : entries'[p + 1]? = some entries[p] :=
    Option.some.inj ((ordered.nodes.slot (p + 1) (by omega)).symm.trans (one.trans (congrArg some here)))
  have second : entries'[p + 2]? = some entries[p] :=
    Option.some.inj ((ordered.nodes.slot (p + 2) (by omega)).symm.trans (two.trans (congrArg some here)))
  have equal := nodup_key ordered.distinct first second rfl
  omega

/-- What a removal leaves: the node is gone, the hashes are as they were. -/
theorem remove_found (rep : Represents map entries) {i : Nat} {node : ArrayNode V}
    (found : map.keyIndex key (map.hashOf key) = some (i : Int)) (here : entries[i]? = some node) : ∃ nodes,
    map.remove key = some ({ map with len := map.len - 1, nodes }, node.value) ∧
      nodes.length = map.cap ∧ Holds nodes (entries.eraseIdx i) := by
  obtain ⟨bound, -⟩ := List.getElem?_eq_some_iff.mp here
  have len := rep.len
  have room := rep.room
  have allocated := rep.nodesAllocated
  obtain ⟨nodes, moved, length, holds⟩ := rep.nodes.erase_to bound (show entries.length ≤ map.len + 1 by omega)
    (show map.len ≤ i + map.len by omega) (by omega)
  refine ⟨nodes, ?_, length.trans allocated, holds⟩
  rw [remove, found]
  simp only [Option.bind_eq_bind, Option.bind_some, if_neg (show ¬(i : Int) < 0 by omega), Int.toNat_natCast,
    rep.load_node here, moved]
  rfl

/-- To drop an item is to drop the last one if all behind it are the same. -/
theorem eraseIdx_eq_take_iff {xs : List Int} {i : Nat} (bound : i < xs.length) :
    xs.eraseIdx i = xs.take (xs.length - 1) ↔ ∀ j, i ≤ j → j < xs.length → xs[j]? = xs[i]? := by
  have erased (j : Nat) (after : i ≤ j) : (xs.eraseIdx i)[j]? = xs[j + 1]? := by
    rw [List.getElem?_eraseIdx, if_neg (by omega)]
  constructor
  · intro equal j after
    induction after with
    | refl => exact fun _ => rfl
    | @step j after ih =>
      intro inside
      have taken : (xs.take (xs.length - 1))[j]? = xs[j]? := List.getElem?_take_of_lt (by omega)
      rw [← erased j after, equal, taken, ih (by omega)]
  · intro same
    apply List.ext_getElem? fun j => ?_
    rw [List.getElem?_take]
    by_cases before : j < i
    · rw [List.getElem?_eraseIdx, if_pos before, if_pos (by omega)]
    · rw [erased j (by omega)]
      by_cases inside : j < xs.length - 1
      · rw [if_pos inside, same (j + 1) (by omega) (by omega), same j (by omega) (by omega)]
      · rw [if_neg inside, List.getElem?_eq_none (by omega)]

theorem hashes_eraseIdx (map : CArrayMap V) (entries : List (ArrayNode V)) (i : Nat) :
    map.hashes (entries.eraseIdx i) = (map.hashes entries).eraseIdx i := (List.eraseIdx_map ..).symm

theorem remove_last {dict : Dict V} (rep : Represents map entries) (lists : Lists entries dict) {i : Nat}
    {node : ArrayNode V} (found : map.keyIndex key (map.hashOf key) = some (i : Int))
    (here : entries[i]? = some node) (same : node.key = key)
    (greatest : ∀ node ∈ entries, map.hashOf node.key ≤ map.hashOf key) : ∃ next,
    map.remove key = some (next, node.value) ∧ Represents next (entries.eraseIdx i) ∧
      Lists (entries.eraseIdx i) (Function.update dict key none) := by
  obtain ⟨bound, -⟩ := List.getElem?_eq_some_iff.mp here
  obtain ⟨nodes, removed, length, holds⟩ := remove_found rep found here
  have inside : i < (map.hashes entries).length := by rw [length_hashes]; exact bound
  have hashed : map.hashes (entries.eraseIdx i) = (map.hashes entries).take ((map.hashes entries).length - 1) := by
    rw [hashes_eraseIdx, eraseIdx_eq_take_iff inside]
    intro j after before
    rw [length_hashes] at before
    have there := List.getElem?_eq_getElem before
    have lower := rep.le here there after
    have upper := greatest _ (List.getElem_mem before)
    have equal : map.hashOf entries[j].key = map.hashOf node.key := by rw [same] at lower ⊢; omega
    rw [hashes, List.getElem?_map, List.getElem?_map, here, there, Option.map_some, Option.map_some, equal]
  have shorter : ((entries.eraseIdx i).map ArrayNode.key).Sublist (entries.map ArrayNode.key) :=
    (List.eraseIdx_sublist entries i).map _
  refine ⟨_, removed, ⟨⟨?_, holds, ?_, ?_, rep.distinct.sublist shorter⟩, length, rep.hashesAllocated, ?_,
    rep.growable⟩, same ▸ lists.erase rep.distinct here⟩
  · rw [List.length_eraseIdx, if_pos bound, ← rep.len]
  · have kept := rep.hashArray.take ((map.hashes entries).length - 1)
    rw [← hashed] at kept
    exact kept
  · have sorted := rep.sorted.take (i := (map.hashes entries).length - 1)
    rw [← hashed] at sorted
    exact sorted
  · exact Nat.lt_of_le_of_lt (Nat.sub_le _ _) rep.room

/-- A removal below a greater hash leaves a hash that is not its node's. -/
theorem remove_mismatches (rep : Represents map entries) {i : Nat} {node : ArrayNode V}
    (found : map.keyIndex key (map.hashOf key) = some (i : Int)) (here : entries[i]? = some node)
    (same : node.key = key) {greater : ArrayNode V} (member : greater ∈ entries)
    (above : map.hashOf key < map.hashOf greater.key) : ∃ next,
    map.remove key = some (next, node.value) ∧ ∀ entries', ¬Ordered next entries' := by
  obtain ⟨bound, -⟩ := List.getElem?_eq_some_iff.mp here
  obtain ⟨nodes, removed, -, holds⟩ := remove_found rep found here
  have width := length_hashes map entries
  have erased := hashes_eraseIdx map entries i
  refine ⟨_, removed, fun entries' ordered => ?_⟩
  have fewer : entries'.length = (entries.eraseIdx i).length := by
    rw [List.length_eraseIdx, if_pos bound, ← rep.len]
    exact ordered.len.symm
  obtain rfl : entries' = entries.eraseIdx i := ordered.nodes.unique holds fewer
  have kept : Holds map.hashArray (map.hashes (entries.eraseIdx i)) := ordered.hashArray
  have taken := rep.hashArray.take ((map.hashes entries).length - 1)
  rw [erased] at kept
  have equal := kept.unique taken (by
    rw [List.length_eraseIdx, if_pos (by omega), List.length_take]
    omega)
  obtain ⟨k, there⟩ := List.mem_iff_getElem?.mp member
  obtain ⟨inside, -⟩ := List.getElem?_eq_some_iff.mp there
  have after : i ≤ k := by
    by_contra before
    have lower := rep.le there here (by omega)
    rw [same] at lower
    omega
  have sameHash := (eraseIdx_eq_take_iff (by omega)).mp equal k after (by omega)
  rw [hashes, List.getElem?_map, List.getElem?_map, here, there] at sameHash
  have hashed : map.hashOf greater.key = map.hashOf node.key := Option.some.inj sameHash
  rw [same] at hashed
  omega

/-- How many nodes a put at `p` moves. -/
theorem filter_greater {p : Nat}
    (below : ∀ (j : Nat) node, entries[j]? = some node → j < p → map.hashOf node.key ≤ map.hashOf key)
    (above : ∀ (j : Nat) node, entries[j]? = some node → p ≤ j → map.hashOf key < map.hashOf node.key) :
    (entries.filter fun node => map.hashOf key < map.hashOf node.key).length = entries.length - p := by
  rw [Search.filter_eq_drop (p := p), List.length_drop]
  · intro j node at_j before
    exact decide_eq_false (Int.not_lt.mpr (below j node at_j before))
  · intro j node at_j after
    exact decide_eq_true (above j node at_j after)

def Related (map : CArrayMap V) (dict : Dict V) : Prop := ∃ entries, Represents map entries ∧ Lists entries dict

theorem step_keeps {dict : Dict V} {op : Op V} (related : Related map dict) (accepted : MovesOne map op) :
    ∃ next, map.step op = some (next, (dict.step op).2) ∧ Related next (dict.step op).1 := by
  obtain ⟨entries, rep, lists⟩ := related
  have same := entries_eq rep.toOrdered
  cases op with
  | put key value =>
    obtain ⟨i, node, found, here, met⟩ | ⟨p, missed, bound, absent, below, above⟩ :=
      keyIndex_cases rep.toOrdered key
    · obtain ⟨next, stepped, rep', lists'⟩ := put_found rep lists found here met value
      have old : (dict key).join = node.value := by rw [← met, lists.present here]; rfl
      refine ⟨next, ?_, _, rep', lists'⟩
      rw [step, Dict.step, old, stepped]
    · have last : entries.length ≤ p + 1 := by
        obtain present | few := accepted
        · exact absurd (same ▸ present) absent
        · rw [same, filter_greater below above] at few
          omega
      obtain ⟨next, stepped, rep'⟩ := put_missing rep missed bound last absent
        (insertIdx_sorted rep.toOrdered bound below above) value
      have old : (dict key).join = none := by rw [lists.absent absent]; rfl
      refine ⟨next, ?_, _, rep', lists.insert absent bound value⟩
      rw [step, Dict.step, old, stepped]
  | remove key =>
    obtain ⟨i, node, found, here, met⟩ | ⟨p, missed, bound, absent, below, above⟩ :=
      keyIndex_cases rep.toOrdered key
    · have present : key ∈ entries.map ArrayNode.key :=
        List.mem_map.mpr ⟨node, List.mem_of_getElem? here, met⟩
      obtain ⟨next, stepped, rep', lists'⟩ := remove_last rep lists found here met (same ▸ accepted (same ▸ present))
      have old : (dict key).join = node.value := by rw [← met, lists.present here]; rfl
      refine ⟨next, ?_, _, rep', lists'⟩
      rw [step, Dict.step, old, stepped]
    · have free := lists.absent absent
      refine ⟨map, ?_, entries, rep, ?_⟩
      · rw [step, remove, missed, Dict.step, free]
        simp only [Option.bind_eq_bind, Option.bind_some, if_pos (show -(p : Int) - 1 < 0 by omega)]
        rfl
      · rw [Dict.step, ← free, Function.update_eq_self]
        exact lists
  | clear =>
    refine ⟨map.clear, rfl, [], ⟨⟨rfl, holds_nil _, holds_nil _, List.Pairwise.nil, List.nodup_nil⟩,
      rep.nodesAllocated, rep.hashesAllocated, ?_, rep.growable⟩, fun key value => ?_⟩
    · exact Nat.zero_lt_of_lt rep.room
    · simp [Dict.step]

theorem step_breaks {dict : Dict V} {op : Op V} (related : Related map dict) (refused : ¬MovesOne map op)
    (stepped : map.step op = some (next, (dict.step op).2)) : ¬Meets next (dict.step op).1 := by
  rintro ⟨entries', ordered, -⟩
  obtain ⟨entries, rep, lists⟩ := related
  have same := entries_eq rep.toOrdered
  cases op with
  | put key value =>
    obtain ⟨old, many⟩ := not_or.mp refused
    rw [same] at old many
    obtain ⟨i, node, found, here, met⟩ | ⟨p, missed, bound, absent, below, above⟩ :=
      keyIndex_cases rep.toOrdered key
    · exact old (List.mem_map.mpr ⟨node, List.mem_of_getElem? here, met⟩)
    · rw [filter_greater below above] at many
      obtain ⟨next', repeated, broken⟩ := put_repeats rep missed (by omega) value
      obtain ⟨rfl, -⟩ := Prod.mk.inj (Option.some.inj (repeated.symm.trans stepped))
      exact broken entries' ordered
  | remove key =>
    obtain ⟨present, greater⟩ := Classical.not_imp.mp refused
    rw [same] at present greater
    obtain ⟨i, node, found, here, met⟩ | ⟨p, missed, bound, absent, below, above⟩ :=
      keyIndex_cases rep.toOrdered key
    · obtain ⟨other, member, above⟩ : ∃ other ∈ entries, map.hashOf key < map.hashOf other.key := by
        by_contra none
        exact greater fun other member => Int.not_lt.mp fun above => none ⟨other, member, above⟩
      obtain ⟨next', removed, broken⟩ := remove_mismatches rep found here met member above
      obtain ⟨rfl, -⟩ := Prod.mk.inj (Option.some.inj (removed.symm.trans stepped))
      exact broken entries' ordered
    · exact absent present
  | clear => exact refused trivial

/-- From the new map, every state of a run is the map of its bindings and every result is theirs,
exactly if each put moves at most one node and each removal is of a greatest hash. -/
theorem array_map_iff (ops : List (Op V)) :
    (∀ arrived, arrived <+: ops → ∃ last,
      Run.run step new arrived = some (last, (Run.track Dict.step (fun _ => none) arrived).2) ∧
        Meets last (Run.track Dict.step (fun _ => none) arrived).1) ↔
      Run.Along step MovesOne new ops := by
  have initial : Related (new : CArrayMap V) (fun _ => none) := by
    refine ⟨[], new_represents, fun key value => ?_⟩
    simp
  exact @Run.answers_iff_along _ _ _ _ step Related Meets Dict.step MovesOne
    (fun ⟨_, rep, lists⟩ => meets_of_ordered rep.toOrdered lists) step_keeps
    (fun related refused _ => step_breaks related refused) _ _ initial ops

/-- Two keys, of which the one with the smaller hash is removed. -/
def letterRemoved : List (Op Nat) :=
  [.put (.ofBytes [97]) (some 1), .put (.ofBytes [97, 98]) (some 2), .remove (.ofBytes [97])]

theorem letter_removed_hides : ¬∃ last,
    Run.run step new letterRemoved = some (last, (Run.track Dict.step (fun _ => none) letterRemoved).2) ∧
      Meets last (Run.track Dict.step (fun _ => none) letterRemoved).1 := by
  rintro ⟨last, path, entries, -, -, gets, -⟩
  have ended : (Run.run step new letterRemoved).bind (fun pair => pair.1.get ⟨[97, 98], by decide⟩) = some none := by
    decide +kernel
  have bound : (Run.track Dict.step (fun _ => none) letterRemoved).1 ⟨[97, 98], by decide⟩ = some (some 2) := by
    decide +kernel
  rw [path, Option.bind_some, gets, bound] at ended
  cases ended

end Devent.CArrayMap
