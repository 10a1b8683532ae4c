import Devent.Dlib.HashMapProofs
import Mathlib.Data.Finset.Card

/-! The count of a map. A put counts itself, also where it replaces a value, so the count is
the number of keys in the table exactly as long as no key is put that is there. -/
namespace Devent.CHashMap
open Keyed Buckets

variable {V : Type} {map next : CHashMap V} {key : CString} {value : V}

/-- The keys in the table, wherever they stand. -/
def keys (map : CHashMap V) : List CString := map.nodes.flatten.map CNode.key

/-- The count is the number of distinct keys stored, and 0 for the empty map alone. -/
def Counted (map : CHashMap V) : Prop :=
  getCount (some map) = map.keys.toFinset.card ∧ (map.count = 0 ↔ map.keys = [])

/-- A put brings a key that is not in the table. -/
def NewKey (map : CHashMap V) : Op V → Prop
  | .put key _ => key ∉ map.keys
  | .remove _ | .clear => True

instance (map : CHashMap V) (op : Op V) : Decidable (NewKey map op) :=
  match op with
  | .put key _ => inferInstanceAs (Decidable (key ∉ map.keys))
  | .remove _ => .isTrue trivial
  | .clear => .isTrue trivial

structure Tallied (map : CHashMap V) : Prop where
  sized : Sized map
  distinct : map.keys.Nodup
  counted : map.count = map.keys.length

theorem new_tallied : Tallied (new : CHashMap V) := ⟨new_sized, List.nodup_nil, rfl⟩

theorem Tallied.card_keys (tallied : Tallied map) : map.keys.toFinset.card = map.count := by
  rw [List.toFinset_card_of_nodup tallied.distinct, tallied.counted]

theorem Tallied.counted_keys (tallied : Tallied map) : Counted map := by
  refine ⟨?_, ?_⟩
  · rw [tallied.sized.getCount_eq, tallied.card_keys]
  · rw [tallied.counted, List.length_eq_zero_iff]

theorem resize_perm {target : Nat} (sized : Sized map) (resized : map.resize target = some next) :
    next.nodes.flatten.Perm map.nodes.flatten := by
  obtain ⟨k, -, upper, cap⟩ := sized.capacity
  obtain ⟨rfl, -⟩ | ⟨-, -, -, rfl⟩ := resize_cases cap upper resized
  · exact .refl _
  · have wider : map.nodes.length ≤ 2 ^ (k + 1) := by
      rw [sized.buckets, cap]
      exact Nat.pow_le_pow_right (by decide) (Nat.le_succ k)
    exact relocate_perm wider

theorem put_keys (sized : Sized map) (done : map.put key value = some next) : ∃ before chain after,
    map.keys.Perm (before ++ (chain ++ after)) ∧
      next.keys = before ++ ((if key ∈ chain then chain else chain ++ [key]) ++ after) := by
  have sized' := (put_sized sized done).1
  simp only [put, Option.bind_eq_bind, Option.bind_eq_some_iff, Option.pure_def, Option.some.injEq] at done
  obtain ⟨grown, resized, rfl⟩ := done
  have bound : bucketIndex key grown.cap < grown.nodes.length := by
    obtain ⟨k, -, upper, cap⟩ := sized'.capacity
    have length := sized'.buckets
    simp only [List.length_modify] at length cap
    rw [length, cap]
    exact bucketIndex_lt key (by omega)
  have updated : putNode (⟨key, value⟩ : CNode V) = upsert CNode.key ⟨key, value⟩ :=
    funext fun chain => putNode_eq _ chain
  obtain ⟨before, after, same, changed⟩ :=
    flatten_modify (upsert CNode.key ⟨key, value⟩) (List.getElem?_eq_getElem bound)
  refine ⟨before.map CNode.key, grown.nodes[bucketIndex key grown.cap].map CNode.key, after.map CNode.key, ?_, ?_⟩
  · rw [← List.map_append, ← List.map_append, ← same]
    exact ((resize_perm sized resized).map CNode.key).symm
  · rw [keys, updated, changed, List.map_append, List.map_append, map_upsert]

theorem put_keys_new (sized : Sized map) (fresh : key ∉ map.keys) (done : map.put key value = some next) :
    next.keys.Perm (key :: map.keys) := by
  obtain ⟨before, chain, after, same, changed⟩ := put_keys sized done
  have absent : key ∉ chain := by
    intro member
    exact fresh (same.symm.subset (List.mem_append_right before (List.mem_append_left after member)))
  rw [changed, if_neg absent, List.append_assoc, ← List.append_assoc, List.singleton_append]
  rw [← List.append_assoc] at same
  exact List.perm_middle.trans (same.symm.cons key)

/-- A key that is there is not there twice, as far as the set of keys goes. -/
theorem put_keys_old (sized : Sized map) (stored : key ∈ map.keys) (done : map.put key value = some next) :
    next.keys.toFinset = map.keys.toFinset := by
  obtain ⟨before, chain, after, same, changed⟩ := put_keys sized done
  have member := same.subset stored
  rw [List.toFinset_eq_of_perm _ _ same, changed]
  ext other
  simp only [List.mem_toFinset, List.mem_append] at member ⊢
  split
  · rfl
  · rw [List.mem_append, List.mem_singleton]
    constructor
    · rintro (first | (second | rfl) | third)
      · exact .inl first
      · exact .inr (.inl second)
      · exact member
      · exact .inr (.inr third)
    · rintro (first | second | third)
      · exact .inl first
      · exact .inr (.inl (.inl second))
      · exact .inr (.inr third)

theorem put_tallied (tallied : Tallied map) (fresh : key ∉ map.keys) (done : map.put key value = some next) :
    Tallied next := by
  have sent := put_keys_new tallied.sized fresh done
  refine ⟨(put_sized tallied.sized done).1, ?_, ?_⟩
  · exact sent.nodup_iff.mpr (List.nodup_cons.mpr ⟨fresh, tallied.distinct⟩)
  · rw [sent.length_eq, (put_cap done).2, tallied.counted, List.length_cons]

/-- A key put again is counted again. -/
theorem put_miscounts (tallied : Tallied map) (stored : key ∈ map.keys) (done : map.put key value = some next) :
    ¬Counted next := by
  rintro ⟨exact, -⟩
  rw [(put_sized tallied.sized done).1.getCount_eq, put_keys_old tallied.sized stored done, tallied.card_keys,
    (put_cap done).2] at exact
  omega

theorem remove_tallied (tallied : Tallied map) (key : CString) : Tallied (map.remove key).1 := by
  cases found : map.getNode key with
  | none =>
    simp only [remove, found]
    exact tallied
  | some node =>
    obtain ⟨chain, here, inChain⟩ := Option.bind_eq_some_iff.mp found
    obtain ⟨before, after, same, changed⟩ := flatten_modify (Keyed.remove CNode.key key) here
    have shrinks := length_remove (lookup_mem inChain) (lookup_key inChain)
    have kept : (before ++ (Keyed.remove CNode.key key chain ++ after)).Sublist map.nodes.flatten := by
      rw [same]
      exact ((remove_sublist key chain).append_right after).append_left before
    have counted := tallied.counted
    have fits := tallied.sized.fits
    simp only [remove, found]
    refine ⟨⟨tallied.sized.capacity, ?_, ?_⟩, ?_, ?_⟩
    · rw [List.length_modify]
      exact tallied.sized.buckets
    · exact Nat.le_trans (Nat.sub_le _ _) fits
    · rw [keys, changed]
      exact tallied.distinct.sublist (kept.map CNode.key)
    · simp only [keys, same, changed, List.length_map, List.length_append] at counted ⊢
      omega

theorem step_tallied {op : Op V} {out : Option V} (tallied : Tallied map) (fresh : NewKey map op)
    (taken : map.step op = some (next, out)) : Tallied next := by
  cases op with
  | put key value =>
    obtain ⟨grown, done, pair⟩ := Option.map_eq_some_iff.mp taken
    cases pair
    exact put_tallied tallied fresh done
  | remove key =>
    obtain rfl : (map.remove key).1 = next := congrArg Prod.fst (Option.some.inj taken)
    exact remove_tallied tallied key
  | clear =>
    cases taken
    exact new_tallied

theorem newKey_of_counted {op : Op V} {out : Option V} (tallied : Tallied map) (counted : Counted next)
    (taken : map.step op = some (next, out)) : NewKey map op := by
  cases op with
  | put key value =>
    obtain ⟨grown, done, pair⟩ := Option.map_eq_some_iff.mp taken
    cases pair
    exact fun stored => put_miscounts tallied stored done counted
  | remove key => trivial
  | clear => trivial

/-- In a run of calls, every state counts its keys if and only if no put finds its key in the
table. -/
theorem counted_iff_new_keys {ops : List (Op V)} {outs : List (Option V)}
    (path : Run.run step new ops = some (map, outs)) :
    (∀ arrived, arrived <+: ops → ∀ middle outs', Run.run step new arrived = some (middle, outs') →
      Counted middle) ↔ Run.Along step NewKey new ops :=
  Run.states_iff_along Tallied.counted_keys step_tallied newKey_of_counted new_tallied path

theorem single_letters_counted : ∃ map outs, Run.run step new cleanPuts = some (map, outs) ∧ Counted map := by
  have defined : (Run.run step new cleanPuts).isSome = true := by decide +kernel
  obtain ⟨⟨map, outs⟩, path⟩ := Option.isSome_iff_exists.mp defined
  have all := (counted_iff_new_keys path).mpr (by decide +kernel)
  exact ⟨map, outs, path, all _ (List.prefix_refl _) map outs path⟩

/-- "a" put twice, then removed. -/
def overwritten : List (Op Nat) :=
  [.put (.ofBytes [97]) 0, .put (.ofBytes [97]) 1, .remove (.ofBytes [97])]

theorem empty_counts_one : ∃ map outs, Run.run step new overwritten = some (map, outs) ∧
    map.keys = [] ∧ getCount (some map) = 1 ∧ ¬Counted map := by
  have left : ((Run.run step new overwritten).map fun pair => (pair.1.keys, pair.1.count)) = some ([], 1) := by
    decide +kernel
  obtain ⟨⟨map, outs⟩, path, parts⟩ := Option.map_eq_some_iff.mp left
  obtain ⟨empty, one⟩ := Prod.mk.inj parts
  have count : getCount (some map) = 1 := by
    rw [getCount, one]
    decide
  refine ⟨map, outs, path, empty, count, fun counted => ?_⟩
  rw [counted.1, empty] at count
  cases count

end Devent.CHashMap
