import Devent.Dlib.ArrayMap
import Devent.Library.Run
import Mathlib.Logic.Function.Basic

/-! `CArrayMap` against finite maps. The search is right for every table in the order of its
hashes. A put that has to move more than one node repeats one of them, and a removal leaves the
hashes of the nodes behind it where they were. -/
namespace Devent.CArrayMap
open Slots

variable {V : Type} {map next : CArrayMap V} {entries : List (ArrayNode V)} {key : CString}

/-- The hashes of the entries. -/
def hashes (map : CArrayMap V) (entries : List (ArrayNode V)) : List Int :=
  entries.map fun node => map.hashOf node.key

/-- The first slots hold the entries with their hashes, in the order of these. -/
structure Ordered (map : CArrayMap V) (entries : List (ArrayNode V)) : Prop where
  len : map.len = entries.length
  nodes : Holds map.nodes entries
  hashArray : Holds map.hashArray (map.hashes entries)
  sorted : (map.hashes entries).Pairwise (· ≤ ·)
  distinct : (entries.map ArrayNode.key).Nodup

/-- The map with nothing allocated behind its entries. -/
def inUse (map : CArrayMap V) : CArrayMap V :=
  { map with nodes := map.nodes.take map.len, hashArray := map.hashArray.take map.len }

/-- The index of the key, or the complement of a place where its hash fits. -/
inductive KeyAnswer (map : CArrayMap V) (entries : List (ArrayNode V)) (key : CString) : Int → Prop
  | found (i : Nat) (node : ArrayNode V) (here : entries[i]? = some node) (same : node.key = key) :
    KeyAnswer map entries key i
  | missing (p : Nat) (bound : p ≤ entries.length) (absent : key ∉ entries.map ArrayNode.key)
      (sorted : ((map.hashes entries).insertIdx p (map.hashOf key)).Pairwise (· ≤ ·)) :
    KeyAnswer map entries key (-(p : Int) - 1)

@[simp] theorem length_hashes (map : CArrayMap V) (entries : List (ArrayNode V)) :
    (map.hashes entries).length = entries.length := List.length_map _

theorem Ordered.load_node (ordered : Ordered map entries) {i : Nat} {node : ArrayNode V}
    (here : entries[i]? = some node) : load map.nodes i = some node := by
  obtain ⟨bound, rfl⟩ := List.getElem?_eq_some_iff.mp here
  exact ordered.nodes.load bound

theorem Ordered.load_hash (ordered : Ordered map entries) {i : Nat} {node : ArrayNode V}
    (here : entries[i]? = some node) : load map.hashArray i = some (map.hashOf node.key) := by
  obtain ⟨bound, rfl⟩ := List.getElem?_eq_some_iff.mp here
  have inside : i < (map.hashes entries).length := (length_hashes map entries).symm ▸ bound
  rw [ordered.hashArray.load inside]
  simp [hashes]

theorem Ordered.le (ordered : Ordered map entries) {i j : Nat} {a b : ArrayNode V}
    (at_i : entries[i]? = some a) (at_j : entries[j]? = some b) (before : i ≤ j) :
    map.hashOf a.key ≤ map.hashOf b.key := by
  obtain ⟨hi, rfl⟩ := List.getElem?_eq_some_iff.mp at_i
  obtain ⟨hj, rfl⟩ := List.getElem?_eq_some_iff.mp at_j
  obtain before | rfl := Nat.lt_or_eq_of_le before
  · have order := List.pairwise_iff_getElem.mp ordered.sorted i j (by simpa using hi) (by simpa using hj) before
    simpa [hashes] using order
  · exact Int.le_refl _

theorem nodup_key (distinct : (entries.map ArrayNode.key).Nodup) {i j : Nat} {a b : ArrayNode V}
    (at_i : entries[i]? = some a) (at_j : entries[j]? = some b) (same : a.key = b.key) : i = j := by
  have key_i : (entries.map ArrayNode.key)[i]? = some a.key := by rw [List.getElem?_map, at_i]; rfl
  have key_j : (entries.map ArrayNode.key)[j]? = some a.key := by rw [List.getElem?_map, at_j, same]; rfl
  obtain ⟨bound, -⟩ := List.getElem?_eq_some_iff.mp key_i
  exact (List.getElem?_inj bound distinct).mp (key_i.trans key_j.symm)

/-- The scan down meets the key, or the run of equal hashes does not have it below. -/
theorem scanDown_spec (ordered : Ordered map entries) (key : CString) {hash : Int} {i : Nat}
    (inside : i ≤ entries.length)
    (below : ∀ (j : Nat) node, entries[j]? = some node → j < i → map.hashOf node.key ≤ hash) :
    ∃ result, map.scanDown key hash i = some result ∧
      match result with
      | some j => ∃ node, entries[j]? = some node ∧ node.key = key
      | none => ∀ (j : Nat) node, entries[j]? = some node → j < i → map.hashOf node.key = hash →
          node.key ≠ key := by
  induction i with
  | zero => exact ⟨none, rfl, fun j node _ before => absurd before (Nat.not_lt_zero j)⟩
  | succ i ih =>
    have here := List.getElem?_eq_getElem (show i < entries.length by omega)
    rw [scanDown, ordered.load_hash here]
    simp only [Option.bind_eq_bind, Option.bind_some]
    by_cases equal : map.hashOf entries[i].key = hash
    · rw [if_pos equal, ordered.load_node here]
      simp only [Option.bind_some]
      by_cases same : entries[i].key = key
      · rw [if_pos same]
        exact ⟨some i, rfl, entries[i], here, same⟩
      · rw [if_neg same]
        obtain ⟨result, scanned, answer⟩ := ih (by omega) fun j node at_j before =>
          below j node at_j (Nat.lt_succ_of_lt before)
        refine ⟨result, scanned, ?_⟩
        cases result with
        | some j => exact answer
        | none =>
          intro j node at_j before hashed
          obtain before | rfl := Nat.lt_or_eq_of_le (Nat.le_of_lt_succ before)
          · exact answer j node at_j before hashed
          · cases here.symm.trans at_j
            exact same
    · rw [if_neg equal]
      refine ⟨none, rfl, fun j node at_j before hashed => absurd ?_ equal⟩
      have upper := below i _ here (Nat.lt_succ_self i)
      have lower := ordered.le at_j here (Nat.le_of_lt_succ before)
      omega

theorem Ordered.greater_behind (ordered : Ordered map entries) {hash : Int} {i : Nat}
    (greater : ∀ node, entries[i]? = some node → hash < map.hashOf node.key) (j : Nat) (node : ArrayNode V)
    (at_j : entries[j]? = some node) (behind : i ≤ j) : hash < map.hashOf node.key := by
  obtain ⟨bound, -⟩ := List.getElem?_eq_some_iff.mp at_j
  have here := List.getElem?_eq_getElem (Nat.lt_of_le_of_lt behind bound)
  exact Int.lt_of_lt_of_le (greater _ here) (ordered.le here at_j behind)

/-- The scan up meets the key, or ends behind the run of equal hashes. -/
theorem scanUp_spec (ordered : Ordered map entries) (key : CString) {hash : Int} {rounds i : Nat}
    (inside : i ≤ entries.length) (enough : entries.length ≤ i + rounds)
    (above : ∀ (j : Nat) node, entries[j]? = some node → i ≤ j → hash ≤ map.hashOf node.key) :
    (∃ (j : Nat) (node : ArrayNode V), map.scanUp key hash rounds i = some (j : Int) ∧
        entries[j]? = some node ∧ node.key = key) ∨
      ∃ p : Nat, map.scanUp key hash rounds i = some (-(p : Int) - 1) ∧ i ≤ p ∧ p ≤ entries.length ∧
        (∀ (j : Nat) node, entries[j]? = some node → i ≤ j → j < p →
          map.hashOf node.key = hash ∧ node.key ≠ key) ∧
        ∀ (j : Nat) node, entries[j]? = some node → p ≤ j → hash < map.hashOf node.key := by
  have len := ordered.len
  have ended {i : Nat} (inside : i ≤ entries.length)
      (greater : ∀ node, entries[i]? = some node → hash < map.hashOf node.key) :
      ∃ p : Nat, some (-(i : Int) - 1) = some (-(p : Int) - 1) ∧ i ≤ p ∧ p ≤ entries.length ∧
        (∀ (j : Nat) node, entries[j]? = some node → i ≤ j → j < p →
          map.hashOf node.key = hash ∧ node.key ≠ key) ∧
        ∀ (j : Nat) node, entries[j]? = some node → p ≤ j → hash < map.hashOf node.key :=
    ⟨i, rfl, Nat.le_refl i, inside, fun j node _ from_i before => absurd before (by omega),
      ordered.greater_behind greater⟩
  induction rounds generalizing i with
  | zero =>
    obtain rfl : i = entries.length := by omega
    rw [scanUp, if_neg (by omega)]
    refine .inr (ended inside fun node at_i => ?_)
    rw [List.getElem?_eq_none (Nat.le_refl _)] at at_i
    cases at_i
  | succ rounds ih =>
    rw [scanUp]
    by_cases more : i < map.len
    · have here := List.getElem?_eq_getElem (show i < entries.length by omega)
      rw [if_pos more, ordered.load_hash here]
      simp only [Option.bind_eq_bind, Option.bind_some]
      by_cases equal : map.hashOf entries[i].key = hash
      · rw [if_pos equal, ordered.load_node here]
        simp only [Option.bind_some]
        by_cases same : entries[i].key = key
        · rw [if_pos same]
          exact .inl ⟨i, entries[i], rfl, here, same⟩
        · rw [if_neg same]
          obtain met | ⟨p, scanned, low, high, passed, greater⟩ := ih (i := i + 1) (by omega) (by omega)
            fun j node at_j after => above j node at_j (by omega)
          · exact .inl met
          · refine .inr ⟨p, scanned, by omega, high, fun j node at_j after before => ?_, greater⟩
            obtain after | rfl := Nat.lt_or_eq_of_le after
            · exact passed j node at_j after before
            · cases here.symm.trans at_j
              exact ⟨equal, same⟩
      · rw [if_neg equal]
        refine .inr (ended inside fun node at_i => ?_)
        cases here.symm.trans at_i
        have least := above i _ here (Nat.le_refl i)
        omega
    · rw [if_neg more]
      refine .inr (ended inside fun node at_i => ?_)
      rw [List.getElem?_eq_none (by omega)] at at_i
      cases at_i

theorem hashes_get (map : CArrayMap V) (entries : List (ArrayNode V)) (j : Nat) :
    (map.hashes entries)[j]? = entries[j]?.map fun node => map.hashOf node.key := List.getElem?_map

theorem Ordered.probe (ordered : Ordered map entries) {i : Nat} (bound : i < (map.hashes entries).length) :
    map.probe i = (map.hashes entries)[i]? := by
  rw [length_hashes] at bound
  have here := List.getElem?_eq_getElem bound
  rw [CArrayMap.probe, if_pos (Int.natCast_nonneg i), Int.toNat_natCast, ordered.load_hash here, hashes_get, here]
  rfl

theorem Ordered.search (ordered : Ordered map entries) (hash : Int) :
    ∃ answer, Search.loop map.probe hash (map.len + 1) 0 ((map.len : Int) - 1) (((map.len : Int) - 1).tdiv 2) =
      some answer ∧ Search.Answer (map.hashes entries) hash answer := by
  have len := ordered.len
  have width := length_hashes map entries
  refine Search.loop_spec ordered.sorted (fun i bound => ordered.probe bound) (Int.le_refl 0) (by omega) (by omega)
    (fun _ => ?_) (by omega) (fun j k _ before => absurd before (by omega)) fun j k at_j after => ?_
  · rw [Int.tdiv_eq_ediv_of_nonneg (by omega)]
    omega
  · have outside : (map.hashes entries)[j]? = none := List.getElem?_eq_none (by omega)
    rw [outside] at at_j
    cases at_j

/-- Where no entry has the hash of the key, the key is missing. -/
theorem absent_of_hashes {p : Nat}
    (below : ∀ (j : Nat) node, entries[j]? = some node → j < p → map.hashOf node.key < map.hashOf key)
    (above : ∀ (j : Nat) node, entries[j]? = some node → p ≤ j → map.hashOf key < map.hashOf node.key) :
    key ∉ entries.map ArrayNode.key := by
  intro member
  obtain ⟨node, inside, rfl⟩ := List.mem_map.mp member
  obtain ⟨j, at_j⟩ := List.mem_iff_getElem?.mp inside
  obtain before | after := Nat.lt_or_ge j p
  · exact Int.lt_irrefl _ (below j node at_j before)
  · exact Int.lt_irrefl _ (above j node at_j after)

/-- The key is missing when it is not at the entry the search met, nor in the run around it. -/
theorem absent_of_scans {m p : Nat} {middle : ArrayNode V} (here : entries[m]? = some middle)
    (other : middle.key ≠ key)
    (down : ∀ (j : Nat) node, entries[j]? = some node → j < m → map.hashOf node.key = map.hashOf key → node.key ≠ key)
    (up : ∀ (j : Nat) node, entries[j]? = some node → m + 1 ≤ j → j < p →
      map.hashOf node.key = map.hashOf key ∧ node.key ≠ key)
    (greater : ∀ (j : Nat) node, entries[j]? = some node → p ≤ j → map.hashOf key < map.hashOf node.key) :
    key ∉ entries.map ArrayNode.key := by
  intro member
  obtain ⟨node, inside, met⟩ := List.mem_map.mp member
  obtain ⟨j, at_j⟩ := List.mem_iff_getElem?.mp inside
  have equal : map.hashOf node.key = map.hashOf key := congrArg map.hashOf met
  obtain before | rfl | after := Nat.lt_trichotomy j m
  · exact down j node at_j before equal met
  · cases here.symm.trans at_j
    exact other met
  · obtain inRun | behind := Nat.lt_or_ge j p
    · exact (up j node at_j after inRun).2 met
    · have less := greater j node at_j behind
      omega

/-- The search finds the key, or the place behind all hashes that are not greater. -/
theorem keyIndex_cases (ordered : Ordered map entries) (key : CString) :
    (∃ (i : Nat) (node : ArrayNode V), map.keyIndex key (map.hashOf key) = some (i : Int) ∧
        entries[i]? = some node ∧ node.key = key) ∨
      ∃ p : Nat, map.keyIndex key (map.hashOf key) = some (-(p : Int) - 1) ∧ p ≤ entries.length ∧
        key ∉ entries.map ArrayNode.key ∧
        (∀ (j : Nat) node, entries[j]? = some node → j < p → map.hashOf node.key ≤ map.hashOf key) ∧
        ∀ (j : Nat) node, entries[j]? = some node → p ≤ j → map.hashOf key < map.hashOf node.key := by
  have len := ordered.len
  rw [keyIndex]
  by_cases empty : map.len = 0
  · rw [if_pos empty]
    obtain rfl : entries = [] := List.eq_nil_of_length_eq_zero (len.symm.trans empty)
    refine .inr ⟨0, rfl, Nat.le_refl 0, List.not_mem_nil, ?_, ?_⟩
    · exact fun j node at_j => by cases at_j
    · exact fun j node at_j => by cases at_j
  rw [if_neg empty]
  obtain ⟨answer, searched, located⟩ := ordered.search (map.hashOf key)
  rw [searched]
  simp only [Option.bind_eq_bind, Option.bind_some]
  cases located with
  | missing p bound below above =>
    rw [if_pos (show -(p : Int) - 1 < 0 by omega)]
    have below' : ∀ (j : Nat) node, entries[j]? = some node → j < p → map.hashOf node.key < map.hashOf key :=
      fun j node at_j => below j _ (by rw [hashes_get, at_j]; rfl)
    have above' : ∀ (j : Nat) node, entries[j]? = some node → p ≤ j → map.hashOf key < map.hashOf node.key :=
      fun j node at_j => above j _ (by rw [hashes_get, at_j]; rfl)
    refine .inr ⟨p, rfl, length_hashes map entries ▸ bound, absent_of_hashes below' above', ?_, above'⟩
    exact fun j node at_j before => Int.le_of_lt (below' j node at_j before)
  | found m hit =>
    rw [hashes_get, Option.map_eq_some_iff] at hit
    obtain ⟨middle, here, hashed⟩ := hit
    obtain ⟨bound, -⟩ := List.getElem?_eq_some_iff.mp here
    rw [if_neg (show ¬(m : Int) < 0 by omega), Int.toNat_natCast, ordered.load_node here]
    simp only [Option.bind_some]
    by_cases same : middle.key = key
    · rw [if_pos same]
      exact .inl ⟨m, middle, rfl, here, same⟩
    rw [if_neg same]
    have below : ∀ (j : Nat) node, entries[j]? = some node → j ≤ m → map.hashOf node.key ≤ map.hashOf key :=
      fun j node at_j before => hashed ▸ ordered.le at_j here before
    obtain ⟨result, down, answer⟩ := scanDown_spec ordered key (Nat.le_of_lt bound) fun j node at_j before =>
      below j node at_j (Nat.le_of_lt before)
    rw [down]
    simp only [Option.bind_some]
    cases result with
    | some j =>
      obtain ⟨node, at_j, met⟩ := answer
      exact .inl ⟨j, node, rfl, at_j, met⟩
    | none =>
      have above : ∀ (j : Nat) node, entries[j]? = some node → m + 1 ≤ j →
          map.hashOf key ≤ map.hashOf node.key :=
        fun j node at_j after => hashed ▸ ordered.le here at_j (by omega)
      obtain met | ⟨p, up, low, high, passed, greater⟩ :=
        scanUp_spec ordered key bound (show entries.length ≤ m + 1 + map.len by omega) above
      · obtain ⟨j, node, up, at_j, met⟩ := met
        exact .inl ⟨j, node, up, at_j, met⟩
      · have absent := absent_of_scans here same answer passed greater
        refine .inr ⟨p, up, high, absent, fun j node at_j before => ?_, greater⟩
        obtain early | late := Nat.lt_or_ge m j
        · exact Int.le_of_eq (passed j node at_j early before).1
        · exact below j node at_j late

theorem inUse_ordered (ordered : Ordered map entries) : Ordered map.inUse entries where
  len := ordered.len
  nodes := ordered.nodes.shrink (Nat.le_of_eq ordered.len.symm)
  hashArray := ordered.hashArray.shrink (by rw [length_hashes, ordered.len])
  sorted := ordered.sorted
  distinct := ordered.distinct

/-- The search reads nothing behind the entries. -/
theorem keyIndex_inUse (ordered : Ordered map entries) (key : CString) :
    map.inUse.keyIndex key (map.hashOf key) = map.keyIndex key (map.hashOf key) := by
  have same : map.inUse.hashOf = map.hashOf := rfl
  have cut := keyIndex_cases (inUse_ordered ordered) key
  rw [same] at cut
  obtain ⟨i, node, found, at_i, met⟩ | ⟨p, missed, bound, absent, below, above⟩ := keyIndex_cases ordered key
  · obtain ⟨j, node', found', at_j, met'⟩ | ⟨q, -, -, absent, -⟩ := cut
    · have unique := nodup_key ordered.distinct at_i at_j (met.trans met'.symm)
      rw [found, found', unique]
    · exact absurd (List.mem_map.mpr ⟨node, List.mem_of_getElem? at_i, met⟩) absent
  · obtain ⟨j, node, -, at_j, met⟩ | ⟨q, missed', bound', -, below', above'⟩ := cut
    · exact absurd (List.mem_map.mpr ⟨node, List.mem_of_getElem? at_j, met⟩) absent
    · have unique : p = q := by
        obtain before | rfl | after := Nat.lt_trichotomy p q
        · have here := List.getElem?_eq_getElem (show p < entries.length by omega)
          have least := below' p _ here before
          have greatest := above p _ here (Nat.le_refl p)
          omega
        · rfl
        · have here := List.getElem?_eq_getElem (show q < entries.length by omega)
          have least := below q _ here after
          have greatest := above' q _ here (Nat.le_refl q)
          omega
      rw [missed, missed', unique]

theorem insertIdx_sorted (ordered : Ordered map entries) {hash : Int} {p : Nat} (bound : p ≤ entries.length)
    (below : ∀ (j : Nat) node, entries[j]? = some node → j < p → map.hashOf node.key ≤ hash)
    (above : ∀ (j : Nat) node, entries[j]? = some node → p ≤ j → hash < map.hashOf node.key) :
    ((map.hashes entries).insertIdx p hash).Pairwise (· ≤ ·) := by
  have first : ∀ h ∈ (map.hashes entries).take p, h ≤ hash := by
    intro h member
    rw [hashes, ← List.map_take] at member
    obtain ⟨node, inside, rfl⟩ := List.mem_map.mp member
    obtain ⟨j, at_j⟩ := List.mem_iff_getElem?.mp inside
    rw [List.getElem?_take] at at_j
    split at at_j
    · next before => exact below j node at_j before
    · cases at_j
  have second : ∀ h ∈ (map.hashes entries).drop p, hash ≤ h := by
    intro h member
    rw [hashes, ← List.map_drop] at member
    obtain ⟨node, inside, rfl⟩ := List.mem_map.mp member
    obtain ⟨j, at_j⟩ := List.mem_iff_getElem?.mp inside
    rw [List.getElem?_drop] at at_j
    exact Int.le_of_lt (above (p + j) node at_j (Nat.le_add_right p j))
  have sorted := ordered.sorted
  rw [← List.take_append_drop p (map.hashes entries), List.pairwise_append] at sorted
  rw [insertIdx_eq hash (by rw [length_hashes]; exact bound), List.pairwise_append, List.pairwise_cons]
  refine ⟨sorted.1, ⟨second, sorted.2.1⟩, fun h member h' member' => ?_⟩
  obtain rfl | later := List.mem_cons.mp member'
  · exact first h member
  · exact sorted.2.2 h member h' later

/-- In any map in the order of its hashes the search ends, reads its entries only, and answers
with the index of the key, or without the key with the complement of a place for its hash. -/
theorem key_index_answers (ordered : Ordered map entries) (key : CString) :
    ∃ index, map.keyIndex key (map.hashOf key) = some index ∧
      map.inUse.keyIndex key (map.hashOf key) = some index ∧ KeyAnswer map entries key index := by
  rw [keyIndex_inUse ordered]
  obtain ⟨i, node, found, here, same⟩ | ⟨p, missed, bound, absent, below, above⟩ := keyIndex_cases ordered key
  · exact ⟨i, found, found, .found i node here same⟩
  · exact ⟨_, missed, missed, .missing p bound absent (insertIdx_sorted ordered bound below above)⟩

/-- "a" and "b" with the hash 0 both, and nothing allocated behind them. -/
def twoLetters : CArrayMap Nat where
  cap := 2
  len := 2
  nodes := [some ⟨.ofBytes [97], some 1⟩, some ⟨.ofBytes [98], some 2⟩]
  hashArray := [some 0, some 0]
  hash := none

theorem two_letters_answer : ∃ index,
    twoLetters.keyIndex ⟨[98], by decide⟩ (twoLetters.hashOf ⟨[98], by decide⟩) = some index ∧
      twoLetters.inUse.keyIndex ⟨[98], by decide⟩ (twoLetters.hashOf ⟨[98], by decide⟩) = some index ∧
      KeyAnswer twoLetters [⟨⟨[97], by decide⟩, some 1⟩, ⟨⟨[98], by decide⟩, some 2⟩] ⟨[98], by decide⟩ index :=
  key_index_answers ⟨rfl, ⟨by decide, by decide⟩, ⟨by decide, by decide +kernel⟩, by decide +kernel, by decide⟩ _

end Devent.CArrayMap
