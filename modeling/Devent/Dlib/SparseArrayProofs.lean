import Devent.Dlib.SparseArray
import Devent.Library.Run

/-! `CSparseArray` is an ordered finite map. Every call keeps the bindings in
the first slots in strictly ascending order; the two search answers split them
around the key, and the shifting loops edit them there. -/
namespace Devent

theorem intFrom_eq {start stop : Nat} (small : start < 2 ^ 31) (few : stop < 2 ^ 31) :
    intFrom start stop = some start := by
  have first : sizeT (intT start) = start := by
    rw [intT_small small]
    exact sizeT_natCast (by omega)
  rw [intFrom, first, if_neg (by omega)]

namespace Bindings

variable {V : Type} {bindings : Bindings V} {key : Int}

abbrev Ascending (bindings : Bindings V) : Prop := (bindings.map SparseNode.key).Pairwise (· < ·)

theorem Ascending.lt (sorted : Ascending bindings) {i j : Nat} {a b : SparseNode V}
    (at_i : bindings[i]? = some a) (at_j : bindings[j]? = some b) (less : i < j) : a.key < b.key := by
  obtain ⟨hi, rfl⟩ := List.getElem?_eq_some_iff.mp at_i
  obtain ⟨hj, rfl⟩ := List.getElem?_eq_some_iff.mp at_j
  have order := List.pairwise_iff_getElem.mp sorted i j (by simpa using hi) (by simpa using hj) less
  simpa using order

theorem Ascending.sublist {less : Bindings V} (sorted : Ascending bindings) (sub : less.Sublist bindings) :
    Ascending less := List.Pairwise.sublist (sub.map SparseNode.key) sorted

theorem Ascending.nodup (sorted : Ascending bindings) : (bindings.map SparseNode.key).Nodup :=
  sorted.imp ne_of_lt

/-- The bindings around position `i` are those with smaller and greater keys. -/
theorem split_found {i : Nat} {node : SparseNode V} (sorted : Ascending bindings)
    (here : bindings[i]? = some node) : bindings.filter (·.key < node.key) = bindings.take i ∧
      bindings.filter (node.key < ·.key) = bindings.drop (i + 1) := by
  constructor
  · apply Search.filter_eq_take
    · exact fun j a at_j before => decide_eq_true (sorted.lt at_j here before)
    · intro j a at_j after
      rcases Nat.lt_or_eq_of_le after with later | rfl
      · have := sorted.lt here at_j later
        simp only [decide_eq_false_iff_not]
        omega
      · cases here.symm.trans at_j
        simp
  · apply Search.filter_eq_drop
    · intro j a at_j before
      rcases Nat.lt_or_eq_of_le (Nat.le_of_lt_succ before) with earlier | rfl
      · have := sorted.lt at_j here earlier
        simp only [decide_eq_false_iff_not]
        omega
      · cases here.symm.trans at_j
        simp
    · exact fun j a at_j after => decide_eq_true (sorted.lt here at_j after)

theorem remove_found {i : Nat} {node : SparseNode V} (sorted : Ascending bindings)
    (here : bindings[i]? = some node) : bindings.filter (·.key ≠ node.key) = bindings.eraseIdx i := by
  obtain ⟨bound, value⟩ := List.getElem?_eq_some_iff.mp here
  obtain ⟨first, second⟩ := split_found sorted here
  have parts : bindings.take i ++ node :: bindings.drop (i + 1) = bindings := by
    rw [← value, ← List.drop_eq_getElem_cons bound, List.take_append_drop]
  have smaller : (bindings.take i).filter (·.key ≠ node.key) = bindings.take i := by
    refine List.filter_eq_self.mpr fun a member => decide_eq_true ?_
    rw [← first] at member
    have less : a.key < node.key := by simpa using (List.mem_filter.mp member).2
    exact ne_of_lt less
  have greater : (bindings.drop (i + 1)).filter (·.key ≠ node.key) = bindings.drop (i + 1) := by
    refine List.filter_eq_self.mpr fun a member => decide_eq_true ?_
    rw [← second] at member
    have less : node.key < a.key := by simpa using (List.mem_filter.mp member).2
    exact (ne_of_lt less).symm
  calc bindings.filter (·.key ≠ node.key)
      = (bindings.take i ++ node :: bindings.drop (i + 1)).filter (·.key ≠ node.key) := by rw [parts]
    _ = bindings.take i ++ bindings.drop (i + 1) := by
      rw [List.filter_append, List.filter_cons_of_neg (by simp), smaller, greater]
    _ = bindings.eraseIdx i := (List.eraseIdx_eq_take_drop_succ ..).symm

theorem split_missing {p : Nat} (below : ∀ (j : Nat) a, bindings[j]? = some a → j < p → a.key < key)
    (above : ∀ (j : Nat) a, bindings[j]? = some a → p ≤ j → key < a.key) :
    bindings.filter (·.key < key) = bindings.take p ∧ bindings.filter (key < ·.key) = bindings.drop p := by
  constructor
  · apply Search.filter_eq_take
    · exact fun j a at_j before => decide_eq_true (below j a at_j before)
    · intro j a at_j after
      have := above j a at_j after
      simp only [decide_eq_false_iff_not]
      omega
  · apply Search.filter_eq_drop
    · intro j a at_j before
      have := below j a at_j before
      simp only [decide_eq_false_iff_not]
      omega
    · exact fun j a at_j after => decide_eq_true (above j a at_j after)

theorem lookup_found {i : Nat} {node : SparseNode V} (sorted : Ascending bindings)
    (here : bindings[i]? = some node) : lookup node.key bindings = node.value := by
  rw [lookup, Keyed.lookup_of_mem sorted.nodup (List.mem_of_getElem? here)]
  rfl

theorem lookup_missing (missing : key ∉ bindings.map SparseNode.key) : lookup key bindings = none := by
  rw [lookup, Keyed.lookup_eq_none_iff.mpr missing]
  rfl

theorem put_ascending (sorted : Ascending bindings) (key : Int) (v : Option V) :
    Ascending (put key v bindings) := by
  have first := sorted.sublist (List.filter_sublist (p := fun node => node.key < key))
  have second := sorted.sublist (List.filter_sublist (p := fun node => key < node.key))
  simp only [Ascending, put, List.map_append, List.map_cons, List.pairwise_append, List.pairwise_cons]
  refine ⟨first, ⟨?_, second⟩, ?_⟩
  · intro k member
    obtain ⟨node, inSecond, rfl⟩ := List.mem_map.mp member
    simpa using (List.mem_filter.mp inSecond).2
  · intro k member k' member'
    obtain ⟨node, inFirst, rfl⟩ := List.mem_map.mp member
    have less : node.key < key := by simpa using (List.mem_filter.mp inFirst).2
    rcases List.mem_cons.mp member' with rfl | later
    · exact less
    · obtain ⟨other, inSecond, rfl⟩ := List.mem_map.mp later
      have greater : key < other.key := by simpa using (List.mem_filter.mp inSecond).2
      omega

/-- The laws of a finite map. -/
theorem lookup_put (key key' : Int) (v : Option V) :
    lookup key' (put key v bindings) = if key = key' then v else lookup key' bindings := by
  have below : Keyed.lookup SparseNode.key key' (bindings.filter fun node => node.key < key) =
      if key' < key then Keyed.lookup SparseNode.key key' bindings else none := by
    split
    · next less => exact Keyed.lookup_filter fun node _ same => decide_eq_true (same ▸ less)
    · next less =>
      refine Keyed.lookup_eq_none_iff.mpr fun member => less ?_
      obtain ⟨node, kept, rfl⟩ := List.mem_map.mp member
      simpa using (List.mem_filter.mp kept).2
  have above : Keyed.lookup SparseNode.key key' (bindings.filter fun node => key < node.key) =
      if key < key' then Keyed.lookup SparseNode.key key' bindings else none := by
    split
    · next less => exact Keyed.lookup_filter fun node _ same => decide_eq_true (same ▸ less)
    · next less =>
      refine Keyed.lookup_eq_none_iff.mpr fun member => less ?_
      obtain ⟨node, kept, rfl⟩ := List.mem_map.mp member
      simpa using (List.mem_filter.mp kept).2
  rw [lookup, lookup, put, Keyed.lookup_append, Keyed.lookup_cons, below, above]
  rcases Int.lt_trichotomy key' key with less | rfl | greater
  · rw [if_pos less, if_neg (show key ≠ key' by omega), if_neg (show ¬key < key' by omega),
      if_neg (show key ≠ key' by omega), Option.or_none]
  · rw [if_neg (Int.lt_irrefl _), if_pos rfl, if_pos rfl]
    rfl
  · rw [if_neg (show ¬key' < key by omega), if_neg (show key ≠ key' by omega), if_pos greater,
      if_neg (show key ≠ key' by omega), Option.none_or]

theorem lookup_remove (key key' : Int) :
    lookup key' (bindings.filter fun node => node.key ≠ key) =
      if key = key' then none else lookup key' bindings := by
  split
  · next same =>
    refine lookup_missing fun member => ?_
    obtain ⟨node, kept, at_key⟩ := List.mem_map.mp member
    have different : node.key ≠ key := by simpa using (List.mem_filter.mp kept).2
    exact different (at_key.trans same.symm)
  · next different =>
    rw [lookup, lookup, Keyed.lookup_filter]
    rintro node _ rfl
    exact decide_eq_true (Ne.symm different)

theorem step_ascending (sorted : Ascending bindings) (op : SparseOp V) :
    Ascending (step bindings op).1 := by
  cases op with
  | put key v => exact put_ascending sorted key v
  | get key | getByIndex index | length => exact sorted
  | remove key | removeBeforeKey key cb => exact sorted.sublist List.filter_sublist
  | removeLast => exact sorted.sublist (List.dropLast_sublist _)
  | clear cb => exact List.Pairwise.nil

end Bindings

namespace CSparseArray
open Slots Bindings

variable {V : Type} {array : CSparseArray V} {bindings : Bindings V}

/-- The first `len` slots are the bindings; they are ascending and inside the block. -/
structure Represents (array : CSparseArray V) (bindings : Bindings V) : Prop where
  allocated : array.nodes.length = array.cap
  growable : 2 ≤ array.cap
  len : array.len = bindings.length
  nodes : Holds array.nodes bindings
  ascending : Ascending bindings

theorem Represents.len_le_cap (rep : Represents array bindings) : array.len ≤ array.cap := by
  rw [rep.len, ← rep.allocated]
  exact rep.nodes.fits

theorem new_represents : Represents (new : CSparseArray V) [] where
  allocated := rfl
  growable := by simp [new, defaultCap]
  len := rfl
  nodes := holds_nil _
  ascending := List.Pairwise.nil

theorem Represents.load (rep : Represents array bindings) {i : Nat} {node : SparseNode V}
    (here : bindings[i]? = some node) : Slots.load array.nodes i = some node := by
  obtain ⟨bound, rfl⟩ := List.getElem?_eq_some_iff.mp here
  exact rep.nodes.load bound

theorem findIndex_spec (rep : Represents array bindings) (key : Int) : ∃ answer,
    array.findIndex key = some answer ∧ Search.Answer (bindings.map SparseNode.key) key answer := by
  have len := rep.len
  rw [findIndex]
  split
  · next empty =>
    refine ⟨-1, rfl, .missing 0 (Nat.zero_le _) nofun fun j k at_j _ => ?_⟩
    have none : bindings = [] := List.eq_nil_of_length_eq_zero (len.symm.trans empty)
    subst none
    cases at_j
  · next nonempty =>
    have sorted := rep.ascending.imp (S := (· ≤ ·)) Int.le_of_lt
    apply Search.loop_spec sorted
    · intro i bound
      rw [List.length_map] at bound
      rw [probe, if_pos (by omega), Int.toNat_natCast, rep.load (List.getElem?_eq_getElem bound),
        List.getElem?_map, List.getElem?_eq_getElem bound]
    · exact Int.le_refl 0
    · rw [List.length_map]
      omega
    · omega
    · intro _
      rw [Int.tdiv_eq_ediv_of_nonneg (by omega)]
      omega
    · omega
    · intro j k _ before
      omega
    · intro j k at_j after
      obtain ⟨bound, _⟩ := List.getElem?_eq_some_iff.mp at_j
      rw [List.length_map] at bound
      omega

theorem resize_spec (rep : Represents array bindings) : ∃ array',
    array.resize (array.len + 1) = some array' ∧ Represents array' bindings ∧
      array'.len < array'.nodes.length := by
  have below := rep.len_le_cap
  have growable := rep.growable
  have allocated := rep.allocated
  rw [resize]
  by_cases room : array.cap ≥ array.len + 1
  · rw [if_pos room]
    exact ⟨array, rfl, rep, by omega⟩
  · have grown : growCap (array.len + 1) (array.len + 1) array.cap = some (array.cap + array.cap / 2) := by
      obtain ⟨rounds, more⟩ : ∃ rounds, array.len = rounds + 1 := ⟨array.len - 1, by omega⟩
      rw [growCap, if_pos (by omega), more, growCap, if_neg (by omega)]
    have grows : array.nodes.length ≤ array.cap + array.cap / 2 := by omega
    have length := length_realloc grows
    rw [if_neg room, grown]
    refine ⟨_, rfl, ⟨length, ?_, rep.len, rep.nodes.realloc grows, rep.ascending⟩, ?_⟩
    · simp only
      omega
    · simp only [length]
      omega

/-- The two outcomes of a search, as positions in the bindings. -/
theorem find_cases (rep : Represents array bindings) (key : Int) :
    (∃ (i : Nat) (node : SparseNode V), array.findIndex key = some (i : Int) ∧ bindings[i]? = some node ∧
      node.key = key) ∨
    ∃ p : Nat, array.findIndex key = some (-(p : Int) - 1) ∧ p ≤ bindings.length ∧
      bindings.filter (·.key < key) = bindings.take p ∧
      bindings.filter (key < ·.key) = bindings.drop p ∧ key ∉ bindings.map SparseNode.key := by
  obtain ⟨answer, found, meaning⟩ := findIndex_spec rep key
  cases meaning with
  | found i here =>
    left
    rw [List.getElem?_map] at here
    obtain ⟨node, at_i, same⟩ := Option.map_eq_some_iff.mp here
    exact ⟨i, node, found, at_i, same⟩
  | missing p bound below above =>
    right
    have below' : ∀ (j : Nat) a, bindings[j]? = some a → j < p → a.key < key := fun j a at_j =>
      below j a.key (by rw [List.getElem?_map, at_j]; rfl)
    have above' : ∀ (j : Nat) a, bindings[j]? = some a → p ≤ j → key < a.key := fun j a at_j =>
      above j a.key (by rw [List.getElem?_map, at_j]; rfl)
    obtain ⟨first, second⟩ := split_missing below' above'
    refine ⟨p, found, by simpa using bound, first, second, fun member => ?_⟩
    obtain ⟨j, at_j⟩ := List.mem_iff_getElem?.mp member
    rcases Nat.lt_or_ge j p with before | after
    · exact Int.lt_irrefl _ (below j key at_j before)
    · exact Int.lt_irrefl _ (above j key at_j after)

theorem put_spec (rep : Represents array bindings) (key : Int) (v : Option V) : ∃ array',
    array.put key v = some (array', lookup key bindings) ∧
      Represents array' (Bindings.put key v bindings) := by
  obtain ⟨grown, resized, rep₁, room⟩ := resize_spec rep
  have len := rep₁.len
  rw [put, resized]
  simp only [Option.bind_eq_bind, Option.bind_some]
  rcases find_cases rep₁ key with ⟨i, node, found, here, rfl⟩ | ⟨p, found, bound, first, second, missing⟩
  · obtain ⟨bound, _⟩ := List.getElem?_eq_some_iff.mp here
    obtain ⟨nodes, stored, length, holds⟩ := rep₁.nodes.set { node with value := v } bound
    have edited : bindings.set i { node with value := v } = Bindings.put node.key v bindings := by
      obtain ⟨first, second⟩ := split_found rep.ascending here
      rw [Bindings.put, first, second, List.set_eq_take_append_cons_drop, if_pos bound]
    simp only [found, Option.bind_some, ge_iff_le, Int.natCast_nonneg, if_true, Int.toNat_natCast,
      rep₁.load here, stored, Option.pure_def, lookup_found rep.ascending here]
    refine ⟨_, rfl, ⟨length.trans rep₁.allocated, rep₁.growable, ?_, edited ▸ holds, ?_⟩⟩
    · rw [← edited, List.length_set]
      exact len
    · exact put_ascending rep.ascending node.key v
  · have inserted : bindings.insertIdx p ⟨key, v⟩ = Bindings.put key v bindings := by
      rw [insertIdx_eq _ bound, Bindings.put, first, second]
    obtain ⟨shifted, nodes, up, stored, length, holds⟩ :=
      rep₁.nodes.insert ⟨key, v⟩ bound (len ▸ room)
    rw [← len] at up
    have position : (-(-(p : Int) - 1) - 1).toNat = p := by omega
    have negative : ¬(-(p : Int) - 1 ≥ 0) := by omega
    simp only [found, Option.bind_some, if_neg negative, position, up, stored, Option.pure_def,
      lookup_missing missing]
    refine ⟨_, rfl, ⟨length.trans rep₁.allocated, rep₁.growable, ?_, inserted ▸ holds, ?_⟩⟩
    · rw [← inserted, List.length_insertIdx, if_pos bound, ← len]
    · exact put_ascending rep.ascending key v

theorem get_spec (rep : Represents array bindings) (key : Int) :
    array.get key = some (lookup key bindings) := by
  rw [get]
  split
  · next empty =>
    have none : bindings = [] := List.eq_nil_of_length_eq_zero (rep.len.symm.trans empty)
    rw [none]
    rfl
  rcases find_cases rep key with ⟨i, node, found, here, rfl⟩ | ⟨p, found, _, _, _, missing⟩
  · simp only [found, Option.bind_eq_bind, Option.bind_some, rep.load here, Int.toNat_natCast,
      if_neg (show ¬((i : Int) < 0) by omega), lookup_found rep.ascending here, Option.pure_def]
  · simp only [found, Option.bind_eq_bind, Option.bind_some,
      if_pos (show -(p : Int) - 1 < 0 by omega), lookup_missing missing, Option.pure_def]

theorem getByIndex_spec (rep : Represents array bindings) (index : Nat) :
    array.getByIndex index = some bindings[index]? := by
  rw [getByIndex, rep.len]
  split
  · next out => rw [List.getElem?_eq_none out]
  · next inside =>
    have here := List.getElem?_eq_getElem (show index < bindings.length by omega)
    rw [rep.load here, here]
    rfl

theorem remove_spec (rep : Represents array bindings) (few : array.len < 2 ^ 31) (key : Int) :
    ∃ array', array.remove key = some (array', lookup key bindings) ∧
      Represents array' (bindings.filter (·.key ≠ key)) := by
  have len := rep.len
  rw [remove]
  split
  · next empty =>
    have none : bindings = [] := List.eq_nil_of_length_eq_zero (len.symm.trans empty)
    subst none
    exact ⟨array, rfl, rep⟩
  rcases find_cases rep key with ⟨i, node, found, here, rfl⟩ | ⟨p, found, _, _, _, missing⟩
  · obtain ⟨bound, value⟩ := List.getElem?_eq_some_iff.mp here
    obtain ⟨nodes, shifted, length, holds⟩ := rep.nodes.erase bound
    rw [← len] at shifted
    have erased := (remove_found rep.ascending here).symm
    simp only [found, Option.bind_eq_bind, Option.bind_some, rep.load here, Int.toNat_natCast,
      if_neg (show ¬((i : Int) < 0) by omega), lookup_found rep.ascending here, Option.pure_def,
      intFrom_eq (show i < 2 ^ 31 by omega) (show array.len - 1 < 2 ^ 31 by omega), shifted]
    refine ⟨_, rfl, ⟨length.trans rep.allocated, rep.growable, ?_, erased ▸ holds, ?_⟩⟩
    · rw [← erased, List.length_eraseIdx, if_pos bound, ← len]
    · exact rep.ascending.sublist List.filter_sublist
  · have kept : bindings.filter (·.key ≠ key) = bindings := by
      refine List.filter_eq_self.mpr fun node member => decide_eq_true ?_
      rintro rfl
      exact missing (List.mem_map_of_mem member)
    rw [kept]
    simp only [found, Option.bind_eq_bind, Option.bind_some,
      if_pos (show -(p : Int) - 1 < 0 by omega), lookup_missing missing, Option.pure_def]
    exact ⟨array, rfl, rep⟩

theorem removeLast_spec (rep : Represents array bindings) : ∃ array',
    array.removeLast = some (array', bindings.getLast?) ∧ Represents array' bindings.dropLast := by
  have len := rep.len
  rw [removeLast]
  split
  · next empty =>
    have none : bindings = [] := List.eq_nil_of_length_eq_zero (len.symm.trans empty)
    subst none
    exact ⟨array, rfl, rep⟩
  · next nonempty =>
    have here := List.getElem?_eq_getElem (show array.len - 1 < bindings.length by omega)
    have last : bindings.getLast? = bindings[array.len - 1]? := by
      rw [List.getLast?_eq_getElem?, len]
    rw [here] at last
    simp only [rep.load here, Option.bind_eq_bind, Option.bind_some, Option.pure_def, last]
    refine ⟨_, rfl, ⟨rep.allocated, rep.growable, ?_, ?_, ?_⟩⟩
    · rw [List.length_dropLast, len]
    · rw [List.dropLast_eq_take]
      exact rep.nodes.take _
    · exact rep.ascending.sublist (List.dropLast_sublist _)

/-- The passing loop stops at the first key above the bound. -/
theorem passBefore_spec (rep : Represents array bindings) (key : Int) {rounds i : Nat}
    (inside : i ≤ array.len) (enough : array.len ≤ i + rounds) : ∃ last,
      array.passBefore key rounds i = some (last, (bindings.take last).drop i) ∧ i ≤ last ∧
      last ≤ array.len ∧ (∀ (j : Nat) a, bindings[j]? = some a → i ≤ j → j < last → a.key ≤ key) ∧
      ∀ a, bindings[last]? = some a → key < a.key := by
  have len := rep.len
  have stop {i : Nat} (inside : i ≤ array.len) (above : ∀ a, bindings[i]? = some a → key < a.key) :
      ∃ last, some (i, []) = some (last, (bindings.take last).drop i) ∧ i ≤ last ∧ last ≤ array.len ∧
        (∀ (j : Nat) a, bindings[j]? = some a → i ≤ j → j < last → a.key ≤ key) ∧
        ∀ a, bindings[last]? = some a → key < a.key := by
    refine ⟨i, ?_, Nat.le_refl i, inside, fun j a _ low high => absurd high (by omega), above⟩
    rw [List.drop_eq_nil_of_le (List.length_take_le i bindings)]
  have ended {i : Nat} (full : ¬i < array.len) (a : SparseNode V) (at_i : bindings[i]? = some a) :
      key < a.key := by
    obtain ⟨bound, _⟩ := List.getElem?_eq_some_iff.mp at_i
    omega
  induction rounds generalizing i with
  | zero =>
    have full : ¬i < array.len := by omega
    rw [passBefore, if_neg full]
    exact stop inside (ended full)
  | succ rounds ih =>
    rw [passBefore]
    by_cases more : i < array.len
    · have bound : i < bindings.length := by omega
      have here := List.getElem?_eq_getElem bound
      rw [if_pos more, rep.load here]
      simp only [Option.bind_eq_bind, Option.bind_some, Option.pure_def]
      by_cases above : bindings[i].key > key
      · rw [if_pos above]
        refine stop inside fun a at_i => ?_
        cases here.symm.trans at_i
        exact above
      · obtain ⟨last, passed, low, high, below, beyond⟩ := ih (i := i + 1) (by omega) (by omega)
        rw [if_neg above, passed]
        refine ⟨last, ?_, by omega, high, fun j a at_j from_i before => ?_, beyond⟩
        · have first : i < (bindings.take last).length := by
            rw [List.length_take]
            omega
          rw [List.drop_eq_getElem_cons first, List.getElem_take]
          rfl
        · rcases Nat.lt_or_eq_of_le from_i with later | rfl
          · exact below j a at_j later before
          · cases here.symm.trans at_j
            omega
    · rw [if_neg more]
      exact stop inside (ended more)

theorem removeBeforeKey_spec (rep : Represents array bindings) (few : array.len < 2 ^ 31) (key : Int)
    (cb : Bool) : ∃ array', array.removeBeforeKey key cb = some (array',
        (bindings.filter (·.key ≤ key)).length, if cb then bindings.filter (·.key ≤ key) else []) ∧
      Represents array' (bindings.filter (key < ·.key)) := by
  have len := rep.len
  rw [removeBeforeKey]
  split
  · next empty =>
    have none : bindings = [] := List.eq_nil_of_length_eq_zero (len.symm.trans empty)
    subst none
    exact ⟨array, by cases cb <;> rfl, rep⟩
  have enough : array.len ≤ 0 + array.len := by omega
  obtain ⟨last, passed, _, high, below, beyond⟩ := passBefore_spec rep key (Nat.zero_le _) enough
  have above : ∀ (j : Nat) a, bindings[j]? = some a → last ≤ j → key < a.key := by
    intro j a at_j after
    obtain ⟨bound, _⟩ := List.getElem?_eq_some_iff.mp at_j
    have at_last := List.getElem?_eq_getElem (show last < bindings.length by omega)
    rcases Nat.lt_or_eq_of_le after with later | rfl
    · exact Int.lt_trans (beyond _ at_last) (rep.ascending.lt at_last at_j later)
    · exact beyond a at_j
  have before : bindings.filter (·.key ≤ key) = bindings.take last := by
    apply Search.filter_eq_take
    · exact fun j a at_j lt => decide_eq_true (below j a at_j (Nat.zero_le j) lt)
    · intro j a at_j after
      have := above j a at_j after
      simp only [decide_eq_false_iff_not]
      omega
  have rest : bindings.filter (key < ·.key) = bindings.drop last := by
    apply Search.filter_eq_drop
    · intro j a at_j lt
      have := below j a at_j (Nat.zero_le j) lt
      simp only [decide_eq_false_iff_not]
      omega
    · exact fun j a at_j after => decide_eq_true (above j a at_j after)
  obtain ⟨nodes, shifted, length, holds⟩ := rep.nodes.drop (n := last) (by omega)
  rw [← len] at shifted
  rw [List.drop_zero] at passed
  have count : (bindings.take last).length = last := by
    rw [List.length_take]
    omega
  simp only [passed, Option.bind_eq_bind, Option.bind_some, Option.pure_def,
    intFrom_eq (show last < 2 ^ 31 by omega) few, Nat.sub_self, shifted, before, count]
  refine ⟨_, rfl, ⟨length.trans rep.allocated, rep.growable, ?_, rest ▸ holds, ?_⟩⟩
  · rw [rest, List.length_drop, ← len]
  · exact rep.ascending.sublist List.filter_sublist

theorem clearLoop_spec (rep : Represents array bindings) {rounds i : Nat}
    (enough : array.len ≤ i + rounds) :
    array.clearLoop rounds i = some ((bindings.drop i).filterMap SparseNode.value) := by
  have len := rep.len
  induction rounds generalizing i with
  | zero =>
    rw [clearLoop, if_neg (by omega), List.drop_eq_nil_of_le (by omega)]
    rfl
  | succ rounds ih =>
    rw [clearLoop]
    by_cases more : i < array.len
    · have bound : i < bindings.length := by omega
      rw [if_pos more, rep.load (List.getElem?_eq_getElem bound), ih (by omega),
        List.drop_eq_getElem_cons bound, List.filterMap_cons]
      simp only [Option.bind_eq_bind, Option.bind_some, Option.pure_def]
      cases bindings[i].value <;> rfl
    · rw [if_neg more, List.drop_eq_nil_of_le (by omega)]
      rfl

theorem clear_spec (rep : Represents array bindings) (few : array.len < 2 ^ 31) (cb : Bool) : ∃ array',
    array.clear cb = some (array', if cb then bindings.filterMap SparseNode.value else []) ∧
      Represents array' [] := by
  have emptied : Represents { array with len := 0 } ([] : Bindings V) :=
    ⟨rep.allocated, rep.growable, rfl, holds_nil _, List.Pairwise.nil⟩
  cases cb with
  | false => exact ⟨_, rfl, emptied⟩
  | true =>
    refine ⟨_, ?_, emptied⟩
    simp only [clear, if_true, intFrom_eq (show 0 < 2 ^ 31 by decide) few, Option.bind_eq_bind,
      Option.bind_some, clearLoop_spec rep (Nat.le_add_left array.len 0), List.drop_zero, Option.pure_def]

theorem step_simulates (rep : Represents array bindings) (few : array.len < 2 ^ 31) (op : SparseOp V) :
    ∃ next, array.step op = some (next, (Bindings.step bindings op).2) ∧
      Represents next (Bindings.step bindings op).1 := by
  cases op with
  | put key v =>
    obtain ⟨next, done, rep'⟩ := put_spec rep key v
    exact ⟨next, by rw [step, done]; rfl, rep'⟩
  | get key => exact ⟨array, by rw [step, get_spec rep]; rfl, rep⟩
  | getByIndex index => exact ⟨array, by rw [step, getByIndex_spec rep]; rfl, rep⟩
  | remove key =>
    obtain ⟨next, done, rep'⟩ := remove_spec rep few key
    exact ⟨next, by rw [step, done]; rfl, rep'⟩
  | removeLast =>
    obtain ⟨next, done, rep'⟩ := removeLast_spec rep
    exact ⟨next, by rw [step, done]; rfl, rep'⟩
  | removeBeforeKey key cb =>
    obtain ⟨next, done, rep'⟩ := removeBeforeKey_spec rep few key cb
    exact ⟨next, by rw [step, done]; rfl, rep'⟩
  | clear cb =>
    obtain ⟨next, done, rep'⟩ := clear_spec rep few cb
    exact ⟨next, by rw [step, done]; rfl, rep'⟩
  | length => exact ⟨array, by rw [step, rep.len]; rfl, rep⟩

/-- Any calls on fewer than 2^31 entries are defined, so every index is inside
the block; they return what the ordered map returns and leave its bindings in
the first `len` slots. -/
theorem run_is_ordered_map {ops : List (SparseOp V)}
    (few : Run.Along step (fun array _ => array.len < 2 ^ 31) new ops) : ∃ last,
      Run.run step new ops = some (last, (Run.track Bindings.step [] ops).2) ∧
      Represents last (Run.track Bindings.step [] ops).1 ∧ last.len ≤ last.cap := by
  have simulates {array : CSparseArray V} {bindings : Bindings V} {op : SparseOp V}
      (rep : Represents array bindings) (few : array.len < 2 ^ 31) := step_simulates rep few op
  obtain ⟨last, path, rep⟩ :=
    Run.run_simulates_total Represents Bindings.step simulates new_represents few
  exact ⟨last, path, rep, rep.len_le_cap⟩

/-- Descending and repeated keys, a prefix removal and the queries. -/
def mixedCalls : List (SparseOp Nat) :=
  [.put 3 (some 30), .put (-1) (some 10), .put 2 none, .put 3 (some 31), .get 3, .getByIndex 0,
    .removeBeforeKey 2 true, .remove 5, .removeLast, .length]

theorem mixed_calls_ordered : ∃ last : CSparseArray Nat, Run.run step new mixedCalls =
    some (last, [.pointer none, .pointer none, .pointer none, .pointer (some 30), .pointer (some 31),
      .node (some ⟨-1, some 10⟩), .removed 2 [⟨-1, some 10⟩, ⟨2, none⟩], .pointer none,
      .node (some ⟨3, some 31⟩), .length 0]) ∧ Represents last [] ∧ last.len ≤ last.cap := by
  have few : Run.Along step (fun array _ => array.len < 2 ^ 31) (new : CSparseArray Nat) mixedCalls := by
    decide +kernel
  exact run_is_ordered_map few

end CSparseArray

end Devent
