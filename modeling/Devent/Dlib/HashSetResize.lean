import Devent.Dlib.HashSetScan

/-! When `resize` of `CHashSet` is right: the memory that it is given, the buckets that it finds. -/
namespace Devent.CHashSet
open Links ChainTable Buckets

variable {set set' : CHashSet} {rows old : List Row} {row first rest : Row} {rounds addRounds i : Nat}
  {n a b : Addr} {u v : Node} {head preNode : Option Addr} {cells : List Addr} {fresh : Nat → Byte}

/-- The set as the scan finds it. -/
def grown (set : CHashSet) (fresh : Nat → Byte) : CHashSet :=
  { set with cap := set.cap <<< 2, data := set.data ++ added set.cap fresh }

/-- The bytes that bzero does not reach. -/
def Cleared (cap : Nat) (fresh : Nat → Byte) : Prop := ∀ k, 3 * cap ≤ k → k < 24 * cap → fresh k = 0

theorem foldr_word_eq_zero (bytes : Nat → Byte) (offsets : List Nat) :
    offsets.foldr (fun j word => (bytes j).toNat + 256 * word) 0 = 0 ↔ ∀ j ∈ offsets, bytes j = 0 := by
  induction offsets with
  | nil => simp
  | cons j rest ih =>
    have zero : (bytes j).toNat = 0 ↔ bytes j = 0 := UInt8.toNat_inj (b := 0)
    rw [List.foldr_cons, List.forall_mem_cons, ← ih, ← zero]
    omega

theorem pointer_eq_none_iff (bytes : Nat → Byte) (offset : Nat) :
    pointer bytes offset = none ↔ ∀ j < 8, bytes (offset + j) = 0 := by
  have word := foldr_word_eq_zero (fun j => bytes (offset + j)) (List.range 8)
  simp only [List.mem_range] at word
  rw [← word, pointer]
  split
  · next zero => exact iff_of_true rfl zero
  · next present => exact iff_of_false (Option.some_ne_none _) present

theorem length_added (cap : Nat) (fresh : Nat → Byte) : (added cap fresh).length = 3 * cap := by
  rw [added, List.length_map, List.length_range]

theorem added_none_iff (cap : Nat) (fresh : Nat → Byte) : (∀ p ∈ added cap fresh, p = none) ↔ Cleared cap fresh := by
  simp only [added, List.forall_mem_map, List.mem_range, pointer_eq_none_iff]
  constructor
  · intro empty k low high
    have here := empty (k / 8) (by omega) (k % 8) (by omega)
    rwa [Nat.div_add_mod, if_neg (by omega)] at here
  · intro cleared j bound i small
    split
    · rfl
    · next behind => exact cleared _ (by omega) (by omega)

theorem added_eq (cleared : Cleared set.cap fresh) : added set.cap fresh = List.replicate (3 * set.cap) none :=
  List.eq_replicate_iff.mpr ⟨length_added .., (added_none_iff ..).mpr cleared⟩

/-- Before the scan the heads too many are those realloc has left. -/
theorem grown_excess (linked : Linked set.nodes set.data rows) (fresh : Nat → Byte) :
    (set.grown fresh).excess (addresses rows.flatten) = (added set.cap fresh).countP Option.isSome := by
  have balanced : ChainTable.excess set.data set.nodes (addresses rows.flatten) = 0 :=
    linked.excess_eq (List.Perm.refl _)
  rw [ChainTable.excess] at balanced
  simp only [excess, grown, ChainTable.excess, List.countP_append]
  omega

theorem grown_pow (pow : ∃ k, set.cap = 2 ^ k) (fresh : Nat → Byte) : ∃ k, (set.grown fresh).cap = 2 ^ k := by
  obtain ⟨k, pow⟩ := pow
  refine ⟨k + 2, ?_⟩
  rw [grown, pow, Nat.shiftLeft_eq, Nat.pow_add]

theorem dataIndex_lt (pow : ∃ k, set.cap = 2 ^ k) (key : CString) : set.dataIndex key < set.cap := by
  obtain ⟨k, pow⟩ := pow
  rw [dataIndex, pow, Nat.and_two_pow_sub_one_eq_mod]
  exact Nat.mod_lt _ (Nat.two_pow_pos k)

/-- The old bucket of a string is its new one, but for the new bits of the index. -/
theorem grown_index (pow : ∃ k, set.cap = 2 ^ k) (fresh : Nat → Byte) (key : CString) :
    (set.grown fresh).dataIndex key % set.cap = set.dataIndex key := by
  obtain ⟨k, pow⟩ := pow
  have hash : (set.grown fresh).hashOf key = set.hashOf key := rfl
  have wide : (set.grown fresh).cap = 2 ^ (k + 2) := by rw [grown, pow, Nat.shiftLeft_eq, Nat.pow_add]
  rw [dataIndex, dataIndex, wide, hash, pow, Nat.and_two_pow_sub_one_eq_mod, Nat.and_two_pow_sub_one_eq_mod,
    Nat.mod_mod_of_dvd _ (pow_dvd_pow 2 (Nat.le_add_right k 2))]

theorem grown_spreads (stores : Stores set rows) (fresh : Nat → Byte) : Spreads (set.grown fresh) rows := by
  intro r row here item member
  have home := stores.placed r row here item member
  have index := grown_index stores.capacity fresh item.2.key
  have length := stores.length
  rw [stores.buckets] at length
  obtain near | far := Nat.lt_or_ge ((set.grown fresh).dataIndex item.2.key) set.cap
  · rw [Nat.mod_eq_of_lt near] at index
    exact .inl (index.trans home)
  · exact .inr (length ▸ far)

/-- The scan begins with empty new buckets. -/
theorem grown_scanned (stores : Stores set rows) (cleared : Cleared set.cap fresh) :
    Scanned (set.grown fresh) rows 0 (rows ++ List.replicate (3 * set.cap) []) := by
  have length := stores.length
  rw [stores.buckets] at length
  have same : (rows ++ List.replicate (3 * set.cap) []).flatten = rows.flatten := by simp
  refine ⟨?_, ?_, fun {r row} here => ?_, fun {r row} new here item member => ?_, ?_⟩
  · rw [grown, added_eq cleared]
    exact stores.linked.widen _
  · show _ = set.cap <<< 2
    rw [List.length_append, List.length_replicate, Nat.shiftLeft_eq]
    omega
  · rw [if_neg (Nat.not_lt_zero r), List.getElem?_append_left (List.getElem?_eq_some_iff.mp here).1]
    exact here
  · rw [List.getElem?_append_right new] at here
    obtain ⟨-, rfl⟩ := List.mem_replicate.mp (List.mem_of_getElem? here)
    cases member
  · rw [strings, same]
    exact List.Perm.refl _

/-- The fourfold table holds the same strings, each once and in its bucket, unmarked; its other
buckets are NULL, and the scan has come to no node more than twice. -/
def Resized (set set' : CHashSet) (rows : List Row) (visits : List Addr) : Prop :=
  set'.cap = 4 * set.cap ∧ (∀ a, visits.count a ≤ 2) ∧ ∃ rows', Stores set' rows' ∧
    (strings rows').Perm (strings rows) ∧ (∀ item ∈ rows'.flatten, item.2.moved = false) ∧ ∀ j : Nat, rows'[j]? = some [] → set'.data[j]? = some none

/-- The new memory is zero already where bzero does not reach, every bucket is fine, and a node with
a mark is in its new bucket. -/
def Clean (set : CHashSet) (rows : List Row) (fresh : Nat → Byte) : Prop :=
  Cleared set.cap fresh ∧ ∀ (r : Nat) row, rows[r]? = some row → (set.grown fresh).Fine r false row ∧
    ∀ item ∈ row, item.2.moved = true → (set.grown fresh).dataIndex item.2.key = r

/-- What the scan ends with. -/
theorem Scanned.stores (stores : Stores set rows) {rows' : List Row} {data : List (Option Addr)} {nodes : Nodes}
    (scanned : Scanned { set.grown fresh with data, nodes } rows (set.grown fresh).cap rows')
    (marks : ∀ (r : Nat) row, rows[r]? = some row → ∀ item ∈ row, item.2.moved = true →
      (set.grown fresh).dataIndex item.2.key = r) :
    Stores { set.grown fresh with data, nodes } rows' ∧ (∀ item ∈ rows'.flatten, item.2.moved = false) ∧
      ∀ j : Nat, rows'[j]? = some [] → data[j]? = some none := by
  have length := stores.length
  rw [stores.buckets] at length
  have wide : (set.grown fresh).cap = 4 * set.cap := by
    show set.cap <<< 2 = _
    rw [Nat.shiftLeft_eq]
    omega
  have each : ∀ (r : Nat) row, rows'[r]? = some row → ∀ item ∈ row,
      (set.grown fresh).dataIndex item.2.key = r ∧ item.2.moved = false := by
    intro r row here item member
    have inside := (List.getElem?_eq_some_iff.mp here).1
    rw [scanned.length] at inside
    obtain old | new := Nat.lt_or_ge r rows.length
    · have source := List.getElem?_eq_getElem old
      have kept := scanned.front source
      rw [here, if_pos (show r < (set.grown fresh).cap by omega)] at kept
      obtain rfl := Option.some.inj kept
      obtain ⟨origin, chosen, rfl⟩ := List.mem_map.mp member
      obtain ⟨inRow, stays⟩ := List.mem_filter.mp chosen
      refine ⟨?_, rfl⟩
      by_cases marked : origin.2.moved = true
      · exact marks r _ source origin inRow marked
      · simp only [moves, marked, Bool.not_false, Bool.true_and, Bool.not_eq_true', decide_eq_false_iff_not,
          Decidable.not_not] at stays
        exact stays
    · obtain ⟨home, mark⟩ := scanned.behind new here item member
      refine ⟨home, Bool.eq_false_iff.mpr fun marked => ?_⟩
      exact absurd (mark.mp marked) (Nat.not_le.mpr inside)
  refine ⟨⟨grown_pow stores.capacity fresh, scanned.linked.length.trans scanned.length, scanned.linked.length,
    scanned.linked.chain, fun r row here item member => (each r row here item member).1,
    scanned.strings.nodup_iff.mpr stores.distinct, ?_⟩, fun item member => ?_, fun j empty => ?_⟩
  · exact stores.counted.trans scanned.strings.length_eq.symm
  · obtain ⟨row, listed, inRow⟩ := List.mem_flatten.mp member
    obtain ⟨r, here⟩ := List.mem_iff_getElem?.mp listed
    exact (each r row here item inRow).2
  · obtain ⟨p, at_head, chain⟩ := scanned.linked.head empty
    obtain rfl : p = none := chain
    exact at_head

/-- The scan of fine buckets, and how often it visits a node. -/
theorem resize_run {len : Nat} (stores : Stores set rows) (grows : set.roomy len = false)
    (cleared : Cleared set.cap fresh) (fine : ∀ (r : Nat) row, rows[r]? = some row → (set.grown fresh).Fine r false row)
    (enough : (strings rows).length ≤ rounds) : ∃ data nodes visits rows',
    set.resize rounds len fresh = some ({ set.grown fresh with data, nodes }, visits) ∧ (∀ a, visits.count a ≤ 2) ∧
      Scanned { set.grown fresh with data, nodes } rows (set.grown fresh).cap rows' := by
  have length := stores.length
  rw [stores.buckets] at length
  have wide : (set.grown fresh).cap = set.cap + 3 * set.cap := by
    show set.cap <<< 2 = _
    rw [Nat.shiftLeft_eq]
    omega
  have scanned := grown_scanned stores cleared
  have inside := dataIndex_lt (grown_pow stores.capacity fresh)
  obtain ⟨data, nodes, middle, front, scanned'⟩ := scanned.front_run (grown_spreads stores fresh) stores.distinct
    enough inside set.cap (by omega) fun r row _ _ here => fine r row here
  rw [Nat.zero_add] at scanned'
  have short : set.cap + 3 * set.cap ≤ middle.length := by
    rw [scanned'.length]
    exact Nat.le_of_eq wide.symm
  obtain ⟨data', nodes', rows', behind, scanned''⟩ := scanned'.behind_run stores.distinct enough inside
    (by omega) (3 * set.cap) short
  have whole := resizeBuckets_append front behind (Nat.zero_add set.cap).symm
  rw [← wide] at whole scanned''
  have visited : ∀ a, (addresses ((rows.drop 0).take set.cap).flatten ++
      addresses ((middle.drop set.cap).take (3 * set.cap)).flatten).count a ≤ 2 := by
    intro a
    have once : ((rows.drop 0).take set.cap).flatten = rows.flatten := by
      rw [List.drop_zero, List.take_of_length_le (by omega)]
    have part : ((middle.drop set.cap).take (3 * set.cap)).flatten.Sublist middle.flatten :=
      ((List.take_sublist _ _).trans (List.drop_sublist _ _)).flatten
    have first := List.nodup_iff_count_le_one.mp stores.linked.apart a
    have second := List.nodup_iff_count_le_one.mp (scanned'.linked.apart.sublist (part.map Prod.fst)) a
    rw [List.count_append, once]
    simp only [addresses] at first second ⊢
    omega
  have ended : set.resize rounds len fresh = (set.grown fresh).resizeBuckets rounds (set.grown fresh).cap 0 := by
    rw [resize, grows]
    rfl
  exact ⟨data', nodes', _, rows', ended.trans whole, visited, scanned''⟩

/-- In a set that owns as many nodes as it has strings, every head has its last node. -/
theorem excess_stores {rows' : List Row} (stores' : Stores set' rows') (within : Within set' (addresses rows.flatten))
    (strings' : (strings rows').Perm (strings rows)) : set'.excess (addresses rows.flatten) = 0 := by
  refine stores'.linked.excess_eq ?_
  have inside : addresses rows'.flatten ⊆ addresses rows.flatten := by
    intro a member
    obtain ⟨j, row, here, inRow⟩ := exists_row member
    obtain ⟨p, at_head, chain⟩ := stores'.linked.head here
    exact within a (chain.live inRow)
  have fewer : (addresses rows.flatten).length ≤ (addresses rows'.flatten).length := by
    have counted := strings'.length_eq
    simp only [strings, addresses, List.length_map] at counted ⊢
    exact Nat.le_of_eq counted.symm
  exact ((List.subperm_of_subset stores'.linked.apart inside).perm_of_length_le fewer).symm

/-- Where the balance of heads and last nodes is kept, the memory was cleared and the buckets fine. -/
theorem fine_of_resized {len : Nat} {visits : List Addr} {rows' : List Row} (stores : Stores set rows)
    (grows : set.roomy len = false) (own : Within set (addresses rows.flatten))
    (ended : set.resize rounds len fresh = some (set', visits)) (enough : (strings rows).length ≤ rounds)
    (stores' : Stores set' rows') (strings' : (strings rows').Perm (strings rows)) :
    Cleared set.cap fresh ∧ ∀ (r : Nat) row, rows[r]? = some row → (set.grown fresh).Fine r false row := by
  have nodup := stores.linked.apart
  have own' : Within (set.grown fresh) (addresses rows.flatten) := own
  have scan : (set.grown fresh).resizeBuckets rounds (set.grown fresh).cap 0 = some (set', visits) := by
    rw [resize, grows] at ended
    exact ended
  obtain ⟨within', rises⟩ := resizeBuckets_excess nodup own' scan
  have balance := excess_stores stores' within' strings'
  have start := grown_excess stores.linked fresh
  have cleared : Cleared set.cap fresh := by
    refine (added_none_iff ..).mp fun p member => ?_
    by_contra present
    have positive : 0 < (added set.cap fresh).countP Option.isSome :=
      List.countP_pos_iff.mpr ⟨p, member, Option.isSome_iff_ne_none.mpr present⟩
    omega
  refine ⟨cleared, fun r row here => ?_⟩
  have bound := (List.getElem?_eq_some_iff.mp here).1
  have length := stores.length
  rw [stores.buckets] at length
  have wide : (set.grown fresh).cap = 4 * set.cap := by
    show set.cap <<< 2 = _
    rw [Nat.shiftLeft_eq]
    omega
  exact (grown_scanned stores cleared).fine_of_balance (grown_spreads stores fresh) stores.distinct enough
    (dataIndex_lt (grown_pow stores.capacity fresh)) (grown_pow stores.capacity fresh) nodup own' scan (by omega) here
    (Nat.zero_le r) (by omega)

theorem clean_of_resized {len : Nat} {visits : List Addr} (stores : Stores set rows) (grows : set.roomy len = false)
    (own : Within set (addresses rows.flatten)) (ended : set.resize rounds len fresh = some (set', visits))
    (resized : Resized set set' rows visits) : Clean set rows fresh := by
  obtain ⟨wide, -, rows', stores', strings', unmarked, empty⟩ := resized
  have more : set.resize (max rounds (strings rows).length) len fresh = some (set', visits) := by
    rw [resize, grows] at ended ⊢
    exact resizeBuckets_mono (Nat.le_max_left ..) ended
  obtain ⟨cleared, fine⟩ := fine_of_resized stores grows own more (Nat.le_max_right ..) stores' strings'
  obtain ⟨data, nodes, visits', last, ended', -, scanned⟩ := resize_run stores grows cleared fine (Nat.le_max_right ..)
  cases more.symm.trans ended'
  obtain rfl : last = rows' := scanned.linked.unique stores'.linked
  refine ⟨cleared, fun r row here => ⟨fine r row here, fun item member marked => ?_⟩⟩
  have bound := (List.getElem?_eq_some_iff.mp here).1
  have length := stores.length
  rw [stores.buckets] at length
  have wide : (set.grown fresh).cap = 4 * set.cap := wide
  have kept := scanned.front here
  rw [if_pos (show r < (set.grown fresh).cap by omega)] at kept
  refine stores'.placed r _ kept (item.1, { item.2 with moved := false }) ?_
  refine List.mem_map.mpr ⟨item, List.mem_filter.mpr ⟨member, ?_⟩, rfl⟩
  rw [moves, marked]
  rfl

theorem resized_of_clean {len : Nat} (stores : Stores set rows) (grows : set.roomy len = false)
    (clean : Clean set rows fresh) :
    ∃ rounds set' visits, set.resize rounds len fresh = some (set', visits) ∧ Resized set set' rows visits := by
  obtain ⟨cleared, buckets⟩ := clean
  obtain ⟨data, nodes, visits, rows', ended, visited, scanned⟩ := resize_run stores grows cleared
    (fun r row here => (buckets r row here).1) (Nat.le_refl _)
  obtain ⟨stores', unmarked, empty⟩ := Scanned.stores stores scanned fun r row here => (buckets r row here).2
  refine ⟨_, _, visits, ended, ?_, visited, rows', stores', scanned.strings, unmarked, empty⟩
  show set.cap <<< 2 = 4 * set.cap
  rw [Nat.shiftLeft_eq]
  omega

/-- In any set that has to grow and in any memory, the fourfold table is right exactly if the memory
was zero, no node moves behind one that has moved, no bucket index is cut, and no mark was wrong. -/
theorem resize_iff {len : Nat} (stores : Stores set rows) (grows : set.roomy len = false)
    (own : Within set (addresses rows.flatten)) :
    (∃ rounds set' visits, set.resize rounds len fresh = some (set', visits) ∧ Resized set set' rows visits) ↔
      Clean set rows fresh :=
  ⟨fun ⟨_, _, _, ended, resized⟩ => clean_of_resized stores grows own ended resized, resized_of_clean stores grows⟩

/-- "a" to "e", which all have the hash 0, at the addresses 1 to 5. -/
def fiveLetters : CHashSet where
  cap := 8
  len := 5
  data := some 1 :: List.replicate 7 none
  hash := none
  nodes
    | 1 => some ⟨⟨.ofBytes [97], false⟩, some 2⟩
    | 2 => some ⟨⟨.ofBytes [98], false⟩, some 3⟩
    | 3 => some ⟨⟨.ofBytes [99], false⟩, some 4⟩
    | 4 => some ⟨⟨.ofBytes [100], false⟩, some 5⟩
    | 5 => some ⟨⟨.ofBytes [101], false⟩, none⟩
    | _ => none

def fiveLettersRow : Row := [(1, ⟨.ofBytes [97], false⟩), (2, ⟨.ofBytes [98], false⟩),
  (3, ⟨.ofBytes [99], false⟩), (4, ⟨.ofBytes [100], false⟩), (5, ⟨.ofBytes [101], false⟩)]

theorem fiveLetters_stores : Stores fiveLetters (fiveLettersRow :: List.replicate 7 []) where
  capacity := ⟨3, rfl⟩
  buckets := rfl
  length := rfl
  chain := by
    intro j p row at_head here
    cases j with
    | zero =>
      cases at_head
      cases here
      exact ⟨rfl, _, rfl, rfl, _, rfl, rfl, _, rfl, rfl, _, rfl, rfl, _, rfl, rfl⟩
    | succ j =>
      obtain ⟨-, rfl⟩ := List.mem_replicate.mp (List.mem_of_getElem? at_head)
      obtain ⟨-, rfl⟩ := List.mem_replicate.mp (List.mem_of_getElem? here)
      rfl
  placed := by
    intro j row here item member
    cases j with
    | zero =>
      cases here
      have all : ∀ item ∈ fiveLettersRow, fiveLetters.dataIndex item.2.key = 0 := by decide +kernel
      exact all item member
    | succ j =>
      obtain ⟨-, rfl⟩ := List.mem_replicate.mp (List.mem_of_getElem? here)
      cases member
  distinct := by decide
  counted := rfl

theorem fiveLetters_own : Within fiveLetters (addresses (fiveLettersRow :: List.replicate 7 []).flatten) := by
  intro a live
  have inside : a ∈ [1, 2, 3, 4, 5] := by
    unfold fiveLetters at live
    simp only at live
    split at live
    all_goals first | decide | exact absurd rfl live
  exact inside

theorem five_letters_in_zeros :
    (∃ rounds set' visits, fiveLetters.resize rounds 6 (fun _ => 0) = some (set', visits) ∧
        Resized fiveLetters set' (fiveLettersRow :: List.replicate 7 []) visits) ↔
      Clean fiveLetters (fiveLettersRow :: List.replicate 7 []) fun _ => 0 :=
  resize_iff fiveLetters_stores (by decide +kernel) fiveLetters_own

/-- In memory that is not zero. -/
theorem five_letters_in_garbage : ¬∃ rounds set' visits,
    fiveLetters.resize rounds 6 (fun _ => 1) = some (set', visits) ∧
      Resized fiveLetters set' (fiveLettersRow :: List.replicate 7 []) visits := by
  rintro ⟨rounds, set', visits, ended, resized⟩
  obtain ⟨cleared, -⟩ := clean_of_resized fiveLetters_stores (by decide +kernel) fiveLetters_own ended resized
  exact absurd (cleared 24 (by decide) (by decide)) (by decide)

end Devent.CHashSet
