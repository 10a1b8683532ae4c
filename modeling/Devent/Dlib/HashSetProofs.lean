import Devent.Dlib.HashSet
import Devent.Library.ChainTable

/-! `CHashSet` against sets of strings. Adding compares a string with all nodes of its chain but
the last one, which it is then put behind. -/
namespace Devent.CHashSet
open Links ChainTable Buckets

abbrev Row := List (Addr × Node)

def keys (row : Row) : List CString := row.map fun item => item.2.key

def strings (rows : List Row) : List CString := rows.flatten.map fun item => item.2.key

/-- The chains hold distinct strings, each in its bucket. -/
structure Stores (set : CHashSet) (rows : List Row) : Prop where
  capacity : ∃ k, set.cap = 2 ^ k
  buckets : set.data.length = set.cap
  length : set.data.length = rows.length
  chain : ∀ {j : Nat} {p row}, set.data[j]? = some p → rows[j]? = some row → Chain set.nodes p row
  placed : AtHome (fun item : Addr × Node => item.2.key) set.dataIndex rows
  distinct : (strings rows).Nodup
  counted : set.len = (strings rows).length

variable {set : CHashSet} {rows : List Row} {row first rest : Row} {key : CString} {rounds j : Nat} {n a b : Addr}
  {u v : Node}

theorem Stores.linked (stores : Stores set rows) : Linked set.nodes set.data rows :=
  linked_of_keys Node.key stores.length stores.chain stores.distinct

theorem Stores.bucket_lt (stores : Stores set rows) (key : CString) : set.dataIndex key < rows.length := by
  obtain ⟨k, pow⟩ := stores.capacity
  rw [← stores.length, stores.buckets, dataIndex, pow, Nat.and_two_pow_sub_one_eq_mod]
  exact Nat.mod_lt _ (Nat.two_pow_pos k)

theorem Stores.bucket (stores : Stores set rows) (key : CString) :
    ∃ row p, rows[set.dataIndex key]? = some row ∧ set.data[set.dataIndex key]? = some p ∧ Chain set.nodes p row := by
  have here := List.getElem?_eq_getElem (stores.bucket_lt key)
  obtain ⟨p, at_head, chain⟩ := stores.linked.head here
  exact ⟨_, p, here, at_head, chain⟩

@[simp] theorem mem_keys : key ∈ keys row ↔ ∃ item ∈ row, item.2.key = key := List.mem_map

@[simp] theorem mem_strings : key ∈ strings rows ↔ ∃ item ∈ rows.flatten, item.2.key = key := List.mem_map

/-- A string is looked for in one chain. -/
theorem Stores.home (stores : Stores set rows) (here : rows[set.dataIndex key]? = some row) :
    key ∈ strings rows ↔ key ∈ keys row := by
  rw [mem_strings, mem_keys]
  constructor
  · rintro ⟨item, member, rfl⟩
    obtain ⟨row', listed, inside⟩ := List.mem_flatten.mp member
    obtain ⟨i, at_i⟩ := List.mem_iff_getElem?.mp listed
    obtain rfl := stores.placed i row' at_i item inside
    cases here.symm.trans at_i
    exact ⟨item, inside, rfl⟩
  · rintro ⟨item, inside, rfl⟩
    exact ⟨item, List.mem_flatten.mpr ⟨row, List.mem_of_getElem? here, inside⟩, rfl⟩

theorem row_length_le (here : rows[j]? = some row) : row.length ≤ (strings rows).length := by
  rw [strings, List.length_map]
  exact (List.sublist_flatten_of_mem (List.mem_of_getElem? here)).length_le

theorem containsFrom_spec {p : Option Addr} (chain : Chain set.nodes p row) (enough : row.length ≤ rounds) :
    set.containsFrom key rounds p = some (decide (key ∈ keys row)) := by
  induction row generalizing p rounds with
  | nil =>
    obtain rfl : p = none := chain
    simp [containsFrom, keys]
  | cons item rest ih =>
    obtain ⟨a, v⟩ := item
    obtain ⟨rfl, next, cell, behind⟩ := chain
    cases rounds with
    | zero => cases enough
    | succ rounds =>
      rw [containsFrom, cell]
      simp only [Option.bind_eq_bind, Option.bind_some]
      by_cases same : v.key = key
      · rw [if_pos same]
        simp [keys, same]
      · have tail : key ∈ keys rest ↔ key ∈ keys ((a, v) :: rest) := by simp [same]
        rw [if_neg same, ih behind (Nat.le_of_succ_le_succ enough), decide_eq_decide.mpr tail]

theorem Stores.contains (stores : Stores set rows) (key : CString) (enough : set.len ≤ rounds) :
    set.contains rounds key = some (decide (key ∈ strings rows)) := by
  obtain ⟨row, p, here, at_head, chain⟩ := stores.bucket key
  have short := row_length_le here
  rw [← stores.counted] at short
  have home := stores.home here
  rw [CHashSet.contains, at_head]
  simp only [Option.bind_eq_bind, Option.bind_some]
  rw [containsFrom_spec chain (Nat.le_trans short enough), decide_eq_decide.mpr home.symm]

theorem addAfter_appends (chain : Chain set.nodes (some a) (first ++ [(b, u)])) (cell : set.nodes n = some ⟨v, none⟩)
    (absent : v.key ∉ keys first) : set.addAfter n rounds a = if first.length < rounds then
      some ({ set with nodes := Function.update set.nodes b (some ⟨u, some n⟩) }, true) else none := by
  induction first generalizing a rounds with
  | nil =>
    obtain ⟨same, next, here, rfl⟩ := chain
    cases same
    cases rounds with
    | zero => rfl
    | succ rounds =>
      rw [addAfter, here, if_pos (show ([] : Row).length < rounds + 1 from Nat.succ_pos rounds)]
      simp only [Option.bind_eq_bind, Option.bind_some, link, here]
      rfl
  | cons item rest ih =>
    obtain ⟨c, w⟩ := item
    obtain ⟨same, next, here, behind⟩ := chain
    cases same
    obtain ⟨d, -, rfl⟩ := behind.start_mem (by simp)
    have other : w.key ≠ v.key := by
      intro same
      exact absent (by simp [keys, same])
    have later : v.key ∉ keys rest := fun member => absent (List.mem_cons_of_mem _ member)
    cases rounds with
    | zero => rfl
    | succ rounds =>
      rw [addAfter, here]
      simp only [Option.bind_eq_bind, Option.bind_some, cell, if_neg other, List.length_cons, Nat.succ_lt_succ_iff]
      exact ih behind later

theorem addAfter_refuses (chain : Chain set.nodes (some a) (first ++ [(b, u)])) (cell : set.nodes n = some ⟨v, none⟩)
    (present : v.key ∈ keys first) (enough : first.length < rounds) : set.addAfter n rounds a = some (set, false) := by
  induction first generalizing a rounds with
  | nil => cases present
  | cons item rest ih =>
    obtain ⟨c, w⟩ := item
    obtain ⟨same, next, here, behind⟩ := chain
    cases same
    obtain ⟨d, -, rfl⟩ := behind.start_mem (by simp)
    obtain ⟨rounds, rfl⟩ := Nat.exists_eq_add_one_of_ne_zero (Nat.ne_zero_of_lt enough)
    rw [addAfter, here]
    simp only [Option.bind_eq_bind, Option.bind_some, cell]
    by_cases equal : w.key = v.key
    · rw [if_pos equal]
      rfl
    · rw [if_neg equal]
      obtain same | later := List.mem_cons.mp present
      · exact absurd same.symm equal
      · exact ih behind later (Nat.lt_of_succ_lt_succ enough)

theorem addInternal_link (set : CHashSet) (rounds : Nat) (n : Addr) (at_head : set.data[j]? = some (some a)) :
    set.addInternal rounds j n = set.addAfter n rounds a := by
  rw [addInternal, if_neg (show ¬(j : Int) < 0 by omega), Int.toNat_natCast, at_head]
  rfl

/-- A node is put behind a chain that does not have its string in front of the last node. -/
theorem addInternal_appends (set : CHashSet) (linked : Linked set.nodes set.data rows) (here : rows[j]? = some row)
    (cell : set.nodes n = some ⟨v, none⟩) (new : n ∉ addresses rows.flatten) (absent : v.key ∉ keys row.dropLast)
    (enough : row.length ≤ rounds) : ∃ data nodes,
    set.addInternal rounds j n = some ({ set with data, nodes }, true) ∧
      Linked nodes data (rows.modify j (· ++ [(n, v)])) ∧ ∀ a ∉ addresses rows.flatten, nodes a = set.nodes a := by
  obtain ⟨p, at_head, chain⟩ := linked.head here
  obtain rfl | ⟨first, ⟨b, u⟩, rfl⟩ := List.eq_nil_or_concat' row
  · obtain rfl : p = none := chain
    refine ⟨_, _, ?_, linked.append_empty here cell new, fun _ _ => rfl⟩
    rw [addInternal, if_neg (show ¬(j : Int) < 0 by omega), Int.toNat_natCast, at_head]
    rfl
  · obtain ⟨a, -, rfl⟩ := chain.start_mem (by simp)
    rw [List.dropLast_concat] at absent
    rw [List.length_append, List.length_singleton] at enough
    rw [addInternal_link set rounds n at_head]
    refine ⟨set.data, _, (addAfter_appends chain cell absent).trans (if_pos enough),
      linked.append_last here cell new, ?_⟩
    intro c outside
    apply Function.update_of_ne
    rintro rfl
    exact outside (mem_flatten here (by simp))

theorem addInternal_refuses (set : CHashSet) (linked : Linked set.nodes set.data rows) (here : rows[j]? = some row)
    (cell : set.nodes n = some ⟨v, none⟩) (present : v.key ∈ keys row.dropLast) (enough : row.length ≤ rounds) :
    set.addInternal rounds j n = some (set, false) := by
  obtain ⟨p, at_head, chain⟩ := linked.head here
  obtain rfl | ⟨first, ⟨b, u⟩, rfl⟩ := List.eq_nil_or_concat' row
  · cases present
  · obtain ⟨a, -, rfl⟩ := chain.start_mem (by simp)
    rw [List.dropLast_concat] at present
    rw [List.length_append, List.length_singleton] at enough
    rw [addInternal_link set rounds n at_head]
    exact addAfter_refuses chain cell present enough

theorem removeAfter_spec (first : Row) (key : CString) (linked : Linked set.nodes set.data rows)
    (here : rows[j]? = some (first ++ (b, u) :: rest)) (enough : rest.length < rounds) :
    (key ∉ keys rest ∧ set.removeAfter key rounds b = some (set, -1)) ∨
      ∃ left a v right nodes, rest = left ++ (a, v) :: right ∧ v.key = key ∧
        set.removeAfter key rounds b = some ({ set with nodes, len := set.len - 1 }, 0) ∧
        Linked nodes set.data (rows.modify j fun _ => first ++ (b, u) :: (left ++ right)) := by
  obtain ⟨p, at_head, chain⟩ := linked.head here
  induction rest generalizing first b u rounds with
  | nil =>
    obtain ⟨-, cell⟩ := segment_concat.mp chain
    obtain ⟨rounds, rfl⟩ := Nat.exists_eq_add_one_of_ne_zero (Nat.ne_zero_of_lt enough)
    refine .inl ⟨List.not_mem_nil, ?_⟩
    rw [removeAfter, cell]
    rfl
  | cons item rest ih =>
    obtain ⟨a, v⟩ := item
    obtain ⟨middle, front, rfl, next, cell, behind⟩ := segment_append.mp chain
    obtain ⟨rfl, next', cell', below⟩ := behind
    obtain ⟨rounds, rfl⟩ := Nat.exists_eq_add_one_of_ne_zero (Nat.ne_zero_of_lt enough)
    have other : b ≠ a := by
      rintro rfl
      exact (apart_of_nodup chain.nodup).2 List.mem_cons_self
    rw [removeAfter, cell]
    simp only [Option.bind_eq_bind, Option.bind_some, cell']
    by_cases same : v.key = key
    · rw [if_pos same]
      refine .inr ⟨[], a, v, rest, _, rfl, same, ?_, linked.unlink_behind here cell' none⟩
      simp only [link, Function.update_of_ne other, cell, Option.bind_eq_bind, Option.bind_some]
      rw [Function.update_comm other]
      rfl
    · rw [if_neg same]
      have shifted : first ++ (b, u) :: (a, v) :: rest = (first ++ [(b, u)]) ++ (a, v) :: rest := by simp
      rw [shifted] at here chain
      obtain ⟨absent, ended⟩ | ⟨left, c, w, right, nodes, rfl, met, ended, linked'⟩ :=
        ih (first ++ [(b, u)]) here (Nat.lt_of_succ_lt_succ enough) chain
      · refine .inl ⟨fun member => ?_, ended⟩
        obtain equal | later := List.mem_cons.mp member
        · exact same equal.symm
        · exact absent later
      · refine .inr ⟨(a, v) :: left, c, w, right, nodes, rfl, met, ended, ?_⟩
        simpa using linked'

inductive Op where
  | add (fresh : Nat → Byte) (n second : Addr) (data : CString)
  | remove (data : CString)

def step (set : CHashSet) (rounds : Nat) : Op → Option (CHashSet × Int)
  | .add fresh n second data => set.add rounds fresh n second data
  | .remove data => set.remove rounds data

/-- An addition that need not resize, with the two nodes that malloc returns. -/
def Admitted (set : CHashSet) : Op → Prop
  | .add _ n second _ => set.roomy (set.len + 1) = true ∧ set.nodes n = none ∧ set.nodes second = none
  | .remove _ => True

/-- The set of strings after a call, and the status that it returns. -/
def Answers (strings strings' : List CString) : Op → Int → Prop
  | .add _ _ _ data, status =>
    status = 0 ∧ if data ∈ strings then strings' = strings else strings'.Perm (data :: strings)
  | .remove data, status =>
    if data ∈ strings then status = 0 ∧ strings.Perm (data :: strings') else status = -1 ∧ strings' = strings

/-- The call ends in a set of the right strings, and contains tells them. -/
def Meets (set : CHashSet) (rows : List Row) (op : Op) : Prop := ∃ rounds set' rows' status,
  set.step rounds op = some (set', status) ∧ Stores set' rows' ∧ Answers (strings rows) (strings rows') op status ∧
    ∀ data, set'.contains rounds data = some (decide (data ∈ strings rows'))

/-- The bucket is an `int`, and the string is not the one that the walk does not compare. -/
def Compared (set : CHashSet) (rows : List Row) : Op → Prop
  | .add _ _ _ data => set.dataIndex data < 2 ^ 31 ∧
      ∀ row last, rows[set.dataIndex data]? = some row → row.getLast? = some last → last.2.key ≠ data
  | .remove _ => True

theorem hashOf_int (set : CHashSet) (data : CString) : -2 ^ 31 ≤ set.hashOf data ∧ set.hashOf data < 2 ^ 31 := by
  rw [hashOf]
  split
  · next hash _ => exact ⟨(hash data).le_toInt, (hash data).toInt_lt⟩
  · rw [cHash]
    split
    · decide
    · rw [intT]
      split
      · omega
      · omega

/-- A bucket from `2 ^ 31` on belongs to a negative hash, and is a negative `int`. -/
theorem intT_dataIndex_neg {data : CString} (pow : ∃ k, set.cap = 2 ^ k) (wide : 2 ^ 31 ≤ set.dataIndex data) :
    intT (set.dataIndex data) < 0 := by
  obtain ⟨k, pow⟩ := pow
  obtain ⟨lower, upper⟩ := hashOf_int set data
  have index : set.dataIndex data = sizeT (set.hashOf data) % 2 ^ k := by
    rw [dataIndex, pow, Nat.and_two_pow_sub_one_eq_mod]
  have large : 32 ≤ k := by
    by_contra small
    have below : set.dataIndex data < 2 ^ k := index ▸ Nat.mod_lt _ (Nat.two_pow_pos k)
    have power : 2 ^ k ≤ 2 ^ 31 := Nat.pow_le_pow_right (by decide) (by omega)
    omega
  have negative : set.hashOf data < 0 := by
    by_contra nonneg
    have small : sizeT (set.hashOf data) < 2 ^ 31 := by
      rw [sizeT]
      omega
    have below := Nat.mod_le (sizeT (set.hashOf data)) (2 ^ k)
    omega
  have low : set.dataIndex data % 2 ^ 32 = sizeT (set.hashOf data) % 2 ^ 32 := by
    rw [index, Nat.mod_mod_of_dvd _ (pow_dvd_pow 2 large)]
  have wrapped : sizeT (set.hashOf data) % 2 ^ 32 = (2 ^ 32 + set.hashOf data).toNat := by
    rw [sizeT]
    omega
  rw [intT, low, wrapped]
  split
  · omega
  · omega

/-- The strings after a change of one chain. -/
theorem strings_modify (here : rows[j]? = some row) (row' : Row) : ∃ before after,
    strings rows = before ++ (keys row ++ after) ∧
      strings (rows.modify j fun _ => row') = before ++ (keys row' ++ after) := by
  obtain ⟨before, after, whole, changed⟩ := flatten_modify (fun _ => row') here
  refine ⟨keys before, keys after, ?_, ?_⟩
  · rw [strings, whole, List.map_append, List.map_append]
    rfl
  · rw [strings, changed, List.map_append, List.map_append]
    rfl

theorem strings_drop (here : rows[j]? = some row) {row' : Row} (perm : (keys row).Perm (key :: keys row')) :
    (strings rows).Perm (key :: strings (rows.modify j fun _ => row')) := by
  obtain ⟨before, after, whole, changed⟩ := strings_modify here row'
  rw [whole, changed]
  exact ((perm.append_right after).append_left before).trans List.perm_middle

theorem strings_place {item : Nat × Addr × Node} (bound : item.1 < rows.length) :
    (strings (place rows item)).Perm (item.2.2.key :: strings rows) := by
  have moved := (place_perm bound).map fun item => item.2.key
  rw [List.map_append] at moved
  exact moved.trans (List.perm_append_singleton _ _)

/-- Without one string of a chain. -/
theorem Stores.remove (stores : Stores set rows) (here : rows[j]? = some row) {row' : Row} {data : List (Option Addr)}
    {nodes : Nodes} (linked : Linked nodes data (rows.modify j fun _ => row'))
    (perm : (keys row).Perm (key :: keys row')) :
    Stores { set with data, nodes, len := set.len - 1 } (rows.modify j fun _ => row') ∧
      (strings rows).Perm (key :: strings (rows.modify j fun _ => row')) := by
  have all := strings_drop here perm
  refine ⟨⟨stores.capacity, ?_, linked.length, linked.chain, ?_, ?_, ?_⟩, all⟩
  · show data.length = set.cap
    rw [linked.length, List.length_modify, ← stores.length, stores.buckets]
  · refine stores.placed.modify fun old at_j item member => ?_
    cases here.symm.trans at_j
    have inside : item.2.key ∈ keys row := perm.mem_iff.mpr (List.mem_cons_of_mem _ (mem_keys.mpr ⟨item, member, rfl⟩))
    obtain ⟨twin, inRow, same⟩ := mem_keys.mp inside
    rw [← same]
    exact stores.placed j row here twin inRow
  · exact (List.nodup_cons.mp (all.nodup_iff.mp stores.distinct)).2
  · show set.len - 1 = _
    rw [stores.counted, all.length_eq]
    rfl

/-- With one string more. -/
theorem Stores.append (stores : Stores set rows) (here : rows[set.dataIndex v.key]? = some row)
    {data : List (Option Addr)} {nodes : Nodes}
    (linked : Linked nodes data (rows.modify (set.dataIndex v.key) (· ++ [(n, v)]))) (absent : v.key ∉ strings rows) :
    Stores { set with data, nodes, len := set.len + 1 } (rows.modify (set.dataIndex v.key) (· ++ [(n, v)])) ∧
      (strings (rows.modify (set.dataIndex v.key) (· ++ [(n, v)]))).Perm (v.key :: strings rows) := by
  have all : (strings (place rows (set.dataIndex v.key, (n, v)))).Perm (v.key :: strings rows) :=
    strings_place (stores.bucket_lt v.key)
  refine ⟨⟨stores.capacity, ?_, linked.length, linked.chain, ?_, ?_, ?_⟩, all⟩
  · show data.length = set.cap
    rw [linked.length, List.length_modify, ← stores.length, stores.buckets]
  · refine stores.placed.modify fun old at_j item member => ?_
    cases here.symm.trans at_j
    obtain inside | new := List.mem_append.mp member
    · exact stores.placed _ row here item inside
    · rw [List.mem_singleton.mp new]
  · exact all.nodup_iff.mpr (List.nodup_cons.mpr ⟨absent, stores.distinct⟩)
  · show set.len + 1 = (strings (place rows (set.dataIndex v.key, (n, v)))).length
    rw [stores.counted, all.length_eq]
    rfl

theorem remove_meets (stores : Stores set rows) (data : CString) : Meets set rows (.remove data) := by
  obtain ⟨row, p, here, at_head, chain⟩ := stores.bucket data
  have home := stores.home here
  have linked := stores.linked
  have short : row.length ≤ set.len := stores.counted ▸ row_length_le here
  cases row with
  | nil =>
    obtain rfl : p = none := chain
    have absent : data ∉ strings rows := fun member => by cases home.mp member
    refine ⟨set.len, set, rows, -1, ?_, stores, ?_, fun other => stores.contains other (Nat.le_refl _)⟩
    · rw [step, CHashSet.remove, at_head]
      rfl
    · rw [Answers, if_neg absent]
      exact ⟨rfl, rfl⟩
  | cons item rest =>
    obtain ⟨a, v⟩ := item
    obtain ⟨rfl, next, cell, behind⟩ := chain
    have removed {nodes : Nodes} {buckets : List (Option Addr)} {row' : Row}
        (linked' : Linked nodes buckets (rows.modify (set.dataIndex data) fun _ => row'))
        (perm : (keys ((a, v) :: rest)).Perm (data :: keys row'))
        (stepped : set.remove set.len data = some ({ set with nodes, data := buckets, len := set.len - 1 }, 0)) :
        Meets set rows (.remove data) := by
      obtain ⟨stores', all⟩ := stores.remove here linked' perm
      have present : data ∈ strings rows := all.mem_iff.mpr List.mem_cons_self
      refine ⟨set.len, _, _, 0, stepped, stores', ?_, fun other => stores'.contains other (Nat.sub_le _ _)⟩
      rw [Answers, if_pos present]
      exact ⟨rfl, all⟩
    by_cases same : v.key = data
    · refine removed (linked.unlink_head here cell none) (by simp [keys, same]) ?_
      rw [CHashSet.remove, at_head]
      simp only [Option.bind_eq_bind, Option.bind_some, cell, if_pos same]
      rfl
    · have walked : set.remove set.len data = set.removeAfter data set.len a := by
        rw [CHashSet.remove, at_head]
        simp only [Option.bind_eq_bind, Option.bind_some, cell, if_neg same]
      obtain ⟨absent, ended⟩ | ⟨left, b, w, right, nodes, rfl, met, ended, linked'⟩ :=
        removeAfter_spec [] data linked here short
      · have away : data ∉ strings rows := by
          rw [home]
          intro member
          obtain equal | later := List.mem_cons.mp member
          · exact same equal.symm
          · exact absent later
        refine ⟨set.len, set, rows, -1, walked.trans ended, stores, ?_,
          fun other => stores.contains other (Nat.le_refl _)⟩
        rw [Answers, if_neg away]
        exact ⟨rfl, rfl⟩
      · refine removed linked' ?_ (walked.trans ended)
        have middle : (((a, v) :: left) ++ (b, w) :: right).Perm ((b, w) :: (((a, v) :: left) ++ right)) :=
          List.perm_middle
        have image := middle.map fun item : Addr × Node => item.2.key
        rw [List.map_cons, met] at image
        exact image

/-- What an addition does below the resize threshold. -/
theorem add_eq (rounds : Nat) {fresh : Nat → Byte} {second : Addr} {data : CString}
    (roomy : set.roomy (set.len + 1) = true) : set.add rounds fresh n second data = do
      let set' := (set.nodeNew n data).nodeNew second data
      let (set', added) ← set'.addInternal rounds (intT (set.dataIndex data)) second
      return if added then ({ set' with len := set'.len + 1 }, 0)
        else ({ set' with nodes := Function.update set'.nodes n none }, 0) := by
  rw [CHashSet.add, resize, if_pos roomy]
  rfl

/-- Two nodes outside the chains. -/
theorem nodes_new (stores : Stores set rows) {second : Addr} (data : CString) (unused : set.nodes n = none)
    (unused' : set.nodes second = none) :
    Linked ((set.nodeNew n data).nodeNew second data).nodes set.data rows ∧ n ∉ addresses rows.flatten ∧
      second ∉ addresses rows.flatten ∧
      ((set.nodeNew n data).nodeNew second data).nodes second = some ⟨⟨data, false⟩, none⟩ := by
  have linked := stores.linked
  have away {a : Addr} (free : set.nodes a = none) : a ∉ addresses rows.flatten := by
    intro member
    obtain ⟨j, row, here, inside⟩ := exists_row member
    obtain ⟨p, at_head, chain⟩ := linked.head here
    exact chain.live inside free
  exact ⟨(linked.update (away unused) _).update (away unused') _, away unused, away unused', Function.update_self ..⟩

theorem add_meets {fresh : Nat → Byte} {second : Addr} {data : CString} (stores : Stores set rows)
    (admitted : Admitted set (.add fresh n second data)) (compared : Compared set rows (.add fresh n second data)) :
    Meets set rows (.add fresh n second data) := by
  obtain ⟨roomy, unused, unused'⟩ := admitted
  obtain ⟨narrow, last⟩ := compared
  obtain ⟨row, p, here, at_head, chain⟩ := stores.bucket data
  obtain ⟨linked, apart, apart', cell⟩ := nodes_new stores data unused unused'
  have home := stores.home here
  have short : row.length ≤ set.len + 1 := Nat.le_succ_of_le (stores.counted ▸ row_length_le here)
  by_cases present : data ∈ keys row.dropLast
  · have inside : data ∈ strings rows := home.mpr ((List.dropLast_sublist row).map _ |>.mem present)
    have refused := addInternal_refuses ((set.nodeNew n data).nodeNew second data) linked here cell present short
    have stores' : Stores { (set.nodeNew n data).nodeNew second data with
        nodes := Function.update ((set.nodeNew n data).nodeNew second data).nodes n none } rows :=
      ⟨stores.capacity, stores.buckets, stores.length, (linked.update apart none).chain, stores.placed,
        stores.distinct, stores.counted⟩
    refine ⟨set.len + 1, _, rows, 0, ?_, stores', ?_, fun other => stores'.contains other (Nat.le_succ _)⟩
    · rw [step, add_eq _ roomy, intT_small narrow]
      simp only [refused, Option.bind_eq_bind, Option.bind_some]
      rfl
    · rw [Answers, if_pos inside]
      exact ⟨rfl, rfl⟩
  · have absent : data ∉ strings rows := by
      rw [home]
      intro member
      obtain rfl | ⟨first, item, rfl⟩ := List.eq_nil_or_concat' row
      · cases member
      · rw [List.dropLast_concat] at present
        rw [keys, List.map_append, List.mem_append] at member
        obtain before | final := member
        · exact present before
        · exact last _ item here List.getLast?_concat (List.mem_singleton.mp final).symm
    obtain ⟨buckets, nodes, appended, linked', -⟩ :=
      addInternal_appends ((set.nodeNew n data).nodeNew second data) linked here cell apart' present short
    obtain ⟨stores', all⟩ := stores.append (v := ⟨data, false⟩) here linked' absent
    refine ⟨set.len + 1, _, _, 0, ?_, stores', ?_, fun other => stores'.contains other (Nat.le_refl _)⟩
    · rw [step, add_eq _ roomy, intT_small narrow]
      simp only [appended, Option.bind_eq_bind, Option.bind_some]
      rfl
    · rw [Answers, if_neg absent]
      exact ⟨rfl, all⟩

theorem add_differs {fresh : Nat → Byte} {second : Addr} {data : CString} (stores : Stores set rows)
    (admitted : Admitted set (.add fresh n second data)) (meets : Meets set rows (.add fresh n second data)) :
    Compared set rows (.add fresh n second data) := by
  obtain ⟨roomy, unused, unused'⟩ := admitted
  obtain ⟨rounds, set', rows', status, stepped, stores', ⟨-, strings'⟩, -⟩ := meets
  rw [step, add_eq _ roomy] at stepped
  have narrow : set.dataIndex data < 2 ^ 31 := by
    by_contra wide
    have negative := intT_dataIndex_neg stores.capacity (Nat.not_lt.mp wide)
    simp only [addInternal, if_pos negative, Option.bind_eq_bind, Option.bind_none] at stepped
    cases stepped
  refine ⟨narrow, fun row last here final => ?_⟩
  rintro rfl
  obtain ⟨linked, apart, apart', cell⟩ := nodes_new stores last.2.key unused unused'
  obtain ⟨p, at_head, chain⟩ := linked.head here
  obtain rfl | ⟨first, item, rfl⟩ := List.eq_nil_or_concat' row
  · cases final
  rw [List.getLast?_concat] at final
  cases final
  have present : last.2.key ∈ strings rows := (stores.home here).mpr (mem_keys.mpr ⟨last, by simp, rfl⟩)
  have absent : last.2.key ∉ keys first := by
    have distinct : (keys (first ++ [last])).Nodup :=
      stores.distinct.sublist ((List.sublist_flatten_of_mem (List.mem_of_getElem? here)).map _)
    rw [keys, List.map_append, List.nodup_append] at distinct
    exact fun member => distinct.2.2 _ member _ (List.mem_singleton.mpr rfl) rfl
  obtain ⟨a, -, rfl⟩ := chain.start_mem (by simp)
  -- the last node is not compared, so that the string is added again
  have appended := (addInternal_link ((set.nodeNew n last.2.key).nodeNew second last.2.key) rounds second at_head).trans
    (addAfter_appends chain cell absent)
  simp only [intT_small narrow, appended] at stepped
  by_cases enough : first.length < rounds
  · rw [if_pos enough] at stepped
    have longer : set'.len = set.len + 1 := by
      obtain ⟨rfl, -⟩ := Prod.mk.inj (Option.some.inj stepped)
      rfl
    rw [if_pos present] at strings'
    have counted := stores'.counted
    rw [strings', ← stores.counted] at counted
    omega
  · rw [if_neg enough] at stepped
    cases stepped

/-- In any set, adding and removing below the resize threshold are those of a set of strings, except
that a string which is the last of its chain is added again, and that a bucket from `2 ^ 31` on is
not found. -/
theorem add_remove_iff {op : Op} (stores : Stores set rows) (admitted : Admitted set op) :
    Meets set rows op ↔ Compared set rows op := by
  cases op with
  | add fresh n second data => exact ⟨add_differs stores admitted, add_meets stores admitted⟩
  | remove data => exact iff_of_true (remove_meets stores data) trivial

/-- "a" alone, at the address 1. -/
def oneLetter : CHashSet where
  cap := 8
  len := 1
  data := some 1 :: List.replicate 7 none
  hash := none
  nodes := Function.update (fun _ => none) 1 (some ⟨⟨⟨[97], by decide⟩, false⟩, none⟩)

def oneLetterRows : List Row := [(1, ⟨⟨[97], by decide⟩, false⟩)] :: List.replicate 7 []

theorem oneLetter_stores : Stores oneLetter oneLetterRows where
  capacity := ⟨3, rfl⟩
  buckets := rfl
  length := rfl
  chain := by
    intro j p row at_head here
    cases j with
    | zero =>
      cases at_head
      cases here
      exact ⟨rfl, none, rfl, rfl⟩
    | succ j =>
      obtain ⟨-, rfl⟩ := List.mem_replicate.mp (List.mem_of_getElem? at_head)
      obtain ⟨-, rfl⟩ := List.mem_replicate.mp (List.mem_of_getElem? here)
      rfl
  placed := by
    intro j row here item member
    cases j with
    | zero =>
      cases here
      cases List.mem_singleton.mp member
      decide
    | succ j =>
      obtain ⟨-, rfl⟩ := List.mem_replicate.mp (List.mem_of_getElem? here)
      cases member
  distinct := by decide
  counted := rfl

theorem second_letter : Meets oneLetter oneLetterRows (.add (fun _ => 0) 2 3 ⟨[98], by decide⟩) ↔
    Compared oneLetter oneLetterRows (.add (fun _ => 0) 2 3 ⟨[98], by decide⟩) :=
  add_remove_iff oneLetter_stores ⟨by decide +kernel, rfl, rfl⟩

/-- "a" is added to it again. -/
theorem letter_twice : ¬Meets oneLetter oneLetterRows (.add (fun _ => 0) 2 3 ⟨[97], by decide⟩) := by
  intro meets
  have compared := add_differs oneLetter_stores ⟨by decide +kernel, rfl, rfl⟩ meets
  exact compared.2 [(1, ⟨⟨[97], by decide⟩, false⟩)] (1, ⟨⟨[97], by decide⟩, false⟩) (by decide +kernel) rfl rfl

end Devent.CHashSet
