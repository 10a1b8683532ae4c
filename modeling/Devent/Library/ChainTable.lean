import Devent.Library.Buckets
import Devent.Library.Links

/-! A table of chains over one heap. No cell is in two chains, so that a change of one chain
leaves the others as they are. A table of chains has as many heads as cells that end a chain. -/
namespace Devent.ChainTable
open Links

variable {A V : Type}

/-- Every row is the chain of its head. -/
structure Linked (heap : Heap A V) (heads : List (Option A)) (rows : List (List (A × V))) : Prop where
  length : heads.length = rows.length
  chain : ∀ {j : Nat} {p row}, heads[j]? = some p → rows[j]? = some row → Chain heap p row
  apart : (addresses rows.flatten).Nodup

variable {heap heap' : Heap A V} {heads heads' : List (Option A)} {rows rows' : List (List (A × V))}
  {row first rest : List (A × V)} {i j : Nat} {p next : Option A} {a b : A} {u v : V}

theorem Segment.cell_of_mem {q : Option A} {items : List (A × V)} (segment : Segment heap p q items)
    (member : (a, v) ∈ items) : ∃ next, heap a = some ⟨v, next⟩ := by
  obtain ⟨before, after, rfl⟩ := List.append_of_mem member
  obtain ⟨middle, -, -, next, cell, -⟩ := segment_append.mp segment
  exact ⟨next, cell⟩

theorem mem_addresses {items : List (A × V)} : a ∈ addresses items ↔ ∃ v, (a, v) ∈ items := by
  rw [addresses, List.mem_map]
  constructor
  · rintro ⟨⟨b, v⟩, member, rfl⟩
    exact ⟨v, member⟩
  · exact fun ⟨v, member⟩ => ⟨(a, v), member, rfl⟩

theorem mem_flatten (at_j : rows[j]? = some row) (member : a ∈ addresses row) : a ∈ addresses rows.flatten := by
  obtain ⟨v, inside⟩ := mem_addresses.mp member
  exact mem_addresses.mpr ⟨v, List.mem_flatten.mpr ⟨row, List.mem_of_getElem? at_j, inside⟩⟩

theorem exists_row (member : a ∈ addresses rows.flatten) :
    ∃ (j : Nat) (row : List (A × V)), rows[j]? = some row ∧ a ∈ addresses row := by
  obtain ⟨v, inside⟩ := mem_addresses.mp member
  obtain ⟨row, listed, inRow⟩ := List.mem_flatten.mp inside
  obtain ⟨j, at_j⟩ := List.mem_iff_getElem?.mp listed
  exact ⟨j, row, at_j, mem_addresses.mpr ⟨v, inRow⟩⟩

theorem Linked.head (linked : Linked heap heads rows) (at_j : rows[j]? = some row) :
    ∃ p, heads[j]? = some p ∧ Chain heap p row := by
  obtain ⟨bound, -⟩ := List.getElem?_eq_some_iff.mp at_j
  have here := List.getElem?_eq_getElem (show j < heads.length from linked.length ▸ bound)
  exact ⟨_, here, linked.chain here at_j⟩

theorem Linked.row_of_head (linked : Linked heap heads rows) (at_j : heads[j]? = some p) :
    ∃ row, rows[j]? = some row ∧ Chain heap p row := by
  obtain ⟨bound, -⟩ := List.getElem?_eq_some_iff.mp at_j
  have here := List.getElem?_eq_getElem (show j < rows.length from linked.length ▸ bound)
  exact ⟨_, here, linked.chain at_j here⟩

/-- Chains whose cells hold distinct keys are apart. -/
theorem linked_of_keys {K : Type} (key : V → K) (length : heads.length = rows.length)
    (chain : ∀ {j : Nat} {p row}, heads[j]? = some p → rows[j]? = some row → Chain heap p row)
    (distinct : (rows.flatten.map fun item => key item.2).Nodup) : Linked heap heads rows := by
  refine ⟨length, chain, ?_⟩
  have read : ∀ item ∈ rows.flatten, (heap item.1).map (fun cell => key cell.value) = some (key item.2) := by
    rintro ⟨a, v⟩ member
    obtain ⟨row, listed, inside⟩ := List.mem_flatten.mp member
    obtain ⟨j, at_j⟩ := List.mem_iff_getElem?.mp listed
    obtain ⟨bound, -⟩ := List.getElem?_eq_some_iff.mp at_j
    have at_head := List.getElem?_eq_getElem (show j < heads.length from length ▸ bound)
    obtain ⟨next, cell⟩ := Segment.cell_of_mem (chain at_head at_j) inside
    rw [cell]
    rfl
  refine List.Nodup.of_map (fun a => (heap a).map fun cell => key cell.value) ?_
  have same : (addresses rows.flatten).map (fun a => (heap a).map fun cell => key cell.value) =
      (rows.flatten.map fun item => key item.2).map some := by
    rw [addresses, List.map_map, List.map_map]
    exact List.map_congr_left read
  rw [same]
  exact distinct.map fun _ _ => Option.some.inj

theorem Linked.unique (linked : Linked heap heads rows) (linked' : Linked heap heads rows') : rows = rows' := by
  apply List.ext_getElem? fun j => ?_
  cases at_j : heads[j]? with
  | none =>
    have outside := List.getElem?_eq_none_iff.mp at_j
    rw [List.getElem?_eq_none (linked.length ▸ outside), List.getElem?_eq_none (linked'.length ▸ outside)]
  | some p =>
    obtain ⟨row, here, chain⟩ := linked.row_of_head at_j
    obtain ⟨row', here', chain'⟩ := linked'.row_of_head at_j
    rw [here, here', chain.unique chain']

/-- No cell is in two rows. -/
theorem Linked.disjoint (linked : Linked heap heads rows) {row' : List (A × V)} (at_i : rows[i]? = some row)
    (at_j : rows[j]? = some row') (other : i ≠ j) (member : a ∈ addresses row) : a ∉ addresses row' := by
  intro member'
  have apart := linked.apart
  rw [addresses, List.map_flatten, List.nodup_flatten] at apart
  obtain ⟨hi, rfl⟩ := List.getElem?_eq_some_iff.mp at_i
  obtain ⟨hj, rfl⟩ := List.getElem?_eq_some_iff.mp at_j
  have pairs := List.pairwise_iff_getElem.mp apart.2
  obtain before | after := Nat.lt_or_gt_of_ne other
  · have away := pairs i j (by simpa using hi) (by simpa using hj) before
    rw [List.getElem_map, List.getElem_map] at away
    exact away member member'
  · have away := pairs j i (by simpa using hj) (by simpa using hi) after
    rw [List.getElem_map, List.getElem_map] at away
    exact away member' member

/-- The change of one row. -/
theorem Linked.modify (linked : Linked heap heads rows) (at_j : rows[j]? = some row) {f : List (A × V) → List (A × V)}
    (chain : Chain heap' p (f row)) (frame : ∀ a ∈ addresses rows.flatten, a ∉ addresses row → heap' a = heap a)
    (apart : (addresses (rows.modify j f).flatten).Nodup) : Linked heap' (heads.set j p) (rows.modify j f) := by
  refine ⟨?_, fun {i q row'} at_i here => ?_, apart⟩
  · rw [List.length_set, List.length_modify]
    exact linked.length
  · rw [List.getElem?_modify] at here
    obtain ⟨old, at_row, rfl⟩ := Option.map_eq_some_iff.mp here
    rw [List.getElem?_set] at at_i
    by_cases same : j = i
    · subst same
      rw [if_pos rfl] at at_i
      split at at_i
      · cases at_i
        cases at_j.symm.trans at_row
        rw [if_pos rfl]
        exact chain
      · cases at_i
    · rw [if_neg same] at at_i
      rw [if_neg same]
      refine (linked.chain at_i at_row).frame fun a member => ?_
      exact frame a (mem_flatten at_row member) (linked.disjoint at_row at_j (Ne.symm same) member)

theorem modify_same {α : Type} {items : List α} {a : α} (here : items[j]? = some a) :
    (items.modify j fun _ => a) = items := by
  apply List.ext_getElem? fun i => ?_
  by_cases same : j = i
  · subst same
    rw [List.getElem?_modify_eq, here]
    rfl
  · rw [List.getElem?_modify_ne _ _ same]

theorem set_same {α : Type} {items : List α} {a : α} (here : items[j]? = some a) : items.set j a = items := by
  obtain ⟨bound, rfl⟩ := List.getElem?_eq_some_iff.mp here
  exact List.set_getElem_self bound

/-- Where the head stays. -/
theorem Linked.modify_same (linked : Linked heap heads rows) (at_j : rows[j]? = some row) (at_head : heads[j]? = some p)
    {f : List (A × V) → List (A × V)} (chain : Chain heap' p (f row))
    (frame : ∀ a ∈ addresses rows.flatten, a ∉ addresses row → heap' a = heap a)
    (apart : (addresses (rows.modify j f).flatten).Nodup) : Linked heap' heads (rows.modify j f) := by
  have whole := linked.modify at_j chain frame apart
  rwa [set_same at_head] at whole

theorem apart_modify (linked : Linked heap heads rows) (at_j : rows[j]? = some row) (f : List (A × V) → List (A × V))
    (fewer : (addresses (f row)).Sublist (addresses row)) : (addresses (rows.modify j f).flatten).Nodup := by
  obtain ⟨before, after, whole, changed⟩ := Buckets.flatten_modify f at_j
  have apart := linked.apart
  rw [whole] at apart
  rw [changed]
  simp only [addresses_append] at apart ⊢
  exact apart.sublist ((List.Sublist.refl _).append (fewer.append (List.Sublist.refl _)))

theorem Linked.cell (linked : Linked heap heads rows) (at_j : rows[j]? = some (first ++ (a, v) :: rest)) :
    heap a = some ⟨v, rest.head?.map Prod.fst⟩ := by
  obtain ⟨p, at_head, chain⟩ := linked.head at_j
  obtain ⟨middle, front, rfl, next, cell, behind⟩ := segment_append.mp chain
  rw [cell, behind.start_eq, Option.or_none]

/-- More heads that are NULL. -/
theorem Linked.widen (linked : Linked heap heads rows) (n : Nat) :
    Linked heap (heads ++ List.replicate n none) (rows ++ List.replicate n []) := by
  refine ⟨?_, fun {j p row} at_head at_j => ?_, ?_⟩
  · rw [List.length_append, List.length_append, linked.length, List.length_replicate, List.length_replicate]
  · by_cases old : j < rows.length
    · rw [List.getElem?_append_left (linked.length ▸ old)] at at_head
      rw [List.getElem?_append_left old] at at_j
      exact linked.chain at_head at_j
    · have inBoth := linked.length
      rw [List.getElem?_append_right (by omega)] at at_head at_j
      obtain ⟨-, rfl⟩ := List.mem_replicate.mp (List.mem_of_getElem? at_head)
      obtain ⟨-, rfl⟩ := List.mem_replicate.mp (List.mem_of_getElem? at_j)
      rfl
  · have same : (rows ++ List.replicate n []).flatten = rows.flatten := by simp
    rw [same]
    exact linked.apart

theorem apart_append (linked : Linked heap heads rows) (at_j : rows[j]? = some row)
    (new : a ∉ addresses rows.flatten) : (addresses (rows.modify j (· ++ [(a, v)])).flatten).Nodup := by
  obtain ⟨before, after, whole, changed⟩ := Buckets.flatten_modify (· ++ [(a, v)]) at_j
  have apart := linked.apart
  rw [whole] at apart new
  have moved : (before ++ (row ++ [(a, v)] ++ after)).Perm ((a, v) :: (before ++ (row ++ after))) := by
    simp only [List.append_assoc]
    rw [← List.append_assoc, ← List.append_assoc before row after]
    exact List.perm_middle
  rw [changed, addresses, (moved.map Prod.fst).nodup_iff, List.map_cons]
  exact List.nodup_cons.mpr ⟨new, apart⟩

theorem Linked.append_empty (linked : Linked heap heads rows) (at_j : rows[j]? = some [])
    (cell : heap a = some ⟨v, none⟩) (new : a ∉ addresses rows.flatten) :
    Linked heap (heads.set j (some a)) (rows.modify j (· ++ [(a, v)])) :=
  linked.modify at_j ⟨rfl, none, cell, rfl⟩ (fun _ _ _ => rfl) (apart_append linked at_j new)

variable [DecidableEq A]

/-- A cell outside all rows. -/
theorem Linked.update (linked : Linked heap heads rows) (apart : a ∉ addresses rows.flatten)
    (cell : Option (Cell A V)) : Linked (Function.update heap a cell) heads rows := by
  refine ⟨linked.length, fun at_j here => ?_, linked.apart⟩
  exact (linked.chain at_j here).update (fun inside => apart (mem_flatten here inside)) cell

theorem Linked.append_last (linked : Linked heap heads rows) (at_j : rows[j]? = some (first ++ [(b, u)]))
    (cell : heap a = some ⟨v, none⟩) (new : a ∉ addresses rows.flatten) :
    Linked (Function.update heap b (some ⟨u, some a⟩)) heads (rows.modify j (· ++ [(a, v)])) := by
  obtain ⟨p, at_head, chain⟩ := linked.head at_j
  obtain ⟨front, last⟩ := segment_concat.mp chain
  have inside : b ∈ addresses (first ++ [(b, u)]) := by simp
  have other : a ≠ b := by
    rintro rfl
    exact new (mem_flatten at_j inside)
  have alone : b ∉ addresses first := (apart_of_nodup chain.nodup).1
  refine linked.modify_same at_j at_head ?_ (fun c _ outside => update_inside inside _ outside)
    (apart_append linked at_j new)
  rw [List.append_assoc]
  refine front.relink alone ⟨rfl, none, cell, rfl⟩ ?_
  simpa using Ne.symm other

theorem Linked.unlink_head (linked : Linked heap heads rows) (at_j : rows[j]? = some ((a, v) :: rest))
    (cell : heap a = some ⟨v, next⟩) (left : Option (Cell A V)) :
    Linked (Function.update heap a left) (heads.set j next) (rows.modify j fun _ => rest) := by
  obtain ⟨p, at_head, chain⟩ := linked.head at_j
  have alone : a ∉ addresses rest := (List.nodup_cons.mp chain.nodup).1
  obtain ⟨rfl, next', cell', behind⟩ := chain
  cases cell.symm.trans cell'
  exact linked.modify at_j (behind.update alone left)
    (fun c _ outside => update_inside (List.mem_cons_self) left outside)
    (apart_modify linked at_j _ (List.sublist_cons_self _ _))

theorem Linked.unlink_behind (linked : Linked heap heads rows)
    (at_j : rows[j]? = some (first ++ (b, u) :: (a, v) :: rest)) (cell : heap a = some ⟨v, next⟩)
    (left : Option (Cell A V)) :
    Linked (Function.update (Function.update heap b (some ⟨u, next⟩)) a left) heads
      (rows.modify j fun _ => first ++ (b, u) :: rest) := by
  obtain ⟨p, at_head, chain⟩ := linked.head at_j
  obtain ⟨notFirst, notBehind⟩ := apart_of_nodup chain.nodup
  have split : first ++ (b, u) :: (a, v) :: rest = (first ++ [(b, u)]) ++ (a, v) :: rest := by simp
  have nodup := chain.nodup
  rw [split] at nodup
  obtain ⟨away, alone⟩ := apart_of_nodup nodup
  obtain ⟨middle, front, rfl, next', cell', behind⟩ := segment_append.mp chain
  obtain ⟨rfl, next'', cell'', behind⟩ := behind
  cases cell.symm.trans cell''
  have kept : a ∉ addresses (first ++ (b, u) :: rest) := by
    intro inside
    rw [addresses_append, addresses_cons, List.mem_append, List.mem_cons] at inside
    simp only [addresses_append, addresses_cons, addresses_nil, List.mem_append, List.mem_singleton] at away
    tauto
  refine linked.modify_same at_j at_head ?_ (fun c _ outside => ?_) (apart_modify linked at_j _ ?_)
  · exact (front.relink notFirst behind fun inside => notBehind (List.mem_cons_of_mem _ inside)).update kept left
  · simp only [addresses_append, addresses_cons, List.mem_append, List.mem_cons, not_or] at outside
    rw [Function.update_of_ne outside.2.2.1, Function.update_of_ne outside.2.1]
  · simp only [addresses_append, addresses_cons]
    exact (List.Sublist.refl _).append ((List.sublist_cons_self _ _).cons_cons _)

theorem Linked.relabel (linked : Linked heap heads rows) (at_j : rows[j]? = some (first ++ (a, u) :: rest))
    (cell : heap a = some ⟨u, next⟩) (v : V) :
    Linked (Function.update heap a (some ⟨v, next⟩)) heads (rows.modify j fun _ => first ++ (a, v) :: rest) := by
  obtain ⟨p, at_head, chain⟩ := linked.head at_j
  obtain ⟨notFirst, notBehind⟩ := apart_of_nodup chain.nodup
  obtain ⟨middle, front, rfl, next', cell', behind⟩ := segment_append.mp chain
  cases cell.symm.trans cell'
  refine linked.modify_same at_j at_head (front.relink notFirst behind notBehind) (fun c _ outside => ?_)
    (apart_modify linked at_j _ ?_)
  · simp only [addresses_append, addresses_cons, List.mem_append, List.mem_cons, not_or] at outside
    exact Function.update_of_ne outside.2.1 ..
  · simp only [addresses_append, addresses_cons]
    exact List.Sublist.refl _

/-- The cell is the last of its chain. -/
def ends (heap : Heap A V) (a : A) : Bool := (heap a).any fun cell => cell.next.isNone

/-- How many more heads than last cells there are. -/
def excess (heads : List (Option A)) (heap : Heap A V) (cells : List A) : Int :=
  (heads.countP Option.isSome : Int) - (cells.countP (ends heap) : Int)

omit [DecidableEq A] in
theorem excess_set {cells : List A} (at_j : heads[j]? = some p) (q : Option A) :
    excess (heads.set j q) heap cells =
      excess heads heap cells - (if p.isSome then 1 else 0) + if q.isSome then 1 else 0 := by
  obtain ⟨bound, rfl⟩ := List.getElem?_eq_some_iff.mp at_j
  have counted : heads[j].isSome → 0 < heads.countP Option.isSome := fun present =>
    List.countP_pos_iff.mpr ⟨heads[j], List.getElem_mem bound, present⟩
  rw [excess, excess, List.countP_set bound]
  split
  · next present =>
    have positive := counted present
    split
    · omega
    · omega
  · split
    · omega
    · omega

omit [DecidableEq A] in
/-- A count over distinct items after a change at one of them. -/
theorem countP_update {cells : List A} {f g : A → Bool} (distinct : cells.Nodup) (member : a ∈ cells)
    (same : ∀ b, b ≠ a → f b = g b) :
    (cells.countP f : Int) = cells.countP g - (if g a then 1 else 0) + if f a then 1 else 0 := by
  obtain ⟨before, after, rfl⟩ := List.append_of_mem member
  rw [List.nodup_middle, List.nodup_cons, List.mem_append, not_or] at distinct
  have front : before.countP f = before.countP g := by
    refine List.countP_congr fun b inside => ?_
    rw [same b fun equal => distinct.1.1 (equal ▸ inside)]
  have back : after.countP f = after.countP g := by
    refine List.countP_congr fun b inside => ?_
    rw [same b fun equal => distinct.1.2 (equal ▸ inside)]
  rw [List.countP_append, List.countP_append, List.countP_cons, List.countP_cons, front, back]
  split
  · split
    · omega
    · omega
  · split
    · omega
    · omega

theorem excess_store {cells : List A} (distinct : cells.Nodup) (member : a ∈ cells) (cell : Option (Cell A V)) :
    excess heads (Function.update heap a cell) cells = excess heads heap cells + (if ends heap a then 1 else 0) -
      if cell.any fun cell => cell.next.isNone then 1 else 0 := by
  have counted := countP_update (f := ends (Function.update heap a cell)) (g := ends heap) distinct member
    fun b other => by rw [ends, ends, Function.update_of_ne other]
  have here : ends (Function.update heap a cell) a = cell.any fun cell => cell.next.isNone := by
    rw [ends, Function.update_self]
  rw [excess, excess, counted, here]
  omega

omit [DecidableEq A] in
/-- A chain has one last cell if it has a cell. -/
theorem count_ends {items : List (A × V)} (chain : Chain heap p items) :
    (addresses items).countP (ends heap) = if p.isSome then 1 else 0 := by
  induction items generalizing p with
  | nil =>
    obtain rfl : p = none := chain
    rfl
  | cons item rest ih =>
    obtain ⟨a, v⟩ := item
    obtain ⟨rfl, next, cell, behind⟩ := chain
    have here : ends heap a = next.isNone := by
      rw [ends, cell]
      rfl
    rw [addresses_cons, List.countP_cons, ih behind, here]
    cases next <;> rfl

omit [DecidableEq A] in
/-- A table of chains has as many heads as last cells. -/
theorem count_heads (length : heads.length = rows.length)
    (chain : ∀ {j : Nat} {p row}, heads[j]? = some p → rows[j]? = some row → Chain heap p row) :
    heads.countP Option.isSome = (addresses rows.flatten).countP (ends heap) := by
  induction rows generalizing heads with
  | nil =>
    obtain rfl := List.eq_nil_of_length_eq_zero length
    rfl
  | cons row rest ih =>
    cases heads with
    | nil => cases length
    | cons p heads =>
      have here : Chain heap p row := chain (j := 0) rfl rfl
      have there := ih (Nat.succ.inj length) fun {j} {p} {row} at_head at_j => chain (j := j + 1) at_head at_j
      rw [List.flatten_cons, addresses_append, List.countP_append, ← there, count_ends here, List.countP_cons,
        Nat.add_comm]

omit [DecidableEq A] in
theorem Linked.excess_eq (linked : Linked heap heads rows) {cells : List A}
    (all : cells.Perm (addresses rows.flatten)) : excess heads heap cells = 0 := by
  rw [excess, all.countP_eq, count_heads linked.length linked.chain, Int.sub_self]

end Devent.ChainTable
