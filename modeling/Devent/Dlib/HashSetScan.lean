import Devent.Dlib.HashSetWalk

/-! `resize` bucket by bucket. A step that leaves a moved node behind adds to the heads that have no
last node, and no step takes any of them away. -/
namespace Devent.CHashSet
open Links ChainTable Buckets

variable {set set' : CHashSet} {rows old : List Row} {row first rest : Row} {rounds addRounds i : Nat}
  {n a b : Addr} {u v : Node} {head preNode : Option Addr} {cells : List Addr} {fresh : Nat → Byte}

/-- Bucket by bucket: the old ones up to `i` keep what stays, and the new ones hold what has moved
there, with its mark until they are visited. -/
structure Scanned (set : CHashSet) (old : List Row) (i : Nat) (rows : List Row) : Prop where
  linked : Linked set.nodes set.data rows
  length : rows.length = set.cap
  front : ∀ {r : Nat} {row}, old[r]? = some row → rows[r]? = some (if r < i then set.kept r row else row)
  behind : ∀ {r : Nat} {row}, old.length ≤ r → rows[r]? = some row → ∀ item ∈ row,
    set.dataIndex item.2.key = r ∧ (item.2.moved = true ↔ i ≤ r)
  strings : (strings rows).Perm (strings old)

/-- A string of an old bucket stays there or goes to a new one. -/
def Spreads (set : CHashSet) (old : List Row) : Prop := ∀ {r : Nat} {row}, old[r]? = some row → ∀ item ∈ row,
  set.dataIndex item.2.key = r ∨ old.length ≤ set.dataIndex item.2.key

/-- One fine bucket, from its head. -/
theorem bucket_fine (linked : Linked set.nodes set.data rows) (here : rows[i]? = some row)
    (distinct : (strings rows).Nodup) (enough : (strings rows).length ≤ rounds) (fine : set.Fine i false row)
    (buckets : ∀ item ∈ row, set.dataIndex item.2.key < rows.length) : ∃ head data nodes,
    set.data[i]? = some head ∧
      set.resizeBucket rounds i head rounds none head = some ({ set with data, nodes }, addresses row) ∧
      Linked nodes data ((set.movers i row).foldl place (rows.modify i fun _ => set.kept i row)) := by
  obtain ⟨at_head, walking⟩ := Walking.start linked here distinct enough buckets
  obtain ⟨data, nodes, walked, linked'⟩ := resizeBucket_fine walking (Nat.le_trans (row_length_le here) enough) fine
  exact ⟨_, data, nodes, at_head, walked, linked'⟩

theorem mem_movers {item : Nat × Addr × Node} (member : item ∈ set.movers i row) : ∃ source ∈ row,
    set.moves i source = true ∧ item = (set.dataIndex source.2.key, source.1, { source.2 with moved := true }) := by
  obtain ⟨source, inside, rfl⟩ := List.mem_map.mp member
  obtain ⟨inRow, going⟩ := List.mem_filter.mp inside
  exact ⟨source, inRow, going, rfl⟩

/-- What stays and what moves is the whole chain. -/
theorem keys_split (set : CHashSet) (i : Nat) (row : Row) :
    (keys row).Perm (keys (set.kept i row) ++ (set.movers i row).map fun item => item.2.2.key) := by
  have split : row.Perm ((row.filter fun item => !set.moves i item) ++ row.filter fun item => set.moves i item) :=
    (List.filter_append_perm (fun item => set.moves i item) row).symm.trans List.perm_append_comm
  have image := split.map fun item => item.2.key
  rw [List.map_append] at image
  simpa [keys, kept, movers, Function.comp_def] using image

theorem strings_resized (here : rows[i]? = some row) (bound : ∀ item ∈ set.movers i row, item.1 < rows.length) :
    (strings ((set.movers i row).foldl place (rows.modify i fun _ => set.kept i row))).Perm (strings rows) := by
  obtain ⟨before, after, whole, changed⟩ := strings_modify here (set.kept i row)
  have inside : ∀ item ∈ set.movers i row, item.1 < (rows.modify i fun _ => set.kept i row).length := by
    intro item member
    rw [List.length_modify]
    exact bound item member
  have placed := (distribute_perm inside).map fun item => item.2.key
  rw [List.map_append, List.map_map] at placed
  have split := keys_split set i row
  refine placed.trans ?_
  rw [whole]
  refine (List.Perm.append_right _ (List.Perm.of_eq changed)).trans ?_
  rw [List.append_assoc, List.append_assoc]
  refine List.Perm.append_left before ?_
  refine (List.Perm.append_left _ List.perm_append_comm).trans ?_
  rw [← List.append_assoc]
  exact split.symm.append_right after

theorem Scanned.buckets_lt (scanned : Scanned set old i rows) (inside : ∀ key, set.dataIndex key < set.cap)
    (row : Row) : ∀ item ∈ row, set.dataIndex item.2.key < rows.length := by
  intro item _
  rw [scanned.length]
  exact inside _

theorem Scanned.enough (scanned : Scanned set old i rows) (enough : (CHashSet.strings old).length ≤ rounds) :
    (CHashSet.strings rows).length ≤ rounds := by
  rw [scanned.strings.length_eq]
  exact enough

/-- What a scanned bucket leaves in the others. -/
theorem resized_get (r : Nat) :
    ((set.movers i row).foldl place (rows.modify i fun _ => set.kept i row))[r]? =
      (if i = r then rows[r]?.map fun _ => set.kept i row else rows[r]?).map
        (· ++ ((set.movers i row).filter fun item => item.1 = r).map Prod.snd) := by
  rw [distribute_get]
  by_cases same : i = r
  · subst same
    rw [if_pos rfl, List.getElem?_modify_eq]
    rfl
  · rw [if_neg same, List.getElem?_modify_ne _ _ same]

/-- An old bucket is scanned. -/
theorem Scanned.front_step (scanned : Scanned set old i rows) (spreads : Spreads set old) (here : old[i]? = some row)
    (inside : ∀ key, set.dataIndex key < set.cap) {data : List (Option Addr)} {nodes : Nodes}
    (linked : Linked nodes data ((set.movers i row).foldl place (rows.modify i fun _ => set.kept i row))) :
    Scanned { set with data, nodes } old (i + 1)
      ((set.movers i row).foldl place (rows.modify i fun _ => set.kept i row)) := by
  have at_i : rows[i]? = some row := by
    rw [scanned.front here, if_neg (Nat.lt_irrefl i)]
  have small : i < old.length := (List.getElem?_eq_some_iff.mp here).1
  have away : ∀ item ∈ set.movers i row, old.length ≤ item.1 := by
    intro item member
    obtain ⟨source, inRow, going, rfl⟩ := mem_movers member
    have still := moves_iff.mp going
    obtain home | far := spreads here source inRow
    · exact absurd home still.2
    · exact far
  have width : ((set.movers i row).foldl place (rows.modify i fun _ => set.kept i row)).length = rows.length := by
    rw [length_distribute, List.length_modify]
  have strings' := (strings_resized at_i fun item member => by
    obtain ⟨source, -, -, rfl⟩ := mem_movers member
    rw [scanned.length]
    exact inside _).trans scanned.strings
  refine ⟨linked, width.trans scanned.length, fun {r other} at_r => ?_,
    fun {r other} new at_r item member => ?_, strings'⟩
  · have none : (set.movers i row).filter (fun item => item.1 = r) = [] := by
      refine List.filter_eq_nil_iff.mpr fun item member => ?_
      have far := away item member
      have near := (List.getElem?_eq_some_iff.mp at_r).1
      simp only [decide_eq_true_eq]
      omega
    rw [resized_get, none]
    by_cases same : i = r
    · subst same
      cases here.symm.trans at_r
      rw [if_pos rfl, at_i, if_pos (Nat.lt_succ_self i)]
      exact congrArg some (List.append_nil _)
    · rw [if_neg same, scanned.front at_r]
      have later : r < i + 1 ↔ r < i := by omega
      simp only [later, List.map_nil, List.append_nil, Option.map_some]
      rfl
  · rw [resized_get, if_neg (show i ≠ r by omega)] at at_r
    obtain ⟨before, at_before, rfl⟩ := Option.map_eq_some_iff.mp at_r
    obtain inBefore | incoming := List.mem_append.mp member
    · obtain ⟨home, mark⟩ := scanned.behind new at_before item inBefore
      refine ⟨home, mark.trans ?_⟩
      omega
    · obtain ⟨⟨target, moved⟩, chosen, rfl⟩ := List.mem_map.mp incoming
      obtain ⟨member', equal⟩ := List.mem_filter.mp chosen
      obtain ⟨source, -, -, same⟩ := mem_movers member'
      cases same
      refine ⟨of_decide_eq_true equal, iff_of_true rfl ?_⟩
      show i + 1 ≤ r
      omega

/-- In a new bucket, the marks are taken away. -/
theorem Scanned.behind_moves (scanned : Scanned set old i rows) (new : old.length ≤ i) (here : rows[i]? = some row) :
    ∀ item ∈ row, set.moves i item = false := by
  intro item member
  have marked := (scanned.behind new here item member).2.mpr (Nat.le_refl i)
  rw [moves, marked]
  rfl

theorem fine_of_marked {before : Bool} (marked : ∀ item ∈ row, set.moves i item = false) : set.Fine i before row := by
  induction row generalizing before with
  | nil => trivial
  | cons item rest ih =>
    have here := marked item List.mem_cons_self
    refine ⟨fun going => ?_, ih fun item member => marked item (List.mem_cons_of_mem _ member)⟩
    rw [here] at going
    cases going

theorem movers_of_marked (marked : ∀ item ∈ row, set.moves i item = false) : set.movers i row = [] := by
  rw [movers, List.filter_eq_nil_iff.mpr]
  · rfl
  · intro item member
    rw [marked item member]
    exact Bool.false_ne_true

theorem Scanned.behind_step (scanned : Scanned set old i rows) (new : old.length ≤ i) (here : rows[i]? = some row)
    {data : List (Option Addr)} {nodes : Nodes} (linked : Linked nodes data (rows.modify i fun _ => set.kept i row)) :
    Scanned { set with data, nodes } old (i + 1) (rows.modify i fun _ => set.kept i row) := by
  refine ⟨linked, (List.length_modify ..).trans scanned.length, fun {r other} at_r => ?_,
    fun {r other} behind at_r item member => ?_, ?_⟩
  · have near := (List.getElem?_eq_some_iff.mp at_r).1
    rw [List.getElem?_modify_ne _ _ (show i ≠ r by omega), scanned.front at_r, if_pos (show r < i by omega),
      if_pos (show r < i + 1 by omega)]
    rfl
  · by_cases same : i = r
    · subst same
      rw [List.getElem?_modify_eq, here] at at_r
      cases at_r
      obtain ⟨source, inside, rfl⟩ := List.mem_map.mp member
      obtain ⟨home, -⟩ := scanned.behind new here source (List.mem_filter.mp inside).1
      refine ⟨home, iff_of_false Bool.false_ne_true ?_⟩
      exact Nat.not_succ_le_self i
    · rw [List.getElem?_modify_ne _ _ same] at at_r
      obtain ⟨home, mark⟩ := scanned.behind behind at_r item member
      refine ⟨home, mark.trans ?_⟩
      omega
  · have marked := scanned.behind_moves new here
    have kept : keys (set.kept i row) = keys row := by
      rw [CHashSet.kept, List.filter_eq_self.mpr fun item member => by rw [marked item member]; rfl]
      simp [keys, Function.comp_def]
    obtain ⟨before, after, whole, changed⟩ := strings_modify here (set.kept i row)
    rw [changed, kept, ← whole]
    exact scanned.strings

theorem resizeBuckets_append {m n : Nat} {middle last : CHashSet} {visits later : List Addr}
    (before : set.resizeBuckets rounds m i = some (middle, visits))
    (after : middle.resizeBuckets rounds n j = some (last, later)) (meet : j = i + m) :
    set.resizeBuckets rounds (m + n) i = some (last, visits ++ later) := by
  subst meet
  induction m generalizing set i visits with
  | zero =>
    rw [resizeBuckets] at before
    cases before
    rw [Nat.zero_add]
    exact after
  | succ m ih =>
    rw [resizeBuckets] at before
    obtain ⟨head, at_head, before⟩ := Option.bind_eq_some_iff.mp before
    obtain ⟨⟨next, here⟩, walked, before⟩ := Option.bind_eq_some_iff.mp before
    obtain ⟨⟨middle', there⟩, rest, same⟩ := Option.bind_eq_some_iff.mp before
    cases same
    have shifted : i + 1 + m = i + (m + 1) := by omega
    rw [Nat.succ_add, resizeBuckets, at_head]
    simp only [Option.bind_eq_bind, Option.bind_some, walked, ih rest (shifted ▸ after)]
    rw [List.append_assoc]
    rfl

theorem take_succ_flatten {table : List Row} (n : Nat) (here : table[i]? = some row) :
    addresses ((table.drop i).take (n + 1)).flatten =
      addresses row ++ addresses ((table.drop (i + 1)).take n).flatten := by
  obtain ⟨bound, rfl⟩ := List.getElem?_eq_some_iff.mp here
  rw [List.drop_eq_getElem_cons bound, List.take_succ_cons, List.flatten_cons, addresses_append]

/-- The old buckets, where all of them are fine. -/
theorem Scanned.front_run (scanned : Scanned set old i rows) (spreads : Spreads set old)
    (distinct : (CHashSet.strings old).Nodup) (enough : (CHashSet.strings old).length ≤ rounds)
    (inside : ∀ key, set.dataIndex key < set.cap) (n : Nat) (fits : i + n ≤ old.length)
    (fine : ∀ (r : Nat) row, i ≤ r → r < i + n → old[r]? = some row → set.Fine r false row) : ∃ data nodes rows',
    set.resizeBuckets rounds n i = some ({ set with data, nodes }, addresses ((old.drop i).take n).flatten) ∧
      Scanned { set with data, nodes } old (i + n) rows' := by
  induction n generalizing set rows i with
  | zero => exact ⟨set.data, set.nodes, rows, by simp [resizeBuckets], scanned⟩
  | succ n ih =>
    have here := List.getElem?_eq_getElem (show i < old.length by omega)
    have at_i : rows[i]? = some old[i] := by
      rw [scanned.front here, if_neg (Nat.lt_irrefl i)]
    obtain ⟨head, data, nodes, at_head, walked, linked⟩ := bucket_fine scanned.linked at_i
      (scanned.strings.nodup_iff.mpr distinct) (scanned.enough enough)
      (fine i _ (Nat.le_refl i) (by omega) here) (scanned.buckets_lt inside _)
    have next := scanned.front_step spreads here inside linked
    obtain ⟨data', nodes', rows', ended, scanned'⟩ := ih next spreads inside (by omega)
      fun r row after before at_r => (fine_same _ _).mpr (fine r row (by omega) (by omega) at_r)
    refine ⟨data', nodes', rows', ?_, ?_⟩
    · rw [resizeBuckets, at_head]
      simp only [Option.bind_eq_bind, Option.bind_some, walked, ended]
      rw [take_succ_flatten n here]
      rfl
    · have shifted : i + 1 + n = i + (n + 1) := by omega
      rw [← shifted]
      exact scanned'

/-- The new buckets. -/
theorem Scanned.behind_run (scanned : Scanned set old i rows) (distinct : (CHashSet.strings old).Nodup)
    (enough : (CHashSet.strings old).length ≤ rounds) (inside : ∀ key, set.dataIndex key < set.cap)
    (new : old.length ≤ i) (n : Nat) (fits : i + n ≤ rows.length) : ∃ data nodes rows',
    set.resizeBuckets rounds n i = some ({ set with data, nodes }, addresses ((rows.drop i).take n).flatten) ∧
      Scanned { set with data, nodes } old (i + n) rows' := by
  induction n generalizing set rows i with
  | zero => exact ⟨set.data, set.nodes, rows, by simp [resizeBuckets], scanned⟩
  | succ n ih =>
    have here := List.getElem?_eq_getElem (show i < rows.length by omega)
    have marked := scanned.behind_moves new here
    obtain ⟨head, data, nodes, at_head, walked, linked⟩ := bucket_fine scanned.linked here
      (scanned.strings.nodup_iff.mpr distinct) (scanned.enough enough) (fine_of_marked marked)
      (scanned.buckets_lt inside _)
    rw [movers_of_marked marked] at linked
    have next := scanned.behind_step new here linked
    obtain ⟨data', nodes', rows', ended, scanned'⟩ := ih next inside (by omega) (by
      rw [List.length_modify]
      omega)
    refine ⟨data', nodes', rows', ?_, ?_⟩
    · have rest : (rows.modify i fun _ => set.kept i rows[i]).drop (i + 1) = rows.drop (i + 1) := by
        apply List.ext_getElem? fun j => ?_
        rw [List.getElem?_drop, List.getElem?_drop, List.getElem?_modify_ne _ _ (by omega)]
      rw [resizeBuckets, at_head]
      simp only [Option.bind_eq_bind, Option.bind_some, walked, ended]
      rw [take_succ_flatten n here, rest]
      rfl
    · have shifted : i + 1 + n = i + (n + 1) := by omega
      rw [← shifted]
      exact scanned'

/-- Where the balance of heads and last nodes stays, all old buckets were fine. -/
theorem Scanned.fine_of_balance (scanned : Scanned set old i rows) (spreads : Spreads set old)
    (distinct : (CHashSet.strings old).Nodup) (enough : (CHashSet.strings old).length ≤ rounds)
    (inside : ∀ key, set.dataIndex key < set.cap) (pow : ∃ k, set.cap = 2 ^ k) (nodup : cells.Nodup)
    (within : Within set cells) {n : Nat} {visits : List Addr}
    (ended : set.resizeBuckets rounds n i = some (set', visits)) (balance : set'.excess cells ≤ set.excess cells)
    {r : Nat} (here : old[r]? = some row) (after : i ≤ r) (before : r < i + n) : set.Fine r false row := by
  induction n generalizing set rows i visits with
  | zero => omega
  | succ n ih =>
    have bound := (List.getElem?_eq_some_iff.mp here).1
    obtain ⟨current, at_i⟩ : ∃ current, old[i]? = some current :=
      ⟨_, List.getElem?_eq_getElem (show i < old.length by omega)⟩
    have at_row : rows[i]? = some current := by
      rw [scanned.front at_i, if_neg (Nat.lt_irrefl i)]
    have distinct' := scanned.strings.nodup_iff.mpr distinct
    have inBuckets := scanned.buckets_lt inside current
    rw [resizeBuckets] at ended
    obtain ⟨head, at_head, ended⟩ := Option.bind_eq_some_iff.mp ended
    obtain ⟨⟨next, visits'⟩, walked, ended⟩ := Option.bind_eq_some_iff.mp ended
    obtain ⟨⟨last, later⟩, rest, same⟩ := Option.bind_eq_some_iff.mp ended
    cases same
    obtain ⟨within', grown⟩ := resizeBucket_excess nodup within walked
    obtain ⟨-, grown'⟩ := resizeBuckets_excess nodup within' rest
    by_cases fine : set.Fine i false current
    · obtain ⟨head', data, nodes, at_head', walked', linked⟩ :=
        bucket_fine scanned.linked at_row distinct' (scanned.enough enough) fine inBuckets
      cases at_head.symm.trans at_head'
      cases walked.symm.trans walked'
      obtain same | further := Nat.eq_or_lt_of_le after
      · subst same
        cases at_i.symm.trans here
        exact fine
      · have kept := ih (scanned.front_step spreads at_i inside linked) spreads inside pow within' rest
          (Int.le_trans balance grown) further (by omega)
        exact (fine_same _ _).mp kept
    · obtain ⟨at_head', walking⟩ := Walking.start scanned.linked at_row distinct' (scanned.enough enough) inBuckets
      cases at_head.symm.trans at_head'
      have short : current.length ≤ rounds := Nat.le_trans (row_length_le at_row) (scanned.enough enough)
      have strict := resizeBucket_other walking short fine pow nodup within walked
      omega

end Devent.CHashSet
