import Devent.Dlib.HashSetProofs
import Devent.Library.Fuel

/-! What the steps of `resize` do to a `CHashSet` of any shape: more rounds do not change a result,
and no step takes a head away that has no last node. -/
namespace Devent.CHashSet
open Links ChainTable Buckets

variable {set set' : CHashSet} {rounds rounds' addRounds addRounds' i : Nat} {n a : Addr} {v : Node}
  {head preNode p next : Option Addr}

theorem addAfter_mono (more : rounds ≤ rounds') {result : CHashSet × Bool}
    (ended : set.addAfter n rounds a = some result) : set.addAfter n rounds' a = some result := by
  induction rounds generalizing a rounds' result with
  | zero => cases ended
  | succ rounds ih =>
    obtain ⟨rounds', rfl⟩ := Nat.exists_eq_add_one_of_ne_zero (Nat.ne_zero_of_lt more)
    rw [addAfter] at ended ⊢
    refine bind_some_mono (fun _ same => same) (fun cell result ended => ?_) ended
    obtain ⟨u, next⟩ := cell
    cases next with
    | none => exact ended
    | some next =>
      refine bind_some_mono (fun _ same => same) (fun new result ended => ?_) ended
      split at ended
      · next equal => rwa [if_pos equal]
      · next different =>
        rw [if_neg different]
        exact ih (Nat.le_of_succ_le_succ more) ended

theorem addInternal_mono (more : rounds ≤ rounds') {index : Int} {result : CHashSet × Bool}
    (ended : set.addInternal rounds index n = some result) : set.addInternal rounds' index n = some result := by
  rw [addInternal] at ended ⊢
  split at ended
  · cases ended
  · next nonneg =>
    rw [if_neg nonneg]
    refine bind_some_mono (fun _ same => same) (fun head result ended => ?_) ended
    split at ended
    · exact ended
    · exact addAfter_mono more ended

theorem resizeNode_mono (more : rounds ≤ rounds') (ended : set.resizeNode rounds i head preNode a = some set') :
    set.resizeNode rounds' i head preNode a = some set' := by
  rw [resizeNode] at ended ⊢
  refine bind_some_mono (fun _ same => same) (fun here result ended => ?_) ended
  split at ended
  · next moved => rwa [if_pos moved]
  · next still =>
    rw [if_neg still]
    dsimp only at ended ⊢
    split at ended
    · next home => rwa [if_pos home]
    · next away =>
      rw [if_neg away]
      refine bind_some_mono (fun _ same => same) (fun unlinked result ended => ?_) ended
      exact bind_some_mono (fun _ ended => addInternal_mono more ended) (fun _ _ same => same) ended

theorem resizeBucket_mono (more : rounds ≤ rounds') (addMore : addRounds ≤ addRounds') {result : CHashSet × List Addr}
    (ended : set.resizeBucket addRounds i head rounds preNode p = some result) :
    set.resizeBucket addRounds' i head rounds' preNode p = some result := by
  induction rounds generalizing set preNode p rounds' result with
  | zero =>
    cases p with
    | none =>
      rw [resizeBucket] at ended ⊢
      exact ended
    | some node => cases ended
  | succ rounds ih =>
    cases p with
    | none =>
      rw [resizeBucket] at ended ⊢
      exact ended
    | some node =>
      obtain ⟨rounds', rfl⟩ := Nat.exists_eq_add_one_of_ne_zero (Nat.ne_zero_of_lt more)
      rw [resizeBucket] at ended ⊢
      refine bind_some_mono (fun _ same => same) (fun here result ended => ?_) ended
      refine bind_some_mono (fun _ stepped => resizeNode_mono addMore stepped) (fun next result ended => ?_) ended
      exact bind_some_mono (fun _ walked => ih (Nat.le_of_succ_le_succ more) walked) (fun _ _ same => same) ended

theorem resizeBuckets_mono (more : rounds ≤ rounds') {buckets : Nat} {result : CHashSet × List Addr}
    (ended : set.resizeBuckets rounds buckets i = some result) : set.resizeBuckets rounds' buckets i = some result := by
  induction buckets generalizing set i result with
  | zero =>
    rw [resizeBuckets] at ended ⊢
    exact ended
  | succ buckets ih =>
    rw [resizeBuckets] at ended ⊢
    refine bind_some_mono (fun _ same => same) (fun head result ended => ?_) ended
    refine bind_some_mono (fun _ walked => resizeBucket_mono more more walked) (fun next result ended => ?_) ended
    exact bind_some_mono (fun _ later => ih later) (fun _ _ same => same) ended

/-- The nodes the set may reach are among the cells. -/
def Within (set : CHashSet) (cells : List Addr) : Prop := ∀ a, set.nodes a ≠ none → a ∈ cells

def excess (set : CHashSet) (cells : List Addr) : Int := ChainTable.excess set.data set.nodes cells

variable {cells : List Addr}

/-- A new value for a node there is. -/
theorem Within.store (within : Within set cells) (live : set.nodes a ≠ none) (cell : Option (Cell Addr Node))
    (data : List (Option Addr)) : Within { set with data, nodes := Function.update set.nodes a cell } cells := by
  intro b present
  by_cases same : b = a
  · subst same
    exact within b live
  · exact within b fun free => present ((Function.update_of_ne same ..).trans free)

theorem live_of_cell (cell : set.nodes a = some ⟨v, next⟩) : set.nodes a ≠ none := by
  rw [cell]
  exact Option.some_ne_none _

theorem ends_of_cell (cell : set.nodes a = some ⟨v, next⟩) : ends set.nodes a = next.isNone := by
  rw [ends, cell]
  rfl

theorem excess_head (cells : List Addr) (at_i : set.data[i]? = some p) (q : Option Addr) :
    excess { set with data := set.data.set i q } cells =
      set.excess cells - (if p.isSome then 1 else 0) + if q.isSome then 1 else 0 := excess_set at_i q

theorem Within.excess_node (within : Within set cells) (distinct : cells.Nodup) (here : set.nodes a = some ⟨v, next⟩)
    (w : Node) (q : Option Addr) : excess { set with nodes := Function.update set.nodes a (some ⟨w, q⟩) } cells =
      set.excess cells + (if next.isNone then 1 else 0) - if q.isNone then 1 else 0 := by
  rw [← ends_of_cell here]
  exact excess_store distinct (within a (live_of_cell here)) (some ⟨w, q⟩)

theorem Within.excess_free (within : Within set cells) (distinct : cells.Nodup) (here : set.nodes a = some ⟨v, next⟩) :
    excess { set with nodes := Function.update set.nodes a none } cells =
      set.excess cells + if next.isNone then 1 else 0 := by
  rw [← ends_of_cell here]
  exact (excess_store distinct (within a (live_of_cell here)) none).trans (Int.sub_zero _)

theorem link_cases {set set' : CHashSet} (linked : set.link a next = some set') : ∃ here, set.nodes a = some here ∧
    set' = { set with nodes := Function.update set.nodes a (some ⟨here.value, next⟩) } := by
  obtain ⟨here, cell, same⟩ := Option.bind_eq_some_iff.mp linked
  exact ⟨here, cell, (Option.some.inj same).symm⟩

theorem addAfter_cases {added : Bool} (ended : set.addAfter n rounds a = some (set', added)) :
    (added = true ∧ ∃ b u, set.nodes b = some ⟨u, none⟩ ∧
        set' = { set with nodes := Function.update set.nodes b (some ⟨u, some n⟩) }) ∨
      (added = false ∧ set' = set) := by
  induction rounds generalizing a with
  | zero => cases ended
  | succ rounds ih =>
    rw [addAfter] at ended
    obtain ⟨⟨u, next⟩, cell, ended⟩ := Option.bind_eq_some_iff.mp ended
    cases next with
    | none =>
      obtain ⟨linked, stepped, same⟩ := Option.bind_eq_some_iff.mp ended
      obtain ⟨here, cell', rfl⟩ := link_cases stepped
      cases cell.symm.trans cell'
      cases same
      exact .inl ⟨rfl, a, u, cell, rfl⟩
    | some next =>
      obtain ⟨new, -, ended⟩ := Option.bind_eq_some_iff.mp ended
      split at ended
      · cases ended
        exact .inr ⟨rfl, rfl⟩
      · exact ih ended

/-- A node that is added takes a head or a last node's place. -/
theorem addInternal_excess (distinct : cells.Nodup) (within : Within set cells) {index : Int} {added : Bool}
    (ended : set.addInternal rounds index n = some (set', added)) :
    Within set' cells ∧ (added = true → set'.excess cells = set.excess cells + 1) ∧ (added = false → set' = set) := by
  rw [addInternal] at ended
  split at ended
  · cases ended
  · obtain ⟨p, at_head, ended⟩ := Option.bind_eq_some_iff.mp ended
    cases p with
    | none =>
      cases ended
      have counted := excess_head cells at_head (some n)
      exact ⟨within, fun _ => by simpa using counted, fun refused => by cases refused⟩
    | some a =>
      obtain ⟨rfl, b, u, cell, rfl⟩ | ⟨rfl, rfl⟩ := addAfter_cases ended
      · have stored := within.excess_node distinct cell u (some n)
        exact ⟨within.store (live_of_cell cell) _ _, fun _ => by simpa using stored, fun refused => by cases refused⟩
      · exact ⟨within, fun accepted => Bool.noConfusion accepted, fun _ => rfl⟩

theorem unlink_excess (distinct : cells.Nodup) (within : Within set cells) (cell : set.nodes a = some ⟨v, next⟩)
    {unlinked : CHashSet} (ended : set.unlink i head preNode a next = some unlinked) :
    Within unlinked cells ∧ (∃ w, unlinked.nodes a = some ⟨w, next⟩) ∧
      set.excess cells ≤ unlinked.excess cells + (if next.isNone then 1 else 0) ∧
      (some a ≠ head → ∀ b u, preNode = some b → set.nodes b = some ⟨u, none⟩ →
        set.excess cells + 1 ≤ unlinked.excess cells + if next.isNone then 1 else 0) := by
  rw [unlink] at ended
  split at ended
  · next first =>
    cases ended
    refine ⟨within, ⟨v, cell⟩, ?_, fun other => absurd first other⟩
    cases at_i : set.data[i]? with
    | none =>
      have same : set.data.set i next = set.data := List.set_eq_of_length_le (List.getElem?_eq_none_iff.mp at_i)
      rw [same]
      show set.excess cells ≤ set.excess cells + _
      split <;> omega
    | some p =>
      rw [excess_head cells at_i next]
      cases next <;> simp <;> split <;> omega
  · next other =>
    obtain ⟨b, rfl, linked⟩ := Option.bind_eq_some_iff.mp ended
    obtain ⟨⟨u, after⟩, before, rfl⟩ := link_cases linked
    have stored := within.excess_node distinct before u next
    refine ⟨within.store (live_of_cell before) _ _, ?_, ?_, fun _ c w same cell' => ?_⟩
    · by_cases same : a = b
      · subst same
        exact ⟨u, Function.update_self ..⟩
      · exact ⟨v, (Function.update_of_ne same ..).trans cell⟩
    · rw [stored]
      split <;> omega
    · cases same
      cases before.symm.trans cell'
      rw [stored, Option.isNone_none, if_pos rfl]
      omega

/-- One step takes no head and no last node away from the balance, and adds to it where the node
before has become a last node. -/
theorem resizeNode_excess (distinct : cells.Nodup) (within : Within set cells)
    (ended : set.resizeNode rounds i head preNode a = some set') :
    Within set' cells ∧ set.excess cells ≤ set'.excess cells ∧
      (∀ v next b u, set.nodes a = some ⟨v, next⟩ → v.moved = false → i ≠ set.dataIndex v.key → some a ≠ head →
        preNode = some b → set.nodes b = some ⟨u, none⟩ → set.excess cells < set'.excess cells) := by
  rw [resizeNode] at ended
  obtain ⟨⟨v, next⟩, cell, ended⟩ := Option.bind_eq_some_iff.mp ended
  split at ended
  · next moved =>
    cases ended
    refine ⟨within.store (live_of_cell cell) _ _, ?_, fun v' next' b u cell' still => ?_⟩
    · have stored := within.excess_node distinct cell { v with moved := false } next
      rw [Int.add_sub_cancel] at stored
      exact Int.le_of_eq stored.symm
    · cases cell.symm.trans cell'
      rw [moved] at still
      cases still
  · next still =>
    dsimp only at ended
    split at ended
    · next home =>
      cases ended
      refine ⟨within, Int.le_refl _, fun v' next' b u cell' _ away => ?_⟩
      cases cell.symm.trans cell'
      exact absurd home away
    · obtain ⟨unlinked, stepped, ended⟩ := Option.bind_eq_some_iff.mp ended
      obtain ⟨within', ⟨w, cell'⟩, most, strict⟩ := unlink_excess distinct within cell stepped
      have flagged := within'.store (live_of_cell cell') (some ⟨{ v with moved := true }, none⟩) unlinked.data
      have stored := within'.excess_node distinct cell' { v with moved := true } none
      rw [Option.isNone_none, if_pos rfl] at stored
      obtain ⟨⟨last, added⟩, inserted, same⟩ := Option.bind_eq_some_iff.mp ended
      obtain ⟨within'', one, none⟩ := addInternal_excess distinct flagged inserted
      have gained : Within set' cells ∧ set'.excess cells = unlinked.excess cells + if next.isNone then 1 else 0 := by
        cases added with
        | true =>
          cases same
          refine ⟨within'', (one rfl).trans ?_⟩
          rw [stored]
          omega
        | false =>
          obtain rfl := none rfl
          cases same
          have freed := flagged.excess_free distinct (Function.update_self ..)
          refine ⟨flagged.store (live_of_cell (Function.update_self ..)) _ _, freed.trans ?_⟩
          rw [stored]
          simp
      refine ⟨gained.1, ?_, fun v' next' b u cell'' _ _ other same cellB => ?_⟩
      · rw [gained.2]
        exact most
      · have more := strict other b u same cellB
        rw [gained.2]
        omega

theorem resizeBucket_excess (distinct : cells.Nodup) (within : Within set cells) {visits : List Addr}
    (ended : set.resizeBucket addRounds i head rounds preNode p = some (set', visits)) :
    Within set' cells ∧ set.excess cells ≤ set'.excess cells := by
  induction rounds generalizing set preNode p visits with
  | zero =>
    cases p with
    | none =>
      rw [resizeBucket] at ended
      cases ended
      exact ⟨within, Int.le_refl _⟩
    | some node => cases ended
  | succ rounds ih =>
    cases p with
    | none =>
      rw [resizeBucket] at ended
      cases ended
      exact ⟨within, Int.le_refl _⟩
    | some node =>
      rw [resizeBucket] at ended
      obtain ⟨here, -, ended⟩ := Option.bind_eq_some_iff.mp ended
      obtain ⟨after, stepped, ended⟩ := Option.bind_eq_some_iff.mp ended
      obtain ⟨⟨last, later⟩, walked, same⟩ := Option.bind_eq_some_iff.mp ended
      cases same
      obtain ⟨kept, grown, -⟩ := resizeNode_excess distinct within stepped
      obtain ⟨kept', grown'⟩ := ih kept walked
      exact ⟨kept', Int.le_trans grown grown'⟩

theorem resizeBuckets_excess (distinct : cells.Nodup) (within : Within set cells) {buckets : Nat} {visits : List Addr}
    (ended : set.resizeBuckets rounds buckets i = some (set', visits)) :
    Within set' cells ∧ set.excess cells ≤ set'.excess cells := by
  induction buckets generalizing set i visits with
  | zero =>
    rw [resizeBuckets] at ended
    cases ended
    exact ⟨within, Int.le_refl _⟩
  | succ buckets ih =>
    rw [resizeBuckets] at ended
    obtain ⟨head, -, ended⟩ := Option.bind_eq_some_iff.mp ended
    obtain ⟨⟨after, visits'⟩, walked, ended⟩ := Option.bind_eq_some_iff.mp ended
    obtain ⟨⟨last, later⟩, rest, same⟩ := Option.bind_eq_some_iff.mp ended
    cases same
    obtain ⟨kept, grown⟩ := resizeBucket_excess distinct within walked
    obtain ⟨kept', grown'⟩ := ih kept rest
    exact ⟨kept', Int.le_trans grown grown'⟩

end Devent.CHashSet
