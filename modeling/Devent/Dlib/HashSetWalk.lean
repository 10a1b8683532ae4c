import Devent.Dlib.HashSetBalance

/-! The walk of `resize` through one bucket. A node that moves is linked out behind the node visited
before it, which is wrong if that one has moved too: both then stay in the old chain. -/
namespace Devent.CHashSet
open Links ChainTable Buckets

variable {set set' : CHashSet} {rows old : List Row} {row first rest : Row} {rounds addRounds i : Nat}
  {n a b : Addr} {u v : Node} {head preNode : Option Addr} {cells : List Addr} {fresh : Nat → Byte}

/-- The node is not in its new bucket, and has not been moved. -/
def moves (set : CHashSet) (i : Nat) (item : Addr × Node) : Bool :=
  !item.2.moved && decide (set.dataIndex item.2.key ≠ i)

theorem moves_iff : set.moves i (a, v) = true ↔ v.moved = false ∧ set.dataIndex v.key ≠ i := by
  simp [moves]

def kept (set : CHashSet) (i : Nat) (row : Row) : Row :=
  (row.filter fun item => !set.moves i item).map fun item => (item.1, { item.2 with moved := false })

/-- Where the moving nodes go. -/
def movers (set : CHashSet) (i : Nat) (row : Row) : List (Nat × Addr × Node) :=
  (row.filter fun item => set.moves i item).map fun item =>
    (set.dataIndex item.2.key, item.1, { item.2 with moved := true })

/-- No node moves behind one that has moved, and the new buckets are an `int`. -/
def Fine (set : CHashSet) (i : Nat) : Bool → Row → Prop
  | _, [] => True
  | before, item :: rest =>
    (set.moves i item = true → before = false ∧ set.dataIndex item.2.key < 2 ^ 31) ∧ Fine set i (set.moves i item) rest

theorem Fine.later {before going : Bool} {item : Addr × Node} (fine : set.Fine i before (item :: rest))
    (is_going : set.moves i item = going) : set.Fine i going rest := by
  have both := fine.2
  rwa [is_going] at both

theorem fine_same {before : Bool} (data : List (Option Addr)) (nodes : Nodes) :
    Fine { set with data, nodes } i before rest ↔ Fine set i before rest := by
  induction rest generalizing before with
  | nil => exact Iff.rfl
  | cons item rest ih => exact and_congr Iff.rfl ih

/-- A node that stays loses its mark. -/
theorem resizeNode_keeps (rounds : Nat) (head preNode : Option Addr) (linked : Linked set.nodes set.data rows)
    (here : rows[i]? = some (first ++ (a, v) :: rest)) (stays : set.moves i (a, v) = false) : ∃ nodes,
    set.resizeNode rounds i head preNode a = some { set with nodes } ∧
      Linked nodes set.data (rows.modify i fun _ => first ++ (a, { v with moved := false }) :: rest) := by
  have cell := linked.cell here
  rw [resizeNode, cell]
  simp only [Option.bind_eq_bind, Option.bind_some]
  by_cases moved : v.moved = true
  · rw [if_pos moved]
    exact ⟨_, rfl, linked.relabel here cell _⟩
  · rw [if_neg moved]
    have home : i = set.dataIndex v.key := by
      simp only [moves, Bool.not_eq_true] at moved stays
      rw [moved] at stays
      have same : set.dataIndex v.key = i := by simpa using stays
      exact same.symm
    have same : ({ v with moved := false } : Node) = v := by
      rw [Bool.not_eq_true] at moved
      rw [← moved]
    rw [if_pos home, same]
    refine ⟨set.nodes, rfl, ?_⟩
    rw [modify_same here]
    exact linked

/-- What is visited: whether the node before has moved, the nodes that stay in front, and the nodes to come. -/
inductive Position (set : CHashSet) (head preNode : Option Addr) : Bool → Row → Row → Prop
  | start {rest : Row} (here : head = rest.head?.map Prod.fst) : Position set head preNode false [] rest
  | behind {front rest : Row} {b : Addr} {u : Node} (pre : preNode = some b)
    (away : ∀ a ∈ addresses rest, head ≠ some a) : Position set head preNode false (front ++ [(b, u)]) rest
  | moved {first rest : Row} {b : Addr} {u : Node} (pre : preNode = some b) (cell : set.nodes b = some ⟨u, none⟩)
    (away : ∀ a ∈ addresses rest, head ≠ some a) : Position set head preNode true first rest

theorem Position.later {before : Bool} (position : Position set head preNode before first ((a, v) :: rest))
    (apart : a ∉ addresses rest) : ∀ b ∈ addresses rest, head ≠ some b := by
  intro b member
  cases position with
  | start here =>
    rw [here]
    rintro ⟨⟩
    exact apart member
  | behind pre away => exact away b (List.mem_cons_of_mem _ member)
  | moved pre cell away => exact away b (List.mem_cons_of_mem _ member)

theorem unlink_spec (linked : Linked set.nodes set.data rows) (here : rows[i]? = some (first ++ (a, v) :: rest))
    (position : Position set head preNode false first ((a, v) :: rest)) (left : Option (Cell Addr Node)) :
    ∃ data nodes, set.unlink i head preNode a (rest.head?.map Prod.fst) = some { set with data, nodes } ∧
      Linked (Function.update nodes a left) data (rows.modify i fun _ => first ++ rest) := by
  have cell := linked.cell here
  cases position with
  | start first =>
    rw [unlink, if_pos (show some a = head from first.symm)]
    exact ⟨_, _, rfl, linked.unlink_head here cell left⟩
  | @behind front _ b u pre away =>
    have other : some a ≠ head := fun same => away a List.mem_cons_self same.symm
    rw [List.append_assoc] at here ⊢
    have before := linked.cell here
    rw [unlink, if_neg other, pre]
    simp only [Option.bind_eq_bind, Option.bind_some, link, before]
    exact ⟨_, _, rfl, linked.unlink_behind here cell left⟩

theorem keys_middle (first rest : Row) (a : Addr) (v : Node) :
    (keys (first ++ (a, v) :: rest)).Perm (v.key :: keys (first ++ rest)) := by
  have middle : (first ++ (a, v) :: rest).Perm ((a, v) :: (first ++ rest)) := List.perm_middle
  exact middle.map fun item => item.2.key

/-- A node moves to the end of its new bucket. -/
theorem resizeNode_moves (linked : Linked set.nodes set.data rows) (here : rows[i]? = some (first ++ (a, v) :: rest))
    (distinct : (strings rows).Nodup) (enough : (strings rows).length ≤ rounds)
    (position : Position set head preNode false first ((a, v) :: rest)) (going : set.moves i (a, v) = true)
    (bucket : set.dataIndex v.key < rows.length) (narrow : set.dataIndex v.key < 2 ^ 31) : ∃ data nodes,
    set.resizeNode rounds i head preNode a = some { set with data, nodes } ∧
      Linked nodes data
        (place (rows.modify i fun _ => first ++ rest) (set.dataIndex v.key, a, { v with moved := true })) ∧
      nodes a = some ⟨{ v with moved := true }, none⟩ := by
  have cell := linked.cell here
  have still := moves_iff.mp going
  obtain ⟨data, nodes, unlinked, linked'⟩ := unlink_spec linked here position (some ⟨{ v with moved := true }, none⟩)
  have dropped := strings_drop here (keys_middle first rest a v)
  have target : (rows.modify i fun _ => first ++ rest)[set.dataIndex v.key]? = some rows[set.dataIndex v.key] := by
    rw [List.getElem?_modify_ne _ _ still.2.symm, List.getElem?_eq_getElem bucket]
  have new : a ∉ addresses (rows.modify i fun _ => first ++ rest).flatten := by
    obtain ⟨before, after, whole, changed⟩ := flatten_modify (fun _ => first ++ rest) here
    have apart := linked.apart
    rw [whole] at apart
    rw [changed]
    simp only [List.append_assoc, List.cons_append] at apart ⊢
    rw [← List.append_assoc] at apart ⊢
    have away := apart_of_nodup apart
    rw [addresses_append, List.mem_append]
    exact not_or.mpr away
  have absent : v.key ∉ keys rows[set.dataIndex v.key].dropLast := by
    intro member
    have inside : v.key ∈ strings (rows.modify i fun _ => first ++ rest) := by
      have sub := (List.sublist_flatten_of_mem (List.mem_of_getElem? target)).map fun item => item.2.key
      exact sub.mem (((List.dropLast_sublist _).map fun item : Addr × Node => item.2.key).mem member)
    exact (List.nodup_cons.mp (dropped.nodup_iff.mp distinct)).1 inside
  have short : rows[set.dataIndex v.key].length ≤ rounds := by
    have within := row_length_le target
    have fewer := dropped.length_eq
    rw [List.length_cons] at fewer
    omega
  obtain ⟨data', nodes', added, linked'', frame⟩ :=
    addInternal_appends { set with data, nodes := Function.update nodes a (some ⟨{ v with moved := true }, none⟩) }
      linked' target (Function.update_self ..) new absent short
  refine ⟨data', nodes', ?_, linked'', (frame a new).trans (Function.update_self ..)⟩
  rw [resizeNode, cell]
  simp only [Option.bind_eq_bind, Option.bind_some, still.1, Bool.false_eq_true, if_false, if_neg still.2.symm,
    unlinked, intT_small narrow, added]
  rfl

theorem kept_cons (set : CHashSet) (i : Nat) (item : Addr × Node) (rest : Row) :
    set.kept i (item :: rest) =
      if set.moves i item then set.kept i rest else (item.1, { item.2 with moved := false }) :: set.kept i rest := by
  simp only [kept, List.filter_cons]
  cases set.moves i item <;> rfl

theorem movers_cons (set : CHashSet) (i : Nat) (item : Addr × Node) (rest : Row) :
    set.movers i (item :: rest) =
      if set.moves i item then
        (set.dataIndex item.2.key, item.1, { item.2 with moved := true }) :: set.movers i rest
      else set.movers i rest := by
  simp only [movers, List.filter_cons]
  cases set.moves i item <;> rfl

/-- The walk through bucket `i` has passed `first`. -/
structure Walking (set : CHashSet) (rows : List Row) (i addRounds : Nat) (head preNode : Option Addr) (before : Bool)
    (first rest : Row) : Prop where
  linked : Linked set.nodes set.data rows
  here : rows[i]? = some (first ++ rest)
  distinct : (strings rows).Nodup
  enough : (strings rows).length ≤ addRounds
  position : Position set head preNode before first rest
  buckets : ∀ item ∈ rest, set.dataIndex item.2.key < rows.length

theorem Walking.start (linked : Linked set.nodes set.data rows) (here : rows[i]? = some row)
    (distinct : (strings rows).Nodup) (enough : (strings rows).length ≤ addRounds)
    (buckets : ∀ item ∈ row, set.dataIndex item.2.key < rows.length) :
    set.data[i]? = some (row.head?.map Prod.fst) ∧
      Walking set rows i addRounds (row.head?.map Prod.fst) none false [] row := by
  obtain ⟨p, at_head, chain⟩ := linked.head here
  obtain rfl : p = row.head?.map Prod.fst := chain.start_eq.trans Option.or_none
  exact ⟨at_head, linked, here, distinct, enough, .start rfl, buckets⟩

/-- What a step has to show for the walk to go on. -/
theorem Walking.step {before before' : Bool} {first' : Row} {item : Addr × Node} {preNode' : Option Addr}
    {rows' : List Row} {data : List (Option Addr)} {nodes : Nodes}
    (walking : Walking set rows i addRounds head preNode before first (item :: rest))
    (linked : Linked nodes data rows') (here : rows'[i]? = some (first' ++ rest)) (width : rows'.length = rows.length)
    (perm : (strings rows').Perm (strings rows))
    (position : Position { set with data, nodes } head preNode' before' first' rest) :
    Walking { set with data, nodes } rows' i addRounds head preNode' before' first' rest where
  linked := linked
  here := here
  distinct := perm.nodup_iff.mpr walking.distinct
  enough := perm.length_eq ▸ walking.enough
  position := position
  buckets item member := width ▸ walking.buckets item (List.mem_cons_of_mem _ member)

theorem Walking.away {before : Bool}
    (walking : Walking set rows i addRounds head preNode before first ((a, v) :: rest)) :
    ∀ b ∈ addresses rest, head ≠ some b := by
  obtain ⟨p, at_head, chain⟩ := walking.linked.head walking.here
  exact walking.position.later (apart_of_nodup chain.nodup).2

/-- The step over a node that stays. -/
theorem Walking.keeps {before : Bool}
    (walking : Walking set rows i addRounds head preNode before first ((a, v) :: rest))
    (stays : set.moves i (a, v) = false) : ∃ nodes rows',
    set.resizeNode addRounds i head preNode a = some { set with nodes } ∧
      rows' = (rows.modify i fun _ => (first ++ [(a, { v with moved := false })]) ++ rest) ∧
      Walking { set with nodes } rows' i addRounds head (some a) false (first ++ [(a, { v with moved := false })])
        rest := by
  have here := walking.here
  obtain ⟨nodes, stepped, linked⟩ := resizeNode_keeps addRounds head preNode walking.linked here stays
  refine ⟨nodes, _, stepped, ?_, walking.step linked ?_ (List.length_modify ..) ?_ (.behind rfl walking.away)⟩
  · rw [List.append_assoc]
    rfl
  · rw [List.getElem?_modify_eq, here, List.append_assoc]
    rfl
  · obtain ⟨front, after, whole, changed⟩ := strings_modify here (first ++ (a, { v with moved := false }) :: rest)
    rw [whole, changed]
    simp [keys]

/-- The step over a node that moves. -/
theorem Walking.moves (walking : Walking set rows i addRounds head preNode false first ((a, v) :: rest))
    (going : set.moves i (a, v) = true) (narrow : set.dataIndex v.key < 2 ^ 31) : ∃ data nodes rows',
    set.resizeNode addRounds i head preNode a = some { set with data, nodes } ∧
      rows' = place (rows.modify i fun _ => first ++ rest) (set.dataIndex v.key, a, { v with moved := true }) ∧
      Walking { set with data, nodes } rows' i addRounds head (some a) true first rest := by
  have here := walking.here
  have bucket := walking.buckets (a, v) List.mem_cons_self
  obtain ⟨data, nodes, stepped, linked, cell⟩ :=
    resizeNode_moves walking.linked here walking.distinct walking.enough walking.position going bucket narrow
  have away : set.dataIndex v.key ≠ i := (moves_iff.mp going).2
  have width : (rows.modify i fun _ => first ++ rest).length = rows.length := List.length_modify ..
  refine ⟨data, nodes, _, stepped, rfl, walking.step linked ?_ ((List.length_modify ..).trans width) ?_
    (.moved rfl cell walking.away)⟩
  · rw [place, List.getElem?_modify_ne _ _ away, List.getElem?_modify_eq, here]
    rfl
  · exact (strings_place (width.symm ▸ bucket)).trans (strings_drop here (keys_middle first rest a v)).symm

/-- A fine bucket: the moving nodes are put behind their new chains, the others stay in order. -/
theorem resizeBucket_fine {before : Bool} (walking : Walking set rows i addRounds head preNode before first rest)
    (enough : rest.length ≤ rounds) (fine : set.Fine i before rest) : ∃ data nodes,
    set.resizeBucket addRounds i head rounds preNode (rest.head?.map Prod.fst) =
        some ({ set with data, nodes }, addresses rest) ∧
      Linked nodes data ((set.movers i rest).foldl place (rows.modify i fun _ => first ++ set.kept i rest)) := by
  induction rest generalizing set rows rounds preNode before first with
  | nil =>
    refine ⟨set.data, set.nodes, ?_, ?_⟩
    · cases rounds <;> rfl
    · have same : first ++ set.kept i [] = first ++ [] := rfl
      rw [same, modify_same walking.here]
      exact walking.linked
  | cons item rest ih =>
    obtain ⟨a, v⟩ := item
    obtain ⟨rounds, rfl⟩ := Nat.exists_eq_add_one_of_ne_zero (Nat.ne_zero_of_lt enough)
    have shorter := Nat.le_of_succ_le_succ enough
    rw [kept_cons, movers_cons, List.head?_cons, Option.map_some, resizeBucket, walking.linked.cell walking.here]
    simp only [Option.bind_eq_bind, Option.bind_some]
    by_cases going : set.moves i (a, v) = true
    · obtain ⟨rfl, narrow⟩ := fine.1 going
      obtain ⟨data, nodes, rows', stepped, shape, walking'⟩ := walking.moves going narrow
      obtain ⟨data', nodes', walked, linked⟩ := ih walking' shorter ((fine_same _ _).mpr (fine.later going))
      refine ⟨data', nodes', ?_, ?_⟩
      · rw [stepped]
        simp only [Option.bind_some, walked]
        rfl
      · rw [if_pos going, if_pos going, List.foldl_cons]
        have away : set.dataIndex v.key ≠ i := (moves_iff.mp going).2
        have commuted : (rows'.modify i fun _ => first ++ set.kept i rest) =
            place (rows.modify i fun _ => first ++ set.kept i rest)
              (set.dataIndex v.key, a, { v with moved := true }) := by
          rw [shape, place, place, List.modify_modify_ne _ _ _ away, List.modify_modify_eq]
          rfl
        rw [← commuted]
        exact linked
    · have stays : set.moves i (a, v) = false := Bool.not_eq_true _ ▸ going
      obtain ⟨nodes, rows', stepped, shape, walking'⟩ := walking.keeps stays
      obtain ⟨data', nodes', walked, linked⟩ := ih walking' shorter ((fine_same _ _).mpr (fine.later stays))
      refine ⟨data', nodes', ?_, ?_⟩
      · rw [stepped]
        simp only [Option.bind_some, walked]
        rfl
      · rw [if_neg going, if_neg going]
        have merged : (rows'.modify i fun _ => (first ++ [(a, { v with moved := false })]) ++ set.kept i rest) =
            rows.modify i fun _ => first ++ (a, { v with moved := false }) :: set.kept i rest := by
          rw [shape, List.modify_modify_eq, List.append_assoc]
          rfl
        rw [← merged]
        exact linked

/-- A node whose bucket index is cut is not moved anywhere: the access is outside. -/
theorem Walking.cut (walking : Walking set rows i addRounds head preNode false first ((a, v) :: rest))
    (going : set.moves i (a, v) = true) (pow : ∃ k, set.cap = 2 ^ k) (wide : 2 ^ 31 ≤ set.dataIndex v.key) :
    set.resizeNode addRounds i head preNode a = none := by
  obtain ⟨data, nodes, unlinked, -⟩ := unlink_spec walking.linked walking.here walking.position none
  have still := moves_iff.mp going
  have negative := intT_dataIndex_neg pow wide
  rw [resizeNode, walking.linked.cell walking.here]
  simp only [Option.bind_eq_bind, Option.bind_some, still.1, Bool.false_eq_true, if_false, if_neg still.2.symm,
    unlinked, addInternal, if_pos negative, Option.bind_none]

/-- Any other bucket ends in an access outside, or with a head too much. -/
theorem resizeBucket_other {before : Bool} (walking : Walking set rows i addRounds head preNode before first rest)
    (enough : rest.length ≤ rounds) (other : ¬set.Fine i before rest) (pow : ∃ k, set.cap = 2 ^ k)
    (nodup : cells.Nodup) (within : Within set cells) {visits : List Addr}
    (ended : set.resizeBucket addRounds i head rounds preNode (rest.head?.map Prod.fst) = some (set', visits)) :
    set.excess cells < set'.excess cells := by
  induction rest generalizing set rows rounds preNode before first visits with
  | nil => exact absurd trivial other
  | cons item rest ih =>
    obtain ⟨a, v⟩ := item
    obtain ⟨rounds, rfl⟩ := Nat.exists_eq_add_one_of_ne_zero (Nat.ne_zero_of_lt enough)
    have cell := walking.linked.cell walking.here
    have shorter := Nat.le_of_succ_le_succ enough
    rw [List.head?_cons, Option.map_some, resizeBucket, cell] at ended
    simp only [Option.bind_eq_bind, Option.bind_some] at ended
    obtain ⟨after, stepped, ended⟩ := Option.bind_eq_some_iff.mp ended
    obtain ⟨⟨last, later⟩, walked, same⟩ := Option.bind_eq_some_iff.mp ended
    cases same
    obtain ⟨within', grown, strict⟩ := resizeNode_excess nodup within stepped
    by_cases going : set.moves i (a, v) = true
    · have still := moves_iff.mp going
      cases before with
      | true =>
        cases walking.position with
        | moved pre cell' away =>
          have more := strict v _ _ _ cell still.1 still.2.symm (Ne.symm (away a List.mem_cons_self)) pre cell'
          exact Int.lt_of_lt_of_le more (resizeBucket_excess nodup within' walked).2
      | false =>
        by_cases narrow : set.dataIndex v.key < 2 ^ 31
        · obtain ⟨data, nodes, rows', stepped', -, walking'⟩ := walking.moves going narrow
          cases stepped.symm.trans stepped'
          have other' : ¬set.Fine i true rest := by
            intro fine
            rw [← going] at fine
            exact other ⟨fun _ => ⟨rfl, narrow⟩, fine⟩
          exact Int.lt_of_le_of_lt grown
            (ih walking' shorter (fun fine => other' ((fine_same _ _).mp fine)) pow within' walked)
        · rw [walking.cut going pow (Nat.not_lt.mp narrow)] at stepped
          cases stepped
    · have stays : set.moves i (a, v) = false := Bool.not_eq_true _ ▸ going
      obtain ⟨nodes, rows', stepped', -, walking'⟩ := walking.keeps stays
      cases stepped.symm.trans stepped'
      have other' : ¬set.Fine i false rest := by
        intro fine
        rw [← stays] at fine
        exact other ⟨fun moved => absurd moved going, fine⟩
      exact Int.lt_of_le_of_lt grown
        (ih walking' shorter (fun fine => other' ((fine_same _ _).mp fine)) pow within' walked)

end Devent.CHashSet
