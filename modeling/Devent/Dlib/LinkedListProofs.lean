import Devent.Dlib.LinkedList
import Devent.Library.Keyed
import Devent.Library.Run
import Mathlib.Data.List.Lemmas

/-! The linked list against sequences. A list is the sequence of its nodes, each with its value;
lists never share a node, so a call changes the sequence it is about and no other. -/
namespace Devent.CLinkedList
open Links

variable {V : Type}

/-- The elements of a list, named by their nodes. -/
abbrev Items (V : Type) := List (NodeAddr × Option V)

/-- The three fields of a list describe a sequence. -/
structure IsList (nodes : Nodes V) (list : CLinkedList) (items : Items V) : Prop where
  chain : Chain nodes list.header items
  acyclic : (addresses items).Nodup
  footer : list.footer = items.getLast?.map Prod.fst
  len : list.len = items.length

variable {nodes nodes' : Nodes V} {list dest src : CLinkedList} {items front rest : Items V} {a b node : NodeAddr}
  {u v : Option V}

theorem IsList.of_chain (chain : Chain nodes list.header items) (footer : list.footer = items.getLast?.map Prod.fst)
    (len : list.len = items.length) : IsList nodes list items := ⟨chain, chain.nodup, footer, len⟩

theorem new_isList : IsList nodes new [] := .of_chain rfl rfl rfl

theorem IsList.header_eq (isList : IsList nodes list items) : list.header = items.head?.map Prod.fst := by
  rw [isList.chain.start_eq, Option.or_none]

/-- Both ends are NULL exactly for the empty sequence. -/
theorem IsList.null_iff (isList : IsList nodes list items) :
    (list.header = none ↔ items = []) ∧ (list.footer = none ↔ items = []) := by
  rw [isList.header_eq, isList.footer]
  simp

theorem IsList.eq_new (isList : IsList nodes list []) : list = new := by
  obtain ⟨header, footer, len⟩ := list
  obtain ⟨chain, -, last, length⟩ := isList
  cases chain
  cases last
  cases length
  rfl

theorem IsList.frame (isList : IsList nodes list items) (same : ∀ a ∈ addresses items, nodes' a = nodes a) :
    IsList nodes' list items := ⟨isList.chain.frame same, isList.acyclic, isList.footer, isList.len⟩

/-- The last node, and the nodes in front of it. -/
theorem IsList.last (isList : IsList nodes list (front ++ [(a, v)])) :
    list.footer = some a ∧ Segment nodes list.header (some a) front ∧ nodes a = some ⟨v, none⟩ ∧
      a ∉ addresses front := by
  obtain ⟨segment, cell⟩ := segment_concat.mp isList.chain
  refine ⟨?_, segment, cell, (apart_of_nodup isList.acyclic).1⟩
  rw [isList.footer, List.getLast?_concat]
  rfl

/-- A new node goes behind the last one. -/
theorem add_spec (isList : IsList nodes list items) (v : Option V) (fresh : nodes node = none) :
    ∃ nodes' list', add nodes list v node = some (nodes', list') ∧ IsList nodes' list' (items ++ [(node, v)]) ∧
      ∀ a ∉ addresses items, a ≠ node → nodes' a = nodes a := by
  have apart : node ∉ addresses items := fun member => isList.chain.live member fresh
  obtain rfl | ⟨front, ⟨f, w⟩, rfl⟩ := items.eq_nil_or_concat'
  · obtain rfl := isList.eq_new
    refine ⟨_, _, rfl, .of_chain ⟨rfl, none, Function.update_self .., rfl⟩ rfl rfl, ?_⟩
    exact fun a _ other => Function.update_of_ne other _ _
  · obtain ⟨footer, segment, cell, distinct⟩ := isList.last
    simp only [addresses_append, List.mem_append, not_or] at apart
    have other : f ≠ node := by
      rintro rfl
      exact apart.2 (List.mem_singleton_self f)
    have kept : Function.update nodes node (some ⟨v, none⟩) f = some ⟨w, none⟩ := by
      rw [Function.update_of_ne other, cell]
    simp only [add, footer, kept, Option.bind_eq_bind, Option.bind_some, Option.pure_def]
    refine ⟨_, _, rfl, .of_chain ?_ ?_ ?_, ?_⟩
    · rw [List.append_assoc]
      refine (segment.update apart.1 _).relink distinct ⟨rfl, none, Function.update_self .., rfl⟩ ?_
      exact fun member => other (List.mem_singleton.mp member)
    · simp
    · simp [isList.len]
    · intro a outside away
      have inside : f ∈ addresses (front ++ [(f, w)]) := by simp
      rw [update_inside inside _ outside, Function.update_of_ne away]

theorem removeHeader_spec (isList : IsList nodes list items) : ∃ nodes' list',
    removeHeader nodes list = some (nodes', list', items.head?.bind Prod.snd) ∧
      IsList nodes' list' items.tail ∧ ∀ a ∉ addresses items, nodes' a = nodes a := by
  cases items with
  | nil =>
    obtain rfl := isList.eq_new
    exact ⟨nodes, new, rfl, isList, fun _ _ => rfl⟩
  | cons item rest =>
    obtain ⟨a, v⟩ := item
    obtain ⟨header, next, cell, behind⟩ := isList.chain
    have apart := (List.nodup_cons.mp isList.acyclic).1
    have len := isList.len
    simp only [removeHeader, header, cell, Option.bind_eq_bind, Option.bind_some, Option.pure_def]
    cases rest with
    | nil =>
      obtain rfl : next = none := behind
      refine ⟨nodes, new, ?_, new_isList, fun _ _ => rfl⟩
      simp [new, len]
    | cons second rest =>
      obtain rfl := behind.1
      refine ⟨_, _, rfl, .of_chain (behind.update apart none) ?_ ?_, ?_⟩
      · rw [isList.footer, List.getLast?_cons_cons, List.tail_cons]
      · simp [len]
      · exact fun b outside => update_inside List.mem_cons_self none outside

/-- The walk finds the node in front of the footer within as many rounds as there are nodes. -/
theorem cutFooter_eq {p : Option NodeAddr} {rounds : Nat} (segment : Segment nodes p (some a) (front ++ [(b, u)]))
    (apart : a ∉ addresses (front ++ [(b, u)])) (enough : front.length < rounds) :
    cutFooter nodes a rounds p =
      some (Function.update (Function.update nodes a none) b (some ⟨u, none⟩), b) := by
  induction front generalizing p rounds with
  | nil =>
    obtain ⟨rfl, next, cell, rfl⟩ := segment
    have other : b ≠ a := fun same => apart (same ▸ List.mem_singleton_self b)
    have kept : Function.update nodes a none b = some ⟨u, some a⟩ := by
      rw [Function.update_of_ne other, cell]
    cases rounds with
    | zero => cases enough
    | succ rounds =>
      rw [cutFooter]
      simp [cell, kept]
  | cons item front ih =>
    obtain ⟨c, w⟩ := item
    obtain ⟨rfl, next, cell, behind⟩ := segment
    have apart : a ∉ addresses (front ++ [(b, u)]) := fun member => apart (List.mem_cons_of_mem _ member)
    have further : next ≠ some a := by
      obtain ⟨c', member, rfl⟩ := behind.start_mem (by simp)
      rintro same
      exact apart (Option.some.inj same ▸ member)
    cases rounds with
    | zero => cases enough
    | succ rounds =>
      rw [cutFooter]
      simp only [cell, further, if_false, Option.bind_eq_bind, Option.bind_some]
      exact ih behind apart (Nat.lt_of_succ_lt_succ enough)

theorem removeFooter_spec (isList : IsList nodes list items) : ∃ nodes' list',
    removeFooter nodes list = some (nodes', list', items.getLast?.bind Prod.snd) ∧
      IsList nodes' list' items.dropLast ∧ ∀ a ∉ addresses items, nodes' a = nodes a := by
  obtain rfl | ⟨front, ⟨f, w⟩, rfl⟩ := items.eq_nil_or_concat'
  · obtain rfl := isList.eq_new
    exact ⟨nodes, new, rfl, isList, fun _ _ => rfl⟩
  obtain ⟨footer, segment, cell, apart⟩ := isList.last
  have len := isList.len
  rw [List.length_append, List.length_singleton] at len
  simp only [removeFooter, footer, cell, len, Option.bind_eq_bind, Option.bind_some, Option.pure_def,
    List.getLast?_concat, List.dropLast_concat]
  obtain rfl | ⟨front, ⟨b, u⟩, rfl⟩ := front.eq_nil_or_concat'
  · have same : list.header = some f := segment
    simp only [same, cell, Option.bind_some, if_true]
    exact ⟨nodes, new, rfl, new_isList, fun _ _ => rfl⟩
  have front_apart : b ∉ addresses front := by
    have distinct := isList.acyclic
    rw [List.append_assoc] at distinct
    exact (apart_of_nodup distinct).1
  obtain ⟨before, link⟩ := segment_concat.mp segment
  obtain ⟨first, read, linked⟩ := segment.first_linked (by simp)
  have enough : front.length < (front ++ [(b, u)]).length + 1 := by
    rw [List.length_append]
    omega
  simp only [read, linked, cutFooter_eq segment apart enough, Option.bind_some, if_false]
  refine ⟨_, _, rfl, .of_chain ?_ ?_ ?_, ?_⟩
  · rw [addresses_append, List.mem_append, not_or] at apart
    exact (before.update apart.1 none).relink front_apart rfl List.not_mem_nil
  · simp
  · simp
  · intro c outside
    rw [addresses_append, List.mem_append, not_or] at outside
    have inside : b ∈ addresses (front ++ [(b, u)]) := by simp
    rw [update_inside inside _ outside.1]
    exact update_inside (List.mem_singleton_self f) none outside.2

/-- The walk finds the node in front of the one to remove, and unlinks that. -/
theorem removeNext_found {p next : Option NodeAddr} {rounds : Nat}
    (segment : Segment nodes p (some a) (front ++ [(b, u)])) (apart : a ∉ addresses (front ++ [(b, u)]))
    (dropped : nodes a = some ⟨v, next⟩) (enough : front.length < rounds) :
    removeNext nodes list a rounds p = some (Function.update (Function.update nodes b (some ⟨u, next⟩)) a none,
      { list with footer := if next = none then some b else list.footer, len := list.len - 1 }, v) := by
  induction front generalizing p rounds with
  | nil =>
    obtain ⟨rfl, next', cell, rfl⟩ := segment
    cases rounds with
    | zero => cases enough
    | succ rounds => simp [removeNext, cell, dropped]
  | cons item front ih =>
    obtain ⟨c, w⟩ := item
    obtain ⟨rfl, next', cell, behind⟩ := segment
    have apart : a ∉ addresses (front ++ [(b, u)]) := fun member => apart (List.mem_cons_of_mem _ member)
    obtain ⟨c', member, rfl⟩ := behind.start_mem (by simp)
    have further : c' ≠ a := fun same => apart (same ▸ member)
    cases rounds with
    | zero => cases enough
    | succ rounds =>
      rw [removeNext]
      simp only [cell, further, if_false, Option.bind_eq_bind, Option.bind_some]
      exact ih behind apart (Nat.lt_of_succ_lt_succ enough)

theorem removeNext_absent {p : Option NodeAddr} {rounds : Nat} (chain : Chain nodes p ((b, u) :: rest))
    (absent : a ∉ addresses rest) (enough : rest.length < rounds) :
    removeNext nodes list a rounds p = some (nodes, list, none) := by
  induction rest generalizing p b u rounds with
  | nil =>
    obtain ⟨rfl, next, cell, rfl⟩ := chain
    cases rounds with
    | zero => cases enough
    | succ rounds => simp [removeNext, cell]
  | cons item rest ih =>
    obtain ⟨c, w⟩ := item
    obtain ⟨rfl, next, cell, behind⟩ := chain
    obtain rfl := behind.1
    rw [addresses_cons, List.mem_cons, not_or] at absent
    cases rounds with
    | zero => cases enough
    | succ rounds =>
      have other : c ≠ a := fun same => absent.1 same.symm
      rw [removeNext]
      simp only [cell, other, if_false, Option.bind_eq_bind, Option.bind_some]
      exact ih behind absent.2 (Nat.lt_of_succ_lt_succ enough)

/-- The node behind another one is unlinked; the footer moves back if it was the last. -/
theorem unlink_isList (isList : IsList nodes list (front ++ (b, u) :: (a, v) :: rest)) :
    ∃ next, nodes a = some ⟨v, next⟩ ∧ IsList (Function.update (Function.update nodes b (some ⟨u, next⟩)) a none)
      { list with footer := if next = none then some b else list.footer, len := list.len - 1 }
      (front ++ (b, u) :: rest) := by
  obtain ⟨middle, before, rfl, next', cell, rfl, next, dropped, behind⟩ := segment_append.mp isList.chain
  have distinct := isList.acyclic
  obtain ⟨apart, apart'⟩ := apart_of_nodup distinct
  rw [List.append_cons] at distinct
  obtain ⟨away, away'⟩ := apart_of_nodup distinct
  rw [addresses_cons, List.mem_cons, not_or] at apart'
  have linked := before.relink (v := u) apart behind apart'.2
  have outside : a ∉ addresses (front ++ (b, u) :: rest) := by
    rw [List.append_cons, addresses_append, List.mem_append]
    exact not_or.mpr ⟨away, away'⟩
  refine ⟨next, dropped, .of_chain (linked.update outside none) ?_ ?_⟩
  · have start := behind.start_eq
    rw [Option.or_none] at start
    cases rest with
    | nil => simp [start]
    | cons item rest => simp [start, isList.footer]
  · simp [isList.len]

/-- Removal of the first node. -/
theorem remove_header (isList : IsList nodes list ((a, v) :: rest)) : ∃ list',
    remove nodes list (some a) = some (Function.update nodes a none, list', v) ∧
      IsList (Function.update nodes a none) list' rest := by
  obtain ⟨header, next, cell, behind⟩ := isList.chain
  have apart := (List.nodup_cons.mp isList.acyclic).1
  have stored : ¬list.len = 0 := by simp [isList.len]
  refine ⟨⟨next, if next = none then none else list.footer, list.len - 1⟩, ?_, ?_⟩
  · rw [remove, if_neg stored, if_pos header]
    simp only [cell, Option.bind_eq_bind, Option.bind_some, Option.pure_def]
  · refine .of_chain (behind.update apart none) ?_ ?_
    · have start := behind.start_eq
      rw [Option.or_none] at start
      cases rest with
      | nil => simp [start]
      | cons item rest => simp [start, isList.footer]
    · simp [isList.len]

/-- Removal of a node behind another one. -/
theorem remove_behind (isList : IsList nodes list (front ++ (b, u) :: (a, v) :: rest)) : ∃ next list',
    remove nodes list (some a) =
      some (Function.update (Function.update nodes b (some ⟨u, next⟩)) a none, list', v) ∧
      IsList (Function.update (Function.update nodes b (some ⟨u, next⟩)) a none) list' (front ++ (b, u) :: rest) := by
  obtain ⟨next, dropped, unlinked⟩ := unlink_isList isList
  refine ⟨next, _, ?_, unlinked⟩
  have chain := isList.chain
  have distinct := isList.acyclic
  rw [List.append_cons] at chain distinct
  have apart := (apart_of_nodup distinct).1
  obtain ⟨middle, segment, rfl, -⟩ := segment_append.mp chain
  have stored : ¬list.len = 0 := by simp [isList.len]
  have other : ¬list.header = some a := by
    obtain ⟨c, member, header⟩ := segment.start_mem (by simp)
    rw [header]
    rintro same
    exact apart (Option.some.inj same ▸ member)
  have enough : front.length < list.len := by
    rw [isList.len]
    simp
  rw [remove, if_neg stored, if_neg other]
  exact removeNext_found segment apart dropped enough

/-- An iterator of another list, or of none, removes nothing. -/
theorem remove_absent (isList : IsList nodes list items) (absent : a ∉ addresses items) :
    remove nodes list (some a) = some (nodes, list, none) := by
  cases items with
  | nil =>
    have empty : list.len = 0 := isList.len
    rw [remove, if_pos empty]
  | cons item rest =>
    rw [addresses_cons, List.mem_cons, not_or] at absent
    have stored : ¬list.len = 0 := by simp [isList.len]
    have other : ¬list.header = some a := by
      rw [isList.header_eq]
      exact fun same => absent.1 (Option.some.inj same).symm
    have enough : rest.length < list.len := by
      rw [isList.len]
      simp
    rw [remove, if_neg stored, if_neg other]
    exact removeNext_absent isList.chain absent.2 enough

theorem remove_spec (isList : IsList nodes list items) (it : Option NodeAddr) : ∃ nodes' list',
    remove nodes list it = some (nodes', list', (it.bind (Keyed.lookup Prod.fst · items)).bind Prod.snd) ∧
      IsList nodes' list' (it.elim items (Keyed.remove Prod.fst · items)) ∧
      ∀ a ∉ addresses items, nodes' a = nodes a := by
  cases it with
  | none => exact ⟨nodes, list, rfl, isList, fun _ _ => rfl⟩
  | some it =>
    rw [Option.bind_some, Option.elim_some]
    by_cases inside : it ∈ addresses items
    · obtain ⟨⟨a, v⟩, member, rfl⟩ := List.mem_map.mp inside
      obtain ⟨before, after, rfl⟩ := List.append_of_mem member
      have apart : (a, v).1 ∉ before.map Prod.fst := (apart_of_nodup isList.acyclic).1
      obtain ⟨gone, found⟩ := Keyed.remove_middle apart after
      rw [gone, found, Option.bind_some]
      obtain rfl | ⟨front, ⟨b, u⟩, rfl⟩ := before.eq_nil_or_concat'
      · obtain ⟨list', removed, isList'⟩ := remove_header isList
        exact ⟨_, list', removed, isList', fun _ outside => update_inside inside none outside⟩
      · rw [List.append_assoc] at isList ⊢
        obtain ⟨next, list', removed, isList'⟩ := remove_behind isList
        refine ⟨_, list', removed, isList', fun c outside => ?_⟩
        have linked : b ∈ addresses (front ++ [(b, u)] ++ (a, v) :: after) := by simp
        rw [update_inside inside none outside, update_inside linked _ outside]
    · rw [Keyed.lookup_eq_none_iff.mpr inside, Keyed.remove_absent inside]
      exact ⟨nodes, list, remove_absent isList inside, isList, fun _ _ => rfl⟩

/-- One round a node. -/
theorem clearLoop_spec (isList : IsList nodes list items) : ∃ nodes',
    clearLoop items.length nodes list = some (nodes', new) ∧ ∀ a ∉ addresses items, nodes' a = nodes a := by
  induction items generalizing nodes list with
  | nil =>
    obtain rfl := isList.eq_new
    exact ⟨nodes, rfl, fun _ _ => rfl⟩
  | cons item rest ih =>
    have stored : ¬list.len = 0 := by simp [isList.len]
    obtain ⟨nodes', list', removed, isList', kept⟩ := removeHeader_spec isList
    obtain ⟨nodes'', cleared, kept'⟩ := ih isList'
    refine ⟨nodes'', ?_, fun a outside => ?_⟩
    · rw [List.length_cons, clearLoop, if_neg stored, removed]
      exact cleared
    · exact (kept' a fun member => outside (List.mem_cons_of_mem _ member)).trans (kept a outside)

theorem merge_spec {items' : Items V} (isDest : IsList nodes dest items) (isSrc : IsList nodes src items')
    (apart : (addresses items).Disjoint (addresses items')) : ∃ nodes' dest',
    merge nodes dest src = some (nodes', dest', new) ∧ IsList nodes' dest' (items ++ items') ∧
      ∀ a ∉ addresses items, nodes' a = nodes a := by
  cases items' with
  | nil =>
    obtain rfl := isSrc.eq_new
    refine ⟨nodes, dest, rfl, ?_, fun _ _ => rfl⟩
    rw [List.append_nil]
    exact isDest
  | cons item rest =>
    have header : ¬src.header = none := fun same => List.cons_ne_nil item rest (isSrc.null_iff.1.mp same)
    obtain rfl | ⟨front, ⟨f, w⟩, rfl⟩ := items.eq_nil_or_concat'
    · obtain rfl := isDest.eq_new
      refine ⟨nodes, _, by rw [merge, if_neg header]; rfl, ?_, fun _ _ => rfl⟩
      exact .of_chain isSrc.chain isSrc.footer (by simp [new, isSrc.len])
    · obtain ⟨footer, segment, cell, distinct⟩ := isDest.last
      have inside : f ∈ addresses (front ++ [(f, w)]) := by simp
      rw [merge, if_neg header]
      simp only [footer, cell, Option.bind_eq_bind, Option.bind_some, Option.pure_def]
      refine ⟨_, _, rfl, .of_chain ?_ ?_ ?_, fun a outside => update_inside inside _ outside⟩
      · rw [List.append_assoc]
        exact segment.relink distinct isSrc.chain (apart inside)
      · rw [isSrc.footer, List.getLast?_append_of_ne_nil _ (List.cons_ne_nil item rest)]
      · simp only [isDest.len, isSrc.len, List.length_append]

/-- What a call makes of a sequence, and what it returns. -/
def Call.effect (items : Items V) : Call V → Items V × Ret V
  | .add v node => (items ++ [(node, v)], .status 0)
  | .removeHeader => (items.tail, .value (items.head?.bind Prod.snd))
  | .removeFooter => (items.dropLast, .value (items.getLast?.bind Prod.snd))
  | .remove it =>
    (it.elim items (Keyed.remove Prod.fst · items), .value ((it.bind (Keyed.lookup Prod.fst · items)).bind Prod.snd))
  | .clear => ([], .done)
  | .reset => ([], .status 0)

def Call.allocated : Call V → List NodeAddr
  | .add _ node => [node]
  | .removeHeader | .removeFooter | .remove _ | .clear | .reset => []

abbrev Sequences (V : Type) := ListAddr → Option (Items V)

def itemsOf (sequences : Sequences V) (list : ListAddr) : Items V := (sequences list).getD []

def act (sequences : Sequences V) : Op V → Sequences V × Ret V
  | .new list => (Function.update sequences list (some []), .list list)
  | .call none call => (sequences, call.onNull)
  | .call (some list) call =>
    let (items, ret) := call.effect (itemsOf sequences list)
    (Function.update sequences list (some items), ret)
  | .merge (some dest) (some src) =>
    let joined := itemsOf sequences dest ++ itemsOf sequences src
    (Function.update (Function.update sequences dest (some joined)) src (some []), .status 0)
  | .merge none _ | .merge _ none => (sequences, .status (-1))
  | .move none _ => (sequences, .status (-1))
  | .move (some src) list =>
    (Function.update (Function.update sequences list (some (itemsOf sequences src))) src (some []), .status 0)

def Live (memory : Memory V) (list : Option ListAddr) : Prop := ∀ a, list = some a → memory.lists a ≠ none

/-- Lists are NULL or allocated, malloc and calloc return what is not, and the lists to merge differ. -/
def Valid (memory : Memory V) : Op V → Prop
  | .new list => memory.lists list = none
  | .call list call => Live memory list ∧ ∀ node ∈ call.allocated, memory.nodes node = none
  | .merge dest src => Live memory dest ∧ Live memory src ∧ (dest = src → dest = none)
  | .move src list => Live memory src ∧ memory.lists list = none

instance (memory : Memory V) (list : Option ListAddr) : Decidable (Live memory list) :=
  match list with
  | none => .isTrue fun _ same => nomatch same
  | some a => decidable_of_iff (memory.lists a ≠ none)
    ⟨fun there _ same => Option.some.inj same ▸ there, fun live => live a rfl⟩

instance (memory : Memory V) (op : Op V) : Decidable (Valid memory op) :=
  match op with
  | .new list => inferInstanceAs (Decidable (memory.lists list = none))
  | .call list call =>
    inferInstanceAs (Decidable (Live memory list ∧ ∀ node ∈ call.allocated, memory.nodes node = none))
  | .merge dest src =>
    inferInstanceAs (Decidable (Live memory dest ∧ Live memory src ∧ (dest = src → dest = none)))
  | .move src list => inferInstanceAs (Decidable (Live memory src ∧ memory.lists list = none))

/-- Every list describes its sequence, and no node is in two lists. -/
structure Represents (memory : Memory V) (sequences : Sequences V) : Prop where
  described : ∀ list fields, memory.lists list = some fields →
    ∃ items, sequences list = some items ∧ IsList memory.nodes fields items
  only : ∀ list, memory.lists list = none → sequences list = none
  disjoint : ∀ list list' items items', list ≠ list' → sequences list = some items → sequences list' = some items' →
    (addresses items).Disjoint (addresses items')

theorem perform_spec {call : Call V} (isList : IsList nodes list items)
    (fresh : ∀ node ∈ call.allocated, nodes node = none) : ∃ nodes' list',
    perform nodes list call = some (nodes', list', (call.effect items).2) ∧
      IsList nodes' list' (call.effect items).1 ∧
      ∀ a ∉ addresses items, a ∉ call.allocated → nodes' a = nodes a := by
  cases call with
  | add v node =>
    obtain ⟨nodes', list', added, isList', kept⟩ := add_spec isList v (fresh node (List.mem_singleton_self node))
    refine ⟨nodes', list', by rw [perform, added]; rfl, isList', fun a outside away => kept a outside ?_⟩
    exact fun same => away (List.mem_singleton.mpr same)
  | removeHeader =>
    obtain ⟨nodes', list', removed, isList', kept⟩ := removeHeader_spec isList
    exact ⟨nodes', list', by rw [perform, removed]; rfl, isList', fun a outside _ => kept a outside⟩
  | removeFooter =>
    obtain ⟨nodes', list', removed, isList', kept⟩ := removeFooter_spec isList
    exact ⟨nodes', list', by rw [perform, removed]; rfl, isList', fun a outside _ => kept a outside⟩
  | remove it =>
    obtain ⟨nodes', list', removed, isList', kept⟩ := remove_spec isList it
    exact ⟨nodes', list', by rw [perform, removed]; rfl, isList', fun a outside _ => kept a outside⟩
  | clear =>
    obtain ⟨nodes', cleared, kept⟩ := clearLoop_spec isList
    refine ⟨nodes', new, ?_, new_isList, fun a outside _ => kept a outside⟩
    rw [perform, clear, isList.len, cleared]
    rfl
  | reset => exact ⟨nodes, new, rfl, new_isList, fun _ _ _ => rfl⟩

/-- A call keeps nodes or allocates its own. -/
theorem effect_addresses {call : Call V} (member : a ∈ addresses (call.effect items).1) :
    a ∈ addresses items ∨ a ∈ call.allocated := by
  cases call with
  | add v node => simpa [Call.effect, Call.allocated] using member
  | removeHeader => exact .inl (((List.tail_sublist items).map Prod.fst).subset member)
  | removeFooter => exact .inl (((List.dropLast_sublist items).map Prod.fst).subset member)
  | remove it =>
    cases it with
    | none => exact .inl member
    | some it => exact .inl (((Keyed.remove_sublist it items).map Prod.fst).subset member)
  | clear => cases member
  | reset => cases member

variable {memory : Memory V} {sequences : Sequences V} {l : ListAddr} {fields : CLinkedList}

theorem Represents.listed (represents : Represents memory sequences) (live : memory.lists l ≠ none) :
    ∃ fields, memory.lists l = some fields ∧ sequences l = some (itemsOf sequences l) ∧
      IsList memory.nodes fields (itemsOf sequences l) := by
  obtain ⟨fields, there⟩ := Option.ne_none_iff_exists'.mp live
  obtain ⟨items, stored, isList⟩ := represents.described l fields there
  rw [itemsOf, stored]
  exact ⟨fields, there, rfl, isList⟩

/-- One list changes, and leaves alone the nodes of the others. -/
theorem Represents.update (represents : Represents memory sequences) (isList : IsList nodes' fields items)
    (others : ∀ other items', other ≠ l → sequences other = some items' → ∀ a ∈ addresses items',
      a ∉ addresses items ∧ nodes' a = memory.nodes a) :
    Represents ⟨nodes', Function.update memory.lists l (some fields)⟩
      (Function.update sequences l (some items)) := by
  have apart (other : ListAddr) (items' : Items V) (different : other ≠ l)
      (stored : sequences other = some items') : (addresses items').Disjoint (addresses items) :=
    fun a member => (others other items' different stored a member).1
  refine ⟨?_, ?_, ?_⟩
  · intro other fields' there
    simp only at there ⊢
    by_cases same : other = l
    · subst same
      rw [Function.update_self] at there ⊢
      cases there
      exact ⟨items, rfl, isList⟩
    · rw [Function.update_of_ne same] at there ⊢
      obtain ⟨items', stored, isList'⟩ := represents.described other fields' there
      exact ⟨items', stored, isList'.frame fun a member => (others other items' same stored a member).2⟩
  · intro other missing
    simp only at missing ⊢
    by_cases same : other = l
    · subst same
      rw [Function.update_self] at missing
      cases missing
    · rw [Function.update_of_ne same] at missing ⊢
      exact represents.only other missing
  · intro list list' items₁ items₂ different stored stored'
    by_cases first : list = l
    · subst first
      rw [Function.update_self] at stored
      rw [Function.update_of_ne different.symm] at stored'
      cases stored
      exact fun a inside outside => apart list' items₂ different.symm stored' outside inside
    · rw [Function.update_of_ne first] at stored
      by_cases second : list' = l
      · subst second
        rw [Function.update_self] at stored'
        cases stored'
        exact apart list items₁ first stored
      · rw [Function.update_of_ne second] at stored'
        exact represents.disjoint list list' items₁ items₂ different stored stored'

theorem Represents.live (represents : Represents memory sequences) (stored : sequences l = some items)
    (member : a ∈ addresses items) : memory.nodes a ≠ none := by
  have there : memory.lists l ≠ none := by
    intro missing
    rw [represents.only l missing] at stored
    cases stored
  obtain ⟨fields, -, stored', isList⟩ := represents.listed there
  rw [stored] at stored'
  rw [← Option.some.inj stored'] at isList
  exact isList.chain.live member

theorem Represents.empty (represents : Represents memory sequences) (l : ListAddr) :
    Represents ⟨memory.nodes, Function.update memory.lists l (some new)⟩ (Function.update sequences l (some [])) :=
  represents.update new_isList fun _ _ _ _ _ _ => ⟨List.not_mem_nil, rfl⟩

theorem call_simulated {call : Call V} (represents : Represents memory sequences)
    (live : memory.lists l ≠ none) (fresh : ∀ node ∈ call.allocated, memory.nodes node = none) : ∃ next,
    step memory (.call (some l) call) = some (next, (act sequences (.call (some l) call)).2) ∧
      Represents next (act sequences (.call (some l) call)).1 := by
  obtain ⟨fields, there, stored, isList⟩ := represents.listed live
  obtain ⟨nodes', fields', performed, isList', kept⟩ := perform_spec isList fresh
  refine ⟨_, ?_, represents.update isList' fun other items' different stored' a member => ?_⟩
  · simp only [step, there, performed, Option.bind_eq_bind, Option.bind_some, Option.pure_def, act]
  · have apart : a ∉ addresses (itemsOf sequences l) :=
      represents.disjoint other l items' _ different stored' stored member
    have owned : a ∉ call.allocated := fun taken => represents.live stored' member (fresh a taken)
    refine ⟨fun inside => ?_, kept a apart owned⟩
    obtain old | allocated := effect_addresses inside
    · exact apart old
    · exact owned allocated

theorem merge_simulated {d s : ListAddr} (represents : Represents memory sequences)
    (live : memory.lists d ≠ none) (live' : memory.lists s ≠ none) (distinct : d ≠ s) : ∃ next,
    step memory (.merge (some d) (some s)) = some (next, (act sequences (.merge (some d) (some s))).2) ∧
      Represents next (act sequences (.merge (some d) (some s))).1 := by
  obtain ⟨dest, thereDest, storedDest, isDest⟩ := represents.listed live
  obtain ⟨src, thereSrc, storedSrc, isSrc⟩ := represents.listed live'
  have apart := represents.disjoint d s _ _ distinct storedDest storedSrc
  obtain ⟨nodes', dest', merged, isList', kept⟩ := merge_spec isDest isSrc apart
  have emptied := represents.empty s
  simp only [step, mergeLists, thereDest, thereSrc, merged, Option.bind_eq_bind, Option.bind_some, Option.pure_def, act]
  refine ⟨_, rfl, ?_⟩
  rw [Function.update_comm distinct, Function.update_comm distinct]
  refine emptied.update isList' fun other items' different stored' a member => ?_
  by_cases source : other = s
  · subst source
    rw [Function.update_self] at stored'
    cases stored'
    cases member
  · rw [Function.update_of_ne source] at stored'
    have outside := represents.disjoint other d items' _ different stored' storedDest member
    have outside' := represents.disjoint other s items' _ source stored' storedSrc member
    rw [addresses_append, List.mem_append]
    exact ⟨not_or.mpr ⟨outside, outside'⟩, kept a outside⟩

theorem move_simulated {s : ListAddr} (represents : Represents memory sequences)
    (live : memory.lists s ≠ none) (fresh : memory.lists l = none) : ∃ next,
    step memory (.move (some s) l) = some (next, (act sequences (.move (some s) l)).2) ∧
      Represents next (act sequences (.move (some s) l)).1 := by
  obtain ⟨src, there, stored, isSrc⟩ := represents.listed live
  have distinct : l ≠ s := by
    rintro rfl
    exact live fresh
  have emptied := represents.empty s
  simp only [step, moveList, there, Option.bind_eq_bind, Option.bind_some, Option.pure_def, act]
  refine ⟨_, rfl, ?_⟩
  rw [Function.update_comm distinct, Function.update_comm distinct]
  refine emptied.update isSrc fun other items' different stored' a member => ⟨?_, rfl⟩
  by_cases source : other = s
  · subst source
    rw [Function.update_self] at stored'
    cases stored'
    cases member
  · rw [Function.update_of_ne source] at stored'
    exact represents.disjoint other s items' _ source stored' stored member

theorem step_simulated {op : Op V} (represents : Represents memory sequences) (valid : Valid memory op) :
    ∃ next, step memory op = some (next, (act sequences op).2) ∧ Represents next (act sequences op).1 := by
  cases op with
  | new list => exact ⟨_, rfl, represents.empty list⟩
  | call list call =>
    cases list with
    | none => exact ⟨memory, rfl, represents⟩
    | some list => exact call_simulated represents (valid.1 list rfl) valid.2
  | merge dest src =>
    obtain ⟨live, live', distinct⟩ := valid
    cases dest with
    | none => exact ⟨memory, rfl, represents⟩
    | some dest =>
      cases src with
      | none => exact ⟨memory, rfl, represents⟩
      | some src =>
        refine merge_simulated represents (live dest rfl) (live' src rfl) fun same => ?_
        cases distinct (congrArg some same)
  | move src list =>
    cases src with
    | none => exact ⟨memory, rfl, represents⟩
    | some src => exact move_simulated represents (valid.1 src rfl) valid.2

theorem start_represents : Represents (start : Memory V) fun _ => none where
  described := by
    intro list fields there
    cases there
  only := fun _ _ => rfl
  disjoint := by
    intro list list' items items' different stored
    cases stored

/-- Every sequence of calls returns, call by call, what the calls on sequences return, and the
lists still describe the sequences. -/
theorem run_refines_sequences {ops : List (Op V)} (valid : Run.Along step Valid start ops) : ∃ last,
    Run.run step start ops = some (last, (Run.track act (fun _ => none) ops).2) ∧
      Represents last (Run.track act (fun _ => none) ops).1 :=
  Run.run_simulates_total Represents act step_simulated start_represents valid

/-- Two lists of two, the second put behind the first; its last and then its first node go. -/
def spliced : List (Op Nat) :=
  [.new 1, .new 2, .call (some 1) (.add (some 5) 10), .call (some 1) (.add (some 6) 11),
    .call (some 2) (.add (some 7) 12), .call (some 2) (.add (some 8) 13), .merge (some 1) (some 2),
    .call (some 1) .removeFooter, .call (some 2) (.remove (some 12)), .call (some 1) (.remove (some 12)),
    .move (some 1) 3, .call (some 3) .clear]

theorem spliced_represented : ∃ last,
    Run.run step start spliced = some (last, [.list 1, .list 2, .status 0, .status 0, .status 0, .status 0,
      .status 0, .value (some 8), .value none, .value (some 7), .status 0, .done]) ∧
      Represents last (Run.track act (fun _ => none) spliced).1 :=
  run_refines_sequences (by decide +kernel)

end Devent.CLinkedList
