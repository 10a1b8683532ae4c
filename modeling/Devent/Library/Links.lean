import Mathlib.Data.List.Nodup
import Mathlib.Logic.Function.Basic
import Mathlib.Tactic.Common

/-! Cells linked by pointers. A segment goes from one pointer to another through the listed
cells, a chain ends at NULL. A chain never meets a cell twice, and one store redirects it. -/
namespace Devent.Links

variable {A V : Type}

structure Cell (A V : Type) where
  value : V
  next : Option A

/-- The allocated cells. -/
abbrev Heap (A V : Type) := A → Option (Cell A V)

/-- From `p` to `q` through the cells of a list, given with what they hold. -/
def Segment (heap : Heap A V) (p q : Option A) : List (A × V) → Prop
  | [] => p = q
  | (a, v) :: rest => p = some a ∧ ∃ next, heap a = some ⟨v, next⟩ ∧ Segment heap next q rest

abbrev Chain (heap : Heap A V) (p : Option A) (items : List (A × V)) : Prop := Segment heap p none items

def addresses (items : List (A × V)) : List A := items.map Prod.fst

@[simp] theorem addresses_nil : addresses ([] : List (A × V)) = [] := rfl

@[simp] theorem addresses_cons (item : A × V) (items : List (A × V)) :
    addresses (item :: items) = item.1 :: addresses items := rfl

@[simp] theorem addresses_append (first second : List (A × V)) :
    addresses (first ++ second) = addresses first ++ addresses second := List.map_append

variable {heap heap' : Heap A V} {p q : Option A} {items items' first second : List (A × V)} {a : A} {v : V}

theorem segment_append : Segment heap p q (first ++ second) ↔
    ∃ middle, Segment heap p middle first ∧ Segment heap middle q second := by
  induction first generalizing p with
  | nil =>
    constructor
    · exact fun behind => ⟨p, rfl, behind⟩
    · rintro ⟨middle, rfl, behind⟩
      exact behind
  | cons item rest ih =>
    simp only [List.cons_append, Segment, ih]
    constructor
    · rintro ⟨here, next, cell, middle, front, behind⟩
      exact ⟨middle, ⟨here, next, cell, front⟩, behind⟩
    · rintro ⟨middle, ⟨here, next, cell, front⟩, behind⟩
      exact ⟨here, next, cell, middle, front, behind⟩

theorem segment_concat : Segment heap p q (first ++ [(a, v)]) ↔
    Segment heap p (some a) first ∧ heap a = some ⟨v, q⟩ := by
  rw [segment_append]
  constructor
  · rintro ⟨middle, front, rfl, next, cell, rfl⟩
    exact ⟨front, cell⟩
  · exact fun ⟨front, cell⟩ => ⟨some a, front, rfl, q, cell, rfl⟩

/-- A segment reads its own cells only. -/
theorem Segment.frame (segment : Segment heap p q items) (same : ∀ a ∈ addresses items, heap' a = heap a) :
    Segment heap' p q items := by
  induction items generalizing p with
  | nil => exact segment
  | cons item rest ih =>
    obtain ⟨here, next, cell, behind⟩ := segment
    have kept : heap' item.1 = heap item.1 := same item.1 List.mem_cons_self
    exact ⟨here, next, kept.trans cell, ih behind fun a member => same a (List.mem_cons_of_mem _ member)⟩

theorem Segment.live (segment : Segment heap p q items) (member : a ∈ addresses items) : heap a ≠ none := by
  induction items generalizing p with
  | nil => cases member
  | cons item rest ih =>
    obtain ⟨-, next, cell, behind⟩ := segment
    obtain rfl | later := List.mem_cons.mp member
    · rw [cell]
      exact Option.some_ne_none _
    · exact ih behind later

theorem Segment.start_eq (segment : Segment heap p q items) : p = (items.head?.map Prod.fst).or q := by
  cases items with
  | nil => exact segment
  | cons item rest => exact segment.1

theorem Segment.start_mem (segment : Segment heap p q items) (nonempty : items ≠ []) :
    ∃ a ∈ addresses items, p = some a := by
  cases items with
  | nil => exact absurd rfl nonempty
  | cons item rest => exact ⟨item.1, List.mem_cons_self, segment.1⟩

/-- In front of another cell, the first cell is not the last one. -/
theorem Segment.first_linked (segment : Segment heap p (some a) items) (nonempty : items ≠ []) :
    ∃ cell, p.bind heap = some cell ∧ cell.next ≠ none := by
  cases items with
  | nil => exact absurd rfl nonempty
  | cons item rest =>
    obtain ⟨rfl, next, cell, behind⟩ := segment
    refine ⟨_, cell, ?_⟩
    cases rest with
    | nil =>
      obtain rfl : next = some a := behind
      exact Option.some_ne_none a
    | cons item rest =>
      rw [behind.1]
      exact Option.some_ne_none _

/-- What hangs on a pointer, down to NULL. -/
theorem Segment.unique (chain : Chain heap p items) (chain' : Chain heap p items') : items = items' := by
  induction items generalizing p items' with
  | nil =>
    obtain rfl : p = none := chain
    cases items' with
    | nil => rfl
    | cons item rest => cases chain'.1
  | cons item rest ih =>
    obtain ⟨a, v⟩ := item
    obtain ⟨rfl, next, cell, behind⟩ := chain
    cases items' with
    | nil => cases chain'
    | cons item' rest' =>
      obtain ⟨a', v'⟩ := item'
      obtain ⟨same, next', cell', behind'⟩ := chain'
      obtain rfl := Option.some.inj same
      obtain ⟨rfl, rfl⟩ := Cell.mk.inj (Option.some.inj (cell.symm.trans cell'))
      rw [ih behind behind']

/-- A chain is acyclic: what hangs on a cell is not longer than itself. -/
theorem Segment.nodup (chain : Chain heap p items) : (addresses items).Nodup := by
  induction items generalizing p with
  | nil => exact List.nodup_nil
  | cons item rest ih =>
    obtain ⟨a, v⟩ := item
    have whole := chain
    obtain ⟨rfl, next, cell, behind⟩ := chain
    refine List.nodup_cons.mpr ⟨fun again => ?_, ih behind⟩
    obtain ⟨⟨a', v'⟩, member, rfl⟩ := List.mem_map.mp again
    obtain ⟨before, after, rfl⟩ := List.append_of_mem member
    obtain ⟨middle, -, below⟩ := segment_append.mp behind
    obtain rfl : middle = some a' := below.1
    have lengths := congrArg List.length (whole.unique below)
    simp only [List.length_cons, List.length_append] at lengths
    omega

theorem apart_of_nodup (distinct : (addresses (first ++ (a, v) :: second)).Nodup) :
    a ∉ addresses first ∧ a ∉ addresses second := by
  rw [addresses_append, addresses_cons, List.nodup_middle, List.nodup_cons, List.mem_append] at distinct
  exact not_or.mp distinct.1

variable [DecidableEq A]

theorem update_apart (apart : a ∉ addresses items) (cell : Option (Cell A V)) {b : A}
    (member : b ∈ addresses items) : Function.update heap a cell b = heap b := by
  apply Function.update_of_ne
  rintro rfl
  exact apart member

theorem update_inside (inside : a ∈ addresses items) (cell : Option (Cell A V)) {b : A}
    (outside : b ∉ addresses items) : Function.update heap a cell b = heap b := by
  apply Function.update_of_ne
  rintro rfl
  exact outside inside

/-- A cell outside the segment may be allocated or released. -/
theorem Segment.update (segment : Segment heap p q items) (apart : a ∉ addresses items)
    (cell : Option (Cell A V)) : Segment (Function.update heap a cell) p q items :=
  segment.frame fun _ member => update_apart apart cell member

/-- One store puts another segment behind a cell. -/
theorem Segment.relink (front : Segment heap p (some a) first) (apart : a ∉ addresses first)
    {next : Option A} (behind : Segment heap next q second) (apart' : a ∉ addresses second) :
    Segment (Function.update heap a (some ⟨v, next⟩)) p q (first ++ (a, v) :: second) :=
  segment_append.mpr
    ⟨some a, front.update apart _, rfl, next, Function.update_self .., behind.update apart' _⟩

end Devent.Links
