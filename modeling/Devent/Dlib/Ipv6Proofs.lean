import Devent.Dlib.Ipv6Groups
import Mathlib.Algebra.Order.BigOperators.Group.List
import Mathlib.Algebra.Order.Ring.Nat

/-! What `ipv6_to_string` prints, against RFC 5952; eight groups of four digits leave no room for the NUL. -/
namespace Devent.Ipv6
open LongestRun

variable {pairs : List (Byte × Byte)} {pair : Byte × Byte} {k rounds : Nat}

theorem length_joined (texts : List (List Byte)) :
    (joined texts).length = (texts.map List.length).sum + (texts.length - 1) := by
  induction texts with
  | nil => rfl
  | cons text texts ih =>
    cases texts with
    | nil =>
      rw [joined, List.intercalate_singleton]
      rfl
    | cons next texts =>
      rw [joined_cons, List.length_append, List.length_cons, ih]
      simp only [List.map_cons, List.sum_cons, List.length_cons]
      omega

theorem length_shown_of_high {pair : Byte × Byte} (high : ¬Low pair) :
    (shown pair).length < (hexText (groupOf pair)).length := by
  rw [shown, if_neg high]
  exact List.length_pos_of_ne_nil (hexText_ne_nil _)

theorem length_shown_le_hexText (pair : Byte × Byte) : (shown pair).length ≤ (hexText (groupOf pair)).length := by
  by_cases low : Low pair
  · rw [shown, if_pos low]
  · exact Nat.le_of_lt (length_shown_of_high low)

theorem length_joined_shown_le (pairs : List (Byte × Byte)) :
    (joined (pairs.map shown)).length ≤ (joined (pairs.map fun pair => hexText (groupOf pair))).length := by
  have sums : ((pairs.map shown).map List.length).sum ≤
      ((pairs.map fun pair => hexText (groupOf pair)).map List.length).sum := by
    rw [List.map_map, List.map_map]
    exact List.sum_le_sum fun pair _ => length_shown_le_hexText pair
  rw [length_joined, length_joined, List.length_map, List.length_map]
  exact Nat.add_le_add_right sums _

/-- A text that is left out makes what is joined shorter. -/
theorem length_joined_shown_lt (high : ∃ pair ∈ pairs, ¬Low pair) :
    (joined (pairs.map shown)).length < (joined (pairs.map fun pair => hexText (groupOf pair))).length := by
  have sums : ((pairs.map shown).map List.length).sum <
      ((pairs.map fun pair => hexText (groupOf pair)).map List.length).sum := by
    obtain ⟨pair, member, high⟩ := high
    rw [List.map_map, List.map_map]
    exact List.sum_lt_sum _ _ (fun pair _ => length_shown_le_hexText pair) ⟨pair, member, length_shown_of_high high⟩
  rw [length_joined, length_joined, List.length_map, List.length_map]
  exact Nat.add_lt_add_right sums _

/-- Zero groups are never negative, so a negative one stands outside of the run. -/
theorem high_outside (start : Nat) (high : ∃ pair ∈ pairs, ¬Low pair) : (∃ pair ∈ pairs.take start, ¬Low pair) ∨
    ∃ pair ∈ pairs.drop (start + runAt isZero (pairs.map groupOf) start), ¬Low pair := by
  obtain ⟨pair, member, high⟩ := high
  obtain ⟨run, -, zeros, whole⟩ := split_runAt (isZero ∘ groupOf) pairs start
  rw [← runAt_map] at whole
  rw [whole] at member
  obtain before | member := List.mem_append.mp member
  · exact .inl ⟨pair, before, high⟩
  · obtain inside | behind := List.mem_append.mp member
    · have zero := (isZero_groupOf pair).mp (zeros pair inside)
      refine absurd ⟨?_, ?_⟩ high
      · rw [zero.1]
        decide
      · rw [zero.2]
        decide
    · exact .inr ⟨pair, behind, high⟩

theorem length_layout_lt (run : Option Nat) (high : ∃ pair ∈ pairs, ¬Low pair) :
    (layout pairs shown run).length < (layout pairs (fun pair => hexText (groupOf pair)) run).length := by
  cases run with
  | none => exact length_joined_shown_lt high
  | some start =>
    have before := length_joined_shown_le (pairs.take start)
    have behind := length_joined_shown_le (pairs.drop (start + runAt isZero (pairs.map groupOf) start))
    simp only [layout, List.length_append]
    obtain first | last := high_outside start high
    · have less := length_joined_shown_lt first
      omega
    · have less := length_joined_shown_lt last
      omega

theorem layout_low (run : Option Nat) (low : ∀ pair ∈ pairs, Low pair) :
    layout pairs shown run = layout pairs (fun pair => hexText (groupOf pair)) run := by
  have same {part : List (Byte × Byte)} (inside : ∀ pair ∈ part, pair ∈ pairs) :
      part.map shown = part.map fun pair => hexText (groupOf pair) :=
    List.map_congr_left fun pair member => if_pos (low pair (inside pair member))
  cases run with
  | none => rw [layout, layout, same fun pair member => member]
  | some start =>
    rw [layout, layout, same fun pair member => List.mem_of_mem_take member,
      same fun pair member => List.mem_of_mem_drop member]

/-- The text in an array of bytes, which its first NUL ends. -/
def Terminated (bytes text : List Byte) : Prop := 0 ∉ text ∧ ∃ rest, bytes = text ++ 0 :: rest

theorem Terminated.unique {bytes text text' : List Byte} (first : Terminated bytes text)
    (second : Terminated bytes text') : text = text' := by
  have front {text : List Byte} (ends : Terminated bytes text) : bytes.takeWhile (· ≠ 0) = text := by
    obtain ⟨absent, rest, rfl⟩ := ends
    have clean : ∀ b ∈ text, decide (b ≠ 0) = true := fun b member => decide_eq_true fun zero => absent (zero ▸ member)
    rw [List.takeWhile_append_of_pos clean]
    simp
  exact (front first).symm.trans (front second)

theorem block_terminated {text : List Byte} (absent : 0 ∉ text) (room : text.length < maxLen) :
    Terminated (block text) text := by
  obtain ⟨spare, more⟩ := Nat.exists_eq_add_one_of_ne_zero (show maxLen - text.length ≠ 0 by omega)
  exact ⟨absent, List.replicate spare 0, by rw [block, more, List.replicate_succ]⟩

/-- A text that fills the block has no NUL behind it. -/
theorem length_of_terminated {text text' : List Byte} (absent : 0 ∉ text) (ends : Terminated (block text) text') :
    text.length < maxLen := by
  by_contra full
  obtain ⟨-, rest, same⟩ := ends
  rw [block, show maxLen - text.length = 0 by omega, List.replicate_zero, List.append_nil] at same
  exact absent (same ▸ List.mem_append_right text' List.mem_cons_self)

theorem notMem_joined {texts : List (List Byte)} (absent : ∀ text ∈ texts, 0 ∉ text) : 0 ∉ joined texts := by
  induction texts with
  | nil => exact List.not_mem_nil
  | cons text texts ih =>
    have first := absent text List.mem_cons_self
    have later := ih fun text member => absent text (List.mem_cons_of_mem _ member)
    cases texts with
    | nil =>
      rw [joined, List.intercalate_singleton]
      exact first
    | cons next texts =>
      rw [joined_cons, List.mem_append, List.mem_cons]
      rintro (inside | colons | behind)
      · exact first inside
      · exact absurd colons (by decide)
      · exact later behind

theorem notMem_layout (pairs : List (Byte × Byte)) (run : Option Nat) : 0 ∉ layout pairs shown run := by
  have absent (part : List (Byte × Byte)) : 0 ∉ joined (part.map shown) := by
    refine notMem_joined fun text member => ?_
    obtain ⟨pair, -, rfl⟩ := List.mem_map.mp member
    rw [shown]
    split
    · exact notMem_hexText (by decide) _
    · exact List.not_mem_nil
  cases run with
  | none => exact absent pairs
  | some start =>
    rw [layout, List.mem_append, List.mem_append]
    rintro (before | colons | behind)
    · exact absent _ before
    · exact absurd colons (by decide)
    · exact absent _ behind

/-- Only eight groups of four digits fill the block. -/
theorem layout_room_iff (eight : pairs.length = 8) (low : ∀ pair ∈ pairs, Low pair) {run : Option Nat}
    (long : ∀ start ∈ run, 2 ≤ runAt isZero (pairs.map groupOf) start) :
    (layout pairs shown run).length < maxLen ↔ ∃ pair ∈ pairs, groupOf pair < 0x1000 := by
  cases run with
  | some start =>
    have before := length_joined_le (pairs.take start)
    have behind := length_joined_le (pairs.drop (start + runAt isZero (pairs.map groupOf) start))
    have two := long start rfl
    obtain ⟨zeros, width, zero, whole⟩ := split_runAt (isZero ∘ groupOf) pairs start
    rw [← runAt_map] at width whole
    have total := congrArg List.length whole
    rw [List.length_append, List.length_append, List.length_take, List.length_drop] at total
    obtain ⟨pair, more, rfl⟩ := List.exists_cons_of_length_pos (show 0 < zeros.length by omega)
    have small : groupOf pair = 0 := of_decide_eq_true (zero pair List.mem_cons_self)
    have member : pair ∈ pairs := by
      rw [whole]
      exact List.mem_append_right _ List.mem_cons_self
    rw [List.length_take] at before
    rw [List.length_drop] at behind
    refine iff_of_true ?_ ⟨pair, member, by omega⟩
    rw [layout, List.length_append, List.length_append, maxLen, List.length_cons, List.length_singleton]
    omega
  | none =>
    have each (pair : Byte × Byte) (member : pair ∈ pairs) : (shown pair).length < 4 ↔ groupOf pair < 0x1000 := by
      rw [shown, if_pos (low pair member), Nat.lt_succ_iff]
      exact length_hexText_le_iff (by decide)
    have fours : (pairs.map fun _ => 4).sum = 32 := by
      rw [List.map_const', List.sum_replicate, eight]
      rfl
    have total : (layout pairs shown none).length = (pairs.map fun pair => (shown pair).length).sum + 7 := by
      rw [layout, length_joined, List.length_map, eight, List.map_map]
      rfl
    rw [total, maxLen]
    constructor
    · intro room
      by_contra wide
      have all : (pairs.map fun _ => 4).sum ≤ (pairs.map fun pair => (shown pair).length).sum := by
        refine List.sum_le_sum fun pair member => Nat.le_of_not_lt fun short => ?_
        exact wide ⟨pair, member, (each pair member).mp short⟩
      omega
    · rintro ⟨pair, member, small⟩
      have less : (pairs.map fun pair => (shown pair).length).sum < (pairs.map fun _ => 4).sum :=
        List.sum_lt_sum _ _ (fun pair _ => length_shown_le pair) ⟨pair, member, (each pair member).mpr small⟩
      omega

theorem low_flat_iff (pairs : List (Byte × Byte)) : (∀ b ∈ flat pairs, b < 128) ↔ ∀ pair ∈ pairs, Low pair := by
  induction pairs with
  | nil => exact iff_of_true nofun nofun
  | cons pair pairs ih =>
    rw [flat_cons, List.forall_mem_cons, List.forall_mem_cons, ih, List.forall_mem_cons, ← and_assoc,
      UInt8.lt_iff_toNat_lt, UInt8.lt_iff_toNat_lt]
    rfl

/-- The text of RFC 5952 is returned with its NUL, and the parser finds the address in it. -/
def Prints (ip : List Byte) : Prop := ∃ bytes text, ipv6ToString ip = some bytes ∧ bytes.length = maxLen ∧
  Terminated bytes text ∧ Rfc5952 (groups ip) text ∧ parse text = some ip

/-- Every address is printed without a store outside of the block; the text is the right one exactly if
no byte is negative in `char` and not all groups have four digits. -/
theorem ipv6ToString_iff (ip : List Byte) (width : ip.length = ipv6Len) : (ipv6ToString ip).isSome = true ∧
    (Prints ip ↔ (∀ b ∈ ip, b < 128) ∧ ∃ group ∈ groups ip, group < 0x1000) := by
  obtain ⟨pairs, eight, rfl⟩ := exists_pairs (n := 8) width
  obtain ⟨run, long, rfc, printed⟩ := ipv6ToString_layout eight
  have absent := notMem_layout pairs run
  refine ⟨printed ▸ rfl, ?_⟩
  rw [groups_flat, low_flat_iff]
  constructor
  · rintro ⟨bytes, text, returned, -, ends, rfc', -⟩
    cases printed.symm.trans returned
    rw [groups_flat] at rfc'
    obtain rfl := rfc.unique rfc'
    have room := length_of_terminated absent ends
    have same := (block_terminated absent room).unique ends
    have low : ∀ pair ∈ pairs, Low pair := by
      by_contra high
      have less := length_layout_lt run (by simpa using high)
      rw [same] at less
      exact Nat.lt_irrefl _ less
    obtain ⟨pair, member, small⟩ := (layout_room_iff eight low long).mp room
    exact ⟨low, groupOf pair, List.mem_map_of_mem member, small⟩
  · rintro ⟨low, group, inside, small⟩
    obtain ⟨pair, member, rfl⟩ := List.mem_map.mp inside
    have room := (layout_room_iff eight low long).mpr ⟨pair, member, small⟩
    have ends := block_terminated absent room
    have narrow : ∀ group ∈ pairs.map groupOf, group < 65536 := by
      intro group member
      obtain ⟨pair, -, rfl⟩ := List.mem_map.mp member
      exact groupOf_lt pair
    have parsed := parse_rfc5952 (by rw [List.length_map, eight]) narrow rfc
    rw [bytesOf_groupOf] at parsed
    rw [← layout_low run low] at rfc parsed
    have size : (block (layout pairs shown run)).length = maxLen := by
      rw [block, List.length_append, List.length_replicate]
      omega
    exact ⟨_, _, printed, size, ends, groups_flat pairs ▸ rfc, parsed⟩

/-- The last run of 2001:0:0:7::1 is the longer one. -/
theorem loop_printed : Prints [0x20, 0x01, 0, 0, 0, 0, 0, 7, 0, 0, 0, 0, 0, 0, 0, 1] :=
  (ipv6ToString_iff [0x20, 0x01, 0, 0, 0, 0, 0, 7, 0, 0, 0, 0, 0, 0, 0, 1] rfl).2.mpr
    ⟨by decide +kernel, by decide +kernel⟩

/-- 2001:db8::1 loses the group with the byte b8. -/
theorem db8_lost : ¬Prints [0x20, 0x01, 0x0d, 0xb8, 0, 0, 0, 0, 0, 0, 0, 0, 0, 0, 0, 1] := by
  rintro ⟨bytes, text, returned, -, ends, -, parsed⟩
  have printed : ipv6ToString [0x20, 0x01, 0x0d, 0xb8, 0, 0, 0, 0, 0, 0, 0, 0, 0, 0, 0, 1] =
      some (block [50, 48, 48, 49, 58, 58, 58, 49]) := by decide +kernel
  cases printed.symm.trans returned
  obtain rfl := (block_terminated (by decide) (by decide)).unique ends
  have unread : parse [50, 48, 48, 49, 58, 58, 58, 49] = none := by decide +kernel
  cases unread.symm.trans parsed

end Devent.Ipv6
