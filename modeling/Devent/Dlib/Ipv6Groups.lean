import Devent.Dlib.Ipv6Digits

/-! The loops of `ipv6_to_string`: the run of zero groups, and the groups around it. -/
namespace Devent.Ipv6
open LongestRun

variable {pairs : List (Byte × Byte)} {pair : Byte × Byte} {k rounds : Nat}

theorem flat_get (here : pairs[k]? = some pair) :
    (flat pairs)[2 * k]? = some pair.1 ∧ (flat pairs)[2 * k + 1]? = some pair.2 := by
  induction pairs generalizing k with
  | nil => cases here
  | cons first pairs ih =>
    cases k with
    | zero =>
      cases here
      exact ⟨rfl, rfl⟩
    | succ k => exact ih here

theorem isZero_groupOf (pair : Byte × Byte) : isZero (groupOf pair) = true ↔ pair.1 = 0 ∧ pair.2 = 0 := by
  rw [isZero, decide_eq_true_eq, groupOf, ← UInt8.toNat_inj, ← UInt8.toNat_inj, UInt8.toNat_zero]
  omega

theorem skipZeros_spec (eight : pairs.length = 8) (inside : k ≤ 8) (enough : 8 < k + rounds) :
    skipZeros (flat pairs) rounds (2 * k) = some (2 * (k + runAt isZero (pairs.map groupOf) k)) := by
  induction rounds generalizing k with
  | zero => omega
  | succ rounds ih =>
    rw [skipZeros]
    by_cases more : 2 * k < ipv6Len
    · have bound : k < pairs.length := by
        rw [ipv6Len] at more
        omega
      obtain ⟨high, low⟩ := flat_get (List.getElem?_eq_getElem bound)
      have group : (pairs.map groupOf)[k]? = some (groupOf pairs[k]) := by
        rw [List.getElem?_map, List.getElem?_eq_getElem bound, Option.map_some]
      rw [if_pos more, runAt_cons group, high, low]
      simp only [Option.bind_eq_bind, Option.bind_some]
      by_cases zero : pairs[k].1 = 0 ∧ pairs[k].2 = 0
      · rw [if_pos zero.1, if_pos zero.2, if_pos ((isZero_groupOf _).mpr zero)]
        have later := ih (k := k + 1) (by omega) (by omega)
        rw [show 2 * k + 2 = 2 * (k + 1) by omega, later, Nat.add_assoc k 1, Nat.add_comm 1]
      · rw [if_neg fun same => zero ((isZero_groupOf _).mp same)]
        by_cases first : pairs[k].1 = 0
        · rw [if_pos first, if_neg fun second => zero ⟨first, second⟩, Nat.add_zero]
        · rw [if_neg first, Nat.add_zero]
    · have behind : (pairs.map groupOf).length ≤ k := by
        rw [List.length_map]
        rw [ipv6Len] at more
        omega
      rw [if_neg more, runAt_behind behind, Nat.add_zero]

/-- `e0` and `e1` bound the bytes of a run, or are -1. -/
structure Stands (start len : Nat) (e0 e1 : Int) : Prop where
  width : e1 - e0 = 2 * len
  bounds : 0 < len → e0 = (2 * start : Nat) ∧ e1 = (2 * (start + len) : Nat)

theorem findZeros_spec (eight : pairs.length = 8) {n start len : Nat} {e0 e1 : Int} (enough : 8 ≤ n + rounds)
    (best : Best isZero (pairs.map groupOf) n start len) (stands : Stands start len e0 e1) :
    ∃ n' start' len' e0' e1', findZeros (flat pairs) rounds (2 * n) e0 e1 = some (e0', e1') ∧ 8 ≤ n' ∧
      Best isZero (pairs.map groupOf) n' start' len' ∧ Stands start' len' e0' e1' := by
  induction rounds generalizing n start len e0 e1 with
  | zero =>
    have done : ¬2 * n < ipv6Len := by
      rw [ipv6Len]
      omega
    exact ⟨n, start, len, e0, e1, if_neg done, by omega, best, stands⟩
  | succ rounds ih =>
    rw [findZeros]
    by_cases more : 2 * n < ipv6Len
    · have inside : n ≤ 8 := by
        rw [ipv6Len] at more
        omega
      have skipped : skipZeros (flat pairs) ipv6Len (2 * n) = _ :=
        skipZeros_spec eight inside (Nat.lt_of_lt_of_le (by decide) (Nat.le_add_left ipv6Len n))
      have width := stands.width
      rw [if_pos more, skipped]
      simp only [Option.bind_eq_bind, Option.bind_some]
      by_cases longer : len < runAt isZero (pairs.map groupOf) n
      · rw [if_pos (by omega), show 2 * (n + runAt isZero (pairs.map groupOf) n) + 2 =
          2 * (n + runAt isZero (pairs.map groupOf) n + 1) by omega]
        exact ih (by omega) (best.take longer) ⟨by omega, fun _ => ⟨rfl, rfl⟩⟩
      · rw [if_neg (by omega), show 2 * n + 2 = 2 * (n + 1) by omega]
        exact ih (by omega) (best.pass (Nat.le_of_not_lt longer)) stands
    · rw [if_neg more]
      rw [ipv6Len] at more
      exact ⟨n, start, len, e0, e1, rfl, by omega, best, stands⟩

variable {text : List Byte} {e0 e1 : Int}

theorem appendGroup_appends (here : pairs[k]? = some pair) :
    Appends (appendGroup (flat pairs) (2 * k)) (shown pair) := by
  intro text fits
  obtain ⟨high, low⟩ := flat_get here
  rw [appendGroup, high, low]
  exact appendHex_appends pair text fits

/-- Between groups stands a colon. -/
def separator (k : Nat) : List Byte := if 0 < k then [colon] else []

theorem separator_appends (k : Nat) : Appends
    (fun dst index => if 2 * k > 0 then appendByte dst index colon else some (dst, index)) (separator k) := by
  intro text fits
  rw [separator] at fits ⊢
  by_cases later : 0 < k
  · rw [if_pos later] at fits ⊢
    simp only [if_pos (show 2 * k > 0 by omega)]
    exact appendByte_appends colon text fits
  · rw [if_neg later, List.append_nil]
    exact if_neg (by omega)

/-- The loop of the output at a group outside the run. -/
theorem printGroups_group (here : pairs[k]? = some pair) (inside : k < 8) (other : 2 * k ≠ sizeT e0)
    (fits : text.length + (separator k ++ shown pair).length ≤ maxLen) :
    printGroups (flat pairs) e0 e1 (rounds + 1) (2 * k) (block text) text.length =
      printGroups (flat pairs) e0 e1 rounds (2 * (k + 1)) (block (text ++ (separator k ++ shown pair)))
        (text ++ (separator k ++ shown pair)).length := by
  have more : 2 * k < ipv6Len := by
    rw [ipv6Len]
    omega
  rw [List.length_append] at fits
  have first : (if 2 * k > 0 then appendByte (block text) text.length colon else some (block text, text.length)) = _ :=
    separator_appends k text (by omega)
  have second := appendGroup_appends here (text ++ separator k) (by rw [List.length_append]; omega)
  rw [List.append_assoc] at second
  rw [printGroups, if_pos more, if_neg other]
  by_cases later : 2 * k > 0
  · rw [if_pos later] at first ⊢
    simp only [first, second, Option.bind_eq_bind, Option.bind_some]
    rfl
  · rw [if_neg later, Option.some.injEq, Prod.mk.injEq] at first
    rw [← first.1, ← first.2] at second
    rw [if_neg later]
    simp only [second, Option.bind_eq_bind, Option.bind_some]
    rfl

/-- At the run it goes on behind the run. -/
theorem printGroups_run {start stop : Nat} (run : 2 * start = sizeT e0) (stops : sizeT e1 = 2 * stop)
    (inside : start < 8) (fits : text.length + 2 ≤ maxLen) :
    printGroups (flat pairs) e0 e1 (rounds + 1) (2 * start) (block text) text.length =
      if 8 ≤ stop then some (block (text ++ [colon, colon]))
      else (appendGroup (flat pairs) (2 * stop) (block (text ++ [colon, colon])) (text ++ [colon, colon]).length).bind
        fun printed => printGroups (flat pairs) e0 e1 rounds (2 * (stop + 1)) printed.1 printed.2 := by
  have more : 2 * start < ipv6Len := by
    rw [ipv6Len]
    omega
  have first := appendByte_appends colon text (by rw [List.length_singleton]; omega)
  have room : (text ++ [colon]).length + 1 ≤ maxLen := by
    simp only [List.length_append, List.length_singleton]
    omega
  have second := appendByte_appends colon (text ++ [colon]) room
  rw [List.append_assoc] at second
  rw [printGroups, if_pos more, if_pos run]
  simp only [first, second, Option.bind_eq_bind, Option.bind_some, stops]
  by_cases ended : 8 ≤ stop
  · rw [if_pos ended, if_pos (by rw [ipv6Len]; omega)]
    rfl
  · rw [if_neg ended, if_neg (by rw [ipv6Len]; omega)]
    rfl

/-- Groups with their colons. -/
def spread (pairs : List (Byte × Byte)) : List Byte := pairs.flatMap fun pair => colon :: shown pair

theorem spread_cons (pair : Byte × Byte) (pairs : List (Byte × Byte)) :
    spread (pair :: pairs) = colon :: (shown pair ++ spread pairs) := rfl

theorem joined_shown (pair : Byte × Byte) (pairs : List (Byte × Byte)) :
    joined ((pair :: pairs).map shown) = shown pair ++ spread pairs := by
  induction pairs generalizing pair with
  | nil =>
    rw [List.map_cons, List.map_nil, joined, List.intercalate_singleton, spread, List.flatMap_nil, List.append_nil]
  | cons next pairs ih =>
    have later := ih next
    rw [List.map_cons] at later
    rw [List.map_cons, List.map_cons, joined_cons, later, spread_cons]

theorem printGroups_rest (eight : pairs.length = 8) (later : 0 < k) (behind : ∀ j, k ≤ j → j < 8 → 2 * j ≠ sizeT e0)
    (enough : 8 ≤ k + rounds) (fits : text.length + (spread (pairs.drop k)).length ≤ maxLen) :
    printGroups (flat pairs) e0 e1 rounds (2 * k) (block text) text.length =
      some (block (text ++ spread (pairs.drop k))) := by
  induction rounds generalizing k text with
  | zero =>
    have done : ¬2 * k < ipv6Len := by
      rw [ipv6Len]
      omega
    rw [printGroups, if_neg done, List.drop_eq_nil_of_le (by omega), spread, List.flatMap_nil, List.append_nil]
  | succ rounds ih =>
    by_cases inside : k < 8
    · have bound : k < pairs.length := by omega
      have split : spread (pairs.drop k) = (separator k ++ shown pairs[k]) ++ spread (pairs.drop (k + 1)) := by
        rw [List.drop_eq_getElem_cons bound, spread, List.flatMap_cons, separator, if_pos later]
        rfl
      rw [split, List.length_append] at fits
      rw [split, printGroups_group (List.getElem?_eq_getElem bound) inside (behind k (Nat.le_refl k) inside) (by omega),
        ih (show 0 < k + 1 by omega) (fun j after => behind j (Nat.le_of_succ_le after)) (by omega)
          (by rw [List.length_append]; omega), List.append_assoc]
    · have done : ¬2 * k < ipv6Len := by
        rw [ipv6Len]
        omega
      rw [printGroups, if_neg done, List.drop_eq_nil_of_le (by omega), spread, List.flatMap_nil, List.append_nil]

/-- What "::" is followed by. -/
theorem printGroups_double {start stop : Nat} (eight : pairs.length = 8) (run : 2 * start = sizeT e0)
    (stops : sizeT e1 = 2 * stop) (order : start < stop) (inside : stop ≤ 8) (enough : 8 ≤ start + rounds)
    (fits : text.length + ([colon, colon] ++ joined ((pairs.drop stop).map shown)).length ≤ maxLen) :
    printGroups (flat pairs) e0 e1 rounds (2 * start) (block text) text.length =
      some (block (text ++ ([colon, colon] ++ joined ((pairs.drop stop).map shown)))) := by
  have two : [colon, colon].length = 2 := rfl
  rw [List.length_append, two] at fits
  obtain ⟨rounds, rfl⟩ := Nat.exists_eq_add_one_of_ne_zero (show rounds ≠ 0 by omega)
  rw [printGroups_run run stops (by omega) (by omega)]
  by_cases ended : 8 ≤ stop
  · rw [if_pos ended, List.drop_eq_nil_of_le (by omega)]
    rfl
  · have bound : stop < pairs.length := by omega
    rw [List.drop_eq_getElem_cons bound, joined_shown, List.length_append] at fits
    rw [if_neg ended, List.drop_eq_getElem_cons bound, joined_shown,
      appendGroup_appends (List.getElem?_eq_getElem bound) _ (by rw [List.length_append, two]; omega), Option.bind_some,
      printGroups_rest eight (show 0 < stop + 1 by omega) (fun j after _ => by omega) (by omega)
        (by rw [List.length_append, List.length_append, two]; omega)]
    simp only [List.append_assoc]

theorem printGroups_until {start stop : Nat} (eight : pairs.length = 8) (run : 2 * start = sizeT e0)
    (stops : sizeT e1 = 2 * stop) (order : start < stop) (inside : stop ≤ 8) (later : 0 < k) (before : k ≤ start)
    (enough : 8 ≤ k + rounds)
    (fits : text.length + (spread ((pairs.take start).drop k) ++
      ([colon, colon] ++ joined ((pairs.drop stop).map shown))).length ≤ maxLen) :
    printGroups (flat pairs) e0 e1 rounds (2 * k) (block text) text.length =
      some (block (text ++ (spread ((pairs.take start).drop k) ++
        ([colon, colon] ++ joined ((pairs.drop stop).map shown))))) := by
  induction rounds generalizing k text with
  | zero => omega
  | succ rounds ih =>
    obtain rfl | further := Nat.eq_or_lt_of_le before
    · have none : spread ((pairs.take k).drop k) = [] := by
        rw [List.drop_eq_nil_of_le (List.length_take_le k pairs)]
        rfl
      rw [none, List.nil_append] at fits ⊢
      exact printGroups_double eight run stops order inside enough fits
    · have bound : k < (pairs.take start).length := by
        rw [List.length_take]
        omega
      have here : pairs[k]? = some (pairs.take start)[k] := by
        rw [List.getElem_take, List.getElem?_eq_getElem]
      have split : spread ((pairs.take start).drop k) =
          (separator k ++ shown (pairs.take start)[k]) ++ spread ((pairs.take start).drop (k + 1)) := by
        rw [List.drop_eq_getElem_cons bound, spread_cons, separator, if_pos later]
        rfl
      rw [split, List.append_assoc, List.length_append] at fits
      rw [split, printGroups_group here (by omega) (by omega) (by omega),
        ih (show 0 < k + 1 by omega) further (by omega) (by rw [List.length_append]; omega)]
      simp only [List.append_assoc]

theorem length_joined_le (pairs : List (Byte × Byte)) : (joined (pairs.map shown)).length ≤ 5 * pairs.length - 1 := by
  have spreads (pairs : List (Byte × Byte)) : (spread pairs).length ≤ 5 * pairs.length := by
    induction pairs with
    | nil => exact Nat.le_refl 0
    | cons pair pairs ih =>
      have short := length_shown_le pair
      rw [spread_cons, List.length_cons, List.length_append, List.length_cons]
      omega
  cases pairs with
  | nil => exact Nat.le_refl 0
  | cons pair pairs =>
    have short := length_shown_le pair
    have others := spreads pairs
    rw [joined_shown, List.length_append, List.length_cons]
    omega

theorem printGroups_first {first : Byte × Byte} {rest : List (Byte × Byte)} (other : 0 ≠ sizeT e0) :
    printGroups (flat (first :: rest)) e0 e1 ipv6Len 0 (block []) 0 =
      printGroups (flat (first :: rest)) e0 e1 15 (2 * 1) (block (shown first)) (shown first).length := by
  have short := length_shown_le first
  have bare : separator 0 ++ shown first = shown first := rfl
  have fits : ([] : List Byte).length + (separator 0 ++ shown first).length ≤ maxLen := by
    rw [bare, List.length_nil, maxLen]
    omega
  have here : (first :: rest)[0]? = some first := rfl
  have printed : printGroups (flat (first :: rest)) e0 e1 (15 + 1) (2 * 0) (block []) ([] : List Byte).length = _ :=
    printGroups_group here (by decide) other fits
  rw [bare, List.nil_append] at printed
  exact printed

/-- Without a run all groups are printed. -/
theorem printGroups_plain (eight : pairs.length = 8) (none : ∀ j, j < 8 → 2 * j ≠ sizeT e0) :
    printGroups (flat pairs) e0 e1 ipv6Len 0 (block []) 0 = some (block (joined (pairs.map shown))) := by
  have fits := length_joined_le pairs
  obtain ⟨first, rest, rfl⟩ := List.exists_cons_of_length_pos (show 0 < pairs.length by omega)
  have behind : (first :: rest).drop 1 = rest := rfl
  rw [joined_shown, List.length_append, eight] at fits
  rw [printGroups_first (none 0 (by decide)),
    printGroups_rest eight Nat.one_pos (fun j _ inside => none j inside) (by omega) (by rw [behind, maxLen]; omega),
    behind, joined_shown]

/-- With one, what is before it and what is behind it. -/
theorem printGroups_around {start stop : Nat} (eight : pairs.length = 8) (run : 2 * start = sizeT e0)
    (stops : sizeT e1 = 2 * stop) (order : start < stop) (inside : stop ≤ 8) :
    printGroups (flat pairs) e0 e1 ipv6Len 0 (block []) 0 =
      some (block (joined ((pairs.take start).map shown) ++
        ([colon, colon] ++ joined ((pairs.drop stop).map shown)))) := by
  have before := length_joined_le (pairs.take start)
  have behind := length_joined_le (pairs.drop stop)
  have two : [colon, colon].length = 2 := rfl
  rw [List.length_take] at before
  rw [List.length_drop] at behind
  by_cases zero : start = 0
  · subst zero
    have fits : ([] : List Byte).length + ([colon, colon] ++ joined ((pairs.drop stop).map shown)).length ≤ maxLen := by
      rw [List.length_append, two, maxLen, List.length_nil]
      omega
    have printed : printGroups (flat pairs) e0 e1 ipv6Len (2 * 0) (block []) ([] : List Byte).length = _ :=
      printGroups_double eight run stops order inside (by decide) fits
    exact printed
  · obtain ⟨first, rest, rfl⟩ := List.exists_cons_of_length_pos (show 0 < pairs.length by omega)
    obtain ⟨count, rfl⟩ := Nat.exists_eq_add_one_of_ne_zero zero
    rw [List.take_succ_cons, joined_shown, List.length_append] at before
    have later : ((first :: rest).take (count + 1)).drop 1 = rest.take count := rfl
    rw [printGroups_first (by omega), printGroups_until eight run stops order inside Nat.one_pos (by omega) (by omega)
      (by rw [later, List.length_append, List.length_append, two, maxLen]; omega), later, List.take_succ_cons,
      joined_shown]
    simp only [List.append_assoc]

/-- The texts of the groups, with "::" for the run at the start if there is one. -/
def layout (pairs : List (Byte × Byte)) (f : Byte × Byte → List Byte) : Option Nat → List Byte
  | none => joined (pairs.map f)
  | some start => joined ((pairs.take start).map f) ++ ([colon, colon] ++
      joined ((pairs.drop (start + runAt isZero (pairs.map groupOf) start)).map f))

/-- The text that is meant, and what is printed in its place. -/
theorem ipv6ToString_layout (eight : pairs.length = 8) : ∃ run : Option Nat,
    (∀ start ∈ run, 2 ≤ runAt isZero (pairs.map groupOf) start) ∧
    Rfc5952 (pairs.map groupOf) (layout pairs (fun pair => hexText (groupOf pair)) run) ∧
      ipv6ToString (flat pairs) = some (block (layout pairs shown run)) := by
  have stands : Stands 0 0 (-1) (-1) := ⟨rfl, nofun⟩
  have enough : 8 ≤ 0 + ipv6Len := by decide
  obtain ⟨n, start, len, e0, e1, found, far, best, stands⟩ :=
    findZeros_spec eight enough (best_zero isZero (pairs.map groupOf) 0) stands
  have whole : (pairs.map groupOf).length ≤ n := by
    rw [List.length_map]
    omega
  have width := stands.width
  rw [ipv6ToString, found]
  simp only [Option.bind_eq_bind, Option.bind_some]
  by_cases short : len ≤ 1
  · have apart (j : Nat) (inside : j < 8) : 2 * j ≠ sizeT (-1) := by
      rw [show sizeT (-1) = 18446744073709551615 from rfl]
      omega
    have rfc : Rfc5952 (pairs.map groupOf) (joined ((pairs.map groupOf).map hexText)) :=
      .whole fun k => Nat.lt_succ_of_le (Nat.le_trans (best.all whole k) short)
    rw [List.map_map] at rfc
    rw [if_pos (by omega)]
    exact ⟨none, nofun, rfc, printGroups_plain eight apart⟩
  · have run := (best.first (by omega)).1
    obtain ⟨rfl, rfl⟩ := stands.bounds (by omega)
    have inside : start ≤ (pairs.map groupOf).length := by
      by_contra outside
      rw [runAt_behind (Nat.le_of_not_le outside)] at run
      omega
    have ends := runAt_le isZero inside
    rw [List.length_map] at inside ends
    have rfc := Rfc5952.shortened start (best.firstLongest whole (by omega)) (by omega)
    have begins : 2 * start = sizeT (2 * start : Nat) := (sizeT_natCast (by omega)).symm
    have stops : sizeT (2 * (start + len) : Nat) = 2 * (start + len) := sizeT_natCast (by omega)
    rw [← List.map_take, ← List.map_drop, List.map_map, List.map_map, List.append_assoc] at rfc
    have long : 2 ≤ runAt isZero (pairs.map groupOf) start := by omega
    refine ⟨some start, fun _ same => Option.some.inj same ▸ long, rfc, ?_⟩
    rw [if_neg (by omega), layout, run]
    exact printGroups_around eight begins stops (by omega) (by omega)

end Devent.Ipv6
