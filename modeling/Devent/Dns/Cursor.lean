import Devent.Dns.Reading

/-! The cursor of `get_name`: one round by what stands under it, the places where it leaves the
message, and the size that it returns. Every round needs fuel; a name that is returned needs no
more of it. -/
namespace Devent.Dns
open Outcome

variable {data : List Byte} {fuel : Nat} {offset i size : Int} {text : Option Text}

theorem pointer_nonzero (pointer : IsPointer data i) : octet data i ≠ 0 := by
  intro root
  rw [IsPointer, root] at pointer
  exact absurd pointer (by decide)

theorem getName_illegible (offset : Int) (text : Option Text) (size : Int) (illegible : ¬Legible data i) :
    ∃ e, ∀ fuel, getName data (fuel + 1) offset i text size = .fault e := by
  by_cases inside : Span data i 1
  · by_cases root : octet data i = 0
    · exact absurd ⟨inside, fun pointer => absurd root (pointer_nonzero pointer),
        fun nonzero => absurd root nonzero⟩ illegible
    · by_cases pointer : IsPointer data i
      · have second : ¬Span data (i + 1) 1 := fun second =>
          illegible ⟨inside, fun _ => second, fun _ label => absurd pointer label⟩
        have marked : octet data i >>> 6 = 3 := pointer
        exact ⟨i + 1, fun fuel => by
          simp only [getName, read_inside inside, value_bind, if_neg root, if_pos marked,
            read_outside second, fault_bind]⟩
      · obtain ⟨e, copied⟩ := strndup_outside fun copies =>
          illegible ⟨inside, fun marked => absurd marked pointer, fun _ _ => copies⟩
        have plain : ¬octet data i >>> 6 = 3 := pointer
        exact ⟨e, fun fuel => by
          simp only [getName, read_inside inside, value_bind, if_neg root, if_neg plain, copied,
            fault_bind]⟩
  · exact ⟨i, fun fuel => by simp only [getName, read_outside inside, fault_bind]⟩

theorem getName_root (legible : Legible data i) (root : octet data i = 0) :
    getName data (fuel + 1) offset i text size = .value ⟨size + 1, text, offset⟩ := by
  simp only [getName, read_inside legible.inside, value_bind, if_pos root, pure_eq]

theorem getName_far (legible : Legible data i) (pointer : IsPointer data i)
    (far : data.length < pointerTarget data i) :
    getName data (fuel + 1) offset i text size = .value ⟨-1, none, offset⟩ := by
  have marked : octet data i >>> 6 = 3 := pointer
  simp only [pointerTarget] at far
  simp only [getName, read_inside legible.inside, value_bind, if_neg (pointer_nonzero pointer),
    if_pos marked, read_inside (legible.pointer pointer), gt_iff_lt, if_pos far, pure_eq]

/-- The call behind a pointer, and what is made of its name. -/
theorem getName_near (offset : Int) (text : Option Text) (size : Int) (legible : Legible data i)
    (pointer : IsPointer data i) (near : pointerTarget data i ≤ data.length) :
    ∃ finish : Name → Name, (∀ left, (finish left).size = size + 2) ∧
      ∀ fuel, getName data (fuel + 1) offset i text size =
        getName data fuel (pointerTarget data i) (pointerTarget data i) none 0 >>= fun left =>
          return finish left := by
  have marked : octet data i >>> 6 = 3 := pointer
  have within : ¬data.length < pointerTarget data i := Nat.not_lt.mpr near
  simp only [pointerTarget] at within ⊢
  cases text with
  | none =>
    refine ⟨fun left => ⟨size + 2, left.text, left.offset⟩, fun _ => rfl, fun fuel => ?_⟩
    simp only [getName, read_inside legible.inside, value_bind, if_neg (pointer_nonzero pointer),
      if_pos marked, read_inside (legible.pointer pointer), gt_iff_lt, if_neg within]
  | some gathered =>
    refine ⟨fun left => ⟨size + 2, some (gather (some gathered) (left.text.getD nullText)), offset⟩,
      fun _ => rfl, fun fuel => ?_⟩
    simp only [getName, read_inside legible.inside, value_bind, if_neg (pointer_nonzero pointer),
      if_pos marked, read_inside (legible.pointer pointer), gt_iff_lt, if_neg within]

theorem getName_label (offset : Int) (text : Option Text) (size : Int) (legible : Legible data i)
    (root : octet data i ≠ 0) (plain : ¬IsPointer data i) :
    ∃ gathered, ∀ fuel, getName data (fuel + 1) offset i text size =
      getName data fuel offset (i + labelStep data i) gathered (size + labelStep data i) := by
  obtain ⟨label, copied⟩ := strndup_inside (legible.label root plain)
  have unmarked : ¬octet data i >>> 6 = 3 := plain
  refine ⟨some (gather text label), fun fuel => ?_⟩
  simp only [getName, read_inside legible.inside, value_bind, if_neg root, if_neg unmarked, copied,
    labelStep]

theorem cursor_cases (data : List Byte) (i : Int) :
    octet data i = 0 ∨ (IsPointer data i ∧ data.length < pointerTarget data i) ∨
      (IsPointer data i ∧ pointerTarget data i ≤ data.length) ∨
      (octet data i ≠ 0 ∧ ¬IsPointer data i) := by
  by_cases root : octet data i = 0
  · exact .inl root
  · by_cases pointer : IsPointer data i
    · obtain far | near := Nat.lt_or_ge data.length (pointerTarget data i)
      · exact .inr (.inl ⟨pointer, far⟩)
      · exact .inr (.inr (.inl ⟨pointer, near⟩))
    · exact .inr (.inr (.inr ⟨root, pointer⟩))

theorem getName_stable (data : List Byte) (offset i : Int) (text : Option Text) (size : Int) :
    Stable fun fuel => getName data fuel offset i text size := by
  intro n m le done
  induction n generalizing m offset i text size with
  | zero => exact absurd rfl done
  | succ n ih =>
    obtain ⟨m, rfl⟩ := Nat.exists_eq_add_of_le' (Nat.le_trans (Nat.le_add_left 1 n) le)
    have le := Nat.le_of_succ_le_succ le
    by_cases legible : Legible data i
    · obtain root | ⟨pointer, far⟩ | ⟨pointer, near⟩ | ⟨root, plain⟩ := cursor_cases data i
      · simp only [getName_root legible root]
      · simp only [getName_far legible pointer far]
      · obtain ⟨finish, -, round⟩ := getName_near offset text size
          legible pointer near
        simp only [round] at done ⊢
        have nested : getName data n (pointerTarget data i) (pointerTarget data i) none 0 ≠ .running := by
          intro running
          exact done (by rw [running, running_bind])
        have same := ih _ _ _ _ m le nested
        simp only at same
        rw [same]
      · obtain ⟨gathered, round⟩ := getName_label offset text size
          legible root plain
        simp only [round] at done ⊢
        exact ih _ _ _ _ m le done
    · obtain ⟨e, round⟩ := getName_illegible offset text size legible
      simp only [round]

/-- A fault of `get_name` is a place in the walk that is not legible. -/
theorem getName_fault {e : Int} (fault : getName data fuel offset i text size = .fault e) :
    ∃ c, Relation.ReflTransGen (Moves data) i c ∧ ¬Legible data c := by
  induction fuel generalizing offset i text size with
  | zero => cases fault
  | succ fuel ih =>
    by_cases legible : Legible data i
    · obtain root | ⟨pointer, far⟩ | ⟨pointer, near⟩ | ⟨root, plain⟩ := cursor_cases data i
      · cases (getName_root legible root).symm.trans fault
      · cases (getName_far legible pointer far).symm.trans fault
      · obtain ⟨finish, -, round⟩ := getName_near offset text size
          legible pointer near
        obtain inner | ⟨left, -, finished⟩ := bind_fault_iff.mp ((round fuel).symm.trans fault)
        · obtain ⟨c, walk, illegible⟩ := ih inner
          exact ⟨c, walk.head (.pointer pointer near), illegible⟩
        · cases finished
      · obtain ⟨gathered, round⟩ := getName_label offset text size
          legible root plain
        obtain ⟨c, walk, illegible⟩ := ih ((round fuel).symm.trans fault)
        exact ⟨c, walk.head (.label root plain), illegible⟩
    · exact ⟨i, .refl, legible⟩

/-- Every such place is reached by some fuel. -/
theorem getName_reaches (offset : Int) (text : Option Text) (size : Int) {c : Int}
    (walk : Relation.ReflTransGen (Moves data) i c) (illegible : ¬Legible data c) :
    ∃ fuel e, getName data fuel offset i text size = .fault e := by
  induction walk using Relation.ReflTransGen.head_induction_on generalizing offset text size with
  | refl =>
    obtain ⟨e, round⟩ := getName_illegible offset text size illegible
    exact ⟨1, e, round 0⟩
  | @head i next move rest ih =>
    by_cases legible : Legible data i
    · cases move with
      | label root plain =>
        obtain ⟨gathered, round⟩ := getName_label offset text size
          legible root plain
        obtain ⟨fuel, e, fault⟩ := ih offset gathered (size + labelStep data i)
        exact ⟨fuel + 1, e, (round fuel).trans fault⟩
      | pointer pointer near =>
        obtain ⟨finish, -, round⟩ := getName_near offset text size
          legible pointer near
        obtain ⟨fuel, e, fault⟩ := ih (pointerTarget data i) none 0
        exact ⟨fuel + 1, e, (round fuel).trans (by rw [fault, fault_bind])⟩
    · obtain ⟨e, round⟩ := getName_illegible offset text size legible
      exact ⟨1, e, round 0⟩

/-- The size `get_name` returns when it has gathered `size` so far. -/
def returned (size : Int) : Option Int → Int
  | none => -1
  | some more => size + more

theorem getName_size {name : Name} (value : getName data fuel offset i text size = .value name) :
    ∃ more, NameSize data i more ∧ name.size = returned size more := by
  induction fuel generalizing offset i text size name with
  | zero => cases value
  | succ fuel ih =>
    by_cases legible : Legible data i
    · obtain root | ⟨pointer, far⟩ | ⟨pointer, near⟩ | ⟨root, plain⟩ := cursor_cases data i
      · cases (getName_root legible root).symm.trans value
        exact ⟨some 1, .root root, rfl⟩
      · cases (getName_far legible pointer far).symm.trans value
        exact ⟨none, .far pointer far, rfl⟩
      · obtain ⟨finish, sized, round⟩ := getName_near offset text size
          legible pointer near
        obtain ⟨left, inner, finished⟩ := bind_value_iff.mp ((round fuel).symm.trans value)
        obtain ⟨more, ends, -⟩ := ih inner
        cases finished
        exact ⟨some 2, .pointer pointer near ends, sized left⟩
      · obtain ⟨gathered, round⟩ := getName_label offset text size
          legible root plain
        obtain ⟨more, ends, total⟩ := ih ((round fuel).symm.trans value)
        refine ⟨more.map (labelStep data i + ·), .label root plain ends, ?_⟩
        rw [total]
        cases more with
        | none => rfl
        | some more => exact Int.add_assoc ..
    · obtain ⟨e, round⟩ := getName_illegible offset text size legible
      cases (round fuel).symm.trans value

theorem NameWithin.legible (within : NameWithin data i) : Legible data i := within i .refl

theorem NameWithin.next {j : Int} (within : NameWithin data i) (move : Moves data i j) :
    NameWithin data j := fun c walk => within c (walk.head move)

/-- A name that ends and stays inside is returned. -/
theorem getName_ends (offset : Int) (text : Option Text) (size : Int) {more : Option Int}
    (ends : NameSize data i more) (within : NameWithin data i) :
    ∃ fuel name, getName data fuel offset i text size = .value name ∧ name.size = returned size more := by
  induction ends generalizing offset text size with
  | root root => exact ⟨1, _, getName_root within.legible root, rfl⟩
  | far pointer far => exact ⟨1, _, getName_far within.legible pointer far, rfl⟩
  | @pointer i _ pointer near _ ih =>
    obtain ⟨finish, sized, round⟩ := getName_near offset text size
      within.legible pointer near
    obtain ⟨fuel, left, inner, -⟩ := ih (pointerTarget data i) none 0
      (within.next (.pointer pointer near))
    exact ⟨fuel + 1, finish left, (round fuel).trans (by rw [inner, value_bind, pure_eq]), sized left⟩
  | @label i more root plain _ ih =>
    obtain ⟨gathered, round⟩ := getName_label offset text size
      within.legible root plain
    obtain ⟨fuel, name, value, total⟩ := ih offset gathered (size + labelStep data i)
      (within.next (.label root plain))
    refine ⟨fuel + 1, name, (round fuel).trans value, ?_⟩
    rw [total]
    cases more with
    | none => rfl
    | some more => exact Int.add_assoc ..

theorem accepted_of_ends {name : Name} {more : Option Int} (ends : NameSize data i more)
    (total : name.size = returned 0 more) (accepted : name.size ≠ -1) : Accepted data i name.size := by
  cases more with
  | none => exact absurd total accepted
  | some more =>
    have same : name.size = more := total.trans (Int.zero_add more)
    exact ⟨same ▸ ends, accepted⟩

theorem rejected_of_ends {name : Name} {more : Option Int} (ends : NameSize data i more)
    (total : name.size = returned 0 more) (refused : name.size = -1) : Rejected data i := by
  cases more with
  | none => exact .inl ends
  | some more =>
    have same : more = -1 := (total.trans (Int.zero_add more)).symm.trans refused
    exact .inr (same ▸ ends)

theorem Accepted.ends {size : Int} (accepted : Accepted data i size) (within : NameWithin data i) :
    ∃ name, Ends (fun fuel => getName data fuel i i none 0) (.value name) ∧ name.size = size := by
  obtain ⟨fuel, name, value, total⟩ := getName_ends i none 0
    accepted.1 within
  exact ⟨name, ((getName_stable data i i none 0).ends_iff (by simp)).mpr ⟨fuel, value⟩,
    total.trans (Int.zero_add size)⟩

theorem Rejected.ends (rejected : Rejected data i) (within : NameWithin data i) :
    ∃ name, Ends (fun fuel => getName data fuel i i none 0) (.value name) ∧ name.size = -1 := by
  obtain far | sum := rejected
  · obtain ⟨fuel, name, value, total⟩ := getName_ends i none 0 far within
    exact ⟨name, ((getName_stable data i i none 0).ends_iff (by simp)).mpr ⟨fuel, value⟩, total⟩
  · obtain ⟨fuel, name, value, total⟩ := getName_ends i none 0 sum within
    exact ⟨name, ((getName_stable data i i none 0).ends_iff (by simp)).mpr ⟨fuel, value⟩, total⟩

/-- A name is read inside the message exactly when its reading ends in no fault. -/
theorem nameWithin_iff :
    NameWithin data i ↔ ∀ e, ¬Ends (fun fuel => getName data fuel i i none 0) (.fault e) := by
  constructor
  · intro within e ended
    obtain ⟨fuel, fault⟩ := ((getName_stable data i i none 0).ends_iff (by simp)).mp ended
    obtain ⟨c, walk, illegible⟩ := getName_fault fault
    exact illegible (within c walk)
  · intro safe c walk
    by_contra illegible
    obtain ⟨fuel, e, fault⟩ := getName_reaches i none 0 walk illegible
    exact safe e (((getName_stable data i i none 0).ends_iff (by simp)).mpr ⟨fuel, fault⟩)

/-- A name that is returned has stayed inside. -/
theorem NameWithin.of_ends {name : Name}
    (ended : Ends (fun fuel => getName data fuel i i none 0) (.value name)) : NameWithin data i := by
  refine nameWithin_iff.mpr fun e fault => ?_
  cases fault.unique ended

end Devent.Dns
