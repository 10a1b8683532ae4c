import Devent.Dns.Collecting
import Devent.Library.Walk
import Mathlib.Order.Interval.Finset.Basic
import Mathlib.Data.Int.Interval

/-! When the readers of a message return. A name is read by a cursor that a label or a pointer may
move back; inside the message it only has finitely many places, so its reading comes to an end unless
the cursor circles. -/
namespace Devent.Dns
open Outcome Relation

variable (data : List Byte)

/-- The cursor of a name is moved on where it can be read. -/
def Follows (i j : Int) : Prop := Legible data i ∧ Moves data i j

/-- The cursor of the name at `i` comes back to a place it has left. -/
def Circles (i : Int) : Prop := Walk.Revisits (Follows data) i

/-- The name at `i` is read inside the message, to its end. -/
def NameReturns (i : Int) : Prop := NameWithin data i ∧ ¬Circles data i

/-- Every byte that `c_dns_parse_a` comes to lies inside the message, and every name has an end. -/
def ParseReturns : Prop := MessageRead data (NameReturns data)

def CollectReturns : Nat → Int → Prop
  | 0, _ => True
  | n + 1, i => i ≤ data.length → NameReturns data i ∧
      ∀ size, Accepted data i size → Span data (i + size) 4 ∧ CollectReturns n (i + size + 4)

/-- The same of `c_dns_gen_inet_response`, which stops at a question that starts behind the message. -/
def GenerateReturns : Prop :=
  headerLength ≤ data.length → ¬IsResponse data → CollectReturns data (word data 4) headerLength

variable {data}

theorem Legible.range {i : Int} (legible : Legible data i) : 0 ≤ i ∧ i < data.length := by
  have inside := legible.inside
  simp only [Span] at inside
  omega

theorem labelStep_range (data : List Byte) (i : Int) : -128 ≤ labelStep data i ∧ labelStep data i ≤ 128 := by
  have bound := (octet data i).toNat_lt
  simp only [labelStep, signedChar]
  split <;> omega

theorem Follows.range {i j : Int} (follows : Follows data i j) :
    -128 ≤ j ∧ j ≤ (data.length : Int) + 128 := by
  obtain ⟨legible, move⟩ := follows
  have place := legible.range
  cases move with
  | label =>
    have step := labelStep_range data i
    omega
  | pointer _ near => omega

theorem cursors_finite (data : List Byte) (i : Int) : {c | ReflTransGen (Follows data) i c}.Finite := by
  refine ((Set.finite_Icc (-128) ((data.length : Int) + 128)).insert i).subset ?_
  intro c walk
  obtain rfl | ⟨b, -, follows⟩ := ReflTransGen.cases_tail walk
  · exact .inl rfl
  · exact .inr follows.range

variable {fuel : Nat} {offset i size : Int} {text : Option Text}

theorem follows_pointer {j : Int} (pointer : IsPointer data i) (follows : Follows data i j) :
    j = pointerTarget data i ∧ pointerTarget data i ≤ data.length := by
  obtain ⟨-, move⟩ := follows
  cases move with
  | label _ plain => exact absurd pointer plain
  | pointer _ near => exact ⟨rfl, near⟩

theorem follows_label {j : Int} (plain : ¬IsPointer data i) (follows : Follows data i j) :
    j = i + labelStep data i ∧ octet data i ≠ 0 := by
  obtain ⟨-, move⟩ := follows
  cases move with
  | label root _ => exact ⟨rfl, root⟩
  | pointer pointer _ => exact absurd pointer plain

/-- A cursor whose walk stops is read to the end. -/
theorem getName_halts (stops : Walk.Stops (Follows data) i) (offset : Int) (text : Option Text)
    (size : Int) : ∃ fuel, getName data fuel offset i text size ≠ .running := by
  induction stops generalizing offset text size with
  | intro i _ ih =>
    by_cases legible : Legible data i
    · obtain root | ⟨pointer, far⟩ | ⟨pointer, near⟩ | ⟨root, plain⟩ := cursor_cases data i
      · exact ⟨1, by simp [getName_root legible root]⟩
      · exact ⟨1, by simp [getName_far legible pointer far]⟩
      · obtain ⟨finish, -, round⟩ := getName_near offset text size legible pointer near
        obtain ⟨fuel, done⟩ := ih _ ⟨legible, .pointer pointer near⟩ (pointerTarget data i) none 0
        refine ⟨fuel + 1, ?_⟩
        rw [round]
        cases nested : getName data fuel (pointerTarget data i) (pointerTarget data i) none 0 with
        | value left => simp
        | fault e => simp
        | running => exact absurd nested done
      · obtain ⟨gathered, round⟩ := getName_label offset text size legible root plain
        obtain ⟨fuel, done⟩ :=
          ih _ ⟨legible, .label root plain⟩ offset gathered (size + labelStep data i)
        exact ⟨fuel + 1, by rwa [round]⟩
    · obtain ⟨e, round⟩ := getName_illegible offset text size legible
      exact ⟨1, by simp [round]⟩

theorem getName_stops (done : getName data fuel offset i text size ≠ .running) :
    Walk.Stops (Follows data) i := by
  induction fuel generalizing offset i text size with
  | zero => exact absurd rfl done
  | succ fuel ih =>
    by_cases legible : Legible data i
    · obtain root | ⟨pointer, far⟩ | ⟨pointer, near⟩ | ⟨root, plain⟩ := cursor_cases data i
      · refine Walk.stops_of_end fun j follows => ?_
        have plain : ¬IsPointer data i := fun pointer => pointer_nonzero pointer root
        exact (follows_label plain follows).2 root
      · refine Walk.stops_of_end fun j follows => ?_
        exact Nat.not_le.mpr far (follows_pointer pointer follows).2
      · obtain ⟨finish, -, round⟩ := getName_near offset text size legible pointer near
        refine Acc.intro i fun j follows => ?_
        obtain ⟨rfl, -⟩ := follows_pointer pointer follows
        have unended : getName data fuel (pointerTarget data i) (pointerTarget data i) none 0 ≠ .running := by
          intro running
          exact done (by rw [round, running, running_bind])
        exact ih unended
      · obtain ⟨gathered, round⟩ := getName_label offset text size legible root plain
        refine Acc.intro i fun j follows => ?_
        obtain ⟨rfl, -⟩ := follows_label plain follows
        exact ih (by rwa [round] at done)
    · exact Walk.stops_of_end fun j follows => legible follows.1

/-- A name is returned exactly when its cursor stays inside the message and does not circle. -/
theorem getName_returns_iff (data : List Byte) (i : Int) :
    Returns (fun fuel => getName data fuel i i none 0) (fun _ => True) ↔ NameReturns data i := by
  have stable := getName_stable data i i none 0
  have straight : Walk.Stops (Follows data) i ↔ ¬Circles data i := Walk.stops_iff (cursors_finite data i)
  rw [NameReturns, ← straight]
  constructor
  · rintro ⟨name, ended, -⟩
    obtain ⟨fuel, value⟩ := (stable.ends_iff (by simp)).mp ended
    have done : getName data fuel i i none 0 ≠ .running := by simp [value]
    exact ⟨.of_ends ended, getName_stops done⟩
  · rintro ⟨within, stops⟩
    obtain ⟨fuel, done⟩ := getName_halts stops i none 0
    cases outcome : getName data fuel i i none 0 with
    | value name => exact ⟨name, (stable.ends_iff (by simp)).mpr ⟨fuel, outcome⟩, trivial⟩
    | fault e => exact absurd ((stable.ends_iff (by simp)).mpr ⟨fuel, outcome⟩) (nameWithin_iff.mp within e)
    | running => exact absurd outcome done

theorem namesReturn (data : List Byte) : ReadsNames data True (NameReturns data) := by
  intro i
  rw [← returns_iff_meets, getName_returns_iff]

theorem parseA_returns_iff (data : List Byte) :
    Returns (parseA data) (fun _ => True) ↔ ParseReturns data := by
  rw [returns_iff_meets, (namesReturn data).parseA_iff, ParseReturns]

theorem collectQuestions_returns_iff {count : Nat} {qSize : Int} {respLen : Nat}
    {domains : List DomainOffset} :
    Meets True (fun fuel => collectQuestions data fuel count qSize respLen domains) (fun _ => True) ↔
      CollectReturns data count (headerLength + qSize) := by
  induction count generalizing qSize respLen domains with
  | zero => exact meets_value_iff
  | succ count ih =>
    by_cases within : headerLength + qSize ≤ data.length
    · simp only [collectQuestions_within within, CollectReturns, within, true_implies]
      refine (namesReturn data).afterName_iff
        (q := fun size => Span data (headerLength + qSize + size) 4 ∧
          CollectReturns data count (headerLength + qSize + size + 4))
        (fun name => collectMore_stable name (collectQuestions_stable data count)) trivial fun name => ?_
      by_cases fields : Span data (headerLength + qSize + name.size) 4
      · obtain ⟨respLen', domains', -, more⟩ := collectMore_inside count respLen domains fields
        have place : (headerLength : Int) + (qSize + name.size + 4) = headerLength + qSize + name.size + 4 := by
          omega
        simp only [funext more, ih, fields, true_and, place]
      · obtain ⟨e, more⟩ := collectMore_outside count respLen domains fields
        simp only [funext more, not_meets_fault, fields, false_and]
    · simp only [collectQuestions_beyond within, meets_value_iff, CollectReturns, within, false_implies]

variable (malloc : Malloc) (callbacks : Callbacks)

/-- What was collected is answered, whatever it is. -/
theorem collected_respond (long : headerLength ≤ data.length) (asked : word data 4 ≠ 0) (flags : Byte)
    {collected : Option (Int × Nat × List DomainOffset)}
    (ended : Ends (fun fuel => collectQuestions data fuel (word data 4) 0 data.length []) (.value collected)) :
    Meets True (fun _ => respond malloc callbacks data flags collected) fun _ => True := by
  suffices answered : ∃ result, respond malloc callbacks data flags collected = .value result by
    obtain ⟨result, answered⟩ := answered
    simp only [answered]
    exact meets_value_iff.mpr trivial
  cases collected with
  | none => exact ⟨_, rfl⟩
  | some found =>
    obtain ⟨qEnd, total, domains⟩ := found
    obtain ⟨N, reached⟩ := ended
    obtain ⟨counted, last⟩ := collectQuestions_room (reached N (Nat.le_refl N))
    have none : answersLength [] = 0 := rfl
    obtain ⟨-, unasked⟩ | ⟨positive, within⟩ := last
    · exact absurd unasked asked
    · exact respond_fits malloc callbacks long (by omega) within (by omega)

theorem genInetResponse_returns_iff (data : List Byte) :
    Returns (genInetResponse malloc callbacks data) (fun _ => True) ↔ GenerateReturns data := by
  rw [returns_iff_meets]
  by_cases long : headerLength ≤ data.length
  · by_cases response : IsResponse data
    · have refused := genInetResponse_response malloc callbacks long response
      simp only [funext refused, meets_value_iff, GenerateReturns, response, not_true_eq_false,
        false_implies, implies_true]
    · simp only [funext (genInetResponse_query malloc callbacks long response), GenerateReturns, long,
        response, not_false_eq_true, true_implies]
      by_cases empty : word data 4 = 0
      · simp only [empty, if_true, pure_eq, meets_value_iff, CollectReturns]
      · simp only [if_neg empty]
        rw [(collectQuestions_stable data (word data 4) 0 data.length []).meets_bind_iff
          fun _ => stable_const _, meets_iff]
        refine (and_iff_left fun collected ended => ?_).trans collectQuestions_returns_iff
        exact collected_respond malloc callbacks long empty _ ended
  · simp only [funext (genInetResponse_short malloc callbacks long), meets_value_iff, GenerateReturns, long,
      false_implies]

/-- A name is returned exactly when its cursor stays inside the message and does not circle; a packet
is parsed or answered exactly when all that is read of it lies inside it and none of its names circles. -/
theorem names_terminate_iff (data : List Byte) :
    (∀ i, Returns (fun fuel => getName data fuel i i none 0) (fun _ => True) ↔
        NameWithin data i ∧ ¬Circles data i) ∧
      (Returns (parseA data) (fun _ => True) ↔ ParseReturns data) ∧
      ∀ malloc callbacks,
        Returns (genInetResponse malloc callbacks data) (fun _ => True) ↔ GenerateReturns data :=
  ⟨getName_returns_iff data, parseA_returns_iff data, fun malloc callbacks =>
    genInetResponse_returns_iff malloc callbacks data⟩

/-- A response whose one question is a pointer to itself. -/
def selfPointer : List Byte := [0, 0, 0x80, 0, 0, 1, 0, 1, 0, 0, 0, 0, 0xC0, 0x0C]

theorem selfPointer_circles : Circles selfPointer 12 := by
  have legible : Legible selfPointer 12 := by
    constructor
    · exact .inr ⟨by decide, by decide⟩
    · exact fun _ => .inr ⟨by decide, by decide⟩
    · intro _ plain
      exact absurd (show octet selfPointer 12 >>> 6 = 3 by decide) plain
  have move : Moves selfPointer 12 12 := Moves.pointer (i := 12) (by unfold IsPointer; decide) (by decide)
  exact ⟨12, .refl, .single ⟨legible, move⟩⟩

theorem selfPointer_never_returns : ¬∀ data : List Byte,
    (∀ i : Nat, i < data.length → Returns (fun fuel => getName data fuel i i none 0) fun _ => True) ∧
      Returns (parseA data) (fun _ => True) ∧
      ∀ malloc callbacks, Returns (genInetResponse malloc callbacks data) fun _ => True := by
  intro claim
  have returns := (claim selfPointer).1 12 (by decide)
  exact ((getName_returns_iff selfPointer 12).mp returns).2 selfPointer_circles

end Devent.Dns
