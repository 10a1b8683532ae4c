import Devent.Dns.Parsing

/-! Exactly when the response parser reads inside its message, and on what grounds it answers -1 to
one whose layout lies inside. -/
namespace Devent.Dns
open Outcome

variable {data : List Byte} {i rr start : Int} {host : HostEnt}

theorem afterName_returns {β : Type} {next : Name → Nat → Access (Option β)} {p : Option β → Prop}
    {q : Int → Prop} (stable : ∀ name, Stable (next name)) (rejected : p none)
    (within : NameWithin data i)
    (agree : ∀ name, Accepted data i name.size → (Returns (next name) p ↔ q name.size)) :
    Returns (afterName data i next) p ↔ Rejected data i ∨ ∃ size, Accepted data i size ∧ q size := by
  have rule := (getName_stable data i i none 0).returns_bind_iff (r := p)
    (afterName_rest_stable stable)
  refine rule.trans ?_
  constructor
  · rintro ⟨name, ended, result⟩
    obtain ⟨fuel, value⟩ := ((getName_stable data i i none 0).ends_iff (by simp)).mp ended
    obtain ⟨more, ends, total⟩ := getName_size value
    by_cases refused : name.size = -1
    · exact .inl (rejected_of_ends ends total refused)
    · have accepted := accepted_of_ends ends total refused
      simp only [if_neg refused] at result
      exact .inr ⟨name.size, accepted, (agree name accepted).mp result⟩
  · rintro (refused | ⟨size, accepted, holds⟩)
    · obtain ⟨name, ended, same⟩ := refused.ends within
      refine ⟨name, ended, ?_⟩
      simp only [if_pos same, pure_eq]
      exact returns_value_iff.mpr rejected
    · obtain ⟨name, ended, rfl⟩ := accepted.ends within
      refine ⟨name, ended, ?_⟩
      simp only [if_neg accepted.2]
      exact (agree name accepted).mpr holds

theorem skipQuestions_returns {p : Option Int → Prop} {inside after : Int → Prop} {n : Nat} {qSize : Int}
    (rejected : p none) (within : QuestionsRead data (NameWithin data) inside n (headerLength + qSize))
    (agree : ∀ qSize, inside (headerLength + qSize) → (p (some qSize) ↔ after (headerLength + qSize))) :
    Returns (fun fuel => skipQuestions data fuel n qSize) p ↔
      QuestionsRefused data after n (headerLength + qSize) := by
  induction n generalizing qSize with
  | zero => exact returns_value_iff.trans (agree qSize within)
  | succ n ih =>
    refine afterName_returns (fun name => skipQuestions_stable data n (qSize + name.size + 4)) rejected
      within.1 ?_
    intro name accepted
    have later := within.2 name.size accepted
    have place : (headerLength : Int) + qSize + name.size + 4 = headerLength + (qSize + name.size + 4) := by
      simp only [Int.add_assoc]
    rw [place] at later ⊢
    exact ih later

theorem parseRdata_returns {p : Option HostEnt → Prop} {inside after : Prop} (fields : Span data rr 10)
    (within : RdataRead data (NameWithin data) rr inside) (rejected : p none)
    (agree : ∀ host, inside → (p (some host) ↔ after)) :
    Returns (fun fuel => parseRdata data fuel rr (word data rr) (word data (rr + 2))
      (rdataLength data rr) host) p ↔ RdataRefused data rr after := by
  obtain ⟨type, cls⟩ | ⟨type, cls⟩ | isName := rdataIsName_or data rr
  · have notName : ¬RdataIsName data rr := fun isName => by
      have other := isName.1
      omega
    obtain ⟨span, holds⟩ := within.2 fun isName => absurd isName notName
    obtain ⟨rdata, copied⟩ := readBytes_inside span
    simp only [parseRdata_address type cls fields, RdataRefused, notName, false_implies, true_and,
      false_and, false_or, copied, value_bind, pure_eq, returns_value_iff]
    exact agree _ holds
  · have notName : ¬RdataIsName data rr := fun isName => by
      have other := isName.2
      omega
    obtain ⟨span, holds⟩ := within.2 fun isName => absurd isName notName
    simp only [parseRdata_cname type cls, RdataRefused, notName, false_implies, true_and,
      false_and, false_or, hexDump_inside span, value_bind, pure_eq, returns_value_iff]
    exact agree _ holds
  · simp only [parseRdata_name isName, RdataRefused, isName, true_implies, true_and,
      ← exists_and_right]
    refine afterName_returns (fun _ => stable_const _) rejected (within.1 isName) ?_
    intro name accepted
    obtain ⟨span, holds⟩ := within.2 fun _ => ⟨name.size, accepted⟩
    simp only [hexDump_inside span, value_bind, pure_eq, returns_value_iff]
    exact agree _ holds

variable {p : Option (HostEnt × Int) → Prop}

theorem parseRecord_returns {inside after : Int → Prop} {name : Name} (rejected : p none)
    (fields : Span data (start + name.size) 10)
    (within : RdataRead data (NameWithin data) (start + name.size)
      (inside (start + name.size + 10 + rdataLength data (start + name.size))))
    (agree : ∀ host size, inside (start + size) → (p (some (host, size)) ↔ after (start + size))) :
    Returns (parseRecord data start host name) p ↔ RdataRefused data (start + name.size)
      (after (start + name.size + 10 + rdataLength data (start + name.size))) := by
  have record := parseRecord_inside host fields
  rw [funext record, (parseRdata_stable _ _ _).returns_bind_iff fun _ => stable_const _]
  refine parseRdata_returns fields within (returns_value_iff.mpr rejected) fun host holds => ?_
  have place : start + (name.size + 10 + rdataLength data (start + name.size)) =
      start + name.size + 10 + rdataLength data (start + name.size) := by omega
  rw [← place] at holds ⊢
  exact returns_value_iff.trans (agree host _ holds)

theorem parseAnswer_returns (inside after : Int → Prop) (rejected : p none)
    (dumped : Span data start 2) (within : NameWithin data start)
    (records : ∀ size, Accepted data start size → Span data (start + size) 10 ∧
      RdataRead data (NameWithin data) (start + size) (inside (start + size + 10 + rdataLength data (start + size))))
    (agree : ∀ host size, inside (start + size) → (p (some (host, size)) ↔ after (start + size))) :
    Returns (fun fuel => parseAnswer data fuel start host) p ↔ Rejected data start ∨
      ∃ size, Accepted data start size ∧ RdataRefused data (start + size)
        (after (start + size + 10 + rdataLength data (start + size))) := by
  simp only [parseAnswer_eq, hexDump_inside dumped, value_bind]
  refine afterName_returns (q := fun size => RdataRefused data (start + size)
      (after (start + size + 10 + rdataLength data (start + size))))
    (parseRecord_stable start) rejected within fun name accepted => ?_
  obtain ⟨fields, rdata⟩ := records name.size accepted
  exact parseRecord_returns rejected fields rdata agree

theorem parseAnswers_returns (host : HostEnt) {count : Nat} {start : Int}
    (within : AnswersRead data (NameWithin data) count start) :
    Returns (fun fuel => parseAnswers data fuel count start host) (· = none) ↔
      AnswersRefused data count start := by
  induction count generalizing start host with
  | zero => exact returns_value_iff.trans (iff_of_false (by simp) id)
  | succ count ih =>
    simp only [parseAnswers_succ]
    rw [(parseAnswer_stable start).returns_bind_iff (moreAnswers_stable count start)]
    obtain ⟨dumped, name, records⟩ := within
    exact parseAnswer_returns (AnswersRead data (NameWithin data) count) (AnswersRefused data count)
      (returns_value_iff.mpr rfl) dumped name records fun host _ holds => ih host holds

theorem answersAfter_returns {qSize : Int} (header : Span data 6 2)
    (within : AnswersRead data (NameWithin data) (word data 6) (headerLength + qSize)) :
    Returns (fun fuel => answersAfter data fuel (some qSize)) (· = none) ↔
      word data 6 = 0 ∨ AnswersRefused data (word data 6) (headerLength + qSize) := by
  simp only [answersAfter, readNtohs_inside header, value_bind]
  by_cases empty : word data 6 = 0
  · simp only [empty, if_true, pure_eq, returns_value_iff, true_or]
  · have rule := parseAnswers_returns ⟨none, [], [],
      (word data 6 % 256) * 256 + word data 6 / 256 + 1⟩ within
    simp only [empty, if_false, rule, false_or]

theorem parseA_returns (contained : Contained data) :
    Returns (parseA data) (· = none) ↔ Refused data := by
  obtain ⟨flags, more⟩ := contained
  by_cases response : IsResponse data
  · obtain ⟨flags', refused, accepted⟩ := more response
    by_cases error : IsError data
    · simp only [funext (parseA_error flags response flags' error), readNtohs_inside (refused error),
        value_bind, pure_eq, returns_value_iff, Refused, error, true_or, or_true]
    · obtain ⟨header, within⟩ := accepted error
      have rule := (skipQuestions_stable data (word data 4) 0).returns_bind_iff (r := (· = none))
        (answersAfter_stable data)
      simp only [funext (parseA_success flags response flags' error), readNtohs_inside header, value_bind,
        rule, Refused, response, error, not_true_eq_false, false_or]
      exact skipQuestions_returns (returns_value_iff.mpr rfl) within fun _ holds =>
        answersAfter_returns holds.1 holds.2
  · simp only [funext (parseA_query flags response), returns_value_iff, Refused, response,
      not_false_eq_true, true_or]

theorem namesWithin (data : List Byte) : ReadsNames data False (NameWithin data) := by
  intro i
  rw [nameWithin_iff]
  exact ⟨Meets.safe, fun safe => ⟨safe, fun _ _ => trivial, False.elim⟩⟩

/-- The parser stays inside its message exactly when the layout does. -/
theorem parseA_safe_iff (data : List Byte) : (∀ fuel e, parseA data fuel ≠ .fault e) ↔ Contained data := by
  rw [(parseA_stable data).never_fault_iff_meets, (namesWithin data).parseA_iff, Contained]

end Devent.Dns

