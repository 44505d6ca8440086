/-!
# Computations that leave a trace

A `Recorded τ ε α` is the outcome of a computation that may fail, together with
the entries it wrote on the way.  The trace outlives a failure: what was written
before the fault stays written.  `result_bind` says that the result alone is an
ordinary `Except` computation, so that statements about results need not look at
traces.
-/

namespace SeedLogic

/-- A result or a failure, and the entries written before it. -/
structure Recorded (τ ε α : Type) where
  trace : List τ
  result : Except ε α

namespace Recorded

variable {τ ε α β : Type}

/-- A failure that writes nothing. -/
def fail (fault : ε) : Recorded τ ε α :=
  ⟨[], .error fault⟩

/-- Write one entry. -/
def note (entry : τ) : Recorded τ ε Unit :=
  ⟨[entry], .ok ()⟩

/-- A computation that writes nothing. -/
def lift (result : Except ε α) : Recorded τ ε α :=
  ⟨[], result⟩

instance : Monad (Recorded τ ε) where
  pure value := ⟨[], .ok value⟩
  bind first next :=
    match first.result with
    | .error fault => ⟨first.trace, .error fault⟩
    | .ok value => ⟨first.trace ++ (next value).trace, (next value).result⟩

/-- Change the failure, and nothing else. -/
def mapFault {ε' : Type} (change : ε → ε') (outcome : Recorded τ ε α) : Recorded τ ε' α :=
  ⟨outcome.trace, outcome.result.mapError change⟩

@[simp]
theorem result_pure (value : α) : (pure value : Recorded τ ε α).result = .ok value :=
  rfl

@[simp]
theorem trace_pure (value : α) : (pure value : Recorded τ ε α).trace = [] :=
  rfl

@[simp]
theorem result_fail (fault : ε) : (fail fault : Recorded τ ε α).result = .error fault :=
  rfl

@[simp]
theorem trace_fail (fault : ε) : (fail fault : Recorded τ ε α).trace = [] :=
  rfl

@[simp]
theorem result_note (entry : τ) : (note entry : Recorded τ ε Unit).result = .ok () :=
  rfl

@[simp]
theorem trace_note (entry : τ) : (note entry : Recorded τ ε Unit).trace = [entry] :=
  rfl

@[simp]
theorem result_lift (result : Except ε α) :
    (lift result : Recorded τ ε α).result = result :=
  rfl

@[simp]
theorem trace_lift (result : Except ε α) : (lift result : Recorded τ ε α).trace = [] :=
  rfl

@[simp]
theorem result_mapFault {ε' : Type} (change : ε → ε') (outcome : Recorded τ ε α) :
    (outcome.mapFault change).result = outcome.result.mapError change :=
  rfl

@[simp]
theorem trace_mapFault {ε' : Type} (change : ε → ε') (outcome : Recorded τ ε α) :
    (outcome.mapFault change).trace = outcome.trace :=
  rfl

/-- The result of a sequence is the sequence of the results. -/
@[simp]
theorem result_bind (first : Recorded τ ε α) (next : α → Recorded τ ε β) :
    (first >>= next).result = first.result >>= fun value => (next value).result := by
  rcases first with ⟨trace, result⟩
  cases result <;> rfl

/-- A sequence writes the entries of its first part, and then, if that part
succeeds, those of its second. -/
theorem trace_bind_of_ok {first : Recorded τ ε α} {value : α} (next : α → Recorded τ ε β)
    (hresult : first.result = .ok value) :
    (first >>= next).trace = first.trace ++ (next value).trace := by
  rcases first with ⟨trace, result⟩
  cases hresult
  rfl

@[ext]
theorem ext {left right : Recorded τ ε α} (htrace : left.trace = right.trace)
    (hresult : left.result = right.result) : left = right := by
  cases left
  cases right
  cases htrace
  cases hresult
  rfl

/-- Behind a failure nothing else matters. -/
theorem bind_congr_of_error {first : Recorded τ ε α} {fault : ε}
    (hresult : first.result = .error fault) (next next' : α → Recorded τ ε β) :
    (first >>= next) = (first >>= next') := by
  rcases first with ⟨trace, result⟩
  cases hresult
  rfl

/-- Sequences with the same first part go on in the same way when they do so with its value. -/
theorem bind_congr_of_ok {first : Recorded τ ε α} {value : α} (hresult : first.result = .ok value)
    {next next' : α → Recorded τ ε β} (hnext : next value = next' value) :
    (first >>= next) = (first >>= next') := by
  apply ext
  · rw [trace_bind_of_ok next hresult, trace_bind_of_ok next' hresult, hnext]
  · rw [result_bind, result_bind, hresult]
    exact congrArg result hnext

/-- A sequence succeeds when its parts do, and writes the entries of both. -/
theorem bind_eq_ok_iff {first : Recorded τ ε α} {next : α → Recorded τ ε β} {trace : List τ}
    {result : β} :
    (first >>= next) = ⟨trace, .ok result⟩ ↔
      ∃ early value late, first = ⟨early, .ok value⟩ ∧ next value = ⟨late, .ok result⟩ ∧
        trace = early ++ late := by
  constructor
  · intro hbind
    rcases first with ⟨early, outcome⟩
    cases outcome with
    | error fault => cases congrArg Recorded.result hbind
    | ok value =>
        have htrace : early ++ (next value).trace = trace := congrArg Recorded.trace hbind
        have hresult : (next value).result = .ok result := congrArg Recorded.result hbind
        exact ⟨early, value, (next value).trace, rfl, ext rfl hresult, htrace.symm⟩
  · rintro ⟨early, value, late, rfl, hnext, rfl⟩
    have hbind : (⟨early, .ok value⟩ >>= next) =
        (⟨early ++ (next value).trace, (next value).result⟩ : Recorded τ ε β) := rfl
    rw [hbind, hnext]

/-- A sequence whose second part only returns writes what its first part writes. -/
theorem bind_eq_ok_of_pure {first : Recorded τ ε α} {next : α → Recorded τ ε β}
    {trace : List τ} {value : α} {result : β} (hfirst : first = ⟨trace, .ok value⟩)
    (hnext : next value = pure result) : (first >>= next) = ⟨trace, .ok result⟩ :=
  bind_eq_ok_iff.mpr ⟨trace, value, [], hfirst, hnext, (List.append_nil trace).symm⟩

instance : LawfulMonad (Recorded τ ε) :=
  LawfulMonad.mk' (Recorded τ ε)
    (fun outcome => by
      rcases outcome with ⟨trace, result⟩
      cases result
      · rfl
      · exact ext (List.append_nil trace) rfl)
    (fun value next => by
      cases hnext : next value
      exact ext (by simp [bind, pure, hnext]) (by simp [bind, pure, hnext]))
    (fun first second third => by
      rcases first with ⟨trace, result⟩
      cases result with
      | error fault => rfl
      | ok value =>
          cases hsecond : second value with
          | mk trace' result' =>
              cases result' with
              | error fault => simp [bind, hsecond]
              | ok value' => simp [bind, hsecond, List.append_assoc])

end Recorded

end SeedLogic
