import Mathlib.Data.List.Forall2

/-!
# Computations that succeed

When a computation in several steps succeeds, each of its steps has.
-/

namespace SeedLogic.Outcome

variable {ε α β σ : Type}

/-- A sequence succeeds when its first part does and then its second. -/
theorem bind_eq_ok {first : Except ε α} {next : α → Except ε β} {result : β} :
    (first >>= next) = .ok result ↔ ∃ value, first = .ok value ∧ next value = .ok result := by
  cases first with
  | error fault => simp [bind, Except.bind]
  | ok value => simp [bind, Except.bind]

/-- A check passed, a sequence goes on. -/
theorem check_bind_eq_ok {check : Except ε PUnit} {next : PUnit → Except ε β} {result : β} :
    (check >>= next) = .ok result ↔ check = .ok () ∧ next () = .ok result := by
  rw [bind_eq_ok]
  exact ⟨fun ⟨⟨⟩, hcheck, hnext⟩ => ⟨hcheck, hnext⟩, fun ⟨hcheck, hnext⟩ => ⟨(), hcheck, hnext⟩⟩

theorem map_eq_ok {outcome : Except ε α} {change : α → β} {result : β} :
    outcome.map change = .ok result ↔ ∃ value, outcome = .ok value ∧ change value = result := by
  cases outcome with
  | error fault => simp [Except.map]
  | ok value => simp [Except.map]

/-- What is seen of a result is seen of a success. -/
theorem exists_ok_of_toOption {outcome : Except ε α} {view : α → β} {seen : β}
    (hseen : outcome.toOption.map view = some seen) :
    ∃ value, outcome = .ok value ∧ view value = seen := by
  cases outcome with
  | error fault => cases hseen
  | ok value => exact ⟨value, rfl, Option.some.inj hseen⟩

/-- A list of computations succeeds when each of them does. -/
theorem mapM_eq_ok {step : α → Except ε β} {entries : List α} {results : List β} :
    entries.mapM step = .ok results ↔
      List.Forall₂ (fun entry result => step entry = .ok result) entries results := by
  induction entries generalizing results with
  | nil =>
      rw [List.mapM_nil, List.forall₂_nil_left_iff]
      simp [pure, Except.pure, eq_comm]
  | cons entry entries ih =>
      rw [List.mapM_cons, bind_eq_ok]
      constructor
      · rintro ⟨result, hfirst, hrest⟩
        rcases bind_eq_ok.mp hrest with ⟨others, hothers, hresults⟩
        cases hresults
        exact .cons hfirst (ih.mp hothers)
      · intro hall
        cases hall with
        | cons hfirst hrest =>
            exact ⟨_, hfirst, bind_eq_ok.mpr ⟨_, ih.mpr hrest, rfl⟩⟩

/-- Every result of a list of computations is the result of one of them. -/
theorem exists_of_mem_mapM {step : α → Except ε β} {entries : List α} {results : List β}
    (hresults : entries.mapM step = .ok results) {result : β} (hmem : result ∈ results) :
    ∃ entry ∈ entries, step entry = .ok result := by
  induction mapM_eq_ok.mp hresults with
  | nil => cases hmem
  | @cons entry first entries results hfirst hrest ih =>
      rcases List.mem_cons.mp hmem with rfl | hmem
      · exact ⟨entry, List.mem_cons_self, hfirst⟩
      · rcases ih (mapM_eq_ok.mpr hrest) hmem with ⟨other, hother, hstep⟩
        exact ⟨other, List.mem_cons_of_mem _ hother, hstep⟩

/-- A list of computations fails as the first of them does that fails. -/
theorem exists_first_of_mapM_eq_error {step : α → Except ε β} {entries : List α} {fault : ε}
    (hfault : entries.mapM step = .error fault) :
    ∃ before entry behind, entries = before ++ entry :: behind ∧
      (∀ other ∈ before, ∃ result, step other = .ok result) ∧ step entry = .error fault := by
  induction entries with
  | nil => cases hfault
  | cons entry entries ih =>
      rw [List.mapM_cons] at hfault
      cases hentry : step entry with
      | error other =>
          rw [hentry] at hfault
          cases hfault
          exact ⟨[], entry, entries, rfl, nofun, hentry⟩
      | ok result =>
          rw [hentry] at hfault
          cases hrest : entries.mapM step with
          | error other =>
              rw [hrest] at hfault
              cases hfault
              rcases ih hrest with ⟨before, later, behind, rfl, hbefore, hlater⟩
              exact ⟨entry :: before, later, behind, rfl,
                List.forall_mem_cons.mpr ⟨⟨result, hentry⟩, hbefore⟩, hlater⟩
          | ok results =>
              rw [hrest] at hfault
              cases hfault

/-- A list of computations fails as one of them does. -/
theorem exists_of_mapM_eq_error {step : α → Except ε β} {entries : List α} {fault : ε}
    (hfault : entries.mapM step = .error fault) : ∃ entry ∈ entries, step entry = .error fault := by
  rcases exists_first_of_mapM_eq_error hfault with ⟨before, entry, behind, rfl, -, hentry⟩
  exact ⟨entry, List.mem_append_right _ List.mem_cons_self, hentry⟩

theorem length_of_mapM {step : α → Except ε β} {entries : List α} {results : List β}
    (hresults : entries.mapM step = .ok results) : results.length = entries.length :=
  (mapM_eq_ok.mp hresults).length_eq.symm

/-- A list of computations that all succeed succeeds. -/
theorem exists_mapM_of_forall {step : α → Except ε β} {entries : List α}
    (hall : ∀ entry ∈ entries, ∃ result, step entry = .ok result) :
    ∃ results, entries.mapM step = .ok results := by
  induction entries with
  | nil => exact ⟨[], rfl⟩
  | cons entry entries ih =>
      rcases hall entry List.mem_cons_self with ⟨result, hresult⟩
      obtain ⟨results, hresults⟩ := ih fun other hother =>
        hall other (List.mem_cons_of_mem _ hother)
      exact ⟨result :: results, mapM_eq_ok.mpr (.cons hresult (mapM_eq_ok.mp hresults))⟩

/-- Each result of a list of computations has the place of what it was computed from. -/
theorem getElem?_mapM {step : α → Except ε β} {entries : List α} {results : List β}
    (hresults : entries.mapM step = .ok results) {id : Nat} {entry : α}
    (hentry : entries[id]? = some entry) :
    ∃ result, results[id]? = some result ∧ step entry = .ok result := by
  rcases List.getElem?_eq_some_iff.mp hentry with ⟨hlt, rfl⟩
  rcases List.forall₂_iff_get.mp (mapM_eq_ok.mp hresults) with ⟨hlength, hall⟩
  exact ⟨results[id], List.getElem?_eq_getElem (hlength ▸ hlt), hall id hlt (hlength ▸ hlt)⟩

/-- The results of a list of computations are those of each of them. -/
theorem mem_mapM_iff {step : α → Except ε β} {entries : List α} {results : List β}
    (hresults : entries.mapM step = .ok results) {result : β} :
    result ∈ results ↔ ∃ entry ∈ entries, step entry = .ok result := by
  constructor
  · exact exists_of_mem_mapM hresults
  · rintro ⟨entry, hentry, hstep⟩
    rcases List.mem_iff_getElem?.mp hentry with ⟨id, hid⟩
    rcases getElem?_mapM hresults hid with ⟨other, hother, hsame⟩
    cases hstep.symm.trans hsame
    exact List.mem_of_getElem? hother

/-- A list of computations succeeds when all of them do. -/
theorem exists_mapM_iff {step : α → Except ε β} {entries : List α} :
    (∃ results, entries.mapM step = .ok results) ↔
      ∀ entry ∈ entries, ∃ result, step entry = .ok result := by
  constructor
  · rintro ⟨results, hresults⟩ entry hentry
    rcases List.mem_iff_getElem?.mp hentry with ⟨id, hid⟩
    rcases getElem?_mapM hresults hid with ⟨result, -, hstep⟩
    exact ⟨result, hstep⟩
  · exact exists_mapM_of_forall

/-- A list of computations succeeds with the results that they have in their places. -/
theorem mapM_eq_ok_of_getElem? {step : α → Except ε β} {entries : List α} {results : List β}
    (hlength : results.length = entries.length)
    (hstep : ∀ {id : Nat} {entry : α} {result : β}, entries[id]? = some entry →
      results[id]? = some result → step entry = .ok result) : entries.mapM step = .ok results := by
  rw [mapM_eq_ok, List.forall₂_iff_get]
  exact ⟨hlength.symm, fun id hentry hresult =>
    hstep (List.getElem?_eq_getElem hentry) (List.getElem?_eq_getElem hresult)⟩

/-- A list of options is there when each of them is. -/
theorem mapM_eq_some_of_forall₂ {make? : α → Option β} {entries : List α} {results : List β}
    (hall : List.Forall₂ (fun entry result => make? entry = some result) entries results) :
    entries.mapM make? = some results := by
  induction hall with
  | nil => rfl
  | cons hfirst _ ih =>
      rw [List.mapM_cons, hfirst, ih]
      rfl

theorem mapM_eq_some_map {make? : α → Option β} {make : α → β} {entries : List α}
    (hmake : ∀ entry ∈ entries, make? entry = some (make entry)) :
    entries.mapM make? = some (entries.map make) := by
  apply mapM_eq_some_of_forall₂
  rw [List.forall₂_map_right_iff, List.forall₂_same]
  exact hmake

/-- A list of options that are all there is there, and what holds of each holds of them. -/
theorem exists_mapM_some {make? : α → Option β} {holds : β → α → Prop} {entries : List α}
    (hall : ∀ entry ∈ entries, ∃ result, make? entry = some result ∧ holds result entry) :
    ∃ results, entries.mapM make? = some results ∧ List.Forall₂ holds results entries := by
  induction entries with
  | nil => exact ⟨[], rfl, .nil⟩
  | cons entry entries ih =>
      rw [List.forall_mem_cons] at hall
      rcases hall.1 with ⟨result, hresult, hholds⟩
      rcases ih hall.2 with ⟨results, hresults, hrest⟩
      refine ⟨result :: results, ?_, .cons hholds hrest⟩
      rw [List.mapM_cons, hresult, hresults]
      rfl

/-- A series of checks that all pass passes. -/
theorem forM_eq_ok {check : α → Except ε PUnit} {entries : List α} :
    entries.forM check = .ok () ↔ ∀ entry ∈ entries, check entry = .ok () := by
  induction entries with
  | nil => exact ⟨fun _ entry hentry => absurd hentry List.not_mem_nil, fun _ => rfl⟩
  | cons entry entries ih =>
      change (check entry >>= fun _ => entries.forM check) = .ok () ↔ _
      rw [bind_eq_ok, List.forall_mem_cons, ih]
      constructor
      · rintro ⟨_, hfirst, hrest⟩
        exact ⟨hfirst, hrest⟩
      · rintro ⟨hfirst, hrest⟩
        exact ⟨(), hfirst, hrest⟩

/-- What holds at first and is preserved by the step of every entry holds in the end. -/
theorem foldlM_preserves_of_mem {Holds : σ → Prop} {step : σ → α → Except ε σ} {entries : List α}
    (hstep : ∀ {entry}, entry ∈ entries → ∀ {state next}, Holds state →
      step state entry = .ok next → Holds next)
    {state result : σ} (hstate : Holds state) (hresult : entries.foldlM step state = .ok result) :
    Holds result := by
  induction entries generalizing state with
  | nil =>
      cases hresult
      exact hstate
  | cons entry entries ih =>
      rw [List.foldlM_cons] at hresult
      rcases bind_eq_ok.mp hresult with ⟨next, hnext, hrest⟩
      exact ih (fun hmem => hstep (List.mem_cons_of_mem _ hmem))
        (hstep List.mem_cons_self hstate hnext) hrest

/-- What holds at first and is preserved by every step holds in the end. -/
theorem foldlM_preserves {Holds : σ → Prop} {step : σ → α → Except ε σ}
    (hstep : ∀ {state entry next}, Holds state → step state entry = .ok next → Holds next)
    {entries : List α} {state result : σ} (hstate : Holds state)
    (hresult : entries.foldlM step state = .ok result) : Holds result :=
  foldlM_preserves_of_mem (fun _ => hstep) hstate hresult

end SeedLogic.Outcome
