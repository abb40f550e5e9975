/-
# ClassFormat.Proofs.Hierarchy.Runs: steps of a search, run from a state

A step of a search gives a result or fails, and leaves a state either way.  `Search.run` names that
pair; the equations here say what it is for the steps a search is made of.  Two relations build on
it: `Yields` for what is known of a result that is there, and `Agree` for two steps that do the same
and keep an invariant, whether they succeed or fail.

The search itself is written once more, over what a class does around the search of its supertypes
and over what happens when the depth is used up.  The marks of the search are one choice of the
former, their absence another.
-/
import ClassFormat.Hierarchy
import ClassFormat.Proofs.Outcome

namespace ClassFormat

namespace Search

variable {α β : Type}

/-- The result of a step and the state it leaves. -/
def run (search : Search) (step : SearchM α) : Except Error α × Search := step.run.run search

/-- A look-up needs no state. -/
@[simp]
theorem run_lift (search : Search) (result : Except Error α) :
    search.run (liftM result) = (result, search) := by
  cases result <;> rfl

theorem run_bind (search : Search) (step : SearchM α) (next : α → SearchM β) :
    search.run (step >>= next)
      = match search.run step with
        | (.ok value, after) => after.run (next value)
        | (.error cause, after) => (.error cause, after) := by
  have hrun : search.run (step >>= next)
      = ((ExceptT.bindCont next (search.run step).1).run (search.run step).2) := rfl
  rw [hrun]
  cases search.run step with
  | mk result after => cases result <;> rfl

theorem run_bind_ok {search after : Search} {step : SearchM α} {value : α}
    (h : search.run step = (.ok value, after)) (next : α → SearchM β) :
    search.run (step >>= next) = after.run (next value) := by
  rw [run_bind, h]

/-- A look-up that succeeds leaves the rest to be done. -/
theorem run_lift_bind {search : Search} {result : Except Error α} {value : α}
    (h : result = .ok value) (next : α → SearchM β) :
    search.run (liftM result >>= next) = search.run (next value) :=
  run_bind_ok (by rw [run_lift, h]) next

/-- A class on the path is reported, a class that is done is passed over, any other is entered. -/
theorem run_enter (search : Search) (name : String) :
    search.run (enter name)
      = if name ∈ search.path then
          (.ok false, { search with cycles := name :: search.cycles })
        else if name ∈ search.done then (.ok false, search)
        else (.ok true, { search with path := name :: search.path }) := by
  have hrun : search.run (enter name)
      = search.run (if search.path.contains name then
          (do set { search with cycles := name :: search.cycles }; return false : SearchM Bool)
        else if search.done.contains name then return false
        else do set { search with path := name :: search.path }; return true) := rfl
  rw [hrun]
  by_cases hpath : name ∈ search.path
  · rw [if_pos hpath, if_pos (List.contains_iff_mem.mpr hpath)]
    rfl
  · rw [if_neg hpath, if_neg (fun h => hpath (List.contains_iff_mem.mp h))]
    by_cases hdone : name ∈ search.done
    · rw [if_pos hdone, if_pos (List.contains_iff_mem.mpr hdone)]
      rfl
    · rw [if_neg hdone, if_neg (fun h => hdone (List.contains_iff_mem.mp h))]
      rfl

/-- The state behind the search of the supertypes of a class. -/
def left (search : Search) (name : String) : Search :=
  { search with path := search.path.drop 1, done := name :: search.done }

theorem run_leaving (search : Search) (name : String) (body : SearchM α) :
    search.run (leaving name body) = ((search.run body).1, (search.run body).2.left name) :=
  rfl

/-! ## Results that are there -/

/-- Every result that the step gives, from whatever state, has the property. -/
def Yields (step : SearchM α) (property : α → Prop) : Prop :=
  ∀ (search : Search) (value : α), (search.run step).1 = .ok value → property value

namespace Yields

variable {step : SearchM α} {property : α → Prop} {after : β → Prop}

theorem pure {value : α} (h : property value) : Yields (Pure.pure value) property := by
  intro search found hfound
  cases hfound
  exact h

theorem lift {result : Except Error α} (h : ∀ value, result = .ok value → property value) :
    Yields (liftM result) property := by
  intro search value hvalue
  rw [run_lift] at hvalue
  exact h value hvalue

theorem bind {next : α → SearchM β} (h : Yields step property)
    (hnext : ∀ value, property value → Yields (next value) after) :
    Yields (step >>= next) after := by
  intro search result hresult
  rw [run_bind] at hresult
  cases hstep : search.run step with
  | mk found left =>
    rw [hstep] at hresult
    cases found with
    | error cause => cases hresult
    | ok value =>
      have hvalue : property value := h search value (by rw [hstep])
      exact hnext value hvalue left result hresult

/-- A first step of which nothing has to be known. -/
theorem skip {next : α → SearchM β} (h : ∀ value, Yields (next value) after) :
    Yields (step >>= next) after :=
  bind (fun _ _ _ => True.intro) fun value _ => h value

theorem leaving {name : String} (h : Yields step property) :
    Yields (Search.leaving name step) property := by
  intro search value hvalue
  rw [run_leaving] at hvalue
  exact h search value hvalue

end Yields

/-! ## Steps that do the same -/

/-- From every state with the invariant the two steps do the same, and what they leave has it
again. -/
def Agree (invariant : Search → Prop) (step other : SearchM α) : Prop :=
  ∀ search, invariant search →
    search.run step = search.run other ∧ invariant (search.run step).2

namespace Agree

variable {invariant : Search → Prop} {step other : SearchM α}

theorem pure (value : α) : Agree invariant (Pure.pure value) (Pure.pure value) :=
  fun _ h => ⟨rfl, h⟩

theorem lift (result : Except Error α) : Agree invariant (liftM result) (liftM result) := by
  intro search h
  rw [run_lift]
  exact ⟨rfl, h⟩

theorem lift_bind {result : Except Error α} {next nextOther : α → SearchM β}
    (h : ∀ value, result = .ok value → Agree invariant (next value) (nextOther value)) :
    Agree invariant (liftM result >>= next) (liftM result >>= nextOther) := by
  intro search hsearch
  rw [run_bind, run_bind, run_lift]
  cases result with
  | error cause => exact ⟨rfl, hsearch⟩
  | ok value => exact h value rfl search hsearch

theorem bind {next nextOther : α → SearchM β} (h : Agree invariant step other)
    (hnext : ∀ value, Agree invariant (next value) (nextOther value)) :
    Agree invariant (step >>= next) (other >>= nextOther) := by
  intro search hsearch
  obtain ⟨hsame, hleft⟩ := h search hsearch
  rw [run_bind, run_bind, ← hsame]
  cases hstep : search.run step with
  | mk result left =>
    rw [hstep] at hleft
    cases result with
    | error cause => exact ⟨rfl, hleft⟩
    | ok value => exact hnext value left hleft

end Agree

end Search

/-! ## The search over its marks and its depth -/

namespace Hierarchy

variable {carrier : FlagCarrier}

/-- What the superclass of a class finds, if the class inherits it. -/
def fromSuperclass (locate : ClassFile → SearchM (Option (Located carrier))) (file : ClassFile) :
    Option ClassFile → SearchM (Option (Located carrier))
  | none => return none
  | some superclass => do
    match ← locate superclass with
    | some found => return if ← isInherited file found then some found else none
    | none => return none

/-- What the supertypes of a class find is what the superclass finds or, failing that, what the
interfaces find. -/
theorem fromSupertypes_eq (repository : Repository)
    (locate : ClassFile → SearchM (Option (Located carrier))) (file : ClassFile) :
    fromSupertypes repository locate file = (do
      let superclass ← file.superclass? repository
      match ← fromSuperclass locate file superclass with
      | some found => return some found
      | none => fromInterfaces locate (← file.knownInterfaces repository)) := by
  unfold fromSupertypes
  -- The two differ only in how far the superclass part of the search is kept together.
  refine bind_congr fun superclass => ?_
  cases superclass with
  | none => rfl
  | some superclass =>
    rw [fromSuperclass, bind_assoc]
    refine bind_congr fun found => ?_
    cases found with
    | none => rfl
    | some found => exact (bind_assoc _ _ _).symm

/-- Enters a class for the search of its supertypes and leaves it again, unless it is done or under
way. -/
def marked (file : ClassFile) (body : SearchM (Option (Located carrier))) :
    SearchM (Option (Located carrier)) := do
  let name ← file.name
  if ← Search.enter name then Search.leaving name body else return none

/-- Searches the supertypes of a class whatever was searched before. -/
def unmarked (_file : ClassFile) (body : SearchM (Option (Located carrier))) :
    SearchM (Option (Located carrier)) := body

/-- The search of a class and its supertypes, with `around` for what a class does around the search
of its supertypes, and `stop` for the search of a class that is too far up. -/
def searchOr (repository : Repository)
    (declared : ClassFile → Except Error (Option (Member carrier)))
    (around : ClassFile → SearchM (Option (Located carrier)) → SearchM (Option (Located carrier)))
    (stop : ClassFile → SearchM (Option (Located carrier))) :
    (fuel : Nat) → ClassFile → SearchM (Option (Located carrier))
  | 0, file => stop file
  | fuel + 1, file => do
    match ← declared file with
    | some found => return some (file, found)
    | none =>
      around file (fromSupertypes repository (searchOr repository declared around stop fuel) file)

theorem locateWithin_eq_searchOr (repository : Repository)
    (declared : ClassFile → Except Error (Option (Member carrier))) (fuel : Nat) :
    locateWithin repository declared fuel
      = searchOr repository declared marked (fun _ => pure none) fuel := by
  induction fuel with
  | zero => rfl
  | succ fuel ih =>
    funext file
    rw [locateWithin, searchOr, ih]
    rfl

end Hierarchy

end ClassFormat
