import MessagingGateway.Transition.System

/-! A value and its journal, kept by writers that change the one and append to the other in
two separate steps, or in one transaction. -/
namespace MessagingGateway.Transition.Journal
variable {ι V : Type*} [DecidableEq ι]

/-- `holder` gives the value a writer has written and not yet entered in the journal. -/
structure State (ι V : Type*) where
  value : Option V
  rows : List V
  holder : ι → Option V
  had : List V

inductive Action (ι V : Type*) where
  | write (i : ι) (v : V)
  | enter (i : ι)
  | drop (i : ι)
  | create (v : V)
  | amend (v : V)

def step (s : State ι V) : Action ι V → Option (State ι V)
  | .write i v => if (s.holder i).isNone then some { s with
      value := s.value.map fun _ => v
      holder := Function.update s.holder i (some v)
      had := v :: s.had } else none
  | .enter i => (s.holder i).map fun v => { s with
      rows := s.rows ++ [v]
      holder := Function.update s.holder i none }
  | .drop i => some { s with holder := Function.update s.holder i none }
  | .create v => some { s with value := some v, rows := s.rows ++ [v], had := v :: s.had }
  | .amend v => some { s with value := s.value.map fun _ => v, rows := s.rows ++ [v], had := v :: s.had }

def empty : State ι V := ⟨none, [], fun _ => none, []⟩

def system : System (State ι V) (Action ι V) where
  init s := s = empty
  step := step

/-- An entry is made while it is still current or while another one is outstanding, and no
writer forgets its entry. -/
def Orderly (s : State ι V) : Action ι V → Prop
  | .enter i => ∀ v w, s.holder i = some v → s.value = some w → w = v ∨ ∃ k, k ≠ i ∧ (s.holder k).isSome
  | .drop i => s.holder i = none
  | _ => True

/-- Without outstanding entries the last one is the value; every value is entered or outstanding. -/
structure Kept (s : State ι V) : Prop where
  last : (∀ i, s.holder i = none) → ∀ v, s.value = some v → s.rows.getLast? = some v
  covered : ∀ v ∈ s.had, v ∈ s.rows ∨ ∃ i, s.holder i = some v
  current : ∀ v, s.value = some v → v ∈ s.had

private theorem value_map {o : Option V} {v w : V} (h : o.map (fun _ => v) = some w) : v = w := by
  obtain ⟨_, -, rfl⟩ := Option.map_eq_some_iff.mp h
  rfl

omit [DecidableEq ι] in
private theorem covered_append {s : State ι V} (h : Kept s) (v : V) :
    ∀ w ∈ v :: s.had, w ∈ s.rows ++ [v] ∨ ∃ i, s.holder i = some w := by
  intro w hw
  rcases List.mem_cons.mp hw with rfl | hw
  · exact .inl (by simp)
  · exact (h.covered w hw).imp_left (List.mem_append_left _)

theorem kept_step (s : State ι V) (a : Action ι V) (t : State ι V) (h : Kept s) (hg : Orderly s a)
    (hs : step s a = some t) : Kept t := by
  cases a with
  | write i v =>
    obtain ⟨hfree, hs⟩ := Option.ite_none_right_eq_some.mp hs
    rw [Option.isNone_iff_eq_none] at hfree
    obtain rfl := Option.some.inj hs
    refine ⟨fun hnone => ?_, fun w hw => ?_, fun w hw => ?_⟩
    · exact absurd (hnone i) (by simp)
    · rcases List.mem_cons.mp hw with rfl | hw
      · exact .inr ⟨i, Function.update_self _ _ _⟩
      · rcases h.covered w hw with hrow | ⟨k, hk⟩
        · exact .inl hrow
        · have hne : k ≠ i := by
            rintro rfl
            exact absurd hk (by simp [hfree])
          exact .inr ⟨k, (Function.update_of_ne hne _ _).trans hk⟩
    · rw [value_map hw]
      exact List.mem_cons_self
  | enter i =>
    obtain ⟨v, hv, rfl⟩ := Option.map_eq_some_iff.mp hs
    refine ⟨fun hnone w hw => ?_, fun w hw => ?_, h.current⟩
    · rcases hg v w hv hw with rfl | ⟨k, hki, hk⟩
      · simp
      · have hk' := (Function.update_of_ne hki _ _).symm.trans (hnone k)
        exact absurd hk (by simp [hk'])
    · rcases h.covered w hw with hrow | ⟨k, hk⟩
      · exact .inl (List.mem_append_left _ hrow)
      · rcases eq_or_ne k i with rfl | hne
        · obtain rfl := Option.some.inj (hk.symm.trans hv)
          exact .inl (by simp)
        · exact .inr ⟨k, (Function.update_of_ne hne _ _).trans hk⟩
  | drop i =>
    obtain rfl := Option.some.inj hs
    have hsame : Function.update s.holder i none = s.holder := Function.update_eq_self_iff.mpr hg.symm
    rw [hsame]
    exact h
  | create v =>
    obtain rfl := Option.some.inj hs
    refine ⟨fun _ w hw => ?_, covered_append h v, fun w hw => ?_⟩
    · rw [← Option.some.inj hw]
      simp
    · rw [← Option.some.inj hw]
      exact List.mem_cons_self
  | amend v =>
    obtain rfl := Option.some.inj hs
    refine ⟨fun _ w hw => ?_, covered_append h v, fun w hw => ?_⟩
    · rw [value_map hw]
      simp
    · rw [value_map hw]
      exact List.mem_cons_self

/-- Orderly writers keep the journal. -/
theorem kept_of_orderly {s : State ι V} (h : system.ReachableUnder Orderly s) : Kept s :=
  h.invariant (fun s hs => by
    obtain rfl := hs
    exact ⟨fun _ v hv => absurd hv (by simp [empty]), by simp [empty], fun v hv => absurd hv (by simp [empty])⟩)
      kept_step

end MessagingGateway.Transition.Journal
