import MessagingGateway.Transition.Guarded

/-! Concurrent operations that each take effect in one step: the steps that show are, in their
order, a run of a serial system. -/
namespace MessagingGateway.Transition.System
variable {σ α β ω : Type*} (sys : System σ α) (commit : σ → α → Option ω)

/-- The operations that the steps of a schedule commit, in order. -/
def commits : σ → List α → List ω
  | _, [] => []
  | s, a :: as => match sys.step s a with
    | none => []
    | some t => (commit s a).toList ++ commits t as

/-- A step that commits nothing does not show; one that commits is the operation of the serial system. -/
def CommitsTo (serial : System β ω) (view : σ → β) (s : σ) (a : α) (t : σ) : Prop :=
  serial.replay (view s) (commit s a).toList = some (view t)

variable {sys commit}

private theorem commits_cons {s t : σ} {a : α} {as : List α} (hs : sys.step s a = some t) :
    sys.commits commit s (a :: as) = (commit s a).toList ++ sys.commits commit t as := by
  simp only [commits, hs]

/-- What a step keeps of a state and of the operations committed so far, a run keeps. -/
theorem commits_invariant {J : σ → List ω → Prop}
    (hstep : ∀ s a t log, J s log → sys.step s a = some t → J t (log ++ (commit s a).toList)) {s t : σ}
    {as : List α} {log : List ω} (hJ : J s log)
    (hrun : sys.replay s as = some t) : J t (log ++ sys.commits commit s as) := by
  induction as generalizing s log with
  | nil =>
    obtain rfl := Option.some.inj hrun
    simpa [commits] using hJ
  | cons a as ih =>
    obtain ⟨u, hu, hrest⟩ := Option.bind_eq_some_iff.mp hrun
    rw [commits_cons hu, ← List.append_assoc]
    exact ih (hstep s a u log hJ hu) hrest

/-- What shows of a run is what its committed operations do one at a time. -/
theorem replay_commits {serial : System β ω} {view : σ → β} {I : σ → Prop}
    (hkeep : ∀ s a t, I s → sys.step s a = some t → I t)
    (hshow : ∀ s a t, I s → sys.step s a = some t → CommitsTo commit serial view s a t) {s t : σ} {as : List α}
    (hI : I s) (hrun : sys.replay s as = some t) : serial.replay (view s)
    (sys.commits commit s as) = some (view t) := by
  have hstep : ∀ u a v log, (I u ∧ serial.replay (view s) log = some (view u)) → sys.step u a = some v →
      I v ∧ serial.replay (view s) (log ++ (commit u a).toList) = some (view v) := by
    intro u a v log h hs
    obtain ⟨hu, hlog⟩ := h
    rw [replay_append hlog]
    exact ⟨hkeep u a v hu hs, hshow u a v hu hs⟩
  have hstart : I s ∧ serial.replay (view s) [] = some (view s) := ⟨hI, rfl⟩
  exact (commits_invariant (J := fun u log => I u ∧ serial.replay (view s) log = some (view u)) hstep hstart hrun).2

end MessagingGateway.Transition.System
