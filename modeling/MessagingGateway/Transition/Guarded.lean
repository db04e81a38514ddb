import MessagingGateway.Transition.System

/-! Schedules taken in pieces, and invariants along one whose steps obey a guard. -/
namespace MessagingGateway.Transition.System
variable {σ α : Type*} {sys : System σ α}

/-- What every allowed step preserves, a schedule that obeys the guard preserves. -/
theorem obeys_invariant {G : σ → α → Prop} {I : σ → Prop} (hstep : ∀ s a t, I s → G s a → sys.step s a = some t → I t)
    {s t : σ} {as : List α} (hs : I s) (hobey : sys.Obeys G s as) (hrun : sys.replay s as = some t) : I t := by
  induction as generalizing s with
  | nil =>
    obtain rfl := Option.some.inj hrun
    exact hs
  | cons a as ih =>
    obtain ⟨u, hu, hrun⟩ := Option.bind_eq_some_iff.mp hrun
    simp only [Obeys, hu] at hobey
    exact ih (hstep s a u hs hobey.1 hu) hobey.2 hrun

theorem replay_append {s t : σ} {as bs : List α} (hrun : sys.replay s as = some t) :
    sys.replay s (as ++ bs) = sys.replay t bs := by
  induction as generalizing s with
  | nil =>
    obtain rfl := Option.some.inj hrun
    rfl
  | cons a as ih =>
    obtain ⟨u, hu, hrun⟩ := Option.bind_eq_some_iff.mp hrun
    rw [List.cons_append, replay, hu, Option.bind_some]
    exact ih hrun

end MessagingGateway.Transition.System
