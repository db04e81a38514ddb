import MessagingGateway.Transition.System

/-! History variables: a system whose steps are also written down by an observer, who
never stops or changes one. -/
namespace MessagingGateway.Transition.System
variable {σ α γ : Type*} (sys : System σ α) (start : γ) (next : σ → α → σ → γ → γ)

def observed : System (σ × γ) α where
  init p := sys.init p.1 ∧ p.2 = start
  step p a := (sys.step p.1 a).map fun t => (t, next p.1 a t p.2)

variable {sys start next}

theorem observed_step {p q : σ × γ} {a : α} (h : (sys.observed start next).step p a = some q) :
    sys.step p.1 a = some q.1 ∧ q.2 = next p.1 a q.1 p.2 := by
  obtain ⟨t, ht, rfl⟩ := Option.map_eq_some_iff.mp h
  exact ⟨ht, rfl⟩

theorem observed_replay {p q : σ × γ} {as : List α} (h : (sys.observed start next).replay p as = some q) :
    sys.replay p.1 as = some q.1 := by
  induction as generalizing p with
  | nil =>
    obtain rfl := Option.some.inj h
    rfl
  | cons a as ih =>
    obtain ⟨r, hr, hrest⟩ := Option.bind_eq_some_iff.mp h
    exact Option.bind_eq_some_iff.mpr ⟨r.1, (observed_step hr).1, ih hrest⟩

theorem replay_observed (next : σ → α → σ → γ → γ) {s t : σ} {as : List α} (g : γ) (h : sys.replay s as = some t) :
    ∃ g', (sys.observed start next).replay (s, g) as = some (t, g') := by
  induction as generalizing s g with
  | nil =>
    obtain rfl := Option.some.inj h
    exact ⟨g, rfl⟩
  | cons a as ih =>
    obtain ⟨u, hu, hrest⟩ := Option.bind_eq_some_iff.mp h
    obtain ⟨g', hg⟩ := ih (next s a u g) hrest
    exact ⟨g', Option.bind_eq_some_iff.mpr ⟨_, Option.map_eq_some_iff.mpr ⟨u, hu, rfl⟩, hg⟩⟩

end MessagingGateway.Transition.System
