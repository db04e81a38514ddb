import MessagingGateway.Transition.System

/-! Endless runs. -/
namespace MessagingGateway.Transition.System
variable {σ α : Type*}

structure Run (sys : System σ α) (u : ℕ → σ) (a : ℕ → α) : Prop where
  start : sys.init (u 0)
  next : ∀ i, sys.step (u i) (a i) = some (u (i + 1))

variable {sys : System σ α}

theorem Run.reachableUnder {G : σ → α → Prop} {u : ℕ → σ} {a : ℕ → α} (h : sys.Run u a) (hG : ∀ i, G (u i) (a i))
    (i : ℕ) : sys.ReachableUnder G (u i) := by
  induction i with
  | zero => exact .init h.start
  | succ i ih => exact .step ih (hG i) (h.next i)

/-- A sequence with another first element. -/
def prepend {β : Type*} (x : β) (f : ℕ → β) : ℕ → β
  | 0 => x
  | i + 1 => f i

/-- A schedule, and endless steps from the state that it ends in. -/
theorem replay_endless {s : σ} {as : List α} {u : ℕ → σ} {a : ℕ → α} (hrun : sys.replay s as = some (u 0))
    (hnext : ∀ i, sys.step (u i) (a i) = some (u (i + 1))) : ∃ (u' : ℕ → σ) (a' : ℕ → α), u' 0 = s ∧
      (∀ i, sys.step (u' i) (a' i) = some (u' (i + 1))) ∧
      (∀ i, u' (as.length + i) = u i ∧ a' (as.length + i) = a i) ∧
      ∀ i b, as[i]? = some b → a' i = b ∧ sys.replay s (as.take i) = some (u' i) := by
  induction as generalizing s with
  | nil =>
    obtain rfl := Option.some.inj hrun
    refine ⟨u, a, rfl, hnext, fun i => ?_, fun i b hb => ?_⟩
    · rw [List.length_nil, Nat.zero_add]
      exact ⟨rfl, rfl⟩
    · cases hb
  | cons act as ih =>
    obtain ⟨t, ht, hrun⟩ := Option.bind_eq_some_iff.mp hrun
    obtain ⟨u', a', rfl, hsteps, htail, hhead⟩ := ih hrun
    refine ⟨prepend s u', prepend act a', rfl, fun i => ?_, fun i => ?_, fun i b hb => ?_⟩
    · cases i with
      | zero => exact ht
      | succ i => exact hsteps i
    · rw [List.length_cons, Nat.add_right_comm]
      exact htail i
    · cases i with
      | zero => exact ⟨Option.some.inj hb, rfl⟩
      | succ i =>
        obtain ⟨haction, hstate⟩ := hhead i b hb
        exact ⟨haction, Option.bind_eq_some_iff.mpr ⟨u' 0, ht, hstate⟩⟩

theorem Obeys.at {G : σ → α → Prop} {s t v : σ} {as : List α} {i : ℕ} {b : α} (h : sys.Obeys G s as)
    (hb : as[i]? = some b) (hrun : sys.replay s (as.take i) = some t) (hs : sys.step t b = some v) : G t b := by
  induction as generalizing s i with
  | nil => cases hb
  | cons act as ih =>
    cases i with
    | zero =>
      obtain rfl := Option.some.inj hb
      obtain rfl := Option.some.inj hrun
      simp only [Obeys, hs] at h
      exact h.1
    | succ i =>
      obtain ⟨u, hu, hrun⟩ := Option.bind_eq_some_iff.mp hrun
      simp only [Obeys, hu] at h
      exact ih h.2 hb hrun

end MessagingGateway.Transition.System
