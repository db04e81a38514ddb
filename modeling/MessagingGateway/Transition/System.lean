import Mathlib.Logic.Function.Basic
import Mathlib.Data.List.Basic

/-! Guarded step systems and the rules that carry an invariant along their runs.
A schedule is a list of actions; a disabled action has no result. -/
namespace MessagingGateway.Transition

/-- An action is enabled exactly in the states where `step` answers. -/
structure System (σ α : Type*) where
  init : σ → Prop
  step : σ → α → Option σ

namespace System
variable {σ τ α β : Type*} (sys : System σ α)

def replay : σ → List α → Option σ
  | s, [] => some s
  | s, a :: as => (sys.step s a).bind (replay · as)

/-- States of runs whose every step, judged in the state before it, meets the guard. -/
inductive ReachableUnder (G : σ → α → Prop) : σ → Prop
  | init {s : σ} : sys.init s → ReachableUnder G s
  | step {s t : σ} {a : α} : ReachableUnder G s → G s a → sys.step s a = some t → ReachableUnder G t

abbrev Reachable : σ → Prop := sys.ReachableUnder fun _ _ => True

/-- Every enabled step of the schedule meets the guard. -/
def Obeys (G : σ → α → Prop) : σ → List α → Prop
  | _, [] => True
  | s, a :: as => match sys.step s a with
    | none => True
    | some t => G s a ∧ Obeys G t as

instance decidableObeys {G : σ → α → Prop} [∀ s a, Decidable (G s a)] : (s : σ) → (as : List α) →
    Decidable (sys.Obeys G s as)
  | _, [] => .isTrue trivial
  | s, a :: as => match h : sys.step s a with
    | none => .isTrue (by simp only [Obeys, h])
    | some t => @decidable_of_iff _ (G s a ∧ sys.Obeys G t as) (by simp only [Obeys, h])
        (@instDecidableAnd _ _ _ (decidableObeys t as))

/-- The property holds in the first state and in every later state of the schedule. -/
def Along (P : σ → Prop) : σ → List α → Prop
  | s, [] => P s
  | s, a :: as => P s ∧ match sys.step s a with
    | none => True
    | some t => Along P t as

/-- Every enabled step of the schedule relates its two states. -/
def Steps (R : σ → σ → Prop) : σ → List α → Prop
  | _, [] => True
  | s, a :: as => match sys.step s a with
    | none => True
    | some t => R s t ∧ Steps R t as

/-- `Steps` for a relation that sees the action too. -/
def Moves (R : σ → α → σ → Prop) : σ → List α → Prop
  | _, [] => True
  | s, a :: as => match sys.step s a with
    | none => True
    | some t => R s a t ∧ Moves R t as

/-- Wherever the property holds along the schedule, it goes on holding until an ending step. -/
def Lasts (P : σ → Prop) (Ends : σ → α → Prop) (s : σ) (as : List α) : Prop :=
  ∀ xs ys, xs ++ ys <+: as → ∀ t u, sys.replay s xs = some t → sys.replay t ys = some u → P t →
    sys.Obeys (fun t a => ¬ Ends t a) t ys → P u

variable {sys}

theorem ReachableUnder.mono {G H : σ → α → Prop} (himp : ∀ s a, G s a → H s a) {s : σ}
    (h : sys.ReachableUnder G s) : sys.ReachableUnder H s := by
  induction h with
  | init h => exact .init h
  | step _ hg hs ih => exact .step ih (himp _ _ hg) hs

theorem ReachableUnder.reachable {G : σ → α → Prop} {s : σ} (h : sys.ReachableUnder G s) :
    sys.Reachable s :=
  h.mono fun _ _ _ => trivial

/-- The invariant rule: what holds at the start and survives every allowed step
holds in every state a guarded run can reach. -/
theorem ReachableUnder.invariant {G : σ → α → Prop} {I : σ → Prop} (hinit : ∀ s, sys.init s → I s)
    (hstep : ∀ s a t, I s → G s a → sys.step s a = some t → I t) {s : σ}
    (h : sys.ReachableUnder G s) : I s := by
  induction h with
  | init h => exact hinit _ h
  | step _ hg hs ih => exact hstep _ _ _ ih hg hs

/-- A second invariant may use an established one at the state before the step. -/
theorem ReachableUnder.invariant_of {G : σ → α → Prop} {I J : σ → Prop}
    (hI : ∀ s, sys.ReachableUnder G s → I s) (hinit : ∀ s, sys.init s → J s)
    (hstep : ∀ s a t, I s → J s → G s a → sys.step s a = some t → J t) {s : σ}
    (h : sys.ReachableUnder G s) : J s := by
  induction h with
  | init h => exact hinit _ h
  | step h hg hs ih => exact hstep _ _ _ (hI _ h) ih hg hs

/-- What every step preserves, a run preserves. -/
theorem replay_invariant {I : σ → Prop} (hstep : ∀ s a t, I s → sys.step s a = some t → I t) {s t : σ} {as : List α}
    (hs : I s) (hrun : sys.replay s as = some t) : I t := by
  induction as generalizing s with
  | nil =>
    obtain rfl := Option.some.inj hrun
    exact hs
  | cons a as ih =>
    obtain ⟨u, hu, hrun⟩ := Option.bind_eq_some_iff.mp hrun
    exact ih (hstep s a u hs hu) hrun

/-- A replayed schedule that obeys the guard stays inside the guarded states. -/
theorem ReachableUnder.replay {G : σ → α → Prop} {s t : σ} {as : List α}
    (h : sys.ReachableUnder G s) (hobey : sys.Obeys G s as) (hrun : sys.replay s as = some t) :
    sys.ReachableUnder G t := by
  induction as generalizing s with
  | nil =>
    cases Option.some.inj hrun
    exact h
  | cons a as ih =>
    obtain ⟨u, hu, hrest⟩ := Option.bind_eq_some_iff.mp hrun
    simp only [Obeys, hu] at hobey
    exact ih (.step h hobey.1 hu) hobey.2 hrest

theorem Along.head {P : σ → Prop} {s : σ} {as : List α} (h : sys.Along P s as) : P s := by
  cases as with
  | nil => exact h
  | cons a as => exact h.1

theorem Along.last {P : σ → Prop} {s t : σ} {as : List α} (h : sys.Along P s as)
    (hrun : sys.replay s as = some t) : P t := by
  induction as generalizing s with
  | nil => exact Option.some.inj hrun ▸ h
  | cons a as ih =>
    obtain ⟨u, hu, hrest⟩ := Option.bind_eq_some_iff.mp hrun
    obtain ⟨-, htail⟩ := h
    rw [hu] at htail
    exact ih htail hrest

/-- The exact guard of a property: an invariant carries it over every allowed step,
and every other enabled step breaks it. -/
theorem along_iff_obeys {G : σ → α → Prop} {I P : σ → Prop}
    (hkeep : ∀ s a t, I s → P s → G s a → sys.step s a = some t → I t ∧ P t)
    (hbreak : ∀ s a t, I s → P s → ¬ G s a → sys.step s a = some t → ¬ P t)
    {s : σ} (hI : I s) (hP : P s) (as : List α) : sys.Along P s as ↔ sys.Obeys G s as := by
  induction as generalizing s with
  | nil => exact iff_of_true hP trivial
  | cons a as ih =>
    simp only [Along, Obeys, hP, true_and]
    cases hs : sys.step s a with
    | none => exact Iff.rfl
    | some t =>
      constructor
      · intro halong
        have hG : G s a := by
          by_contra hG
          exact hbreak s a t hI hP hG hs halong.head
        obtain ⟨hIt, hPt⟩ := hkeep s a t hI hP hG hs
        exact ⟨hG, (ih hIt hPt).mp halong⟩
      · rintro ⟨hG, hobey⟩
        obtain ⟨hIt, hPt⟩ := hkeep s a t hI hP hG hs
        exact (ih hIt hPt).mpr hobey

theorem Steps.last {R : σ → σ → Prop} {s t u : σ} {as : List α} {a : α} (h : sys.Steps R s (as ++ [a]))
    (hrun : sys.replay s as = some t) (hstep : sys.step t a = some u) : R t u := by
  induction as generalizing s with
  | nil =>
    obtain rfl := Option.some.inj hrun
    rw [List.nil_append, Steps, hstep] at h
    exact h.1
  | cons b as ih =>
    obtain ⟨v, hv, hrest⟩ := Option.bind_eq_some_iff.mp hrun
    rw [List.cons_append, Steps, hv] at h
    exact ih h.2 hrest

/-- The same for what a step does to its state. -/
theorem moves_iff_obeys {G : σ → α → Prop} {I : σ → Prop} {R : σ → α → σ → Prop}
    (hkeep : ∀ s a t, I s → G s a → sys.step s a = some t → I t ∧ R s a t)
    (hbreak : ∀ s a t, I s → ¬ G s a → sys.step s a = some t → ¬ R s a t)
    {s : σ} (hI : I s) (as : List α) : sys.Moves R s as ↔ sys.Obeys G s as := by
  induction as generalizing s with
  | nil => exact Iff.rfl
  | cons a as ih =>
    simp only [Moves, Obeys]
    cases hs : sys.step s a with
    | none => exact Iff.rfl
    | some t =>
      constructor
      · rintro ⟨hR, hrest⟩
        have hG : G s a := by
          by_contra hG
          exact hbreak s a t hI hG hs hR
        exact ⟨hG, (ih (hkeep s a t hI hG hs).1).mp hrest⟩
      · rintro ⟨hG, hrest⟩
        obtain ⟨hIt, hR⟩ := hkeep s a t hI hG hs
        exact ⟨hR, (ih hIt).mpr hrest⟩

private theorem steps_iff_moves {R : σ → σ → Prop} {s : σ} {as : List α} :
    sys.Steps R s as ↔ sys.Moves (fun s _ t => R s t) s as := by
  induction as generalizing s with
  | nil => exact Iff.rfl
  | cons a as ih =>
    simp only [Steps, Moves]
    cases sys.step s a with
    | none => exact Iff.rfl
    | some t => exact and_congr_right fun _ => ih

theorem steps_iff_obeys {G : σ → α → Prop} {I : σ → Prop} {R : σ → σ → Prop}
    (hkeep : ∀ s a t, I s → G s a → sys.step s a = some t → I t ∧ R s t)
    (hbreak : ∀ s a t, I s → ¬ G s a → sys.step s a = some t → ¬ R s t)
    {s : σ} (hI : I s) (as : List α) : sys.Steps R s as ↔ sys.Obeys G s as :=
  steps_iff_moves.trans (moves_iff_obeys hkeep hbreak hI as)

theorem moves_and {R Q : σ → α → σ → Prop} {s : σ} {as : List α} :
    sys.Moves (fun s a t => R s a t ∧ Q s a t) s as ↔ sys.Moves R s as ∧ sys.Moves Q s as := by
  induction as generalizing s with
  | nil => exact (and_self_iff).symm
  | cons a as ih =>
    simp only [Moves]
    cases sys.step s a with
    | none => exact (and_self_iff).symm
    | some t =>
      simp only [ih]
      exact and_and_and_comm

private theorem holds_after {P : σ → Prop} {Ends : σ → α → Prop} {t u : σ} {ys zs : List α}
    (h : sys.Moves (fun t a u => P t → ¬ Ends t a → P u) t (ys ++ zs)) (hrun : sys.replay t ys = some u) (hP : P t)
    (hends : sys.Obeys (fun t a => ¬ Ends t a) t ys) : P u := by
  induction ys generalizing t with
  | nil =>
    obtain rfl := Option.some.inj hrun
    exact hP
  | cons a ys ih =>
    obtain ⟨v, hv, hrest⟩ := Option.bind_eq_some_iff.mp hrun
    simp only [List.cons_append, Moves, Obeys, hv] at h hends
    exact ih h.2 hrest (h.1 hP hends.1) hends.2

private theorem Moves.drop {R : σ → α → σ → Prop} {s t : σ} {xs ys : List α} (h : sys.Moves R s (xs ++ ys))
    (hrun : sys.replay s xs = some t) : sys.Moves R t ys := by
  induction xs generalizing s with
  | nil =>
    obtain rfl := Option.some.inj hrun
    exact h
  | cons a xs ih =>
    obtain ⟨u, hu, hrest⟩ := Option.bind_eq_some_iff.mp hrun
    simp only [List.cons_append, Moves, hu] at h
    exact ih h.2 hrest

/-- A property lasts exactly when every single step that does not end it keeps it. -/
theorem lasts_iff_moves {P : σ → Prop} {Ends : σ → α → Prop} {s : σ} {as : List α} :
    sys.Lasts P Ends s as ↔ sys.Moves (fun t a u => P t → ¬ Ends t a → P u) s as := by
  constructor
  · intro h
    induction as generalizing s with
    | nil => trivial
    | cons a as ih =>
      simp only [Moves]
      cases hs : sys.step s a with
      | none => trivial
      | some t =>
        refine ⟨fun hP hends => h [] [a] ⟨as, rfl⟩ s t rfl (by simp [replay, hs]) hP (by simp [Obeys, hs, hends]),
          ih ?_⟩
        intro xs ys hpre u v hu hv
        exact h (a :: xs) ys ((List.prefix_cons_inj a).mpr hpre) u v (by simp [replay, hs, hu]) hv
  · rintro h xs ys ⟨zs, rfl⟩ t u ht hu hP hends
    rw [List.append_assoc] at h
    exact holds_after (h.drop ht) hu hP hends

theorem obeys_of_forall {G : σ → α → Prop} {as : List α} (h : ∀ a ∈ as, ∀ s, G s a) (s : σ) :
    sys.Obeys G s as := by
  induction as generalizing s with
  | nil => trivial
  | cons a as ih =>
    simp only [Obeys]
    split
    · trivial
    · exact ⟨h a List.mem_cons_self s, ih (fun b hb => h b (List.mem_cons_of_mem a hb)) _⟩

/-- A schedule that obeys one guard obeys another that follows from it under an invariant. -/
theorem Obeys.imp {G H : σ → α → Prop} {I : σ → Prop} {as : List α}
    (hkeep : ∀ s a t, a ∈ as → I s → sys.step s a = some t → I t) (himp : ∀ s, ∀ a ∈ as, I s → G s a → H s a) {s : σ}
    (hI : I s) (h : sys.Obeys G s as) : sys.Obeys H s as := by
  induction as generalizing s with
  | nil => trivial
  | cons a as ih =>
    simp only [Obeys] at h ⊢
    split
    · trivial
    · rename_i t hs
      rw [hs] at h
      refine ⟨himp s a List.mem_cons_self hI h.1, ih (fun s b t hb => hkeep s b t (List.mem_cons_of_mem a hb))
        (fun s b hb => himp s b (List.mem_cons_of_mem a hb)) (hkeep s a t List.mem_cons_self hI hs) h.2⟩

theorem obeys_append {G : σ → α → Prop} {s : σ} {as bs : List α} :
    sys.Obeys G s (as ++ bs) ↔ sys.Obeys G s as ∧ ∀ t, sys.replay s as = some t → sys.Obeys G t bs := by
  induction as generalizing s with
  | nil => simp [Obeys, System.replay]
  | cons a as ih =>
    simp only [List.cons_append, Obeys, System.replay]
    cases sys.step s a with
    | none => simp
    | some t => simp only [ih, and_assoc, Option.bind_some]

theorem Reachable.of_replay {s t : σ} {as : List α} (h : sys.init s)
    (hrun : sys.replay s as = some t) : sys.Reachable t :=
  ReachableUnder.replay (.init h) (obeys_of_forall (fun _ _ _ => trivial) s) hrun

/-- Forward simulation: the abstract system follows each allowed step of the concrete one
by at most one allowed step of its own. -/
theorem reachableUnder_simulated {C : System σ α} {A : System τ β} {R : σ → τ → Prop}
    {G : σ → α → Prop} {H : τ → β → Prop}
    (hinit : ∀ s, C.init s → ∃ t, A.init t ∧ R s t)
    (hstep : ∀ s t a s', R s t → G s a → C.step s a = some s' →
      R s' t ∨ ∃ b t', H t b ∧ A.step t b = some t' ∧ R s' t')
    {s : σ} (h : C.ReachableUnder G s) : ∃ t, A.ReachableUnder H t ∧ R s t := by
  induction h with
  | init h =>
    obtain ⟨t, ht, hr⟩ := hinit _ h
    exact ⟨t, .init ht, hr⟩
  | step _ hg hs ih =>
    obtain ⟨t, ht, hr⟩ := ih
    rcases hstep _ _ _ _ hr hg hs with hr' | ⟨b, t', hb, hs', hr'⟩
    · exact ⟨t, ht, hr'⟩
    · exact ⟨t', .step ht hb hs', hr'⟩

end System
end MessagingGateway.Transition
