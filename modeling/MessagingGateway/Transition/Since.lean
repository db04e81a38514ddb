import Mathlib.Data.List.Basic

/-! The past operator on logs kept newest first: an entry that opened an obligation, and
nothing after it that closed the obligation again. -/
namespace MessagingGateway.Transition
variable {α : Type*} (opens : α → List α → Prop) (closes : α → Prop)

/-- Some entry opened, judged with the log before it, and none since closed. -/
def Since (log : List α) : Prop :=
  ∃ post x pre, log = post ++ x :: pre ∧ opens x pre ∧ ∀ y ∈ post, ¬ closes y

/-- No bad entry ever follows an opening one unless a closing one stands between. -/
def NeverSince (bad : α → Prop) (log : List α) : Prop :=
  ∀ post x pre, log = post ++ x :: pre → opens x pre → (∀ y ∈ post, ¬ closes y) → ∀ y ∈ post, ¬ bad y

/-- Every entry of the log, judged with the log before it. -/
def Throughout (P : α → List α → Prop) (log : List α) : Prop := ∀ post x pre, log = post ++ x :: pre → P x pre

variable {opens closes}

theorem since_cons {x : α} {log : List α} :
    Since opens closes (x :: log) ↔ opens x log ∨ ¬ closes x ∧ Since opens closes log := by
  constructor
  · rintro ⟨post, y, pre, hlog, hopen, hclose⟩
    cases post with
    | nil =>
      obtain ⟨rfl, rfl⟩ := List.cons.inj hlog
      exact .inl hopen
    | cons z post =>
      obtain ⟨rfl, rfl⟩ := List.cons.inj hlog
      exact .inr ⟨hclose x List.mem_cons_self, post, y, pre, rfl, hopen,
        fun z hz => hclose z (List.mem_cons_of_mem x hz)⟩
  · rintro (hopen | ⟨hx, post, y, pre, rfl, hopen, hclose⟩)
    · exact ⟨[], x, log, rfl, hopen, by simp⟩
    · exact ⟨x :: post, y, pre, rfl, hopen, List.forall_mem_cons.mpr ⟨hx, hclose⟩⟩

theorem not_since_nil : ¬ Since opens closes ([] : List α) := by
  rintro ⟨post, x, pre, hlog, -⟩
  exact List.append_ne_nil_of_right_ne_nil post (List.cons_ne_nil x pre) hlog.symm

theorem Since.exists_mem {log : List α} (h : Since opens closes log) : ∃ x ∈ log, ∃ pre, opens x pre := by
  obtain ⟨post, x, pre, rfl, hopen, -⟩ := h
  exact ⟨x, by simp, pre, hopen⟩

/-- While one kind of entry is open against the other, the other is not open against it. -/
theorem not_since_swap {p q : α → Prop} (hpq : ∀ x, p x → ¬ q x) {log : List α} (h : Since (fun x _ => p x) q log) :
    ¬ Since (fun x _ => q x) p log := by
  induction log with
  | nil => exact absurd h not_since_nil
  | cons x log ih =>
    rw [since_cons] at h ⊢
    rcases h with hp | ⟨hq, h⟩
    · rintro (hq | ⟨hp', -⟩)
      · exact hpq x hp hq
      · exact hp' hp
    · rintro (hq' | ⟨-, h'⟩)
      · exact hq hq'
      · exact ih h h'

theorem throughout_nil {P : α → List α → Prop} : Throughout P ([] : List α) := by
  intro post x pre h
  exact absurd h.symm (List.append_ne_nil_of_right_ne_nil post (List.cons_ne_nil x pre))

theorem throughout_cons {P : α → List α → Prop} {x : α} {log : List α} :
    Throughout P (x :: log) ↔ P x log ∧ Throughout P log := by
  constructor
  · intro h
    refine ⟨h [] x log rfl, ?_⟩
    rintro post y pre rfl
    exact h (x :: post) y pre rfl
  · rintro ⟨hx, h⟩ post y pre hlog
    cases post with
    | nil =>
      obtain ⟨rfl, rfl⟩ := List.cons.inj hlog
      exact hx
    | cons z post =>
      obtain ⟨rfl, rfl⟩ := List.cons.inj hlog
      exact h post y pre rfl

/-- The step rule: a bad entry must not be written while an obligation is open. -/
theorem NeverSince.cons {bad : α → Prop} {x : α} {log : List α} (h : NeverSince opens closes bad log)
    (hx : bad x → ¬ Since opens closes log) : NeverSince opens closes bad (x :: log) := by
  intro post y pre hlog hopen hclose z hz
  cases post with
  | nil => exact absurd hz List.not_mem_nil
  | cons w post =>
    obtain ⟨rfl, rfl⟩ := List.cons.inj hlog
    have htail : ∀ z ∈ post, ¬ closes z := fun z hz => hclose z (List.mem_cons_of_mem x hz)
    rcases List.mem_cons.mp hz with rfl | hz
    · exact fun hbad => hx hbad ⟨post, y, pre, rfl, hopen, htail⟩
    · exact h post y pre rfl hopen htail z hz

end MessagingGateway.Transition
