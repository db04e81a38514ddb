import Mathlib.Data.List.Count
import Mathlib.Data.List.Induction

/-! Attempts within a budget: a setback is tried again until the budget is used up, any other
verdict settles the matter. -/
namespace MessagingGateway.Transition

inductive Verdict where
  | success | refusal | setback
  deriving DecidableEq

inductive Standing where
  | trying | succeeded | refused | exhausted
  deriving DecidableEq

namespace Standing

/-- Where the attempt with the verdict leads, after the attempts already made. -/
def after (budget : ℕ) (made : List Verdict) : Verdict → Standing
  | .success => .succeeded
  | .refusal => .refused
  | .setback => if made.length + 1 < budget then .trying else .exhausted

/-- The attempts made, in order, explain the standing. -/
def Explained (budget : ℕ) (made : List Verdict) : Standing → Prop
  | .trying => ∃ k < budget, made = List.replicate k .setback
  | .succeeded => ∃ k < budget, made = List.replicate k .setback ++ [.success]
  | .refused => ∃ k < budget, made = List.replicate k .setback ++ [.refusal]
  | .exhausted => made = List.replicate budget .setback

variable {budget : ℕ} {made : List Verdict} {st : Standing}

theorem explained_start (h : 0 < budget) : Explained budget [] .trying := ⟨0, h, rfl⟩

theorem explained_after (h : Explained budget made .trying) (v : Verdict) :
    Explained budget (made ++ [v]) (after budget made v) := by
  obtain ⟨k, hk, rfl⟩ := h
  cases v with
  | success => exact ⟨k, hk, rfl⟩
  | refusal => exact ⟨k, hk, rfl⟩
  | setback =>
    have hmore : List.replicate k Verdict.setback ++ [.setback] = List.replicate (k + 1) .setback :=
      List.replicate_succ'.symm
    rw [hmore, after, List.length_replicate]
    split
    · rename_i hlt
      exact ⟨k + 1, hlt, rfl⟩
    · have hlast : k + 1 = budget := by omega
      exact congrArg (List.replicate · Verdict.setback) hlast

theorem Explained.length_le (h : Explained budget made st) : made.length ≤ budget := by
  cases st with
  | trying =>
    obtain ⟨k, hk, rfl⟩ := h
    simpa using Nat.le_of_lt hk
  | succeeded | refused =>
    obtain ⟨k, hk, rfl⟩ := h
    simpa using Nat.succ_le_of_lt hk
  | exhausted =>
    rw [Explained] at h
    simp [h]

/-- Nothing follows a success or a refusal. -/
theorem Explained.dropLast (h : Explained budget made st) : ∀ v ∈ made.dropLast, v = .setback := by
  intro v hv
  cases st with
  | trying =>
    obtain ⟨k, -, rfl⟩ := h
    exact List.eq_of_mem_replicate (List.dropLast_subset _ hv)
  | succeeded | refused =>
    obtain ⟨k, -, rfl⟩ := h
    rw [List.dropLast_concat] at hv
    exact List.eq_of_mem_replicate hv
  | exhausted =>
    rw [Explained] at h
    subst h
    exact List.eq_of_mem_replicate (List.dropLast_subset _ hv)

/-- An end has been reached by some attempt. -/
theorem Explained.ne_nil (hbudget : 0 < budget) (h : Explained budget made st) (hst : st ≠ .trying) : made ≠ [] := by
  rintro rfl
  cases st with
  | trying => exact hst rfl
  | succeeded | refused =>
    obtain ⟨k, -, hmade⟩ := h
    exact absurd hmade (by simp)
  | exhausted =>
    rw [Explained] at h
    have hlength := congrArg List.length h
    simp only [List.length_nil, List.length_replicate] at hlength
    omega

/-- Short of the end every attempt was a setback. -/
theorem Explained.setbacks (h : Explained budget made .trying) : made.count .setback = made.length := by
  obtain ⟨k, -, rfl⟩ := h
  simp

private theorem Explained.setbacks_lt (h : Explained budget made .trying) : made.count .setback < budget := by
  obtain ⟨k, hk, rfl⟩ := h
  simpa using hk

theorem Explained.exhausted_iff (h : Explained budget made st) : st = .exhausted ↔ made.count .setback = budget := by
  cases st with
  | trying => simpa using Nat.ne_of_lt h.setbacks_lt
  | succeeded | refused =>
    obtain ⟨k, hk, rfl⟩ := h
    simpa using Nat.ne_of_lt hk
  | exhausted =>
    rw [Explained] at h
    simp [h]

theorem Explained.succeeded_iff (h : Explained budget made st) : st = .succeeded ↔ .success ∈ made := by
  cases st with
  | trying | succeeded | refused =>
    obtain ⟨k, -, rfl⟩ := h
    simp
  | exhausted =>
    rw [Explained] at h
    simp [h]

theorem Explained.refused_iff (h : Explained budget made st) : st = .refused ↔ .refusal ∈ made := by
  cases st with
  | trying | succeeded | refused =>
    obtain ⟨k, -, rfl⟩ := h
    simp
  | exhausted =>
    rw [Explained] at h
    simp [h]

end Standing
end MessagingGateway.Transition
