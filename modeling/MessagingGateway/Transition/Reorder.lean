import Mathlib.Data.List.Perm.Basic

/-! Updates that commute and absorb their own repetition: what a sequence of them leads to
depends only on which of them occur. -/
namespace MessagingGateway.Transition.Reorder
variable {σ β : Type*} {op : σ → β → σ} {P : β → Prop}

/-- Any two updates of the class may change places. -/
def Commute (op : σ → β → σ) (P : β → Prop) : Prop := ∀ a b, P a → P b → ∀ s, op (op s a) b = op (op s b) a

/-- An update of the class does nothing the second time. -/
def Absorb (op : σ → β → σ) (P : β → Prop) : Prop := ∀ a, P a → ∀ s, op (op s a) a = op s a

private theorem foldl_absorb (hcomm : Commute op P) (habsorb : Absorb op P) {l : List β} (hl : ∀ b ∈ l, P b) {a : β}
    (ha : a ∈ l) (s : σ) : l.foldl op (op s a) = l.foldl op s := by
  induction l generalizing s with
  | nil => exact absurd ha (by simp)
  | cons b l ih =>
    obtain ⟨hb, hrest⟩ := List.forall_mem_cons.mp hl
    rcases List.mem_cons.mp ha with rfl | ha'
    · rw [List.foldl_cons, List.foldl_cons, habsorb a hb]
    · rw [List.foldl_cons, List.foldl_cons, hcomm a b (hrest a ha') hb]
      exact ih hrest ha' (op s b)

private theorem foldl_absorb_all (hcomm : Commute op P) (habsorb : Absorb op P) {l : List β} (hl : ∀ b ∈ l, P b)
    {l' : List β} (hsub : l' ⊆ l) (s : σ) : (l' ++ l).foldl op s = l.foldl op s := by
  induction l' generalizing s with
  | nil => rfl
  | cons a l' ih =>
    obtain ⟨ha, hrest⟩ := List.cons_subset.mp hsub
    rw [List.cons_append, List.foldl_cons, ih hrest]
    exact foldl_absorb hcomm habsorb hl ha s

/-- Order and repetition are forgotten. -/
theorem foldl_eq_of_mem_iff (hcomm : Commute op P) (habsorb : Absorb op P) {l l' : List β} (hl : ∀ b ∈ l, P b)
    (hmem : ∀ b, b ∈ l' ↔ b ∈ l) (s : σ) : l'.foldl op s = l.foldl op s := by
  have hl' : ∀ b ∈ l', P b := fun b hb => hl b ((hmem b).mp hb)
  have hswap : (l ++ l').foldl op s = (l' ++ l).foldl op s := by
    have hperm : (l ++ l').Perm (l' ++ l) := List.perm_append_comm
    refine hperm.foldl_eq' ?_ s
    intro a ha b hb t
    have hP : ∀ c ∈ l ++ l', P c := fun c hc => (List.mem_append.mp hc).elim (hl c) (hl' c)
    exact hcomm a b (hP a ha) (hP b hb) t
  calc l'.foldl op s
      = (l ++ l').foldl op s := (foldl_absorb_all hcomm habsorb hl' (fun b hb => (hmem b).mpr hb) s).symm
    _ = (l' ++ l).foldl op s := hswap
    _ = l.foldl op s := foldl_absorb_all hcomm habsorb hl (fun b hb => (hmem b).mp hb) s

end MessagingGateway.Transition.Reorder
