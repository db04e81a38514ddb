import MessagingGateway.Transition.System

/-! Look a key up, insert it later: the table itself rejects nothing, so uniqueness
rests on how the callers' windows between the two steps overlap. -/
namespace MessagingGateway.Transition.CheckThenInsert
variable {ι κ : Type*} [DecidableEq ι] [DecidableEq κ]

/-- How many rows each key has, and which callers found their key absent and still
have to insert it. -/
structure State (ι κ : Type*) where
  rows : κ → Nat
  pending : ι → Option κ

inductive Action (ι κ : Type*) where
  | miss (i : ι) (k : κ)
  | insert (i : ι)
  | drop (i : ι)

def step (s : State ι κ) : Action ι κ → Option (State ι κ)
  | .miss i k => if s.rows k = 0 then some { s with pending := Function.update s.pending i (some k) } else none
  | .insert i => (s.pending i).map fun k =>
      { rows := Function.update s.rows k (s.rows k + 1), pending := Function.update s.pending i none }
  | .drop i => some { s with pending := Function.update s.pending i none }

def Unique (s : State ι κ) : Prop := ∀ k, s.rows k ≤ 1

def system : System (State ι κ) (Action ι κ) where
  init s := Unique s ∧ ∀ i, s.pending i = none
  step := step

/-- Nobody else is between looking the same key up and inserting it. -/
def Exclusive (s : State ι κ) : Action ι κ → Prop
  | .insert i => ∀ j, j ≠ i → s.pending j = s.pending i → s.pending i = none
  | _ => True

/-- A pending key is still absent; this is what makes the next insert the first. -/
structure Guarded (s : State ι κ) : Prop where
  absent : ∀ i k, s.pending i = some k → s.rows k = 0
  unique : Unique s

private theorem guarded_step (s : State ι κ) (a : Action ι κ) (t : State ι κ) (h : Guarded s)
    (hex : Exclusive s a) (hs : step s a = some t) : Guarded t := by
  cases a with
  | miss i k =>
    obtain ⟨hk, rfl⟩ : s.rows k = 0 ∧ _ = t := by simpa [step] using hs
    refine ⟨fun j l hj => ?_, h.unique⟩
    rcases eq_or_ne j i with rfl | hne
    · simp only [Function.update_self, Option.some.injEq] at hj
      exact hj ▸ hk
    · exact h.absent j l (by simpa [hne] using hj)
  | insert i =>
    obtain ⟨k, hk, rfl⟩ := Option.map_eq_some_iff.mp hs
    have hzero := h.absent i k hk
    refine ⟨fun j l hj => ?_, fun l => ?_⟩
    · rcases eq_or_ne j i with rfl | hne
      · simp at hj
      · simp only [Function.update_of_ne hne] at hj
        have hl : l ≠ k := by
          rintro rfl
          exact absurd (hex j hne (hj.trans hk.symm)) (by simp [hk])
        simpa [hl] using h.absent j l hj
    · rcases eq_or_ne l k with rfl | hne
      · simp [hzero]
      · simpa [hne] using h.unique l
  | drop i =>
    obtain rfl := Option.some.inj hs
    refine ⟨fun j l hj => ?_, h.unique⟩
    rcases eq_or_ne j i with rfl | hne
    · simp at hj
    · exact h.absent j l (by simpa [hne] using hj)

/-- Callers that never insert while another holds the same key pending keep every key
single, in every reachable state. -/
theorem unique_of_exclusive {s : State ι κ} (h : system.ReachableUnder Exclusive s) : Unique s := by
  have hg : Guarded s := h.invariant
    (fun s hs => ⟨fun i k hk => by simp [hs.2 i] at hk, hs.1⟩) guarded_step
  exact hg.unique

/-- The guard is as weak as it can be: with two callers pending on one key, both
inserts are enabled and the key ends up with two rows. -/
theorem overlap_duplicates {s : State ι κ} {i j : ι} {k : κ} (hij : i ≠ j)
    (hi : s.pending i = some k) (hj : s.pending j = some k) :
    ∃ t, system.replay s [.insert i, .insert j] = some t ∧ ¬ Unique t := by
  refine ⟨{ rows := Function.update (Function.update s.rows k (s.rows k + 1)) k (s.rows k + 1 + 1)
            pending := Function.update (Function.update s.pending i none) j none }, ?_, fun hu => ?_⟩
  · simp [System.replay, system, step, hi, hj, hij.symm]
  · have := hu k
    simp at this

end MessagingGateway.Transition.CheckThenInsert
