import MessagingGateway.Sms.Segments
import Mathlib.Algebra.BigOperators.Group.List.Basic

/-! Character boundaries. The two loops of `unitToCharIndex` share one position in the text; since
the offsets ascend, no boundary that one of them needs has been left behind. -/
namespace MessagingGateway.Sms

/-- The first `i` characters cost `target` units. -/
def Boundary (costs : List Nat) (target i : Nat) : Prop := i ≤ costs.length ∧ (costs.take i).sum = target

theorem walk_append {passed costs : List Nat} (hpos : ∀ c ∈ passed, 0 < c) (u i : Nat) :
    walk (u + passed.sum) (passed ++ costs) u i = (costs, u + passed.sum, i + passed.length) := by
  induction passed generalizing u i with
  | nil =>
    cases costs with
    | nil => rfl
    | cons cost costs => simp [walk]
  | cons cost passed ih =>
    obtain ⟨hcost, hpassed⟩ := List.forall_mem_cons.mp hpos
    have hrest := ih hpassed (u + cost) (i + 1)
    rw [List.sum_cons, List.cons_append, walk, if_pos (by omega), ← Nat.add_assoc, hrest, List.length_cons]
    simp only [Prod.mk.injEq, true_and]
    omega

private theorem walk_passed (target : Nat) (costs : List Nat) (u i : Nat) :
    ∃ passed, costs = passed ++ (walk target costs u i).1 ∧
    (walk target costs u i).2.1 = u + passed.sum ∧ (walk target costs u i).2.2 = i + passed.length := by
  induction costs generalizing u i with
  | nil => exact ⟨[], rfl, rfl, rfl⟩
  | cons cost costs ih =>
    rw [walk]
    split
    · obtain ⟨passed, hcosts, hunits, hindex⟩ := ih (u + cost) (i + 1)
      refine ⟨cost :: passed, congrArg (cost :: ·) hcosts, ?_, ?_⟩
      · rw [hunits, List.sum_cons, Nat.add_assoc]
      · rw [hindex, List.length_cons]
        omega
    · exact ⟨[], rfl, rfl, rfl⟩

section
variable {costs : List Nat} {target i j : Nat}

theorem sum_take_lt (hpos : ∀ c ∈ costs, 0 < c) (hij : i < j) (hj : j ≤ costs.length) :
    (costs.take i).sum < (costs.take j).sum := by
  obtain ⟨n, rfl⟩ := Nat.exists_eq_add_of_lt hij
  have hlt : i < costs.length := by omega
  have hcost := hpos _ (List.getElem_mem hlt)
  have hsplit : costs.take (i + n + 1) = costs.take i ++ costs[i] :: (costs.drop (i + 1)).take n := by
    rw [Nat.add_assoc, List.take_add, List.drop_eq_getElem_cons hlt, List.take_succ_cons]
  rw [hsplit, List.sum_append, List.sum_cons]
  omega

theorem Boundary.unique (hpos : ∀ c ∈ costs, 0 < c) (hi : Boundary costs target i) (hj : Boundary costs target j) :
    i = j := by
  rcases Nat.lt_trichotomy i j with hlt | heq | hlt
  · have hsum := sum_take_lt hpos hlt hj.1
    exact absurd (hi.2.trans hj.2.symm) hsum.ne
  · exact heq
  · have hsum := sum_take_lt hpos hlt hi.1
    exact absurd (hj.2.trans hi.2.symm) hsum.ne

theorem boundary_length (passed rest : List Nat) : Boundary (passed ++ rest) passed.sum passed.length :=
  ⟨by simp, by rw [List.take_left]⟩

/-- A boundary ahead of the position is where the inner loop stops. -/
theorem walk_boundary {passed : List Nat} (hpos : ∀ c ∈ passed ++ costs, 0 < c) (hreached : passed.sum ≤ target)
    (h : Boundary (passed ++ costs) target i) : (walk target costs passed.sum passed.length).2.1 = target := by
  obtain ⟨hlength, hsum⟩ := h
  have hbehind : passed.length ≤ i := by
    by_contra hlt
    have hless := sum_take_lt hpos (Nat.lt_of_not_le hlt) (boundary_length passed costs).1
    rw [hsum, (boundary_length passed costs).2] at hless
    omega
  obtain ⟨n, rfl⟩ := Nat.exists_eq_add_of_le hbehind
  rw [List.take_length_add_append, List.sum_append] at hsum
  have hahead : ∀ c ∈ costs.take n, 0 < c := fun c hc => hpos c (List.mem_append_right _ (List.mem_of_mem_take hc))
  have hwalk := @walk_append (costs.take n) (costs.drop n) hahead passed.sum passed.length
  rw [List.take_append_drop, hsum] at hwalk
  rw [hwalk]

end

/-- The invariant of the outer loop: the position is the boundary of the costs passed so far, and
every offset still to come lies at or beyond it. -/
theorem charIndices_iff {passed costs targets : List Nat} (hpos : ∀ c ∈ passed ++ costs, 0 < c)
    (hsorted : targets.Pairwise (· ≤ ·)) (hreached : ∀ target ∈ targets, passed.sum ≤ target) (out : List Nat) :
    charIndices targets costs passed.sum passed.length = some out ↔
      List.Forall₂ (Boundary (passed ++ costs)) targets out := by
  induction targets generalizing passed costs out with
  | nil => simp [charIndices, eq_comm]
  | cons target targets ih =>
    obtain ⟨hfirst, hsorted⟩ := List.pairwise_cons.mp hsorted
    have hboundary : ∀ i, Boundary (passed ++ costs) target i →
        (walk target costs passed.sum passed.length).2.1 = target := fun i h =>
      walk_boundary hpos (hreached target List.mem_cons_self) h
    obtain ⟨walked, hcosts, hunits, hindex⟩ := walk_passed target costs passed.sum passed.length
    rw [charIndices, List.forall₂_cons_left_iff]
    generalize walk target costs passed.sum passed.length = stop at hboundary hcosts hunits hindex
    obtain ⟨rest, u, i⟩ := stop
    dsimp only at hboundary hcosts hunits hindex ⊢
    subst hcosts
    by_cases hstop : u = target
    · have hhere : Boundary (passed ++ (walked ++ rest)) target i := by
        have hlength := boundary_length (passed ++ walked) rest
        rwa [List.append_assoc, List.sum_append, List.length_append, ← hunits, ← hindex, hstop] at hlength
      have hrest := @ih (passed ++ walked) rest (by rwa [List.append_assoc]) hsorted
        (fun t ht => by rw [List.sum_append, ← hunits, hstop]; exact hfirst t ht)
      rw [List.append_assoc, List.sum_append, List.length_append, ← hunits, ← hindex] at hrest
      rw [if_pos hstop, Option.map_eq_some_iff]
      constructor
      · rintro ⟨out, hout, rfl⟩
        exact ⟨i, out, hhere, (hrest out).mp hout, rfl⟩
      · rintro ⟨i', out, hi', hout, rfl⟩
        exact ⟨out, (hrest out).mpr hout, by rw [Boundary.unique hpos hhere hi']⟩
    · rw [if_neg hstop]
      refine iff_of_false nofun ?_
      rintro ⟨i', out, hi', -⟩
      exact hstop (hboundary i' hi')

/-- Every offset gets its one boundary, in ascending order; without a boundary for each there is
no answer. -/
theorem unitToCharIndex_boundaries {costs : List Nat} (hpos : ∀ c ∈ costs, 1 ≤ c) (units : List Nat) :
    (∀ out, unitToCharIndex costs units = some out ↔
      ∃ targets, targets.Perm units ∧ targets.Pairwise (· ≤ ·) ∧ List.Forall₂ (Boundary costs) targets out) ∧
    (∀ target i j, Boundary costs target i → Boundary costs target j → i = j) ∧
    (unitToCharIndex costs units = none ↔ ∃ target ∈ units, ∀ i, ¬ Boundary costs target i) := by
  have hsorted : (units.insertionSort (· ≤ ·)).Pairwise (· ≤ ·) := List.pairwise_insertionSort _ _
  have hperm : (units.insertionSort (· ≤ ·)).Perm units := List.perm_insertionSort _ _
  have hfound := @charIndices_iff [] costs (units.insertionSort (· ≤ ·)) hpos hsorted fun _ _ => Nat.zero_le _
  rw [List.nil_append, List.sum_nil, List.length_nil, ← unitToCharIndex] at hfound
  refine ⟨fun out => ?_, fun target i j => Boundary.unique hpos, ?_⟩
  · rw [hfound]
    constructor
    · intro h
      exact ⟨_, hperm, hsorted, h⟩
    · rintro ⟨targets, htargets, hascending, h⟩
      rwa [← (htargets.trans hperm.symm).eq_of_pairwise' hascending hsorted]
  · rw [Option.eq_none_iff_forall_ne_some]
    constructor
    · intro hnone
      by_contra! hall
      choose! index hindex using hall
      apply hnone ((units.insertionSort (· ≤ ·)).map index)
      rw [hfound, List.forall₂_map_right_iff, List.forall₂_same]
      exact fun target ht => hindex target (hperm.mem_iff.mp ht)
    · rintro ⟨target, htarget, hmissing⟩ out hout
      obtain ⟨hlength, hall⟩ := List.forall₂_iff_get.mp ((hfound out).mp hout)
      obtain ⟨n, hn⟩ := List.mem_iff_get.mp (hperm.mem_iff.mpr htarget)
      have hboundary := hall n n.isLt (hlength ▸ n.isLt)
      rw [Fin.eta, hn] at hboundary
      exact hmissing _ hboundary

/-- A repeated offset and a zero, in no order. -/
theorem repeated_offsets : unitToCharIndex [1, 2, 1] [3, 0, 3] = some [0, 2, 2] := by
  have hboundaries := @unitToCharIndex_boundaries [1, 2, 1] (by decide) [3, 0, 3]
  refine (hboundaries.1 _).mpr ⟨[0, 3, 3], by decide, by decide, ?_⟩
  exact .cons ⟨by decide, rfl⟩ (.cons ⟨by decide, rfl⟩ (.cons ⟨by decide, rfl⟩ .nil))

end MessagingGateway.Sms
