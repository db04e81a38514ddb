import MessagingGateway.Sms.Boundaries
import MessagingGateway.Sms.Splitting

/-! The slots a short final part can have been glued into, and what `repairGluedParts` does with
them: it moves the one slot that is wrong where it is and clean at the end, if there is just one. -/
namespace MessagingGateway.Sms

section
variable {α : Type*} {f : Nat → Option α} {n : Nat}

private theorem filterMap_range_eq_nil : (List.range n).filterMap f = [] ↔ ∀ k < n, f k = none := by
  simp [List.filterMap_eq_nil_iff]

/-- A partial function over a range has one value exactly if it is defined once. -/
private theorem filterMap_range_eq_singleton {x : α} : (List.range n).filterMap f = [x] ↔
    ∃ k < n, f k = some x ∧ ∀ j < n, j ≠ k → f j = none := by
  induction n with
  | zero => simp
  | succ n ih =>
    have hlast : [n].filterMap f = (f n).toList := by cases h : f n <;> simp [h]
    rw [List.range_succ, List.filterMap_append, hlast, List.append_eq_singleton_iff, ih, filterMap_range_eq_nil]
    constructor
    · rintro (⟨hbefore, hn⟩ | ⟨⟨k, hk, hx, hother⟩, hn⟩)
      · refine ⟨n, Nat.lt_succ_self n, Option.toList_eq_singleton_iff.mp hn, fun j hj hne => hbefore j (by omega)⟩
      · refine ⟨k, by omega, hx, fun j hj hne => ?_⟩
        rcases Nat.lt_succ_iff_lt_or_eq.mp hj with hj | rfl
        · exact hother j hj hne
        · exact Option.toList_eq_nil_iff.mp hn
    · rintro ⟨k, hk, hx, hother⟩
      rcases Nat.lt_succ_iff_lt_or_eq.mp hk with hlt | rfl
      · refine .inr ⟨⟨k, hlt, hx, fun j hj => hother j (by omega)⟩, ?_⟩
        exact Option.toList_eq_nil_iff.mpr (hother n (Nat.lt_succ_self n) (by omega))
      · exact .inl ⟨fun j hj => hother j (by omega) (by omega), Option.toList_eq_singleton_iff.mpr hx⟩

end

/-- Two offsets are found exactly where the costs add up to them. -/
theorem unitToCharIndex_pair {costs : List Nat} (hpos : ∀ c ∈ costs, 0 < c) {a b start stop : Nat} :
    unitToCharIndex costs [a, a + b] = some [start, stop] ↔ ∃ p q r, costs = p ++ q ++ r ∧ p.sum = a ∧ q.sum = b ∧
      start = p.length ∧ stop = p.length + q.length := by
  have hsorted : [a, a + b].insertionSort (· ≤ ·) = [a, a + b] := by simp
  have hfound := @charIndices_iff [] costs [a, a + b] hpos (by simp) (fun _ _ => Nat.zero_le _) [start, stop]
  rw [List.nil_append, List.sum_nil, List.length_nil] at hfound
  rw [unitToCharIndex, hsorted, hfound]
  simp only [List.forall₂_cons, List.forall₂_nil_left_iff, and_true]
  constructor
  · rintro ⟨⟨hstart, hhead⟩, hstop, hboth⟩
    have hle : start ≤ stop := by
      by_contra hlt
      have hless := sum_take_lt hpos (Nat.lt_of_not_le hlt) hstart
      omega
    obtain ⟨n, rfl⟩ := Nat.exists_eq_add_of_le hle
    rw [List.take_add, List.sum_append] at hboth
    refine ⟨costs.take start, (costs.drop start).take n, costs.drop (start + n), ?_, hhead, by omega, ?_, ?_⟩
    · rw [← List.take_add, List.take_append_drop]
    · rw [List.length_take_of_le hstart]
    · rw [List.length_take_of_le hstart, List.length_take, List.length_drop]
      omega
  · rintro ⟨p, q, r, rfl, rfl, rfl, rfl, rfl⟩
    have hboth := boundary_length (p ++ q) r
    rw [List.sum_append, List.length_append] at hboth
    rw [List.append_assoc] at hboth ⊢
    exact ⟨boundary_length p (q ++ r), hboth⟩

section
variable (scripts : Scripts)

/-- The text looks like a mis-join before its position `i`. -/
def Seam (text : List Char) (i : Nat) : Prop := suspicious scripts (text.take i) (text.drop i)

instance (text : List Char) (i : Nat) : Decidable (Seam scripts text i) := inferInstanceAs (Decidable (_ = true))

/-- A slash belongs to no alphabet. -/
structure Scripts.Plain : Prop where
  cyrillic : scripts.cyrillic '/' = false
  latin : scripts.latin '/' = false
  letter : scripts.letter '/' = false

/-- The text falls into three, the middle one short, at slot `k`. -/
structure Slot (text : List Char) (k : Nat) (head tail rest : List Char) : Prop where
  text_eq : text = head ++ tail ++ rest
  head_units : units (isGsm7 text) head = k * partSize (isGsm7 text)
  tail_units : units (isGsm7 text) tail = units (isGsm7 text) text % partSize (isGsm7 text)

/-- The slot is wrong where it is and clean once moved to the end. -/
structure Misplaced (k : Nat) (head tail rest : List Char) : Prop where
  wrong_after : Seam scripts (head ++ tail ++ rest) (head.length + tail.length)
  wrong_before : 0 < k → Seam scripts (head ++ tail ++ rest) head.length
  clean_joined : ¬ Seam scripts (head ++ rest ++ tail) head.length
  clean_end : ¬ Seam scripts (head ++ rest ++ tail) (head.length + rest.length)

/-- The one slot of the text, before its end, that is misplaced. -/
structure OnlySlot (text head tail rest : List Char) : Prop where
  short : units (isGsm7 text) text % partSize (isGsm7 text) ≠ 0
  placed : ∃ k < units (isGsm7 text) text / partSize (isGsm7 text), Slot text k head tail rest ∧
    Misplaced scripts k head tail rest ∧ ∀ j < units (isGsm7 text) text / partSize (isGsm7 text), j ≠ k →
      ∀ a b c, Slot text j a b c → ¬ Misplaced scripts j a b c

variable {scripts} {text head tail rest a b c d : List Char} {k : Nat}

private theorem seam_append (a b : List Char) : Seam scripts (a ++ b) a.length ↔ suspicious scripts a b := by
  rw [Seam, List.take_left, List.drop_left]

theorem suspicious_append_left (hb : b ≠ []) : suspicious scripts (a ++ b) c = suspicious scripts b c := by
  simp only [suspicious, List.getLast?_append_of_ne_nil a hb]

private theorem suspicious_append_right (hb : 2 ≤ b.length) :
    suspicious scripts a (b ++ c) = suspicious scripts a b := by
  match b, hb with
  | x :: y :: b, _ => simp [suspicious]

@[simp] theorem suspicious_nil_left : suspicious scripts [] a = false := by simp [suspicious]

/-- After a piece that ends in a letter, what follows it does not matter. -/
theorem suspicious_append_plain (hplain : scripts.Plain) (hb : b ≠ []) (hseam : suspicious scripts b d) :
    suspicious scripts a (b ++ c) = suspicious scripts a b := by
  match b, hb with
  | [x], _ =>
    have hslash : x ≠ '/' := by
      rintro rfl
      simp [suspicious, hplain.cyrillic, hplain.latin, hplain.letter] at hseam
    simp [suspicious, hslash.symm]
  | x :: y :: b, _ => exact suspicious_append_right (by simp)

/-- The decision of the code about a slot, in terms of the seams of the two texts. -/
theorem misplaced_iff (hplain : scripts.Plain) (htail : tail ≠ []) (hrest : 2 ≤ rest.length) :
    Misplaced scripts k head tail rest ↔
      (suspicious scripts tail rest && (decide (k = 0) || suspicious scripts head tail)) &&
        (!suspicious scripts head rest && !suspicious scripts rest tail) := by
  have hne : rest ≠ [] := List.ne_nil_of_length_pos (by omega)
  have hafter : Seam scripts (head ++ tail ++ rest) (head.length + tail.length) ↔ suspicious scripts tail rest := by
    rw [← List.length_append, seam_append, suspicious_append_left htail]
  have hbefore : Seam scripts (head ++ tail ++ rest) head.length ↔ suspicious scripts head (tail ++ rest) := by
    rw [List.append_assoc, seam_append]
  have hjoined : Seam scripts (head ++ rest ++ tail) head.length ↔ suspicious scripts head rest := by
    rw [List.append_assoc, seam_append, suspicious_append_right hrest]
  have hend : Seam scripts (head ++ rest ++ tail) (head.length + rest.length) ↔ suspicious scripts rest tail := by
    rw [← List.length_append, seam_append, suspicious_append_left hne]
  simp only [Bool.and_eq_true, Bool.or_eq_true, decide_eq_true_eq, Bool.not_eq_true']
  constructor
  · intro h
    have hwrong := hafter.mp h.wrong_after
    refine ⟨⟨hwrong, ?_⟩, by simpa using mt hjoined.mpr h.clean_joined, by simpa using mt hend.mpr h.clean_end⟩
    rcases Nat.eq_zero_or_pos k with hk | hk
    · exact .inl hk
    · have hseam := hbefore.mp (h.wrong_before hk)
      rw [suspicious_append_plain hplain htail hwrong] at hseam
      exact .inr hseam
  · rintro ⟨⟨hwrong, hk⟩, hclean, hcleanEnd⟩
    refine ⟨hafter.mpr hwrong, fun hpos => ?_, mt hjoined.mp (by rw [hclean]; exact Bool.false_ne_true),
      mt hend.mp (by rw [hcleanEnd]; exact Bool.false_ne_true)⟩
    rw [hbefore, suspicious_append_plain hplain htail hwrong]
    exact hk.resolve_left (by omega)

end

section
variable {gsm : Bool} {text head tail rest : List Char}

private theorem eq_nil_of_units (h : units gsm text = 0) : text = [] := by
  by_contra hne
  have hpos : 0 < units gsm text := units_pos hne
  omega

theorem ne_nil_of_units (h : units gsm text ≠ 0) : text ≠ [] := by
  rintro rfl
  exact h units_nil

/-- Equal units cut a text in one way. -/
theorem cut_unique {a b a' b' : List Char} (h : a ++ b = a' ++ b') (hunits : units gsm a = units gsm a') :
    a = a' ∧ b = b' := by
  rcases List.append_eq_append_iff.mp h with ⟨c, rfl, rfl⟩ | ⟨c, rfl, rfl⟩
  · rw [units_append] at hunits
    obtain rfl := @eq_nil_of_units gsm c (by omega)
    simp
  · rw [units_append] at hunits
    obtain rfl := @eq_nil_of_units gsm c (by omega)
    simp

/-- A shorter front lies within a longer one. -/
theorem cut_within {a b a' b' : List Char} (h : a ++ b = a' ++ b') (hunits : units gsm a ≤ units gsm a') :
    ∃ x, a' = a ++ x ∧ b = x ++ b' := by
  rcases List.append_eq_append_iff.mp h with ⟨x, rfl, rfl⟩ | ⟨x, rfl, rfl⟩
  · exact ⟨x, rfl, rfl⟩
  · rw [units_append] at hunits
    obtain rfl := @eq_nil_of_units gsm x (by omega)
    exact ⟨[], by simp⟩

private theorem length_le_units (gsm : Bool) (text : List Char) : units gsm text ≤ 2 * text.length := by
  induction text with
  | nil => exact Nat.le_refl 0
  | cons c text ih =>
    have hcost : cost gsm c ≤ 2 := by
      unfold cost codeUnits
      split_ifs <;> omega
    rw [units_cons, List.length_cons]
    omega

/-- A text of three pieces, cut into them again. -/
private theorem cut_pieces (head tail rest : List Char) : (head ++ tail ++ rest).take head.length = head ∧
    ((head ++ tail ++ rest).drop head.length).take tail.length = tail ∧
    (head ++ tail ++ rest).drop (head.length + tail.length) = rest := by
  refine ⟨?_, ?_, ?_⟩
  · rw [List.append_assoc, List.take_left]
  · rw [List.append_assoc, List.drop_left, List.take_left]
  · rw [← List.length_append, List.drop_left]

/-- What the code moves from slot `k`, and when. -/
theorem movedFrom_eq_some {scripts : Scripts} {part short k : Nat} {fixed : List Char} :
    movedFrom scripts text (text.map (cost gsm)) part short k = some fixed ↔ ∃ head tail rest,
      text = head ++ tail ++ rest ∧ units gsm head = k * part ∧ units gsm tail = short ∧
      ((suspicious scripts tail rest && (decide (k = 0) || suspicious scripts head tail)) &&
        (!suspicious scripts head rest && !suspicious scripts rest tail)) ∧ fixed = head ++ rest ++ tail := by
  have hpos : ∀ c ∈ text.map (cost gsm), 0 < c := by
    intro c hc
    obtain ⟨x, -, rfl⟩ := List.mem_map.mp hc
    exact cost_pos gsm x
  constructor
  · intro h
    unfold movedFrom at h
    split at h
    · rename_i start stop hindices
      obtain ⟨p, q, r, hcosts, hp, hq, rfl, rfl⟩ := (unitToCharIndex_pair hpos).mp hindices
      obtain ⟨front, rest, rfl, hfront, rfl⟩ := List.map_eq_append_iff.mp hcosts
      obtain ⟨head, tail, rfl, rfl, rfl⟩ := List.map_eq_append_iff.mp hfront
      simp only [List.length_map, Nat.add_sub_cancel_left] at h
      obtain ⟨htake, hmiddle, hdrop⟩ := cut_pieces head tail rest
      rw [htake, hmiddle, hdrop] at h
      obtain ⟨hdecision, hfixed⟩ := Option.ite_none_right_eq_some.mp h
      exact ⟨head, tail, rest, rfl, hp, hq, hdecision, (Option.some.inj hfixed).symm⟩
    · cases h
  · rintro ⟨head, tail, rest, rfl, hhead, htail, hdecision, rfl⟩
    have hindices : unitToCharIndex ((head ++ tail ++ rest).map (cost gsm)) [k * part, k * part + short] =
        some [head.length, head.length + tail.length] := by
      rw [unitToCharIndex_pair hpos]
      exact ⟨head.map (cost gsm), tail.map (cost gsm), rest.map (cost gsm), by simp, hhead, htail, by simp, by simp⟩
    obtain ⟨htake, hmiddle, hdrop⟩ := cut_pieces head tail rest
    unfold movedFrom
    rw [hindices]
    simp only [Nat.add_sub_cancel_left]
    rw [htake, hmiddle, hdrop, if_pos hdecision]

end
section
variable {scripts : Scripts} {text head tail rest fixed : List Char} {k : Nat}

/-- The short part is not empty, and a full part at least follows it. -/
theorem Slot.bounds (h : Slot text k head tail rest) (hshort : units (isGsm7 text) text % partSize (isGsm7 text) ≠ 0)
    (hk : k < units (isGsm7 text) text / partSize (isGsm7 text)) : tail ≠ [] ∧ 2 ≤ rest.length := by
  have hsum : units (isGsm7 text) text = units (isGsm7 text) head + units (isGsm7 text) tail +
    units (isGsm7 text) rest := by
    rw [← units_append, ← units_append, ← h.text_eq]
  rw [h.head_units, h.tail_units] at hsum
  have hdiv := Nat.div_add_mod' (units (isGsm7 text) text) (partSize (isGsm7 text))
  have hlength := length_le_units (isGsm7 text) rest
  have hpart : 67 ≤ partSize (isGsm7 text) := by cases isGsm7 text <;> decide
  have hparts : (k + 1) * partSize (isGsm7 text) ≤
      units (isGsm7 text) text / partSize (isGsm7 text) * partSize (isGsm7 text) := Nat.mul_le_mul_right _ hk
  rw [Nat.succ_mul] at hparts
  constructor
  · rintro rfl
    exact hshort h.tail_units.symm
  · omega

private theorem movedFrom_slot (hplain : scripts.Plain) (hshort : units (isGsm7 text) text % partSize (isGsm7 text) ≠ 0)
    (hk : k < units (isGsm7 text) text / partSize (isGsm7 text)) :
    movedFrom scripts text (text.map (cost (isGsm7 text))) (partSize (isGsm7 text))
      (units (isGsm7 text) text % partSize (isGsm7 text)) k = some fixed ↔
      ∃ head tail rest, Slot text k head tail rest ∧ Misplaced scripts k head tail rest ∧
        fixed = head ++ rest ++ tail := by
  rw [movedFrom_eq_some]
  constructor
  · rintro ⟨head, tail, rest, htext, hhead, htail, hdecision, hfixed⟩
    have hslot : Slot text k head tail rest := ⟨htext, hhead, htail⟩
    obtain ⟨hne, hrest⟩ := hslot.bounds hshort hk
    exact ⟨head, tail, rest, hslot, (misplaced_iff hplain hne hrest).mpr hdecision, hfixed⟩
  · rintro ⟨head, tail, rest, hslot, hmisplaced, hfixed⟩
    obtain ⟨hne, hrest⟩ := hslot.bounds hshort hk
    exact ⟨head, tail, rest, hslot.text_eq, hslot.head_units, hslot.tail_units,
      (misplaced_iff hplain hne hrest).mp hmisplaced, hfixed⟩

theorem Slot.unique (h : Slot text k head tail rest) {a b c : List Char} (h' : Slot text k a b c) :
    a = head ∧ b = tail ∧ c = rest := by
  have hcut := h.text_eq.symm.trans h'.text_eq
  rw [List.append_assoc, List.append_assoc] at hcut
  obtain ⟨hhead, hcut⟩ := cut_unique hcut (h.head_units.trans h'.head_units.symm)
  obtain ⟨htail, hrest⟩ := cut_unique hcut (h.tail_units.trans h'.tail_units.symm)
  exact ⟨hhead.symm, htail.symm, hrest.symm⟩

private theorem moves_eq_singleton (hplain : scripts.Plain)
    (hshort : units (isGsm7 text) text % partSize (isGsm7 text) ≠ 0) :
    (List.range (units (isGsm7 text) text / partSize (isGsm7 text))).filterMap
      (movedFrom scripts text (text.map (cost (isGsm7 text))) (partSize (isGsm7 text))
        (units (isGsm7 text) text % partSize (isGsm7 text))) = [fixed] ↔
      ∃ head tail rest, OnlySlot scripts text head tail rest ∧ fixed = head ++ rest ++ tail := by
  rw [filterMap_range_eq_singleton]
  constructor
  · rintro ⟨k, hk, hfixed, hother⟩
    obtain ⟨head, tail, rest, hslot, hmisplaced, rfl⟩ := (movedFrom_slot hplain hshort hk).mp hfixed
    refine ⟨head, tail, rest, ⟨hshort, k, hk, hslot, hmisplaced, fun j hj hne a b c hslot' hmisplaced' => ?_⟩, rfl⟩
    have hmoved := (movedFrom_slot hplain hshort hj).mpr ⟨a, b, c, hslot', hmisplaced', rfl⟩
    rw [hother j hj hne] at hmoved
    cases hmoved
  · rintro ⟨head, tail, rest, ⟨-, k, hk, hslot, hmisplaced, hother⟩, rfl⟩
    refine ⟨k, hk, (movedFrom_slot hplain hshort hk).mpr ⟨head, tail, rest, hslot, hmisplaced, rfl⟩, fun j hj hne => ?_⟩
    rw [Option.eq_none_iff_forall_ne_some]
    intro moved hmoved
    obtain ⟨a, b, c, hslot', hmisplaced', -⟩ := (movedFrom_slot hplain hshort hj).mp hmoved
    exact hother j hj hne a b c hslot' hmisplaced'

/-- The loop runs over the slots before the end. -/
theorem repair_eq (hshort : units (isGsm7 text) text % partSize (isGsm7 text) ≠ 0) : repairGluedParts scripts text =
    match (List.range (units (isGsm7 text) text / partSize (isGsm7 text))).filterMap
      (movedFrom scripts text (text.map (cost (isGsm7 text))) (partSize (isGsm7 text))
        (units (isGsm7 text) text % partSize (isGsm7 text))) with
    | [fixed] => fixed
    | _ => text := by
  have hpos := partSize_pos (isGsm7 text)
  have hparts : (units (isGsm7 text) text + partSize (isGsm7 text) - 1) / partSize (isGsm7 text) =
      units (isGsm7 text) text / partSize (isGsm7 text) + 1 := by
    have hmod := Nat.mod_lt (units (isGsm7 text) text) hpos
    have hdiv := Nat.div_add_mod (units (isGsm7 text) text) (partSize (isGsm7 text))
    have hsum : units (isGsm7 text) text + partSize (isGsm7 text) - 1 =
      units (isGsm7 text) text % partSize (isGsm7 text) - 1 +
        partSize (isGsm7 text) * (units (isGsm7 text) text / partSize (isGsm7 text) + 1) := by
      rw [Nat.mul_add]
      omega
    rw [hsum, Nat.add_mul_div_left _ _ hpos, Nat.div_eq_of_lt (by omega), Nat.zero_add]
  have hsum : (text.map (cost (isGsm7 text))).sum = units (isGsm7 text) text := rfl
  unfold repairGluedParts
  simp only [measure_eq, hsum, hparts, hshort, or_false, Nat.add_sub_cancel]
  split_ifs with hfew
  · have hzero : units (isGsm7 text) text / partSize (isGsm7 text) = 0 :=
      Nat.lt_one_iff.mp (Nat.lt_of_succ_lt_succ hfew)
    rw [hzero]
    rfl
  · rfl

theorem repair_of_only (hplain : scripts.Plain) (h : OnlySlot scripts text head tail rest) :
    repairGluedParts scripts text = head ++ rest ++ tail := by
  rw [repair_eq h.short, (moves_eq_singleton hplain h.short).mpr ⟨head, tail, rest, h, rfl⟩]

theorem repair_of_none (hplain : scripts.Plain) (h : ∀ head tail rest, ¬ OnlySlot scripts text head tail rest) :
    repairGluedParts scripts text = text := by
  by_cases hshort : units (isGsm7 text) text % partSize (isGsm7 text) = 0
  · unfold repairGluedParts
    rw [measure_eq]
    exact if_pos (.inr hshort)
  · rw [repair_eq hshort]
    split
    · rename_i fixed hmoves
      obtain ⟨head, tail, rest, honly, -⟩ := (moves_eq_singleton hplain hshort).mp hmoves
      exact absurd honly (h head tail rest)
    · rfl

end
end MessagingGateway.Sms
