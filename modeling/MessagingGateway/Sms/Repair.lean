import MessagingGateway.Sms.Slots

/-! What the repair of a glued text can and cannot do to it. -/
namespace MessagingGateway.Sms
variable {scripts : Scripts} {text head tail rest : List Char}

/-- The text as it is, or with a part of it moved to the end: one as long as the last segment,
from where a segment starts. -/
def Rearranged (text fixed : List Char) : Prop := fixed = text ∨ ∃ head tail rest, text = head ++ tail ++ rest ∧
  fixed = head ++ rest ++ tail ∧ partSize (isGsm7 text) ∣ units (isGsm7 text) head ∧
  units (isGsm7 text) tail = units (isGsm7 text) text % partSize (isGsm7 text) ∧ units (isGsm7 text) tail ≠ 0

namespace Split
variable {message : List Char} (split : Split message)

/-- The message with its last segment glued in after `k` full ones. -/
def glued (k : Nat) : List Char := (split.full.take k).flatten ++ split.last ++ (split.full.drop k).flatten

/-- The seams around the last segment are wrong there, the message is clean where it is joined
again, and no other slot of the glued text is misplaced. -/
structure Repairable (scripts : Scripts) (k : Nat) : Prop where
  wrong_after : Seam scripts (split.glued k) ((split.full.take k).flatten.length + split.last.length)
  wrong_before : 0 < k → Seam scripts (split.glued k) (split.full.take k).flatten.length
  clean_joined : 0 < k → ¬ Seam scripts message (split.full.take k).flatten.length
  clean_end : ¬ Seam scripts message split.full.flatten.length
  alone : ∀ j < split.full.length, j ≠ k → ∀ head tail rest, Slot (split.glued k) j head tail rest →
    ¬ Misplaced scripts j head tail rest

end Split

private theorem rearranged_repair (hplain : scripts.Plain) (text : List Char) :
    Rearranged text (repairGluedParts scripts text) := by
  by_cases h : ∃ head tail rest, OnlySlot scripts text head tail rest
  · obtain ⟨head, tail, rest, honly⟩ := h
    obtain ⟨k, -, hslot, -⟩ := honly.placed
    rw [repair_of_only hplain honly]
    refine .inr ⟨head, tail, rest, hslot.text_eq, rfl, ?_, hslot.tail_units, ?_⟩
    · rw [hslot.head_units]
      exact Nat.dvd_mul_left _ _
    · rw [hslot.tail_units]
      exact honly.short
  · push Not at h
    exact .inl (repair_of_none hplain h)

/-- A text without seams is left alone. -/
theorem repair_of_seamless (hplain : scripts.Plain) (h : ∀ i, 0 < i → i < text.length → ¬ Seam scripts text i) :
    repairGluedParts scripts text = text := by
  apply repair_of_none hplain
  intro head tail rest honly
  obtain ⟨k, hk, hslot, hmisplaced, -⟩ := honly.placed
  obtain ⟨hne, hrest⟩ := hslot.bounds honly.short hk
  have htail := List.length_pos_iff.mpr hne
  have hseam := hmisplaced.wrong_after
  rw [← hslot.text_eq] at hseam
  refine h _ (by omega) ?_ hseam
  rw [hslot.text_eq]
  simp only [List.length_append]
  omega

private theorem isGsm7_append (a b : List Char) : isGsm7 (a ++ b) = (isGsm7 a && isGsm7 b) := List.all_append

private theorem units_flatten {gsm : Bool} {part : Nat} {segments : List (List Char)}
    (h : ∀ segment ∈ segments, units gsm segment = part) : units gsm segments.flatten = segments.length * part := by
  induction segments with
  | nil => rw [List.flatten_nil, units_nil, List.length_nil, Nat.zero_mul]
  | cons segment segments ih =>
    obtain ⟨hsegment, hrest⟩ := List.forall_mem_cons.mp h
    rw [List.flatten_cons, units_append, hsegment, ih hrest, List.length_cons, Nat.succ_mul, Nat.add_comm]

namespace Split
variable {message : List Char} (split : Split message) (k : Nat)

/-- Moved to the end, the last segment makes up the message again. -/
theorem message_eq : (split.full.take k).flatten ++ (split.full.drop k).flatten ++ split.last = message := by
  rw [← List.flatten_append, List.take_append_drop, split.joined]

private theorem isGsm7_glued : isGsm7 (split.glued k) = isGsm7 message := by
  have hmessage := congrArg isGsm7 (split.message_eq k)
  simp only [isGsm7_append] at hmessage
  rw [← hmessage, glued, isGsm7_append, isGsm7_append, Bool.and_assoc, Bool.and_assoc,
    Bool.and_comm (isGsm7 split.last)]

private theorem units_glued : units (isGsm7 message) (split.glued k) =
    split.full.length * partSize (isGsm7 message) + units (isGsm7 message) split.last := by
  have hfull := units_flatten split.full_units
  rw [← List.take_append_drop k split.full, List.flatten_append, units_append, List.take_append_drop] at hfull
  rw [glued, units_append, units_append]
  omega

variable {split k}

/-- A last segment that stands out where it is glued in is the only slot of the text. -/
theorem Repairable.only (hk : k < split.full.length) (h : split.Repairable scripts k) :
    OnlySlot scripts (split.glued k) (split.full.take k).flatten split.last (split.full.drop k).flatten := by
  have hunits := split.units_glued k
  have hshort := split.last_short
  have hmod : units (isGsm7 message) (split.glued k) % partSize (isGsm7 message) =
    units (isGsm7 message) split.last := by
    rw [hunits, Nat.mul_add_mod_self_right, Nat.mod_eq_of_lt hshort]
  have hdiv : units (isGsm7 message) (split.glued k) / partSize (isGsm7 message) = split.full.length := by
    rw [hunits, Nat.add_comm, Nat.add_mul_div_right _ _ (partSize_pos _), Nat.div_eq_of_lt hshort, Nat.zero_add]
  have hhead : units (isGsm7 message) (split.full.take k).flatten = k * partSize (isGsm7 message) := by
    rw [units_flatten fun segment hmem => split.full_units segment (List.take_subset k _ hmem), List.length_take,
      Nat.min_eq_left (Nat.le_of_lt hk)]
  constructor
  · rw [isGsm7_glued, hmod]
    exact Nat.ne_of_gt (units_pos split.last_ne)
  · rw [isGsm7_glued, hdiv]
    refine ⟨k, hk, ⟨rfl, by rw [isGsm7_glued, hhead], by rw [isGsm7_glued, hmod]⟩,
      ⟨h.wrong_after, h.wrong_before, ?_, ?_⟩,
      h.alone⟩
    · rw [message_eq]
      rcases Nat.eq_zero_or_pos k with rfl | hpos
      · simp [Seam]
      · exact h.clean_joined hpos
    · rw [message_eq, ← List.length_append, ← List.flatten_append, List.take_append_drop]
      exact h.clean_end

end Split

/-- The repair loses nothing, leaves texts without seams alone, and undoes a gluing that stands out. -/
theorem repair_conservative (hplain : scripts.Plain) :
    (∀ text, Rearranged text (repairGluedParts scripts text)) ∧
      (∀ text, (∀ i, 0 < i → i < text.length → ¬ Seam scripts text i) → repairGluedParts scripts text = text) ∧
      ∀ (message : List Char) (split : Split message), ∀ k < split.full.length, split.Repairable scripts k →
        repairGluedParts scripts (split.glued k) = message := by
  refine ⟨rearranged_repair hplain, fun text => repair_of_seamless hplain, fun message split k hk h => ?_⟩
  rw [repair_of_only hplain (h.only hk), split.message_eq]

namespace Sample

/-- Enough of the alphabets for Ukrainian texts. -/
def ukrainian : Scripts where
  cyrillic c := 0x400 ≤ c.toNat ∧ c.toNat < 0x530
  latin c := c.isAlpha
  letter c := c.isAlpha ∨ 0x400 ≤ c.toNat ∧ c.toNat < 0x530

private theorem ukrainian_plain : ukrainian.Plain := ⟨rfl, rfl, rfl⟩

/-- A message that ends in a link. -/
def link : Split (List.replicate 66 'я' ++ ['h'] ++ ['t']) where
  full := [List.replicate 66 'я' ++ ['h']]
  last := ['t']
  joined := rfl
  full_ne := nofun
  full_units := by decide +kernel
  last_ne := nofun
  last_short := by decide +kernel

end Sample

/-- The end of the link came first. -/
theorem link_repaired : repairGluedParts Sample.ukrainian (Sample.link.glued 0) =
    List.replicate 66 'я' ++ ['h'] ++ ['t'] := by
  apply (repair_conservative Sample.ukrainian_plain).2.2 _ Sample.link 0 (by decide)
  refine ⟨by decide +kernel, nofun, nofun, by decide +kernel, fun j hj hne => ?_⟩
  exact absurd (Nat.lt_one_iff.mp hj) hne

/-- With the piece `tail` of slot `k` put at the end, slot `j` is the piece `b` of the text, one further on
behind slot `k`. It is wrong there, and clean once moved in turn. -/
structure Exposed (scripts : Scripts) (text tail : List Char) (k j : Nat) (a b c : List Char) : Prop where
  text_eq : text = a ++ b ++ c
  before_units : units (isGsm7 text) a =
    j * partSize (isGsm7 text) + if k < j then units (isGsm7 text) text % partSize (isGsm7 text) else 0
  piece_units : units (isGsm7 text) b = units (isGsm7 text) text % partSize (isGsm7 text)
  wrong_after : suspicious scripts b (c ++ tail)
  wrong_before : j = 0 ∨ suspicious scripts a b
  clean_joined : ¬ suspicious scripts a (c ++ tail)
  clean_end : ¬ suspicious scripts tail b

/-- The one misplaced slot, if there is one, does not leave just one other slot exposed. -/
def Settled (scripts : Scripts) (text : List Char) : Prop :=
  ∀ k head tail rest, OnlySlot scripts text head tail rest → Slot text k head tail rest →
    ¬ ∃! j, j < units (isGsm7 text) text / partSize (isGsm7 text) ∧ j ≠ k ∧ ∃ a b c, Exposed scripts text tail k j a b c

section
variable {j k : Nat} {a b c : List Char}

private theorem Slot.moved_gsm7 (h : Slot text k head tail rest) : isGsm7 (head ++ rest ++ tail) = isGsm7 text := by
  rw [h.text_eq]
  simp only [isGsm7_append, Bool.and_assoc, Bool.and_comm (isGsm7 rest)]

private theorem Slot.moved_units (h : Slot text k head tail rest) (gsm : Bool) :
    units gsm (head ++ rest ++ tail) = units gsm text := by
  rw [h.text_eq]
  simp only [units_append]
  omega

/-- The short part fits into what follows its slot. -/
theorem Slot.rest_units (h : Slot text k head tail rest) (hj : j < units (isGsm7 text) text / partSize (isGsm7 text)) :
    j * partSize (isGsm7 text) + units (isGsm7 text) text % partSize (isGsm7 text) <
      units (isGsm7 text) head + units (isGsm7 text) rest := by
  have hsum := congrArg (units (isGsm7 text)) h.text_eq
  rw [units_append, units_append, h.tail_units] at hsum
  have hmod := Nat.mod_lt (units (isGsm7 text) text) (partSize_pos (isGsm7 text))
  have hdiv := Nat.div_add_mod' (units (isGsm7 text) text) (partSize (isGsm7 text))
  have hparts := Nat.mul_le_mul_right (partSize (isGsm7 text)) (Nat.succ_le_of_lt hj)
  rw [Nat.succ_mul] at hparts
  omega

/-- The decision about a slot of the moved text, whose end is the moved piece. -/
theorem misplaced_moved (hplain : scripts.Plain) (htail : tail ≠ []) (hb : b ≠ []) (hc : c ≠ []) :
    Misplaced scripts j a b (c ++ tail) ↔ suspicious scripts b (c ++ tail) ∧ (j = 0 ∨ suspicious scripts a b) ∧
      ¬ suspicious scripts a (c ++ tail) ∧ ¬ suspicious scripts tail b := by
  have hlength : 2 ≤ (c ++ tail).length := by
    have hc' := List.length_pos_iff.mpr hc
    have htail' := List.length_pos_iff.mpr htail
    rw [List.length_append]
    omega
  rw [misplaced_iff hplain hb hlength, suspicious_append_left htail]
  simp only [Bool.and_eq_true, Bool.or_eq_true, decide_eq_true_eq, Bool.not_eq_true', Bool.not_eq_true, and_assoc]

private theorem Slot.moved_iff (h : Slot text k head tail rest) : Slot (head ++ rest ++ tail) j a b c ↔
    head ++ rest ++ tail = a ++ b ++ c ∧ units (isGsm7 text) a = j * partSize (isGsm7 text) ∧
      units (isGsm7 text) b = units (isGsm7 text) text % partSize (isGsm7 text) := by
  constructor
  · rintro ⟨htext, ha, hb⟩
    rw [h.moved_gsm7] at ha hb
    rw [h.moved_units] at hb
    exact ⟨htext, ha, hb⟩
  · rintro ⟨htext, ha, hb⟩
    refine ⟨htext, ?_, ?_⟩
    · rw [h.moved_gsm7, ha]
    · rw [h.moved_gsm7, h.moved_units, hb]

/-- Ahead of the moved piece the slots are those of the text. -/
theorem exposed_before (hplain : scripts.Plain) (hshort : units (isGsm7 text) text % partSize (isGsm7 text) ≠ 0)
    (hslot : Slot text k head tail rest) (hseam : suspicious scripts head tail) (hj : j < k) :
    (∃ a b c, Slot (head ++ rest ++ tail) j a b c ∧ Misplaced scripts j a b c) ↔
      ∃ a b c, Exposed scripts text tail k j a b c := by
  have htail : tail ≠ [] := ne_nil_of_units (hslot.tail_units ▸ hshort)
  have hwithin : ∀ {a b : List Char}, units (isGsm7 text) a = j * partSize (isGsm7 text) →
      units (isGsm7 text) b = units (isGsm7 text) text % partSize (isGsm7 text) →
      units (isGsm7 text) (a ++ b) < units (isGsm7 text) head := by
    intro a b ha hb
    have hparts := Nat.mul_le_mul_right (partSize (isGsm7 text)) (Nat.succ_le_of_lt hj)
    have hmod := Nat.mod_lt (units (isGsm7 text) text) (partSize_pos (isGsm7 text))
    rw [Nat.succ_mul] at hparts
    rw [units_append, ha, hb, hslot.head_units]
    omega
  -- what follows a slot ahead begins inside the head, which does not end in a slash
  have hfollows : ∀ {a b x : List Char}, units (isGsm7 text) (a ++ b) < units (isGsm7 text) head → head = a ++ b ++ x →
      x ≠ [] ∧ ∀ y, suspicious scripts y (x ++ rest ++ tail) = suspicious scripts y (x ++ tail ++ rest ++ tail) := by
    rintro a b x hlt rfl
    have hx : x ≠ [] := by
      rintro rfl
      simp at hlt
    rw [suspicious_append_left hx] at hseam
    refine ⟨hx, fun y => ?_⟩
    simp only [List.append_assoc]
    rw [suspicious_append_plain hplain hx hseam, suspicious_append_plain hplain hx hseam]
  constructor
  · rintro ⟨a, b, c, hpiece, hmisplaced⟩
    obtain ⟨hcut, ha, hb⟩ := hslot.moved_iff.mp hpiece
    rw [List.append_assoc] at hcut
    have hlt := hwithin ha hb
    obtain ⟨x, hhead, rfl⟩ := cut_within hcut.symm hlt.le
    obtain ⟨hx, hsame⟩ := hfollows hlt hhead
    rw [← List.append_assoc, misplaced_moved hplain htail (ne_nil_of_units (hb ▸ hshort))
      (List.append_ne_nil_of_left_ne_nil hx rest), hsame, hsame] at hmisplaced
    obtain ⟨hafter, hbefore, hjoined, hend⟩ := hmisplaced
    refine ⟨a, b, x ++ tail ++ rest, ⟨?_, ?_, hb, hafter, hbefore, hjoined, hend⟩⟩
    · rw [hslot.text_eq, hhead]
      simp only [List.append_assoc]
    · rw [ha, if_neg (by omega), Nat.add_zero]
  · rintro ⟨a, b, c, hpiece⟩
    have ha := hpiece.before_units
    rw [if_neg (by omega), Nat.add_zero] at ha
    have hlt := hwithin ha hpiece.piece_units
    have hcut := hpiece.text_eq.symm.trans hslot.text_eq
    rw [List.append_assoc head] at hcut
    obtain ⟨x, hhead, rfl⟩ := cut_within hcut hlt.le
    obtain ⟨hx, hsame⟩ := hfollows hlt hhead
    refine ⟨a, b, x ++ rest ++ tail, hslot.moved_iff.mpr ⟨?_, ha, hpiece.piece_units⟩, ?_⟩
    · rw [hhead]
      simp only [List.append_assoc]
    · rw [misplaced_moved hplain htail (ne_nil_of_units (hpiece.piece_units ▸ hshort))
        (List.append_ne_nil_of_left_ne_nil hx rest), hsame, hsame, List.append_assoc x]
      exact ⟨hpiece.wrong_after, hpiece.wrong_before, hpiece.clean_joined, hpiece.clean_end⟩

/-- Behind the moved piece a slot is what follows it in the text. -/
theorem exposed_after (hplain : scripts.Plain) (hshort : units (isGsm7 text) text % partSize (isGsm7 text) ≠ 0)
    (hslot : Slot text k head tail rest) (hj : k < j) (hn : j < units (isGsm7 text) text / partSize (isGsm7 text)) :
    (∃ a b c, Slot (head ++ rest ++ tail) j a b c ∧ Misplaced scripts j a b c) ↔
      ∃ a b c, Exposed scripts text tail k j a b c := by
  have htail : tail ≠ [] := ne_nil_of_units (hslot.tail_units ▸ hshort)
  have hrest := hslot.rest_units hn
  have hhead : units (isGsm7 text) head < j * partSize (isGsm7 text) := by
    rw [hslot.head_units]
    exact Nat.mul_lt_mul_of_pos_right hj (partSize_pos _)
  constructor
  · rintro ⟨a, b, c, hpiece, hmisplaced⟩
    obtain ⟨hcut, ha, hb⟩ := hslot.moved_iff.mp hpiece
    have hle : units (isGsm7 text) (a ++ b) ≤ units (isGsm7 text) (head ++ rest) := by
      rw [units_append, units_append, ha, hb]
      omega
    obtain ⟨z, hfront, rfl⟩ := cut_within hcut.symm hle
    rw [List.append_assoc] at hfront
    obtain ⟨y, rfl, rfl⟩ := cut_within hfront (hhead.trans_eq ha.symm).le
    have hyz : y ≠ [] ∧ z ≠ [] := by
      simp only [units_append] at ha hhead hrest
      exact ⟨@ne_nil_of_units (isGsm7 text) _ (by omega), @ne_nil_of_units (isGsm7 text) _ (by omega)⟩
    rw [misplaced_moved hplain htail (ne_nil_of_units (hb ▸ hshort)) hyz.2] at hmisplaced
    simp only [suspicious_append_left hyz.1] at hmisplaced
    obtain ⟨hafter, hbefore, hjoined, hend⟩ := hmisplaced
    refine ⟨head ++ tail ++ y, b, z, ⟨?_, ?_, hb, hafter, ?_, ?_, hend⟩⟩
    · rw [hslot.text_eq]
      simp only [List.append_assoc]
    · rw [units_append, units_append, hslot.tail_units, if_pos hj, ← ha, units_append]
      omega
    · rwa [suspicious_append_left hyz.1]
    · rwa [suspicious_append_left hyz.1]
  · rintro ⟨a, b, z, hpiece⟩
    have ha := hpiece.before_units
    have hb := hpiece.piece_units
    rw [if_pos hj] at ha
    have hle : units (isGsm7 text) (head ++ tail) ≤ units (isGsm7 text) a := by
      rw [units_append, hslot.tail_units, ha]
      omega
    have hcut := hslot.text_eq.symm.trans hpiece.text_eq
    rw [List.append_assoc a] at hcut
    obtain ⟨y, rfl, rfl⟩ := cut_within hcut hle
    have hyz : y ≠ [] ∧ z ≠ [] := by
      simp only [units_append, hslot.tail_units] at ha hhead hrest
      exact ⟨@ne_nil_of_units (isGsm7 text) _ (by omega), @ne_nil_of_units (isGsm7 text) _ (by omega)⟩
    refine ⟨head ++ y, b, z ++ tail, hslot.moved_iff.mpr ⟨?_, ?_, hb⟩, ?_⟩
    · simp only [List.append_assoc]
    · simp only [units_append, hslot.tail_units] at ha ⊢
      omega
    · rw [misplaced_moved hplain htail (ne_nil_of_units (hb ▸ hshort)) hyz.2]
      have hbefore := hpiece.wrong_before
      have hjoined := hpiece.clean_joined
      rw [suspicious_append_left hyz.1] at hbefore hjoined ⊢
      rw [suspicious_append_left hyz.1]
      exact ⟨hpiece.wrong_after, hbefore, hjoined, hpiece.clean_end⟩

/-- What comes to the place of the moved piece is not misplaced: the piece was wrong before it. -/
theorem not_exposed_there (hplain : scripts.Plain) (hshort : units (isGsm7 text) text % partSize (isGsm7 text) ≠ 0)
    (hslot : Slot text k head tail rest) (hseam : suspicious scripts tail rest)
    (hn : k < units (isGsm7 text) text / partSize (isGsm7 text)) :
    ¬ ∃ a b c, Slot (head ++ rest ++ tail) k a b c ∧ Misplaced scripts k a b c := by
  rintro ⟨a, b, c, hpiece, hmisplaced⟩
  obtain ⟨hcut, ha, hb⟩ := hslot.moved_iff.mp hpiece
  have hrest := hslot.rest_units hn
  have htail : tail ≠ [] := ne_nil_of_units (hslot.tail_units ▸ hshort)
  rw [List.append_assoc, List.append_assoc] at hcut
  obtain ⟨rfl, hrear⟩ := cut_unique hcut (hslot.head_units.trans ha.symm)
  obtain ⟨z, rfl, rfl⟩ := cut_within hrear.symm (by omega : units (isGsm7 text) b ≤ units (isGsm7 text) rest)
  have hz : z ≠ [] := by
    rw [units_append] at hrest
    exact @ne_nil_of_units (isGsm7 text) _ (by omega)
  obtain ⟨hafter, -, -, hend⟩ := (misplaced_moved hplain htail (ne_nil_of_units (hb ▸ hshort)) hz).mp hmisplaced
  rw [suspicious_append_plain hplain (ne_nil_of_units (hb ▸ hshort)) hafter] at hseam
  exact hend hseam

/-- The moved text has a single misplaced slot again when one slot is exposed. -/
theorem OnlySlot.moved_iff (hplain : scripts.Plain) (h : OnlySlot scripts text head tail rest)
    (hslot : Slot text k head tail rest) : (∃ a b c, OnlySlot scripts (head ++ rest ++ tail) a b c) ↔
      ∃! j, j < units (isGsm7 text) text / partSize (isGsm7 text) ∧ j ≠ k ∧
        ∃ a b c, Exposed scripts text tail k j a b c := by
  obtain ⟨k', hk', hslot', hmisplaced, -⟩ := h.placed
  obtain rfl : k' = k :=
    Nat.eq_of_mul_eq_mul_right (partSize_pos (isGsm7 text)) (hslot'.head_units.symm.trans hslot.head_units)
  obtain ⟨htail, hrest⟩ := hslot.bounds h.short hk'
  have hdecision := (misplaced_iff hplain htail hrest).mp hmisplaced
  simp only [Bool.and_eq_true, Bool.or_eq_true, decide_eq_true_eq] at hdecision
  obtain ⟨⟨hafter, hbefore⟩, -⟩ := hdecision
  have hexposed : ∀ j < units (isGsm7 text) text / partSize (isGsm7 text),
      (∃ a b c, Slot (head ++ rest ++ tail) j a b c ∧ Misplaced scripts j a b c) ↔
        j ≠ k' ∧ ∃ a b c, Exposed scripts text tail k' j a b c := by
    intro j hj
    rcases Nat.lt_trichotomy j k' with hlt | rfl | hgt
    · rw [exposed_before hplain h.short hslot (hbefore.resolve_left (by omega)) hlt]
      exact (and_iff_right hlt.ne).symm
    · exact iff_of_false (not_exposed_there hplain h.short hslot hafter hj) fun hne => hne.1 rfl
    · rw [exposed_after hplain h.short hslot hgt hj]
      exact (and_iff_right hgt.ne').symm
  constructor
  · rintro ⟨a, b, c, honly⟩
    obtain ⟨j, hj, hpiece, hmoved, hother⟩ := honly.placed
    rw [hslot.moved_gsm7, hslot.moved_units] at hj hother
    refine ⟨j, ⟨hj, (hexposed j hj).mp ⟨a, b, c, hpiece, hmoved⟩⟩, ?_⟩
    rintro i ⟨hi, hout⟩
    by_contra hne
    obtain ⟨a', b', c', hpiece', hmoved'⟩ := (hexposed i hi).mpr hout
    exact hother i hi hne a' b' c' hpiece' hmoved'
  · rintro ⟨j, ⟨hj, hout⟩, hunique⟩
    obtain ⟨a, b, c, hpiece, hmoved⟩ := (hexposed j hj).mpr hout
    refine ⟨a, b, c, ⟨?_, j, ?_, hpiece, hmoved, ?_⟩⟩
    · rw [hslot.moved_gsm7, hslot.moved_units]
      exact h.short
    · rwa [hslot.moved_gsm7, hslot.moved_units]
    · intro i hi hne a' b' c' hpiece' hmoved'
      rw [hslot.moved_gsm7, hslot.moved_units] at hi
      exact hne (hunique i ⟨hi, (hexposed i hi).mp ⟨a', b', c', hpiece', hmoved'⟩⟩)

end

/-- A text does not stay the same when a misplaced slot is moved. -/
theorem OnlySlot.moves (hplain : scripts.Plain) (h : OnlySlot scripts text head tail rest) :
    head ++ rest ++ tail ≠ text := by
  obtain ⟨k, hk, hslot, hmisplaced, -⟩ := h.placed
  obtain ⟨htail, hrest⟩ := hslot.bounds h.short hk
  have hne : rest ≠ [] := List.ne_nil_of_length_pos (by omega)
  have hdecision := (misplaced_iff hplain htail hrest).mp hmisplaced
  simp only [Bool.and_eq_true, Bool.not_eq_true'] at hdecision
  obtain ⟨⟨hwrong, -⟩, -, hclean⟩ := hdecision
  intro hsame
  rw [hslot.text_eq, List.append_assoc, List.append_assoc, List.append_cancel_left_eq] at hsame
  -- the two orders end in the same character and begin with the same
  have hlast : tail.getLast? = rest.getLast? := by
    rw [← List.getLast?_append_of_ne_nil rest htail, hsame, List.getLast?_append_of_ne_nil tail hne]
  have hback : suspicious scripts rest tail := by
    match rest, tail, hrest, htail with
    | p :: q :: rest, [x], _, _ =>
      obtain rfl : p = x := (List.cons.inj hsame).1
      have hslash : p ≠ '/' := by
        rintro rfl
        simp [suspicious, hplain.cyrillic, hplain.latin, hplain.letter] at hwrong
      simpa [suspicious, ← hlast, hslash.symm] using hwrong
    | p :: q :: rest, x :: y :: tail, _, _ =>
      obtain ⟨rfl, hsame⟩ := List.cons.inj hsame
      obtain ⟨rfl, -⟩ := List.cons.inj hsame
      simpa [suspicious, ← hlast] using hwrong
  rw [hclean] at hback
  cases hback

theorem idempotent_iff_settled (hplain : scripts.Plain) (text : List Char) :
    repairGluedParts scripts (repairGluedParts scripts text) = repairGluedParts scripts text ↔
      Settled scripts text := by
  by_cases h : ∃ head tail rest, OnlySlot scripts text head tail rest
  · obtain ⟨head, tail, rest, honly⟩ := h
    rw [repair_of_only hplain honly]
    constructor
    · intro hsame k head' tail' rest' honly' hslot' hexposed
      obtain ⟨a, b, c, hagain⟩ := (honly'.moved_iff hplain hslot').mpr hexposed
      have hmoved : head' ++ rest' ++ tail' = head ++ rest ++ tail := by
        rw [← repair_of_only hplain honly, ← repair_of_only hplain honly']
      rw [hmoved] at hagain
      exact hagain.moves hplain ((repair_of_only hplain hagain).symm.trans hsame)
    · intro hsettled
      obtain ⟨k, -, hslot, -⟩ := honly.placed
      apply repair_of_none hplain
      intro a b c hagain
      exact hsettled k head tail rest honly hslot ((honly.moved_iff hplain hslot).mp ⟨a, b, c, hagain⟩)
  · push Not at h
    rw [repair_of_none hplain h, repair_of_none hplain h]
    exact iff_of_true rfl fun k head tail rest honly => absurd honly (h head tail rest)

/-- The end of a link came ahead of two full parts, and the second one is no slot to move then. -/
theorem link_settled : Settled Sample.ukrainian ('t' :: List.replicate 133 'я' ++ ['h']) :=
  (idempotent_iff_settled Sample.ukrainian_plain _).mp (by decide +kernel)

/-- After the first move another slot stands out, and the second pass takes a text in order apart. -/
theorem moved_again : ¬ ∀ scripts : Scripts, scripts.Plain → ∀ text,
    repairGluedParts scripts (repairGluedParts scripts text) = repairGluedParts scripts text := by
  intro h
  have hsame := h Sample.ukrainian Sample.ukrainian_plain
    (['я', 'я', 'я'] ++ ('a' :: List.replicate 65 'я' ++ ['a']) ++ ('я' :: 'я' :: 'я' :: 'a' :: List.replicate 63 'я'))
  revert hsame
  decide +kernel

end MessagingGateway.Sms
