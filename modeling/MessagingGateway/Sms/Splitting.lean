import MessagingGateway.Sms.Segments
import Mathlib.Algebra.BigOperators.Group.List.Basic

/-! How a message is split into segments, and when the arrived segments make it up again. The
encoding belongs to the message; the reassembly looks at one segment at a time. -/
namespace MessagingGateway.Sms

/-- Every character fits GSM-7. -/
def isGsm7 (text : List Char) : Bool := text.all fun c => decide (c ∈ gsm7Basic) || decide (c ∈ gsm7Ext)

/-- What a character costs in the encoding. -/
def cost (gsm : Bool) (c : Char) : Nat := if gsm then (if c ∈ gsm7Ext then 2 else 1) else codeUnits c

def partSize (gsm : Bool) : Nat := if gsm then gsm7PartSeptets else ucs2PartUnits

def units (gsm : Bool) (text : List Char) : Nat := (text.map (cost gsm)).sum

section
variable {gsm : Bool} {text : List Char}

theorem measure_eq (text : List Char) : measure text = (text.map (cost (isGsm7 text)), partSize (isGsm7 text)) := by
  unfold measure isGsm7
  split
  · rename_i h
    rw [h]
    rfl
  · rename_i h
    rw [Bool.not_eq_true] at h
    rw [h]
    rfl

@[simp] theorem units_nil : units gsm [] = 0 := rfl

@[simp] theorem units_cons (c : Char) (text : List Char) : units gsm (c :: text) = cost gsm c + units gsm text :=
  List.sum_cons

@[simp] theorem units_append (text text' : List Char) :
    units gsm (text ++ text') = units gsm text + units gsm text' := by
  simp [units]

theorem cost_pos (gsm : Bool) (c : Char) : 0 < cost gsm c := by
  unfold cost codeUnits
  split_ifs <;> omega

theorem units_pos (h : text ≠ []) : 0 < units gsm text := by
  obtain ⟨c, rest, rfl⟩ := List.exists_cons_of_ne_nil h
  have hcost := cost_pos gsm c
  rw [units_cons]
  omega

theorem partSize_pos (gsm : Bool) : 0 < partSize gsm := by
  cases gsm <;> decide

private theorem looksLikeIncompletePart_iff : looksLikeIncompletePart text ↔
    text ≠ [] ∧ units (isGsm7 text) text % partSize (isGsm7 text) = 0 := by
  unfold looksLikeIncompletePart
  rw [measure_eq]
  simp only [Bool.and_eq_true, decide_eq_true_eq]
  constructor
  · rintro ⟨⟨hne, -⟩, hmod⟩
    exact ⟨hne, hmod⟩
  · rintro ⟨hne, hmod⟩
    exact ⟨⟨hne, units_pos hne⟩, hmod⟩

private theorem gsm_codeUnits : ∀ c ∈ gsm7Basic ++ gsm7Ext, codeUnits c = 1 := by
  have hall : (gsm7Basic ++ gsm7Ext).all (codeUnits · == 1) := by decide +kernel
  exact fun c hc => eq_of_beq (List.all_eq_true.mp hall c hc)

/-- A GSM-7 text has as many code units as characters, and at most twice as many septets. -/
theorem gsm_units (h : isGsm7 text) : units false text = text.length ∧ text.length ≤ units true text ∧
    units true text ≤ 2 * text.length := by
  induction text with
  | nil => exact ⟨rfl, Nat.le_refl 0, Nat.le_refl 0⟩
  | cons c text ih =>
    rw [isGsm7, List.all_cons, Bool.and_eq_true] at h
    obtain ⟨hcode, hlow, hhigh⟩ := ih h.2
    have hc : cost false c = 1 := gsm_codeUnits c (List.mem_append.mpr (by simpa using h.1))
    have hseptets : cost true c = 1 ∨ cost true c = 2 := by
      simp only [cost, if_true]
      split_ifs
      · exact .inr rfl
      · exact .inl rfl
    simp only [units_cons, List.length_cons, hcode, hc]
    omega

end

/-- A message as its sender's network splits it: full segments and a shorter last one. -/
structure Split (message : List Char) where
  full : List (List Char)
  last : List Char
  joined : full.flatten ++ last = message
  full_ne : full ≠ []
  full_units : ∀ segment ∈ full, units (isGsm7 message) segment = partSize (isGsm7 message)
  last_ne : last ≠ []
  last_short : units (isGsm7 message) last < partSize (isGsm7 message)

namespace Split
variable {message : List Char} (split : Split message)

/-- The order of arrival: the last segment comes after the first `i` full ones. -/
def arrived (i : Nat) : List (List Char) := split.full.take i ++ split.last :: split.full.drop i

/-- Whatever carries the segments, they are put together to the message and none is left over. -/
def Reassembles : Prop :=
  ∀ (α : Type) (text : α → List Char) (parts : List α) (i : Nat), parts.map text = split.arrived i →
  ((assembleParts text parts).1.map text).flatten = message ∧ (assembleParts text parts).2 = []

/-- Each full segment needs the encoding of the message. -/
def Telling : Prop := isGsm7 message ∨ ∀ segment ∈ split.full, isGsm7 segment = false

variable {split}

private theorem isGsm7_of_mem {segment : List Char} (hmem : segment ∈ split.last :: split.full) (h : isGsm7 message) :
    isGsm7 segment := by
  have hsub : segment ⊆ message := by
    intro c hc
    rw [← split.joined, List.mem_append]
    rcases List.mem_cons.mp hmem with rfl | hmem
    · exact .inr hc
    · exact .inl (List.mem_flatten.mpr ⟨segment, hmem, hc⟩)
  rw [isGsm7, List.all_eq_true] at h ⊢
  exact fun c hc => h c (hsub hc)

private theorem full_segment_ne {segment : List Char} (hmem : segment ∈ split.full) : segment ≠ [] := by
  rintro rfl
  have hunits := split.full_units [] hmem
  have hpos := partSize_pos (isGsm7 message)
  rw [units_nil] at hunits
  omega

/-- A full segment is recognised by itself if it tells the encoding of the message. -/
theorem full_incomplete {segment : List Char} (hmem : segment ∈ split.full) :
    looksLikeIncompletePart segment ↔ isGsm7 message ∨ isGsm7 segment = false := by
  have hunits := split.full_units segment hmem
  rw [looksLikeIncompletePart_iff]
  cases hmessage : isGsm7 message with
  | true =>
    rw [hmessage] at hunits
    rw [isGsm7_of_mem (List.mem_cons_of_mem _ hmem) hmessage, hunits, Nat.mod_self]
    simp [full_segment_ne hmem]
  | false =>
    rw [hmessage] at hunits
    cases hsegment : isGsm7 segment with
    | false =>
      rw [hunits, Nat.mod_self]
      simp [full_segment_ne hmem]
    | true =>
      obtain ⟨hcode, hlow, hhigh⟩ := gsm_units hsegment
      have hlength : segment.length = 67 := hcode.symm.trans hunits
      have hmod : units true segment % partSize true = units true segment :=
        Nat.mod_eq_of_lt (by rw [partSize, if_pos rfl, gsm7PartSeptets]; omega)
      rw [hmod]
      simp
      omega

/-- The last segment never looks incomplete. -/
theorem last_complete : looksLikeIncompletePart split.last = false := by
  rw [Bool.eq_false_iff, Ne, looksLikeIncompletePart_iff]
  rintro ⟨-, hmod⟩
  have hpos : 0 < units (isGsm7 split.last) split.last := units_pos split.last_ne
  have hshort : units (isGsm7 split.last) split.last < partSize (isGsm7 split.last) := by
    have hlast := split.last_short
    cases hmessage : isGsm7 message with
    | true =>
      rw [isGsm7_of_mem List.mem_cons_self hmessage]
      rwa [hmessage] at hlast
    | false =>
      rw [hmessage] at hlast
      cases hsegment : isGsm7 split.last with
      | false => exact hlast
      | true =>
        obtain ⟨hcode, -, hhigh⟩ := gsm_units hsegment
        have hlength : split.last.length < 67 := by
          rw [← hcode]
          exact hlast
        rw [partSize, if_pos rfl, gsm7PartSeptets]
        omega
  rw [Nat.mod_eq_of_lt hshort] at hmod
  omega

/-- The segments are put together to the message exactly when each full one tells its encoding. -/
theorem reassembles_iff_telling (split : Split message) : split.Reassembles ↔ split.Telling := by
  constructor
  · intro h
    rw [Telling, or_iff_not_imp_left]
    intro hmessage segment hmem
    by_contra hgsm
    -- the segment counts as short, and so does the last one
    obtain ⟨-, hnone⟩ := h (List Char) id (split.full ++ [split.last]) split.full.length (by simp [arrived])
    have hshort : looksLikeIncompletePart segment = false := by
      rw [Bool.eq_false_iff, Ne, full_incomplete hmem]
      exact not_or.mpr ⟨hmessage, hgsm⟩
    rw [assembleParts, List.drop_eq_nil_iff, List.filter_append, List.length_append] at hnone
    have hfull : 0 < (split.full.filter fun p => !looksLikeIncompletePart (id p)).length :=
      List.length_pos_of_mem (List.mem_filter.mpr ⟨hmem, by simp [hshort]⟩)
    simp only [id_eq, List.filter_cons, last_complete, Bool.not_false, if_true, List.filter_nil,
      List.length_singleton] at hnone hfull
    omega
  · intro htelling α text parts i harrived
    have hfull : ∀ segment ∈ split.full, looksLikeIncompletePart segment := fun segment hmem =>
      (full_incomplete hmem).mpr (htelling.imp_right fun h => h segment hmem)
    have hkept : ∀ segments : List (List Char), segments ⊆ split.full →
        segments.filter looksLikeIncompletePart = segments ∧ segments.filter (fun p => !looksLikeIncompletePart p) =
          [] := by
      intro segments hsub
      constructor
      · exact List.filter_eq_self.mpr fun segment hmem => hfull segment (hsub hmem)
      · rw [List.filter_eq_nil_iff]
        intro segment hmem
        simp [hfull segment (hsub hmem)]
    have htake := hkept (split.full.take i) (List.take_subset i split.full)
    have hdrop := hkept (split.full.drop i) (List.drop_subset i split.full)
    have hincomplete : (parts.filter fun p => looksLikeIncompletePart (text p)).map text = split.full := by
      calc (parts.filter fun p => looksLikeIncompletePart (text p)).map text
          = (parts.map text).filter looksLikeIncompletePart := by rw [List.filter_map]; rfl
        _ = split.full.take i ++ split.full.drop i := by
          rw [harrived, arrived, List.filter_append, List.filter_cons, last_complete, htake.1, hdrop.1]
          rfl
        _ = split.full := List.take_append_drop i split.full
    have hshort : (parts.filter fun p => !looksLikeIncompletePart (text p)).map text = [split.last] := by
      calc (parts.filter fun p => !looksLikeIncompletePart (text p)).map text
          = (parts.map text).filter fun segment => !looksLikeIncompletePart segment := by rw [List.filter_map]; rfl
        _ = [split.last] := by
          rw [harrived, arrived, List.filter_append, List.filter_cons, last_complete, htake.2, hdrop.2]
          rfl
    obtain ⟨p, hp⟩ : ∃ p, parts.filter (fun p => !looksLikeIncompletePart (text p)) = [p] := by
      rw [← List.length_eq_one_iff, ← List.length_map (f := text), hshort, List.length_singleton]
    rw [hp] at hshort
    rw [assembleParts, hp, List.take_one, List.head?_cons, Option.toList_some, List.map_append, hincomplete, hshort]
    refine ⟨?_, rfl⟩
    rw [List.flatten_append, List.flatten_singleton, split.joined]

end Split

namespace Sample

/-- A Cyrillic message whose first segment happens to be Latin. -/
def mixed : Split (List.replicate 67 'a' ++ ['я']) where
  full := [List.replicate 67 'a']
  last := ['я']
  joined := by rw [List.flatten_singleton]
  full_ne := nofun
  full_units := by decide +kernel
  last_ne := nofun
  last_short := by decide +kernel

end Sample

/-- The Latin segment is taken for a short text of its own, and the end of the message for a leftover. -/
theorem latin_segment_left_over : ¬ ∀ (message : List Char) (split : Split message), split.Reassembles := by
  intro h
  obtain ⟨-, hleft⟩ := h _ Sample.mixed (List Char) id (Sample.mixed.arrived 1) 1 (List.map_id _)
  revert hleft
  decide +kernel

end MessagingGateway.Sms
