import MessagingGateway.Js.Text
import Mathlib.Data.List.DropRight

/-! Lists of texts joined into one text, and taken apart again with their ends trimmed. -/
namespace MessagingGateway.Js

/-- `text.split(sep).map((s) => s.trim()).filter(Boolean)`. -/
def pieces (sep : Char) (text : List Char) : List (List Char) := ((text.splitOn sep).map trim).filter (· ≠ [])

/-- An entry that is a piece of its own. -/
structure Tidy (sep : Char) (item : List Char) : Prop where
  unsplit : sep ∉ item
  trimmed : trim item = item
  nonempty : item ≠ []

section
variable {sep : Char} {pad text item : List Char} {items : List (List Char)}

private theorem trim_trim (text : List Char) : trim (trim text) = trim text := by
  have hlast : ∀ c, (trim text).getLast? = some c → isSpace c = false := by
    intro c hc
    have hne : trim text ≠ [] := by
      intro hnil
      rw [hnil] at hc
      exact absurd hc (by simp)
    have hend := List.rdropWhile_last_not isSpace (text.dropWhile isSpace) hne
    rw [List.getLast?_eq_getLast_of_ne_nil hne] at hc
    rw [← Option.some.inj hc]
    exact Bool.eq_false_iff.mpr hend
  have hfirst : ∀ c, (trim text).head? = some c → isSpace c = false := by
    intro c hc
    obtain ⟨rest, hrest⟩ := List.rdropWhile_prefix isSpace (text.dropWhile isSpace)
    have hhead : (text.dropWhile isSpace).head? = some c := by
      rw [← hrest, List.head?_append, show (List.rdropWhile isSpace (text.dropWhile isSpace)).head? = some c from hc]
      rfl
    have hnot := List.head?_dropWhile_not isSpace text
    rw [hhead] at hnot
    exact hnot
  exact trim_eq_self_of_ends hfirst hlast

private theorem trim_append (hpad : ∀ c ∈ pad, isSpace c) (text : List Char) : trim (pad ++ text) = trim text := by
  rw [trim, List.dropWhile_append_of_pos hpad]
  rfl

private theorem sep_not_mem_of_mem_splitOn (h : item ∈ text.splitOn sep) : sep ∉ item := by
  induction text generalizing item with
  | nil =>
    obtain rfl := List.mem_singleton.mp h
    exact List.not_mem_nil
  | cons c text ih =>
    rw [List.splitOn_cons_eq_if_modifyHead] at h
    split at h
    · rcases List.mem_cons.mp h with rfl | h
      · exact List.not_mem_nil
      · exact ih h
    · rename_i hne
      cases hsplit : text.splitOn sep with
      | nil => exact absurd hsplit (List.splitOn_ne_nil sep text)
      | cons first rest =>
        rw [hsplit] at h ih
        rcases List.mem_cons.mp h with rfl | h
        · rw [List.mem_cons, not_or]
          exact ⟨fun hsep => hne (by simp [hsep]), ih List.mem_cons_self⟩
        · exact ih (List.mem_cons_of_mem first h)

private theorem tidy_of_mem_pieces (h : item ∈ pieces sep text) : Tidy sep item := by
  obtain ⟨hmem, hne⟩ := List.mem_filter.mp h
  obtain ⟨piece, hpiece, rfl⟩ := List.mem_map.mp hmem
  exact ⟨fun hsep => sep_not_mem_of_mem_splitOn hpiece (trim_subset hsep), trim_trim piece, by simpa using hne⟩

private theorem intercalate_pad (first : List Char) (items : List (List Char)) :
    (sep :: pad).intercalate (first :: items) = [sep].intercalate (first :: items.map (pad ++ ·)) := by
  induction items generalizing first with
  | nil => rfl
  | cons item items ih =>
    rw [List.map_cons, List.intercalate_cons_cons, List.intercalate_cons_cons, ih]
    cases items with
    | nil => simp
    | cons next items => simp [List.intercalate_cons_cons]

/-- Joining and taking apart gives the entries back exactly if each is tidy. -/
theorem pieces_join_iff (hpad : ∀ c ∈ pad, isSpace c) (hsep : sep ∉ pad) (items : List (List Char)) :
    pieces sep ((sep :: pad).intercalate items) = items ↔ ∀ item ∈ items, Tidy sep item := by
  constructor
  · intro h item hitem
    rw [← h] at hitem
    exact tidy_of_mem_pieces hitem
  · intro h
    cases items with
    | nil => rfl
    | cons first items =>
      have hsplit : ((sep :: pad).intercalate (first :: items)).splitOn sep = first :: items.map (pad ++ ·) := by
        rw [intercalate_pad]
        apply List.splitOn_intercalate
        · intro item hitem
          rcases List.mem_cons.mp hitem with rfl | hitem
          · exact (h item List.mem_cons_self).unsplit
          · obtain ⟨rest, hrest, rfl⟩ := List.mem_map.mp hitem
            rw [List.mem_append, not_or]
            exact ⟨hsep, (h rest (List.mem_cons_of_mem first hrest)).unsplit⟩
        · exact List.cons_ne_nil _ _
      have htrim : (first :: items.map (pad ++ ·)).map trim = first :: items := by
        rw [List.map_cons, List.map_map, (h first List.mem_cons_self).trimmed]
        congr 1
        conv_rhs => rw [← List.map_id items]
        apply List.map_congr_left
        intro item hitem
        rw [Function.comp_apply, trim_append hpad, (h item (List.mem_cons_of_mem first hitem)).trimmed]
        rfl
      rw [pieces, hsplit, htrim, List.filter_eq_self]
      intro item hitem
      simpa using (h item hitem).nonempty

end
end MessagingGateway.Js
