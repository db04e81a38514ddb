import Mathlib.Data.List.Basic

/-! `String.prototype.trim` and `Number` on the characters of a text. -/
namespace MessagingGateway.Js

/-- White space and line terminators as `String.prototype.trim` sees them. -/
def isSpace (c : Char) : Bool :=
  (9 ≤ c.toNat && c.toNat ≤ 13) || (0x2000 ≤ c.toNat && c.toNat ≤ 0x200a) ||
    c.toNat ∈ [0x20, 0xa0, 0x1680, 0x2028, 0x2029, 0x202f, 0x205f, 0x3000, 0xfeff]

def trim (text : List Char) : List Char :=
  ((text.dropWhile isSpace).reverse.dropWhile isSpace).reverse

/-- `Number` of a run of digits. -/
def number (digits : List Char) : Nat := digits.foldl (fun n c => 10 * n + (c.toNat - 48)) 0

section
variable {text : List Char} {p : Char → Bool}

private theorem filter_dropWhile (h : ∀ c ∈ text, isSpace c → p c = false) :
    (text.dropWhile isSpace).filter p = text.filter p := by
  induction text with
  | nil => rfl
  | cons c text ih =>
    rw [List.dropWhile_cons]
    split
    · rename_i hspace
      rw [ih fun d hd => h d (List.mem_cons_of_mem c hd), List.filter_cons, h c List.mem_cons_self hspace]
      simp
    · rfl

/-- What is not white space survives the trimming. -/
theorem filter_trim (h : ∀ c ∈ text, isSpace c → p c = false) : (trim text).filter p = text.filter p := by
  rw [trim, List.filter_reverse, filter_dropWhile, List.filter_reverse, List.reverse_reverse, filter_dropWhile h]
  intro c hc
  exact h c ((List.dropWhile_suffix isSpace).subset (List.mem_reverse.mp hc))

theorem trim_subset : trim text ⊆ text := by
  intro c hc
  have hmem := (List.dropWhile_suffix isSpace).subset (List.mem_reverse.mp hc)
  exact (List.dropWhile_suffix isSpace).subset (List.mem_reverse.mp hmem)

theorem isSpace_digit {c : Char} (h : c.isDigit) : isSpace c = false := by
  have hbounds : 48 ≤ c.toNat ∧ c.toNat ≤ 57 := by
    simpa [Char.isDigit, UInt32.le_iff_toNat_le] using h
  unfold isSpace
  simp
  omega

private theorem dropWhile_head (h : ∀ c, text.head? = some c → isSpace c = false) :
    text.dropWhile isSpace = text := by
  cases text with
  | nil => rfl
  | cons c text => rw [List.dropWhile_cons, h c rfl, if_neg Bool.false_ne_true]

/-- Only the ends of a text matter. -/
theorem trim_eq_self_of_ends (hfirst : ∀ c, text.head? = some c → isSpace c = false)
    (hlast : ∀ c, text.getLast? = some c → isSpace c = false) : trim text = text := by
  rw [trim, dropWhile_head hfirst, dropWhile_head, List.reverse_reverse]
  intro c hc
  exact hlast c (List.head?_reverse ▸ hc)

theorem trim_eq_self (h : ∀ c ∈ text, isSpace c = false) : trim text = text := by
  apply trim_eq_self_of_ends
  · intro c hc
    exact h c (List.mem_of_mem_head? hc)
  · intro c hc
    exact h c (List.mem_of_mem_getLast? hc)

end
end MessagingGateway.Js
