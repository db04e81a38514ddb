import Mathlib.Data.List.Basic
import Mathlib.Data.List.Nodup

/-! Rows with primary and foreign keys, and what a deletion does to them.
A transaction is the list of the keys it has deleted and not yet committed. -/
namespace MessagingGateway.Relational

inductive OnDelete where
  | restrict | cascade | setNull
  deriving DecidableEq

/-- How the rows of a schema name themselves and each other.
`clear` forgets the `setNull` references to the given keys, and no other reference. -/
structure Schema (ρ κ : Type*) [DecidableEq κ] where
  key : ρ → κ
  refs : ρ → List (κ × OnDelete)
  clear : (κ → Bool) → ρ → ρ
  key_clear : ∀ gone r, key (clear gone r) = key r
  refs_clear : ∀ gone r, refs (clear gone r) = (refs r).filter fun x => ¬ (x.2 = .setNull ∧ gone x.1)

namespace Schema
variable {ρ κ : Type*} [DecidableEq κ] (S : Schema ρ κ)

/-- Every reference finds its row. -/
def Integral (db : List ρ) : Prop := ∀ r ∈ db, ∀ x ∈ S.refs r, ∃ p ∈ db, S.key p = x.1

/-- Primary keys are unique. -/
def Keyed (db : List ρ) : Prop := ∀ r ∈ db, ∀ q ∈ db, S.key r = S.key q → r = q

/-- Nothing that stays refers to a deleted row by more than a `setNull` reference. -/
def Closed (db : List ρ) (ks : List κ) : Prop :=
  ∀ r ∈ db, S.key r ∉ ks → ∀ x ∈ S.refs r, x.2 ≠ .setNull → x.1 ∉ ks

instance (db : List ρ) (ks : List κ) : Decidable (S.Closed db ks) :=
  inferInstanceAs (Decidable (∀ r ∈ db, S.key r ∉ ks → ∀ x ∈ S.refs r, x.2 ≠ .setNull → x.1 ∉ ks))

/-- The rows as they are once the given keys are gone. -/
def without (ks : List κ) (db : List ρ) : List ρ := (db.filter (S.key · ∉ ks)).map (S.clear (· ∈ ks))

/-- The given keys and those of the rows that refer to them by `cascade`. -/
def cascade (db : List ρ) (ks : List κ) : List κ :=
  ks ++ (db.filter fun r => (S.refs r).any fun x => x.2 = .cascade ∧ x.1 ∈ ks).map S.key

/-- The given keys and those of the rows that refer to them in any way. -/
def affected (db : List ρ) (ks : List κ) : List κ :=
  ks ++ (db.filter fun r => (S.refs r).any (·.1 ∈ ks)).map S.key

/-- The row lies below the key: it is the key's, or refers to a row below it by a
reference that a deletion does not clear. -/
inductive Below (db : List ρ) (k : κ) : ρ → Prop
  | self {r : ρ} : r ∈ db → S.key r = k → Below db k r
  | child {r p : ρ} {x : κ × OnDelete} : r ∈ db → x ∈ S.refs r → x.2 ≠ .setNull → Below db k p → S.key p = x.1 →
      Below db k r

/-- The rows once the key and all that lies below it are gone. -/
noncomputable def erase (k : κ) (db : List ρ) : List ρ :=
  open Classical in (db.filter fun r => ¬ Below S db k r).map (S.clear fun l => ∃ r, Below S db k r ∧ S.key r = l)

variable {S} {db : List ρ} {ks ls : List κ} {k : κ} {r q : ρ}

theorem mem_without : q ∈ S.without ks db ↔ ∃ r ∈ db, S.key r ∉ ks ∧ S.clear (· ∈ ks) r = q := by
  simp only [without, List.mem_map, List.mem_filter, decide_eq_true_eq, and_assoc]

theorem clear_mem_without (hr : r ∈ db) (hk : S.key r ∉ ks) : S.clear (· ∈ ks) r ∈ S.without ks db :=
  mem_without.mpr ⟨r, hr, hk, rfl⟩

/-- A key survives with its row. -/
theorem key_mem_without : (∃ q ∈ S.without ks db, S.key q = k) ↔ k ∉ ks ∧ ∃ r ∈ db, S.key r = k := by
  constructor
  · intro ⟨q, hq, hk⟩
    obtain ⟨r, hr, hkey, rfl⟩ := mem_without.mp hq
    rw [S.key_clear] at hk
    exact ⟨hk ▸ hkey, r, hr, hk⟩
  · intro ⟨hk, r, hr, hkey⟩
    exact ⟨S.clear (· ∈ ks) r, clear_mem_without hr (hkey ▸ hk), (S.key_clear _ r).trans hkey⟩

theorem mem_refs_clear {x : κ × OnDelete} :
    x ∈ S.refs (S.clear (· ∈ ks) r) ↔ x ∈ S.refs r ∧ ¬ (x.2 = .setNull ∧ x.1 ∈ ks) := by
  rw [S.refs_clear]
  simp only [List.mem_filter, decide_eq_true_eq]

theorem keyed_without (h : S.Keyed db) : S.Keyed (S.without ks db) := by
  intro q hq q' hq' hkey
  obtain ⟨r, hr, _, rfl⟩ := mem_without.mp hq
  obtain ⟨r', hr', _, rfl⟩ := mem_without.mp hq'
  rw [S.key_clear, S.key_clear] at hkey
  rw [h r hr r' hr' hkey]

/-- A closed deletion leaves no dangling reference. -/
theorem integral_without (h : S.Integral db) (hclosed : S.Closed db ks) : S.Integral (S.without ks db) := by
  intro q hq x hx
  obtain ⟨r, hr, hkey, rfl⟩ := mem_without.mp hq
  obtain ⟨hx, hset⟩ := mem_refs_clear.mp hx
  refine key_mem_without.mpr ⟨?_, h r hr x hx⟩
  intro hmem
  by_cases hnull : x.2 = .setNull
  · exact hset ⟨hnull, hmem⟩
  · exact hclosed r hr hkey x hx hnull hmem

/-- What a surviving row still refers to is not among the deleted keys. -/
theorem ref_not_mem (h : S.Integral (S.without ks db)) (hr : r ∈ db) (hkey : S.key r ∉ ks) {x : κ × OnDelete}
    (hx : x ∈ S.refs r) (hnull : x.2 ≠ .setNull) : x.1 ∉ ks := by
  have hx' : x ∈ S.refs (S.clear (· ∈ ks) r) := mem_refs_clear.mpr ⟨hx, fun h => hnull h.1⟩
  exact (key_mem_without.mp (h _ (clear_mem_without hr hkey) x hx')).1

/-- A statement that is closed in the view of its transaction leaves the view sound. -/
theorem integral_append (h : S.Integral (S.without ls db)) (hclosed : S.Closed (S.without ls db) ks) :
    S.Integral (S.without (ks ++ ls) db) := by
  intro q hq x hx
  obtain ⟨r, hr, hkey, rfl⟩ := mem_without.mp hq
  obtain ⟨hx, hset⟩ := mem_refs_clear.mp hx
  rw [List.mem_append, not_or] at hkey
  have hview : x ∈ S.refs (S.clear (· ∈ ls) r) :=
    mem_refs_clear.mpr ⟨hx, fun hnull => hset ⟨hnull.1, List.mem_append_right ks hnull.2⟩⟩
  obtain ⟨hls, hp⟩ := key_mem_without.mp (h _ (clear_mem_without hr hkey.2) x hview)
  refine key_mem_without.mpr ⟨?_, hp⟩
  intro hmem
  rcases List.mem_append.mp hmem with hks | hmem
  · by_cases hnull : x.2 = .setNull
    · exact hset ⟨hnull, List.mem_append_left ls hks⟩
    · refine hclosed _ (clear_mem_without hr hkey.2) ?_ x hview hnull hks
      rw [S.key_clear]
      exact hkey.1
  · exact hls hmem

/-- Two transactions that each leave a sound view leave one together. -/
theorem integral_both (h : S.Integral (S.without ks db)) (h' : S.Integral (S.without ls db)) :
    S.Integral (S.without ls (S.without ks db)) := by
  apply integral_without h
  intro q hq hkey x hx hnull
  obtain ⟨r, hr, _, rfl⟩ := mem_without.mp hq
  rw [S.key_clear] at hkey
  exact ref_not_mem h' hr hkey (mem_refs_clear.mp hx).1 hnull

theorem closed_nil : S.Closed db [] := by
  intro r _ _ x _ _ hmem
  exact List.not_mem_nil hmem

theorem integral_cons (h : S.Integral db) (hr : ∀ x ∈ S.refs r, ∃ p ∈ db, S.key p = x.1) : S.Integral (r :: db) := by
  have hlift : ∀ k, (∃ p ∈ db, S.key p = k) → ∃ p ∈ r :: db, S.key p = k :=
    fun k ⟨p, hp, hk⟩ => ⟨p, List.mem_cons_of_mem r hp, hk⟩
  intro q hq x hx
  rcases List.mem_cons.mp hq with rfl | hq
  · exact hlift _ (hr x hx)
  · exact hlift _ (h q hq x hx)

theorem keyed_cons (h : S.Keyed db) (hfresh : ∀ q ∈ db, S.key q ≠ S.key r) : S.Keyed (r :: db) := by
  intro a ha b hb hkey
  rcases List.mem_cons.mp ha with rfl | ha' <;> rcases List.mem_cons.mp hb with rfl | hb'
  · rfl
  · exact absurd hkey.symm (hfresh b hb')
  · exact absurd hkey (hfresh a ha')
  · exact h a ha' b hb' hkey

/-- A new row that names only surviving rows keeps the transaction's view sound. -/
theorem integral_without_cons (h : S.Integral (S.without ks db)) (hkey : S.key r ∉ ks)
    (hr : ∀ x ∈ S.refs r, x.1 ∉ ks ∧ ∃ p ∈ db, S.key p = x.1) : S.Integral (S.without ks (r :: db)) := by
  have hcons : S.without ks (r :: db) = S.clear (· ∈ ks) r :: S.without ks db := by simp [without, hkey]
  rw [hcons]
  exact integral_cons h fun x hx => key_mem_without.mpr (hr x (mem_refs_clear.mp hx).1)

theorem Below.mem (h : S.Below db k r) : r ∈ db := by
  cases h with
  | self hr => exact hr
  | child hr => exact hr

/-- A revision keeps every key, and gives a row only references to rows that are there. -/
structure Revises (f : ρ → ρ) (db : List ρ) (locked : List κ) : Prop where
  key : ∀ r ∈ db, S.key (f r) = S.key r
  added : ∀ r ∈ db, ∀ x ∈ S.refs (f r), x ∈ S.refs r ∨ x.1 ∉ locked ∧ ∃ p ∈ db, S.key p = x.1
  kept : ∀ r ∈ db, S.refs r ⊆ S.refs (f r) ∨ S.key r ∉ locked ∧ ∀ q ∈ db, ∀ x ∈ S.refs q, x.1 ≠ S.key r

section Revises
variable {f : ρ → ρ} {locked : List κ}

theorem Revises.keyed (hf : S.Revises f db locked) (h : S.Keyed db) : S.Keyed (db.map f) := by
  intro a ha b hb hkey
  obtain ⟨r, hr, rfl⟩ := List.mem_map.mp ha
  obtain ⟨q, hq, rfl⟩ := List.mem_map.mp hb
  rw [hf.key r hr, hf.key q hq] at hkey
  rw [h r hr q hq hkey]

private theorem Revises.key_mem (hf : S.Revises f db locked) (hk : ∃ p ∈ db, S.key p = k) :
    ∃ p ∈ db.map f, S.key p = k := by
  obtain ⟨p, hp, rfl⟩ := hk
  exact ⟨f p, List.mem_map_of_mem hp, hf.key p hp⟩

theorem Revises.integral (hf : S.Revises f db locked) (h : S.Integral db) : S.Integral (db.map f) := by
  intro a ha x hx
  obtain ⟨r, hr, rfl⟩ := List.mem_map.mp ha
  rcases hf.added r hr x hx with hold | ⟨_, hnew⟩
  · exact hf.key_mem (h r hr x hold)
  · exact hf.key_mem hnew

/-- A revision that respects the locks keeps the view of every transaction sound. -/
theorem Revises.integral_without (hf : S.Revises f db locked) (hlocked : ks ⊆ locked)
    (h : S.Integral (S.without ks db)) :
    S.Integral (S.without ks (db.map f)) := by
  intro a ha x hx
  obtain ⟨_, hmap, hkey, rfl⟩ := mem_without.mp ha
  obtain ⟨r, hr, rfl⟩ := List.mem_map.mp hmap
  rw [hf.key r hr] at hkey
  obtain ⟨hx, hset⟩ := mem_refs_clear.mp hx
  refine key_mem_without.mpr ?_
  rcases hf.added r hr x hx with hold | ⟨hfree, hnew⟩
  · obtain ⟨hfree, hp⟩ := key_mem_without.mp (h _ (clear_mem_without hr hkey) x (mem_refs_clear.mpr ⟨hold, hset⟩))
    exact ⟨hfree, hf.key_mem hp⟩
  · exact ⟨fun hmem => hfree (hlocked hmem), hf.key_mem hnew⟩

/-- Locked rows, and rows that others refer to, stay where they are. -/
theorem Revises.below (hf : S.Revises f db locked) (h : S.Below db k r) (hr : S.refs r ⊆ S.refs (f r)) :
    S.Below (db.map f) k (f r) := by
  induction h with
  | self hmem hk => exact .self (List.mem_map_of_mem hmem) ((hf.key _ hmem).trans hk)
  | child hmem hx hnull hp hpk ih =>
    refine .child (List.mem_map_of_mem hmem) (hr hx) hnull (ih ?_) ((hf.key _ hp.mem).trans hpk)
    rcases hf.kept _ hp.mem with hkept | ⟨_, hleaf⟩
    · exact hkept
    · exact absurd hpk.symm (hleaf _ hmem _ hx)

end Revises

theorem Below.mono {db' : List ρ} (h : S.Below db k r) (hsub : db ⊆ db') : S.Below db' k r := by
  induction h with
  | self hr hk => exact .self (hsub hr) hk
  | child hr hx hnull _ hp ih => exact .child (hsub hr) hx hnull ih hp

/-- A row lies below `k` as soon as every row that one of its references names does. -/
theorem Integral.below (h : S.Integral db) (hr : r ∈ db) {x : κ × OnDelete} (hx : x ∈ S.refs r) (hnull : x.2 ≠ .setNull)
    (hp : ∀ p ∈ db, S.key p = x.1 → S.Below db k p) : S.Below db k r := by
  obtain ⟨p, hmem, hkey⟩ := h r hr x hx
  exact .child hr hx hnull (hp p hmem hkey) hkey

/-- Rows that survive another deletion stay below whatever they were below. -/
theorem Below.without (h : S.Below db k r) (hint : S.Integral (S.without ls db)) (hkey : S.key r ∉ ls) :
    S.Below (S.without ls db) k (S.clear (· ∈ ls) r) := by
  induction h with
  | self hr hk => exact .self (clear_mem_without hr hkey) ((S.key_clear _ _).trans hk)
  | child hr hx hnull _ hp ih =>
    have hpk := ref_not_mem hint hr hkey hx hnull
    rw [← hp] at hpk
    exact .child (clear_mem_without hr hkey) (mem_refs_clear.mpr ⟨hx, fun h => hnull h.1⟩) hnull (ih hpk)
      ((S.key_clear _ _).trans hp)

/-- Every deleted key belongs to a row below `k`. -/
def Within (db : List ρ) (k : κ) (ks : List κ) : Prop := ∀ l ∈ ks, ∃ r, S.Below db k r ∧ S.key r = l

section Within
variable {locked : List κ} {f : ρ → ρ}

theorem Within.mono {db' : List ρ} (h : S.Within db k ks) (hsub : db ⊆ db') : S.Within db' k ks := by
  intro l hl
  obtain ⟨r, hr, hkey⟩ := h l hl
  exact ⟨r, hr.mono hsub, hkey⟩

theorem Within.without (h : S.Within db k ks) (hint : S.Integral (S.without ls db)) (hdisj : ks.Disjoint ls) :
    S.Within (S.without ls db) k ks := by
  intro l hl
  obtain ⟨r, hr, rfl⟩ := h l hl
  exact ⟨S.clear (· ∈ ls) r, hr.without hint (hdisj hl), S.key_clear _ r⟩

theorem Within.revise (hf : S.Revises f db locked) (hlocked : ks ⊆ locked) (h : S.Within db k ks) :
    S.Within (db.map f) k ks := by
  intro l hl
  obtain ⟨r, hr, rfl⟩ := h l hl
  refine ⟨f r, hf.below hr ?_, hf.key r hr.mem⟩
  rcases hf.kept r hr.mem with hkept | ⟨hfree, _⟩
  · exact hkept
  · exact absurd (hlocked hl) hfree

theorem Within.append (h : S.Within db k ks) (h' : S.Within db k ls) : S.Within db k (ks ++ ls) := by
  intro l hl
  rcases List.mem_append.mp hl with hl | hl
  · exact h l hl
  · exact h' l hl

end Within

/-- A transaction that deletes `k`, nothing but rows below `k`, and leaves its view
sound has deleted exactly the rows below `k`. -/
theorem mem_iff_below (hkeyed : S.Keyed db) (hk : k ∈ ks) (hwithin : S.Within db k ks)
    (hint : S.Integral (S.without ks db)) (hr : r ∈ db) : S.key r ∈ ks ↔ S.Below db k r := by
  constructor
  · intro hmem
    obtain ⟨q, hq, hkey⟩ := hwithin _ hmem
    rw [← hkeyed q hq.mem r hr hkey]
    exact hq
  · intro hbelow
    induction hbelow with
    | self _ hself => exact hself ▸ hk
    | child hr hx hnull hp hpk ih =>
      by_contra hkey
      exact ref_not_mem hint hr hkey hx hnull (hpk ▸ ih hp.mem)

/-- What survives an erasure is what does not lie below the key. -/
theorem key_mem_erase (hkeyed : S.Keyed db) (hr : r ∈ db) :
    (∃ q ∈ S.erase k db, S.key q = S.key r) ↔ ¬ S.Below db k r := by
  simp only [erase, List.mem_map, List.mem_filter, decide_eq_true_eq]
  constructor
  · rintro ⟨_, ⟨old, ⟨hold, habove⟩, rfl⟩, hkey⟩
    rw [S.key_clear] at hkey
    rwa [hkeyed old hold r hr hkey] at habove
  · intro habove
    exact ⟨_, ⟨r, ⟨hr, habove⟩, rfl⟩, S.key_clear _ r⟩

theorem without_eq_erase (hkeyed : S.Keyed db) (hk : k ∈ ks) (hwithin : S.Within db k ks)
    (hint : S.Integral (S.without ks db)) : S.without ks db = S.erase k db := by
  have hclear : (fun l => decide (l ∈ ks)) = fun l => open Classical in decide (∃ r, S.Below db k r ∧ S.key r = l) := by
    funext l
    refine decide_eq_decide.mpr ⟨hwithin l, ?_⟩
    intro ⟨r, hr, hkey⟩
    exact hkey ▸ (mem_iff_below hkeyed hk hwithin hint hr.mem).mpr hr
  rw [without, erase, hclear]
  congr 1
  apply List.filter_congr
  intro r hr
  exact decide_eq_decide.mpr (not_congr (mem_iff_below hkeyed hk hwithin hint hr))

/-- A deletion is closed if no row restricts it and the rows it takes along are leaves. -/
theorem closed_cascade (hrestrict : ∀ r ∈ db, ∀ x ∈ S.refs r, x.2 = .restrict → x.1 ∉ ks)
    (hleaf : ∀ r ∈ db, ∀ x ∈ S.refs r, x.2 = .cascade → ∀ q ∈ db, ∀ y ∈ S.refs q, y.1 ≠ S.key r) :
    S.Closed db (S.cascade db ks) := by
  intro r hr hkey x hx hnull hmem
  rcases List.mem_append.mp hmem with hks | hmem
  · cases haction : x.2 with
    | restrict => exact hrestrict r hr x hx haction hks
    | setNull => exact hnull haction
    | cascade =>
      refine hkey (List.mem_append_right _ (List.mem_map_of_mem (List.mem_filter.mpr ⟨hr, ?_⟩)))
      exact List.any_eq_true.mpr ⟨x, hx, decide_eq_true ⟨haction, hks⟩⟩
  · obtain ⟨q, hq, hkey⟩ := List.mem_map.mp hmem
    obtain ⟨hq, hany⟩ := List.mem_filter.mp hq
    obtain ⟨y, hy, hcascade⟩ := List.any_eq_true.mp hany
    exact hleaf q hq y hy (of_decide_eq_true hcascade).1 r hr x hx hkey.symm

/-- What a transaction takes along by `cascade` lies below what it was told to delete. -/
theorem Within.cascade (hwithin : S.Within db k ls) : S.Within db k (S.cascade (S.without ks db) ls) := by
  intro l hl
  rcases List.mem_append.mp hl with hl | hl
  · exact hwithin l hl
  · obtain ⟨q, hq, rfl⟩ := List.mem_map.mp hl
    obtain ⟨hq, hany⟩ := List.mem_filter.mp hq
    obtain ⟨x, hx, hcascade⟩ := List.any_eq_true.mp hany
    simp only [decide_eq_true_eq] at hcascade
    obtain ⟨r, hr, _, rfl⟩ := mem_without.mp hq
    obtain ⟨p, hp, hpk⟩ := hwithin _ hcascade.2
    refine ⟨r, .child hr (mem_refs_clear.mp hx).1 ?_ hp hpk, (S.key_clear _ r).symm⟩
    rw [hcascade.1]
    exact OnDelete.noConfusion

end Schema
end MessagingGateway.Relational
