import MessagingGateway.Js.Heap
import Mathlib.Data.Fintype.EquivFin

/-! The tree a heap value unfolds to: it is unique, survives every change elsewhere, and is
what serialisation sees. -/
namespace MessagingGateway.Js

mutual

inductive Denotes (h : Heap) : Value → Tree → Prop
  | atom (a : Atom) : Denotes h (.atom a) (.leaf a)
  | node (r : Nat) (array : Bool) (props : List (String × Value)) (trees : List (String × Tree)) :
      h[r]? = some ⟨array, props⟩ → DenotesProps h props trees → Denotes h (.ref r) (.node array trees)

inductive DenotesProps (h : Heap) : List (String × Value) → List (String × Tree) → Prop
  | nil : DenotesProps h [] []
  | cons (key : String) (v : Value) (t : Tree) (props : List (String × Value)) (trees : List (String × Tree)) :
      Denotes h v t → DenotesProps h props trees → DenotesProps h ((key, v) :: props) ((key, t) :: trees)

end

/-- Every cell of the first heap is still there, unchanged, in the second. -/
def Extends (h h' : Heap) : Prop := ∀ (r : Nat) (cell : Cell), h[r]? = some cell → h'[r]? = some cell

theorem Extends.refl (h : Heap) : Extends h h := fun _ _ hr => hr

theorem Extends.trans {h₁ h₂ h₃ : Heap} (h : Extends h₁ h₂) (h' : Extends h₂ h₃) : Extends h₁ h₃ :=
  fun r cell hr => h' r cell (h r cell hr)

theorem Extends.append (h cells : Heap) : Extends h (h ++ cells) := by
  intro r cell hr
  rw [List.getElem?_append_left (List.getElem?_eq_some_iff.mp hr).choose]
  exact hr

mutual

theorem Denotes.mono {h h' : Heap} (hext : Extends h h') {v : Value} {t : Tree} (hd : Denotes h v t) :
    Denotes h' v t := by
  cases hd with
  | atom a => exact .atom a
  | node r array props trees hr hprops => exact .node r array props trees (hext r _ hr) (hprops.mono hext)

theorem DenotesProps.mono {h h' : Heap} (hext : Extends h h') {props : List (String × Value)}
    {trees : List (String × Tree)} (hd : DenotesProps h props trees) : DenotesProps h' props trees := by
  cases hd with
  | nil => exact .nil
  | cons key v t props trees hv hprops => exact .cons key v t props trees (hv.mono hext) (hprops.mono hext)

end

mutual

theorem Denotes.unique {h : Heap} {v : Value} {t t' : Tree} (hd : Denotes h v t) (hd' : Denotes h v t') :
    t = t' := by
  cases hd with
  | atom a =>
    cases hd' with
    | atom => rfl
  | node r array props trees hr hprops =>
    cases hd' with
    | node _ array' props' trees' hr' hprops' =>
      obtain ⟨rfl, rfl⟩ := Cell.mk.inj (Option.some.inj (hr.symm.trans hr'))
      rw [hprops.unique hprops']

theorem DenotesProps.unique {h : Heap} {props : List (String × Value)} {trees trees' : List (String × Tree)}
    (hd : DenotesProps h props trees) (hd' : DenotesProps h props trees') : trees = trees' := by
  cases hd with
  | nil =>
    cases hd' with
    | nil => rfl
  | cons key v t props trees hv hprops =>
    cases hd' with
    | cons _ _ t' _ trees' hv' hprops' => rw [hv.unique hv', hprops.unique hprops']

end

/-- Lookups agree: both fail, or they find a value and its tree. -/
def Related (h : Heap) : Option Value → Option Tree → Prop
  | none, none => True
  | some v, some t => Denotes h v t
  | _, _ => False

theorem Related.some_left {h : Heap} {v : Value} {o : Option Tree} (hrel : Related h (some v) o) :
    ∃ t, o = some t ∧ Denotes h v t := by
  cases o with
  | none => exact hrel.elim
  | some t => exact ⟨t, rfl, hrel⟩

theorem Related.some_right {h : Heap} {t : Tree} {o : Option Value} (hrel : Related h o (some t)) :
    ∃ v, o = some v ∧ Denotes h v t := by
  cases o with
  | none => exact hrel.elim
  | some v => exact ⟨v, rfl, hrel⟩

theorem Related.none_right {h : Heap} {o : Option Value} (hrel : Related h o none) : o = none := by
  cases o with
  | none => rfl
  | some v => exact hrel.elim

theorem Related.unique {h : Heap} {v : Option Value} {o o' : Option Tree} (hrel : Related h v o)
    (hrel' : Related h v o') : o = o' := by
  cases v with
  | none =>
    cases o with
    | none =>
      cases o' with
      | none => rfl
      | some t => exact hrel'.elim
    | some t => exact hrel.elim
  | some v =>
    obtain ⟨t, rfl, ht⟩ := hrel.some_left
    obtain ⟨t', rfl, ht'⟩ := hrel'.some_left
    rw [ht.unique ht']

theorem DenotesProps.lookup {h : Heap} {props : List (String × Value)} {trees : List (String × Tree)}
    (hd : DenotesProps h props trees) (key : String) : Related h (props.lookup key) (trees.lookup key) := by
  induction props generalizing trees with
  | nil =>
    cases hd
    exact trivial
  | cons p props ih =>
    cases hd with
    | cons k v t _ trees hv hprops =>
      simp only [List.lookup_cons]
      split
      · exact hv
      · exact ih hprops

theorem DenotesProps.length_eq {h : Heap} {props : List (String × Value)} {trees : List (String × Tree)}
    (hd : DenotesProps h props trees) : props.length = trees.length := by
  induction props generalizing trees with
  | nil =>
    cases hd
    rfl
  | cons p props ih =>
    cases hd with
    | cons k v t _ trees hv hprops => simp [ih hprops]

theorem Denotes.member {h : Heap} {v : Value} {t : Tree} (hd : Denotes h v t) (key : String) :
    Related h (h.member v key) (t.member key) := by
  cases hd with
  | atom a =>
    simp only [Heap.member, Tree.member]
    cases a.member key with
    | none => exact trivial
    | some b => exact .atom b
  | node r array props trees hr hprops =>
    simp only [Heap.member, Tree.member, hr, Option.bind_some, ← hprops.length_eq]
    have hown := hprops.lookup key
    cases hv : props.lookup key with
    | some v =>
      rw [hv] at hown
      obtain ⟨t, ht, hvt⟩ := hown.some_left
      rw [ht]
      exact hvt
    | none =>
      rw [hv] at hown
      cases ht : trees.lookup key with
      | some t => exact (ht ▸ hown : Related h none (some t)).elim
      | none =>
        cases inherited array props.length key with
        | none => exact trivial
        | some b => exact .atom b

theorem denotes_alloc {h : Heap} {array : Bool} {props : List (String × Value)} {trees : List (String × Tree)}
    (hd : DenotesProps h props trees) :
    Denotes (h.alloc ⟨array, props⟩).2 (h.alloc ⟨array, props⟩).1 (.node array trees) := by
  refine .node h.length array props trees ?_ (hd.mono (Extends.append h _))
  simp [Heap.alloc]

mutual

theorem load_denotes (j : Json) (h : Heap) :
    Denotes (Heap.load j h).2 (Heap.load j h).1 (.ofJson j) ∧ Extends h (Heap.load j h).2 := by
  cases j with
  | null | bool _ | num _ | str _ => exact ⟨.atom _, Extends.refl h⟩
  | arr items =>
    obtain ⟨hd, hext⟩ := loadItems_denotes items 0 h
    exact ⟨denotes_alloc hd, hext.trans (Extends.append _ _)⟩
  | obj fields =>
    obtain ⟨hd, hext⟩ := loadFields_denotes fields h
    exact ⟨denotes_alloc hd, hext.trans (Extends.append _ _)⟩

private theorem loadItems_denotes (items : List Json) (i : Nat) (h : Heap) :
    DenotesProps (Heap.loadItems items i h).2 (Heap.loadItems items i h).1 (Tree.ofItems items i) ∧
      Extends h (Heap.loadItems items i h).2 := by
  cases items with
  | nil => exact ⟨.nil, Extends.refl h⟩
  | cons item items =>
    obtain ⟨hv, hext⟩ := load_denotes item h
    obtain ⟨hd, hext'⟩ := loadItems_denotes items (i + 1) (Heap.load item h).2
    exact ⟨.cons _ _ _ _ _ (hv.mono hext') hd, hext.trans hext'⟩

private theorem loadFields_denotes (fields : List (String × Json)) (h : Heap) :
    DenotesProps (Heap.loadFields fields h).2 (Heap.loadFields fields h).1 (Tree.ofFields fields) ∧
      Extends h (Heap.loadFields fields h).2 := by
  cases fields with
  | nil => exact ⟨.nil, Extends.refl h⟩
  | cons field fields =>
    obtain ⟨key, value⟩ := field
    obtain ⟨hv, hext⟩ := load_denotes value h
    obtain ⟨hd, hext'⟩ := loadFields_denotes fields (Heap.load value h).2
    exact ⟨.cons _ _ _ _ _ (hv.mono hext') hd, hext.trans hext'⟩

end

namespace Tree

mutual

def depth : Tree → Nat
  | .leaf _ => 0
  | .node _ props => depthProps props + 1

def depthProps : List (String × Tree) → Nat
  | [] => 0
  | (_, t) :: props => max (depth t) (depthProps props)

end

end Tree

mutual

/-- Below a node of a given depth there is one of every smaller depth. -/
private theorem Denotes.exists_depth {h : Heap} {v : Value} {t : Tree} (hd : Denotes h v t) {i : Nat} (hpos : 0 < i)
    (hi : i ≤ t.depth) : ∃ r t', Denotes h (.ref r) t' ∧ t'.depth = i := by
  cases hd with
  | atom a => exact absurd hi (by simp only [Tree.depth]; omega)
  | node r array props trees hr hprops =>
    by_cases hlast : i = Tree.depthProps trees + 1
    · exact ⟨r, _, .node r array props trees hr hprops, hlast.symm⟩
    · simp only [Tree.depth] at hi
      exact hprops.exists_depth hpos (by omega)

private theorem DenotesProps.exists_depth {h : Heap} {props : List (String × Value)} {trees : List (String × Tree)}
    (hd : DenotesProps h props trees) {i : Nat} (hpos : 0 < i) (hi : i ≤ Tree.depthProps trees) :
    ∃ r t', Denotes h (.ref r) t' ∧ t'.depth = i := by
  cases hd with
  | nil => exact absurd hi (by simp only [Tree.depthProps]; omega)
  | cons key v t props trees hv hprops =>
    rcases le_max_iff.mp hi with hi | hi
    · exact hv.exists_depth hpos hi
    · exact hprops.exists_depth hpos hi

end

/-- A tree is never deeper than the heap has cells: every depth on the way down is taken
by a different reference. -/
theorem Denotes.depth_le {h : Heap} {v : Value} {t : Tree} (hd : Denotes h v t) : t.depth ≤ h.length := by
  have hstep : ∀ i : Fin t.depth, ∃ r : Fin h.length, ∃ t', Denotes h (.ref r) t' ∧ t'.depth = i + 1 := by
    intro i
    obtain ⟨r, t', hr, hdepth⟩ := hd.exists_depth (Nat.succ_pos i) i.isLt
    cases hr with
    | node _ array props trees hcell hprops =>
      have hlt := (List.getElem?_eq_some_iff.mp hcell).choose
      exact ⟨⟨r, hlt⟩, _, .node r array props trees hcell hprops, hdepth⟩
  choose f t' hf hdepth using hstep
  have hinj : Function.Injective f := by
    intro i j hij
    have hsame : t' i = t' j := (hf i).unique (hij ▸ hf j)
    have hij := (hdepth i).symm.trans ((congrArg Tree.depth hsame).trans (hdepth j))
    exact Fin.ext (by omega)
  simpa using Fintype.card_le_of_injective f hinj

mutual

private theorem readTo_denotes {h : Heap} {v : Value} {t : Tree} (hd : Denotes h v t) {n : Nat} (hn : t.depth ≤ n) :
    h.readTo n v = t.toJson := by
  cases hd with
  | atom a => cases n <;> rfl
  | node r array props trees hr hprops =>
    cases n with
    | zero => exact absurd hn (by simp [Tree.depth])
    | succ n =>
      have hprops_le : Tree.depthProps trees ≤ n := by simpa [Tree.depth] using hn
      rw [Heap.readTo, hr, Option.map_some]
      cases array with
      | true => exact congrArg (some ∘ Json.arr) (readItems_denotes hprops hprops_le)
      | false => exact congrArg (some ∘ Json.obj) (readFields_denotes hprops hprops_le)

private theorem readItems_denotes {h : Heap} {props : List (String × Value)} {trees : List (String × Tree)}
    (hd : DenotesProps h props trees) {n : Nat} (hn : Tree.depthProps trees ≤ n) :
    (props.map fun p => (h.readTo n p.2).getD .null) = Tree.toItems trees := by
  cases hd with
  | nil => rfl
  | cons key v t props trees hv hprops =>
    obtain ⟨ht, htrees⟩ := max_le_iff.mp hn
    simp only [List.map_cons, Tree.toItems, readTo_denotes hv ht, readItems_denotes hprops htrees]

private theorem readFields_denotes {h : Heap} {props : List (String × Value)} {trees : List (String × Tree)}
    (hd : DenotesProps h props trees) {n : Nat} (hn : Tree.depthProps trees ≤ n) :
    (props.filterMap fun p => (h.readTo n p.2).map (p.1, ·)) = Tree.toFields trees := by
  cases hd with
  | nil => rfl
  | cons key v t props trees hv hprops =>
    obtain ⟨ht, htrees⟩ := max_le_iff.mp hn
    simp only [List.filterMap_cons, Tree.toFields, readTo_denotes hv ht, readFields_denotes hprops htrees]
    cases t.toJson <;> rfl

end

/-- Serialising a value gives the JSON of the tree it denotes. -/
theorem read_denotes {h : Heap} {v : Value} {t : Tree} (hd : Denotes h v t) : h.read v = t.toJson :=
  readTo_denotes hd hd.depth_le

mutual

/-- What has been parsed is serialised as it was. -/
theorem toJson_ofJson (j : Json) : (Tree.ofJson j).toJson = some j := by
  cases j with
  | null | bool _ | num _ | str _ => rfl
  | arr items => exact congrArg (fun items => some (Json.arr items)) (toItems_ofItems items 0)
  | obj fields => exact congrArg (fun fields => some (Json.obj fields)) (toFields_ofFields fields)

private theorem toItems_ofItems (items : List Json) (i : Nat) : Tree.toItems (Tree.ofItems items i) = items := by
  cases items with
  | nil => rfl
  | cons item items =>
    rw [Tree.ofItems, Tree.toItems, toJson_ofJson item, toItems_ofItems items (i + 1), Option.getD_some]

private theorem toFields_ofFields (fields : List (String × Json)) : Tree.toFields (Tree.ofFields fields) = fields := by
  cases fields with
  | nil => rfl
  | cons field fields =>
    obtain ⟨key, value⟩ := field
    rw [Tree.ofFields, Tree.toFields, toJson_ofJson value, toFields_ofFields fields]

end

end MessagingGateway.Js
