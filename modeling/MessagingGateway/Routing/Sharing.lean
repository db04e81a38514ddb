import Mathlib.Data.Set.Lattice
import Mathlib.Order.CompletePartialOrder
import MessagingGateway.Routing.Projection

/-! A projection under construction: which of its objects are its own, which values it holds
by reference, and that building it changes nothing else. -/
namespace MessagingGateway.Routing
open Js

/-- The write of a value where it already is, through objects that existed before. -/
theorem setPath_own {H h : Heap} (hext : Extends H h) {r : Nat} {t : Tree} {v : Value} {path : Path}
    (hd : Denotes H (.ref r) t) (hown : OwnPath t path) (hvalue : getPath H (.ref r) path = some v) :
    setPath h r path v = h := by
  induction path generalizing r t with
  | nil => exact hown.elim
  | cons key parts ih =>
    cases hd with
    | node _ array props trees hr hprops =>
      have hcell : h[r]? = some ⟨array, props⟩ := hext r _ hr
      have hlookup := hprops.lookup key
      cases parts with
      | nil =>
        obtain ⟨child, hchild⟩ := Option.isSome_iff_exists.mp hown
        rw [show trees.lookup key = some child from hchild] at hlookup
        obtain ⟨v', hv', -⟩ := hlookup.some_right
        have hsame : v' = v := by simpa [getPath, Heap.member, hr, hv'] using hvalue
        have hkept : setProp props key v = props := setProp_of_lookup (hsame ▸ hv')
        rw [setPath, Heap.put]
        apply List.ext_getElem?
        intro i
        rw [List.getElem?_modify]
        rcases eq_or_ne r i with rfl | hne
        · simp [hcell, hkept]
        · simp [hne]
      | cons next parts =>
        obtain ⟨child, hchild, hplain, hrest⟩ := hown
        rw [show trees.lookup key = some child from hchild] at hlookup
        obtain ⟨v', hv', hd'⟩ := hlookup.some_right
        cases hd' with
        | atom a => exact absurd hplain (by simp [Tree.plain])
        | node r' array' props' trees' hr' hprops' =>
          obtain rfl : array' = false := by simpa [Tree.plain] using hplain
          have hcell' : h[r']? = some ⟨false, props'⟩ := hext r' _ hr'
          have hmember : (h.member (.ref r) key).bind h.plain = some r' := by
            simp [Heap.member, hcell, hv', Heap.plain, hcell']
          rw [setPath, hmember]
          apply ih (.node r' false props' trees' hr' hprops') hrest
          simpa [getPath, Heap.member, hr, hv'] using hvalue

variable (H h : Heap) (source : Value)

mutual

/-- The value at a path of the projection: held by reference from the source, or an object
of its own, with the references it owns and the paths it holds. -/
inductive Built : Path → Value → Tree → Set Nat → Set Path → Prop
  | lent (π : Path) (v : Value) (t : Tree) : getPath H source π = some v → Denotes H v t → Built π v t ∅ {π}
  | owned (π : Path) (r : Nat) (props : List (String × Value)) (trees : List (String × Tree)) (refs : Set Nat)
      (lents : Set Path) : H.length ≤ r → h[r]? = some ⟨false, props⟩ → r ∉ refs →
      BuiltProps π props trees refs lents → Built π (.ref r) (.node false trees) (insert r refs) lents

inductive BuiltProps : Path → List (String × Value) → List (String × Tree) → Set Nat → Set Path → Prop
  | nil (π : Path) : BuiltProps π [] [] ∅ ∅
  | cons (π : Path) (key : String) (v : Value) (t : Tree) (props : List (String × Value))
      (trees : List (String × Tree)) (refs refs' : Set Nat) (lents lents' : Set Path) :
      key ∉ props.map Prod.fst → Built (π ++ [key]) v t refs lents → BuiltProps π props trees refs' lents' →
      Disjoint refs refs' →
      BuiltProps π ((key, v) :: props) ((key, t) :: trees) (refs ∪ refs') (lents ∪ lents')

end

variable {H h source}

mutual

/-- What is built depends on its own cells only. -/
theorem Built.frame {h' : Heap} {π : Path} {v : Value} {t : Tree} {refs : Set Nat} {lents : Set Path}
    (hb : Built H h source π v t refs lents) (hsame : ∀ r ∈ refs, h'[r]? = h[r]?) :
    Built H h' source π v t refs lents := by
  cases hb with
  | lent _ _ _ hv hd => exact .lent _ _ _ hv hd
  | owned _ r props trees refs lents hr hcell hfresh hprops =>
    refine .owned _ r props trees refs lents hr ?_ hfresh (hprops.frame fun x hx => hsame x (.inr hx))
    rw [hsame r (Set.mem_insert r refs), hcell]

theorem BuiltProps.frame {h' : Heap} {π : Path} {props : List (String × Value)} {trees : List (String × Tree)}
    {refs : Set Nat} {lents : Set Path} (hb : BuiltProps H h source π props trees refs lents)
    (hsame : ∀ r ∈ refs, h'[r]? = h[r]?) : BuiltProps H h' source π props trees refs lents := by
  cases hb with
  | nil => exact .nil _
  | cons _ key v t props trees refs refs' lents lents' hkey hv hprops hdisjoint =>
    exact .cons _ key v t props trees refs refs' lents lents' hkey (hv.frame fun r hr => hsame r (.inl hr))
      (hprops.frame fun r hr => hsame r (.inr hr)) hdisjoint

end

mutual

private theorem Built.denotes (hext : Extends H h) {π : Path} {v : Value} {t : Tree} {refs : Set Nat} {lents : Set Path}
    (hb : Built H h source π v t refs lents) : Denotes h v t := by
  cases hb with
  | lent _ _ _ _ hd => exact hd.mono hext
  | owned _ r props trees refs lents _ hcell _ hprops => exact .node r false props trees hcell (hprops.denotes hext)

private theorem BuiltProps.denotes (hext : Extends H h) {π : Path} {props : List (String × Value)}
    {trees : List (String × Tree)} {refs : Set Nat} {lents : Set Path}
    (hb : BuiltProps H h source π props trees refs lents) : DenotesProps h props trees := by
  cases hb with
  | nil => exact .nil
  | cons _ key v t props trees _ _ _ _ _ hv hprops _ =>
    exact .cons key v t props trees (hv.denotes hext) (hprops.denotes hext)

end

mutual

/-- The cells of a projection are allocated after those of the source. -/
theorem Built.refs_bound {π : Path} {v : Value} {t : Tree} {refs : Set Nat} {lents : Set Path}
    (hb : Built H h source π v t refs lents) : ∀ r ∈ refs, H.length ≤ r ∧ r < h.length := by
  cases hb with
  | lent => exact fun r hr => hr.elim
  | owned _ r props trees refs lents hr hcell _ hprops =>
    rintro x (rfl | hx)
    · exact ⟨hr, (List.getElem?_eq_some_iff.mp hcell).choose⟩
    · exact hprops.refs_bound x hx

private theorem BuiltProps.refs_bound {π : Path} {props : List (String × Value)} {trees : List (String × Tree)}
    {refs : Set Nat} {lents : Set Path} (hb : BuiltProps H h source π props trees refs lents) :
    ∀ r ∈ refs, H.length ≤ r ∧ r < h.length := by
  cases hb with
  | nil => exact fun r hr => hr.elim
  | cons _ _ _ _ _ _ _ _ _ _ _ hv hprops _ =>
    rintro x (hx | hx)
    · exact hv.refs_bound x hx
    · exact hprops.refs_bound x hx

end

mutual

private theorem Built.lents_below {π : Path} {v : Value} {t : Tree} {refs : Set Nat} {lents : Set Path}
    (hb : Built H h source π v t refs lents) : ∀ q ∈ lents, π <+: q := by
  cases hb with
  | lent =>
    rintro q rfl
    exact List.prefix_refl q
  | owned _ _ _ _ _ _ _ _ _ hprops =>
    intro q hq
    obtain ⟨key, -, hkey⟩ := hprops.lents_below q hq
    exact (List.prefix_append π [key]).trans hkey

private theorem BuiltProps.lents_below {π : Path} {props : List (String × Value)} {trees : List (String × Tree)}
    {refs : Set Nat} {lents : Set Path} (hb : BuiltProps H h source π props trees refs lents) :
    ∀ q ∈ lents, ∃ key ∈ props.map Prod.fst, π ++ [key] <+: q := by
  cases hb with
  | nil => exact fun q hq => hq.elim
  | cons _ key _ _ _ _ _ _ _ _ _ hv hprops _ =>
    rintro q (hq | hq)
    · exact ⟨key, List.mem_cons_self, hv.lents_below q hq⟩
    · obtain ⟨key', hmem, hkey⟩ := hprops.lents_below q hq
      exact ⟨key', List.mem_cons_of_mem _ hmem, hkey⟩

end

private theorem append_singleton_inj {π q : Path} {a b : String} (ha : π ++ [a] <+: q) (hb : π ++ [b] <+: q) :
    a = b := by
  have hsame := (List.prefix_of_prefix_length_le ha hb (by simp)).eq_of_length (by simp)
  simpa using hsame

private theorem mem_keys_setProp {α : Type*} {props : List (String × α)} {key k : String} {value : α}
    (h : k ∈ (setProp props key value).map Prod.fst) : k = key ∨ k ∈ props.map Prod.fst := by
  induction props with
  | nil => simpa [setProp] using h
  | cons p props ih =>
    obtain ⟨k', v⟩ := p
    rcases eq_or_ne k' key with rfl | hne
    · right
      simpa [setProp] using h
    · have hcases : k = k' ∨ k ∈ (setProp props key value).map Prod.fst := by simpa [setProp, hne] using h
      rcases hcases with rfl | hrest
      · exact .inr List.mem_cons_self
      · exact (ih hrest).imp_right (List.mem_cons_of_mem k')

/-- The entry of one key: absent, or built with references and paths of its own. -/
def Entry (H h : Heap) (source : Value) (path : Path) (own : Set Nat) (held : Set Path) :
    Option Value → Option Tree → Prop
  | none, none => own = ∅ ∧ held = ∅
  | some v, some t => Built H h source path v t own held
  | _, _ => False

/-- Properties taken apart at a key: its entry, the rest, and how to put a new entry in. -/
structure Focus (H h : Heap) (source : Value) (π : Path) (props : List (String × Value))
    (trees : List (String × Tree)) (refs : Set Nat) (lents : Set Path) (key : String) (own rest : Set Nat)
    (held kept : Set Path) : Prop where
  entry : Entry H h source (π ++ [key]) own held (props.lookup key) (trees.lookup key)
  refs_eq : refs = own ∪ rest
  lents_eq : lents = held ∪ kept
  disjoint : Disjoint own rest
  apart : ∀ q ∈ kept, ¬ π ++ [key] <+: q
  rebuild : ∀ (h' : Heap) v t own' held', (∀ r ∈ rest, h'[r]? = h[r]?) →
    Built H h' source (π ++ [key]) v t own' held' → Disjoint own' rest →
    BuiltProps H h' source π (setProp props key v) (setProp trees key t) (own' ∪ rest) (held' ∪ kept)

private theorem BuiltProps.focus {π : Path} {props : List (String × Value)} {trees : List (String × Tree)}
    {refs : Set Nat} {lents : Set Path} (hb : BuiltProps H h source π props trees refs lents) (key : String) :
    ∃ own rest held kept, Focus H h source π props trees refs lents key own rest held kept := by
  induction props generalizing trees refs lents with
  | nil =>
    cases hb
    refine ⟨∅, ∅, ∅, ∅, ⟨rfl, rfl⟩, by simp, by simp, by simp, by simp, ?_⟩
    intro h' v t own' held' _ hv _
    exact .cons π key v t [] [] own' ∅ held' ∅ List.not_mem_nil hv (.nil π) (by simp)
  | cons p props ih =>
    cases hb with
    | cons _ k v t _ trees refs₁ refs₂ lents₁ lents₂ hkey hv hprops hdisjoint =>
      rcases eq_or_ne k key with rfl | hne
      · refine ⟨refs₁, refs₂, lents₁, lents₂, ?_, rfl, rfl, hdisjoint, ?_, ?_⟩
        · simpa [Entry] using hv
        · intro q hq hpre
          obtain ⟨key', hmem, hpre'⟩ := hprops.lents_below q hq
          exact hkey (append_singleton_inj hpre hpre' ▸ hmem)
        · intro h' v' t' own' held' hsame hv' hdisjoint'
          simp only [setProp, if_true]
          exact .cons π k v' t' props trees own' refs₂ held' lents₂ hkey hv' (hprops.frame hsame) hdisjoint'
      · obtain ⟨own, rest, held, kept, hf⟩ := ih hprops
        obtain rfl := hf.refs_eq
        obtain rfl := hf.lents_eq
        obtain ⟨hown, hrest⟩ := Set.disjoint_union_right.mp hdisjoint
        refine ⟨own, refs₁ ∪ rest, held, lents₁ ∪ kept, ?_, Set.union_left_comm _ _ _, Set.union_left_comm _ _ _,
          Set.disjoint_union_right.mpr ⟨hown.symm, hf.disjoint⟩, ?_, ?_⟩
        · simpa [List.lookup_cons, beq_eq_false_iff_ne.mpr hne.symm] using hf.entry
        · rintro q (hq | hq) hpre
          · exact hne (append_singleton_inj (hv.lents_below q hq) hpre)
          · exact hf.apart q hq hpre
        · intro h' v' t' own' held' hsame hv' hdisjoint'
          obtain ⟨hown', hrest'⟩ := Set.disjoint_union_right.mp hdisjoint'
          have htail := hf.rebuild h' v' t' own' held' (fun r hr => hsame r (.inr hr)) hv' hrest'
          have hk : k ∉ (setProp props key v').map Prod.fst :=
            fun hmem => (mem_keys_setProp hmem).elim hne hkey
          simp only [setProp, hne, if_false]
          rw [Set.union_left_comm own', Set.union_left_comm held']
          exact .cons π k v t _ _ refs₁ (own' ∪ rest) lents₁ (held' ∪ kept) hk
            (hv.frame fun r hr => hsame r (.inl hr)) htail (Set.disjoint_union_right.mpr ⟨hown'.symm, hrest⟩)

/-- What a `setPath` into an owned object leaves: the object, with one more path placed in
it, and every other cell as it was. -/
structure Stores (H h h' : Heap) (source : Value) (π : Path) (r : Nat) (trees : List (String × Tree)) (refs : Set Nat)
    (lents : Set Path) (path : Path) (t : Tree) (props' : List (String × Value)) (trees' : List (String × Tree))
    (refs' : Set Nat) (lents' : Set Path) : Prop where
  cell : h'[r]? = some ⟨false, props'⟩
  fresh : r ∉ refs'
  props : BuiltProps H h' source π props' trees' refs' lents'
  tree : placed (.node false trees) path t = .node false trees'
  new : ∀ x ∈ refs', x ∈ refs ∨ h.length ≤ x
  frame : ∀ x, x < h.length → x ≠ r → x ∉ refs → h'[x]? = h[x]?
  grows : h.length ≤ h'.length
  held : ∀ q ∈ lents', q = π ++ path ∨ q ∈ lents ∧ ¬ π ++ path <+: q

private theorem getPath_append (h : Heap) (v : Value) (p q : Path) :
    getPath h v (p ++ q) = (getPath h v p).bind (getPath h · q) := by
  induction p generalizing v with
  | nil => rfl
  | cons part parts ih => simp [getPath, ih, Option.bind_assoc]

section Store
variable {π : Path} {r : Nat} {props : List (String × Value)} {trees : List (String × Tree)} {refs : Set Nat}
  {lents : Set Path} {key next : String} {parts : Path} {v : Value} {t : Tree} {own rest : Set Nat}
  {held kept : Set Path}

private theorem store_last (hcell : h[r]? = some ⟨false, props⟩) (hfresh : r ∉ refs)
    (hf : Focus H h source π props trees refs lents key own rest held kept)
    (hv : getPath H source (π ++ [key]) = some v) (hd : Denotes H v t) :
    Stores H h (setPath h r [key] v) source π r trees refs lents [key] t (setProp props key v) (setProp trees key t)
      (∅ ∪ rest) ({π ++ [key]} ∪ kept) := by
  obtain rfl := hf.refs_eq
  obtain rfl := hf.lents_eq
  have hrest : r ∉ rest := fun hr => hfresh (.inr hr)
  refine ⟨Heap.put_self hcell key v, by simpa using hrest, ?_, rfl, ?_, fun x _ hne _ => Heap.put_ne h hne key v,
    (Heap.put_length h r key v).ge, ?_⟩
  · apply hf.rebuild _ v t ∅ {π ++ [key]} _ (.lent _ v t hv hd) (Set.empty_disjoint rest)
    intro x hx
    have hne : x ≠ r := by
      rintro rfl
      exact hrest hx
    exact Heap.put_ne h hne key v
  · rintro x (hx | hx)
    · exact hx.elim
    · exact .inl (.inr hx)
  · rintro q (rfl | hq)
    · exact .inl rfl
    · exact .inr ⟨.inr hq, hf.apart q hq⟩

/-- The walk goes on in an object the projection made itself. -/
private theorem store_owned {r₀ : Nat} {trees₀ : List (String × Tree)} {refs₀ : Set Nat} {h' : Heap}
    {props₁ : List (String × Value)} {trees₁ : List (String × Tree)} {refs₁ : Set Nat} {lents₁ : Set Path}
    (hb : BuiltProps H h source π props trees refs lents) (hcell : h[r]? = some ⟨false, props⟩) (hfresh : r ∉ refs)
    (hr₀ : H.length ≤ r₀)
    (hf : Focus H h source π props trees refs lents key (insert r₀ refs₀) rest held kept)
    (hprops : props.lookup key = some (.ref r₀)) (htrees : trees.lookup key = some (.node false trees₀))
    (hs : Stores H h h' source (π ++ [key]) r₀ trees₀ refs₀ held (next :: parts) t props₁ trees₁ refs₁ lents₁) :
    Stores H h h' source π r trees refs lents (key :: next :: parts) t props
      (setProp trees key (.node false trees₁)) (insert r₀ refs₁ ∪ rest) (lents₁ ∪ kept) := by
  have hbound := hb.refs_bound
  obtain rfl := hf.refs_eq
  obtain rfl := hf.lents_eq
  have hr : r < h.length := (List.getElem?_eq_some_iff.mp hcell).choose
  have hapart : ∀ x ∈ rest, x ≠ r₀ ∧ x ∉ refs₀ := fun x hx =>
    ⟨fun heq => Set.disjoint_left.mp hf.disjoint (.inl heq) hx,
      fun hx₀ => Set.disjoint_left.mp hf.disjoint (.inr hx₀) hx⟩
  have hne : r ≠ r₀ := fun heq => hfresh (.inl (.inl heq))
  have hnew : ∀ x ∈ insert r₀ refs₁, x ∈ insert r₀ refs₀ ∨ h.length ≤ x := by
    rintro x (rfl | hx)
    · exact .inl (.inl rfl)
    · exact (hs.new x hx).imp_left .inr
  have hdisjoint : Disjoint (insert r₀ refs₁) rest := by
    refine Set.disjoint_left.mpr fun x hx hrest => ?_
    rcases hnew x hx with hx | hx
    · exact Set.disjoint_left.mp hf.disjoint hx hrest
    · exact absurd (hbound x (.inr hrest)).2 (by omega)
  refine ⟨?_, ?_, ?_, ?_, ?_, ?_, hs.grows, ?_⟩
  · rw [hs.frame r hr hne fun hx => hfresh (.inl (.inr hx)), hcell]
  · rintro (hx | hx)
    · rcases hnew r hx with hx | hx
      · exact hfresh (.inl hx)
      · omega
    · exact hfresh (.inr hx)
  · have hrebuilt := hf.rebuild h' (.ref r₀) (.node false trees₁) (insert r₀ refs₁) lents₁
      (fun x hx => hs.frame x (hbound x (.inr hx)).2 (hapart x hx).1 (hapart x hx).2)
      (.owned _ r₀ props₁ trees₁ refs₁ lents₁ hr₀ hs.cell hs.fresh hs.props) hdisjoint
    rwa [setProp_of_lookup hprops] at hrebuilt
  · simp [placed, Tree.member, htrees, Option.filter, Tree.plain, Tree.put, hs.tree]
  · rintro x (hx | hx)
    · exact (hnew x hx).imp_left .inl
    · exact .inl (.inr hx)
  · intro x hx hxr hxrefs
    exact hs.frame x hx (fun heq => hxrefs (.inl (.inl heq))) fun hx₀ => hxrefs (.inl (.inr hx₀))
  · have hpath : π ++ [key] ++ next :: parts = π ++ key :: next :: parts := by simp
    rintro q (hq | hq)
    · rw [← hpath]
      exact (hs.held q hq).imp_right fun hq => ⟨.inl hq.1, hq.2⟩
    · refine .inr ⟨.inr hq, fun hpre => hf.apart q hq ?_⟩
      exact (hpath ▸ List.prefix_append (π ++ [key]) (next :: parts) : π ++ [key] <+: π ++ key :: next ::
        parts).trans hpre

/-- The walk enters an object held by reference and finds the value already there. -/
private theorem store_lent {r₀ : Nat} {t₀ : Tree} (hb : BuiltProps H h source π props trees refs lents)
    (hcell : h[r]? = some ⟨false, props⟩) (hfresh : r ∉ refs)
    (hf : Focus H h source π props trees refs lents key ∅ rest {π ++ [key]} kept)
    (htrees : trees.lookup key = some t₀) (hplain : t₀.plain) (hown : OwnPath t₀ (next :: parts))
    (hd₀ : Denotes H (.ref r₀) t₀) (hv : getPath H (.ref r₀) (next :: parts) = some v) (hd : Denotes H v t) :
    Stores H h h source π r trees refs lents (key :: next :: parts) t props trees refs lents := by
  have hvalue : valueAt t₀ (next :: parts) = some t := by
    have hrel := getPath_denotes hd₀ (next :: parts)
    rw [hv] at hrel
    obtain ⟨t', ht', hd'⟩ := hrel.some_left
    rw [ht', hd'.unique hd]
  refine ⟨hcell, hfresh, hb, ?_, fun x hx => .inl hx, fun _ _ _ _ => rfl, le_rfl, fun q hq => .inr ⟨hq, fun hpre => ?_⟩⟩
  · have hkept : setProp trees key t₀ = trees := setProp_of_lookup htrees
    simp [placed, Tree.member, htrees, Option.filter, hplain, Tree.put, placed_own hown hvalue, hkept]
  · have hkey : π ++ [key] <+: q := by
      refine List.IsPrefix.trans ⟨next :: parts, ?_⟩ hpre
      simp
    rw [hf.lents_eq] at hq
    rcases hq with rfl | hq
    · simpa using hpre.length_le
    · exact hf.apart q hq hkey

/-- The walk finds nothing it could go through and makes a new object. -/
private theorem store_new {h' : Heap} {props₁ : List (String × Value)} {trees₁ : List (String × Tree)}
    {refs₁ : Set Nat} {lents₁ : Set Path} (hext : Extends H h)
    (hb : BuiltProps H h source π props trees refs lents) (hcell : h[r]? = some ⟨false, props⟩) (hfresh : r ∉ refs)
    (hf : Focus H h source π props trees refs lents key own rest held kept)
    (hmember : ((Js.Tree.node false trees).member key).filter Tree.plain = none)
    (hs : Stores H ((h ++ [Cell.empty]).put r key (.ref h.length)) h' source (π ++ [key]) h.length [] ∅ ∅
      (next :: parts) t props₁ trees₁ refs₁ lents₁) :
    Stores H h h' source π r trees refs lents (key :: next :: parts) t (setProp props key (.ref h.length))
      (setProp trees key (.node false trees₁)) (insert h.length refs₁ ∪ rest) (lents₁ ∪ kept) := by
  have hbound := hb.refs_bound
  obtain rfl := hf.refs_eq
  obtain rfl := hf.lents_eq
  have hr : r < h.length := (List.getElem?_eq_some_iff.mp hcell).choose
  have hH : H.length ≤ h.length := by
    by_contra hlt
    have hlt' : h.length < H.length := by omega
    have hlast := hext h.length H[h.length] (List.getElem?_eq_getElem hlt')
    simp at hlast
  have hlen : ((h ++ [Cell.empty]).put r key (.ref h.length)).length = h.length + 1 := by
    simp [Heap.put_length]
  have hkeep : ∀ x, x < h.length → x ≠ r → h'[x]? = h[x]? := by
    intro x hx hne
    rw [hs.frame x (by omega) (by omega) (Set.notMem_empty x), Heap.put_ne _ hne, List.getElem?_append_left hx]
  have hnew : ∀ x ∈ insert h.length refs₁, h.length ≤ x := by
    rintro x (rfl | hx)
    · exact le_rfl
    · exact (hs.new x hx).elim (fun hx => hx.elim) fun hx => by omega
  have hrest : ∀ x ∈ rest, x < h.length ∧ x ≠ r := by
    refine fun x hx => ⟨(hbound x (.inr hx)).2, ?_⟩
    rintro rfl
    exact hfresh (.inr hx)
  refine ⟨?_, ?_, ?_, ?_, ?_, fun x hx hne _ => hkeep x hx hne, by have := hs.grows; omega, ?_⟩
  · rw [hs.frame r (by omega) (by omega) (Set.notMem_empty r)]
    exact Heap.put_self ((List.getElem?_append_left hr).trans hcell) key _
  · rintro (hx | hx)
    · have := hnew r hx
      omega
    · exact hfresh (.inr hx)
  · refine hf.rebuild h' (.ref h.length) (.node false trees₁) (insert h.length refs₁) lents₁
      (fun x hx => hkeep x (hrest x hx).1 (hrest x hx).2)
      (.owned _ h.length props₁ trees₁ refs₁ lents₁ hH hs.cell hs.fresh hs.props) ?_
    refine Set.disjoint_left.mpr fun x hx hx' => ?_
    have := hnew x hx
    have := (hrest x hx').1
    omega
  · simp [placed, hmember, Tree.put, hs.tree]
  · rintro x (hx | hx)
    · exact .inr (hnew x hx)
    · exact .inl (.inr hx)
  · have hpath : π ++ [key] ++ next :: parts = π ++ key :: next :: parts := by simp
    rintro q (hq | hq)
    · rcases hs.held q hq with hq | ⟨hq, -⟩
      · exact .inl (hpath ▸ hq)
      · exact hq.elim
    · refine .inr ⟨.inr hq, fun hpre => hf.apart q hq ?_⟩
      exact (hpath ▸ List.prefix_append (π ++ [key]) (next :: parts) : π ++ [key] <+: π ++ key :: next ::
        parts).trans hpre

end Store

/-- A `setPath` into an owned object, at a path whose value comes from the source, places
that value in the object and writes to nothing else. -/
theorem setPath_stores {path : Path} (hpath : path ≠ []) {h : Heap} (hext : Extends H h) {π : Path} {r : Nat}
    {props : List (String × Value)} {trees : List (String × Tree)} {refs : Set Nat} {lents : Set Path}
    (hr : H.length ≤ r) (hcell : h[r]? = some ⟨false, props⟩) (hfresh : r ∉ refs)
    (hb : BuiltProps H h source π props trees refs lents) {v : Value} {t : Tree}
    (hv : getPath H source (π ++ path) = some v) (hd : Denotes H v t)
    (hsafe : ∀ q ∈ lents, ∀ parts, π ++ path = q ++ parts → parts ≠ [] → ∀ vq tq, getPath H source q = some vq →
      Denotes H vq tq → tq.plain → OwnPath tq parts) :
    ∃ props' trees' refs' lents', Stores H h (setPath h r path v) source π r trees refs lents path t
      props' trees' refs' lents' := by
  induction path generalizing h π r props trees refs lents with
  | nil => exact absurd rfl hpath
  | cons key parts ih =>
    obtain ⟨own, rest, held, kept, hf⟩ := hb.focus key
    cases parts with
    | nil => exact ⟨_, _, _, _, store_last hcell hfresh hf hv hd⟩
    | cons next parts =>
      have hassoc : π ++ [key] ++ next :: parts = π ++ key :: next :: parts := by simp
      have hentry := hf.entry
      -- what `current[key]` finds decides whether the walk goes on or makes a new object
      have hmake : ((Js.Tree.node false trees).member key).filter Tree.plain = none →
          (h.member (.ref r) key).bind h.plain = none →
          ∃ props' trees' refs' lents', Stores H h (setPath h r (key :: next :: parts) v) source π r trees refs lents
            (key :: next :: parts) t props' trees' refs' lents' := by
        intro hmember hplain
        have hlen : r < h.length := (List.getElem?_eq_some_iff.mp hcell).choose
        have hcell₁ : ((h ++ [Cell.empty]).put r key (.ref h.length))[h.length]? = some ⟨false, []⟩ := by
          rw [Heap.put_ne _ (by omega)]
          simp [Cell.empty]
        have hext₁ : Extends H ((h ++ [Cell.empty]).put r key (.ref h.length)) := by
          intro x cell hx
          have hlt : x < H.length := (List.getElem?_eq_some_iff.mp hx).choose
          rw [Heap.put_ne _ (by omega), List.getElem?_append_left (by omega)]
          exact hext x cell hx
        have hH : H.length ≤ h.length := by omega
        obtain ⟨props₁, trees₁, refs₁, lents₁, hs⟩ :=
          ih (by simp) hext₁ hH hcell₁ (Set.notMem_empty _) (.nil (π ++ [key]))
          (by rwa [hassoc]) (fun q hq => hq.elim)
        simp only [setPath, hplain]
        exact ⟨_, _, _, _, store_new hext hb hcell hfresh hf hmember hs⟩
      have hread : h.member (.ref r) key =
          (props.lookup key).or ((inherited false props.length key).map .atom) := by
        simp [Heap.member, hcell]
      cases hprops : props.lookup key with
      | none =>
        cases htrees : trees.lookup key with
        | some t₀ => exact (htrees ▸ hprops ▸ hentry : Entry H h source _ own held none (some t₀)).elim
        | none =>
          apply hmake
          · simp only [Tree.member, htrees, Option.none_or]
            cases inherited false trees.length key <;> simp [Option.filter, Tree.plain]
          · rw [hread, hprops, Option.none_or]
            cases inherited false props.length key <;> rfl
      | some v₀ =>
        cases htrees : trees.lookup key with
        | none => exact (htrees ▸ hprops ▸ hentry : Entry H h source _ own held (some v₀) none).elim
        | some t₀ =>
          have hbuilt : Built H h source (π ++ [key]) v₀ t₀ own held := by
            simpa only [hprops, htrees, Entry] using hentry
          cases hbuilt with
          | owned _ r₀ props₀ trees₀ refs₀ _ hr₀ hcell₀ hfresh₀ hb₀ =>
            have hplain : (h.member (.ref r) key).bind h.plain = some r₀ := by
              simp [hread, hprops, Heap.plain, hcell₀]
            obtain ⟨props₁, trees₁, refs₁, lents₁, hs⟩ := ih (by simp) hext hr₀ hcell₀ hfresh₀ hb₀ (by rwa [hassoc])
              (fun q hq => hassoc ▸ hsafe q (hf.lents_eq ▸ .inl hq))
            simp only [setPath, hplain]
            exact ⟨_, _, _, _, store_owned hb hcell hfresh hr₀ hf hprops htrees hs⟩
          | lent _ _ _ hv₀ hd₀ =>
            by_cases hplain₀ : t₀.plain
            · have hheld : π ++ [key] ∈ lents := hf.lents_eq ▸ .inl rfl
              have hown := hsafe (π ++ [key]) hheld (next :: parts) hassoc.symm (by simp) v₀ t₀ hv₀ hd₀ hplain₀
              cases hd₀ with
              | atom a => exact absurd hplain₀ (by simp [Tree.plain])
              | node r₀ array props₀ trees₀ hcell₀ hprops₀ =>
                obtain rfl : array = false := by simpa [Tree.plain] using hplain₀
                have hplain : (h.member (.ref r) key).bind h.plain = some r₀ := by
                  simp [hread, hprops, Heap.plain, hext r₀ _ hcell₀]
                have hrest : getPath H (.ref r₀) (next :: parts) = some v := by
                  rw [← hassoc, getPath_append, hv₀, Option.bind_some] at hv
                  exact hv
                have hd₁ : Denotes H (.ref r₀) (.node false trees₀) := .node r₀ false props₀ trees₀ hcell₀ hprops₀
                have hsame : setPath h r (key :: next :: parts) v = h := by
                  simp only [setPath, hplain]
                  exact setPath_own hext hd₁ hown hrest
                rw [hsame]
                exact ⟨_, _, _, _, store_lent hb hcell hfresh hf htrees hplain₀ hown hd₁ hrest hd⟩
            · apply hmake
              · simp [Tree.member, htrees, Option.filter, hplain₀]
              · rw [hread, hprops, Option.some_or, Option.bind_some]
                cases hd₀ with
                | atom a => rfl
                | node r₀ array props₀ trees₀ hcell₀ hprops₀ =>
                  have harray : array = true := by simpa [Tree.plain] using hplain₀
                  simp [Heap.plain, hext r₀ _ hcell₀, harray]

theorem getPath_extends (hext : Extends H h) {v : Value} {t : Tree} (hd : Denotes H v t) (path : Path) :
    getPath h v path = getPath H v path := by
  induction path generalizing v t with
  | nil => rfl
  | cons part parts ih =>
    have hmember : h.member v part = H.member v part := by
      cases hd with
      | atom a => rfl
      | node r array props trees hr hprops => simp [Heap.member, hr, hext r _ hr]
    have hrel := hd.member part
    simp only [getPath, hmember]
    cases hv : H.member v part with
    | none => rfl
    | some v' =>
      rw [hv] at hrel
      obtain ⟨t', -, hd'⟩ := hrel.some_left
      exact ih hd'

/-- The loop of `projectFields`, from any point of it. -/
private theorem projectFields_loop {ts : Tree} (hsource : Denotes H source ts) {paths : List Path}
    (hpaths : ∀ path ∈ paths, path ≠ []) {stored : List Path} (hun : Untouched ts stored paths) {h : Heap}
    (hext : Extends H h) {props : List (String × Value)} {trees : List (String × Tree)} {refs : Set Nat}
    {lents : Set Path} (hcell : h[H.length]? = some ⟨false, props⟩) (hfresh : H.length ∉ refs)
    (hb : BuiltProps H h source [] props trees refs lents) (hheld : ∀ q ∈ lents, q ∈ stored) :
    Denotes (paths.foldl (projectField source H.length) h) (.ref H.length)
        (paths.foldl (projectedField ts) (.node false trees)) ∧
      Extends H (paths.foldl (projectField source H.length) h) := by
  induction paths generalizing stored h props trees refs lents with
  | nil =>
    have hbuilt : Built H h source [] (.ref H.length) (.node false trees) (insert H.length refs) lents :=
      .owned [] H.length props trees refs lents le_rfl hcell hfresh hb
    exact ⟨hbuilt.denotes hext, hext⟩
  | cons path paths ih =>
    have hrest : ∀ path ∈ paths, path ≠ [] := fun q hq => hpaths q (List.mem_cons_of_mem path hq)
    have hrel := getPath_denotes hsource path
    simp only [List.foldl_cons, projectField, projectedField, getPath_extends hext hsource]
    simp only [Untouched] at hun
    cases ht : valueAt ts path with
    | none =>
      rw [ht] at hrel hun
      rw [hrel.none_right]
      exact ih hrest hun hext hcell hfresh hb hheld
    | some t =>
      rw [ht] at hrel hun
      obtain ⟨v, hv, hd⟩ := hrel.some_right
      obtain ⟨-, hclean, hun⟩ := hun
      rw [hv]
      have hsafe : ∀ q ∈ lents, ∀ parts, [] ++ path = q ++ parts → parts ≠ [] → ∀ vq tq, getPath H source q = some vq →
          Denotes H vq tq → tq.plain → OwnPath tq parts := by
        intro q hq parts hsplit hparts vq tq hvq hdq hplain
        have hrelq := getPath_denotes hsource q
        rw [hvq] at hrelq
        obtain ⟨tq', htq', hdq'⟩ := hrelq.some_left
        obtain rfl := hdq.unique hdq'
        exact hclean q (hheld q hq) parts hsplit hparts tq htq' hplain
      obtain ⟨props', trees', refs', lents', hs⟩ := setPath_stores (hpaths path List.mem_cons_self) hext le_rfl hcell
        hfresh hb (by simpa using hv) hd hsafe
      simp only [hs.tree]
      refine ih hrest hun ?_ hs.cell hs.fresh hs.props fun q hq => ?_
      · intro x cell hx
        have hlt : x < H.length := (List.getElem?_eq_some_iff.mp hx).choose
        have hle : x < h.length := (List.getElem?_eq_some_iff.mp (hext x cell hx)).choose
        rw [hs.frame x hle (by omega) fun hxr => absurd (hb.refs_bound x hxr).1 (by omega)]
        exact hext x cell hx
      · rcases hs.held q hq with rfl | ⟨hq, hpre⟩
        · exact List.mem_cons_self
        · exact List.mem_cons_of_mem _ (List.mem_filter.mpr ⟨hheld q hq, by simpa using hpre⟩)

/-- A projection that goes through nothing it holds by reference gives the projected tree
and leaves the heap it started from as it was. -/
theorem projectFields_denotes {ts : Tree} (hsource : Denotes H source ts) {paths : List Path}
    (hpaths : ∀ path ∈ paths, path ≠ []) (hun : Untouched ts [] paths) :
    Denotes (projectFields H source paths).2 (projectFields H source paths).1 (projected ts paths) ∧
      Extends H (projectFields H source paths).2 := by
  apply projectFields_loop hsource hpaths hun (Extends.append H _) _ (Set.notMem_empty _) (.nil [])
  · exact fun q hq => hq.elim
  · simp [Cell.empty]

end MessagingGateway.Routing
