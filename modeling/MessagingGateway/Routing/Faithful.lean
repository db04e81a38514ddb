import MessagingGateway.Routing.Placing
import MessagingGateway.Routing.Sharing

/-! When a projection is faithful: the order of the paths does not matter exactly where no
selected path goes on below another one through an array or to an inherited property. -/
namespace MessagingGateway.Routing
open Js

def walk (h : Heap) (current : Nat) : Path → List Nat
  | [] | [_] => [current]
  | key :: next :: parts => current :: match (h.member (.ref current) key).bind h.plain with
    | some child => walk h child (next :: parts)
    | none => []

private theorem walk_fresh {h : Heap} {c : Nat} (hcell : h[c]? = some ⟨false, []⟩) (path : Path) :
    walk h c path = [c] := by
  cases path with
  | nil => rfl
  | cons key parts =>
    cases parts with
    | nil => rfl
    | cons next parts =>
      have hnone : (h.member (.ref c) key).bind h.plain = none := by
        simp only [Heap.member, hcell, Option.bind_some, List.lookup_nil, Option.none_or]
        cases inherited false 0 key <;> rfl
      rw [walk, hnone]

/-- What the walk goes on in is an own property that holds a plain object. -/
private theorem member_plain {h : Heap} {c child : Nat} {key : String}
    (hchild : (h.member (.ref c) key).bind h.plain = some child) :
    ∃ cell props, h[c]? = some cell ∧ cell.props.lookup key = some (.ref child) ∧ h[child]? = some ⟨false, props⟩ := by
  obtain ⟨v, hmember, hplain⟩ := Option.bind_eq_some_iff.mp hchild
  cases v with
  | atom a => exact absurd hplain (by simp [Heap.plain])
  | ref r =>
    have hr : (h[r]?.any fun cell => !cell.array) = true ∧ r = child := by simpa [Heap.plain] using hplain
    obtain ⟨hany, rfl⟩ := hr
    cases hr : h[r]? with
    | none => simp [hr] at hany
    | some rcell =>
      obtain ⟨array, props⟩ := rcell
      obtain rfl : array = false := by simpa [hr] using hany
      cases hc : h[c]? with
      | none => simp [Heap.member, hc] at hmember
      | some cell =>
        refine ⟨cell, props, rfl, ?_, rfl⟩
        simp only [Heap.member, hc, Option.bind_some] at hmember
        cases hlookup : cell.props.lookup key with
        | some v' => simpa [hlookup] using hmember
        | none =>
          rw [hlookup, Option.none_or] at hmember
          cases hin : inherited cell.array cell.props.length key <;> simp [hin] at hmember

private theorem new_cell {h : Heap} {c : Nat} (hc : c < h.length) (key : String) :
    ((h ++ [Cell.empty]).put c key (.ref h.length))[h.length]? = some ⟨false, []⟩ := by
  rw [Heap.put_ne _ (by omega)]
  simp [Cell.empty]

private theorem setPath_frame {h : Heap} {c x : Nat} {path : Path} (v : Value) (hc : c < h.length) (hx : x < h.length)
    (hwalk : x ∉ walk h c path) : (setPath h c path v)[x]? = h[x]? := by
  induction path generalizing h c with
  | nil => rfl
  | cons key parts ih =>
    have hne : x ≠ c := by
      rintro rfl
      apply hwalk
      cases parts <;> exact List.mem_cons_self
    cases parts with
    | nil => exact Heap.put_ne h hne key v
    | cons next parts =>
      rw [walk] at hwalk
      rw [setPath]
      split
      · rename_i child hchild
        rw [hchild] at hwalk
        obtain ⟨_, _, _, _, hcell⟩ := member_plain hchild
        exact ih (List.getElem?_eq_some_iff.mp hcell).choose hx fun hmem => hwalk (List.mem_cons_of_mem _ hmem)
      · have hnew : x ∉ walk ((h ++ [Cell.empty]).put c key (.ref h.length)) h.length (next :: parts) := by
          rw [walk_fresh (new_cell hc key)]
          exact fun hmem => absurd (List.mem_singleton.mp hmem) (by omega)
        have hlength : ((h ++ [Cell.empty]).put c key (.ref h.length)).length = h.length + 1 := by
          rw [Heap.put_length, List.length_append, List.length_singleton]
        rw [ih (by omega) (by omega) hnew, Heap.put_ne _ hne, List.getElem?_append_left hx]

private theorem setPath_array {h : Heap} {c x : Nat} (path : Path) (v : Value) (hx : x < h.length) :
    (setPath h c path v)[x]?.map Cell.array = h[x]?.map Cell.array := by
  have hput : ∀ (h : Heap) (c : Nat) key v, (h.put c key v)[x]?.map Cell.array = h[x]?.map Cell.array := by
    intro h c key v
    rcases eq_or_ne x c with rfl | hne
    · cases hcell : h[x]? with
      | none => simp [Heap.put, hcell]
      | some cell =>
        obtain ⟨array, props⟩ := cell
        rw [Heap.put_self hcell, Option.map_some, Option.map_some]
    · rw [Heap.put_ne _ hne]
  induction path generalizing h c with
  | nil => rfl
  | cons key parts ih =>
    cases parts with
    | nil => exact hput h c key v
    | cons next parts =>
      rw [setPath]
      split
      · exact ih hx
      · rw [ih (by rw [Heap.put_length, List.length_append]; omega), hput, List.getElem?_append_left hx]

private theorem depth_lookup {trees : List (String × Tree)} {key : String} {t : Tree} (h : trees.lookup key = some t) :
    t.depth ≤ Tree.depthProps trees := by
  induction trees with
  | nil => exact absurd h (by simp)
  | cons p trees ih =>
    obtain ⟨k, t'⟩ := p
    rw [Tree.depthProps]
    by_cases hk : key = k
    · have hsame : t' = t := by simpa [List.lookup_cons, hk] using h
      exact le_max_of_le_left (hsame ▸ le_rfl)
    · have hrest : trees.lookup key = some t := by simpa [List.lookup_cons, beq_eq_false_iff_ne.mpr hk] using h
      exact le_max_of_le_right (ih hrest)

/-- The walk only goes down. -/
private theorem walk_depth {h : Heap} {c x : Nat} {path : Path} {t : Tree} (hd : Denotes h (.ref c) t)
    (hx : x ∈ walk h c path) : ∃ tx, Denotes h (.ref x) tx ∧ tx.depth ≤ t.depth := by
  induction path generalizing c t with
  | nil => exact ⟨t, List.mem_singleton.mp hx ▸ hd, le_rfl⟩
  | cons key parts ih =>
    cases parts with
    | nil => exact ⟨t, List.mem_singleton.mp hx ▸ hd, le_rfl⟩
    | cons next parts =>
      rw [walk] at hx
      rcases List.mem_cons.mp hx with rfl | hx
      · exact ⟨t, hd, le_rfl⟩
      · cases hchild : (h.member (.ref c) key).bind h.plain with
        | none => simp [hchild] at hx
        | some child =>
          rw [hchild] at hx
          obtain ⟨cell, _, hcell, hlookup, _⟩ := member_plain hchild
          cases hd with
          | node _ array props trees hr hprops =>
            obtain rfl := Option.some.inj (hcell.symm.trans hr)
            have hrel := hprops.lookup key
            rw [show props.lookup key = some (.ref child) from hlookup] at hrel
            obtain ⟨t', ht', hd'⟩ := hrel.some_left
            obtain ⟨tx, hdx, hle⟩ := ih hd' hx
            have hdepth := depth_lookup ht'
            exact ⟨tx, hdx, by rw [Tree.depth]; omega⟩

/-- Own properties lead through plain objects to the last part. -/
def OwnRef (h : Heap) : Nat → Path → Prop
  | _, [] => False
  | c, [last] => ∃ cell, h[c]? = some cell ∧ (cell.props.lookup last).isSome
  | c, key :: next :: parts => ∃ cell child, h[c]? = some cell ∧ cell.props.lookup key = some (.ref child) ∧
      h[child]?.map Cell.array = some false ∧ OwnRef h child (next :: parts)

theorem OwnRef.ownPath {h : Heap} {c : Nat} {path : Path} {t : Tree} (hown : OwnRef h c path)
    (hd : Denotes h (.ref c) t) : OwnPath t path := by
  induction path generalizing c t with
  | nil => exact hown.elim
  | cons key parts ih =>
    cases hd with
    | node _ array props trees hr hprops =>
      have hrel := hprops.lookup key
      cases parts with
      | nil =>
        obtain ⟨cell, hcell, hsome⟩ := hown
        obtain rfl := Option.some.inj (hr.symm.trans hcell)
        obtain ⟨v, hv⟩ := Option.isSome_iff_exists.mp hsome
        rw [show props.lookup key = some v from hv] at hrel
        obtain ⟨t', ht', _⟩ := hrel.some_left
        exact Option.isSome_iff_exists.mpr ⟨t', ht'⟩
      | cons next parts =>
        obtain ⟨cell, child, hcell, hlookup, harray, hrest⟩ := hown
        obtain rfl := Option.some.inj (hr.symm.trans hcell)
        rw [show props.lookup key = some (.ref child) from hlookup] at hrel
        obtain ⟨t', ht', hd'⟩ := hrel.some_left
        refine ⟨t', ht', ?_, ih hrest hd'⟩
        cases hd' with
        | node _ array' props' trees' hr' _ =>
          have hfalse : array' = false := by simpa [hr'] using harray
          rw [hfalse]
          rfl

/-- Where the walk cannot come back to a cell, its path is there afterwards. -/
theorem setPath_ownRef {h : Heap} {c : Nat} {path : Path} {t : Tree} (v : Value) (hpath : path ≠ [])
    (hd : Denotes h (.ref c) t) : OwnRef (setPath h c path v) c path := by
  induction path generalizing h c t with
  | nil => exact absurd rfl hpath
  | cons key parts ih =>
    cases hd with
    | node _ array props trees hr hprops =>
      have hc : c < h.length := (List.getElem?_eq_some_iff.mp hr).choose
      cases parts with
      | nil =>
        refine ⟨_, Heap.put_self hr key v, ?_⟩
        rw [lookup_setProp, if_pos rfl, Option.isSome_some]
      | cons next parts =>
        rw [setPath]
        split
        · rename_i child hchild
          obtain ⟨cell, props', hcell, hlookup, hcell'⟩ := member_plain hchild
          obtain rfl := Option.some.inj (hr.symm.trans hcell)
          have hrel := hprops.lookup key
          rw [show props.lookup key = some (.ref child) from hlookup] at hrel
          obtain ⟨t', ht', hd'⟩ := hrel.some_left
          have hchild_lt : child < h.length := (List.getElem?_eq_some_iff.mp hcell').choose
          have hapart : c ∉ walk h child (next :: parts) := by
            intro hmem
            obtain ⟨tx, hdx, hle⟩ := walk_depth hd' hmem
            have hsame := hdx.unique (.node c array props trees hr hprops)
            have hdepth := depth_lookup ht'
            rw [hsame, Tree.depth] at hle
            omega
          refine ⟨⟨array, props⟩, child, ?_, hlookup, ?_, ih (List.cons_ne_nil _ _) hd'⟩
          · rw [setPath_frame v hchild_lt hc hapart, hr]
          · rw [setPath_array _ v hchild_lt, hcell', Option.map_some]
        · have hnew := new_cell hc key
          have hlength : ((h ++ [Cell.empty]).put c key (.ref h.length)).length = h.length + 1 := by
            rw [Heap.put_length, List.length_append, List.length_singleton]
          have hcell : ((h ++ [Cell.empty]).put c key (.ref h.length))[c]? =
              some ⟨array, setProp props key (.ref h.length)⟩ :=
            Heap.put_self ((List.getElem?_append_left hc).trans hr) key _
          have hapart : c ∉ walk ((h ++ [Cell.empty]).put c key (.ref h.length)) h.length (next :: parts) := by
            rw [walk_fresh hnew]
            exact fun hmem => absurd (List.mem_singleton.mp hmem) (by omega)
          refine ⟨⟨array, setProp props key (.ref h.length)⟩, h.length, ?_, ?_, ?_,
            ih (List.cons_ne_nil _ _) (.node h.length false [] [] hnew .nil)⟩
          · rw [setPath_frame v (by omega) (by omega) hapart, hcell]
          · rw [lookup_setProp, if_pos rfl]
          · rw [setPath_array _ v (by omega), hnew, Option.map_some]

/-- `projectFields` gives the tree. -/
def Gives (source : Json) (paths : List String) (out : Tree) : Prop :=
  Denotes (projectFields (Heap.load source []).2 (Heap.load source []).1 (paths.map splitPath)).2
    (projectFields (Heap.load source []).2 (Heap.load source []).1 (paths.map splitPath)).1 out

/-- The selected values that are defined are there, every leaf is one of the source's on or
below a selected path, and permuting the paths changes nothing but the order of keys. -/
def Faithful (source : Json) (paths : List String) : Prop :=
  ∃ out, Gives source paths out ∧
    (∀ p v, Selected (.ofJson source) (paths.map splitPath) p v → ∃ v', valueAt out p = some v' ∧ Alike v' v) ∧
    (∀ q x, q ≠ [] → ownAt out q = some x → Tree.bare x →
      (∃ p ∈ paths.map splitPath, p <+: q) ∧ valueAt (.ofJson source) q = some x) ∧
    ∀ paths', paths'.Perm paths → ∃ out', Gives source paths' out' ∧ Alike out' out

private theorem splitPath_ne_nil (path : String) : splitPath path ≠ [] := by
  unfold splitPath
  rw [ne_eq, List.map_eq_nil_iff]
  exact List.splitOn_ne_nil _ _

private theorem splitPaths_ne_nil {paths : List String} : ∀ path ∈ paths.map splitPath, path ≠ [] := by
  intro path hpath
  obtain ⟨text, _, rfl⟩ := List.mem_map.mp hpath
  exact splitPath_ne_nil text

private theorem untouched_of_nested {source : Tree} {paths stored later : List Path} (hnested : Nested source paths)
    (hproto : ProtoFree source paths) (hstored : stored ⊆ paths) (hlater : later ⊆ paths) :
    Untouched source stored later := by
  induction later generalizing stored with
  | nil => trivial
  | cons path later ih =>
    have hpath : path ∈ paths := hlater List.mem_cons_self
    have hrest : later ⊆ paths := fun q hq => hlater (List.mem_cons_of_mem path hq)
    rw [Untouched]
    split
    · exact ih hstored hrest
    · rename_i w hw
      refine ⟨hproto path w ⟨hpath, hw⟩, ?_, ?_⟩
      · intro q hq parts hsplit hparts v hv _
        exact (hnested q v path w ⟨hstored hq, hv⟩ ⟨hpath, hw⟩ parts hsplit hparts).2
      · refine ih ?_ hrest
        intro q hq
        rcases List.mem_cons.mp hq with rfl | hq
        · exact hpath
        · exact hstored (List.mem_filter.mp hq).1

private theorem faithful_of_nested {source : Json} {paths : List String}
    (hproto : ProtoFree (.ofJson source) (paths.map splitPath))
    (hnested : Nested (.ofJson source) (paths.map splitPath)) : Faithful source paths := by
  have hgives : ∀ paths' : List String, paths'.Perm paths →
      Gives source paths' (projected (.ofJson source) (paths'.map splitPath)) := by
    intro paths' hperm
    have hsub : paths'.map splitPath ⊆ paths.map splitPath := (hperm.map splitPath).subset
    exact (projectFields_denotes (load_denotes source []).1 splitPaths_ne_nil
      (untouched_of_nested hnested hproto (List.nil_subset _) hsub)).1
  have hshows : ∀ paths' : List String, paths'.Perm paths →
      Shows (.ofJson source) (paths'.map splitPath) (projected (.ofJson source) (paths'.map splitPath)) :=
    fun paths' hperm => projected_shows (hnested.subset (hperm.map splitPath).subset) splitPaths_ne_nil
  have hout := hshows paths (List.Perm.refl paths)
  refine ⟨_, hgives paths (List.Perm.refl paths), ?_, ?_, ?_⟩
  · intro p v hp
    exact ⟨v, valueAt_of_ownAt (hout.value p v hp), Alike.refl v⟩
  · intro q x hq hx hbare
    exact hout.leaf hq hx hbare
  · intro paths' hperm
    exact ⟨_, hgives paths' hperm, (hshows paths' hperm).alike hout fun p => (hperm.map splitPath).mem_iff⟩

private theorem OwnPath.below {t child : Tree} {p parts : Path} (h : OwnPath t (p ++ parts))
    (hp : ownAt t p = some child) (hparts : parts ≠ []) : OwnPath child parts := by
  obtain ⟨_, hsome, hway⟩ := ownPath_iff.mp h
  have hstep : ∀ q, ownAt t (p ++ q) = ownAt child q := by
    intro q
    rw [ownAt_append, hp, Option.bind_some]
  refine ownPath_iff.mpr ⟨hparts, by rw [← hstep, hsome], ?_⟩
  intro r s hsplit hr hs
  rw [← hstep]
  exact hway (p ++ r) s (by rw [hsplit, List.append_assoc]) (List.append_ne_nil_of_right_ne_nil p hr) hs

/-- From the longest path to the shortest, no walk goes through a value that is held. -/
private theorem untouched_of_lengths {source : Tree} {stored later : List Path} (hproto : ProtoFree source later)
    (hsorted : later.Pairwise fun path path' => path'.length ≤ path.length)
    (hstored : ∀ q ∈ stored, ∀ path ∈ later, path.length ≤ q.length) : Untouched source stored later := by
  induction later generalizing stored with
  | nil => trivial
  | cons path later ih =>
    obtain ⟨hfirst, hrest⟩ := List.pairwise_cons.mp hsorted
    have hproto' : ProtoFree source later := hproto.subset (List.subset_cons_self path later)
    rw [Untouched]
    split
    · exact ih hproto' hrest fun q hq path' hpath' => hstored q hq path' (List.mem_cons_of_mem path hpath')
    · rename_i w hw
      refine ⟨hproto path w ⟨List.mem_cons_self, hw⟩, ?_, ?_⟩
      · intro q hq parts hsplit hparts
        have hle := hstored q hq path List.mem_cons_self
        have hpos := List.length_pos_iff.mpr hparts
        rw [hsplit, List.length_append] at hle
        omega
      · apply ih hproto' hrest
        intro q hq path' hpath'
        rcases List.mem_cons.mp hq with rfl | hq
        · exact hfirst path' hpath'
        · exact hstored q (List.mem_filter.mp hq).1 path' (List.mem_cons_of_mem path hpath')

private theorem exists_longest_first (paths : List String) :
    ∃ paths' : List String, paths'.Perm paths ∧
      (paths'.map splitPath).Pairwise fun path path' => path'.length ≤ path.length := by
  refine ⟨paths.mergeSort fun a b => decide ((splitPath b).length ≤ (splitPath a).length),
    List.mergeSort_perm paths _, ?_⟩
  rw [List.pairwise_map]
  refine (List.pairwise_mergeSort ?_ ?_ paths).imp fun hle => of_decide_eq_true hle
  · intro a b c hab hbc
    have hab' := of_decide_eq_true hab
    have hbc' := of_decide_eq_true hbc
    exact decide_eq_true (hbc'.trans hab')
  · intro a b
    rw [Bool.or_eq_true, decide_eq_true_iff, decide_eq_true_iff]
    exact Nat.le_total _ _

/-- The path that is set last is there, through plain objects. -/
private theorem ownPath_last {source : Json} {others : List String} {last : String} {w out : Tree}
    (hproto : ProtoFree (.ofJson source) (others.map splitPath))
    (hsorted : (others.map splitPath).Pairwise fun path path' => path'.length ≤ path.length)
    (hw : valueAt (.ofJson source) (splitPath last) = some w) (hout : Gives source (others ++ [last]) out) :
    OwnPath out (splitPath last) := by
  have hsource := (load_denotes source []).1
  obtain ⟨hbefore, hext⟩ := projectFields_denotes hsource splitPaths_ne_nil
    (untouched_of_lengths hproto hsorted fun q hq => absurd hq List.not_mem_nil)
  have hrel := getPath_denotes hsource (splitPath last)
  rw [hw] at hrel
  obtain ⟨v, hv, _⟩ := hrel.some_right
  have hlast : (projectFields (Heap.load source []).2 (Heap.load source []).1 ((others ++ [last]).map splitPath)).2 =
      setPath (projectFields (Heap.load source []).2 (Heap.load source []).1 (others.map splitPath)).2
        (Heap.load source []).2.length (splitPath last) v := by
    have hget := (getPath_extends hext hsource (splitPath last)).trans hv
    rw [projectFields, List.map_append, List.foldl_append]
    rw [projectFields] at hget
    simp only [List.map_cons, List.map_nil, List.foldl_cons, List.foldl_nil]
    rw [projectField, hget, projectFields]
  rw [Gives, hlast] at hout
  exact (setPath_ownRef v (splitPath_ne_nil last) hbefore).ownPath hout

private theorem nested_of_faithful {source : Json} {paths : List String}
    (hproto : ProtoFree (.ofJson source) (paths.map splitPath)) (hfaithful : Faithful source paths) :
    Nested (.ofJson source) (paths.map splitPath) := by
  obtain ⟨out, _, hvalues, _, hperms⟩ := hfaithful
  rintro p v q w hp ⟨hmem, hw⟩ parts rfl hparts
  obtain ⟨last, hlast, hsplit⟩ := List.mem_map.mp hmem
  obtain ⟨others, hothers, hsorted⟩ := exists_longest_first (paths.erase last)
  have hperm : (others ++ [last]).Perm paths :=
    ((hothers.append_right [last]).trans List.perm_append_comm).trans (List.perm_cons_erase hlast).symm
  obtain ⟨out', hout', halike⟩ := hperms _ hperm
  have hproto' : ProtoFree (.ofJson source) (others.map splitPath) :=
    hproto.subset (List.map_subset splitPath fun path hpath => hperm.subset (List.mem_append_left _ hpath))
  have hown : OwnPath out (p ++ parts) := by
    rw [← hsplit]
    exact halike.ownPath (ownPath_last hproto' hsorted (by rw [hsplit, hw]) hout')
  have hp_ne : p ≠ [] := splitPaths_ne_nil p hp.1
  obtain ⟨child, hchild, hplain⟩ := (ownPath_iff.mp hown).2.2 p parts rfl hp_ne hparts
  obtain ⟨v', hv', halike_v⟩ := hvalues p v hp
  obtain rfl := Option.some.inj ((valueAt_of_ownAt hchild).symm.trans hv')
  exact ⟨halike_v.plain hplain, halike_v.ownPath (OwnPath.below hown hchild hparts)⟩

theorem projectFields_faithful_iff (source : Json) (paths : List String)
    (hproto : ProtoFree (.ofJson source) (paths.map splitPath)) :
    Faithful source paths ↔ Nested (.ofJson source) (paths.map splitPath) :=
  ⟨nested_of_faithful hproto, faithful_of_nested hproto⟩

theorem order_faithful :
    Faithful (.obj [("order", .obj [("id", .str "A-7"), ("total", .num "12")])]) ["order", "order.id"] := by
  have hnone : ∀ path ∈ ["order", "order.id"].map splitPath, "__proto__" ∉ path := by decide
  apply (projectFields_faithful_iff _ _ fun p v hp => hnone p hp.1).mpr
  rintro p v q w ⟨hp, hv⟩ ⟨hq, _⟩ parts rfl hparts
  have hpaths : ["order", "order.id"].map splitPath = [["order"], ["order", "id"]] := by decide
  rw [hpaths, List.mem_pair] at hp hq
  rcases hp with rfl | rfl
  · obtain rfl : parts = ["id"] := by
      rcases hq with hq | hq
      · exact absurd (List.append_right_eq_self.mp hq) hparts
      · exact List.append_cancel_left (show ["order"] ++ parts = ["order"] ++ ["id"] from hq)
    obtain rfl := Option.some.inj hv
    exact ⟨rfl, rfl⟩
  · have hlength := hq.imp (congrArg List.length) (congrArg List.length)
    have hpos := List.length_pos_iff.mpr hparts
    simp only [List.length_append, List.length_cons, List.length_nil] at hlength
    omega

/-- With `list` held, `list.0` writes a plain object over the array. -/
theorem element_unfaithful : ¬ Faithful (.obj [("list", .arr [.str "a", .str "b"])]) ["list", "list.0"] := by
  intro hfaithful
  have hnone : ∀ path ∈ ["list", "list.0"].map splitPath, "__proto__" ∉ path := by decide
  have hnested := nested_of_faithful (fun p v hp => hnone p hp.1) hfaithful
  have hpaths : ["list", "list.0"].map splitPath = [["list"], ["list", "0"]] := by decide
  rw [hpaths] at hnested
  have hplain := (hnested ["list"] (.node true [("0", .leaf (.str "a")), ("1", .leaf (.str "b"))]) ["list", "0"]
    (.leaf (.str "a")) ⟨List.mem_cons_self, rfl⟩ ⟨List.mem_cons_of_mem _ List.mem_cons_self, rfl⟩ ["0"] rfl
    (List.cons_ne_nil _ _)).1
  exact absurd hplain Bool.false_ne_true

end MessagingGateway.Routing
