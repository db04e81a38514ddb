import MessagingGateway.Routing.Projection

/-! What is found in a projected tree below a selected path, on the way to one, and elsewhere. -/
namespace MessagingGateway.Routing
open Js

/-- Follows own properties only. -/
def ownAt : Tree → Path → Option Tree
  | t, [] => some t
  | t, part :: parts => (t.own part).bind (ownAt · parts)

/-- A scalar, or whether it is an array. -/
def kind : Tree → Atom ⊕ Bool
  | .leaf a => .inl a
  | .node array _ => .inr array

/-- The same own properties all the way down, in any order. -/
def Alike (t t' : Tree) : Prop := ∀ path, (ownAt t path).map kind = (ownAt t' path).map kind

/-- A scalar or an empty container. -/
def Tree.bare : Tree → Prop
  | .leaf _ => True
  | .node _ props => props = []

theorem Alike.refl (t : Tree) : Alike t t := fun _ => rfl

theorem Alike.symm {t t' : Tree} (h : Alike t t') : Alike t' t := fun path => (h path).symm

theorem Alike.trans {t t' t'' : Tree} (h : Alike t t') (h' : Alike t' t'') : Alike t t'' :=
  fun path => (h path).trans (h' path)

private theorem plain_iff {t : Tree} : t.plain ↔ kind t = .inr false := by
  cases t <;> simp [Tree.plain, kind]

theorem ownAt_append (t : Tree) (p q : Path) : ownAt t (p ++ q) = (ownAt t p).bind (ownAt · q) := by
  induction p generalizing t with
  | nil => rfl
  | cons part parts ih =>
    rw [List.cons_append, ownAt, ownAt, Option.bind_assoc]
    congr 1
    funext child
    exact ih child

private theorem valueAt_append (t : Tree) (p q : Path) : valueAt t (p ++ q) = (valueAt t p).bind (valueAt · q) := by
  induction p generalizing t with
  | nil => rfl
  | cons part parts ih =>
    rw [List.cons_append, valueAt, valueAt, Option.bind_assoc]
    congr 1
    funext child
    exact ih child

theorem valueAt_of_ownAt {t v : Tree} {path : Path} (h : ownAt t path = some v) : valueAt t path = some v := by
  induction path generalizing t with
  | nil => exact h
  | cons part parts ih =>
    obtain ⟨child, hchild, hrest⟩ := Option.bind_eq_some_iff.mp h
    have hmember : t.member part = some child := by
      cases t with
      | leaf a => exact absurd hchild (by simp [Tree.own])
      | node array props =>
        have hlookup : props.lookup part = some child := hchild
        simp [Tree.member, hlookup]
    rw [valueAt, hmember, Option.bind_some, ih hrest]

/-- Own paths of likes lead to likes. -/
theorem Alike.ownAt {t t' v : Tree} {path : Path} (h : Alike t t') (hv : ownAt t path = some v) :
    ∃ v', ownAt t' path = some v' ∧ Alike v v' := by
  have hsome := h path
  rw [hv, Option.map_some, eq_comm, Option.map_eq_some_iff] at hsome
  obtain ⟨v', hv', _⟩ := hsome
  refine ⟨v', hv', ?_⟩
  intro parts
  have hboth := h (path ++ parts)
  rwa [ownAt_append, ownAt_append, hv, hv'] at hboth

theorem Alike.plain {t t' : Tree} (h : Alike t t') (ht : t.plain) : t'.plain := by
  have hkind : kind t = kind t' := Option.some.inj (h [])
  rw [plain_iff] at *
  rw [← hkind, ht]

/-- Everything on the way is a plain object, and the last part is there. -/
theorem ownPath_iff {t : Tree} {path : Path} : OwnPath t path ↔ path ≠ [] ∧ (ownAt t path).isSome ∧
    ∀ p q, path = p ++ q → p ≠ [] → q ≠ [] → ∃ child, ownAt t p = some child ∧ child.plain := by
  induction path generalizing t with
  | nil => simp [OwnPath]
  | cons key parts ih =>
    cases parts with
    | nil =>
      have hown : (ownAt t [key]).isSome = (t.own key).isSome := by
        cases h : t.own key <;> simp [ownAt, h]
      rw [hown]
      refine ⟨fun h => ⟨List.cons_ne_nil _ _, h, ?_⟩, fun h => h.2.1⟩
      intro p q hsplit hp hq
      have hlength := congrArg List.length hsplit
      have hp' := List.length_pos_iff.mpr hp
      have hq' := List.length_pos_iff.mpr hq
      simp only [List.length_append, List.length_singleton] at hlength
      omega
    | cons next parts =>
      constructor
      · rintro ⟨child, hchild, hplain, hrest⟩
        obtain ⟨_, hsome, hway⟩ := ih.mp hrest
        have hstep : ∀ q, ownAt t (key :: q) = ownAt child q := by
          intro q
          rw [ownAt, hchild, Option.bind_some]
        refine ⟨List.cons_ne_nil _ _, by rw [hstep, hsome], ?_⟩
        intro p q hsplit hp hq
        obtain ⟨key', p', rfl⟩ := List.exists_cons_of_ne_nil hp
        obtain ⟨rfl, hsplit'⟩ := List.cons.inj hsplit
        rw [hstep]
        cases p' with
        | nil => exact ⟨child, rfl, hplain⟩
        | cons part p' => exact hway _ q hsplit' (List.cons_ne_nil _ _) hq
      · rintro ⟨_, hsome, hway⟩
        obtain ⟨child, hchild, hplain⟩ := hway [key] (next :: parts) rfl (List.cons_ne_nil _ _) (List.cons_ne_nil _ _)
        have hown : t.own key = some child := by
          cases h : t.own key with
          | none => simp [ownAt, h] at hchild
          | some child' => simpa [ownAt, h] using hchild
        have hstep : ∀ q, ownAt t (key :: q) = ownAt child q := by
          intro q
          rw [ownAt, hown, Option.bind_some]
        refine ⟨child, hown, hplain, ih.mpr ⟨List.cons_ne_nil _ _, by rw [← hstep, hsome], ?_⟩⟩
        intro p q hsplit hp hq
        rw [← hstep]
        exact hway (key :: p) q (by rw [hsplit, List.cons_append]) (List.cons_ne_nil _ _) hq

theorem Alike.ownPath {t t' : Tree} {path : Path} (h : Alike t t') (hown : OwnPath t path) : OwnPath t' path := by
  obtain ⟨hne, hsome, hway⟩ := ownPath_iff.mp hown
  refine ownPath_iff.mpr ⟨hne, ?_, ?_⟩
  · obtain ⟨v, hv⟩ := Option.isSome_iff_exists.mp hsome
    obtain ⟨v', hv', _⟩ := h.ownAt hv
    rw [hv', Option.isSome_some]
  · intro p q hsplit hp hq
    obtain ⟨child, hchild, hplain⟩ := hway p q hsplit hp hq
    obtain ⟨child', hchild', halike⟩ := h.ownAt hchild
    exact ⟨child', hchild', halike.plain hplain⟩

/-- The object that the walk goes on in: the one that is there, or a new one. -/
private def below (t : Tree) (key : String) : Tree :=
  match t.own key with
  | some child => if child.plain then child else .node false []
  | none => .node false []

private theorem below_of_plain {t child : Tree} {key : String} (h : t.own key = some child) (hplain : child.plain) :
    below t key = child := by
  rw [below, h]
  exact if_pos hplain

private theorem below_of_not_plain {t : Tree} {key : String} (h : ∀ child, t.own key = some child → ¬ child.plain) :
    below t key = .node false [] := by
  unfold below
  split
  · rename_i child hchild
    exact if_neg (h child hchild)
  · rfl

private theorem below_eq (t : Tree) (key : String) :
    ((t.member key).filter Tree.plain).getD (.node false []) = below t key := by
  cases t with
  | leaf a => cases h : a.member key <;> simp [Tree.member, Tree.own, h, below, Option.filter, Tree.plain]
  | node array props =>
    cases h : props.lookup key with
    | some child => by_cases hplain : child.plain <;> simp [Tree.member, Tree.own, h, below, Option.filter, hplain]
    | none =>
      cases h' : inherited array props.length key <;>
        simp [Tree.member, Tree.own, h, h', below, Option.filter, Tree.plain]

private theorem below_plain (t : Tree) (key : String) : (below t key).plain := by
  unfold below
  split
  · split
    · assumption
    · rfl
  · rfl

private theorem own_put {t : Tree} (hplain : t.plain) (key k : String) (value : Tree) :
    (t.put key value).own k = if k = key then some value else t.own k := by
  cases t with
  | leaf a => exact absurd hplain (by simp [Tree.plain])
  | node array props => exact lookup_setProp props key k value

/-- One step into a tree with a path placed in it. -/
private theorem ownAt_placed_cons {t value : Tree} (hplain : t.plain) (key k : String) (parts path : Path) :
    ownAt (placed t (key :: parts) value) (k :: path) =
      if k = key then ownAt (if parts = [] then value else placed (below t key) parts value) path
      else ownAt t (k :: path) := by
  cases parts with
  | nil =>
    rw [show placed t [key] value = t.put key value from rfl, ownAt, own_put hplain, if_pos rfl]
    split
    · rw [Option.bind_some]
    · rw [ownAt]
  | cons next parts =>
    have hplaced : placed t (key :: next :: parts) value = t.put key (placed (below t key) (next :: parts) value) := by
      rw [← below_eq]
      rfl
    rw [hplaced, ownAt, own_put hplain, if_neg (List.cons_ne_nil _ _)]
    split
    · rw [Option.bind_some]
    · rw [ownAt]

private theorem placed_plain {t value : Tree} (hplain : t.plain) (path : Path) : (placed t path value).plain := by
  cases t with
  | leaf a => exact absurd hplain (by simp [Tree.plain])
  | node array props =>
    cases path with
    | nil => exact hplain
    | cons key parts => cases parts <;> exact hplain

/-- Below the path stands the value. -/
theorem ownAt_placed_below {t v : Tree} (hplain : t.plain) {path : Path} (hpath : path ≠ []) (parts : Path) :
    ownAt (placed t path v) (path ++ parts) = ownAt v parts := by
  induction path generalizing t with
  | nil => exact absurd rfl hpath
  | cons key rest ih =>
    rw [List.cons_append, ownAt_placed_cons hplain, if_pos rfl]
    by_cases hrest : rest = []
    · rw [if_pos hrest, hrest, List.nil_append]
    · rw [if_neg hrest, ih (below_plain t key) hrest]

/-- On the way to it stand plain objects. -/
theorem ownAt_placed_above {t v : Tree} (hplain : t.plain) {p q : Path} (hq : q ≠ []) :
    ∃ child, ownAt (placed t (p ++ q) v) p = some child ∧ child.plain := by
  induction p generalizing t with
  | nil => exact ⟨_, rfl, placed_plain hplain q⟩
  | cons key rest ih =>
    have hne : rest ++ q ≠ [] := List.append_ne_nil_of_right_ne_nil rest hq
    rw [List.cons_append, ownAt_placed_cons hplain, if_pos rfl, if_neg hne]
    exact ih (below_plain t key)

/-- An object that the walk goes through has the rest of the path placed in it. -/
theorem ownAt_placed_through {t v child : Tree} (hplain : t.plain) {p q : Path} (hq : q ≠ [])
    (hchild : ownAt t p = some child) (hway : ∀ r s, p = r ++ s → r ≠ [] → ∃ c, ownAt t r = some c ∧ c.plain) :
    ownAt (placed t (p ++ q) v) p = some (placed child q v) := by
  induction p generalizing t with
  | nil =>
    obtain rfl := Option.some.inj hchild
    rfl
  | cons key rest ih =>
    have hne : rest ++ q ≠ [] := List.append_ne_nil_of_right_ne_nil rest hq
    obtain ⟨c, hc, hc_plain⟩ := hway [key] rest rfl (List.cons_ne_nil _ _)
    have hown : t.own key = some c := by
      cases h : t.own key with
      | none => simp [ownAt, h] at hc
      | some c' => simpa [ownAt, h] using hc
    have hstep : ∀ path, ownAt t (key :: path) = ownAt c path := by
      intro path
      rw [ownAt, hown, Option.bind_some]
    have hbelow : below t key = c := below_of_plain hown hc_plain
    rw [List.cons_append, ownAt_placed_cons hplain, if_pos rfl, if_neg hne, hbelow]
    apply ih hc_plain (hstep rest ▸ hchild)
    intro r s hsplit hr
    rw [← hstep]
    exact hway (key :: r) s (by rw [hsplit, List.cons_append]) (List.cons_ne_nil _ _)

/-- Elsewhere nothing has changed, unless something that is no plain object was in the way. -/
theorem ownAt_placed_apart {t v : Tree} (hplain : t.plain) {p q : Path} (hpq : ¬ p <+: q) (hqp : ¬ q <+: p) :
    (ownAt (placed t q v) p = ownAt t p ∧
        ∀ r, r ≠ [] → r <+: p → r <+: q → ∃ c, ownAt t r = some c ∧ c.plain) ∨
      (ownAt (placed t q v) p = none ∧
        ∃ r, r ≠ [] ∧ r <+: p ∧ r <+: q ∧ ∀ c, ownAt t r = some c → ¬ c.plain) := by
  induction q generalizing t p with
  | nil => exact absurd List.nil_prefix hqp
  | cons key rest ih =>
    cases p with
    | nil => exact absurd List.nil_prefix hpq
    | cons k p =>
      rw [ownAt_placed_cons hplain]
      by_cases hk : k = key
      · subst hk
        have hpq' : ¬ p <+: rest := fun h => hpq (List.cons_prefix_cons.mpr ⟨rfl, h⟩)
        have hqp' : ¬ rest <+: p := fun h => hqp (List.cons_prefix_cons.mpr ⟨rfl, h⟩)
        have hrest : rest ≠ [] := fun h => hqp' (h ▸ List.nil_prefix)
        rw [if_pos rfl, if_neg hrest]
        by_cases hthere : ∃ c, t.own k = some c ∧ c.plain
        · obtain ⟨c, hc, hc_plain⟩ := hthere
          have hstep : ∀ path, ownAt t (k :: path) = ownAt c path := by
            intro path
            rw [ownAt, hc, Option.bind_some]
          have hbelow : below t k = c := below_of_plain hc hc_plain
          rw [hbelow, hstep]
          rcases ih hc_plain hpq' hqp' with ⟨hsame, hway⟩ | ⟨hnone, r, hr, hrp, hrq, hblock⟩
          · refine .inl ⟨hsame, ?_⟩
            intro r hr hrp hrq
            obtain ⟨k', r', rfl⟩ := List.exists_cons_of_ne_nil hr
            obtain ⟨rfl, hrp'⟩ := List.cons_prefix_cons.mp hrp
            obtain ⟨_, hrq'⟩ := List.cons_prefix_cons.mp hrq
            rw [hstep]
            cases r' with
            | nil => exact ⟨c, rfl, hc_plain⟩
            | cons part r' => exact hway _ (List.cons_ne_nil _ _) hrp' hrq'
          · refine .inr ⟨hnone, k :: r, List.cons_ne_nil _ _, List.cons_prefix_cons.mpr ⟨rfl, hrp⟩,
              List.cons_prefix_cons.mpr ⟨rfl, hrq⟩, ?_⟩
            intro c' hc'
            rw [hstep] at hc'
            exact hblock c' hc'
        · have hbelow : below t k = .node false [] :=
            below_of_not_plain fun c hc hc_plain => hthere ⟨c, hc, hc_plain⟩
          refine .inr ⟨?_, [k], List.cons_ne_nil _ _, List.cons_prefix_cons.mpr ⟨rfl, List.nil_prefix⟩,
            List.cons_prefix_cons.mpr ⟨rfl, List.nil_prefix⟩, ?_⟩
          · have hempty : ∀ path : Path, path ≠ [] → ownAt (.node false []) path = none := by
              intro path hpath
              obtain ⟨part, path, rfl⟩ := List.exists_cons_of_ne_nil hpath
              rfl
            have hp : p ≠ [] := fun h => hpq' (h ▸ List.nil_prefix)
            rw [hbelow]
            rcases ih (t := .node false []) rfl hpq' hqp' with ⟨hsame, _⟩ | ⟨hnone, _⟩
            · rw [hsame, hempty p hp]
            · exact hnone
          · intro c hc hc_plain
            have hown : t.own k = some c := by
              cases h : t.own k with
              | none => simp [ownAt, h] at hc
              | some c' => simpa [ownAt, h] using hc
            exact hthere ⟨c, hown, hc_plain⟩
      · rw [if_neg hk]
        refine .inl ⟨rfl, ?_⟩
        intro r hr hrp hrq
        obtain ⟨k', r', rfl⟩ := List.exists_cons_of_ne_nil hr
        obtain ⟨rfl, _⟩ := List.cons_prefix_cons.mp hrp
        exact absurd (List.cons_prefix_cons.mp hrq).1 hk

/-- A selected path with a value. -/
def Selected (source : Tree) (paths : List Path) (p : Path) (v : Tree) : Prop := p ∈ paths ∧ valueAt source p = some v

/-- Between a selected path with a value and another one below it there are plain objects
only, and the last part is an own property. -/
def Nested (source : Tree) (paths : List Path) : Prop :=
  ∀ p v q w, Selected source paths p v → Selected source paths q w → ∀ parts, q = p ++ parts → parts ≠ [] →
    v.plain ∧ OwnPath v parts

/-- No selected path with a value goes to a prototype. -/
def ProtoFree (source : Tree) (paths : List Path) : Prop := ∀ p v, Selected source paths p v → "__proto__" ∉ p

/-- What a tree shows at every path: the values, plain objects on the way to them, and nothing
else. -/
structure Shows (source : Tree) (paths : List Path) (t : Tree) : Prop where
  plain : t.plain
  value : ∀ p v, Selected source paths p v → ownAt t p = some v
  above : ∀ p v, Selected source paths p v → ∀ q, q <+: p →
    (∀ p' v', Selected source paths p' v' → ¬ p' <+: q) → ∃ c, ownAt t q = some c ∧ c.plain
  elsewhere : ∀ q, q ≠ [] → (∀ p v, Selected source paths p v → ¬ p <+: q ∧ ¬ q <+: p) → ownAt t q = none

section
variable {source t : Tree} {paths : List Path}

private theorem Nested.value {p q parts : Path} {v w : Tree} (h : Nested source paths) (hp : Selected source paths p v)
    (hq : Selected source paths q w) (hsplit : q = p ++ parts) (hparts : parts ≠ []) : ownAt v parts = some w := by
  obtain ⟨_, hown⟩ := h p v q w hp hq parts hsplit hparts
  obtain ⟨w', hw'⟩ := Option.isSome_iff_exists.mp (ownPath_iff.mp hown).2.1
  have hvalue := hq.2
  rw [hsplit, valueAt_append, hp.2, Option.bind_some, valueAt_of_ownAt hw'] at hvalue
  rw [hw', hvalue]

/-- What is on the way to both an old path and a new one is a plain object. -/
private theorem Shows.way {p q r : Path} {v w : Tree} (h : Shows source paths t) (hp : Selected source paths p v)
    (hnested : Nested source (paths ++ [q])) (hq : valueAt source q = some w) (hrp : r <+: p) (hrq : r <+: q)
    (hne : r ≠ q) : ∃ c, ownAt t r = some c ∧ c.plain := by
  by_cases hsome : ∃ p' v', Selected source paths p' v' ∧ p' <+: r
  · obtain ⟨p', v', hp', s, rfl⟩ := hsome
    obtain ⟨rest, hrest⟩ := hrq
    have hrest_ne : rest ≠ [] := by
      rintro rfl
      exact hne (by rw [← hrest, List.append_nil])
    obtain ⟨hplain, hown⟩ := hnested p' v' q w ⟨List.mem_append_left _ hp'.1, hp'.2⟩
      ⟨List.mem_append_right _ List.mem_cons_self, hq⟩ (s ++ rest) (by rw [← hrest, List.append_assoc])
      (List.append_ne_nil_of_right_ne_nil s hrest_ne)
    rw [ownAt_append, h.value p' v' hp', Option.bind_some]
    cases s with
    | nil => exact ⟨v', rfl, hplain⟩
    | cons part s => exact (ownPath_iff.mp hown).2.2 _ rest rfl (List.cons_ne_nil _ _) hrest_ne
  · push Not at hsome
    exact h.above p v hp r hrp hsome

private theorem placed_shows {q : Path} {w : Tree} (h : Shows source paths t) (hnested : Nested source (paths ++ [q]))
    (hq : valueAt source q = some w) (hne : q ≠ []) : Shows source (paths ++ [q]) (placed t q w) := by
  have hnew : Selected source (paths ++ [q]) q w := ⟨List.mem_append_right _ List.mem_cons_self, hq⟩
  have hold : ∀ p v, Selected source paths p v → Selected source (paths ++ [q]) p v :=
    fun p v hp => ⟨List.mem_append_left _ hp.1, hp.2⟩
  have hcases : ∀ p v, Selected source (paths ++ [q]) p v → Selected source paths p v ∨ (p = q ∧ v = w) := by
    rintro p v ⟨hmem, hv⟩
    rcases List.mem_append.mp hmem with hmem | hmem
    · exact .inl ⟨hmem, hv⟩
    · obtain rfl := List.mem_singleton.mp hmem
      exact .inr ⟨rfl, Option.some.inj (hv.symm.trans hq)⟩
  have hself : ownAt (placed t q w) q = some w := by
    have hbelow := ownAt_placed_below (v := w) h.plain hne []
    rwa [List.append_nil] at hbelow
  refine ⟨placed_plain h.plain q, ?_, ?_, ?_⟩
  · intro p v hp
    rcases hcases p v hp with hp' | ⟨rfl, rfl⟩
    · by_cases hpq : p <+: q
      · obtain ⟨s, rfl⟩ := hpq
        by_cases hs : s = []
        · subst hs
          rw [List.append_nil] at hself hq ⊢
          rw [hself, ← hq, hp'.2]
        · -- the old value already holds the new one where it is written
          obtain ⟨hplain, hown⟩ := hnested p v _ w (hold p v hp') hnew s rfl hs
          have hkept : placed v s w = v :=
            placed_own hown (valueAt_of_ownAt (hnested.value (hold p v hp') hnew rfl hs))
          rw [ownAt_placed_through h.plain hs (h.value p v hp'), hkept]
          rintro r s' rfl hr
          by_cases hs' : s' = []
          · subst hs'
            rw [List.append_nil] at hp'
            exact ⟨v, h.value r v hp', hplain⟩
          · apply h.way hp' hnested hq (List.prefix_append r s')
            · rw [List.append_assoc]
              exact List.prefix_append r (s' ++ s)
            · intro heq
              have hlength := congrArg List.length heq
              have hpos := List.length_pos_iff.mpr hs'
              simp only [List.length_append] at hlength
              omega
      · by_cases hqp : q <+: p
        · obtain ⟨s, rfl⟩ := hqp
          have hs : s ≠ [] := by
            rintro rfl
            exact hpq (by rw [List.append_nil])
          rw [ownAt_placed_below h.plain hne]
          exact hnested.value hnew (hold _ v hp') rfl hs
        · rcases ownAt_placed_apart (v := w) h.plain hpq hqp with ⟨hsame, _⟩ | ⟨_, r, _, hrp, hrq, hblock⟩
          · rw [hsame, h.value p v hp']
          · obtain ⟨c, hc, hplain⟩ := h.way hp' hnested hq hrp hrq fun heq => hqp (heq ▸ hrp)
            exact absurd hplain (hblock c hc)
    · exact hself
  · intro p v hp q' hq' hnone
    have hq_above : ¬ q <+: q' := hnone q w hnew
    by_cases hway : q' <+: q
    · obtain ⟨s, rfl⟩ := hway
      apply ownAt_placed_above h.plain
      rintro rfl
      exact hq_above (by rw [List.append_nil])
    · rcases hcases p v hp with hp | ⟨rfl, rfl⟩
      · have hclear : ∀ r, r <+: q' → ∃ c, ownAt t r = some c ∧ c.plain := by
          intro r hr
          apply h.above p v hp r (hr.trans hq')
          intro p' v' hp' hbelow
          exact hnone p' v' (hold p' v' hp') (hbelow.trans hr)
        rcases ownAt_placed_apart (v := w) h.plain hway hq_above with ⟨hsame, _⟩ | ⟨_, r, _, hrq', _, hblock⟩
        · rw [hsame]
          exact hclear q' (List.prefix_refl q')
        · obtain ⟨c, hc, hplain⟩ := hclear r hrq'
          exact absurd hplain (hblock c hc)
      · exact absurd hq' hway
  · intro q' hq' hapart
    obtain ⟨hqq', hq'q⟩ := hapart q w hnew
    rcases ownAt_placed_apart (v := w) h.plain hq'q hqq' with ⟨hsame, _⟩ | ⟨hnone, _⟩
    · rw [hsame]
      exact h.elsewhere q' hq' fun p v hp => hapart p v (hold p v hp)
    · exact hnone

theorem Nested.subset {paths' : List Path} (h : Nested source paths) (hsub : paths' ⊆ paths) :
    Nested source paths' :=
  fun p v q w hp hq => h p v q w ⟨hsub hp.1, hp.2⟩ ⟨hsub hq.1, hq.2⟩

theorem ProtoFree.subset {paths' : List Path} (h : ProtoFree source paths) (hsub : paths' ⊆ paths) :
    ProtoFree source paths' :=
  fun p v hp => h p v ⟨hsub hp.1, hp.2⟩

private theorem foldl_shows {later : List Path} (h : Shows source paths t) (hnested : Nested source (paths ++ later))
    (hne : ∀ q ∈ later, q ≠ []) : Shows source (paths ++ later) (later.foldl (projectedField source) t) := by
  induction later generalizing paths t with
  | nil => rwa [List.append_nil]
  | cons q later ih =>
    have hassoc : paths ++ q :: later = paths ++ [q] ++ later := by simp
    rw [hassoc] at hnested ⊢
    rw [List.foldl_cons]
    apply ih ?_ hnested fun q' hq' => hne q' (List.mem_cons_of_mem q hq')
    have hnested' := hnested.subset (List.subset_append_left _ later)
    unfold projectedField
    cases hq : valueAt source q with
    | some w => exact placed_shows h hnested' hq (hne q List.mem_cons_self)
    | none =>
      have hsame : ∀ p v, Selected source (paths ++ [q]) p v ↔ Selected source paths p v := by
        intro p v
        refine ⟨?_, fun hp => ⟨List.mem_append_left _ hp.1, hp.2⟩⟩
        rintro ⟨hmem, hv⟩
        rcases List.mem_append.mp hmem with hmem | hmem
        · exact ⟨hmem, hv⟩
        · obtain rfl := List.mem_singleton.mp hmem
          rw [hq] at hv
          exact absurd hv (by simp)
      constructor
      · exact h.plain
      · intro p v hp
        exact h.value p v ((hsame p v).mp hp)
      · intro p v hp q' hq' hnone
        exact h.above p v ((hsame p v).mp hp) q' hq' fun p' v' hp' => hnone p' v' ((hsame p' v').mpr hp')
      · intro q' hq' hapart
        exact h.elsewhere q' hq' fun p v hp => hapart p v ((hsame p v).mpr hp)

/-- A projection of nested paths shows their values and nothing else. -/
theorem projected_shows (hnested : Nested source paths) (hne : ∀ q ∈ paths, q ≠ []) :
    Shows source paths (projected source paths) := by
  have hempty : Shows source [] (.node false []) := by
    refine ⟨rfl, fun p v hp => absurd hp.1 List.not_mem_nil, fun p v hp => absurd hp.1 List.not_mem_nil, ?_⟩
    intro q hq _
    obtain ⟨part, rest, rfl⟩ := List.exists_cons_of_ne_nil hq
    rfl
  have hloop := @foldl_shows source (.node false []) [] paths hempty (by rwa [List.nil_append]) hne
  rwa [List.nil_append] at hloop

/-- Trees that show the same are alike, whatever the order of the paths. -/
theorem Shows.alike {t' : Tree} {paths' : List Path} (h : Shows source paths t) (h' : Shows source paths' t')
    (hsame : ∀ p, p ∈ paths ↔ p ∈ paths') : Alike t t' := by
  have hselected : ∀ p v, Selected source paths p v ↔ Selected source paths' p v :=
    fun p v => and_congr_left' (hsame p)
  intro q
  by_cases hbelow : ∃ p v, Selected source paths p v ∧ p <+: q
  · obtain ⟨p, v, hp, s, rfl⟩ := hbelow
    rw [ownAt_append, ownAt_append, h.value p v hp, h'.value p v ((hselected p v).mp hp)]
  · push Not at hbelow
    have hbelow' : ∀ p v, Selected source paths' p v → ¬ p <+: q :=
      fun p v hp => hbelow p v ((hselected p v).mpr hp)
    by_cases habove : ∃ p v, Selected source paths p v ∧ q <+: p
    · obtain ⟨p, v, hp, hq⟩ := habove
      obtain ⟨c, hc, hplain⟩ := h.above p v hp q hq hbelow
      obtain ⟨c', hc', hplain'⟩ := h'.above p v ((hselected p v).mp hp) q hq hbelow'
      rw [hc, hc', Option.map_some, Option.map_some, plain_iff.mp hplain, plain_iff.mp hplain']
    · push Not at habove
      cases q with
      | nil => exact congrArg some ((plain_iff.mp h.plain).trans (plain_iff.mp h'.plain).symm)
      | cons part q =>
        rw [h.elsewhere _ (List.cons_ne_nil _ _) fun p v hp => ⟨hbelow p v hp, habove p v hp⟩,
          h'.elsewhere _ (List.cons_ne_nil _ _) fun p v hp =>
            ⟨hbelow' p v hp, habove p v ((hselected p v).mpr hp)⟩]

/-- Its leaves are the source's, on or below a selected path. -/
theorem Shows.leaf {q : Path} {x : Tree} (h : Shows source paths t) (hq : q ≠ []) (hx : ownAt t q = some x)
    (hbare : Tree.bare x) : (∃ p ∈ paths, p <+: q) ∧ valueAt source q = some x := by
  by_cases hbelow : ∃ p v, Selected source paths p v ∧ p <+: q
  · obtain ⟨p, v, hp, s, rfl⟩ := hbelow
    refine ⟨⟨p, hp.1, List.prefix_append p s⟩, ?_⟩
    rw [ownAt_append, h.value p v hp, Option.bind_some] at hx
    rw [valueAt_append, hp.2, Option.bind_some, valueAt_of_ownAt hx]
  · push Not at hbelow
    exfalso
    by_cases habove : ∃ p v, Selected source paths p v ∧ q <+: p
    · obtain ⟨p, v, hp, s, rfl⟩ := habove
      have hs : s ≠ [] := by
        rintro rfl
        exact hbelow _ v hp (by rw [List.append_nil])
      obtain ⟨part, s, rfl⟩ := List.exists_cons_of_ne_nil hs
      have hvalue := h.value _ v hp
      rw [ownAt_append, hx, Option.bind_some] at hvalue
      cases x with
      | leaf a => simp [ownAt, Tree.own] at hvalue
      | node array props =>
        obtain rfl : props = [] := hbare
        simp [ownAt, Tree.own] at hvalue
    · push Not at habove
      rw [h.elsewhere q hq fun p v hp => ⟨hbelow p v hp, habove p v hp⟩] at hx
      exact absurd hx (by simp)

end

end MessagingGateway.Routing
