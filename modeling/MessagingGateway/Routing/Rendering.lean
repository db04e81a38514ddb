import MessagingGateway.Routing.Template

/-! A rendering is one pass over the template: it reads the payload at the template's names
only, and what it puts in is never looked at again. -/
namespace MessagingGateway.Routing
open Js

def Occurs (name text : List Char) : Prop := Name name ∧ braced name <:+: text

/-- The text is one placeholder. -/
def Exact (text : List Char) : Prop := ∃ name, Name name ∧ text = braced name

inductive Piece where
  | literal (c : Char)
  | hole (name : List Char)

/-- The pieces of a template's text, from left to right. -/
inductive Scan : List Char → List Piece → Prop
  | nil : Scan [] []
  | hole {name after : List Char} {pieces : List Piece} :
      Name name → Scan after pieces → Scan (braced name ++ after) (.hole name :: pieces)
  | literal {c : Char} {cs : List Char} {pieces : List Piece} :
      (∀ name, Name name → ¬ braced name <+: c :: cs) → Scan cs pieces → Scan (c :: cs) (.literal c :: pieces)

/-- Whether a name occurs can be computed. -/
theorem occurs_iff {name text : List Char} :
    Occurs name text ↔ name ∈ text.tails.filterMap fun cs => (placeholder cs).map Prod.fst := by
  simp only [List.mem_filterMap, List.mem_tails, Option.map_eq_some_iff, Prod.exists, exists_and_right, exists_eq_right,
    placeholder_eq_some_iff]
  constructor
  · rintro ⟨hname, before, after, heq⟩
    exact ⟨braced name ++ after, ⟨before, by rw [← heq, List.append_assoc]⟩, after, hname, rfl⟩
  · rintro ⟨_, ⟨before, hsuffix⟩, after, hname, rfl⟩
    exact ⟨hname, before, after, by rw [← hsuffix, List.append_assoc]⟩

/-- Every hole replaced by a text, which is copied as it is. -/
def fill (text : List Char → String) : List Piece → String
  | [] => ""
  | .literal c :: pieces => String.singleton c ++ fill text pieces
  | .hole name :: pieces => text name ++ fill text pieces

private theorem exists_scan (cs : List Char) : ∃ pieces, Scan cs pieces := by
  induction hn : cs.length using Nat.strong_induction_on generalizing cs with
  | _ n ih =>
    cases cs with
    | nil => exact ⟨[], .nil⟩
    | cons c cs =>
      by_cases h : ∃ name, Name name ∧ braced name <+: c :: cs
      · obtain ⟨name, hname, after, hafter⟩ := h
        have hshorter : after.length < n := by
          rw [← hn, ← hafter, List.length_append]
          simp [braced]
        obtain ⟨pieces, hpieces⟩ := ih _ hshorter after rfl
        exact ⟨.hole name :: pieces, hafter ▸ .hole hname hpieces⟩
      · push Not at h
        obtain ⟨pieces, hpieces⟩ := ih cs.length (by rw [← hn]; exact Nat.lt_succ_self _) cs rfl
        exact ⟨.literal c :: pieces, .literal h hpieces⟩

private theorem Scan.occurs {cs name : List Char} {pieces : List Piece} (hscan : Scan cs pieces)
    (hmem : Piece.hole name ∈ pieces) : Occurs name cs := by
  induction hscan with
  | nil => exact absurd hmem List.not_mem_nil
  | @hole name' after pieces hname _ ih =>
    rcases List.mem_cons.mp hmem with heq | hmem
    · obtain rfl := Piece.hole.inj heq
      exact ⟨hname, (List.prefix_append _ after).isInfix⟩
    · obtain ⟨hname, hinfix⟩ := ih hmem
      exact ⟨hname, hinfix.trans (List.suffix_append _ after).isInfix⟩
  | @literal c cs pieces _ _ ih =>
    rcases List.mem_cons.mp hmem with heq | hmem
    · exact absurd heq (by simp)
    · obtain ⟨hname, hinfix⟩ := ih hmem
      exact ⟨hname, hinfix.trans (List.suffix_cons c cs).isInfix⟩

private theorem fill_congr {text text' : List Char → String} {pieces : List Piece}
    (h : ∀ name, Piece.hole name ∈ pieces → text name = text' name) : fill text pieces = fill text' pieces := by
  induction pieces with
  | nil => rfl
  | cons piece pieces ih =>
    have hrest := ih fun name hmem => h name (List.mem_cons_of_mem _ hmem)
    cases piece with
    | literal c => rw [fill, fill, hrest]
    | hole name => rw [fill, fill, hrest, h name List.mem_cons_self]

/-- A text without placeholders is its own filling. -/
theorem Scan.fill_eq {cs : List Char} {pieces : List Piece} (text : List Char → String) (hscan : Scan cs pieces)
    (hnone : ∀ name, ¬ Occurs name cs) : fill text pieces = String.ofList cs := by
  induction hscan with
  | nil => rfl
  | @hole name after pieces hname _ _ => exact (hnone name ⟨hname, (List.prefix_append _ after).isInfix⟩).elim
  | @literal c cs pieces _ _ ih =>
    have hrest := ih fun name hoccurs => hnone name ⟨hoccurs.1, hoccurs.2.trans (List.suffix_cons c cs).isInfix⟩
    rw [fill, hrest, ← String.ofList_cons]

private theorem substitute_skip (text : List Char → String) (skip : Nat) (cs : List Char) :
    substitute text skip cs = substitute text 0 (cs.drop skip) := by
  induction cs generalizing skip with
  | nil => simp [substitute]
  | cons c cs ih =>
    cases skip with
    | zero => rfl
    | succ skip => exact ih skip

/-- The replacing scan of the code fills the pieces. -/
theorem Scan.substitute_eq {cs : List Char} {pieces : List Piece} (text : List Char → String)
    (hscan : Scan cs pieces) : substitute text 0 cs = fill text pieces := by
  induction hscan with
  | nil => rfl
  | @hole name after pieces hname _ ih =>
    have hfound : placeholder (braced name ++ after) = some (name, after) :=
      placeholder_eq_some_iff.mpr ⟨hname, rfl⟩
    have hcons : braced name ++ after = '\x7b' :: (('\x7b' :: (name ++ ['\x7d', '\x7d'])) ++ after) := by
      simp [braced]
    rw [hcons] at hfound
    rw [hcons, substitute, hfound]
    dsimp only
    rw [substitute_skip, List.length_append, Nat.add_sub_cancel, List.drop_left, ih, fill]
  | @literal c cs pieces hnone _ ih =>
    have hnot : placeholder (c :: cs) = none := by
      rw [Option.eq_none_iff_forall_not_mem]
      intro found hfound
      obtain ⟨hname, heq⟩ := placeholder_eq_some_iff.mp hfound
      exact hnone found.1 hname ⟨found.2, heq.symm⟩
    rw [substitute, hnot]
    dsimp only
    rw [ih, fill]

private theorem renderedString_exact {payload : Tree} {template : String} {name : List Char} (hname : Name name)
    (heq : template.toList = braced name) :
    renderedString payload template = (valueAt payload (namePath name)).getD (.leaf .null) := by
  have hfound : placeholder template.toList = some (name, []) :=
    placeholder_eq_some_iff.mpr ⟨hname, by rw [heq, List.append_nil]⟩
  simp only [renderedString, hfound]

private theorem renderedString_scan {payload : Tree} {template : String} {pieces : List Piece}
    (hexact : ¬ Exact template.toList) (hscan : Scan template.toList pieces) :
    renderedString payload template =
      .leaf (.str (fill (fun name => treeText (valueAt payload (namePath name))) pieces)) := by
  rw [← hscan.substitute_eq]
  unfold renderedString
  split
  · rename_i name hfound
    obtain ⟨hname, heq⟩ := placeholder_eq_some_iff.mp hfound
    exact (hexact ⟨name, hname, by rw [heq, List.append_nil]⟩).elim
  · rfl

private theorem renderedString_congr {payload payload' : Tree} {template : String}
    (h : ∀ name, Occurs name template.toList → valueAt payload (namePath name) = valueAt payload' (namePath name)) :
    renderedString payload template = renderedString payload' template := by
  by_cases hexact : Exact template.toList
  · obtain ⟨name, hname, heq⟩ := hexact
    have hoccurs : Occurs name template.toList := ⟨hname, heq ▸ List.infix_refl _⟩
    rw [renderedString_exact hname heq, renderedString_exact hname heq, h name hoccurs]
  · obtain ⟨pieces, hscan⟩ := exists_scan template.toList
    rw [renderedString_scan hexact hscan, renderedString_scan hexact hscan]
    congr 2
    apply fill_congr
    intro name hmem
    rw [h name (hscan.occurs hmem)]

mutual

/-- The strings that a template's rendering looks at. -/
def strings : Json → List String
  | .null | .bool _ | .num _ => []
  | .str s => [s]
  | .arr items => itemStrings items
  | .obj fields => fieldStrings fields

def itemStrings : List Json → List String
  | [] => []
  | item :: items => strings item ++ itemStrings items

def fieldStrings : List (String × Json) → List String
  | [] => []
  | (_, field) :: fields => strings field ++ fieldStrings fields

end

/-- The template has a placeholder of the name. -/
def Mentions (template : Json) (name : List Char) : Prop := ∃ s ∈ strings template, Occurs name s.toList

mutual

/-- No object of the template has a `__proto__` key. -/
def NoProto : Json → Prop
  | .null | .bool _ | .num _ | .str _ => True
  | .arr items => NoProtoItems items
  | .obj fields => NoProtoFields fields

def NoProtoItems : List Json → Prop
  | [] => True
  | item :: items => NoProto item ∧ NoProtoItems items

def NoProtoFields : List (String × Json) → Prop
  | [] => True
  | (key, field) :: fields => key ≠ "__proto__" ∧ NoProto field ∧ NoProtoFields fields

end

section
variable (R : String → Tree → Prop)

mutual

/-- Keys, lengths and scalars are the template's, and each string stands for a value that `R`
allows. -/
inductive Follows : Json → Tree → Prop
  | null : Follows .null (.leaf .null)
  | bool (b : Bool) : Follows (.bool b) (.leaf (.bool b))
  | num (literal : String) : Follows (.num literal) (.leaf (.num literal))
  | str {s : String} {t : Tree} : R s t → Follows (.str s) t
  | arr {items : List Json} {props : List (String × Tree)} :
      FollowsItems items 0 props → Follows (.arr items) (.node true props)
  | obj {fields : List (String × Json)} {props : List (String × Tree)} :
      FollowsFields fields props → Follows (.obj fields) (.node false props)

inductive FollowsItems : List Json → Nat → List (String × Tree) → Prop
  | nil (i : Nat) : FollowsItems [] i []
  | cons {item : Json} {items : List Json} {i : Nat} {t : Tree} {props : List (String × Tree)} :
      Follows item t → FollowsItems items (i + 1) props → FollowsItems (item :: items) i ((toString i, t) :: props)

inductive FollowsFields : List (String × Json) → List (String × Tree) → Prop
  | nil : FollowsFields [] []
  | cons {key : String} {field : Json} {fields : List (String × Json)} {t : Tree} {props : List (String × Tree)} :
      Follows field t → FollowsFields fields props → FollowsFields ((key, field) :: fields) ((key, t) :: props)

end

variable {R}

mutual

private theorem follows_rendered {payload : Tree} (template : Json) (hproto : NoProto template)
    (h : ∀ s ∈ strings template, R s (renderedString payload s)) : Follows R template (rendered payload template) := by
  cases template with
  | null => exact .null
  | bool b => exact .bool b
  | num literal => exact .num literal
  | str s => exact .str (h s List.mem_cons_self)
  | arr items => exact .arr (follows_renderedItems items 0 hproto h)
  | obj fields => exact .obj (follows_renderedFields fields hproto h)

private theorem follows_renderedItems {payload : Tree} (items : List Json) (i : Nat) (hproto : NoProtoItems items)
    (h : ∀ s ∈ itemStrings items, R s (renderedString payload s)) :
    FollowsItems R items i (renderedItems payload items i) := by
  cases items with
  | nil => exact .nil i
  | cons item items =>
    refine .cons (follows_rendered item hproto.1 ?_) (follows_renderedItems items (i + 1) hproto.2 ?_)
    · intro s hs
      exact h s (List.mem_append_left _ hs)
    · intro s hs
      exact h s (List.mem_append_right _ hs)

private theorem follows_renderedFields {payload : Tree} (fields : List (String × Json)) (hproto : NoProtoFields fields)
    (h : ∀ s ∈ fieldStrings fields, R s (renderedString payload s)) :
    FollowsFields R fields (renderedFields payload fields) := by
  cases fields with
  | nil => exact .nil
  | cons field fields =>
    obtain ⟨key, value⟩ := field
    obtain ⟨hkey, hvalue, hrest⟩ := hproto
    rw [renderedFields, if_neg hkey]
    refine .cons (follows_rendered value hvalue ?_) (follows_renderedFields fields hrest ?_)
    · intro s hs
      exact h s (List.mem_append_left _ hs)
    · intro s hs
      exact h s (List.mem_append_right _ hs)

end

mutual

/-- Where every string stands for itself, nothing has changed. -/
private theorem Follows.eq_ofJson {template : Json} {t : Tree} (h : Follows R template t)
    (hself : ∀ s ∈ strings template, ∀ t, R s t → t = .leaf (.str s)) : t = .ofJson template := by
  cases h with
  | null | bool _ | num _ => rfl
  | str hs => exact hself _ List.mem_cons_self _ hs
  | arr hitems => rw [Tree.ofJson, hitems.eq_ofItems hself]
  | obj hfields => rw [Tree.ofJson, hfields.eq_ofFields hself]

private theorem FollowsItems.eq_ofItems {items : List Json} {i : Nat} {props : List (String × Tree)}
    (h : FollowsItems R items i props) (hself : ∀ s ∈ itemStrings items, ∀ t, R s t → t = .leaf (.str s)) :
    props = Tree.ofItems items i := by
  cases h with
  | nil => rfl
  | cons hitem hitems =>
    rw [Tree.ofItems, hitem.eq_ofJson fun s hs => hself s (List.mem_append_left _ hs),
      hitems.eq_ofItems fun s hs => hself s (List.mem_append_right _ hs)]

private theorem FollowsFields.eq_ofFields {fields : List (String × Json)} {props : List (String × Tree)}
    (h : FollowsFields R fields props) (hself : ∀ s ∈ fieldStrings fields, ∀ t, R s t → t = .leaf (.str s)) :
    props = Tree.ofFields fields := by
  cases h with
  | nil => rfl
  | cons hfield hfields =>
    rw [Tree.ofFields, hfield.eq_ofJson fun s hs => hself s (List.mem_append_left _ hs),
      hfields.eq_ofFields fun s hs => hself s (List.mem_append_right _ hs)]

end

end

mutual

private theorem rendered_congr {payload payload' : Tree} (template : Json)
    (h : ∀ s ∈ strings template, renderedString payload s = renderedString payload' s) :
    rendered payload template = rendered payload' template := by
  cases template with
  | null | bool _ | num _ => rfl
  | str s => exact h s List.mem_cons_self
  | arr items => exact congrArg (Js.Tree.node true) (renderedItems_congr items 0 h)
  | obj fields => exact congrArg (Js.Tree.node false) (renderedFields_congr fields h)

private theorem renderedItems_congr {payload payload' : Tree} (items : List Json) (i : Nat)
    (h : ∀ s ∈ itemStrings items, renderedString payload s = renderedString payload' s) :
    renderedItems payload items i = renderedItems payload' items i := by
  cases items with
  | nil => rfl
  | cons item items =>
    rw [renderedItems, renderedItems, rendered_congr item fun s hs => h s (List.mem_append_left _ hs),
      renderedItems_congr items (i + 1) fun s hs => h s (List.mem_append_right _ hs)]

private theorem renderedFields_congr {payload payload' : Tree} (fields : List (String × Json))
    (h : ∀ s ∈ fieldStrings fields, renderedString payload s = renderedString payload' s) :
    renderedFields payload fields = renderedFields payload' fields := by
  cases fields with
  | nil => rfl
  | cons field fields =>
    obtain ⟨key, value⟩ := field
    rw [renderedFields, renderedFields, rendered_congr value fun s hs => h s (List.mem_append_left _ hs),
      renderedFields_congr fields fun s hs => h s (List.mem_append_right _ hs)]

end

/-- A text stays a text; anything may stand where a placeholder was the whole string. -/
def Shape (s : String) (t : Tree) : Prop := Exact s.toList ∨ ∃ text, t = .leaf (.str text)

/-- A string that is one placeholder stands for its value, any other for the copies of its
literals and of the texts in its holes. -/
def Copied (value : List Char → Option Tree) (s : String) (t : Tree) : Prop :=
  (∀ name, Name name → s.toList = braced name → t = (value name).getD (.leaf .null)) ∧
    (¬ Exact s.toList → ∃ pieces, Scan s.toList pieces ∧
      t = .leaf (.str (fill (fun name => treeText (value name)) pieces)))

/-- `getPath` finds the same in both payloads: nothing, or values that unfold alike. -/
def Agree (h : Heap) (payload : Value) (h' : Heap) (payload' : Value) (path : Path) : Prop :=
  ∃ found : Option Tree, Related h (getPath h payload path) found ∧ Related h' (getPath h' payload' path) found

private theorem Agree.valueAt_eq {h h' : Heap} {payload payload' : Value} {t t' : Tree} {path : Path}
    (hagree : Agree h payload h' payload' path) (hd : Denotes h payload t) (hd' : Denotes h' payload' t') :
    valueAt t path = valueAt t' path := by
  obtain ⟨found, hfound, hfound'⟩ := hagree
  rw [(getPath_denotes hd path).unique hfound, (getPath_denotes hd' path).unique hfound']

private theorem copied_rendered (payload : Tree) (s : String) :
    Copied (fun name => valueAt payload (namePath name)) s (renderedString payload s) := by
  constructor
  · intro name hname heq
    exact renderedString_exact hname heq
  · intro hexact
    obtain ⟨pieces, hscan⟩ := exists_scan s.toList
    exact ⟨pieces, hscan, renderedString_scan hexact hscan⟩

private theorem Copied.shape {value : List Char → Option Tree} {s : String} {t : Tree} (h : Copied value s t) :
    Shape s t := by
  by_cases hexact : Exact s.toList
  · exact .inl hexact
  · obtain ⟨pieces, _, ht⟩ := h.2 hexact
    exact .inr ⟨_, ht⟩

private theorem Copied.eq_self {value : List Char → Option Tree} {s : String} {t : Tree} (h : Copied value s t)
    (hnone : ∀ name, ¬ Occurs name s.toList) : t = .leaf (.str s) := by
  have hexact : ¬ Exact s.toList := by
    rintro ⟨name, hname, heq⟩
    exact hnone name ⟨hname, heq ▸ List.infix_refl _⟩
  obtain ⟨pieces, hscan, rfl⟩ := h.2 hexact
  rw [hscan.fill_eq _ hnone, String.ofList_toList]

/-- The result depends on what the payload holds at the template's names, has the template's
shape, copies what it finds, and is the template where that has no names. -/
theorem renderTemplate_single_pass (template : Json) (hproto : NoProto template) {h : Heap} {payload : Value}
    {t : Tree} (hd : Denotes h payload t) :
    ∃ result, Denotes (renderTemplate payload template h).2 (renderTemplate payload template h).1 result ∧
      (∀ (h' : Heap) (payload' : Value) (t' : Tree), Denotes h' payload' t' →
        (∀ name, Mentions template name → Agree h payload h' payload' (namePath name)) →
          Denotes (renderTemplate payload' template h').2 (renderTemplate payload' template h').1 result) ∧
      Follows Shape template result ∧
      Follows (Copied fun name => valueAt t (namePath name)) template result ∧
      ((∀ name, ¬ Mentions template name) → result = .ofJson template) := by
  have hcopied := follows_rendered (R := Copied fun name => valueAt t (namePath name)) template hproto
    fun s _ => copied_rendered t s
  refine ⟨rendered t template, (renderTemplate_denotes template hd).1, ?_, ?_, hcopied, ?_⟩
  · intro h' payload' t' hd' hagree
    have hsame : rendered t template = rendered t' template := by
      apply rendered_congr
      intro s hs
      apply renderedString_congr
      intro name hoccurs
      exact (hagree name ⟨s, hs, hoccurs⟩).valueAt_eq hd hd'
    rw [hsame]
    exact (renderTemplate_denotes template hd').1
  · exact follows_rendered template hproto fun s _ => (copied_rendered t s).shape
  · intro hnone
    apply hcopied.eq_ofJson
    intro s hs t' ht'
    exact ht'.eq_self fun name hoccurs => hnone name ⟨s, hs, hoccurs⟩

def greeting : Json := .obj [("text", .str "Hi \x7b\x7b name \x7d\x7d!")]

/-- The name is itself a placeholder for the secret. -/
def greeted (secret : String) : Json := .obj [("name", .str "\x7b\x7bsecret\x7d\x7d"), ("secret", .str secret)]

theorem greeting_single_pass :
    ∃ result, Denotes (renderTemplate (Heap.load (greeted "x") []).1 greeting (Heap.load (greeted "x") []).2).2
        (renderTemplate (Heap.load (greeted "x") []).1 greeting (Heap.load (greeted "x") []).2).1 result ∧
      Denotes (renderTemplate (Heap.load (greeted "y") []).1 greeting (Heap.load (greeted "y") []).2).2
        (renderTemplate (Heap.load (greeted "y") []).1 greeting (Heap.load (greeted "y") []).2).1 result ∧
      Follows Shape greeting result := by
  obtain ⟨result, hd, hsame, hshape, _⟩ := renderTemplate_single_pass greeting ⟨by decide, trivial, trivial⟩
    (load_denotes (greeted "x") []).1
  refine ⟨result, hd, ?_, hshape⟩
  apply hsame _ _ _ (load_denotes (greeted "y") []).1
  rintro name ⟨s, hs, hoccurs⟩
  obtain rfl : s = "Hi \x7b\x7b name \x7d\x7d!" := List.mem_singleton.mp hs
  have hnames : ("Hi \x7b\x7b name \x7d\x7d!".toList.tails.filterMap fun cs => (placeholder cs).map Prod.fst) =
      [" name ".toList] := by decide
  obtain rfl : name = " name ".toList := List.mem_singleton.mp (hnames ▸ occurs_iff.mp hoccurs)
  exact ⟨some (.leaf (.str "\x7b\x7bsecret\x7d\x7d")), .atom _, .atom _⟩

end MessagingGateway.Routing
