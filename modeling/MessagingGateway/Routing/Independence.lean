import MessagingGateway.Routing.Dispatch

/-! Rules share one envelope object. While no projection writes into what it selects from,
a run over all rules is the runs over each rule and destination alone. -/
namespace MessagingGateway.Routing
open Events Js

/-- An object is never strictly equal to anything, so which one it is does not matter. -/
def shadow : Tree → Value
  | .leaf a => .atom a
  | .node _ _ => .ref 0

def filterTree (payload : Tree) (event : EventRow) : String → Option (Option Value)
  | "channelType" => some (some (ofNullable (event.channelType.map ChannelType.name)))
  | "accountId" => some (some (ofNullable event.accountId))
  | "endpointId" => some (some (ofNullable event.endpointId))
  | "direction" => some ((valueAt payload ["data", "message", "direction"]).map shadow)
  | _ => none

/-- `ruleMatches` on the payload itself. -/
def matched (payload : Tree) (rule : RoutingRule) (event : EventRow) : Bool :=
  decide (event.eventType ∈ toStringArray rule.eventTypes) &&
    (entries rule.filters).all fun (key, expected) =>
      (filterTree payload event key).any fun actual => strictEqual actual expected

/-- The selectors of every rule that matches, and of its enabled destinations, leave the
payload untouched. -/
def RulesUntouched (payload : Tree) (event : EventRow) (rules : List RoutingRule) : Prop :=
  ∀ rule ∈ rules, matched payload rule event → SelectsUntouched payload rule.fieldSelector ∧
    ∀ d ∈ rule.destinations, d.enabled →
      SelectsUntouched (selected payload rule.fieldSelector) d.fieldSelector

def planRule (payload : Tree) (event : EventRow) (rule : RoutingRule) : List Planned :=
  if matched payload rule event then
    rule.destinations.flatMap (planDestination rule (selected payload rule.fieldSelector))
  else []

/-- The rule with one of its destinations alone. -/
def RoutingRule.only (rule : RoutingRule) (destination : Destination) : RoutingRule :=
  { rule with destinations := [destination] }

private theorem strictEqual_shadow {h : Heap} {v : Option Value} {t : Option Tree} (hrel : Related h v t)
    (expected : Json) : strictEqual v expected = strictEqual (t.map shadow) expected := by
  cases v with
  | none =>
    cases t with
    | none => rfl
    | some t => exact hrel.elim
  | some v =>
    obtain ⟨t, rfl, hd⟩ := hrel.some_left
    cases hd with
    | atom a => rfl
    | node r => rfl

private theorem filter_eq {h : Heap} {envelope : Value} {t : Tree} (hd : Denotes h envelope t) (event : EventRow)
    (key : String) (expected : Json) :
    ((filterValue h envelope event key).any fun actual => strictEqual actual expected) =
      (filterTree t event key).any fun actual => strictEqual actual expected := by
  unfold filterValue
  split
  · rfl
  · rfl
  · rfl
  · exact strictEqual_shadow (getPath_denotes hd _) expected
  · rename_i hchannel haccount hendpoint hdirection
    rw [filterTree.eq_5 t event key hchannel haccount hendpoint hdirection]

theorem ruleMatches_eq {h : Heap} {envelope : Value} {t : Tree} (hd : Denotes h envelope t)
    (rule : RoutingRule) (event : EventRow) : ruleMatches h envelope rule event = matched t rule event := by
  unfold ruleMatches matched
  congr 2
  funext entry
  exact filter_eq hd event entry.1 entry.2

private theorem dispatchRule_eq {h : Heap} {envelope : Value} {t : Tree} {event : EventRow}
    (hd : Denotes h envelope t) {rule : RoutingRule} (hun : RulesUntouched t event [rule]) :
    (dispatchRule event envelope rule h).1 = planRule t event rule ∧
      Extends h (dispatchRule event envelope rule h).2 := by
  unfold dispatchRule planRule
  rw [ruleMatches_eq hd]
  split
  · rename_i hmatched
    obtain ⟨hrule, hdestinations⟩ := hun rule List.mem_cons_self hmatched
    obtain ⟨hselected, hext⟩ := selectFields_denotes hd hrule
    obtain ⟨hplans, hext'⟩ := dispatchDestinations_eq rule hselected hdestinations
    exact ⟨hplans, hext.trans hext'⟩
  · exact ⟨rfl, Extends.refl h⟩

theorem dispatchRules_eq {h : Heap} {envelope : Value} {t : Tree} {event : EventRow}
    (hd : Denotes h envelope t) {rules : List RoutingRule} (hun : RulesUntouched t event rules) :
    (dispatchRules event envelope rules h).1 = rules.flatMap (planRule t event) ∧
      Extends h (dispatchRules event envelope rules h).2 := by
  induction rules generalizing h with
  | nil => exact ⟨rfl, Extends.refl h⟩
  | cons rule rules ih =>
    have hrule : RulesUntouched t event [rule] := by
      intro r hr
      exact hun r (by simp_all)
    obtain ⟨hplan, hext⟩ := dispatchRule_eq hd hrule
    obtain ⟨hplans, hext'⟩ := ih (hd.mono hext) fun r hr => hun r (List.mem_cons_of_mem rule hr)
    refine ⟨?_, hext.trans hext'⟩
    simp only [dispatchRules, List.flatMap_cons, hplan, hplans]

/-- What `matchAndDispatch` plans is a function of the stored payload, rule by rule. -/
theorem matchAndDispatch_eq {rules : List RoutingRule} {event : EventRow}
    (hun : RulesUntouched (.ofJson (payloadOf event)) event rules) :
    matchAndDispatch rules event = rules.flatMap (planRule (.ofJson (payloadOf event)) event) :=
  (dispatchRules_eq (load_denotes (payloadOf event) []).1 hun).1

private theorem planRule_only (payload : Tree) (event : EventRow) (rule : RoutingRule) :
    planRule payload event rule = rule.destinations.flatMap fun d => planRule payload event (rule.only d) := by
  by_cases hmatched : matched payload rule event
  · have honly : ∀ d, planRule payload event (rule.only d) =
        planDestination rule (selected payload rule.fieldSelector) d := by
      intro d
      rw [planRule, if_pos (show matched payload (rule.only d) event = true from hmatched)]
      exact List.flatMap_singleton ..
    rw [planRule, if_pos hmatched]
    exact congrArg (rule.destinations.flatMap ·) (funext fun d => (honly d).symm)
  · have honly : ∀ d, planRule payload event (rule.only d) = [] := by
      intro d
      rw [planRule, if_neg (show ¬ matched payload (rule.only d) event = true from hmatched)]
    rw [planRule, if_neg hmatched]
    simp [honly]

namespace Sample

def event : EventRow where
  id := "6a1c2f0e-9d57-4c3b-8f1d-0b1f6c2d7e01"
  dedupKey := none
  eventType := "message.received"
  aggregateId := none
  channelType := some .sms
  accountId := none
  endpointId := none
  payload := .obj [("data", .obj [("kind", .str "sms"), ("items", .arr [.str "a", .str "b"])])]

def destination : Destination where
  id := ⟨"6a1c2f0e-9d57-4c3b-8f1d-0b1f6c2d7e02", by decide⟩
  enabled := true
  fieldSelector := .arr []
  templateJson := none

def rule (selector : List String) : RoutingRule where
  id := ⟨"6a1c2f0e-9d57-4c3b-8f1d-0b1f6c2d7e03", by decide⟩
  eventTypes := .arr [.str "message.received"]
  filters := .obj []
  fieldSelector := .arr (selector.map .str)
  destinations := [destination]

/-- The body carries the items as a list. -/
def itemsListed : Option Json → Bool
  | some (.obj [(_, .obj [_, (_, .arr _)])]) => true
  | _ => false

end Sample

end MessagingGateway.Routing
