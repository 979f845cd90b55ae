import OxiBelt.Identity.Cidr
import OxiBelt.Ipm.Pattern

/-!
# Policy decisions (`ipm/mod.rs`, `authorize_snapshot`)

An actor's policies come from its principal and its groups.  A matching Deny statement ends the
search; without one, a matching Allow statement is needed.

* `authorizeSnapshot_eq_deny_iff`: which statements decide.
* `statementMatches_iff`: a statement matches exactly if it covers the request through patterns that
  the matcher places to the end (`PlacedLast`), also in its `StringLike` conditions.
* `authorizeSnapshot_covered_deny`: exactness of the patterns, and when a request covered by a Deny
  statement is denied.
-/

namespace Ipm

open RustStd Identity Wildcard List

structure IpmActor where
  (name principal subject : Str)
  groups : List Str

structure IpmRequestContext where
  sourceIp : Option IpAddr := none
  method : Option Str := none
  host : Option Str := none
  path : Option Str := none
  route : Option Str := none
  protocol : Option Str := none
  claims : List (Str × Str) := []

inductive IpmDecision where
  | allow
  | deny
  deriving DecidableEq, Repr

inductive IpmPolicyEffect where
  | allow
  | deny
  deriving DecidableEq, Repr

inductive IpmConditionOperator where
  | stringEquals
  | stringLike
  | stringNotEquals
  | ipAddress
  | notIpAddress
  | bool
  | dateBefore
  | dateAfter
  deriving DecidableEq, Repr

structure IpmConditionConfig where
  operator : IpmConditionOperator
  key : Str
  values : List Str

structure IpmPolicyStatementConfig where
  effect : IpmPolicyEffect
  (actions resources : List Str)
  conditions : List IpmConditionConfig := []

structure IpmPolicyConfig where
  (name version : Str)
  statements : List IpmPolicyStatementConfig

structure IpmPolicyRuntime where
  policy : IpmPolicyConfig
  enabled : Bool

/-- The maps of a snapshot that authorization reads, as association lists. -/
structure IpmSnapshot where
  policies : List (Str × IpmPolicyRuntime)
  principalBindings : List (Str × List Str)
  groupBindings : List (Str × List Str)

/-- A request for a decision, with the clock reading (`now_unix`) its conditions see. -/
structure Request where
  actor : IpmActor
  (action resource : Str)
  context : IpmRequestContext := {}
  now : Option Nat := none

/-! ## Conditions -/

def resourceParts (resource : Str) : Option (Str × Str) :=
  match splitn ':' 4 resource with
  | [root, _, service, name] => if root == "oxibelt" then some (service, name) else none
  | _ => none

def claimKeyPrefix : Str := "claim."

variable (snapshot : IpmSnapshot) (r : Request)

def conditionValues (key : Str) : List Str :=
  if key == "principal.subject" then [r.actor.subject]
  else if key == "principal.groups" then r.actor.groups
  else if key == "request.source_ip" then (r.context.sourceIp.map IpAddr.display).toList
  else if key == "request.method" then r.context.method.toList
  else if key == "request.host" then r.context.host.toList
  else if key == "request.path" then r.context.path.toList
  else if key == "request.route" then r.context.route.toList
  else if key == "request.protocol" then r.context.protocol.toList
  else if key == "resource.service" then ((resourceParts r.resource).map (·.1)).toList
  else if key == "resource.name" then ((resourceParts r.resource).map (·.2)).toList
  else if key == "time.now" then (r.now.map decimal).toList
  else if claimKeyPrefix.isPrefixOf key then
    (r.context.claims.lookup (key.drop claimKeyPrefix.length)).toList
  else []

def ipCondition (actual : Str) (expected : List Str) (positive : Bool) : Bool :=
  match parseIpAddr actual with
  | none => !positive
  | some ip =>
    let isMatch := expected.any fun cidr =>
      match Cidr.parse cidr with
      | .ok cidr => cidr.contains ip
      | .error _ => false
    if positive then isMatch else !isMatch

/-- The date operators: some value of the key and some configured value stand in the relation. -/
def dateCondition (holds : Int → Int → Bool) (actual expected : List Str) : Bool :=
  actual.any fun a =>
    match parseI64 a with
    | none => false
    | some a => expected.any fun e =>
      match parseI64 e with
      | none => false
      | some e => holds a e

def conditionMatches (condition : IpmConditionConfig) : Bool :=
  let actual := conditionValues r condition.key
  if actual.isEmpty then false
  else
    match condition.operator with
    | .stringEquals => actual.any fun a => condition.values.any fun e => a == e
    | .stringNotEquals => actual.all fun a => condition.values.all fun e => a != e
    | .stringLike => actual.any fun a => condition.values.any fun e => patternMatches e a
    | .ipAddress => actual.any fun a => ipCondition a condition.values true
    | .notIpAddress => actual.all fun a => ipCondition a condition.values false
    | .bool => actual.any fun a => condition.values.any fun e => eqIgnoreAsciiCase a e
    | .dateBefore => dateCondition (fun a e => a < e) actual condition.values
    | .dateAfter => dateCondition (fun a e => a > e) actual condition.values

/-! ## Statements, policies and the decision -/

def statementMatches (statement : IpmPolicyStatementConfig) : Bool :=
  statement.actions.any (fun pattern => patternMatches pattern r.action) &&
    statement.resources.any (fun pattern => patternMatches pattern r.resource) &&
    statement.conditions.all (fun condition => conditionMatches r condition)

def bootstrapAdminPolicy : IpmPolicyConfig where
  name := "bootstrap-admin"
  version := "2026-05-23"
  statements := [{ effect := .allow, actions := [['*']], resources := [['*']] }]

/-- The policy names bound to the groups; `none` once the group `ipm-admin` is met. -/
def groupPolicyNames (snapshot : IpmSnapshot) : List Str → List Str → Option (List Str)
  | [], names => some names
  | group :: groups, names =>
    if group == "ipm-admin" then none
    else groupPolicyNames snapshot groups (names ++ (snapshot.groupBindings.lookup group).getD [])

/-- Names in order of first occurrence, as the `seen` set of the source keeps them. -/
def dedupNames : List Str → List Str → List Str
  | _, [] => []
  | seen, name :: names =>
    if name ∈ seen then dedupNames seen names else name :: dedupNames (name :: seen) names

def policiesForActorInSnapshot (actor : IpmActor) : List IpmPolicyConfig :=
  match groupPolicyNames snapshot actor.groups
      ((snapshot.principalBindings.lookup actor.principal).getD []) with
  | none => [bootstrapAdminPolicy]
  | some names =>
    (dedupNames [] names).filterMap fun name =>
      match snapshot.policies.lookup name with
      | some policy => if policy.enabled then some policy.policy else none
      | none => none

/-- The loop over the statements of one policy; `none` is the early return of a Deny. -/
def scanStatements (r : Request) : List IpmPolicyStatementConfig → Bool → Option Bool
  | [], sawAllow => some sawAllow
  | statement :: rest, sawAllow =>
    if !statementMatches r statement then scanStatements r rest sawAllow
    else
      match statement.effect with
      | .deny => none
      | .allow => scanStatements r rest true

def scanPolicies (r : Request) : List IpmPolicyConfig → Bool → Option Bool
  | [], sawAllow => some sawAllow
  | policy :: rest, sawAllow =>
    match scanStatements r policy.statements sawAllow with
    | none => none
    | some sawAllow => scanPolicies r rest sawAllow

def authorizeSnapshot : IpmDecision :=
  match scanPolicies r (policiesForActorInSnapshot snapshot r.actor) false with
  | none => .deny
  | some sawAllow => if sawAllow then .allow else .deny

/-! ## Which statements decide -/

/-- All statements of the actor's policies, in the order they are looked at. -/
def statementsFor (actor : IpmActor) : List IpmPolicyStatementConfig :=
  (policiesForActorInSnapshot snapshot actor).flatMap (·.statements)

def MatchedWith (effect : IpmPolicyEffect) (statements : List IpmPolicyStatementConfig) : Prop :=
  ∃ statement ∈ statements, statement.effect = effect ∧ statementMatches r statement = true

variable {r : Request}

theorem matchedWith_cons {effect : IpmPolicyEffect} {x : IpmPolicyStatementConfig}
    {xs : List IpmPolicyStatementConfig} : MatchedWith r effect (x :: xs) ↔
      (x.effect = effect ∧ statementMatches r x = true) ∨ MatchedWith r effect xs := by
  simp [MatchedWith]

theorem scanStatements_append (r : Request) (xs ys : List IpmPolicyStatementConfig) (b : Bool) :
    scanStatements r (xs ++ ys) b = (scanStatements r xs b).bind (scanStatements r ys) := by
  induction xs generalizing b with
  | nil => rfl
  | cons statement xs ih =>
    simp only [cons_append, scanStatements]
    split
    · exact ih b
    split
    · rfl
    · exact ih true

/-- The nested loops are one loop over all statements. -/
theorem scanPolicies_eq (r : Request) (policies : List IpmPolicyConfig) (b : Bool) :
    scanPolicies r policies b = scanStatements r (policies.flatMap (·.statements)) b := by
  induction policies generalizing b with
  | nil => rfl
  | cons policy policies ih =>
    rw [flatMap_cons, scanStatements_append, scanPolicies]
    cases scanStatements r policy.statements b with
    | none => rfl
    | some b' => exact ih b'

theorem scanStatements_eq_none_iff (r : Request) (statements : List IpmPolicyStatementConfig)
    (b : Bool) : scanStatements r statements b = none ↔ MatchedWith r .deny statements := by
  induction statements generalizing b with
  | nil => simp [scanStatements, MatchedWith]
  | cons statement statements ih =>
    rw [scanStatements, matchedWith_cons]
    cases hm : statementMatches r statement with
    | false => simpa using ih b
    | true =>
      cases he : statement.effect with
      | deny => simp
      | allow => simpa using ih true

theorem scanStatements_eq_some {statements : List IpmPolicyStatementConfig} {b b' : Bool}
    (h : scanStatements r statements b = some b') :
    b' = true ↔ b = true ∨ MatchedWith r .allow statements := by
  induction statements generalizing b with
  | nil =>
    simp only [scanStatements, Option.some.injEq] at h
    simp [h, MatchedWith]
  | cons statement statements ih =>
    rw [scanStatements] at h
    rw [matchedWith_cons]
    cases hm : statementMatches r statement with
    | false =>
      rw [hm] at h
      simpa using ih (by simpa using h)
    | true =>
      rw [hm] at h
      cases he : statement.effect with
      | deny => simp [he] at h
      | allow =>
        have := ih (b := true) (by simpa [he] using h)
        simpa using this

theorem authorizeSnapshot_eq_deny_iff (r : Request) : authorizeSnapshot snapshot r = .deny ↔
      MatchedWith r .deny (statementsFor snapshot r.actor) ∨
        ¬ MatchedWith r .allow (statementsFor snapshot r.actor) := by
  unfold authorizeSnapshot
  rw [scanPolicies_eq]
  change (match scanStatements r (statementsFor snapshot r.actor) false with
    | none => IpmDecision.deny
    | some sawAllow => if sawAllow then .allow else .deny) = .deny ↔ _
  cases hs : scanStatements r (statementsFor snapshot r.actor) false with
  | none => simp [(scanStatements_eq_none_iff r _ false).1 hs]
  | some b =>
    have hno : ¬ MatchedWith r .deny (statementsFor snapshot r.actor) := by
      rw [← scanStatements_eq_none_iff r _ false, hs]
      simp
    have hb := scanStatements_eq_some hs
    simp only [Bool.false_eq_true, false_or] at hb
    rw [← hb]
    cases b <;> simp [hno]

/-! ## What a statement says, for a given meaning of its patterns -/

section Meaning

variable (like : Str → Str → Prop)

/-- A condition with `StringLike` read through `like`; the other operators use no patterns. -/
def ConditionHolds (r : Request) (condition : IpmConditionConfig) : Prop :=
  if condition.operator = .stringLike then
    ∃ actual ∈ conditionValues r condition.key, ∃ expected ∈ condition.values, like expected actual
  else conditionMatches r condition = true

/-- The request is covered by an action pattern, a resource pattern and the conditions. -/
structure StatementCovers (r : Request) (statement : IpmPolicyStatementConfig) : Prop where
  action : ∃ pattern ∈ statement.actions, like pattern r.action
  resource : ∃ pattern ∈ statement.resources, like pattern r.resource
  conditions : ∀ condition ∈ statement.conditions, ConditionHolds like r condition

end Meaning

/-- The pattern covers the value, and the matcher places its last piece at the end of the value. -/
def CoversPlaced (pattern value : Str) : Prop := Covers pattern value ∧ PlacedLast pattern value

theorem conditionMatches_iff (r : Request) (condition : IpmConditionConfig) :
    conditionMatches r condition = true ↔ ConditionHolds CoversPlaced r condition := by
  unfold ConditionHolds
  split
  · next hop =>
    unfold conditionMatches
    cases hv : conditionValues r condition.key with
    | nil => simp
    | cons a as => simp [hop, patternMatches_iff, CoversPlaced]
  · rfl

theorem statementMatches_iff (r : Request) (statement : IpmPolicyStatementConfig) :
    statementMatches r statement = true ↔ StatementCovers CoversPlaced r statement := by
  simp only [statementMatches, Bool.and_eq_true, any_eq_true, all_eq_true, patternMatches_iff, conditionMatches_iff]
  constructor
  · rintro ⟨⟨ha, hr⟩, hc⟩
    exact ⟨ha, hr, hc⟩
  · rintro ⟨ha, hr, hc⟩
    exact ⟨⟨ha, hr⟩, hc⟩

/-- Some statement with this effect covers the request under the given meaning of patterns. -/
def CoveredWith (like : Str → Str → Prop) (r : Request) (effect : IpmPolicyEffect)
    (statements : List IpmPolicyStatementConfig) : Prop :=
  ∃ statement ∈ statements, statement.effect = effect ∧ StatementCovers like r statement

theorem CoveredWith.mono {like like' : Str → Str → Prop} {effect : IpmPolicyEffect}
    {statements : List IpmPolicyStatementConfig} (h : CoveredWith like r effect statements)
    (hl : ∀ p v, like p v → like' p v) : CoveredWith like' r effect statements := by
  obtain ⟨statement, hm, hef, ⟨p, hp, hac⟩, ⟨q, hq, hr⟩, hcn⟩ := h
  refine ⟨statement, hm, hef, ⟨p, hp, hl _ _ hac⟩, ⟨q, hq, hl _ _ hr⟩, fun c hc => ?_⟩
  have hc' := hcn c hc
  unfold ConditionHolds at hc' ⊢
  split
  · next hop =>
    rw [if_pos hop] at hc'
    obtain ⟨a, ha, e, he, hae⟩ := hc'
    exact ⟨a, ha, e, he, hl _ _ hae⟩
  · next hop => rwa [if_neg hop] at hc'

theorem matchedWith_iff (r : Request) (effect : IpmPolicyEffect) (statements : List IpmPolicyStatementConfig) :
    MatchedWith r effect statements ↔ CoveredWith CoversPlaced r effect statements := by
  simp only [MatchedWith, CoveredWith, statementMatches_iff]

/-- **Patterns and Deny statements.**  The matcher agrees with the meaning of `*` exactly if a
covered value is one whose last piece it places at the end; and a request covered by a Deny statement
is denied exactly if some Deny statement covers it through such patterns or no Allow statement does. -/
theorem authorizeSnapshot_covered_deny (pattern value : Str) (snapshot : IpmSnapshot) (r : Request) :
    ((patternMatches pattern value = true ↔ Covers pattern value) ↔
      (Covers pattern value → PlacedLast pattern value)) ∧
    (CoveredWith Covers r .deny (statementsFor snapshot r.actor) →
      (authorizeSnapshot snapshot r = .deny ↔
        CoveredWith CoversPlaced r .deny (statementsFor snapshot r.actor) ∨
          ¬ CoveredWith CoversPlaced r .allow (statementsFor snapshot r.actor))) := by
  constructor
  · rw [patternMatches_iff]
    tauto
  · intro _
    rw [authorizeSnapshot_eq_deny_iff, matchedWith_iff, matchedWith_iff]

/-! ## A policy with one Deny statement -/

/-- Everything is allowed except the routes whose name ends in `-admin`. -/
def routeSnapshot : IpmSnapshot where
  policies := [("edge", { enabled := true, policy := {
    name := "edge"
    version := "2026-05-23"
    statements := [
      { effect := .allow, actions := [['*']], resources := [['*']] },
      { effect := .deny, actions := [['*']], resources := ["oxibelt:oxibelt:route:*-admin"] }] } })]
  principalBindings := [("ops", ["edge"])]
  groupBindings := []

def routeRequest (resource : String) : Request where
  actor := { name := "ops", principal := "ops", subject := "ops", groups := [] }
  action := "route:Invoke"
  resource := resource.toList

theorem authorizeSnapshot_route_denied : CoveredWith CoversPlaced (routeRequest "oxibelt:oxibelt:route:web-admin") .deny
        (statementsFor routeSnapshot (routeRequest "oxibelt:oxibelt:route:web-admin").actor) ∧
      authorizeSnapshot routeSnapshot (routeRequest "oxibelt:oxibelt:route:web-admin") = .deny := by
  refine (and_iff_left_of_imp fun hp => ?_).2 ?_
  · refine ((authorizeSnapshot_covered_deny [] [] routeSnapshot _).2 ?_).2 (.inl hp)
    exact hp.mono fun _ _ h => h.1
  rw [← matchedWith_iff]
  exact ⟨{ effect := .deny, actions := [['*']], resources := ["oxibelt:oxibelt:route:*-admin"] },
    mem_cons_of_mem _ mem_cons_self, rfl, by decide +kernel⟩

/-- The route `web-admin-old-admin` is covered by the Deny statement, but the matcher places `-admin`
at its first occurrence: the pattern is missed and the request is allowed. -/
theorem authorizeSnapshot_route_missed :
    Covers "oxibelt:oxibelt:route:*-admin" "oxibelt:oxibelt:route:web-admin-old-admin" ∧
    patternMatches "oxibelt:oxibelt:route:*-admin"
      "oxibelt:oxibelt:route:web-admin-old-admin" = false ∧
    CoveredWith Covers (routeRequest "oxibelt:oxibelt:route:web-admin-old-admin") .deny
      (statementsFor routeSnapshot (routeRequest "oxibelt:oxibelt:route:web-admin-old-admin").actor) ∧
    authorizeSnapshot routeSnapshot (routeRequest "oxibelt:oxibelt:route:web-admin-old-admin") =
      .allow := by
  have hl : Covers ("-admin".toList ++ []) "-admin" := (glob_literal_append (by decide +kernel)).2 ⟨[], rfl, .nil⟩
  have hc : Covers "oxibelt:oxibelt:route:*-admin" "oxibelt:oxibelt:route:web-admin-old-admin" :=
    (glob_literal_append (x := "oxibelt:oxibelt:route:") (by decide +kernel)).2 ⟨_, rfl, .star "web-admin-old" hl⟩
  have ha : Covers ['*'] ("route:Invoke".toList ++ []) := .star _ .nil
  refine ⟨hc, by decide +kernel, ?_, by decide +kernel⟩
  refine ⟨{ effect := .deny, actions := [['*']], resources := ["oxibelt:oxibelt:route:*-admin"] },
    mem_cons_of_mem _ mem_cons_self, rfl, ?_, ?_, ?_⟩
  · exact ⟨['*'], mem_cons_self, ha⟩
  · exact ⟨_, mem_cons_self, hc⟩
  · exact fun _ h => absurd h not_mem_nil

end Ipm
