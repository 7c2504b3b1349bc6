import Mathlib.Data.List.Basic

namespace Kaas

inductive PrincipalKind
  | user
  | serviceAccount
  | anonymous
deriving DecidableEq

def PrincipalKind.asStr : PrincipalKind → String
  | .user => "User"
  | .serviceAccount => "ServiceAccount"
  | .anonymous => "User"

structure Principal where
  name : String
  kind : PrincipalKind
deriving DecidableEq

def Principal.anonymous : Principal := ⟨"ANONYMOUS",.anonymous⟩

def Principal.asPrincipalString (p : Principal) : String := p.kind.asStr++":"++p.name

inductive ResourceKind
  | topic
  | group
  | cluster
  | transactionalId
deriving DecidableEq

def ResourceKind.asStr : ResourceKind → String
  | .topic => "topic"
  | .group => "group"
  | .cluster => "cluster"
  | .transactionalId => "transactionalId"

/-- What is accessed; the pattern of a request's resource is always literal and nothing reads it. -/
structure Resource where
  kind : ResourceKind
  name : String
deriving DecidableEq

inductive Operation
  | read
  | write
  | create
  | delete
  | alter
  | describe
  | describeConfigs
  | alterConfigs
  | clusterAction
deriving DecidableEq

def Operation.parse (s : String) : Option Operation :=
  match s with
  | "Read" => some .read
  | "Write" => some .write
  | "Create" => some .create
  | "Delete" => some .delete
  | "Alter" => some .alter
  | "Describe" => some .describe
  | "DescribeConfigs" => some .describeConfigs
  | "AlterConfigs" => some .alterConfigs
  | "ClusterAction" => some .clusterAction
  | _ => none

structure AclResource where
  kind : String
  name : String
  patternType : String
deriving DecidableEq

structure AclEntry where
  principal : String
  resource : AclResource
  operations : List String
  permission : String
deriving DecidableEq

structure AclRule where
  principal : String
  resType : String
  resName : String
  patternType : String
  operations : List Operation
  operationAll : Bool
  deny : Bool
deriving DecidableEq

def patternOrLiteral (patternType : String) : String :=
  if patternType="" then "literal" else patternType

/-- The operations of one entry the engine knows, and whether `All` is among them; an unknown name
is dropped. -/
def parseOperations : List String → List Operation × Bool
  | [] => ([],false)
  | s::rest =>
    let (ops,all) := parseOperations rest
    if s="All" then (ops,true)
    else match Operation.parse s with
      | some op => (op::ops,all)
      | none => (ops,all)

def AclEntry.toRule (a : AclEntry) : AclRule where
  principal := a.principal
  resType := a.resource.kind
  resName := a.resource.name
  patternType := patternOrLiteral a.resource.patternType
  operations := (parseOperations a.operations).1
  operationAll := (parseOperations a.operations).2
  deny := a.permission="Deny"

def loadRules (file : Option (List AclEntry)) : List AclRule :=
  (file.getD []).map AclEntry.toRule

def matchesPrincipal (rulePrincipal reqPrincipal : String) : Bool :=
  rulePrincipal="User:*" || rulePrincipal="*" || rulePrincipal=reqPrincipal

def startsWith (name head : String) : Bool := head.toList.isPrefixOf name.toList

def matchesResource (rule : AclRule) (res : Resource) : Bool :=
  (rule.resType="*" || rule.resType=res.kind.asStr) && match rule.patternType with
    | "literal" => rule.resName=res.name || rule.resName="*"
    | "prefix" => startsWith res.name rule.resName
    | "any" => true
    | "match" => startsWith res.name rule.resName
    | _ => rule.resName=res.name

def AclRule.covers (r : AclRule) (p : Principal) (res : Resource) (op : Operation) : Bool :=
  matchesPrincipal r.principal p.asPrincipalString && matchesResource r res &&
    (r.operationAll || r.operations.contains op)

/-- The rule walk with the flag it carries; a deny ends it. -/
def evaluateFrom (p : Principal) (res : Resource) (op : Operation) : Bool → List AclRule → Bool
  | allow,[] => allow
  | allow,r::rules =>
    if !matchesPrincipal r.principal p.asPrincipalString then evaluateFrom p res op allow rules
    else if !matchesResource r res then evaluateFrom p res op allow rules
    else if !r.operationAll && !r.operations.contains op then evaluateFrom p res op allow rules
    else if r.deny then false
    else evaluateFrom p res op true rules

def evaluate (rules : List AclRule) (p : Principal) (res : Resource) (op : Operation) : Bool :=
  evaluateFrom p res op false rules

theorem evaluateFrom_cons (p : Principal) (res : Resource) (op : Operation) (allow : Bool)
    (r : AclRule) (rules : List AclRule) : evaluateFrom p res op allow (r::rules)=
      if r.covers p res op then !r.deny && evaluateFrom p res op true rules
      else evaluateFrom p res op allow rules := by
  rw [evaluateFrom,AclRule.covers]
  cases matchesPrincipal r.principal p.asPrincipalString <;> cases matchesResource r res <;>
    cases r.operationAll <;> cases r.operations.contains op <;> cases r.deny <;> rfl

theorem evaluateFrom_iff (p : Principal) (res : Resource) (op : Operation) (allow : Bool)
    (rules : List AclRule) : evaluateFrom p res op allow rules=true ↔
      (allow=true ∨ ∃r∈rules,r.covers p res op=true ∧ r.deny=false) ∧
        ∀r∈rules,r.covers p res op=true → r.deny=false := by
  induction rules generalizing allow with
  | nil => simp [evaluateFrom]
  | cons r rules ih =>
    rw [evaluateFrom_cons]
    by_cases hc : r.covers p res op=true
    · rw [if_pos hc,Bool.and_eq_true,ih,Bool.not_eq_true']
      simp only [List.forall_mem_cons,hc,forall_const,true_or,true_and,List.exists_mem_cons_iff]
      exact ⟨fun h => ⟨.inr (.inl h.1),h⟩,And.right⟩
    · rw [if_neg hc,ih]
      simp [hc]

theorem evaluate_iff (rules : List AclRule) (p : Principal) (res : Resource) (op : Operation) :
    evaluate rules p res op=true ↔ (∃r∈rules,r.covers p res op=true ∧ r.deny=false) ∧
      ∀r∈rules,r.covers p res op=true → r.deny=false := by
  simp [evaluate,evaluateFrom_iff]

theorem evaluate_of_deny {rules : List AclRule} {p : Principal} {res : Resource} {op : Operation} {r : AclRule}
    (hr : r∈rules) (hc : r.covers p res op=true) (hd : r.deny=true) : evaluate rules p res op=false := by
  rw [Bool.eq_false_iff]
  intro h
  have := ((evaluate_iff ..).mp h).2 r hr hc
  rw [hd] at this
  cases this

end Kaas
