import IncEmulation.Wire

/-!
# The rule table (`rule.h`, `rule.c`)

A connection pointer `&ctx->conns[i]` is the index `i`; `NULL` is `none`.
-/

namespace IncEmulation

def maxRules : Nat := 100
def maxPortNum : Nat := 10
def maxConnectionsNum : Nat := 10

inductive RuleDirection where
  | up
  | down
  /-- A configured `int` that is neither `DIR_UP` nor `DIR_DOWN`. -/
  | other (value : Int)
  deriving DecidableEq, Repr

def RuleDirection.ofInt (value : Int) : RuleDirection :=
  if value = 0 then .up else if value = 1 then .down else .other value

structure Rule where
  srcIp : Word
  dstIp : Word
  primitive : PrimitiveType
  primitiveParam : Int
  connId : Int
  direction : RuleDirection
  root : Bool
  ackConn : Option Nat
  outConns : List Nat
  deriving DecidableEq, Repr

/-- `rules[0 .. count)`. -/
structure RuleTable where
  rules : List Rule
  deriving DecidableEq, Repr

def matchRule (rule : Rule) (srcIp dstIp : Word)
    (primitive : PrimitiveType) (primitiveParam : Int) : Bool :=
  if rule.srcIp ≠ srcIp ∨ rule.dstIp ≠ dstIp then false
  else if rule.primitive ≠ primitive then false
  else if primitive = .allreduce then true
  else rule.primitiveParam = primitiveParam

/-- The first rule in table order that matches. -/
def lookupRule (table : RuleTable) (srcIp dstIp : Word)
    (primitive : PrimitiveType) (primitiveParam : Int) : Option Rule :=
  table.rules.find? fun rule =>
    matchRule rule srcIp dstIp primitive primitiveParam

def addRule (table : RuleTable) (rule : Rule) : Option RuleTable :=
  if table.rules.length ≥ maxRules then none
  else some { rules := table.rules ++ [rule] }

theorem matchRule_iff {rule : Rule} {srcIp dstIp : Word}
    {primitive : PrimitiveType} {primitiveParam : Int} :
    matchRule rule srcIp dstIp primitive primitiveParam = true ↔
      rule.srcIp = srcIp ∧ rule.dstIp = dstIp ∧
        rule.primitive = primitive ∧
          (primitive = .allreduce ∨ rule.primitiveParam = primitiveParam) := by
  unfold matchRule
  by_cases addresses : rule.srcIp ≠ srcIp ∨ rule.dstIp ≠ dstIp
  · simp only [addresses, if_true, Bool.false_eq_true, false_iff]
    tauto
  · push Not at addresses
    by_cases primitives : rule.primitive = primitive
    · by_cases all : primitive = .allreduce <;>
        simp [addresses, primitives, all]
    · simp [addresses, primitives]

/-- A rule table in which the matching rules all forward alike answers with
that rule wherever it stands. -/
theorem lookupRule_eq_some_of_unique {table : RuleTable} {rule : Rule}
    {srcIp dstIp : Word} {primitive : PrimitiveType} {primitiveParam : Int}
    (member : rule ∈ table.rules)
    (matching : matchRule rule srcIp dstIp primitive primitiveParam = true)
    (unique : ∀ other ∈ table.rules,
      matchRule other srcIp dstIp primitive primitiveParam = true →
        other = rule) :
    lookupRule table srcIp dstIp primitive primitiveParam = some rule := by
  cases found : lookupRule table srcIp dstIp primitive primitiveParam with
  | none =>
      have absent := List.find?_eq_none.mp found rule member
      exact absurd matching absent
  | some other =>
      have otherMember := List.mem_of_find?_eq_some found
      have otherMatching := List.find?_some found
      rw [unique other otherMember otherMatching]

theorem lookupRule_eq_none_iff {table : RuleTable}
    {srcIp dstIp : Word} {primitive : PrimitiveType} {primitiveParam : Int} :
    lookupRule table srcIp dstIp primitive primitiveParam = none ↔
      ∀ rule ∈ table.rules,
        matchRule rule srcIp dstIp primitive primitiveParam = false := by
  simp [lookupRule]

end IncEmulation
