import Libcold.HttpCommon

namespace Libcold

open HttpCommon

/-- The states of llhttp that consume the bytes of a target. -/
inductive LlhttpUrl
  | start
  | schema
  | schemaDelim
  | schemaDelim1
  | server
  | serverWithAt
  | path
  | query
  | fragment
  deriving DecidableEq

namespace LlhttpUrl

def serverChar (c : UInt8) : Bool :=
  isalpha c || isdigit c || (ascii "!$%&'()*+,-.:;=[]_~").contains c

def urlChar (c : UInt8) : Bool := 33 ≤ c && c ≤ 126

/-- A byte of the target, in the state reached; the others end the target or are
errors. -/
def next : LlhttpUrl → UInt8 → Option LlhttpUrl
  | start, c => if c = 47 || c = 42 then some path else if isalpha c then some schema else none
  | schema, c => if c = 58 then some schemaDelim else if isalpha c then some schema else none
  | schemaDelim, c => if c = 47 then some schemaDelim1 else none
  | schemaDelim1, c => if c = 47 then some server else none
  | server, c =>
      if c = 47 then some path else if c = 63 then some query else if c = 64 then some serverWithAt
      else if serverChar c then some server else none
  | serverWithAt, c =>
      if c = 47 then some path else if c = 63 then some query else if serverChar c then some server else none
  | path, c => if c = 35 then some fragment else if c = 63 then some query else if urlChar c then some path else none
  | query, c => if c = 35 then some fragment else if urlChar c then some query else none
  | fragment, c => if urlChar c then some fragment else none

def run : LlhttpUrl → List UInt8 → Option LlhttpUrl
  | s, [] => some s
  | s, c :: rest => (next s c).bind fun t => run t rest

/-- The states in which a space ends the target. -/
def Ends : LlhttpUrl → Bool
  | start | schema | schemaDelim | schemaDelim1 => false
  | server | serverWithAt | path | query | fragment => true

/-- llhttp reads the target through; the target of CONNECT begins with the server. -/
def Admits (connect : Bool) (target : List UInt8) : Prop :=
  ∃ s, run (if connect then server else start) target = some s ∧ s.Ends = true

/-- A target begins with a slash, with an asterisk or with the letter of a schema. -/
theorem admits_cases {target : List UInt8} (h : Admits false target) :
    ∃ c rest, target = c :: rest ∧ (c = 47 ∨ c = 42 ∨ isalpha c = true) := by
  obtain ⟨s, hrun, hends⟩ := h
  cases target with
  | nil =>
      cases hrun
      cases hends
  | cons c rest =>
      refine ⟨c, rest, rfl, ?_⟩
      obtain ⟨t, hnext, -⟩ := Option.bind_eq_some_iff.mp hrun
      simp only [Bool.false_eq_true, if_false, next] at hnext
      split_ifs at hnext with hpath hletter
      · simp only [Bool.or_eq_true, decide_eq_true_eq] at hpath
        exact hpath.elim .inl fun h => .inr (.inl h)
      · exact .inr (.inr hletter)

end LlhttpUrl

end Libcold
