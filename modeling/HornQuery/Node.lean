/-!
# Syntax trees

A tree has one node type for clauses and terms alike: the reader only builds clauses over terms, but
whoever builds a tree by other means may nest nodes in any way, and the collector decides what a node
may mean where it stands.
-/

namespace HornQuery

/-- A node of a syntax tree. -/
inductive Node where
  /-- A line comment, without its percent sign. -/
  | comment (text : String)
  /-- A query: its goals and the text they were read from. -/
  | query (goals : List Node) (text : String)
  /-- A rule: what it concludes and what it needs. -/
  | rule (head : Node) (body : List Node)
  /-- A fact. -/
  | fact (term : Node)
  /-- A name applied to arguments. -/
  | compound (name : String) (args : List Node)
  /-- A plain or quoted name or a numeral, without quotes. -/
  | atom (text : String)
  /-- A name that starts with a capital letter. -/
  | var (name : String)
  /-- A value supplied when a query is executed, without its colon. -/
  | param (name : String)
deriving Repr, BEq, Inhabited

namespace Node

/-- What a node is, without its content. -/
inductive Kind where
  | comment | query | rule | fact | compound | atom | var | param
deriving DecidableEq, Repr

/-- The word for a kind of node in messages. -/
def Kind.name : Kind → String
  | .comment => "comment"
  | .query => "query"
  | .rule => "rule"
  | .fact => "fact"
  | .compound => "functor"
  | .atom => "symbol"
  | .var => "variable"
  | .param => "parameter"

/-- The kind of a node. -/
def kind : Node → Kind
  | .comment _ => .comment
  | .query _ _ => .query
  | .rule _ _ => .rule
  | .fact _ => .fact
  | .compound _ _ => .compound
  | .atom _ => .atom
  | .var _ => .var
  | .param _ => .param

end Node

/-- A clause of a source text with the byte offset at which it starts. -/
structure Located where
  /-- Byte offset of the first character of the clause. -/
  offset : Nat
  /-- The clause. -/
  node : Node
deriving Repr, BEq, Inhabited

end HornQuery
