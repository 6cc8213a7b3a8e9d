import PropertyGraph.Match.Condition
import PropertyGraph.Match.Run

namespace PropertyGraph

def version : String := "0.1.0"

namespace Demo

abbrev Script := ExceptT String (StateM (List String))

def say (line : String) : Script Unit := modify (· ++ [line])

def settle {α : Type} (change : Graph × Except GraphError α) : Script (Graph × α) :=
  match change with
  | (_, .error e) => throw e.message
  | (g, .ok a) => pure (g, a)

def finish {σ : Type} (run : σ × Except MatchError Unit) : Script σ :=
  match run with
  | (_, .error e) => throw e.message
  | (state, .ok ()) => pure state

def person (g : Graph) (name : String) (age : Int) (city : String) : Script (Graph × NodeId) := do
  let properties := Properties.ofPairs [("name", .string name), ("city", .string city)]
  let (g, id) ← settle (g.newNode (.ofList [⟨"Person"⟩]) properties)
  let (g, _) ← settle (g.setNodeProperty id "age" (.integer age))
  say ("✓ Created Person: " ++ name ++ " (age " ++ toString age ++ ", " ++ city ++ ")")
  return (g, id)

def since (year : Int) : Properties := Properties.ofPairs [("since", .integer year)]

def propertyGraph : Script Graph := do
  say "=== Demo 1: Property Graph ==="
  let (g, _) ← settle (Graph.empty.addNodeIndex "name")
  let (g, alice) ← person g "Alice" 30 "New York"
  let (g, bob) ← person g "Bob" 25 "San Francisco"
  let (g, charlie) ← person g "Charlie" 35 "New York"
  let (g, dana) ← person g "Dana" 41 "Boston"
  let (g, _) ← settle (g.newEdge alice bob ⟨"KNOWS"⟩ (since 2020))
  say "✓ Alice -[KNOWS]-> Bob (since 2020)"
  let (g, _) ← settle (g.newEdge bob charlie ⟨"KNOWS"⟩ (since 2019))
  say "✓ Bob -[KNOWS]-> Charlie (since 2019)"
  let (g, _) ← settle (g.newEdge charlie dana ⟨"KNOWS"⟩ ∅)
  say "✓ Charlie -[KNOWS]-> Dana"
  let (g, _) ← settle (g.newEdge alice charlie ⟨"FOLLOWS"⟩ ∅)
  say "✓ Alice -[FOLLOWS]-> Charlie"
  let stats := g.statistics
  say ""
  say "Graph Statistics:"
  say ("  Total nodes: " ++ toString stats.nodeCount)
  say ("  Total edges: " ++ toString stats.edgeCount)
  for (type, n) in stats.typeCounts do
    say ("  :" ++ type.name ++ " edges: " ++ toString n)
  return g

def nameOf (g : Graph) (row : Row) (variableName : String) : String :=
  let name := do
    let id ← (← row.get? variableName).node?
    (← g.node? id).property? "name"
  (name.map PropertyValue.text).getD "?"

def rowsOf (g : Graph) (p : PathPattern) : Script (List Row) :=
  finish (p.run g ∅ .none .rows [])

def patternMatching (g : Graph) : Script Unit := do
  say ""
  say "=== Demo 2: Pattern Matching ==="
  say ""
  say "MATCH (a:Person)-[:KNOWS]->(b:Person)"
  let knows := (PathPattern.ofNode ((NodePattern.any.named "a").withLabel ⟨"Person"⟩)).step
    ((EdgePattern.any .outgoing).withType ⟨"KNOWS"⟩)
    ((NodePattern.any.named "b").withLabel ⟨"Person"⟩)
  for row in ← rowsOf g knows do
    say ("  → " ++ nameOf g row "a" ++ " knows " ++ nameOf g row "b")
  say ""
  say "MATCH (a:Person)-[:KNOWS]->(b:Person) WHERE b.age > 28"
  let older : Condition := ⟨"b", "age", .greater, .integer 28⟩
  let n ← finish (knows.run g ∅ .none (Collector.count.filtered (older.accepts? g)) 0)
  say ("  → Found " ++ toString n ++ " rows")

def variableLength (g : Graph) : Script Unit := do
  say ""
  say "=== Demo 3: Variable-Length Paths ==="
  say ""
  say "MATCH (a \x7bname: \"Alice\"\x7d)-[r:KNOWS*1..]->(b)"
  let reach :=
    (PathPattern.ofNode ((NodePattern.any.named "a").withProperty "name" (.string "Alice"))).step
      ((((EdgePattern.any .outgoing).named "r").withType ⟨"KNOWS"⟩).withLength .unbounded)
      (NodePattern.any.named "b")
  for row in ← rowsOf g reach do
    let hops := (((row.get? "r").bind BoundValue.edges?).map List.length).getD 0
    say ("  → reaches " ++ nameOf g row "b" ++ " in " ++ toString hops ++ " hop(s)")

def matchClause (g : Graph) : Script Unit := do
  say ""
  say "=== Demo 4: Multi-Part MATCH ==="
  say ""
  say "MATCH (a)-[:FOLLOWS]->(c), (b)-[:KNOWS]->(c)"
  let part (name : String) (type : EdgeType) :=
    (PathPattern.ofNode (NodePattern.any.named name)).step
      ((EdgePattern.any .outgoing).withType type) (NodePattern.any.named "c")
  let clause : Clause := ⟨[part "a" ⟨"FOLLOWS"⟩, part "b" ⟨"KNOWS"⟩]⟩
  for row in ← finish (clause.run g ∅ .none .rows []) do
    say ("  → " ++ nameOf g row "a" ++ " follows " ++ nameOf g row "c" ++ ", whom " ++
      nameOf g row "b" ++ " knows")
  say ""
  say "✅ All patterns matched successfully!"

def script : Script Unit := do
  say ("Sutra Graph Query Engine v" ++ version)
  say "=========================================="
  say ""
  let g ← propertyGraph
  patternMatching g
  variableLength g
  matchClause g

def report : List String × Except String Unit :=
  let (result, lines) := script.run.run []
  (lines, result)

end Demo

end PropertyGraph
