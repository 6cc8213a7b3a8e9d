import PropertyGraph.Demo

def main : IO UInt32 := do
  let (lines, result) := PropertyGraph.Demo.report
  for line in lines do
    IO.println line
  match result with
  | .ok () => return 0
  | .error reason =>
      IO.eprintln ("Error: " ++ reason)
      return 1
