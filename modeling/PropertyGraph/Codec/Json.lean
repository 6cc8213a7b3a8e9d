import PropertyGraph.Codec.Token
import PropertyGraph.Number.Decimal

namespace PropertyGraph

namespace Document

/-- Of two entries of one name the later one counts. -/
def insertEntry (entries : List (String × Document)) (name : String) (content : Document) :
    List (String × Document) :=
  entries.filter (fun entry => entry.1 != name) ++ [(name, content)]

mutual

/-- The document at the head of the tokens, and the tokens after it. Two units of fuel a token
are enough. -/
def ofTokens? : Nat → List Token → Option (Document × List Token)
  | _, .leaf document :: rest => some (document, rest)
  | _, .mark '[' :: .mark ']' :: rest => some (.list [], rest)
  | _, .mark '\x7b' :: .mark '\x7d' :: rest => some (.fields [], rest)
  | fuel + 1, .mark '[' :: rest => itemsOfTokens? fuel rest []
  | fuel + 1, .mark '\x7b' :: rest => entriesOfTokens? fuel rest []
  | _, _ => none

def itemsOfTokens? : Nat → List Token → List Document → Option (Document × List Token)
  | 0, _, _ => none
  | fuel + 1, tokens, items =>
      match ofTokens? fuel tokens with
      | some (item, .mark ',' :: rest) => itemsOfTokens? fuel rest (item :: items)
      | some (item, .mark ']' :: rest) => some (.list (item :: items).reverse, rest)
      | _ => none

def entriesOfTokens? :
    Nat → List Token → List (String × Document) → Option (Document × List Token)
  | fuel + 1, .leaf (.text name) :: .mark ':' :: tokens, entries =>
      match ofTokens? fuel tokens with
      | some (content, .mark ',' :: rest) =>
          entriesOfTokens? fuel rest (insertEntry entries name content)
      | some (content, .mark '\x7d' :: rest) =>
          some (.fields (insertEntry entries name content), rest)
      | _ => none
  | _, _, _ => none

end

def ofJson? (json : String) : Option Document := do
  let tokens ← Token.ofChars? json.toList
  match ← ofTokens? (2 * tokens.length) tokens with
  | (document, []) => some document
  | _ => none

def escaped (c : Char) : String :=
  if c = '"' then "\\\""
  else if c = '\\' then "\\\\"
  else if c < ' ' then "\\u" ++ Hexadecimal.write 4 c.toNat
  else c.toString

def quoted (s : String) : String := "\"" ++ String.join (s.toList.map escaped) ++ "\""

/-- A real keeps a point in its text; what is no finite number is written as null. -/
def realText (x : Binary64) : String :=
  if x.isNaN || x.isInfinite then "null"
  else if x.text.contains '.' then x.text
  else x.text ++ ".0"

mutual

def json : Document → String
  | .null => "null"
  | .bool b => if b then "true" else "false"
  | .int n => toString n
  | .real x => realText x
  | .text s => quoted s
  | .list items => "[" ++ ",".intercalate (jsonItems items) ++ "]"
  | .fields entries => "\x7b" ++ ",".intercalate (jsonEntries entries) ++ "\x7d"

def jsonItems : List Document → List String
  | [] => []
  | item :: rest => item.json :: jsonItems rest

def jsonEntries : List (String × Document) → List String
  | [] => []
  | (name, content) :: rest => (quoted name ++ ":" ++ content.json) :: jsonEntries rest

end

end Document

end PropertyGraph
