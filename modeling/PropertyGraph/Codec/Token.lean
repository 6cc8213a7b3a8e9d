import PropertyGraph.Codec.Numeral
import PropertyGraph.Number.Hexadecimal

namespace PropertyGraph

inductive Token where
  | mark (c : Char)
  | leaf (document : Document)

namespace Token

/-- What has been read of the token at hand; the characters of a text and of a word are kept
last first. A unit is a code of four hexadecimal digits; `high` is the first unit of a pair. -/
inductive Phase where
  | between
  | word (chars : List Char)
  | text (chars : List Char)
  | escape (chars : List Char)
  | unit (chars : List Char) (high : Option Nat) (digits : List Char)
  | pair (chars : List Char) (high : Nat)
  | pairEscape (chars : List Char) (high : Nat)

structure Reading where
  now : Phase
  tokens : List Token

def isBlank (c : Char) : Bool := c = ' ' ∨ c = '\n' ∨ c = '\r' ∨ c = '\t'

def isMark (c : Char) : Bool :=
  c = '\x7b' ∨ c = '\x7d' ∨ c = '[' ∨ c = ']' ∨ c = ',' ∨ c = ':'

def ofWord? (chars : List Char) : Option Token :=
  if chars = "null".toList then some (leaf .null)
  else if chars = "true".toList then some (leaf (.bool true))
  else if chars = "false".toList then some (leaf (.bool false))
  else (Numeral.ofChars? chars).bind fun n => n.document?.map leaf

def escaped? : Char → Option Char
  | '"' => some '"'
  | '\\' => some '\\'
  | '/' => some '/'
  | 'b' => some '\x08'
  | 'f' => some '\x0c'
  | 'n' => some '\n'
  | 'r' => some '\r'
  | 't' => some '\t'
  | _ => none

def isHigh (unit : Nat) : Bool := 0xD800 ≤ unit ∧ unit < 0xDC00

def isLow (unit : Nat) : Bool := 0xDC00 ≤ unit ∧ unit < 0xE000

/-- What follows a whole unit: a high one waits for a low one, a low one needs a high one. -/
def Phase.afterUnit? (chars : List Char) (high : Option Nat) (unit : Nat) : Option Phase :=
  match high with
  | none =>
      if isHigh unit then some (pair chars unit)
      else if isLow unit then none
      else some (text (Char.ofNat unit :: chars))
  | some high =>
      if isLow unit then
        some (text (Char.ofNat (0x10000 + (high - 0xD800) * 0x400 + (unit - 0xDC00)) :: chars))
      else none

namespace Reading

def start? (tokens : List Token) (c : Char) : Option Reading :=
  if isBlank c then some ⟨.between, tokens⟩
  else if isMark c then some ⟨.between, mark c :: tokens⟩
  else if c = '"' then some ⟨.text [], tokens⟩
  else some ⟨.word [c], tokens⟩

def step? (r : Reading) (c : Char) : Option Reading :=
  match r.now with
  | .between => start? r.tokens c
  | .word chars =>
      if isBlank c || isMark c then
        (ofWord? chars.reverse).bind fun token => start? (token :: r.tokens) c
      else some { r with now := .word (c :: chars) }
  | .text chars =>
      if c = '"' then some ⟨.between, leaf (.text (.ofList chars.reverse)) :: r.tokens⟩
      else if c = '\\' then some { r with now := .escape chars }
      else if c < ' ' then none
      else some { r with now := .text (c :: chars) }
  | .escape chars =>
      if c = 'u' then some { r with now := .unit chars none [] }
      else (escaped? c).map fun plain => { r with now := .text (plain :: chars) }
  | .unit chars high digits =>
      let digits := digits ++ [c]
      if digits.length < 4 then some { r with now := .unit chars high digits }
      else do
        let unit ← Hexadecimal.read? digits
        return { r with now := ← Phase.afterUnit? chars high unit }
  | .pair chars high => if c = '\\' then some { r with now := .pairEscape chars high } else none
  | .pairEscape chars high =>
      if c = 'u' then some { r with now := .unit chars (some high) [] } else none

/-- The tokens in order; the end of the text ends a word. -/
def finish? (r : Reading) : Option (List Token) :=
  match r.now with
  | .between => some r.tokens.reverse
  | .word chars => (ofWord? chars.reverse).map fun token => (token :: r.tokens).reverse
  | _ => none

end Reading

def ofChars? (chars : List Char) : Option (List Token) :=
  (chars.foldlM Reading.step? ⟨.between, []⟩).bind Reading.finish?

end Token

end PropertyGraph
