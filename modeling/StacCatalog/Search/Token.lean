import StacCatalog.Json.Parse
import StacCatalog.Text.Base64
import StacCatalog.Text.Utf8

/-!
# Tokens that stand for a place in the answers of a search
-/

namespace StacCatalog.Token

mutual

/-- Whether all whole numbers inside fit into 64 bits. -/
def fits : Json → Bool
  | .int n => decide (-9223372036854775808 ≤ n) && decide (n ≤ 18446744073709551615)
  | .arr items => fitsItems items
  | .obj fields => fitsFields fields
  | _ => true

def fitsItems : List Json → Bool
  | [] => true
  | v :: rest => fits v && fitsItems rest

def fitsFields : List (String × Json) → Bool
  | [] => true
  | (_, v) :: rest => fits v && fitsFields rest

end

mutual

/-- How deep a value goes: an array with elements, and every object, lies one further out than what
is in it. -/
def depth : Json → Nat
  | .arr [] => 0
  | .arr (v :: rest) => max (depth v) (depthItems rest) + 1
  | .obj fields => depthFields fields + 1
  | _ => 0

def depthItems : List Json → Nat
  | [] => 0
  | v :: rest => max (depth v) (depthItems rest)

def depthFields : List (String × Json) → Nat
  | [] => 0
  | (_, v) :: rest => max (depth v) (depthFields rest)

end

/-- The greatest depth of a sort key. -/
def maxDepth : Nat := 255

/-- The token of a sort key. -/
def ofKey (key : Json) : Outcome String :=
  if !fits key then .error (.wrongType "Integer exceeds 64-bit range")
  else if maxDepth < depth key then .error (.wrongType "Recursion limit reached")
  else .ok (String.ofList (Text.encodeBase64 (Text.utf8 (key.write .tight))))

def isAscii (s : String) : Bool :=
  s.toList.all fun c => decide (c.toNat < 128)

/-- The sort key of a token. -/
def toKey (token : Json) : Outcome Json :=
  match token with
  | .str s =>
    if isAscii s then
      match Text.decodeBase64? s.toList with
      | some bytes =>
        match Text.decode? bytes with
        | some cs => Json.parse (String.ofList cs)
        | none => .error (.badJson "invalid UTF-8")
      | none => .error .badBase64
    else .error (.invalid "string argument should contain only ASCII characters")
  | v => .error (.wrongType
      ("argument should be a bytes-like object or ASCII string, not '" ++ v.kindName ++ "'"))

end StacCatalog.Token
