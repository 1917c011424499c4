import LeaseFleet.Decimal.Text
import LeaseFleet.Json.Value

/-!
# Writing JSON

The compact form: no blanks, fields in their order, only the escapes that JSON demands. Doubles
take their shortest digits and always show a fraction or an exponent.
-/

namespace LeaseFleet.Json

/-- Doubles in JSON text: positional from five zeros after the point up to sixteen digits
before it. -/
def numberLayout : Decimal.Layout where
  positional point := -5 < point && point ≤ 16
  wholeSuffix := ".0"
  notANumber := "null"
  infinity := "null"

/-- The two hexadecimal digits of a control character. -/
def hexPair (n : Nat) : List Char :=
  [Nat.digitChar (n / 16 % 16), Nat.digitChar (n % 16)]

def escapeChar (c : Char) : List Char :=
  if c = '"' then ['\\', '"']
  else if c = '\\' then ['\\', '\\']
  else if c = '\n' then ['\\', 'n']
  else if c = '\t' then ['\\', 't']
  else if c = '\r' then ['\\', 'r']
  else if c.toNat = 8 then ['\\', 'b']
  else if c.toNat = 12 then ['\\', 'f']
  else if c.toNat < 32 then ['\\', 'u', '0', '0'] ++ hexPair c.toNat
  else [c]

def quote (text : String) : String :=
  String.ofList ('"' :: (text.toList.flatMap escapeChar ++ ['"']))

def commaList (parts : List String) : String := ",".intercalate parts

mutual

def write : Json → String
  | .null => "null"
  | .bool true => "true"
  | .bool false => "false"
  | .natural n => toString n
  | .negative n => "-" ++ toString n
  | .real x => numberLayout.text x
  | .string text => quote text
  | .array items => "[" ++ commaList (writeItems items) ++ "]"
  | .object fields => "\x7b" ++ commaList (writeFields fields) ++ "\x7d"

def writeItems : List Json → List String
  | [] => []
  | item :: rest => write item :: writeItems rest

def writeFields : List (String × Json) → List String
  | [] => []
  | (name, value) :: rest => (quote name ++ ":" ++ write value) :: writeFields rest

end

end LeaseFleet.Json
