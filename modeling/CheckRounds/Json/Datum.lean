/-!
Structured answers and their compact JSON text.

The members of a record are written in ascending order of their keys, nothing stands
between the parts, and only what must be escaped is escaped. So two data have the same
text exactly when they say the same, and the order of texts is an order of data.
-/

namespace CheckRounds.Json

/-- Data that answers are made of. All their numbers are natural. -/
inductive Datum where
  | null
  | boolean (b : Bool)
  | number (n : Nat)
  | text (s : String)
  | list (items : List Datum)
  | record (members : List (String × Datum))

namespace Datum

def escapedChar (c : Char) : List Char :=
  if c = '"' then ['\\', '"']
  else if c = '\\' then ['\\', '\\']
  else if c = '\x08' then ['\\', 'b']
  else if c = '\x0c' then ['\\', 'f']
  else if c = '\n' then ['\\', 'n']
  else if c = '\r' then ['\\', 'r']
  else if c = '\t' then ['\\', 't']
  else if c.toNat < 0x20 then
    ['\\', 'u', '0', '0', Nat.digitChar (c.toNat / 16), Nat.digitChar (c.toNat % 16)]
  else [c]

def renderText (s : String) : List Char := '"' :: (s.toList.flatMap escapedChar ++ ['"'])

/-- A member placed before the first one with a greater key. -/
def insertMember {α : Type} (m : String × α) : List (String × α) → List (String × α)
  | [] => [m]
  | n :: rest => if m.1 < n.1 then m :: n :: rest else n :: insertMember m rest

def sortMembers {α : Type} (members : List (String × α)) : List (String × α) :=
  members.foldr insertMember []

def joined : List (List Char) → List Char
  | [] => []
  | [cs] => cs
  | cs :: rest => cs ++ ',' :: joined rest

mutual

def render : Datum → List Char
  | null => ['n', 'u', 'l', 'l']
  | boolean true => ['t', 'r', 'u', 'e']
  | boolean false => ['f', 'a', 'l', 's', 'e']
  | number n => Nat.toDigits 10 n
  | text s => renderText s
  | list items => '[' :: (joined (renderItems items) ++ [']'])
  | record members =>
    '\x7b' :: (joined ((sortMembers (renderMembers members)).map fun (k, v) =>
      renderText k ++ ':' :: v) ++ ['\x7d'])

def renderItems : List Datum → List (List Char)
  | [] => []
  | d :: ds => d.render :: renderItems ds

def renderMembers : List (String × Datum) → List (String × List Char)
  | [] => []
  | (k, d) :: rest => (k, d.render) :: renderMembers rest

end

def failure (kind message : String) : Datum :=
  record [("error", text kind), ("message", text message)]

end Datum

end CheckRounds.Json
