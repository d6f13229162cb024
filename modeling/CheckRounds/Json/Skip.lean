import CheckRounds.Json.Number
/-!
Reading over a JSON value of no interest.

The value may be of any kind and any depth. Its form is checked by the grammar alone:
numbers of any size pass, and so do strings that name half a character.
-/

namespace CheckRounds.Json

def skipLiteral? (c : Char) (cs : List Char) : Option (Tail cs) :=
  if c = 'n' then afterWord? ['u', 'l', 'l'] cs
  else if c = 't' then afterWord? ['r', 'u', 'e'] cs
  else if c = 'f' then afterWord? ['a', 'l', 's', 'e'] cs
  else none

def skipAtom? (c : Char) (cs : List Char) : Option (Tail cs) :=
  if c = '"' then
    match skipString? cs with
    | some r => some r.toTail
    | none => none
  else if startsNumeral c then
    match numeral? (c :: cs) with
    | some (_, r) => some r.behind
    | none => none
  else skipLiteral? c cs

mutual

/-- What follows a value, blanks in front of it included. -/
def skipValue? (cs : List Char) : Option (Rest cs) :=
  match next? cs with
  | none => none
  | some (c, r) =>
    if c = '[' then
      match next? r.1 with
      | some (']', s) => some (r.andThen s)
      | _ =>
        match skipElements? r.1 with
        | some s => some (r.andThen s)
        | none => none
    else if c = '\x7b' then
      match next? r.1 with
      | some ('\x7d', s) => some (r.andThen s)
      | _ =>
        match skipMembers? r.1 with
        | some s => some (r.andThen s)
        | none => none
    else
      match skipAtom? c r.1 with
      | some s => some (r.andPerhaps s)
      | none => none
termination_by (cs.length, 0)
decreasing_by all_goals exact Prod.Lex.left _ _ r.2

def skipElements? (cs : List Char) : Option (Rest cs) :=
  match skipValue? cs with
  | none => none
  | some r =>
    match next? r.1 with
    | some (',', s) =>
      match skipElements? s.1 with
      | some t => some (r.andThen (s.andThen t))
      | none => none
    | some (']', s) => some (r.andThen s)
    | _ => none
termination_by (cs.length, 1)
decreasing_by
  · exact Prod.Lex.right _ Nat.zero_lt_one
  · exact Prod.Lex.left _ _ (r.andThen s).2

def skipMembers? (cs : List Char) : Option (Rest cs) :=
  match next? cs with
  | some ('"', r) =>
    match skipString? r.1 with
    | none => none
    | some k =>
      match next? k.1 with
      | some (':', v) =>
        match skipValue? v.1 with
        | none => none
        | some w =>
          match next? w.1 with
          | some (',', s) =>
            match skipMembers? s.1 with
            | some t => some (r.andThen (k.andThen (v.andThen (w.andThen (s.andThen t)))))
            | none => none
          | some ('\x7d', s) => some (r.andThen (k.andThen (v.andThen (w.andThen s))))
          | _ => none
      | _ => none
  | _ => none
termination_by (cs.length, 1)
decreasing_by
  · exact Prod.Lex.left _ _ (r.andThen (k.andThen v)).2
  · exact Prod.Lex.left _ _ (r.andThen (k.andThen (v.andThen (w.andThen s)))).2

end

end CheckRounds.Json
