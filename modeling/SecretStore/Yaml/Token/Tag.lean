import SecretStore.Yaml.Cursor
import SecretStore.Yaml.Token

namespace SecretStore.Yaml

def endsName : List Char → Bool
  | [] => true
  | c :: _ => isGap c || c = '?' || c = ':' || c = ',' || c = ']' || c = '\x7d' || c = '%' ||
    c = '@' || c = '`'

def readName (during : Activity) (here : Cursor) : Taken String :=
  let (name, after) := (here.pass 1).takeRun isWord
  if name = [] ∨ endsName after.rest = false then after.fault .anchorCharacter during here.mark
  else .ok (String.ofList name, after)

def readAnchor (here : Cursor) : Except GrammarFault (Token × Cursor) :=
  (readName .anchor here).map fun (name, after) => (⟨.anchor name, here.mark, after.mark⟩, after)

def readAlias (here : Cursor) : Except GrammarFault (Token × Cursor) :=
  (readName .alias here).map fun (name, after) => (⟨.alias name, here.mark, after.mark⟩, after)

def isAddress (c : Char) : Bool :=
  isWord c || c = ';' || c = '/' || c = '?' || c = ':' || c = '@' || c = '&' || c = '=' || c = '+' ||
    c = '$' || c = '.' || c = '!' || c = '~' || c = '*' || c = '\'' || c = '(' || c = ')' || c = '%'

def isVerbatim (c : Char) : Bool := isAddress c || c = ',' || c = '[' || c = ']'

def octetCount? (lead : Nat) : Option Nat :=
  if lead < 0x80 then some 1
  else if 0xC0 ≤ lead ∧ lead < 0xE0 then some 2
  else if 0xE0 ≤ lead ∧ lead < 0xF0 then some 3
  else if 0xF0 ≤ lead ∧ lead < 0xF8 then some 4
  else none

def escapedOctet? : List Char → Option Nat
  | '%' :: a :: b :: _ =>
    match hexDigit? a, hexDigit? b with
    | some high, some low => some (high * 16 + low)
    | _, _ => none
  | _ => none

def escapedTail (during : Activity) (start : Mark) : Nat → Cursor → Taken Tag
  | 0, here => .ok ([], here)
  | count + 1, here =>
    match escapedOctet? here.rest with
    | none => here.fault .uriOctet during start
    | some octet =>
      if octet / 64 ≠ 2 then here.fault .uriTrail during start
      else (escapedTail during start count (here.pass 3)).map fun (octets, after) =>
        (UInt8.ofNat octet :: octets, after)

def escapedCharacter (during : Activity) (start : Mark) (here : Cursor) : Taken Tag :=
  match escapedOctet? here.rest with
  | none => here.fault .uriOctet during start
  | some lead =>
    match octetCount? lead with
    | none => here.fault .uriLead during start
    | some count =>
      (escapedTail during start (count - 1) (here.pass 3)).map fun (octets, after) =>
        (UInt8.ofNat lead :: octets, after)

def addressFrom (allowed : Char → Bool) (during : Activity) (start : Mark) :
    Nat → Tag → Cursor → Taken Tag
  | 0, taken, here => .ok (taken.reverse, here)
  | fuel + 1, taken, here =>
    match here.rest with
    | [] => .ok (taken.reverse, here)
    | c :: _ =>
      if c = '%' then
        match escapedCharacter during start here with
        | .error fault => .error fault
        | .ok (octets, after) =>
          addressFrom allowed during start fuel (octets.reverseAux taken) after
      else if allowed c then
        addressFrom allowed during start fuel (UInt8.ofNat c.toNat :: taken) (here.pass 1)
      else .ok (taken.reverse, here)

def address (allowed : Char → Bool) (during : Activity) (start : Mark) (here : Cursor) : Taken Tag :=
  addressFrom allowed during start here.rest.length [] here

def someAddress (allowed : Char → Bool) (during : Activity) (start : Mark) (here : Cursor) :
    Taken Tag :=
  match address allowed during start here with
  | .error fault => .error fault
  | .ok (octets, after) =>
    if octets = [] then after.fault .tagUri during start else .ok (octets, after)

def readHandle (here : Cursor) : List Char × Cursor :=
  let (name, after) := (here.pass 1).takeRun isWord
  if after.startsWith '!' then ('!' :: name ++ ['!'], after.pass 1) else ('!' :: name, after)

def octetsOf (letters : List Char) : Tag := letters.map fun c => UInt8.ofNat c.toNat

def tagParts (here : Cursor) : Taken (List Char × Tag) :=
  let start := here.mark
  if (here.pass 1).startsWith '<' then
    match someAddress isVerbatim .tagText start (here.pass 2) with
    | .error fault => .error fault
    | .ok (rest, after) =>
      if after.startsWith '>' then .ok (([], rest), after.pass 1)
      else after.fault .tagClosing .tag start
  else
    match readHandle here with
    | ('!' :: name, after) =>
      if name.getLast? = some '!' then
        (someAddress isAddress .tagText start after).map fun (rest, after) =>
          (('!' :: name, rest), after)
      else
        (address isAddress .tagText start after).map fun (rest, after) =>
          if name = [] ∧ rest = [] then (([], [33]), after)
          else ((['!'], octetsOf name ++ rest), after)
    | (_, after) => after.fault .tagMark .tag start

def readTag (inFlow : Bool) (here : Cursor) : Except GrammarFault (Token × Cursor) :=
  match tagParts here with
  | .error fault => .error fault
  | .ok ((handle, rest), after) =>
    if after.endsWord || (inFlow && after.startsWith ',') then
      .ok (⟨.tag handle rest, here.mark, after.mark⟩, after)
    else after.fault .tagSpaceOrBreak .tag here.mark

end SecretStore.Yaml
