import SecretStore.Yaml.Scalar

namespace SecretStore.Yaml

inductive Writable where
  | flag (value : Bool)
  | text (value : String)
  | map (members : List (String × Writable))

def isPrintable (c : Char) : Bool :=
  c = '\n' || (' ' ≤ c && c ≤ '~') || ('\xa0' ≤ c && c ≤ '\ud7ff') ||
    ('\ue000' ≤ c && c ≤ '\ufffd' && c ≠ '\ufeff') || 0x10000 ≤ c.toNat

def hasPair (first second : Char → Bool) : List Char → Bool
  | a :: b :: rest => (first a && second b) || hasPair first second (b :: rest)
  | _ => false

def isSpace (c : Char) : Bool := c = ' '

def hasInnerSign : List Char → Bool
  | a :: b :: rest => (b = ':' && endsWord rest) || (b = '#' && isGap a) || hasInnerSign (b :: rest)
  | _ => false

def startsWithSign : List Char → Bool
  | '-' :: '-' :: '-' :: _ | '.' :: '.' :: '.' :: _ => true
  | c :: rest => isIndicator c || ((c = '?' || c = ':' || c = '-') && endsWord rest)
  | [] => false

def allowsPlain (text : List Char) : Bool :=
  text.all (fun c => isPrintable c && !isBreak c) && text.head?.all (!isSpace ·) &&
    text.getLast?.all (!isSpace ·) && !startsWithSign text && !hasInnerSign text

def allowsSingle (text : List Char) : Bool :=
  text.all isPrintable && !hasPair isBreak isSpace text && !hasPair isSpace isBreak text

def allowsLiteral (text : List Char) : Bool :=
  text ≠ [] && text.all isPrintable && text.getLast?.all (!isSpace ·) && !hasPair isSpace isBreak text

def looksOtherwise (text : String) : Bool :=
  match Found.ofPlain text with
  | .text _ => isPadded text.toList
  | _ => true

def styleOf (text : String) : Style :=
  let chars := text.toList
  if chars.contains '\n' then
    if allowsLiteral chars then .literal else .double
  else if !looksOtherwise text && allowsPlain chars then .plain
  else if allowsSingle chars then .single
  else .double

def spaces (count : Nat) : List Char := List.replicate count ' '

def singleBody (indent : Nat) (afterBreak : Bool) : List Char → List Char
  | [] => if afterBreak then spaces indent else []
  | c :: rest =>
    if isBreak c then c :: singleBody indent true rest
    else
      (if afterBreak then spaces indent else []) ++ (if c = '\'' then ['\'', '\''] else [c]) ++
        singleBody indent false rest

def upperHex (width value : Nat) : List Char :=
  let digits := (Nat.toDigits 16 value).map Char.toUpper
  List.replicate (width - digits.length) '0' ++ digits

def escapeLetter? : Char → Option Char
  | '\x00' => some '0'
  | '\x07' => some 'a'
  | '\x08' => some 'b'
  | '\t' => some 't'
  | '\n' => some 'n'
  | '\x0b' => some 'v'
  | '\x0c' => some 'f'
  | '\r' => some 'r'
  | '\x1b' => some 'e'
  | '"' => some '"'
  | '\\' => some '\\'
  | '\x85' => some 'N'
  | '\u2028' => some 'L'
  | '\u2029' => some 'P'
  | _ => none

def doubleCharacter (c : Char) : List Char :=
  match escapeLetter? c with
  | some letter => ['\\', letter]
  | none =>
    if isPrintable c then [c]
    else if c.toNat ≤ 0xFF then '\\' :: 'x' :: upperHex 2 c.toNat
    else if c.toNat ≤ 0xFFFF then '\\' :: 'u' :: upperHex 4 c.toNat
    else '\\' :: 'U' :: upperHex 8 c.toNat

def literalBody (indent : Nat) (afterBreak : Bool) : List Char → List Char
  | [] => []
  | c :: rest =>
    if isBreak c then c :: literalBody indent true rest
    else (if afterBreak then spaces indent else []) ++ c :: literalBody indent false rest

def indentStep : Nat := 2

def literalHeader (text : List Char) : List Char :=
  let indent := if text.head?.any fun c => isSpace c || isBreak c then ['2'] else []
  let chomp := match text.reverse with
    | [] => ['-']
    | last :: before =>
      if !isBreak last then ['-'] else if before.head?.all isBreak then ['+'] else []
  '|' :: indent ++ chomp

def scalar (indent : Nat) (text : String) : List Char :=
  let chars := text.toList
  match styleOf text with
  | .single => '\'' :: singleBody indent false chars ++ ['\'']
  | .double => '"' :: chars.flatMap doubleCharacter ++ ['"']
  | .literal => literalHeader chars ++ '\n' :: literalBody indent true chars
  | _ => chars

def endLine (line : List Char) : List Char :=
  if line.getLast?.any isBreak then line else line ++ ['\n']

def isSimpleKey (key : String) : Bool := !key.toList.any isBreak && key.utf8ByteSize ≤ 128

def keyText (indent : Nat) (key : String) : List Char :=
  if isSimpleKey key then spaces indent ++ scalar (indent + indentStep) key ++ [':']
  else
    endLine (spaces indent ++ '?' :: ' ' :: scalar (indent + indentStep) key) ++
      spaces indent ++ [':']

mutual

def valueText (indent : Nat) : Writable → List Char
  | .flag value => endLine (if value then " true".toList else " false".toList)
  | .text value => endLine (' ' :: scalar (indent + indentStep) value)
  | .map [] => " \x7b\x7d\n".toList
  | .map members => '\n' :: membersText (indent + indentStep) members

def membersText (indent : Nat) : List (String × Writable) → List Char
  | [] => []
  | (key, value) :: rest =>
    keyText indent key ++ valueText indent value ++ membersText indent rest

end

def writeMap (members : List (String × Writable)) : String :=
  String.ofList (membersText 0 members)

end SecretStore.Yaml
