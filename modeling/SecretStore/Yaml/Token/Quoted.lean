import SecretStore.Yaml.Token
import SecretStore.Yaml.Token.Gap

namespace SecretStore.Yaml

inductive Quote where
  | single
  | double
  deriving DecidableEq, Repr

namespace Quote

def sign : Quote → Char
  | .single => '\''
  | .double => '"'

def style : Quote → Style
  | .single => .single
  | .double => .double

end Quote

def shortEscape? : Char → Option Char
  | '0' => some '\x00'
  | 'a' => some '\x07'
  | 'b' => some '\x08'
  | 't' | '\t' => some '\t'
  | 'n' => some '\n'
  | 'v' => some '\x0b'
  | 'f' => some '\x0c'
  | 'r' => some '\r'
  | 'e' => some '\x1b'
  | ' ' => some ' '
  | '"' => some '"'
  | '/' => some '/'
  | '\\' => some '\\'
  | 'N' => some '\x85'
  | '_' => some '\xa0'
  | 'L' => some '\u2028'
  | 'P' => some '\u2029'
  | _ => none

def escapeWidth? : Char → Option Nat
  | 'x' => some 2
  | 'u' => some 4
  | 'U' => some 8
  | _ => none

def hexNumber? : Nat → Nat → List Char → Option Nat
  | 0, value, _ => some value
  | _ + 1, _, [] => none
  | width + 1, value, c :: rest =>
    match hexDigit? c with
    | some digit => hexNumber? width (value * 16 + digit) rest
    | none => none

def escape (start : Mark) (here : Cursor) : Except GrammarFault (Char × Nat) :=
  let unknown : Except GrammarFault (Char × Nat) := here.fault .escapeUnknown .quotedText start
  match here.rest with
  | [] | [_] => unknown
  | _ :: c :: digits =>
    match shortEscape? c, escapeWidth? c with
    | some meant, _ => .ok (meant, 1)
    | none, none => unknown
    | none, some width =>
      match hexNumber? width 0 digits with
      | none => (here.pass 2).fault .escapeDigits .quotedText start
      | some value =>
        if value.isValidChar then .ok (Char.ofNat value, width + 1)
        else (here.pass 2).fault .escapeCodePoint .quotedText start

def quotedFrom (quote : Quote) (start : Mark) (text : List Char) (gap : Gap) (here : Cursor) :
    Taken (List Char) :=
  match _h : here.rest with
  | [] => here.fault .endOfStream .quotedScalar start
  | c :: rest =>
    if isBlank c then quotedFrom quote start text (gap.addBlank c) (here.pass 1)
    else match _hb : break? here.rest with
    | some (b, after, count) =>
      quotedFrom quote start text (gap.addBreak b) ⟨after, here.mark.nextLine count⟩
    | none =>
      if gap.isBroken ∧ here.mark.column = 0 ∧ isAnyDocumentMark here.rest then
        here.fault .documentIndicator .quotedScalar start
      else
        let text := gap.close text
        match quote with
        | .single =>
          if c = '\'' then
            if rest.head? = some '\'' then
              quotedFrom quote start ('\'' :: text) .empty (here.pass 2)
            else .ok (text, here.pass 1)
          else quotedFrom quote start (c :: text) .empty (here.pass 1)
        | .double =>
          if c = '"' then .ok (text, here.pass 1)
          else if c ≠ '\\' then quotedFrom quote start (c :: text) .empty (here.pass 1)
          else match _he : break? rest with
          | some (_, after, count) =>
            quotedFrom quote start text .hidden ⟨after, (here.mark.along 1).nextLine count⟩
          | none =>
            match escape start here with
            | .error fault => .error fault
            | .ok (meant, more) =>
              quotedFrom quote start (meant :: text) .empty (here.pass (more + 1))
termination_by here.rest.length
decreasing_by
  all_goals first
    | exact Cursor.pass_length_lt (by assumption) _
    | exact break?_length _hb
    | exact Nat.lt_trans (break?_length _he) (by simp_all)

def readQuoted (quote : Quote) (here : Cursor) : Except GrammarFault (Token × Cursor) := do
  let (text, after) ← quotedFrom quote here.mark [] .empty (here.pass 1)
  return (⟨.scalar (String.ofList text.reverse) quote.style, here.mark, after.mark⟩, after)

end SecretStore.Yaml
