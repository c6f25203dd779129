import SecretStore.Yaml.Token.Tag

namespace SecretStore.Yaml

def versionNumber (start : Mark) (here : Cursor) : Taken Nat :=
  let (digits, after) := here.takeRun Char.isDigit
  if 9 < digits.length then (here.pass 9).fault .versionLong .versionDirective start
  else if digits = [] then here.fault .versionNumber .versionDirective start
  else .ok (digits.foldl (fun value c => value * 10 + (c.toNat - '0'.toNat)) 0, after)

def versionValue (start : Mark) (here : Cursor) : Taken TokenKind :=
  match versionNumber start (here.passRun isBlank) with
  | .error fault => .error fault
  | .ok (major, after) =>
    if after.startsWith '.' then
      (versionNumber start (after.pass 1)).map fun (minor, after) => (.version major minor, after)
    else after.fault .versionSeparator .versionDirective start

def directiveHandle (start : Mark) (here : Cursor) : Taken (List Char) :=
  if here.startsWith '!' then
    let (handle, after) := readHandle here
    if handle = ['!'] ∨ (handle.length ≠ 1 ∧ handle.getLast? = some '!') then .ok (handle, after)
    else after.fault .tagMark .tagDirectiveText start
  else here.fault .tagMark .tagHandleDirective start

def tagHandleValue (start : Mark) (here : Cursor) : Taken TokenKind :=
  match directiveHandle start (here.passRun isBlank) with
  | .error fault => .error fault
  | .ok (handle, after) =>
    if after.rest.head?.any isBlank then
      match someAddress isVerbatim .tagDirectiveText start (after.passRun isBlank) with
      | .error fault => .error fault
      | .ok (meaning, after) =>
        if after.endsWord then .ok (.tagHandle handle meaning, after)
        else after.fault .tagSpaceOrBreak .tagDirective start
    else after.fault .tagSpace .tagDirective start

def directiveValue (start : Mark) (here : Cursor) : Taken TokenKind :=
  let (name, after) := here.takeRun isWord
  if name = [] then here.fault .directiveName .directive start
  else if !after.endsWord then after.fault .directiveLetter .directive start
  else if name = "YAML".toList then versionValue start after
  else if name = "TAG".toList then tagHandleValue start after
  else after.fault .directiveUnknown .directive start

def readDirective (here : Cursor) : Except GrammarFault (Token × Cursor) := do
  let start := here.mark
  match directiveValue start (here.pass 1) with
  | .error fault => .error fault
  | .ok (kind, after) =>
    (after.finishLine .directiveEnd .directive start).map fun next => (⟨kind, start, after.mark⟩, next)

end SecretStore.Yaml
