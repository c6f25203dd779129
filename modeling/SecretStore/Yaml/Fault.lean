import SecretStore.Decimal.Shortest
import SecretStore.Text.Quoted

namespace SecretStore.Yaml

structure Mark where
  index : Nat := 0
  line : Nat := 0
  column : Nat := 0
  deriving DecidableEq, Repr, Inhabited

def Mark.isStart (mark : Mark) : Bool := mark.line = 0 && mark.column = 0

def Mark.samePlace (a b : Mark) : Bool := a.line = b.line && a.column = b.column

def Mark.shown (mark : Mark) : String := s!"line {mark.line + 1} column {mark.column + 1}"

inductive Problem where
  | controlCharacter
  | badTokenStart
  | simpleKeyColon
  | blockEntryContext
  | keyContext
  | valueContext
  | directiveUnknown
  | directiveEnd
  | directiveName
  | directiveLetter
  | versionSeparator
  | versionLong
  | versionNumber
  | tagSpace
  | tagSpaceOrBreak
  | anchorCharacter
  | tagClosing
  | tagMark
  | tagUri
  | uriOctet
  | uriLead
  | uriTrail
  | indentZero
  | scalarHeaderEnd
  | indentTab
  | documentIndicator
  | endOfStream
  | escapeUnknown
  | escapeDigits
  | escapeCodePoint
  | plainTab
  | colon
  | documentStart
  | versionRepeated
  | versionUnsupported
  | tagRepeated
  | tagUndefined
  | nodeContent
  | dashExpected
  | keyExpected
  | listEndExpected
  | objectEndExpected
  deriving DecidableEq, Repr

def Problem.message : Problem → String
  | .controlCharacter => "control characters are not allowed"
  | .badTokenStart => "found character that cannot start any token"
  | .simpleKeyColon => "could not find expected ':'"
  | .blockEntryContext => "block sequence entries are not allowed in this context"
  | .keyContext => "mapping keys are not allowed in this context"
  | .valueContext => "mapping values are not allowed in this context"
  | .directiveUnknown => "found unknown directive name"
  | .directiveEnd => "did not find expected comment or line break"
  | .directiveName => "could not find expected directive name"
  | .directiveLetter => "found unexpected non-alphabetical character"
  | .versionSeparator => "did not find expected digit or '.' character"
  | .versionLong => "found extremely long version number"
  | .versionNumber => "did not find expected version number"
  | .tagSpace => "did not find expected whitespace"
  | .tagSpaceOrBreak => "did not find expected whitespace or line break"
  | .anchorCharacter => "did not find expected alphabetic or numeric character"
  | .tagClosing => "did not find the expected '>'"
  | .tagMark => "did not find expected '!'"
  | .tagUri => "did not find expected tag URI"
  | .uriOctet => "did not find URI escaped octet"
  | .uriLead => "found an incorrect leading UTF-8 octet"
  | .uriTrail => "found an incorrect trailing UTF-8 octet"
  | .indentZero => "found an indentation indicator equal to 0"
  | .scalarHeaderEnd => "did not find expected comment or line break"
  | .indentTab => "found a tab character where an indentation space is expected"
  | .documentIndicator => "found unexpected document indicator"
  | .endOfStream => "found unexpected end of stream"
  | .escapeUnknown => "found unknown escape character"
  | .escapeDigits => "did not find expected hexdecimal number"
  | .escapeCodePoint => "found invalid Unicode character escape code"
  | .plainTab => "found a tab character that violates indentation"
  | .colon => "found unexpected ':'"
  | .documentStart => "did not find expected <document start>"
  | .versionRepeated => "found duplicate %YAML directive"
  | .versionUnsupported => "found incompatible YAML document"
  | .tagRepeated => "found duplicate %TAG directive"
  | .tagUndefined => "found undefined tag handle"
  | .nodeContent => "did not find expected node content"
  | .dashExpected => "did not find expected '-' indicator"
  | .keyExpected => "did not find expected key"
  | .listEndExpected => "did not find expected ',' or ']'"
  | .objectEndExpected => "did not find expected ',' or '\x7d'"

inductive Activity where
  | nextToken
  | simpleKey
  | directive
  | versionDirective
  | tagDirective
  | tagHandleDirective
  | anchor
  | alias
  | tag
  | tagText
  | tagDirectiveText
  | blockScalar
  | quotedScalar
  | quotedText
  | plainScalar
  | node
  | blockNode
  | flowNode
  | blockList
  | blockMap
  | flowList
  | flowMap
  deriving DecidableEq, Repr

def Activity.message : Activity → String
  | .nextToken => "while scanning for the next token"
  | .simpleKey => "while scanning a simple key"
  | .directive => "while scanning a directive"
  | .versionDirective => "while scanning a %YAML directive"
  | .tagDirective => "while scanning a %TAG directive"
  | .tagHandleDirective => "while scanning a tag directive"
  | .anchor => "while scanning an anchor"
  | .alias => "while scanning an alias"
  | .tag => "while scanning a tag"
  | .tagText => "while parsing a tag"
  | .tagDirectiveText => "while parsing a %TAG directive"
  | .blockScalar => "while scanning a block scalar"
  | .quotedScalar => "while scanning a quoted scalar"
  | .quotedText => "while parsing a quoted scalar"
  | .plainScalar => "while scanning a plain scalar"
  | .node => "while parsing a node"
  | .blockNode => "while parsing a block node"
  | .flowNode => "while parsing a flow node"
  | .blockList => "while parsing a block collection"
  | .blockMap => "while parsing a block mapping"
  | .flowList => "while parsing a flow sequence"
  | .flowMap => "while parsing a flow mapping"

/-- A break of the grammar, with its place and what had been begun where. Undecodable input has an octet offset
instead. -/
structure GrammarFault where
  problem : Problem
  mark : Mark
  offset : Nat := 0
  during : Option (Activity × Mark) := none
  deriving DecidableEq, Repr

def GrammarFault.message (fault : GrammarFault) : String :=
  let place :=
    if !fault.mark.isStart then " at " ++ fault.mark.shown
    else if fault.offset ≠ 0 then s!" at position {fault.offset}"
    else ""
  let begun := match fault.during with
    | none => ""
    | some (activity, mark) =>
      ", " ++ activity.message ++
        if !mark.isStart && !mark.samePlace fault.mark then " at " ++ mark.shown else ""
  fault.problem.message ++ place ++ begun

inductive Found where
  | unit
  | boolean (value : Bool)
  | integer (value : Int)
  | wide (value : Int)
  | real (value : Float)
  | text (value : String)
  | sequence
  | map
  | tagged
  | unitVariant

def realStyle : Decimal.Style := ⟨none, none⟩

def Found.message : Found → String
  | .unit => "unit value"
  | .boolean value => s!"boolean `{value}`"
  | .integer value => s!"integer `{value}`"
  | .wide value => s!"integer `{value}` as " ++ (if value < 0 then "i128" else "u128")
  | .real value => "floating point `" ++ realStyle.write value ++ "`"
  | .text value => "string " ++ Quoted.quoted value
  | .sequence => "sequence"
  | .map => "map"
  | .tagged => "enum"
  | .unitVariant => "unit variant"

inductive Cause where
  | mismatch (found : Found) (wanted : String)
  | mistagged (text wanted : String)
  | severalKeys
  | unknownVariant (name : String) (known : List String)
  | missing (field : String)
  | duplicate (field : String)
  | unknownAnchor
  | severalDocuments
  | endOfEvents

def Cause.message : Cause → String
  | .mismatch found wanted => s!"invalid type: {found.message}, expected {wanted}"
  | .mistagged text wanted =>
    s!"invalid value: string {Quoted.quoted text}, expected {wanted}"
  | .severalKeys => "invalid value: map, expected map with a single key"
  | .unknownVariant name known =>
    s!"unknown variant `{name}`, expected " ++ " or ".intercalate (known.map fun k => s!"`{k}`")
  | .missing field => s!"missing field `{field}`"
  | .duplicate field => s!"duplicate field `{field}`"
  | .unknownAnchor => "unknown anchor"
  | .severalDocuments =>
    "deserializing from YAML containing more than one document is not supported"
  | .endOfEvents => "EOF while parsing a value"

inductive Fault where
  | grammar (fault : GrammarFault)
  | data (cause : Cause) (path : List String) (mark : Mark)

def Fault.message : Fault → String
  | .grammar fault => fault.message
  | .data cause path mark =>
    (if path = [] then "" else ".".intercalate path ++ ": ") ++ cause.message ++
      if mark.isStart then "" else " at " ++ mark.shown

end SecretStore.Yaml
