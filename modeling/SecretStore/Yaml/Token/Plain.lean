import SecretStore.Yaml.Token
import SecretStore.Yaml.Token.Gap

namespace SecretStore.Yaml

structure Surroundings where
  inFlow : Bool
  column : Nat

def isTornColon (inFlow : Bool) : List Char → Bool
  | ':' :: c :: _ => inFlow && (isFlowMark c || c = '?')
  | _ => false

def stopsPlain (inFlow : Bool) : List Char → Bool
  | [] => true
  | c :: rest => (c = ':' && endsWord rest) || (inFlow && isFlowMark c)

def stopsWord (place : Surroundings) (here : Cursor) : Bool :=
  (!place.inFlow && here.mark.column < place.column) ||
    (here.mark.column = 0 && isAnyDocumentMark here.rest) || here.startsWith '#'

def plainFrom (place : Surroundings) (start : Mark) (text : List Char) (gap : Gap) (here : Cursor) :
    Taken (List Char × Gap) :=
  match _h : here.rest with
  | [] => .ok ((text, gap), here)
  | c :: _ =>
    if isBlank c then
      if gap.isBroken ∧ here.mark.column < place.column ∧ c = '\t' then
        here.fault .plainTab .plainScalar start
      else plainFrom place start text (gap.addBlank c) (here.pass 1)
    else match _hb : break? here.rest with
    | some (b, rest, count) =>
      plainFrom place start text (gap.addBreak b) ⟨rest, here.mark.nextLine count⟩
    | none =>
      if gap ≠ .empty ∧ stopsWord place here then .ok ((text, gap), here)
      else if isTornColon place.inFlow here.rest then here.fault .colon .plainScalar start
      else if stopsPlain place.inFlow here.rest then .ok ((text, gap), here)
      else plainFrom place start (c :: gap.close text) .empty (here.pass 1)
termination_by here.rest.length
decreasing_by
  all_goals first
    | exact Cursor.pass_length_lt (by assumption) _
    | exact break?_length _hb

def readPlain (place : Surroundings) (here : Cursor) :
    Except GrammarFault (Token × Bool × Cursor) := do
  let ((text, gap), after) ← plainFrom place here.mark [] .empty here
  return (⟨.scalar (String.ofList text.reverse) .plain, here.mark, after.mark⟩, gap.isBroken, after)

end SecretStore.Yaml
