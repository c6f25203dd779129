import SecretStore.Yaml.Token

namespace SecretStore.Yaml

inductive Event where
  | documentStart
  | documentEnd
  | alias (name : String)
  | scalar (anchor : Option String) (tag : Option Tag) (text : String) (style : Style)
  | listStart (anchor : Option String) (tag : Option Tag)
  | listEnd
  | mapStart (anchor : Option String) (tag : Option Tag)
  | mapEnd
  deriving DecidableEq, Repr

structure EventStream where
  events : List (Event × Mark)
  stop : Mark := {}
  fault : Option GrammarFault := none

end SecretStore.Yaml
