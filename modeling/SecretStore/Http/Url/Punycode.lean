namespace SecretStore.Http.Url.Punycode

def base : Nat := 36

def digit (value : Nat) : Char :=
  if value < 26 then Char.ofNat ('a'.toNat + value) else Char.ofNat ('0'.toNat + (value - 26))

def threshold (place bias : Nat) : Nat :=
  if place ≤ bias then 1 else if bias + 26 ≤ place then 26 else place - bias

theorem threshold_pos (place bias : Nat) : 1 ≤ threshold place bias := by
  unfold threshold
  split
  · omega
  · split <;> omega

def digitsFrom (bias place value : Nat) : List Char :=
  let least := threshold place bias
  if value < least then [digit value]
  else
    digit (least + (value - least) % (base - least)) ::
      digitsFrom bias (place + base) ((value - least) / (base - least))
termination_by value
decreasing_by
  have positive := threshold_pos place bias
  have := Nat.div_le_self (value - threshold place bias) (base - threshold place bias)
  omega

def shrink (step delta : Nat) : Nat × Nat :=
  if 455 < delta then shrink (step + base) (delta / 35) else (step, delta)
termination_by delta
decreasing_by exact Nat.div_lt_self (by omega) (by omega)

def adapt (delta count : Nat) (isFirst : Bool) : Nat :=
  let delta := if isFirst then delta / 700 else delta / 2
  let (step, delta) := shrink 0 (delta + delta / count)
  step + base * delta / (delta + 38)

structure Draft where
  text : List Char
  delta : Nat := 0
  bias : Nat := 72
  count : Nat
  next : Nat := 128

def pass (isFirst : Bool) (draft : Draft) (c : Char) : Draft :=
  if c.toNat < draft.next then { draft with delta := draft.delta + 1 }
  else if c.toNat = draft.next then
    { draft with
      text := draft.text ++ digitsFrom draft.bias base draft.delta
      bias := adapt draft.delta (draft.count + 1) isFirst
      delta := 0
      count := draft.count + 1 }
  else draft

def write (name : List Char) (basic : Nat) (draft : Draft) (code : Nat) : Draft :=
  let start :=
    { draft with delta := draft.delta + (code - draft.next) * (draft.count + 1), next := code }
  let done := name.foldl (fun draft c => pass (draft.count = basic) draft c) start
  { done with delta := done.delta + 1, next := code + 1 }

def isBasic (c : Char) : Bool := c.toNat < 128

def encode (name : List Char) : List Char :=
  let basic := name.filter isBasic
  let codes := ((name.filter (!isBasic ·)).map Char.toNat).eraseDups.mergeSort
  let start : Draft :=
    { text := if basic = [] then [] else basic ++ ['-'], count := basic.length }
  (codes.foldl (write name basic.length) start).text

def isCapital (n : Nat) : Bool :=
  (0xC0 ≤ n && n ≤ 0xDE && n ≠ 0xD7) || (0x391 ≤ n && n ≤ 0x3A9) || (0x410 ≤ n && n ≤ 0x42F)

/-- Maps a character of a name to lower case and to normal width. Only the letters of four alphabets have lower case
here. -/
def folded (c : Char) : List Char :=
  let n := c.toNat
  if n < 0x80 then [c.toLower]
  else if n = 0xAD ∨ n = 0x200B ∨ n = 0x2060 ∨ n = 0xFEFF ∨ (0xFE00 ≤ n ∧ n ≤ 0xFE0F) then []
  else if n = 0x3002 ∨ n = 0xFF61 then ['.']
  else if 0xFF01 ≤ n ∧ n ≤ 0xFF5E then [(Char.ofNat (n - 0xFEE0)).toLower]
  else if isCapital n then [Char.ofNat (n + 32)]
  else if 0x400 ≤ n ∧ n ≤ 0x40F then [Char.ofNat (n + 80)]
  else [c]

def isBarred (c : Char) : Bool :=
  let n := c.toNat
  (0x80 ≤ n && n ≤ 0xA0) || (0x2000 ≤ n && n ≤ 0x200F) || (0x2028 ≤ n && n ≤ 0x202F) ||
    n = 0x205F || n = 0x3000 || (0xE000 ≤ n && n ≤ 0xF8FF) || (0xFFF0 ≤ n && n ≤ 0xFFFF) ||
    0xFFFE ≤ n % 0x10000

def labelText (label : List Char) : List Char :=
  if label.all isBasic then label else "xn--".toList ++ encode label

end SecretStore.Http.Url.Punycode
