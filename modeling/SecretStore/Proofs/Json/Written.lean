import SecretStore.Json.Value
import SecretStore.Proofs.Json.Spelling

namespace SecretStore.Json

open Utf8

def quoted (spelling : Bytes) : Bytes := quote :: (spelling ++ [quote])

def separated : List Bytes → Bytes
  | [] => []
  | first :: rest => first ++ rest.flatMap (comma :: ·)

def bracketed (items : List Bytes) : Bytes := octet '[' :: (separated items ++ [octet ']'])

def membered (name value : Bytes) : Bytes := quoted name ++ colon :: value

def braced (members : List Bytes) : Bytes := octet '\x7b' :: (separated members ++ [octet '\x7d'])

/-- The reader takes exactly these octets, which begin with neither a blank nor a closing bracket. -/
structure Reads {α : Type} (reader : Reader α) (s : Bytes) (a : α) : Prop where
  starts : ∃ first rest, s = first :: rest ∧ isBlank first = false ∧ first ≠ octet ']'
  reads : ∀ rest, reader.read (s ++ rest) = .ok (a, rest)

variable {α : Type}

theorem skipBlank_solid {a : UInt8} (solid : isBlank a = false) (rest : Bytes) :
    skipBlank (a :: rest) = a :: rest := by
  simp [skipBlank, solid]

theorem Reads.whole {reader : Reader α} {s : Bytes} {a : α} (written : Reads reader s a) :
    reader.whole s = .ok a := by
  have read := written.reads []
  rw [List.append_nil] at read
  rw [Reader.whole, read]
  rfl

theorem starts_quoted (spelling : Bytes) :
    ∃ first rest, quoted spelling = first :: rest ∧ isBlank first = false ∧ first ≠ octet ']' :=
  ⟨quote, _, rfl, by decide, by decide⟩

theorem readText_quoted {chars : List Char} {s : Bytes} (spelled : Spells chars s) (rest : Bytes) :
    readText (s ++ [quote] ++ rest) = .ok (String.ofList chars, rest) := by
  rw [List.append_assoc]
  exact readText_spells spelled rest

theorem reads_text {chars : List Char} {s : Bytes} (spelled : Spells chars s) :
    Reads .text (quoted s) (String.ofList chars) := by
  refine ⟨starts_quoted s, fun rest => ?_⟩
  change readString (quote :: (s ++ [quote] ++ rest)) = _
  rw [readString, skipBlank_solid (by decide)]
  exact readText_quoted spelled rest

theorem moreItems_close (item : Reader α) (rest : Bytes) :
    moreItems item (octet ']' :: rest) = .ok ([], rest) := by
  have blank := skipBlank_solid (a := octet ']') (by decide) rest
  rw [moreItems.eq_def]
  split
  · rename_i empty
    rw [blank] at empty
    cases empty
  · rename_i found
    rw [blank] at found
    cases found
    rfl

theorem moreItems_comma {item : Reader α} {s more rest : Bytes} {a : α} {values : List α}
    (written : Reads item s a) (others : moreItems item more = .ok (values, rest)) :
    moreItems item (comma :: (s ++ more)) = .ok (a :: values, rest) := by
  obtain ⟨first, tail, rfl, solid, opens⟩ := written.starts
  have read := written.reads more
  have outer := skipBlank_solid (a := comma) (by decide) (first :: tail ++ more)
  have inner : skipBlank (first :: tail ++ more) = first :: (tail ++ more) := skipBlank_solid solid _
  rw [moreItems.eq_def]
  split
  · rename_i empty
    rw [outer] at empty
    cases empty
  · rename_i found
    rw [outer] at found
    cases found
    rw [if_neg (by decide), if_pos rfl]
    split
    · rename_i empty
      rw [inner] at empty
      cases empty
    · rename_i found
      rw [inner] at found
      cases found
      rw [if_neg opens]
      split
      · rename_i failed
        rw [List.cons_append] at read
        rw [read] at failed
        cases failed
      · rename_i taken
        rw [List.cons_append] at read
        rw [read] at taken
        cases taken
        rw [others]

theorem moreItems_separated {item : Reader α} {parts : List Bytes} {values : List α}
    (written : List.Forall₂ (Reads item) parts values) (rest : Bytes) :
    moreItems item (parts.flatMap (comma :: ·) ++ octet ']' :: rest) = .ok (values, rest) := by
  induction written with
  | nil => exact moreItems_close item rest
  | cons first others ih =>
      rw [List.flatMap_cons, List.cons_append, List.cons_append, List.append_assoc]
      exact moreItems_comma first ih

theorem items_separated {item : Reader α} {parts : List Bytes} {values : List α}
    (written : List.Forall₂ (Reads item) parts values) (rest : Bytes) :
    items item (separated parts ++ octet ']' :: rest) = .ok (values, rest) := by
  cases written with
  | nil =>
      rw [separated, List.nil_append, items, skipBlank_solid (by decide)]
      rfl
  | cons first others =>
      obtain ⟨a, tail, rfl, solid, opens⟩ := first.starts
      have read := first.reads
      rw [separated, List.append_assoc, items, List.cons_append, skipBlank_solid solid]
      simp only [opens, ↓reduceIte]
      rw [← List.cons_append, read]
      simp only [moreItems_separated others]

theorem reads_list {item : Reader α} {parts : List Bytes} {values : List α}
    (written : List.Forall₂ (Reads item) parts values) : Reads (.list item) (bracketed parts) values := by
  refine ⟨⟨octet '[', _, rfl, by decide, by decide⟩, fun rest => ?_⟩
  change readList item (octet '[' :: (separated parts ++ [octet ']'] ++ rest)) = _
  rw [readList, skipBlank_solid (by decide), List.append_assoc]
  exact items_separated written rest

variable {σ : Type}

inductive Takes (member : Member σ) (seen : σ) : Bytes → σ → Prop where
  | named {chars : List Char} {name value : Bytes} {next : σ} :
      Spells chars name →
      (∀ rest, member.read seen (String.ofList chars) (colon :: (value ++ rest)) = .ok (next, rest)) →
      Takes member seen (membered name value) next

inductive TakesAll (member : Member σ) : σ → List Bytes → σ → Prop where
  | nil (seen : σ) : TakesAll member seen [] seen
  | cons {seen next last : σ} {part : Bytes} {parts : List Bytes} :
      Takes member seen part next → TakesAll member next parts last →
      TakesAll member seen (part :: parts) last

theorem Takes.reads {member : Member σ} {seen next : σ} {part : Bytes}
    (taken : Takes member seen part next) :
    ∃ tail, part = quote :: tail ∧ ∀ rest, readMember member seen (tail ++ rest) = .ok (next, rest) := by
  cases taken with
  | @named chars name value next spelled read =>
      refine ⟨name ++ [quote] ++ colon :: value, rfl, fun rest => ?_⟩
      rw [readMember, List.append_assoc, readText_quoted spelled]
      exact read rest

theorem moreMembers_close (member : Member σ) (seen : σ) (rest : Bytes) :
    moreMembers member seen (octet '\x7d' :: rest) = .ok (seen, rest) := by
  have blank := skipBlank_solid (a := octet '\x7d') (by decide) rest
  rw [moreMembers.eq_def]
  split
  · rename_i empty
    rw [blank] at empty
    cases empty
  · rename_i found
    rw [blank] at found
    cases found
    rfl

theorem moreMembers_comma {member : Member σ} {seen next : σ} {part : Bytes}
    (taken : Takes member seen part next) (more : Bytes) :
    moreMembers member seen (comma :: (part ++ more)) = moreMembers member next more := by
  obtain ⟨tail, rfl, read⟩ := taken.reads
  have outer := skipBlank_solid (a := comma) (by decide) (quote :: tail ++ more)
  have inner : skipBlank (quote :: tail ++ more) = quote :: (tail ++ more) :=
    skipBlank_solid (by decide) _
  rw [moreMembers.eq_def]
  split
  · rename_i empty
    rw [outer] at empty
    cases empty
  · rename_i found
    rw [outer] at found
    cases found
    rw [if_neg (by decide), if_pos rfl]
    split
    · rename_i empty
      rw [inner] at empty
      cases empty
    · rename_i found
      rw [inner] at found
      cases found
      rw [if_pos rfl]
      split
      · rename_i failed
        rw [read] at failed
        cases failed
      · rename_i taken
        rw [read] at taken
        cases taken
        rfl

theorem moreMembers_separated {member : Member σ} {seen last : σ} {parts : List Bytes}
    (taken : TakesAll member seen parts last) (rest : Bytes) :
    moreMembers member seen (parts.flatMap (comma :: ·) ++ octet '\x7d' :: rest) = .ok (last, rest) := by
  induction taken with
  | nil seen => exact moreMembers_close member seen rest
  | cons first others ih =>
      rw [List.flatMap_cons, List.cons_append, List.cons_append, List.append_assoc,
        moreMembers_comma first]
      exact ih

theorem members_separated {member : Member σ} {seen last : σ} {parts : List Bytes}
    (taken : TakesAll member seen parts last) (rest : Bytes) :
    members member seen (separated parts ++ octet '\x7d' :: rest) = .ok (last, rest) := by
  cases taken with
  | nil seen =>
      rw [separated, List.nil_append, members, skipBlank_solid (by decide)]
      rfl
  | cons first others =>
      obtain ⟨tail, rfl, read⟩ := first.reads
      rw [separated, List.append_assoc, List.cons_append, members, skipBlank_solid (by decide)]
      simp only [show quote ≠ octet '\x7d' by decide, ↓reduceIte, read]
      exact moreMembers_separated others rest

theorem readValueAfterColon_written {value : Reader α} {s : Bytes} {a : α}
    (written : Reads value s a) (rest : Bytes) :
    readValueAfterColon value (colon :: (s ++ rest)) = .ok (a, rest) := by
  rw [readValueAfterColon, skipColon, skipBlank_solid (by decide)]
  exact written.reads rest

theorem reads_record {field : Field α} {value : Reader α} {name s : Bytes} {a : α}
    (named : Spells field.name.toList name) (written : Reads value s a) :
    Reads (.record field value) (braced [membered name s]) a := by
  refine ⟨⟨octet '\x7b', _, rfl, by decide, by decide⟩, fun rest => ?_⟩
  have taken : Takes ⟨pick field.name value, pick_length⟩ none (membered name s) (some a) := by
    refine .named named fun rest => ?_
    simp only [pick, String.ofList_toList, ↓reduceIte, Option.isSome_none, Bool.false_eq_true,
      readValueAfterColon_written written]
  have found := members_separated (.cons taken (.nil (some a))) rest
  change readRecord field value (octet '\x7b' :: (separated _ ++ [octet '\x7d'] ++ rest)) = _
  rw [readRecord, skipBlank_solid (by decide), List.append_assoc]
  simp only [↓reduceIte, Field.read, List.singleton_append, found]

theorem reads_textValue {chars : List Char} {s : Bytes} (spelled : Spells chars s) (depth : Nat) :
    Reads (Value.reader depth) (quoted s) (.text (String.ofList chars)) := by
  refine ⟨starts_quoted s, fun rest => ?_⟩
  have text := readText_quoted spelled rest
  have scalar (inner : Option (Reader Value)) :
      Value.read inner (quote :: (s ++ [quote] ++ rest)) = .ok (.text (String.ofList chars), rest) := by
    rw [Value.read, skipBlank_solid (by decide)]
    simp only [show opening? quote = some .text by decide, Value.readScalar, text]
    rfl
  cases depth with
  | zero => exact scalar none
  | succ depth => exact scalar (some (Value.reader depth))

def textMember (entry : String × String) : Bytes :=
  membered (encode (entry.1.toList.flatMap writeChar)) (quoted (encode (entry.2.toList.flatMap writeChar)))

def textMembers (seen : List (String × Value)) (entries : List (String × String)) :
    List (String × Value) :=
  entries.foldl (fun seen entry => put entry.1 (.text entry.2) seen) seen

theorem takesAll_textMembers (depth : Nat) (seen : List (String × Value))
    (entries : List (String × String)) :
    TakesAll ⟨Value.readMemberValue (Value.reader depth), Value.readMemberValue_length⟩ seen
      (entries.map textMember) (textMembers seen entries) := by
  induction entries generalizing seen with
  | nil => exact .nil seen
  | cons entry entries ih =>
      have value := reads_textValue (spells_write entry.2.toList) depth
      rw [String.ofList_toList] at value
      have first : Takes ⟨Value.readMemberValue (Value.reader depth), Value.readMemberValue_length⟩
          seen (textMember entry) (put entry.1 (.text entry.2) seen) := by
        refine .named (spells_write entry.1.toList) fun rest => ?_
        simp only [Value.readMemberValue, readValueAfterColon_written value, String.ofList_toList]
      exact .cons first (ih _)

theorem bytes_intercalate (first : String) (rest : List String) :
    bytes (",".intercalate (first :: rest)) = separated (bytes first :: rest.map bytes) := by
  induction rest generalizing first with
  | nil => simp [String.intercalate_singleton, separated]
  | cons second rest ih =>
      rw [String.intercalate_cons_cons, bytes_append, bytes_append, ih, List.append_assoc]
      rfl

theorem bytes_writeRecord (entries : List (String × String)) :
    bytes (writeRecord entries) = braced (entries.map textMember) := by
  have written (entry : String × String) :
      bytes (writeText entry.1 ++ ":" ++ writeText entry.2) = textMember entry := by
    rw [bytes_append, bytes_append, bytes_writeText, bytes_writeText, List.append_assoc]
    rfl
  rw [writeRecord, bytes_append, bytes_append]
  cases entries with
  | nil => rfl
  | cons entry entries =>
      rw [List.map_cons, bytes_intercalate, written, List.map_map]
      simp only [Function.comp_def, written]
      rfl

theorem reads_writeRecord (entries : List (String × String)) (depth : Nat) :
    Reads (Value.reader (depth + 1)) (bytes (writeRecord entries)) (.object (textMembers [] entries)) := by
  rw [bytes_writeRecord]
  refine ⟨⟨octet '\x7b', _, rfl, by decide, by decide⟩, fun rest => ?_⟩
  have found := members_separated (takesAll_textMembers depth [] entries) rest
  change Value.read (some (Value.reader depth)) (octet '\x7b' :: (separated _ ++ [octet '\x7d'] ++ rest)) = _
  rw [Value.read, skipBlank_solid (by decide), List.append_assoc]
  simp only [show opening? (octet '\x7b') = some .object by decide, List.singleton_append, found]

end SecretStore.Json
