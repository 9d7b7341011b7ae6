import UnoBindgen.Calendar
import UnoBindgen.Text.Numeral
import UnoBindgen.Yaml.Node

/-!
# Reading values off YAML nodes

A document is read into records of texts and lists.  A scalar keeps its written content wherever
a text is expected, and the null scalar leaves everything as it is.  A record takes the entries
of a mapping by their keys: a key that is unknown or repeated is refused, and the special key
`<<` brings in the entries of other mappings that the mapping does not have itself.
-/

namespace UnoBindgen.Yaml

/-- The spellings of null. -/
def nullSpellings : List Text := [[]] ++ Text.words ["~", "null", "Null", "NULL"]

/-- The spellings of truth values. -/
def truthSpellings : List Text := Text.words ["true", "True", "TRUE", "false", "False", "FALSE"]

/-- The spellings of infinite numbers and of not-a-number. -/
def specialNumbers : List Text :=
  Text.words [".nan", ".NaN", ".NAN", ".inf", ".Inf", ".INF", "+.inf", "+.Inf", "+.INF", "-.inf",
    "-.Inf", "-.INF"]

/-! ## Dates and times -/

/-- Read one or two digits. -/
def readShortNumber (text : Text) : Option (Nat × Text) :=
  match text with
  | first :: second :: rest =>
    match Text.natural? 10 [first], Text.natural? 10 [second] with
    | some high, some low => some (10 * high + low, rest)
    | some only, none => some (only, second :: rest)
    | none, _ => none
  | [only] => (Text.natural? 10 [only]).map fun value => (value, [])
  | [] => none

/-- Read a number of one or two digits behind a given character, below a bound. -/
def readPart (mark : Char) (bound : Nat) (text : Text) : Option (Nat × Text) :=
  match text with
  | first :: rest =>
    if first == mark then (readShortNumber rest).filter fun part => part.1 < bound else none
  | [] => none

/-- Drop the fraction of a second. -/
def dropFraction (text : Text) : Text :=
  match text with
  | mark :: digit :: rest =>
    if (mark == '.' || mark == ',') && digit.isDigit then rest.dropWhile Char.isDigit else text
  | _ => text

/-- Whether a text is an offset from universal time. -/
def isZone (text : Text) : Bool :=
  match text with
  | ['Z'] => true
  | [sign, a, b, ':', c, d] =>
    (sign == '+' || sign == '-') &&
      match Text.natural? 10 [a, b], Text.natural? 10 [c, d] with
      | some hours, some minutes => hours ≤ 24 && minutes < 60
      | _, _ => false
  | _ => false

/-- Whether a text is a date, or a date with a time of day. -/
def isTimestamp (text : Text) : Bool :=
  let digits := text.takeWhile Char.isDigit
  match digits.length == 4, Text.natural? 10 digits with
  | true, some year =>
    match readPart '-' 13 (text.drop 4) with
    | some (month, rest) =>
      match readPart '-' 32 rest with
      | some (day, rest) =>
        Calendar.hasDay year month day &&
          match rest with
          | [] => true
          | mark :: _ =>
            match readPart mark 24 rest with
            | some (_, rest) =>
              match readPart ':' 60 rest with
              | some (_, rest) =>
                match readPart ':' 60 rest with
                | some (_, rest) =>
                  let zone := dropFraction rest
                  if mark == 'T' || mark == 't' then isZone zone
                  else mark == ' ' && zone.isEmpty
                | none => false
              | none => false
            | none => false
      | none => false
    | none => false
  | _, _ => false

/-! ## Scalars -/

/-- Whether a numeral is a whole number that fits into a word, signed or not. -/
def isWhole (text : Text) : Bool :=
  match Text.wholeNumber? text with
  | some number => Text.fitsWord number || (number < 18446744073709551616 && !text.startsWith ['+'])
  | none => false

/-- Whether a numeral is a decimal fraction that is not too large. -/
def isFraction (text : Text) : Bool :=
  match Text.decimal? text with
  | some decimal => !decimal.overflows
  | none => false

/-- Whether the content of a scalar fits a tag of the standard. -/
def fitsTag (tag content : Text) : Bool :=
  let numeral := content.filter (· != '_')
  let leading := content.head?
  let signedOrDigit :=
    match leading with
    | some first => first == '+' || first == '-' || first.isDigit
    | none => false
  let whole := signedOrDigit && isWhole numeral
  if tag == "!!null".toList then nullSpellings.contains content
  else if tag == "!!bool".toList then truthSpellings.contains content
  else if tag == "!!int".toList then whole
  else if tag == "!!float".toList then
    specialNumbers.contains content || whole || (signedOrDigit && isFraction numeral) ||
      (leading == some '.' && isFraction content)
  else isTimestamp content

/-- The tags of the standard whose scalars have to fit. -/
def checkedTags : List Text :=
  Text.words ["!!null", "!!bool", "!!int", "!!float", "!!timestamp"]

/-- The value of a character in base sixty-four. -/
def base64Value? (character : Char) : Option Nat :=
  if 'A' ≤ character ∧ character ≤ 'Z' then some (character.toNat - 'A'.toNat)
  else if 'a' ≤ character ∧ character ≤ 'z' then some (character.toNat - 'a'.toNat + 26)
  else if '0' ≤ character ∧ character ≤ '9' then some (character.toNat - '0'.toNat + 52)
  else if character == '+' then some 62
  else if character == '/' then some 63
  else none

/-- Decode groups of four characters into three octets; the last group may be padded. -/
def base64Octets : Text → Option (List Nat)
  | [] => some []
  | [a, b, '=', '='] => do
    let bits := 64 * (← base64Value? a) + (← base64Value? b)
    return [bits / 16]
  | [a, b, c, '='] => do
    let bits := 4096 * (← base64Value? a) + 64 * (← base64Value? b) + (← base64Value? c)
    return [bits / 1024, bits / 4 % 256]
  | a :: b :: c :: d :: rest => do
    let bits :=
      262144 * (← base64Value? a) + 4096 * (← base64Value? b) + 64 * (← base64Value? c) +
        (← base64Value? d)
    let octets ← base64Octets rest
    return bits / 65536 :: bits / 256 % 256 :: bits % 256 :: octets
  | _ => none

/-- The text that octets encode; octets that encode nothing become replacement characters. -/
def textOfOctets (octets : List Nat) : Text :=
  match String.fromUTF8? ⟨(octets.map UInt8.ofNat).toArray⟩ with
  | some text => text.toList
  | none => octets.map fun octet => if octet < 128 then Char.ofNat octet else Char.ofNat 0xfffd

/-- The text of a scalar, or nothing for null. -/
def scalarText (tag content : Text) (plain : Bool) : Except Problem (Option Text) :=
  if tag == "!!binary".toList then
    match base64Octets (content.filter fun character => character != '\n' && character != '\r') with
    | some octets => .ok (some (textOfOctets octets))
    | none => .error .mismatchedTag
  else if checkedTags.contains tag then
    if !fitsTag tag content then .error .mismatchedTag
    else if tag == "!!null".toList then .ok none
    else .ok (some content)
  else if tag.isEmpty && plain && nullSpellings.contains content then
    .ok none
  else
    .ok (some content)

/-! ## Records -/

/-- The text that a node stands for, or nothing for null. -/
def Node.text? : Node → Except Problem (Option Text)
  | .scalar tag content plain => scalarText tag content plain
  | .alias _ target => target.text?
  | .cycle _ => .error .recursiveAnchor
  | .sequence _ => .error .unexpectedShape
  | .mapping _ => .error .unexpectedShape

/-- Whether two keys are written alike. -/
def Node.writtenAlike : Node → Node → Bool
  | .scalar _ left _, .scalar _ right _ => left == right
  | .alias left _, .alias right _ => left == right
  | .alias left _, .cycle right => left == right
  | .cycle left, .alias right _ => left == right
  | .cycle left, .cycle right => left == right
  | .sequence _, .sequence _ => true
  | .mapping _, .mapping _ => true
  | _, _ => false

/-- Whether a key is written twice. -/
def repeatsKey : List (Node × Node) → Bool
  | [] => false
  | (key, _) :: rest => rest.any (fun other => key.writtenAlike other.1) || repeatsKey rest

/-- Whether a key brings in the entries of other mappings. -/
def Node.isMergeKey : Node → Bool
  | .scalar tag content plain =>
    content == ['<', '<'] && (tag == "!!merge".toList || (tag.isEmpty && plain))
  | _ => false

/-- Entries of a record, by their names. -/
abbrev Fields := List (Text × Node)

/-- Take the entries of a mapping whose names are not `taken`, and note their names. -/
def ownFields (taken : List Text) : List (Node × Node) → Except Problem (Fields × List Text)
  | [] => .ok ([], taken)
  | (key, value) :: rest =>
    if key.isMergeKey then
      ownFields taken rest
    else do
      match ← key.text? with
      | none => ownFields taken rest
      | some name =>
        if taken.contains name then
          ownFields taken rest
        else
          let (fields, taken) ← ownFields (name :: taken) rest
          return ((name, value) :: fields, taken)

/-- What a node brings in through a merge key, given the names that are taken. -/
abbrev Merger := List Text → Except Problem (Fields × List Text)

/-- Bring in the entries of one node after the other. -/
def mergeAll : List Merger → Merger
  | [], taken => .ok ([], taken)
  | merger :: rest, taken => do
    let (fields, taken) ← merger taken
    let (others, taken) ← mergeAll rest taken
    return (fields ++ others, taken)

mutual

/-- What a mapping, or a reference to one, brings in. -/
def Node.mappingMerger : Node → Merger
  | .mapping entries => fun taken =>
    if repeatsKey entries then
      .error .repeatedKey
    else do
      let (fields, taken) ← ownFields taken entries
      let (others, taken) ← mergeAll (entryMergers entries) taken
      return (fields ++ others, taken)
  | .alias _ target => target.mappingMerger
  | .cycle _ => fun _ => .error .recursiveAnchor
  | .scalar _ _ _ => fun _ => .error .malformedMerge
  | .sequence _ => fun _ => .error .malformedMerge

/-- What the value of a merge key brings in: a mapping or a sequence of mappings. -/
def Node.merger : Node → Merger
  | .sequence items => mergeAll (itemMergers items)
  | .mapping entries => fun taken =>
    if repeatsKey entries then
      .error .repeatedKey
    else do
      let (fields, taken) ← ownFields taken entries
      let (others, taken) ← mergeAll (entryMergers entries) taken
      return (fields ++ others, taken)
  | .alias _ target => target.mappingMerger
  | .cycle _ => fun _ => .error .recursiveAnchor
  | .scalar _ _ _ => fun _ => .error .malformedMerge

/-- The mergers of the items of a sequence. -/
def itemMergers : List Node → List Merger
  | [] => []
  | item :: rest => item.mappingMerger :: itemMergers rest

/-- The mergers behind the merge keys of a mapping. -/
def entryMergers : List (Node × Node) → List Merger
  | [] => []
  | (key, value) :: rest =>
    if key.isMergeKey then value.merger :: entryMergers rest else entryMergers rest

end

/-- The names that a mapping has itself. -/
def ownNames : List (Node × Node) → Except Problem (List (Text × Node))
  | [] => .ok []
  | (key, value) :: rest =>
    if key.isMergeKey then
      ownNames rest
    else do
      let others ← ownNames rest
      match ← key.text? with
      | none => return others
      | some name => return (name, value) :: others

/-- The entries of a record that a node stands for: its own, and those that merge keys bring in.
Nothing stands for null. -/
def Node.fields? : Node → Except Problem (Option Fields)
  | .mapping entries =>
    if repeatsKey entries then
      .error .repeatedKey
    else do
      let own ← ownNames entries
      if (own.map Prod.fst).eraseDups.length < own.length then
        throw .repeatedKey
      let (others, _) ← mergeAll (entryMergers entries) (own.map Prod.fst)
      return some (own ++ others)
  | .alias _ target => target.fields?
  | .cycle _ => .error .recursiveAnchor
  | .sequence _ => .error .unexpectedShape
  | .scalar tag content plain => do
    match ← scalarText tag content plain with
    | none => return none
    | some _ => throw .unexpectedShape

/-- The items of the list that a node stands for; null is the empty list. -/
def Node.items? : Node → Except Problem (List Node)
  | .sequence items => .ok items
  | .alias _ target => target.items?
  | .cycle _ => .error .recursiveAnchor
  | .mapping _ => .error .unexpectedShape
  | .scalar tag content plain => do
    match ← scalarText tag content plain with
    | none => return []
    | some _ => throw .unexpectedShape

/-- Read each item of a list; items that say nothing are left out. -/
def readItems {α : Type} (read : Node → Except Problem (Option α)) :
    List Node → Except Problem (List α)
  | [] => .ok []
  | item :: rest => do
    let value ← read item
    let values ← readItems read rest
    return value.toList ++ values

/-- Read a record: each field, by its name, changes the record that was read so far, and a name
for which `change` gives nothing is unknown. -/
def readRecord {ρ : Type}
    (change : Text → Option (Node → ρ → Except Problem ρ))
    (initial : ρ)
    (node : Node) :
    Except Problem (Option ρ) := do
  match ← node.fields? with
  | none => return none
  | some fields =>
    let record ← fields.foldlM
      (fun record field =>
        match change field.1 with
        | some change => change field.2 record
        | none => .error .unknownKey)
      initial
    return some record

/-- Change a text of a record; null keeps it. -/
def textField {ρ : Type} (set : ρ → Text → ρ) (node : Node) (record : ρ) : Except Problem ρ := do
  match ← node.text? with
  | some text => return set record text
  | none => return record

/-- Replace a list of a record. -/
def listField {ρ α : Type}
    (read : Node → Except Problem (Option α))
    (set : ρ → List α → ρ)
    (node : Node)
    (record : ρ) :
    Except Problem ρ := do
  return set record (← readItems read (← node.items?))

end UnoBindgen.Yaml
