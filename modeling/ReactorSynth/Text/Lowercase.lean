import ReactorSynth.Text.CaseTable

/-!
# Lower-casing

The full lower-case mapping of a text. Every letter maps on its own, with two exceptions: the
capital I with dot becomes two characters, and the capital sigma takes its final form at the end
of a word. A sigma ends a word when, past characters that carry no case, a cased letter stands
before it and none stands after it.
-/

namespace ReactorSynth.Text

/-- The lower-case form of a character apart from its context. -/
def lowercaseChar (c : Char) : List Char :=
  if c.toNat == 0x130 then ['i', Char.ofNat 0x307]
  else match lowercaseRuns.find? (·.covers c.toNat) with
    | none => [c]
    | some run => [Char.ofNat (c.toNat + run.distance).toNat]

/-- Whether the first character that is not skipped for case is a cased one. -/
def meetsCased (cs : List Char) : Bool :=
  match cs.dropWhile (inRanges caseIgnorableRanges) with
  | [] => false
  | c :: _ => inRanges casedRanges c

/-- The lower-case form of a text, given the reversed text that stands before it. -/
def lowercaseFrom (before : List Char) : List Char → List Char
  | [] => []
  | c :: rest =>
    let lowered :=
      if c == 'Σ' then [if meetsCased before && !meetsCased rest then 'ς' else 'σ']
      else lowercaseChar c
    lowered ++ lowercaseFrom (c :: before) rest

/-- The lower-case form of a text. -/
def lowercase (s : String) : String := String.ofList (lowercaseFrom [] s.toList)

end ReactorSynth.Text
