/-!
# Blank characters

White space in the sense of the Unicode property White_Space, trimming at both ends, and the
leading blanks of a line. The zero-width space and the byte-order mark are not blank.
-/

namespace ReactorSynth.Text

/-- Whether a character is white space. -/
def isBlank (c : Char) : Bool :=
  let code := c.toNat
  (0x09 ≤ code && code ≤ 0x0D) || code == 0x20 || code == 0x85 || code == 0xA0 || code == 0x1680 ||
    (0x2000 ≤ code && code ≤ 0x200A) || code == 0x2028 || code == 0x2029 || code == 0x202F ||
    code == 0x205F || code == 0x3000

/-- Whether a line holds white space only. -/
def allBlank (line : List Char) : Bool := line.all isBlank

/-- The white space a line starts with. -/
def leadingBlanks (line : List Char) : List Char := line.takeWhile isBlank

/-- The text without the white space at its end. -/
def trimRight (cs : List Char) : List Char := (cs.reverse.dropWhile isBlank).reverse

/-- The text without the white space at its two ends. -/
def trimList (cs : List Char) : List Char := trimRight (cs.dropWhile isBlank)

/-- The text without the white space at its two ends. -/
def trim (s : String) : String := String.ofList (trimList s.toList)

/-! ## Lemmas -/

theorem allBlank_append (a b : List Char) : allBlank (a ++ b) = (allBlank a && allBlank b) :=
  List.all_append

theorem allBlank_leadingBlanks (line : List Char) : allBlank (leadingBlanks line) = true := by
  induction line with
  | nil => rfl
  | cons c cs ih =>
    cases h : isBlank c
    · simp [leadingBlanks, allBlank, h]
    · have : leadingBlanks (c :: cs) = c :: leadingBlanks cs := by simp [leadingBlanks, h]
      rw [this]
      simpa [allBlank, h] using ih

theorem leadingBlanks_append_dropWhile (line : List Char) :
    leadingBlanks line ++ line.dropWhile isBlank = line :=
  List.takeWhile_append_dropWhile

theorem dropWhile_blanks_append {blanks cs : List Char} (hblanks : allBlank blanks = true)
    (hfirst : ∀ c, cs.head? = some c → isBlank c = false) :
    (blanks ++ cs).dropWhile isBlank = cs := by
  rw [List.dropWhile_append_of_pos (List.all_eq_true.mp hblanks)]
  cases cs with
  | nil => rfl
  | cons c cs => exact List.dropWhile_cons_of_neg (by simp [hfirst c rfl])

/-- What stands between white space, and has none at its own ends, is what trimming leaves. -/
theorem trimList_append {before core after : List Char} (hbefore : allBlank before = true)
    (hafter : allBlank after = true) (hne : core ≠ [])
    (hfirst : ∀ c, core.head? = some c → isBlank c = false)
    (hlast : ∀ c, core.getLast? = some c → isBlank c = false) :
    trimList (before ++ core ++ after) = core := by
  have hfront : (before ++ core ++ after).dropWhile isBlank = core ++ after := by
    obtain ⟨d, rest, rfl⟩ := List.exists_cons_of_ne_nil hne
    rw [List.append_assoc]
    exact dropWhile_blanks_append hbefore hfirst
  have hback : (core ++ after).reverse.dropWhile isBlank = core.reverse := by
    rw [List.reverse_append]
    refine dropWhile_blanks_append ?_ fun c hc => hlast c ?_
    · rwa [allBlank, List.all_reverse]
    · rwa [List.head?_reverse] at hc
  rw [trimList, hfront, trimRight, hback, List.reverse_reverse]

/-- Trimming takes white space off the two ends and nothing else. -/
theorem exists_eq_append_trimList (cs : List Char) :
    ∃ before after, cs = before ++ trimList cs ++ after ∧ allBlank before = true ∧
      allBlank after = true := by
  have hback : ∀ rest : List Char, trimRight rest ++ (leadingBlanks rest.reverse).reverse = rest :=
    fun rest => by
      rw [trimRight, ← List.reverse_append, leadingBlanks_append_dropWhile, List.reverse_reverse]
  refine ⟨leadingBlanks cs, (leadingBlanks (cs.dropWhile isBlank).reverse).reverse, ?_,
    allBlank_leadingBlanks cs, ?_⟩
  · rw [trimList, List.append_assoc, hback, leadingBlanks_append_dropWhile]
  · rw [allBlank, List.all_reverse]
    exact allBlank_leadingBlanks _

end ReactorSynth.Text
