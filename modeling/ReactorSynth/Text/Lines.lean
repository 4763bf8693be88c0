/-!
# Lines

A text is split at its line feeds. A carriage return directly before a line feed belongs to the
line end; any other carriage return is part of the line. A line feed at the very end starts no
further line, so the empty text has no lines.
-/

namespace ReactorSynth.Text

/-- Put a character in front of the first line; without lines, it makes one. -/
def consFirst (c : Char) : List (List Char) → List (List Char)
  | [] => [[c]]
  | line :: rest => (c :: line) :: rest

/-- The lines of a text. -/
def linesList : List Char → List (List Char)
  | [] => []
  | '\r' :: '\n' :: rest => [] :: linesList rest
  | '\n' :: rest => [] :: linesList rest
  | c :: rest => consFirst c (linesList rest)

/-- The lines of a text, each as a text. -/
def lines (s : String) : List String := (linesList s.toList).map String.ofList

/-! ## Lemmas -/

theorem lineFeed_not_mem_consFirst {c : Char} (hc : c ≠ '\n') {ls : List (List Char)}
    (h : ∀ line ∈ ls, '\n' ∉ line) : ∀ line ∈ consFirst c ls, '\n' ∉ line := by
  intro line hl
  cases ls with
  | nil =>
    obtain rfl : line = [c] := by simpa [consFirst] using hl
    simpa using Ne.symm hc
  | cons first rest =>
    rcases List.mem_cons.1 hl with rfl | hl
    · have := h first (by simp)
      simp [Ne.symm hc, this]
    · exact h line (by simp [hl])

theorem lineFeed_not_mem_linesList (cs : List Char) : ∀ line ∈ linesList cs, '\n' ∉ line := by
  fun_induction linesList cs with
  | case1 => simp
  | case2 rest ih => simpa using ih
  | case3 rest ih => simpa using ih
  | case4 c rest _ hc ih => exact lineFeed_not_mem_consFirst hc ih

end ReactorSynth.Text
