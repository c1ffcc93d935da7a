import PropLogic.Text.Shown

/-!
# Quoted characters and texts

A message shows a piece of the input between quotes, so that blanks, controls and quotes in it can
be told apart.  Each character is written by `escape`: NUL, tab, line feed, carriage return and the
backslash have a short form, the quote in use is marked by a backslash, and a character that is not
shown (`isShown`) is written by its code point.  The other quote stays as it is.

Main statement: `quote_eq_of_forall`, which texts stand unchanged between the quotes.
-/

namespace PropLogic.Text

/-- The code point of a character in braces, in lowercase hexadecimal digits without padding. -/
def codePoint (c : Char) : String :=
  "\\u\x7b" ++ String.ofList (Nat.toDigits 16 c.toNat) ++ "\x7d"

/-- The written form of a character inside a text that is delimited by `quote`. -/
def escape (quote c : Char) : String :=
  if c = '\x00' then "\\0"
  else if c = '\t' then "\\t"
  else if c = '\r' then "\\r"
  else if c = '\n' then "\\n"
  else if c = '\\' then "\\\\"
  else if c = quote then String.ofList ['\\', c]
  else if isShown c then String.singleton c
  else codePoint c

/-- A character that is shown, and is neither the backslash nor the quote in use, is written as it
is. -/
theorem escape_eq_singleton {quote c : Char} (hshown : isShown c = true) (hslash : c ≠ '\\')
    (hquote : c ≠ quote) : escape quote c = String.singleton c := by
  have hne : ∀ d, isShown d = false → c ≠ d := by
    rintro d hd rfl
    rw [hd] at hshown
    cases hshown
  rw [escape, if_neg (hne _ rfl), if_neg (hne _ rfl), if_neg (hne _ rfl), if_neg (hne _ rfl),
    if_neg hslash, if_neg hquote, if_pos hshown]

/-- A character between single quotes. -/
def quoteChar (c : Char) : String :=
  "'" ++ escape '\'' c ++ "'"

/-- A text between double quotes. -/
def quote (s : String) : String :=
  "\"" ++ String.join (s.toList.map (escape '"')) ++ "\""

/-- A text of such characters stands unchanged between the quotes. -/
theorem quote_eq_of_forall {s : String}
    (h : ∀ c ∈ s.toList, isShown c = true ∧ c ≠ '\\' ∧ c ≠ '"') : quote s = "\"" ++ s ++ "\"" := by
  have hchars : s.toList.map (escape '"') = s.toList.map String.singleton := by
    refine List.map_congr_left fun c hc => ?_
    obtain ⟨hshown, hslash, hquote⟩ := h c hc
    exact escape_eq_singleton hshown hslash hquote
  have hjoin : String.join (s.toList.map String.singleton) = s := by
    simp [← String.toList_inj, String.toList_join, List.flatMap_map]
  rw [quote, hchars, hjoin]

example : quoteChar '\'' = "'\\''" := by decide +kernel
example : quoteChar '"' = "'\"'" := by decide +kernel
example : quote "a'b\"c\\" = "\"a'b\\\"c\\\\\"" := by decide +kernel
example : quote "\x1b\u00a0" = "\"\\u\x7b1b\x7d\\u\x7ba0\x7d\"" := by decide +kernel

end PropLogic.Text
