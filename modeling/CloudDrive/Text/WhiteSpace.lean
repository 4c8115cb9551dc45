/-!
# White space

The Unicode property `White_Space`, and trimming by it. Everything that a user types (names, paths,
search texts) is trimmed by `trim` before it is looked at.

* `isWhiteSpace_of_isWhitespace`: the ASCII class of `Char` lies inside the property.
* `dropEndWhile_append_of_all`, `dropEndWhile_of_last`: what is dropped from the end of a list.
* `eq_false_of_dropEndWhile_eq`: what it ends with then.
-/

namespace CloudDrive.Text

/-- The Unicode property `White_Space`: 25 code points. -/
def isWhiteSpace (c : Char) : Bool :=
  let n := c.toNat
  (9 ≤ n && n ≤ 13) || n == 0x20 || n == 0x85 || n == 0xA0 || n == 0x1680 ||
    (0x2000 ≤ n && n ≤ 0x200A) || n == 0x2028 || n == 0x2029 || n == 0x202F || n == 0x205F ||
    n == 0x3000

/-- A list less the longest run of elements in `p` at its end. -/
def dropEndWhile {α : Type} (p : α → Bool) (l : List α) : List α :=
  (l.reverse.dropWhile p).reverse

/-- The characters less the white space at both ends. -/
def trimChars (cs : List Char) : List Char :=
  dropEndWhile isWhiteSpace (cs.dropWhile isWhiteSpace)

/-- The text less the white space at both ends. -/
def trim (s : String) : String := String.ofList (trimChars s.toList)

/-! ## Lemmas -/

theorem isWhiteSpace_of_isWhitespace {c : Char} (h : c.isWhitespace = true) :
    isWhiteSpace c = true := by
  simp only [Char.isWhitespace, Bool.or_eq_true, decide_eq_true_eq] at h
  rcases h with ((rfl | rfl) | rfl) | rfl <;> decide

@[simp] theorem toList_trim (s : String) : (trim s).toList = trimChars s.toList := by
  simp [trim]

section
variable {α : Type} {p : α → Bool}

@[simp] theorem dropEndWhile_nil : dropEndWhile p [] = [] := rfl

theorem dropEndWhile_append_of_all {l r : List α} (h : ∀ x ∈ r, p x = true) :
    dropEndWhile p (l ++ r) = dropEndWhile p l := by
  simp only [dropEndWhile, List.reverse_append]
  rw [List.dropWhile_append_of_pos (by simpa using h)]

theorem dropEndWhile_of_last {l : List α} {x : α} (h : p x = false) :
    dropEndWhile p (l ++ [x]) = l ++ [x] := by
  simp [dropEndWhile, h]

theorem eq_false_of_dropEndWhile_eq {l front : List α} {x : α}
    (h : dropEndWhile p l = front ++ [x]) : p x = false := by
  have hrest := congrArg List.reverse h
  have hhead := List.head?_dropWhile_not p l.reverse
  rw [dropEndWhile, List.reverse_reverse, List.reverse_concat] at hrest
  simpa [hrest] using hhead

end

end CloudDrive.Text
