import CloudDrive.Text.CaseTable

/-!
# Lower-casing

Full Unicode lower-casing without a locale: one capital has a form of two characters, and a capital
sigma is written differently at the end of a word.

* `lowercase`: the lower-case form of a text.
* `nameKey`: the lower-case form under which a name is found and sorted.
* `lowerAfter_of_no_sigma`: without a sigma, each character is lower-cased by itself.
* `nameKey_eq_lowercase`: without a sigma, the key of a name is its lower-case form.
-/

namespace CloudDrive.Text

/-- The lower-case form of a character, if it is one character and context plays no part. -/
def lowerChar (c : Char) : Char :=
  match lowerRanges.find? (c.toNat ≤ ·.last) with
  | some r =>
    if r.first ≤ c.toNat ∧ (c.toNat - r.first) % r.step = 0 then
      Char.ofNat (c.toNat + r.shift).toNat
    else c
  | none => c

variable (k : CaseClasses)

/-- Is the first character that is not case-ignorable a cased one? -/
def startsCased (cs : List Char) : Bool := (cs.dropWhile k.ignorable).head?.any k.cased

/-- The lower-case form of a capital sigma between the reversed text before it and the text after
it: final if a letter stands before it and none after it. -/
def lowerSigma (before after : List Char) : Char :=
  if startsCased k before && ! startsCased k after then 'ς' else 'σ'

/-- The lower-case form of a character between the reversed text before it and the text after it. -/
def lowerIn (before : List Char) (c : Char) (after : List Char) : List Char :=
  if c = 'Σ' then [lowerSigma k before after]
  else if c = 'İ' then ['i', '\u0307']
  else [lowerChar c]

/-- The lower-case form of a text that follows the reversed text `before`. -/
def lowerAfter (before : List Char) : List Char → List Char
  | [] => []
  | c :: rest => lowerIn k before c rest ++ lowerAfter (c :: before) rest

/-- The lower-case form of a text, by the classes of Unicode 17. -/
def lowercase (s : String) : String := String.ofList (lowerAfter .unicode17 [] s.toList)

/-! ## Keys of names -/

/-- How many characters stand in the whole blocks of sixteen ASCII characters at the front. -/
def blockLength (cs : List Char) : Nat := (cs.takeWhile (·.toNat < 128)).length / 16 * 16

/-- The key of a name. The blocks of sixteen ASCII characters at its front are lower-cased apart
from the rest, so that a sigma in the rest does not see them; the classes are those of
Unicode 15. -/
def nameKey (s : String) : String :=
  let n := blockLength s.toList
  String.ofList ((s.toList.take n).map lowerChar ++ lowerAfter .unicode15 [] (s.toList.drop n))

/-! ## Lemmas -/

theorem lowerAfter_append (before s t : List Char) (hs : 'Σ' ∉ s) :
    lowerAfter k before (s ++ t) =
      lowerAfter k before s ++ lowerAfter k (s.reverse ++ before) t := by
  induction s generalizing before with
  | nil => rfl
  | cons c s ih =>
    have hc : c ≠ 'Σ' := fun h => hs (h ▸ List.mem_cons_self)
    have hs' : 'Σ' ∉ s := fun h => hs (List.mem_cons_of_mem _ h)
    simp [lowerAfter, lowerIn, hc, ih _ hs']

/-- Without a sigma, each character is lower-cased by itself. -/
theorem lowerAfter_of_no_sigma (before cs : List Char) (h : 'Σ' ∉ cs) :
    lowerAfter k before cs =
      cs.flatMap fun c => if c = 'İ' then ['i', '\u0307'] else [lowerChar c] := by
  induction cs generalizing before with
  | nil => rfl
  | cons c cs ih =>
    have hc : c ≠ 'Σ' := fun h' => h (h' ▸ List.mem_cons_self)
    have hs' : 'Σ' ∉ cs := fun h' => h (List.mem_cons_of_mem _ h')
    simp [lowerAfter, lowerIn, hc, ih _ hs']

/-- The blocks at the front hold ASCII characters only. -/
theorem lt_of_mem_take_blockLength {cs : List Char} {c : Char}
    (h : c ∈ cs.take (blockLength cs)) : c.toNat < 128 := by
  have hle : blockLength cs ≤ (cs.takeWhile (·.toNat < 128)).length := Nat.div_mul_le_self _ _
  have ht : cs.take (blockLength cs) = (cs.takeWhile (·.toNat < 128)).take (blockLength cs) := by
    have happ := List.takeWhile_append_dropWhile (p := (·.toNat < 128)) (l := cs)
    have htake := congrArg (List.take (blockLength cs)) happ
    rw [List.take_append_of_le_length hle] at htake
    exact htake.symm
  have hmem := List.mem_of_mem_take (ht ▸ h)
  simpa using List.all_eq_true.1 (List.all_takeWhile (p := (·.toNat < 128)) (l := cs)) c hmem

/-- Without a sigma, the key of a name is its lower-case form. -/
theorem nameKey_eq_lowercase {s : String} (h : 'Σ' ∉ s.toList) : nameKey s = lowercase s := by
  generalize hf : (fun c : Char => if c = 'İ' then ['i', '\u0307'] else [lowerChar c]) = f
  have hd : 'Σ' ∉ s.toList.drop (blockLength s.toList) := fun h' => h (List.mem_of_mem_drop h')
  have ht : (s.toList.take (blockLength s.toList)).map lowerChar =
      (s.toList.take (blockLength s.toList)).flatMap f := by
    rw [List.map_eq_flatMap, List.flatMap_def, List.flatMap_def]
    congr 1
    refine List.map_congr_left fun c hc => ?_
    have hlt := lt_of_mem_take_blockLength hc
    have hne : c ≠ 'İ' := by rintro rfl; exact absurd hlt (by decide)
    simp [← hf, hne]
  simp only [nameKey, lowercase, lowerAfter_of_no_sigma _ _ _ hd, lowerAfter_of_no_sigma _ _ _ h,
    hf, ht]
  rw [← List.flatMap_append, List.take_append_drop]

end CloudDrive.Text
