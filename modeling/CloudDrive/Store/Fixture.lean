import CloudDrive.Store.Catalog

/-!
# Fixture files

A fixture file holds the catalog of a store as JSON.

* `Catalog.ofFile`: the catalog of a file, or why the file tells none.
-/

namespace CloudDrive.Store

/-- Why a file tells no catalog. -/
inductive FixtureError where
  /-- The file cannot be read. -/
  | unreadable (reason : String)
  /-- The file holds something else. -/
  | malformed
  deriving Repr, DecidableEq, Inhabited

/-- What the user is told. -/
def FixtureError.message : FixtureError → String
  | .unreadable reason => "I/O error: " ++ reason
  | .malformed => "Invalid fixture"

/-- Why bytes that are no text cannot be read. -/
def notText : String := "stream did not contain valid UTF-8"

/-- The catalog of a file, given its bytes or why they cannot be had. -/
def Catalog.ofFile : Except String ByteArray → Except FixtureError Catalog
  | .error reason => .error (.unreadable reason)
  | .ok bytes =>
    match String.fromUTF8? bytes with
    | none => .error (.unreadable notText)
    | some text =>
      match ofText? text with
      | none => .error .malformed
      | some catalog => .ok catalog

/-- A text that tells a catalog does so in a file, too. -/
theorem Catalog.ofFile_toUTF8 {text : String} {c : Catalog} (h : ofText? text = some c) :
    ofFile (.ok text.toUTF8) = .ok c := by
  have hs : String.fromUTF8? text.toUTF8 = some text := by
    simp only [String.fromUTF8?, Option.dite_none_right_eq_some, Option.some.injEq]
    exact ⟨text.isValidUTF8, rfl⟩
  simp only [ofFile, hs, h]

end CloudDrive.Store
