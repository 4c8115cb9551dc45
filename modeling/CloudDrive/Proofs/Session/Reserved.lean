import CloudDrive.Proofs.Path.Spelling
import CloudDrive.Proofs.Session.Duty

/-!
# What is created in the trash

With the settings that are standard, the trash is a directory of the root. Commands check that they
create nothing in it, but each checks another path than the one that is created in the end: the
directory instead of the entry, or the entry beside the one that is renamed. `Operation.Strays` says
for which names the two differ.

* `isReserved_join`: when an entry of a directory lies in the trash.
* `reserved_iff_strays`: a call of a command that does not move into the trash creates something
  there exactly if its operation strays.
-/

namespace CloudDrive

open Path (IsComponent firstPiece SpellsRoot)
open Remote (Call)

/-- Where a call creates an entry, if it does. -/
def Remote.Call.target? : Call → Option String
  | .move _ destination => some destination
  | .createDirectory parent name => some (Path.join parent name)
  | .upload file directory => some (Path.join directory file.name)
  | _ => none

/-- The trash is a directory of the root, and what is restored goes to the root. -/
structure Config.Plain (c : Config) : Prop where
  name : IsComponent c.trashName
  trash : c.trashPath = Path.root ++ c.trashName
  root : c.rootPath = Path.root

theorem Config.plain_standard : Config.Plain {} :=
  ⟨by decide, by decide, rfl⟩

/-- The call creates its entry in the trash, though the check of the operation was passed: it puts
something into the root under the name of the trash, or renames an entry whose name is no component
and whose directory is another one than the check has looked at. -/
def Operation.Strays (c : Config) : Operation → Call → Prop
  | .moveEntries _ destination, .move source _ =>
    SpellsRoot destination ∧ Path.name source = c.trashName
  | .restoreFromTrash _, .move source _ => Path.name source = c.trashName
  | .rename path newName, _ =>
    (∃ directory name, path = Path.join directory name ∧ ¬ IsComponent name ∧
      Trash.isReserved c (Path.join directory newName) = false) ∧
    (Trash.isReserved c (Path.parent path) = true ∨
      SpellsRoot (Path.parent path) ∧ newName = c.trashName)
  | .upload file directory, _ => SpellsRoot directory ∧ firstPiece file.name = c.trashName
  | _, _ => False

/-! ## Entries in the trash -/

section
variable {c : Config} (hp : c.Plain)
include hp

/-- An entry lies in the trash exactly if its directory does, or if the entry is one of the root and
its name begins with that of the trash. -/
theorem isReserved_join (directory name : String) :
    Trash.isReserved c (Path.join directory name) = true ↔
      Trash.isReserved c directory = true ∨
        SpellsRoot directory ∧ firstPiece name = c.trashName := by
  unfold Trash.isReserved
  rw [hp.trash]
  exact Path.isWithin_join_top hp.name

theorem isReserved_rootPath : Trash.isReserved c c.rootPath = false := by
  unfold Trash.isReserved
  rw [hp.root, hp.trash, Bool.eq_false_iff]
  intro h
  obtain ⟨rest, hrest, htake⟩ := (Path.isWithin_top hp.name).1 h
  obtain rfl : [] = rest := List.cons_inj_right _ |>.1 hrest
  exact hp.name.1 (String.toList_eq_nil_iff.1 htake.symm)

theorem isReserved_join_name {directory : String} (hd : Trash.isReserved c directory = false)
    (source : String) :
    Trash.isReserved c (Path.join directory (Path.name source)) = true ↔
      SpellsRoot directory ∧ Path.name source = c.trashName := by
  rw [isReserved_join hp, hd, Path.firstPiece_of_not_mem (Path.not_mem_name source)]
  simp

/-- A new name lands in the trash exactly if the renaming strays, since the check has looked at the
new name in the directory of the entry. -/
theorem isReserved_renamed_iff {path newName : String} {call : Call}
    (hc : (Operation.rename path newName).Checked c) :
    Trash.isReserved c (Path.join (Path.parent path) newName) = true ↔
      (Operation.rename path newName).Strays c call := by
  obtain ⟨hn, directory, name, rfl, hd⟩ := hc
  rw [isReserved_join hp, Path.firstPiece_of_not_mem hn.2]
  refine ⟨fun h => ⟨⟨directory, name, rfl, fun hname => ?_, hd⟩, h⟩, And.right⟩
  have hsame : Trash.isReserved c (Path.join directory newName) = true := by
    rw [← Path.join_parent_join hname, isReserved_join hp, Path.firstPiece_of_not_mem hn.2]
    exact h
  rw [hd] at hsame
  cases hsame

/-- A call of an operation that was checked creates something in the trash exactly if the operation
strays. -/
theorem Operation.Checked.reserved_iff {operation : Operation} {call : Call} {target : String}
    (hi : operation.Issues c call) (ht : call.target? = some target) (hc : operation.Checked c)
    (hne : ∀ sources, operation ≠ .moveToTrash sources) :
    Trash.isReserved c target = true ↔ operation.Strays c call := by
  cases operation with
  | moveEntries sources destination =>
    cases call with
    | move source _ =>
      obtain ⟨-, rfl⟩ := hi
      obtain rfl := Option.some.inj ht
      exact isReserved_join_name hp hc source
    | _ => exact hi.elim
  | moveToTrash sources => exact absurd rfl (hne sources)
  | restoreFromTrash names =>
    cases call with
    | move source _ =>
      obtain ⟨-, rfl⟩ := hi
      obtain rfl := Option.some.inj ht
      have htop : SpellsRoot c.rootPath := by
        rw [hp.root]
        rfl
      rw [isReserved_join_name hp (isReserved_rootPath hp) source]
      exact and_iff_right htop
    | _ => exact hi.elim
  | deleteEntries paths =>
    cases call with
    | delete paths' => exact absurd ht (Option.some_ne_none target ·.symm)
    | _ => exact hi.elim
  | createDirectory parent name =>
    cases call with
    | createDirectory parent' name' =>
      obtain ⟨rfl, rfl⟩ := hi
      obtain rfl := Option.some.inj ht
      simp [Strays, hc.2]
    | _ => exact hi.elim
  | rename path newName =>
    cases call with
    | move source _ =>
      obtain ⟨-, rfl⟩ := hi
      obtain rfl := Option.some.inj ht
      exact isReserved_renamed_iff hp hc
    | _ => exact hi.elim
  | upload file directory =>
    cases call with
    | upload file' directory' =>
      obtain ⟨rfl, rfl⟩ := hi
      obtain rfl := Option.some.inj ht
      rw [isReserved_join hp, show Trash.isReserved c directory' = false from hc]
      simp [Strays]
    | _ => exact hi.elim

end

namespace Session

/-! ## Runs -/

/-- **Nothing is created in the trash**, exactly unless an operation strays: with standard settings
and on any store, in any run of commands that overlap, a call belongs to an operation of its
command, and if that is not one that moves into the trash, the call creates something there exactly
if the operation strays. -/
theorem reserved_iff_strays (now : Instant) (store : Store) (turns : List (Turn Store))
    {errand : Errand}
    (he : errand ∈ (runTurns .ofStore (.of (start {} now) store) turns).jobs) {call : Call}
    (hcall : errand.rest.pending? = some call)
    (hne : ∀ sources, .moveToTrash sources ∉ errand.label.operations) {target : String}
    (ht : call.target? = some target) :
    ∃ operation ∈ errand.label.operations, operation.Issues {} call ∧
      (Trash.isReserved {} target = true ↔ operation.Strays {} call) := by
  have hunder := (kept_duty {}).under_runTurns (under_of (vetted_start {} now) store) turns
  obtain ⟨_, _, hserves⟩ := hunder.did errand he
  rcases hserves call hcall with ⟨path, rfl⟩ | ⟨operation, ho, hchecked, hissues⟩
  · cases ht
  · refine ⟨operation, ho, hissues,
      Operation.Checked.reserved_iff Config.plain_standard hissues ht hchecked ?_⟩
    rintro sources rfl
    exact hne sources ho

/-- The rename of an entry of the root strays only if its name is no component. -/
theorem reserved_iff_strays_rename :
    ∃ errand ∈ (runTurns .ofStore (.of (start {} default) (.ofCatalog (.ofEntries []) default))
        [.ask (.rename "a" "b")]).jobs,
      errand.rest.pending? = some (.move "/a" "/b") ∧
        (∀ sources, .moveToTrash sources ∉ errand.label.operations) ∧
        (Call.move "/a" "/b").target? = some "/b" ∧
        ∃ operation ∈ errand.label.operations, operation.Issues {} (.move "/a" "/b") ∧
          (Trash.isReserved {} "/b" = true ↔ operation.Strays {} (.move "/a" "/b")) := by
  have hjob : ((runTurns .ofStore
      (.of (start {} default) (.ofCatalog (.ofEntries []) default))
      [.ask (.rename "a" "b")]).jobs.head?.map fun errand =>
        (errand.rest.pending?, errand.label.operations)) =
      some (some (.move "/a" "/b"), [.rename "/a" "b"]) := by decide
  obtain ⟨errand, he, hjob⟩ := Option.map_eq_some_iff.1 hjob
  have he := List.mem_of_mem_head? he
  obtain ⟨hcall, hoperations⟩ := Prod.mk.inj hjob
  have hne : ∀ sources, .moveToTrash sources ∉ errand.label.operations := by
    rw [hoperations]
    simp
  exact ⟨errand, he, hcall, hne, rfl, reserved_iff_strays default _ _ he hcall hne rfl⟩

/-- An upload into the root, under the name of the trash, creates the file there. -/
theorem upload_strays :
    ∃ errand ∈ (runTurns .ofStore (.of (start {} default) (.ofCatalog (.ofEntries []) default))
        [.ask (.upload [⟨".trash", [1]⟩])]).jobs,
      errand.rest.pending? = some (.upload ⟨".trash", [1]⟩ "/") ∧
        (∀ sources, .moveToTrash sources ∉ errand.label.operations) ∧
        (Call.upload ⟨".trash", [1]⟩ "/").target? = some "/.trash" ∧
        Trash.isReserved {} "/.trash" = true ∧
        ((runTurns .ofStore (.of (start {} default) (.ofCatalog (.ofEntries []) default))
          [.ask (.upload [⟨".trash", [1]⟩]), .go 0]).remote.catalog.find? "/.trash").isSome := by
  have hjob : ((runTurns .ofStore
      (.of (start {} default) (.ofCatalog (.ofEntries []) default))
      [.ask (.upload [⟨".trash", [1]⟩])]).jobs.head?.map fun errand =>
        (errand.rest.pending?, errand.label.operations)) =
      some (some (.upload ⟨".trash", [1]⟩ "/"), [.upload ⟨".trash", [1]⟩ "/"]) := by
    decide
  obtain ⟨errand, he, hjob⟩ := Option.map_eq_some_iff.1 hjob
  obtain ⟨hcall, hoperations⟩ := Prod.mk.inj hjob
  refine ⟨errand, List.mem_of_mem_head? he, hcall, ?_, by decide, by decide,
    by decide⟩
  rw [hoperations]
  simp

end Session

end CloudDrive
