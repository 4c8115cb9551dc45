import CloudDrive.Proofs.Path.Spelling
import CloudDrive.Proofs.Session.Duty
import CloudDrive.Proofs.Store.Calls
import Mathlib.Data.List.Infix

/-!
# The store stays a tree

Names of new directories, and new names of entries, are checked to be components; what is moved is
stored, and so has a component as its name. The names of uploaded files are not checked, and an
upload of a file whose path is not that of an entry of a directory (`Catalog.Admits`) takes the
shape from the store.

* `isTree_of_issues`: every other call of a checked operation keeps the shape.
* `isTree_upload_iff`: when an upload does.
* `isTree_iff_admits`: runs of commands that overlap.
-/

namespace CloudDrive

open Path (Canonical IsComponent)
open Remote (Call UploadFile)

/-- The path is that of an entry of a directory, which may be stored or not. -/
def Store.Catalog.Admits (c : Catalog) (path : String) : Prop :=
  ∃ directory name, c.IsDirectory directory ∧ IsComponent name ∧ path = Path.join directory name

namespace Store

/-! ## Calls -/

/-- A file that replaces no directory leaves a tree exactly if its path is admitted. -/
theorem Catalog.isTree_insert_file {c : Catalog} (hc : c.IsTree) {path : String} {size : UInt64}
    {time : Instant} (hold : ∀ x, c.find? path = some x → x.isDirectory = false) :
    (c.insert (.file path size time)).IsTree ↔ c.Admits path := by
  constructor
  · intro h
    have hfind : (c.insert (.file path size time)).find? path = some (.file path size time) := by
      rw [find?_insert]
      exact if_pos rfl
    have hcan := h.canonical _ _ hfind
    have hne := h.ne_root _ _ hfind
    refine ⟨Path.parent path, Path.name path, ?_, hcan.isComponent_name hne,
      (hcan.join_parent_name hne).symm⟩
    -- the new file is not the directory that it lies in
    rcases h.parent _ _ hfind with hroot | ⟨x, hx, hd⟩
    · exact .inl hroot
    · rw [find?_insert] at hx
      split at hx
      · obtain rfl := Option.some.inj hx
        cases hd
      · exact .inr ⟨x, hx, hd⟩
  · rintro ⟨d, n, hd, hn, rfl⟩
    have hp := hc.canonical_of_isDirectory hd
    refine hc.insert (Path.canonical_join hp hn) (Path.join_ne_root hp hn) ?_ hold
    show c.IsDirectory (Path.parent (Path.join d n))
    rwa [Path.parent_join hp hn]

section
variable {s : Store} (hs : s.catalog.IsTree)
include hs

theorem isTree_upload_iff (file : UploadFile) (directory : String) :
    (s.upload file directory).2.catalog.IsTree ↔
      ((s.upload file directory).1 = .ok () →
        s.catalog.Admits (Path.join directory file.name)) := by
  rcases (s.upload_cases file directory).2 with ⟨f, hr, hc⟩ | ⟨hr, -, hold, hc⟩
  · rw [hr, hc]
    refine ⟨fun _ h => ?_, fun _ => hs⟩
    cases h
  · rw [hr, hc, Catalog.isTree_insert_file hs hold]
    exact ⟨fun h _ => h, fun h => h rfl⟩

/-- What is moved to a component in a directory, however the directory is spelled, keeps the shape:
the store makes sure that the path names an entry of a directory. -/
theorem isTree_move_join {source directory name : String}
    (hn : (s.catalog.find? source).isSome = true → IsComponent name) :
    (s.move source (Path.join directory name)).2.catalog.IsTree := by
  refine isTree_move hs fun hm => ?_
  obtain ⟨hstored, -, -, hdir⟩ := moveFailure?_eq_none.1 hm
  have hn := hn hstored
  have hp := hs.canonical_of_isDirectory hdir
  have hjoin := Path.canonical_join hp hn
  rwa [Path.join_parent_join hn] at hjoin

theorem isComponent_name_of_stored {source : String}
    (h : (s.catalog.find? source).isSome = true) : IsComponent (Path.name source) := by
  obtain ⟨e, he⟩ := Option.isSome_iff_exists.1 h
  exact (hs.canonical _ e he).isComponent_name (hs.ne_root _ e he)

/-- **Every call of a checked operation** but an upload keeps the shape. -/
theorem isTree_of_issues {c : Config} {operation : Operation} {call : Call}
    (hi : operation.Issues c call) (hc : operation.Checked c)
    (hne : ∀ file directory, call ≠ .upload file directory) :
    (s.answer call).2.catalog.IsTree := by
  cases call with
  | list path =>
    rw [catalog_answer_list]
    exact hs
  | delete paths => exact isTree_delete hs
  | move source target =>
    cases operation with
    | moveEntries sources destination =>
      obtain ⟨-, rfl⟩ := hi
      exact isTree_move_join hs (isComponent_name_of_stored hs)
    | moveToTrash sources =>
      obtain ⟨-, rfl⟩ := hi
      exact isTree_move_join hs (isComponent_name_of_stored hs)
    | restoreFromTrash names =>
      obtain ⟨-, rfl⟩ := hi
      exact isTree_move_join hs (isComponent_name_of_stored hs)
    | rename path newName =>
      obtain ⟨-, rfl⟩ := hi
      exact isTree_move_join hs fun _ => hc.1
    | _ => exact hi.elim
  | createDirectory parent name =>
    cases operation with
    | moveToTrash sources =>
      obtain ⟨rfl, rfl⟩ := hi
      show (s.createDirectory c.trashParent c.trashName).2.catalog.IsTree
      exact isTree_createDirectory hs (Path.isComponent_name_or c.trashPath)
    | createDirectory parent' name' =>
      obtain ⟨rfl, rfl⟩ := hi
      exact isTree_createDirectory hs (.inl hc.1)
    | _ => exact hi.elim
  | upload file directory => exact absurd rfl (hne file directory)

end

end Store

namespace Session

/-! ## Turns -/

/-- The command of a number waits for an upload, and the store is about to accept it. -/
def Stores (w : Crew Store) (number : Nat) (file : UploadFile) (directory : String) : Prop :=
  ∃ errand, w.job? number = some errand ∧
    errand.rest.pending? = some (.upload file directory) ∧
    (w.remote.upload file directory).1 = .ok ()

/-- What happens outside leaves the entries of the store alone: it sets faults, say, or moves the
gate. -/
def Turn.Spares : Turn Store → Prop
  | .outside change => ∀ store, (change store).catalog = store.catalog
  | _ => True

theorem catalog_resume (w : Crew Store) (errand : Errand) :
    (w.resume .ofStore errand).2.remote.catalog = w.remote.catalog := by
  obtain ⟨rest, state, -, ⟨a, -, hresume⟩ | ⟨-, hresume⟩⟩ := w.resume_cases .ofStore errand
  · rw [hresume]
  · rw [hresume]
    simp only [Crowd.noted]
    split <;> rfl

section
variable {c : Config} {w : Crew Store} (hw : w.Under (duty c)) (hs : w.remote.catalog.IsTree)
include hw hs

/-- A command goes on: the store stays a tree exactly if what it stores is admitted. -/
theorem isTree_go_iff (number : Nat) :
    (w.go .ofStore number).2.remote.catalog.IsTree ↔
      ∀ file directory, Stores w number file directory →
        w.remote.catalog.Admits (Path.join directory file.name) := by
  cases hjob : w.job? number with
  | none =>
    have hnone : ∀ file directory, ¬ Stores w number file directory := by
      rintro file directory ⟨errand, he, -⟩
      rw [hjob] at he
      cases he
    simp only [Crowd.go, hjob]
    exact ⟨fun _ file directory h => absurd h (hnone file directory), fun _ => hs⟩
  | some errand =>
    -- what the command stores is what it waits for
    have hstores : ∀ file directory, Stores w number file directory ↔
        errand.rest.pending? = some (.upload file directory) ∧
          (w.remote.upload file directory).1 = .ok () := by
      simp [Stores, hjob]
    have hmem := (Crowd.mem_of_job? hjob).1
    have hawaits := hw.awaits errand hmem
    obtain ⟨_, _, hserves⟩ := hw.did errand hmem
    simp only [hstores]
    cases hrest : errand.rest with
    | call call next =>
      have hpending : errand.rest.pending? = some call := by
        rw [hrest]
        rfl
      rw [Crowd.go_of_hear hjob (by rw [hrest]; rfl), catalog_resume]
      show (w.remote.answer call).2.catalog.IsTree ↔ _
      by_cases hupload : ∃ file directory, call = .upload file directory
      · obtain ⟨file, directory, rfl⟩ := hupload
        refine (Store.isTree_upload_iff hs file directory).trans
          ⟨fun h file' directory' hstored => ?_, fun h hr => h file directory ⟨rfl, hr⟩⟩
        obtain ⟨hp, hr⟩ := hstored
        cases hp
        exact h hr
      · have hne : ∀ file directory, call ≠ .upload file directory :=
          fun file directory h => hupload ⟨file, directory, h⟩
        refine ⟨fun _ file directory h => absurd (Option.some.inj h.1) (hne file directory),
          fun _ => ?_⟩
        rcases hserves call hpending with ⟨path, rfl⟩ | ⟨operation, -, hchecked, hissues⟩
        · rwa [Store.catalog_answer_list]
        · exact Store.isTree_of_issues hs hissues hchecked hne
    | sleep d next =>
      rw [Crowd.go_of_hear hjob (by rw [hrest]; rfl), catalog_resume]
      refine ⟨fun _ file directory h => ?_, fun _ => hs⟩
      cases h.1
    | _ =>
      rw [hrest] at hawaits
      exact hawaits.elim

theorem isTree_run_iff {turn : Turn Store} (hspares : turn.Spares) :
    (turn.run .ofStore w).2.remote.catalog.IsTree ↔
      ∀ number file directory, turn = .go number → Stores w number file directory →
        w.remote.catalog.Admits (Path.join directory file.name) := by
  cases turn with
  | go number =>
    refine (isTree_go_iff hw hs number).trans ⟨fun h number' file directory hn => ?_,
      fun h file directory => h number file directory rfl⟩
    cases hn
    exact h file directory
  | ask command =>
    refine ⟨fun _ number file directory h => ?_, fun _ => ?_⟩
    · cases h
    · simp only [Turn.run, Crowd.begin, catalog_resume]
      exact hs
  | outside change =>
    refine ⟨fun _ number file directory h => ?_, fun _ => ?_⟩
    · cases h
    · show (change w.remote).catalog.IsTree
      rwa [hspares]
  | _ =>
    refine ⟨fun _ number file directory h => ?_, fun _ => hs⟩
    cases h

end

/-! ## Runs -/

/-- **The store stays a tree** throughout a run of commands that overlap, exactly if every file that
is stored is admitted where it is put. -/
theorem isTree_iff_admits (c : Config) (now : Instant) {store : Store}
    (hstore : store.catalog.IsTree) {turns : List (Turn Store)}
    (hspares : ∀ turn ∈ turns, turn.Spares) :
    (∀ before, before <+: turns →
        (runTurns .ofStore (.of (start c now) store) before).remote.catalog.IsTree) ↔
      ∀ before number file directory, before ++ [.go number] <+: turns →
        Stores (runTurns .ofStore (.of (start c now) store) before) number file directory →
        (runTurns .ofStore (.of (start c now) store) before).remote.catalog.Admits
          (Path.join directory file.name) := by
  have hunder := (kept_duty c).under_runTurns (under_of (vetted_start c now) store)
  constructor
  · intro htree before number file directory hbefore
    have hnow := htree before ((List.prefix_append before [.go number]).trans hbefore)
    have hthen := htree _ hbefore
    rw [runTurns_append] at hthen
    exact (isTree_go_iff (hunder before) hnow number).1 hthen file directory
  · intro hadmits before hbefore
    -- the induction is on the turns so far, the last of which is the step
    induction before using List.reverseRecOn with
    | nil => exact hstore
    | append_singleton before turn ih =>
      have hnow := ih ((List.prefix_append before [turn]).trans hbefore)
      have hturn := hspares turn (hbefore.subset (List.mem_append_right _ List.mem_cons_self))
      rw [runTurns_append]
      refine (isTree_run_iff (hunder before) hnow hturn).2 ?_
      rintro number file directory rfl
      exact hadmits before number file directory hbefore

/-- An upload into the root, of a file whose name is a path. -/
def nestedUpload : List (Turn Store) := [.ask (.upload [⟨"x/y", [1]⟩]), .go 0]

/-- A store with these directories in the root. -/
def storeOf (names : List String) : Store :=
  .ofCatalog (.ofEntries (names.map fun name => .directory (Path.join Path.root name) default))
    default

/-- The file is admitted where its directory is stored. -/
theorem isTree_iff_admits_nested :
    (storeOf ["x"]).catalog.IsTree ∧ (∀ turn ∈ nestedUpload, turn.Spares) ∧
      ∀ before number file directory, before ++ [.go number] <+: nestedUpload →
        Stores (runTurns .ofStore (.of (start {} default) (storeOf ["x"])) before)
          number file directory →
        (runTurns .ofStore (.of (start {} default) (storeOf ["x"])) before).remote.catalog.Admits
          (Path.join directory file.name) := by
  have hstore : (storeOf ["x"]).catalog.WellShaped := by decide
  have hspares : ∀ turn ∈ nestedUpload, turn.Spares := by simp [nestedUpload, Turn.Spares]
  have htrees : ∀ before ∈ nestedUpload.inits, (runTurns .ofStore
      (.of (start {} default) (storeOf ["x"])) before).remote.catalog.WellShaped := by
    decide
  exact ⟨hstore.tree, hspares, (isTree_iff_admits {} default hstore.tree hspares).1
    fun before hbefore => (htrees before ((List.mem_inits _ _).2 hbefore)).tree⟩

/-- Where its directory is not stored, the file is stored all the same. -/
theorem nested_upload_breaks_tree :
    (storeOf []).catalog.IsTree ∧ (∀ turn ∈ nestedUpload, turn.Spares) ∧
      ¬ (runTurns .ofStore (.of (start {} default) (storeOf [])) nestedUpload).remote.catalog.IsTree
      := by
  have hstore : (storeOf []).catalog.WellShaped := by decide
  refine ⟨hstore.tree, by simp [nestedUpload, Turn.Spares], fun h => ?_⟩
  have hstored : ((runTurns .ofStore (.of (start {} default) (storeOf []))
      nestedUpload).remote.catalog.find? "/x/y").isSome = true := by decide
  have hparent : ¬ (runTurns .ofStore (.of (start {} default) (storeOf []))
      nestedUpload).remote.catalog.IsDirectory (Path.parent "/x/y") := by decide
  obtain ⟨e, he⟩ := Option.isSome_iff_exists.1 hstored
  exact hparent (h.parent _ e he)

end Session

end CloudDrive
