import CloudDrive.Proofs.Store.Tree

/-!
# What the calls of a store do

Each call either meets a failure and leaves the catalog alone, or does its one change.

* `list_of_isDirectory`, `list_of_not_isDirectory`: a store without faults of listings lists the
  directories that it holds, and refuses everything else.
* `move_cases`, `createDirectory_cases`, `upload_cases`, `delete_cases`: the other calls. A deletion
  reports each path once (`Covers`).
* `isTree_move`, `wellShaped_move` and their kin: the calls keep the shape of the catalog.
-/

namespace CloudDrive.Store

open Path (Canonical IsComponent)
open Remote (Call CallKind DeleteReport Failure UploadFile)

/-! ## Faults -/

/-- No fault is set for calls of this kind. -/
def FreeOf (s : Store) (kind : CallKind) : Prop := ∀ f ∈ s.faults, f.kind ≠ kind

theorem takeFault_of_freeOf {s : Store} {kind : CallKind} (h : s.FreeOf kind)
    (path : Option String) : s.takeFault kind path = (none, s) := by
  have hn : s.faults.find? (·.meets kind path) = none := by
    rw [List.find?_eq_none]
    intro f hf hm
    simp only [Fault.meets, Bool.and_eq_true, beq_iff_eq] at hm
    exact h f hf hm.1
  simp [takeFault, hn]

theorem faults_takeFault (s : Store) (kind : CallKind) (path : Option String) :
    (s.takeFault kind path).2.faults ⊆ s.faults := by
  unfold takeFault
  split
  · exact List.Subset.refl _
  · split
    · exact List.eraseP_subset
    · exact List.Subset.refl _

/-- A call that takes a fault first: it ends with the failure, or goes on. -/
theorem takeFault_cases (s : Store) (kind : CallKind) (path : Option String) :
    ∃ s', s'.catalog = s.catalog ∧ s'.faults ⊆ s.faults ∧ s'.clock = s.clock ∧
      (s.takeFault kind path = (none, s') ∨ ∃ f, s.takeFault kind path = (some f, s')) := by
  refine ⟨(s.takeFault kind path).2, s.catalog_takeFault kind path, s.faults_takeFault kind path,
    ?_, ?_⟩
  · unfold takeFault
    split
    · rfl
    · split <;> rfl
  · cases h : (s.takeFault kind path).1 with
    | none => exact .inl (Prod.ext h rfl)
    | some f => exact .inr ⟨f, Prod.ext h rfl⟩

/-! ## Listings -/

theorem directoryFailure?_eq_none {s : Store} {path : String} :
    s.directoryFailure? path = none ↔ s.catalog.IsDirectory path := by
  unfold directoryFailure? Catalog.IsDirectory
  by_cases hr : path = Path.root
  · simp [hr]
  · rw [if_neg hr]
    cases s.catalog.find? path with
    | none => simp [hr]
    | some e => cases he : e.isDirectory <;> simp [hr, he]

theorem list_of_isDirectory {s : Store} (h : s.FreeOf .list) {path : String}
    (hd : s.catalog.IsDirectory path) :
    s.list path = (.ok (.ofEntries path (s.catalog.children path)), s) := by
  simp [list, takeFault_of_freeOf h, directoryFailure?_eq_none.2 hd]

theorem list_of_not_isDirectory {s : Store} (h : s.FreeOf .list) {path : String}
    (hd : ¬ s.catalog.IsDirectory path) : ∃ f, s.list path = (.error f, s) := by
  cases hf : s.directoryFailure? path with
  | none => exact absurd (directoryFailure?_eq_none.1 hf) hd
  | some f => exact ⟨f, by simp [list, takeFault_of_freeOf h, hf]⟩

/-! ## Changes -/

theorem moveFailure?_eq_none {s : Store} {source destination : String} :
    s.moveFailure? source destination = none ↔
      (s.catalog.find? source).isSome = true ∧ s.catalog.contains destination = false ∧
        Path.isWithin destination source = false ∧
        s.catalog.IsDirectory (Path.parent destination) := by
  unfold moveFailure?
  rw [← directoryFailure?_eq_none]
  cases s.catalog.find? source <;> cases s.catalog.contains destination <;>
    cases Path.isWithin destination source <;> simp

theorem movable_of_moveFailure? {s : Store} {source destination : String}
    (hd : Canonical destination) (h : s.moveFailure? source destination = none) :
    s.catalog.Movable source destination := by
  obtain ⟨h₁, h₂, h₃, h₄⟩ := moveFailure?_eq_none.1 h
  exact ⟨h₁, hd, h₂, h₃, h₄⟩

theorem move_cases (s : Store) (source destination : String) :
    (s.move source destination).2.faults ⊆ s.faults ∧
      ((∃ f, (s.move source destination).1 = .error f ∧
          (s.move source destination).2.catalog = s.catalog) ∨
        (s.move source destination).1 = .ok () ∧ s.moveFailure? source destination = none ∧
          (s.move source destination).2.catalog = s.catalog.move source destination) := by
  obtain ⟨s', hc, hf, -, h | ⟨f, h⟩⟩ := s.takeFault_cases .move (some source)
  · have hm : s'.moveFailure? source destination = s.moveFailure? source destination := by
      simp only [moveFailure?, directoryFailure?, hc]
    unfold move
    rw [h]
    simp only [hm]
    cases hr : s.moveFailure? source destination with
    | none => exact ⟨hf, .inr ⟨rfl, rfl, by rw [hc]⟩⟩
    | some f => exact ⟨hf, .inl ⟨f, rfl, hc⟩⟩
  · unfold move
    rw [h]
    exact ⟨hf, .inl ⟨f, rfl, hc⟩⟩

/-- A directory is refused, or put at a free path into a directory. -/
theorem createDirectory_cases (s : Store) (parent name : String) :
    (s.createDirectory parent name).2.faults ⊆ s.faults ∧
      ((∃ f, (s.createDirectory parent name).1 = .error f ∧
          (s.createDirectory parent name).2.catalog = s.catalog) ∨
        (s.createDirectory parent name).1 = .ok () ∧ s.catalog.IsDirectory parent ∧
          s.catalog.contains (Path.join parent name) = false ∧
          (s.createDirectory parent name).2.catalog =
            s.catalog.insert (.directory (Path.join parent name) s.clock)) := by
  obtain ⟨s', hc, hf, hclock, h | ⟨f, h⟩⟩ :=
    s.takeFault_cases .createDirectory (some (Path.join parent name))
  · have hd : s'.directoryFailure? parent = s.directoryFailure? parent := by
      simp only [directoryFailure?, hc]
    unfold createDirectory
    simp only [h, hd, hc, hclock]
    cases hr : s.directoryFailure? parent with
    | some f => exact ⟨hf, .inl ⟨f, rfl, hc⟩⟩
    | none =>
      cases hn : s.catalog.contains (Path.join parent name) with
      | true => exact ⟨hf, .inl ⟨_, rfl, hc⟩⟩
      | false =>
        refine ⟨hf, .inr ⟨rfl, directoryFailure?_eq_none.1 hr, rfl, ?_⟩⟩
        simp [insert, hc]
  · unfold createDirectory
    simp only [h]
    exact ⟨hf, .inl ⟨f, rfl, hc⟩⟩

/-- A file is refused, or put into a directory, where it may replace a file. -/
theorem upload_cases (s : Store) (file : UploadFile) (directory : String) :
    (s.upload file directory).2.faults ⊆ s.faults ∧
      ((∃ f, (s.upload file directory).1 = .error f ∧
          (s.upload file directory).2.catalog = s.catalog) ∨
        (s.upload file directory).1 = .ok () ∧ s.catalog.IsDirectory directory ∧
          (∀ x, s.catalog.find? (Path.join directory file.name) = some x →
            x.isDirectory = false) ∧
          (s.upload file directory).2.catalog = s.catalog.insert
            (.file (Path.join directory file.name) (UInt64.ofNat file.data.length) s.clock)) := by
  obtain ⟨s', hc, hf, hclock, h | ⟨f, h⟩⟩ :=
    s.takeFault_cases .upload (some (Path.join directory file.name))
  · have hd : s'.directoryFailure? directory = s.directoryFailure? directory := by
      simp only [directoryFailure?, hc]
    unfold upload
    simp only [h, hd, hc, hclock]
    cases hr : s.directoryFailure? directory with
    | some f => exact ⟨hf, .inl ⟨f, rfl, hc⟩⟩
    | none =>
      cases hn : (s.catalog.find? (Path.join directory file.name)).any (·.isDirectory) with
      | true => exact ⟨hf, .inl ⟨_, rfl, hc⟩⟩
      | false =>
        refine ⟨hf, .inr ⟨rfl, directoryFailure?_eq_none.1 hr, fun x hx => ?_, ?_⟩⟩
        · simpa [hx] using hn
        · simp [insert, hc]
  · unfold upload
    simp only [h]
    exact ⟨hf, .inl ⟨f, rfl, hc⟩⟩

/-! ## Deletions -/

/-- A report mentions each of the paths once, as deleted or as refused, and either in their order. -/
structure Covers (report : DeleteReport) (paths : List String) : Prop where
  deleted : report.deleted.Sublist paths
  failed : (report.failed.map (·.path)).Sublist paths
  perm : (report.deleted ++ report.failed.map (·.path)).Perm paths

theorem covers_nil : Covers ⟨[], []⟩ [] := ⟨.slnil, .slnil, .nil⟩

section
variable {gone : List String} {failed : List Remote.DeleteFailure} {paths : List String}
  (h : Covers ⟨gone, failed⟩ paths)
include h

theorem Covers.delete (path : String) : Covers ⟨path :: gone, failed⟩ (path :: paths) :=
  ⟨h.deleted.cons_cons path, h.failed.cons path, h.perm.cons path⟩

theorem Covers.refuse (x : Remote.DeleteFailure) :
    Covers ⟨gone, x :: failed⟩ (x.path :: paths) :=
  ⟨h.deleted.cons x.path, h.failed.cons_cons x.path,
    List.perm_middle.trans (h.perm.cons x.path)⟩

theorem Covers.eq_of_complete (hfailed : failed = []) : gone = paths := by
  subst hfailed
  have hperm := h.perm
  simp only [List.map_nil, List.append_nil] at hperm
  exact h.deleted.eq_of_length hperm.length_eq

end

theorem deleteOne_cases (s : Store) (report : DeleteReport) (path : String) :
    (s.deleteOne report path).1.faults ⊆ s.faults ∧
      ((∃ reason, (s.deleteOne report path).2 =
            ⟨report.deleted, report.failed ++ [⟨path, reason⟩]⟩ ∧
          (s.deleteOne report path).1.catalog = s.catalog) ∨
        (s.deleteOne report path).2 = ⟨report.deleted ++ [path], report.failed⟩ ∧
          (s.catalog.find? path).isSome = true ∧
          (s.deleteOne report path).1.catalog = s.catalog.eraseWithin path) := by
  obtain ⟨s', hc, hf, -, h | ⟨f, h⟩⟩ := s.takeFault_cases .delete (some path)
  · unfold deleteOne
    simp only [h, hc]
    cases hs : (s.catalog.find? path).isSome with
    | true => exact ⟨hf, .inr ⟨rfl, rfl, rfl⟩⟩
    | false => exact ⟨hf, .inl ⟨_, rfl, hc⟩⟩
  · unfold deleteOne
    simp only [h]
    exact ⟨hf, .inl ⟨_, rfl, hc⟩⟩

theorem deleteAll_cases (paths : List String) (s : Store) (report : DeleteReport) :
    let r := paths.foldl (fun (s, report) path => s.deleteOne report path) (s, report)
    r.1.faults ⊆ s.faults ∧ ∃ gone failed,
      r.2 = ⟨report.deleted ++ gone, report.failed ++ failed⟩ ∧
        r.1.catalog = s.catalog.eraseAllWithin gone ∧ Covers ⟨gone, failed⟩ paths ∧
        ∀ g ∈ gone, (s.catalog.find? g).isSome = true := by
  induction paths generalizing s report with
  | nil =>
    exact ⟨List.Subset.refl _, [], [], by simp [Catalog.eraseAllWithin, covers_nil]⟩
  | cons path paths ih =>
    obtain ⟨hf, hone⟩ := s.deleteOne_cases report path
    obtain ⟨hf', gone, failed, hr, hc, hcovers, hst⟩ :=
      ih (s.deleteOne report path).1 (s.deleteOne report path).2
    refine ⟨List.Subset.trans hf' hf, ?_⟩
    simp only [List.foldl_cons]
    rcases hone with ⟨reason, hrep, hcat⟩ | ⟨hrep, hsome, hcat⟩
    · rw [hcat] at hc hst
      refine ⟨gone, ⟨path, reason⟩ :: failed, ?_, hc, hcovers.refuse ⟨path, reason⟩, hst⟩
      rw [hr, hrep]
      simp
    · rw [hcat] at hc hst
      refine ⟨path :: gone, failed, ?_, hc, hcovers.delete path, ?_⟩
      · rw [hr, hrep]
        simp
      · intro g hg
        rcases List.mem_cons.1 hg with rfl | hg
        · exact hsome
        · have := hst g hg
          rw [Catalog.find?_eraseWithin] at this
          split at this
          · cases this
          · exact this

/-- A deletion is refused as a whole, or done for some of the paths; if none is reported as refused,
for all. -/
theorem delete_cases (s : Store) (paths : List String) :
    (s.delete paths).2.faults ⊆ s.faults ∧
      ((∃ f, (s.delete paths).1 = .error f ∧ (s.delete paths).2.catalog = s.catalog) ∨
        ∃ gone failed, (s.delete paths).1 = .ok ⟨gone, failed⟩ ∧
          (s.delete paths).2.catalog = s.catalog.eraseAllWithin gone ∧
          Covers ⟨gone, failed⟩ paths ∧
          (∀ g ∈ gone, (s.catalog.find? g).isSome = true) ∧ (failed = [] → gone = paths)) := by
  obtain ⟨s', hc, hf, -, h | ⟨f, h⟩⟩ := s.takeFault_cases .delete none
  · obtain ⟨hf', gone, failed, hr, hcat, hcovers, hst⟩ := deleteAll_cases paths s' ⟨[], []⟩
    unfold delete
    rw [h]
    rw [hc] at hcat hst
    refine ⟨List.Subset.trans hf' hf,
      .inr ⟨gone, failed, ?_, hcat, hcovers, hst, hcovers.eq_of_complete⟩⟩
    simpa using hr
  · unfold delete
    rw [h]
    exact ⟨hf, .inl ⟨f, rfl, hc⟩⟩

/-! ## The shape of the catalog -/

section
variable {s : Store} (hs : s.catalog.IsTree)
include hs

theorem isTree_move {source destination : String}
    (hd : s.moveFailure? source destination = none → Canonical destination) :
    (s.move source destination).2.catalog.IsTree := by
  rcases (s.move_cases source destination).2 with ⟨f, -, hc⟩ | ⟨-, hm, hc⟩
  · rwa [hc]
  · rw [hc]
    exact hs.move (movable_of_moveFailure? (hd hm) hm)

/-- Only a component names a new entry: an empty name would name the root. -/
theorem isTree_createDirectory {parent name : String}
    (hn : IsComponent name ∨ Path.join parent name = Path.root) :
    (s.createDirectory parent name).2.catalog.IsTree := by
  rcases (s.createDirectory_cases parent name).2 with ⟨f, -, hc⟩ | ⟨-, hd, hfree, hc⟩
  · rwa [hc]
  · have hp := hs.canonical_of_isDirectory hd
    rcases hn with hn | hn
    · rw [hc]
      refine hs.insert (Path.canonical_join hp hn) (Path.join_ne_root hp hn) ?_ fun x hx => ?_
      · show s.catalog.IsDirectory (Path.parent (Path.join parent name))
        rwa [Path.parent_join hp hn]
      · have hx : s.catalog.find? (Path.join parent name) = some x := hx
        simp [Catalog.contains, hx] at hfree
    · exact absurd hn (Catalog.ne_root_of_contains hfree)

theorem isTree_upload {file : UploadFile} {directory : String} (hn : IsComponent file.name) :
    (s.upload file directory).2.catalog.IsTree := by
  rcases (s.upload_cases file directory).2 with ⟨f, -, hc⟩ | ⟨-, hd, hold, hc⟩
  · rwa [hc]
  · have hp := hs.canonical_of_isDirectory hd
    rw [hc]
    refine hs.insert (Path.canonical_join hp hn) (Path.join_ne_root hp hn) ?_ hold
    show s.catalog.IsDirectory (Path.parent (Path.join directory file.name))
    rwa [Path.parent_join hp hn]

theorem isTree_delete {paths : List String} : (s.delete paths).2.catalog.IsTree := by
  rcases (s.delete_cases paths).2 with ⟨f, -, hc⟩ | ⟨gone, failed, -, hc, -, hst, -⟩
  · rwa [hc]
  · rw [hc]
    exact hs.eraseAllWithin hst

end

section
variable {s : Store} (hs : s.catalog.WellShaped)
include hs

theorem wellShaped_move {source destination : String}
    (hd : (s.catalog.find? source).isSome = true → Canonical destination) :
    (s.move source destination).2.catalog.WellShaped := by
  have hd : s.moveFailure? source destination = none → Canonical destination :=
    fun hm => hd (moveFailure?_eq_none.1 hm).1
  refine ⟨isTree_move hs.tree hd, ?_⟩
  rcases (s.move_cases source destination).2 with ⟨f, -, hc⟩ | ⟨-, hm, hc⟩
  · rw [hc]
    exact hs.named
  · rw [hc]
    exact hs.named.move hs.tree (movable_of_moveFailure? (hd hm) hm)

theorem wellShaped_createDirectory {parent name : String}
    (hn : IsComponent name ∨ Path.join parent name = Path.root) :
    (s.createDirectory parent name).2.catalog.WellShaped := by
  refine ⟨isTree_createDirectory hs.tree hn, ?_⟩
  rcases (s.createDirectory_cases parent name).2 with ⟨f, -, hc⟩ | ⟨-, -, -, hc⟩
  · rw [hc]
    exact hs.named
  · rw [hc]
    exact hs.named.insert rfl

theorem wellShaped_upload {file : UploadFile} {directory : String} (hn : IsComponent file.name) :
    (s.upload file directory).2.catalog.WellShaped := by
  refine ⟨isTree_upload hs.tree hn, ?_⟩
  rcases (s.upload_cases file directory).2 with ⟨f, -, hc⟩ | ⟨-, -, -, hc⟩
  · rw [hc]
    exact hs.named
  · rw [hc]
    exact hs.named.insert rfl

theorem wellShaped_delete {paths : List String} : (s.delete paths).2.catalog.WellShaped := by
  refine ⟨isTree_delete hs.tree, ?_⟩
  rcases (s.delete_cases paths).2 with ⟨f, -, hc⟩ | ⟨gone, failed, -, hc, -, -, -⟩
  · rw [hc]
    exact hs.named
  · rw [hc]
    exact hs.named.eraseAllWithin gone

end

end CloudDrive.Store
